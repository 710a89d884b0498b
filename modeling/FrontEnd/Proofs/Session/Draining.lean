import FrontEnd.Proofs.Session.Failing

/-!
# Draining in sessions

A loop that reads tokens has no bound of its own: it goes on for as long as it wants the token in
front. It ends nevertheless. An advance that answers brings a token and moves the cursor, or it ends
the input for good, so there are no more advances than characters behind the cursor and one more for
the end. The bounds that the loops of a lexer carry are never reached.

* `Lexer.Loops` — what a loop of advances without a bound comes to.
* `Lexer.ReachedIn.exists_loops`, `Lexer.ReachedIn.spends` — every loop ends, within the characters
  that are left.
* `Session.Yields`, `Session.Exhausts` — what is to come of an iterator, and its calls until one
  gives no token.
* `Session.after_draining` — advances, iterators, draining and skipping after all commands.
-/

set_option autoImplicit false

namespace FrontEnd

namespace Lexer

variable {file source : String} {lexer next left : Lexer} {place : Location} {fault : Option Fault}
  {n : Nat} {tokens : List Token} {wants : Token → Bool}

/-! ## One advance -/

/-- The input has ended for good: the cursor stands behind the last character, and all further
advances answer and change nothing. -/
structure EndedIn (source : String) (lexer : Lexer) : Prop where
  ended : lexer.lookahead = .ended
  pos : lexer.cursor.pos = source.length
  answers : lexer.advance = .ok lexer.location lexer
  stays : ∀ n, advanced^[n] lexer = lexer

theorem ReachedIn.endedIn (h : ReachedIn file source lexer) (hended : lexer.lookahead = .ended) :
    lexer.EndedIn source := by
  have hstay : lexer.advance = .ok lexer.location lexer := advance_of_ended hended
  have hfixed : lexer.advanced = lexer := Rule.after_of_ok hstay
  exact ⟨hended, Reached.pos_of_ended h hended, hstay, Function.iterate_fixed hfixed⟩

/-- **An advance that answers brings a token and moves the cursor, or ends the input for good.** -/
theorem ReachedIn.cases_of_advance (h : ReachedIn file source lexer)
    (hgoing : lexer.lookahead ≠ .ended) (hadvance : lexer.advance = .ok place next) :
    (∃ token, next.lookahead = .ready token ∧ lexer.cursor.pos < next.cursor.pos) ∨
      next.EndedIn source := by
  rcases cases_of_advance_ok hadvance with
    ⟨hended, -⟩ | ⟨-, rfl⟩ | ⟨c, rest, lexeme, -, hrest, hfound, hcursor, hlook⟩
  · exact absurd hended hgoing
  · exact .inr ((h.of_advance hadvance).endedIn rfl)
  · exact .inl ⟨_, hlook, (frontBehind_scanned h hrest hfound hcursor hlook).2⟩

/-! ## Loops -/

/-- What a loop comes to that looks at the token in front and goes over it by an advance, for as
long as there is one that it wants. It has no bound. The number is that of its advances, the tokens
are those that it goes over, and the fault, if there is one, is that of its last advance. -/
inductive Loops (wants : Token → Bool) : Lexer → Nat → List Token → Option Fault → Lexer → Prop
  | stop {lexer : Lexer} (hfront : lexer.lookahead.token?.any wants = false) :
      Loops wants lexer 0 [] none lexer
  | turn {lexer next left : Lexer} {token : Token} {place : Location} {n : Nat}
      {tokens : List Token} {fault : Option Fault} (hfront : lexer.lookahead = .ready token)
      (hwants : wants token = true) (hadvance : lexer.advance = .ok place next)
      (hrest : Loops wants next n tokens fault left) :
      Loops wants lexer (n + 1) (token :: tokens) fault left
  | fault {lexer left : Lexer} {token : Token} {fault : Fault}
      (hfront : lexer.lookahead = .ready token) (hwants : wants token = true)
      (hadvance : lexer.advance = .error fault left) :
      Loops wants lexer 1 [token] (some fault) left

/-- A number of advances leads from one lexer to another, and it is at most that of the characters
behind the cursor, and one. -/
structure Spends (source : String) (lexer : Lexer) (n : Nat) (left : Lexer) : Prop where
  left_eq : left = advanced^[n] lexer
  le : n + lexer.cursor.pos ≤ source.length + 1

theorem ReachedIn.pos_le (h : ReachedIn file source lexer) : lexer.cursor.pos ≤ source.length :=
  String.length_toList ▸ h.standsIn.pos_le

theorem ReachedIn.le_left (h : ReachedIn file source lexer) (hspends : lexer.Spends source n left) :
    n ≤ lexer.left := by
  have hle := hspends.le
  rw [Lexer.left, h.size_eq, String.length_toList]
  omega

theorem ReachedIn.spends_zero (h : ReachedIn file source lexer) : lexer.Spends source 0 lexer :=
  ⟨rfl, by have := h.pos_le; omega⟩

theorem ReachedIn.spends_one (h : ReachedIn file source lexer) :
    lexer.Spends source 1 lexer.advanced :=
  ⟨rfl, by have := h.pos_le; omega⟩

/-- At the end of the input a loop stops at once. -/
theorem Loops.eq_of_ended (h : Loops wants lexer n tokens fault left)
    (hended : lexer.lookahead = .ended) : n = 0 ∧ left = lexer := by
  cases h with
  | stop => exact ⟨rfl, rfl⟩
  | turn hfront => exact nomatch hended.symm.trans hfront
  | fault hfront => exact nomatch hended.symm.trans hfront

/-- One more advance in front of a loop: either it moved the cursor, or the loop stops. -/
theorem ReachedIn.spends_succ (h : ReachedIn file source lexer)
    (hadvance : lexer.advance = .ok place next) (hloops : Loops wants next n tokens fault left)
    (hspends : next.Spends source n left) : lexer.Spends source (n + 1) left := by
  have hnext : lexer.advanced = next := Rule.after_of_ok hadvance
  by_cases hended : next.lookahead = .ended
  · obtain ⟨rfl, rfl⟩ := hloops.eq_of_ended hended
    exact hnext ▸ h.spends_one
  · have hgoing : lexer.lookahead ≠ .ended := by
      intro hstopped
      rw [advance_of_ended hstopped] at hadvance
      cases hadvance
      exact hended hstopped
    rcases h.cases_of_advance hgoing hadvance with ⟨-, -, hlt⟩ | hover
    · refine ⟨?_, ?_⟩
      · rw [Function.iterate_succ_apply, hnext]
        exact hspends.left_eq
      · have hle := hspends.le
        omega
    · exact absurd hover.ended hended

/-- **A loop spends no more advances than characters are left, and one.** -/
theorem ReachedIn.spends (h : ReachedIn file source lexer)
    (hloops : Loops wants lexer n tokens fault left) : lexer.Spends source n left := by
  induction hloops with
  | stop => exact h.spends_zero
  | turn _ _ hadvance hrest ih => exact h.spends_succ hadvance hrest (ih (h.of_advance hadvance))
  | fault _ _ hadvance => exact Rule.after_of_error hadvance ▸ h.spends_one

/-- **Every loop ends**, whatever tokens it wants. -/
theorem ReachedIn.exists_loops (h : ReachedIn file source lexer) (wants : Token → Bool) :
    ∃ n tokens fault left, Loops wants lexer n tokens fault left := by
  -- the characters behind the cursor become fewer with every token
  induction hbehind : source.length - lexer.cursor.pos using Nat.strongRecOn generalizing lexer with
  | _ behind ih =>
    cases hfront : lexer.lookahead.token?.any wants with
    | false => exact ⟨0, [], none, lexer, .stop hfront⟩
    | true =>
      obtain ⟨token, hready, hwants⟩ := Lookahead.any_token?_iff.mp hfront
      cases hadvance : lexer.advance with
      | error fault left => exact ⟨1, [token], some fault, left, .fault hready hwants hadvance⟩
      | ok place next =>
        have hnext : ReachedIn file source next := h.of_advance hadvance
        rcases h.cases_of_advance (by simp [hready]) hadvance with ⟨-, -, hlt⟩ | hended
        · have hle := hnext.pos_le
          obtain ⟨n, tokens, fault, left, hloops⟩ := ih _ (by omega) hnext rfl
          exact ⟨n + 1, token :: tokens, fault, left, .turn hready hwants hadvance hloops⟩
        · have hstop : next.lookahead.token?.any wants = false := by rw [hended.ended]; rfl
          exact ⟨1, [token], none, next, .turn hready hwants hadvance (.stop hstop)⟩

/-! ## The loops of a lexer -/

/-- What a rule comes to that answers with a value unless a fault stops it. -/
def outcome {α : Type} (left : Lexer) (fault : Option Fault) (value : α) :
    EStateM.Result Fault Lexer α :=
  match fault with
  | none => .ok value left
  | some fault => .error fault left

theorem fault_of_outcome {α : Type} {rule : Rule Lexer α} {value : α} {found : Fault}
    (h : rule lexer = left.outcome fault value) (hanswer : rule.answer lexer = .error found) :
    fault = some found := by
  cases fault with
  | none => simp [Rule.answer, h, outcome] at hanswer
  | some fault => simpa [Rule.answer, h, outcome] using hanswer

theorem skipUpTo_succ_of_ready {token : Token} (bound : Nat)
    (hfront : lexer.lookahead = .ready token)
    (his : token.lexeme.is Lexeme.semicolon.form = true) :
    Rule.skipUpTo (bound + 1) lexer =
      ((Rule.advance : Rule Lexer Location) >>= fun _ => Rule.skipUpTo bound) lexer := by
  have hahead : Rule.ahead Lexeme.semicolon.form lexer = .ok true lexer := by
    rw [Rule.ahead_eq, show Feed.lookahead lexer = .ready token from hfront, ← his]
    rfl
  rw [Rule.skipUpTo, Rule.bind_of_ok hahead]
  rfl

/-- Skipping separators is the loop over them, if the bound leaves room for all of its advances. -/
theorem Loops.skipUpTo_eq {bound : Nat}
    (h : Loops (·.lexeme.is Lexeme.semicolon.form) lexer n tokens fault left) (hbound : n ≤ bound) :
    Rule.skipUpTo bound lexer = left.outcome fault () := by
  induction h generalizing bound with
  | @stop lexer hfront =>
    cases bound with
    | zero => rfl
    | succ bound =>
      have hahead : Rule.ahead Lexeme.semicolon.form lexer = .ok false lexer := by
        rw [Rule.ahead_eq, ← hfront]
        rfl
      rw [Rule.skipUpTo, Rule.bind_of_ok hahead]
      rfl
  | @turn lexer next left token place n tokens fault hfront his hadvance _ ih =>
    obtain ⟨bound, rfl⟩ := Nat.exists_eq_add_of_le' hbound
    have hstep : (Rule.advance : Rule Lexer Location) lexer = .ok place next := hadvance
    rw [← Nat.add_assoc, skipUpTo_succ_of_ready _ hfront his, Rule.bind_of_ok hstep]
    exact ih (Nat.le_add_left _ _)
  | @fault lexer left token fault hfront his hadvance =>
    obtain ⟨bound, rfl⟩ := Nat.exists_eq_add_of_le' hbound
    have hstep : (Rule.advance : Rule Lexer Location) lexer = .error fault left := hadvance
    rw [skipUpTo_succ_of_ready _ hfront his, Rule.bind_of_error hstep]
    rfl

theorem begin_of_unstarted (hfront : lexer.lookahead = .unstarted) :
    (Rule.begin : Rule Lexer Unit) lexer = (discard Rule.advance : Rule Lexer Unit) lexer := by
  rw [Rule.begin, Rule.bind_of_ok (Rule.look_eq lexer),
    show Feed.lookahead lexer = .unstarted from hfront]

theorem begin_of_begun (hfront : lexer.lookahead ≠ .unstarted) :
    (Rule.begin : Rule Lexer Unit) lexer = .ok () lexer := by
  rw [Rule.begin, Rule.bind_of_ok (Rule.look_eq lexer)]
  cases hlook : Feed.lookahead lexer with
  | unstarted => exact absurd hlook hfront
  | ready token => rfl
  | ended => rfl

/-- A rule that is an advance ends as the advance does. -/
theorem cases_of_discard {rule : Rule Lexer Unit}
    (hrule : rule lexer = (discard Rule.advance : Rule Lexer Unit) lexer) :
    (∃ place next, lexer.advance = .ok place next ∧ rule lexer = .ok () next) ∨
      ∃ fault left, lexer.advance = .error fault left ∧ rule lexer = .error fault left := by
  rw [hrule]
  cases hadvance : lexer.advance with
  | ok place next => exact .inl ⟨place, next, rfl, Rule.bind_of_ok hadvance⟩
  | error fault left => exact .inr ⟨fault, left, rfl, Rule.bind_of_error hadvance⟩

theorem drainUpTo_succ_of_ready {token : Token} (bound : Nat)
    (hfront : lexer.lookahead = .ready token) :
    Session.drainUpTo (bound + 1) lexer =
      ((Rule.advance : Rule Lexer Location) >>= fun _ =>
        Session.drainUpTo bound >>= fun tokens => pure (token :: tokens)) lexer := by
  have hpeek : (Rule.peek : Rule Lexer (Option Token)) lexer = .ok (some token) lexer := by
    rw [Rule.peek_eq, show Feed.lookahead lexer = .ready token from hfront]
    rfl
  rw [Session.drainUpTo, Rule.bind_of_ok hpeek]

/-- Draining is the loop over all tokens, if the bound leaves room for all of its advances. -/
theorem Loops.drainUpTo_eq {bound : Nat} (h : Loops (fun _ => true) lexer n tokens fault left)
    (hbound : n ≤ bound) : Session.drainUpTo bound lexer = left.outcome fault tokens := by
  induction h generalizing bound with
  | @stop lexer hfront =>
    cases bound with
    | zero => rfl
    | succ bound =>
      have hnone : lexer.lookahead.token? = none := by simpa using hfront
      have hpeek : (Rule.peek : Rule Lexer (Option Token)) lexer = .ok none lexer :=
        hnone ▸ Rule.peek_eq lexer
      rw [Session.drainUpTo, Rule.bind_of_ok hpeek]
      rfl
  | @turn lexer next left token place n tokens fault hfront _ hadvance _ ih =>
    obtain ⟨bound, rfl⟩ := Nat.exists_eq_add_of_le' hbound
    have hstep : (Rule.advance : Rule Lexer Location) lexer = .ok place next := hadvance
    have hrest := ih (Nat.le_add_left n bound)
    rw [← Nat.add_assoc, drainUpTo_succ_of_ready _ hfront, Rule.bind_of_ok hstep]
    cases fault with
    | none => exact Rule.bind_of_ok hrest
    | some fault => exact Rule.bind_of_error hrest
  | @fault lexer left token fault hfront _ hadvance =>
    obtain ⟨bound, rfl⟩ := Nat.exists_eq_add_of_le' hbound
    have hstep : (Rule.advance : Rule Lexer Location) lexer = .error fault left := hadvance
    rw [drainUpTo_succ_of_ready _ hfront, Rule.bind_of_error hstep]
    rfl

end Lexer

/-! ## Iterators -/

/-- The advances of one call of an iterator. The first call begins a lexer that was not begun, later
ones go over the token that the call before gave, and behind its end an iterator makes none. -/
def TokenIterator.advances : TokenIterator → Lookahead → Nat
  | .fresh, .unstarted => 1
  | .running, _ => 1
  | _, _ => 0

namespace Session

variable {file source : String} {lexer next left : Lexer} {iterator : TokenIterator} {n : Nat}
  {tokens : List Token} {fault : Option Fault}

/-- Before it looks at the token in front, an iterator makes its one advance, if it makes one. -/
theorem cases_of_prepare (hgoing : iterator ≠ .finished) (lexer : Lexer) :
    (iterator.advances lexer.lookahead = 0 ∧ TokenIterator.prepare iterator lexer = .ok () lexer) ∨
      iterator.advances lexer.lookahead = 1 ∧
        ((∃ place next, lexer.advance = .ok place next ∧
            TokenIterator.prepare iterator lexer = .ok () next) ∨
          ∃ fault left, lexer.advance = .error fault left ∧
            TokenIterator.prepare iterator lexer = .error fault left) := by
  cases iterator with
  | fresh =>
    cases hfront : lexer.lookahead with
    | unstarted => exact .inr ⟨rfl, Lexer.cases_of_discard (Lexer.begin_of_unstarted hfront)⟩
    | ready token => exact .inl ⟨rfl, Lexer.begin_of_begun (by simp [hfront])⟩
    | ended => exact .inl ⟨rfl, Lexer.begin_of_begun (by simp [hfront])⟩
  | running => exact .inr ⟨rfl, Lexer.cases_of_discard rfl⟩
  | finished => exact absurd rfl hgoing

/-- What is to come of an iterator that has not ended: it prepares, and then it gives each token in
front and goes over it. -/
inductive Yields (iterator : TokenIterator) (lexer : Lexer) :
    Nat → List Token → Option Fault → Lexer → Prop
  | fault {fault : Fault} {left : Lexer}
      (hprepare : TokenIterator.prepare iterator lexer = .error fault left) :
      Yields iterator lexer (iterator.advances lexer.lookahead) [] (some fault) left
  | loop {next left : Lexer} {n : Nat} {tokens : List Token} {fault : Option Fault}
      (hprepare : TokenIterator.prepare iterator lexer = .ok () next)
      (hloops : next.Loops (fun _ => true) n tokens fault left) :
      Yields iterator lexer (n + iterator.advances lexer.lookahead) tokens fault left

/-- **What is to come of an iterator ends**, within the characters that are left. -/
theorem exists_yields (h : Lexer.ReachedIn file source lexer) (hgoing : iterator ≠ .finished) :
    ∃ n tokens fault left, Yields iterator lexer n tokens fault left ∧
      lexer.Spends source n left := by
  rcases cases_of_prepare hgoing lexer with ⟨hzero, hprepare⟩ |
    ⟨hone, ⟨place, next, hadvance, hprepare⟩ | ⟨fault, left, hadvance, hprepare⟩⟩
  · obtain ⟨n, tokens, fault, left, hloops⟩ := h.exists_loops fun _ => true
    exact ⟨_, _, _, _, .loop hprepare hloops, hzero ▸ h.spends hloops⟩
  · have hnext := h.of_advance hadvance
    obtain ⟨n, tokens, fault, left, hloops⟩ := hnext.exists_loops fun _ => true
    exact ⟨_, _, _, _, .loop hprepare hloops,
      hone ▸ h.spends_succ hadvance hloops (hnext.spends hloops)⟩
  · have hleft : lexer.advanced = left := Rule.after_of_error hadvance
    exact ⟨_, _, _, _, .fault hprepare, hone ▸ hleft ▸ h.spends_one⟩

/-- Draining a lexer is what is to come of a new iterator. -/
theorem Yields.drain_eq (h : Lexer.ReachedIn file source lexer)
    (hyields : Yields .fresh lexer n tokens fault left) :
    drain lexer = left.outcome fault tokens := by
  cases hyields with
  | fault hprepare => exact Rule.bind_of_error hprepare
  | @loop next _ n _ _ hprepare hloops =>
    have hnext : Lexer.ReachedIn file source next := by
      obtain ⟨-, hreached⟩ := keeps_prepare (Lexer.lasting_reached Brackets.sound_none) .fresh lexer
        (fun h => ⟨.refl _, h⟩) h
      rwa [Rule.after_of_ok hprepare] at hreached
    have hbound : n ≤ next.left := hnext.le_left (hnext.spends hloops)
    rw [Session.drain, Rule.bind_of_ok (show Rule.begin lexer = .ok () next from hprepare)]
    exact hloops.drainUpTo_eq (Nat.le_succ_of_le hbound)

/-! ## Calls of an iterator -/

variable {session : Session} {i : Nat}

/-- The advances of the next call of an iterator of a session. -/
def advancesOf (session : Session) (i : Nat) : Nat :=
  match session.iterators[i]? with
  | none => 0
  | some iterator => iterator.advances session.lexer.lookahead

/-- What the calls of an iterator come to until one of them gives no token or fails: the advances of
all calls, the tokens, and the fault. There is no bound on the number of calls. -/
inductive Exhausts (i : Nat) : Session → Nat → List Token → Option Fault → Session → Prop
  | stop {session last : Session} (hcall : session.next i = (.ok (.token none), last)) :
      Exhausts i session (session.advancesOf i) [] none last
  | fault {session last : Session} {fault : Fault} (hcall : session.next i = (.error fault, last)) :
      Exhausts i session (session.advancesOf i) [] (some fault) last
  | token {session mid last : Session} {token : Token} {n : Nat} {tokens : List Token}
      {fault : Option Fault} (hcall : session.next i = (.ok (.token (some token)), mid))
      (hrest : Exhausts i mid n tokens fault last) :
      Exhausts i session (n + session.advancesOf i) (token :: tokens) fault last

theorem advancesOf_eq (hi : session.iterators[i]? = some iterator) :
    session.advancesOf i = iterator.advances session.lexer.lookahead := by
  rw [advancesOf, hi]

/-- A session whose iterator has come to a state, with a lexer. -/
def withIterator (session : Session) (i : Nat) (lexer : Lexer) (iterator : TokenIterator) :
    Session :=
  { session with
    lexer := lexer
    iterators := session.iterators.setIfInBounds i iterator }

theorem getElem?_withIterator (hi : session.iterators[i]? = some iterator) (lexer : Lexer)
    (iterator' : TokenIterator) :
    (session.withIterator i lexer iterator').iterators[i]? = some iterator' := by
  obtain ⟨hlt, -⟩ := Array.getElem?_eq_some_iff.mp hi
  exact Array.getElem?_setIfInBounds_self_of_lt hlt

/-- A call fails where the iterator fails to prepare. -/
theorem next_of_error {fault : Fault} (hi : session.iterators[i]? = some iterator)
    (hgoing : iterator ≠ .finished)
    (hprepare : TokenIterator.prepare iterator session.lexer = .error fault left) :
    session.next i = (.error fault, session.withIterator i left .finished) := by
  cases iterator with
  | finished => exact absurd rfl hgoing
  | fresh => simp [Session.next, hi, hprepare, withIterator]
  | running => simp [Session.next, hi, hprepare, withIterator]

/-- Otherwise it ends the iterator where no token is in front. -/
theorem next_of_none (hi : session.iterators[i]? = some iterator) (hgoing : iterator ≠ .finished)
    (hprepare : TokenIterator.prepare iterator session.lexer = .ok () next)
    (hfront : next.lookahead.token? = none) :
    session.next i = (.ok (.token none), session.withIterator i next .finished) := by
  cases iterator with
  | finished => exact absurd rfl hgoing
  | fresh => simp [Session.next, hi, hprepare, hfront, withIterator]
  | running => simp [Session.next, hi, hprepare, hfront, withIterator]

/-- And it gives the token in front if there is one. -/
theorem next_of_ready {token : Token} (hi : session.iterators[i]? = some iterator)
    (hgoing : iterator ≠ .finished)
    (hprepare : TokenIterator.prepare iterator session.lexer = .ok () next)
    (hfront : next.lookahead = .ready token) :
    session.next i = (.ok (.token (some token)), session.withIterator i next .running) := by
  have hsome : next.lookahead.token? = some token := congrArg Lookahead.token? hfront
  cases iterator with
  | finished => exact absurd rfl hgoing
  | fresh => simp [Session.next, hi, hprepare, hsome, withIterator]
  | running => simp [Session.next, hi, hprepare, hsome, withIterator]

/-- The calls of an iterator give the tokens of the loop behind its preparation. -/
theorem exhausts_of_loops (hi : session.iterators[i]? = some iterator)
    (hgoing : iterator ≠ .finished)
    (hprepare : TokenIterator.prepare iterator session.lexer = .ok () next)
    (hloops : next.Loops (fun _ => true) n tokens fault left) :
    ∃ last, session.Exhausts i (n + session.advancesOf i) tokens fault last ∧
      last.lexer = left := by
  induction hloops generalizing session iterator with
  | @stop lexer hfront =>
    have hnone : lexer.lookahead.token? = none := by simpa using hfront
    rw [Nat.zero_add]
    exact ⟨_, .stop (next_of_none hi hgoing hprepare hnone), rfl⟩
  | @turn lexer next left token place n tokens fault hfront _ hadvance _ ih =>
    have hi' := getElem?_withIterator hi lexer .running
    have hprepare' : TokenIterator.prepare .running lexer = .ok () next := Rule.bind_of_ok hadvance
    obtain ⟨last, hexhausts, hlast⟩ := ih hi' nofun hprepare'
    rw [advancesOf_eq hi'] at hexhausts
    exact ⟨last, .token (next_of_ready hi hgoing hprepare hfront) hexhausts, hlast⟩
  | @fault lexer left token fault hfront _ hadvance =>
    have hi' := getElem?_withIterator hi lexer .running
    have hprepare' : TokenIterator.prepare .running lexer = .error fault left :=
      Rule.bind_of_error hadvance
    have hexhausts := Exhausts.fault (next_of_error hi' nofun hprepare')
    rw [advancesOf_eq hi'] at hexhausts
    exact ⟨_, .token (next_of_ready hi hgoing hprepare hfront) hexhausts, rfl⟩

theorem Yields.exhausts (hi : session.iterators[i]? = some iterator) (hgoing : iterator ≠ .finished)
    (h : Yields iterator session.lexer n tokens fault left) :
    ∃ last, session.Exhausts i n tokens fault last ∧ last.lexer = left := by
  cases h with
  | fault hprepare =>
    rw [← advancesOf_eq hi]
    exact ⟨_, .fault (next_of_error hi hgoing hprepare), rfl⟩
  | loop hprepare hloops =>
    rw [← advancesOf_eq hi]
    exact exhausts_of_loops hi hgoing hprepare hloops

/-- **The calls of an iterator end**, within the characters that are left. -/
theorem exists_exhausts (h : Lexer.ReachedIn file source session.lexer) (i : Nat) :
    ∃ n tokens fault last, session.Exhausts i n tokens fault last ∧
      session.lexer.Spends source n last.lexer := by
  have hnothing : session.next i = (.ok (.token none), session) → session.advancesOf i = 0 →
      ∃ n tokens fault last, session.Exhausts i n tokens fault last ∧
        session.lexer.Spends source n last.lexer :=
    fun hcall hzero => ⟨_, _, _, _, .stop hcall, hzero ▸ h.spends_zero⟩
  cases hi : session.iterators[i]? with
  | none => exact hnothing (by simp [Session.next, hi]) (by simp [advancesOf, hi])
  | some iterator =>
    by_cases hgoing : iterator = .finished
    · subst hgoing
      exact hnothing (by simp [Session.next, hi]) (advancesOf_eq hi)
    · obtain ⟨n, tokens, fault, left, hyields, hspends⟩ := exists_yields h hgoing
      obtain ⟨last, hexhausts, rfl⟩ := hyields.exhausts hi hgoing
      exact ⟨n, tokens, fault, last, hexhausts, hspends⟩

/-! ## Sessions -/

/-- **Draining always ends**, after all commands, failed ones and resets among them, and at every
point in between. An advance that answers brings a token and moves the cursor, or it ends the input
for good. So the calls of any iterator come to an end, draining comes to what the calls of a new
iterator come to, and skipping separators to the loop over them, none of which has a bound; and none
of them makes more advances than characters are behind the cursor, and one. -/
theorem after_draining (file source : String) :
    (∀ commands, Lexer.Reached (.ofSource file source)
      ((ofSource file source).after commands).lexer) ∧
    ∀ session : Session, Lexer.Reached (.ofSource file source) session.lexer →
      let lexer := session.lexer
      (lexer.lookahead ≠ .ended → ∀ place next, lexer.advance = .ok place next →
        (∃ token, next.lookahead = .ready token ∧ lexer.cursor.pos < next.cursor.pos) ∨
          next.EndedIn source) ∧
      (∀ i, ∃ n tokens fault last, session.Exhausts i n tokens fault last ∧
        lexer.Spends source n last.lexer) ∧
      (∃ n tokens fault last,
        (session.step .iterate).2.Exhausts session.iterators.size n tokens fault last ∧
          drain lexer = last.lexer.outcome fault tokens ∧ lexer.Spends source n last.lexer) ∧
      ∃ n tokens fault left,
        lexer.Loops (·.lexeme.is Lexeme.semicolon.form) n tokens fault left ∧
          Rule.skipSemicolons lexer = left.outcome fault () ∧ lexer.Spends source n left := by
  constructor
  · exact reached_after file source
  intro session hreached lexer
  have hreached : Lexer.ReachedIn file source lexer := hreached
  refine ⟨fun hgoing place next => hreached.cases_of_advance hgoing, exists_exhausts hreached,
    ?_, ?_⟩
  · have hgoing : TokenIterator.fresh ≠ .finished := nofun
    obtain ⟨n, tokens, fault, left, hyields, hspends⟩ := exists_yields hreached hgoing
    have hi : (session.step .iterate).2.iterators[session.iterators.size]? = some .fresh :=
      Array.getElem?_push_size
    obtain ⟨last, hexhausts, rfl⟩ := hyields.exhausts hi hgoing
    exact ⟨n, tokens, fault, last, hexhausts, hyields.drain_eq hreached, hspends⟩
  · obtain ⟨n, tokens, fault, left, hloops⟩ :=
      hreached.exists_loops (·.lexeme.is Lexeme.semicolon.form)
    have hspends := hreached.spends hloops
    exact ⟨n, tokens, fault, left, hloops, hloops.skipUpTo_eq (hreached.le_left hspends), hspends⟩

/-- An iterator has given the first separator, and the lexer is set back to it. The next advance
brings the second one; behind it the iterator and skipping fail at the square bracket. -/
theorem after_draining_of_separators :
    let source := "( a ; ; ] b"
    let session := (ofSource "m" source).after
      [.iterate, .next 0, .next 0, .next 0, .mark, .next 0, .reset 0]
    let square : Fault :=
      .diagnostic ⟨⟨"m", 1, 8⟩, .mismatched .square .paren ⟨"m", 1, 0⟩, .error⟩
    session.lexer.lookahead ≠ .ended ∧
      session.lexer.advance = .ok ⟨"m", 1, 6⟩ session.lexer.advanced ∧
      session.lexer.cursor.pos < session.lexer.advanced.cursor.pos ∧
      (∃ n tokens fault last, session.Exhausts 0 n tokens fault last ∧ n + 5 ≤ 12) ∧
      ∃ n tokens left,
        session.lexer.Loops (·.lexeme.is Lexeme.semicolon.form) n tokens (some square) left ∧
          n + 5 ≤ 12 := by
  intro source session square
  obtain ⟨hreached, hdrains⟩ := after_draining "m" source
  obtain ⟨hadvances, hcalls, -, hskips⟩ := hdrains session (hreached _)
  have hgoing : session.lexer.lookahead ≠ .ended := by decide +kernel
  have hanswer : Rule.answer Lexer.advance session.lexer = .ok ⟨"m", 1, 6⟩ := by decide +kernel
  have hadvance : session.lexer.advance = .ok ⟨"m", 1, 6⟩ session.lexer.advanced :=
    Rule.eq_ok_of_answer hanswer
  have hready : session.lexer.advanced.lookahead ≠ .ended := by decide +kernel
  have hpos : session.lexer.cursor.pos = 5 := by decide +kernel
  have hlength : source.length = 11 := by decide +kernel
  refine ⟨hgoing, hadvance, ?_, ?_, ?_⟩
  · obtain ⟨token, -, hlt⟩ :=
      (hadvances hgoing _ _ hadvance).resolve_right fun hended => hready hended.ended
    exact hlt
  · obtain ⟨n, tokens, fault, last, hexhausts, hspends⟩ := hcalls 0
    have hle := hspends.le
    rw [hpos, hlength] at hle
    exact ⟨n, tokens, fault, last, hexhausts, hle⟩
  · have hstopped : Rule.answer Rule.skipSemicolons session.lexer = .error square := by
      decide +kernel
    obtain ⟨n, tokens, fault, left, hloops, hskip, hspends⟩ := hskips
    have hle := hspends.le
    rw [hpos, hlength] at hle
    obtain rfl : fault = some square := Lexer.fault_of_outcome hskip hstopped
    exact ⟨n, tokens, left, hloops, hle⟩

end Session

end FrontEnd
