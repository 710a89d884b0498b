import FrontEnd.Proofs.Tape.Bounds
import FrontEnd.Proofs.Tree.Moved

/-!
# Feeds shown as tapes

A tape may show what a feed has to offer, with all locations moved. If every step of the feed is
seen as the same step of the tape, then every rule is seen as itself: over the feed and over the
tape it answers the same tree, moved, or it stops for the same reason.

The rules do not look at all of a feed. Of a token they see the lexeme and the location, and
separators they only skip, as many as there are. A tape that agrees with a feed as far as that goes
is enough.

* `Likeness` — which tapes are like which feeds, as far as rules look.
* `Showing` — which tapes show which feeds, with the steps that keep it.
* `Rule.Runs` — a rule over a feed and one over a tape do the same.
* `Grammar.runs_file` — every rule of the grammar does the same over both.
-/

set_option autoImplicit false

namespace FrontEnd

/-- What a feed and a tape lead to is the same: answers that correspond by `f`, with what is left
related by `shows`, or faults that are related by `faults`. -/
def SameResult {σ α β : Type} (faults : Fault → Fault → Prop) (shows : σ → Tape → Prop)
    (f : α → β) : EStateM.Result Fault σ α → EStateM.Result Fault Tape β → Prop
  | .ok value feed, .ok value' tape => value' = f value ∧ shows feed tape
  | .error fault _, .error fault' _ => faults fault fault'
  | _, _ => False

/-- What is left may be related in another way, as far as it is left by the answer. -/
theorem SameResult.mono {σ α β : Type} {faults : Fault → Fault → Prop}
    {shows shows' : σ → Tape → Prop} {f : α → β} {result : EStateM.Result Fault σ α}
    {result' : EStateM.Result Fault Tape β} (h : SameResult faults shows f result result')
    (himp : ∀ {value feed tape}, result = .ok value feed → shows feed tape → shows' feed tape) :
    SameResult faults shows' f result result' := by
  cases result with
  | ok value feed =>
    cases result' with
    | ok value' tape => exact ⟨h.1, himp rfl h.2⟩
    | error fault' tape => exact h.elim
  | error fault feed =>
    cases result' with
    | ok value' tape => exact h.elim
    | error fault' tape => exact h

/-- The answers correspond, or both rules stop. -/
theorem SameResult.answers {σ α β : Type} {faults : Fault → Fault → Prop}
    {shows : σ → Tape → Prop} {f : α → β} {rule : Rule σ α} {rule' : Rule Tape β} {feed : σ}
    {tape : Tape} (h : SameResult faults shows f (rule feed) (rule' tape)) :
    (∃ value, rule.answer feed = .ok value ∧ rule'.answer tape = .ok (f value)) ∨
      ∃ fault fault', rule.answer feed = .error fault ∧ rule'.answer tape = .error fault' ∧
        faults fault fault' := by
  unfold Rule.answer
  cases hr : rule feed with
  | ok value left =>
    cases hr' : rule' tape with
    | ok value' left' =>
      rw [hr, hr'] at h
      exact .inl ⟨value, rfl, congrArg Except.ok h.1⟩
    | error fault' left' =>
      rw [hr, hr'] at h
      exact h.elim
  | error fault left =>
    cases hr' : rule' tape with
    | ok value' left' =>
      rw [hr, hr'] at h
      exact h.elim
    | error fault' left' =>
      rw [hr, hr'] at h
      exact .inr ⟨fault, fault', rfl, rfl, h⟩

/-- Faults that differ in their locations only. -/
def MovedFault (move : Location → Location) (fault fault' : Fault) : Prop :=
  fault' = fault.relocate move

/-- What is in front, with another token in the place of a token. -/
def Lookahead.map (see : Token → Token) : Lookahead → Lookahead
  | .unstarted => .unstarted
  | .ready token => .ready (see token)
  | .ended => .ended

@[simp] theorem Lookahead.token?_map (see : Token → Token) (lookahead : Lookahead) :
    (lookahead.map see).token? = lookahead.token?.map see := by
  cases lookahead <;> rfl

/-- A way in which tapes are like feeds. A token is seen as a token with its lexeme. Tokens that are
no separators are read over one by one, and separators are skipped together. The relation `follows`
says which feeds may be set back to the marks of which; it is what resets need. -/
structure Likeness (σ : Type) [Feed σ] where
  move : Location → Location
  see : Token → Token
  faults : Fault → Fault → Prop
  shows : σ → Tape → Prop
  follows : σ → σ → Prop
  lasting : Feed.Lasting follows
  lexeme_see : ∀ token, (see token).lexeme = token.lexeme
  location_see : ∀ token, (see token).location = move token.location
  fail : ∀ {location cause}, cause.relocate move = cause →
    faults (.diagnostic ⟨location, cause, .error⟩) (.diagnostic ⟨move location, cause, .error⟩)
  lookahead : ∀ {feed tape}, shows feed tape → tape.lookahead = (Feed.lookahead feed).map see
  location : ∀ {feed tape}, shows feed tape → (Feed.lookahead feed).token? = none →
    tape.location = move (Feed.location feed)
  left : ∀ {feed tape}, shows feed tape → tape.size ≤ Feed.left feed
  advance : ∀ {feed tape}, shows feed tape →
    (∀ token, Feed.lookahead feed = .ready token → token.lexeme ≠ .semicolon) →
      SameResult faults shows move (Feed.advance feed) tape.advance
  skip : ∀ {feed tape}, shows feed tape →
    SameResult faults shows id (Rule.skipSemicolons feed) (Rule.skipSemicolons tape)
  note : ∀ {feed tape} (event : Event), shows feed tape → shows (Feed.note event feed) tape
  rewind : ∀ {marked feed tape}, shows marked tape → follows marked feed →
    shows (Feed.reset (Feed.mark marked) feed) tape

theorem Likeness.name?_see {σ : Type} [Feed σ] (likeness : Likeness σ) (token : Token) :
    (likeness.see token).name? = token.name? := by
  rw [Token.name?, Token.name?, likeness.lexeme_see]

/-- A token that may be a name is no separator. -/
theorem Token.lexeme_ne_of_name? {token : Token} {name : String} (h : token.name? = some name) :
    token.lexeme ≠ .semicolon := by
  intro hlexeme
  rw [Token.name?, hlexeme] at h
  cases h

/-- A token that is the expected one is no separator if no separator was expected. -/
theorem Token.lexeme_ne_of_is {token : Token} {form : Form} (h : token.lexeme.is form = true)
    (hform : Lexeme.semicolon.is form = false) : token.lexeme ≠ .semicolon := by
  intro hlexeme
  rw [hlexeme, hform] at h
  cases h

namespace Rule

variable {σ α α' β β' : Type} [Feed σ]

/-- From a successor of `origin`, a rule over a feed and one over a tape that shows it do the
same. -/
def Runs (likeness : Likeness σ) (f : α → α') (origin : σ) (rule : Rule σ α)
    (rule' : Rule Tape α') : Prop :=
  ∀ feed tape, likeness.follows origin feed → likeness.shows feed tape →
    SameResult likeness.faults
      (fun left tape => likeness.follows origin left ∧ likeness.shows left tape)
      f (rule feed) (rule' tape)

variable {likeness : Likeness σ} {origin : σ}

/-! ## Steps -/

theorem Runs.of_pure {f : α → α'} {value : α} {value' : α'} (h : value' = f value) :
    Runs likeness f origin (pure value) (pure value') :=
  fun _ _ hfollows hshows => ⟨h, hfollows, hshows⟩

omit [Feed σ] in
/-- What comes of two rules in a row is the same if it is the same of both. -/
theorem same_bind {faults : Fault → Fault → Prop} {shows shows' : σ → Tape → Prop}
    {f : α → α'} {g : β → β'} {rule : Rule σ α} {rule' : Rule Tape α'} {next : α → Rule σ β}
    {next' : α' → Rule Tape β'} {feed : σ} {tape : Tape}
    (h : SameResult faults shows f (rule feed) (rule' tape))
    (hnext : ∀ value left left', shows left left' →
      SameResult faults shows' g (next value left) (next' (f value) left')) :
    SameResult faults shows' g ((rule >>= next) feed) ((rule' >>= next') tape) := by
  cases hr : rule feed with
  | ok value left =>
    cases hr' : rule' tape with
    | error fault left' =>
      rw [hr, hr'] at h
      exact h.elim
    | ok value' left' =>
      rw [hr, hr'] at h
      obtain ⟨rfl, hshows⟩ := h
      rw [bind_of_ok hr, bind_of_ok hr']
      exact hnext value left left' hshows
  | error fault left =>
    cases hr' : rule' tape with
    | ok value' left' =>
      rw [hr, hr'] at h
      exact h.elim
    | error fault' left' =>
      rw [hr, hr'] at h
      rw [bind_of_error hr, bind_of_error hr']
      exact h

theorem Runs.bind {f : α → α'} {g : β → β'} {rule : Rule σ α} {rule' : Rule Tape α'}
    {next : α → Rule σ β} {next' : α' → Rule Tape β'} (h : Runs likeness f origin rule rule')
    (hnext : ∀ value, Runs likeness g origin (next value) (next' (f value))) :
    Runs likeness g origin (rule >>= next) (rule' >>= next') := by
  intro feed tape hfollows hshows
  refine same_bind (h feed tape hfollows hshows) ?_
  rintro value left left' ⟨hfollows', hshows'⟩
  exact hnext value left left' hfollows' hshows'

/-- A rule with a bound, if the bounds that the tape gives suffice. -/
theorem Runs.bounded {f : α → α'} {rule : Nat → Rule σ α} {rule' : Nat → Rule Tape α'}
    (henough : ∀ {n m : Nat} {tape : Tape}, tape.size ≤ n → tape.size ≤ m →
      rule' n tape = rule' m tape)
    (h : ∀ bound, Runs likeness f origin (rule bound) (rule' bound)) :
    Runs likeness f origin (bounded rule) (bounded rule') := by
  intro feed tape hfollows hshows
  have hbound := h (Feed.left feed) feed tape hfollows hshows
  rw [henough (likeness.left hshows) tape.size_le_left] at hbound
  exact hbound

theorem runs_peek : Runs likeness (Option.map likeness.see) origin peek peek := by
  intro feed tape hfollows hshows
  refine ⟨?_, hfollows, hshows⟩
  show tape.lookahead.token? = _
  rw [likeness.lookahead hshows, Lookahead.token?_map]

theorem runs_fail {f : α → α'} (location : Location) (cause : Cause)
    (hcause : cause.relocate likeness.move = cause) :
    Runs likeness f origin (fail location cause) (fail (likeness.move location) cause) :=
  fun _ _ _ _ => likeness.fail hcause

theorem runs_note {f : Unit → Unit} (event event' : Event) :
    Runs likeness f origin (note event) (note event') :=
  fun feed _ hfollows hshows =>
    ⟨rfl, likeness.lasting.trans hfollows (likeness.lasting.note event feed),
      likeness.note event hshows⟩

/-- What is read behind a mark may go back to it. -/
theorem runs_mark_bind {g : β → β'} {next : Feed.Mark σ → Rule σ β}
    {next' : Tape → Rule Tape β'}
    (h : ∀ marked tape, likeness.shows marked tape →
      Runs likeness g marked (next (Feed.mark marked)) (next' tape)) :
    Runs likeness g origin (mark >>= next) (mark >>= next') := by
  intro feed tape hfollows hshows
  refine (h feed tape hshows feed tape (likeness.lasting.refl feed) hshows).mono ?_
  rintro value left left' - ⟨hfollows', hshows'⟩
  exact ⟨likeness.lasting.trans hfollows hfollows', hshows'⟩

theorem runs_reset {f : Unit → Unit} {tape : Tape} (hshows : likeness.shows origin tape) :
    Runs likeness f origin (reset (Feed.mark origin)) (reset tape) :=
  fun _ _ hfollows _ => ⟨rfl, likeness.lasting.rewind hfollows, likeness.rewind hshows hfollows⟩

/-! ## Steps over tokens -/

/-- With a certain token in front of a successor of `origin`, a rule over a feed and one over a tape
that shows it do the same. -/
def RunsAt (likeness : Likeness σ) (f : α → α') (origin : σ) (front : Lookahead) (rule : Rule σ α)
    (rule' : Rule Tape α') : Prop :=
  ∀ feed tape, likeness.follows origin feed → likeness.shows feed tape →
    Feed.lookahead feed = front →
    SameResult likeness.faults
      (fun left tape => likeness.follows origin left ∧ likeness.shows left tape)
      f (rule feed) (rule' tape)

theorem Runs.runsAt {f : α → α'} {rule : Rule σ α} {rule' : Rule Tape α'}
    (h : Runs likeness f origin rule rule') (front : Lookahead) :
    RunsAt likeness f origin front rule rule' :=
  fun feed tape hfollows hshows _ => h feed tape hfollows hshows

/-- What is no separator is read over. -/
theorem RunsAt.over_front {g : β → β'} {front : Lookahead} {next : Location → Rule σ β}
    {next' : Location → Rule Tape β'}
    (hfront : ∀ token, front = .ready token → token.lexeme ≠ .semicolon)
    (hnext : ∀ place, Runs likeness g origin (next place) (next' (likeness.move place))) :
    RunsAt likeness g origin front (advance >>= next) (advance >>= next') := by
  rintro feed tape hfollows hshows rfl
  have hadvance : SameResult likeness.faults
      (fun left tape => likeness.follows origin left ∧ likeness.shows left tape) likeness.move
      ((advance : Rule σ Location) feed) ((advance : Rule Tape Location) tape) := by
    refine (likeness.advance hshows hfront).mono fun hok hshows' => ⟨?_, hshows'⟩
    have hlasting := likeness.lasting.advance feed
    rw [after_of_ok hok] at hlasting
    exact likeness.lasting.trans hfollows hlasting
  refine same_bind hadvance ?_
  rintro place left left' ⟨hfollows', hshows'⟩
  exact hnext place left left' hfollows' hshows'

theorem RunsAt.over {g : β → β'} {token : Token} {lexeme : Lexeme}
    {next : Location → Rule σ β} {next' : Location → Rule Tape β'} (h : token.lexeme = lexeme)
    (hlexeme : lexeme ≠ .semicolon)
    (hnext : ∀ place, Runs likeness g origin (next place) (next' (likeness.move place))) :
    RunsAt likeness g origin (.ready token) (advance >>= next) (advance >>= next') := by
  refine .over_front ?_ hnext
  intro token' htoken
  cases htoken
  rwa [h]

/-- Rules that look at what is in front. -/
theorem Runs.of_look {g : β → β'} {next : Lookahead → Rule σ β} {next' : Lookahead → Rule Tape β'}
    (h : ∀ front, RunsAt likeness g origin front (next front) (next' (front.map likeness.see))) :
    Runs likeness g origin (look >>= next) (look >>= next') := by
  intro feed tape hfollows hshows
  have hnext := h (Feed.lookahead feed) feed tape hfollows hshows rfl
  rw [← likeness.lookahead hshows] at hnext
  exact hnext

/-- Rules that look at the token in front, if one is there. -/
theorem Runs.of_peek {g : β → β'} {next : Option Token → Rule σ β}
    {next' : Option Token → Rule Tape β'} (hnone : Runs likeness g origin (next none) (next' none))
    (hsome : ∀ token, RunsAt likeness g origin (.ready token) (next (some token))
      (next' (some (likeness.see token)))) :
    Runs likeness g origin (peek >>= next) (peek >>= next') := by
  intro feed tape hfollows hshows
  show SameResult _ _ _ (next (Feed.lookahead feed).token? feed)
    (next' tape.lookahead.token? tape)
  rw [likeness.lookahead hshows]
  cases hfront : Feed.lookahead feed with
  | unstarted => exact hnone feed tape hfollows hshows
  | ended => exact hnone feed tape hfollows hshows
  | ready token => exact hsome token feed tape hfollows hshows hfront

/-- A token is read over if it is the given one, which is no separator. -/
theorem Runs.of_ahead {g : β → β'} {form : Form} (hform : Lexeme.semicolon.is form = false)
    {next : Location → Rule σ β} {next' : Location → Rule Tape β'} {other : Rule σ β}
    {other' : Rule Tape β'}
    (hnext : ∀ place, Runs likeness g origin (next place) (next' (likeness.move place)))
    (hother : Runs likeness g origin other other') :
    Runs likeness g origin
      (ahead form >>= fun isThere => if isThere = true then advance >>= next else other)
      (ahead form >>= fun isThere => if isThere = true then advance >>= next' else other') := by
  intro feed tape hfollows hshows
  have hlookahead : Feed.lookahead tape = (Feed.lookahead feed).map likeness.see :=
    likeness.lookahead hshows
  rw [bind_of_ok (ahead_eq form feed), bind_of_ok (ahead_eq form tape), hlookahead,
    Lookahead.token?_map]
  cases hfront : Feed.lookahead feed with
  | unstarted => exact hother feed tape hfollows hshows
  | ended => exact hother feed tape hfollows hshows
  | ready token =>
    show SameResult _ _ _ ((if token.lexeme.is form = true then advance >>= next else other) feed)
      ((if (likeness.see token).lexeme.is form = true then advance >>= next' else other') tape)
    rw [likeness.lexeme_see]
    by_cases his : token.lexeme.is form = true
    · rw [if_pos his, if_pos his]
      have hover : RunsAt likeness g origin (.ready token) (advance >>= next)
          (advance >>= next') :=
        .over rfl (Token.lexeme_ne_of_is his hform) hnext
      exact hover feed tape hfollows hshows hfront
    · rw [if_neg his, if_neg his]
      exact hother feed tape hfollows hshows

/-! ## Expectations -/

theorem runs_here : Runs likeness likeness.move origin here here := by
  intro feed tape hfollows hshows
  have hlookahead := likeness.lookahead hshows
  have hlocation := likeness.location hshows
  have hpeek : (peek : Rule σ (Option Token)) feed = .ok (Feed.lookahead feed).token? feed := rfl
  have hpeek' : (peek : Rule Tape (Option Token)) tape = .ok tape.lookahead.token? tape := rfl
  rw [here, here, bind_of_ok hpeek, bind_of_ok hpeek', hlookahead, Lookahead.token?_map]
  cases hl : (Feed.lookahead feed).token? with
  | none => exact ⟨hlocation hl, hfollows, hshows⟩
  | some token => exact ⟨likeness.location_see token, hfollows, hshows⟩

/-- Without a token in front, rules stop where the feed stands. -/
theorem runs_fail_here {feed : σ} {tape : Tape} {front : Lookahead} {cause : Cause}
    (hfront : Feed.lookahead feed = front) (hnone : front.token? = none)
    (hcause : cause.relocate likeness.move = cause) (hshows : likeness.shows feed tape) :
    likeness.faults (.diagnostic ⟨Feed.location feed, cause, .error⟩)
      (.diagnostic ⟨tape.location, cause, .error⟩) := by
  rw [likeness.location hshows (by rw [hfront]; exact hnone)]
  exact likeness.fail hcause

theorem runs_expected {f : α → α'} (what : String) :
    Runs likeness f origin (expected what) (expected what) := by
  refine .of_look fun front => ?_
  intro feed tape hfollows hshows hfront
  cases front with
  | ready token =>
    show likeness.faults _ (.diagnostic ⟨(likeness.see token).location,
      .unexpected (likeness.see token).lexeme.form (.words what), .error⟩)
    rw [likeness.location_see, likeness.lexeme_see]
    exact likeness.fail rfl
  | unstarted => exact runs_fail_here hfront rfl rfl hshows
  | ended => exact runs_fail_here hfront rfl rfl hshows

theorem runs_ahead (form : Form) : Runs likeness id origin (ahead form) (ahead form) := by
  refine runs_peek.bind fun found => ?_
  cases found with
  | none => exact .of_pure rfl
  | some token =>
    refine .of_pure ?_
    rw [likeness.lexeme_see, id]

theorem runs_chomp {form : Form} (hform : Lexeme.semicolon.is form = false) :
    Runs likeness id origin (chomp form) (chomp form) := by
  refine .of_look fun front => ?_
  intro feed tape hfollows hshows hfront
  cases front with
  | ready token =>
    show SameResult _ _ _ ((if token.lexeme.is form then discard advance
        else fail token.location (.unexpected token.lexeme.form (.lexeme form))) feed)
      ((if (likeness.see token).lexeme.is form then discard advance
        else fail (likeness.see token).location
          (.unexpected (likeness.see token).lexeme.form (.lexeme form))) tape)
    rw [likeness.lexeme_see, likeness.location_see]
    by_cases his : token.lexeme.is form = true
    · rw [if_pos his, if_pos his]
      have hover : RunsAt likeness id origin (.ready token) (discard advance)
          (discard advance) :=
        .over rfl (Token.lexeme_ne_of_is his hform) fun _ => .of_pure rfl
      exact hover feed tape hfollows hshows hfront
    · rw [if_neg his, if_neg his]
      exact runs_fail _ _ rfl feed tape hfollows hshows
  | unstarted => exact runs_fail_here hfront rfl rfl hshows
  | ended => exact runs_fail_here hfront rfl rfl hshows

theorem runs_begin : Runs likeness id origin begin begin := by
  refine .of_look fun front => ?_
  cases front with
  | unstarted =>
    refine .over_front ?_ fun _ => .of_pure rfl
    intro token htoken
    cases htoken
  | ready token => exact (Runs.of_pure rfl).runsAt _
  | ended => exact (Runs.of_pure rfl).runsAt _

/-! ## Repetition -/

theorem runs_skipSemicolons : Runs likeness id origin skipSemicolons skipSemicolons := by
  intro feed tape hfollows hshows
  refine (likeness.skip hshows).mono fun hok hshows' => ⟨?_, hshows'⟩
  have hkeeps : Keeps likeness.follows feed (skipSemicolons : Rule σ Unit) :=
    keeps_skipSemicolons likeness.lasting
  exact likeness.lasting.trans hfollows (hkeeps.of_ok (likeness.lasting.refl feed) hok)

variable {f : α → α'} {rule : Rule σ (Option α)} {rule' : Rule Tape (Option α')}
  (h : ∀ {origin}, Runs likeness (Option.map f) origin rule rule')

include h

theorem runs_manyUpTo (bound : Nat) :
    Runs likeness (List.map f) origin (manyUpTo rule bound) (manyUpTo rule' bound) := by
  induction bound generalizing origin with
  | zero => exact .of_pure rfl
  | succ bound ih =>
    refine runs_mark_bind fun marked tape hshows => h.bind fun found => ?_
    cases found with
    | none => exact (runs_reset (f := id) hshows).bind fun _ => .of_pure rfl
    | some item => exact ih.bind fun _ => .of_pure rfl

theorem runs_many (hexact : Exact rule') :
    Runs likeness (List.map f) origin (many rule) (many rule') :=
  .bounded (fun hn hm => manyUpTo_enough hexact (by omega) (by omega)) fun _ => runs_manyUpTo h _

end Rule

/-! ## The grammar -/

namespace Grammar

open Rule Tape

variable {σ : Type} [Feed σ] {likeness : Likeness σ} {origin : σ}

section Patterns

variable {inner : Rule σ (Option Pattern)} {inner' : Rule Tape (Option Pattern)}
  (h : ∀ {origin}, Runs likeness (Option.map (·.relocate likeness.move)) origin inner inner')

include h

theorem runs_patternMembers (bound : Nat) :
    Runs likeness (Prod.map (List.map (·.relocate likeness.move)) id) origin
      (patternMembers inner bound) (patternMembers inner' bound) := by
  induction bound with
  | zero => exact .of_pure rfl
  | succ bound ih =>
    refine (runs_ahead _).bind fun isClosed => ?_
    cases isClosed with
    | true => exact .of_pure rfl
    | false =>
      refine h.bind fun found => ?_
      cases found with
      | none => exact runs_expected _
      | some member =>
        exact .of_ahead rfl (fun _ => ih.bind fun _ => .of_pure rfl) (.of_pure rfl)

variable (hexact : Exact inner')

include hexact

theorem runs_groupedPattern (location : Location) :
    Runs likeness (·.relocate likeness.move) origin (groupedPattern inner location)
      (groupedPattern inner' (likeness.move location)) := by
  have hmembers : Runs likeness (Prod.map (List.map (·.relocate likeness.move)) id) origin
      (bounded fun left => patternMembers inner (left + 1))
      (bounded fun left => patternMembers inner' (left + 1)) :=
    .bounded (fun hn hm => patternMembers_enough hexact (by omega) (by omega))
      fun _ => runs_patternMembers h _
  refine hmembers.bind fun found => (runs_chomp rfl).bind fun _ => ?_
  obtain ⟨members, sawComma⟩ := found
  -- Only a single pattern without a comma is taken out of its group.
  match members, sawComma with
  | [single], false => exact .of_pure rfl
  | [], _ => exact .of_pure rfl
  | [_], true => exact .of_pure rfl
  | _ :: _ :: _, _ =>
    exact .of_pure (by simp [Pattern.relocate, Pattern.relocateAll_eq_map])

theorem runs_patternWith :
    Runs likeness (Option.map (·.relocate likeness.move)) origin (patternWith inner)
      (patternWith inner') := by
  refine .of_peek (.of_pure rfl) fun token => ?_
  simp only [likeness.lexeme_see, likeness.location_see]
  split
  · rename_i hlexeme
    exact .over hlexeme (by simp) fun _ => .of_pure rfl
  · rename_i hlexeme
    exact .over hlexeme (by simp) fun _ => .of_pure rfl
  · rename_i word hlexeme
    split
    · exact (Runs.of_pure rfl).runsAt _
    · refine .over hlexeme (by simp) fun _ => ?_
      split
      · refine (runs_many h hexact).bind fun arguments => .of_pure ?_
        simp [Pattern.relocate, Pattern.relocateAll_eq_map, Name.relocate]
      · exact .of_pure rfl
  · rename_i hlexeme
    exact .over hlexeme (by simp) fun _ =>
      (runs_groupedPattern h hexact _).bind fun _ => .of_pure rfl
  · exact (Runs.of_pure rfl).runsAt _

end Patterns

theorem runs_tooDeep {α α' : Type} {f : α → α'} :
    Runs likeness f origin tooDeep tooDeep :=
  runs_here.bind fun _ => runs_fail _ _ rfl

theorem runs_pattern (budget : Nat) :
    Runs likeness (Option.map (·.relocate likeness.move)) origin (pattern budget)
      (pattern budget) := by
  induction budget generalizing origin with
  | zero => exact runs_tooDeep
  | succ budget ih => exact runs_patternWith ih (exact_pattern budget)

section Expressions

theorem runs_identifier :
    Runs likeness (·.relocate likeness.move) origin identifier identifier := by
  have hmissing : Runs likeness (·.relocate likeness.move) origin
      (do fail (← here) .missingIdentifier : Rule σ Name)
      (do fail (← here) .missingIdentifier) :=
    runs_here.bind fun _ => runs_fail _ _ rfl
  refine .of_peek hmissing fun token => ?_
  simp only [likeness.name?_see, likeness.location_see]
  split
  · exact hmissing.runsAt _
  · rename_i name hname
    exact .over rfl (Token.lexeme_ne_of_name? hname) fun _ => .of_pure rfl

variable {inner : Rule σ (Option Expr)} {inner' : Rule Tape (Option Expr)}
  (h : ∀ {origin}, Runs likeness (Option.map (·.relocate likeness.move)) origin inner inner')
  (hexact : Exact inner')

include h hexact

theorem runs_application :
    Runs likeness (·.relocate likeness.move) origin (application inner) (application inner') := by
  refine runs_skipSemicolons.bind fun _ => h.bind fun found => ?_
  cases found with
  | none => exact runs_here.bind fun _ => runs_fail _ _ rfl
  | some function =>
    refine (runs_many h hexact).bind fun arguments => ?_
    cases arguments with
    | nil => exact .of_pure rfl
    | cons argument arguments =>
      exact .of_pure (by simp [Expr.relocate, Expr.relocateAll_eq_map])

theorem runs_bindingRest (location : Location) :
    Runs likeness (·.relocate likeness.move) origin (bindingRest inner location)
      (bindingRest inner' (likeness.move location)) := by
  refine runs_identifier.bind fun _ => (runs_chomp rfl).bind fun _ => ?_
  refine (runs_application h hexact).bind fun _ => ?_
  refine runs_skipSemicolons.bind fun _ => (runs_chomp rfl).bind fun _ => ?_
  exact (runs_application h hexact).bind fun _ => .of_pure rfl

theorem runs_tupleMembers (bound : Nat) :
    Runs likeness (Prod.map (List.map (·.relocate likeness.move)) id) origin
      (tupleMembers inner bound) (tupleMembers inner' bound) := by
  induction bound with
  | zero => exact .of_pure rfl
  | succ bound ih =>
    refine .of_ahead rfl (fun _ => ?_) (.of_pure rfl)
    refine (runs_ahead _).bind fun isClosed => ?_
    cases isClosed with
    | true => exact .of_pure rfl
    | false =>
      exact (runs_application h hexact).bind fun _ => ih.bind fun _ => .of_pure rfl

variable (hkeeps : ∀ {origin}, Keeps NoLonger origin inner')

include hkeeps

theorem runs_groupedRest (location : Location) :
    Runs likeness (·.relocate likeness.move) origin (groupedRest inner location)
      (groupedRest inner' (likeness.move location)) := by
  have hmembers : Runs likeness (Prod.map (List.map (·.relocate likeness.move)) id) origin
      (bounded fun left => tupleMembers inner (left + 1))
      (bounded fun left => tupleMembers inner' (left + 1)) :=
    .bounded (fun hn hm => tupleMembers_enough hkeeps (by omega) (by omega))
      fun _ => runs_tupleMembers h hexact _
  refine .of_ahead rfl (fun _ => .of_pure rfl) ?_
  refine (runs_application h hexact).bind fun first => hmembers.bind fun found => ?_
  obtain ⟨members, sawComma⟩ := found
  refine (runs_chomp rfl).bind fun _ => ?_
  cases sawComma with
  | false => exact .of_pure rfl
  | true => exact .of_pure (by simp [Expr.relocate, Expr.relocateAll_eq_map])

variable {patterns : Rule σ (Option Pattern)} {patterns' : Rule Tape (Option Pattern)}
  (hpatterns : ∀ {origin},
    Runs likeness (Option.map (·.relocate likeness.move)) origin patterns patterns')

include hpatterns

omit hkeeps in
theorem runs_armsUpTo (bound : Nat) :
    Runs likeness (List.map (·.relocate likeness.move)) origin (armsUpTo inner patterns bound)
      (armsUpTo inner' patterns' bound) := by
  induction bound generalizing origin with
  | zero => exact .of_pure rfl
  | succ bound ih =>
    refine runs_mark_bind fun marked tape hshows => runs_skipSemicolons.bind fun _ => ?_
    refine hpatterns.bind fun found => ?_
    cases found with
    | none => exact (runs_reset (f := id) hshows).bind fun _ => .of_pure rfl
    | some pattern =>
      have hback : Runs likeness (List.map (·.relocate likeness.move)) marked
          (do reset (Feed.mark marked); pure [] : Rule σ (List Arm)) (do reset tape; pure []) :=
        (runs_reset (f := id) hshows).bind fun _ => .of_pure rfl
      refine .of_ahead rfl (fun _ => ?_) hback
      refine (runs_application h hexact).bind fun _ => ?_
      exact ih.bind fun _ => .of_pure rfl

variable (hexactPatterns : Exact patterns')

include hexactPatterns

theorem runs_matchRest (location : Location) :
    Runs likeness (·.relocate likeness.move) origin (matchRest inner patterns location)
      (matchRest inner' patterns' (likeness.move location)) := by
  have harms : Runs likeness (List.map (·.relocate likeness.move)) origin
      (bounded fun left => armsUpTo inner patterns (left + 1))
      (bounded fun left => armsUpTo inner' patterns' (left + 1)) :=
    .bounded (fun hn hm => armsUpTo_enough hkeeps hexactPatterns (by omega) (by omega))
      fun _ => runs_armsUpTo h hexact hpatterns _
  refine (runs_application h hexact).bind fun subject => harms.bind fun arms => ?_
  cases arms with
  | nil => exact runs_fail _ _ rfl
  | cons arm arms => exact .of_pure (by simp [Expr.relocate, Arm.relocateAll_eq_map])

theorem runs_termWith :
    Runs likeness (Option.map (·.relocate likeness.move)) origin (termWith inner patterns)
      (termWith inner' patterns') := by
  have hnone : Runs likeness (Option.map (·.relocate likeness.move)) origin
      (pure none : Rule σ (Option Expr)) (pure none) :=
    .of_pure rfl
  refine .of_peek hnone fun token => ?_
  simp only [likeness.lexeme_see, likeness.location_see]
  split
  · rename_i hlexeme
    exact .over hlexeme (by simp) fun _ =>
      (runs_bindingRest h hexact _).bind fun _ => .of_pure rfl
  · rename_i hlexeme
    exact .over hlexeme (by simp) fun _ =>
      (runs_matchRest h hexact hkeeps hpatterns hexactPatterns _).bind fun _ => .of_pure rfl
  · rename_i word _ _ hlexeme
    split
    · exact hnone.runsAt _
    · exact .over hlexeme (by simp) fun _ => .of_pure rfl
  · exact hnone.runsAt _
  · rename_i hlexeme
    exact .over hlexeme (by simp) fun _ => .of_pure rfl
  · rename_i hlexeme
    exact .over hlexeme (by simp) fun _ =>
      (runs_groupedRest h hexact hkeeps _).bind fun _ => .of_pure rfl
  · rename_i hlexeme
    exact .over hlexeme (by simp) fun _ => .of_pure rfl
  · rename_i hlexeme
    exact .over hlexeme (by simp) fun _ => .of_pure rfl
  · rename_i hlexeme
    exact .over hlexeme (by simp) fun _ => .of_pure rfl
  · exact hnone.runsAt _
  · exact hnone.runsAt _
  · exact hnone.runsAt _
  · exact (runs_fail _ _ rfl).runsAt _

end Expressions

theorem runs_term (budget : Nat) :
    Runs likeness (Option.map (·.relocate likeness.move)) origin (term budget) (term budget) := by
  induction budget generalizing origin with
  | zero => exact runs_tooDeep
  | succ budget ih =>
    exact runs_termWith ih (exact_term budget) (keeps_term lasting_size budget)
      (runs_pattern budget) (exact_pattern budget)

theorem runs_declaration (budget : Nat) :
    Runs likeness (Option.map (·.relocate likeness.move)) origin (declaration budget)
      (declaration budget) := by
  refine .of_peek (.of_pure rfl) fun token => ?_
  simp only [likeness.name?_see, likeness.location_see]
  split
  · exact (Runs.of_pure rfl).runsAt _
  · rename_i name hname
    refine .over rfl (Token.lexeme_ne_of_name? hname) fun _ => ?_
    refine (runs_many (runs_pattern budget) (exact_pattern budget)).bind fun _ => ?_
    refine (runs_chomp rfl).bind fun _ => ?_
    refine (runs_application (runs_term budget) (exact_term budget)).bind fun _ => ?_
    exact (runs_note (f := id) _ _).bind fun _ => .of_pure rfl

theorem runs_declarationsUpTo (budget bound : Nat) :
    Runs likeness (List.map (·.relocate likeness.move)) origin (declarationsUpTo budget bound)
      (declarationsUpTo budget bound) := by
  induction bound with
  | zero => exact .of_pure rfl
  | succ bound ih =>
    refine runs_skipSemicolons.bind fun _ => (runs_declaration budget).bind fun found => ?_
    cases found with
    | none => exact .of_pure rfl
    | some decl => exact ih.bind fun _ => .of_pure rfl

/-- What is read behind the beginning of a file. -/
theorem runs_declarations (budget : Nat) :
    Runs likeness (List.map (·.relocate likeness.move)) origin (declarations budget)
      (declarations budget) := by
  have hdecls : Runs likeness (List.map (·.relocate likeness.move)) origin
      (bounded fun left => declarationsUpTo budget (left + 1))
      (bounded fun left => declarationsUpTo budget (left + 1)) :=
    .bounded (fun hn hm => declarationsUpTo_enough budget (by omega) (by omega))
      fun _ => runs_declarationsUpTo budget _
  refine hdecls.bind fun _ => runs_peek.bind fun found => ?_
  cases found with
  | none => exact .of_pure rfl
  | some token => exact runs_expected _

end Grammar

/-! ## Skipping in step -/

/-- Separators are skipped in step where every advance over the feed is the same step of the
tape. -/
theorem Rule.same_skipUpTo {σ : Type} [Feed σ] {faults : Fault → Fault → Prop}
    {shows : σ → Tape → Prop} {move : Location → Location} {see : Token → Token}
    (hsee : ∀ token, (see token).lexeme = token.lexeme)
    (hlookahead : ∀ {feed tape}, shows feed tape →
      tape.lookahead = (Feed.lookahead feed).map see)
    (hadvance : ∀ {feed tape}, shows feed tape →
      SameResult faults shows move (Feed.advance feed) tape.advance)
    (bound : Nat) {feed : σ} {tape : Tape} (h : shows feed tape) :
    SameResult faults shows id (skipUpTo bound feed) (skipUpTo bound tape) := by
  induction bound generalizing feed tape with
  | zero => exact ⟨rfl, h⟩
  | succ bound ih =>
    have hfronts : Feed.lookahead tape = (Feed.lookahead feed).map see := hlookahead h
    rw [skipUpTo, skipUpTo, bind_of_ok (ahead_eq _ feed), bind_of_ok (ahead_eq _ tape), hfronts]
    cases hfront : Feed.lookahead feed with
    | unstarted => exact ⟨rfl, h⟩
    | ended => exact ⟨rfl, h⟩
    | ready token =>
      show SameResult _ _ _
        ((if token.lexeme.is Lexeme.semicolon.form = true then
            Rule.advance >>= fun _ => skipUpTo bound else pure () : Rule σ Unit) feed)
        ((if (see token).lexeme.is Lexeme.semicolon.form = true then
            Rule.advance >>= fun _ => skipUpTo bound else pure () : Rule Tape Unit) tape)
      rw [hsee]
      by_cases his : token.lexeme.is Lexeme.semicolon.form = true
      · rw [if_pos his, if_pos his]
        exact same_bind (hadvance h) fun _ left left' hleft => ih hleft
      · rw [if_neg his, if_neg his]
        exact ⟨rfl, h⟩

/-! ## Tapes that show every step -/

/-- A way in which tapes show feeds: every single step of a feed is the same step of the tape. -/
structure Showing (σ : Type) [Feed σ] where
  move : Location → Location
  shows : σ → Tape → Prop
  follows : σ → σ → Prop
  lasting : Feed.Lasting follows
  lookahead : ∀ {feed tape}, shows feed tape →
    tape.lookahead = (Feed.lookahead feed).relocate move
  location : ∀ {feed tape}, shows feed tape → (Feed.lookahead feed).token? = none →
    tape.location = move (Feed.location feed)
  left : ∀ {feed tape}, shows feed tape → tape.size ≤ Feed.left feed
  advance : ∀ {feed tape}, shows feed tape →
    SameResult (MovedFault move) shows move (Feed.advance feed) tape.advance
  note : ∀ {feed tape} (event : Event), shows feed tape → shows (Feed.note event feed) tape
  rewind : ∀ {marked feed tape}, shows marked tape → follows marked feed →
    shows (Feed.reset (Feed.mark marked) feed) tape

namespace Showing

open Rule

variable {σ : Type} [Feed σ] (showing : Showing σ)

theorem lookahead_map {feed : σ} {tape : Tape} (h : showing.shows feed tape) :
    tape.lookahead = (Feed.lookahead feed).map (·.relocate showing.move) := by
  rw [showing.lookahead h]
  cases Feed.lookahead feed <;> rfl

/-- Tapes that show every step are like the feed. -/
def likeness : Likeness σ where
  move := showing.move
  see := (·.relocate showing.move)
  faults := MovedFault showing.move
  shows := showing.shows
  follows := showing.follows
  lasting := showing.lasting
  lexeme_see _ := rfl
  location_see _ := rfl
  fail h := by simp only [MovedFault, Fault.relocate, Diagnostic.relocate, h]
  lookahead := showing.lookahead_map
  location := showing.location
  left := showing.left
  advance h _ := showing.advance h
  skip := by
    intro feed tape h
    have hlexeme : ∀ token : Token, (token.relocate showing.move).lexeme = token.lexeme :=
      fun _ => rfl
    have hskip := same_skipUpTo hlexeme showing.lookahead_map showing.advance (Feed.left feed) h
    rw [skipUpTo_enough (showing.left h) tape.size_le_left] at hskip
    exact hskip
  note := showing.note
  rewind := showing.rewind

end Showing

/-- **A file read from a feed is the file read from a tape that shows it**, with all locations
moved, or both readings stop for the same reason. -/
theorem Grammar.runs_file {σ : Type} [Feed σ] (showing : Showing σ) (origin : σ) (budget : Nat) :
    Rule.Runs showing.likeness (List.map (·.relocate showing.move)) origin (file budget)
      (file budget) :=
  Rule.runs_begin.bind fun _ => runs_declarations budget

/-- Where the tape shows every location as it is, the readings of a file answer the same. -/
theorem Grammar.answer_file_eq {σ : Type} [Feed σ] (showing : Showing σ)
    (hmove : showing.move = id) {feed : σ} {tape : Tape} (hshows : showing.shows feed tape)
    (budget : Nat) : Rule.answer (file budget) feed = Rule.answer (file budget) tape := by
  have hruns := runs_file showing feed budget feed tape (showing.lasting.refl feed) hshows
  rcases hruns.answers with ⟨decls, hfeed, htape⟩ | ⟨fault, fault', hfeed, htape, hfault⟩
  · rw [hfeed, htape, hmove]
    simp [Decl.relocate_id]
  · have hsame : fault' = fault.relocate showing.move := hfault
    rw [hfeed, htape, hsame, hmove, Fault.relocate_id]

end FrontEnd
