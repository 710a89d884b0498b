import FrontEnd.Grammar

/-!
# How rules end

A rule takes only the steps that every feed has: advances, resets to marks that were taken on the
way, and notes in the log. It answers behind some of them, or it stops: where an advance fails,
where it refuses a token that was in front, or where no token is left. So what the steps keep is
kept by every rule that answers, and what is known of these stops is known of every rule that stops.

* `Feed.Ending` — a relation that the steps of a feed keep, and what is known where rules stop.
* `Rule.Ends` — a rule leaves a successor of what it began with, or stops as is known.
* `Grammar.ends_file` — all rules of the grammar do.
-/

set_option autoImplicit false

namespace FrontEnd

/-! ## Outcomes -/

namespace Rule

variable {σ α β : Type}

/-- What a rule answers, or why it stops. -/
def answer (rule : Rule σ α) (feed : σ) : Except Fault α :=
  match rule feed with
  | .ok value _ => .ok value
  | .error fault _ => .error fault

/-- The feed that a rule leaves, whether it answers or stops. -/
def after (rule : Rule σ α) (feed : σ) : σ :=
  match rule feed with
  | .ok _ feed => feed
  | .error _ feed => feed

/-- A rule is its answer with the feed that it leaves. -/
theorem eq_ok_of_answer {rule : Rule σ α} {feed : σ} {value : α}
    (h : rule.answer feed = .ok value) : rule feed = .ok value (rule.after feed) := by
  unfold answer at h
  unfold after
  split at h
  · rename_i hrule
    cases h
    rw [hrule]
  · cases h

theorem eq_error_of_answer {rule : Rule σ α} {feed : σ} {fault : Fault}
    (h : rule.answer feed = .error fault) : rule feed = .error fault (rule.after feed) := by
  unfold answer at h
  unfold after
  split at h
  · cases h
  · rename_i hrule
    cases h
    rw [hrule]

theorem after_of_ok {rule : Rule σ α} {feed next : σ} {value : α}
    (h : rule feed = .ok value next) : rule.after feed = next := by
  simp [after, h]

theorem after_of_error {rule : Rule σ α} {feed next : σ} {fault : Fault}
    (h : rule feed = .error fault next) : rule.after feed = next := by
  simp [after, h]

theorem bind_of_ok {rule : Rule σ α} {next : α → Rule σ β} {feed left : σ} {value : α}
    (h : rule feed = .ok value left) : (rule >>= next) feed = next value left := by
  show EStateM.bind rule next feed = _
  simp [EStateM.bind, h]

theorem bind_of_error {rule : Rule σ α} {next : α → Rule σ β} {feed left : σ} {fault : Fault}
    (h : rule feed = .error fault left) : (rule >>= next) feed = .error fault left := by
  show EStateM.bind rule next feed = _
  simp [EStateM.bind, h]

end Rule

namespace Rule

variable {σ : Type} [Feed σ]

theorem look_eq (feed : σ) : (look : Rule σ Lookahead) feed = .ok (Feed.lookahead feed) feed :=
  rfl

theorem peek_eq (feed : σ) :
    (peek : Rule σ (Option Token)) feed = .ok (Feed.lookahead feed).token? feed :=
  rfl

theorem ahead_eq (form : Form) (feed : σ) :
    ahead form feed =
      .ok ((Feed.lookahead feed).token?.any (·.lexeme.is form)) feed := by
  rw [ahead, bind_of_ok (peek_eq feed)]
  cases (Feed.lookahead feed).token? <;> rfl

end Rule

/-- A token in front passes a test. -/
theorem Lookahead.any_token?_iff {front : Lookahead} {test : Token → Bool} :
    front.token?.any test = true ↔ ∃ token, front = .ready token ∧ test token = true := by
  cases front <;> simp [Lookahead.token?]

/-! ## Stops -/

/-- The causes for which rules refuse a token. -/
def Cause.refusesToken : Cause → Bool
  | .unexpected _ _ => true
  | .notImplemented => true
  | .missingExpression => true
  | .missingIdentifier => true
  | .noArms => true
  | _ => false

/-- The causes for which rules stop where no token is left. -/
def Cause.refusesEnd : Cause → Bool
  | .endOfInput _ => true
  | .missingExpression => true
  | .missingIdentifier => true
  | _ => false

/-- The fault of a rule that nests too deeply. -/
def Fault.IsTooDeep : Fault → Prop
  | .diagnostic found => found.cause = .tooDeep
  | .tooManyDigits _ => False

/-- A relation between a feed and its successors that steps keep, and what is known where a rule
that began behind `origin` stops. A token may also be refused after it was read. -/
structure Feed.Ending {σ : Type} [Feed σ] (rel : σ → σ → Prop) (stops : σ → Fault → σ → Prop) :
    Prop where
  refl : ∀ feed, rel feed feed
  trans : ∀ {first second third}, rel first second → rel second third → rel first third
  advance : ∀ {feed place next}, (Feed.advance feed : EStateM.Result Fault σ Location) =
    .ok place next → rel feed next
  note : ∀ event feed, rel feed (Feed.note event feed)
  rewind : ∀ {marked feed}, rel marked feed → rel marked (Feed.reset (Feed.mark marked) feed)
  widen : ∀ {origin marked fault left}, rel origin marked → stops marked fault left →
    stops origin fault left
  fault : ∀ {origin feed fault left}, rel origin feed → Feed.advance feed = .error fault left →
    stops origin fault left
  token : ∀ {origin feed left token cause}, rel origin feed →
    Feed.lookahead feed = .ready token → cause.refusesToken = true → rel origin left →
      stops origin (.diagnostic ⟨token.location, cause, .error⟩) left
  ended : ∀ {origin feed cause}, rel origin feed → Feed.lookahead feed = .ended →
    cause.refusesEnd = true → stops origin (.diagnostic ⟨Feed.location feed, cause, .error⟩) feed
  unstarted : ∀ {origin feed cause}, rel origin feed → Feed.lookahead feed = .unstarted →
    stops origin (.diagnostic ⟨Feed.location feed, cause, .error⟩) feed
  tooDeep : ∀ {origin feed location}, rel origin feed →
    stops origin (.diagnostic ⟨location, .tooDeep, .error⟩) feed

/-- A place at which a rule that began behind `origin` may refuse a token. -/
def Feed.Refusable {σ : Type} (rel : σ → σ → Prop) (stops : σ → Fault → σ → Prop) (origin : σ)
    (place : Location) : Prop :=
  ∀ cause left, cause.refusesToken = true → rel origin left →
    stops origin (.diagnostic ⟨place, cause, .error⟩) left

namespace Rule

variable {σ α β : Type} {rel : σ → σ → Prop} {stops : σ → Fault → σ → Prop} {origin : σ}

/-- What a rule that began behind `origin` led to: a successor of it, or a stop as is known. -/
def Ended (rel : σ → σ → Prop) (stops : σ → Fault → σ → Prop) (origin : σ) :
    EStateM.Result Fault σ α → Prop
  | .ok _ left => rel origin left
  | .error fault left => stops origin fault left

/-- A rule that begins with a successor of `origin` leaves a successor of it, or stops as is
known. -/
def Ends (rel : σ → σ → Prop) (stops : σ → Fault → σ → Prop) (origin : σ) (rule : Rule σ α) :
    Prop :=
  ∀ feed, rel origin feed → Ended rel stops origin (rule feed)

/-! ## Steps -/

theorem Ends.of_pure (value : α) : Ends rel stops origin (pure value : Rule σ α) :=
  fun _ h => h

theorem Ends.bind {rule : Rule σ α} {next : α → Rule σ β} (h : Ends rel stops origin rule)
    (hnext : ∀ value, Ends rel stops origin (next value)) :
    Ends rel stops origin (rule >>= next) := by
  intro feed hfeed
  have hrule := h feed hfeed
  cases hr : rule feed with
  | error fault left =>
    rw [hr] at hrule
    rw [bind_of_error hr]
    exact hrule
  | ok value left =>
    rw [hr] at hrule
    rw [bind_of_ok hr]
    exact hnext value left hrule

theorem Ends.map {rule : Rule σ α} (h : Ends rel stops origin rule) (f : α → β) :
    Ends rel stops origin (f <$> rule) :=
  h.bind fun value => .of_pure (f value)

theorem Ends.bounded [Feed σ] {rule : Nat → Rule σ α}
    (h : ∀ bound, Ends rel stops origin (rule bound)) : Ends rel stops origin (bounded rule) :=
  fun feed => h _ feed

theorem ends_peek [Feed σ] : Ends rel stops origin (peek : Rule σ (Option Token)) :=
  fun _ h => h

theorem ends_ahead [Feed σ] (form : Form) :
    Ends rel stops origin (ahead form : Rule σ Bool) := by
  refine ends_peek.bind fun found => ?_
  cases found <;> exact .of_pure _

theorem ends_fail {place : Location} {cause : Cause}
    (h : Feed.Refusable rel stops origin place) (hcause : cause.refusesToken = true) :
    Ends rel stops origin (fail place cause : Rule σ α) :=
  fun feed hfeed => h cause feed hcause hfeed

variable [Feed σ] (ending : Feed.Ending rel stops)

include ending

theorem ends_advance : Ends rel stops origin (advance : Rule σ Location) := by
  intro feed hfeed
  show Ended rel stops origin (Feed.advance feed : EStateM.Result Fault σ Location)
  cases ha : (Feed.advance feed : EStateM.Result Fault σ Location) with
  | ok place next => exact ending.trans hfeed (ending.advance ha)
  | error fault left => exact ending.fault hfeed ha

theorem ends_note (event : Event) : Ends rel stops origin (note event : Rule σ Unit) :=
  fun feed h => ending.trans h (ending.note event feed)

/-- What is read behind a mark may go back to it. -/
theorem ends_mark_bind {next : Feed.Mark σ → Rule σ α}
    (h : ∀ marked, Ends rel stops marked (next (Feed.mark marked))) :
    Ends rel stops origin (mark >>= next) := by
  intro feed hfeed
  have hnext := h feed feed (ending.refl feed)
  show Ended rel stops origin (next (Feed.mark feed) feed)
  cases hr : next (Feed.mark feed) feed with
  | ok value left =>
    rw [hr] at hnext
    exact ending.trans hfeed hnext
  | error fault left =>
    rw [hr] at hnext
    exact ending.widen hfeed hnext

theorem ends_reset : Ends rel stops origin (reset (Feed.mark origin)) :=
  fun _ h => ending.rewind h

/-- Rules that look at the token in front may refuse it, also later. -/
theorem Ends.of_peek {next : Option Token → Rule σ α} (hnone : Ends rel stops origin (next none))
    (hsome : ∀ token, Feed.Refusable rel stops origin token.location →
      Ends rel stops origin (next (some token))) :
    Ends rel stops origin (peek >>= next) := by
  intro feed hfeed
  show Ended rel stops origin (next (Feed.lookahead feed).token? feed)
  cases hl : Feed.lookahead feed with
  | unstarted => exact hnone feed hfeed
  | ended => exact hnone feed hfeed
  | ready token =>
    exact hsome token (fun _ _ hcause hleft => ending.token hfeed hl hcause hleft) feed hfeed

/-! ## Expectations -/

/-- Rules that refuse whatever is in front. -/
theorem ends_fail_here {cause : Cause} (htoken : cause.refusesToken = true)
    (hend : cause.refusesEnd = true) :
    Ends rel stops origin (do fail (← here) cause : Rule σ α) := by
  intro feed hfeed
  rw [here, bind_assoc, bind_of_ok (peek_eq feed)]
  cases hl : Feed.lookahead feed with
  | unstarted => exact ending.unstarted hfeed hl
  | ended => exact ending.ended hfeed hl hend
  | ready token => exact ending.token hfeed hl htoken hfeed

theorem ends_tooDeep : Ends rel stops origin (Grammar.tooDeep : Rule σ α) := by
  intro feed hfeed
  rw [Grammar.tooDeep, here, bind_assoc, bind_of_ok (peek_eq feed)]
  cases (Feed.lookahead feed).token? with
  | none => exact ending.tooDeep hfeed
  | some token => exact ending.tooDeep hfeed

theorem ends_expected (what : String) :
    Ends rel stops origin (expected what : Rule σ α) := by
  intro feed hfeed
  rw [expected, bind_of_ok (look_eq feed)]
  cases hl : Feed.lookahead feed with
  | unstarted => exact ending.unstarted hfeed hl
  | ended => exact ending.ended hfeed hl rfl
  | ready token => exact ending.token hfeed hl rfl hfeed

theorem ends_chomp (form : Form) : Ends rel stops origin (chomp form : Rule σ Unit) := by
  intro feed hfeed
  rw [chomp, bind_of_ok (look_eq feed)]
  cases hl : Feed.lookahead feed with
  | unstarted => exact ending.unstarted hfeed hl
  | ended => exact ending.ended hfeed hl rfl
  | ready token =>
    dsimp only
    split
    · exact (ends_advance ending).map _ feed hfeed
    · exact ending.token hfeed hl rfl hfeed

theorem ends_begin : Ends rel stops origin (begin : Rule σ Unit) := by
  intro feed hfeed
  rw [begin, bind_of_ok (look_eq feed)]
  cases Feed.lookahead feed with
  | unstarted => exact (ends_advance ending).map _ feed hfeed
  | ready token => exact hfeed
  | ended => exact hfeed

/-! ## Repetition -/

theorem ends_skipUpTo (bound : Nat) : Ends rel stops origin (skipUpTo bound : Rule σ Unit) := by
  induction bound with
  | zero => exact .of_pure _
  | succ bound ih =>
    refine (ends_ahead _).bind fun isThere => ?_
    cases isThere with
    | false => exact .of_pure _
    | true => exact (ends_advance ending).bind fun _ => ih

theorem ends_skipSemicolons : Ends rel stops origin (skipSemicolons : Rule σ Unit) :=
  .bounded (ends_skipUpTo ending)

theorem ends_manyUpTo {rule : Rule σ (Option α)} (h : ∀ {origin}, Ends rel stops origin rule)
    (bound : Nat) : Ends rel stops origin (manyUpTo rule bound) := by
  induction bound generalizing origin with
  | zero => exact .of_pure _
  | succ bound ih =>
    refine ends_mark_bind ending fun marked => h.bind fun found => ?_
    cases found with
    | none => exact (ends_reset ending).bind fun _ => .of_pure _
    | some item => exact ih.bind fun _ => .of_pure _

theorem ends_many {rule : Rule σ (Option α)} (h : ∀ {origin}, Ends rel stops origin rule) :
    Ends rel stops origin (many rule) :=
  .bounded fun _ => ends_manyUpTo ending h _

end Rule

/-! ## The grammar -/

namespace Grammar

open Rule

variable {σ : Type} [Feed σ] {rel : σ → σ → Prop} {stops : σ → Fault → σ → Prop} {origin : σ}

section Patterns

variable (ending : Feed.Ending rel stops) {inner : Rule σ (Option Pattern)}
  (hinner : ∀ {origin}, Ends rel stops origin inner)

include ending hinner

theorem ends_patternMembers (bound : Nat) :
    Ends rel stops origin (patternMembers inner bound) := by
  induction bound with
  | zero => exact .of_pure _
  | succ bound ih =>
    refine (ends_ahead _).bind fun isClosed => ?_
    cases isClosed with
    | true => exact .of_pure _
    | false =>
      refine hinner.bind fun found => ?_
      cases found with
      | none => exact ends_expected ending _
      | some member =>
        refine (ends_ahead _).bind fun isComma => ?_
        cases isComma with
        | true => exact (ends_advance ending).bind fun _ => ih.bind fun _ => .of_pure _
        | false => exact .of_pure _

theorem ends_groupedPattern (location : Location) :
    Ends rel stops origin (groupedPattern inner location) := by
  refine Ends.bind (.bounded fun _ => ends_patternMembers ending hinner _) fun found => ?_
  refine (ends_chomp ending _).bind fun _ => ?_
  split <;> exact .of_pure _

theorem ends_patternWith : Ends rel stops origin (patternWith inner) := by
  refine .of_peek ending (.of_pure _) fun token _ => ?_
  dsimp only
  split
  · exact (ends_advance ending).bind fun _ => .of_pure _
  · exact (ends_advance ending).bind fun _ => .of_pure _
  · split
    · exact .of_pure _
    · refine (ends_advance ending).bind fun _ => ?_
      split
      · exact (ends_many ending hinner).bind fun _ => .of_pure _
      · exact .of_pure _
  · exact (ends_advance ending).bind fun _ =>
      (ends_groupedPattern ending hinner _).bind fun _ => .of_pure _
  · exact .of_pure _

end Patterns

theorem ends_pattern (ending : Feed.Ending rel stops) (budget : Nat) :
    Ends rel stops origin (pattern budget) := by
  induction budget generalizing origin with
  | zero => exact ends_tooDeep ending
  | succ budget ih => exact ends_patternWith ending ih

section Expressions

variable (ending : Feed.Ending rel stops) {inner : Rule σ (Option Expr)}
  {patterns : Rule σ (Option Pattern)} (hinner : ∀ {origin}, Ends rel stops origin inner)
  (hpatterns : ∀ {origin}, Ends rel stops origin patterns)

include ending

theorem ends_identifier : Ends rel stops origin (identifier : Rule σ Name) := by
  have hmissing : Ends rel stops origin (do fail (← here) .missingIdentifier : Rule σ Name) :=
    ends_fail_here ending rfl rfl
  refine .of_peek ending hmissing fun token _ => ?_
  dsimp only
  split
  · exact hmissing
  · exact (ends_advance ending).bind fun _ => .of_pure _

include hinner

theorem ends_application : Ends rel stops origin (application inner) := by
  refine (ends_skipSemicolons ending).bind fun _ => hinner.bind fun found => ?_
  cases found with
  | none => exact ends_fail_here ending rfl rfl
  | some function =>
    refine (ends_many ending hinner).bind fun arguments => ?_
    cases arguments <;> exact .of_pure _

theorem ends_bindingRest (location : Location) :
    Ends rel stops origin (bindingRest inner location) := by
  refine (ends_identifier ending).bind fun _ => (ends_chomp ending _).bind fun _ => ?_
  refine (ends_application ending hinner).bind fun _ => ?_
  refine (ends_skipSemicolons ending).bind fun _ => (ends_chomp ending _).bind fun _ => ?_
  exact (ends_application ending hinner).bind fun _ => .of_pure _

theorem ends_tupleMembers (bound : Nat) : Ends rel stops origin (tupleMembers inner bound) := by
  induction bound with
  | zero => exact .of_pure _
  | succ bound ih =>
    refine (ends_ahead _).bind fun isComma => ?_
    cases isComma with
    | false => exact .of_pure _
    | true =>
      refine (ends_advance ending).bind fun _ => (ends_ahead _).bind fun isClosed => ?_
      cases isClosed with
      | true => exact .of_pure _
      | false =>
        exact (ends_application ending hinner).bind fun _ => ih.bind fun _ => .of_pure _

theorem ends_groupedRest (location : Location) :
    Ends rel stops origin (groupedRest inner location) := by
  refine (ends_ahead _).bind fun isClosed => ?_
  cases isClosed with
  | true => exact (ends_advance ending).bind fun _ => .of_pure _
  | false =>
    refine (ends_application ending hinner).bind fun _ => ?_
    refine Ends.bind (.bounded fun _ => ends_tupleMembers ending hinner _) fun found => ?_
    refine (ends_chomp ending _).bind fun _ => ?_
    split <;> exact .of_pure _

include hpatterns

theorem ends_armsUpTo (bound : Nat) :
    Ends rel stops origin (armsUpTo inner patterns bound) := by
  induction bound generalizing origin with
  | zero => exact .of_pure _
  | succ bound ih =>
    refine ends_mark_bind ending fun marked => (ends_skipSemicolons ending).bind fun _ => ?_
    refine hpatterns.bind fun found => ?_
    cases found with
    | none => exact (ends_reset ending).bind fun _ => .of_pure _
    | some pattern =>
      refine (ends_ahead _).bind fun isArrow => ?_
      cases isArrow with
      | true =>
        refine (ends_advance ending).bind fun _ => ?_
        exact (ends_application ending hinner).bind fun _ => ih.bind fun _ => .of_pure _
      | false => exact (ends_reset ending).bind fun _ => .of_pure _

/-- A match without arms is refused at its keyword, which was read before. -/
theorem ends_matchRest {location : Location} (h : Feed.Refusable rel stops origin location) :
    Ends rel stops origin (matchRest inner patterns location) := by
  refine (ends_application ending hinner).bind fun _ => ?_
  refine Ends.bind (.bounded fun _ => ends_armsUpTo ending hinner hpatterns _) fun arms => ?_
  cases arms with
  | nil => exact ends_fail h rfl
  | cons arm arms => exact .of_pure _

theorem ends_termWith : Ends rel stops origin (termWith inner patterns) := by
  refine .of_peek ending (.of_pure _) fun token hplace => ?_
  dsimp only
  split
  · exact (ends_advance ending).bind fun _ =>
      (ends_bindingRest ending hinner _).bind fun _ => .of_pure _
  · exact (ends_advance ending).bind fun _ =>
      (ends_matchRest ending hinner hpatterns hplace).bind fun _ => .of_pure _
  · split
    · exact .of_pure _
    · exact (ends_advance ending).bind fun _ => .of_pure _
  · exact .of_pure _
  · exact (ends_advance ending).bind fun _ => .of_pure _
  · exact (ends_advance ending).bind fun _ =>
      (ends_groupedRest ending hinner _).bind fun _ => .of_pure _
  · exact (ends_advance ending).bind fun _ => .of_pure _
  · exact (ends_advance ending).bind fun _ => .of_pure _
  · exact (ends_advance ending).bind fun _ => .of_pure _
  · exact .of_pure _
  · exact .of_pure _
  · exact .of_pure _
  · exact ends_fail hplace rfl

end Expressions

theorem ends_term (ending : Feed.Ending rel stops) (budget : Nat) :
    Ends rel stops origin (term budget) := by
  induction budget generalizing origin with
  | zero => exact ends_tooDeep ending
  | succ budget ih => exact ends_termWith ending ih (ends_pattern ending budget)

section Declarations

variable (ending : Feed.Ending rel stops) (budget : Nat)

include ending

theorem ends_declaration :
    Ends rel stops origin (declaration budget : Rule σ (Option Decl)) := by
  refine .of_peek ending (.of_pure _) fun token _ => ?_
  dsimp only
  split
  · exact .of_pure _
  · refine (ends_advance ending).bind fun _ => ?_
    refine (ends_many ending (ends_pattern ending budget)).bind fun _ => ?_
    refine (ends_chomp ending _).bind fun _ => ?_
    refine (ends_application ending (ends_term ending budget)).bind fun _ => ?_
    exact (ends_note ending _).bind fun _ => .of_pure _

theorem ends_declarationsUpTo (bound : Nat) :
    Ends rel stops origin (declarationsUpTo budget bound : Rule σ (List Decl)) := by
  induction bound with
  | zero => exact .of_pure _
  | succ bound ih =>
    refine (ends_skipSemicolons ending).bind fun _ => ?_
    refine (ends_declaration ending budget).bind fun found => ?_
    cases found with
    | none => exact .of_pure _
    | some decl => exact ih.bind fun _ => .of_pure _

/-- Reads all of a file behind its first step. -/
def declarations {σ : Type} [Feed σ] (budget : Nat) : Rule σ (List Decl) := do
  let decls ← bounded fun left => declarationsUpTo budget (left + 1)
  match ← peek with
  | none => pure decls
  | some _ => expected "a declaration"

theorem ends_declarations :
    Ends rel stops origin (declarations budget : Rule σ (List Decl)) := by
  refine Ends.bind (.bounded fun _ => ends_declarationsUpTo ending budget _) fun _ => ?_
  refine ends_peek.bind fun found => ?_
  cases found with
  | none => exact .of_pure _
  | some token => exact ends_expected ending _

theorem ends_file : Ends rel stops origin (file budget : Rule σ (List Decl)) :=
  (ends_begin ending).bind fun _ => ends_declarations ending budget

end Declarations

end Grammar

end FrontEnd
