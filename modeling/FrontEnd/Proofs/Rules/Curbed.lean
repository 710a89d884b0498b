import FrontEnd.Proofs.Rules.Ends

/-!
# Rules that give up early

A rule may give up where another one, or the same one on another feed, goes on: because its budget
for nesting is smaller, or because its feed breaks off. Nothing else comes of that. A rule that
gives up stops for good, it is never taken for one that finds nothing, and no attempt is made
without it. So up to there both rules do the same.

* `Feed.Curbing` — feeds on which steps are the same, unless they give up.
* `Rule.Curbs` — a rule does what another one does, unless it gives up.
* `Grammar.curbs_file` — a smaller budget, or a feed that breaks off, does nothing but that.
-/

set_option autoImplicit false

namespace FrontEnd

/-- The first result gives up, or it is the second one, with what is left related by `rel`. -/
def Curbed {σ α : Type} (rel : σ → σ → Prop) (quits : Fault → Prop) :
    EStateM.Result Fault σ α → EStateM.Result Fault σ α → Prop
  | .error fault feed, .error fault' feed' => quits fault ∨ fault = fault' ∧ rel feed feed'
  | .error fault _, .ok _ _ => quits fault
  | .ok value feed, .ok value' feed' => value = value' ∧ rel feed feed'
  | .ok _ _, .error _ _ => False

/-- Feeds that look the same and on which every step is the same, unless it gives up on the first
one. -/
structure Feed.Curbing {σ : Type} [Feed σ] (rel : σ → σ → Prop) (quits : Fault → Prop) : Prop where
  lookahead : ∀ {feed feed'}, rel feed feed' → Feed.lookahead feed = Feed.lookahead feed'
  location : ∀ {feed feed'}, rel feed feed' → Feed.location feed = Feed.location feed'
  left : ∀ {feed feed'}, rel feed feed' → Feed.left feed = Feed.left feed'
  advance : ∀ {feed feed'}, rel feed feed' →
    Curbed rel quits (Feed.advance feed) (Feed.advance feed')
  note : ∀ {feed feed'} (event : Event), rel feed feed' →
    rel (Feed.note event feed) (Feed.note event feed')
  rewind : ∀ {marked marked' feed feed'}, rel marked marked' → rel feed feed' →
    rel (Feed.reset (Feed.mark marked) feed) (Feed.reset (Feed.mark marked') feed')

namespace Curbed

variable {σ α : Type} {rel : σ → σ → Prop} {quits : Fault → Prop}
  {result result' : EStateM.Result Fault σ α}

theorem of_quits {fault : Fault} {feed : σ} (h : quits fault) :
    Curbed rel quits (.error fault feed) result' := by
  cases result' with
  | ok value' feed' => exact h
  | error fault' feed' => exact .inl h

theorem of_eq (hrefl : ∀ feed, rel feed feed) (h : result = result') :
    Curbed rel quits result result' := by
  subst h
  cases result with
  | ok value feed => exact ⟨rfl, hrefl feed⟩
  | error fault feed => exact .inr ⟨rfl, hrefl feed⟩

/-- Where nothing changes in what is left, a result that does not give up is the other one. -/
theorem eq_of_not_quits (h : Curbed Eq quits result result')
    (hquits : ∀ fault feed, result = .error fault feed → ¬ quits fault) : result' = result := by
  cases result with
  | ok value feed =>
    cases result' with
    | ok value' feed' => rw [h.1, h.2]
    | error fault' feed' => exact h.elim
  | error fault feed =>
    have hfault := hquits fault feed rfl
    cases result' with
    | ok value' feed' => exact absurd h hfault
    | error fault' feed' =>
      obtain ⟨rfl, rfl⟩ := h.resolve_left hfault
      rfl

end Curbed

/-- Every feed does the same as itself. -/
theorem Feed.curbing_eq {σ : Type} [Feed σ] (quits : Fault → Prop) :
    Feed.Curbing (Eq : σ → σ → Prop) quits where
  lookahead h := congrArg _ h
  location h := congrArg _ h
  left h := congrArg _ h
  advance h := .of_eq (fun _ => rfl) (congrArg _ h)
  note event h := congrArg _ h
  rewind h h' := by rw [h, h']

namespace Rule

variable {σ α β : Type} {rel : σ → σ → Prop} {quits : Fault → Prop}

/-- On related feeds, a rule does what another one does, unless it gives up. -/
def Curbs (rel : σ → σ → Prop) (quits : Fault → Prop) (rule rule' : Rule σ α) : Prop :=
  ∀ feed feed', rel feed feed' → Curbed rel quits (rule feed) (rule' feed')

/-- Unless it gives up, the first rule answers what the second one answers, or stops as it does. -/
theorem Curbs.answer {rule rule' : Rule σ α} {feed feed' : σ} (h : Curbs rel quits rule rule')
    (hrel : rel feed feed') :
    (∃ fault, rule.answer feed = .error fault ∧ quits fault) ∨
      rule'.answer feed' = rule.answer feed := by
  have hcurbed := h feed feed' hrel
  unfold Rule.answer
  cases hr : rule feed with
  | ok value left =>
    rw [hr] at hcurbed
    cases hr' : rule' feed' with
    | ok value' left' =>
      rw [hr'] at hcurbed
      exact .inr (congrArg _ hcurbed.1.symm)
    | error fault' left' =>
      rw [hr'] at hcurbed
      exact hcurbed.elim
  | error fault left =>
    rw [hr] at hcurbed
    cases hr' : rule' feed' with
    | ok value' left' =>
      rw [hr'] at hcurbed
      exact .inl ⟨fault, rfl, hcurbed⟩
    | error fault' left' =>
      rw [hr'] at hcurbed
      exact hcurbed.imp (fun hquits => ⟨fault, rfl, hquits⟩) fun hsame =>
        congrArg _ hsame.1.symm

/-! ## Steps -/

theorem Curbs.of_pure (value : α) : Curbs rel quits (pure value : Rule σ α) (pure value) :=
  fun _ _ h => ⟨rfl, h⟩

theorem curbs_fail (location : Location) (cause : Cause) :
    Curbs rel quits (fail location cause : Rule σ α) (fail location cause) :=
  fun _ _ h => .inr ⟨rfl, h⟩

theorem Curbs.bind {rule rule' : Rule σ α} {next next' : α → Rule σ β}
    (h : Curbs rel quits rule rule') (hnext : ∀ value, Curbs rel quits (next value) (next' value)) :
    Curbs rel quits (rule >>= next) (rule' >>= next') := by
  intro feed feed' hrel
  have hrule := h feed feed' hrel
  cases hr : rule feed with
  | error fault left =>
    rw [hr] at hrule
    rw [bind_of_error hr]
    cases hr' : rule' feed' with
    | ok value' left' =>
      rw [hr'] at hrule
      exact .of_quits hrule
    | error fault' left' =>
      rw [hr'] at hrule
      rw [bind_of_error hr']
      exact hrule
  | ok value left =>
    rw [hr] at hrule
    cases hr' : rule' feed' with
    | error fault' left' =>
      rw [hr'] at hrule
      exact hrule.elim
    | ok value' left' =>
      rw [hr'] at hrule
      obtain ⟨rfl, hleft⟩ := hrule
      rw [bind_of_ok hr, bind_of_ok hr']
      exact hnext value left left' hleft

/-- What is read behind marks of related feeds may go back to them. -/
theorem curbs_mark_bind [Feed σ] {next next' : Feed.Mark σ → Rule σ α}
    (h : ∀ marked marked', rel marked marked' →
      Curbs rel quits (next (Feed.mark marked)) (next' (Feed.mark marked'))) :
    Curbs rel quits (mark >>= next) (mark >>= next') :=
  fun feed feed' hrel => h feed feed' hrel feed feed' hrel

variable [Feed σ] (curbing : Feed.Curbing rel quits)

include curbing

theorem curbs_look : Curbs rel quits (look : Rule σ Lookahead) look :=
  fun _ _ h => ⟨curbing.lookahead h, h⟩

theorem curbs_peek : Curbs rel quits (peek : Rule σ (Option Token)) peek :=
  fun _ _ h => ⟨congrArg _ (curbing.lookahead h), h⟩

theorem curbs_position : Curbs rel quits (position : Rule σ Location) position :=
  fun _ _ h => ⟨curbing.location h, h⟩

theorem curbs_advance : Curbs rel quits (advance : Rule σ Location) advance :=
  fun _ _ h => curbing.advance h

theorem curbs_note (event : Event) : Curbs rel quits (note event : Rule σ Unit) (note event) :=
  fun _ _ h => ⟨rfl, curbing.note event h⟩

theorem curbs_reset {marked marked' : σ} (h : rel marked marked') :
    Curbs rel quits (reset (Feed.mark marked)) (reset (Feed.mark marked')) :=
  fun _ _ hrel => ⟨rfl, curbing.rewind h hrel⟩

theorem Curbs.bounded {rule rule' : Nat → Rule σ α}
    (h : ∀ bound, Curbs rel quits (rule bound) (rule' bound)) :
    Curbs rel quits (bounded rule) (bounded rule') := by
  intro feed feed' hrel
  show Curbed rel quits (rule (Feed.left feed) feed) (rule' (Feed.left feed') feed')
  rw [← curbing.left hrel]
  exact h _ feed feed' hrel

/-! ## Expectations -/

theorem curbs_here : Curbs rel quits (here : Rule σ Location) here := by
  refine (curbs_peek curbing).bind fun found => ?_
  cases found with
  | none => exact curbs_position curbing
  | some token => exact .of_pure _

theorem curbs_fail_here (cause : Cause) :
    Curbs rel quits (do fail (← here) cause : Rule σ α) (do fail (← here) cause) :=
  (curbs_here curbing).bind fun _ => curbs_fail _ _

theorem curbs_expected (what : String) :
    Curbs rel quits (expected what : Rule σ α) (expected what) := by
  refine (curbs_look curbing).bind fun front => ?_
  cases front with
  | ready token => exact curbs_fail _ _
  | unstarted => exact (curbs_position curbing).bind fun _ => curbs_fail _ _
  | ended => exact (curbs_position curbing).bind fun _ => curbs_fail _ _

theorem curbs_ahead (form : Form) : Curbs rel quits (ahead form : Rule σ Bool) (ahead form) := by
  refine (curbs_peek curbing).bind fun found => ?_
  cases found <;> exact .of_pure _

theorem curbs_discard_advance :
    Curbs rel quits (discard advance : Rule σ Unit) (discard advance) :=
  (curbs_advance curbing).bind fun _ => .of_pure _

theorem curbs_chomp (form : Form) : Curbs rel quits (chomp form : Rule σ Unit) (chomp form) := by
  refine (curbs_look curbing).bind fun front => ?_
  cases front with
  | unstarted => exact (curbs_position curbing).bind fun _ => curbs_fail _ _
  | ended => exact (curbs_position curbing).bind fun _ => curbs_fail _ _
  | ready token =>
    dsimp only
    split
    · exact curbs_discard_advance curbing
    · exact curbs_fail _ _

theorem curbs_begin : Curbs rel quits (begin : Rule σ Unit) begin := by
  refine (curbs_look curbing).bind fun front => ?_
  cases front with
  | unstarted => exact curbs_discard_advance curbing
  | ready token => exact .of_pure _
  | ended => exact .of_pure _

/-! ## Repetition -/

theorem curbs_skipSemicolons : Curbs rel quits (skipSemicolons : Rule σ Unit) skipSemicolons := by
  refine .bounded curbing fun bound => ?_
  induction bound with
  | zero => exact .of_pure _
  | succ bound ih =>
    refine (curbs_ahead curbing _).bind fun isThere => ?_
    cases isThere with
    | false => exact .of_pure _
    | true => exact (curbs_advance curbing).bind fun _ => ih

theorem curbs_many {rule rule' : Rule σ (Option α)} (h : Curbs rel quits rule rule') :
    Curbs rel quits (many rule) (many rule') := by
  have hmany : ∀ bound, Curbs rel quits (manyUpTo rule bound) (manyUpTo rule' bound) := by
    intro bound
    induction bound with
    | zero => exact .of_pure _
    | succ bound ih =>
      refine curbs_mark_bind fun marked marked' hmarked => h.bind fun found => ?_
      cases found with
      | none => exact (curbs_reset curbing hmarked).bind fun _ => .of_pure _
      | some item => exact ih.bind fun _ => .of_pure _
  exact .bounded curbing fun _ => hmany _

end Rule

/-! ## The grammar -/

namespace Grammar

open Rule

variable {σ : Type} [Feed σ] {rel : σ → σ → Prop} {quits : Fault → Prop}

/-- A budget that is used up gives up. -/
theorem curbs_tooDeep {α : Type} (hquits : ∀ fault : Fault, fault.IsTooDeep → quits fault)
    (rule : Rule σ α) : Curbs rel quits tooDeep rule := by
  intro feed feed' _
  rw [tooDeep, here, bind_assoc, bind_of_ok (peek_eq feed)]
  cases (Feed.lookahead feed).token? <;> exact .of_quits (hquits _ rfl)

section Patterns

variable (curbing : Feed.Curbing rel quits) {inner inner' : Rule σ (Option Pattern)}
  (hinner : Curbs rel quits inner inner')

include curbing hinner

theorem curbs_patternMembers (bound : Nat) :
    Curbs rel quits (patternMembers inner bound) (patternMembers inner' bound) := by
  induction bound with
  | zero => exact .of_pure _
  | succ bound ih =>
    refine (curbs_ahead curbing _).bind fun isClosed => ?_
    cases isClosed with
    | true => exact .of_pure _
    | false =>
      refine hinner.bind fun found => ?_
      cases found with
      | none => exact curbs_expected curbing _
      | some member =>
        refine (curbs_ahead curbing _).bind fun isComma => ?_
        cases isComma with
        | true => exact (curbs_advance curbing).bind fun _ => ih.bind fun _ => .of_pure _
        | false => exact .of_pure _

theorem curbs_groupedPattern (location : Location) :
    Curbs rel quits (groupedPattern inner location) (groupedPattern inner' location) := by
  refine Curbs.bind (.bounded curbing fun _ => curbs_patternMembers curbing hinner _)
    fun found => ?_
  refine (curbs_chomp curbing _).bind fun _ => ?_
  split <;> exact .of_pure _

theorem curbs_patternWith : Curbs rel quits (patternWith inner) (patternWith inner') := by
  refine (curbs_peek curbing).bind fun found => ?_
  cases found with
  | none => exact .of_pure _
  | some token =>
    dsimp only
    split
    · exact (curbs_advance curbing).bind fun _ => .of_pure _
    · exact (curbs_advance curbing).bind fun _ => .of_pure _
    · split
      · exact .of_pure _
      · refine (curbs_advance curbing).bind fun _ => ?_
        split
        · exact (curbs_many curbing hinner).bind fun _ => .of_pure _
        · exact .of_pure _
    · exact (curbs_advance curbing).bind fun _ =>
        (curbs_groupedPattern curbing hinner _).bind fun _ => .of_pure _
    · exact .of_pure _

end Patterns

section Expressions

variable (curbing : Feed.Curbing rel quits) {inner inner' : Rule σ (Option Expr)}
  {patterns patterns' : Rule σ (Option Pattern)} (hinner : Curbs rel quits inner inner')
  (hpatterns : Curbs rel quits patterns patterns')

include curbing

theorem curbs_identifier : Curbs rel quits (identifier : Rule σ Name) identifier := by
  refine (curbs_peek curbing).bind fun found => ?_
  cases found with
  | none => exact curbs_fail_here curbing _
  | some token =>
    dsimp only
    split
    · exact curbs_fail_here curbing _
    · exact (curbs_advance curbing).bind fun _ => .of_pure _

include hinner

theorem curbs_application : Curbs rel quits (application inner) (application inner') := by
  refine (curbs_skipSemicolons curbing).bind fun _ => hinner.bind fun found => ?_
  cases found with
  | none => exact curbs_fail_here curbing _
  | some function =>
    refine (curbs_many curbing hinner).bind fun arguments => ?_
    cases arguments <;> exact .of_pure _

theorem curbs_bindingRest (location : Location) :
    Curbs rel quits (bindingRest inner location) (bindingRest inner' location) := by
  refine (curbs_identifier curbing).bind fun _ => (curbs_chomp curbing _).bind fun _ => ?_
  refine (curbs_application curbing hinner).bind fun _ => ?_
  refine (curbs_skipSemicolons curbing).bind fun _ => (curbs_chomp curbing _).bind fun _ => ?_
  exact (curbs_application curbing hinner).bind fun _ => .of_pure _

theorem curbs_tupleMembers (bound : Nat) :
    Curbs rel quits (tupleMembers inner bound) (tupleMembers inner' bound) := by
  induction bound with
  | zero => exact .of_pure _
  | succ bound ih =>
    refine (curbs_ahead curbing _).bind fun isComma => ?_
    cases isComma with
    | false => exact .of_pure _
    | true =>
      refine (curbs_advance curbing).bind fun _ => (curbs_ahead curbing _).bind fun isClosed => ?_
      cases isClosed with
      | true => exact .of_pure _
      | false =>
        exact (curbs_application curbing hinner).bind fun _ => ih.bind fun _ => .of_pure _

theorem curbs_groupedRest (location : Location) :
    Curbs rel quits (groupedRest inner location) (groupedRest inner' location) := by
  refine (curbs_ahead curbing _).bind fun isClosed => ?_
  cases isClosed with
  | true => exact (curbs_advance curbing).bind fun _ => .of_pure _
  | false =>
    refine (curbs_application curbing hinner).bind fun _ => ?_
    refine Curbs.bind (.bounded curbing fun _ => curbs_tupleMembers curbing hinner _)
      fun found => ?_
    refine (curbs_chomp curbing _).bind fun _ => ?_
    split <;> exact .of_pure _

include hpatterns

/-- An attempt at an arm that gives up is not taken for the end of the arms. -/
theorem curbs_armsUpTo (bound : Nat) :
    Curbs rel quits (armsUpTo inner patterns bound) (armsUpTo inner' patterns' bound) := by
  induction bound with
  | zero => exact .of_pure _
  | succ bound ih =>
    refine curbs_mark_bind fun marked marked' hmarked => ?_
    refine (curbs_skipSemicolons curbing).bind fun _ => hpatterns.bind fun found => ?_
    cases found with
    | none => exact (curbs_reset curbing hmarked).bind fun _ => .of_pure _
    | some pattern =>
      refine (curbs_ahead curbing _).bind fun isArrow => ?_
      cases isArrow with
      | true =>
        refine (curbs_advance curbing).bind fun _ => ?_
        exact (curbs_application curbing hinner).bind fun _ => ih.bind fun _ => .of_pure _
      | false => exact (curbs_reset curbing hmarked).bind fun _ => .of_pure _

theorem curbs_matchRest (location : Location) :
    Curbs rel quits (matchRest inner patterns location) (matchRest inner' patterns' location) := by
  refine (curbs_application curbing hinner).bind fun _ => ?_
  refine Curbs.bind (.bounded curbing fun _ => curbs_armsUpTo curbing hinner hpatterns _)
    fun arms => ?_
  cases arms with
  | nil => exact curbs_fail _ _
  | cons arm arms => exact .of_pure _

theorem curbs_termWith :
    Curbs rel quits (termWith inner patterns) (termWith inner' patterns') := by
  have htoken : ∀ value : Option Expr,
      Curbs rel quits (do let _ ← advance; pure value : Rule σ (Option Expr))
        (do let _ ← advance; pure value) :=
    fun value => (curbs_advance curbing).bind fun _ => .of_pure value
  refine (curbs_peek curbing).bind fun found => ?_
  cases found with
  | none => exact .of_pure _
  | some token =>
    dsimp only
    split
    · exact (curbs_advance curbing).bind fun _ =>
        (curbs_bindingRest curbing hinner _).bind fun _ => .of_pure _
    · exact (curbs_advance curbing).bind fun _ =>
        (curbs_matchRest curbing hinner hpatterns _).bind fun _ => .of_pure _
    · split
      · exact .of_pure _
      · exact htoken _
    · exact .of_pure _
    · exact htoken _
    · exact (curbs_advance curbing).bind fun _ =>
        (curbs_groupedRest curbing hinner _).bind fun _ => .of_pure _
    · exact htoken _
    · exact htoken _
    · exact htoken _
    · exact .of_pure _
    · exact .of_pure _
    · exact .of_pure _
    · exact curbs_fail _ _

end Expressions

/-! ## Budgets -/

section Budgets

variable (curbing : Feed.Curbing rel quits) {n m : Nat} (hle : n ≤ m)
  (hquits : n < m → ∀ fault : Fault, fault.IsTooDeep → quits fault)

include curbing hle hquits

theorem curbs_pattern : Curbs rel quits (pattern n) (pattern m) := by
  induction n generalizing m with
  | zero =>
    cases m with
    | zero => exact curbs_fail_here curbing _
    | succ m => exact curbs_tooDeep (hquits (Nat.succ_pos m)) _
  | succ n ih =>
    cases m with
    | zero => omega
    | succ m =>
      exact curbs_patternWith curbing
        (ih (Nat.le_of_succ_le_succ hle) fun hlt => hquits (Nat.succ_lt_succ hlt))

theorem curbs_term : Curbs rel quits (term n) (term m) := by
  induction n generalizing m with
  | zero =>
    cases m with
    | zero => exact curbs_fail_here curbing _
    | succ m => exact curbs_tooDeep (hquits (Nat.succ_pos m)) _
  | succ n ih =>
    cases m with
    | zero => omega
    | succ m =>
      have hle' : n ≤ m := Nat.le_of_succ_le_succ hle
      have hquits' : n < m → ∀ fault : Fault, fault.IsTooDeep → quits fault :=
        fun hlt => hquits (Nat.succ_lt_succ hlt)
      exact curbs_termWith curbing (ih hle' hquits') (curbs_pattern curbing hle' hquits')

theorem curbs_declaration : Curbs rel quits (declaration n) (declaration m) := by
  refine (curbs_peek curbing).bind fun found => ?_
  cases found with
  | none => exact .of_pure _
  | some token =>
    dsimp only
    split
    · exact .of_pure _
    · refine (curbs_advance curbing).bind fun _ => ?_
      refine (curbs_many curbing (curbs_pattern curbing hle hquits)).bind fun _ => ?_
      refine (curbs_chomp curbing _).bind fun _ => ?_
      refine (curbs_application curbing (curbs_term curbing hle hquits)).bind fun _ => ?_
      exact (curbs_note curbing _).bind fun _ => .of_pure _

theorem curbs_declarationsUpTo (bound : Nat) :
    Curbs rel quits (declarationsUpTo n bound) (declarationsUpTo m bound) := by
  induction bound with
  | zero => exact .of_pure _
  | succ bound ih =>
    refine (curbs_skipSemicolons curbing).bind fun _ => ?_
    refine (curbs_declaration curbing hle hquits).bind fun found => ?_
    cases found with
    | none => exact .of_pure _
    | some decl => exact ih.bind fun _ => .of_pure _

/-- **A smaller budget, or a feed that breaks off, makes reading give up and nothing else.** -/
theorem curbs_file : Curbs rel quits (file n) (file m) := by
  refine (curbs_begin curbing).bind fun _ => ?_
  refine Curbs.bind (.bounded curbing fun _ => curbs_declarationsUpTo curbing hle hquits _)
    fun decls => ?_
  refine (curbs_peek curbing).bind fun found => ?_
  cases found with
  | none => exact .of_pure _
  | some token => exact curbs_expected curbing _

end Budgets

end Grammar

end FrontEnd
