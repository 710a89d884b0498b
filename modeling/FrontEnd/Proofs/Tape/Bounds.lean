import FrontEnd.Proofs.Tape.Basic

/-!
# Bounds of repetitions

Repetitions are bounded by the tokens that are left. On a tape every item of a repetition takes a
token, so a bound above the number of tokens is never reached, and one such bound does what any
other does. The main statements end in `_enough`.
-/

set_option autoImplicit false

namespace FrontEnd

namespace Rule

variable {σ α β : Type}

/-- What follows a rule needs to agree only where the rule leads. -/
theorem bind_congr_of_ok {rule : Rule σ α} {next next' : α → Rule σ β} {feed : σ}
    (h : ∀ value left, rule feed = .ok value left → next value left = next' value left) :
    (rule >>= next) feed = (rule >>= next') feed := by
  cases hr : rule feed with
  | ok value left => rw [bind_of_ok hr, bind_of_ok hr, h value left hr]
  | error fault left => rw [bind_of_error hr, bind_of_error hr]

/-- Rules that agree on a feed agree on it whatever follows. -/
theorem bind_congr_left {rule rule' : Rule σ α} {next : α → Rule σ β} {feed : σ}
    (h : rule feed = rule' feed) : (rule >>= next) feed = (rule' >>= next) feed := by
  cases hr : rule' feed with
  | ok value left => rw [bind_of_ok hr, bind_of_ok (h.trans hr)]
  | error fault left => rw [bind_of_error hr, bind_of_error (h.trans hr)]

/-- What does not change with a bound from some bound on is the same for all bounds from there. -/
theorem stable_of_step {f : Nat → α} {least : Nat} (h : ∀ n, least ≤ n → f (n + 1) = f n)
    {n m : Nat} (hn : least ≤ n) (hm : least ≤ m) : f n = f m := by
  have hleast : ∀ k, f (least + k) = f least := by
    intro k
    induction k with
    | zero => rfl
    | succ k ih => rw [← Nat.add_assoc, h _ (Nat.le_add_right _ _), ih]
  obtain ⟨k, rfl⟩ := Nat.exists_eq_add_of_le hn
  obtain ⟨l, rfl⟩ := Nat.exists_eq_add_of_le hm
  rw [hleast, hleast]

theorem ahead_eq_ok {form : Form} {tape left : Tape} {isThere : Bool}
    (h : ahead form tape = .ok isThere left) :
    tape = left ∧ (isThere = true → ∃ token, tape.front = .ready token) := by
  obtain ⟨front, coming, stop⟩ := tape
  cases front <;> cases h <;> simp

/-- What a rule leaves on a tape is no longer than what was there. -/
theorem noLonger_of_ok {rule : Rule Tape α} {tape left : Tape} {value : α}
    (hkeeps : ∀ {origin}, Keeps NoLonger origin rule) (h : rule tape = .ok value left) :
    left.size ≤ tape.size :=
  hkeeps.of_ok (Nat.le_refl _) h

/-! ## Separators and items -/

theorem skipUpTo_step (n : Nat) (tape : Tape) (h : tape.size ≤ n) :
    skipUpTo (n + 1) tape = skipUpTo n tape := by
  induction n generalizing tape with
  | zero =>
    have hahead : ahead Lexeme.semicolon.form tape = .ok false tape := by
      obtain ⟨front, coming, stop⟩ := tape
      cases front with
      | ready token => simp [Tape.size] at h
      | unstarted place => rfl
      | ended place => rfl
    show (ahead Lexeme.semicolon.form >>= _) tape = _
    rw [bind_of_ok hahead]
    rfl
  | succ n ih =>
    rw [skipUpTo, skipUpTo]
    refine bind_congr_of_ok fun isThere left hahead => ?_
    obtain ⟨rfl, hready⟩ := ahead_eq_ok hahead
    cases isThere with
    | false => rfl
    | true =>
      obtain ⟨token, hfront⟩ := hready rfl
      refine bind_congr_of_ok fun _ left hadvance => ih left ?_
      have := advance_size hfront hadvance
      omega

theorem skipUpTo_enough {n m : Nat} {tape : Tape} (hn : tape.size ≤ n) (hm : tape.size ≤ m) :
    skipUpTo n tape = skipUpTo m tape :=
  stable_of_step (f := fun n => skipUpTo n tape) (fun k hk => skipUpTo_step k tape hk) hn hm

theorem manyUpTo_step {rule : Rule Tape (Option α)} (hexact : Exact rule) (n : Nat) (tape : Tape)
    (h : tape.size < n) : manyUpTo rule (n + 1) tape = manyUpTo rule n tape := by
  induction n generalizing tape with
  | zero => omega
  | succ n ih =>
    rw [manyUpTo, manyUpTo]
    refine bind_congr_of_ok fun marked left hmark => ?_
    cases hmark
    refine bind_congr_of_ok fun found left hrule => ?_
    cases found with
    | none => rfl
    | some item =>
      have hlt : left.size < tape.size := hexact _ _ _ hrule
      exact bind_congr_left (ih left (by omega))

theorem manyUpTo_enough {rule : Rule Tape (Option α)} (hexact : Exact rule) {n m : Nat}
    {tape : Tape} (hn : tape.size < n) (hm : tape.size < m) :
    manyUpTo rule n tape = manyUpTo rule m tape :=
  stable_of_step (f := fun n => manyUpTo rule n tape)
    (fun k hk => manyUpTo_step hexact k tape hk) hn hm

end Rule

/-! ## The repetitions of the grammar -/

namespace Grammar

open Rule Tape

section Patterns

variable {inner : Rule Tape (Option Pattern)} (hexact : Exact inner)

include hexact

theorem patternMembers_step (n : Nat) (tape : Tape) (h : tape.size < n) :
    patternMembers inner (n + 1) tape = patternMembers inner n tape := by
  induction n generalizing tape with
  | zero => omega
  | succ n ih =>
    rw [patternMembers, patternMembers]
    refine bind_congr_of_ok fun isClosed left hclosed => ?_
    obtain ⟨rfl, -⟩ := ahead_eq_ok hclosed
    cases isClosed with
    | true => rfl
    | false =>
      refine bind_congr_of_ok fun found left hinner => ?_
      cases found with
      | none => rfl
      | some member =>
        have hlt : left.size < tape.size := hexact _ _ _ hinner
        refine bind_congr_of_ok fun isComma left' hcomma => ?_
        obtain ⟨rfl, -⟩ := ahead_eq_ok hcomma
        cases isComma with
        | false => rfl
        | true =>
          refine bind_congr_of_ok fun _ left hadvance => ?_
          have := noLonger_of_ok (keeps_advance lasting_size) hadvance
          exact bind_congr_left (ih left (by omega))

theorem patternMembers_enough {n m : Nat} {tape : Tape} (hn : tape.size < n) (hm : tape.size < m) :
    patternMembers inner n tape = patternMembers inner m tape :=
  stable_of_step (f := fun n => patternMembers inner n tape)
    (fun k hk => patternMembers_step hexact k tape hk) hn hm

end Patterns

section Expressions

variable {inner : Rule Tape (Option Expr)} {patterns : Rule Tape (Option Pattern)}
  (hinner : ∀ {origin}, Keeps NoLonger origin inner)

include hinner

theorem tupleMembers_step (n : Nat) (tape : Tape) (h : tape.size < n) :
    tupleMembers inner (n + 1) tape = tupleMembers inner n tape := by
  induction n generalizing tape with
  | zero => omega
  | succ n ih =>
    rw [tupleMembers, tupleMembers]
    refine bind_congr_of_ok fun isComma left hcomma => ?_
    obtain ⟨rfl, hready⟩ := ahead_eq_ok hcomma
    cases isComma with
    | false => rfl
    | true =>
      obtain ⟨token, hfront⟩ := hready rfl
      refine bind_congr_of_ok fun _ left hadvance => ?_
      have hlt := advance_size hfront hadvance
      refine bind_congr_of_ok fun isClosed left' hclosed => ?_
      obtain ⟨rfl, -⟩ := ahead_eq_ok hclosed
      cases isClosed with
      | true => rfl
      | false =>
        refine bind_congr_of_ok fun member left hmember => ?_
        have := noLonger_of_ok (keeps_application lasting_size hinner) hmember
        exact bind_congr_left (ih left (by omega))

theorem tupleMembers_enough {n m : Nat} {tape : Tape} (hn : tape.size < n) (hm : tape.size < m) :
    tupleMembers inner n tape = tupleMembers inner m tape :=
  stable_of_step (f := fun n => tupleMembers inner n tape)
    (fun k hk => tupleMembers_step hinner k tape hk) hn hm

variable (hexact : Exact patterns)

include hexact

theorem armsUpTo_step (n : Nat) (tape : Tape) (h : tape.size < n) :
    armsUpTo inner patterns (n + 1) tape = armsUpTo inner patterns n tape := by
  induction n generalizing tape with
  | zero => omega
  | succ n ih =>
    rw [armsUpTo, armsUpTo]
    refine bind_congr_of_ok fun marked left hmark => ?_
    cases hmark
    refine bind_congr_of_ok fun _ left hskip => ?_
    have hle := noLonger_of_ok (keeps_skipSemicolons lasting_size) hskip
    refine bind_congr_of_ok fun found left' hpattern => ?_
    cases found with
    | none => rfl
    | some pattern =>
      have hlt : left'.size < left.size := hexact _ _ _ hpattern
      refine bind_congr_of_ok fun isArrow left'' harrow => ?_
      obtain ⟨rfl, -⟩ := ahead_eq_ok harrow
      cases isArrow with
      | false => rfl
      | true =>
        refine bind_congr_of_ok fun _ left₁ hadvance => ?_
        have h₁ := noLonger_of_ok (keeps_advance lasting_size) hadvance
        refine bind_congr_of_ok fun body left₂ hbody => ?_
        have h₂ := noLonger_of_ok (keeps_application lasting_size hinner) hbody
        exact bind_congr_left (ih left₂ (by omega))

theorem armsUpTo_enough {n m : Nat} {tape : Tape} (hn : tape.size < n) (hm : tape.size < m) :
    armsUpTo inner patterns n tape = armsUpTo inner patterns m tape :=
  stable_of_step (f := fun n => armsUpTo inner patterns n tape)
    (fun k hk => armsUpTo_step hinner hexact k tape hk) hn hm

end Expressions

theorem declarationsUpTo_step (budget n : Nat) (tape : Tape) (h : tape.size < n) :
    declarationsUpTo budget (n + 1) tape = declarationsUpTo budget n tape := by
  induction n generalizing tape with
  | zero => omega
  | succ n ih =>
    rw [declarationsUpTo, declarationsUpTo]
    refine bind_congr_of_ok fun _ left hskip => ?_
    have hle := noLonger_of_ok (keeps_skipSemicolons lasting_size) hskip
    refine bind_congr_of_ok fun found left' hdecl => ?_
    cases found with
    | none => rfl
    | some decl =>
      have hlt : left'.size < left.size := exact_declaration budget _ _ _ hdecl
      exact bind_congr_left (ih left' (by omega))

theorem declarationsUpTo_enough (budget : Nat) {n m : Nat} {tape : Tape} (hn : tape.size < n)
    (hm : tape.size < m) : declarationsUpTo budget n tape = declarationsUpTo budget m tape :=
  stable_of_step (f := fun n => declarationsUpTo budget n tape)
    (fun k hk => declarationsUpTo_step budget k tape hk) hn hm

end Grammar

end FrontEnd
