import FrontEnd.Proofs.Grammar.Budget
import FrontEnd.Proofs.Source.Pointed
import FrontEnd.Proofs.Tape.Broken

/-!
# The budget of a source

The budget for nesting bounds how deeply rules call each other. A source that asks for more of it is
refused, and that is all a budget does.

* `readWithin_of_le` — what is read within a budget is read within a larger one.
* `allowed_of_within` — a budget above the lengths of all chains of constructs is not used up.
* `budget_only_refuses` — both, for the budget with which sources are parsed.
-/

set_option autoImplicit false

namespace FrontEnd

/-- **A budget refuses a source or changes nothing.** -/
theorem readWithin_of_le {n m : Nat} (hle : n ≤ m) {file source : String}
    (h : ∀ fault, (readWithin n file source).outcome = .error fault → ¬ fault.IsTooDeep) :
    readWithin m file source = readWithin n file source := by
  let lexer := Lexer.ofSource file source
  have hcurbs : Curbed Eq Fault.IsTooDeep (Grammar.file n lexer) (Grammar.file m lexer) :=
    Grammar.curbs_file (Feed.curbing_eq _) hle (fun _ _ hdeep => hdeep) lexer lexer rfl
  have hsame : Grammar.file m lexer = Grammar.file n lexer := by
    refine hcurbs.eq_of_not_quits fun fault left hfault => h fault ?_
    unfold readWithin
    rw [hfault]
  unfold readWithin
  rw [hsame]

/-- No lexer stops because of nesting. -/
theorem not_isTooDeep_of_tokenize {file source : String} {tokens : List Token} {fault : Fault}
    {last : Lexer} (h : tokenize file source = (tokens, some fault, last)) :
    ¬ fault.IsTooDeep := by
  obtain ⟨lexer, hreached, hadvance⟩ := Lexer.exists_advance_of_tokensUpTo .root h
  cases fault with
  | tooManyDigits count => exact id
  | diagnostic diagnostic =>
    obtain ⟨-, -, hoffends⟩ := Lexer.offends_of_advance hreached hadvance
    intro hdeep
    have hcause : diagnostic.cause = .tooDeep := hdeep
    rw [hcause] at hoffends
    exact hoffends

/-- **A budget above the lengths of all chains of constructs is not used up**, whether the source
can be parsed or not. -/
theorem allowed_of_within {budget : Nat} {file source : String}
    (h : ∀ spot, Outermost (tokenize file source).1 spot → spot.Within budget) {fault : Fault}
    (hfault : (readWithin budget file source).outcome = .error fault) : ¬ fault.IsTooDeep := by
  have htape := sourceTape_eq file source
  rw [outcome_readWithin] at hfault
  cases htokens : tokenize file source with
  | mk tokens result =>
    obtain ⟨stop, last⟩ := result
    rw [htokens] at h htape
    have hwhole : ∀ place, Rule.answer (Grammar.file budget)
        (⟨.unstarted ⟨file, 1, 0⟩, tokens, .ok place⟩ : Tape) = .error fault →
          ¬ fault.IsTooDeep :=
      fun place herror =>
        Greedy.allowed_file h _ place fault _ (Rule.eq_error_of_answer herror)
    cases stop with
    | none =>
      rw [htape] at hfault
      exact hwhole _ hfault
    | some stop =>
      rw [htape] at hfault
      -- Up to the fault of the lexer, the source is read as if it ended there.
      have hbreaks : Tape.BreaksOff stop ⟨.unstarted ⟨file, 1, 0⟩, tokens, .error stop⟩
          ⟨.unstarted ⟨file, 1, 0⟩, tokens, .ok default⟩ := ⟨rfl, _, rfl⟩
      rcases Grammar.answer_file_breaksOff budget hbreaks with hstop | hsame
      · rw [hfault] at hstop
        cases hstop
        exact not_isTooDeep_of_tokenize htokens
      · exact hwhole default (hsame.trans hfault)

/-- **The budget can only refuse a source, and it refuses none that nests moderately.** What is not
refused within a budget is read in the same way within every larger one: the same declarations at
the same locations, or the same fault, and the same log. With the budget for parsing no source is
refused in which the constructs of each kind nest at most a hundred deep, or up to 127 deep, however
long it is, and whether it can be parsed or not. -/
theorem budget_only_refuses (file source : String) :
    (∀ n m : Nat, n ≤ m →
      (∀ fault, (readWithin n file source).outcome = .error fault → ¬ fault.IsTooDeep) →
      readWithin m file source = readWithin n file source) ∧
    ∀ limit : Nat, 4 * limit < nestingBudget → NestsAtMost limit (tokenize file source).1 →
      ∀ fault, parse file source = .error fault → ¬ fault.IsTooDeep :=
  ⟨fun _ _ hle h => readWithin_of_le hle h, fun _ hlimit h _ hfault =>
    allowed_of_within (fun _ hspot => h.within hlimit hspot) hfault⟩

/-- A binding in the arm of a match needs a budget of no more than 4, and is read within it as it is
within the budget for parsing. -/
theorem budget_only_refuses_of_match :
    (∀ fault, (readWithin 4 "f.em" "f x = match x\nC (y) => (let a = y in a)").outcome =
      .error fault → ¬ fault.IsTooDeep) ∧
    readWithin nestingBudget "f.em" "f x = match x\nC (y) => (let a = y in a)" =
      readWithin 4 "f.em" "f x = match x\nC (y) => (let a = y in a)" ∧
    NestsAtMost 100 (tokenize "f.em" "f x = match x\nC (y) => (let a = y in a)").1 ∧
    ∀ fault, parse "f.em" "f x = match x\nC (y) => (let a = y in a)" = .error fault →
      ¬ fault.IsTooDeep := by
  have hok : (readWithin 4 "f.em" "f x = match x\nC (y) => (let a = y in a)").outcome.isOk = true :=
    by decide +kernel
  have hwithin : ∀ fault, (readWithin 4 "f.em"
      "f x = match x\nC (y) => (let a = y in a)").outcome = .error fault →
        ¬ fault.IsTooDeep := by
    intro fault hfault
    rw [hfault] at hok
    cases hok
  have hnests : NestsAtMost 100
      (tokenize "f.em" "f x = match x\nC (y) => (let a = y in a)").1 :=
    nestsAtMost_of_length (by decide +kernel)
  have hguard := budget_only_refuses "f.em" "f x = match x\nC (y) => (let a = y in a)"
  exact ⟨hwithin, hguard.1 4 nestingBudget (by decide) hwithin, hnests,
    hguard.2 100 (by decide) hnests⟩

end FrontEnd
