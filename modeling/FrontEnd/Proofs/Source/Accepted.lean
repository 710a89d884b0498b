import FrontEnd.Proofs.Grammar.Agreement
import FrontEnd.Proofs.Lexer.Tape

/-!
# What is accepted

A source is parsed exactly if all of it can be split into tokens and the greedy grammar matches
these to the end, and what is parsed is what the grammar makes of them.

* `Grammar.file_of_failing` — no file is read from tokens that end in a fault.
* `greedy_of_parse`, `parse_of_greedy` — what is parsed is matched, and what is matched is parsed.
* `parse_iff_greedy` — parsing is matching by the greedy grammar.
-/

set_option autoImplicit false

namespace FrontEnd

/-- Where a fault stands behind the tokens, and a token is in front, there is always a token in
front. -/
theorem Tape.lasting_failing : Feed.Lasting fun tape left : Tape => ∀ fault,
    tape.stop = .error fault → (∃ token, tape.front = .ready token) →
      left.stop = .error fault ∧ ∃ token, left.front = .ready token where
  refl _ _ hstop hfront := ⟨hstop, hfront⟩
  trans h₁ h₂ fault hstop hfront := by
    obtain ⟨hstop', hfront'⟩ := h₁ fault hstop hfront
    exact h₂ fault hstop' hfront'
  advance tape fault hstop hfront := by
    obtain ⟨front, coming, stop⟩ := tape
    obtain ⟨token, hready⟩ := hfront
    cases hready
    cases hstop
    cases coming with
    | nil => exact ⟨rfl, token, rfl⟩
    | cons next rest => exact ⟨rfl, next, rfl⟩
  note _ _ _ hstop hfront := ⟨hstop, hfront⟩
  rewind _ _ hstop hfront := ⟨hstop, hfront⟩

namespace Grammar

open Rule

/-- No file is read from tokens that end in a fault: the end of the input is never reached. -/
theorem file_of_failing (budget : Nat) (start : Location) (tokens : List Token) (fault : Fault) :
    ∃ found left, file budget (⟨.unstarted start, tokens, .error fault⟩ : Tape) =
      .error found left := by
  cases tokens with
  | nil => exact ⟨_, _, rfl⟩
  | cons token rest =>
    have hbegin : (begin : Rule Tape Unit) ⟨.unstarted start, token :: rest, .error fault⟩ =
        .ok () ⟨.ready token, rest, .error fault⟩ := rfl
    rw [file, bind_of_ok hbegin]
    cases hr : bounded (fun left => declarationsUpTo budget (left + 1))
        (⟨.ready token, rest, .error fault⟩ : Tape) with
    | error found left => exact ⟨found, left, bind_of_error hr⟩
    | ok decls left =>
      rw [bind_of_ok hr]
      have hkeeps : Keeps _ (⟨.ready token, rest, .error fault⟩ : Tape)
          (bounded fun left => declarationsUpTo budget (left + 1)) :=
        .bounded fun _ => keeps_declarationsUpTo Tape.lasting_failing budget _
      have hlasting := hkeeps.of_ok (Tape.lasting_failing.refl _) hr
      obtain ⟨-, next, hfront⟩ := hlasting fault rfl ⟨token, rfl⟩
      obtain ⟨front, coming, stop⟩ := left
      cases hfront
      exact ⟨_, _, rfl⟩

end Grammar

/-- Reading tokens that are followed by the end of the input or by a fault. -/
theorem parse_of_tokens {file source : String} {tokens : List Token} {fault : Option Fault}
    {last : Lexer} (h : tokenize file source = (tokens, fault, last)) :
    parse file source = Rule.answer (Grammar.file nestingBudget)
      (⟨.unstarted ⟨file, 1, 0⟩, tokens,
        match fault with
        | none => .ok last.location
        | some fault => .error fault⟩ : Tape) := by
  have htape := sourceTape_eq file source
  rw [h] at htape
  rw [parse_eq_tape]
  cases fault with
  | none => rw [htape]
  | some fault => rw [htape]

theorem exists_of_isOk {file source : String} (h : (parse file source).isOk = true) :
    ∃ decls, parse file source = .ok decls := by
  cases hparse : parse file source with
  | ok decls => exact ⟨decls, rfl⟩
  | error fault =>
    rw [hparse] at h
    cases h

/-- What is parsed is read from a tape of tokens that is followed by the end of the input. -/
theorem file_of_parse {file source : String} {decls : List Decl}
    (h : parse file source = .ok decls) :
    ∃ tokens last left, tokenize file source = (tokens, none, last) ∧
      Grammar.file nestingBudget (⟨.unstarted ⟨file, 1, 0⟩, tokens, .ok last.location⟩ : Tape) =
        .ok decls left := by
  obtain ⟨tokens, fault, last, htokens⟩ :
      ∃ tokens fault last, tokenize file source = (tokens, fault, last) := ⟨_, _, _, rfl⟩
  rw [parse_of_tokens htokens, Rule.answer] at h
  cases fault with
  | some fault =>
    obtain ⟨found, left, herror⟩ :=
      Grammar.file_of_failing nestingBudget ⟨file, 1, 0⟩ tokens fault
    rw [herror] at h
    cases h
  | none =>
    cases hr : Grammar.file nestingBudget
        (⟨.unstarted ⟨file, 1, 0⟩, tokens, .ok last.location⟩ : Tape) with
    | error fault left =>
      rw [hr] at h
      cases h
    | ok found left =>
      rw [hr] at h
      cases h
      exact ⟨tokens, last, left, htokens, hr⟩

/-- What is parsed is matched by the grammar, in a source that can be split into tokens. -/
theorem greedy_of_parse {file source : String} {decls : List Decl}
    (h : parse file source = .ok decls) :
    ∃ tokens last, tokenize file source = (tokens, none, last) ∧
      Greedy.file tokens = some decls := by
  obtain ⟨tokens, last, left, htokens, hr⟩ := file_of_parse h
  have hfile := Greedy.agrees_file nestingBudget ⟨file, 1, 0⟩ last.location tokens
  rw [hr] at hfile
  exact ⟨tokens, last, htokens, hfile⟩

/-- What the grammar matches is parsed, unless it nests too deeply. -/
theorem parse_of_greedy {file source : String} {tokens : List Token} {last : Lexer}
    {decls : List Decl} (htokens : tokenize file source = (tokens, none, last))
    (hmatch : Greedy.file tokens = some decls) :
    parse file source = .ok decls ∨
      ∃ fault, parse file source = .error fault ∧ fault.IsTooDeep := by
  have hfile := Greedy.agrees_file nestingBudget ⟨file, 1, 0⟩ last.location tokens
  have hparse := parse_of_tokens htokens
  rw [Rule.answer] at hparse
  cases hr : Grammar.file nestingBudget
      (⟨.unstarted ⟨file, 1, 0⟩, tokens, .ok last.location⟩ : Tape) with
  | ok found left =>
    rw [hr, hmatch] at hfile
    cases hfile
    rw [hr] at hparse
    exact .inl hparse
  | error fault left =>
    rw [hr, hmatch] at hfile
    rw [hr] at hparse
    exact .inr ⟨fault, hparse, hfile.resolve_right (by simp)⟩

/-- **Parsing accepts exactly the greedy grammar.** Where the nesting is not too deep, declarations
are parsed from a source if and only if the source can be split into tokens to its end and the
grammar matches them to the end, and they are the declarations that the match builds. -/
theorem parse_iff_greedy (file source : String)
    (h : ∀ fault, parse file source = .error fault → ¬ fault.IsTooDeep) (decls : List Decl) :
    parse file source = .ok decls ↔
      ∃ tokens last, tokenize file source = (tokens, none, last) ∧
        Greedy.file tokens = some decls := by
  constructor
  · exact greedy_of_parse
  · rintro ⟨tokens, last, htokens, hmatch⟩
    rcases parse_of_greedy htokens hmatch with hok | ⟨fault, hfault, hdeep⟩
    · exact hok
    · exact absurd hdeep (h fault hfault)

/-- Where the last arm of a match is followed by a declaration, two declarations are parsed, and the
grammar matches them. -/
theorem parse_iff_greedy_of_arms :
    (∀ fault, parse "f.em" "f x = match x\nC (y) => y\ng x = x" = .error fault →
      ¬ fault.IsTooDeep) ∧
    ∃ decls, decls.map (·.name.text) = ["f", "g"] ∧
      parse "f.em" "f x = match x\nC (y) => y\ng x = x" = .ok decls ∧
      ∃ tokens last,
        tokenize "f.em" "f x = match x\nC (y) => y\ng x = x" = (tokens, none, last) ∧
          Greedy.file tokens = some decls := by
  obtain ⟨decls, hparse⟩ :
      ∃ decls, parse "f.em" "f x = match x\nC (y) => y\ng x = x" = .ok decls :=
    exists_of_isOk (by decide +kernel)
  have hnames : (parse "f.em" "f x = match x\nC (y) => y\ng x = x").toOption.map
      (·.map (·.name.text)) = some ["f", "g"] := by
    decide +kernel
  rw [hparse] at hnames
  have h : ∀ fault, parse "f.em" "f x = match x\nC (y) => y\ng x = x" = .error fault →
      ¬ fault.IsTooDeep := by
    intro fault hfault
    rw [hparse] at hfault
    cases hfault
  exact ⟨h, decls, Option.some.inj hnames, hparse, (parse_iff_greedy _ _ h decls).mp hparse⟩

end FrontEnd
