import FrontEnd.Proofs.Source.Accepted
import FrontEnd.Proofs.Tape.Squeezed

/-!
# Layout of sources

How many separators stand where one stands does not matter to parsing, nor do those at the start,
nor does anything else of a source but its lexemes.

* `parse_spaced` — what is parsed from two sources with the same spaced lexemes.
-/

set_option autoImplicit false

namespace FrontEnd

/-- What is parsed from a source depends on its spaced lexemes alone, but for locations. -/
theorem parse_of_spaced {file source : String} {tokens : List Token} {last : Lexer}
    (h : tokenize file source = (tokens, none, last)) :
    let answer := Rule.answer (Grammar.declarations nestingBudget)
      (Tape.bare (Lexeme.spaced (tokens.map Token.lexeme)))
    (∃ decls, parse file source = .ok decls ∧
        answer = .ok (decls.map (·.relocate fun _ => default))) ∨
      ∃ fault fault', parse file source = .error fault ∧ answer = .error fault' ∧
        Tape.SameCause fault fault' := by
  rw [parse_of_tokens h]
  exact (Grammar.same_spaced nestingBudget ⟨file, 1, 0⟩ last.location tokens).answers

/-- **Layout does not matter to parsing.** If two sources can be split into tokens, and their
lexemes are the same once every run of separators is a single one and those in front are dropped,
then the same declarations are parsed from both, up to locations, or the parsing of both stops with
a diagnostic of the same code and the same message. -/
theorem parse_spaced (file file' source source' : String) (tokens tokens' : List Token)
    (last last' : Lexer) (h : tokenize file source = (tokens, none, last))
    (h' : tokenize file' source' = (tokens', none, last'))
    (hspaced : Lexeme.spaced (tokens.map Token.lexeme) =
      Lexeme.spaced (tokens'.map Token.lexeme)) :
    (∃ decls decls', parse file source = .ok decls ∧ parse file' source' = .ok decls' ∧
      decls.map (·.relocate fun _ => default) = decls'.map (·.relocate fun _ => default)) ∨
    ∃ diagnostic diagnostic', parse file source = .error (.diagnostic diagnostic) ∧
      parse file' source' = .error (.diagnostic diagnostic') ∧
      diagnostic.code = diagnostic'.code ∧ diagnostic.message = diagnostic'.message := by
  have hfirst := parse_of_spaced h
  have hsecond := parse_of_spaced h'
  rw [← hspaced] at hsecond
  rcases hfirst with ⟨decls, hparse, hanswer⟩ | ⟨fault, found, hparse, hanswer, hcause⟩
  · rcases hsecond with ⟨decls', hparse', hanswer'⟩ | ⟨fault', found', -, hanswer', -⟩
    · have hdecls := Except.ok.inj (hanswer.symm.trans hanswer')
      exact .inl ⟨decls, decls', hparse, hparse', hdecls⟩
    · cases hanswer.symm.trans hanswer'
  · rcases hsecond with ⟨decls', -, hanswer'⟩ | ⟨fault', found', hparse', hanswer', hcause'⟩
    · cases hanswer.symm.trans hanswer'
    · have hfound := Except.error.inj (hanswer.symm.trans hanswer')
      obtain ⟨place, place₀, cause, rfl, rfl⟩ := hcause
      obtain ⟨place', place₁, cause', rfl, rfl⟩ := hcause'
      cases hfound
      exact .inr ⟨_, _, hparse, hparse', rfl, rfl⟩

/-- Blank lines in front of a body, between the arms of a match and between declarations: both texts
can be read, and their trees differ in their locations only. -/
theorem parse_spaced_of_blank_lines : ∃ tokens tokens' last last',
    tokenize "f.em" "f x = match x\n C => 1\n _ => x\ng = f" = (tokens, none, last) ∧
    tokenize "g.em" "\n;f x = match x;\n\n C =>1;_ => x\n\n\ng = f" = (tokens', none, last') ∧
    Lexeme.spaced (tokens.map Token.lexeme) = Lexeme.spaced (tokens'.map Token.lexeme) ∧
    ∃ decls decls',
      parse "f.em" "f x = match x\n C => 1\n _ => x\ng = f" = .ok decls ∧
      parse "g.em" "\n;f x = match x;\n\n C =>1;_ => x\n\n\ng = f" = .ok decls' ∧
      decls.map (·.relocate fun _ => default) = decls'.map (·.relocate fun _ => default) := by
  have hnone : (tokenize "f.em" "f x = match x\n C => 1\n _ => x\ng = f").2.1 = none := by
    decide +kernel
  have hnone' :
      (tokenize "g.em" "\n;f x = match x;\n\n C =>1;_ => x\n\n\ng = f").2.1 = none := by
    decide +kernel
  have h := Prod.ext_iff.mpr ⟨rfl, Prod.ext_iff.mpr ⟨hnone, rfl⟩⟩
  have h' := Prod.ext_iff.mpr ⟨rfl, Prod.ext_iff.mpr ⟨hnone', rfl⟩⟩
  have hspaced : Lexeme.spaced
      ((tokenize "f.em" "f x = match x\n C => 1\n _ => x\ng = f").1.map Token.lexeme) =
        Lexeme.spaced
          ((tokenize "g.em" "\n;f x = match x;\n\n C =>1;_ => x\n\n\ng = f").1.map
            Token.lexeme) := by
    decide +kernel
  obtain ⟨decls, hparse⟩ :
      ∃ decls, parse "f.em" "f x = match x\n C => 1\n _ => x\ng = f" = .ok decls :=
    exists_of_isOk (by decide +kernel)
  refine ⟨_, _, _, _, h, h', hspaced, ?_⟩
  rcases parse_spaced _ _ _ _ _ _ _ _ h h' hspaced with hread | ⟨diagnostic, _, hfail, -⟩
  · exact hread
  · rw [hparse] at hfail
    cases hfail

end FrontEnd
