import FrontEnd.Proofs.Grammar.WellFormed
import FrontEnd.Proofs.Source.Nested
import FrontEnd.Proofs.Source.Spelled

/-!
# What is parsed can be spelled

* `parse_wellFormed` — every node of what is parsed has the parts and the texts that it needs, and
  the brackets of its source are parentheses that are all closed.
-/

set_option autoImplicit false

namespace FrontEnd

/-- The only brackets that are punctuation are parentheses. -/
theorem Lexeme.eq_paren_of_isPunctuation {lexeme : Lexeme} (hbracket : lexeme.isBracket = true)
    (h : lexeme.isPunctuation = true) :
    lexeme = .opening .paren ∨ lexeme = .closing .paren := by
  cases lexeme with
  | opening bracket => cases bracket <;> first | exact .inl rfl | cases h
  | closing bracket => cases bracket <;> first | exact .inr rfl | cases h
  | _ => cases hbracket

/-- **What is parsed can be spelled.** At every depth of the declarations, calls have arguments and
matches have arms, no `lambda` occurs, names, symbols, integers and texts are such as tokens have,
and names are in upper case exactly where they name constructors. Of the tokens of the source none
is a bracket other than a parenthesis, and behind them no bracket is open. -/
theorem parse_wellFormed (file source : String) (decls : List Decl)
    (h : parse file source = .ok decls) :
    (∀ decl ∈ decls, decl.WellFormed true) ∧
    ∃ tokens last, tokenize file source = (tokens, none, last) ∧
      (∀ token ∈ tokens, token.lexeme.isBracket = true →
        token.lexeme = .opening .paren ∨ token.lexeme = .closing .paren) ∧
      last.brackets.openFrames = [] := by
  obtain ⟨tokens, last, htokens, hmatch, hspelled⟩ := spellings_of_parse h
  have hwell := wellFormed_tokenize file source
  have hrun := bracketed_tokenize file source
  rw [htokens] at hwell hrun
  have hreads := Decl.reads_of_spellings hspelled
  refine ⟨Greedy.wellFormed_of_file hwell hmatch, tokens, last, htokens, ?_, ?_⟩
  · intro token hmem hbracket
    exact Lexeme.eq_paren_of_isPunctuation hbracket (hreads.round token hmem hbracket)
  · have hstack : View.trackAll [] tokens = .ok last.brackets.stack := hrun.stack
    rw [hreads.closed []] at hstack
    have hnil : last.brackets.openFrames.map _ = [] := (Except.ok.inj hstack).symm
    exact List.map_eq_nil_iff.mp hnil

/-- A match in a call in a binding, with a constructor inside a tuple and a float. -/
theorem parse_wellFormed_of_binding : ∃ decls,
    parse "f.em" "f (C x, \"s\") = let y = + x -1 in g (match y; _ => 2.5) ()" = .ok decls ∧
    (∀ decl ∈ decls, decl.WellFormed true) ∧
    ∃ tokens last,
      tokenize "f.em" "f (C x, \"s\") = let y = + x -1 in g (match y; _ => 2.5) ()" =
        (tokens, none, last) ∧
      (∀ token ∈ tokens, token.lexeme.isBracket = true →
        token.lexeme = .opening .paren ∨ token.lexeme = .closing .paren) ∧
      last.brackets.openFrames = [] := by
  obtain ⟨decls, h⟩ : ∃ decls, parse "f.em"
      "f (C x, \"s\") = let y = + x -1 in g (match y; _ => 2.5) ()" = .ok decls :=
    exists_of_isOk (by decide +kernel)
  exact ⟨decls, h, parse_wellFormed _ _ _ h⟩

end FrontEnd
