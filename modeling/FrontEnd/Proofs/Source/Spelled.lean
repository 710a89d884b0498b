import FrontEnd.Proofs.Grammar.Spelled
import FrontEnd.Proofs.Source.Accepted

/-!
# What is parsed is spelled by the source

Parsing loses nothing, doubles nothing and moves nothing.

* `spellings_of_parse` — the tokens of the source spell the declarations.
* `parse_yields_tokens` — the leaves of the declarations are the tokens of the source.
-/

set_option autoImplicit false

namespace FrontEnd

/-- The tokens of a source spell the declarations that are parsed from it. -/
theorem spellings_of_parse {file source : String} {decls : List Decl}
    (h : parse file source = .ok decls) :
    ∃ tokens last, tokenize file source = (tokens, none, last) ∧
      Greedy.file tokens = some decls ∧ tokens ∈ Decl.spellings decls := by
  obtain ⟨tokens, last, htokens, hmatch⟩ := greedy_of_parse h
  have hwell := wellFormed_tokenize file source
  rw [htokens] at hwell
  exact ⟨tokens, last, htokens, hmatch, Greedy.spellings_of_file hwell hmatch⟩

/-- **The leaves of what is parsed are the tokens of the source.** The leaves of the declarations,
in order, have the lexemes of the tokens without semicolons, commas and parentheses. Every leaf that
has a place stands where its own token stands, and the tokens spell the declarations, so that every
tuple stands where the parenthesis stands that opens it. -/
theorem parse_yields_tokens (file source : String) (decls : List Decl)
    (h : parse file source = .ok decls) :
    ∃ tokens last, tokenize file source = (tokens, none, last) ∧
      (decls.flatMap Decl.yield).map Leaf.lexeme =
        (tokens.filter Token.isKept).map Token.lexeme ∧
      List.Forall₂ Leaf.Of (decls.flatMap Decl.yield) (tokens.filter Token.isKept) ∧
      tokens ∈ Decl.spellings decls := by
  obtain ⟨tokens, last, htokens, -, hspelled⟩ := spellings_of_parse h
  have hreads := Decl.reads_of_spellings hspelled
  exact ⟨tokens, last, htokens, hreads.lexemes, hreads.yields, hspelled⟩

/-- The leaves of a match, with a group that leaves no trace and tuples inside each other. -/
theorem parse_yields_tokens_of_match : ∃ decls,
    parse "f.em" "f (x, \"s\") = match (x)\n C y => (y, (-1, z))\n _ => let z = 2.5 in => z" =
      .ok decls ∧
    ∃ tokens last,
      tokenize "f.em" "f (x, \"s\") = match (x)\n C y => (y, (-1, z))\n _ => let z = 2.5 in => z" =
        (tokens, none, last) ∧
      (decls.flatMap Decl.yield).map Leaf.lexeme =
        (tokens.filter Token.isKept).map Token.lexeme ∧
      List.Forall₂ Leaf.Of (decls.flatMap Decl.yield) (tokens.filter Token.isKept) ∧
      tokens ∈ Decl.spellings decls := by
  obtain ⟨decls, h⟩ : ∃ decls, parse "f.em"
      "f (x, \"s\") = match (x)\n C y => (y, (-1, z))\n _ => let z = 2.5 in => z" = .ok decls :=
    exists_of_isOk (by decide +kernel)
  exact ⟨decls, h, parse_yields_tokens _ _ _ h⟩

end FrontEnd
