import FrontEnd.Proofs.Grammar.Written
import FrontEnd.Proofs.Source.Spaced

/-!
# Trees written as sources

Declarations that can be spelled are written as a source, each of them on a line of its own, and are
parsed from it again.

* `parse_of_greedy_like` — what the grammar matches of tokens with the lexemes of a source is parsed
  from the source.
* `parse_written` — what is parsed from written declarations.
-/

set_option autoImplicit false

namespace FrontEnd

/-- What the grammar matches of tokens whose lexemes are those of a source, but for layout, is
parsed from the source, but for locations, unless it nests too deeply. -/
theorem parse_of_greedy_like {file source : String} {tokens tokens' : List Token} {last : Lexer}
    {found : List Decl} (htokens : tokenize file source = (tokens, none, last))
    (hlike : Lexeme.spaced (tokens.map Token.lexeme) = Lexeme.spaced (tokens'.map Token.lexeme))
    (hmatch : Greedy.file tokens' = some found) :
    (∃ decls, parse file source = .ok decls ∧
        decls.map (·.relocate fun _ => default) = found.map (·.relocate fun _ => default)) ∨
      ∃ fault, parse file source = .error fault ∧ fault.IsTooDeep := by
  have hfile := Greedy.agrees_file nestingBudget default default tokens'
  have hsame := Grammar.same_spaced nestingBudget default default tokens'
  have hspaced := parse_of_spaced htokens
  rw [hlike] at hspaced
  rcases hsame.answers with ⟨read, hread, hanswer⟩ | ⟨fault', seen, hread, hanswer, hcause'⟩
  · rw [Rule.eq_ok_of_answer hread, hmatch] at hfile
    cases hfile
    rcases hspaced with ⟨decls, hparse, hdecls⟩ | ⟨fault, seen, -, hseen, -⟩
    · exact .inl ⟨decls, hparse, Except.ok.inj (hdecls.symm.trans hanswer)⟩
    · cases hseen.symm.trans hanswer
  · rw [Rule.eq_error_of_answer hread, hmatch] at hfile
    have hdeep : fault'.IsTooDeep := hfile.resolve_right (by simp)
    rcases hspaced with ⟨decls, -, hdecls⟩ | ⟨fault, seen, hparse, hseen, hcause⟩
    · cases hdecls.symm.trans hanswer
    · cases hseen.symm.trans hanswer
      obtain ⟨place, place', cause, rfl, rfl⟩ := hcause'
      obtain ⟨place₀, place₁, cause, rfl, heq⟩ := hcause
      cases heq
      exact .inr ⟨_, hparse, hdeep⟩

/-- **Every list of declarations that can be spelled without floats is written and read back**: from
its text the same declarations are parsed, up to locations, unless they nest too deeply. -/
theorem parse_written (file : String) (decls : List Decl)
    (h : ∀ decl ∈ decls, decl.WellFormed false) :
    (∃ found, parse file (Decl.text decls) = .ok found ∧
        found.map (·.relocate fun _ => default) = decls.map (·.relocate fun _ => default)) ∨
      ∃ fault, parse file (Decl.text decls) = .error fault ∧ fault.IsTooDeep := by
  obtain ⟨tokens, last, htokens, hlexemes⟩ := tokenize_text file h
  have hlike : Lexeme.spaced (tokens.map Token.lexeme) = Lexeme.spaced
      ((([Lexeme.semicolon].intercalate (decls.map Decl.written)).map Token.bare).map
        Token.lexeme) := by
    rw [hlexemes, List.map_map]
    exact congrArg Lexeme.spaced (List.map_id _).symm
  have hagain : (decls.map (·.relocate Greedy.nowhere)).map (·.relocate fun _ => default) =
      decls.map (·.relocate fun _ => default) := by
    rw [List.map_map]
    exact List.map_congr_left fun decl _ => decl.relocate_relocate Greedy.nowhere _
  rw [← hagain]
  exact parse_of_greedy_like htokens hlike (Greedy.file_written h)

/-- A binding of a call around a match, with constructors with and without arguments, tuples of no
and of one member, a text with a newline and a symbol that stands for the arrow elsewhere. It does
not nest too deeply. -/
theorem parse_written_of_match : ∃ decls : List Decl,
    Decl.text decls = "f ( C x ) ( \"a\n\" , ) = ( let y = ( + x -1 ) in " ++
      "( match y ; ( C ) => ( ) ; z => ( => z ) ) )\ng = f" ∧
    (∀ decl ∈ decls, decl.WellFormed false) ∧
    ∃ found, parse "f.em" (Decl.text decls) = .ok found ∧
      found.map (·.relocate fun _ => default) = decls.map (·.relocate fun _ => default) := by
  let name (text : String) : Name := ⟨text, default⟩
  let subject : Expr := .call (.symbol (name "+")) [.symbol (name "x"), .integer default (-1)]
  let arms : List Arm := [
    .mk (.constructor (name "C") []) (.tuple default []),
    .mk (.variable (name "z")) (.call (.symbol (name "=>")) [.symbol (name "z")])]
  let patterns : List Pattern := [
    .constructor (name "C") [.variable (name "x")],
    .tuple default [.text default "a\n"]]
  let decls : List Decl := [
    ⟨name "f", patterns,
      .binding default (name "y") subject (.matching default (.symbol (name "y")) arms)⟩,
    ⟨name "g", [], .symbol (name "f")⟩]
  have htext : Decl.text decls = "f ( C x ) ( \"a\n\" , ) = ( let y = ( + x -1 ) in " ++
      "( match y ; ( C ) => ( ) ; z => ( => z ) ) )\ng = f" := by decide +kernel
  have h : ∀ decl ∈ decls, decl.WellFormed false := by decide +kernel
  obtain ⟨found, hfound⟩ : ∃ found, parse "f.em" (Decl.text decls) = .ok found :=
    exists_of_isOk (by rw [htext]; decide +kernel)
  refine ⟨decls, htext, h, (parse_written "f.em" decls h).resolve_right ?_⟩
  rintro ⟨fault, hfault, -⟩
  rw [hfound] at hfault
  cases hfault

end FrontEnd
