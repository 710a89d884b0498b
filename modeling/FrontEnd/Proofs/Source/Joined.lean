import FrontEnd.Proofs.Grammar.Joined
import FrontEnd.Proofs.Lexer.Below
import FrontEnd.Proofs.Source.Spelled
import FrontEnd.Proofs.Tape.Moved

/-!
# Joined sources

Two sources with a newline between them have the declarations of the first and then those of the
second, further down.

* `parse_joined` — what is parsed from a joined source.
-/

set_option autoImplicit false

namespace FrontEnd

/-- **Parsing a joined source is parsing its parts.** If declarations are parsed from two sources,
and the nesting is not too deep where they are joined by a newline, then what is parsed from the
joined source are the declarations of the first one and those of the second one, which stand as
many lines further down as the first one has newlines, and one more, in the columns where they
stood. -/
theorem parse_joined (file first second : String) (decls decls' : List Decl)
    (h : parse file first = .ok decls) (h' : parse file second = .ok decls')
    (hdeep : ∀ fault, parse file (first ++ "\n" ++ second) = .error fault → ¬ fault.IsTooDeep) :
    parse file (first ++ "\n" ++ second) =
      .ok (decls ++ decls'.map (·.relocate
        (·.below (first.toList.count '\n' + 1 : Nat)))) := by
  obtain ⟨tokens, last, htokens, hmatch, hspelled⟩ := spellings_of_parse h
  obtain ⟨tokens', last', left, htokens', hr⟩ := file_of_parse h'
  have hclosed : View.trackAll [] tokens = .ok [] := (Decl.reads_of_spellings hspelled).closed []
  obtain ⟨separator, end', hseparator, hjoined⟩ := tokenize_joined htokens hclosed htokens'
  have hmoved := Greedy.file_relocate (·.below (first.toList.count '\n' + 1 : Nat)) hr
  have hall := Greedy.file_joined hseparator hmatch hmoved
  rcases parse_of_greedy hjoined hall with hok | ⟨fault, hfault, htooDeep⟩
  · exact hok
  · exact absurd htooDeep (hdeep fault hfault)

/-- The first source ends in a match whose arms might go on with the head of the second one, which
opens a parenthesis. -/
theorem parse_joined_of_match : ∃ decls decls',
    parse "f.em" "f x = match x\n C (y) => match y\n  D => 1" = .ok decls ∧
    parse "f.em" "g (z, w) =\n z" = .ok decls' ∧
    parse "f.em" ("f x = match x\n C (y) => match y\n  D => 1" ++ "\n" ++ "g (z, w) =\n z") =
      .ok (decls ++ decls'.map (·.relocate
        (·.below ("f x = match x\n C (y) => match y\n  D => 1".toList.count '\n' + 1 : Nat)))) := by
  obtain ⟨decls, h⟩ : ∃ decls,
      parse "f.em" "f x = match x\n C (y) => match y\n  D => 1" = .ok decls :=
    exists_of_isOk (by decide +kernel)
  obtain ⟨decls', h'⟩ : ∃ decls', parse "f.em" "g (z, w) =\n z" = .ok decls' :=
    exists_of_isOk (by decide +kernel)
  obtain ⟨found, hfound⟩ : ∃ found, parse "f.em"
      ("f x = match x\n C (y) => match y\n  D => 1" ++ "\n" ++ "g (z, w) =\n z") = .ok found :=
    exists_of_isOk (by decide +kernel)
  refine ⟨decls, decls', h, h', parse_joined _ _ _ _ _ h h' fun fault hfault => ?_⟩
  rw [hfound] at hfault
  cases hfault

end FrontEnd
