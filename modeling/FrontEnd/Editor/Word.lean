import FrontEnd.Text.Lines
import FrontEnd.Text.Word

/-!
# The word at a place

A cursor touches the word that it stands on, or else the word that ends where it stands.
-/

set_option autoImplicit false

namespace FrontEnd.Editor

/-- The run of word characters around an index of a line: the longest one that ends there, and the
longest one that begins there. -/
def wordAround (line : List Char) (index : Nat) : List Char :=
  ((line.take index).reverse.takeWhile Text.isWordPart).reverse ++
    (line.drop index).takeWhile Text.isWordPart

/-- The word at a character of a line. Behind the last character the search begins at that one. -/
def wordInLine (line : List Char) (character : Int) : List Char :=
  if 0 ≤ character ∧ character < line.length then wordAround line character.toNat
  else if 0 < character ∧ character ≤ line.length then wordAround line (character - 1).toNat
  else []

/-- The word at a place of a text; lines and characters count from zero. -/
def wordAt (source : String) (line character : Int) : String :=
  if line < 0 then ""
  else
    match (Text.splitAtEach '\n' source.toList)[line.toNat]? with
    | none => ""
    | some text => String.ofList (wordInLine text character)

end FrontEnd.Editor
