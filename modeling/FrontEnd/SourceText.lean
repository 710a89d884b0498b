import FrontEnd.Location
import FrontEnd.Text.Lines

/-!
# Texts of source files

A source file is read as UTF-8 with all line ends unified, and then looked at line by line. Requests
for lines or characters outside the text are answered with as much as there is.
-/

set_option autoImplicit false

namespace FrontEnd

/-- A text with its lines. -/
structure SourceText where
  content : String
  lines : List String
  deriving DecidableEq, Repr

namespace SourceText

def ofContent (content : String) : SourceText :=
  ⟨content, Text.linesOf content⟩

/-- Decodes a file; `none` if it is not UTF-8. -/
def ofBytes? (bytes : ByteArray) : Option SourceText :=
  match String.fromUTF8? bytes with
  | none => none
  | some content => some (ofContent (String.ofList (Text.unifyNewlines content.toList)))

/-- The line of a number, counted from one. -/
def line? (text : SourceText) (number : Int) : Option String :=
  if 1 ≤ number then text.lines[(number - 1).toNat]? else none

/-- The line of a number, or nothing outside the text. -/
def lineAt (text : SourceText) (number : Int) : String :=
  (text.line? number).getD ""

/-- The index that an end of a slice stands for: a negative one counts from the end of the list. -/
def sliceIndex (length : Nat) (index : Int) : Nat :=
  if index < 0 then (index + length).toNat else min index.toNat length

/-- The items from one index up to another. -/
def slice {α : Type} (items : List α) (start stop : Int) : List α :=
  let start := sliceIndex items.length start
  let stop := sliceIndex items.length stop
  (items.take stop).drop start

/-- At most `length` characters of a line, from a location on. -/
def textAt (text : SourceText) (location : Location) (length : Int) : String :=
  String.ofList
    (slice (text.lineAt location.line).toList location.col (location.col + length))

end SourceText

end FrontEnd
