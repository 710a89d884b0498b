import FrontEnd.Text.Printable

/-!
# The quoted form of a text

A quoted text stands on one line between two equal marks. The mark is an apostrophe, unless the text
holds an apostrophe and no double quote. The mark, the backslash and all that cannot be shown are
escaped, so two texts with one quoted form are equal.
-/

set_option autoImplicit false

namespace FrontEnd.Text

/-- The last `width` hexadecimal digits of a number, in lower case. -/
def hexDigits : Nat → Nat → List Char
  | 0, _ => []
  | width + 1, n => hexDigits width (n / 16) ++ [Nat.digitChar (n % 16)]

/-- The mark that encloses a text. -/
def quoteMark (text : List Char) : Char :=
  if text.contains '\x27' && !text.contains '"' then '"' else '\x27'

/-- The escape of a character that cannot be shown: the shortest of three widths that holds it. -/
def codeEscape (c : Char) : List Char :=
  if c.toNat < 0x100 then '\\' :: 'x' :: hexDigits 2 c.toNat
  else if c.toNat < 0x10000 then '\\' :: 'u' :: hexDigits 4 c.toNat
  else '\\' :: 'U' :: hexDigits 8 c.toNat

/-- How one character is written between two marks. -/
def escaped (mark c : Char) : List Char :=
  if c = mark ∨ c = '\\' then ['\\', c]
  else if c = '\n' then ['\\', 'n']
  else if c = '\r' then ['\\', 'r']
  else if c = '\t' then ['\\', 't']
  else if isPrintable c then [c]
  else codeEscape c

/-- The characters of the quoted form of a text. -/
def quotedChars (text : List Char) : List Char :=
  let mark := quoteMark text
  mark :: text.flatMap (escaped mark) ++ [mark]

/-- The quoted form of a text. -/
def quoted (text : String) : String :=
  String.ofList (quotedChars text.toList)

end FrontEnd.Text
