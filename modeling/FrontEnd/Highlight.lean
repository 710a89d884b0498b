import FrontEnd.Lexeme
import FrontEnd.Text.Blank
import FrontEnd.Text.Digit
import FrontEnd.Text.Lines
import FrontEnd.Text.Word

/-!
# Highlighting

A highlighter cuts any text, well formed or not, into styled pieces. At each place the first rule
that applies takes its piece; where none does, one character is an error. Names, digits and
constructors are those of ASCII, but a keyword ends only where a word of any script ends.
-/

set_option autoImplicit false

namespace FrontEnd.Highlight

/-- How a piece is shown. -/
inductive Style where
  | text
  | string
  | float
  | integer
  | keyword
  | punctuation
  | operator
  | constructor
  | name
  | error
  deriving DecidableEq, Repr

/-! ## Rules

A rule says how many characters in front of a text it takes. -/

/-- How many of the first characters satisfy a condition. -/
def run (condition : Char → Bool) (text : List Char) : Nat :=
  (text.takeWhile condition).length

/-- The length of a quoted text, if it is closed. -/
def quotedLength : List Char → Option Nat
  | '"' :: rest =>
      let inside := run (· != '"') rest
      if inside < rest.length then some (inside + 2) else none
  | _ => none

/-- The length of an integer, with a sign. -/
def integerLength (text : List Char) : Option Nat :=
  let sign := if text.head? = some '-' then 1 else 0
  match run Char.isDigit (text.drop sign) with
  | 0 => none
  | digits => some (sign + digits)

/-- The length of a number with a fraction. -/
def floatLength (text : List Char) : Option Nat :=
  match integerLength text with
  | none => none
  | some whole =>
      match text.drop whole with
      | '.' :: rest =>
          match run Char.isDigit rest with
          | 0 => none
          | fraction => some (whole + 1 + fraction)
      | _ => none

/-- The length of a keyword that is a whole word; `before` is the character in front of the text. -/
def keywordLength (before : Option Char) (text : List Char) : Option Nat :=
  let word := text.takeWhile Text.isWordPart
  if before.all (!Text.isWordPart ·) && isKeyword (String.ofList word) then some word.length
  else none

/-- The length of an arrow that no operator character follows. -/
def arrowLength (text : List Char) : Option Nat :=
  if text.takeWhile isOperatorChar = ['=', '>'] then some 2 else none

def operatorLength (text : List Char) : Option Nat :=
  match run isOperatorChar text with
  | 0 => none
  | length => some length

/-- Whether a character continues a name. -/
def isNamePart (c : Char) : Bool :=
  c.isAlphanum || c == '_'

/-- The length of a name whose first character satisfies a condition. -/
def nameLength (start : Char → Bool) : List Char → Option Nat
  | c :: rest => if start c then some (1 + run isNamePart rest) else none
  | [] => none

def isPunctuation (c : Char) : Bool :=
  ['(', ')', '[', ']', '\x7b', '\x7d', ';', ','].contains c

/-- The length of the blanks in front of a text. -/
def blankLength (text : List Char) : Option Nat :=
  match run Text.isBlank text with
  | 0 => none
  | length => some length

def punctuationLength : List Char → Option Nat
  | c :: _ => if isPunctuation c then some 1 else none
  | [] => none

/-- The rules in the order in which they are tried. -/
def rules (before : Option Char) (text : List Char) : List (Style × Option Nat) :=
  [(.text, blankLength text),
   (.string, quotedLength text),
   (.float, floatLength text),
   (.integer, integerLength text),
   (.keyword, keywordLength before text),
   (.punctuation, arrowLength text),
   (.operator, operatorLength text),
   (.constructor, nameLength Char.isUpper text),
   (.name, nameLength (fun c => c.isLower || c == '_') text),
   (.punctuation, punctuationLength text)]

/-- The style and the length of the piece in front of a text. -/
def firstPiece (before : Option Char) (text : List Char) : Style × Nat :=
  ((rules before text).findSome? fun (style, length) => length.map (style, ·)).getD (.error, 1)

/-! ## Pieces -/

/-- A styled piece of a text and where it begins. -/
structure Piece where
  start : Nat
  style : Style
  text : String
  deriving DecidableEq, Repr

/-- Cuts at most `bound` pieces off a text that begins at `start` behind `before`. -/
def piecesFrom : Nat → Nat → Option Char → List Char → List Piece
  | _, _, _, [] => []
  | 0, _, _, _ => []
  | bound + 1, start, before, text =>
      let (style, length) := firstPiece before text
      let taken := text.take length
      ⟨start, style, String.ofList taken⟩ ::
        piecesFrom bound (start + length) (taken.getLast?.or before) (text.drop length)

/-- The pieces of a text. Each takes a character at least, so the bound is never reached. -/
def pieces (text : List Char) : List Piece :=
  piecesFrom text.length 0 none text

/-- A text made ready for display: without a byte order mark, with unified line ends, without empty
lines around it, and with a newline at its end. -/
def tidied (text : List Char) : List Char :=
  let text := if text.head? = some '\ufeff' then text.tail else text
  let text := (Text.unifyNewlines text).dropWhile (· == '\n')
  (text.reverse.dropWhile (· == '\n')).reverse ++ ['\n']

end FrontEnd.Highlight
