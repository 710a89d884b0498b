import FrontEnd.Decimal.Binary64
import FrontEnd.Decimal.Integer
import FrontEnd.Toml.Moment

/-!
# The lexical forms of TOML

Readers for keys, texts, numbers and moments. Each answers what it read and the characters behind
it, or `none` where the text is not valid. Readers that take a `bound` count it down with every
character; the length of the text is always enough.
-/

set_option autoImplicit false

namespace FrontEnd.Toml

/-- What a reader answers: a value and the rest of the text. -/
abbrev Read (α : Type) := Option (α × List Char)

/-! ## Blanks and comments -/

def isSpace (c : Char) : Bool :=
  c == ' ' || c == '\t'

/-- Reads over blanks on a line. -/
def skipSpaces (text : List Char) : List Char :=
  text.dropWhile isSpace

/-- Control characters stand nowhere but where a line ends or is indented. -/
def isControl (c : Char) : Bool :=
  c.toNat < 32 || c.toNat == 127

def isIllegal (c : Char) : Bool :=
  isControl c && c != '\t'

/-- Reads over a comment, if there is one, up to the end of its line. -/
def skipComment : List Char → Option (List Char)
  | '#' :: rest =>
      if (rest.takeWhile (· != '\n')).any isIllegal then none else some (rest.dropWhile (· != '\n'))
  | text => some text

mutual

/-- Reads over blanks, line ends and comments. -/
def skipFiller : List Char → Option (List Char)
  | [] => some []
  | c :: rest =>
      if isSpace c || c == '\n' then skipFiller rest
      else if c == '#' then skipFillerComment rest
      else some (c :: rest)

/-- Reads over what is left of a comment, and over what may follow it. -/
def skipFillerComment : List Char → Option (List Char)
  | [] => some []
  | c :: rest =>
      if c == '\n' then skipFiller rest
      else if isIllegal c then none
      else skipFillerComment rest

end

/-! ## Texts -/

/-- The value of a hexadecimal digit. -/
def hexValue? (c : Char) : Option Nat :=
  if c.isDigit then some (c.toNat - '0'.toNat)
  else if 'a' ≤ c ∧ c ≤ 'f' then some (c.toNat - 'a'.toNat + 10)
  else if 'A' ≤ c ∧ c ≤ 'F' then some (c.toNat - 'A'.toNat + 10)
  else none

/-- Reads a number of hexadecimal digits behind the digits that gave `value`. -/
def hexNumber : Nat → Nat → List Char → Read Nat
  | 0, value, text => some (value, text)
  | _ + 1, _, [] => none
  | width + 1, value, c :: rest =>
      match hexValue? c with
      | none => none
      | some digit => hexNumber width (16 * value + digit) rest

/-- Reads the code of a character in a number of hexadecimal digits. -/
def codedChar (width : Nat) (text : List Char) : Read Char :=
  match hexNumber width 0 text with
  | none => none
  | some (code, rest) => if code.isValidChar then some (Char.ofNat code, rest) else none

/-- Reads an escape behind its backslash. -/
def escapedChar : List Char → Read Char
  | 'b' :: rest => some ('\x08', rest)
  | 't' :: rest => some ('\t', rest)
  | 'n' :: rest => some ('\n', rest)
  | 'f' :: rest => some ('\x0c', rest)
  | 'r' :: rest => some ('\r', rest)
  | '"' :: rest => some ('"', rest)
  | '\\' :: rest => some ('\\', rest)
  | 'u' :: rest => codedChar 4 rest
  | 'U' :: rest => codedChar 8 rest
  | _ => none

/-- Reads over a line end that a backslash joins with the next line, and the blanks around it. -/
def skipJoint (text : List Char) : Option (List Char) :=
  match skipSpaces text with
  | '\n' :: rest => some (rest.dropWhile (fun c => isSpace c || c == '\n'))
  | _ => none

/-- Puts a character in front of what was read. -/
def readAfter (c : Char) : Read (List Char) → Read (List Char)
  | none => none
  | some (text, rest) => some (c :: text, rest)

/-- Reads a text with escapes on one line, behind its opening quote. -/
def basicText : Nat → List Char → Read (List Char)
  | 0, _ => none
  | _ + 1, [] => none
  | _ + 1, '"' :: rest => some ([], rest)
  | bound + 1, '\\' :: rest =>
      match escapedChar rest with
      | none => none
      | some (c, rest) => readAfter c (basicText bound rest)
  | bound + 1, c :: rest => if isIllegal c then none else readAfter c (basicText bound rest)

/-- Reads a text with escapes on many lines, behind its opening quotes and up to three quotes. -/
def longBasicText : Nat → List Char → Read (List Char)
  | 0, _ => none
  | _ + 1, [] => none
  | _ + 1, '"' :: '"' :: '"' :: rest => some ([], rest)
  | bound + 1, '\\' :: c :: rest =>
      if isSpace c || c == '\n' then
        match skipJoint (c :: rest) with
        | none => none
        | some rest => longBasicText bound rest
      else
        match escapedChar (c :: rest) with
        | none => none
        | some (c, rest) => readAfter c (longBasicText bound rest)
  | bound + 1, c :: rest =>
      if c == '\\' || (isIllegal c && c != '\n') then none
      else readAfter c (longBasicText bound rest)

/-- Reads a text without escapes on one line, behind its opening apostrophe. -/
def literalText (text : List Char) : Read (List Char) :=
  let inside := text.takeWhile (· != '\x27')
  match text.dropWhile (· != '\x27') with
  | [] => none
  | _ :: rest => if inside.any isIllegal then none else some (inside, rest)

/-- Reads a text without escapes on many lines, behind its opening apostrophes and up to three
apostrophes. -/
def longLiteralText : List Char → Read (List Char)
  | '\x27' :: '\x27' :: '\x27' :: rest => some ([], rest)
  | c :: rest =>
      if isIllegal c && c != '\n' then none else readAfter c (longLiteralText rest)
  | [] => none

/-- Adds up to two marks that stand directly behind the closing marks of a long text. -/
def withExtraMarks (mark : Char) : Read (List Char) → Read String
  | none => none
  | some (text, rest) =>
      let extra := (rest.take 2).takeWhile (· == mark)
      some (String.ofList (text ++ extra), rest.drop extra.length)

/-- Drops a line end right behind the opening marks of a long text. -/
def dropFirstNewline : List Char → List Char
  | '\n' :: rest => rest
  | text => text

/-- A text that was read, as a string. -/
def asString : Read (List Char) → Read String
  | none => none
  | some (text, rest) => some (String.ofList text, rest)

/-- Reads a text of any of the four forms; `none` also where no text begins. -/
def readText (text : List Char) : Read String :=
  match text with
  | '"' :: '"' :: '"' :: rest =>
      withExtraMarks '"' (longBasicText (rest.length + 1) (dropFirstNewline rest))
  | '"' :: rest => asString (basicText (rest.length + 1) rest)
  | '\x27' :: '\x27' :: '\x27' :: rest =>
      withExtraMarks '\x27' (longLiteralText (dropFirstNewline rest))
  | '\x27' :: rest => asString (literalText rest)
  | _ => none

/-! ## Keys -/

def isBareKeyChar (c : Char) : Bool :=
  c.isAlphanum || c == '-' || c == '_'

/-- Reads one part of a key; its text stands on one line. -/
def keyPart (text : List Char) : Read String :=
  match text with
  | '"' :: rest => asString (basicText (rest.length + 1) rest)
  | '\x27' :: rest => asString (literalText rest)
  | _ =>
      match text.takeWhile isBareKeyChar with
      | [] => none
      | bare => some (String.ofList bare, text.dropWhile isBareKeyChar)

/-- Reads a key of dotted parts, and the blanks behind it. -/
def keyParts : Nat → List Char → Read (List String)
  | 0, _ => none
  | bound + 1, text =>
      match keyPart text with
      | none => none
      | some (part, rest) =>
          match skipSpaces rest with
          | '.' :: rest =>
              match keyParts bound (skipSpaces rest) with
              | none => none
              | some (parts, rest) => some (part :: parts, rest)
          | rest => some ([part], rest)

/-- Reads a key. -/
def readKey (text : List Char) : Read (List String) :=
  keyParts (text.length + 1) text

/-! ## Numbers -/

/-- Splits off a sign: whether it is a minus, and what follows. -/
def takeSign : List Char → Bool × List Char
  | '-' :: rest => (true, rest)
  | '+' :: rest => (false, rest)
  | rest => (false, rest)

/-- The number that a row of ASCII digits denotes. -/
def digitsNumber (digits : List Char) : Nat :=
  digits.foldl (fun n c => 10 * n + (c.toNat - '0'.toNat)) 0

/-- More digits of a run, with single underscores between them. -/
def moreDigits (isDigit : Char → Bool) : List Char → List Char × List Char
  | '_' :: c :: rest =>
      if isDigit c then
        let (digits, left) := moreDigits isDigit rest
        (c :: digits, left)
      else ([], '_' :: c :: rest)
  | c :: rest =>
      if isDigit c then
        let (digits, left) := moreDigits isDigit rest
        (c :: digits, left)
      else ([], c :: rest)
  | [] => ([], [])

/-- Reads a run of digits, of which there is at least one. -/
def digitsRun (isDigit : Char → Bool) : List Char → Read (List Char)
  | c :: rest =>
      if isDigit c then
        let (digits, left) := moreDigits isDigit rest
        some (c :: digits, left)
      else none
  | [] => none

/-- A number of a document. Integers of too many digits are told by their count. -/
inductive Number where
  | integer (value : Int)
  | float (value : Binary64)
  | tooLong (digits : Nat)

/-- The number that digits denote in a base. -/
def valueInBase (base : Nat) (digits : List Char) : Int :=
  (digits.foldl (fun value c => base * value + (hexValue? c).getD 0) 0 : Nat)

/-- Reads an integer in a base other than ten, behind the letter of the base. -/
def basedInteger (base : Nat) (text : List Char) : Read Number :=
  match digitsRun (fun c => (hexValue? c).any (· < base)) text with
  | none => none
  | some (digits, rest) => some (.integer (valueInBase base digits), rest)

/-- Reads the whole part of a decimal number, which has no leading zeros. -/
def wholeDigits : List Char → Read (List Char)
  | '0' :: rest => some (['0'], rest)
  | text => digitsRun Char.isDigit text

/-- Reads a fraction, if there is one. -/
def fractionDigits (text : List Char) : Option (List Char) × List Char :=
  match text with
  | '.' :: rest =>
      match digitsRun Char.isDigit rest with
      | some (digits, rest) => (some digits, rest)
      | none => (none, text)
  | _ => (none, text)

/-- Reads an exponent, if there is one. -/
def exponentPart (text : List Char) : Option Int × List Char :=
  match text with
  | c :: rest =>
      if c == 'e' || c == 'E' then
        let (negative, rest) := takeSign rest
        match digitsRun Char.isDigit rest with
        | some (digits, rest) =>
            let magnitude := valueInBase 10 digits
            (some (if negative then -magnitude else magnitude), rest)
        | none => (none, text)
      else (none, text)
  | [] => (none, [])

/-- Reads a decimal number: a float if it has a fraction or an exponent, else an integer. -/
def decimalNumber (text : List Char) : Read Number :=
  let (negative, rest) := takeSign text
  match wholeDigits rest with
  | none => none
  | some (whole, rest) =>
      let (fraction, rest) := fractionDigits rest
      let (exponent, rest) := exponentPart rest
      match fraction, exponent with
      | none, none =>
          if whole.length > digitLimit then some (.tooLong whole.length, rest)
          else
            let magnitude := valueInBase 10 whole
            some (.integer (if negative then -magnitude else magnitude), rest)
      | _, _ =>
          let fraction := fraction.getD []
          let digits := (valueInBase 10 (whole ++ fraction)).toNat
          let exponent := exponent.getD 0 - fraction.length
          some (.float (Binary64.ofDecimal negative digits exponent), rest)

/-- Reads a number that begins with a digit or a sign and a digit. -/
def digitNumber (text : List Char) : Read Number :=
  let based :=
    match text with
    | '0' :: 'x' :: rest => basedInteger 16 rest
    | '0' :: 'o' :: rest => basedInteger 8 rest
    | '0' :: 'b' :: rest => basedInteger 2 rest
    | _ => none
  based.or (decimalNumber text)

/-- Reads a word for infinity or for what is no number, with or without a sign. -/
def wordNumber (text : List Char) : Read Number :=
  let (negative, rest) := takeSign text
  match rest with
  | 'i' :: 'n' :: 'f' :: rest => some (.float (.infinite negative), rest)
  | 'n' :: 'a' :: 'n' :: rest => some (.float .nan, rest)
  | _ => none

/-! ## Moments -/

/-- Reads two digits for a number within bounds. -/
def twoDigits (least most : Nat) : List Char → Read Nat
  | a :: b :: rest =>
      if a.isDigit && b.isDigit then
        let value := digitsNumber [a, b]
        if least ≤ value ∧ value ≤ most then some (value, rest) else none
      else none
  | _ => none

/-- Reads over one character. -/
def expectChar (c : Char) : List Char → Option (List Char)
  | d :: rest => if d = c then some rest else none
  | [] => none

/-- The millionths that the first six digits of a fraction of a second denote. -/
def millionths (digits : List Char) : Nat :=
  let kept := digits.take 6
  digitsNumber (kept ++ List.replicate (6 - kept.length) '0')

/-- Reads the digits of a fraction of a second, if there are any. -/
def secondFraction (text : List Char) : Nat × List Char :=
  match text with
  | '.' :: rest =>
      match rest.takeWhile Char.isDigit with
      | [] => (0, text)
      | digits => (millionths digits, rest.dropWhile Char.isDigit)
  | _ => (0, text)

/-- Reads a time of day. -/
def readTime (text : List Char) : Option (TimeOfDay × List Char) := do
  let (hour, rest) ← twoDigits 0 23 text
  let (minute, rest) ← twoDigits 0 59 (← expectChar ':' rest)
  let (second, rest) ← twoDigits 0 59 (← expectChar ':' rest)
  let (millionth, rest) := secondFraction rest
  pure (⟨hour, minute, second, millionth⟩, rest)

/-- Reads hours and minutes of an offset behind its sign. -/
def readOffset (negative : Bool) (text : List Char) : Option (Int × List Char) := do
  let (hour, rest) ← twoDigits 0 23 text
  let (minute, rest) ← twoDigits 0 59 (← expectChar ':' rest)
  let minutes : Int := 60 * hour + minute
  pure (if negative then -minutes else minutes, rest)

/-- An offset that was read, or none where there is none. -/
def optionalOffset (text : List Char) : Read Int → Option Int × List Char
  | some (offset, rest) => (some offset, rest)
  | none => (none, text)

/-- Reads an offset from universal time, if there is one. -/
def offsetPart (text : List Char) : Option Int × List Char :=
  match text with
  | 'Z' :: rest => (some 0, rest)
  | 'z' :: rest => (some 0, rest)
  | '+' :: rest => optionalOffset text (readOffset false rest)
  | '-' :: rest => optionalOffset text (readOffset true rest)
  | _ => (none, text)

/-- Reads year, month and day, which need not exist in the calendar. -/
def readDate (text : List Char) : Option (Day × List Char) := do
  let (century, rest) ← twoDigits 0 99 text
  let (year, rest) ← twoDigits 0 99 rest
  let (month, rest) ← twoDigits 1 12 (← expectChar '-' rest)
  let (day, rest) ← twoDigits 1 31 (← expectChar '-' rest)
  pure (⟨100 * century + year, month, day⟩, rest)

/-- Reads what follows a day: its time with an offset, or nothing. -/
def behindDate (day : Day) (text : List Char) : Moment × List Char :=
  match text with
  | c :: rest =>
      if c == 'T' || c == 't' || c == ' ' then
        match readTime rest with
        | none => (.date day, text)
        | some (time, rest) =>
            let (offset, rest) := offsetPart rest
            (.dateTime day time offset, rest)
      else (.date day, text)
  | [] => (.date day, [])

/-- Reads a date with or without a time, or a time alone. The outer `none` says that no moment
begins here, the inner one that its date does not exist. -/
def readMoment (text : List Char) : Option (Read Moment) :=
  match readDate text with
  | some (day, rest) => some (if day.isReal then some (behindDate day rest) else none)
  | none => (readTime text).map fun (time, rest) => some (.time time, rest)

end FrontEnd.Toml
