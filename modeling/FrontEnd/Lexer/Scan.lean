import FrontEnd.Decimal.Binary64
import FrontEnd.Decimal.Integer
import FrontEnd.Diagnostic
import FrontEnd.Text.Blank
import FrontEnd.Text.Digit
import FrontEnd.Text.Word

/-!
# Scanning one token

A scan reads one token in front of a text. The first character, or a minus sign with the digit
behind it, decides the class; then the longest spelling of that class is read. What a scan finds
depends on the characters alone. A failing scan has read some characters too.
-/

set_option autoImplicit false

namespace FrontEnd

/-- Why the characters in front of a text are no token. -/
inductive Flaw where
  | unrecognized (c : Char)
  | outOfRange (literal : String)
  | unterminated
  | tooManyDigits (count : Nat)
  deriving DecidableEq, Repr

/-- A flaw at its place. -/
def Flaw.fault (location : Location) : Flaw → Fault
  | .unrecognized c => .diagnostic ⟨location, .unrecognized c, .error⟩
  | .outOfRange literal => .diagnostic ⟨location, .outOfRange literal, .error⟩
  | .unterminated => .diagnostic ⟨location, .unterminated, .error⟩
  | .tooManyDigits count => .tooManyDigits count

/-- The characters that a scan read, and what they stand for. -/
structure Scan where
  taken : List Char
  found : Except Flaw Lexeme

namespace Scan

/-! ## Numbers -/

/-- The signed number with the given digits. -/
def signedValue (negative : Bool) (digits : List Char) : Int :=
  let magnitude : Int := Text.digitsValue digits
  if negative then -magnitude else magnitude

/-- Whether an integer fits in 64 bits with a sign. -/
def fits (value : Int) : Bool :=
  -Int.pow 2 63 ≤ value && value < Int.pow 2 63

/-- The lexeme of an integer literal. A literal with more than nineteen digits after its leading
ASCII zeros is refused before its value is computed. -/
def integer (negative : Bool) (digits : List Char) : Except Flaw Lexeme :=
  let literal := String.ofList (if negative then '-' :: digits else digits)
  if (digits.dropWhile (· == '0')).length > 19 then .error (.outOfRange literal)
  else if digits.length > digitLimit then .error (.tooManyDigits digits.length)
  else
    let value := signedValue negative digits
    if fits value then .ok (.signed value) else .error (.outOfRange literal)

/-- The lexeme of a number with a fraction. -/
def fractional (negative : Bool) (whole fraction : List Char) : Lexeme :=
  .float (Binary64.ofDecimal negative (Text.digitsValue (whole ++ fraction)) (-fraction.length))

/-- The fraction in front of a text: the digits behind a point, of which there is at least one. -/
def fractionDigits : List Char → Option (List Char)
  | '.' :: c :: rest => if Text.isDigit c then some ((c :: rest).takeWhile Text.isDigit) else none
  | _ => none

/-- Reads a number whose sign, if it has one, was split off. -/
def number (negative : Bool) (text : List Char) : Scan :=
  let sign := if negative then ['-'] else []
  let whole := text.takeWhile Text.isDigit
  match fractionDigits (text.dropWhile Text.isDigit) with
  | some fraction =>
      ⟨sign ++ whole ++ '.' :: fraction, .ok (fractional negative whole fraction)⟩
  | none => ⟨sign ++ whole, integer negative whole⟩

/-! ## Words, operators and quoted texts -/

/-- Reads an identifier. -/
def word (text : List Char) : Scan :=
  let taken := text.takeWhile Text.isWordPart
  ⟨taken, .ok (.identifier (String.ofList taken))⟩

/-- Reads an operator: as many operator characters as there are. -/
def operator (text : List Char) : Scan :=
  let taken := text.takeWhile isOperatorChar
  ⟨taken, .ok (.operator (String.ofList taken))⟩

/-- Reads a quoted text behind its first quote, up to the next quote. -/
def quotedRest (rest : List Char) : Scan :=
  let inside := rest.takeWhile (· != '"')
  match rest.dropWhile (· != '"') with
  | [] => ⟨'"' :: inside, .error .unterminated⟩
  | _ :: _ =>
      let taken := '"' :: inside ++ ['"']
      ⟨taken, .ok (.quoted (String.ofList taken))⟩

/-! ## Punctuation -/

/-- The lexemes of one character. A newline that is read at all separates declarations. -/
def punctuation? : Char → Option Lexeme
  | '(' => some (.opening .paren)
  | ')' => some (.closing .paren)
  | '[' => some (.opening .square)
  | ']' => some (.closing .square)
  | '\x7b' => some (.opening .curly)
  | '\x7d' => some (.closing .curly)
  | ';' => some .semicolon
  | '\n' => some .semicolon
  | ',' => some .comma
  | _ => none

/-- Reads one punctuation character; of any other nothing is read. -/
def single (c : Char) : Scan :=
  match punctuation? c with
  | some lexeme => ⟨[c], .ok lexeme⟩
  | none => ⟨[], .error (.unrecognized c)⟩

/-! ## Dispatch -/

/-- Whether a text begins with a digit. -/
def startsWithDigit : List Char → Bool
  | c :: _ => Text.isDigit c
  | [] => false

/-- Reads the token that begins with `c`, whose other characters are in front of `rest`. -/
def token (c : Char) (rest : List Char) : Scan :=
  if Text.isDigit c then number false (c :: rest)
  else if c = '-' ∧ startsWithDigit rest then number true rest
  else if Text.isWordStart c then word (c :: rest)
  else if isOperatorChar c then operator (c :: rest)
  else if c = '"' then quotedRest rest
  else single c

/-! ## What a scan reads -/

theorem fractionDigits_isPrefix {text fraction : List Char}
    (h : fractionDigits text = some fraction) : '.' :: fraction <+: text := by
  unfold fractionDigits at h
  split at h
  · split at h
    · cases h
      exact List.cons_prefix_cons.2 ⟨rfl, List.takeWhile_prefix _⟩
    · cases h
  · cases h

theorem number_taken_isPrefix (negative : Bool) (text : List Char) :
    (number negative text).taken <+: (if negative then ['-'] else []) ++ text := by
  have hsplit := List.takeWhile_append_dropWhile (p := Text.isDigit) (l := text)
  simp only [number]
  cases h : fractionDigits (text.dropWhile Text.isDigit) with
  | none => exact (List.prefix_append_right_inj _).2 (List.takeWhile_prefix _)
  | some fraction =>
      simp only [List.append_assoc]
      refine (List.prefix_append_right_inj _).2 ?_
      conv => rhs; rw [← hsplit]
      exact (List.prefix_append_right_inj _).2 (fractionDigits_isPrefix h)

theorem quotedRest_taken_isPrefix (rest : List Char) : (quotedRest rest).taken <+: '"' :: rest := by
  have hsplit := List.takeWhile_append_dropWhile (p := (· != '"')) (l := rest)
  have hhead := List.head?_dropWhile_not (· != '"') rest
  simp only [quotedRest]
  cases h : rest.dropWhile (· != '"') with
  | nil => exact List.cons_prefix_cons.2 ⟨rfl, List.takeWhile_prefix _⟩
  | cons c behind =>
      have hc : c = '"' := by simpa [h] using hhead
      rw [h, hc] at hsplit
      conv => rhs; rw [← hsplit]
      simp

theorem single_taken_isPrefix (c : Char) (rest : List Char) : (single c).taken <+: c :: rest := by
  unfold single
  split
  · exact List.cons_prefix_cons.2 ⟨rfl, List.nil_prefix⟩
  · exact List.nil_prefix

/-- A scan, failing or not, reads from the front of the text. -/
theorem token_taken_isPrefix (c : Char) (rest : List Char) :
    (token c rest).taken <+: c :: rest := by
  unfold token
  split
  · exact number_taken_isPrefix false (c :: rest)
  · split
    · next h =>
      rw [h.1]
      exact number_taken_isPrefix true rest
    · split
      · exact List.takeWhile_prefix _
      · split
        · exact List.takeWhile_prefix _
        · split
          · next h =>
            rw [h]
            exact quotedRest_taken_isPrefix rest
          · exact single_taken_isPrefix c rest

end Scan

end FrontEnd
