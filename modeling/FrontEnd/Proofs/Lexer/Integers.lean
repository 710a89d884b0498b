import FrontEnd.Lexer.Basic
import FrontEnd.Proofs.Lexer.Shown
import Mathlib.Data.Nat.Digits.Lemmas

/-!
# Integer literals

An integer literal is a row of digits, which may be of any scripts, perhaps with a minus sign in
front. It denotes the sum of its digits by their places. Literals that do not fit in 64 bits are
refused, and so that a very long one is refused without computing its value, its digits are counted
first, without zeros in front. Only the zeros of the first script count as such.

* `IntegerLiteral.token_eq` — a literal is scanned up to its end.
* `IntegerLiteral.not_fits_of_isLong` — a literal that is refused by its length does not fit, if
  its zeros are of the first script.
* `Lexer.advance_integer` — which literals are accepted just if they fit.
-/

set_option autoImplicit false

namespace FrontEnd

/-! ## Rows of digits by place values -/

namespace Text

/-- The digits of a row, the last one first. -/
def places (digits : List Char) : List Nat :=
  digits.reverse.map fun c => (digitValue? c).getD 0

/-- Reading digit by digit is adding up the digits by their places. -/
theorem digitsValue_eq_ofDigits (digits : List Char) :
    digitsValue digits = Nat.ofDigits 10 (places digits) := by
  induction digits using List.reverseRecOn with
  | nil => rfl
  | append_singleton digits c ih =>
    have hplaces : places (digits ++ [c]) = (digitValue? c).getD 0 :: places digits := by
      simp [places]
    rw [hplaces, Nat.ofDigits_cons, ← ih, digitsValue, List.foldl_append]
    simp only [List.foldl_cons, List.foldl_nil, digitsValue]
    omega

/-- Zeros in front do not count. -/
theorem digitsValue_dropWhile_zero (digits : List Char) :
    digitsValue (digits.dropWhile (· == '0')) = digitsValue digits := by
  induction digits with
  | nil => rfl
  | cons c digits ih =>
    by_cases hc : c = '0'
    · subst hc
      rw [List.dropWhile_cons_of_pos (by simp), ih]
      rfl
    · rw [List.dropWhile_cons_of_neg (by simpa using hc)]

/-- A row of digits that does not begin with a zero denotes a number of as many digits. -/
theorem pow_le_digitsValue {c : Char} {digits : List Char} {d : Nat}
    (hc : digitValue? c = some d) (hd : d ≠ 0) :
    10 ^ digits.length ≤ digitsValue (c :: digits) := by
  have hplaces : places (c :: digits) = places digits ++ [d] := by
    simp [places, hc]
  have hlength : (places digits).length = digits.length := by
    simp [places]
  rw [digitsValue_eq_ofDigits, hplaces, Nat.ofDigits_append, Nat.ofDigits_singleton, hlength]
  exact Nat.le_trans (Nat.le_mul_of_pos_right _ (Nat.pos_of_ne_zero hd)) (Nat.le_add_left _ _)

end Text

/-! ## Literals -/

/-- A row of digits, of which there is at least one, perhaps behind a minus sign. -/
structure IntegerLiteral where
  negative : Bool
  digits : List Char
  digits_ne_nil : digits ≠ []
  isDigit : ∀ c ∈ digits, Text.isDigit c = true

namespace IntegerLiteral

/-- The characters of a literal. -/
def text (literal : IntegerLiteral) : List Char :=
  (if literal.negative then ['-'] else []) ++ literal.digits

/-- The integer that a literal denotes. -/
def value (literal : IntegerLiteral) : Int :=
  (if literal.negative then -1 else 1) * (Nat.ofDigits 10 (Text.places literal.digits) : Nat)

/-- A literal ends where neither a digit nor a point with a digit follows. -/
structure EndsBefore (literal : IntegerLiteral) (behind : List Char) : Prop where
  digit : ∀ c rest, behind = c :: rest → Text.isDigit c = false
  fraction : ∀ c rest, behind = '.' :: c :: rest → Text.isDigit c = false

/-- A literal that denotes an integer of 64 bits with a sign. -/
def Fits (literal : IntegerLiteral) : Prop :=
  -2 ^ 63 ≤ literal.value ∧ literal.value ≤ 2 ^ 63 - 1

/-- A literal of more than nineteen digits behind the zeros of the first script. -/
def IsLong (literal : IntegerLiteral) : Prop :=
  19 < (literal.digits.dropWhile (· == '0')).length

/-- All zeros of a literal are zeros of the first script. -/
def HasPlainZeros (literal : IntegerLiteral) : Prop :=
  ∀ c ∈ literal.digits, Text.digitValue? c = some 0 → c = '0'

variable {literal : IntegerLiteral} {behind : List Char}

instance : Decidable literal.Fits :=
  inferInstanceAs (Decidable (_ ∧ _))

instance : Decidable literal.IsLong :=
  inferInstanceAs (Decidable (_ < _))

theorem signedValue_eq (literal : IntegerLiteral) :
    Scan.signedValue literal.negative literal.digits = literal.value := by
  rw [Scan.signedValue, value, Text.digitsValue_eq_ofDigits]
  cases literal.negative <;> simp

/-- The literal as it is named in reports. -/
theorem ofList_text (literal : IntegerLiteral) :
    String.ofList (if literal.negative then '-' :: literal.digits else literal.digits) =
      String.ofList literal.text := by
  rw [text]
  cases literal.negative <;> rfl

theorem fits_value_iff : Scan.fits literal.value = true ↔ literal.Fits := by
  rw [Scan.fits_iff, Fits]
  omega

/-- What a scan makes of the digits of a literal. -/
theorem integer_eq (literal : IntegerLiteral) :
    Scan.integer literal.negative literal.digits =
      if literal.IsLong then .error (.outOfRange (String.ofList literal.text))
      else if digitLimit < literal.digits.length then .error (.tooManyDigits literal.digits.length)
      else if literal.Fits then .ok (.signed literal.value)
      else .error (.outOfRange (String.ofList literal.text)) := by
  simp only [Scan.integer, ofList_text, signedValue_eq, fits_value_iff, gt_iff_lt]
  rfl

/-- Behind the zeros of the first script a literal with no other zeros begins with a digit that
counts, so it is as great as its length says. -/
theorem not_fits_of_isLong (hzeros : literal.HasPlainZeros) (h : literal.IsLong) :
    ¬ literal.Fits := by
  obtain ⟨c, rest, hrest⟩ := List.exists_cons_of_length_pos (Nat.zero_lt_of_lt h)
  have hlength : 19 ≤ rest.length := by
    rw [IsLong, hrest, List.length_cons] at h
    omega
  have hmem : c ∈ literal.digits :=
    (List.dropWhile_suffix (· == '0')).subset (hrest ▸ List.mem_cons_self)
  have hnonzero : c ≠ '0' := by
    have hhead := List.head?_dropWhile_not (· == '0') literal.digits
    simpa [hrest] using hhead
  obtain ⟨d, hd⟩ := Option.isSome_iff_exists.mp (literal.isDigit c hmem)
  have hdigit : d ≠ 0 := fun hd0 => hnonzero (hzeros c hmem (hd0 ▸ hd))
  have hgreat : 10 ^ 19 ≤ Text.digitsValue literal.digits := by
    calc 10 ^ 19 ≤ 10 ^ rest.length := Nat.pow_le_pow_right (by omega) hlength
      _ ≤ Text.digitsValue (c :: rest) := Text.pow_le_digitsValue hd hdigit
      _ = Text.digitsValue literal.digits := by
          rw [← hrest, Text.digitsValue_dropWhile_zero]
  rw [Text.digitsValue_eq_ofDigits] at hgreat
  rw [Fits, value]
  cases literal.negative <;> simp <;> omega

/-! ## Scanning -/

theorem fractionDigits_of_ends (h : literal.EndsBefore behind) :
    Scan.fractionDigits behind = none := by
  unfold Scan.fractionDigits
  split
  · rename_i c rest
    rw [if_neg (by simp [h.fraction c rest rfl])]
  · rfl

theorem number_eq (h : literal.EndsBefore behind) :
    Scan.number literal.negative (literal.digits ++ behind) =
      ⟨literal.text, Scan.integer literal.negative literal.digits⟩ := by
  simp only [Scan.number, Scan.takeWhile_append_of_all literal.isDigit h.digit,
    Scan.dropWhile_append_of_all literal.isDigit h.digit, fractionDigits_of_ends h, text]

/-- **A literal is scanned up to its end.** -/
theorem token_eq {c : Char} {rest : List Char} (h : literal.EndsBefore behind)
    (htext : c :: rest = literal.text ++ behind) :
    Scan.token c rest = ⟨literal.text, Scan.integer literal.negative literal.digits⟩ := by
  obtain ⟨first, others, hdigits⟩ := List.exists_cons_of_ne_nil literal.digits_ne_nil
  have hfirst : Text.isDigit first = true :=
    literal.isDigit first (hdigits ▸ List.mem_cons_self)
  have hnumber := number_eq h
  cases hnegative : literal.negative with
  | false =>
    rw [text, hnegative, hdigits] at htext
    cases htext
    rw [hnegative, hdigits] at hnumber
    rw [Scan.token_of_digit hfirst, hdigits]
    exact hnumber
  | true =>
    rw [text, hnegative, hdigits] at htext
    cases htext
    rw [hnegative, hdigits] at hnumber
    have hstart : Scan.startsWithDigit (first :: (others ++ behind)) = true := hfirst
    rw [hdigits]
    exact (Scan.token_of_minus hstart).trans hnumber

end IntegerLiteral

/-! ## Advances over literals -/

namespace Lexer

variable {lexer : Lexer} {literal : IntegerLiteral} {behind : List Char}

/-- An advance puts a literal with its value in front. -/
def Accepts (lexer : Lexer) (literal : IntegerLiteral) : Prop :=
  let place := lexer.nextCursor.location lexer.file
  ∃ next, lexer.advance = .ok place next ∧
    next.lookahead = .ready ⟨place, .signed literal.value, String.ofList literal.text⟩

/-- An advance reports that a literal is out of range, at its first character. -/
def Refuses (lexer : Lexer) (literal : IntegerLiteral) : Prop :=
  ∃ diagnostic next, lexer.advance = .error (.diagnostic diagnostic) next ∧
    diagnostic.code = "E101" ∧ diagnostic.location = lexer.nextCursor.location lexer.file ∧
    diagnostic.message =
      "integer literal " ++ String.ofList literal.text ++ " does not fit in 64 bits"

/-- An advance accepts a literal if it fits, and refuses it if it does not. -/
def Judges (lexer : Lexer) (literal : IntegerLiteral) : Prop :=
  (literal.Fits → lexer.Accepts literal) ∧ (¬ literal.Fits → lexer.Refuses literal)

/-- A lexer in front of a literal, with more to read. -/
structure Meets (lexer : Lexer) (literal : IntegerLiteral) (behind : List Char) : Prop where
  going : lexer.lookahead ≠ .ended
  rest : lexer.nextCursor.rest = literal.text ++ behind
  ends : literal.EndsBefore behind

/-- An advance over a literal does what the scan of its digits says. -/
theorem Meets.advance_eq (h : lexer.Meets literal behind) :
    let place := lexer.nextCursor.location lexer.file
    ∃ next, match Scan.integer literal.negative literal.digits with
      | .ok lexeme => lexer.advance = .ok place next ∧
          next.lookahead = .ready ⟨place, lexeme, String.ofList literal.text⟩
      | .error flaw => lexer.advance = .error (flaw.fault place) next := by
  obtain ⟨c, rest, hrest⟩ : ∃ c rest, literal.text ++ behind = c :: rest := by
    refine List.exists_cons_of_ne_nil fun hnil => literal.digits_ne_nil ?_
    rw [IntegerLiteral.text, List.append_assoc] at hnil
    exact (List.append_eq_nil_iff.mp (List.append_eq_nil_iff.mp hnil).2).1
  have hcursor := h.rest
  rw [hrest] at hcursor
  have htoken := IntegerLiteral.token_eq h.ends hrest.symm
  intro place
  rw [advance_of_ne_ended h.going, hcursor]
  simp only [accept, htoken]
  cases hfound : Scan.integer literal.negative literal.digits with
  | error flaw => exact ⟨_, rfl⟩
  | ok lexeme =>
    obtain ⟨value, -, rfl⟩ := Scan.integer_eq_ok hfound
    exact ⟨_, rfl, rfl⟩

theorem Meets.refuses (h : lexer.Meets literal behind)
    (hscan : Scan.integer literal.negative literal.digits =
      .error (.outOfRange (String.ofList literal.text))) : lexer.Refuses literal := by
  obtain ⟨next, hadvance⟩ := h.advance_eq
  rw [hscan] at hadvance
  exact ⟨_, next, hadvance, rfl, rfl, rfl⟩

/-- A long literal is refused whatever it denotes. -/
theorem Meets.refuses_of_isLong (h : lexer.Meets literal behind) (hlong : literal.IsLong) :
    lexer.Refuses literal :=
  h.refuses (by rw [literal.integer_eq, if_pos hlong])

/-- A literal that is not long is not converted if it has too many digits, zeros in front included.
-/
theorem Meets.stops_of_limit (h : lexer.Meets literal behind) (hlong : ¬ literal.IsLong)
    (hlimit : digitLimit < literal.digits.length) :
    ∃ next, lexer.advance = .error (.tooManyDigits literal.digits.length) next := by
  obtain ⟨next, hadvance⟩ := h.advance_eq
  rw [literal.integer_eq, if_neg hlong, if_pos hlimit] at hadvance
  exact ⟨next, hadvance⟩

/-- All other literals are accepted just if they fit. -/
theorem Meets.judges (h : lexer.Meets literal behind) (hlong : ¬ literal.IsLong)
    (hlimit : literal.digits.length ≤ digitLimit) : lexer.Judges literal := by
  have hscan := literal.integer_eq
  rw [if_neg hlong, if_neg (Nat.not_lt.mpr hlimit)] at hscan
  constructor
  · intro hfits
    rw [if_pos hfits] at hscan
    obtain ⟨next, hadvance⟩ := h.advance_eq
    rw [hscan] at hadvance
    exact ⟨next, hadvance⟩
  · intro hfits
    rw [if_neg hfits] at hscan
    exact h.refuses hscan

/-- A literal that is refused though it fits is not judged right. -/
theorem Refuses.not_judges (h : lexer.Refuses literal) (hfits : literal.Fits) :
    ¬ lexer.Judges literal := by
  intro hjudges
  obtain ⟨diagnostic, after, herror, -⟩ := h
  obtain ⟨next, hadvance, -⟩ := hjudges.1 hfits
  rw [herror] at hadvance
  cases hadvance

/-- Neither is a literal that is not converted. -/
theorem not_judges_of_limit {count : Nat} {next : Lexer}
    (h : lexer.advance = .error (.tooManyDigits count) next) : ¬ lexer.Judges literal := by
  intro hjudges
  by_cases hfits : literal.Fits
  · obtain ⟨after, haccepts, -⟩ := hjudges.1 hfits
    rw [h] at haccepts
    cases haccepts
  · obtain ⟨diagnostic, after, hrefuses, -⟩ := hjudges.2 hfits
    rw [h] at hrefuses
    cases hrefuses

/-- **An integer literal is accepted with its value if it fits in 64 bits, and is refused at its
first character if it does not**, with two exceptions. A literal that has more than nineteen digits
behind the zeros of the first script is refused, also where it fits because there are zeros of other
scripts among them; and any other literal of too many digits is not converted at all. -/
theorem advance_integer (h : lexer.Meets literal behind) :
    (lexer.Judges literal ↔
      (literal.IsLong → ¬ literal.Fits) ∧
      (¬ literal.IsLong → literal.digits.length ≤ digitLimit)) ∧
    (literal.IsLong → lexer.Refuses literal) ∧
    (¬ literal.IsLong → digitLimit < literal.digits.length →
      ∃ next, lexer.advance = .error (.tooManyDigits literal.digits.length) next) ∧
    (literal.HasPlainZeros → literal.IsLong → ¬ literal.Fits) := by
  refine ⟨⟨?_, ?_⟩, h.refuses_of_isLong, h.stops_of_limit, IntegerLiteral.not_fits_of_isLong⟩
  · intro hjudges
    constructor
    · intro hlong hfits
      exact (h.refuses_of_isLong hlong).not_judges hfits hjudges
    · intro hlong
      by_contra hlimit
      obtain ⟨next, hadvance⟩ := h.stops_of_limit hlong (Nat.lt_of_not_le hlimit)
      exact not_judges_of_limit hadvance hjudges
  · rintro ⟨hfits, hlimit⟩
    by_cases hlong : literal.IsLong
    · exact ⟨fun h64 => absurd h64 (hfits hlong), fun _ => h.refuses_of_isLong hlong⟩
    · exact h.judges hlong (hlimit hlong)

/-- The least integer of 64 bits, with a zero in front, between a bracket and a point. -/
theorem advance_integer_of_least :
    let literal : IntegerLiteral :=
      ⟨true, "09223372036854775808".toList, by decide, List.all_eq_true.mp (by decide)⟩
    let lexer := (ofSource "m" " (-09223372036854775808.)").advanced
    lexer.Meets literal ".)".toList ∧ literal.Fits ∧ lexer.Judges literal := by
  intro literal lexer
  have hends : literal.EndsBefore ".)".toList := by
    constructor <;>
    · intro c rest h
      cases h
      decide
  have hmeets : lexer.Meets literal ".)".toList := ⟨by decide, by decide +kernel, hends⟩
  have hlong : ¬ literal.IsLong := by decide +kernel
  have hlimit : literal.digits.length ≤ digitLimit := by decide +kernel
  exact ⟨hmeets, by decide +kernel,
    (advance_integer hmeets).1.mpr ⟨fun h => absurd h hlong, fun _ => hlimit⟩⟩

end Lexer

/-! ## Rows of zeros -/

namespace IntegerLiteral

/-- A row of zeros of some script. -/
def zeros (zero : Char) (h : Text.digitValue? zero = some 0) (n : Nat) : IntegerLiteral where
  negative := false
  digits := List.replicate (n + 1) zero
  digits_ne_nil := by simp
  isDigit c hc := by rw [List.eq_of_mem_replicate hc, Text.isDigit, h, Option.isSome_some]

variable {zero : Char} {h : Text.digitValue? zero = some 0}

theorem fits_zeros (n : Nat) : (zeros zero h n).Fits := by
  have hplaces : Text.places (zeros zero h n).digits = List.replicate (n + 1) 0 := by
    simp [Text.places, zeros, h]
  rw [Fits, value, hplaces, Nat.ofDigits_replicate_zero]
  simp

theorem length_zeros (n : Nat) : (zeros zero h n).digits.length = n + 1 :=
  List.length_replicate

/-- Zeros of the first script do not make a literal long. -/
theorem not_isLong_zeros (n : Nat) : ¬ (zeros '0' (by decide) n).IsLong := by
  have hnone : (List.replicate (n + 1) '0').dropWhile (· == '0') = [] := by
    simp
  show ¬ 19 < ((List.replicate (n + 1) '0').dropWhile (· == '0')).length
  rw [hnone]
  exact Nat.not_lt_zero 19

/-- A lexer in front of nothing but zeros. -/
theorem meets_zeros (hskip : Lexer.isSkipped false zero = false) (n : Nat) :
    (Lexer.ofSource "m" (String.ofList (zeros zero h n).text)).Meets (zeros zero h n) [] := by
  refine ⟨nofun, ?_, nofun, nofun⟩
  have htext : (String.ofList (zeros zero h n).text).toList = List.replicate (n + 1) zero := by
    simp [text, zeros]
  have hnone : (List.replicate (n + 1) zero).takeWhile (Lexer.isSkipped false) = [] := by
    rw [List.replicate_succ, List.takeWhile_cons_of_neg (by simp [hskip])]
  simp only [Lexer.nextCursor, Lexer.ofSource, Lexer.ofText, Cursor.start, htext]
  show (Cursor.move ((List.replicate (n + 1) zero).takeWhile (Lexer.isSkipped false)).length _).rest
    = _
  rw [hnone]
  simp [Cursor.move, text, zeros]

/-- Zero fits, but it is refused where it is written with twenty zeros of another script, and it is
not converted where it is written with 4301 zeros of the first one. -/
theorem not_judges_zeros :
    let foreign := zeros '\u0660' (by decide) 19
    let plain := zeros '0' (by decide) 4300
    (foreign.Fits ∧
      ¬ (Lexer.ofSource "m" (String.ofList foreign.text)).Judges foreign) ∧
    plain.Fits ∧
      ¬ (Lexer.ofSource "m" (String.ofList plain.text)).Judges plain := by
  intro foreign plain
  have hforeign : (Lexer.ofSource "m" (String.ofList foreign.text)).Meets foreign [] :=
    meets_zeros (by decide) 19
  have hplain : (Lexer.ofSource "m" (String.ofList plain.text)).Meets plain [] :=
    meets_zeros (by decide) 4300
  have hlong : foreign.IsLong := by decide +kernel
  have hlimit : digitLimit < plain.digits.length := by
    rw [show plain.digits.length = 4301 from length_zeros 4300, digitLimit]
    exact Nat.lt_succ_self 4300
  obtain ⟨next, hadvance⟩ := hplain.stops_of_limit (not_isLong_zeros 4300) hlimit
  exact ⟨⟨fits_zeros 19, (hforeign.refuses_of_isLong hlong).not_judges (fits_zeros 19)⟩,
    fits_zeros 4300, Lexer.not_judges_of_limit hadvance⟩

end IntegerLiteral

end FrontEnd
