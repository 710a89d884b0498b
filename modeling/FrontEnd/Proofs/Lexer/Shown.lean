import FrontEnd.Proofs.Lexer.Laid
import FrontEnd.Proofs.Text.Printable
import Mathlib.Data.List.Forall2
import Mathlib.Data.List.TakeWhile

/-!
# Texts that lay out lexemes

Texts that are put together from spellings, with blanks, commas and parentheses between them, lay
out the lexemes of the spellings.

* `LaysOut` — a text lays out lexemes in front of what delimits it.
* `LaysOut.grouped`, `LaysOut.intercalate` — between parentheses, and with separators.
* `laysOut_name`, `laysOut_integer`, `laysOut_quoted` — what a name, an integer and a text are
  shown as.
-/

set_option autoImplicit false

namespace FrontEnd

/-! ## Digits -/

namespace Text

theorem exists_of_digitIn {zeros : List Nat} {n d : Nat} (h : digitIn zeros n = some d) :
    ∃ first ∈ zeros, first ≤ n ∧ n < first + 10 := by
  induction zeros with
  | nil => cases h
  | cons first rest ih =>
    unfold digitIn at h
    split at h
    · cases h
    · rename_i hle
      split at h
      · rename_i hlt
        exact ⟨first, List.mem_cons_self, Nat.not_lt.mp hle, hlt⟩
      · obtain ⟨found, hmem, hrange⟩ := ih h
        exact ⟨found, List.mem_cons_of_mem _ hmem, hrange⟩

/-- No word begins with a digit. -/
theorem isDigit_of_isWordStart {c : Char} (h : isWordStart c = true) : isDigit c = false := by
  -- rows of digits against ranges of letters, which are far fewer than digits against ranges
  have hrows : (letterRanges.all fun range => digitZeros.all fun first =>
      Nat.blt range.2 first || Nat.ble (first + 10) range.1) = true := by decide +kernel
  cases hdigit : digitValue? c with
  | none => rw [isDigit, hdigit, Option.isSome_none]
  | some d =>
    obtain ⟨first, hfirst, hlow, hhigh⟩ := exists_of_digitIn hdigit
    rcases Bool.or_eq_true_iff.mp h with hletter | hline
    · obtain ⟨range, hrange, hlow', hhigh'⟩ := exists_of_inRanges hletter
      have hrow := List.all_eq_true.mp (List.all_eq_true.mp hrows range hrange) first hfirst
      rw [Bool.or_eq_true, Nat.blt_eq, Nat.ble_eq] at hrow
      omega
    · have hc : c = '_' := beq_iff_eq.mp hline
      rw [hc]
      rfl

/-- The digits of the first row are those of decimal numerals. -/
theorem digitValue?_of_isDigit {c : Char} (h : c.isDigit = true) :
    digitValue? c = some (c.toNat - '0'.toNat) := by
  have hrange : 0x30 ≤ c.toNat ∧ c.toNat < 0x30 + 10 := by
    simp only [Char.isDigit, Bool.and_eq_true, decide_eq_true_eq, ge_iff_le,
      UInt32.le_iff_toNat_le] at h
    exact ⟨h.1, Nat.lt_succ_of_le h.2⟩
  rw [digitValue?, digitZeros, digitIn, if_neg (Nat.not_lt.mpr hrange.1), if_pos hrange.2]
  rfl

theorem isDigit_of_mem_toDigits {n : Nat} {c : Char} (h : c ∈ Nat.toDigits 10 n) :
    isDigit c = true := by
  have hdigit : c.isDigit = true := Nat.isDigit_of_mem_toDigits (by omega) (by omega) h
  rw [isDigit, digitValue?_of_isDigit hdigit, Option.isSome_some]

/-- The digits of a number denote it. -/
theorem digitsValue_toDigits (n : Nat) : digitsValue (Nat.toDigits 10 n) = n := by
  have hfold : ∀ (digits : List Char) (value : Nat), (∀ c ∈ digits, c.isDigit = true) →
      digits.foldl (fun value c => 10 * value + (digitValue? c).getD 0) value =
        Nat.ofDigitChars 10 digits value := by
    intro digits
    induction digits with
    | nil => exact fun _ _ => rfl
    | cons c digits ih =>
      intro value hdigits
      obtain ⟨hc, hrest⟩ := List.forall_mem_cons.mp hdigits
      rw [List.foldl_cons, digitValue?_of_isDigit hc, ih _ hrest]
      rfl
  rw [digitsValue, hfold _ _ fun c hc => Nat.isDigit_of_mem_toDigits (by omega) (by omega) hc,
    Nat.ofDigitChars_ten_toDigits]

end Text

/-! ## Names, integers and texts -/

namespace Scan

variable {behind : List Char}

theorem reads_identifier {name : String} (h : (Lexeme.identifier name).WellFormed)
    (hbehind : Delimits behind) : Reads name.toList (.identifier name) behind := by
  obtain ⟨c, rest, rfl, hstart, hrest⟩ := h
  rw [String.toList_ofList]
  exact reads_word (Text.isDigit_of_isWordStart hstart) hstart hrest hbehind

theorem fits_iff {value : Int} :
    fits value = true ↔ -9223372036854775808 ≤ value ∧ value < 9223372036854775808 := by
  have hbound : Int.pow 2 63 = 9223372036854775808 := by decide
  rw [fits, hbound, Bool.and_eq_true, decide_eq_true_eq, decide_eq_true_eq]

/-- What is read of the digits of a number that fits. -/
theorem number_toDigits (negative : Bool) {n : Nat}
    (hfits : fits (if negative then -(n : Int) else n) = true) :
    number negative (Nat.toDigits 10 n) =
      ⟨(if negative then ['-'] else []) ++ Nat.toDigits 10 n,
        .ok (.signed (if negative then -(n : Int) else n))⟩ := by
  have hdigits : ∀ c ∈ Nat.toDigits 10 n, Text.isDigit c = true :=
    fun c hc => Text.isDigit_of_mem_toDigits hc
  have hlength : (Nat.toDigits 10 n).length ≤ 19 := by
    have hrange := fits_iff.mp hfits
    refine (Nat.length_toDigits_le_iff (by omega) (by omega)).mpr ?_
    cases negative with
    | false =>
      simp only [Bool.false_eq_true, if_false] at hrange
      omega
    | true =>
      simp only [if_true] at hrange
      omega
  have hzeros : ((Nat.toDigits 10 n).dropWhile (· == '0')).length ≤ 19 :=
    Nat.le_trans (List.dropWhile_suffix _).length_le hlength
  have hwhole : (Nat.toDigits 10 n).takeWhile Text.isDigit = Nat.toDigits 10 n :=
    List.takeWhile_eq_self_iff.mpr hdigits
  have hrest : (Nat.toDigits 10 n).dropWhile Text.isDigit = [] :=
    List.dropWhile_eq_nil_iff.mpr hdigits
  have hinteger : integer negative (Nat.toDigits 10 n) =
      .ok (.signed (if negative then -(n : Int) else n)) := by
    have hvalue : signedValue negative (Nat.toDigits 10 n) =
        if negative then -(n : Int) else n := by
      rw [signedValue, Text.digitsValue_toDigits]
    have hlimit : ¬ (Nat.toDigits 10 n).length > digitLimit := by
      rw [digitLimit]
      omega
    rw [integer]
    simp only [hvalue, if_neg (Nat.not_lt.mpr hzeros), if_neg hlimit, hfits, if_true]
  simp only [number, hwhole, hrest, fractionDigits, hinteger]

/-- The text of an integer that fits is read as this integer. -/
theorem reads_integer {value : Int} (h : fits value = true) (hbehind : Delimits behind) :
    Reads (toString value).toList (.signed value) behind := by
  have hfirst : ∀ n, ∃ c rest, Nat.toDigits 10 n = c :: rest ∧ Text.isDigit c = true := by
    intro n
    obtain ⟨c, rest, hdigits⟩ := List.exists_cons_of_ne_nil (Nat.toDigits_ne_nil (n := n) (b := 10))
    exact ⟨c, rest, hdigits, Text.isDigit_of_mem_toDigits (by rw [hdigits]; exact .head _)⟩
  cases value with
  | ofNat n =>
    obtain ⟨c, rest, hdigits, hc⟩ := hfirst n
    have htext := Text.toList_ofNat n
    have hnumber := number_toDigits false h
    rw [hdigits, ← token_of_digit hc] at hnumber
    have hreads := reads_of_found (congrArg Scan.found hnumber) hbehind
    rw [congrArg Scan.taken hnumber] at hreads
    rw [htext, hdigits]
    exact hreads
  | negSucc n =>
    obtain ⟨c, rest, hdigits, hc⟩ := hfirst (n + 1)
    have htext := Text.toList_negSucc n
    have hnumber := number_toDigits true (n := n + 1) h
    rw [hdigits, ← token_of_minus (show startsWithDigit (c :: rest) = true from hc)] at hnumber
    have hreads := reads_of_found (congrArg Scan.found hnumber) hbehind
    rw [congrArg Scan.taken hnumber] at hreads
    rw [htext, hdigits]
    exact hreads

end Scan

/-! ## Texts put together -/

/-- A gap in front changes nothing. -/
theorem Laid.gap {stack : List (Location × Bracket)} {lexemes : List Lexeme}
    {gap text : List Char} (h : Laid stack lexemes text) (hgap : IsGap stack gap) :
    Laid stack lexemes (gap ++ text) := by
  cases h with
  | none hnone => exact .none (List.forall_mem_append.mpr ⟨hgap, hnone⟩)
  | spelled hnone hreads hnewline htrack hrest =>
    rw [← List.append_assoc]
    exact .spelled (List.forall_mem_append.mpr ⟨hgap, hnone⟩) hreads hnewline htrack hrest

theorem Laid.blank {stack : List (Location × Bracket)} {lexemes : List Lexeme} {text : List Char}
    (h : Laid stack lexemes text) : Laid stack lexemes (' ' :: text) := by
  have hgap : IsGap stack [' '] := by
    intro c hc
    rw [List.mem_singleton.mp hc]
    exact ⟨by decide, fun heq => absurd heq (by decide)⟩
  exact h.gap hgap

/-- A character of punctuation in front of a text. -/
theorem Laid.punctuated {stack inner : List (Location × Bracket)} {c : Char} {lexeme : Lexeme}
    {lexemes : List Lexeme} {text : List Char} (hc : Scan.punctuation? c = some lexeme)
    (hnewline : c ≠ '\n') (htrack : View.track stack default lexeme = .ok inner)
    (h : Laid inner lexemes text) : Laid stack (lexeme :: lexemes) (c :: text) := by
  have hspelling : [c] = ['\n'] → stack = [] := fun heq => absurd (List.cons.inj heq).1 hnewline
  exact .spelled (isGap_nil stack) (Scan.reads_punctuation hc _) hspelling htrack h

/-- A text lays out lexemes in front of every text that delimits it and lays out others. -/
def LaysOut (text : List Char) (lexemes : List Lexeme) : Prop :=
  ∀ stack behind others, Laid stack others behind → Scan.Delimits behind →
    Laid stack (lexemes ++ others) (text ++ behind)

namespace LaysOut

open Scan

variable {text text' : List Char} {lexemes lexemes' : List Lexeme}

theorem nil : LaysOut [] [] :=
  fun _ _ _ hlaid _ => hlaid

/-- A single spelling. -/
theorem of_reads {lexeme : Lexeme}
    (htrack : ∀ stack, View.track stack default lexeme = .ok stack) (hnewline : text ≠ ['\n'])
    (h : ∀ behind, Delimits behind → Scan.Reads text lexeme behind) : LaysOut text [lexeme] := by
  intro stack behind others hlaid hbehind
  have hspelling : text = ['\n'] → stack = [] := fun heq => absurd heq hnewline
  exact .spelled (isGap_nil stack) (h behind hbehind) hspelling (htrack stack) hlaid

theorem append {c : Char} (h : LaysOut text lexemes) (h' : LaysOut (c :: text') lexemes')
    (hc : isDelimiter c = true) :
    LaysOut (text ++ c :: text') (lexemes ++ lexemes') := by
  intro stack behind others hlaid hbehind
  rw [List.append_assoc, List.append_assoc]
  exact h _ _ _ (h' _ _ _ hlaid hbehind) (delimits_cons hc _)

/-- A blank in front. -/
theorem blank (h : LaysOut text lexemes) : LaysOut (' ' :: text) lexemes :=
  fun _ _ _ hlaid hbehind => (h _ _ _ hlaid hbehind).blank

/-- A comma in front. -/
theorem comma (h : LaysOut text lexemes) : LaysOut (',' :: text) (.comma :: lexemes) :=
  fun _ _ _ hlaid hbehind => .punctuated rfl (by decide) rfl (h _ _ _ hlaid hbehind)

/-- Parentheses around. -/
theorem grouped (h : LaysOut text lexemes) :
    LaysOut ('(' :: text ++ [')']) (.opening .paren :: lexemes ++ [.closing .paren]) := by
  intro stack behind others hlaid hbehind
  have hclosing : Laid ((default, .paren) :: stack) (.closing .paren :: others) (')' :: behind) :=
    .punctuated rfl (by decide) rfl hlaid
  have hinside := h _ _ _ hclosing (delimits_cons (by decide +kernel) behind)
  have hall : Laid stack (.opening .paren :: (lexemes ++ .closing .paren :: others))
      ('(' :: (text ++ ')' :: behind)) :=
    .punctuated rfl (by decide) rfl hinside
  simpa using hall

/-- Texts with a separator between neighbours that begins with a delimiter. -/
theorem intercalate {c : Char} {separator : List Char} {between : List Lexeme}
    (hc : isDelimiter c = true)
    (hseparator : ∀ text lexemes, LaysOut text lexemes →
      LaysOut (c :: separator ++ text) (between ++ lexemes))
    {texts : List (List Char)} {rows : List (List Lexeme)} (h : List.Forall₂ LaysOut texts rows) :
    LaysOut ((c :: separator).intercalate texts) (between.intercalate rows) := by
  induction h with
  | nil => exact nil
  | @cons text row texts rows hfirst hrest ih =>
    cases hrest with
    | nil => simpa using hfirst
    | cons hsecond hmore =>
      rw [List.intercalate_cons_cons, List.intercalate_cons_cons, List.append_assoc,
        List.append_assoc]
      exact hfirst.append (hseparator _ _ ih) hc

end LaysOut

theorem laysOut_name {name : String} (h : (Lexeme.identifier name).WellFormed) :
    LaysOut name.toList [.identifier name] := by
  refine .of_reads (fun _ => rfl) ?_ fun _ hbehind => Scan.reads_identifier h hbehind
  intro heq
  obtain ⟨c, rest, rfl, hstart, -⟩ := h
  rw [String.toList_ofList] at heq
  obtain ⟨rfl, -⟩ := List.cons.inj heq
  exact absurd hstart (by decide +kernel)

theorem laysOut_integer {value : Int} (h : Scan.fits value = true) :
    LaysOut (toString value).toList [.signed value] := by
  refine .of_reads (fun _ => rfl) ?_ fun _ hbehind => Scan.reads_integer h hbehind
  intro heq
  have hreads := Scan.reads_integer h Scan.delimits_nil
  rw [heq] at hreads
  obtain ⟨c, inner, hspelling, htoken⟩ := hreads
  cases hspelling
  cases congrArg Scan.found htoken

theorem laysOut_quoted {inside : List Char} (h : '"' ∉ inside) :
    LaysOut ('"' :: inside ++ ['"']) [.quoted (String.ofList ('"' :: inside ++ ['"']))] := by
  have hinside : ∀ c ∈ inside, c ≠ '"' := fun c hc heq => h (heq ▸ hc)
  exact .of_reads (fun _ => rfl) (by simp) fun behind _ => Scan.reads_quoted hinside behind

/-- An operator that is no sign of a number. -/
theorem laysOut_operator {c : Char} (hc : isOperatorChar c = true) :
    LaysOut [c] [.operator (String.ofList [c])] := by
  refine .of_reads (fun _ => rfl) ?_ fun behind hbehind =>
    Scan.reads_operator hc (fun _ hd => by cases hd) (fun h => by cases h.2) hbehind
  intro heq
  obtain ⟨rfl, -⟩ := List.cons.inj heq
  exact absurd hc (by decide)

end FrontEnd
