import FrontEnd.Decimal.Shortest
import FrontEnd.Proofs.Text.Quoted

/-!
# Values that are shown as they are

The texts of numbers and the quoted forms of texts hold printable characters only, so they stand on
one line and no escape sequence is in them.

* `Text.AllPrintable` — a text of printable characters.
* `Text.allPrintable_quoted`, `Text.allPrintable_integer`, `Binary64.allPrintable_text` — the texts
  of values are such texts.
* `Text.integer_inj` — integers with the same text are equal.
-/

set_option autoImplicit false

namespace FrontEnd

namespace Text

/-- Every character of the text can be shown. -/
def AllPrintable (text : String) : Prop :=
  ∀ c ∈ text.toList, isPrintable c = true

instance (text : String) : Decidable (AllPrintable text) :=
  decidable_of_iff (text.toList.all isPrintable = true) List.all_eq_true

theorem allPrintable_append {first second : String} (hfirst : AllPrintable first)
    (hsecond : AllPrintable second) : AllPrintable (first ++ second) := by
  intro c hc
  rw [String.toList_append] at hc
  exact (List.mem_append.mp hc).elim (hfirst c) (hsecond c)

theorem allPrintable_ofList {text : List Char} :
    AllPrintable (String.ofList text) ↔ ∀ c ∈ text, isPrintable c = true := by
  rw [AllPrintable, String.toList_ofList]

theorem allPrintable_quoted (text : String) : AllPrintable (quoted text) :=
  allPrintable_ofList.mpr fun _ => isPrintable_of_mem_quotedChars

/-! ## Integers -/

theorem isPrintable_of_mem_toDigits {n : Nat} {c : Char} (h : c ∈ Nat.toDigits 10 n) :
    isPrintable c = true := by
  have hdigit : c.isDigit = true := Nat.isDigit_of_mem_toDigits (by omega) (by omega) h
  simp only [Char.isDigit, Bool.and_eq_true, decide_eq_true_eq, ge_iff_le,
    UInt32.le_iff_toNat_le] at hdigit
  exact isPrintable_of_ascii (Nat.le_trans (by decide) hdigit.1)
    (Nat.lt_of_le_of_lt hdigit.2 (by decide))

theorem toList_ofNat (n : Nat) : (toString (Int.ofNat n)).toList = Nat.toDigits 10 n :=
  Nat.toList_repr

theorem toList_negSucc (n : Nat) :
    (toString (Int.negSucc n)).toList = '-' :: Nat.toDigits 10 (n + 1) := by
  show ("-" ++ (n + 1).repr).toList = _
  rw [String.toList_append, Nat.toList_repr]
  rfl

theorem allPrintable_integer (value : Int) : AllPrintable (toString value) := by
  intro c hc
  cases value with
  | ofNat n =>
    rw [toList_ofNat] at hc
    exact isPrintable_of_mem_toDigits hc
  | negSucc n =>
    rw [toList_negSucc] at hc
    rcases List.mem_cons.mp hc with rfl | hdigit
    · exact isPrintable_of_ascii (by decide) (by decide)
    · exact isPrintable_of_mem_toDigits hdigit

theorem toDigits_inj {m n : Nat} (h : Nat.toDigits 10 m = Nat.toDigits 10 n) : m = n := by
  rw [← Nat.ofDigitChars_ten_toDigits (n := m), h, Nat.ofDigitChars_ten_toDigits]

/-- **Integers with the same text are equal.** -/
theorem integer_inj {value other : Int} (h : toString value = toString other) : value = other := by
  have hminus : ∀ n, '-' ∉ Nat.toDigits 10 n := fun n hn =>
    absurd (Nat.isDigit_of_mem_toDigits (by omega) (by omega) hn) (by decide)
  have hchars := congrArg String.toList h
  cases value with
  | ofNat m =>
    cases other with
    | ofNat n =>
      rw [toList_ofNat, toList_ofNat] at hchars
      rw [toDigits_inj hchars]
    | negSucc n =>
      rw [toList_ofNat, toList_negSucc] at hchars
      exact absurd (hchars ▸ List.mem_cons_self) (hminus m)
  | negSucc m =>
    cases other with
    | ofNat n =>
      rw [toList_ofNat, toList_negSucc] at hchars
      exact absurd (hchars ▸ List.mem_cons_self) (hminus n)
    | negSucc n =>
      rw [toList_negSucc, toList_negSucc] at hchars
      have hsame := toDigits_inj (List.cons.inj hchars).2
      rw [Nat.succ.inj hsame]

end Text

/-! ## Other numbers -/

namespace DecimalLayout

open Text

theorem allPrintable_exponentText (layout : DecimalLayout) (exponent : Int) :
    AllPrintable (layout.exponentText exponent) := by
  have hsign : AllPrintable (if exponent < 0 then "e-" else "e+") := by
    split <;> decide
  refine allPrintable_append hsign (allPrintable_ofList.mpr fun c hc => ?_)
  rcases List.mem_append.mp hc with hzero | hdigit
  · rw [List.eq_of_mem_replicate hzero]
    decide
  · exact isPrintable_of_mem_toDigits hdigit

theorem allPrintable_text (layout : DecimalLayout) (decimal : ShortDecimal) :
    AllPrintable (layout.text decimal) := by
  have hzero : isPrintable '0' = true := by decide
  rw [text]
  dsimp only
  generalize hdigits : Nat.toDigits 10 _ = digits
  have hprintable : ∀ c ∈ digits, isPrintable c = true :=
    fun c hc => isPrintable_of_mem_toDigits (hdigits ▸ hc)
  split
  · split
    · refine allPrintable_append (by decide) (allPrintable_ofList.mpr fun c hc => ?_)
      rcases List.mem_append.mp hc with hpadding | hdigit
      · rwa [List.eq_of_mem_replicate hpadding]
      · exact hprintable c hdigit
    · split
      · refine allPrintable_append (allPrintable_ofList.mpr fun c hc => ?_) (by decide)
        rcases List.mem_append.mp hc with hdigit | hpadding
        · exact hprintable c hdigit
        · rwa [List.eq_of_mem_replicate hpadding]
      · refine allPrintable_append (allPrintable_append ?_ (by decide)) ?_
        · exact allPrintable_ofList.mpr fun c hc => hprintable c (List.mem_of_mem_take hc)
        · exact allPrintable_ofList.mpr fun c hc => hprintable c (List.mem_of_mem_drop hc)
  · split
    · decide
    · refine allPrintable_append (allPrintable_ofList.mpr ?_) (layout.allPrintable_exponentText _)
      exact hprintable
    · rename_i first more _
      refine allPrintable_append (allPrintable_ofList.mpr ?_) (layout.allPrintable_exponentText _)
      obtain ⟨hfirst, hmore⟩ := List.forall_mem_cons.mp hprintable
      exact List.forall_mem_cons.mpr ⟨hfirst, List.forall_mem_cons.mpr ⟨by decide, hmore⟩⟩

end DecimalLayout

theorem Binary64.allPrintable_text (number : Binary64) : Text.AllPrintable number.text := by
  cases number with
  | nan => decide
  | infinite negative => cases negative <;> decide
  | finite negative significand exponent =>
    have hmagnitude : Text.AllPrintable
        (if significand = 0 then "0.0" else numberLayout.text (shortest significand exponent)) := by
      split
      · decide
      · exact numberLayout.allPrintable_text _
    cases negative with
    | false => exact hmagnitude
    | true => exact Text.allPrintable_append (by decide) hmagnitude

end FrontEnd
