import FrontEnd.Text.Quoted
import Mathlib.Algebra.Group.Nat.Defs
import Mathlib.Data.List.Basic
import Mathlib.Data.List.Nodup

/-!
# Quoted forms tell texts apart

Between its two marks a quoted form is made of one piece for each character: the character itself,
or an escape, whose letter says how many digits belong to it. So no piece can be mistaken for
another one with something behind it.

* `Text.escaped_append_inj` — where the piece of a character ends is known from the piece.
* `Text.quoted_inj` — texts with the same quoted form are equal.
* `Text.isPrintable_of_mem_quotedChars` — everything in a quoted form can be shown.
-/

set_option autoImplicit false

namespace FrontEnd.Text

variable {mark c d letter : Char} {digits rest others : List Char}

/-- The characters between the space and the tilde can be shown. -/
theorem isPrintable_of_ascii (hlow : 0x20 ≤ c.toNat) (hhigh : c.toNat < 0x7f) :
    isPrintable c = true := by
  rw [isPrintable, unprintableRanges, inRanges, if_neg (Nat.not_lt_zero _), if_neg (by omega),
    inRanges, if_pos hhigh]
  rfl

/-! ## Hexadecimal digits -/

theorem length_hexDigits (width n : Nat) : (hexDigits width n).length = width := by
  induction width generalizing n with
  | zero => rfl
  | succ width ih => rw [hexDigits, List.length_append, ih, List.length_singleton]

theorem digitChar_inj : ∀ m n : Fin 16, Nat.digitChar m = Nat.digitChar n → m = n := by decide

theorem isPrintable_digitChar (n : Fin 16) : isPrintable (Nat.digitChar n) = true := by
  have hascii : ∀ n : Fin 16, 0x20 ≤ (Nat.digitChar n).toNat ∧ (Nat.digitChar n).toNat < 0x7f := by
    decide
  exact isPrintable_of_ascii (hascii n).1 (hascii n).2

/-- As many digits as are needed tell numbers apart. -/
theorem hexDigits_inj {width m n : Nat} (hm : m < 16 ^ width) (hn : n < 16 ^ width)
    (h : hexDigits width m = hexDigits width n) : m = n := by
  induction width generalizing m n with
  | zero =>
    rw [Nat.pow_zero, Nat.lt_one_iff] at hm hn
    rw [hm, hn]
  | succ width ih =>
    rw [Nat.pow_succ] at hm hn
    obtain ⟨hbefore, hlast⟩ := List.append_inj' h rfl
    have hquotient := ih (Nat.div_lt_of_lt_mul (Nat.mul_comm _ _ ▸ hm))
      (Nat.div_lt_of_lt_mul (Nat.mul_comm _ _ ▸ hn)) hbefore
    have hremainder := digitChar_inj ⟨m % 16, Nat.mod_lt m (by decide)⟩
      ⟨n % 16, Nat.mod_lt n (by decide)⟩ (List.cons.inj hlast).1
    have hsame : m % 16 = n % 16 := Fin.val_eq_of_eq hremainder
    rw [← Nat.div_add_mod m 16, ← Nat.div_add_mod n 16, hquotient, hsame]

theorem isPrintable_of_mem_hexDigits {width n : Nat} (h : c ∈ hexDigits width n) :
    isPrintable c = true := by
  induction width generalizing n with
  | zero => cases h
  | succ width ih =>
    rcases List.mem_append.mp h with hbefore | hlast
    · exact ih hbefore
    · rw [List.mem_singleton.mp hlast]
      exact isPrintable_digitChar ⟨n % 16, Nat.mod_lt n (by decide)⟩

/-! ## Escapes -/

/-- A character that encloses quoted forms. -/
def IsMark (mark : Char) : Prop :=
  mark = '\x27' ∨ mark = '"'

theorem isMark_quoteMark (text : List Char) : IsMark (quoteMark text) := by
  unfold quoteMark
  split
  · exact .inr rfl
  · exact .inl rfl

/-- The characters that are escaped by one letter, with their letters. -/
def lettered (mark : Char) : List (Char × Char) :=
  [(mark, mark), ('\\', '\\'), ('\n', 'n'), ('\r', 'r'), ('\t', 't')]

/-- The letters that digits follow, with the number of digits. -/
def numbered : List (Char × Nat) :=
  [('x', 2), ('u', 4), ('U', 8)]

/-- What stands behind the backslash of an escape. -/
inductive Escape (mark c : Char) : Char → List Char → Prop
  | lettered {letter : Char} (hletter : (c, letter) ∈ lettered mark) : Escape mark c letter []
  | numbered {letter : Char} {width : Nat} (hletter : (letter, width) ∈ numbered)
      (hfits : c.toNat < 16 ^ width) : Escape mark c letter (hexDigits width c.toNat)

/-- A piece of a quoted form is the character itself, which is no backslash, or an escape. -/
theorem escaped_cases (mark c : Char) :
    (escaped mark c = [c] ∧ c ≠ '\\' ∧ isPrintable c = true) ∨
      ∃ letter digits, escaped mark c = '\\' :: letter :: digits ∧ Escape mark c letter digits := by
  unfold escaped
  split
  · rename_i h
    refine .inr ⟨c, [], rfl, .lettered ?_⟩
    rcases h with rfl | rfl <;> simp [lettered]
  · rename_i hplain
    split
    · rename_i h
      exact .inr ⟨'n', [], rfl, .lettered (by simp [lettered, h])⟩
    · split
      · rename_i h
        exact .inr ⟨'r', [], rfl, .lettered (by simp [lettered, h])⟩
      · split
        · rename_i h
          exact .inr ⟨'t', [], rfl, .lettered (by simp [lettered, h])⟩
        · split
          · rename_i hprintable
            exact .inl ⟨rfl, fun h => hplain (.inr h), hprintable⟩
          · unfold codeEscape
            split
            · rename_i h
              exact .inr ⟨'x', _, rfl, .numbered (by simp [numbered]) h⟩
            · split
              · rename_i h
                exact .inr ⟨'u', _, rfl, .numbered (by simp [numbered]) h⟩
              · have hvalid : c.toNat < 16 ^ 8 := c.val.toNat_lt
                exact .inr ⟨'U', _, rfl, .numbered (by simp [numbered]) hvalid⟩

/-- No two of the letters are the same. -/
theorem nodup_letters (hmark : IsMark mark) :
    ((lettered mark).map Prod.snd ++ numbered.map Prod.fst).Nodup := by
  rcases hmark with rfl | rfl <;> decide

/-- An escape belongs to one character only, and its letter says where it ends. -/
theorem Escape.append_inj (hmark : IsMark mark) {more : List Char}
    (h : Escape mark c letter digits) (hother : Escape mark d letter more)
    (heq : digits ++ rest = more ++ others) : c = d ∧ rest = others := by
  obtain ⟨hlettered, hnumbered, hapart⟩ := List.nodup_append.mp (nodup_letters hmark)
  cases h with
  | lettered hletter =>
    cases hother with
    | lettered hagain =>
      have hsame := List.inj_on_of_nodup_map hlettered hletter hagain rfl
      exact ⟨congrArg Prod.fst hsame, heq⟩
    | numbered hagain =>
      exact absurd rfl (hapart _ (List.mem_map_of_mem hletter) _ (List.mem_map_of_mem hagain))
  | @numbered width hletter hfits =>
    cases hother with
    | lettered hagain =>
      exact absurd rfl (hapart _ (List.mem_map_of_mem hagain) _ (List.mem_map_of_mem hletter))
    | @numbered width' hagain hfits' =>
      have hsame := List.inj_on_of_nodup_map hnumbered hletter hagain rfl
      obtain rfl : width = width' := congrArg Prod.snd hsame
      obtain ⟨hdigits, hrest⟩ := List.append_inj heq (by rw [length_hexDigits, length_hexDigits])
      exact ⟨Char.toNat_inj.mp (hexDigits_inj hfits hfits' hdigits), hrest⟩

/-- **Where the piece of a character ends is known from the piece.** -/
theorem escaped_append_inj (hmark : IsMark mark)
    (h : escaped mark c ++ rest = escaped mark d ++ others) : c = d ∧ rest = others := by
  rcases escaped_cases mark c with ⟨hc, hplain, -⟩ | ⟨letter, digits, hc, hescape⟩
  · rcases escaped_cases mark d with ⟨hd, -, -⟩ | ⟨letter, digits, hd, -⟩
    · rw [hc, hd] at h
      exact List.cons.inj h
    · rw [hc, hd] at h
      exact absurd (List.cons.inj h).1 hplain
  · rcases escaped_cases mark d with ⟨hd, hplain, -⟩ | ⟨letter', digits', hd, hescape'⟩
    · rw [hc, hd] at h
      exact absurd (List.cons.inj h).1.symm hplain
    · rw [hc, hd] at h
      obtain ⟨-, hletters⟩ := List.cons.inj h
      obtain ⟨rfl, hdigits⟩ := List.cons.inj hletters
      exact hescape.append_inj hmark hescape' hdigits

theorem escaped_ne_nil (mark c : Char) : escaped mark c ≠ [] := by
  rcases escaped_cases mark c with ⟨hc, -⟩ | ⟨letter, digits, hc, -⟩ <;> simp [hc]

theorem flatMap_escaped_inj (hmark : IsMark mark) {text other : List Char}
    (h : text.flatMap (escaped mark) = other.flatMap (escaped mark)) : text = other := by
  induction text generalizing other with
  | nil =>
    cases other with
    | nil => rfl
    | cons d other => exact absurd (List.append_eq_nil_iff.mp h.symm).1 (escaped_ne_nil mark d)
  | cons c text ih =>
    cases other with
    | nil => exact absurd (List.append_eq_nil_iff.mp h).1 (escaped_ne_nil mark c)
    | cons d other =>
      obtain ⟨rfl, hrest⟩ := escaped_append_inj hmark h
      rw [ih hrest]

/-! ## Quoted forms -/

/-- **Texts with the same quoted form are equal.** -/
theorem quoted_inj {text other : String} (h : quoted text = quoted other) : text = other := by
  have hchars : quotedChars text.toList = quotedChars other.toList := String.ofList_injective h
  obtain ⟨hmark, hpieces⟩ := List.cons.inj hchars
  rw [hmark] at hpieces
  exact String.toList_inj.mp
    (flatMap_escaped_inj (isMark_quoteMark other.toList) (List.append_cancel_right hpieces))

theorem isPrintable_of_isMark (h : IsMark mark) : isPrintable mark = true := by
  rcases h with rfl | rfl <;> exact isPrintable_of_ascii (by decide) (by decide)

theorem isPrintable_letter (hmark : IsMark mark)
    (h : letter ∈ (lettered mark).map Prod.snd ++ numbered.map Prod.fst) :
    isPrintable letter = true := by
  have hprintable : ((lettered mark).map Prod.snd ++ numbered.map Prod.fst).all isPrintable := by
    rcases hmark with rfl | rfl <;> decide
  exact List.all_eq_true.mp hprintable letter h

theorem isPrintable_of_mem_escaped (hmark : IsMark mark) (h : d ∈ escaped mark c) :
    isPrintable d = true := by
  rcases escaped_cases mark c with ⟨hc, -, hprintable⟩ | ⟨letter, digits, hc, hescape⟩
  · rw [hc] at h
    rwa [List.mem_singleton.mp h]
  · rw [hc] at h
    rcases List.mem_cons.mp h with rfl | h
    · exact isPrintable_of_ascii (by decide) (by decide)
    · cases hescape with
      | lettered hletter =>
        rw [List.mem_singleton.mp h]
        exact isPrintable_letter hmark (List.mem_append_left _ (List.mem_map_of_mem hletter))
      | numbered hletter =>
        rcases List.mem_cons.mp h with rfl | h
        · exact isPrintable_letter hmark (List.mem_append_right _ (List.mem_map_of_mem hletter))
        · exact isPrintable_of_mem_hexDigits h

/-- **Everything in a quoted form can be shown.** -/
theorem isPrintable_of_mem_quotedChars {text : List Char} (h : c ∈ quotedChars text) :
    isPrintable c = true := by
  have hmark := isMark_quoteMark text
  rcases List.mem_cons.mp h with rfl | h
  · exact isPrintable_of_isMark hmark
  · rcases List.mem_append.mp h with hpiece | hlast
    · obtain ⟨d, -, hd⟩ := List.mem_flatMap.mp hpiece
      exact isPrintable_of_mem_escaped hmark hd
    · rw [List.mem_singleton.mp hlast]
      exact isPrintable_of_isMark hmark

end FrontEnd.Text
