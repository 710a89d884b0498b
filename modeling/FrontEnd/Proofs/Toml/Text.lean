import FrontEnd.Toml.Lexical
import Mathlib.Data.List.TakeWhile

/-!
# Texts between quotes

A text in which nothing needs an escape is read as it stands between its quotes. Any other text is
read as something shorter, if it is read at all.

* `Toml.IsPlainText` — a text in which nothing needs an escape.
* `Toml.readText_plain` — such a text is read as it is.
* `Toml.isPlainText_of_readText` — only such a text is.
-/

set_option autoImplicit false

namespace FrontEnd.Toml

/-- A text in which nothing needs an escape between quotes: no quote, no backslash, and no control
character other than a tab. -/
def IsPlainText (text : List Char) : Prop :=
  ∀ c ∈ text, c ≠ '"' ∧ c ≠ '\\' ∧ isIllegal c = false

instance (text : List Char) : Decidable (IsPlainText text) :=
  List.decidableBAll (fun c => c ≠ '"' ∧ c ≠ '\\' ∧ isIllegal c = false) text

variable {text value rest tail : List Char} {bound : Nat}

/-! ## Plain texts -/

theorem basicText_plain (h : IsPlainText text) (hbound : text.length < bound) :
    basicText bound (text ++ '"' :: rest) = some (text, rest) := by
  induction text generalizing bound with
  | nil =>
    obtain ⟨bound, rfl⟩ := Nat.exists_eq_succ_of_ne_zero (Nat.ne_of_gt hbound)
    rfl
  | cons c text ih =>
    obtain ⟨hquote, hbackslash, hlegal⟩ := h c List.mem_cons_self
    obtain ⟨bound, rfl⟩ := Nat.exists_eq_succ_of_ne_zero (Nat.ne_of_gt (Nat.zero_lt_of_lt hbound))
    have hrest := ih (fun d hd => h d (List.mem_cons_of_mem c hd)) (Nat.lt_of_succ_lt_succ hbound)
    rw [List.cons_append, basicText.eq_5 _ _ _ hquote hbackslash, hlegal, hrest]
    rfl

/-- A plain text is read as it is, up to a quote at the end of a line. -/
theorem readText_plain (h : IsPlainText text) :
    readText ('"' :: (text ++ '"' :: '\n' :: rest)) =
      some (String.ofList text, '\n' :: rest) := by
  have hbasic : basicText ((text ++ '"' :: '\n' :: rest).length + 1) (text ++ '"' :: '\n' :: rest) =
      some (text, '\n' :: rest) := by
    refine basicText_plain h ?_
    rw [List.length_append]
    omega
  -- a third quote would have to be in the text
  have hshort : ∀ long, text ++ '"' :: '\n' :: rest = '"' :: '"' :: long → False := by
    intro long heq
    cases text with
    | nil => cases heq
    | cons c text => exact absurd (List.cons.inj heq).1 (h c List.mem_cons_self).1
  rw [readText.eq_2 _ hshort, hbasic]
  rfl

/-! ## What other texts are read as -/

theorem hexNumber_consumes {width number result : Nat}
    (h : hexNumber width number text = some (result, rest)) :
    ∃ used, text = used ++ rest ∧ used.length = width ∧ '\n' ∉ used := by
  induction width generalizing number text with
  | zero =>
    rw [hexNumber] at h
    cases h
    exact ⟨[], rfl, rfl, nofun⟩
  | succ width ih =>
    cases text with
    | nil => cases h
    | cons c text =>
      rw [hexNumber] at h
      split at h
      · cases h
      · rename_i digit hdigit
        obtain ⟨used, rfl, hlength, hline⟩ := ih h
        have hc : '\n' ≠ c := by
          rintro rfl
          cases hdigit
        exact ⟨c :: used, rfl, congrArg Nat.succ hlength,
          fun hmem => (List.mem_cons.mp hmem).elim hc hline⟩

theorem codedChar_consumes {width : Nat} {c : Char} (hwidth : width ≠ 0)
    (h : codedChar width text = some (c, rest)) :
    ∃ used, text = used ++ rest ∧ used ≠ [] ∧ '\n' ∉ used := by
  unfold codedChar at h
  split at h
  · cases h
  · rename_i code behind hnumber
    split at h
    · cases h
      obtain ⟨used, htext, hlength, hline⟩ := hexNumber_consumes hnumber
      refine ⟨used, htext, ?_, hline⟩
      rintro rfl
      exact hwidth hlength.symm
    · cases h

/-- An escape is read from at least one character behind its backslash, on the same line. -/
theorem escapedChar_consumes {c : Char} (h : escapedChar text = some (c, rest)) :
    ∃ used, text = used ++ rest ∧ used ≠ [] ∧ '\n' ∉ used := by
  unfold escapedChar at h
  split at h
  all_goals try
    cases h
    exact ⟨[_], rfl, List.cons_ne_nil _ _, by decide⟩
  · obtain ⟨used, rfl, hne, hline⟩ := codedChar_consumes (by decide) h
    exact ⟨'u' :: used, rfl, List.cons_ne_nil _ _, by simpa using hline⟩
  · obtain ⟨used, rfl, hne, hline⟩ := codedChar_consumes (by decide) h
    exact ⟨'U' :: used, rfl, List.cons_ne_nil _ _, by simpa using hline⟩
  · cases h

theorem readAfter_eq_some {c : Char} {read : Read (List Char)}
    (h : readAfter c read = some (value, rest)) :
    ∃ inside, value = c :: inside ∧ read = some (inside, rest) := by
  cases read with
  | none => cases h
  | some found =>
    cases h
    exact ⟨found.1, rfl, rfl⟩

/-- What is read up to a quote is on one line and no longer than the text there, and shorter unless
this is plain. -/
theorem basicText_consumes (h : basicText bound text = some (value, rest)) :
    ∃ used, text = used ++ '"' :: rest ∧ '\n' ∉ used ∧ value.length ≤ used.length ∧
      (used.length ≤ value.length → value = used ∧ IsPlainText used) := by
  fun_induction basicText bound text generalizing value with
  | case1 | case2 | case4 | case6 => cases h
  | case3 bound behind =>
    cases h
    exact ⟨[], rfl, nofun, Nat.le_refl _, fun _ => ⟨rfl, nofun⟩⟩
  | case5 bound text c behind hescape ih =>
    obtain ⟨inside, rfl, hinside⟩ := readAfter_eq_some h
    obtain ⟨escape, rfl, hne, hline⟩ := escapedChar_consumes hescape
    obtain ⟨used, rfl, hused, hlength, -⟩ := ih hinside
    have hpositive := List.length_pos_iff.mpr hne
    refine ⟨'\\' :: (escape ++ used), by simp, by simp [hline, hused], ?_, fun hlonger => ?_⟩
    · simp only [List.length_cons, List.length_append]
      omega
    · simp only [List.length_cons, List.length_append] at hlonger
      omega
  | case7 bound c behind hquote hbackslash hlegal ih =>
    obtain ⟨inside, rfl, hinside⟩ := readAfter_eq_some h
    obtain ⟨used, rfl, hused, hlength, hplain⟩ := ih hinside
    have hc : '\n' ≠ c := by
      rintro rfl
      exact hlegal (by decide)
    refine ⟨c :: used, rfl, fun hmem => (List.mem_cons.mp hmem).elim hc hused,
      Nat.succ_le_succ hlength, fun hlonger => ?_⟩
    obtain ⟨rfl, hrest⟩ := hplain (Nat.le_of_succ_le_succ hlonger)
    refine ⟨rfl, fun d hd => ?_⟩
    rcases List.mem_cons.mp hd with rfl | hd
    · exact ⟨hquote, hbackslash, by simpa using hlegal⟩
    · exact hrest d hd

/-- Behind a joint of lines is an end of the text. -/
theorem skipJoint_suffix (h : skipJoint text = some rest) : rest <:+ text := by
  unfold skipJoint at h
  split at h
  · rename_i behind hspaces
    cases h
    have hline : '\n' :: behind <:+ text := hspaces ▸ List.dropWhile_suffix isSpace
    exact ((List.dropWhile_suffix _).trans (List.suffix_cons _ behind)).trans hline
  · cases h

/-- What is read up to three quotes is no longer than the text there. -/
theorem longBasicText_consumes (h : longBasicText bound text = some (value, rest)) :
    ∃ used, text = used ++ '"' :: '"' :: '"' :: rest ∧ value.length ≤ used.length := by
  fun_induction longBasicText bound text generalizing value with
  | case1 | case2 => cases h
  | case3 bound behind =>
    cases h
    exact ⟨[], rfl, Nat.le_refl _⟩
  | case4 => cases h
  | case5 bound c text hblank behind hjoint ih =>
    obtain ⟨used, rfl, hlength⟩ := ih h
    obtain ⟨joint, hsplit⟩ := skipJoint_suffix hjoint
    refine ⟨'\\' :: (joint ++ used), by simp [← hsplit], ?_⟩
    simp only [List.length_cons, List.length_append]
    omega
  | case6 => cases h
  | case7 bound c text hblank d behind hescape ih =>
    obtain ⟨inside, rfl, hinside⟩ := readAfter_eq_some h
    obtain ⟨escape, hsplit, hne, -⟩ := escapedChar_consumes hescape
    obtain ⟨used, rfl, hlength⟩ := ih hinside
    have hpositive := List.length_pos_iff.mpr hne
    refine ⟨'\\' :: (escape ++ used), by simp [hsplit], ?_⟩
    simp only [List.length_cons, List.length_append]
    omega
  | case8 => cases h
  | case9 bound c text hlong hbackslash hlegal ih =>
    obtain ⟨inside, rfl, hinside⟩ := readAfter_eq_some h
    obtain ⟨used, rfl, hlength⟩ := ih hinside
    exact ⟨c :: used, rfl, Nat.succ_le_succ hlength⟩

/-- Three quotes. -/
def threeQuotes : List Char := ['"', '"', '"']

/-- Quotes on one line are in front of the line's end, unless three of them are behind it. -/
theorem length_le_of_quotes {before quotes line : List Char}
    (h : before ++ (threeQuotes ++ quotes) ++ rest = line ++ '\n' :: tail)
    (hquotes : '\n' ∉ quotes) (htail : ¬threeQuotes <:+: tail) :
    before.length + 3 + quotes.length ≤ line.length := by
  have hmarks : '\n' ∉ threeQuotes ++ quotes := by
    rw [List.mem_append, not_or]
    exact ⟨by decide, hquotes⟩
  rcases List.append_eq_append_iff.mp h with ⟨more, hline, -⟩ | ⟨more, hsplit, hrest⟩
  · rw [hline]
    simp only [List.length_append, threeQuotes, List.length_cons, List.length_nil]
    omega
  · cases more with
    | nil =>
      rw [List.append_nil] at hsplit
      rw [← hsplit]
      simp only [List.length_append, threeQuotes, List.length_cons, List.length_nil]
      omega
    | cons c more =>
      obtain ⟨rfl, rfl⟩ := List.cons.inj hrest
      -- the line ends among the quotes, or they are behind its end
      rcases List.append_eq_append_iff.mp hsplit with ⟨inside, -, hbehind⟩ | ⟨inside, -, hbehind⟩
      · refine absurd ?_ hmarks
        rw [hbehind]
        exact List.mem_append_right inside List.mem_cons_self
      · cases inside with
        | nil =>
          rw [List.nil_append] at hbehind
          exact absurd (hbehind ▸ List.mem_cons_self) hmarks
        | cons d inside =>
          have hmore : more = inside ++ (threeQuotes ++ quotes) := (List.cons.inj hbehind).2
          refine absurd ⟨inside, quotes ++ rest, ?_⟩ htail
          rw [hmore]
          simp

/-- What a text of many lines is read as is shorter than the text up to its last quote. -/
theorem length_of_longText {inside line : List Char} {value : String}
    (h : withExtraMarks '"' (longBasicText bound (dropFirstNewline inside)) = some (value, rest))
    (hinside : inside = line ++ '\n' :: tail) (htail : ¬threeQuotes <:+: tail) :
    value.length + 3 ≤ line.length := by
  cases hread : longBasicText bound (dropFirstNewline inside) with
  | none =>
    rw [hread] at h
    cases h
  | some found =>
    obtain ⟨read, behind⟩ := found
    rw [hread] at h
    cases h
    obtain ⟨used, hused, hlength⟩ := longBasicText_consumes hread
    have hdropped : dropFirstNewline inside <:+ inside := by
      unfold dropFirstNewline
      split
      · exact List.suffix_cons _ _
      · exact List.suffix_rfl
    obtain ⟨dropped, hdrop⟩ := hdropped
    have hextra : (behind.take 2).takeWhile (· == '"') <+: behind :=
      (List.takeWhile_prefix _).trans (List.take_prefix 2 behind)
    obtain ⟨left, hleft⟩ := hextra
    have hquotes : '\n' ∉ (behind.take 2).takeWhile (· == '"') := by
      intro hmem
      exact absurd (List.mem_takeWhile_imp hmem) (by decide)
    have hsplit : dropped ++ used ++ (threeQuotes ++ (behind.take 2).takeWhile (· == '"')) ++ left =
        line ++ '\n' :: tail := by
      rw [← hinside, ← hdrop, hused]
      simp only [threeQuotes, List.append_assoc, List.cons_append, List.nil_append, hleft]
    have hle := length_le_of_quotes hsplit hquotes htail
    rw [List.length_append] at hle
    rw [String.length_ofList, List.length_append]
    omega

/-- A text behind whose quote the line ends, and that is read as something no shorter, is plain. -/
theorem isPlainText_of_basicText
    (h : basicText bound (text ++ '"' :: '\n' :: tail) = some (value, rest))
    (hlength : text.length ≤ value.length) : value = text ∧ IsPlainText text := by
  obtain ⟨used, hused, hline, hless, hplain⟩ := basicText_consumes h
  have hsame : used = text := by
    rcases List.append_eq_append_iff.mp hused with ⟨more, rfl, hrest⟩ | ⟨more, rfl, -⟩
    · cases more with
      | nil => exact List.append_nil text
      | cons c more =>
        -- the quote is read over as part of an escape, and then the line's end as well
        refine absurd ?_ hline
        cases more with
        | nil => cases hrest
        | cons d more =>
          cases hrest
          simp
    · rw [List.length_append] at hlength
      have hmore : more = [] := List.length_eq_zero_iff.mp (by omega)
      rw [hmore, List.append_nil]
  subst hsame
  exact hplain hlength

/-- **A text that is read as something no shorter is plain**, and was read as it is. -/
theorem isPlainText_of_readText {value : String}
    (h : readText ('"' :: (text ++ '"' :: '\n' :: tail)) = some (value, rest))
    (hlength : text.length ≤ value.length) (htail : ¬threeQuotes <:+: tail) :
    value = String.ofList text ∧ IsPlainText text := by
  by_cases hlong : ∃ inside, text ++ '"' :: '\n' :: tail = '"' :: '"' :: inside
  · obtain ⟨inside, hinside⟩ := hlong
    rw [hinside] at h
    have hread : withExtraMarks '"' (longBasicText (inside.length + 1) (dropFirstNewline inside)) =
        some (value, rest) := h
    -- the text is the second quote alone, or it begins with two quotes
    match text, hinside with
    | [], hinside => cases hinside
    | [_], hinside =>
      have hline : inside = [] ++ '\n' :: tail := by
        cases hinside
        rfl
      have hshort := length_of_longText hread hline htail
      rw [List.length_nil] at hshort
      omega
    | _ :: _ :: more, hinside =>
      have hline : inside = (more ++ ['"']) ++ '\n' :: tail := by
        cases hinside
        simp
      have hshort := length_of_longText hread hline htail
      simp only [List.length_append, List.length_cons, List.length_nil] at hshort hlength
      omega
  · rw [readText.eq_2 _ fun inside hinside => hlong ⟨inside, hinside⟩] at h
    cases hread : basicText ((text ++ '"' :: '\n' :: tail).length + 1)
        (text ++ '"' :: '\n' :: tail) with
    | none =>
      rw [hread] at h
      cases h
    | some found =>
      rw [hread] at h
      cases h
      rw [String.length_ofList] at hlength
      obtain ⟨hvalue, hplain⟩ := isPlainText_of_basicText hread hlength
      exact ⟨congrArg String.ofList hvalue, hplain⟩

end FrontEnd.Toml
