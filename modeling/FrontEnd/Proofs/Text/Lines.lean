import FrontEnd.SourceText
import Mathlib.Data.List.DropRight
import Mathlib.Data.List.Induction

/-!
# Lines and columns of positions

A position of a text is on the line that the newlines before it count, and in the column that the
characters behind the last of these newlines count. Lines that are split off a text know nothing of
positions; still, the line of that number has at that column what the text has at the position.

* `Text.lineOf`, `Text.colOf` — line and column of a position.
* `Text.splitAtEach_eq_splitOn` — splitting as the library does it.
* `Text.getElem?_splitAtEach` — the line on which a text is cut in two.
* `SourceText.line?_lineOf` — the line of a position is found by its number.
* `SourceText.textAt_eq` — a piece of a text, as far as it is on one line, is found by the line and
  column where it begins.
-/

set_option autoImplicit false

namespace FrontEnd

namespace Text

/-- The number of the line of a position: lines begin with one and end with newlines. -/
def lineOf (text : List Char) (pos : Nat) : Nat :=
  1 + (text.take pos).count '\n'

/-- The column of a position: how many characters are behind the last newline in front of it. -/
def colOf (text : List Char) (pos : Nat) : Nat :=
  ((text.take pos).rtakeWhile (· != '\n')).length

/-! ## Positions and the character that follows -/

variable {text rest : List Char} {pos : Nat} {c : Char}

theorem take_succ_of_drop (h : text.drop pos = c :: rest) :
    text.take (pos + 1) = text.take pos ++ [c] := by
  have hget : text[pos]? = some c := by
    rw [← List.head?_drop, h]
    rfl
  rw [List.take_add_one, hget]
  rfl

theorem lineOf_succ (h : text.drop pos = c :: rest) :
    lineOf text (pos + 1) = lineOf text pos + if c = '\n' then 1 else 0 := by
  unfold lineOf
  rw [take_succ_of_drop h, List.count_append]
  by_cases hc : c = '\n'
  · simp [hc]
    omega
  · simp [hc]

theorem colOf_succ (h : text.drop pos = c :: rest) :
    colOf text (pos + 1) = if c = '\n' then 0 else colOf text pos + 1 := by
  unfold colOf
  rw [take_succ_of_drop h]
  by_cases hc : c = '\n'
  · rw [List.rtakeWhile_concat_neg _ _ _ (by simp [hc]), if_pos hc]
    rfl
  · rw [List.rtakeWhile_concat_pos _ _ _ (by simp [hc]), if_neg hc, List.length_append]
    rfl

/-! ## Positions in a text that is cut -/

section Cut

variable {word : List Char} (before behind : List Char)

theorem lineOf_append :
    lineOf (before ++ behind) before.length = 1 + before.count '\n' := by
  rw [lineOf, List.take_left]

theorem colOf_append :
    colOf (before ++ behind) before.length = (before.rtakeWhile (· != '\n')).length := by
  rw [colOf, List.take_left]

/-- Behind characters that are no newlines the line is the same. -/
theorem lineOf_word (h : '\n' ∉ word) :
    lineOf (before ++ (word ++ behind)) (before ++ word).length =
      lineOf (before ++ (word ++ behind)) before.length := by
  rw [lineOf_append, ← List.append_assoc, lineOf_append, List.count_append,
    List.count_eq_zero_of_not_mem h, Nat.add_zero]

/-- Behind characters that are no newlines the column counts them. -/
theorem colOf_word (h : '\n' ∉ word) :
    colOf (before ++ (word ++ behind)) (before ++ word).length =
      colOf (before ++ (word ++ behind)) before.length + word.length := by
  have hword : ∀ c ∈ word.reverse, (c != '\n') = true := by
    intro c hc
    have hne : c ≠ '\n' := fun heq => h (heq ▸ List.mem_reverse.mp hc)
    simpa using hne
  rw [colOf_append, ← List.append_assoc, colOf_append, List.rtakeWhile, List.rtakeWhile,
    List.reverse_append, List.takeWhile_append_of_pos hword, List.length_reverse,
    List.length_reverse, List.length_append, List.length_reverse, Nat.add_comm]

end Cut

/-! ## Split texts -/

theorem splitAtEach_separator (separator : Char) (text : List Char) :
    splitAtEach separator (separator :: text) = [] :: splitAtEach separator text := by
  simp [splitAtEach]

theorem splitAtEach_other {separator c : Char} (h : c ≠ separator) {text piece : List Char}
    {pieces : List (List Char)} (hsplit : splitAtEach separator text = piece :: pieces) :
    splitAtEach separator (c :: text) = (c :: piece) :: pieces := by
  simp [splitAtEach, h, hsplit]

/-- Splitting at a separator is the library's. -/
theorem splitAtEach_eq_splitOn (separator : Char) (text : List Char) :
    splitAtEach separator text = text.splitOn separator := by
  induction text with
  | nil => rfl
  | cons c rest ih =>
    rw [List.splitOn, List.splitOnP_cons_eq_if_modifyHead, splitAtEach, ih]
    by_cases hc : c = separator
    · simp [hc, List.splitOn]
    · rw [if_neg hc, if_neg (by simpa using hc)]
      cases hrest : rest.splitOn separator with
      | nil => exact absurd hrest (List.splitOn_ne_nil _ _)
      | cons piece pieces =>
        rw [List.splitOn] at hrest
        rw [hrest]
        rfl

/-- No piece holds the separator. -/
theorem not_mem_of_mem_splitAtEach {separator : Char} {text piece : List Char}
    (h : piece ∈ splitAtEach separator text) : separator ∉ piece := by
  induction text generalizing piece with
  | nil =>
    cases List.mem_singleton.mp h
    exact List.not_mem_nil
  | cons c rest ih =>
    by_cases hc : c = separator
    · subst hc
      rw [splitAtEach_separator] at h
      rcases List.mem_cons.mp h with rfl | hpiece
      · exact List.not_mem_nil
      · exact ih hpiece
    · obtain ⟨first, pieces, hsplit⟩ :=
        List.exists_cons_of_ne_nil (splitAtEach_ne_nil separator rest)
      rw [splitAtEach_other hc hsplit] at h
      rw [hsplit] at ih
      rcases List.mem_cons.mp h with rfl | hpiece
      · have hfirst : separator ∉ first := ih List.mem_cons_self
        simpa [hfirst] using Ne.symm hc
      · exact ih (List.mem_cons_of_mem _ hpiece)

/-- The first piece reaches to the first separator. -/
theorem head?_splitAtEach (separator : Char) (text : List Char) :
    (splitAtEach separator text).head? = some (text.takeWhile (· != separator)) := by
  induction text with
  | nil => rfl
  | cons c text ih =>
    by_cases hc : c = separator
    · subst hc
      rw [splitAtEach_separator]
      simp
    · obtain ⟨piece, pieces, hsplit⟩ :=
        List.exists_cons_of_ne_nil (splitAtEach_ne_nil separator text)
      rw [hsplit] at ih
      cases ih
      rw [splitAtEach_other hc hsplit]
      simp [hc]

/-- At a separator a text is split into the pieces before it and the pieces behind it. -/
theorem splitAtEach_append (separator : Char) (before behind : List Char) :
    splitAtEach separator (before ++ separator :: behind) =
      splitAtEach separator before ++ splitAtEach separator behind := by
  induction before with
  | nil => exact splitAtEach_separator separator behind
  | cons c before ih =>
    by_cases hc : c = separator
    · subst hc
      rw [List.cons_append, splitAtEach_separator, splitAtEach_separator, ih]
      rfl
    · obtain ⟨piece, pieces, hsplit⟩ :=
        List.exists_cons_of_ne_nil (splitAtEach_ne_nil separator before)
      rw [hsplit, List.cons_append] at ih
      rw [List.cons_append, splitAtEach_other hc ih, splitAtEach_other hc hsplit]
      rfl

/-- **The piece on which a text is cut in two** has the number of the separators before the cut. It
goes from the last of these to the next separator behind the cut. -/
theorem getElem?_splitAtEach (separator : Char) (before behind : List Char) :
    (splitAtEach separator (before ++ behind))[before.count separator]? =
      some (before.rtakeWhile (· != separator) ++ behind.takeWhile (· != separator)) := by
  induction before using List.reverseRecOn generalizing behind with
  | nil =>
    have hfirst := head?_splitAtEach separator behind
    rw [List.head?_eq_getElem?] at hfirst
    simpa using hfirst
  | append_singleton before c ih =>
    by_cases hc : c = separator
    · subst hc
      have hlength := length_splitAtEach c before
      rw [List.append_assoc, List.singleton_append, splitAtEach_append,
        List.rtakeWhile_concat_neg _ _ _ (by simp), List.count_append, List.count_singleton_self,
        List.getElem?_append_right (by omega), hlength, Nat.sub_self, ← List.head?_eq_getElem?,
        head?_splitAtEach]
      rfl
    · have hcut := ih (c :: behind)
      rw [List.takeWhile_cons_of_pos (by simp [hc])] at hcut
      rw [List.append_assoc, List.singleton_append, List.rtakeWhile_concat_pos _ _ _ (by simp [hc]),
        List.count_append, List.count_singleton, List.append_assoc]
      simpa [hc] using hcut

/-- What is taken of a class from the front of a text is the front of what is taken of the text. -/
theorem takeWhile_take (p : Char → Bool) (n : Nat) (text : List Char) :
    (text.take n).takeWhile p = (text.takeWhile p).take n := by
  induction text generalizing n with
  | nil => simp
  | cons c text ih =>
    cases n with
    | zero => rfl
    | succ n =>
      by_cases hc : p c = true
      · rw [List.take_succ_cons, List.takeWhile_cons_of_pos hc, List.takeWhile_cons_of_pos hc,
          List.take_succ_cons, ih]
      · rw [List.take_succ_cons, List.takeWhile_cons_of_neg hc, List.takeWhile_cons_of_neg hc,
          List.take_nil]

end Text

namespace SourceText

/-- The line of a position, as the lines of a text have it. -/
theorem getElem?_linesOf (content : String) (pos : Nat) :
    (Text.linesOf content)[(content.toList.take pos).count '\n']? =
      some (String.ofList ((content.toList.take pos).rtakeWhile (· != '\n') ++
        (content.toList.drop pos).takeWhile (· != '\n'))) := by
  have hcut := Text.getElem?_splitAtEach '\n' (content.toList.take pos) (content.toList.drop pos)
  rw [List.take_append_drop] at hcut
  rw [Text.linesOf, List.getElem?_map, hcut]
  rfl

/-- The line of a position is found by its number. -/
theorem line?_lineOf (content : String) (pos : Nat) :
    (ofContent content).line? (Text.lineOf content.toList pos) =
      (Text.linesOf content)[(content.toList.take pos).count '\n']? := by
  have hnumber : ((Text.lineOf content.toList pos : Int) - 1).toNat =
      (content.toList.take pos).count '\n' := by
    unfold Text.lineOf
    omega
  have hone : (1 : Int) ≤ Text.lineOf content.toList pos := by
    unfold Text.lineOf
    omega
  rw [line?, if_pos hone, hnumber]
  rfl

theorem lineAt_lineOf (content : String) (pos : Nat) :
    ((ofContent content).lineAt (Text.lineOf content.toList pos)).toList =
      (content.toList.take pos).rtakeWhile (· != '\n') ++
        (content.toList.drop pos).takeWhile (· != '\n') := by
  rw [lineAt, line?_lineOf, getElem?_linesOf, Option.getD_some, String.toList_ofList]

/-- A slice whose ends are not negative. -/
theorem slice_natCast {α : Type} (items : List α) {start : Nat} (h : start ≤ items.length)
    (length : Nat) : slice items start (start + length : Int) = (items.drop start).take length := by
  have hstart : sliceIndex items.length start = start := by
    unfold sliceIndex
    rw [if_neg (by omega)]
    omega
  have hstop : sliceIndex items.length (start + length : Int) =
      min (start + length) items.length := by
    unfold sliceIndex
    rw [if_neg (by omega)]
    omega
  simp only [slice, hstart, hstop]
  rw [List.drop_take, List.take_eq_take_iff, List.length_drop]
  omega

/-- **A piece of a text is found by line and column**, up to its first newline. -/
theorem textAt_eq (content file : String) (pos length : Nat) :
    (ofContent content).textAt
        ⟨file, Text.lineOf content.toList pos, Text.colOf content.toList pos⟩ length =
      String.ofList (((content.toList.drop pos).take length).takeWhile (· != '\n')) := by
  have hline := lineAt_lineOf content pos
  unfold textAt
  rw [hline]
  have hcol : Text.colOf content.toList pos ≤
      ((content.toList.take pos).rtakeWhile (· != '\n') ++
        (content.toList.drop pos).takeWhile (· != '\n')).length := by
    simp [Text.colOf]
  rw [slice_natCast _ hcol, Text.takeWhile_take, Text.colOf, List.drop_left]

end SourceText

end FrontEnd
