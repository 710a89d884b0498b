import FrontEnd.Proofs.Editor.Symbols

/-!
# The word that a cursor touches

A line is cut into whole words by the characters that are part of none. A cursor touches at most one
of these words: it stands on one of its characters or directly behind the last of them. The word
under the cursor is this word, but for one place: behind the last character of a line the search
begins at that character, and so it goes on to a word that ends in front of it.

* `Touches` — a cursor touches a whole word of a line.
* `Answers` — a text is the word that a place of a source touches, or empty where there is none.
* `Overshoots` — a cursor stands behind the mark that ends its line, a word in front of the mark.
* `wordAt_answers_iff` — the word at a place is the one that is touched, but where it overshoots.
-/

set_option autoImplicit false

namespace FrontEnd.Editor

/-! ## Definitions -/

/-- A word of a line that goes on neither to the left nor to the right. -/
structure WholeWord (line front word behind : List Char) : Prop where
  cut : line = front ++ (word ++ behind)
  word : IsWord word
  front : EndsOutside front
  behind : StartsOutside behind

/-- A cursor touches a whole word of its line: it stands on one of its characters, or directly
behind it, where no word goes on. -/
def Touches (line : List Char) (cursor : Int) (word : List Char) : Prop :=
  ∃ front behind, WholeWord line front word behind ∧ front.length ≤ cursor ∧
    cursor ≤ (front ++ word).length

/-- The line of a number; lines count from zero. -/
def lineAt? (source : String) (line : Int) : Option (List Char) :=
  if line < 0 then none else (source.toList.splitOn '\n')[line.toNat]?

/-- A text is the word that is touched at a place, and it is empty just where the line does not
exist, the character is negative or beyond the end of the line, or no word is touched. -/
structure Answers (source : String) (line character : Int) (answer : String) : Prop where
  touched : ∀ text word, lineAt? source line = some text → Touches text character word →
    answer.toList = word
  empty : answer = "" ↔ lineAt? source line = none ∨ character < 0 ∨
    ∃ text, lineAt? source line = some text ∧
      (text.length < character ∨ ¬ ∃ word, Touches text character word)

/-- The cursor stands at the end of its line, behind a character that is part of no word, and the
word ends in front of that character. -/
def Overshoots (source : String) (line character : Int) (word : List Char) : Prop :=
  ∃ text front mark, lineAt? source line = some text ∧ WholeWord text front word [mark] ∧
    character = text.length

/-! ## Words of a line -/

section Line

variable {line front word behind : List Char} {character : Int}

/-- **A word that is touched is found.** -/
theorem Touches.wordInLine_eq (h : Touches line character word) :
    wordInLine line character = word := by
  obtain ⟨front, behind, ⟨rfl, hword, hfront, hbehind⟩, hstart, hstop⟩ := h
  rw [List.length_append] at hstop
  exact Editor.wordInLine_eq hword hfront hbehind hstart (by exact_mod_cast hstop)

/-- What is found around an index, if it is anything, is touched there. -/
theorem touches_wordAround {index : Nat} (hindex : index ≤ line.length)
    (hfound : wordAround line index ≠ []) : Touches line index (wordAround line index) := by
  have hleft : (line.take index).rdropWhile Text.isWordPart ++
      (line.take index).rtakeWhile Text.isWordPart = line.take index :=
    List.rdropWhile_append_rtakeWhile
  have hright : (line.drop index).takeWhile Text.isWordPart ++
      (line.drop index).dropWhile Text.isWordPart = line.drop index :=
    List.takeWhile_append_dropWhile
  have haround : wordAround line index = (line.take index).rtakeWhile Text.isWordPart ++
      (line.drop index).takeWhile Text.isWordPart := rfl
  have hlength := congrArg List.length hleft
  rw [List.length_append, List.length_take_of_le hindex] at hlength
  refine ⟨(line.take index).rdropWhile Text.isWordPart,
    (line.drop index).dropWhile Text.isWordPart, ⟨?_, ⟨hfound, ?_⟩, ?_, ?_⟩, ?_, ?_⟩
  · rw [haround, List.append_assoc, hright, ← List.append_assoc, hleft, List.take_append_drop]
  · intro c hc
    rcases List.mem_append.mp (haround ▸ hc) with hc | hc
    · exact List.mem_rtakeWhile_imp hc
    · exact List.mem_takeWhile_imp hc
  · intro c hc
    have hhead := List.head?_dropWhile_not Text.isWordPart (line.take index).reverse
    rw [List.rdropWhile, List.getLast?_reverse] at hc
    rw [hc] at hhead
    simpa using hhead
  · intro c hc
    have hhead := List.head?_dropWhile_not Text.isWordPart (line.drop index)
    rw [hc] at hhead
    simpa using hhead
  · omega
  · rw [haround, List.length_append, List.length_append]
    omega

/-- Behind a mark that ends the line no word is touched. -/
theorem WholeWord.not_touches_end {mark : Char} (h : WholeWord line front word [mark]) :
    ¬ ∃ other, Touches line line.length other := by
  rintro ⟨other, front', behind', ⟨hcut, hother, -, -⟩, -, hstop⟩
  have hmark : Text.isWordPart mark = false := h.behind mark rfl
  have hbehind : behind' = [] := by
    have hlength := congrArg List.length hcut
    rw [← List.append_assoc, List.length_append] at hlength
    exact List.length_eq_zero_iff.mp (by omega)
  have hlast : line.getLast? = some mark := by
    rw [h.cut, ← List.append_assoc, List.getLast?_concat]
  rw [hcut, hbehind, List.append_nil, List.getLast?_append_of_ne_nil _ hother.ne_nil] at hlast
  have hpart := hother.parts mark (List.mem_of_mem_getLast? hlast)
  rw [hmark] at hpart
  cases hpart

/-- What is found behind the last character of a line is touched there, or a mark follows it. -/
theorem cases_of_end (hfound : wordInLine line line.length ≠ []) :
    Touches line line.length (wordInLine line line.length) ∨
      ∃ front mark, WholeWord line front (wordInLine line line.length) [mark] := by
  have hpos : 0 < line.length := by
    rcases Nat.eq_zero_or_pos line.length with hzero | hpos
    · simp [wordInLine, hzero] at hfound
    · exact hpos
  have hlast : ((line.length : Int) - 1).toNat = line.length - 1 := by omega
  have hsearch : wordInLine line line.length = wordAround line (line.length - 1) := by
    rw [wordInLine, if_neg (by omega), if_pos (by omega), hlast]
  rw [hsearch] at hfound ⊢
  obtain ⟨front, behind, hwhole, hstart, hstop⟩ := touches_wordAround (by omega) hfound
  have hlength := congrArg List.length hwhole.cut
  rw [← List.append_assoc, List.length_append] at hlength
  cases behind with
  | nil =>
    rw [List.length_nil] at hlength
    exact .inl ⟨front, [], hwhole, by omega, by omega⟩
  | cons mark rest =>
    have hrest : rest = [] := by
      rw [List.length_cons] at hlength
      exact List.length_eq_zero_iff.mp (by omega)
    exact .inr ⟨front, mark, hrest ▸ hwhole⟩

/-- A word in front of the mark that ends the line is found behind the mark. -/
theorem WholeWord.wordInLine_end {mark : Char} (h : WholeWord line front word [mark]) :
    wordInLine line line.length = word := by
  have hlength := congrArg List.length h.cut
  rw [← List.append_assoc, List.length_append, List.length_singleton] at hlength
  have hlast : ((line.length : Int) - 1).toNat = front.length + word.length := by
    rw [List.length_append] at hlength
    omega
  rw [wordInLine, if_neg (by omega), if_pos (by omega), hlast]
  conv => lhs; arg 1; rw [h.cut]
  exact wordAround_eq h.word.parts h.front h.behind (Nat.le_refl _)

/-- Where no word is touched, none is found but in front of the mark that ends the line. -/
theorem touched_of_found (hfound : wordInLine line character ≠ [])
    (hmark : ∀ front word mark, character = line.length → ¬ WholeWord line front word [mark]) :
    0 ≤ character ∧ character ≤ line.length ∧
      Touches line character (wordInLine line character) := by
  by_cases hinside : 0 ≤ character ∧ character < line.length
  · obtain ⟨index, rfl⟩ := Int.eq_ofNat_of_zero_le hinside.1
    have hsearch : wordInLine line index = wordAround line index := if_pos hinside
    rw [hsearch] at hfound ⊢
    exact ⟨hinside.1, by omega, touches_wordAround (by omega) hfound⟩
  · by_cases hend : character = line.length
    · subst hend
      refine ⟨by omega, Int.le_refl _, (cases_of_end hfound).resolve_right ?_⟩
      rintro ⟨front, mark, hwhole⟩
      exact hmark front _ mark rfl hwhole
    · refine absurd ?_ hfound
      rw [wordInLine, if_neg hinside, if_neg (by omega)]

end Line

/-! ## Words of a source -/

section Source

variable {source : String} {line character : Int} {text word : List Char}

theorem wordAt_of_none (h : lineAt? source line = none) : wordAt source line character = "" := by
  rw [lineAt?] at h
  rw [wordAt, Text.splitAtEach_eq_splitOn]
  split at h
  · rename_i hline
    exact if_pos hline
  · rename_i hline
    rw [if_neg hline, h]

theorem wordAt_of_some (h : lineAt? source line = some text) :
    wordAt source line character = String.ofList (wordInLine text character) := by
  rw [lineAt?] at h
  rw [wordAt, Text.splitAtEach_eq_splitOn]
  split at h
  · cases h
  · rename_i hline
    rw [if_neg hline, h]

/-- Where the cursor overshoots, the word in front of the mark is found. -/
theorem Overshoots.wordAt_eq (h : Overshoots source line character word) :
    wordAt source line character = String.ofList word := by
  obtain ⟨text, front, mark, htext, hwhole, rfl⟩ := h
  rw [wordAt_of_some htext, hwhole.wordInLine_end]

/-- But it is not touched, and nothing is. -/
theorem Overshoots.not_answers (h : Overshoots source line character word) :
    ¬ Answers source line character (wordAt source line character) := by
  intro hanswers
  have hfound := h.wordAt_eq
  obtain ⟨text, front, mark, htext, hwhole, rfl⟩ := h
  have hempty : wordAt source line text.length = "" :=
    hanswers.empty.mpr (.inr (.inr ⟨text, htext, .inr hwhole.not_touches_end⟩))
  rw [hempty] at hfound
  exact hwhole.word.ne_nil (String.ofList_eq_empty_iff.mp hfound.symm)

/-- **The word at a place is the one that the cursor touches**, and empty where there is none,
unless the cursor overshoots. There it is the word in front of the mark that ends the line. -/
theorem wordAt_answers_iff (source : String) (line character : Int) :
    (Answers source line character (wordAt source line character) ↔
      ∀ word, ¬ Overshoots source line character word) ∧
    ∀ word, Overshoots source line character word →
      wordAt source line character = String.ofList word := by
  refine ⟨⟨fun hanswers word hover => hover.not_answers hanswers, fun hmark => ?_⟩,
    fun word hover => hover.wordAt_eq⟩
  cases htext : lineAt? source line with
  | none =>
    rw [wordAt_of_none htext]
    exact ⟨fun text word hsome => by simp [htext] at hsome, by simp [htext]⟩
  | some text =>
    rw [wordAt_of_some htext]
    have hmark : ∀ front word mark, character = text.length →
        ¬ WholeWord text front word [mark] := fun front word mark hend hwhole =>
      hmark word ⟨text, front, mark, htext, hwhole, hend⟩
    refine ⟨fun text' word hsome htouches => ?_, ?_⟩
    · cases htext.symm.trans hsome
      rw [String.toList_ofList, htouches.wordInLine_eq]
    · rw [String.ofList_eq_empty_iff]
      constructor
      · intro hnil
        refine .inr (.inr ⟨text, htext, .inr ?_⟩)
        rintro ⟨word, htouches⟩
        have hword := htouches.wordInLine_eq
        rw [hnil] at hword
        obtain ⟨front, behind, hwhole, -⟩ := htouches
        exact hwhole.word.ne_nil hword.symm
      · intro hnowhere
        by_contra hfound
        obtain ⟨hstart, hstop, htouches⟩ := touched_of_found hfound hmark
        rcases hnowhere with hnone | hnegative | ⟨text', hsome, hbeyond | huntouched⟩
        · cases htext.symm.trans hnone
        · omega
        · cases htext.symm.trans hsome
          omega
        · cases htext.symm.trans hsome
          exact huntouched ⟨_, htouches⟩

/-- On the second line of a text the word in front of the cursor is touched by it; at the end of the
line the cursor overshoots. -/
theorem wordAt_answers_iff_marked :
    let source := "f (x)\ngröße (y2)"
    Answers source 1 5 (wordAt source 1 5) ∧ wordAt source 1 5 = "größe" ∧
      Overshoots source 1 10 ['y', '2'] ∧ wordAt source 1 10 = "y2" := by
  intro source
  have hline : lineAt? source 1 = some "größe (y2)".toList := by decide +kernel
  have hfive := (wordAt_answers_iff source 1 5).1.mpr fun word hover => by
    obtain ⟨text, front, mark, htext, -, hend⟩ := hover
    cases hline.symm.trans htext
    revert hend
    decide
  have hletter : Text.isWordPart 'y' = true := by decide +kernel
  have hdigit : Text.isWordPart '2' = true := by decide +kernel
  have hover : Overshoots source 1 10 ['y', '2'] := by
    refine ⟨_, "größe (".toList, ')', hline, ⟨rfl, ⟨by simp, ?_⟩, ?_, ?_⟩, rfl⟩
    · simp [hletter, hdigit]
    · intro c hc
      cases hc
      decide +kernel
    · intro c hc
      cases hc
      decide +kernel
  exact ⟨hfive, by decide +kernel, hover, (wordAt_answers_iff source 1 10).2 _ hover⟩

/-- **Not every place is answered**: behind the parenthesis that ends a line, the word in front of
the parenthesis is found, though nothing is touched there. -/
theorem wordAt_not_answers_behind_mark : ¬ Answers "x)" 0 2 (wordAt "x)" 0 2) := by
  have hline : lineAt? "x)" 0 = some ['x', ')'] := by decide +kernel
  have hpart : Text.isWordPart 'x' = true := by decide +kernel
  have hmark : Text.isWordPart ')' = false := by decide +kernel
  have hover : Overshoots "x)" 0 2 ['x'] := by
    refine ⟨_, [], ')', hline, ⟨rfl, ⟨by simp, by simp [hpart]⟩, ?_, ?_⟩, rfl⟩
    · intro c hc
      cases hc
    · intro c hc
      cases hc
      exact hmark
  exact hover.not_answers

end Source

end FrontEnd.Editor
