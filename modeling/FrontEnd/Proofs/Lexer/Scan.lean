import FrontEnd.Lexer.Scan
import Mathlib.Data.List.TakeWhile

/-!
# What a scan finds

* `Lexeme.WellFormed` — a lexeme that can be spelled: its text has the characters of its class, and
  its integer fits.
* `Scan.token_found` — what a scan finds is well formed, and it took a character at least.
-/

set_option autoImplicit false

namespace FrontEnd

/-- A lexeme that can be spelled. -/
def Lexeme.WellFormed : Lexeme → Prop
  | .signed value => Scan.fits value = true
  | .quoted text => ∃ inside, '"' ∉ inside ∧ text = String.ofList ('"' :: inside ++ ['"'])
  | .identifier name => ∃ c rest, name = String.ofList (c :: rest) ∧ Text.isWordStart c = true ∧
      ∀ d ∈ rest, Text.isWordPart d = true
  | .operator symbol => ∃ c rest, symbol = String.ofList (c :: rest) ∧ isOperatorChar c = true ∧
      ∀ d ∈ rest, isOperatorChar d = true
  | _ => True

/-- Texts with a first character of one class and others of another. -/
theorem Lexeme.spelled_iff {text : String} {start part : Char → Bool} :
    (∃ c rest, text = String.ofList (c :: rest) ∧ start c = true ∧ ∀ d ∈ rest, part d = true) ↔
      (text.toList.head?.any start && text.toList.tail.all part) = true := by
  rw [Bool.and_eq_true, List.all_eq_true, Option.any_eq_true]
  constructor
  · rintro ⟨c, rest, rfl, hstart, hpart⟩
    rw [String.toList_ofList]
    exact ⟨⟨c, rfl, hstart⟩, hpart⟩
  · rintro ⟨⟨c, hc, hstart⟩, hpart⟩
    obtain ⟨rest, htext⟩ := List.head?_eq_some_iff.mp hc
    rw [htext] at hpart
    exact ⟨c, rest, by rw [← htext, String.ofList_toList], hstart, hpart⟩

instance (name : String) : Decidable (Lexeme.identifier name).WellFormed :=
  decidable_of_iff' _ Lexeme.spelled_iff

instance (symbol : String) : Decidable (Lexeme.operator symbol).WellFormed :=
  decidable_of_iff' _ Lexeme.spelled_iff

theorem isWordStart_of_isOperatorChar {c : Char} (h : isOperatorChar c = true) :
    Text.isWordStart c = false := by
  have hall : operatorChars.all (fun c => !Text.isWordStart c) = true := by decide +kernel
  have hmem : c ∈ operatorChars := List.contains_iff_mem.mp h
  have hc := List.all_eq_true.mp hall c hmem
  simpa using hc

namespace Scan

/-- A scan that found a lexeme found one that can be spelled, and took something. -/
def Finds (scan : Scan) : Prop :=
  ∀ lexeme, scan.found = .ok lexeme → lexeme.WellFormed ∧ scan.taken ≠ []

theorem Finds.of_ok {taken : List Char} {lexeme : Lexeme} (hw : lexeme.WellFormed)
    (ht : taken ≠ []) : Finds ⟨taken, .ok lexeme⟩ := by
  intro found h
  cases h
  exact ⟨hw, ht⟩

theorem integer_eq_ok {negative : Bool} {digits : List Char} {lexeme : Lexeme}
    (h : integer negative digits = .ok lexeme) :
    ∃ value, fits value = true ∧ lexeme = .signed value := by
  simp only [integer] at h
  split at h
  · cases h
  · split at h
    · cases h
    · split at h
      · rename_i hfits
        cases h
        exact ⟨_, hfits, rfl⟩
      · cases h

theorem finds_number (negative : Bool) (text : List Char)
    (h : (if negative then ['-'] else []) ++ text.takeWhile Text.isDigit ≠ []) :
    Finds (number negative text) := by
  simp only [number]
  cases fractionDigits (text.dropWhile Text.isDigit) with
  | some fraction => exact .of_ok (by trivial) (by simp)
  | none =>
    intro lexeme hfound
    obtain ⟨value, hfits, rfl⟩ := integer_eq_ok hfound
    exact ⟨hfits, h⟩

/-- The characters of a class in front of a text, the first of which is of the class. -/
theorem takeWhile_cons_of_pos {p : Char → Bool} {c : Char} (rest : List Char) (h : p c = true) :
    ∃ behind, (c :: rest).takeWhile p = c :: behind ∧ ∀ d ∈ behind, p d = true := by
  exact ⟨rest.takeWhile p, List.takeWhile_cons_of_pos h, fun d hd => List.mem_takeWhile_imp hd⟩

theorem finds_word {c : Char} (rest : List Char) (h : Text.isWordStart c = true) :
    Finds (word (c :: rest)) := by
  obtain ⟨behind, htaken, hbehind⟩ :=
    takeWhile_cons_of_pos rest (Text.isWordPart_of_isWordStart h)
  unfold word
  rw [htaken]
  exact .of_ok ⟨c, behind, rfl, h, hbehind⟩ (by simp)

theorem finds_operator {c : Char} (rest : List Char) (h : isOperatorChar c = true) :
    Finds (operator (c :: rest)) := by
  obtain ⟨behind, htaken, hbehind⟩ := takeWhile_cons_of_pos rest h
  unfold operator
  rw [htaken]
  exact .of_ok ⟨c, behind, rfl, h, hbehind⟩ (by simp)

theorem finds_quotedRest (rest : List Char) : Finds (quotedRest rest) := by
  simp only [quotedRest]
  split
  · intro lexeme h
    cases h
  · refine .of_ok ⟨_, fun hmem => ?_, rfl⟩ (by simp)
    have hquote := List.mem_takeWhile_imp hmem
    simp at hquote

theorem finds_single (c : Char) : Finds (single c) := by
  unfold single
  split
  · rename_i lexeme h
    refine .of_ok ?_ (by simp)
    unfold punctuation? at h
    split at h <;> cases h <;> trivial
  · intro lexeme h
    cases h

/-- **What a scan finds can be spelled**, and every scan that finds something takes a character. -/
theorem token_found (c : Char) (rest : List Char) : Finds (token c rest) := by
  unfold token
  split
  · rename_i hdigit
    exact finds_number false (c :: rest) (by simp [List.takeWhile_cons_of_pos hdigit])
  · split
    · exact finds_number true rest (by simp)
    · split
      · rename_i hstart
        exact finds_word rest hstart
      · split
        · rename_i hoperator
          exact finds_operator rest hoperator
        · split
          · exact finds_quotedRest rest
          · exact finds_single c

end Scan

end FrontEnd
