/-!
# Lines

Only a newline ends a line. A text of `n` newlines has `n + 1` lines, the last of which may be
empty.
-/

set_option autoImplicit false

namespace FrontEnd.Text

/-- The pieces between the occurrences of a separator; there is always at least one. -/
def splitAtEach (separator : Char) : List Char → List (List Char)
  | [] => [[]]
  | c :: rest =>
      if c = separator then [] :: splitAtEach separator rest
      else
        match splitAtEach separator rest with
        | [] => [[c]]
        | piece :: pieces => (c :: piece) :: pieces

/-- The lines of a text. -/
def linesOf (text : String) : List String :=
  (splitAtEach '\n' text.toList).map String.ofList

/-- A carriage return, alone or before a newline, becomes a newline. -/
def unifyNewlines : List Char → List Char
  | [] => []
  | '\r' :: '\n' :: rest => '\n' :: unifyNewlines rest
  | '\r' :: rest => '\n' :: unifyNewlines rest
  | c :: rest => c :: unifyNewlines rest

theorem splitAtEach_ne_nil (separator : Char) (text : List Char) :
    splitAtEach separator text ≠ [] := by
  cases text with
  | nil => simp [splitAtEach]
  | cons c rest =>
      simp only [splitAtEach]
      split
      · simp
      · split <;> simp

/-- A text of `n` separators has `n + 1` pieces. -/
theorem length_splitAtEach (separator : Char) (text : List Char) :
    (splitAtEach separator text).length = text.count separator + 1 := by
  induction text with
  | nil => rfl
  | cons c rest ih =>
      simp only [splitAtEach]
      split
      · next h => simp [h, ih]
      · next h =>
        split
        · next hnil => exact absurd hnil (splitAtEach_ne_nil separator rest)
        · next piece pieces hcons =>
          rw [hcons] at ih
          simpa [h] using ih

end FrontEnd.Text
