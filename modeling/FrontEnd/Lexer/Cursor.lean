import FrontEnd.Location

/-!
# Cursors

A cursor stands between two characters of a text. It holds the characters not yet read and counts
those read: all of them, the newlines among them, and those since the last newline.
-/

set_option autoImplicit false

namespace FrontEnd

/-- A place in a text with what follows it. -/
structure Cursor where
  rest : List Char
  pos : Nat
  line : Nat
  col : Nat
  deriving DecidableEq, Repr

namespace Cursor

/-- The cursor before the first character of a text. -/
def start (text : List Char) : Cursor := ⟨text, 0, 1, 0⟩

/-- Moves over one character. -/
def step (cursor : Cursor) : Cursor :=
  match cursor.rest with
  | [] => cursor
  | c :: rest =>
      if c = '\n' then ⟨rest, cursor.pos + 1, cursor.line + 1, 0⟩
      else ⟨rest, cursor.pos + 1, cursor.line, cursor.col + 1⟩

/-- Moves over a number of characters, or to the end if there are fewer. -/
def move : Nat → Cursor → Cursor
  | 0, cursor => cursor
  | n + 1, cursor => move n cursor.step

/-- The location of the next character. -/
def location (file : String) (cursor : Cursor) : Location :=
  ⟨file, cursor.line, cursor.col⟩

theorem rest_step (cursor : Cursor) : cursor.step.rest = cursor.rest.tail := by
  unfold step
  split
  · simp [*]
  · split <;> simp [*]

/-- Moving drops what it moves over. -/
theorem rest_move (n : Nat) (cursor : Cursor) : (move n cursor).rest = cursor.rest.drop n := by
  induction n generalizing cursor with
  | zero => rfl
  | succ n ih => rw [move, ih, rest_step, ← List.drop_one, List.drop_drop, Nat.add_comm]

end Cursor

end FrontEnd
