import FrontEnd.Proofs.Grammar.Agreement
import FrontEnd.Proofs.Rules.Showing

/-!
# Moved tapes

A tape with all its locations moved shows the tape as it was. So every rule reads the same from it,
moved.

* `Tape.moving` — the moved tape as a way of showing a tape.
* `Greedy.file_relocate` — what the grammar makes of moved tokens.
-/

set_option autoImplicit false

namespace FrontEnd

variable (move : Location → Location)

def Tape.Front.relocate : Tape.Front → Tape.Front
  | .unstarted place => .unstarted (move place)
  | .ready token => .ready (token.relocate move)
  | .ended place => .ended (move place)

/-- The same tape at other places. -/
def Tape.relocate (tape : Tape) : Tape where
  front := tape.front.relocate move
  coming := tape.coming.map (·.relocate move)
  stop :=
    match tape.stop with
    | .ok place => .ok (move place)
    | .error fault => .error (fault.relocate move)

/-- A tape is shown by the moved tape. -/
def Tape.moving : Showing Tape where
  move := move
  shows tape moved := moved = tape.relocate move
  follows _ _ := True
  lasting :=
    { refl := fun _ => trivial
      trans := fun _ _ => trivial
      advance := fun _ => trivial
      note := fun _ _ => trivial
      rewind := fun _ => trivial }
  lookahead := by
    rintro ⟨front, coming, stop⟩ _ rfl
    cases front <;> rfl
  location := by
    rintro ⟨front, coming, stop⟩ _ rfl h
    cases front with
    | ready token => cases h
    | _ => rfl
  left := by
    rintro ⟨front, coming, stop⟩ _ rfl
    have hlength : (coming.map (·.relocate move)).length = coming.length := List.length_map _
    cases front <;>
    · show _ ≤ coming.length + 1
      simp only [Tape.size, Tape.relocate, Tape.Front.relocate]
      omega
  advance := by
    rintro ⟨front, coming, stop⟩ _ rfl
    cases front with
    | ended place => exact ⟨rfl, rfl⟩
    | _ =>
      cases coming with
      | cons token rest => exact ⟨rfl, rfl⟩
      | nil =>
        cases stop with
        | error fault => exact rfl
        | ok place => exact ⟨rfl, rfl⟩
  note _ h := h
  rewind h _ := h

/-- **What is read from some tokens is matched, moved, in the moved tokens.** -/
theorem Greedy.file_relocate {budget : Nat} {start place : Location} {tokens : List Token}
    {found : List Decl} {left : Tape}
    (h : Grammar.file budget (⟨.unstarted start, tokens, .ok place⟩ : Tape) = .ok found left) :
    file (tokens.map (·.relocate move)) = some (found.map (·.relocate move)) := by
  let tape : Tape := ⟨.unstarted start, tokens, .ok place⟩
  have hruns := Grammar.runs_file (Tape.moving move) tape budget tape
    ⟨.unstarted (move start), tokens.map (Token.relocate move), .ok (move place)⟩ trivial rfl
  have hagrees := agrees_file budget (move start) (move place) (tokens.map (·.relocate move))
  rw [h] at hruns
  cases hr : Grammar.file budget
      (⟨.unstarted (move start), tokens.map (·.relocate move), .ok (move place)⟩ : Tape) with
  | ok found' left' =>
    rw [hr] at hruns hagrees
    have hfound : found' = found.map (·.relocate move) := hruns.1
    rw [← hfound]
    exact hagrees
  | error fault left' =>
    rw [hr] at hruns
    exact hruns.elim

end FrontEnd
