import FrontEnd.Proofs.Rules.Progress

/-!
# Tapes

A tape is a feed that holds all its tokens from the start: the one in front, those still to come,
and what is behind the last of them, the end of the input or a fault. Setting it back restores the
whole tape, so there is nothing a rule could leave behind.

* `Tape.lasting_size` — rules never add tokens.
* `Grammar.exact_pattern`, `Grammar.exact_term`, `Grammar.exact_declaration` — a rule that finds
  nothing leaves the tape as it was, and one that finds something leaves fewer tokens.
-/

set_option autoImplicit false

namespace FrontEnd

/-! ## Definitions -/

/-- What is in front of a tape: nothing yet, a token, or nothing any more. Where no token is in
front, the tape stands at a place. -/
inductive Tape.Front where
  | unstarted (place : Location)
  | ready (token : Token)
  | ended (place : Location)

/-- A feed over a finished list of tokens; `stop` is where the input ends, or the fault that comes
behind the last token. -/
structure Tape where
  front : Tape.Front
  coming : List Token
  stop : Except Fault Location

namespace Tape

def lookahead (tape : Tape) : Lookahead :=
  match tape.front with
  | .unstarted _ => .unstarted
  | .ready token => .ready token
  | .ended _ => .ended

def location (tape : Tape) : Location :=
  match tape.front with
  | .unstarted place => place
  | .ready token => token.location
  | .ended place => place

/-- Brings the next token to the front. At the end nothing changes any more. -/
def advance (tape : Tape) : EStateM.Result Fault Tape Location :=
  match tape.front with
  | .ended place => .ok place tape
  | _ =>
      match tape.coming, tape.stop with
      | token :: rest, _ => .ok token.location { tape with front := .ready token, coming := rest }
      | [], .error fault => .error fault tape
      | [], .ok place => .ok place { tape with front := .ended place }

theorem advance_of_ne_ended {tape : Tape} (h : ∀ place, tape.front ≠ .ended place) :
    tape.advance =
      match tape.coming, tape.stop with
      | token :: rest, _ => .ok token.location { tape with front := .ready token, coming := rest }
      | [], .error fault => .error fault tape
      | [], .ok place => .ok place { tape with front := .ended place } := by
  unfold advance
  split
  · rename_i place hfront
    exact absurd hfront (h place)
  · rfl

instance : Feed Tape where
  Mark := Tape
  lookahead := lookahead
  location := location
  left := fun tape => tape.coming.length + 1
  advance := advance
  mark := id
  reset := fun mark _ => mark
  note := fun _ tape => tape

/-- The number of tokens in front and to come. -/
def size (tape : Tape) : Nat :=
  match tape.front with
  | .ready _ => tape.coming.length + 1
  | _ => tape.coming.length

theorem size_le_left (tape : Tape) : tape.size ≤ Feed.left tape := by
  unfold size
  show _ ≤ tape.coming.length + 1
  split <;> omega

/-- A tape that was begun and whose tokens are followed by the end of the input. -/
def running (place : Location) : List Token → Tape
  | [] => ⟨.ended place, [], .ok place⟩
  | token :: rest => ⟨.ready token, rest, .ok place⟩

@[simp] theorem size_running (place : Location) (tokens : List Token) :
    (running place tokens).size = tokens.length := by
  cases tokens <;> rfl

/-! ## Relations that last on tapes -/

theorem size_advance_le (tape : Tape) : (Rule.after Tape.advance tape).size ≤ tape.size := by
  obtain ⟨front, coming, stop⟩ := tape
  cases front with
  | ended place => exact Nat.le_refl _
  | unstarted place =>
    cases coming with
    | cons token rest => exact Nat.le_refl _
    | nil => cases stop <;> exact Nat.le_refl _
  | ready token =>
    cases coming with
    | cons token rest => exact Nat.le_succ _
    | nil => cases stop <;> simp [Rule.after, advance, size]

/-- Rules never add tokens. -/
theorem lasting_size : Feed.Lasting fun tape left : Tape => left.size ≤ tape.size where
  refl _ := Nat.le_refl _
  trans h₁ h₂ := Nat.le_trans h₂ h₁
  advance := size_advance_le
  note _ _ := Nat.le_refl _
  rewind _ := Nat.le_refl _

end Tape

/-! ## Progress on tapes -/

namespace Rule

variable {α : Type}

/-- At a tape, a rule that finds nothing leaves the tape as it was, and one that finds something
leaves fewer tokens. -/
def ExactAt (tape : Tape) (rule : Rule Tape (Option α)) : Prop :=
  ∀ (left : Tape) (found : Option α), rule tape = .ok found left →
    match found with
    | none => left = tape
    | some _ => left.size < tape.size

/-- A rule that finds nothing touches nothing, and one that finds something makes progress. -/
def Exact (rule : Rule Tape (Option α)) : Prop :=
  ∀ tape, ExactAt tape rule

theorem advance_size {tape left : Tape} {token : Token} {place : Location}
    (hfront : tape.front = .ready token)
    (h : (advance : Rule Tape Location) tape = .ok place left) : left.size < tape.size := by
  obtain ⟨front, coming, stop⟩ := tape
  cases hfront
  have hadvance : Tape.advance ⟨.ready token, coming, stop⟩ = .ok place left := h
  cases coming with
  | cons token rest =>
    cases hadvance
    exact Nat.lt_succ_self _
  | nil =>
    cases stop with
    | error fault => cases hadvance
    | ok stop =>
      cases hadvance
      exact Nat.lt_succ_self _

/-- The tokens that are left are no more than there were. -/
abbrev NoLonger (tape left : Tape) : Prop := left.size ≤ tape.size

theorem front_of_lookahead {tape : Tape} {token : Token}
    (h : Feed.lookahead tape = .ready token) : tape.front = .ready token := by
  obtain ⟨front, coming, stop⟩ := tape
  cases front <;> cases h
  rfl

/-- On a tape, progress is measured by the number of tokens. -/
theorem Exact.of_progresses {rule : Rule Tape (Option α)} (h : Progresses NoLonger rule) :
    Exact rule := by
  intro tape left found hrule
  have hfound := h tape left found hrule
  cases found with
  | none => exact hfound
  | some item =>
    obtain ⟨token, place, next, hready, hadvance, hle⟩ := hfound
    exact Nat.lt_of_le_of_lt hle (advance_size (front_of_lookahead hready) hadvance)

end Rule

namespace Grammar

open Rule Tape

theorem exact_pattern (budget : Nat) : Exact (pattern budget) :=
  .of_progresses (progresses_pattern lasting_size budget)

theorem exact_term (budget : Nat) : Exact (term budget) :=
  .of_progresses (progresses_term lasting_size budget)

theorem exact_declaration (budget : Nat) : Exact (declaration budget) :=
  .of_progresses (progresses_declaration lasting_size budget)

end Grammar

end FrontEnd
