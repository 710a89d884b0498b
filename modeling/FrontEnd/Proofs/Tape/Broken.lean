import FrontEnd.Proofs.Rules.Curbed
import FrontEnd.Proofs.Tape.Basic

/-!
# Tapes that break off

What stands behind the last token of a tape is not seen before the tokens are used up. So a tape
that breaks off with a fault is read, up to that fault, like every tape with the same tokens.

* `Tape.BreaksOff` — a tape that breaks off, and another one with its tokens.
* `Grammar.answer_file_breaksOff` — a file is read from both alike, or the fault is reported.
-/

set_option autoImplicit false

namespace FrontEnd

variable {fault : Fault} {tape other : Tape}

/-- A tape that breaks off with a fault, and one with the same tokens, whatever is behind them. -/
def Tape.BreaksOff (fault : Fault) (tape other : Tape) : Prop :=
  tape.stop = .error fault ∧ ∃ stop, other = { tape with stop := stop }

/-- Up to its fault, a tape that breaks off does what the other one does. -/
theorem Tape.curbing_breaksOff (fault : Fault) :
    Feed.Curbing (BreaksOff fault) fun found => found = fault where
  lookahead := by
    rintro tape _ ⟨-, stop, rfl⟩
    rfl
  location := by
    rintro tape _ ⟨-, stop, rfl⟩
    rfl
  left := by
    rintro tape _ ⟨-, stop, rfl⟩
    rfl
  advance := by
    rintro ⟨front, coming, _⟩ _ ⟨rfl, stop, rfl⟩
    cases front with
    | ended place => exact ⟨rfl, rfl, stop, rfl⟩
    | _ =>
      cases coming with
      | nil => exact .of_quits rfl
      | cons token rest => exact ⟨rfl, rfl, stop, rfl⟩
  note _ h := h
  rewind h _ := h

/-- **What is read from a tape that breaks off is read from every tape with its tokens**, unless its
fault is reported. -/
theorem Grammar.answer_file_breaksOff (budget : Nat) (h : tape.BreaksOff fault other) :
    Rule.answer (file budget) tape = .error fault ∨
      Rule.answer (file budget) other = Rule.answer (file budget) tape := by
  have hcurbs : Rule.Curbs (Tape.BreaksOff fault) (fun found => found = fault) (file budget)
      (file budget) :=
    curbs_file (Tape.curbing_breaksOff fault) (Nat.le_refl budget)
      fun hlt => absurd hlt (Nat.lt_irrefl _)
  rcases hcurbs.answer h with ⟨found, hfound, rfl⟩ | hsame
  · exact .inl hfound
  · exact .inr hsame

end FrontEnd
