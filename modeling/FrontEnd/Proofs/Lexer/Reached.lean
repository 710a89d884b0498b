import FrontEnd.Proofs.Lexer.View
import Mathlib.Logic.Function.Iterate

/-!
# Lexers that operations lead to

* `Lexer.Reached` — the lexers that come from one lexer by advances, failed ones among them, notes
  in the log, and resets to marks that were taken on the way.
* `Lexer.Reached.exists_view` — each of them looks as if nothing but advances had happened.
* `Lexer.lasting_reached` — no rule leads out of them.
-/

set_option autoImplicit false

namespace FrontEnd

namespace Lexer

/-- The lexer after an advance, whether or not the advance failed. -/
def advanced (lexer : Lexer) : Lexer :=
  Rule.after Lexer.advance lexer

/-- What an advance answers and leaves, seen from the view alone. -/
theorem advance_spec {lexer : Lexer} (h : lexer.brackets.Sound) :
    lexer.view.advance lexer.file =
        (Rule.answer Lexer.advance lexer, lexer.advanced.view) ∧
      lexer.advanced.brackets.Sound ∧ lexer.Grows lexer.advanced := by
  have hview := advance_view h
  unfold advanced Rule.answer Rule.after
  cases ha : lexer.advance with
  | ok location after =>
    rw [ha] at hview
    exact hview
  | error fault after =>
    rw [ha] at hview
    exact hview

/-- Advances of lexers that look alike answer the same and leave lexers that look alike. -/
theorem advance_congr {lexer lexer' : Lexer} (h : lexer.brackets.Sound)
    (h' : lexer'.brackets.Sound) (hfile : lexer.file = lexer'.file)
    (hview : lexer.view = lexer'.view) :
    Rule.answer Lexer.advance lexer = Rule.answer Lexer.advance lexer' ∧
      lexer.advanced.view = lexer'.advanced.view := by
  have hseen := (advance_spec h).1
  rw [hfile, hview, (advance_spec h').1, Prod.mk.injEq] at hseen
  exact ⟨hseen.1.symm, hseen.2.symm⟩

/-! ## Going back to a mark -/

/-- **A reset brings back the view that the mark was taken of**, however much the arena has grown in
the meantime. -/
theorem view_reset {marked lexer : Lexer} (hm : marked.brackets.Sound) (hl : lexer.brackets.Sound)
    (hg : marked.Grows lexer) : (lexer.reset marked.mark).view = marked.view := by
  have hframes := Brackets.openFrames_putBack hm hl hg.frames
  simp only [view, reset, mark, Brackets.stack] at hframes ⊢
  rw [hframes]

theorem sound_reset {marked lexer : Lexer} (hm : marked.brackets.Sound)
    (hl : lexer.brackets.Sound) (hg : marked.Grows lexer) :
    (lexer.reset marked.mark).brackets.Sound :=
  hm.putBack hl hg.frames

/-- Nothing that stays is changed by a reset. -/
theorem Grows.reset {marked lexer : Lexer} (h : marked.Grows lexer) (mark : Mark) :
    marked.Grows (lexer.reset mark) :=
  ⟨h.file, h.size, h.frames⟩

/-! ## Passes -/

/-- The answers of a number of advances, and what is seen after each of them. -/
def pass : Nat → Lexer → List (Except Fault Location × View)
  | 0, _ => []
  | n + 1, lexer => (Rule.answer Lexer.advance lexer, lexer.advanced.view) :: pass n lexer.advanced

/-- A pass depends on the view alone. -/
theorem pass_congr : ∀ (n : Nat) {lexer lexer' : Lexer}, lexer.brackets.Sound →
    lexer'.brackets.Sound → lexer.file = lexer'.file → lexer.view = lexer'.view →
      pass n lexer = pass n lexer'
  | 0, _, _, _, _, _, _ => rfl
  | n + 1, lexer, lexer', h, h', hfile, hview => by
    obtain ⟨hanswer, hadvanced⟩ := advance_congr h h' hfile hview
    obtain ⟨-, hsound, hgrows⟩ := advance_spec h
    obtain ⟨-, hsound', hgrows'⟩ := advance_spec h'
    have hfiles : lexer.advanced.file = lexer'.advanced.file := by
      rw [hgrows.file, hgrows'.file, hfile]
    rw [pass, pass, hanswer, hadvanced, pass_congr n hsound hsound' hfiles hadvanced]

/-- Behind a reset a pass is the pass from where the mark was taken. -/
theorem pass_reset {marked lexer : Lexer} (hm : marked.brackets.Sound) (hl : lexer.brackets.Sound)
    (hg : marked.Grows lexer) (n : Nat) : pass n (lexer.reset marked.mark) = pass n marked :=
  pass_congr n (sound_reset hm hl hg) hm hg.file (view_reset hm hl hg)

/-! ## Reached lexers -/

/-- The lexers that come from `root` by advances, notes and resets to marks of earlier ones. -/
inductive Reached (root : Lexer) : Lexer → Prop
  | root : Reached root root
  | advance {lexer : Lexer} : Reached root lexer → Reached root lexer.advanced
  | note {lexer : Lexer} (event : Event) : Reached root lexer → Reached root (lexer.note event)
  | reset {marked lexer : Lexer} : Reached root marked → Reached root lexer →
      marked.Grows lexer → Reached root (lexer.reset marked.mark)

/-- The arenas of reached lexers are sound and hold the frames of the first one. -/
theorem Reached.sound {root lexer : Lexer} (hroot : root.brackets.Sound)
    (h : Reached root lexer) : lexer.brackets.Sound ∧ root.Grows lexer := by
  induction h with
  | root => exact ⟨hroot, .refl _⟩
  | advance _ ih =>
    obtain ⟨-, hsound, hgrows⟩ := advance_spec ih.1
    exact ⟨hsound, ih.2.trans hgrows⟩
  | note _ _ ih => exact ⟨ih.1, ih.2.file, ih.2.size, ih.2.frames⟩
  | reset _ _ hg ihm ihl => exact ⟨sound_reset ihm.1 ihl.1 hg, ihl.2.reset _⟩

theorem reached_iterate (root : Lexer) (n : Nat) : Reached root (advanced^[n] root) := by
  induction n with
  | zero => exact .root
  | succ n ih =>
    rw [Function.iterate_succ_apply']
    exact .advance ih

/-- **Every reached lexer looks like the first one after a number of advances.** -/
theorem Reached.exists_view {root lexer : Lexer} (hroot : root.brackets.Sound)
    (h : Reached root lexer) : ∃ n, lexer.view = (advanced^[n] root).view := by
  induction h with
  | root => exact ⟨0, rfl⟩
  | advance hl ih =>
    obtain ⟨n, hn⟩ := ih
    obtain ⟨hsound, hgrows⟩ := hl.sound hroot
    obtain ⟨hsound', hgrows'⟩ := (reached_iterate root n).sound hroot
    refine ⟨n + 1, ?_⟩
    rw [Function.iterate_succ_apply']
    exact (advance_congr hsound hsound' (by rw [hgrows.file, hgrows'.file]) hn).2
  | note _ _ ih => exact ih
  | reset hm hl hg ihm ihl =>
    obtain ⟨n, hn⟩ := ihm
    exact ⟨n, by rw [view_reset (hm.sound hroot).1 (hl.sound hroot).1 hg, hn]⟩

/-- Between a reached lexer and what an operation makes of it the frames last, and that is reached
again. -/
theorem lasting_reached {root : Lexer} (hroot : root.brackets.Sound) :
    Feed.Lasting fun lexer after : Lexer =>
      Reached root lexer → lexer.Grows after ∧ Reached root after where
  refl lexer h := ⟨.refl lexer, h⟩
  trans h₁ h₂ h := ⟨(h₁ h).1.trans (h₂ (h₁ h).2).1, (h₂ (h₁ h).2).2⟩
  advance _ h := ⟨(advance_spec (h.sound hroot).1).2.2, .advance h⟩
  note event _ h := ⟨⟨rfl, rfl, .refl _⟩, .note event h⟩
  rewind h hm := ⟨(h hm).1.reset _, .reset hm (h hm).2 (h hm).1⟩

end Lexer

end FrontEnd
