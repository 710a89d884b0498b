import FrontEnd.Lexer.Brackets

/-!
# The brackets as a stack

Frames are only ever added to the arena, and the handle of the innermost bracket moves back and
forth in it. What is open is nevertheless a plain stack of places and kinds:

* `Brackets.Sound` — every handle points into the arena and every parent to an older frame; opening
  and closing keep this, and so does any older handle that is put back.
* `Brackets.stack` — the open brackets, innermost first, without their indices. Opening pushes,
  closing pops, and the stack of a handle does not change when the arena grows.
-/

set_option autoImplicit false

namespace FrontEnd

/-! ## Arenas -/

/-- A handle names no frame or one of the arena. -/
def HandleIn (frames : Array Frame) (handle : Option Nat) : Prop :=
  ∀ i ∈ handle, i < frames.size

/-- The parent of every frame is an older frame. -/
def Rooted (frames : Array Frame) : Prop :=
  ∀ (i : Nat) (frame : Frame), frames[i]? = some frame → ∀ p ∈ frame.parent, p < i

/-- An arena holds all frames of another one at their places. -/
def Extends (older newer : Array Frame) : Prop :=
  ∀ (i : Nat) (frame : Frame), older[i]? = some frame → newer[i]? = some frame

theorem Extends.refl (frames : Array Frame) : Extends frames frames :=
  fun _ _ h => h

theorem Extends.trans {frames₁ frames₂ frames₃ : Array Frame} (h₁ : Extends frames₁ frames₂)
    (h₂ : Extends frames₂ frames₃) : Extends frames₁ frames₃ :=
  fun i frame h => h₂ i frame (h₁ i frame h)

theorem Extends.push (frames : Array Frame) (frame : Frame) :
    Extends frames (frames.push frame) := by
  intro i found h
  have hi : i < frames.size := by
    rw [Array.getElem?_eq_some_iff] at h
    exact h.1
  rw [Array.getElem?_push_lt hi, ← h, Array.getElem?_eq_getElem hi]

theorem Extends.size_le {older newer : Array Frame} (h : Extends older newer) :
    older.size ≤ newer.size := by
  by_cases h0 : older.size = 0
  · omega
  · have hlast : older.size - 1 < older.size := by omega
    have := h _ _ (Array.getElem?_eq_getElem hlast)
    rw [Array.getElem?_eq_some_iff] at this
    obtain ⟨hlt, -⟩ := this
    omega

theorem HandleIn.extend {older newer : Array Frame} {handle : Option Nat}
    (h : HandleIn older handle) (he : Extends older newer) : HandleIn newer handle :=
  fun i hi => Nat.lt_of_lt_of_le (h i hi) he.size_le

theorem Rooted.push {frames : Array Frame} (h : Rooted frames) (frame : Frame)
    (hparent : HandleIn frames frame.parent) : Rooted (frames.push frame) := by
  intro i found hi p hp
  rw [Array.getElem?_push] at hi
  split at hi
  · rename_i hsize
    cases hi
    rw [hsize]
    exact hparent p hp
  · exact h i found hi p hp

/-! ## Chains of frames -/

/-- A chain does not depend on the bound once the bound exceeds the handle. -/
theorem Brackets.outwards_enough {frames : Array Frame} (hr : Rooted frames) :
    ∀ (depth depth' : Nat) (handle : Option Nat), (∀ i ∈ handle, i < depth) →
      (∀ i ∈ handle, i < depth') → outwards frames depth handle = outwards frames depth' handle
  | 0, 0, _, _, _ => rfl
  | 0, depth' + 1, handle, h, _ => by
    cases handle with
    | none => rfl
    | some i => exact absurd (h i rfl) (by omega)
  | depth + 1, 0, handle, _, h' => by
    cases handle with
    | none => rfl
    | some i => exact absurd (h' i rfl) (by omega)
  | depth + 1, depth' + 1, handle, h, h' => by
    cases handle with
    | none => rfl
    | some i =>
      simp only [outwards, Option.bind_some]
      cases hf : frames[i]? with
      | none => rfl
      | some frame =>
        have hp : ∀ p ∈ frame.parent, p < i := hr i frame hf
        have hi := h i rfl
        have hi' := h' i rfl
        simp only
        rw [outwards_enough hr depth depth' frame.parent
          (fun p hm => by have := hp p hm; omega) (fun p hm => by have := hp p hm; omega)]

/-- A chain is the same in every arena that holds the frames of the first. -/
theorem Brackets.outwards_extends {older newer : Array Frame} (hr : Rooted older)
    (he : Extends older newer) :
    ∀ (depth : Nat) (handle : Option Nat), HandleIn older handle →
      outwards newer depth handle = outwards older depth handle
  | 0, _, _ => rfl
  | depth + 1, .none, _ => rfl
  | depth + 1, some i, h => by
    have hi := h i rfl
    have hf := Array.getElem?_eq_getElem hi
    have hp : HandleIn older older[i].parent :=
      fun p hm => Nat.lt_trans (hr i _ hf p hm) hi
    simp only [outwards, Option.bind_some, hf, he i _ hf]
    rw [outwards_extends hr he depth _ hp]

/-! ## Stacks -/

namespace Brackets

/-- The handle points into the arena and every parent to an older frame. -/
structure Sound (brackets : Brackets) : Prop where
  innermost : HandleIn brackets.frames brackets.innermost
  rooted : Rooted brackets.frames

/-- The open brackets, innermost first, with the places where they were opened. -/
def stack (brackets : Brackets) : List (Location × Bracket) :=
  brackets.openFrames.map fun frame => (frame.location, frame.bracket)

theorem sound_none : Brackets.none.Sound := by
  refine ⟨?_, ?_⟩
  · intro i hi
    cases hi
  · intro i frame h
    simp [Brackets.none] at h

/-- A handle that was right for an older arena can be put back. -/
theorem Sound.putBack {older newer : Brackets} (ho : older.Sound) (hn : newer.Sound)
    (he : Extends older.frames newer.frames) :
    Brackets.Sound { newer with innermost := older.innermost } :=
  ⟨ho.innermost.extend he, hn.rooted⟩

/-- Putting a handle back opens exactly the brackets that were open when it was taken. -/
theorem openFrames_putBack {older newer : Brackets} (ho : older.Sound) (hn : newer.Sound)
    (he : Extends older.frames newer.frames) :
    openFrames { newer with innermost := older.innermost } = older.openFrames := by
  simp only [openFrames]
  rw [outwards_enough hn.rooted newer.frames.size older.frames.size older.innermost
    (ho.innermost.extend he) ho.innermost]
  exact outwards_extends ho.rooted he _ _ ho.innermost

theorem sound_opened {brackets : Brackets} (h : brackets.Sound) (location : Location)
    (bracket : Bracket) : (brackets.opened location bracket).Sound := by
  refine ⟨?_, h.rooted.push _ h.innermost⟩
  intro i hi
  cases hi
  simp [opened]

/-- The chain of a valid handle begins with its frame and goes on with the chain of the parent. -/
theorem openFrames_of_top? {brackets : Brackets} (h : brackets.Sound) {frame : Frame}
    (ht : brackets.top? = some frame) :
    brackets.openFrames = frame :: openFrames { brackets with innermost := frame.parent } ∧
      Brackets.Sound { brackets with innermost := frame.parent } := by
  obtain ⟨i, hi, hf⟩ : ∃ i, brackets.innermost = some i ∧ brackets.frames[i]? = some frame := by
    simpa [top?, Option.bind_eq_some_iff] using ht
  have hlt : i < brackets.frames.size := h.innermost i hi
  have hparent : ∀ p ∈ frame.parent, p < i := h.rooted i frame hf
  obtain ⟨depth, hdepth⟩ : ∃ depth, brackets.frames.size = depth + 1 :=
    ⟨brackets.frames.size - 1, by omega⟩
  refine ⟨?_, fun p hp => Nat.lt_trans (hparent p hp) hlt, h.rooted⟩
  have hstep : brackets.openFrames = frame :: outwards brackets.frames depth frame.parent := by
    simp only [openFrames, hdepth, hi, outwards, Option.bind_some, hf]
  rw [hstep, openFrames]
  congr 1
  exact outwards_enough h.rooted depth brackets.frames.size _
    (fun p hp => by have := hparent p hp; omega) (fun p hp => Nat.lt_trans (hparent p hp) hlt)

theorem openFrames_opened {brackets : Brackets} (h : brackets.Sound) (location : Location)
    (bracket : Bracket) :
    (brackets.opened location bracket).openFrames =
      ⟨location, bracket, brackets.innermost⟩ :: brackets.openFrames := by
  obtain ⟨hframes, -⟩ :=
    openFrames_of_top? (sound_opened h location bracket) (top?_opened brackets location bracket)
  rw [hframes, openFrames_putBack h (sound_opened h location bracket) (Extends.push _ _)]

theorem top?_eq_none_iff {brackets : Brackets} (h : brackets.Sound) :
    brackets.top? = .none ↔ brackets.innermost = .none := by
  cases hi : brackets.innermost with
  | none => simp [top?, hi]
  | some i =>
    have hlt : i < brackets.frames.size := h.innermost i hi
    simp [top?, hi, hlt]

theorem openFrames_eq_nil_iff {brackets : Brackets} (h : brackets.Sound) :
    brackets.openFrames = [] ↔ brackets.innermost = .none := by
  rw [← top?_eq_none_iff h]
  constructor
  · intro hnil
    cases ht : brackets.top? with
    | none => rfl
    | some frame =>
      rw [(openFrames_of_top? h ht).1] at hnil
      cases hnil
  · intro ht
    rw [top?_eq_none_iff h] at ht
    simp only [openFrames, ht]
    cases brackets.frames.size <;> rfl

/-! ## Opening and closing on stacks -/

@[simp] theorem stack_opened {brackets : Brackets} (h : brackets.Sound) (location : Location)
    (bracket : Bracket) :
    (brackets.opened location bracket).stack = (location, bracket) :: brackets.stack := by
  simp [stack, openFrames_opened h]

/-- What closing does to a stack. -/
def popped (stack : List (Location × Bracket)) (bracket : Bracket) :
    Except Cause (List (Location × Bracket)) :=
  match stack with
  | [] => .error (.unopened bracket)
  | (location, top) :: outer =>
      if top = bracket then .ok outer else .error (.mismatched bracket top location)

/-- **Closing a bracket pops the stack**, and fails where popping fails, for the same reason. The
arena stays as it is. -/
theorem closed_spec {brackets : Brackets} (h : brackets.Sound) (bracket : Bracket) :
    match brackets.closed bracket with
    | .ok after =>
        popped brackets.stack bracket = .ok after.stack ∧ after.Sound ∧
          after.frames = brackets.frames
    | .error cause => popped brackets.stack bracket = .error cause := by
  unfold closed
  cases ht : brackets.top? with
  | none =>
    have hnil := (openFrames_eq_nil_iff h).2 ((top?_eq_none_iff h).1 ht)
    simp [stack, hnil, popped]
  | some frame =>
    obtain ⟨hframes, hsound⟩ := openFrames_of_top? h ht
    by_cases hb : frame.bracket = bracket
    · simp [hb, stack, hframes, popped, hsound]
    · simp [hb, stack, hframes, popped]

end Brackets

end FrontEnd
