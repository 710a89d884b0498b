import FrontEnd.Proofs.Session.Rollback
import Mathlib.Data.List.Perm.Subperm
import Mathlib.Logic.Relation

/-!
# The arena of frames in sessions

Every opened bracket adds a frame to the arena, and resets move the handle of the innermost bracket
back while the arena keeps growing. So parents point to arbitrary older frames, and a mark may be
put back long after it was taken. No handle ever leaves the arena, and the way outwards from any of
them ends.

* `Marked.Step` — one operation on a lexer with all marks that were taken of it.
* `Marked.Step.wellFounded`, `Marked.Run.wellFounded` — an operation keeps all handles inside the
  arena and changes no frame, and so does a run of operations.
* `Marked.lasting_leadsTo` — what a rule does to a lexer is such a run, and so is any command.
* `Brackets.Chain` — the frames from a handle outwards, without a bound.
* `Session.after_wellFounded` — the arena after all commands, and at every point in between.
-/

set_option autoImplicit false

namespace FrontEnd

/-! ## The way outwards -/

namespace Brackets

/-- The indices of the frames from a handle outwards: each is in the arena, and behind the last one
there is none. -/
inductive Chain (frames : Array Frame) : Option Nat → List Nat → Prop
  | outside : Chain frames .none []
  | inside {i : Nat} {frame : Frame} {outer : List Nat} (hframe : frames[i]? = some frame)
      (houter : Chain frames frame.parent outer) : Chain frames (some i) (i :: outer)

variable {frames : Array Frame} {handle : Option Nat} {indices : List Nat}

/-- From a handle in the arena the way outwards ends. -/
theorem exists_chain (hrooted : Rooted frames) (hin : HandleIn frames handle) :
    ∃ indices, Chain frames handle indices := by
  cases handle with
  | none => exact ⟨[], .outside⟩
  | some i =>
    -- the parents are older and older frames
    induction i using Nat.strongRecOn with
    | _ i ih =>
      obtain ⟨frame, hframe⟩ : ∃ frame, frames[i]? = some frame :=
        ⟨_, Array.getElem?_eq_getElem (hin i rfl)⟩
      cases hparent : frame.parent with
      | none => exact ⟨[i], .inside hframe (hparent ▸ .outside)⟩
      | some p =>
        have hp : p < i := hrooted i _ hframe p hparent
        have hinner : HandleIn frames (some p) := by
          rintro _ ⟨⟩
          exact Nat.lt_trans hp (hin i rfl)
        obtain ⟨outer, houter⟩ := ih p hp hinner
        exact ⟨i :: outer, .inside hframe (hparent ▸ houter)⟩

/-- What lies outwards is older. -/
theorem Chain.lt (hrooted : Rooted frames) (h : Chain frames handle indices) {bound : Nat}
    (hbound : ∀ i ∈ handle, i < bound) : ∀ i ∈ indices, i < bound := by
  induction h generalizing bound with
  | outside => exact fun _ hi => nomatch hi
  | @inside i frame outer hframe houter ih =>
    have hi : i < bound := hbound i rfl
    intro index hindex
    rcases List.mem_cons.mp hindex with rfl | houter
    · exact hi
    · exact Nat.lt_trans (ih (hrooted i frame hframe) index houter) hi

theorem Chain.pairwise (hrooted : Rooted frames) (h : Chain frames handle indices) :
    indices.Pairwise (· > ·) := by
  induction h with
  | outside => exact .nil
  | inside hframe houter ih => exact .cons (houter.lt hrooted (hrooted _ _ hframe)) ih

/-- The frames outwards with a bound are those without one, if the bound is their number. -/
theorem Chain.outwards_eq (h : Chain frames handle indices) {depth : Nat}
    (hdepth : indices.length ≤ depth) :
    (outwards frames depth handle).map some = indices.map (frames[·]?) := by
  induction h generalizing depth with
  | outside => cases depth <;> rfl
  | inside hframe houter ih =>
    obtain ⟨depth, rfl⟩ := Nat.exists_eq_succ_of_ne_zero
      (Nat.ne_of_gt (Nat.lt_of_lt_of_le (Nat.succ_pos _) hdepth))
    have hrest := ih (Nat.le_of_succ_le_succ hdepth)
    simp only [outwards, Option.bind_some, hframe, List.map_cons, hrest]

/-- **The open brackets are all frames outwards**, none of them twice. -/
theorem Sound.exists_chain {brackets : Brackets} (h : brackets.Sound) :
    ∃ indices, Chain brackets.frames brackets.innermost indices ∧ indices.Nodup ∧
      brackets.openFrames.map some = indices.map (brackets.frames[·]?) := by
  obtain ⟨indices, hchain⟩ := Brackets.exists_chain h.rooted h.innermost
  have hpairwise := hchain.pairwise h.rooted
  have hnodup : indices.Nodup := hpairwise.imp Nat.ne_of_gt
  refine ⟨indices, hchain, hnodup, hchain.outwards_eq ?_⟩
  have hsubset : indices ⊆ List.range brackets.frames.size := fun i hi =>
    List.mem_range.mpr (hchain.lt h.rooted h.innermost i hi)
  simpa using (List.subperm_of_subset hnodup hsubset).length_le

/-- The handle of the innermost bracket is that of a frame. -/
theorem Sound.top?_eq {brackets : Brackets} (h : brackets.Sound) {i : Nat}
    (hi : brackets.innermost = some i) :
    ∃ frame, brackets.frames[i]? = some frame ∧ brackets.top? = some frame := by
  have hframe := Array.getElem?_eq_getElem (h.innermost i hi)
  exact ⟨_, hframe, by rw [top?, hi, Option.bind_some, hframe]⟩

end Brackets

/-! ## Operations -/

/-- A lexer with all marks that were taken of it, the newest first. -/
structure Marked where
  lexer : Lexer
  marks : List Lexer.Mark

namespace Marked

/-- The frames that were ever pushed. -/
abbrev frames (state : Marked) : Array Frame :=
  state.lexer.brackets.frames

/-- One operation: an advance, whether or not it fails, a note in the log, a mark, or a reset to any
of the marks. -/
inductive Step : Marked → Marked → Prop
  | advance (lexer : Lexer) (marks : List Lexer.Mark) : Step ⟨lexer, marks⟩ ⟨lexer.advanced, marks⟩
  | note (event : Event) (lexer : Lexer) (marks : List Lexer.Mark) :
      Step ⟨lexer, marks⟩ ⟨lexer.note event, marks⟩
  | mark (lexer : Lexer) (marks : List Lexer.Mark) :
      Step ⟨lexer, marks⟩ ⟨lexer, lexer.mark :: marks⟩
  | reset {mark : Lexer.Mark} {marks : List Lexer.Mark} (lexer : Lexer) (hmark : mark ∈ marks) :
      Step ⟨lexer, marks⟩ ⟨lexer.reset mark, marks⟩

/-- Any number of operations. -/
abbrev Run : Marked → Marked → Prop :=
  Relation.ReflTransGen Step

/-- Every handle is none or one of the arena, that of the innermost bracket and those of all marks,
and every parent is none or the index of an older frame. -/
structure WellFounded (state : Marked) : Prop where
  innermost : HandleIn state.frames state.lexer.brackets.innermost
  marks : ∀ mark ∈ state.marks, HandleIn state.frames mark.innermost
  parents : Rooted state.frames

variable {state next : Marked}

theorem WellFounded.sound (h : state.WellFounded) : state.lexer.brackets.Sound :=
  ⟨h.innermost, h.parents⟩

/-- **An operation keeps all handles in the arena**, and all frames as they are. -/
theorem Step.wellFounded (h : state.Step next) (hstate : state.WellFounded) :
    next.WellFounded ∧ Extends state.frames next.frames := by
  cases h with
  | advance lexer marks =>
    obtain ⟨-, hsound, hgrows⟩ := Lexer.advance_spec hstate.sound
    have hmarks : ∀ mark ∈ marks, HandleIn lexer.advanced.brackets.frames mark.innermost :=
      fun mark hmark => (hstate.marks mark hmark).extend hgrows.frames
    exact ⟨⟨hsound.innermost, hmarks, hsound.rooted⟩, hgrows.frames⟩
  | note event lexer marks => exact ⟨⟨hstate.innermost, hstate.marks, hstate.parents⟩, .refl _⟩
  | mark lexer marks =>
    refine ⟨⟨hstate.innermost, fun mark hmark => ?_, hstate.parents⟩, .refl _⟩
    rcases List.mem_cons.mp hmark with rfl | hmark
    · exact hstate.innermost
    · exact hstate.marks mark hmark
  | reset lexer hmark =>
    exact ⟨⟨hstate.marks _ hmark, hstate.marks, hstate.parents⟩, .refl _⟩

/-- **A run of operations keeps all handles in the arena**, and all frames as they are. -/
theorem Run.wellFounded (h : state.Run next) (hstate : state.WellFounded) :
    next.WellFounded ∧ Extends state.frames next.frames := by
  induction h with
  | refl => exact ⟨hstate, .refl _⟩
  | tail _ hstep ih =>
    obtain ⟨hnext, hextends⟩ := hstep.wellFounded ih.1
    exact ⟨hnext, ih.2.trans hextends⟩

theorem wellFounded_ofSource (file source : String) :
    (Marked.mk (.ofSource file source) []).WellFounded :=
  ⟨Brackets.sound_none.innermost, nofun, Brackets.sound_none.rooted⟩

/-! ## Rules and commands -/

/-- Operations lead from one lexer to another, whatever marks there were, and keep these. -/
def LeadsTo (lexer after : Lexer) : Prop :=
  ∀ marks, ∃ more, Run ⟨lexer, marks⟩ ⟨after, more ++ marks⟩

/-- **Whatever rules do is a run of operations**, in which each mark that a rule takes for itself is
one more mark. -/
theorem lasting_leadsTo : Feed.Lasting LeadsTo where
  refl _ _ := ⟨[], .refl⟩
  trans h₁ h₂ marks := by
    obtain ⟨more, hfirst⟩ := h₁ marks
    obtain ⟨more', hsecond⟩ := h₂ (more ++ marks)
    rw [← List.append_assoc] at hsecond
    exact ⟨more' ++ more, hfirst.trans hsecond⟩
  advance lexer marks := ⟨[], .single (.advance lexer marks)⟩
  note event lexer marks := ⟨[], .single (.note event lexer marks)⟩
  rewind {marked lexer} h marks := by
    obtain ⟨more, hrun⟩ := h (marked.mark :: marks)
    rw [List.append_cons] at hrun
    have hmark : marked.mark ∈ (more ++ [marked.mark]) ++ marks := by simp
    exact ⟨more ++ [marked.mark], (hrun.head (.mark marked marks)).tail (.reset lexer hmark)⟩

/-- A session stands at a state: that is its lexer, and its marks are among those of the state. -/
structure Holds (state : Marked) (session : Session) : Prop where
  lexer : state.lexer = session.lexer
  marks : ∀ mark ∈ session.marks, mark ∈ state.marks

variable {session : Session}

/-- A command is a run of operations. -/
theorem Holds.step (h : state.Holds session) (command : Command) :
    ∃ next, state.Run next ∧ next.Holds (session.step command).2 := by
  obtain ⟨lexer, marks⟩ := state
  obtain ⟨rfl, hmarks⟩ := h
  rcases session.step_cases command with hmark | ⟨mark, hm, hreset⟩ | hproceeds
  · rw [hmark]
    refine ⟨_, .single (.mark session.lexer marks), rfl, fun mark hmark => ?_⟩
    rcases Array.mem_push.mp hmark with hmark | rfl
    · exact List.mem_cons_of_mem _ (hmarks mark hmark)
    · exact List.mem_cons_self
  · rw [hreset]
    exact ⟨_, .single (.reset session.lexer (hmarks mark hm)), rfl, hmarks⟩
  · obtain ⟨more, hrun⟩ := hproceeds.lexer lasting_leadsTo marks
    refine ⟨_, hrun, rfl, fun mark hmark => ?_⟩
    rw [hproceeds.marks] at hmark
    exact List.mem_append_right more (hmarks mark hmark)

/-- Commands are a run of operations. -/
theorem Holds.after (h : state.Holds session) (commands : List Command) :
    ∃ next, state.Run next ∧ next.Holds (session.after commands) := by
  induction commands generalizing state session with
  | nil => exact ⟨state, .refl, h⟩
  | cons command commands ih =>
    obtain ⟨middle, hfirst, hmiddle⟩ := h.step command
    obtain ⟨next, hrest, hnext⟩ := ih hmiddle
    exact ⟨next, hfirst.trans hrest, hnext⟩

end Marked

namespace Session

/-- **The arena is always well founded**, after all commands, failed ones and resets among them, and
at every point in between. Commands are operations, each of which may go back to any mark taken so
far. After any operations the handle of the innermost bracket and those of all marks are none or in
the arena, every parent is older than its frame, and operations that follow change no frame. So a
bracket that is closed finds a frame, and the way outwards without a bound ends, comes to no frame
twice, and gives the open brackets. -/
theorem after_wellFounded (file source : String) :
    let start : Marked := ⟨.ofSource file source, []⟩
    (∀ before between : List Command, ∃ state later, start.Run state ∧ state.Run later ∧
      state.Holds ((ofSource file source).after before) ∧
      later.Holds (((ofSource file source).after before).after between)) ∧
    ∀ state, start.Run state →
      state.WellFounded ∧
      (∀ later, state.Run later → Extends state.frames later.frames) ∧
      (∀ i, state.lexer.brackets.innermost = some i →
        ∃ frame, state.frames[i]? = some frame ∧ state.lexer.brackets.top? = some frame) ∧
      ∃ indices, Brackets.Chain state.frames state.lexer.brackets.innermost indices ∧
        indices.Nodup ∧
        state.lexer.brackets.openFrames.map some = indices.map (state.frames[·]?) := by
  intro start
  constructor
  · intro before between
    have hstart : start.Holds (ofSource file source) :=
      ⟨rfl, fun _ hmark => by simp [ofSource] at hmark⟩
    obtain ⟨state, hrun, hstate⟩ := hstart.after before
    obtain ⟨later, hrun', hlater⟩ := hstate.after between
    exact ⟨state, later, hrun, hrun', hstate, hlater⟩
  · intro state hrun
    obtain ⟨hstate, -⟩ := hrun.wellFounded (Marked.wellFounded_ofSource file source)
    exact ⟨hstate, fun later hlater => (hlater.wellFounded hstate).2,
      fun i => hstate.sound.top?_eq, hstate.sound.exists_chain⟩

/-- Behind a reset the second bracket is opened once more: it gets a frame behind that of the third,
and its parent is the first. -/
theorem after_wellFounded_of_reset :
    let marked := (ofSource "m" "([(").after [.advance, .mark]
    let later := marked.after [.advance, .advance, .reset 0, .advance]
    let brackets := later.lexer.brackets
    brackets.frames.map (·.parent) = #[none, some 0, some 1, some 0] ∧
      brackets.innermost = some 3 ∧ Extends marked.lexer.brackets.frames brackets.frames ∧
      ∃ indices, Brackets.Chain brackets.frames (some 3) indices ∧ indices.Nodup ∧
        brackets.openFrames.map some = indices.map (brackets.frames[·]?) := by
  intro marked later brackets
  have hparents : brackets.frames.map (·.parent) = #[none, some 0, some 1, some 0] := by
    decide +kernel
  have hinnermost : brackets.innermost = some 3 := by decide +kernel
  obtain ⟨hruns, hstates⟩ := after_wellFounded "m" "([("
  obtain ⟨state, last, hrun, hrun', ⟨hstate, -⟩, ⟨hlast, -⟩⟩ :=
    hruns [.advance, .mark] [.advance, .advance, .reset 0, .advance]
  obtain ⟨-, hextends, -⟩ := hstates state hrun
  obtain ⟨-, -, -, hchain⟩ := hstates last (hrun.trans hrun')
  have hextends := hextends last hrun'
  have hbrackets : last.lexer.brackets = brackets := congrArg Lexer.brackets hlast
  have hbefore : state.lexer.brackets = marked.lexer.brackets := congrArg Lexer.brackets hstate
  rw [Marked.frames, Marked.frames, hbefore, hbrackets] at hextends
  rw [Marked.frames, hbrackets, hinnermost] at hchain
  exact ⟨hparents, hinnermost, hextends, hchain⟩

end Session

end FrontEnd
