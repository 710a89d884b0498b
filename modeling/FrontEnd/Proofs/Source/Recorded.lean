import FrontEnd.Proofs.Lexer.Tape
import FrontEnd.Proofs.Tape.Broken
import FrontEnd.Recording
import Mathlib.Data.List.Basic

/-!
# Reading a source is reading its recording

The tokens of a source can be listed before anything is read from them. Over the finished list, with
an index for a cursor, every rule does what it does over the lexer that scans them on demand.

* `Recording.showing` — a recording is shown by the tape of the tokens behind its index.
* `Tape.answer_file_restopped` — a fault that comes before the end of the tokens comes whatever
  fault is there.
* `Grammar.pass_of_no_arm` — what an attempt at an arm scanned is scanned again as it was.
* `parse_recorded` — what is parsed from a source is what is read from its recording.
-/

set_option autoImplicit false

namespace FrontEnd

/-! ## Recordings as tapes -/

namespace Recording

/-- The index is within the tokens, or one behind them where the input ends. -/
def Sound (recording : Recording) : Prop :=
  recording.taken ≤ recording.tokens.length ∨
    recording.taken = recording.tokens.length + 1 ∧ ∃ place, recording.stop = .ok place

def front (recording : Recording) : Tape.Front :=
  match recording.lookahead with
  | .unstarted => .unstarted recording.location
  | .ready token => .ready token
  | .ended => .ended recording.location

/-- What is in front of a recording, and its tokens behind the index. -/
def tape (recording : Recording) : Tape :=
  ⟨recording.front, recording.tokens.drop recording.taken, recording.stop⟩

theorem lookahead_tape (recording : Recording) :
    recording.tape.lookahead = recording.lookahead := by
  unfold tape front Tape.lookahead
  cases recording.lookahead <;> rfl

theorem location_tape (recording : Recording) :
    recording.tape.location = recording.location := by
  unfold tape front Tape.location
  cases h : recording.lookahead with
  | unstarted => rfl
  | ready token => simp [location, h]
  | ended => rfl

/-- Within the tokens the end was not reached. -/
theorem front_ne_ended {recording : Recording} (h : recording.taken ≤ recording.tokens.length)
    (place : Location) : recording.front ≠ .ended place := by
  have hlookahead : recording.lookahead ≠ .ended := by
    unfold lookahead
    cases htaken : recording.taken with
    | zero => simp
    | succ before =>
      have hbefore : before < recording.tokens.length := by omega
      simp [List.getElem?_eq_getElem hbefore]
  unfold front
  cases hl : recording.lookahead with
  | unstarted => simp
  | ready token => simp
  | ended => exact absurd hl hlookahead

/-- **An advance of a recording is an advance of its tape**, and leaves a sound one. -/
theorem advance_tape {recording : Recording} (h : recording.Sound) :
    match recording.advance with
    | .ok place next => recording.tape.advance = .ok place next.tape ∧ next.Sound
    | .error fault _ => recording.tape.advance = .error fault recording.tape := by
  obtain ⟨file, tokens, stop, taken⟩ := recording
  rcases h with hle | ⟨hend, place, hstop⟩
  · rw [Tape.advance_of_ne_ended (front_ne_ended hle)]
    rcases Nat.lt_or_eq_of_le hle with hlt | heq
    · have htoken : tokens[taken]? = some tokens[taken] := List.getElem?_eq_getElem hlt
      have hcoming : tokens.drop taken = tokens[taken] :: tokens.drop (taken + 1) :=
        List.drop_eq_getElem_cons hlt
      simp only [advance, htoken, tape, hcoming]
      refine ⟨?_, .inl hlt⟩
      simp [front, lookahead, htoken]
    · obtain rfl : taken = tokens.length := heq
      cases stop with
      | error fault => simp [advance, tape]
      | ok place =>
        simp only [advance, tape, List.getElem?_length, List.drop_length]
        refine ⟨?_, .inr ⟨rfl, place, rfl⟩⟩
        simp [front, lookahead, location]
  · -- At the end an advance changes nothing any more.
    obtain rfl : taken = tokens.length + 1 := hend
    obtain rfl : stop = .ok place := hstop
    have hnone : tokens[tokens.length + 1]? = none := List.getElem?_eq_none (Nat.le_succ _)
    simp only [advance, hnone]
    refine ⟨?_, .inr ⟨rfl, place, rfl⟩⟩
    simp [Tape.advance, tape, front, lookahead, location]

/-- An advance moves nothing but the index. -/
theorem taken_after_advance (recording : Recording) :
    { Rule.after Recording.advance recording with taken := recording.taken } = recording := by
  obtain ⟨file, tokens, stop, taken⟩ := recording
  unfold Rule.after advance
  dsimp only
  cases tokens[taken]? with
  | some token => rfl
  | none => cases stop <;> rfl

/-- A recording is shown by its tape. -/
def showing : Showing Recording where
  move := id
  shows recording tape := recording.Sound ∧ tape = recording.tape
  -- A mark is an index, and nothing but the index ever changes.
  follows marked after := { after with taken := marked.taken } = marked
  lasting :=
    { refl := fun _ => rfl
      trans := fun {first second third} h₁ h₂ => by rw [← h₁, ← h₂]
      advance := taken_after_advance
      note := fun _ _ => rfl
      rewind := fun {marked after} h => by
        show { after with taken := marked.taken } = marked
        exact h }
  lookahead := by
    rintro recording _ ⟨-, rfl⟩
    rw [lookahead_tape, Lookahead.relocate_id]
    rfl
  location := by
    rintro recording _ ⟨-, rfl⟩ -
    exact recording.location_tape
  left := by
    rintro recording _ ⟨-, rfl⟩
    have hlength : recording.tape.coming.length = recording.tokens.length - recording.taken :=
      List.length_drop
    have hsize : recording.tape.size ≤ recording.tape.coming.length + 1 :=
      recording.tape.size_le_left
    rw [hlength] at hsize
    exact hsize
  advance := by
    rintro recording _ ⟨hsound, rfl⟩
    have htape := advance_tape hsound
    show SameResult (MovedFault id) _ id recording.advance _
    cases ha : recording.advance with
    | ok place next =>
      rw [ha] at htape
      rw [htape.1]
      exact ⟨rfl, htape.2, rfl⟩
    | error fault next =>
      rw [ha] at htape
      rw [htape]
      exact (Fault.relocate_id fault).symm
  note _ h := h
  rewind := by
    rintro marked recording tape hshows hfollows
    have hreset : Feed.reset (Feed.mark marked) recording = marked := hfollows
    rwa [hreset]

theorem decls_eq_answer (budget : Nat) (recording : Recording) :
    recording.decls budget = Rule.answer (Grammar.file budget) recording := by
  unfold decls Rule.answer
  cases Grammar.file budget recording <;> rfl

/-- Reading a recording is reading its tape. -/
theorem decls_eq_tape (budget : Nat) {recording : Recording} (h : recording.Sound) :
    recording.decls budget = Rule.answer (Grammar.file budget) recording.tape := by
  rw [decls_eq_answer]
  exact Grammar.answer_file_eq showing rfl ⟨h, rfl⟩ budget

theorem sound_of_taken_eq_zero {recording : Recording} (h : recording.taken = 0) :
    recording.Sound :=
  .inl (by omega)

theorem taken_ofSource (file source : String) : (ofSource file source).taken = 0 := by
  unfold ofSource
  split <;> rfl

/-- The recording with a fault behind its last token. -/
def stopping (recording : Recording) (fault : Fault) : Recording :=
  { recording with stop := .error fault }

/-- The tape of a source is the tape of its recording. -/
theorem tape_ofSource (file source : String) :
    (ofSource file source).tape = sourceTape file source := by
  have htape := sourceTape_eq file source
  unfold ofSource
  generalize tokenize file source = result at htape
  obtain ⟨tokens, _ | fault, lexer⟩ := result <;>
  · rw [htape]
    rfl

theorem tape_stopping {recording : Recording} (h : recording.taken = 0) (fault : Fault) :
    (recording.stopping fault).tape = { recording.tape with stop := .error fault } := by
  simp [tape, front, lookahead, location, stopping, h]

end Recording

/-! ## Other faults at the end of the tokens -/

namespace Tape

variable (first second : Fault)

/-- Tapes that differ only in the faults behind their last tokens. -/
def Restopped (tape tape' : Tape) : Prop :=
  tape.stop = .error first ∧ tape' = { tape with stop := .error second }

variable {first second} {tape tape' : Tape}

/-- A fault that comes before the end of the tokens comes whatever fault is there. -/
theorem answer_file_restopped {budget : Nat} {found : Fault} (h : Restopped first second tape tape')
    (hfound : Rule.answer (Grammar.file budget) tape = .error found) (hne : found ≠ first) :
    Rule.answer (Grammar.file budget) tape' = .error found := by
  obtain ⟨hstop, hother⟩ := h
  rcases Grammar.answer_file_breaksOff budget ⟨hstop, _, hother⟩ with hfirst | hsame
  · rw [hfound] at hfirst
    exact absurd (Except.error.inj hfirst) hne
  · rw [hsame, hfound]

end Tape

/-! ## Attempts at arms -/

/-- **Where no arm was found, all that was tried is scanned again as it was**: the same answers, and
the same in front after each of them. -/
theorem Grammar.pass_of_no_arm {root lexer left : Lexer} (hroot : root.brackets.Sound)
    (hreached : Lexer.Reached root lexer) {budget bound : Nat}
    (h : armsUpTo (term budget) (pattern budget) bound lexer = .ok [] left) (n : Nat) :
    Lexer.pass n left = Lexer.pass n lexer := by
  cases bound with
  | zero =>
    cases h
    rfl
  | succ bound =>
    have hlasting := Lexer.lasting_reached hroot
    rw [armsUpTo] at h
    obtain ⟨start, _, hmark, h⟩ := Rule.bind_eq_ok.mp h
    cases hmark
    obtain ⟨_, skipped, hskip, h⟩ := Rule.bind_eq_ok.mp h
    obtain ⟨found, tried, hpattern, h⟩ := Rule.bind_eq_ok.mp h
    -- The lexer that was marked and the one where the attempt ended.
    have htried := keeps_pattern hlasting budget skipped
      ((Rule.keeps_skipSemicolons hlasting).of_ok (hlasting.refl lexer) hskip)
    rw [Rule.after_of_ok hpattern] at htried
    obtain ⟨hgrows, hreached'⟩ := htried hreached
    have hagain : Lexer.pass n (tried.reset lexer.mark) = Lexer.pass n lexer :=
      Lexer.pass_reset (hreached.sound hroot).1 (hreached'.sound hroot).1 hgrows n
    cases found with
    | none =>
      cases h
      exact hagain
    | some pattern =>
      obtain ⟨isArrow, _, hahead, h⟩ := Rule.bind_eq_ok.mp h
      rw [Rule.ahead_eq] at hahead
      cases hahead
      split at h
      · -- An arm that was read is among the answer.
        obtain ⟨_, _, -, h⟩ := Rule.bind_eq_ok.mp h
        obtain ⟨_, _, -, h⟩ := Rule.bind_eq_ok.mp h
        obtain ⟨_, _, -, h⟩ := Rule.bind_eq_ok.mp h
        cases h
      · cases h
        exact hagain

/-! ## Sources -/

/-- **Reading a source on demand is reading its finished list of tokens**, with an index for a
cursor. If the tokens end in a fault, a fault that comes before all of them are used up is the one
that is reported. And an attempt at an arm that is taken back changes nothing of what is scanned
afterwards. -/
theorem parse_recorded (file source : String) :
    parse file source = (Recording.ofSource file source).decls nestingBudget ∧
    (∀ last other found : Fault, (Recording.ofSource file source).stop = .error last →
      ((Recording.ofSource file source).stopping other).decls nestingBudget = .error found →
        found ≠ other → parse file source = .error found) ∧
    ∀ lexer left : Lexer, Lexer.Reached (.ofSource file source) lexer →
      ∀ budget bound : Nat,
        Grammar.armsUpTo (Grammar.term budget) (Grammar.pattern budget) bound lexer =
          .ok [] left → ∀ n, Lexer.pass n left = Lexer.pass n lexer := by
  have hzero := Recording.taken_ofSource file source
  have hparse : parse file source =
      Rule.answer (Grammar.file nestingBudget) (Recording.ofSource file source).tape := by
    rw [Recording.tape_ofSource]
    exact parse_eq_tape file source
  refine ⟨?_, fun last other found hlast hfound hne => ?_, ?_⟩
  · rw [hparse, Recording.decls_eq_tape _ (Recording.sound_of_taken_eq_zero hzero)]
  · have hstopping : ((Recording.ofSource file source).stopping other).taken = 0 := hzero
    rw [Recording.decls_eq_tape _ (Recording.sound_of_taken_eq_zero hstopping),
      Recording.tape_stopping hzero] at hfound
    rw [hparse]
    have hlast : (Recording.ofSource file source).tape.stop = .error last := hlast
    exact Tape.answer_file_restopped ⟨rfl, by rw [← hlast]⟩ hfound hne
  · intro lexer left hreached budget bound h
    exact Grammar.pass_of_no_arm Brackets.sound_none hreached h

/-- A file that begins with an operator is no declaration, whatever is wrong behind it. -/
theorem parse_recorded_of_unclosed :
    (Recording.ofSource "f" "= \"").stop =
        .error (.diagnostic ⟨⟨"f", 1, 2⟩, .unterminated, .error⟩) ∧
      parse "f" "= \"" = .error (.diagnostic ⟨⟨"f", 1, 0⟩,
        .unexpected Lexeme.assign.form (.words "a declaration"), .error⟩) :=
  ⟨rfl, (parse_recorded "f" "= \"").2.1 _ (.tooManyDigits 0) _ rfl rfl (by decide)⟩

end FrontEnd
