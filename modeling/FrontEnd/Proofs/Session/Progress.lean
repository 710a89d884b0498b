import FrontEnd.Proofs.Lexer.Advance
import FrontEnd.Proofs.Rules.Progress
import FrontEnd.Proofs.Session.Positions

/-!
# Progress in sessions

Whatever commands a lexer has gone through, its token in front ends before its cursor, also where a
failed advance or a reset left an old token there. So a rule that reads over the token in front only
comes to tokens behind it, wherever it goes back to later: a match that tries one arm too many goes
back to where it began that arm, and never to a token before its own.

* `Lexer.Onward` — what every rule keeps: tokens in front stay behind a position, and the input to
  read never grows.
* `Lexer.Advancing` — what it means that a rule touches nothing or makes progress.
* `Session.after_advancing` — declarations, patterns and terms do, after all commands.
-/

set_option autoImplicit false

namespace FrontEnd

/-! ## Definitions -/

/-- One token begins behind all characters of another one, of which there is at least one. -/
def Token.Precedes (file content : String) (first second : Token) : Prop :=
  ∃ start later, first.StandsAt file content start ∧ second.StandsAt file content later ∧
    first.text ≠ "" ∧ start + first.text.length ≤ later

namespace Lexer

/-- At a lexer, a rule that finds nothing leaves the lexer as it was, log and brackets included; one
that finds something leaves the end of the input or a later token in front; and a repetition of the
rule is the loop that has neither a bound nor a reset at its end. -/
structure Advancing {α : Type} (file content : String) (lexer : Lexer)
    (rule : Rule Lexer (Option α)) : Prop where
  none : ∀ left, rule lexer = .ok none left → left = lexer
  some : ∀ left item, rule lexer = .ok (some item) left →
    ∃ first, lexer.lookahead = .ready first ∧
      (left.lookahead = .ended ∨
        ∃ second, left.lookahead = .ready second ∧ first.Precedes file content second)
  many : Rule.Repeats rule lexer (Rule.many rule lexer)

/-- The token in front, if one is there, begins at or behind a position and ends before the cursor.
-/
def FrontBehind (file content : String) (pos : Nat) (lexer : Lexer) : Prop :=
  ∀ token, lexer.lookahead = .ready token → ∃ start, pos ≤ start ∧
    token.StandsAt file content start ∧ token.text ≠ "" ∧
    start + token.text.length ≤ lexer.cursor.pos

/-- The characters that an advance may read, with one for the end of the input. -/
def toRead (lexer : Lexer) : Nat :=
  if lexer.lookahead = .ended then 0 else lexer.left

theorem toRead_le_left (lexer : Lexer) : lexer.toRead ≤ lexer.left := by
  unfold toRead
  split <;> omega

theorem toRead_of_ended {lexer : Lexer} (h : lexer.lookahead = .ended) : lexer.toRead = 0 :=
  if_pos h

theorem toRead_of_going {lexer : Lexer} (h : lexer.lookahead ≠ .ended) :
    lexer.toRead = lexer.left :=
  if_neg h

/-! ## One advance -/

variable {file content : String} {lexer next : Lexer} {place : Location} {pos : Nat}

/-- The lexers that operations make of a source. -/
abbrev ReachedIn (file content : String) (lexer : Lexer) : Prop :=
  Reached (.ofSource file content) lexer

theorem ReachedIn.file_eq (h : ReachedIn file content lexer) : lexer.file = file :=
  (h.sound Brackets.sound_none).2.file

theorem ReachedIn.size_eq (h : ReachedIn file content lexer) :
    lexer.size = content.toList.length :=
  (h.sound Brackets.sound_none).2.size

theorem ReachedIn.of_advance (h : ReachedIn file content lexer)
    (ha : lexer.advance = .ok place next) : ReachedIn file content next := by
  rw [← show lexer.advanced = next from Rule.after_of_ok ha]
  exact h.advance

theorem FrontBehind.of_ended (h : lexer.lookahead = .ended) :
    lexer.FrontBehind file content pos := by
  intro token hready
  rw [h] at hready
  cases hready

theorem FrontBehind.mono {bound : Nat} (h : lexer.FrontBehind file content bound)
    (hle : pos ≤ bound) : lexer.FrontBehind file content pos := by
  intro token hready
  obtain ⟨start, hstart, hrest⟩ := h token hready
  exact ⟨start, Nat.le_trans hle hstart, hrest⟩

/-- The cursor may move on while the token in front stays. -/
theorem FrontBehind.move (h : lexer.FrontBehind file content pos)
    (hlook : next.lookahead = lexer.lookahead) (hcursor : lexer.cursor.pos ≤ next.cursor.pos) :
    next.FrontBehind file content pos := by
  intro token hready
  rw [hlook] at hready
  obtain ⟨start, hstart, hat, htext, hle⟩ := h token hready
  exact ⟨start, hstart, hat, htext, Nat.le_trans hle hcursor⟩

/-- The token that an advance goes over begins at or behind the cursor, and the cursor comes to
stand behind it. -/
theorem frontBehind_scanned (h : ReachedIn file content lexer) {c : Char} {rest : List Char}
    {lexeme : Lexeme} (hrest : lexer.nextCursor.rest = c :: rest)
    (hfound : (Scan.token c rest).found = .ok lexeme)
    (hcursor : next.cursor = lexer.nextCursor.move (Scan.token c rest).taken.length)
    (hlook : next.lookahead = .ready (View.tokenAt lexer.file lexer.nextCursor c rest lexeme)) :
    next.FrontBehind file content lexer.cursor.pos ∧ lexer.cursor.pos < next.cursor.pos := by
  have hstands : lexer.nextCursor.StandsIn content.toList := h.standsIn.move _
  have hat := View.tokenAt_stands lexer.file lexeme hstands hrest
  rw [h.file_eq] at hat hlook
  have htaken := (Scan.token_found c rest lexeme hfound).2
  have hlength := (Scan.token_taken_isPrefix c rest).length_le
  rw [← hrest] at hlength
  have hpos : next.cursor.pos = lexer.nextCursor.pos + (Scan.token c rest).taken.length := by
    rw [hcursor, Cursor.pos_move hlength]
  have hle : lexer.cursor.pos ≤ lexer.nextCursor.pos := Cursor.pos_le_move _ _
  have hsome := List.length_pos_iff.mpr htaken
  refine ⟨fun token hready => ?_, by omega⟩
  rw [hlook] at hready
  cases hready
  refine ⟨lexer.nextCursor.pos, hle, hat, ?_, ?_⟩
  · intro hempty
    exact htaken (String.ofList_eq_empty_iff.mp hempty)
  · simp [View.tokenAt, hpos]

/-- From a token in front, an advance comes to the end or to a token behind it, and leaves less to
read. -/
theorem advance_onward (h : ReachedIn file content lexer) {token : Token}
    (hready : lexer.lookahead = .ready token) (ha : lexer.advance = .ok place next) :
    next.lookahead ≠ .unstarted ∧ lexer.cursor.pos ≤ next.cursor.pos ∧
      next.FrontBehind file content lexer.cursor.pos ∧ next.toRead < lexer.toRead := by
  have hgoing : lexer.lookahead ≠ .ended := by simp [hready]
  have hleft : 0 < lexer.toRead := by
    rw [toRead_of_going hgoing]
    exact Nat.succ_pos _
  rcases cases_of_advance_ok ha with
    ⟨hended, -⟩ | ⟨-, rfl⟩ | ⟨c, rest, lexeme, -, hrest, hfound, hcursor, hlook⟩
  · exact absurd hended hgoing
  · exact ⟨nofun, Cursor.pos_le_move _ _, .of_ended rfl, by rwa [toRead_of_ended rfl]⟩
  · obtain ⟨hfront, hlt⟩ := frontBehind_scanned h hrest hfound hcursor hlook
    refine ⟨by simp [hlook], Nat.le_of_lt hlt, hfront, ?_⟩
    have hin := (h.of_advance ha).standsIn.pos_le
    rw [toRead_of_going hgoing, toRead_of_going (by simp [hlook]), left, left, h.size_eq,
      (h.of_advance ha).size_eq]
    omega

/-! ## What every rule keeps -/

/-- A lexer and one that operations made of it: a token in front is followed by a token or the end,
there is no more to read than there was, and where the token in front was behind a position, it
still is. -/
structure Onward (file content : String) (lexer after : Lexer) : Prop where
  reached : ReachedIn file content after
  grows : lexer.Grows after
  begun : lexer.lookahead ≠ .unstarted → after.lookahead ≠ .unstarted
  toRead : after.toRead ≤ lexer.toRead
  front : ∀ pos, pos ≤ lexer.cursor.pos → lexer.FrontBehind file content pos →
    pos ≤ after.cursor.pos ∧ after.FrontBehind file content pos

theorem Onward.refl (h : ReachedIn file content lexer) : Onward file content lexer lexer :=
  ⟨h, .refl _, id, Nat.le_refl _, fun _ hpos hfront => ⟨hpos, hfront⟩⟩

theorem Onward.trans {first second third : Lexer} (h₁ : Onward file content first second)
    (h₂ : Onward file content second third) : Onward file content first third where
  reached := h₂.reached
  grows := h₁.grows.trans h₂.grows
  begun := h₂.begun ∘ h₁.begun
  toRead := Nat.le_trans h₂.toRead h₁.toRead
  front pos hpos hfront := (h₁.front pos hpos hfront).elim (h₂.front pos)

/-- An advance leads onward, also where it fails: then the old token stays in front of a cursor that
has moved. -/
theorem Onward.of_advance (h : ReachedIn file content lexer) :
    Onward file content lexer lexer.advanced := by
  have hgrows := (advance_spec (h.sound Brackets.sound_none).1).2.2
  have hless : lexer.cursor.pos ≤ lexer.advanced.cursor.pos →
      lexer.advanced.left ≤ lexer.left := by
    intro hle
    rw [left, left, hgrows.size]
    omega
  cases ha : lexer.advance with
  | error fault next =>
    have hnext : lexer.advanced = next := Rule.after_of_error ha
    rw [hnext] at hgrows hless
    obtain ⟨c, rest, -, -, hafter, -⟩ := cases_of_advance_error ha
    have hlook : next.lookahead = lexer.lookahead := by rw [hafter]
    have hpos : lexer.cursor.pos ≤ next.cursor.pos := by
      rw [hafter]
      exact Nat.le_trans (Cursor.pos_le_move _ _) (Cursor.pos_le_move _ _)
    have hread : next.toRead ≤ lexer.toRead := by
      unfold Lexer.toRead
      rw [hlook]
      split
      · exact Nat.le_refl _
      · exact hless hpos
    have hreached : ReachedIn file content next := hnext ▸ h.advance
    rw [hnext]
    exact ⟨hreached, hgrows, by rw [hlook]; exact id, hread,
      fun pos hle hfront => ⟨Nat.le_trans hle hpos, hfront.move hlook hpos⟩⟩
  | ok place next =>
    have hnext : lexer.advanced = next := Rule.after_of_ok ha
    rw [hnext] at hgrows hless
    have hreached := h.of_advance ha
    rw [hnext]
    rcases cases_of_advance_ok ha with
      ⟨-, rfl⟩ | ⟨-, hfinish⟩ | ⟨c, rest, lexeme, hgoing, hrest, hfound, hcursor, hlook⟩
    · exact .refl h
    · have hended : next.lookahead = .ended := by rw [hfinish]; rfl
      have hpos : lexer.cursor.pos ≤ next.cursor.pos := by
        rw [hfinish]
        exact Cursor.pos_le_move _ _
      refine ⟨hreached, hgrows, by simp [hended], ?_, ?_⟩
      · rw [toRead_of_ended hended]
        exact Nat.zero_le _
      · exact fun pos hle _ => ⟨Nat.le_trans hle hpos, .of_ended hended⟩
    · obtain ⟨hfront, hlt⟩ := frontBehind_scanned h hrest hfound hcursor hlook
      have hpos := Nat.le_of_lt hlt
      refine ⟨hreached, hgrows, by simp [hlook], ?_, ?_⟩
      · rw [toRead_of_going hgoing]
        exact Nat.le_trans (toRead_le_left next) (hless hpos)
      · exact fun pos hle _ => ⟨Nat.le_trans hle hpos, hfront.mono hle⟩

/-- A reset leads onward from where its mark was taken. -/
theorem Onward.reset (hmarked : ReachedIn file content lexer)
    (h : Onward file content lexer next) : Onward file content lexer (next.reset lexer.mark) where
  reached := .reset hmarked h.reached h.grows
  grows := h.grows.reset _
  begun := id
  toRead := by
    unfold Lexer.toRead left Lexer.reset Lexer.mark
    rw [h.grows.size]
  front _ hpos hfront := ⟨hpos, hfront⟩

theorem lasting_onward (file content : String) :
    Feed.Lasting fun lexer after => ReachedIn file content lexer → Onward file content lexer after
    where
  refl _ := .refl
  trans h₁ h₂ h := (h₁ h).trans (h₂ (h₁ h).reached)
  advance _ := .of_advance
  note event _ h := ⟨h.note event, ⟨rfl, rfl, .refl _⟩, id, Nat.le_refl _,
    fun _ hpos hfront => ⟨hpos, hfront⟩⟩
  rewind h hmarked := (h hmarked).reset hmarked

/-- **The token in front ends before the cursor**, whatever operations came before. -/
theorem ReachedIn.frontBehind (h : ReachedIn file content lexer) :
    lexer.FrontBehind file content 0 := by
  induction h with
  | root => exact fun _ hready => nomatch hready
  | advance hl ih => exact ((Onward.of_advance hl).front 0 (Nat.zero_le _) ih).2
  | note _ _ ih => exact ih
  | reset _ _ _ ihm _ => exact ihm

/-! ## Rules -/

/-- **A rule that progresses on every feed advances reached lexers.** -/
theorem ReachedIn.advancing (h : ReachedIn file content lexer) {α : Type}
    {rule : Rule Lexer (Option α)}
    (hrule : Rule.Progresses
      (fun lexer after => ReachedIn file content lexer → Onward file content lexer after) rule) :
    Advancing file content lexer rule where
  none left hnone := hrule lexer left none hnone
  some left item hsome := by
    obtain ⟨first, place, next, hready, hadvance, honward⟩ := hrule lexer left (some item) hsome
    have hready : lexer.lookahead = .ready first := hready
    have hadvance : lexer.advance = .ok place next := hadvance
    have hnext : ReachedIn file content next := h.of_advance hadvance
    obtain ⟨hbegun, hpos, hfront, -⟩ := advance_onward h hready hadvance
    obtain ⟨start, -, hat, htext, hend⟩ := h.frontBehind first hready
    have honward := honward hnext
    have hbehind := (honward.front _ hpos hfront).2
    refine ⟨first, hready, ?_⟩
    cases hlook : left.lookahead with
    | unstarted => exact absurd hlook (honward.begun hbegun)
    | ended => exact .inl rfl
    | ready second =>
      obtain ⟨later, hlater, hat', -⟩ := hbehind second hlook
      exact .inr ⟨second, rfl, start, later, hat, hat', htext, Nat.le_trans hend hlater⟩
  many := by
    have hnone : ∀ {feed left : Lexer}, ReachedIn file content feed →
        rule feed = .ok none left → left = feed := fun _ hnone => hrule _ _ none hnone
    refine Rule.repeats_many (fun _ => rfl) hnone ?_ h (toRead_le_left lexer)
    intro feed left item hfeed hsome
    obtain ⟨first, place, next, hready, hadvance, honward⟩ := hrule feed left (some item) hsome
    have hadvance : feed.advance = .ok place next := hadvance
    have hnext : ReachedIn file content next := hfeed.of_advance hadvance
    have hlt := (advance_onward hfeed hready hadvance).2.2.2
    exact ⟨(honward hnext).reached, Nat.lt_of_le_of_lt (honward hnext).toRead hlt⟩

end Lexer

namespace Session

/-- **Rules touch nothing or make progress**, after all commands, failed ones and resets among them.
-/
theorem after_advancing (file source : String) (commands : List Command) (budget : Nat) :
    let lexer := ((ofSource file source).after commands).lexer
    lexer.Advancing file source (Grammar.declaration budget) ∧
      lexer.Advancing file source (Grammar.pattern budget) ∧
      lexer.Advancing file source (Grammar.term budget) := by
  intro lexer
  have hreached : Lexer.ReachedIn file source lexer := reached_after file source commands
  have lasting := Lexer.lasting_onward file source
  exact ⟨hreached.advancing (Grammar.progresses_declaration lasting budget),
    hreached.advancing (Grammar.progresses_pattern lasting budget),
    hreached.advancing (Grammar.progresses_term lasting budget)⟩

/-- A match reads a line that begins like one more arm, and goes back to the separator before it,
which is still behind the keyword. -/
theorem after_advancing_of_match :
    let source := "f = match x\na => 1\nb c"
    let lexer := ((ofSource "m" source).after [.advance, .advance, .advance]).lexer
    let first : Token := ⟨⟨"m", 1, 4⟩, .identifier "match", "match"⟩
    let second : Token := ⟨⟨"m", 2, 6⟩, .semicolon, "\n"⟩
    lexer.lookahead = .ready first ∧
      ∃ item left, Grammar.term nestingBudget lexer = .ok (some item) left ∧
        left.lookahead = .ready second ∧ first.Precedes "m" source second := by
  intro source lexer first second
  have hfirst : lexer.lookahead = .ready first := by decide +kernel
  have hfound : ((Grammar.term nestingBudget).answer lexer).toOption.join.isSome := by
    decide +kernel
  obtain ⟨item, hitem⟩ : ∃ item, (Grammar.term nestingBudget).answer lexer = .ok (some item) := by
    cases hanswer : (Grammar.term nestingBudget).answer lexer with
    | error fault => simp [hanswer, Except.toOption] at hfound
    | ok found => cases found with
      | none => simp [hanswer, Except.toOption] at hfound
      | some item => exact ⟨item, rfl⟩
  have hrule := Rule.eq_ok_of_answer hitem
  have hsecond : ((Grammar.term nestingBudget).after lexer).lookahead = .ready second := by
    decide +kernel
  refine ⟨hfirst, item, _, hrule, hsecond, ?_⟩
  obtain ⟨-, -, hterm⟩ := after_advancing "m" source [.advance, .advance, .advance] nestingBudget
  obtain ⟨token, htoken, hended | ⟨later, hlater, hprecedes⟩⟩ := hterm.some _ item hrule
  · cases hsecond.symm.trans hended
  · cases hfirst.symm.trans htoken
    cases hsecond.symm.trans hlater
    exact hprecedes

end Session

end FrontEnd
