import FrontEnd.Proofs.Lexer.Faults
import FrontEnd.Proofs.Session.Progress
import Mathlib.Logic.Relation

/-!
# Failures in sessions

An advance that fails has moved the cursor, at most to the end of the source, and nothing else: the
token in front, the brackets and the log are those from before. So a lexer that failed can be asked
about what it had in front, and a later advance goes on behind the failure.

* `Lexer.FailsOn` — what a failed advance changes and what it reports.
* `Lexer.chomp_of_not_fronts` — where another token is in front, a chomp touches nothing.
* `Lexer.skipUpTo_error` — skipping separators fails in the advance that goes over one of them.
* `Session.after_failing` — failures of advances, chomps and skips, after all commands.
-/

set_option autoImplicit false

namespace FrontEnd

namespace Lexer

variable {file source : String} {lexer left : Lexer} {fault : Fault} {form : Form}

/-! ## Failed advances -/

/-- An advance fails and leaves all but the cursor as it was. The cursor stands in the source, not
before its old place, and a diagnostic points to a place between the two. -/
structure FailsOn (file source : String) (lexer : Lexer) (fault : Fault) (left : Lexer) : Prop where
  failed : lexer.advance = .error fault left
  intact : left = { lexer with cursor := left.cursor }
  stands : left.cursor.StandsIn source.toList
  onward : lexer.cursor.pos ≤ left.cursor.pos
  located : ∀ diagnostic, fault = .diagnostic diagnostic →
    ∃ pos, lexer.cursor.pos ≤ pos ∧ pos ≤ left.cursor.pos ∧
      diagnostic.location = placeAt file source pos

/-- **Every advance that fails does so**, whatever operations came before. -/
theorem ReachedIn.failsOn (h : ReachedIn file source lexer)
    (hadvance : lexer.advance = .error fault left) : lexer.FailsOn file source fault left := by
  obtain ⟨c, rest, -, -, hleft, -⟩ := cases_of_advance_error hadvance
  have hcursor : left.cursor = lexer.nextCursor.move (Scan.token c rest).taken.length := by
    rw [hleft]
  have hstart : lexer.cursor.pos ≤ lexer.nextCursor.pos := Cursor.pos_le_move _ _
  have hstop : lexer.nextCursor.pos ≤ left.cursor.pos := by
    rw [hcursor]
    exact Cursor.pos_le_move _ _
  refine ⟨hadvance, ?_, ?_, Nat.le_trans hstart hstop, ?_⟩
  · rw [hleft]
  · rw [hcursor]
    exact (h.standsIn.move _).move _
  · rintro diagnostic rfl
    obtain ⟨-, hplace, -⟩ := offends_of_advance h hadvance
    exact ⟨lexer.nextCursor.pos, hstart, hstop, hplace⟩

/-! ## Failed chomps -/

/-- The token in front is the given one. -/
def Fronts (lexer : Lexer) (form : Form) : Prop :=
  ∃ token, lexer.lookahead = .ready token ∧ token.lexeme.is form = true

/-- Reading over the token that is in front fails where the advance does. -/
theorem advance_of_chomp (hfront : lexer.Fronts form)
    (h : Rule.chomp form lexer = .error fault left) : lexer.advance = .error fault left := by
  obtain ⟨token, hready, his⟩ := hfront
  have hready : Feed.lookahead lexer = .ready token := hready
  rw [Rule.chomp, Rule.bind_of_ok (Rule.look_eq lexer), hready] at h
  dsimp only at h
  rw [if_pos his] at h
  cases hadvance : lexer.advance with
  | error found after =>
    have hdiscard : (discard Rule.advance : Rule Lexer Unit) lexer = .error found after :=
      Rule.bind_of_error hadvance
    rw [hdiscard] at h
    cases h
    rfl
  | ok place next =>
    have hdiscard : (discard Rule.advance : Rule Lexer Unit) lexer = .ok () next :=
      Rule.bind_of_ok hadvance
    rw [hdiscard] at h
    cases h

/-- **Where another token or none is in front, a chomp stops and touches nothing.** -/
theorem chomp_of_not_fronts (h : ¬ lexer.Fronts form) :
    ∃ diagnostic, Rule.chomp form lexer = .error (.diagnostic diagnostic) lexer := by
  rw [Rule.chomp, Rule.bind_of_ok (Rule.look_eq lexer)]
  cases hlook : Feed.lookahead lexer with
  | unstarted => exact ⟨_, rfl⟩
  | ended => exact ⟨_, rfl⟩
  | ready token =>
    have his : ¬ token.lexeme.is form = true := fun his => h ⟨token, hlook, his⟩
    dsimp only
    rw [if_neg his]
    exact ⟨_, rfl⟩

/-! ## Failed skips -/

/-- An advance over a separator in front. -/
def SkipsTo (lexer next : Lexer) : Prop :=
  lexer.Fronts Lexeme.semicolon.form ∧ ∃ place, lexer.advance = .ok place next

/-- Looking at the token in front changes nothing. -/
theorem ahead_eq (lexer : Lexer) (form : Form) :
    ∃ found, Rule.ahead form lexer = .ok found lexer ∧ (found = true ↔ lexer.Fronts form) :=
  ⟨_, Rule.ahead_eq form lexer, Lookahead.any_token?_iff⟩

/-- Skipping separators fails in front of one of them, behind advances that went over others. -/
theorem skipUpTo_error {bound : Nat} (h : Rule.skipUpTo bound lexer = .error fault left) :
    ∃ before, Relation.ReflTransGen SkipsTo lexer before ∧
      before.Fronts Lexeme.semicolon.form ∧ before.advance = .error fault left := by
  induction bound generalizing lexer with
  | zero => cases h
  | succ bound ih =>
    obtain ⟨found, hahead, hfound⟩ := ahead_eq lexer Lexeme.semicolon.form
    rw [Rule.skipUpTo, Rule.bind_of_ok hahead] at h
    split at h
    · rename_i hsome
      have hfront : lexer.Fronts Lexeme.semicolon.form := hfound.mp hsome
      cases hadvance : (Rule.advance : Rule Lexer Location) lexer with
      | error found after =>
        rw [Rule.bind_of_error hadvance] at h
        cases h
        exact ⟨lexer, .refl, hfront, hadvance⟩
      | ok place next =>
        rw [Rule.bind_of_ok hadvance] at h
        obtain ⟨before, hskips, hbefore⟩ := ih h
        exact ⟨before, .head ⟨hfront, place, hadvance⟩ hskips, hbefore⟩
    · cases h

/-- Skipping leads to lexers that operations make of the source. -/
theorem ReachedIn.of_skips {next : Lexer} (h : ReachedIn file source lexer)
    (hskips : Relation.ReflTransGen SkipsTo lexer next) : ReachedIn file source next := by
  induction hskips with
  | refl => exact h
  | tail _ hstep ih =>
    obtain ⟨-, place, hadvance⟩ := hstep
    exact ih.of_advance hadvance

end Lexer

namespace Session

/-- **A failure leaves everything but the cursor intact**, after all commands, failed ones and
resets among them, and at every point in between. A chomp fails in its advance or touches nothing;
skipping separators fails in the advance over one of them. -/
theorem after_failing (file source : String) :
    (∀ commands, Lexer.Reached (.ofSource file source)
      ((ofSource file source).after commands).lexer) ∧
    ∀ lexer, Lexer.Reached (.ofSource file source) lexer →
      (∀ fault left, lexer.advance = .error fault left →
        lexer.FailsOn file source fault left) ∧
      (∀ form fault left, Rule.chomp form lexer = .error fault left →
        (lexer.Fronts form → lexer.FailsOn file source fault left) ∧
        (¬ lexer.Fronts form → left = lexer)) ∧
      (∀ form, ¬ lexer.Fronts form →
        ∃ diagnostic, Rule.chomp form lexer = .error (.diagnostic diagnostic) lexer) ∧
      ∀ fault left, Rule.skipSemicolons lexer = .error fault left →
        ∃ before, Relation.ReflTransGen Lexer.SkipsTo lexer before ∧
          before.Fronts Lexeme.semicolon.form ∧ before.FailsOn file source fault left := by
  constructor
  · exact reached_after file source
  intro lexer hreached
  have hreached : Lexer.ReachedIn file source lexer := hreached
  refine ⟨fun _ _ => hreached.failsOn, ?_, fun form => Lexer.chomp_of_not_fronts, ?_⟩
  · intro form fault left hchomp
    refine ⟨fun hfront => hreached.failsOn (Lexer.advance_of_chomp hfront hchomp), fun hother => ?_⟩
    obtain ⟨diagnostic, hrefused⟩ := Lexer.chomp_of_not_fronts hother
    rw [hrefused] at hchomp
    cases hchomp
    rfl
  · intro fault left hskip
    obtain ⟨before, hskips, hfront, hadvance⟩ := Lexer.skipUpTo_error hskip
    exact ⟨before, hskips, hfront, (hreached.of_skips hskips).failsOn hadvance⟩

/-- Inside a parenthesis a skip goes over one separator and fails behind the next, at a square
bracket. What it leaves still has that separator in front of it, so it refuses a comma and stays as
it is, and its next advance fails at the bracket behind. -/
theorem after_failing_of_brackets :
    let source := "( ; ; ] \x7d"
    let lexer := ((ofSource "m" source).after [.advance, .advance]).lexer
    let failed := ((ofSource "m" source).after [.advance, .advance, .skipSemicolons]).lexer
    let square : Fault :=
      .diagnostic ⟨⟨"m", 1, 6⟩, .mismatched .square .paren ⟨"m", 1, 0⟩, .error⟩
    let curly : Fault :=
      .diagnostic ⟨⟨"m", 1, 8⟩, .mismatched .curly .paren ⟨"m", 1, 0⟩, .error⟩
    (∃ before, Relation.ReflTransGen Lexer.SkipsTo lexer before ∧
        before.Fronts Lexeme.semicolon.form ∧ before.FailsOn "m" source square failed) ∧
      (∃ left, failed.FailsOn "m" source curly left) ∧
      ∃ diagnostic,
        Rule.chomp Lexeme.comma.form failed = .error (.diagnostic diagnostic) failed := by
  intro source lexer failed square curly
  obtain ⟨hreached, hfails⟩ := after_failing "m" source
  have hskip : Rule.answer Rule.skipSemicolons lexer = .error square := by decide +kernel
  have hfailed : Rule.after Rule.skipSemicolons lexer = failed := by decide +kernel
  have hadvance : Rule.answer Lexer.advance failed = .error curly := by decide +kernel
  have hfront : ¬ failed.Fronts Lexeme.comma.form := by
    have hsemicolon : failed.lookahead = .ready ⟨⟨"m", 1, 4⟩, .semicolon, ";"⟩ := by decide +kernel
    rintro ⟨token, hready, his⟩
    cases hsemicolon.symm.trans hready
    revert his
    decide
  obtain ⟨-, -, -, hskips⟩ := hfails lexer (hreached [.advance, .advance])
  obtain ⟨hfailsOn, -, hchomps, -⟩ :=
    hfails failed (hreached [.advance, .advance, .skipSemicolons])
  refine ⟨?_, ⟨_, hfailsOn curly _ (Rule.eq_error_of_answer hadvance)⟩, hchomps _ hfront⟩
  have herror := Rule.eq_error_of_answer hskip
  rw [hfailed] at herror
  exact hskips square failed herror

end Session

end FrontEnd
