import FrontEnd.Proofs.Lexer.Advance
import FrontEnd.Proofs.Lexer.Longest
import FrontEnd.Proofs.Session.Positions

/-!
# Longest matches in sessions

* `Lexer.Reached.going_of_rest` — a lexer with a token left to read goes on.
* `Session.after_longest` — whatever commands were carried out, the next token is the longest
  spelling of its class, a character of no class is refused, and so is a quote that stays open.
-/

set_option autoImplicit false

namespace FrontEnd

namespace Lexer

variable {file content : String} {lexer : Lexer}

/-- An advance stops with a diagnostic of a code at a place. -/
def Reports (lexer : Lexer) (code : String) (place : Location) : Prop :=
  ∃ diagnostic next, lexer.advance = .error (.diagnostic diagnostic) next ∧
    diagnostic.code = code ∧ diagnostic.location = place

theorem Reached.going_of_rest {root : Lexer} (hroot : root.lookahead ≠ .ended)
    (h : Reached root lexer) {c : Char} {rest : List Char}
    (hrest : lexer.nextCursor.rest = c :: rest) : lexer.lookahead ≠ .ended := by
  intro hended
  have hnil := h.rest_of_ended hroot hended
  rw [nextCursor, Cursor.rest_move, hnil, List.drop_nil] at hrest
  cases hrest

/-- What is behind the cursor, and what is in front of the next token, in the source. -/
theorem Reached.rest_nextCursor (h : Reached (.ofSource file content) lexer) :
    lexer.nextCursor.rest = content.toList.drop lexer.nextCursor.pos :=
  (h.standsIn.move _).rest

/-- Where the next token begins, by its line and its column in the source. -/
theorem Reached.location_nextCursor (h : Reached (.ofSource file content) lexer) :
    lexer.nextCursor.location lexer.file =
      ⟨file, Text.lineOf content.toList lexer.nextCursor.pos,
        Text.colOf content.toList lexer.nextCursor.pos⟩ := by
  have hstands : lexer.nextCursor.StandsIn content.toList := h.standsIn.move _
  rw [(h.sound Brackets.sound_none).2.file, ← hstands.line, ← hstands.col]
  rfl

/-- What an advance goes over is blank. -/
theorem Reached.skipped (h : Reached (.ofSource file content) lexer) :
    ∃ gap, content.toList.drop lexer.cursor.pos =
        gap ++ content.toList.drop lexer.nextCursor.pos ∧
      ∀ c ∈ gap, Text.isBlank c = true := by
  have hsound := (h.sound Brackets.sound_none).1
  have hsplit := lexer.view.skipped_append
  rw [nextCursor_view hsound, h.rest_nextCursor] at hsplit
  exact ⟨lexer.view.skipped, h.standsIn.rest ▸ hsplit.symm,
    fun c hc => (lexer.view.isGap_skipped c hc).1⟩

/-- What an advance puts in front is the longest spelling of its class. -/
theorem Reached.longest_of_advance {next : Lexer} {location : Location} {token : Token}
    (h : Reached (.ofSource file content) lexer) (hadvance : lexer.advance = .ok location next)
    (hready : next.lookahead = .ready token) :
    ∃ kind : TokenClass,
      kind.Longest (content.toList.drop lexer.nextCursor.pos) token.text.toList token.lexeme := by
  rcases cases_of_advance_ok hadvance with
    ⟨hended, rfl⟩ | ⟨-, rfl⟩ | ⟨c, rest, lexeme, -, hrest, hfound, -, hlook⟩
  · cases hready.symm.trans hended
  · cases hready
  · cases hready.symm.trans hlook
    obtain ⟨kind, hlongest⟩ := Scan.longest_of_found hfound
    rw [← hrest, h.rest_nextCursor] at hlongest
    refine ⟨kind, ?_⟩
    rwa [View.tokenAt, String.toList_ofList]

/-- A scan that fails stops the advance. -/
theorem reports_of_flaw {c : Char} {rest : List Char} {flaw : Flaw} {cause : Cause}
    (hgoing : lexer.lookahead ≠ .ended) (hrest : lexer.nextCursor.rest = c :: rest)
    (hscan : (Scan.token c rest).found = .error flaw)
    (hfault : ∀ place, flaw.fault place = .diagnostic ⟨place, cause, .error⟩) :
    lexer.Reports cause.code (lexer.nextCursor.location lexer.file) := by
  refine ⟨⟨lexer.nextCursor.location lexer.file, cause, .error⟩,
    { lexer with cursor := lexer.nextCursor.move (Scan.token c rest).taken.length }, ?_, rfl, rfl⟩
  rw [advance_of_ne_ended hgoing, hrest, ← hfault]
  simp only [accept, hscan]

end Lexer

namespace Session

/-- **Scanning is longest match**, after all commands, failed ones and resets among them, and at
every point in between. An advance goes over blanks; then it goes over the longest spelling of the
class that the next characters decide on, or it stops there. -/
theorem after_longest (file source : String) :
    (∀ commands, Lexer.Reached (.ofSource file source)
      ((ofSource file source).after commands).lexer) ∧
    ∀ lexer, Lexer.Reached (.ofSource file source) lexer →
      let pos := lexer.nextCursor.pos
      let ahead := source.toList.drop pos
      let place : Location :=
        ⟨file, Text.lineOf source.toList pos, Text.colOf source.toList pos⟩
      (∃ gap, source.toList.drop lexer.cursor.pos = gap ++ ahead ∧
        ∀ c ∈ gap, Text.isBlank c = true) ∧
      (∀ location next token, lexer.advance = .ok location next →
        next.lookahead = .ready token → token.StandsAt file source pos ∧
          ∃ kind : TokenClass, kind.Longest ahead token.text.toList token.lexeme) ∧
      (∀ c rest, ahead = c :: rest → TokenClass.of? ahead = none →
        Text.isBlank c = false ∧ lexer.Reports "E100" place) ∧
      (∀ rest, ahead = '"' :: rest → '"' ∉ rest → lexer.Reports "E104" place) := by
  constructor
  · exact reached_after file source
  intro lexer hreached pos ahead place
  have hahead : lexer.nextCursor.rest = ahead := hreached.rest_nextCursor
  have hplace : lexer.nextCursor.location lexer.file = place := hreached.location_nextCursor
  have hgoing : ∀ {c rest}, ahead = c :: rest → lexer.lookahead ≠ .ended := fun hcons =>
    hreached.going_of_rest (Lexer.going_ofSource file source) (hahead.trans hcons)
  refine ⟨hreached.skipped, ?_, ?_, ?_⟩
  · intro location next token hadvance hready
    exact ⟨(hreached.stands_of_advance hadvance hready).1,
      hreached.longest_of_advance hadvance hready⟩
  · intro c rest hcons hnone
    rw [hcons] at hnone
    obtain ⟨hmark, hscan⟩ := Scan.token_of_no_class hnone
    have hnewline : c ≠ '\n' := by
      rintro rfl
      cases hmark
    have hview : lexer.view.nextCursor.rest = c :: rest := by
      rw [Lexer.nextCursor_view (hreached.sound Brackets.sound_none).1, hahead, hcons]
    refine ⟨View.isBlank_of_ne_newline hview hnewline, ?_⟩
    have hflaw : (Scan.token c rest).found = .error (.unrecognized c) := by rw [hscan]
    have hfault : ∀ place, (Flaw.unrecognized c).fault place =
        .diagnostic ⟨place, .unrecognized c, .error⟩ := fun _ => rfl
    rw [← hplace]
    exact Lexer.reports_of_flaw (hgoing hcons) (hahead.trans hcons) hflaw hfault
  · intro rest hcons hopen
    have hfault : ∀ place, Flaw.unterminated.fault place =
        .diagnostic ⟨place, .unterminated, .error⟩ := fun _ => rfl
    rw [← hplace]
    exact Lexer.reports_of_flaw (hgoing hcons) (hahead.trans hcons)
      (Scan.token_of_open_quote hopen) hfault

/-- A sign, a point and a second point: the number takes the first two of them, the point that is
left begins an operator, and the mark behind the name belongs to no class. -/
theorem after_longest_of_points :
    let source := "-1.5.+y #"
    let lexer := (ofSource "m" source).lexer
    let stopped := ((ofSource "m" source).after [.advance, .advance, .advance]).lexer
    let number : Lexeme := .float (Binary64.ofDecimal true 15 (-1))
    (∃ next, lexer.advance = .ok ⟨"m", 1, 0⟩ next ∧
      next.lookahead = .ready ⟨⟨"m", 1, 0⟩, number, "-1.5"⟩) ∧
      (∃ kind : TokenClass, kind.Longest source.toList "-1.5".toList number) ∧
      stopped.Reports "E100" ⟨"m", 1, 8⟩ := by
  intro source lexer stopped number
  obtain ⟨hreached, hscans⟩ := after_longest "m" source
  have hanswer : Rule.answer Lexer.advance lexer = .ok ⟨"m", 1, 0⟩ := by decide +kernel
  have hready : lexer.advanced.lookahead = .ready ⟨⟨"m", 1, 0⟩, number, "-1.5"⟩ := by
    decide +kernel
  have hadvance := Rule.eq_ok_of_answer hanswer
  refine ⟨⟨_, hadvance, hready⟩, ?_, ?_⟩
  · obtain ⟨-, hproduced, -⟩ := hscans lexer (hreached [])
    have hahead : source.toList.drop lexer.nextCursor.pos = source.toList := by decide +kernel
    have hlongest := (hproduced _ _ _ hadvance hready).2
    rwa [hahead] at hlongest
  · obtain ⟨-, -, hrefused, -⟩ :=
      hscans stopped (hreached [.advance, .advance, .advance])
    have hahead : source.toList.drop stopped.nextCursor.pos = ['#'] := by decide +kernel
    have hplace : (⟨"m", Text.lineOf source.toList stopped.nextCursor.pos,
        Text.colOf source.toList stopped.nextCursor.pos⟩ : Location) = ⟨"m", 1, 8⟩ := by
      decide +kernel
    rw [← hplace]
    exact (hrefused '#' [] hahead (by rw [hahead]; decide +kernel)).2

end Session

end FrontEnd
