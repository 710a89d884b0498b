import FrontEnd.Proofs.Lexer.Tape
import FrontEnd.Proofs.Session.Rollback
import FrontEnd.Proofs.Text.Lines

/-!
# Positions in sessions

A cursor counts positions, lines and columns while it moves, and resets put all counts back
together. They agree with what the text alone says of the position, whatever commands were carried
out.

* `Cursor.StandsIn` — the counts of a cursor are those of its text; every move keeps this.
* `Token.StandsAt` — a token stands at a position of a text, and is found there by its location.
* `Session.after_stands` — the cursors and tokens of a session stand where they say.
-/

set_option autoImplicit false

namespace FrontEnd

/-! ## Cursors -/

namespace Cursor

/-- A cursor stands in a text, where its counts say. -/
structure StandsIn (text : List Char) (cursor : Cursor) : Prop where
  pos_le : cursor.pos ≤ text.length
  rest : cursor.rest = text.drop cursor.pos
  line : cursor.line = Text.lineOf text cursor.pos
  col : cursor.col = Text.colOf text cursor.pos

variable {text : List Char} {cursor : Cursor}

theorem standsIn_start (text : List Char) : (start text).StandsIn text :=
  ⟨Nat.zero_le _, rfl, rfl, rfl⟩

/-- A step over one character keeps the counts right. -/
theorem StandsIn.step (h : cursor.StandsIn text) : cursor.step.StandsIn text := by
  cases hrest : cursor.rest with
  | nil =>
    have hstay : cursor.step = cursor := by simp [Cursor.step, hrest]
    rwa [hstay]
  | cons c rest =>
    have hdrop : text.drop cursor.pos = c :: rest := h.rest.symm.trans hrest
    have hlt : cursor.pos + 1 ≤ text.length := by
      have hlength := congrArg List.length hdrop
      rw [List.length_drop, List.length_cons] at hlength
      omega
    have hbehind : rest = text.drop (cursor.pos + 1) := by
      rw [← List.drop_drop, hdrop]
      rfl
    have hline := Text.lineOf_succ hdrop
    have hcol := Text.colOf_succ hdrop
    rw [← h.line] at hline
    rw [← h.col] at hcol
    by_cases hc : c = '\n'
    · simp only [Cursor.step, hrest, hc, if_true] at hline hcol ⊢
      exact ⟨hlt, hbehind, hline.symm, hcol.symm⟩
    · simp only [Cursor.step, hrest, hc, if_false] at hline hcol ⊢
      exact ⟨hlt, hbehind, hline.symm, hcol.symm⟩

theorem StandsIn.move (h : cursor.StandsIn text) (n : Nat) : (cursor.move n).StandsIn text := by
  induction n generalizing cursor with
  | zero => exact h
  | succ n ih => exact ih h.step

theorem pos_move {n : Nat} (h : n ≤ cursor.rest.length) : (cursor.move n).pos = cursor.pos + n := by
  have hcount := pos_add_length_move n cursor
  rw [length_rest_move] at hcount
  omega

end Cursor

/-! ## Tokens -/

/-- A token stands at a position of a text: its characters are there, its location is the line and
the column of the position, and by this location its first line is found in the lines of the text.
-/
structure Token.StandsAt (file content : String) (pos : Nat) (token : Token) : Prop where
  text : token.text.toList = (content.toList.drop pos).take token.text.length
  location : token.location =
    ⟨file, Text.lineOf content.toList pos, Text.colOf content.toList pos⟩
  textAt : (SourceText.ofContent content).textAt token.location token.text.length =
    String.ofList (token.text.toList.takeWhile (· != '\n'))

/-- A token that is scanned at a cursor stands there. -/
theorem View.tokenAt_stands (file : String) {content : String} {cursor : Cursor} {c : Char}
    {rest : List Char} (lexeme : Lexeme) (h : cursor.StandsIn content.toList)
    (hrest : cursor.rest = c :: rest) :
    (tokenAt file cursor c rest lexeme).StandsAt file content cursor.pos := by
  have hprefix := Scan.token_taken_isPrefix c rest
  rw [← hrest, h.rest] at hprefix
  have htext : (tokenAt file cursor c rest lexeme).text.toList =
      (content.toList.drop cursor.pos).take (tokenAt file cursor c rest lexeme).text.length := by
    simpa [tokenAt] using List.prefix_iff_eq_take.mp hprefix
  have hlocation : (tokenAt file cursor c rest lexeme).location =
      ⟨file, Text.lineOf content.toList cursor.pos, Text.colOf content.toList cursor.pos⟩ := by
    rw [← h.line, ← h.col]
    rfl
  refine ⟨htext, hlocation, ?_⟩
  rw [hlocation, SourceText.textAt_eq, ← htext]

namespace Lexer

variable {lexer next : Lexer} {place : Location} {token : Token} {content : String}

/-- **An advance puts a token in front that stands where the advance began**, and moves the cursor
behind it. -/
theorem stands_of_advance (hsound : lexer.brackets.Sound)
    (hstands : lexer.cursor.StandsIn content.toList) (h : lexer.advance = .ok place next)
    (hready : next.lookahead = .ready token) :
    token.StandsAt lexer.file content lexer.nextCursor.pos ∧
      next.cursor.pos = lexer.nextCursor.pos + token.text.length := by
  have hview := advance_view hsound
  rw [h] at hview
  have hgoing : lexer.view.lookahead ≠ .ended := by
    intro hended
    have hended : lexer.lookahead = .ended := hended
    rw [advance_of_ended hended] at h
    cases h
    rw [hended] at hready
    cases hready
  rw [← nextCursor_view hsound]
  have hnext : lexer.view.nextCursor.StandsIn content.toList := hstands.move _
  rcases View.advance_eq_ok hgoing hview.1 with
    ⟨-, hend, -⟩ | ⟨c, rest, lexeme, stack, hrest, -, -, -, hseen⟩
  · have hended : next.lookahead = .ended := hend
    rw [hended] at hready
    cases hready
  · have hlook : next.lookahead = _ := congrArg View.lookahead hseen
    have hcursor : next.cursor = _ := congrArg View.cursor hseen
    rw [hready] at hlook
    cases hlook
    refine ⟨View.tokenAt_stands lexer.file lexeme hnext hrest, ?_⟩
    have hlength := (Scan.token_taken_isPrefix c rest).length_le
    rw [← hrest] at hlength
    rw [hcursor, Cursor.pos_move hlength]
    simp [View.tokenAt]

/-- Operations leave the cursor where its counts say. -/
theorem Reached.standsIn {file : String} (h : Reached (.ofSource file content) lexer) :
    lexer.cursor.StandsIn content.toList := by
  obtain ⟨n, hn⟩ := h.exists_move Brackets.sound_none
  rw [hn]
  exact (Cursor.standsIn_start content.toList).move n

/-- Behind all operations, an advance puts a token in front that stands where the advance began. -/
theorem Reached.stands_of_advance {file : String} (h : Reached (.ofSource file content) lexer)
    (hadvance : lexer.advance = .ok place next) (hready : next.lookahead = .ready token) :
    token.StandsAt file content lexer.nextCursor.pos ∧
      next.cursor.pos = lexer.nextCursor.pos + token.text.length := by
  obtain ⟨hsound, hgrows⟩ := h.sound Brackets.sound_none
  obtain ⟨hat, hpos⟩ := Lexer.stands_of_advance hsound h.standsIn hadvance hready
  rw [hgrows.file] at hat
  exact ⟨hat, hpos⟩

/-- Operations leave a token in front that stands in the text. A failed advance moves the cursor but
not the token. -/
theorem Reached.front_stands {file : String} (h : Reached (.ofSource file content) lexer) :
    ∀ token, lexer.lookahead = .ready token → ∃ pos, token.StandsAt file content pos := by
  induction h with
  | root =>
    intro token hready
    cases hready
  | @advance lexer hl ih =>
    intro token hready
    obtain ⟨hsound, -⟩ := hl.sound Brackets.sound_none
    cases ha : lexer.advance with
    | ok place next =>
      have hnext : lexer.advanced = next := Rule.after_of_ok ha
      rw [hnext] at hready
      exact ⟨_, (hl.stands_of_advance ha hready).1⟩
    | error fault next =>
      have hnext : lexer.advanced = next := Rule.after_of_error ha
      rw [hnext] at hready
      have hview := advance_view hsound
      rw [ha] at hview
      obtain ⟨c, rest, -, -, hseen, -⟩ := View.advance_error hview.1
      have hlook : next.lookahead = lexer.lookahead := congrArg View.lookahead hseen
      rw [hlook] at hready
      exact ih token hready
  | note _ _ ih => exact ih
  | reset _ _ _ ihm _ => exact ihm

end Lexer

namespace Session

/-- All commands carry out operations on the lexer and no others. -/
theorem reached_after (file source : String) (commands : List Command) :
    Lexer.Reached (.ofSource file source) ((ofSource file source).after commands).lexer :=
  ((traced_ofSource file source).after Brackets.sound_none commands).1.lexer

/-- **Positions are right after all commands**, failed ones and resets among them, and at every
point in between: the line and the column of the cursor are those of its position in the source,
every token that an advance puts in front stands where the advance began, and so did the one that is
there. -/
theorem after_stands (file source : String) :
    (∀ commands, Lexer.Reached (.ofSource file source)
      ((ofSource file source).after commands).lexer) ∧
    ∀ lexer, Lexer.Reached (.ofSource file source) lexer →
      lexer.cursor.pos ≤ source.length ∧
      lexer.cursor.line = Text.lineOf source.toList lexer.cursor.pos ∧
      lexer.cursor.col = Text.colOf source.toList lexer.cursor.pos ∧
      (∀ token, lexer.lookahead = .ready token → ∃ pos, token.StandsAt file source pos) ∧
      ∀ place next token, lexer.advance = .ok place next → next.lookahead = .ready token →
        token.StandsAt file source lexer.nextCursor.pos ∧
        next.cursor.pos = lexer.nextCursor.pos + token.text.length := by
  constructor
  · exact reached_after file source
  · intro lexer hreached
    have hstands := hreached.standsIn
    have hlength : source.toList.length = source.length := String.length_toList
    exact ⟨hlength ▸ hstands.pos_le, hstands.line, hstands.col, hreached.front_stands,
      fun _ _ _ hadvance hready => hreached.stands_of_advance hadvance hready⟩

/-- Behind a quoted text of two lines a scan fails in the third line, and then the lexer is set back
behind the first word. The next token is the quoted text again, and by its location its first line
is found. -/
theorem after_stands_of_reset :
    let source := "f \"a\nb\"\n 99999999999999999999"
    let lexer := ((ofSource "m" source).after
      [.advance, .mark, .advance, .advance, .advance, .reset 0]).lexer
    let token : Token := ⟨⟨"m", 1, 2⟩, .quoted "\"a\nb\"", "\"a\nb\""⟩
    Lexer.Reached (.ofSource "m" source) lexer ∧
      lexer.advance = .ok token.location lexer.advanced ∧
      lexer.advanced.lookahead = .ready token ∧
      token.StandsAt "m" source lexer.nextCursor.pos := by
  intro source lexer token
  have hreached : Lexer.Reached (.ofSource "m" source) lexer := (after_stands "m" source).1 _
  have hanswer : Rule.answer Lexer.advance lexer = .ok token.location := by
    decide +kernel
  have hadvance : lexer.advance = .ok token.location lexer.advanced :=
    Rule.eq_ok_of_answer hanswer
  have hready : lexer.advanced.lookahead = .ready token := by
    decide +kernel
  obtain ⟨-, -, -, -, hproduced⟩ := (after_stands "m" source).2 lexer hreached
  exact ⟨hreached, hadvance, hready, (hproduced _ _ _ hadvance hready).1⟩

end Session

end FrontEnd
