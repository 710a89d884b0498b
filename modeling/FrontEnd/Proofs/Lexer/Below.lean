import FrontEnd.Proofs.Lexer.Joined
import FrontEnd.Proofs.Tree.Moved

/-!
# Texts further down

What is read from a text does not depend on where the text stands: further down in a file it has the
same tokens, further down.

* `View.Below` — a view of the same text, further down.
* `View.Below.remaining` — the tokens that it has to come.
* `tokenize_joined` — the tokens of two texts with a newline between them.
-/

set_option autoImplicit false

namespace FrontEnd

/-! ## Cursors -/

/-- A cursor at the same place of the same text, a number of lines further down. -/
structure Cursor.Below (lines : Nat) (cursor lower : Cursor) : Prop where
  rest : lower.rest = cursor.rest
  line : lower.line = cursor.line + lines
  col : lower.col = cursor.col

namespace Cursor.Below

variable {lines : Nat} {cursor lower : Cursor}

theorem step (h : Below lines cursor lower) : Below lines cursor.step lower.step := by
  obtain ⟨rest, pos, line, col⟩ := cursor
  obtain ⟨rest', pos', line', col'⟩ := lower
  obtain ⟨hrest, hline, hcol⟩ := h
  dsimp only at hrest hline hcol
  subst hrest hline hcol
  cases rest' with
  | nil => exact ⟨rfl, rfl, rfl⟩
  | cons c rest =>
    by_cases hc : c = '\n'
    · simp only [Cursor.step, hc, if_true]
      exact ⟨rfl, Nat.add_right_comm .., rfl⟩
    · simp only [Cursor.step, hc, if_false]
      exact ⟨rfl, rfl, rfl⟩

theorem move (h : Below lines cursor lower) (n : Nat) :
    Below lines (cursor.move n) (lower.move n) := by
  induction n generalizing cursor lower with
  | zero => exact h
  | succ n ih => exact ih h.step

theorem location (h : Below lines cursor lower) (file : String) :
    lower.location file = (cursor.location file).below lines := by
  simp [Cursor.location, Location.below, h.line, h.col]

end Cursor.Below

/-! ## Views -/

/-- Moves open brackets further down. -/
def View.lower (lines : Nat) (stack : List (Location × Bracket)) : List (Location × Bracket) :=
  stack.map fun frame => (frame.1.below lines, frame.2)

/-- A view of the same text, a number of lines further down, with the same brackets open. Neither
view has ended. -/
structure View.Below (lines : Nat) (view lower : View) : Prop where
  cursor : view.cursor.Below lines lower.cursor
  stack : lower.stack = View.lower lines view.stack
  going : view.lookahead ≠ .ended
  going' : lower.lookahead ≠ .ended

namespace View.Below

variable {lines : Nat} {file : String} {view lower next : View}

theorem nextCursor (h : Below lines view lower) :
    view.nextCursor.Below lines lower.nextCursor := by
  have hempty : lower.stack.isEmpty = view.stack.isEmpty := by
    rw [h.stack, View.lower, List.isEmpty_map]
  unfold View.nextCursor
  rw [h.cursor.rest, hempty]
  exact h.cursor.move _

theorem track (lines : Nat) {stack after : List (Location × Bracket)} {place : Location}
    {lexeme : Lexeme} (h : View.track stack place lexeme = .ok after) :
    View.track (View.lower lines stack) (place.below lines) lexeme =
      .ok (View.lower lines after) := by
  cases lexeme with
  | closing bracket =>
    cases stack with
    | nil => cases h
    | cons frame outer =>
      simp only [View.track, Brackets.popped] at h
      simp only [View.track, View.lower, List.map_cons, Brackets.popped]
      split at h
      · rename_i hbracket
        cases h
        rw [if_pos hbracket]
      · cases h
  | _ =>
    cases h
    rfl

/-- An advance further down leads to the same, further down. -/
theorem advance (h : Below lines view lower) {place : Location}
    (hadvance : view.advance file = (.ok place, next)) :
    (next.lookahead = .ended ∧
      ∃ place' next', lower.advance file = (.ok place', next') ∧ next'.lookahead = .ended) ∨
    ∃ token next', next.lookahead = .ready token ∧
      lower.advance file = (.ok (place.below lines), next') ∧
      next'.lookahead = .ready (token.relocate (·.below lines)) ∧ Below lines next next' := by
  have hcursor := h.nextCursor
  rcases advance_eq_ok h.going hadvance with
    ⟨hnil, hend, -⟩ | ⟨c, rest, lexeme, stack, hrest, hfound, htrack, rfl, rfl⟩
  · refine .inl ⟨hend, ?_⟩
    rw [advance_of_ne_ended file h.going', hcursor.rest, hnil]
    exact ⟨_, _, rfl, rfl⟩
  · have htrack' := track lines htrack
    rw [← h.stack, ← hcursor.location] at htrack'
    have hlower := advance_of_found h.going' (hcursor.rest.trans hrest) hfound htrack'
    rw [hcursor.location] at hlower
    refine .inr ⟨_, _, rfl, hlower, ?_, hcursor.move _, rfl, by simp, by simp⟩
    simp [tokenAt, Token.relocate, hcursor.location]

/-- **The tokens of a text further down** are the tokens of the text, further down. -/
theorem remaining (h : Below lines view lower) {bound : Nat} {tokens : List Token}
    {place : Location} (htokens : view.remaining file bound = (tokens, .ok place)) :
    ∃ place', lower.remaining file bound =
      (tokens.map (·.relocate (·.below lines)), .ok place') := by
  induction bound generalizing view lower tokens with
  | zero =>
    cases htokens
    exact ⟨_, rfl⟩
  | succ bound ih =>
    rcases advance_cases file view with
      ⟨fault, next, hadvance⟩ | ⟨next, hadvance, -⟩ | ⟨token, next, hadvance, -⟩
    · rw [remaining_of_error _ hadvance] at htokens
      cases htokens
    all_goals
      rcases h.advance hadvance with
        ⟨hend, place', next', hlower, hend'⟩ | ⟨token, next', hready, hlower, hready', hbelow⟩
      · rw [remaining_of_ended _ hadvance hend] at htokens
        cases htokens
        exact ⟨place', remaining_of_ended _ hlower hend'⟩
      · rw [remaining_of_ready _ hadvance hready] at htokens
        have hpair := Prod.mk.inj htokens
        obtain ⟨place', hrest⟩ := ih hbelow (Prod.ext rfl hpair.2)
        refine ⟨place', ?_⟩
        rw [remaining_of_ready _ hlower hready', hrest, ← hpair.1]
        rfl

end View.Below

/-! ## Joined sources -/

variable {file source : String} {tokens : List Token}

/-- A source that can be split into tokens has these tokens to come. -/
theorem remaining_of_tokenize {last : Lexer} (h : tokenize file source = (tokens, none, last))
    {bound : Nat} (hbound : source.toList.length < bound) :
    (Lexer.ofSource file source).view.remaining file bound = (tokens, .ok last.location) := by
  have htokens := Lexer.tokensUpTo_eq (.ofSource file source) Brackets.sound_none
    (Lexer.ofSource file source).left
  have hall : (Lexer.ofSource file source).tokensUpTo (Lexer.ofSource file source).left =
      (tokens, none, last) := h
  rw [hall] at htokens
  have hleft : (Lexer.ofSource file source).view.cursor.rest.length <
      (Lexer.ofSource file source).left := Nat.lt_succ_self _
  rw [View.remaining_enough hbound hleft]
  exact htokens

theorem tokenize_of_remaining {bound : Nat} (hbound : source.toList.length < bound)
    {place : Location}
    (h : (Lexer.ofSource file source).view.remaining file bound = (tokens, .ok place)) :
    ∃ last, tokenize file source = (tokens, none, last) := by
  have htokens := Lexer.tokensUpTo_eq (.ofSource file source) Brackets.sound_none
    (Lexer.ofSource file source).left
  have hleft : (Lexer.ofSource file source).view.cursor.rest.length <
      (Lexer.ofSource file source).left := Nat.lt_succ_self _
  rw [View.remaining_enough hbound hleft] at h
  unfold tokenize
  dsimp only
  generalize (Lexer.ofSource file source).tokensUpTo _ = result at htokens ⊢
  obtain ⟨found, _ | fault, last⟩ := result
  · have heq := h.symm.trans htokens
    cases heq
    exact ⟨last, rfl⟩
  · have heq := h.symm.trans htokens
    cases heq

/-- **The tokens of two sources with a newline between them**, the first of which closes all
brackets: those of the first, a separator, and those of the second, further down. -/
theorem tokenize_joined {first second : String} {tokens tokens' : List Token} {last last' : Lexer}
    (h : tokenize file first = (tokens, none, last)) (hclosed : View.trackAll [] tokens = .ok [])
    (h' : tokenize file second = (tokens', none, last')) :
    ∃ separator last, separator.lexeme = .semicolon ∧
      tokenize file (first ++ "\n" ++ second) =
        (tokens ++ separator ::
          tokens'.map (·.relocate (·.below (first.toList.count '\n' + 1 : Nat))), none, last) := by
  let lines := first.toList.count '\n' + 1
  let view := (Lexer.ofSource file first).view
  let behind := View.behindNewline file view.cursor.atEnd second.toList
  have hgoing := Lexer.going_ofSource file
  have hline : behind.cursor.line = 1 + lines := by
    show view.cursor.atEnd.line + 1 = 1 + lines
    rw [Cursor.line_atEnd]
    exact Nat.add_assoc ..
  have hbelow : View.Below lines (Lexer.ofSource file second).view behind :=
    ⟨⟨rfl, hline, rfl⟩, rfl, hgoing second, fun hended => by cases hended⟩
  have hview : (Lexer.ofSource file (first ++ "\n" ++ second)).view =
      view.followed ('\n' :: second.toList) := by
    simp [view, Lexer.ofSource, Lexer.ofText, Lexer.view, View.followed, Cursor.followed,
      Cursor.start]
  let more := first.toList.length + second.toList.length + 1
  have hsecond : (Lexer.ofSource file second).view.remaining file more = _ :=
    remaining_of_tokenize h' (by omega)
  obtain ⟨place, hrest⟩ := hbelow.remaining hsecond
  have hfirst : view.remaining file (first.toList.length + 1) = _ :=
    remaining_of_tokenize h (Nat.lt_succ_self _)
  have hjoined : (view.followed ('\n' :: second.toList)).remaining file _ = _ :=
    View.remaining_followed (hgoing first) (Nat.lt_succ_self _) hfirst hclosed _ more
  have hbehind :
      (View.behindNewline file view.cursor.atEnd second.toList).remaining file more = _ := hrest
  rw [hbehind, ← hview] at hjoined
  have hlength : (first ++ "\n" ++ second).toList.length < tokens.length + (more + 1) := by
    simp only [String.toList_append, List.length_append]
    have hnewline : "\n".toList.length = 1 := rfl
    omega
  obtain ⟨last, hlast⟩ := tokenize_of_remaining hlength hjoined
  exact ⟨_, last, rfl, hlast⟩

end FrontEnd
