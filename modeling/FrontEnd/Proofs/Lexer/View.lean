import FrontEnd.Proofs.Lexer.Nesting
import FrontEnd.Proofs.Rules.Lasting

/-!
# What can be seen of a lexer

Two lexers on one text behave alike if their cursors, their tokens in front and their stacks of open
brackets are the same, whatever else is in their arenas and logs. `Lexer.view` is that part of a
lexer, and `View.advance` is the advance on it, with a plain stack in the place of the arena.

* `Lexer.advance_view` — an advance of a lexer is seen as an advance of its view: it answers the
  same or stops for the same reason, and leaves the same view.
* `Lexer.Grows` — what all operations keep of a lexer: its text's name and size, and the frames.
-/

set_option autoImplicit false

namespace FrontEnd

/-! ## Views -/

/-- What can be seen of a lexer: where it stands, what is in front, and the open brackets, innermost
first, with their places. -/
structure View where
  cursor : Cursor
  lookahead : Lookahead
  stack : List (Location × Bracket)
  deriving DecidableEq, Repr

def Lexer.view (lexer : Lexer) : View :=
  ⟨lexer.cursor, lexer.lookahead, lexer.brackets.stack⟩

namespace View

/-- The cursor at the next token, or at the end. -/
def nextCursor (view : View) : Cursor :=
  view.cursor.move
    (view.cursor.rest.takeWhile (Lexer.isSkipped (!view.stack.isEmpty))).length

/-- The open brackets after a lexeme at a place. -/
def track (stack : List (Location × Bracket)) (location : Location) :
    Lexeme → Except Cause (List (Location × Bracket))
  | .opening bracket => .ok ((location, bracket) :: stack)
  | .closing bracket => Brackets.popped stack bracket
  | _ => .ok stack

/-- Reads the token at `start`, where the characters `c :: rest` follow. -/
def accept (file : String) (view : View) (start : Cursor) (c : Char) (rest : List Char) :
    Except Fault Location × View :=
  let scan := Scan.token c rest
  let place := start.location file
  let stopped := { view with cursor := start.move scan.taken.length }
  match scan.found with
  | .error flaw => (.error (flaw.fault place), stopped)
  | .ok lexeme =>
      match track view.stack place lexeme with
      | .error cause => (.error (.diagnostic ⟨place, cause, .error⟩), stopped)
      | .ok stack =>
          (.ok place,
            { stopped with
              lookahead := .ready ⟨place, lexeme, String.ofList scan.taken⟩
              stack := stack })

/-- Reads the next token: the answer, and the view afterwards. -/
def advance (file : String) (view : View) : Except Fault Location × View :=
  match view.lookahead with
  | .ended => (.ok (view.cursor.location file), view)
  | _ =>
      let start := view.nextCursor
      match start.rest with
      | [] => (.ok (start.location file), { view with cursor := start, lookahead := .ended })
      | c :: rest => accept file view start c rest

theorem advance_of_ne_ended {view : View} (file : String)
    (h : view.lookahead ≠ .ended) :
    view.advance file =
      match view.nextCursor.rest with
      | [] =>
          (.ok (view.nextCursor.location file),
            { view with cursor := view.nextCursor, lookahead := .ended })
      | c :: rest => view.accept file view.nextCursor c rest := by
  unfold advance
  split
  · contradiction
  · rfl

/-- The open brackets after some tokens. -/
def trackAll (stack : List (Location × Bracket)) (tokens : List Token) :
    Except Cause (List (Location × Bracket)) :=
  tokens.foldlM (fun stack token => track stack token.location token.lexeme) stack

theorem trackAll_cons (stack : List (Location × Bracket)) (token : Token) (tokens : List Token) :
    trackAll stack (token :: tokens) =
      (track stack token.location token.lexeme).bind fun stack => trackAll stack tokens :=
  List.foldlM_cons

theorem trackAll_append (stack : List (Location × Bracket)) (front behind : List Token) :
    trackAll stack (front ++ behind) =
      (trackAll stack front).bind fun stack => trackAll stack behind :=
  List.foldlM_append

variable {file : String} {view next : View} {place : Location}

/-- The token that is scanned at a cursor in front of `c :: rest`. -/
def tokenAt (file : String) (cursor : Cursor) (c : Char) (rest : List Char) (lexeme : Lexeme) :
    Token :=
  ⟨cursor.location file, lexeme, String.ofList (Scan.token c rest).taken⟩

/-- An advance over a token. -/
theorem advance_of_found {c : Char} {rest : List Char} {lexeme : Lexeme}
    {stack : List (Location × Bracket)} (hne : view.lookahead ≠ .ended)
    (hrest : view.nextCursor.rest = c :: rest) (hfound : (Scan.token c rest).found = .ok lexeme)
    (htrack : track view.stack (view.nextCursor.location file) lexeme = .ok stack) :
    view.advance file = (.ok (view.nextCursor.location file),
      ⟨view.nextCursor.move (Scan.token c rest).taken.length,
        .ready (tokenAt file view.nextCursor c rest lexeme), stack⟩) := by
  rw [advance_of_ne_ended file hne, hrest]
  simp only [accept, hfound, htrack, tokenAt]

/-- An advance that answers ended the input or went over a token. -/
theorem advance_eq_ok (hne : view.lookahead ≠ .ended)
    (h : view.advance file = (.ok place, next)) :
    (view.nextCursor.rest = [] ∧ next.lookahead = .ended ∧ place = next.cursor.location file) ∨
      ∃ c rest lexeme stack, view.nextCursor.rest = c :: rest ∧
        (Scan.token c rest).found = .ok lexeme ∧
        track view.stack (view.nextCursor.location file) lexeme = .ok stack ∧
        place = view.nextCursor.location file ∧
        next = ⟨view.nextCursor.move (Scan.token c rest).taken.length,
          .ready (tokenAt file view.nextCursor c rest lexeme), stack⟩ := by
  rw [advance_of_ne_ended file hne] at h
  cases hrest : view.nextCursor.rest with
  | nil =>
    rw [hrest] at h
    cases h
    exact .inl ⟨rfl, rfl, rfl⟩
  | cons c rest =>
    rw [hrest] at h
    simp only [accept] at h
    cases hfound : (Scan.token c rest).found with
    | error flaw => simp [hfound] at h
    | ok lexeme =>
      rw [hfound] at h
      dsimp only at h
      cases ht : track view.stack (view.nextCursor.location file) lexeme with
      | error cause => simp [ht] at h
      | ok stack =>
        rw [ht] at h
        cases h
        exact .inr ⟨c, rest, lexeme, stack, rfl, hfound, ht, rfl, rfl⟩

/-- An advance that fails stands where the scan stopped. It found a flaw there, or a lexeme that the
open brackets do not allow. -/
theorem advance_error {fault : Fault} (h : view.advance file = (.error fault, next)) :
    ∃ c rest, view.lookahead ≠ .ended ∧ view.nextCursor.rest = c :: rest ∧
      next = { view with cursor := view.nextCursor.move (Scan.token c rest).taken.length } ∧
      ((∃ flaw, (Scan.token c rest).found = .error flaw ∧
          fault = flaw.fault (view.nextCursor.location file)) ∨
        ∃ lexeme cause, (Scan.token c rest).found = .ok lexeme ∧
          track view.stack (view.nextCursor.location file) lexeme = .error cause ∧
          fault = .diagnostic ⟨view.nextCursor.location file, cause, .error⟩) := by
  have hne : view.lookahead ≠ .ended := by
    intro hended
    simp [advance, hended] at h
  rw [advance_of_ne_ended file hne] at h
  cases hrest : view.nextCursor.rest with
  | nil =>
    rw [hrest] at h
    cases h
  | cons c rest =>
    rw [hrest] at h
    simp only [accept] at h
    refine ⟨c, rest, hne, rfl, ?_⟩
    cases hfound : (Scan.token c rest).found with
    | error flaw =>
      rw [hfound] at h
      cases h
      exact ⟨rfl, .inl ⟨flaw, rfl, rfl⟩⟩
    | ok lexeme =>
      rw [hfound] at h
      dsimp only at h
      cases htrack : track view.stack (view.nextCursor.location file) lexeme with
      | ok stack =>
        rw [htrack] at h
        cases h
      | error cause =>
        rw [htrack] at h
        cases h
        exact ⟨rfl, .inr ⟨lexeme, cause, rfl, htrack, rfl⟩⟩

/-- Only a closing bracket can be out of place. -/
theorem track_eq_error {stack : List (Location × Bracket)} {lexeme : Lexeme} {cause : Cause}
    (h : track stack place lexeme = .error cause) :
    ∃ bracket, lexeme = .closing bracket ∧ Brackets.popped stack bracket = .error cause := by
  cases lexeme with
  | closing bracket => exact ⟨bracket, rfl, h⟩
  | _ => cases h

end View

/-! ## Advances and views -/

namespace Lexer

/-- What stays of a lexer through all operations: its name and size, and all frames. -/
structure Grows (older newer : Lexer) : Prop where
  file : newer.file = older.file
  size : newer.size = older.size
  frames : Extends older.brackets.frames newer.brackets.frames

theorem Grows.refl (lexer : Lexer) : lexer.Grows lexer :=
  ⟨rfl, rfl, .refl _⟩

theorem Grows.trans {first second third : Lexer} (h₁ : first.Grows second)
    (h₂ : second.Grows third) : first.Grows third :=
  ⟨h₂.file.trans h₁.file, h₂.size.trans h₁.size, h₁.frames.trans h₂.frames⟩

/-- Tracking a lexeme is seen as tracking it on the stack. -/
theorem track_spec {brackets : Brackets} (h : brackets.Sound) (location : Location)
    (lexeme : Lexeme) :
    match track brackets location lexeme with
    | .ok (after, _) =>
        View.track brackets.stack location lexeme = .ok after.stack ∧ after.Sound ∧
          Extends brackets.frames after.frames
    | .error cause => View.track brackets.stack location lexeme = .error cause := by
  cases lexeme with
  | opening bracket =>
    refine ⟨?_, Brackets.sound_opened h _ _, .push _ _⟩
    rw [Brackets.stack_opened h]
    rfl
  | closing bracket =>
    have hclosed := Brackets.closed_spec h bracket
    simp only [track, View.track]
    cases hc : brackets.closed bracket with
    | error cause =>
      rw [hc] at hclosed
      exact hclosed
    | ok after =>
      rw [hc] at hclosed
      obtain ⟨hstack, hsound, hframes⟩ := hclosed
      refine ⟨hstack, hsound, ?_⟩
      rw [hframes]
      exact .refl _
  | _ => exact ⟨rfl, h, .refl _⟩

variable {lexer : Lexer}

theorem nextCursor_view (h : lexer.brackets.Sound) : lexer.view.nextCursor = lexer.nextCursor := by
  have hinside : (!lexer.brackets.stack.isEmpty) = lexer.brackets.innermost.isSome := by
    rw [Bool.eq_iff_iff]
    simp [Brackets.stack, Brackets.openFrames_eq_nil_iff h, Option.isSome_iff_ne_none]
  simp only [View.nextCursor, view, nextCursor, hinside]

theorem accept_view (h : lexer.brackets.Sound) (start : Cursor) (c : Char) (rest : List Char) :
    match lexer.accept start c rest with
    | .ok location after =>
        lexer.view.accept lexer.file start c rest = (.ok location, after.view) ∧
          after.brackets.Sound ∧ lexer.Grows after
    | .error fault after =>
        lexer.view.accept lexer.file start c rest = (.error fault, after.view) ∧
          after.brackets.Sound ∧ lexer.Grows after := by
  simp only [accept, View.accept]
  cases (Scan.token c rest).found with
  | error flaw => exact ⟨rfl, h, rfl, rfl, .refl _⟩
  | ok lexeme =>
    have htrack := track_spec h (start.location lexer.file) lexeme
    dsimp only
    cases ht : track lexer.brackets (start.location lexer.file) lexeme with
    | error cause =>
      rw [ht] at htrack
      dsimp only at htrack ⊢
      simp only [view, htrack, true_and]
      exact ⟨h, rfl, rfl, .refl _⟩
    | ok tracked =>
      rw [ht] at htrack
      obtain ⟨hstack, hsound, hframes⟩ := htrack
      dsimp only at hstack ⊢
      simp only [view, hstack, true_and]
      exact ⟨hsound, rfl, rfl, hframes⟩

/-- A lexer does not begin at its end, also in front of an empty text. -/
theorem going_ofSource (file source : String) : (Lexer.ofSource file source).lookahead ≠ .ended :=
  nofun

theorem advance_of_ended (h : lexer.lookahead = .ended) :
    lexer.advance = .ok lexer.location lexer := by
  simp [advance, h]

theorem advance_of_ne_ended (h : lexer.lookahead ≠ .ended) :
    lexer.advance =
      match lexer.nextCursor.rest with
      | [] => .ok (lexer.nextCursor.location lexer.file) (lexer.finish lexer.nextCursor)
      | c :: rest => lexer.accept lexer.nextCursor c rest := by
  unfold advance
  split
  · contradiction
  · rfl

/-- **An advance is seen as an advance of the view**, whether it answers or fails, and keeps the
arena sound. -/
theorem advance_view (h : lexer.brackets.Sound) :
    match lexer.advance with
    | .ok location after =>
        lexer.view.advance lexer.file = (.ok location, after.view) ∧
          after.brackets.Sound ∧ lexer.Grows after
    | .error fault after =>
        lexer.view.advance lexer.file = (.error fault, after.view) ∧
          after.brackets.Sound ∧ lexer.Grows after := by
  by_cases hend : lexer.lookahead = .ended
  · have hv : lexer.view.advance lexer.file = (.ok lexer.location, lexer.view) := by
      simp [View.advance, view, hend, location]
    rw [advance_of_ended hend]
    exact ⟨hv, h, .refl _⟩
  · rw [advance_of_ne_ended hend, View.advance_of_ne_ended lexer.file hend, nextCursor_view h]
    cases lexer.nextCursor.rest with
    | nil => exact ⟨rfl, h, rfl, rfl, .refl _⟩
    | cons c rest => exact accept_view h lexer.nextCursor c rest

end Lexer

end FrontEnd
