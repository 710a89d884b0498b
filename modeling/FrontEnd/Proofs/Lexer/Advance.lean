import FrontEnd.Proofs.Lexer.Reached

/-!
# What one advance does

An advance looks at the characters behind the cursor that it does not skip: at the end of the input
there is none, and otherwise one scan decides. Each outcome leaves its own trace in the lexer.

* `Lexer.cases_of_advance_ok` — an advance that answers had nothing left to do, came to the end, or
  went over a token.
* `Lexer.cases_of_advance_error` — one that fails found a flaw or a bracket out of place, and keeps
  the token in front.
* `Lexer.Reached.rest_of_ended` — a lexer that ended has nothing left to read.
-/

set_option autoImplicit false

namespace FrontEnd

namespace Lexer

variable {lexer next : Lexer} {place : Location} {fault : Fault}

/-- The token in front after an advance over `c :: rest`. -/
theorem accept_eq_ok {start : Cursor} {c : Char} {rest : List Char}
    (h : lexer.accept start c rest = .ok place next) :
    ∃ lexeme, (Scan.token c rest).found = .ok lexeme ∧ place = start.location lexer.file ∧
      next.cursor = start.move (Scan.token c rest).taken.length ∧
      next.lookahead = .ready (View.tokenAt lexer.file start c rest lexeme) := by
  simp only [accept] at h
  cases hfound : (Scan.token c rest).found with
  | error flaw =>
    rw [hfound] at h
    cases h
  | ok lexeme =>
    rw [hfound] at h
    dsimp only at h
    cases htrack : track lexer.brackets (start.location lexer.file) lexeme with
    | error cause =>
      rw [htrack] at h
      cases h
    | ok tracked =>
      rw [htrack] at h
      cases h
      exact ⟨lexeme, rfl, rfl, rfl, rfl⟩

theorem accept_eq_error {start : Cursor} {c : Char} {rest : List Char}
    (h : lexer.accept start c rest = .error fault next) :
    next = { lexer with cursor := start.move (Scan.token c rest).taken.length } ∧
      ((∃ flaw, (Scan.token c rest).found = .error flaw ∧
          fault = flaw.fault (start.location lexer.file)) ∨
        ∃ lexeme cause, (Scan.token c rest).found = .ok lexeme ∧
          track lexer.brackets (start.location lexer.file) lexeme = .error cause ∧
          fault = .diagnostic ⟨start.location lexer.file, cause, .error⟩) := by
  simp only [accept] at h
  cases hfound : (Scan.token c rest).found with
  | error flaw =>
    rw [hfound] at h
    cases h
    exact ⟨rfl, .inl ⟨flaw, rfl, rfl⟩⟩
  | ok lexeme =>
    rw [hfound] at h
    dsimp only at h
    cases htrack : track lexer.brackets (start.location lexer.file) lexeme with
    | error cause =>
      rw [htrack] at h
      cases h
      exact ⟨rfl, .inr ⟨lexeme, cause, rfl, htrack, rfl⟩⟩
    | ok tracked =>
      rw [htrack] at h
      cases h

/-- **An advance that answers** had nothing left to do, came to the end of the input, or went over a
token. -/
theorem cases_of_advance_ok (h : lexer.advance = .ok place next) :
    (lexer.lookahead = .ended ∧ next = lexer) ∨
      (lexer.nextCursor.rest = [] ∧ next = lexer.finish lexer.nextCursor) ∨
      ∃ c rest lexeme, lexer.lookahead ≠ .ended ∧ lexer.nextCursor.rest = c :: rest ∧
        (Scan.token c rest).found = .ok lexeme ∧
        next.cursor = lexer.nextCursor.move (Scan.token c rest).taken.length ∧
        next.lookahead = .ready (View.tokenAt lexer.file lexer.nextCursor c rest lexeme) := by
  by_cases hended : lexer.lookahead = .ended
  · rw [advance_of_ended hended] at h
    cases h
    exact .inl ⟨hended, rfl⟩
  · rw [advance_of_ne_ended hended] at h
    cases hrest : lexer.nextCursor.rest with
    | nil =>
      rw [hrest] at h
      cases h
      exact .inr (.inl ⟨rfl, rfl⟩)
    | cons c rest =>
      rw [hrest] at h
      obtain ⟨lexeme, hfound, -, hcursor, hlook⟩ := accept_eq_ok h
      exact .inr (.inr ⟨c, rest, lexeme, hended, rfl, hfound, hcursor, hlook⟩)

/-- **An advance that fails** stands where the scan stopped, and keeps the token in front. It found
a flaw there, or a lexeme that the open brackets do not allow. -/
theorem cases_of_advance_error (h : lexer.advance = .error fault next) :
    ∃ c rest, lexer.lookahead ≠ .ended ∧ lexer.nextCursor.rest = c :: rest ∧
      next = { lexer with cursor := lexer.nextCursor.move (Scan.token c rest).taken.length } ∧
      ((∃ flaw, (Scan.token c rest).found = .error flaw ∧
          fault = flaw.fault (lexer.nextCursor.location lexer.file)) ∨
        ∃ lexeme cause, (Scan.token c rest).found = .ok lexeme ∧
          track lexer.brackets (lexer.nextCursor.location lexer.file) lexeme = .error cause ∧
          fault = .diagnostic ⟨lexer.nextCursor.location lexer.file, cause, .error⟩) := by
  by_cases hended : lexer.lookahead = .ended
  · rw [advance_of_ended hended] at h
    cases h
  · rw [advance_of_ne_ended hended] at h
    cases hrest : lexer.nextCursor.rest with
    | nil =>
      rw [hrest] at h
      cases h
    | cons c rest =>
      rw [hrest] at h
      exact ⟨c, rest, hended, rfl, accept_eq_error h⟩

/-- **The input ends behind its last character**, whatever operations came before. -/
theorem Reached.rest_of_ended {root : Lexer} (hroot : root.lookahead ≠ .ended)
    (h : Reached root lexer) : lexer.lookahead = .ended → lexer.cursor.rest = [] := by
  induction h with
  | root => exact fun hended => absurd hended hroot
  | @advance lexer _ ih =>
    intro hended
    cases ha : lexer.advance with
    | error fault next =>
      have hnext : lexer.advanced = next := Rule.after_of_error ha
      obtain ⟨c, rest, hgoing, -, hafter, -⟩ := cases_of_advance_error ha
      rw [hnext, hafter] at hended
      exact absurd hended hgoing
    | ok place next =>
      have hnext : lexer.advanced = next := Rule.after_of_ok ha
      rw [hnext] at hended ⊢
      rcases cases_of_advance_ok ha with
        ⟨hended', rfl⟩ | ⟨hrest, rfl⟩ | ⟨c, rest, lexeme, -, -, -, -, hlook⟩
      · exact ih hended'
      · exact hrest
      · rw [hlook] at hended
        cases hended
  | note _ _ ih => exact ih
  | reset _ _ _ ihm _ => exact ihm

end Lexer

end FrontEnd
