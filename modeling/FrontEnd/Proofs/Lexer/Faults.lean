import FrontEnd.Proofs.Lexer.Advance
import FrontEnd.Proofs.Lexer.Unquoted
import FrontEnd.Proofs.Session.Positions

/-!
# Where scans fail

A scan that fails is reported where it began. What it complains about begins there: the character
that begins no token, the literal that is out of range, the bracket out of place, or the quote that
is never closed.

* `Cause.Offends` — a text begins with what a cause complains about.
* `Lexer.offends_of_advance` — an advance that fails does so in front of what it complains about.
* `Lexer.Reached.pos_of_ended` — where no token is in front any more, the whole text was read.
-/

set_option autoImplicit false

namespace FrontEnd

/-- The place of a position in a source. -/
def placeAt (file source : String) (pos : Nat) : Location :=
  ⟨file, Text.lineOf source.toList pos, Text.colOf source.toList pos⟩

theorem Cursor.StandsIn.location_eq {source : String} {cursor : Cursor}
    (h : cursor.StandsIn source.toList) (file : String) :
    cursor.location file = placeAt file source cursor.pos := by
  rw [placeAt, ← h.line, ← h.col]
  rfl

/-- The codes of what is wrong with the spelling of a token. -/
def lexicalCodes : List String := ["E100", "E101", "E102", "E104"]

/-- A text begins with the lexeme that a cause complains about. -/
def Cause.Offends (text : List Char) : Cause → Prop
  | .unrecognized c => text.head? = some c
  | .outOfRange literal => literal.toList ≠ [] ∧ literal.toList <+: text
  | .unopened closing => text.head? = some closing.closer
  | .mismatched closing _ _ => text.head? = some closing.closer
  | .unterminated => ∃ inside, text = '"' :: inside ∧ '"' ∉ inside
  | _ => False

theorem Cause.Offends.code_mem {text : List Char} {cause : Cause} (h : cause.Offends text) :
    cause.code ∈ lexicalCodes := by
  cases cause with
  | unrecognized c => simp [code, lexicalCodes]
  | outOfRange literal => simp [code, lexicalCodes]
  | unopened closing => simp [code, lexicalCodes]
  | mismatched closing opening openedAt => simp [code, lexicalCodes]
  | unterminated => simp [code, lexicalCodes]
  | _ => exact h.elim

/-! ## Scans -/

namespace Scan

/-- A number fails as a whole, or because it has too many digits to be looked at. -/
theorem number_error {negative : Bool} {text : List Char} {flaw : Flaw}
    (h : (number negative text).found = .error flaw) :
    (∃ count, flaw = .tooManyDigits count) ∨
      flaw = .outOfRange (String.ofList (number negative text).taken) := by
  unfold number at h ⊢
  cases hfraction : fractionDigits (text.dropWhile Text.isDigit) with
  | some fraction =>
    rw [hfraction] at h
    cases h
  | none =>
    rw [hfraction] at h
    have hsign : (if negative then '-' :: text.takeWhile Text.isDigit
        else text.takeWhile Text.isDigit) =
          (if negative then ['-'] else []) ++ text.takeWhile Text.isDigit := by
      cases negative <;> rfl
    simp only [integer, hsign] at h
    split at h
    · cases h
      exact .inr rfl
    · split at h
      · cases h
        exact .inl ⟨_, rfl⟩
      · split at h
        · cases h
        · cases h
          exact .inr rfl

/-- What a number that begins with a digit takes begins with that digit. -/
theorem taken_ne_nil_of_digit {c : Char} (h : Text.isDigit c = true) (rest : List Char) :
    (number false (c :: rest)).taken ≠ [] := by
  unfold number
  rw [List.takeWhile_cons_of_pos h]
  cases fractionDigits ((c :: rest).dropWhile Text.isDigit) <;> simp

theorem taken_ne_nil_of_minus (text : List Char) : (number true text).taken ≠ [] := by
  unfold number
  cases fractionDigits (text.dropWhile Text.isDigit) <;> simp

/-- **A scan that fails stands in front of what it complains about.** -/
theorem offends_of_error {c : Char} {rest : List Char} {flaw : Flaw} {place : Location}
    {diagnostic : Diagnostic} (h : (token c rest).found = .error flaw)
    (hfault : flaw.fault place = .diagnostic diagnostic) :
    diagnostic.location = place ∧ diagnostic.cause.Offends (c :: rest) := by
  have hprefix := token_taken_isPrefix c rest
  have hnumber : ∀ {negative : Bool} {text : List Char}, token c rest = number negative text →
      (number negative text).taken ≠ [] →
        diagnostic.location = place ∧ diagnostic.cause.Offends (c :: rest) := by
    intro negative text htoken htaken
    rw [htoken] at h hprefix
    rcases number_error h with ⟨count, rfl⟩ | rfl
    · cases hfault
    · cases hfault
      refine ⟨rfl, ?_, ?_⟩ <;> rwa [String.toList_ofList]
  unfold token at h
  split at h
  · rename_i hdigit
    exact hnumber (token_of_digit hdigit rest) (taken_ne_nil_of_digit hdigit rest)
  · split at h
    · rename_i hminus
      obtain ⟨rfl, hstart⟩ := hminus
      exact hnumber (token_of_minus hstart) (taken_ne_nil_of_minus rest)
    · split at h
      · cases h
      · split at h
        · cases h
        · split at h
          · rename_i hquote
            subst hquote
            unfold quotedRest at h
            split at h
            · rename_i hnone
              cases h
              cases hfault
              refine ⟨rfl, rest, rfl, fun hmem => ?_⟩
              have hall := List.dropWhile_eq_nil_iff.mp hnone '"' hmem
              simp at hall
            · cases h
          · unfold single at h
            split at h
            · cases h
            · cases h
              cases hfault
              exact ⟨rfl, rfl⟩

end Scan

/-! ## Advances -/

namespace View

/-- An advance that fails with a diagnostic stands in front of what it complains about. -/
theorem offends_of_advance {file : String} {view next : View} {diagnostic : Diagnostic}
    (h : view.advance file = (.error (.diagnostic diagnostic), next)) :
    diagnostic.location = view.nextCursor.location file ∧
      diagnostic.cause.Offends view.nextCursor.rest := by
  obtain ⟨c, rest, -, hrest, -, hwhy⟩ := advance_error h
  rw [hrest]
  rcases hwhy with ⟨flaw, hfound, hfault⟩ | ⟨lexeme, cause, hfound, htrack, hfault⟩
  · exact Scan.offends_of_error hfound hfault.symm
  · cases hfault
    refine ⟨rfl, ?_⟩
    obtain ⟨bracket, rfl, hpopped⟩ := track_eq_error htrack
    obtain rfl := Scan.eq_closer_of_found hfound
    unfold Brackets.popped at hpopped
    split at hpopped
    · cases hpopped
      rfl
    · split at hpopped
      · cases hpopped
      · cases hpopped
        rfl

end View

namespace Lexer

variable {file source : String} {lexer left : Lexer}

/-- **An advance that fails with a diagnostic points to what it complains about**, where the next
token would have begun. -/
theorem offends_of_advance (h : Reached (.ofSource file source) lexer) {diagnostic : Diagnostic}
    (hadvance : lexer.advance = .error (.diagnostic diagnostic) left) :
    lexer.nextCursor.pos ≤ source.length ∧
      diagnostic.location = placeAt file source lexer.nextCursor.pos ∧
      diagnostic.cause.Offends (source.toList.drop lexer.nextCursor.pos) := by
  obtain ⟨hsound, hgrows⟩ := h.sound Brackets.sound_none
  have hview := advance_view hsound
  rw [hadvance] at hview
  obtain ⟨hlocation, hoffends⟩ := View.offends_of_advance hview.1
  rw [nextCursor_view hsound] at hlocation hoffends
  have hstands : lexer.nextCursor.StandsIn source.toList := by
    rw [← nextCursor_view hsound]
    exact h.standsIn.move _
  have hfile : lexer.file = file := hgrows.file
  rw [hfile, hstands.location_eq] at hlocation
  rw [hstands.rest] at hoffends
  exact ⟨String.length_toList ▸ hstands.pos_le, hlocation, hoffends⟩

/-- Where no token is in front any more, the lexer stands at the end of the text. -/
theorem Reached.pos_of_ended (h : Reached (.ofSource file source) lexer)
    (hended : lexer.lookahead = .ended) : lexer.cursor.pos = source.length := by
  have hrest : lexer.cursor.rest = [] :=
    h.rest_of_ended (going_ofSource file source) hended
  have hstands := h.standsIn
  rw [hstands.rest, List.drop_eq_nil_iff, String.length_toList] at hrest
  have hle := hstands.pos_le
  rw [String.length_toList] at hle
  omega

end Lexer

end FrontEnd
