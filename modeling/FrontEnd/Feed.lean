import FrontEnd.Lexer.Basic

/-!
# Feeds and rules

A feed hands out tokens one at a time, with one token of lookahead. It can be marked and set back. A
rule reads from a feed: it answers and leaves the feed behind what it read, or it stops with a
fault. The rules of the grammar know no more of a feed than is declared here, so they read from a
lexer in the same way as from any other feed.
-/

set_option autoImplicit false

namespace FrontEnd

/-- What tokens can be read from. -/
class Feed (σ : Type) where
  /-- What a feed can be set back to. -/
  Mark : Type
  lookahead : σ → Lookahead
  /-- Where the next character to read is. -/
  location : σ → Location
  /-- A bound on the tokens still to come. -/
  left : σ → Nat
  /-- Reads the next token and answers where it begins. -/
  advance : σ → EStateM.Result Fault σ Location
  mark : σ → Mark
  reset : Mark → σ → σ
  /-- Notes an event in the log. -/
  note : Event → σ → σ

instance : Feed Lexer where
  Mark := Lexer.Mark
  lookahead := Lexer.lookahead
  location := Lexer.location
  left := Lexer.left
  advance := Lexer.advance
  mark := Lexer.mark
  reset := Lexer.reset
  note := Lexer.note

/-- What reads from a feed of type `σ` and answers with an `α`. -/
abbrev Rule (σ α : Type) := EStateM Fault σ α

namespace Rule

variable {σ α : Type} [Feed σ]

/-! ## Steps -/

/-- What is in front. -/
def look : Rule σ Lookahead := fun feed => .ok (Feed.lookahead feed) feed

/-- The token in front, if one is there. -/
def peek : Rule σ (Option Token) := fun feed => .ok (Feed.lookahead feed).token? feed

def advance : Rule σ Location := Feed.advance

/-- Where the feed stands. -/
def position : Rule σ Location := fun feed => .ok (Feed.location feed) feed

def mark : Rule σ (Feed.Mark σ) := fun feed => .ok (Feed.mark feed) feed

def reset (mark : Feed.Mark σ) : Rule σ Unit := fun feed => .ok () (Feed.reset mark feed)

def note (event : Event) : Rule σ Unit := fun feed => .ok () (Feed.note event feed)

/-- Stops with a diagnostic. -/
def fail (location : Location) (cause : Cause) : Rule σ α :=
  fun feed => .error (.diagnostic ⟨location, cause, .error⟩) feed

/-- Runs a rule with a bound on the tokens still to come. -/
def bounded (rule : Nat → Rule σ α) : Rule σ α := fun feed => rule (Feed.left feed) feed

/-! ## Expectations -/

/-- The place of the token in front, or where the feed stands. -/
def here : Rule σ Location := do
  match ← peek with
  | some token => pure token.location
  | none => position

/-- Stops because something else was expected. -/
def expected (what : String) : Rule σ α := do
  match ← look with
  | .ready token => fail token.location (.unexpected token.lexeme.form (.words what))
  | .unstarted => fail (← position) .notStarted
  | .ended => fail (← position) (.endOfInput (.words what))

/-- Whether the token in front is the given one. -/
def ahead (form : Form) : Rule σ Bool := do
  match ← peek with
  | some token => pure (token.lexeme.is form)
  | none => pure false

/-- Reads over the token in front, which must be the given one. -/
def chomp (form : Form) : Rule σ Unit := do
  match ← look with
  | .unstarted => fail (← position) .notStarted
  | .ended => fail (← position) (.endOfInput (.lexeme form))
  | .ready token =>
      if token.lexeme.is form then
        discard advance
      else
        fail token.location (.unexpected token.lexeme.form (.lexeme form))

/-- Reads the first token if none was read yet. -/
def begin : Rule σ Unit := do
  match ← look with
  | .unstarted => discard advance
  | _ => pure ()

/-! ## Repetition -/

/-- Reads over at most `bound` separators. -/
def skipUpTo : Nat → Rule σ Unit
  | 0 => pure ()
  | bound + 1 => do
      if ← ahead Lexeme.semicolon.form then
        let _ ← advance
        skipUpTo bound
      else
        pure ()

/-- Reads over the separators in front. -/
def skipSemicolons : Rule σ Unit :=
  bounded skipUpTo

/-- Applies a rule until it finds nothing, at most `bound` times. -/
def manyUpTo (rule : Rule σ (Option α)) : Nat → Rule σ (List α)
  | 0 => pure []
  | bound + 1 => do
      let start ← mark
      match ← rule with
      | none =>
          reset start
          pure []
      | some item =>
          let items ← manyUpTo rule bound
          pure (item :: items)

/-- Applies a rule until it finds nothing, and sets the feed back to where that was. Each item takes
a token, so the bound is never reached. -/
def many (rule : Rule σ (Option α)) : Rule σ (List α) :=
  bounded fun left => manyUpTo rule (left + 1)

end Rule

end FrontEnd
