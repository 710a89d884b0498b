import FrontEnd.Grammar

/-!
# Reading sources

A source is read by the grammar over a lexer. What comes of it is a list of declarations or a fault,
and in either case a log.
-/

set_option autoImplicit false

namespace FrontEnd

/-- How deeply terms and patterns may nest in each other. -/
def nestingBudget : Nat := 512

/-- What reading a source led to. -/
structure Reading where
  outcome : Except Fault (List Decl)
  events : List Event

/-- Reads a source within a budget for nesting. -/
def readWithin (budget : Nat) (file source : String) : Reading :=
  match Grammar.file budget (Lexer.ofSource file source) with
  | .ok decls lexer => ⟨.ok decls, lexer.events⟩
  | .error fault lexer => ⟨.error fault, lexer.events⟩

/-- Reads a source. -/
def read (file source : String) : Reading :=
  readWithin nestingBudget file source

/-- The declarations of a source, or what stopped their reading. -/
def parse (file source : String) : Except Fault (List Decl) :=
  (read file source).outcome

/-! ## Tokens -/

/-- Reads tokens up to the end or the first fault, at most `bound` of them: the tokens, the fault,
and the lexer afterwards. -/
def Lexer.tokensUpTo : Nat → Lexer → List Token × Option Fault × Lexer
  | 0, lexer => ([], none, lexer)
  | bound + 1, lexer =>
      match lexer.advance with
      | .error fault lexer => ([], some fault, lexer)
      | .ok _ lexer =>
          match lexer.lookahead.token? with
          | none => ([], none, lexer)
          | some token =>
              let (tokens, fault, lexer) := tokensUpTo bound lexer
              (token :: tokens, fault, lexer)

/-- All tokens of a source up to the end or the first fault. -/
def tokenize (file source : String) : List Token × Option Fault × Lexer :=
  let lexer := Lexer.ofSource file source
  lexer.tokensUpTo lexer.left

end FrontEnd
