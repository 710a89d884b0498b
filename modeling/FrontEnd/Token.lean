import FrontEnd.Lexeme
import FrontEnd.Location

/-!
# Tokens
-/

set_option autoImplicit false

namespace FrontEnd

/-- A lexeme at its place, with the characters that spell it. -/
structure Token where
  location : Location
  lexeme : Lexeme
  text : String
  deriving DecidableEq, Repr

namespace Token

/-- Whether two tokens have equal lexemes. -/
def sameLexeme (x y : Token) : Bool :=
  x.lexeme.is y.lexeme.form

/-- Equality of tokens: place and lexeme, whatever the spelling. -/
def same (x y : Token) : Bool :=
  x.location == y.location && x.sameLexeme y

/-- The name of a token that may name a declaration or a variable: an identifier that is no
keyword. -/
def name? (token : Token) : Option String :=
  match token.lexeme with
  | .identifier name => if isKeyword name then none else some name
  | _ => none

end Token

end FrontEnd
