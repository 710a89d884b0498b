import FrontEnd.Decimal.Shortest

/-!
# Lexemes

A lexeme is what a token stands for, whatever its place in a file. A `Form` is a lexeme as reports
and expectations name it: a kind, and a value where one is given. Every lexeme has a form.
-/

set_option autoImplicit false

namespace FrontEnd

/-- The three kinds of brackets. -/
inductive Bracket where
  | paren
  | square
  | curly
  deriving DecidableEq, Repr

namespace Bracket

def opener : Bracket → Char
  | .paren => '('
  | .square => '['
  | .curly => '\x7b'

def closer : Bracket → Char
  | .paren => ')'
  | .square => ']'
  | .curly => '\x7d'

/-- What the names of bracket tokens are built from. -/
def name : Bracket → String
  | .paren => "Paren"
  | .square => "Square"
  | .curly => "Curly"

end Bracket

/-- The classes of lexemes. -/
inductive Kind where
  | signed
  | float
  | quoted
  | identifier
  | operator
  | opening (bracket : Bracket)
  | closing (bracket : Bracket)
  | semicolon
  | comma
  deriving DecidableEq, Repr

/-- The name of a kind in reports. -/
def Kind.name : Kind → String
  | .signed => "Signed"
  | .float => "Float"
  | .quoted => "QuotedString"
  | .identifier => "Identifier"
  | .operator => "Operator"
  | .opening bracket => "L" ++ bracket.name
  | .closing bracket => "R" ++ bracket.name
  | .semicolon => "Semicolon"
  | .comma => "Comma"

/-- What a token stands for. The text of a quoted lexeme includes its two quotes. -/
inductive Lexeme where
  | signed (value : Int)
  | float (value : Binary64)
  | quoted (text : String)
  | identifier (name : String)
  | operator (symbol : String)
  | opening (bracket : Bracket)
  | closing (bracket : Bracket)
  | semicolon
  | comma
  deriving DecidableEq, Repr

/-- The value that a form may carry. -/
inductive FormValue where
  | integer (value : Int)
  | number (value : Binary64)
  | text (value : String)
  deriving DecidableEq, Repr

namespace FormValue

/-- Equality of values; numbers are equal as numbers. -/
def same : FormValue → FormValue → Bool
  | .integer x, .integer y => x == y
  | .number x, .number y => x.sameNumber y
  | .text x, .text y => x == y
  | _, _ => false

def shown : FormValue → String
  | .integer value => toString value
  | .number value => value.text
  | .text value => value

end FormValue

/-- A kind of lexeme, with a value where one is given. -/
structure Form where
  kind : Kind
  value : Option FormValue
  deriving DecidableEq, Repr

/-- Equality of forms: the same kind, and equal values or none. -/
def Form.same (x y : Form) : Bool :=
  x.kind == y.kind &&
    match x.value, y.value with
    | none, none => true
    | some v, some w => v.same w
    | _, _ => false

/-- The text of a form. Names and operators stand in quotes; a quoted text has its own. -/
def Form.text (form : Form) : String :=
  match form.value with
  | none => form.kind.name
  | some value =>
      if form.kind = .identifier ∨ form.kind = .operator then
        form.kind.name ++ "(\"" ++ value.shown ++ "\")"
      else form.kind.name ++ "(" ++ value.shown ++ ")"

namespace Lexeme

/-- The form of a lexeme. -/
def form : Lexeme → Form
  | .signed value => ⟨.signed, some (.integer value)⟩
  | .float value => ⟨.float, some (.number value)⟩
  | .quoted text => ⟨.quoted, some (.text text)⟩
  | .identifier name => ⟨.identifier, some (.text name)⟩
  | .operator symbol => ⟨.operator, some (.text symbol)⟩
  | .opening bracket => ⟨.opening bracket, none⟩
  | .closing bracket => ⟨.closing bracket, none⟩
  | .semicolon => ⟨.semicolon, none⟩
  | .comma => ⟨.comma, none⟩

/-- The text of a lexeme in reports. -/
def text (lexeme : Lexeme) : String :=
  lexeme.form.text

/-- Whether a lexeme is the expected one. -/
def is (lexeme : Lexeme) (expected : Form) : Bool :=
  lexeme.form.same expected

/-- The operator that ends a declaration head and a binding. -/
def assign : Lexeme := .operator "="

/-- The operator between the pattern and the body of a match arm. -/
def arrow : Lexeme := .operator "=>"

def inWord : Lexeme := .identifier "in"

end Lexeme

/-- The reserved words, in alphabetical order. -/
def keywords : List String :=
  ["do", "else", "if", "in", "let", "match", "then"]

/-- Whether a word is reserved. -/
def isKeyword (word : String) : Bool :=
  keywords.contains word

/-- The characters that operators are made of. -/
def operatorChars : List Char :=
  ['.', '=', '>', '<', '-', '+', '!', '@', ':', '$', '%', '^', '&', '*', '/', '?', '~']

def isOperatorChar (c : Char) : Bool :=
  operatorChars.contains c

end FrontEnd
