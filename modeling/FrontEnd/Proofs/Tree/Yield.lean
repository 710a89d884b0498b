import FrontEnd.Grammar
import FrontEnd.Proofs.Lexer.Scan

/-!
# Yields

The yield of a tree is the row of its leaves, with the words and operators that its nodes stand
behind. A leaf is all that a tree tells of a token: the lexeme, and the place where the tree has
one.

* `Leaf.Of` — a leaf that tells of a token what is so.
* `Decl.yield`, `Expr.yield`, `Pattern.yield` — the leaves of trees, in order.
* `Lexeme.ofSymbol_identifier`, `Lexeme.ofText_unquote` — no lexeme is lost where a tree only holds
  a text.
-/

set_option autoImplicit false

namespace FrontEnd

/-! ## Lexemes of leaves -/

namespace Lexeme

/-- The lexeme of a symbol. Only operators begin with an operator character. -/
def ofSymbol (text : String) : Lexeme :=
  match text.toList with
  | c :: _ => if isOperatorChar c then .operator text else .identifier text
  | [] => .identifier text

/-- The lexeme of a text: the text in quotes. -/
def ofText (value : String) : Lexeme :=
  .quoted (String.ofList ('"' :: value.toList ++ ['"']))

/-- Whether a lexeme only divides or groups others, so that trees do not hold it. -/
def isPunctuation : Lexeme → Bool
  | .semicolon | .comma | .opening .paren | .closing .paren => true
  | _ => false

def isBracket : Lexeme → Bool
  | .opening _ | .closing _ => true
  | _ => false

end Lexeme

/-- Whether trees hold the lexeme of a token. -/
def Token.isKept (token : Token) : Bool :=
  !token.lexeme.isPunctuation

/-! ## Leaves -/

/-- What a tree tells of a token. -/
structure Leaf where
  location : Option Location
  lexeme : Lexeme
  deriving DecidableEq, Repr

namespace Leaf

/-- A leaf whose place the tree holds. -/
def placed (location : Location) (lexeme : Lexeme) : Leaf :=
  ⟨some location, lexeme⟩

/-- A word or an operator whose place the tree does not hold. -/
def fixed (lexeme : Lexeme) : Leaf :=
  ⟨none, lexeme⟩

/-- The token has the lexeme of the leaf, and stands where the leaf says. -/
structure Of (leaf : Leaf) (token : Token) : Prop where
  lexeme : token.lexeme = leaf.lexeme
  location : ∀ location, leaf.location = some location → token.location = location

theorem Of.of_placed {token : Token} {lexeme : Lexeme} (h : token.lexeme = lexeme) :
    (placed token.location lexeme).Of token :=
  ⟨h, fun _ heq => by cases heq; rfl⟩

theorem Of.of_fixed {token : Token} {lexeme : Lexeme} (h : token.lexeme = lexeme) :
    (fixed lexeme).Of token :=
  ⟨h, fun _ heq => by cases heq⟩

end Leaf

/-! ## Leaves of trees -/

def Name.leaf (name : Name) : Leaf :=
  .placed name.location (.identifier name.text)

/-- The leaf of a name that stands as an expression. -/
def Name.symbolLeaf (name : Name) : Leaf :=
  .placed name.location (.ofSymbol name.text)

mutual

def Pattern.yield : Pattern → List Leaf
  | .variable name => [name.leaf]
  | .integer location value => [.placed location (.signed value)]
  | .text location value => [.placed location (.ofText value)]
  | .constructor name arguments => name.leaf :: Pattern.yieldAll arguments
  | .tuple _ members => Pattern.yieldAll members

def Pattern.yieldAll : List Pattern → List Leaf
  | [] => []
  | pattern :: rest => pattern.yield ++ Pattern.yieldAll rest

end

mutual

/-- The leaves of an expression. Nothing that is read from a source has a `lambda` in it. -/
def Expr.yield : Expr → List Leaf
  | .lambda _ parameters body => parameters.map Name.leaf ++ body.yield
  | .binding location name value body =>
      .placed location (.identifier "let") :: name.leaf :: .fixed .assign ::
        (value.yield ++ .fixed .inWord :: body.yield)
  | .integer location value => [.placed location (.signed value)]
  | .float location value => [.placed location (.float value)]
  | .text location value => [.placed location (.ofText value)]
  | .symbol name => [name.symbolLeaf]
  | .matching location subject arms =>
      .placed location (.identifier "match") :: (subject.yield ++ Arm.yieldAll arms)
  | .call function arguments => function.yield ++ Expr.yieldAll arguments
  | .tuple _ members => Expr.yieldAll members

def Arm.yield : Arm → List Leaf
  | .mk pattern body => pattern.yield ++ .fixed .arrow :: body.yield

def Expr.yieldAll : List Expr → List Leaf
  | [] => []
  | expr :: rest => expr.yield ++ Expr.yieldAll rest

def Arm.yieldAll : List Arm → List Leaf
  | [] => []
  | arm :: rest => arm.yield ++ Arm.yieldAll rest

end

def Decl.yield (decl : Decl) : List Leaf :=
  decl.name.leaf :: (Pattern.yieldAll decl.patterns ++ .fixed .assign :: decl.body.yield)

/-! ## Lists of trees -/

theorem Pattern.yieldAll_eq_flatten (patterns : List Pattern) :
    Pattern.yieldAll patterns = (patterns.map Pattern.yield).flatten := by
  induction patterns with
  | nil => rfl
  | cons pattern rest ih => simp [Pattern.yieldAll, ih]

theorem Expr.yieldAll_eq_flatten (exprs : List Expr) :
    Expr.yieldAll exprs = (exprs.map Expr.yield).flatten := by
  induction exprs with
  | nil => rfl
  | cons expr rest ih => simp [Expr.yieldAll, ih]

theorem Arm.yieldAll_eq_flatten (arms : List Arm) :
    Arm.yieldAll arms = (arms.map Arm.yield).flatten := by
  induction arms with
  | nil => rfl
  | cons arm rest ih => simp [Arm.yieldAll, ih]

/-! ## Lexemes that can be spelled -/

namespace Lexeme

variable {text : String}

theorem ofSymbol_identifier (h : (identifier text).WellFormed) :
    ofSymbol text = .identifier text := by
  obtain ⟨c, rest, htext, hstart, -⟩ := h
  have hc : isOperatorChar c = false := by
    cases hoperator : isOperatorChar c with
    | false => rfl
    | true =>
      rw [isWordStart_of_isOperatorChar hoperator] at hstart
      cases hstart
  simp [ofSymbol, htext, hc]

theorem ofSymbol_operator (h : (operator text).WellFormed) : ofSymbol text = .operator text := by
  obtain ⟨c, rest, htext, hc, -⟩ := h
  simp [ofSymbol, htext, hc]

/-- The quotes that a text lost are put back. -/
theorem ofText_unquote (h : (quoted text).WellFormed) :
    ofText (Grammar.unquote text) = .quoted text := by
  obtain ⟨inside, -, htext⟩ := h
  simp [ofText, Grammar.unquote, htext]

end Lexeme

end FrontEnd
