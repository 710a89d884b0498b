import FrontEnd.Decimal.Binary64
import FrontEnd.Location

/-!
# Syntax trees

The trees of patterns, expressions and declarations. Where a node begins with another node or with a
name, its location is the one of that node or name; only the other nodes hold a location of their
own.
-/

set_option autoImplicit false

namespace FrontEnd

/-- A name where it stands in the source. -/
structure Name where
  text : String
  location : Location
  deriving DecidableEq, Repr

/-- What a value is matched with. Names that begin with an uppercase letter are constructors. -/
inductive Pattern where
  | variable (name : Name)
  | integer (location : Location) (value : Int)
  | text (location : Location) (value : String)
  | constructor (name : Name) (arguments : List Pattern)
  | tuple (location : Location) (members : List Pattern)
  deriving Repr

mutual

/-- An expression. Operators are symbols like any other name. -/
inductive Expr where
  | lambda (location : Location) (parameters : List Name) (body : Expr)
  | binding (location : Location) (name : Name) (value body : Expr)
  | integer (location : Location) (value : Int)
  | float (location : Location) (value : Binary64)
  | text (location : Location) (value : String)
  | symbol (name : Name)
  | matching (location : Location) (subject : Expr) (arms : List Arm)
  | call (function : Expr) (arguments : List Expr)
  | tuple (location : Location) (members : List Expr)
  deriving Repr

/-- An arm of a match: the value of the first arm whose pattern fits is the value of the match. -/
inductive Arm where
  | mk (pattern : Pattern) (body : Expr)
  deriving Repr

end

/-- The definition of a name for the arguments that its patterns fit. -/
structure Decl where
  name : Name
  patterns : List Pattern
  body : Expr
  deriving Repr

/-- A tree of any sort. -/
inductive Node where
  | ofName (name : Name)
  | ofPattern (pattern : Pattern)
  | ofExpr (expr : Expr)
  | ofArm (arm : Arm)
  | ofDecl (decl : Decl)
  deriving Repr

/-! ## Locations -/

def Pattern.location : Pattern → Location
  | .variable name => name.location
  | .integer location _ => location
  | .text location _ => location
  | .constructor name _ => name.location
  | .tuple location _ => location

/-- A call begins where its function begins. -/
def Expr.location : Expr → Location
  | .lambda location _ _ => location
  | .binding location _ _ _ => location
  | .integer location _ => location
  | .float location _ => location
  | .text location _ => location
  | .symbol name => name.location
  | .matching location _ _ => location
  | .call function _ => function.location
  | .tuple location _ => location

def Arm.location : Arm → Location
  | .mk pattern _ => pattern.location

def Decl.location (decl : Decl) : Location :=
  decl.name.location

def Node.location : Node → Location
  | .ofName name => name.location
  | .ofPattern pattern => pattern.location
  | .ofExpr expr => expr.location
  | .ofArm arm => arm.location
  | .ofDecl decl => decl.location

end FrontEnd
