import FrontEnd.Tree.Basic

/-!
# Relocation

The same tree at other places. A function that moves locations moves a tree by moving every location
in it; one that forgets them tells whether two trees are equal up to their locations.
-/

set_option autoImplicit false

namespace FrontEnd

/-- The location a number of lines further down. -/
def Location.below (lines : Int) (location : Location) : Location :=
  { location with line := location.line + lines }

def Name.relocate (move : Location → Location) (name : Name) : Name :=
  ⟨name.text, move name.location⟩

mutual

def Pattern.relocate (move : Location → Location) : Pattern → Pattern
  | .variable name => .variable (name.relocate move)
  | .integer location value => .integer (move location) value
  | .text location value => .text (move location) value
  | .constructor name arguments =>
      .constructor (name.relocate move) (Pattern.relocateAll move arguments)
  | .tuple location members => .tuple (move location) (Pattern.relocateAll move members)

def Pattern.relocateAll (move : Location → Location) : List Pattern → List Pattern
  | [] => []
  | pattern :: rest => pattern.relocate move :: Pattern.relocateAll move rest

end

mutual

def Expr.relocate (move : Location → Location) : Expr → Expr
  | .lambda location parameters body =>
      .lambda (move location) (parameters.map (·.relocate move)) (body.relocate move)
  | .binding location name value body =>
      .binding (move location) (name.relocate move) (value.relocate move) (body.relocate move)
  | .integer location value => .integer (move location) value
  | .float location value => .float (move location) value
  | .text location value => .text (move location) value
  | .symbol name => .symbol (name.relocate move)
  | .matching location subject arms =>
      .matching (move location) (subject.relocate move) (Arm.relocateAll move arms)
  | .call function arguments =>
      .call (function.relocate move) (Expr.relocateAll move arguments)
  | .tuple location members => .tuple (move location) (Expr.relocateAll move members)

def Arm.relocate (move : Location → Location) : Arm → Arm
  | .mk pattern body => .mk (pattern.relocate move) (body.relocate move)

def Expr.relocateAll (move : Location → Location) : List Expr → List Expr
  | [] => []
  | expr :: rest => expr.relocate move :: Expr.relocateAll move rest

def Arm.relocateAll (move : Location → Location) : List Arm → List Arm
  | [] => []
  | arm :: rest => arm.relocate move :: Arm.relocateAll move rest

end

def Decl.relocate (move : Location → Location) (decl : Decl) : Decl :=
  ⟨decl.name.relocate move, decl.patterns.map (·.relocate move), decl.body.relocate move⟩

def Node.relocate (move : Location → Location) : Node → Node
  | .ofName name => .ofName (name.relocate move)
  | .ofPattern pattern => .ofPattern (pattern.relocate move)
  | .ofExpr expr => .ofExpr (expr.relocate move)
  | .ofArm arm => .ofArm (arm.relocate move)
  | .ofDecl decl => .ofDecl (decl.relocate move)

end FrontEnd
