import FrontEnd.Decimal.Shortest
import FrontEnd.Text.Quoted
import FrontEnd.Tree.Basic

/-!
# Outlines

An outline shows a tree on indented lines without its locations. A node has a title and named
fields; each step inwards indents by two blanks.
-/

set_option autoImplicit false

namespace FrontEnd

mutual

/-- What is shown of a tree: a node of one line, or a node with a title and fields. -/
inductive Outline where
  | line (text : String)
  | node (title : String) (fields : List Field)

/-- A named field of a node: a text, an outline or a list of outlines. -/
inductive Field where
  | text (name text : String)
  | one (name : String) (outline : Outline)
  | many (name : String) (outlines : List Outline)

end

/-- The indentation at a depth; there is none above depth zero. -/
def indent (depth : Int) : String :=
  String.ofList (List.replicate (2 * depth).toNat ' ')

/-- The indentation of the fields of a node that is shown at a depth. -/
def fieldIndent (depth : Int) : String :=
  indent depth ++ "  "

mutual

/-- The lines of an outline at a depth. -/
def Outline.lines (depth : Int) : Outline → List String
  | .line text => [indent depth ++ text]
  | .node title fields => (indent depth ++ title) :: Field.allLines depth fields

/-- The lines of a field of a node that is shown at a depth. -/
def Field.lines (depth : Int) : Field → List String
  | .text name text => [fieldIndent depth ++ name ++ ": " ++ text]
  | .one name outline => (fieldIndent depth ++ name ++ ":") :: outline.lines (depth + 2)
  | .many name [] => [fieldIndent depth ++ name ++ ": []"]
  | .many name (first :: more) =>
      (fieldIndent depth ++ name ++ ":") ::
        (first.lines (depth + 2) ++ Outline.allLines (depth + 2) more)

/-- The lines of the fields of a node. -/
def Field.allLines (depth : Int) : List Field → List String
  | [] => []
  | field :: rest => field.lines depth ++ Field.allLines depth rest

/-- The lines of a list of outlines. -/
def Outline.allLines (depth : Int) : List Outline → List String
  | [] => []
  | outline :: rest => outline.lines depth ++ Outline.allLines depth rest

end

/-! ## Outlines of trees -/

def Name.outline (name : Name) : Outline :=
  .line ("Identifier " ++ Text.quoted name.text)

mutual

def Pattern.outline : Pattern → Outline
  | .variable name => .node "IrrefutablePredicate" [.one "id" name.outline]
  | .integer _ value => .node "IntegerPredicate" [.text "value" (toString value)]
  | .text _ value => .node "StringPredicate" [.text "value" (Text.quoted value)]
  | .constructor name arguments =>
      .node "CtorPredicate"
        [.one "ctor_id" name.outline,
         .many "dims" (Pattern.outlines arguments)]
  | .tuple _ members =>
      .node "TuplePredicate" [.many "dims" (Pattern.outlines members)]

def Pattern.outlines : List Pattern → List Outline
  | [] => []
  | pattern :: rest => pattern.outline :: Pattern.outlines rest

end

mutual

def Expr.outline : Expr → Outline
  | .lambda _ parameters body =>
      .node "Lambda"
        [.many "param_names" (parameters.map Name.outline),
         .one "body" body.outline]
  | .binding _ name value body =>
      .node "Let"
        [.one "binding" name.outline, .one "value" value.outline,
         .one "body" body.outline]
  | .integer _ value => .node "LiteralInteger" [.text "value" (toString value)]
  | .float _ value => .node "LiteralFloat" [.text "value" value.text]
  | .text _ value => .node "LiteralString" [.text "value" (Text.quoted value)]
  | .symbol name => .node "Symbol" [.one "id" name.outline]
  | .matching _ subject arms =>
      .node "Match"
        [.one "subject" subject.outline,
         .many "pattern_exprs" (Arm.outlines arms)]
  | .call function arguments =>
      .node "Callsite"
        [.one "function" function.outline,
         .many "arguments" (Expr.outlines arguments)]
  | .tuple _ members => .node "TupleCtor" [.many "dims" (Expr.outlines members)]

def Arm.outline : Arm → Outline
  | .mk pattern body =>
      .node "PatternExpr"
        [.one "predicate" pattern.outline, .one "expr" body.outline]

def Expr.outlines : List Expr → List Outline
  | [] => []
  | expr :: rest => expr.outline :: Expr.outlines rest

def Arm.outlines : List Arm → List Outline
  | [] => []
  | arm :: rest => arm.outline :: Arm.outlines rest

end

def Decl.outline (decl : Decl) : Outline :=
  .node "Decl"
    [.one "id" decl.name.outline,
     .many "predicates" (Pattern.outlines decl.patterns),
     .one "body" decl.body.outline]

def Node.outline : Node → Outline
  | .ofName name => name.outline
  | .ofPattern pattern => pattern.outline
  | .ofExpr expr => expr.outline
  | .ofArm arm => arm.outline
  | .ofDecl decl => decl.outline

end FrontEnd
