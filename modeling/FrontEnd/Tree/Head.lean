import FrontEnd.Tree.Basic

/-!
# Declaration heads

The head of a declaration is its name with its patterns, as an editor shows it. A constructor with
arguments stands in parentheses beside other patterns; one without arguments never does.
-/

set_option autoImplicit false

namespace FrontEnd

/-- Joins texts with a separator between neighbours. -/
def joinWith (separator : String) (texts : List String) : String :=
  separator.intercalate texts

mutual

/-- The text of a pattern; `nested` says that it stands beside others. -/
def Pattern.shown (nested : Bool) : Pattern → String
  | .variable name => name.text
  | .integer _ value => toString value
  | .text _ value => "\"" ++ value ++ "\""
  | .constructor name [] => name.text
  | .constructor name (first :: more) =>
      let text := joinWith " " (name.text :: first.shown true :: Pattern.shownAll true more)
      if nested then "(" ++ text ++ ")" else text
  | .tuple _ [single] => "(" ++ single.shown false ++ ",)"
  | .tuple _ members => "(" ++ joinWith ", " (Pattern.shownAll false members) ++ ")"

def Pattern.shownAll (nested : Bool) : List Pattern → List String
  | [] => []
  | pattern :: rest => pattern.shown nested :: Pattern.shownAll nested rest

end

/-- The head of a declaration. -/
def Decl.head (decl : Decl) : String :=
  joinWith " " (decl.name.text :: Pattern.shownAll true decl.patterns)

/-- The text of a node where a pattern is shown; what is no pattern has none. -/
def Node.shown (nested : Bool) : Node → String
  | .ofPattern pattern => pattern.shown nested
  | _ => "?"

end FrontEnd
