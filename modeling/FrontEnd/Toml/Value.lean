import FrontEnd.Decimal.Shortest
import FrontEnd.Text.Quoted
import FrontEnd.Toml.Lexical

/-!
# TOML values

A table keeps its keys in the order in which they were defined. Values are shown in two ways: on
their own, and inside an array or a table, where texts are quoted and moments are expressions.
-/

set_option autoImplicit false

namespace FrontEnd.Toml

/-- A value of a TOML document. -/
inductive Value where
  | text (value : String)
  | integer (value : Int)
  | float (value : Binary64)
  | boolean (value : Bool)
  | moment (value : Moment)
  | array (items : List Value)
  | table (entries : List (String × Value))
  deriving Repr

/-- The entries of a table. -/
abbrev Table := List (String × Value)

namespace Value

mutual

/-- A value as it is shown inside others. -/
def shownInside : Value → String
  | .text content => FrontEnd.Text.quoted content
  | .integer n => toString n
  | .float x => x.text
  | .boolean true => "True"
  | .boolean false => "False"
  | .moment m => m.expression
  | .array items => "[" ++ ", ".intercalate (itemsShown items) ++ "]"
  | .table entries => "\x7b" ++ ", ".intercalate (entriesShown entries) ++ "\x7d"

def itemsShown : List Value → List String
  | [] => []
  | item :: rest => item.shownInside :: itemsShown rest

def entriesShown : List (String × Value) → List String
  | [] => []
  | (key, value) :: rest =>
      (FrontEnd.Text.quoted key ++ ": " ++ value.shownInside) :: entriesShown rest

end

/-- A value as it is shown on its own. -/
def shown (value : Value) : String :=
  match value with
  | .text content => content
  | .moment m => m.text
  | _ => value.shownInside

mutual

/-- Whether a value can be shown: no integer in it has more digits than can be written. -/
def isWritable : Value → Bool
  | .integer n => isWritableInteger n
  | .array items => allItemsWritable items
  | .table entries => allEntriesWritable entries
  | _ => true

def allItemsWritable : List Value → Bool
  | [] => true
  | item :: rest => item.isWritable && allItemsWritable rest

def allEntriesWritable : List (String × Value) → Bool
  | [] => true
  | (_, value) :: rest => value.isWritable && allEntriesWritable rest

end

/-- Whether a value counts as true: all do but false, zero and what is empty. -/
def isTruthy : Value → Bool
  | .text content => content != ""
  | .integer n => n != 0
  | .float x => !x.sameNumber (.finite false 0 (-1074))
  | .boolean b => b
  | .moment _ => true
  | .array items => !items.isEmpty
  | .table entries => !entries.isEmpty

/-- The name of a value's type in reports. -/
def typeName : Value → String
  | .text _ => "str"
  | .integer _ => "int"
  | .float _ => "float"
  | .boolean _ => "bool"
  | .moment m => m.typeName
  | .array _ => "list"
  | .table _ => "dict"

end Value

end FrontEnd.Toml
