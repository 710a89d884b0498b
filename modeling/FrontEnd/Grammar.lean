import FrontEnd.Feed
import FrontEnd.Text.Uppercase
import FrontEnd.Tree.Basic

/-!
# The grammar

The rules of the language, over any feed of tokens. A rule with an optional answer answers `none`
when nothing of its own begins here, and then leaves the feed as it was; any other failure stops the
whole reading.

    file        = ";"* (declaration ";"*)*
    declaration = name pattern* "=" application
    pattern     = integer | text | variable | constructor pattern*
                | "(" [pattern ("," pattern)* [","]] ")"
    application = ";"* term term*
    term        = name | operator | integer | float | text
                | "(" ")" | "(" application ("," application)* [","] ")"
                | "let" name "=" application ";"* "in" application
                | "match" application (";"* pattern "=>" application)+

Every repetition takes as many items as it can. Terms and patterns nest in each other; how deeply is
bounded by a budget, which flat sequences do not use up. The rules below take the rules for what is
nested in them as parameters, and `term` and `pattern` tie the knot over the budget.
-/

set_option autoImplicit false

namespace FrontEnd.Grammar

open Rule

variable {σ : Type} [Feed σ]

/-- The text between the quotes of a quoted lexeme. -/
def unquote (text : String) : String :=
  String.ofList (text.toList.tail.dropLast)

/-- Whether a name begins with an uppercase letter, and so names a constructor. -/
def isConstructorName (name : String) : Bool :=
  match name.toList with
  | c :: _ => Text.isUppercase c
  | [] => false

def parenClose : Form := (Lexeme.closing .paren).form

def commaForm : Form := Lexeme.comma.form

/-! ## Patterns -/

section Patterns

variable (inner : Rule σ (Option Pattern))

/-- The members of a group of patterns up to its closing parenthesis, and whether a comma was among
them. -/
def patternMembers : Nat → Rule σ (List Pattern × Bool)
  | 0 => pure ([], false)
  | bound + 1 => do
      if ← ahead parenClose then
        pure ([], false)
      else
        match ← inner with
        | none => expected "a predicate"
        | some member =>
            if ← ahead commaForm then
              let _ ← advance
              let (members, _) ← patternMembers bound
              pure (member :: members, true)
            else
              pure ([member], false)

/-- Reads a group of patterns behind its opening parenthesis, which is at `location`. A single
pattern without a comma is just that pattern. -/
def groupedPattern (location : Location) : Rule σ Pattern := do
  let (members, sawComma) ← bounded fun left => patternMembers inner (left + 1)
  chomp parenClose
  match members, sawComma with
  | [single], false => pure single
  | _, _ => pure (.tuple location members)

/-- Reads a pattern whose parts are read by `inner`. -/
def patternWith : Rule σ (Option Pattern) := do
  match ← peek with
  | none => pure none
  | some token =>
      match token.lexeme with
      | .signed value =>
          let _ ← advance
          pure (some (.integer token.location value))
      | .quoted text =>
          let _ ← advance
          pure (some (.text token.location (unquote text)))
      | .identifier word =>
          if isKeyword word then
            pure none
          else
            let _ ← advance
            let name : Name := ⟨word, token.location⟩
            if isConstructorName word then
              let arguments ← many inner
              pure (some (.constructor name arguments))
            else
              pure (some (.variable name))
      | .opening .paren =>
          let _ ← advance
          let pattern ← groupedPattern inner token.location
          pure (some pattern)
      | _ => pure none

end Patterns

/-- Stops because the budget for nesting is used up. -/
def tooDeep {α : Type} : Rule σ α := do
  fail (← here) .tooDeep

/-- Reads a pattern that nests less deeply than the budget. -/
def pattern : Nat → Rule σ (Option Pattern)
  | 0 => tooDeep
  | budget + 1 => patternWith (pattern budget)

/-! ## Expressions -/

section Expressions

variable (inner : Rule σ (Option Expr)) (patterns : Rule σ (Option Pattern))

/-- Reads a function term and as many argument terms as follow. -/
def application : Rule σ Expr := do
  skipSemicolons
  match ← inner with
  | none => fail (← here) .missingExpression
  | some function =>
      match ← many inner with
      | [] => pure function
      | arguments => pure (.call function arguments)

/-- Reads a name that is no keyword. -/
def identifier : Rule σ Name := do
  match ← peek with
  | none => fail (← here) .missingIdentifier
  | some token =>
      match token.name? with
      | none => fail (← here) .missingIdentifier
      | some name =>
          let _ ← advance
          pure ⟨name, token.location⟩

/-- Reads the rest of a binding behind its keyword, which is at `location`. -/
def bindingRest (location : Location) : Rule σ Expr := do
  let name ← identifier
  chomp Lexeme.assign.form
  let value ← application inner
  skipSemicolons
  chomp Lexeme.inWord.form
  let body ← application inner
  pure (.binding location name value body)

/-- Reads the arms of a match. They end where no pattern followed by an arrow can be read; what was
tried there is taken back, separators included. -/
def armsUpTo : Nat → Rule σ (List Arm)
  | 0 => pure []
  | bound + 1 => do
      let start ← mark
      skipSemicolons
      match ← patterns with
      | none =>
          reset start
          pure []
      | some pattern =>
          if ← ahead Lexeme.arrow.form then
            let _ ← advance
            let body ← application inner
            let arms ← armsUpTo bound
            pure (.mk pattern body :: arms)
          else
            reset start
            pure []

/-- Reads the rest of a match behind its keyword, which is at `location`. -/
def matchRest (location : Location) : Rule σ Expr := do
  let subject ← application inner
  match ← bounded fun left => armsUpTo inner patterns (left + 1) with
  | [] => fail location .noArms
  | arms => pure (.matching location subject arms)

/-- The members of a tuple behind the first one, and whether a comma was among them. A comma may
stand before the closing parenthesis. -/
def tupleMembers : Nat → Rule σ (List Expr × Bool)
  | 0 => pure ([], false)
  | bound + 1 => do
      if ← ahead commaForm then
        let _ ← advance
        if ← ahead parenClose then
          pure ([], true)
        else
          let member ← application inner
          let (members, _) ← tupleMembers bound
          pure (member :: members, true)
      else
        pure ([], false)

/-- Reads a group of expressions behind its opening parenthesis, which is at `location`. A single
expression without a comma is just that expression. -/
def groupedRest (location : Location) : Rule σ Expr := do
  if ← ahead parenClose then
    let _ ← advance
    pure (.tuple location [])
  else
    let first ← application inner
    let (members, sawComma) ← bounded fun left => tupleMembers inner (left + 1)
    chomp parenClose
    if sawComma then pure (.tuple location (first :: members)) else pure first

/-- Reads a term whose parts are read by `inner` and `patterns`. -/
def termWith : Rule σ (Option Expr) := do
  match ← peek with
  | none => pure none
  | some token =>
      match token.lexeme with
      | .identifier "let" =>
          let _ ← advance
          let binding ← bindingRest inner token.location
          pure (some binding)
      | .identifier "match" =>
          let _ ← advance
          let matching ← matchRest inner patterns token.location
          pure (some matching)
      | .identifier word =>
          if isKeyword word then
            pure none
          else
            let _ ← advance
            pure (some (.symbol ⟨word, token.location⟩))
      | .operator "=" => pure none
      | .operator symbol =>
          let _ ← advance
          pure (some (.symbol ⟨symbol, token.location⟩))
      | .opening .paren =>
          let _ ← advance
          let group ← groupedRest inner token.location
          pure (some group)
      | .quoted text =>
          let _ ← advance
          pure (some (.text token.location (unquote text)))
      | .signed value =>
          let _ ← advance
          pure (some (.integer token.location value))
      | .float value =>
          let _ ← advance
          pure (some (.float token.location value))
      | .semicolon => pure none
      | .closing .paren => pure none
      | .comma => pure none
      | _ => fail token.location .notImplemented

end Expressions

/-- Reads a term that nests less deeply than the budget. -/
def term : Nat → Rule σ (Option Expr)
  | 0 => tooDeep
  | budget + 1 => termWith (term budget) (pattern budget)

/-! ## Declarations -/

/-- Reads a declaration. -/
def declaration (budget : Nat) : Rule σ (Option Decl) := do
  match ← peek with
  | none => pure none
  | some token =>
      match token.name? with
      | none => pure none
      | some name =>
          let _ ← advance
          let patterns ← many (pattern budget)
          chomp Lexeme.assign.form
          let body ← application (term budget)
          note (.declared token.location name)
          pure (some ⟨⟨name, token.location⟩, patterns, body⟩)

/-- Reads declarations, with separators before each of them and at the end. -/
def declarationsUpTo (budget : Nat) : Nat → Rule σ (List Decl)
  | 0 => pure []
  | bound + 1 => do
      skipSemicolons
      match ← declaration budget with
      | none => pure []
      | some decl =>
          let decls ← declarationsUpTo budget bound
          pure (decl :: decls)

/-- Reads a whole file. -/
def file (budget : Nat) : Rule σ (List Decl) := do
  begin
  let decls ← bounded fun left => declarationsUpTo budget (left + 1)
  match ← peek with
  | none => pure decls
  | some _ => expected "a declaration"

end FrontEnd.Grammar
