import FrontEnd.Grammar
import FrontEnd.Proofs.Grammar.Items
import FrontEnd.Proofs.Tape.Bounds

/-!
# The greedy grammar

The language as a grammar of items over lists of tokens, without budgets, marks or faults. Of a
token only the lexeme decides what matches; its location goes into the tree.

    file    = S* (decl S*)*
    decl    = name pattern* "=" call
    pattern = integer | text | variable | constructor pattern*
            | "(" [pattern ("," pattern)* [","]] ")"
    call    = S* term term*
    term    = name | operator other than "=" | integer | float | text
            | "(" ")" | "(" call ("," call)* [","] ")"
            | "let" name "=" call S* "in" call
            | "match" call arm arm*
    arm     = S* pattern "=>" call

* `Greedy.pattern_eq`, `Greedy.term_eq` — these are the items that the rules describe: nothing is
  lost by the bound on their depth.
-/

set_option autoImplicit false

namespace FrontEnd.Greedy

open Item

/-! ## Parts of rules -/

/-- Separators, as many as there are. -/
def separators : Item (List Token) :=
  many (only .semicolon)

/-- A name that is no keyword. -/
def name : Item Name :=
  one fun token => token.name?.map fun text => ⟨text, token.location⟩

/-- What follows the first of some items between commas, maybe with a comma at the end, and whether
there was a comma. -/
def listedTail {α : Type} (item : Item α) : Item (List α × Bool) := do
  let others ← many (do
    let _ ← only .comma
    item)
  let trailing ← optional (only .comma)
  pure (others, !others.isEmpty || trailing.isSome)

/-- One item or more between commas, maybe with a comma at the end, and whether there was a
comma. -/
def listed {α : Type} (item : Item α) : Item (List α × Bool) := do
  let first ← item
  let (others, sawComma) ← listedTail item
  pure (first :: others, sawComma)

/-- Any number of items between commas, maybe with a comma at the end if there are any. -/
def members {α : Type} (item : Item α) : Item (List α × Bool) :=
  (fun found => found.getD ([], false)) <$> optional (listed item)

/-! ## Patterns -/

/-- The pattern that a token is by itself. -/
def plainPattern? (token : Token) : Option Pattern :=
  match token.lexeme with
  | .signed value => some (.integer token.location value)
  | .quoted text => some (.text token.location (Grammar.unquote text))
  | .identifier word =>
      if isKeyword word || Grammar.isConstructorName word then none
      else some (.variable ⟨word, token.location⟩)
  | _ => none

/-- The name of the constructor that a token names. -/
def constructorName? (token : Token) : Option Name :=
  match token.name? with
  | some word => if Grammar.isConstructorName word then some ⟨word, token.location⟩ else none
  | none => none

/-- The pattern of a group. A single pattern without a comma is just that pattern. -/
def groupedPattern (location : Location) : List Pattern × Bool → Pattern
  | ([single], false) => single
  | (members, _) => .tuple location members

section Patterns

variable (inner : Item Pattern)

/-- A constructor with as many arguments as there are. -/
def constructed : Item Pattern := do
  let name ← one constructorName?
  let arguments ← many inner
  pure (.constructor name arguments)

def patternGroup : Item Pattern := do
  let opening ← only (.opening .paren)
  let found ← members inner
  let _ ← only (.closing .paren)
  pure (groupedPattern opening.location found)

/-- A pattern whose parts are matched by `inner`. -/
def patternWith : Item Pattern :=
  one plainPattern? <|> constructed inner <|> patternGroup inner

end Patterns

/-- A pattern that nests less than `depth` deep. -/
def patternUpTo : Nat → Item Pattern
  | 0 => failure
  | depth + 1 => patternWith (patternUpTo depth)

/-- A pattern. It nests no deeper than there are tokens. -/
def pattern : Item Pattern :=
  fun tokens => patternUpTo tokens.length tokens

/-! ## Terms -/

/-- The term that a token is by itself. -/
def atom? (token : Token) : Option Expr :=
  match token.lexeme with
  | .identifier word =>
      if isKeyword word then none else some (.symbol ⟨word, token.location⟩)
  | .operator symbol =>
      if symbol = "=" then none else some (.symbol ⟨symbol, token.location⟩)
  | .signed value => some (.integer token.location value)
  | .float value => some (.float token.location value)
  | .quoted text => some (.text token.location (Grammar.unquote text))
  | _ => none

/-- A function applied to arguments. Without arguments it is just the function. -/
def applied (function : Expr) : List Expr → Expr
  | [] => function
  | arguments => .call function arguments

/-- The expression of a group. A single expression without a comma is just that expression. -/
def groupedExpr (location : Location) : List Expr × Bool → Expr
  | ([single], false) => single
  | (members, _) => .tuple location members

section Terms

variable (inner : Item Expr)

/-- A function with as many arguments as there are. -/
def callWith : Item Expr := do
  let _ ← separators
  let function ← inner
  let arguments ← many inner
  pure (applied function arguments)

/-- The empty tuple. -/
def unit : Item Expr := do
  let opening ← only (.opening .paren)
  let _ ← only (.closing .paren)
  pure (.tuple opening.location [])

def group : Item Expr := do
  let opening ← only (.opening .paren)
  let found ← listed (callWith inner)
  let _ ← only (.closing .paren)
  pure (groupedExpr opening.location found)

def binding : Item Expr := do
  let word ← only (.identifier "let")
  let name ← name
  let _ ← only .assign
  let value ← callWith inner
  let _ ← separators
  let _ ← only .inWord
  let body ← callWith inner
  pure (.binding word.location name value body)

def armWith : Item Arm := do
  let _ ← separators
  let pattern ← pattern
  let _ ← only .arrow
  let body ← callWith inner
  pure (.mk pattern body)

def matching : Item Expr := do
  let word ← only (.identifier "match")
  let subject ← callWith inner
  let first ← armWith inner
  let others ← many (armWith inner)
  pure (.matching word.location subject (first :: others))

/-- A term whose parts are matched by `inner`. -/
def termWith : Item Expr :=
  one atom? <|> unit <|> group inner <|> binding inner <|> matching inner

end Terms

/-- A term that nests less than `depth` deep. -/
def termUpTo : Nat → Item Expr
  | 0 => failure
  | depth + 1 => termWith (termUpTo depth)

/-- A term. It nests no deeper than there are tokens. -/
def term : Item Expr :=
  fun tokens => termUpTo tokens.length tokens

def call : Item Expr := callWith term

def arm : Item Arm := armWith term

/-! ## Declarations -/

def decl : Item Decl := do
  let name ← name
  let patterns ← many pattern
  let _ ← only .assign
  let body ← call
  pure ⟨name, patterns, body⟩

/-- Declarations with separators behind them. -/
def decls : Item (List Decl) :=
  many (do
    let found ← decl
    let _ ← separators
    pure found)

/-- The declarations of a list of tokens that is matched to its end. -/
def file (tokens : List Token) : Option (List Decl) :=
  match (separators *> decls) tokens with
  | some (found, []) => some found
  | _ => none

/-! ## Depth -/

section Depth

variable {bound : Nat}

theorem near_separators : Near bound separators separators :=
  .many (.of_one _)

theorem near_listedTail {α : Type} {item other : Item α} (h : Near bound item other) :
    Near bound (listedTail item) (listedTail other) :=
  .bind (.many (.bind (.of_one _) fun _ => h)) fun _ =>
    .bind (.optional (.of_one _)) fun _ => .of_pure _

theorem near_listed {α : Type} {item other : Item α} (h : Near bound item other) :
    Near bound (listed item) (listed other) :=
  h.bind fun _ => (near_listedTail h).bind fun _ => .of_pure _

theorem near_members {α : Type} {item other : Item α} (h : Near bound item other) :
    Near bound (members item) (members other) :=
  .map (.optional (near_listed h)) _

section Patterns

variable {inner other : Item Pattern} (h : Near bound inner other)

include h

theorem near_constructed : NearTaking (bound + 1) (constructed inner) (constructed other) :=
  .one_bind fun _ => .bind (.many h) fun _ => .of_pure _

theorem near_patternGroup : NearTaking (bound + 1) (patternGroup inner) (patternGroup other) :=
  .one_bind fun _ => .bind (near_members h) fun _ =>
    .bind (.of_one _) fun _ => .of_pure _

theorem near_patternWith : NearTaking (bound + 1) (patternWith inner) (patternWith other) :=
  .orElse (.of_one _) (.orElse (near_constructed h) (near_patternGroup h))

end Patterns

/-- Items of some depth match no empty list, and lists that are no longer than the depth are matched
alike at the next depth. -/
theorem near_patternUpTo (depth : Nat) :
    NearTaking depth (patternUpTo depth) (patternUpTo (depth + 1)) := by
  induction depth with
  | zero =>
    intro tokens hlength
    have hnil : tokens = [] := List.length_eq_zero_iff.mp (by omega)
    rw [hnil]
    exact ⟨rfl, fun _ _ h => by cases h⟩
  | succ depth ih => exact near_patternWith ih.near

theorem patternUpTo_enough {depth : Nat} {tokens : List Token} (h : tokens.length ≤ depth) :
    patternUpTo depth tokens = pattern tokens :=
  Rule.stable_of_step (f := fun depth => patternUpTo depth tokens)
    (fun k hk => (near_patternUpTo k tokens hk).1.symm) h (Nat.le_refl _)

theorem near_pattern (bound : Nat) : NearTaking bound pattern (patternUpTo bound) :=
  fun tokens hlength => ⟨(patternUpTo_enough hlength).symm,
    fun value rest => (near_patternUpTo tokens.length tokens (Nat.le_refl _)).2 value rest⟩

/-- **Patterns are what the rule for patterns describes.** -/
theorem pattern_eq : pattern = patternWith pattern := by
  funext tokens
  have hnear := near_patternWith (near_pattern tokens.length).near tokens (Nat.le_succ _)
  rw [hnear.1, ← patternUpTo_enough (Nat.le_succ tokens.length)]
  rfl

theorem shrinks_pattern : Shrinks pattern :=
  fun tokens => (near_pattern tokens.length tokens (Nat.le_refl _)).2

theorem near_pattern_self (bound : Nat) : NearTaking bound pattern pattern :=
  fun tokens _ => ⟨rfl, shrinks_pattern tokens⟩

section Terms

variable {inner other : Item Expr} (h : Near bound inner other)

include h

theorem near_callWith : Near bound (callWith inner) (callWith other) :=
  near_separators.bind fun _ => h.bind fun _ => (Near.many h).bind fun _ => .of_pure _

theorem near_group : NearTaking (bound + 1) (group inner) (group other) :=
  .one_bind fun _ => .bind (near_listed (near_callWith h)) fun _ =>
    .bind (.of_one _) fun _ => .of_pure _

theorem near_binding : NearTaking (bound + 1) (binding inner) (binding other) :=
  .one_bind fun _ => .bind (.of_one _) fun _ => .bind (.of_one _) fun _ =>
    .bind (near_callWith h) fun _ => .bind near_separators fun _ => .bind (.of_one _) fun _ =>
      .bind (near_callWith h) fun _ => .of_pure _

theorem near_armWith : Near bound (armWith inner) (armWith other) :=
  .bind near_separators fun _ => .bind (near_pattern_self bound).near fun _ =>
    .bind (.of_one _) fun _ => .bind (near_callWith h) fun _ => .of_pure _

theorem near_matching : NearTaking (bound + 1) (matching inner) (matching other) :=
  .one_bind fun _ => .bind (near_callWith h) fun _ => .bind (near_armWith h) fun _ =>
    .bind (.many (near_armWith h)) fun _ => .of_pure _

theorem near_termWith : NearTaking (bound + 1) (termWith inner) (termWith other) := by
  refine .orElse (.of_one _) (.orElse ?_ (.orElse (near_group h) ?_))
  · exact .one_bind fun _ => .bind (.of_one _) fun _ => .of_pure _
  · exact .orElse (near_binding h) (near_matching h)

end Terms

theorem near_termUpTo (depth : Nat) :
    NearTaking depth (termUpTo depth) (termUpTo (depth + 1)) := by
  induction depth with
  | zero =>
    intro tokens hlength
    have hnil : tokens = [] := List.length_eq_zero_iff.mp (by omega)
    rw [hnil]
    exact ⟨rfl, fun _ _ h => by cases h⟩
  | succ depth ih => exact near_termWith ih.near

theorem termUpTo_enough {depth : Nat} {tokens : List Token} (h : tokens.length ≤ depth) :
    termUpTo depth tokens = term tokens :=
  Rule.stable_of_step (f := fun depth => termUpTo depth tokens)
    (fun k hk => (near_termUpTo k tokens hk).1.symm) h (Nat.le_refl _)

theorem near_term (bound : Nat) : NearTaking bound term (termUpTo bound) :=
  fun tokens hlength => ⟨(termUpTo_enough hlength).symm,
    fun value rest => (near_termUpTo tokens.length tokens (Nat.le_refl _)).2 value rest⟩

/-- **Terms are what the rule for terms describes.** -/
theorem term_eq : term = termWith term := by
  funext tokens
  have hnear := near_termWith (near_term tokens.length).near tokens (Nat.le_succ _)
  rw [hnear.1, ← termUpTo_enough (Nat.le_succ tokens.length)]
  rfl

theorem shrinks_term : Shrinks term :=
  fun tokens => (near_term tokens.length tokens (Nat.le_refl _)).2

theorem near_term_self (bound : Nat) : NearTaking bound term term :=
  fun tokens _ => ⟨rfl, shrinks_term tokens⟩

theorem near_call (bound : Nat) : NearTaking bound call call :=
  near_separators.bind_taking fun _ => (near_term_self bound).bind_near fun _ =>
    (Near.many (near_term_self bound).near).bind fun _ => .of_pure _

theorem near_arm (bound : Nat) : NearTaking bound arm arm :=
  near_separators.bind_taking fun _ => (near_pattern_self bound).bind_near fun _ =>
    .bind (.of_one _) fun _ => .bind (near_call bound).near fun _ => .of_pure _

theorem near_decl (bound : Nat) : NearTaking bound decl decl :=
  (NearTaking.of_one _).bind_near fun _ => .bind (.many (near_pattern_self bound).near) fun _ =>
    .bind (.of_one _) fun _ => .bind (near_call bound).near fun _ => .of_pure _

theorem shrinks_call : Shrinks call := .of_nearTaking near_call

theorem shrinks_arm : Shrinks arm := .of_nearTaking near_arm

theorem shrinks_decl : Shrinks decl := .of_nearTaking near_decl

end Depth

end FrontEnd.Greedy
