import FrontEnd.Diagnostic
import FrontEnd.Lexer.Basic
import FrontEnd.Tree.Relocation

/-!
# Moved tokens, faults and trees

What moving every location does to tokens and faults, beside what it does to trees, and the laws of
moving: lists of trees are moved tree by tree, moving nothing changes nothing, and moving twice is
moving once.
-/

set_option autoImplicit false

namespace FrontEnd

variable (move : Location → Location)

/-! ## Tokens and faults -/

def Token.relocate (token : Token) : Token :=
  { token with location := move token.location }

def Lookahead.relocate : Lookahead → Lookahead
  | .unstarted => .unstarted
  | .ready token => .ready (token.relocate move)
  | .ended => .ended

/-- A mismatched bracket is the one cause that names a place. -/
def Cause.relocate : Cause → Cause
  | .mismatched closing opening openedAt => .mismatched closing opening (move openedAt)
  | cause => cause

def Diagnostic.relocate (diagnostic : Diagnostic) : Diagnostic :=
  { diagnostic with
    location := move diagnostic.location
    cause := diagnostic.cause.relocate move }

def Fault.relocate : Fault → Fault
  | .diagnostic found => .diagnostic (found.relocate move)
  | .tooManyDigits count => .tooManyDigits count

@[simp] theorem Token.lexeme_relocate (token : Token) :
    (token.relocate move).lexeme = token.lexeme := rfl

@[simp] theorem Token.location_relocate (token : Token) :
    (token.relocate move).location = move token.location := rfl

@[simp] theorem Token.name?_relocate (token : Token) :
    (token.relocate move).name? = token.name? := rfl

@[simp] theorem Lookahead.token?_relocate (lookahead : Lookahead) :
    (lookahead.relocate move).token? = lookahead.token?.map (·.relocate move) := by
  cases lookahead <;> rfl

/-! ## Lists of trees -/

theorem Pattern.relocateAll_eq_map (patterns : List Pattern) :
    Pattern.relocateAll move patterns = patterns.map (·.relocate move) := by
  induction patterns with
  | nil => rfl
  | cons pattern rest ih => simp [Pattern.relocateAll, ih]

theorem Expr.relocateAll_eq_map (exprs : List Expr) :
    Expr.relocateAll move exprs = exprs.map (·.relocate move) := by
  induction exprs with
  | nil => rfl
  | cons expr rest ih => simp [Expr.relocateAll, ih]

theorem Arm.relocateAll_eq_map (arms : List Arm) :
    Arm.relocateAll move arms = arms.map (·.relocate move) := by
  induction arms with
  | nil => rfl
  | cons arm rest ih => simp [Arm.relocateAll, ih]

/-! ## Moving nothing -/

@[simp] theorem Name.relocate_id (name : Name) : name.relocate id = name := rfl

@[simp] theorem Token.relocate_id (token : Token) : token.relocate id = token := rfl

@[simp] theorem Lookahead.relocate_id (lookahead : Lookahead) :
    lookahead.relocate id = lookahead := by
  cases lookahead <;> rfl

@[simp] theorem Fault.relocate_id (fault : Fault) : fault.relocate id = fault := by
  rcases fault with ⟨location, cause, severity⟩ | count
  · cases cause <;> rfl
  · rfl

mutual

theorem Pattern.relocate_id : ∀ pattern : Pattern, pattern.relocate id = pattern
  | .variable _ => rfl
  | .integer _ _ => rfl
  | .text _ _ => rfl
  | .constructor _ arguments => by simp [Pattern.relocate, Pattern.relocateAll_id arguments]
  | .tuple _ members => by simp [Pattern.relocate, Pattern.relocateAll_id members]

theorem Pattern.relocateAll_id : ∀ patterns : List Pattern,
    Pattern.relocateAll id patterns = patterns
  | [] => rfl
  | pattern :: rest => by
    rw [Pattern.relocateAll, pattern.relocate_id, Pattern.relocateAll_id rest]

end

mutual

theorem Expr.relocate_id : ∀ expr : Expr, expr.relocate id = expr
  | .lambda _ parameters body => by simp [Expr.relocate, body.relocate_id]
  | .binding _ _ value body => by simp [Expr.relocate, value.relocate_id, body.relocate_id]
  | .integer _ _ => rfl
  | .float _ _ => rfl
  | .text _ _ => rfl
  | .symbol _ => rfl
  | .matching _ subject arms => by
    simp [Expr.relocate, subject.relocate_id, Arm.relocateAll_id arms]
  | .call function arguments => by
    simp [Expr.relocate, function.relocate_id, Expr.relocateAll_id arguments]
  | .tuple _ members => by simp [Expr.relocate, Expr.relocateAll_id members]

theorem Arm.relocate_id : ∀ arm : Arm, arm.relocate id = arm
  | .mk pattern body => by rw [Arm.relocate, pattern.relocate_id, body.relocate_id]

theorem Expr.relocateAll_id : ∀ exprs : List Expr, Expr.relocateAll id exprs = exprs
  | [] => rfl
  | expr :: rest => by rw [Expr.relocateAll, expr.relocate_id, Expr.relocateAll_id rest]

theorem Arm.relocateAll_id : ∀ arms : List Arm, Arm.relocateAll id arms = arms
  | [] => rfl
  | arm :: rest => by rw [Arm.relocateAll, arm.relocate_id, Arm.relocateAll_id rest]

end

theorem Decl.relocate_id (decl : Decl) : decl.relocate id = decl := by
  simp [Decl.relocate, Pattern.relocate_id, Expr.relocate_id]

/-! ## Moving twice -/

section Twice

variable (first second : Location → Location)

@[simp] theorem Name.relocate_relocate (name : Name) :
    (name.relocate first).relocate second = name.relocate (second ∘ first) := rfl

mutual

theorem Pattern.relocate_relocate : ∀ pattern : Pattern,
    (pattern.relocate first).relocate second = pattern.relocate (second ∘ first)
  | .variable _ => rfl
  | .integer _ _ => rfl
  | .text _ _ => rfl
  | .constructor _ arguments => by
    simp [Pattern.relocate, Pattern.relocateAll_relocateAll arguments]
  | .tuple _ members => by simp [Pattern.relocate, Pattern.relocateAll_relocateAll members]

theorem Pattern.relocateAll_relocateAll : ∀ patterns : List Pattern,
    Pattern.relocateAll second (Pattern.relocateAll first patterns) =
      Pattern.relocateAll (second ∘ first) patterns
  | [] => rfl
  | pattern :: rest => by
    simp [Pattern.relocateAll, pattern.relocate_relocate, Pattern.relocateAll_relocateAll rest]

end

mutual

theorem Expr.relocate_relocate : ∀ expr : Expr,
    (expr.relocate first).relocate second = expr.relocate (second ∘ first)
  | .lambda _ parameters body => by simp [Expr.relocate, body.relocate_relocate]
  | .binding _ _ value body => by
    simp [Expr.relocate, value.relocate_relocate, body.relocate_relocate]
  | .integer _ _ => rfl
  | .float _ _ => rfl
  | .text _ _ => rfl
  | .symbol _ => rfl
  | .matching _ subject arms => by
    simp [Expr.relocate, subject.relocate_relocate, Arm.relocateAll_relocateAll arms]
  | .call function arguments => by
    simp [Expr.relocate, function.relocate_relocate, Expr.relocateAll_relocateAll arguments]
  | .tuple _ members => by simp [Expr.relocate, Expr.relocateAll_relocateAll members]

theorem Arm.relocate_relocate : ∀ arm : Arm,
    (arm.relocate first).relocate second = arm.relocate (second ∘ first)
  | .mk pattern body => by
    simp [Arm.relocate, pattern.relocate_relocate first second, body.relocate_relocate]

theorem Expr.relocateAll_relocateAll : ∀ exprs : List Expr,
    Expr.relocateAll second (Expr.relocateAll first exprs) =
      Expr.relocateAll (second ∘ first) exprs
  | [] => rfl
  | expr :: rest => by
    simp [Expr.relocateAll, expr.relocate_relocate, Expr.relocateAll_relocateAll rest]

theorem Arm.relocateAll_relocateAll : ∀ arms : List Arm,
    Arm.relocateAll second (Arm.relocateAll first arms) = Arm.relocateAll (second ∘ first) arms
  | [] => rfl
  | arm :: rest => by
    simp [Arm.relocateAll, arm.relocate_relocate, Arm.relocateAll_relocateAll rest]

end

theorem Decl.relocate_relocate (decl : Decl) :
    (decl.relocate first).relocate second = decl.relocate (second ∘ first) := by
  simp [Decl.relocate, Pattern.relocate_relocate, Expr.relocate_relocate]

end Twice

end FrontEnd
