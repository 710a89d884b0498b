import FrontEnd.Proofs.Tree.Moved
import FrontEnd.Tree.Head

/-!
# What a head says

A constructor without arguments is shown without parentheses, so beside other patterns it takes them
as its arguments when the text is read. All other patterns are read back as they are.

* `Pattern.reread`, `Pattern.rereadRow` — the patterns that the text of patterns stands for.
* `Pattern.apart`, `Pattern.rowApart` — no constructor without arguments stands in front of another
  pattern.
* `Pattern.rereadRow_eq_iff` — these are the rows of patterns that their text stands for.
-/

set_option autoImplicit false

namespace FrontEnd

namespace Pattern

/-- The name of a constructor without arguments. -/
def lone? : Pattern → Option Name
  | .constructor name [] => some name
  | _ => none

theorem eq_of_lone? {pattern : Pattern} {name : Name} (h : pattern.lone? = some name) :
    pattern = .constructor name [] := by
  unfold lone? at h
  split at h <;> cases h
  rfl

mutual

/-- The pattern that the text of a pattern stands for. -/
def reread : Pattern → Pattern
  | .variable name => .variable name
  | .integer location value => .integer location value
  | .text location value => .text location value
  | .constructor name arguments => .constructor name (rereadRow arguments)
  | .tuple location members => .tuple location (rereadEach members)

/-- The patterns that the texts of patterns beside each other stand for. -/
def rereadRow : List Pattern → List Pattern
  | [] => []
  | pattern :: rest =>
      match pattern.lone? with
      | some name => [.constructor name (rereadRow rest)]
      | none => pattern.reread :: rereadRow rest

/-- The patterns that the texts of patterns between commas stand for. -/
def rereadEach : List Pattern → List Pattern
  | [] => []
  | pattern :: rest => pattern.reread :: rereadEach rest

end

mutual

/-- Whether no constructor without arguments stands in front of another pattern in a pattern. -/
def apart : Pattern → Bool
  | .variable _ => true
  | .integer _ _ => true
  | .text _ _ => true
  | .constructor _ arguments => rowApart arguments
  | .tuple _ members => eachApart members

/-- Whether none does in a row of patterns. -/
def rowApart : List Pattern → Bool
  | [] => true
  | pattern :: rest =>
      (pattern.lone?.isNone || rest.isEmpty) && pattern.apart && rowApart rest

/-- Whether none does in any of some patterns. -/
def eachApart : List Pattern → Bool
  | [] => true
  | pattern :: rest => pattern.apart && eachApart rest

end

/-! ## Rows that are read back as they are -/

variable (move : Location → Location)

mutual

/-- **A pattern is what its text stands for** exactly if no constructor without arguments stands in
front of another pattern in it. -/
theorem reread_eq_iff : ∀ pattern : Pattern,
    pattern.reread.relocate move = pattern.relocate move ↔ pattern.apart = true
  | .variable _ => by simp [reread, apart]
  | .integer _ _ => by simp [reread, apart]
  | .text _ _ => by simp [reread, apart]
  | .constructor _ arguments => by
    simpa [reread, apart, relocate] using rereadRow_eq_iff arguments
  | .tuple _ members => by
    simpa [reread, apart, relocate] using rereadEach_eq_iff members

theorem rereadRow_eq_iff : ∀ patterns : List Pattern,
    relocateAll move (rereadRow patterns) = relocateAll move patterns ↔ rowApart patterns = true
  | [] => by simp [rereadRow, rowApart]
  | pattern :: rest => by
    rw [rereadRow, rowApart]
    cases hlone : pattern.lone? with
    | none => simp [relocateAll, reread_eq_iff pattern, rereadRow_eq_iff rest]
    | some name =>
      rw [eq_of_lone? hlone]
      cases rest with
      | nil => simp [rereadRow, rowApart, apart, relocateAll, relocate]
      | cons next more => simp [relocateAll]

theorem rereadEach_eq_iff : ∀ members : List Pattern,
    relocateAll move (rereadEach members) = relocateAll move members ↔ eachApart members = true
  | [] => by simp [rereadEach, eachApart]
  | pattern :: rest => by
    simp [rereadEach, eachApart, relocateAll, reread_eq_iff pattern, rereadEach_eq_iff rest]

end

end Pattern

end FrontEnd
