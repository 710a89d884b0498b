/-!
# Sets of characters as ranges

A character class is a list of closed ranges of code points in ascending order, so that a search can
stop at the first range that begins after the point it looks for.
-/

set_option autoImplicit false

namespace FrontEnd.Text

/-- Whether one of the ascending closed ranges holds `n`. -/
def inRanges : List (Nat × Nat) → Nat → Bool
  | [], _ => false
  | (low, high) :: rest, n =>
      if n < low then false else if n ≤ high then true else inRanges rest n

/-- A point found in the ranges lies in one of them. -/
theorem exists_of_inRanges {ranges : List (Nat × Nat)} {n : Nat} (h : inRanges ranges n = true) :
    ∃ range ∈ ranges, range.1 ≤ n ∧ n ≤ range.2 := by
  induction ranges with
  | nil => cases h
  | cons range rest ih =>
      obtain ⟨low, high⟩ := range
      unfold inRanges at h
      split at h
      · cases h
      · split at h
        · exact ⟨(low, high), List.mem_cons_self, by simp; omega⟩
        · obtain ⟨found, hmem, hbound⟩ := ih h
          exact ⟨found, List.mem_cons_of_mem _ hmem, hbound⟩

end FrontEnd.Text
