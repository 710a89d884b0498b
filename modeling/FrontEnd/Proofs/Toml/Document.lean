import FrontEnd.Proofs.Toml.Text
import FrontEnd.Toml.Document

/-!
# Texts in documents

A text that was assigned to a key stays there: no later statement of the document changes it or
takes it away.

* `Toml.statements_of_statement` — a statement on a line of its own, and the statements behind it.
* `Toml.HoldsText` — a text at a path of nested tables.
* `Toml.Keeps` — a change of tables that keeps all texts.
* `Toml.holdsText_of_statements` — what was assigned by a statement is in the document.
-/

set_option autoImplicit false

namespace FrontEnd.Toml

variable {text rest : List Char} {bound : Nat} {progress later : Progress} {table : Table}

/-! ## Reading statements -/

theorem bind_eq_ok {α β : Type} {first : Except Fault α} {next : α → Except Fault β} {result : β} :
    first >>= next = .ok result ↔ ∃ value, first = .ok value ∧ next value = .ok result := by
  cases first with
  | error fault =>
    constructor
    · nofun
    · rintro ⟨value, h, -⟩
      cases h
  | ok value =>
    constructor
    · exact fun h => ⟨value, rfl, h⟩
    · rintro ⟨other, h, hnext⟩
      cases h
      exact hnext

theorem valid_eq_ok {α : Type} {read : Option α} {value : α} :
    valid read = .ok value ↔ read = some value := by
  cases read <;> simp [valid]

/-- Behind a statement on a line of its own are the others. -/
theorem statements_of_statement
    (h : statement progress (skipSpaces text) = .ok (later, '\n' :: rest)) :
    statements (bound + 1) progress text = statements bound later rest := by
  rw [statements, h]
  rfl

theorem length_unifyLineEnds_le (text : List Char) :
    (unifyLineEnds text).length ≤ text.length := by
  fun_induction unifyLineEnds text with
  | case1 => exact Nat.le_refl _
  | case2 text ih =>
    rw [List.length_cons, List.length_cons, List.length_cons]
    omega
  | case3 c text hno ih => exact Nat.succ_le_succ ih

/-- A quote is no part of a line end. -/
theorem unifyLineEnds_append_quote (text rest : List Char) :
    unifyLineEnds (text ++ '"' :: rest) = unifyLineEnds text ++ '"' :: unifyLineEnds rest := by
  fun_induction unifyLineEnds text with
  | case1 => rfl
  | case2 text ih => exact congrArg (List.cons '\n') ih
  | case3 c text hno ih =>
    rw [List.cons_append, unifyLineEnds.eq_3 _ _ fun behind hc hline => ?_, ih, List.cons_append]
    cases text with
    | nil => cases hline
    | cons d text => exact hno text hc (by rw [(List.cons.inj hline).1])

/-- Line ends are unified already where there is no carriage return. -/
theorem unifyLineEnds_of_not_mem (h : '\r' ∉ text) : unifyLineEnds text = text := by
  induction text with
  | nil => rfl
  | cons c text ih =>
    obtain ⟨hc, htext⟩ := not_or.mp (mt List.mem_cons.mpr h)
    rw [unifyLineEnds.eq_3 _ _ (fun _ hreturn => absurd hreturn.symm hc), ih htext]

/-! ## Texts that stay -/

/-- A text stands at a path of nested tables. -/
def HoldsText (value : String) : Key → Table → Prop
  | [], _ => False
  | [key], table => List.lookup key table = some (.text value)
  | key :: next :: path, table =>
      ∃ inner, List.lookup key table = some (.table inner) ∧ HoldsText value (next :: path) inner

/-- A change of tables that keeps all texts where they are. -/
def Keeps (change : Table → Option Table) : Prop :=
  ∀ value path table changed, change table = some changed → HoldsText value path table →
    HoldsText value path changed

theorem keeps_some : Keeps some := by
  intro value path table changed hchange hholds
  cases hchange
  exact hholds

theorem lookup_put (key other : String) (value : Value) (table : Table) :
    List.lookup other (Table.put key value table) =
      if other = key then some value else List.lookup other table := by
  induction table with
  | nil =>
    rw [Table.put, List.lookup_cons]
    by_cases h : other = key
    · rw [if_pos h, beq_iff_eq.mpr h]
    · rw [if_neg h, beq_eq_false_iff_ne.mpr h]
  | cons entry table ih =>
    obtain ⟨first, old⟩ := entry
    rw [Table.put]
    split
    · rename_i hfirst
      subst hfirst
      rw [List.lookup_cons, List.lookup_cons]
      by_cases h : other = first
      · rw [if_pos h, beq_iff_eq.mpr h]
      · rw [if_neg h, beq_eq_false_iff_ne.mpr h]
    · rename_i hfirst
      rw [List.lookup_cons, List.lookup_cons, ih]
      by_cases h : other = first
      · have hkey : other ≠ key := fun hkey => hfirst (h.symm.trans hkey)
        rw [beq_iff_eq.mpr h, if_neg hkey, if_neg hkey]
      · rw [beq_eq_false_iff_ne.mpr h]

/-- A text at the first key of a path depends on what is looked up there only. -/
theorem HoldsText.of_lookup {value key : String} {path : Key} {other : Table}
    (h : HoldsText value (key :: path) table)
    (hlookup : List.lookup key other = List.lookup key table) :
    HoldsText value (key :: path) other := by
  cases path with
  | nil => exact hlookup.trans h
  | cons next path =>
    obtain ⟨inner, hinner, hholds⟩ := h
    exact ⟨inner, hlookup.trans hinner, hholds⟩

/-- Where a text is held, the first key of its path has a value. -/
theorem HoldsText.isSome_lookup {value key : String} {path : Key}
    (h : HoldsText value (key :: path) table) : (List.lookup key table).isSome := by
  cases path with
  | nil =>
    rw [show List.lookup key table = _ from h]
    rfl
  | cons next path =>
    obtain ⟨inner, hinner, -⟩ := h
    rw [hinner]
    rfl

theorem keeps_define (key : String) (value : Value) : Keeps (define key value) := by
  intro held path table changed hchange hholds
  rw [define] at hchange
  split at hchange
  · cases hchange
  · cases hchange
    cases path with
    | nil => exact hholds
    | cons first path =>
      refine hholds.of_lookup ?_
      obtain ⟨old, hold⟩ := Option.isSome_iff_exists.mp hholds.isSome_lookup
      rw [List.lookup_append, hold]
      rfl

theorem keeps_appendTable (key : String) : Keeps (appendTable key) := by
  intro held path table changed hchange hholds
  rw [appendTable] at hchange
  cases path with
  | nil => exact hholds
  | cons first path =>
    split at hchange
    · cases hchange
      refine hholds.of_lookup ?_
      obtain ⟨old, hold⟩ := Option.isSome_iff_exists.mp hholds.isSome_lookup
      rw [List.lookup_append, hold]
      rfl
    · rename_i items hitems
      cases hchange
      refine hholds.of_lookup ?_
      rw [lookup_put, if_neg]
      -- an array is neither a text nor a table that holds one
      rintro rfl
      cases path with
      | nil =>
        rw [show List.lookup first table = _ from hholds] at hitems
        cases hitems
      | cons next path =>
        obtain ⟨inner, hinner, -⟩ := hholds
        rw [hinner] at hitems
        cases hitems
    · cases hchange

/-- A change at the end of a way keeps the texts outside as well as those inside. -/
theorem keeps_changeAt {throughArrays : Bool} {change : Table → Option Table} (h : Keeps change)
    (way : Key) : Keeps (changeAt throughArrays change way) := by
  induction way with
  | nil => exact h
  | cons key way ih =>
    intro value path table changed hchange hholds
    cases path with
    | nil => exact hholds
    | cons first path =>
      unfold changeAt at hchange
      dsimp only at hchange
      obtain ⟨new, hnew, rfl⟩ := Option.map_eq_some_iff.mp hchange
      by_cases hfirst : first = key
      · subst hfirst
        cases path with
        | nil =>
          rw [show List.lookup first table = _ from hholds] at hnew
          cases hnew
        | cons next path =>
          obtain ⟨inner, hinner, hinside⟩ := hholds
          rw [hinner] at hnew
          obtain ⟨later, hlater, rfl⟩ := Option.map_eq_some_iff.mp hnew
          refine ⟨later, ?_, ih value _ inner later hlater hinside⟩
          rw [lookup_put, if_pos rfl]
      · refine hholds.of_lookup ?_
        rw [lookup_put, if_neg hfirst]

section Statements

variable {value : String} {path : Key}

theorem holdsText_of_assign {key : Key} {assigned : Value}
    (h : progress.assign key assigned = .ok later) (hholds : HoldsText value path progress.table) :
    HoldsText value path later.table := by
  obtain ⟨⟨way, name⟩, -, h⟩ := bind_eq_ok.mp h
  dsimp only at h
  split at h
  · cases h
  · obtain ⟨table, htable, h⟩ := bind_eq_ok.mp h
    cases h
    exact keeps_changeAt (keeps_define name assigned) _ value path _ table (valid_eq_ok.mp htable)
      hholds

theorem holdsText_of_openTable {key : Key} (h : progress.openTable key = .ok later)
    (hholds : HoldsText value path progress.table) : HoldsText value path later.table := by
  unfold Progress.openTable at h
  dsimp only at h
  split at h
  · cases h
  · obtain ⟨table, htable, h⟩ := bind_eq_ok.mp h
    cases h
    exact keeps_changeAt keeps_some key value path _ table (valid_eq_ok.mp htable) hholds

theorem holdsText_of_extendArray {key : Key} (h : progress.extendArray key = .ok later)
    (hholds : HoldsText value path progress.table) : HoldsText value path later.table := by
  unfold Progress.extendArray at h
  dsimp only at h
  split at h
  · cases h
  · obtain ⟨⟨way, name⟩, -, h⟩ := bind_eq_ok.mp h
    obtain ⟨table, htable, h⟩ := bind_eq_ok.mp h
    cases h
    exact keeps_changeAt (keeps_appendTable name) way value path _ table (valid_eq_ok.mp htable)
      hholds

/-- No statement changes a text or takes it away. -/
theorem holdsText_of_statement (h : statement progress text = .ok (later, rest))
    (hholds : HoldsText value path progress.table) : HoldsText value path later.table := by
  unfold statement at h
  split at h
  · obtain ⟨⟨key, behind⟩, -, h⟩ := bind_eq_ok.mp h
    obtain ⟨opened, hopened, h⟩ := bind_eq_ok.mp h
    obtain ⟨closed, -, h⟩ := bind_eq_ok.mp h
    cases h
    exact holdsText_of_extendArray hopened hholds
  · obtain ⟨⟨key, behind⟩, -, h⟩ := bind_eq_ok.mp h
    obtain ⟨opened, hopened, h⟩ := bind_eq_ok.mp h
    obtain ⟨closed, -, h⟩ := bind_eq_ok.mp h
    cases h
    exact holdsText_of_openTable hopened hholds
  · split at h
    · obtain ⟨⟨key, assigned, behind⟩, -, h⟩ := bind_eq_ok.mp h
      obtain ⟨changed, hassign, h⟩ := bind_eq_ok.mp h
      cases h
      exact holdsText_of_assign hassign hholds
    · cases h
      exact hholds
  · cases h
    exact hholds

/-- **A text that stands in a document as far as it was read stays in it**, whatever follows. -/
theorem holdsText_of_statements (h : statements bound progress text = .ok table)
    (hholds : HoldsText value path progress.table) : HoldsText value path table := by
  induction bound generalizing progress text with
  | zero => cases h
  | succ bound ih =>
    obtain ⟨⟨later, rest⟩, hstatement, h⟩ := bind_eq_ok.mp h
    have hlater := holdsText_of_statement hstatement hholds
    obtain ⟨behind, -, h⟩ := bind_eq_ok.mp h
    split at h
    · cases h
      exact hlater
    · exact ih h hlater
    · cases h

/-- What the first statement assigned is in the document. -/
theorem holdsText_of_first (hfirst : statement progress (skipSpaces text) = .ok (later, rest))
    (hholds : HoldsText value path later.table)
    (h : statements (bound + 1) progress text = .ok table) : HoldsText value path table := by
  obtain ⟨read, hread, h⟩ := bind_eq_ok.mp h
  cases hfirst.symm.trans hread
  obtain ⟨behind, -, h⟩ := bind_eq_ok.mp h
  split at h
  · cases h
    exact hholds
  · exact holdsText_of_statements h hholds
  · cases h

end Statements

end FrontEnd.Toml
