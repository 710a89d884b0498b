import FrontEnd.Proofs.Output
import FrontEnd.Tree.Outline
import Mathlib

/-!
# Outlines are known from their lines

The lines of an outline do not say where a list ends. What comes behind a list is a node at a lesser
depth or a field, and the indentation of a node and the case of its first letter tell these apart
from a member of the list. At negative depths there is nothing to indent by, which does no harm from
the depth `-3` on; at the depth `-4` the members of a list and of one inside it both begin without a
blank.

* `Shapes`, `Outline.Fits` — titles with the fields that belong to them, and an outline whose nodes
  have these fields.
* `Closed` — lines that do not go on with a node at a depth or deeper.
* `Outline.lines_append_inj` — an outline is known from its lines, whatever comes behind them.
* `Outline.printed_inj` — outlines that are printed alike are equal.
-/

set_option autoImplicit false

namespace FrontEnd

open Text

/-! ## Outlines of given shapes -/

/-- What a field shows. -/
inductive Slot where
  | text
  | one
  | many
  deriving DecidableEq, Repr

/-- The name of a field and what it shows. -/
def Field.slot : Field → String × Slot
  | .text name _ => (name, .text)
  | .one name _ => (name, .one)
  | .many name _ => (name, .many)

/-- A text that a node begins with. -/
def IsTitle (text : String) : Prop :=
  (∃ c ∈ text.toList.head?, c.isUpper = true) ∧ AllPrintable text

/-- A text that a field begins with. -/
def IsFieldName (name : String) : Prop :=
  (∃ c ∈ name.toList.head?, c.isLower = true) ∧ AllPrintable name

instance (text : String) : Decidable (IsTitle text) :=
  decidable_of_iff (text.toList.head?.any Char.isUpper = true ∧ AllPrintable text)
    (and_congr (Option.any_eq_true ..) .rfl)

instance (name : String) : Decidable (IsFieldName name) :=
  decidable_of_iff (name.toList.head?.any Char.isLower = true ∧ AllPrintable name)
    (and_congr (Option.any_eq_true ..) .rfl)

/-- The fields that belong to each title of a node. -/
structure Shapes where
  fields? : String → Option (List (String × Slot))
  isTitle : ∀ {title slots}, fields? title = some slots → IsTitle title
  isFieldName : ∀ {title slots}, fields? title = some slots → ∀ slot ∈ slots, IsFieldName slot.1

mutual

/-- The nodes of an outline have the fields that belong to their titles, and its texts hold
printable characters only. -/
def Outline.Fits (shapes : Shapes) : Outline → Prop
  | .line text => IsTitle text ∧ shapes.fields? text = none
  | .node title fields =>
      shapes.fields? title = some (fields.map Field.slot) ∧ Field.AllFit shapes fields

def Field.Fits (shapes : Shapes) : Field → Prop
  | .text _ text => AllPrintable text
  | .one _ outline => outline.Fits shapes
  | .many _ outlines => Outline.AllFit shapes outlines

def Field.AllFit (shapes : Shapes) : List Field → Prop
  | [] => True
  | field :: rest => field.Fits shapes ∧ Field.AllFit shapes rest

def Outline.AllFit (shapes : Shapes) : List Outline → Prop
  | [] => True
  | outline :: rest => outline.Fits shapes ∧ Outline.AllFit shapes rest

end

/-! ## Beginnings of lines -/

/-- The number of blanks that a line begins with. -/
def leadingBlanks (line : String) : Nat :=
  (line.toList.takeWhile (· == ' ')).length

/-- The first character of a line that is no blank. -/
def firstMark? (line : String) : Option Char :=
  (line.toList.dropWhile (· == ' ')).head?

/-- A line that a node at a depth begins with. -/
structure BeginsNode (depth : Int) (line : String) : Prop where
  indented : leadingBlanks line = (2 * depth).toNat
  upper : ∃ c ∈ firstMark? line, c.isUpper = true

variable {shapes : Shapes} {depth further : Int}
  {line text title name : String} {rest others : List String} {c : Char}

/-- A line of blanks and a text that begins without one. -/
theorem leadingBlanks_eq {count : Nat} {text : List Char}
    (hline : line.toList = List.replicate count ' ' ++ text) (hc : c ∈ text.head?)
    (hblank : c ≠ ' ') : leadingBlanks line = count ∧ firstMark? line = some c := by
  obtain ⟨rest, rfl⟩ := List.head?_eq_some_iff.mp hc
  have hblanks : ∀ d ∈ List.replicate count ' ', (d == ' ') = true := by
    intro d hd
    rw [List.eq_of_mem_replicate hd]
    rfl
  have hstop : (c == ' ') = false := beq_eq_false_iff_ne.mpr hblank
  constructor
  · rw [leadingBlanks, hline, List.takeWhile_append_of_pos hblanks, List.takeWhile_cons, hstop]
    simp
  · rw [firstMark?, hline, List.dropWhile_append_of_pos hblanks, List.dropWhile_cons, hstop]
    rfl

theorem ne_blank_of_isUpper (h : c.isUpper = true) : c ≠ ' ' := by
  rintro rfl
  exact absurd h (by decide)

theorem ne_blank_of_isLower (h : c.isLower = true) : c ≠ ' ' := by
  rintro rfl
  exact absurd h (by decide)

theorem toList_indent (depth : Int) :
    (indent depth).toList = List.replicate (2 * depth).toNat ' ' :=
  String.toList_ofList

theorem toList_fieldIndent (depth : Int) :
    (fieldIndent depth).toList = List.replicate ((2 * depth).toNat + 2) ' ' := by
  rw [fieldIndent, String.toList_append, toList_indent, List.replicate_add]
  rfl

/-- A title begins a node. -/
theorem beginsNode_title (h : IsTitle title) (depth : Int) :
    BeginsNode depth (indent depth ++ title) := by
  obtain ⟨⟨c, hc, hupper⟩, -⟩ := h
  have hline : (indent depth ++ title).toList =
      List.replicate (2 * depth).toNat ' ' ++ title.toList := by
    rw [String.toList_append, toList_indent]
  obtain ⟨hcount, hmark⟩ := leadingBlanks_eq hline hc (ne_blank_of_isUpper hupper)
  exact ⟨hcount, c, hmark, hupper⟩

/-- A field does not begin a node. -/
theorem not_beginsNode_field (h : IsFieldName name) (text : String) :
    ¬BeginsNode further (fieldIndent depth ++ name ++ text) := by
  obtain ⟨⟨c, hc, hlower⟩, -⟩ := h
  rintro ⟨-, d, hd, hupper⟩
  have hline : (fieldIndent depth ++ name ++ text).toList =
      List.replicate ((2 * depth).toNat + 2) ' ' ++ (name.toList ++ text.toList) := by
    rw [String.toList_append, String.toList_append, toList_fieldIndent, List.append_assoc]
  obtain ⟨-, hmark⟩ := leadingBlanks_eq hline
    (List.mem_head?_append_of_mem_head? hc) (ne_blank_of_isLower hlower)
  rw [hmark] at hd
  cases hd
  exact Char.not_isUpper_of_isLower hlower hupper

/-! ## What comes behind -/

/-- The lines do not go on with a node at the depth or deeper. -/
def Closed (depth : Int) (rest : List String) : Prop :=
  ∀ line ∈ rest.head?, ∀ deeper, depth ≤ deeper → ¬BeginsNode deeper line

theorem closed_nil (depth : Int) : Closed depth [] := nofun

theorem Closed.mono (h : Closed depth rest) (hle : depth ≤ further) : Closed further rest :=
  fun line hline deeper hdeeper => h line hline deeper (Int.le_trans hle hdeeper)

/-- Behind a field no node goes on. -/
theorem closed_field (h : IsFieldName name) (text : String) (rest : List String) :
    Closed further ((fieldIndent depth ++ name ++ text) :: rest) := by
  rintro _ ⟨⟩ deeper -
  exact not_beginsNode_field h text

/-- Behind a node no deeper one goes on; where there are no blanks that is not so. -/
theorem closed_node (hdepth : -1 ≤ depth) (h : BeginsNode depth line) (rest : List String) :
    Closed (depth + 2) (line :: rest) := by
  rintro _ ⟨⟩ deeper hdeeper hbegins
  -- a positive depth has its own indentation, and the deeper one is positive
  have hsame := h.indented.symm.trans hbegins.indented
  omega

/-- The lines of an outline begin a node at its depth. -/
theorem Outline.exists_lines_eq {outline : Outline} (h : outline.Fits shapes) (depth : Int) :
    ∃ line tail, outline.lines depth = line :: tail ∧ BeginsNode depth line := by
  cases outline with
  | line text =>
    rw [Outline.Fits] at h
    exact ⟨_, [], by rw [Outline.lines], beginsNode_title h.1 depth⟩
  | node title fields =>
    rw [Outline.Fits] at h
    exact ⟨_, _, by rw [Outline.lines], beginsNode_title (shapes.isTitle h.1) depth⟩

/-- The lines of a field begin with its name. -/
theorem Field.exists_lines_eq (field : Field) (depth : Int) :
    ∃ text tail, field.lines depth = (fieldIndent depth ++ field.slot.1 ++ text) :: tail := by
  cases field with
  | text name text => exact ⟨": " ++ text, [], by rw [Field.lines, String.append_assoc]; rfl⟩
  | one name outline => exact ⟨":", _, by rw [Field.lines]; rfl⟩
  | many name outlines =>
    cases outlines with
    | nil => exact ⟨": []", [], by rw [Field.lines]; rfl⟩
    | cons first more => exact ⟨":", _, by rw [Field.lines]; rfl⟩

/-- What fields begin with is closed, if what comes behind them is. -/
theorem closed_fields {fields : List Field}
    (hnames : ∀ slot ∈ fields.map Field.slot, IsFieldName slot.1) (hrest : Closed further rest) :
    Closed further (Field.allLines depth fields ++ rest) := by
  cases fields with
  | nil => exact hrest
  | cons field fields =>
    obtain ⟨text, tail, hlines⟩ := field.exists_lines_eq depth
    rw [Field.allLines, hlines]
    exact closed_field (hnames field.slot List.mem_cons_self) text _

/-- What a list begins with has nothing deeper in front, if that holds behind the list. -/
theorem closed_outlines {outlines : List Outline} (hdepth : -1 ≤ depth)
    (h : Outline.AllFit shapes outlines) (hrest : Closed depth rest) :
    Closed (depth + 2) (Outline.allLines depth outlines ++ rest) := by
  cases outlines with
  | nil => exact hrest.mono (by omega)
  | cons outline outlines =>
    rw [Outline.AllFit] at h
    obtain ⟨line, tail, hlines, hbegins⟩ := Outline.exists_lines_eq h.1 depth
    rw [Outline.allLines, hlines]
    exact closed_node hdepth hbegins _

/-- A list with something in it does not begin like what is behind a list. -/
theorem not_closed_outlines {outline : Outline} {outlines : List Outline}
    (h : Outline.AllFit shapes (outline :: outlines)) :
    ¬Closed depth (Outline.allLines depth (outline :: outlines) ++ rest) := by
  rw [Outline.AllFit] at h
  obtain ⟨line, tail, hlines, hbegins⟩ := Outline.exists_lines_eq h.1 depth
  rw [Outline.allLines, hlines]
  exact fun hclosed => hclosed line rfl depth (Int.le_refl depth) hbegins

/-! ## Outlines from their lines -/

/-- A list with something in it stands below the name of its field. -/
theorem Field.lines_many {outlines : List Outline} (h : outlines ≠ []) (name : String)
    (depth : Int) : Field.lines depth (.many name outlines) =
      (fieldIndent depth ++ name ++ ":") :: Outline.allLines (depth + 2) outlines := by
  cases outlines with
  | nil => exact absurd rfl h
  | cons first more => rw [Field.lines, Outline.allLines]

/-- The line of a field says whether its list is empty. -/
theorem Field.lines_many_eq_nil_iff {outlines more : List Outline}
    (h : Field.lines depth (.many name outlines) ++ rest =
      Field.lines depth (.many name more) ++ others) : outlines = [] ↔ more = [] := by
  cases outlines with
  | nil =>
    cases more with
    | nil => exact Iff.rfl
    | cons second more =>
      rw [Field.lines, Field.lines] at h
      have hline := (List.cons.inj h).1
      rw [String.append_right_inj] at hline
      exact absurd hline (by decide)
  | cons first outlines =>
    cases more with
    | nil =>
      rw [Field.lines, Field.lines] at h
      have hline := (List.cons.inj h).1
      rw [String.append_right_inj] at hline
      exact absurd hline (by decide)
    | cons second more => simp

mutual

/-- **An outline is known from its lines, whatever comes behind them.** -/
theorem Outline.lines_append_inj {depth : Int} {rest others : List String} :
    ∀ {first second : Outline}, -3 ≤ depth → first.Fits shapes → second.Fits shapes →
      Closed (depth + 2) rest → Closed (depth + 2) others →
      first.lines depth ++ rest = second.lines depth ++ others → first = second ∧ rest = others
  | .line text, .line other, _, _, _, _, _, h => by
    rw [Outline.lines, Outline.lines] at h
    obtain ⟨hline, hrest⟩ := List.cons.inj h
    rw [String.append_right_inj] at hline
    exact ⟨congrArg Outline.line hline, hrest⟩
  | .line text, .node title fields, _, hfirst, hsecond, _, _, h => by
    rw [Outline.Fits] at hfirst
    rw [Outline.Fits] at hsecond
    rw [Outline.lines, Outline.lines] at h
    have hline := (List.cons.inj h).1
    rw [String.append_right_inj] at hline
    rw [hline, hsecond.1] at hfirst
    exact absurd hfirst.2 (by simp)
  | .node title fields, .line text, _, hfirst, hsecond, _, _, h => by
    rw [Outline.Fits] at hfirst
    rw [Outline.Fits] at hsecond
    rw [Outline.lines, Outline.lines] at h
    have hline := (List.cons.inj h).1
    rw [String.append_right_inj] at hline
    rw [← hline, hfirst.1] at hsecond
    exact absurd hsecond.2 (by simp)
  | .node title fields, .node other more, hdepth, hfirst, hsecond, hrest, hothers, h => by
    rw [Outline.Fits] at hfirst hsecond
    rw [Outline.lines, Outline.lines] at h
    obtain ⟨hline, hlines⟩ := List.cons.inj h
    rw [String.append_right_inj] at hline
    subst hline
    have hslots := Option.some.inj (hfirst.1.symm.trans hsecond.1)
    obtain ⟨hfields, hbehind⟩ := Field.allLines_append_inj hdepth hslots
      (shapes.isFieldName hfirst.1) hfirst.2 hsecond.2 hrest hothers hlines
    exact ⟨congrArg (Outline.node title) hfields, hbehind⟩

theorem Field.lines_append_inj {depth : Int} {rest others : List String} :
    ∀ {first second : Field}, -3 ≤ depth → first.slot = second.slot → first.Fits shapes →
      second.Fits shapes → Closed (depth + 2) rest → Closed (depth + 2) others →
      first.lines depth ++ rest = second.lines depth ++ others → first = second ∧ rest = others
  | .text name text, second, _, hslot, _, _, _, _, h => by
    cases second with
    | text other shown =>
      cases congrArg Prod.fst hslot
      rw [Field.lines, Field.lines] at h
      obtain ⟨hline, hrest⟩ := List.cons.inj h
      rw [String.append_right_inj] at hline
      exact ⟨congrArg (Field.text name) hline, hrest⟩
    | one => cases congrArg Prod.snd hslot
    | many => cases congrArg Prod.snd hslot
  | .one name outline, second, hdepth, hslot, hfirst, hsecond, hrest, hothers, h => by
    cases second with
    | text => cases congrArg Prod.snd hslot
    | one other shown =>
      cases congrArg Prod.fst hslot
      rw [Field.Fits] at hfirst hsecond
      rw [Field.lines, Field.lines] at h
      obtain ⟨houtline, hbehind⟩ := Outline.lines_append_inj (by omega) hfirst hsecond
        (hrest.mono (by omega)) (hothers.mono (by omega)) (List.cons.inj h).2
      exact ⟨congrArg (Field.one name) houtline, hbehind⟩
    | many => cases congrArg Prod.snd hslot
  | .many name outlines, second, hdepth, hslot, hfirst, hsecond, hrest, hothers, h => by
    cases second with
    | text => cases congrArg Prod.snd hslot
    | one => cases congrArg Prod.snd hslot
    | many other shown =>
      cases congrArg Prod.fst hslot
      rw [Field.Fits] at hfirst hsecond
      have hiff := Field.lines_many_eq_nil_iff h
      by_cases hempty : outlines = []
      · obtain rfl := hiff.mp hempty
        subst hempty
        rw [Field.lines] at h
        exact ⟨rfl, (List.cons.inj h).2⟩
      · rw [Field.lines_many hempty, Field.lines_many fun hshown => hempty (hiff.mpr hshown)] at h
        obtain ⟨houtlines, hbehind⟩ := Outline.allLines_append_inj (by omega) hfirst hsecond
          hrest hothers (List.cons.inj h).2
        exact ⟨congrArg (Field.many name) houtlines, hbehind⟩

theorem Field.allLines_append_inj {depth : Int} {rest others : List String} :
    ∀ {first second : List Field}, -3 ≤ depth →
      first.map Field.slot = second.map Field.slot →
      (∀ slot ∈ first.map Field.slot, IsFieldName slot.1) → Field.AllFit shapes first →
      Field.AllFit shapes second → Closed (depth + 2) rest → Closed (depth + 2) others →
      Field.allLines depth first ++ rest = Field.allLines depth second ++ others →
      first = second ∧ rest = others
  | [], second, _, hslots, _, _, _, _, _, h => by
    obtain rfl := List.map_eq_nil_iff.mp hslots.symm
    exact ⟨rfl, h⟩
  | field :: fields, [], _, hslots, _, _, _, _, _, _ => nomatch hslots
  | field :: fields, other :: more, hdepth, hslots, hnames, hfirst, hsecond, hrest, hothers, h => by
    obtain ⟨hslot, hmore⟩ := List.cons.inj hslots
    have hbelow := (List.forall_mem_cons.mp hnames).2
    rw [Field.AllFit] at hfirst hsecond
    rw [Field.allLines, Field.allLines, List.append_assoc, List.append_assoc] at h
    obtain ⟨rfl, hlines⟩ := Field.lines_append_inj hdepth hslot hfirst.1 hsecond.1
      (closed_fields hbelow hrest) (closed_fields (hmore ▸ hbelow) hothers) h
    obtain ⟨rfl, hbehind⟩ :=
      Field.allLines_append_inj hdepth hmore hbelow hfirst.2 hsecond.2 hrest hothers hlines
    exact ⟨rfl, hbehind⟩

theorem Outline.allLines_append_inj {depth : Int} {rest others : List String} :
    ∀ {first second : List Outline}, -1 ≤ depth → Outline.AllFit shapes first →
      Outline.AllFit shapes second → Closed depth rest → Closed depth others →
      Outline.allLines depth first ++ rest = Outline.allLines depth second ++ others →
      first = second ∧ rest = others
  | [], [], _, _, _, _, _, h => ⟨rfl, h⟩
  -- behind the shorter list a node would go on at the depth of its members
  | [], outline :: outlines, _, _, hsecond, hrest, _, h =>
    absurd ((show rest = _ from h) ▸ hrest) (not_closed_outlines hsecond)
  | outline :: outlines, [], _, hfirst, _, _, hothers, h =>
    absurd ((show others = _ from h.symm) ▸ hothers) (not_closed_outlines hfirst)
  | outline :: outlines, other :: more, hdepth, hfirst, hsecond, hrest, hothers, h => by
    rw [Outline.AllFit] at hfirst hsecond
    rw [Outline.allLines, Outline.allLines, List.append_assoc, List.append_assoc] at h
    obtain ⟨rfl, hlines⟩ := Outline.lines_append_inj (by omega) hfirst.1 hsecond.1
      (closed_outlines hdepth hfirst.2 hrest) (closed_outlines hdepth hsecond.2 hothers) h
    obtain ⟨rfl, hbehind⟩ :=
      Outline.allLines_append_inj hdepth hfirst.2 hsecond.2 hrest hothers hlines
    exact ⟨rfl, hbehind⟩

end

/-! ## Printed outlines -/

theorem allPrintable_indent (depth : Int) : AllPrintable (indent depth) := by
  intro c hc
  rw [toList_indent] at hc
  rw [List.eq_of_mem_replicate hc]
  decide

theorem allPrintable_fieldIndent (depth : Int) : AllPrintable (fieldIndent depth) :=
  allPrintable_append (allPrintable_indent depth) (by decide)

theorem allPrintable_field (h : IsFieldName name) (htext : AllPrintable text) (depth : Int) :
    AllPrintable (fieldIndent depth ++ name ++ text) :=
  allPrintable_append (allPrintable_append (allPrintable_fieldIndent depth) h.2) htext

mutual

/-- The lines of an outline hold printable characters only. -/
theorem Outline.allPrintable_lines {depth : Int} :
    ∀ {outline : Outline}, outline.Fits shapes → ∀ line ∈ outline.lines depth, AllPrintable line
  | .line text, h, line, hline => by
    rw [Outline.Fits] at h
    rw [Outline.lines, List.mem_singleton] at hline
    rw [hline]
    exact allPrintable_append (allPrintable_indent depth) h.1.2
  | .node title fields, h, line, hline => by
    rw [Outline.Fits] at h
    rw [Outline.lines] at hline
    rcases List.mem_cons.mp hline with rfl | hfields
    · exact allPrintable_append (allPrintable_indent depth) (shapes.isTitle h.1).2
    · exact Field.allPrintable_allLines (shapes.isFieldName h.1) h.2 line hfields

theorem Field.allPrintable_lines {depth : Int} :
    ∀ {field : Field}, IsFieldName field.slot.1 → field.Fits shapes →
      ∀ line ∈ field.lines depth, AllPrintable line
  | .text name text, hname, h, line, hline => by
    rw [Field.Fits] at h
    rw [Field.lines, List.mem_singleton] at hline
    rw [hline]
    exact allPrintable_append (allPrintable_field hname (by decide) depth) h
  | .one name outline, hname, h, line, hline => by
    rw [Field.Fits] at h
    rw [Field.lines] at hline
    rcases List.mem_cons.mp hline with rfl | houtline
    · exact allPrintable_field hname (by decide) depth
    · exact Outline.allPrintable_lines h line houtline
  | .many name outlines, hname, h, line, hline => by
    rw [Field.Fits] at h
    by_cases hempty : outlines = []
    · subst hempty
      rw [Field.lines, List.mem_singleton] at hline
      rw [hline]
      exact allPrintable_field hname (by decide) depth
    · rw [Field.lines_many hempty] at hline
      rcases List.mem_cons.mp hline with rfl | houtlines
      · exact allPrintable_field hname (by decide) depth
      · exact Outline.allPrintable_allLines h line houtlines

theorem Field.allPrintable_allLines {depth : Int} :
    ∀ {fields : List Field}, (∀ slot ∈ fields.map Field.slot, IsFieldName slot.1) →
      Field.AllFit shapes fields → ∀ line ∈ Field.allLines depth fields, AllPrintable line
  | [], _, _, _, hline => nomatch hline
  | field :: fields, hnames, h, line, hline => by
    obtain ⟨hname, hbelow⟩ := List.forall_mem_cons.mp hnames
    rw [Field.AllFit] at h
    rw [Field.allLines] at hline
    rcases List.mem_append.mp hline with hfield | hfields
    · exact Field.allPrintable_lines hname h.1 line hfield
    · exact Field.allPrintable_allLines hbelow h.2 line hfields

theorem Outline.allPrintable_allLines {depth : Int} :
    ∀ {outlines : List Outline}, Outline.AllFit shapes outlines →
      ∀ line ∈ Outline.allLines depth outlines, AllPrintable line
  | [], _, _, hline => nomatch hline
  | outline :: outlines, h, line, hline => by
    rw [Outline.AllFit] at h
    rw [Outline.allLines] at hline
    rcases List.mem_append.mp hline with houtline | houtlines
    · exact Outline.allPrintable_lines h.1 line houtline
    · exact Outline.allPrintable_allLines h.2 line houtlines

end

/-- What is printed of an outline. -/
def Outline.printed (terminal : Bool) (depth : Int) (outline : Outline) : String :=
  Output.standardOutput terminal ((outline.lines depth).map .out)

/-- **Outlines that are printed alike are equal.** -/
theorem Outline.printed_inj {first second : Outline} {terminal : Bool} (hdepth : -3 ≤ depth)
    (hfirst : first.Fits shapes) (hsecond : second.Fits shapes)
    (h : first.printed terminal depth = second.printed terminal depth) : first = second := by
  have hlines := Output.standardOutput_inj (Outline.allPrintable_lines hfirst)
    (Outline.allPrintable_lines hsecond) h
  rw [← List.append_nil (first.lines depth), ← List.append_nil (second.lines depth)] at hlines
  exact (Outline.lines_append_inj hdepth hfirst hsecond (closed_nil _) (closed_nil _) hlines).1

end FrontEnd
