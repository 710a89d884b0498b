import FrontEnd.Proofs.Tree.Layout

/-!
# Trees that are printed alike

Two trees are alike if they differ in their locations at most and their floats have the same text.
The outline of a tree shows all the rest, so trees that are printed alike are alike.

* `Node.Alike` — equal up to locations, floats by their texts.
* `Node.alike_of_outline` — trees with the same outline are alike.
* `Node.fits_outline` — each node is shown with the fields of its class.
* `Node.alike_of_printed` — trees that are printed alike are alike.
-/

set_option autoImplicit false

namespace FrontEnd

open Text

/-! ## Alike trees -/

/-- Equal up to locations. -/
inductive Pattern.Alike : Pattern → Pattern → Prop
  | variable {name other : Name} (htext : name.text = other.text) :
      Alike (.variable name) (.variable other)
  | integer (location other : Location) (value : Int) :
      Alike (.integer location value) (.integer other value)
  | text (location other : Location) (value : String) :
      Alike (.text location value) (.text other value)
  | constructor {name other : Name} {arguments more : List Pattern}
      (htext : name.text = other.text) (harguments : List.Forall₂ Pattern.Alike arguments more) :
      Alike (.constructor name arguments) (.constructor other more)
  | tuple (location other : Location) {members more : List Pattern}
      (hmembers : List.Forall₂ Pattern.Alike members more) :
      Alike (.tuple location members) (.tuple other more)

mutual

/-- Equal up to locations, floats by their texts. -/
inductive Expr.Alike : Expr → Expr → Prop
  | lambda (location other : Location) {parameters more : List Name} {body shown : Expr}
      (hparameters : parameters.map Name.text = more.map Name.text)
      (hbody : Expr.Alike body shown) :
      Expr.Alike (.lambda location parameters body) (.lambda other more shown)
  | binding (location other : Location) {name another : Name} {value shown body rest : Expr}
      (htext : name.text = another.text) (hvalue : Expr.Alike value shown)
      (hbody : Expr.Alike body rest) :
      Expr.Alike (.binding location name value body) (.binding other another shown rest)
  | integer (location other : Location) (value : Int) :
      Expr.Alike (.integer location value) (.integer other value)
  | float (location other : Location) {value shown : Binary64} (htext : value.text = shown.text) :
      Expr.Alike (.float location value) (.float other shown)
  | text (location other : Location) (value : String) :
      Expr.Alike (.text location value) (.text other value)
  | symbol {name other : Name} (htext : name.text = other.text) :
      Expr.Alike (.symbol name) (.symbol other)
  | matching (location other : Location) {subject shown : Expr} {arms more : List Arm}
      (hsubject : Expr.Alike subject shown) (harms : List.Forall₂ Arm.Alike arms more) :
      Expr.Alike (.matching location subject arms) (.matching other shown more)
  | call {function shown : Expr} {arguments more : List Expr}
      (hfunction : Expr.Alike function shown)
      (harguments : List.Forall₂ Expr.Alike arguments more) :
      Expr.Alike (.call function arguments) (.call shown more)
  | tuple (location other : Location) {members more : List Expr}
      (hmembers : List.Forall₂ Expr.Alike members more) :
      Expr.Alike (.tuple location members) (.tuple other more)

inductive Arm.Alike : Arm → Arm → Prop
  | mk {pattern other : Pattern} {body shown : Expr} (hpattern : Pattern.Alike pattern other)
      (hbody : Expr.Alike body shown) : Arm.Alike (.mk pattern body) (.mk other shown)

end

/-- Equal up to locations, floats by their texts. -/
structure Decl.Alike (first second : Decl) : Prop where
  name : first.name.text = second.name.text
  patterns : List.Forall₂ Pattern.Alike first.patterns second.patterns
  body : Expr.Alike first.body second.body

/-- Trees of one sort that are equal up to locations, floats by their texts. -/
inductive Node.Alike : Node → Node → Prop
  | ofName {name other : Name} (htext : name.text = other.text) :
      Alike (.ofName name) (.ofName other)
  | ofPattern {pattern other : Pattern} (hpattern : pattern.Alike other) :
      Alike (.ofPattern pattern) (.ofPattern other)
  | ofExpr {expr other : Expr} (hexpr : expr.Alike other) : Alike (.ofExpr expr) (.ofExpr other)
  | ofArm {arm other : Arm} (harm : arm.Alike other) : Alike (.ofArm arm) (.ofArm other)
  | ofDecl {decl other : Decl} (hdecl : decl.Alike other) : Alike (.ofDecl decl) (.ofDecl other)

/-! ## Equal outlines -/

theorem Name.text_eq_of_outline {first second : Name} (h : first.outline = second.outline) :
    first.text = second.text := by
  have htext := Outline.line.inj h
  rw [String.append_right_inj] at htext
  exact quoted_inj htext

theorem Name.texts_eq_of_outlines {first second : List Name}
    (h : first.map Name.outline = second.map Name.outline) :
    first.map Name.text = second.map Name.text := by
  induction first generalizing second with
  | nil =>
    rw [List.map_eq_nil_iff.mp h.symm]
  | cons name names ih =>
    cases second with
    | nil => cases h
    | cons other others =>
      obtain ⟨hname, hnames⟩ := List.cons.inj h
      rw [List.map_cons, List.map_cons, Name.text_eq_of_outline hname, ih hnames]

mutual

/-- Patterns with the same outline are alike. -/
theorem Pattern.alike_of_outline :
    ∀ {first second : Pattern}, first.outline = second.outline → first.Alike second
  | .variable name, second, h => by
    cases second with
    | «variable» other =>
      have hname : name.outline = other.outline := by simpa [Pattern.outline] using h
      exact .variable (Name.text_eq_of_outline hname)
    | _ => simp [Pattern.outline] at h
  | .integer location value, second, h => by
    cases second with
    | integer other shown =>
      have hvalue : toString value = toString shown := by simpa [Pattern.outline] using h
      rw [integer_inj hvalue]
      exact .integer location other shown
    | _ => simp [Pattern.outline] at h
  | .text location value, second, h => by
    cases second with
    | text other shown =>
      have hvalue : quoted value = quoted shown := by simpa [Pattern.outline] using h
      rw [quoted_inj hvalue]
      exact .text location other shown
    | _ => simp [Pattern.outline] at h
  | .constructor name arguments, second, h => by
    cases second with
    | constructor other more =>
      obtain ⟨hname, harguments⟩ : name.outline = other.outline ∧
          Pattern.outlines arguments = Pattern.outlines more := by
        simpa [Pattern.outline] using h
      exact .constructor (Name.text_eq_of_outline hname) (Pattern.alike_of_outlines harguments)
    | _ => simp [Pattern.outline] at h
  | .tuple location members, second, h => by
    cases second with
    | tuple other more =>
      have hmembers : Pattern.outlines members = Pattern.outlines more := by
        simpa [Pattern.outline] using h
      exact .tuple location other (Pattern.alike_of_outlines hmembers)
    | _ => simp [Pattern.outline] at h

theorem Pattern.alike_of_outlines :
    ∀ {first second : List Pattern}, Pattern.outlines first = Pattern.outlines second →
      List.Forall₂ Pattern.Alike first second
  | [], [], _ => .nil
  | [], other :: more, h => by cases h
  | pattern :: patterns, [], h => by cases h
  | pattern :: patterns, other :: more, h => by
    rw [Pattern.outlines, Pattern.outlines, List.cons.injEq] at h
    exact .cons (Pattern.alike_of_outline h.1) (Pattern.alike_of_outlines h.2)

end

mutual

/-- Expressions with the same outline are alike. -/
theorem Expr.alike_of_outline :
    ∀ {first second : Expr}, first.outline = second.outline → first.Alike second
  | .lambda location parameters body, second, h => by
    cases second with
    | lambda other more shown =>
      obtain ⟨hparameters, hbody⟩ : parameters.map Name.outline = more.map Name.outline ∧
          body.outline = shown.outline := by
        simpa [Expr.outline] using h
      exact .lambda location other (Name.texts_eq_of_outlines hparameters)
        (Expr.alike_of_outline hbody)
    | _ => simp [Expr.outline] at h
  | .binding location name value body, second, h => by
    cases second with
    | binding other another shown rest =>
      obtain ⟨hname, hvalue, hbody⟩ : name.outline = another.outline ∧
          value.outline = shown.outline ∧ body.outline = rest.outline := by
        simpa [Expr.outline] using h
      exact .binding location other (Name.text_eq_of_outline hname) (Expr.alike_of_outline hvalue)
        (Expr.alike_of_outline hbody)
    | _ => simp [Expr.outline] at h
  | .integer location value, second, h => by
    cases second with
    | integer other shown =>
      have hvalue : toString value = toString shown := by simpa [Expr.outline] using h
      rw [integer_inj hvalue]
      exact .integer location other shown
    | _ => simp [Expr.outline] at h
  | .float location value, second, h => by
    cases second with
    | float other shown =>
      have hvalue : value.text = shown.text := by simpa [Expr.outline] using h
      exact .float location other hvalue
    | _ => simp [Expr.outline] at h
  | .text location value, second, h => by
    cases second with
    | text other shown =>
      have hvalue : quoted value = quoted shown := by simpa [Expr.outline] using h
      rw [quoted_inj hvalue]
      exact .text location other shown
    | _ => simp [Expr.outline] at h
  | .symbol name, second, h => by
    cases second with
    | symbol other =>
      have hname : name.outline = other.outline := by simpa [Expr.outline] using h
      exact .symbol (Name.text_eq_of_outline hname)
    | _ => simp [Expr.outline] at h
  | .matching location subject arms, second, h => by
    cases second with
    | matching other shown more =>
      obtain ⟨hsubject, harms⟩ : subject.outline = shown.outline ∧
          Arm.outlines arms = Arm.outlines more := by
        simpa [Expr.outline] using h
      exact .matching location other (Expr.alike_of_outline hsubject) (Arm.alike_of_outlines harms)
    | _ => simp [Expr.outline] at h
  | .call function arguments, second, h => by
    cases second with
    | call shown more =>
      obtain ⟨hfunction, harguments⟩ : function.outline = shown.outline ∧
          Expr.outlines arguments = Expr.outlines more := by
        simpa [Expr.outline] using h
      exact .call (Expr.alike_of_outline hfunction) (Expr.alike_of_outlines harguments)
    | _ => simp [Expr.outline] at h
  | .tuple location members, second, h => by
    cases second with
    | tuple other more =>
      have hmembers : Expr.outlines members = Expr.outlines more := by
        simpa [Expr.outline] using h
      exact .tuple location other (Expr.alike_of_outlines hmembers)
    | _ => simp [Expr.outline] at h

theorem Arm.alike_of_outline :
    ∀ {first second : Arm}, first.outline = second.outline → first.Alike second
  | .mk pattern body, .mk other shown, h => by
    obtain ⟨hpattern, hbody⟩ : pattern.outline = other.outline ∧
        body.outline = shown.outline := by
      simpa [Arm.outline] using h
    exact .mk (Pattern.alike_of_outline hpattern) (Expr.alike_of_outline hbody)

theorem Expr.alike_of_outlines :
    ∀ {first second : List Expr}, Expr.outlines first = Expr.outlines second →
      List.Forall₂ Expr.Alike first second
  | [], [], _ => .nil
  | [], other :: more, h => by cases h
  | expr :: exprs, [], h => by cases h
  | expr :: exprs, other :: more, h => by
    rw [Expr.outlines, Expr.outlines, List.cons.injEq] at h
    exact .cons (Expr.alike_of_outline h.1) (Expr.alike_of_outlines h.2)

theorem Arm.alike_of_outlines :
    ∀ {first second : List Arm}, Arm.outlines first = Arm.outlines second →
      List.Forall₂ Arm.Alike first second
  | [], [], _ => .nil
  | [], other :: more, h => by cases h
  | arm :: arms, [], h => by cases h
  | arm :: arms, other :: more, h => by
    rw [Arm.outlines, Arm.outlines, List.cons.injEq] at h
    exact .cons (Arm.alike_of_outline h.1) (Arm.alike_of_outlines h.2)

end

theorem Decl.alike_of_outline {first second : Decl} (h : first.outline = second.outline) :
    first.Alike second := by
  obtain ⟨hname, hpatterns, hbody⟩ : first.name.outline = second.name.outline ∧
      Pattern.outlines first.patterns = Pattern.outlines second.patterns ∧
      first.body.outline = second.body.outline := by
    simpa [Decl.outline] using h
  exact ⟨Name.text_eq_of_outline hname, Pattern.alike_of_outlines hpatterns,
    Expr.alike_of_outline hbody⟩

/-! ## Classes of nodes -/

/-- The sorts of trees. -/
inductive NodeSort where
  | name
  | pattern
  | expr
  | arm
  | decl
  deriving DecidableEq, Repr

/-- The titles of nodes, with the sort of the tree and the fields of the node. -/
def nodeClasses : List (String × NodeSort × List (String × Slot)) :=
  [("IrrefutablePredicate", .pattern, [("id", .one)]),
   ("IntegerPredicate", .pattern, [("value", .text)]),
   ("StringPredicate", .pattern, [("value", .text)]),
   ("CtorPredicate", .pattern, [("ctor_id", .one), ("dims", .many)]),
   ("TuplePredicate", .pattern, [("dims", .many)]),
   ("Lambda", .expr, [("param_names", .many), ("body", .one)]),
   ("Let", .expr, [("binding", .one), ("value", .one), ("body", .one)]),
   ("LiteralInteger", .expr, [("value", .text)]),
   ("LiteralFloat", .expr, [("value", .text)]),
   ("LiteralString", .expr, [("value", .text)]),
   ("Symbol", .expr, [("id", .one)]),
   ("Match", .expr, [("subject", .one), ("pattern_exprs", .many)]),
   ("Callsite", .expr, [("function", .one), ("arguments", .many)]),
   ("TupleCtor", .expr, [("dims", .many)]),
   ("PatternExpr", .arm, [("predicate", .one), ("expr", .one)]),
   ("Decl", .decl, [("id", .one), ("predicates", .many), ("body", .one)])]

theorem mem_of_lookup {title : String} {entry : NodeSort × List (String × Slot)}
    (h : nodeClasses.lookup title = some entry) : (title, entry) ∈ nodeClasses := by
  obtain ⟨before, behind, heq, -⟩ := List.lookup_eq_some_iff.mp h
  rw [heq]
  exact List.mem_append_right before List.mem_cons_self

/-- The fields that belong to the titles of nodes. -/
def nodeShapes : Shapes where
  fields? title := (nodeClasses.lookup title).map Prod.snd
  isTitle h := by
    have htitles : ∀ entry ∈ nodeClasses, IsTitle entry.1 := by decide
    obtain ⟨entry, hentry, -⟩ := Option.map_eq_some_iff.mp h
    exact htitles _ (mem_of_lookup hentry)
  isFieldName h := by
    have hnames : ∀ entry ∈ nodeClasses, ∀ slot ∈ entry.2.2, IsFieldName slot.1 := by decide
    obtain ⟨entry, hentry, rfl⟩ := Option.map_eq_some_iff.mp h
    exact hnames _ (mem_of_lookup hentry)

/-- The sort of the tree that an outline shows. -/
def Outline.sort? : Outline → Option NodeSort
  | .line _ => some .name
  | .node title _ => (nodeClasses.lookup title).map Prod.fst

def Node.sort : Node → NodeSort
  | .ofName _ => .name
  | .ofPattern _ => .pattern
  | .ofExpr _ => .expr
  | .ofArm _ => .arm
  | .ofDecl _ => .decl

/-- The sort of a tree is known from its outline. -/
theorem Node.sort?_outline (node : Node) : node.outline.sort? = some node.sort := by
  cases node with
  | ofName name => rfl
  | ofPattern pattern => cases pattern <;> rfl
  | ofExpr expr => cases expr <;> rfl
  | ofArm arm => cases arm; rfl
  | ofDecl decl => rfl

/-- Trees with the same outline are alike. -/
theorem Node.alike_of_outline {first second : Node} (h : first.outline = second.outline) :
    first.Alike second := by
  have hsort : first.sort = second.sort := by
    rw [← Option.some.injEq, ← first.sort?_outline, h, second.sort?_outline]
  cases first <;> cases second <;> cases hsort
  case ofName => exact .ofName (Name.text_eq_of_outline h)
  case ofPattern => exact .ofPattern (Pattern.alike_of_outline h)
  case ofExpr => exact .ofExpr (Expr.alike_of_outline h)
  case ofArm => exact .ofArm (Arm.alike_of_outline h)
  case ofDecl => exact .ofDecl (Decl.alike_of_outline h)

/-- A name is shown on a line of its own. -/
theorem Name.fits_outline (name : Name) : name.outline.Fits nodeShapes := by
  have htitle : IsTitle ("Identifier " ++ quoted name.text) := by
    refine ⟨⟨'I', ?_, by decide⟩, allPrintable_append (by decide) (allPrintable_quoted name.text)⟩
    rw [String.toList_append]
    exact List.mem_head?_append_of_mem_head? (by decide)
  -- no title of a node holds a blank
  have hblank : ∀ entry ∈ nodeClasses, ' ' ∉ entry.1.toList := by decide
  have hnone : nodeClasses.lookup ("Identifier " ++ quoted name.text) = none := by
    refine List.lookup_eq_none_iff.mpr fun entry hentry => bne_iff_ne.mpr fun hsame => ?_
    refine hblank entry hentry (hsame ▸ ?_)
    rw [String.toList_append]
    exact List.mem_append_left _ (by decide)
  rw [Name.outline, Outline.Fits]
  exact ⟨htitle, congrArg (Option.map Prod.snd) hnone⟩

mutual

theorem Pattern.fits_outline : ∀ pattern : Pattern, pattern.outline.Fits nodeShapes
  | .variable name => by
    simp only [Pattern.outline, Outline.Fits, Field.AllFit, Field.Fits]
    exact ⟨rfl, name.fits_outline, trivial⟩
  | .integer location value => by
    simp only [Pattern.outline, Outline.Fits, Field.AllFit, Field.Fits]
    exact ⟨rfl, allPrintable_integer value, trivial⟩
  | .text location value => by
    simp only [Pattern.outline, Outline.Fits, Field.AllFit, Field.Fits]
    exact ⟨rfl, allPrintable_quoted value, trivial⟩
  | .constructor name arguments => by
    simp only [Pattern.outline, Outline.Fits, Field.AllFit, Field.Fits]
    exact ⟨rfl, name.fits_outline, Pattern.fits_outlines arguments, trivial⟩
  | .tuple location members => by
    simp only [Pattern.outline, Outline.Fits, Field.AllFit, Field.Fits]
    exact ⟨rfl, Pattern.fits_outlines members, trivial⟩

theorem Pattern.fits_outlines :
    ∀ patterns : List Pattern, Outline.AllFit nodeShapes (Pattern.outlines patterns)
  | [] => trivial
  | pattern :: patterns => ⟨Pattern.fits_outline pattern, Pattern.fits_outlines patterns⟩

end

theorem Name.fits_outlines : ∀ names : List Name, Outline.AllFit nodeShapes (names.map Name.outline)
  | [] => trivial
  | name :: names => ⟨name.fits_outline, Name.fits_outlines names⟩

mutual

theorem Expr.fits_outline : ∀ expr : Expr, expr.outline.Fits nodeShapes
  | .lambda location parameters body => by
    simp only [Expr.outline, Outline.Fits, Field.AllFit, Field.Fits]
    exact ⟨rfl, Name.fits_outlines parameters, Expr.fits_outline body, trivial⟩
  | .binding location name value body => by
    simp only [Expr.outline, Outline.Fits, Field.AllFit, Field.Fits]
    exact ⟨rfl, name.fits_outline, Expr.fits_outline value, Expr.fits_outline body, trivial⟩
  | .integer location value => by
    simp only [Expr.outline, Outline.Fits, Field.AllFit, Field.Fits]
    exact ⟨rfl, allPrintable_integer value, trivial⟩
  | .float location value => by
    simp only [Expr.outline, Outline.Fits, Field.AllFit, Field.Fits]
    exact ⟨rfl, value.allPrintable_text, trivial⟩
  | .text location value => by
    simp only [Expr.outline, Outline.Fits, Field.AllFit, Field.Fits]
    exact ⟨rfl, allPrintable_quoted value, trivial⟩
  | .symbol name => by
    simp only [Expr.outline, Outline.Fits, Field.AllFit, Field.Fits]
    exact ⟨rfl, name.fits_outline, trivial⟩
  | .matching location subject arms => by
    simp only [Expr.outline, Outline.Fits, Field.AllFit, Field.Fits]
    exact ⟨rfl, Expr.fits_outline subject, Arm.fits_outlines arms, trivial⟩
  | .call function arguments => by
    simp only [Expr.outline, Outline.Fits, Field.AllFit, Field.Fits]
    exact ⟨rfl, Expr.fits_outline function, Expr.fits_outlines arguments, trivial⟩
  | .tuple location members => by
    simp only [Expr.outline, Outline.Fits, Field.AllFit, Field.Fits]
    exact ⟨rfl, Expr.fits_outlines members, trivial⟩

theorem Arm.fits_outline : ∀ arm : Arm, arm.outline.Fits nodeShapes
  | .mk pattern body => by
    simp only [Arm.outline, Outline.Fits, Field.AllFit, Field.Fits]
    exact ⟨rfl, pattern.fits_outline, Expr.fits_outline body, trivial⟩

theorem Expr.fits_outlines : ∀ exprs : List Expr, Outline.AllFit nodeShapes (Expr.outlines exprs)
  | [] => trivial
  | expr :: exprs => ⟨Expr.fits_outline expr, Expr.fits_outlines exprs⟩

theorem Arm.fits_outlines : ∀ arms : List Arm, Outline.AllFit nodeShapes (Arm.outlines arms)
  | [] => trivial
  | arm :: arms => ⟨Arm.fits_outline arm, Arm.fits_outlines arms⟩

end

theorem Decl.fits_outline (decl : Decl) : decl.outline.Fits nodeShapes := by
  simp only [Decl.outline, Outline.Fits, Field.AllFit, Field.Fits]
  exact ⟨rfl, decl.name.fits_outline,
    Pattern.fits_outlines decl.patterns, decl.body.fits_outline, trivial⟩

/-- **Each node is shown with the fields of its class.** -/
theorem Node.fits_outline : ∀ node : Node, node.outline.Fits nodeShapes
  | .ofName name => name.fits_outline
  | .ofPattern pattern => pattern.fits_outline
  | .ofExpr expr => expr.fits_outline
  | .ofArm arm => arm.fits_outline
  | .ofDecl decl => decl.fits_outline

/-! ## Printed trees -/

/-- **Trees that are printed alike are alike**, whatever names and texts are in them. -/
theorem Node.alike_of_printed {first second : Node} {depth : Nat} {terminal : Bool}
    (h : first.outline.printed terminal depth = second.outline.printed terminal depth) :
    first.Alike second :=
  Node.alike_of_outline (Outline.printed_inj (by omega) first.fits_outline second.fits_outline h)

/-- The same call at two places, with a text that looks like the lines of a tree. -/
theorem Node.alike_of_printed_call :
    let call (location : Location) : Node :=
      .ofExpr (.call (.symbol ⟨"f", location⟩) [.text location "x\n  dims:\n    Symbol"])
    (call ⟨"a", 1, 0⟩).outline.printed true (2 : Nat) =
        (call ⟨"b", 2, 4⟩).outline.printed true (2 : Nat) ∧
      (call ⟨"a", 1, 0⟩).Alike (call ⟨"b", 2, 4⟩) := by
  intro call
  have hprinted : (call ⟨"a", 1, 0⟩).outline.printed true (2 : Nat) =
      (call ⟨"b", 2, 4⟩).outline.printed true (2 : Nat) := rfl
  exact ⟨hprinted, Node.alike_of_printed hprinted⟩

end FrontEnd
