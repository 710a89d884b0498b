import FrontEnd.Proofs.Grammar.Spelled

/-!
# What is matched can be spelled

The names, the integers and the texts in a tree that the grammar makes of tokens are those of its
tokens, and no node is made without the parts that it needs, so the tree can be spelled again.

* `Pattern.WellFormed`, `Expr.WellFormed`, `Decl.WellFormed` — trees that can be spelled.
* `Item.Makes` — an item makes only what has a property.
* `Greedy.makes_pattern`, `Greedy.makes_term` — patterns and terms can be spelled.
* `Greedy.wellFormed_of_file` — so can the declarations of a file.
-/

set_option autoImplicit false

namespace FrontEnd

/-! ## Patterns that can be spelled -/

/-- A name that is an identifier and no keyword. -/
def Name.WellFormed (name : Name) : Prop :=
  (Lexeme.identifier name.text).WellFormed ∧ isKeyword name.text = false

mutual

/-- A pattern that can be spelled: constructors are told from variables by their names. -/
def Pattern.WellFormed : Pattern → Prop
  | .variable name => name.WellFormed ∧ Grammar.isConstructorName name.text = false
  | .integer _ value => Scan.fits value = true
  | .text _ value => '"' ∉ value.toList
  | .constructor name arguments =>
      name.WellFormed ∧ Grammar.isConstructorName name.text = true ∧
        Pattern.AllWellFormed arguments
  | .tuple _ members => Pattern.AllWellFormed members

def Pattern.AllWellFormed : List Pattern → Prop
  | [] => True
  | pattern :: rest => pattern.WellFormed ∧ Pattern.AllWellFormed rest

end

theorem Pattern.allWellFormed_iff (patterns : List Pattern) :
    Pattern.AllWellFormed patterns ↔ ∀ pattern ∈ patterns, pattern.WellFormed := by
  induction patterns with
  | nil => simp [Pattern.AllWellFormed]
  | cons pattern rest ih => simp [Pattern.AllWellFormed, ih]

instance (name : Name) : Decidable name.WellFormed :=
  inferInstanceAs (Decidable (_ ∧ _))

mutual

instance Pattern.decidableWellFormed : (pattern : Pattern) → Decidable pattern.WellFormed
  | .variable name => inferInstanceAs (Decidable (name.WellFormed ∧ _))
  | .integer _ value => inferInstanceAs (Decidable (Scan.fits value = true))
  | .text _ value => inferInstanceAs (Decidable ('"' ∉ value.toList))
  | .constructor name arguments =>
      have := Pattern.decidableAllWellFormed arguments
      inferInstanceAs (Decidable (name.WellFormed ∧ _ ∧ Pattern.AllWellFormed arguments))
  | .tuple _ members => Pattern.decidableAllWellFormed members

instance Pattern.decidableAllWellFormed :
    (patterns : List Pattern) → Decidable (Pattern.AllWellFormed patterns)
  | [] => inferInstanceAs (Decidable True)
  | pattern :: rest =>
      have := pattern.decidableWellFormed
      have := Pattern.decidableAllWellFormed rest
      inferInstanceAs (Decidable (pattern.WellFormed ∧ Pattern.AllWellFormed rest))

end

/-- A declaration whose head can be spelled. -/
structure Decl.HeadWellFormed (decl : Decl) : Prop where
  name : decl.name.WellFormed
  patterns : Pattern.AllWellFormed decl.patterns

/-! ## Declarations that can be spelled -/

/-- A symbol that can be spelled: a name, or an operator other than the one that assigns. -/
def Name.SymbolWellFormed (name : Name) : Prop :=
  name.WellFormed ∨ (Lexeme.operator name.text).WellFormed ∧ name.text ≠ "="

mutual

/-- An expression that can be spelled, and whether there may be floats in it. Calls have arguments,
matches have arms, and a `lambda` has no spelling. -/
def Expr.WellFormed (floats : Bool) : Expr → Prop
  | .lambda _ _ _ => False
  | .binding _ name value body => name.WellFormed ∧ value.WellFormed floats ∧ body.WellFormed floats
  | .integer _ value => Scan.fits value = true
  | .float _ _ => floats = true
  | .text _ value => '"' ∉ value.toList
  | .symbol name => name.SymbolWellFormed
  | .matching _ subject arms =>
      subject.WellFormed floats ∧ arms ≠ [] ∧ Arm.AllWellFormed floats arms
  | .call function arguments =>
      function.WellFormed floats ∧ arguments ≠ [] ∧ Expr.AllWellFormed floats arguments
  | .tuple _ members => Expr.AllWellFormed floats members

def Arm.WellFormed (floats : Bool) : Arm → Prop
  | .mk pattern body => pattern.WellFormed ∧ body.WellFormed floats

def Expr.AllWellFormed (floats : Bool) : List Expr → Prop
  | [] => True
  | expr :: rest => expr.WellFormed floats ∧ Expr.AllWellFormed floats rest

def Arm.AllWellFormed (floats : Bool) : List Arm → Prop
  | [] => True
  | arm :: rest => arm.WellFormed floats ∧ Arm.AllWellFormed floats rest

end

theorem Expr.allWellFormed_iff {floats : Bool} (exprs : List Expr) :
    Expr.AllWellFormed floats exprs ↔ ∀ expr ∈ exprs, expr.WellFormed floats := by
  induction exprs with
  | nil => simp [Expr.AllWellFormed]
  | cons expr rest ih => simp [Expr.AllWellFormed, ih]

theorem Arm.allWellFormed_iff {floats : Bool} (arms : List Arm) :
    Arm.AllWellFormed floats arms ↔ ∀ arm ∈ arms, arm.WellFormed floats := by
  induction arms with
  | nil => simp [Arm.AllWellFormed]
  | cons arm rest ih => simp [Arm.AllWellFormed, ih]

instance (name : Name) : Decidable name.SymbolWellFormed :=
  inferInstanceAs (Decidable (_ ∨ _ ∧ _))

mutual

instance Expr.decidableWellFormed (floats : Bool) :
    (expr : Expr) → Decidable (expr.WellFormed floats)
  | .lambda _ _ _ => inferInstanceAs (Decidable False)
  | .binding _ name value body =>
      have := value.decidableWellFormed floats
      have := body.decidableWellFormed floats
      inferInstanceAs (Decidable (name.WellFormed ∧ value.WellFormed floats ∧
        body.WellFormed floats))
  | .integer _ value => inferInstanceAs (Decidable (Scan.fits value = true))
  | .float _ _ => inferInstanceAs (Decidable (floats = true))
  | .text _ value => inferInstanceAs (Decidable ('"' ∉ value.toList))
  | .symbol name => inferInstanceAs (Decidable name.SymbolWellFormed)
  | .matching _ subject arms =>
      have := subject.decidableWellFormed floats
      have := Arm.decidableAllWellFormed floats arms
      inferInstanceAs (Decidable (subject.WellFormed floats ∧ arms ≠ [] ∧
        Arm.AllWellFormed floats arms))
  | .call function arguments =>
      have := function.decidableWellFormed floats
      have := Expr.decidableAllWellFormed floats arguments
      inferInstanceAs (Decidable (function.WellFormed floats ∧ arguments ≠ [] ∧
        Expr.AllWellFormed floats arguments))
  | .tuple _ members => Expr.decidableAllWellFormed floats members

instance Arm.decidableWellFormed (floats : Bool) : (arm : Arm) → Decidable (arm.WellFormed floats)
  | .mk pattern body =>
      have := body.decidableWellFormed floats
      inferInstanceAs (Decidable (pattern.WellFormed ∧ body.WellFormed floats))

instance Expr.decidableAllWellFormed (floats : Bool) :
    (exprs : List Expr) → Decidable (Expr.AllWellFormed floats exprs)
  | [] => inferInstanceAs (Decidable True)
  | expr :: rest =>
      have := expr.decidableWellFormed floats
      have := Expr.decidableAllWellFormed floats rest
      inferInstanceAs (Decidable (expr.WellFormed floats ∧ Expr.AllWellFormed floats rest))

instance Arm.decidableAllWellFormed (floats : Bool) :
    (arms : List Arm) → Decidable (Arm.AllWellFormed floats arms)
  | [] => inferInstanceAs (Decidable True)
  | arm :: rest =>
      have := arm.decidableWellFormed floats
      have := Arm.decidableAllWellFormed floats rest
      inferInstanceAs (Decidable (arm.WellFormed floats ∧ Arm.AllWellFormed floats rest))

end

/-- A declaration that can be spelled. -/
structure Decl.WellFormed (floats : Bool) (decl : Decl) : Prop extends decl.HeadWellFormed where
  body : decl.body.WellFormed floats

instance (floats : Bool) (decl : Decl) : Decidable (decl.WellFormed floats) :=
  decidable_of_iff (decl.name.WellFormed ∧ Pattern.AllWellFormed decl.patterns ∧
      decl.body.WellFormed floats)
    ⟨fun h => ⟨⟨h.1, h.2.1⟩, h.2.2⟩, fun h => ⟨h.name, h.patterns, h.body⟩⟩

/-! ## Items that make what has a property -/

namespace Item

variable {α β : Type} {item other : Item α} {good : α → Prop}

/-- From well-formed tokens an item makes only what has the property. -/
def Makes (item : Item α) (good : α → Prop) : Prop :=
  Spells item fun value => {_tokens : List Token | good value}

namespace Makes

/-- What is spelled in some way has some way of being spelled. -/
theorem of_spells {spelled : α → Language Token} (h : Spells item spelled) :
    Makes item fun _ => True :=
  Completes.mono h fun _ _ _ => trivial

theorem of_pure {value : α} (h : good value) : Makes (pure value) good :=
  Completes.of_pure h

theorem of_one {make : Token → Option α}
    (h : ∀ token value, token.lexeme.WellFormed → make token = some value → good value) :
    Makes (one make) good :=
  Spells.of_one h

theorem bind {next : α → Item β} {good' : β → Prop} (h : Makes item good)
    (hnext : ∀ value, good value → Makes (next value) good') : Makes (item >>= next) good' :=
  Completes.bind h fun value _ hvalue => hnext value hvalue

theorem orElse (h : Makes item good) (hother : Makes other good) :
    Makes (item <|> other) good :=
  Completes.orElse h hother

theorem map {f : α → β} {good' : β → Prop} (h : Makes item good)
    (hf : ∀ value, good value → good' (f value)) : Makes (f <$> item) good' := by
  rw [map_eq_pure_bind]
  exact h.bind fun value hvalue => .of_pure (hf value hvalue)

theorem optional (h : Makes item good) :
    Makes (optional item) fun found => ∀ value, found = some value → good value := by
  refine orElse (h.map fun value hvalue found hfound => ?_) (of_pure fun value hfound => ?_)
  · cases hfound
    exact hvalue
  · cases hfound

theorem many (h : Makes item good) :
    Makes (many item) fun values => ∀ value ∈ values, good value := by
  have hupTo : ∀ bound, Makes (manyUpTo item bound) fun values =>
      ∀ value ∈ values, good value := by
    intro bound
    induction bound with
    | zero => exact .of_pure (by simp)
    | succ bound ih =>
      refine orElse (h.bind fun value hvalue => ih.bind fun values hvalues => ?_)
        (.of_pure (by simp))
      exact .of_pure (List.forall_mem_cons.mpr ⟨hvalue, hvalues⟩)
  exact fun tokens => hupTo tokens.length tokens

end Makes

end Item

namespace Greedy

open Item

/-! ## Names and patterns -/

theorem makes_only (lexeme : Lexeme) : Makes (only lexeme) fun _ => True :=
  .of_spells (spells_only lexeme)

theorem makes_separators : Makes separators fun _ => True :=
  .of_spells spells_separators

theorem name_wellFormed {token : Token} {text : String} (h : token.lexeme.WellFormed)
    (hname : token.name? = some text) (location : Location) :
    (⟨text, location⟩ : Name).WellFormed := by
  rw [Token.lexeme_of_name? hname] at h
  refine ⟨h, ?_⟩
  unfold Token.name? at hname
  split at hname
  · split at hname
    · cases hname
    · rename_i hkeyword
      cases hname
      simpa using hkeyword
  · cases hname

theorem makes_name : Makes name Name.WellFormed := by
  refine .of_one fun token found hwell hmake => ?_
  obtain ⟨text, hname, rfl⟩ := Option.map_eq_some_iff.mp hmake
  exact name_wellFormed hwell hname _

theorem makes_plainPattern : Makes (one plainPattern?) Pattern.WellFormed := by
  refine .of_one fun token found hwell hmake => ?_
  unfold plainPattern? at hmake
  split at hmake
  · rename_i value hlexeme
    cases hmake
    rwa [hlexeme] at hwell
  · rename_i text hlexeme
    cases hmake
    rw [hlexeme] at hwell
    obtain ⟨inside, hquote, rfl⟩ := hwell
    simpa [Pattern.WellFormed, Grammar.unquote] using hquote
  · rename_i word hlexeme
    rw [hlexeme] at hwell
    split at hmake
    · cases hmake
    · rename_i hword
      cases hmake
      have hneither : isKeyword word = false ∧ Grammar.isConstructorName word = false := by
        simpa using hword
      exact ⟨⟨hwell, hneither.1⟩, hneither.2⟩
  · cases hmake

theorem makes_constructorName : Makes (one constructorName?) fun name =>
    name.WellFormed ∧ Grammar.isConstructorName name.text = true := by
  refine .of_one fun token found hwell hmake => ?_
  unfold constructorName? at hmake
  split at hmake
  · rename_i word hname
    split at hmake
    · rename_i hcase
      cases hmake
      exact ⟨name_wellFormed hwell hname _, hcase⟩
    · cases hmake
  · cases hmake

section Lists

variable {α : Type} {item : Item α} {good : α → Prop}

theorem makes_listedTail (h : Makes item good) :
    Makes (listedTail item) fun found => ∀ value ∈ found.1, good value := by
  have hcomma := makes_only .comma
  exact .bind (.many (.bind hcomma fun _ _ => h)) fun others hothers =>
    .bind hcomma.optional fun _ _ => .of_pure hothers

theorem makes_listed (h : Makes item good) :
    Makes (listed item) fun found => ∀ value ∈ found.1, good value :=
  .bind h fun _ hfirst => .bind (makes_listedTail h) fun _ hothers =>
    .of_pure (List.forall_mem_cons.mpr ⟨hfirst, hothers⟩)

theorem makes_members (h : Makes item good) :
    Makes (members item) fun found => ∀ value ∈ found.1, good value := by
  refine (makes_listed h).optional.map fun found hfound => ?_
  cases found with
  | none => simp
  | some found => exact hfound found rfl

end Lists

theorem groupedPattern_wellFormed (location : Location) {found : List Pattern × Bool}
    (h : ∀ pattern ∈ found.1, pattern.WellFormed) :
    (groupedPattern location found).WellFormed := by
  unfold groupedPattern
  split
  · exact h _ (List.mem_singleton_self _)
  · exact (Pattern.allWellFormed_iff _).mpr h

theorem makes_patternWith {inner : Item Pattern} (h : Makes inner Pattern.WellFormed) :
    Makes (patternWith inner) Pattern.WellFormed := by
  refine .orElse makes_plainPattern (.orElse ?_ ?_)
  · refine .bind makes_constructorName fun name hname => .bind h.many fun arguments harguments =>
      .of_pure ?_
    exact ⟨hname.1, hname.2, (Pattern.allWellFormed_iff _).mpr harguments⟩
  · refine .bind (makes_only _) fun opening _ => .bind (makes_members h) fun found hfound =>
      .bind (makes_only _) fun _ _ => .of_pure ?_
    exact groupedPattern_wellFormed _ hfound

theorem makes_patternUpTo (depth : Nat) : Makes (patternUpTo depth) Pattern.WellFormed := by
  induction depth with
  | zero => exact fun _ _ _ _ hnone => by cases hnone
  | succ depth ih => exact makes_patternWith ih

/-- **Every pattern that is matched can be spelled.** -/
theorem makes_pattern : Makes pattern Pattern.WellFormed :=
  fun tokens => makes_patternUpTo tokens.length tokens

/-! ## Terms -/

theorem makes_atom : Makes (one atom?) (Expr.WellFormed true) := by
  refine .of_one fun token found hwell hmake => ?_
  unfold atom? at hmake
  split at hmake
  · rename_i word hlexeme
    rw [hlexeme] at hwell
    split at hmake
    · cases hmake
    · rename_i hkeyword
      cases hmake
      exact .inl ⟨hwell, by simpa using hkeyword⟩
  · rename_i symbol hlexeme
    rw [hlexeme] at hwell
    split at hmake
    · cases hmake
    · rename_i hassign
      cases hmake
      exact .inr ⟨hwell, hassign⟩
  · rename_i value hlexeme
    cases hmake
    rwa [hlexeme] at hwell
  · cases hmake
    exact rfl
  · rename_i text hlexeme
    cases hmake
    rw [hlexeme] at hwell
    obtain ⟨inside, hquote, rfl⟩ := hwell
    simpa [Expr.WellFormed, Grammar.unquote] using hquote
  · cases hmake

/-- A call without arguments is no call. -/
theorem applied_wellFormed {function : Expr} {arguments : List Expr}
    (hfunction : function.WellFormed true) (h : ∀ expr ∈ arguments, expr.WellFormed true) :
    (applied function arguments).WellFormed true := by
  cases arguments with
  | nil => exact hfunction
  | cons first others =>
    exact ⟨hfunction, List.cons_ne_nil _ _, (Expr.allWellFormed_iff _).mpr h⟩

theorem groupedExpr_wellFormed (location : Location) {found : List Expr × Bool}
    (h : ∀ expr ∈ found.1, expr.WellFormed true) :
    (groupedExpr location found).WellFormed true := by
  unfold groupedExpr
  split
  · exact h _ (List.mem_singleton_self _)
  · exact (Expr.allWellFormed_iff _).mpr h

section Terms

variable {inner : Item Expr} (h : Makes inner (Expr.WellFormed true))

include h

theorem makes_callWith : Makes (callWith inner) (Expr.WellFormed true) :=
  makes_separators.bind fun _ _ => h.bind fun _ hfunction => h.many.bind fun _ harguments =>
    .of_pure (applied_wellFormed hfunction harguments)

theorem makes_group : Makes (group inner) (Expr.WellFormed true) :=
  (makes_only _).bind fun _ _ => (makes_listed (makes_callWith h)).bind fun _ hfound =>
    (makes_only _).bind fun _ _ => .of_pure (groupedExpr_wellFormed _ hfound)

theorem makes_binding : Makes (binding inner) (Expr.WellFormed true) :=
  (makes_only _).bind fun _ _ => makes_name.bind fun _ hname => (makes_only _).bind fun _ _ =>
    (makes_callWith h).bind fun _ hvalue => makes_separators.bind fun _ _ =>
      (makes_only _).bind fun _ _ => (makes_callWith h).bind fun _ hbody =>
        .of_pure ⟨hname, hvalue, hbody⟩

theorem makes_armWith : Makes (armWith inner) (Arm.WellFormed true) :=
  makes_separators.bind fun _ _ => makes_pattern.bind fun _ hpattern =>
    (makes_only _).bind fun _ _ => (makes_callWith h).bind fun _ hbody =>
      .of_pure ⟨hpattern, hbody⟩

/-- A match has a first arm at least. -/
theorem makes_matching : Makes (matching inner) (Expr.WellFormed true) := by
  refine (makes_only _).bind fun _ _ => (makes_callWith h).bind fun _ hsubject =>
    (makes_armWith h).bind fun _ hfirst => (makes_armWith h).many.bind fun _ hothers => .of_pure ?_
  exact ⟨hsubject, List.cons_ne_nil _ _,
    (Arm.allWellFormed_iff _).mpr (List.forall_mem_cons.mpr ⟨hfirst, hothers⟩)⟩

theorem makes_termWith : Makes (termWith inner) (Expr.WellFormed true) := by
  have hunit : Makes unit (Expr.WellFormed true) :=
    (makes_only _).bind fun _ _ => (makes_only _).bind fun _ _ => .of_pure trivial
  exact makes_atom.orElse (hunit.orElse ((makes_group h).orElse
    ((makes_binding h).orElse (makes_matching h))))

end Terms

theorem makes_termUpTo (depth : Nat) : Makes (termUpTo depth) (Expr.WellFormed true) := by
  induction depth with
  | zero => exact fun _ _ _ _ hnone => by cases hnone
  | succ depth ih => exact makes_termWith ih

/-- **Every term that is matched can be spelled.** -/
theorem makes_term : Makes term (Expr.WellFormed true) :=
  fun tokens => makes_termUpTo tokens.length tokens

/-! ## Declarations -/

theorem makes_decl : Makes decl (Decl.WellFormed true) :=
  makes_name.bind fun _ hname => makes_pattern.many.bind fun _ hpatterns =>
    (makes_only _).bind fun _ _ => (makes_callWith makes_term).bind fun _ hbody =>
      .of_pure ⟨⟨hname, (Pattern.allWellFormed_iff _).mpr hpatterns⟩, hbody⟩

/-- **The declarations of a file can be spelled.** -/
theorem wellFormed_of_file {tokens : List Token} {found : List Decl}
    (hwell : ∀ token ∈ tokens, token.lexeme.WellFormed) (h : file tokens = some found) :
    ∀ decl ∈ found, decl.WellFormed true := by
  have hdecls : Makes decls fun found => ∀ decl ∈ found, decl.WellFormed true :=
    .many (makes_decl.bind fun _ hdecl => makes_separators.bind fun _ _ => .of_pure hdecl)
  have hall : Makes (separators *> decls) fun found => ∀ decl ∈ found, decl.WellFormed true :=
    makes_separators.bind fun _ _ => hdecls
  unfold file at h
  split at h
  · rename_i hmatch
    cases h
    obtain ⟨_, _, hgood⟩ := hall tokens _ [] hwell hmatch
    exact hgood
  · cases h

end Greedy

end FrontEnd
