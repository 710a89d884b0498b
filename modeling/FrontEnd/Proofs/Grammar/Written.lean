import FrontEnd.Proofs.Grammar.Shown
import FrontEnd.Proofs.Grammar.Stuck
import FrontEnd.Proofs.Tree.Moved
import FrontEnd.Proofs.Tree.Written

/-!
# Reading what is written

The greedy grammar reads trees from the lexemes that they are written with. What stands in
parentheses takes nothing from behind them. A call takes every term that is behind it, so it is read
as written only where no term begins: in front of a comma, a closing parenthesis, a separator or the
word that ends the value of a binding.

* `Item.Takes` — an item takes just a row of lexemes.
* `Greedy.pattern_written`, `Greedy.term_written` — what is taken of a written pattern or
  expression.
* `Greedy.file_written` — what is read from written declarations.
-/

set_option autoImplicit false

namespace FrontEnd

/-! ## Items that take a row -/

namespace Item

variable {α β : Type} {item : Item α} {before other : List Token → Prop}

/-- In front of tokens with a property an item takes just a row of lexemes, and makes a value of
it. -/
def Takes (item : Item α) (before : List Token → Prop) (row : List Lexeme) (value : α) : Prop :=
  ∀ rest, before rest → item (row.map Token.bare ++ rest) = some (value, rest)

theorem Takes.mono {row : List Lexeme} {value : α} (h : Takes item before row value)
    (hbefore : ∀ rest, other rest → before rest) : Takes item other row value :=
  fun rest hrest => h rest (hbefore rest hrest)

/-- Rows beside each other, where every one may stand in front of the next one. -/
theorem many_each (hshrinks : Shrinks item) {values : List β} {row : β → List Lexeme}
    {make : β → α} (h : ∀ value ∈ values, Takes item before (row value) (make value))
    (hnext : ∀ value ∈ values, ∀ rest, before ((row value).map Token.bare ++ rest))
    {rest : List Token} (hrest : before rest) (hend : item rest = none) :
    many item ((values.flatMap row).map Token.bare ++ rest) = some (values.map make, rest) := by
  induction values with
  | nil => exact many_of_none hend
  | cons value others ih =>
    obtain ⟨hvalue, hothers⟩ := List.forall_mem_cons.mp h
    obtain ⟨-, hnext⟩ := List.forall_mem_cons.mp hnext
    have hbehind : before ((others.flatMap row).map Token.bare ++ rest) := by
      cases others with
      | nil => exact hrest
      | cons next more =>
        rw [List.flatMap_cons, List.map_append, List.append_assoc]
        exact hnext next List.mem_cons_self _
    rw [List.flatMap_cons, List.map_append, List.append_assoc,
      many_of_some hshrinks (hvalue _ hbehind), ih hothers hnext]
    rfl

end Item

namespace Greedy

open Item

/-- Anything may follow. -/
def Anything (_ : List Token) : Prop := True

/-- No term follows. -/
def NoTerm (tokens : List Token) : Prop := term tokens = none

/-- A closing parenthesis follows. -/
def Closes (tokens : List Token) : Prop :=
  ∃ rest, tokens = Token.bare (.closing .paren) :: rest

/-! ## Lists with commas -/

section Listed

variable {α β : Type} {item : Item α} {before : List Token → Prop} {values : List β}
  {row : β → List Lexeme} {make : β → α} (hshrinks : Shrinks item)
  (hclosing : ∀ rest, item (Token.bare (.closing .paren) :: rest) = none)
  (hcomma : ∀ rest, before (Token.bare .comma :: rest))
  (h : ∀ value ∈ values, Takes item before (row value) (make value)) (rest : List Token)

/-- The tokens of rows with a comma behind each of them, in front of a closing parenthesis. -/
def commaTokens (row : β → List Lexeme) (values : List β) (rest : List Token) : List Token :=
  (values.flatMap fun value => row value ++ [.comma]).map Token.bare ++
    Token.bare (.closing .paren) :: rest

theorem commaTokens_cons (value : β) (others : List β) :
    commaTokens row (value :: others) rest =
      (row value).map Token.bare ++ Token.bare .comma :: commaTokens row others rest := by
  simp [commaTokens]

include hshrinks hclosing hcomma h

/-- Behind a comma: rows with a comma behind each of them. -/
theorem listedTail_each : listedTail item (Token.bare .comma :: commaTokens row values rest) =
    some ((values.map make, true), Token.bare (.closing .paren) :: rest) := by
  rw [listedTail_of_comma hshrinks rfl]
  induction values with
  | nil => exact congrArg _ (members_of_none (hclosing rest))
  | cons value others ih =>
    obtain ⟨hvalue, hothers⟩ := List.forall_mem_cons.mp h
    have htail : listedTail item (Token.bare .comma :: commaTokens row others rest) = _ :=
      (listedTail_of_comma hshrinks rfl).trans (ih hothers)
    rw [commaTokens_cons, members_of_some (hvalue _ (hcomma _)) htail]
    rfl

/-- One row or more, with a comma behind each of them. -/
theorem listed_each (hne : values ≠ []) : listed item (commaTokens row values rest) =
    some ((values.map make, true), Token.bare (.closing .paren) :: rest) := by
  cases values with
  | nil => exact absurd rfl hne
  | cons value others =>
    obtain ⟨hvalue, hothers⟩ := List.forall_mem_cons.mp h
    have htail := listedTail_each hshrinks hclosing hcomma hothers rest
    rw [commaTokens_cons, listed_of_some (hvalue _ (hcomma _)) htail]
    rfl

/-- Any number of rows, with a comma behind each of them. -/
theorem members_each : members item (commaTokens row values rest) =
    some ((values.map make, !values.isEmpty), Token.bare (.closing .paren) :: rest) := by
  cases values with
  | nil => exact members_of_none (hclosing rest)
  | cons value others =>
    have hlisted := listed_each hshrinks hclosing hcomma h rest (List.cons_ne_nil _ _)
    exact map_of_some (optional_of_some hlisted)

end Listed

/-! ## Patterns -/

theorem groupedPattern_tuple (location : Location) (make : Pattern → Pattern)
    (members : List Pattern) :
    groupedPattern location (members.map make, !members.isEmpty) =
      .tuple location (members.map make) := by
  rcases members with _ | ⟨_, _ | ⟨_, _⟩⟩ <;> rfl

mutual

/-- **What is taken of a written pattern is the pattern**, whatever is behind it. -/
theorem pattern_written : ∀ (shown : Pattern), shown.WellFormed →
    Takes pattern Anything shown.written (shown.relocate nowhere)
  | .variable _, h => fun _ _ => pattern_of_plain (plainPattern?_bare h.1 h.2)
  | .integer _ _, _ => fun _ _ => pattern_of_plain rfl
  | .text _ value, _ => fun _ _ => pattern_of_plain (plainPattern?_text value)
  | .constructor name arguments, h => by
    intro rest _
    have harguments := many_each shrinks_pattern (pattern_written_each arguments h.2.2)
      (fun _ _ _ => trivial) trivial (pattern_closing rest)
    have hconstructor := pattern_of_constructor (constructorName?_bare h.1 h.2.1) harguments
    have hgroup := pattern_grouped (.identifier name.text :: arguments.flatMap Pattern.written)
      (members_of_some hconstructor (listedTail_closing rest))
    rw [Pattern.written, Pattern.writtenEach_eq_flatMap, Pattern.relocate,
      Pattern.relocateAll_eq_map]
    simpa [groupedPattern] using hgroup
  | .tuple _ members, h => by
    intro rest _
    have hmembers := members_each shrinks_pattern pattern_closing (fun _ => trivial)
      (pattern_written_each members h) rest
    rw [Pattern.written, Pattern.writtenEach_eq_flatMap, pattern_grouped _ hmembers,
      groupedPattern_tuple, Pattern.relocate, Pattern.relocateAll_eq_map]
    rfl

theorem pattern_written_each : ∀ (patterns : List Pattern), Pattern.AllWellFormed patterns →
    ∀ shown ∈ patterns, Takes pattern Anything shown.written (shown.relocate nowhere)
  | [], _ => by simp
  | first :: more, h =>
    List.forall_mem_cons.mpr ⟨pattern_written first h.1, pattern_written_each more h.2⟩

end

/-! ## Where calls end -/

section NoTerm

variable (rest : List Token)

theorem noTerm_of_closes {tokens : List Token} (h : Closes tokens) : NoTerm tokens := by
  obtain ⟨rest, rfl⟩ := h
  exact term_of_closing rfl

theorem noTerm_comma : NoTerm (Token.bare .comma :: rest) :=
  term_of_comma rfl

theorem noTerm_separator : NoTerm (Token.bare .semicolon :: rest) :=
  term_of_separator rfl

theorem noTerm_in : NoTerm (Token.bare .inWord :: rest) :=
  term_of_other rfl (by simp [Token.bare, Lexeme.inWord]) (by simp [Token.bare, Lexeme.inWord])
    (by simp [Token.bare, Lexeme.inWord])

theorem call_closing : call (Token.bare (.closing .paren) :: rest) = none :=
  call_of_closing rfl

theorem arm_closing : arm (Token.bare (.closing .paren) :: rest) = none :=
  arm_of_pattern_none (pattern_closing rest)

end NoTerm

/-! ## Calls and groups -/

section Calls

variable {before : List Token → Prop} {tokens mid rest : List Token} {row : List Lexeme}
  {found : Expr}

theorem dropWhile_of_pattern {found : Pattern} (h : pattern tokens = some (found, rest)) :
    tokens.dropWhile Token.isSeparator = tokens := by
  cases hterm : term tokens with
  | none =>
    rw [pattern_of_term_none hterm] at h
    cases h
  | some result => exact dropWhile_of_term hterm

/-- A term is a call without arguments where no term follows. -/
theorem call_of_term (h : Takes term before row found)
    (hends : ∀ rest, before rest → NoTerm rest) : Takes call before row found :=
  fun rest hrest => call_of_some (h rest hrest) (many_of_none (hends rest hrest))

/-- A group of expressions stands between its parentheses. -/
theorem term_grouped (row : List Lexeme) {found : List Expr × Bool}
    (h : listed call (row.map Token.bare ++ Token.bare (.closing .paren) :: rest) =
      some (found, Token.bare (.closing .paren) :: rest)) :
    term ((Lexeme.grouped row).map Token.bare ++ rest) =
      some (groupedExpr default found, rest) := by
  have htokens : (Lexeme.grouped row).map Token.bare ++ rest = Token.bare (.opening .paren) ::
      (row.map Token.bare ++ Token.bare (.closing .paren) :: rest) := by
    simp [Lexeme.grouped]
  rw [htokens]
  exact term_of_listed rfl rfl h

/-- A call in parentheses is a term, whatever follows. -/
theorem term_of_call (h : Takes call Closes row found) :
    Takes term Anything (Lexeme.grouped row) found :=
  fun rest _ => term_grouped row (listed_of_some (h _ ⟨rest, rfl⟩) (listedTail_closing rest))

end Calls

/-! ## Bindings, matches and arms -/

section Parts

variable {tokens mid rest : List Token}

theorem term_binding {name : Name} {value body : Expr} (hname : name.WellFormed)
    (hvalue : call tokens = some (value, Token.bare .inWord :: mid))
    (hbody : call mid = some (body, rest)) :
    term (Token.bare (.identifier "let") :: Token.bare (.identifier name.text) ::
      Token.bare .assign :: tokens) =
        some (.binding default (name.relocate nowhere) value body, rest) := by
  have hseparators : separators (Token.bare .inWord :: mid) =
      some ([], Token.bare .inWord :: mid) := separators_eq _
  rw [term_of_let rfl, binding, bind_of_some (only_bare _ _), bind_of_some (name_bare hname _),
    bind_of_some (only_bare _ _)]
  refine (bind_of_some hvalue).trans ?_
  rw [bind_of_some hseparators, bind_of_some (only_bare _ _)]
  exact bind_of_some hbody

theorem term_matching {subject : Expr} {first : Arm} {others : List Arm}
    (hsubject : call tokens = some (subject, mid))
    (harms : many arm mid = some (first :: others, rest)) :
    term (Token.bare (.identifier "match") :: tokens) =
      some (.matching default subject (first :: others), rest) := by
  rcases many_cases shrinks_arm harms with ⟨h, -⟩ | ⟨value, behind, others', h, hfirst, hothers⟩
  · cases h
  · cases h
    rw [term_of_match rfl, matching, bind_of_some (only_bare _ _)]
    refine (bind_of_some hsubject).trans ?_
    exact (bind_of_some hfirst).trans (bind_of_some hothers)

end Parts

/-! ## Terms -/

theorem atom?_symbol {name : Name} (h : name.SymbolWellFormed) :
    atom? (Token.bare (.ofSymbol name.text)) = some (.symbol (name.relocate nowhere)) := by
  rcases h with ⟨hname, hkeyword⟩ | ⟨hsymbol, hassign⟩
  · rw [Lexeme.ofSymbol_identifier hname]
    simp [atom?, Token.bare, hkeyword, Name.relocate, nowhere]
  · rw [Lexeme.ofSymbol_operator hsymbol]
    simp [atom?, Token.bare, hassign, Name.relocate, nowhere]

theorem atom?_text (value : String) :
    atom? (Token.bare (.ofText value)) = some (.text default value) := by
  simp [atom?, Token.bare, Lexeme.ofText, Grammar.unquote]

theorem groupedExpr_tuple (location : Location) (members : List Expr) :
    groupedExpr location (members, true) = .tuple location members := by
  rcases members with _ | ⟨_, _ | ⟨_, _⟩⟩ <;> rfl

/-- What a written expression is as a call. -/
theorem call_written {row : List Lexeme} {found : Expr} (h : Takes term Anything row found) :
    Takes call NoTerm row found :=
  call_of_term (h.mono fun _ _ => trivial) fun _ hrest => hrest

theorem noTerm_arm (written : Arm) (rest : List Token) :
    NoTerm (written.written.map Token.bare ++ rest) := by
  obtain ⟨shown, body⟩ := written
  exact noTerm_separator _

/-- Arms beside each other, up to a closing parenthesis. -/
theorem many_arms {arms : List Arm}
    (h : ∀ written ∈ arms, Takes arm NoTerm written.written (written.relocate nowhere))
    {rest : List Token} (hrest : Closes rest) :
    many arm ((arms.flatMap Arm.written).map Token.bare ++ rest) =
      some (arms.map (·.relocate nowhere), rest) := by
  have hend : arm rest = none := by
    obtain ⟨behind, rfl⟩ := hrest
    exact arm_closing behind
  exact many_each shrinks_arm h (fun written _ => noTerm_arm written) (noTerm_of_closes hrest) hend

mutual

/-- **What is taken of a written expression is the expression**, whatever is behind it. -/
theorem term_written : ∀ (written : Expr), written.WellFormed false →
    Takes term Anything written.written (written.relocate nowhere)
  | .lambda _ _ _, h => h.elim
  | .binding _ name value body, h => by
    refine term_of_call (call_of_term (fun rest hrest => ?_) fun _ => noTerm_of_closes)
    have hbody := call_written (term_written body h.2.2) rest (noTerm_of_closes hrest)
    -- The value would take every term behind it, but the word that ends it begins none.
    have hvalue := call_written (term_written value h.2.1)
      (Token.bare .inWord :: (body.written.map Token.bare ++ rest)) (noTerm_in _)
    simpa [Expr.relocate, nowhere] using term_binding h.1 hvalue hbody
  | .integer _ _, _ => fun _ _ => term_of_atom rfl
  | .float _ _, h => by cases h
  | .text _ value, _ => fun _ _ => term_of_atom (atom?_text value)
  | .symbol _, h => fun _ _ => term_of_atom (atom?_symbol h)
  | .matching _ subject arms, h => by
    refine term_of_call (call_of_term (fun rest hrest => ?_) fun _ => noTerm_of_closes)
    obtain ⟨hsubject, hne, harms⟩ := h
    have hmany := many_arms (arm_written_each arms harms) hrest
    -- Likewise the subject ends in front of the separator of the first arm.
    obtain ⟨first, others, rfl⟩ := List.exists_cons_of_ne_nil hne
    have hcall := call_written (term_written subject hsubject)
      (((first :: others).flatMap Arm.written).map Token.bare ++ rest) (by
        rw [List.flatMap_cons, List.map_append, List.append_assoc]
        exact noTerm_arm first _)
    simpa [Expr.relocate, Arm.relocateAll_eq_map, Arm.writtenAll_eq_flatMap, nowhere]
      using term_matching hcall hmany
  | .call function arguments, h => by
    refine term_of_call fun rest hrest => ?_
    obtain ⟨hfunction, hne, harguments⟩ := h
    have hmany := many_each shrinks_term (term_written_each arguments harguments)
      (fun _ _ _ => trivial) trivial (noTerm_of_closes hrest)
    have hcall := call_of_some (term_written function hfunction _ trivial) hmany
    obtain ⟨first, others, rfl⟩ := List.exists_cons_of_ne_nil hne
    simpa [Expr.relocate, Expr.relocateAll_eq_map, Expr.writtenEach_eq_flatMap, applied]
      using hcall
  | .tuple _ [], _ => fun _ _ => by
    rfl
  | .tuple _ (first :: more), h => by
    intro rest _
    have hlisted := listed_each shrinks_call call_closing noTerm_comma
      (fun written hmem => call_written (term_written_each (first :: more) h written hmem)) rest
      (List.cons_ne_nil _ _)
    rw [Expr.written, Expr.writtenEach_eq_flatMap, term_grouped _ hlisted, groupedExpr_tuple,
      Expr.relocate, Expr.relocateAll_eq_map]
    rfl

/-- **What is taken of a written arm is the arm**, where no term is behind it. -/
theorem arm_written : ∀ (written : Arm), written.WellFormed false →
    Takes arm NoTerm written.written (written.relocate nowhere)
  | .mk shown body, h => by
    intro rest hrest
    have hbody := call_written (term_written body h.2) rest hrest
    let tokens := shown.written.map Token.bare ++
      Token.bare .arrow :: (body.written.map Token.bare ++ rest)
    have hpattern : pattern tokens = _ := pattern_written shown h.1 _ trivial
    have hskip : (Token.bare .semicolon :: tokens).dropWhile Token.isSeparator = tokens := by
      rw [List.dropWhile_cons_of_pos rfl, dropWhile_of_pattern hpattern]
    rw [← hskip] at hpattern
    have harm := arm_of_call_some hpattern rfl hbody
    simpa [Arm.written, Arm.relocate, tokens] using harm

theorem term_written_each : ∀ (exprs : List Expr), Expr.AllWellFormed false exprs →
    ∀ written ∈ exprs, Takes term Anything written.written (written.relocate nowhere)
  | [], _ => by simp
  | first :: more, h =>
    List.forall_mem_cons.mpr ⟨term_written first h.1, term_written_each more h.2⟩

theorem arm_written_each : ∀ (arms : List Arm), Arm.AllWellFormed false arms →
    ∀ written ∈ arms, Takes arm NoTerm written.written (written.relocate nowhere)
  | [], _ => by simp
  | first :: more, h =>
    List.forall_mem_cons.mpr ⟨arm_written first h.1, arm_written_each more h.2⟩

end

/-! ## Declarations -/

/-- What is read of a written declaration, where no term is behind it. -/
theorem decl_written {written : Decl} (h : written.WellFormed false) :
    Takes decl NoTerm written.written (written.relocate nowhere) := by
  intro rest hrest
  have hbody := call_written (term_written written.body h.body) rest hrest
  let tokens := Token.bare .assign :: (written.body.written.map Token.bare ++ rest)
  have hassign : pattern tokens = none :=
    pattern_of_other rfl rfl (by simp [Token.bare, Lexeme.assign])
  have hpatterns := many_each shrinks_pattern
    (pattern_written_each written.patterns h.patterns) (fun _ _ _ => trivial) trivial hassign
  have hdecl : decl (Token.bare (.identifier written.name.text) ::
      ((written.patterns.flatMap Pattern.written).map Token.bare ++ tokens)) =
        some (written.relocate nowhere, rest) := by
    rw [decl, bind_of_some (name_bare h.name _), bind_of_some hpatterns,
      bind_of_some (only_bare _ _)]
    exact bind_of_some hbody
  simpa [Decl.written, Pattern.writtenEach_eq_flatMap, tokens] using hdecl

/-- No separators stand where written declarations begin. -/
theorem dropWhile_written (written : List Decl) :
    (([Lexeme.semicolon].intercalate (written.map Decl.written)).map Token.bare).dropWhile
        Token.isSeparator =
      ([Lexeme.semicolon].intercalate (written.map Decl.written)).map Token.bare := by
  rcases written with _ | ⟨first, _ | ⟨second, more⟩⟩
  · rfl
  · rfl
  · rw [List.map_cons, List.map_cons, List.intercalate_cons_cons]
    exact dropWhile_of_ne (by simp [Token.bare])

theorem decls_written {written : List Decl} (h : ∀ decl ∈ written, decl.WellFormed false) :
    decls (([Lexeme.semicolon].intercalate (written.map Decl.written)).map Token.bare) =
      some (written.map (·.relocate nowhere), []) := by
  rw [decls]
  induction written with
  | nil => rfl
  | cons first others ih =>
    obtain ⟨hfirst, hothers⟩ := List.forall_mem_cons.mp h
    cases others with
    | nil =>
      have hdecl := declAndSeparators_of_some (decl_written hfirst [] term_nil)
      rw [List.append_nil] at hdecl
      rw [List.map_singleton, List.intercalate_singleton,
        many_of_some shrinks_declAndSeparators hdecl]
      rfl
    | cons second more =>
      let behind := ([Lexeme.semicolon].intercalate ((second :: more).map Decl.written)).map
        Token.bare
      have htokens : ([Lexeme.semicolon].intercalate
          ((first :: second :: more).map Decl.written)).map Token.bare =
            first.written.map Token.bare ++ Token.bare .semicolon :: behind := by
        simp [behind, List.intercalate_cons_cons]
      have hskip : (Token.bare .semicolon :: behind).dropWhile Token.isSeparator = behind := by
        rw [List.dropWhile_cons_of_pos rfl, dropWhile_written]
      have hdecl := declAndSeparators_of_some (decl_written hfirst _ (noTerm_separator behind))
      rw [htokens, many_of_some shrinks_declAndSeparators hdecl, hskip, ih hothers]
      rfl

/-- **What is read from written declarations are these declarations**, but for locations. -/
theorem file_written {written : List Decl} (h : ∀ decl ∈ written, decl.WellFormed false) :
    file (([Lexeme.semicolon].intercalate (written.map Decl.written)).map Token.bare) =
      some (written.map (·.relocate nowhere)) := by
  rw [file_eq_some, dropWhile_written]
  exact decls_written h

end Greedy

end FrontEnd
