import FrontEnd.Proofs.Grammar.WellFormed
import FrontEnd.Proofs.Lexer.Shown
import FrontEnd.Tree.Head

/-!
# The lexemes of a head

The text of the head of a declaration lays out the lexemes of its name and of its patterns.

* `Pattern.lexemes`, `Decl.headLexemes` — the lexemes that patterns and heads are shown with.
* `Pattern.laysOut_shown`, `Decl.laysOut_head` — what is shown lays them out.
-/

set_option autoImplicit false

namespace FrontEnd

/-- Lexemes between parentheses. -/
def Lexeme.grouped (lexemes : List Lexeme) : List Lexeme :=
  .opening .paren :: lexemes ++ [.closing .paren]

mutual

/-- The lexemes of the text of a pattern; `nested` says that it stands beside others. -/
def Pattern.lexemes (nested : Bool) : Pattern → List Lexeme
  | .variable name => [.identifier name.text]
  | .integer _ value => [.signed value]
  | .text _ value => [.ofText value]
  | .constructor name [] => [.identifier name.text]
  | .constructor name (first :: more) =>
      let lexemes :=
        .identifier name.text :: (first.lexemes true ++ (Pattern.lexemesAll true more).flatten)
      if nested then Lexeme.grouped lexemes else lexemes
  | .tuple _ [single] => Lexeme.grouped (single.lexemes false ++ [.comma])
  | .tuple _ members =>
      Lexeme.grouped ([Lexeme.comma].intercalate (Pattern.lexemesAll false members))

def Pattern.lexemesAll (nested : Bool) : List Pattern → List (List Lexeme)
  | [] => []
  | pattern :: rest => pattern.lexemes nested :: Pattern.lexemesAll nested rest

end

/-- The lexemes of the head of a declaration. -/
def Decl.headLexemes (decl : Decl) : List Lexeme :=
  .identifier decl.name.text :: (Pattern.lexemesAll true decl.patterns).flatten

/-- The lexemes of the head of a declaration in front of a name as its body. -/
def Decl.stubLexemes (decl : Decl) : List Lexeme :=
  decl.headLexemes ++ [.assign, .identifier "x"]

/-! ## No separators -/

theorem not_mem_intercalate {lexeme : Lexeme} {between : List Lexeme} {rows : List (List Lexeme)}
    (hbetween : lexeme ∉ between) (h : ∀ row ∈ rows, lexeme ∉ row) :
    lexeme ∉ between.intercalate rows := by
  induction rows with
  | nil => simp
  | cons row rest ih =>
    obtain ⟨hrow, hrest⟩ := List.forall_mem_cons.mp h
    cases rest with
    | nil => simpa using hrow
    | cons next more =>
      rw [List.intercalate_cons_cons, List.append_assoc]
      simp [hrow, hbetween, ih hrest]

mutual

/-- No separator stands in what a pattern is shown as. -/
theorem Pattern.separator_not_mem : ∀ (pattern : Pattern) (nested : Bool),
    Lexeme.semicolon ∉ pattern.lexemes nested
  | .variable _, _ => by simp [Pattern.lexemes]
  | .integer _ _, _ => by simp [Pattern.lexemes]
  | .text _ _, _ => by simp [Pattern.lexemes, Lexeme.ofText]
  | .constructor _ [], _ => by simp [Pattern.lexemes]
  | .constructor _ (first :: more), nested => by
    have hfirst := first.separator_not_mem true
    have hmore := Pattern.separator_not_mem_all more true
    cases nested <;> simpa [Pattern.lexemes, Lexeme.grouped, hfirst] using hmore
  | .tuple _ [], _ => by simp [Pattern.lexemes, Pattern.lexemesAll, Lexeme.grouped]
  | .tuple _ [single], _ => by
    simp [Pattern.lexemes, Lexeme.grouped, single.separator_not_mem false]
  | .tuple _ (first :: second :: more), _ => by
    have hcomma : Lexeme.semicolon ∉ [Lexeme.comma] := by simp
    have hall := not_mem_intercalate hcomma
      (Pattern.separator_not_mem_all (first :: second :: more) false)
    simpa [Pattern.lexemes, Lexeme.grouped] using hall

theorem Pattern.separator_not_mem_all : ∀ (patterns : List Pattern) (nested : Bool),
    ∀ row ∈ Pattern.lexemesAll nested patterns, Lexeme.semicolon ∉ row
  | [], _ => by simp [Pattern.lexemesAll]
  | pattern :: rest, nested => by
    rw [Pattern.lexemesAll]
    exact List.forall_mem_cons.mpr
      ⟨pattern.separator_not_mem nested, Pattern.separator_not_mem_all rest nested⟩

end

theorem Decl.separator_not_mem (decl : Decl) : Lexeme.semicolon ∉ decl.stubLexemes := by
  have hrow := Pattern.separator_not_mem_all decl.patterns true
  simpa [Decl.stubLexemes, Decl.headLexemes, Lexeme.assign] using hrow

/-! ## What is shown lays out its lexemes -/

theorem intercalate_nil (rows : List (List Lexeme)) :
    ([] : List Lexeme).intercalate rows = rows.flatten := by
  induction rows with
  | nil => rfl
  | cons row rest ih =>
    cases rest with
    | nil => simp
    | cons next more => simp [List.intercalate_cons_cons, ih]

/-- Texts joined by blanks lay out their lexemes one after the other. -/
theorem laysOut_row (texts : List String) {rows : List (List Lexeme)}
    (h : List.Forall₂ LaysOut (texts.map String.toList) rows) :
    LaysOut (joinWith " " texts).toList rows.flatten := by
  have hblank : ∀ text lexemes, LaysOut text lexemes →
      LaysOut (' ' :: [] ++ text) ([] ++ lexemes) :=
    fun _ _ htext => htext.blank
  rw [joinWith, String.toList_intercalate, ← intercalate_nil]
  exact .intercalate (by decide +kernel) hblank h

/-- Texts joined by commas lay out their lexemes with commas between them. -/
theorem laysOut_listed (texts : List String) {rows : List (List Lexeme)}
    (h : List.Forall₂ LaysOut (texts.map String.toList) rows) :
    LaysOut (joinWith ", " texts).toList ([Lexeme.comma].intercalate rows) := by
  have hcomma : ∀ text lexemes, LaysOut text lexemes →
      LaysOut (',' :: [' '] ++ text) ([.comma] ++ lexemes) :=
    fun _ _ htext => htext.blank.comma
  rw [joinWith, String.toList_intercalate]
  exact .intercalate (by decide +kernel) hcomma h

theorem laysOut_grouped {text : String} {lexemes : List Lexeme} (h : LaysOut text.toList lexemes) :
    LaysOut ("(" ++ text ++ ")").toList (Lexeme.grouped lexemes) := by
  rw [String.toList_append, String.toList_append]
  exact h.grouped

mutual

/-- **What a pattern is shown as lays out its lexemes.** -/
theorem Pattern.laysOut_shown : ∀ (pattern : Pattern) (nested : Bool), pattern.WellFormed →
    LaysOut (pattern.shown nested).toList (pattern.lexemes nested)
  | .variable _, _, h => laysOut_name h.1.1
  | .integer _ _, _, h => laysOut_integer h
  | .text _ value, _, h => by
    have hquoted := laysOut_quoted h
    rw [Pattern.shown, String.toList_append, String.toList_append]
    exact hquoted
  | .constructor _ [], _, h => laysOut_name h.1.1
  | .constructor name (first :: more), nested, h => by
    obtain ⟨hname, -, hfirst, hmore⟩ := h
    have hrow := laysOut_row (name.text :: first.shown true :: Pattern.shownAll true more)
      (.cons (laysOut_name hname.1)
        (.cons (first.laysOut_shown true hfirst) (Pattern.laysOut_shownAll more true hmore)))
    cases nested with
    | false => exact hrow
    | true => exact laysOut_grouped hrow
  | .tuple _ [], _, _ => laysOut_grouped (laysOut_listed [] .nil)
  | .tuple _ [single], _, h => by
    have hsingle := (single.laysOut_shown false h.1).append LaysOut.nil.comma (by decide +kernel)
    have hall := hsingle.grouped
    rw [Pattern.shown, String.toList_append, String.toList_append]
    simpa [Pattern.lexemes, Lexeme.grouped] using hall
  | .tuple _ (first :: second :: more), _, h =>
    laysOut_grouped (laysOut_listed _ (Pattern.laysOut_shownAll (first :: second :: more) false h))

theorem Pattern.laysOut_shownAll : ∀ (patterns : List Pattern) (nested : Bool),
    Pattern.AllWellFormed patterns →
    List.Forall₂ LaysOut ((Pattern.shownAll nested patterns).map String.toList)
      (Pattern.lexemesAll nested patterns)
  | [], _, _ => .nil
  | pattern :: rest, nested, h =>
    .cons (pattern.laysOut_shown nested h.1) (Pattern.laysOut_shownAll rest nested h.2)

end

/-- **The head of a declaration lays out its lexemes.** -/
theorem Decl.laysOut_head {decl : Decl} (h : decl.HeadWellFormed) :
    LaysOut decl.head.toList decl.headLexemes :=
  laysOut_row (decl.name.text :: Pattern.shownAll true decl.patterns)
    (.cons (laysOut_name h.name.1) (Pattern.laysOut_shownAll decl.patterns true h.patterns))

theorem laysOut_assign : LaysOut ['='] [.assign] :=
  laysOut_operator (by decide)

/-- The body of a stub is a name. -/
theorem laysOut_stubBody : LaysOut " = x".toList [.assign, .identifier "x"] := by
  have hname : (Lexeme.identifier "x").WellFormed :=
    ⟨'x', [], rfl, by decide +kernel, by simp⟩
  exact (laysOut_assign.append (laysOut_name hname).blank (by decide +kernel)).blank

theorem Decl.laysOut_stub {decl : Decl} (h : decl.HeadWellFormed) :
    LaysOut (decl.head ++ " = x").toList decl.stubLexemes := by
  rw [String.toList_append]
  exact (Decl.laysOut_head h).append laysOut_stubBody (by decide +kernel)

end FrontEnd
