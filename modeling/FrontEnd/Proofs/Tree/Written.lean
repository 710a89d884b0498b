import FrontEnd.Proofs.Lexer.Matched
import FrontEnd.Proofs.Tape.Squeezed
import FrontEnd.Proofs.Tree.Shown

/-!
# Writing trees

Declarations are written as rows of lexemes, each on a line of its own, with a blank between
neighbours. What would take in more than its own parts stands in parentheses, so a row can be read
wherever it stands.

* `Pattern.written`, `Expr.written`, `Decl.written` — the lexemes that trees are written with.
* `Decl.text` — the text of some declarations.
* `Lexeme.Writable` — the rows that can be written anywhere; those of trees are.
* `tokenize_text` — the text of declarations is split into the lexemes of these.
-/

set_option autoImplicit false

namespace FrontEnd

/-! ## Written trees -/

/-- The characters of a lexeme. -/
def Lexeme.spelling : Lexeme → String
  | .signed value => toString value
  | .float value => value.text
  | .quoted text => text
  | .identifier name => name
  | .operator symbol => symbol
  | .opening bracket => bracket.opener.toString
  | .closing bracket => bracket.closer.toString
  | .semicolon => ";"
  | .comma => ","

mutual

/-- The lexemes of a pattern. Every constructor stands in parentheses of its own, and behind every
member of a tuple stands a comma. -/
def Pattern.written : Pattern → List Lexeme
  | .variable name => [.identifier name.text]
  | .integer _ value => [.signed value]
  | .text _ value => [.ofText value]
  | .constructor name arguments =>
      Lexeme.grouped (.identifier name.text :: Pattern.writtenEach [] arguments)
  | .tuple _ members => Lexeme.grouped (Pattern.writtenEach [.comma] members)

/-- The lexemes of some patterns, with others behind each of them. -/
def Pattern.writtenEach (behind : List Lexeme) : List Pattern → List Lexeme
  | [] => []
  | pattern :: rest => pattern.written ++ behind ++ Pattern.writtenEach behind rest

end

mutual

/-- The lexemes of an expression. Every binding, match and call stands in parentheses of its own,
behind every member of a tuple stands a comma, and in front of every arm a separator. A `lambda`
cannot be written. -/
def Expr.written : Expr → List Lexeme
  | .lambda _ _ _ => []
  | .binding _ name value body =>
      Lexeme.grouped (.identifier "let" :: .identifier name.text :: .assign ::
        (value.written ++ .inWord :: body.written))
  | .integer _ value => [.signed value]
  | .float _ value => [.float value]
  | .text _ value => [.ofText value]
  | .symbol name => [.ofSymbol name.text]
  | .matching _ subject arms =>
      Lexeme.grouped (.identifier "match" :: (subject.written ++ Arm.writtenAll arms))
  | .call function arguments =>
      Lexeme.grouped (function.written ++ Expr.writtenEach [] arguments)
  | .tuple _ members => Lexeme.grouped (Expr.writtenEach [.comma] members)

def Arm.written : Arm → List Lexeme
  | .mk pattern body => .semicolon :: (pattern.written ++ .arrow :: body.written)

/-- The lexemes of some expressions, with others behind each of them. -/
def Expr.writtenEach (behind : List Lexeme) : List Expr → List Lexeme
  | [] => []
  | expr :: rest => expr.written ++ behind ++ Expr.writtenEach behind rest

def Arm.writtenAll : List Arm → List Lexeme
  | [] => []
  | arm :: rest => arm.written ++ Arm.writtenAll rest

end

/-- The lexemes of a declaration. -/
def Decl.written (decl : Decl) : List Lexeme :=
  .identifier decl.name.text ::
    (Pattern.writtenEach [] decl.patterns ++ .assign :: decl.body.written)

/-- A row of lexemes with a blank between neighbours. -/
def Lexeme.line (row : List Lexeme) : String :=
  joinWith " " (row.map Lexeme.spelling)

/-- The text of some declarations, each on a line of its own. -/
def Decl.text (decls : List Decl) : String :=
  joinWith "\n" (decls.map fun decl => Lexeme.line decl.written)

theorem Pattern.writtenEach_eq_flatMap (behind : List Lexeme) (patterns : List Pattern) :
    Pattern.writtenEach behind patterns =
      patterns.flatMap fun pattern => pattern.written ++ behind := by
  induction patterns with
  | nil => rfl
  | cons pattern rest ih => rw [Pattern.writtenEach, ih, List.flatMap_cons]

theorem Expr.writtenEach_eq_flatMap (behind : List Lexeme) (exprs : List Expr) :
    Expr.writtenEach behind exprs = exprs.flatMap fun expr => expr.written ++ behind := by
  induction exprs with
  | nil => rfl
  | cons expr rest ih => rw [Expr.writtenEach, ih, List.flatMap_cons]

theorem Arm.writtenAll_eq_flatMap (arms : List Arm) :
    Arm.writtenAll arms = arms.flatMap Arm.written := by
  induction arms with
  | nil => rfl
  | cons arm rest ih => rw [Arm.writtenAll, ih, List.flatMap_cons]

/-! ## Lexemes that can be written -/

namespace Lexeme

/-- A lexeme whose characters are read as it. Those of a float may be read as another one. -/
structure Spellable (lexeme : Lexeme) : Prop where
  wellFormed : lexeme.WellFormed
  ne_float : ∀ value, lexeme ≠ .float value

/-- A lexeme is read from its characters. -/
theorem Spellable.reads {lexeme : Lexeme} (h : lexeme.Spellable) {behind : List Char}
    (hbehind : Scan.Delimits behind) : Scan.Reads lexeme.spelling.toList lexeme behind := by
  obtain ⟨hwell, hfloat⟩ := h
  cases lexeme with
  | signed value => exact Scan.reads_integer hwell hbehind
  | float value => exact absurd rfl (hfloat value)
  | quoted text =>
    obtain ⟨inside, hquote, rfl⟩ := hwell
    rw [spelling, String.toList_ofList]
    exact Scan.reads_quoted (fun c hc heq => hquote (heq ▸ hc)) behind
  | identifier name => exact Scan.reads_identifier hwell hbehind
  | operator symbol =>
    obtain ⟨c, rest, rfl, hc, hrest⟩ := hwell
    rw [spelling, String.toList_ofList]
    refine Scan.reads_operator hc hrest ?_ hbehind
    rintro ⟨-, hdigit⟩
    cases rest with
    | nil => cases hdigit
    | cons d rest =>
      have hd := Scan.isDigit_of_isOperatorChar (hrest d List.mem_cons_self)
      rw [Scan.startsWithDigit, hd] at hdigit
      cases hdigit
  | opening bracket => cases bracket <;> exact Scan.reads_punctuation rfl behind
  | closing bracket => cases bracket <;> exact Scan.reads_punctuation rfl behind
  | semicolon => exact Scan.reads_punctuation rfl behind
  | comma => exact Scan.reads_punctuation rfl behind

/-- No lexeme is written as a newline. -/
theorem Spellable.ne_newline {lexeme : Lexeme} (h : lexeme.Spellable) :
    lexeme.spelling.toList ≠ ['\n'] := by
  intro heq
  have hreads := h.reads Scan.delimits_nil
  rw [heq] at hreads
  obtain ⟨c, inner, hspelling, htoken⟩ := hreads
  cases hspelling
  rw [Scan.token_newline] at htoken
  cases htoken
  exact absurd heq (by decide)

/-- A row that can be written anywhere: its lexemes are read from their characters, and every
bracket is matched. -/
structure Writable (row : List Lexeme) : Prop where
  nested : WellNested row
  spellable : ∀ lexeme ∈ row, lexeme.Spellable

namespace Writable

variable {row behind : List Lexeme} {lexeme : Lexeme}

theorem nil : Writable [] :=
  ⟨.nil, fun _ h => by cases h⟩

theorem leaf (h : lexeme.Spellable) (hplain : lexeme.isBracket = false) : Writable [lexeme] :=
  ⟨.plain hplain .nil, List.forall_mem_singleton.mpr h⟩

theorem append (h : Writable row) (hbehind : Writable behind) : Writable (row ++ behind) :=
  ⟨h.nested.append hbehind.nested, List.forall_mem_append.mpr ⟨h.spellable, hbehind.spellable⟩⟩

theorem grouped (h : Writable row) : Writable (Lexeme.grouped row) := by
  refine ⟨.group h.nested .nil, ?_⟩
  refine List.forall_mem_append.mpr ⟨List.forall_mem_cons.mpr ⟨⟨trivial, nofun⟩, h.spellable⟩, ?_⟩
  exact List.forall_mem_singleton.mpr ⟨trivial, nofun⟩

theorem identifier {name : String} (h : (Lexeme.identifier name).WellFormed) :
    Writable [.identifier name] :=
  leaf ⟨h, nofun⟩ rfl

theorem operator {symbol : String} (h : (Lexeme.operator symbol).WellFormed) :
    Writable [.operator symbol] :=
  leaf ⟨h, nofun⟩ rfl

theorem ofText {value : String} (h : '"' ∉ value.toList) : Writable [.ofText value] :=
  leaf ⟨⟨value.toList, h, rfl⟩, nofun⟩ rfl

theorem ofSymbol {name : Name} (h : name.SymbolWellFormed) : Writable [.ofSymbol name.text] := by
  rcases h with ⟨hname, -⟩ | ⟨hsymbol, -⟩
  · rw [ofSymbol_identifier hname]
    exact identifier hname
  · rw [ofSymbol_operator hsymbol]
    exact operator hsymbol

theorem comma : Writable [.comma] :=
  leaf ⟨trivial, nofun⟩ rfl

theorem semicolon : Writable [.semicolon] :=
  leaf ⟨trivial, nofun⟩ rfl

theorem assign : Writable [.assign] :=
  operator (by decide +kernel)

theorem arrow : Writable [.arrow] :=
  operator (by decide +kernel)

theorem keyword {word : String} (h : word ∈ keywords) : Writable [.identifier word] := by
  have hall : ∀ word ∈ keywords, (Lexeme.identifier word).WellFormed := by decide +kernel
  exact identifier (hall word h)

end Writable

/-! ## Rows of lexemes as texts -/

/-- A row in front of a text, if its brackets can be tracked. -/
theorem laid_line {row others : List Lexeme} {stack after : List (Location × Bracket)}
    {behind : List Char} (hrow : ∀ lexeme ∈ row, lexeme.Spellable)
    (htrack : View.trackAll stack (row.map Token.bare) = .ok after)
    (hlaid : Laid after others behind) (hbehind : Scan.Delimits behind) :
    Laid stack (row ++ others) ((line row).toList ++ behind) := by
  rw [line, joinWith, String.toList_intercalate]
  -- Brackets are opened and closed along the row, so the lemma is about any stack.
  induction row generalizing stack with
  | nil =>
    cases htrack
    exact hlaid
  | cons lexeme rest ih =>
    obtain ⟨hlexeme, hrest⟩ := List.forall_mem_cons.mp hrow
    have hnewline : lexeme.spelling.toList = ['\n'] → stack = [] :=
      fun heq => absurd heq hlexeme.ne_newline
    rw [List.map_cons, View.trackAll_cons] at htrack
    cases hone : View.track stack (Token.bare lexeme).location (Token.bare lexeme).lexeme with
    | error cause =>
      rw [hone] at htrack
      cases htrack
    | ok inner =>
      rw [hone] at htrack
      cases rest with
      | nil =>
        cases htrack
        rw [List.map_singleton, List.map_singleton, List.intercalate_singleton]
        exact .spelled (isGap_nil stack) (hlexeme.reads hbehind) hnewline hone hlaid
      | cons next more =>
        have hblank : Scan.isDelimiter ' ' = true := by decide +kernel
        have hall := Laid.spelled (isGap_nil stack) (hlexeme.reads (Scan.delimits_cons hblank _))
          hnewline hone (ih hrest htrack).blank
        simpa [List.intercalate_cons_cons] using hall

/-- Writable rows, each on a line of its own, are texts that lay out their lexemes with separators
between them. -/
theorem laid_lines {rows : List (List Lexeme)} (h : ∀ row ∈ rows, Writable row) :
    Laid [] ([semicolon].intercalate rows) (joinWith "\n" (rows.map line)).toList := by
  have hnone : Laid [] [] [] := .none (isGap_nil [])
  have hrow : ∀ row, Writable row → View.trackAll [] (row.map Token.bare) = .ok [] := by
    intro row hrow
    refine WellNested.trackAll ?_
    rw [List.map_map]
    exact (List.map_id row).symm ▸ hrow.nested
  rw [joinWith, String.toList_intercalate]
  induction rows with
  | nil => exact hnone
  | cons row rest ih =>
    obtain ⟨hfirst, hrest⟩ := List.forall_mem_cons.mp h
    cases rest with
    | nil =>
      have hall := laid_line hfirst.spellable (hrow row hfirst) hnone Scan.delimits_nil
      simpa using hall
    | cons next more =>
      have hsemicolon : Scan.punctuation? '\n' = some semicolon := rfl
      have htrack : View.track [] default semicolon = .ok [] := rfl
      have hbehind := Laid.spelled (isGap_nil []) (Scan.reads_punctuation hsemicolon _)
        (fun _ => rfl) htrack (ih hrest)
      have hnewline : Scan.isDelimiter '\n' = true := by decide +kernel
      have hall := laid_line hfirst.spellable (hrow row hfirst) hbehind
        (Scan.delimits_cons hnewline _)
      simpa [List.intercalate_cons_cons] using hall

end Lexeme

/-! ## The rows of trees -/

open Lexeme (Writable)

mutual

/-- **The lexemes of a pattern that can be spelled can be written anywhere.** -/
theorem Pattern.writable_written : ∀ (pattern : Pattern), pattern.WellFormed →
    Writable pattern.written
  | .variable _, h => .identifier h.1.1
  | .integer _ _, h => .leaf ⟨h, nofun⟩ rfl
  | .text _ _, h => .ofText h
  | .constructor _ arguments, h =>
    .grouped ((Writable.identifier h.1.1).append (Pattern.writable_each arguments .nil h.2.2))
  | .tuple _ members, h => .grouped (Pattern.writable_each members .comma h)

theorem Pattern.writable_each {behind : List Lexeme} : ∀ (patterns : List Pattern),
    Writable behind → Pattern.AllWellFormed patterns →
    Writable (Pattern.writtenEach behind patterns)
  | [], _, _ => .nil
  | pattern :: rest, hbehind, h =>
    ((pattern.writable_written h.1).append hbehind).append
      (Pattern.writable_each rest hbehind h.2)

end

mutual

/-- **The lexemes of an expression without floats that can be spelled can be written anywhere.** -/
theorem Expr.writable_written : ∀ (expr : Expr), expr.WellFormed false → Writable expr.written
  | .lambda _ _ _, h => h.elim
  | .binding _ _ value body, h => by
    have hlet : Writable [.identifier "let"] := .keyword (by decide)
    have hin : Writable [.inWord] := .keyword (by decide)
    have hbody := hin.append (body.writable_written h.2.2)
    have hvalue := Writable.assign.append ((value.writable_written h.2.1).append hbody)
    exact .grouped (hlet.append ((Writable.identifier h.1.1).append hvalue))
  | .integer _ _, h => .leaf ⟨h, nofun⟩ rfl
  | .float _ _, h => by cases h
  | .text _ _, h => .ofText h
  | .symbol _, h => .ofSymbol h
  | .matching _ subject arms, h => by
    have hmatch : Writable [.identifier "match"] := .keyword (by decide)
    have harms := (subject.writable_written h.1).append (Arm.writable_all arms h.2.2)
    exact .grouped (hmatch.append harms)
  | .call function arguments, h =>
    .grouped ((function.writable_written h.1).append (Expr.writable_each arguments .nil h.2.2))
  | .tuple _ members, h => .grouped (Expr.writable_each members .comma h)

theorem Arm.writable_written : ∀ (arm : Arm), arm.WellFormed false → Writable arm.written
  | .mk pattern body, h => by
    have hbody := Writable.arrow.append (body.writable_written h.2)
    exact Writable.semicolon.append ((pattern.writable_written h.1).append hbody)

theorem Expr.writable_each {behind : List Lexeme} : ∀ (exprs : List Expr),
    Writable behind → Expr.AllWellFormed false exprs → Writable (Expr.writtenEach behind exprs)
  | [], _, _ => .nil
  | expr :: rest, hbehind, h =>
    ((expr.writable_written h.1).append hbehind).append (Expr.writable_each rest hbehind h.2)

theorem Arm.writable_all : ∀ (arms : List Arm), Arm.AllWellFormed false arms →
    Writable (Arm.writtenAll arms)
  | [], _ => .nil
  | arm :: rest, h => (arm.writable_written h.1).append (Arm.writable_all rest h.2)

end

theorem Decl.writable_written {decl : Decl} (h : decl.WellFormed false) :
    Writable decl.written := by
  have hbody := Writable.assign.append (decl.body.writable_written h.body)
  have hhead := Pattern.writable_each decl.patterns .nil h.patterns
  exact (Writable.identifier h.name.1).append (hhead.append hbody)

/-- **The text of declarations is split into their lexemes**, with separators between the
declarations. -/
theorem tokenize_text (file : String) {decls : List Decl}
    (h : ∀ decl ∈ decls, decl.WellFormed false) :
    ∃ tokens last, tokenize file (Decl.text decls) = (tokens, none, last) ∧
      tokens.map Token.lexeme = [Lexeme.semicolon].intercalate (decls.map Decl.written) := by
  have hrows : ∀ row ∈ decls.map Decl.written, Writable row :=
    List.forall_mem_map.mpr fun decl hdecl => Decl.writable_written (h decl hdecl)
  have hlaid := Lexeme.laid_lines hrows
  have htokens := tokenize_of_laid file hlaid
  rw [String.ofList_toList, List.map_map] at htokens
  exact htokens

end FrontEnd
