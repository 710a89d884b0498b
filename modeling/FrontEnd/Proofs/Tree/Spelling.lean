import FrontEnd.Proofs.Lexer.View
import FrontEnd.Proofs.Tree.Yield
import Mathlib.Computability.Language

/-!
# Spellings

The rows of tokens that spell a tree, as languages over tokens. A spelling may have more parentheses
than the tree needs and separators before its parts, but every leaf of the tree is spelled by one
token, in order, and a tuple by the parenthesis where it stands and the one that closes it.

* `Decl.spellings`, `Expr.plain`, `Pattern.plain` — the spellings of trees.
* `Reads` — the tokens are the leaves, with punctuation between them, and all brackets are closed.
* `Decl.reads_of_spellings` — the tokens of a spelling read as the yield of the tree.
-/

set_option autoImplicit false

namespace FrontEnd

/-! ## Languages of tokens -/

namespace Spelling

/-- The single tokens that a leaf tells of. -/
def leaf (leaf : Leaf) : Language Token :=
  {tokens : List Token | ∃ token, tokens = [token] ∧ leaf.Of token}

/-- The single tokens with a lexeme. -/
def only (lexeme : Lexeme) : Language Token :=
  leaf (.fixed lexeme)

/-- Any number of separators. -/
def separators : Language Token :=
  {tokens : List Token | ∀ token ∈ tokens, token.lexeme = .semicolon}

/-- The first of some languages, and the others with a comma before each, maybe with a comma at the
end. -/
def listed : List (Language Token) → Language Token
  | [] => 1
  | first :: others => first * (others.map (only .comma * ·)).prod * (1 + only .comma)

/-- What is spelled in `plain`, with any parentheses around it and separators before it. -/
inductive Wrapped (plain : Language Token) : List Token → Prop
  | bare {tokens : List Token} (h : tokens ∈ plain) : Wrapped plain tokens
  | separated {gap tokens : List Token} (hgap : gap ∈ separators) (h : Wrapped plain tokens) :
      Wrapped plain (gap ++ tokens)
  | grouped {opening closing : Token} {tokens : List Token}
      (hopening : opening.lexeme = .opening .paren) (h : Wrapped plain tokens)
      (hclosing : closing.lexeme = .closing .paren) :
      Wrapped plain (opening :: tokens ++ [closing])

def wrapped (plain : Language Token) : Language Token :=
  {tokens : List Token | Wrapped plain tokens}

/-- The spellings of a tuple at a location. -/
def tuple (location : Location) (members : List (Language Token)) : Language Token :=
  leaf (.placed location (.opening .paren)) * listed members * only (.closing .paren)

end Spelling

open Spelling

/-! ## Spellings of trees -/

mutual

/-- The spellings of a pattern without parentheses around it. -/
def Pattern.plain : Pattern → Language Token
  | .variable name => leaf name.leaf
  | .integer location value => leaf (.placed location (.signed value))
  | .text location value => leaf (.placed location (.ofText value))
  | .constructor name arguments => leaf name.leaf * (Pattern.spellings arguments).prod
  | .tuple location members => Spelling.tuple location (Pattern.spellings members)

/-- The spellings of patterns, of each for itself. -/
def Pattern.spellings : List Pattern → List (Language Token)
  | [] => []
  | pattern :: rest => wrapped pattern.plain :: Pattern.spellings rest

end

mutual

/-- The spellings of an expression without parentheses around it. A `lambda` has none. -/
def Expr.plain : Expr → Language Token
  | .lambda _ _ _ => 0
  | .binding location name value body =>
      leaf (.placed location (.identifier "let")) * leaf name.leaf * only .assign *
        wrapped value.plain * separators * only .inWord * wrapped body.plain
  | .integer location value => leaf (.placed location (.signed value))
  | .float location value => leaf (.placed location (.float value))
  | .text location value => leaf (.placed location (.ofText value))
  | .symbol name => leaf name.symbolLeaf
  | .matching location subject arms =>
      leaf (.placed location (.identifier "match")) * wrapped subject.plain *
        (Arm.spellings arms).prod
  | .call function arguments => wrapped function.plain * (Expr.spellings arguments).prod
  | .tuple location members => Spelling.tuple location (Expr.spellings members)

def Arm.plain : Arm → Language Token
  | .mk pattern body =>
      separators * wrapped pattern.plain * only .arrow * wrapped body.plain

/-- The spellings of expressions, of each for itself. -/
def Expr.spellings : List Expr → List (Language Token)
  | [] => []
  | expr :: rest => wrapped expr.plain :: Expr.spellings rest

def Arm.spellings : List Arm → List (Language Token)
  | [] => []
  | arm :: rest => arm.plain :: Arm.spellings rest

end

def Decl.plain (decl : Decl) : Language Token :=
  leaf decl.name.leaf * (Pattern.spellings decl.patterns).prod * only .assign *
    wrapped decl.body.plain

/-- The spellings of declarations: separators may stand before and behind each of them. -/
def Decl.spellings (decls : List Decl) : Language Token :=
  separators * (decls.map fun decl => decl.plain * separators).prod

theorem Pattern.spellings_eq_map (patterns : List Pattern) :
    Pattern.spellings patterns = patterns.map fun pattern => wrapped pattern.plain := by
  induction patterns with
  | nil => rfl
  | cons pattern rest ih => rw [Pattern.spellings, ih, List.map_cons]

theorem Expr.spellings_eq_map (exprs : List Expr) :
    Expr.spellings exprs = exprs.map fun expr => wrapped expr.plain := by
  induction exprs with
  | nil => rfl
  | cons expr rest ih => rw [Expr.spellings, ih, List.map_cons]

theorem Arm.spellings_eq_map (arms : List Arm) : Arm.spellings arms = arms.map Arm.plain := by
  induction arms with
  | nil => rfl
  | cons arm rest ih => rw [Arm.spellings, ih, List.map_cons]

/-! ## Reading spellings -/

/-- Without punctuation the tokens are those of the leaves, one for each and in order. They open no
bracket that they do not close, and all their brackets are punctuation. -/
structure Reads (leaves : List Leaf) (tokens : List Token) : Prop where
  yields : List.Forall₂ Leaf.Of leaves (tokens.filter Token.isKept)
  closed : ∀ stack, View.trackAll stack tokens = .ok stack
  round : ∀ token ∈ tokens, token.lexeme.isBracket = true → token.lexeme.isPunctuation = true

namespace Reads

variable {leaves leaves' : List Leaf} {tokens tokens' : List Token}

theorem nil : Reads [] [] :=
  ⟨.nil, fun _ => rfl, fun _ hmem => by cases hmem⟩

/-- The lexemes of the leaves are those of the tokens, without punctuation. -/
theorem lexemes (h : Reads leaves tokens) :
    leaves.map Leaf.lexeme = (tokens.filter Token.isKept).map Token.lexeme := by
  refine List.forall₂_eq_eq_eq ▸ List.forall₂_map_left_iff.mpr (List.forall₂_map_right_iff.mpr ?_)
  exact h.yields.imp fun _ _ hof => hof.lexeme.symm

theorem append (h : Reads leaves tokens) (h' : Reads leaves' tokens') :
    Reads (leaves ++ leaves') (tokens ++ tokens') := by
  refine ⟨?_, fun stack => ?_, fun token hmem => ?_⟩
  · rw [List.filter_append]
    exact List.rel_append h.yields h'.yields
  · rw [View.trackAll_append, h.closed]
    exact h'.closed stack
  · rcases List.mem_append.mp hmem with hmem | hmem
    · exact h.round token hmem
    · exact h'.round token hmem

/-- A token that a leaf tells of. Brackets are no leaves. -/
theorem of_leaf {leaf : Leaf} {token : Token} (h : leaf.Of token)
    (hpunctuation : leaf.lexeme.isPunctuation = false) (hbracket : leaf.lexeme.isBracket = false) :
    Reads [leaf] [token] := by
  refine ⟨?_, fun stack => ?_, fun other hmem hopen => ?_⟩
  · have hkept : token.isKept = true := by simp [Token.isKept, h.lexeme, hpunctuation]
    rw [List.filter_cons_of_pos hkept]
    exact .cons h .nil
  · show (View.track stack token.location token.lexeme).bind pure = _
    rw [h.lexeme]
    cases hl : leaf.lexeme with
    | opening bracket => simp [hl, Lexeme.isBracket] at hbracket
    | closing bracket => simp [hl, Lexeme.isBracket] at hbracket
    | _ => rfl
  · rw [List.mem_singleton.mp hmem, h.lexeme, hbracket] at hopen
    cases hopen

/-- A separator or a comma. -/
theorem of_divider {token : Token} (h : token.lexeme = .semicolon ∨ token.lexeme = .comma) :
    Reads [] [token] := by
  refine ⟨?_, fun stack => ?_, fun other hmem _ => ?_⟩
  · rcases h with h | h <;>
    · rw [List.filter_cons_of_neg (by simp [Token.isKept, h, Lexeme.isPunctuation])]
      exact .nil
  · show (View.track stack token.location token.lexeme).bind pure = _
    rcases h with h | h <;>
    · rw [h]
      rfl
  · rw [List.mem_singleton.mp hmem]
    rcases h with h | h <;>
    · rw [h]
      rfl

theorem of_separators (h : tokens ∈ separators) : Reads [] tokens := by
  induction tokens with
  | nil => exact .nil
  | cons token tokens ih =>
    have hhead : Reads [] [token] := .of_divider (.inl (h token (List.mem_cons_self ..)))
    exact hhead.append (ih fun next hnext => h next (List.mem_cons_of_mem _ hnext))

theorem grouped {opening closing : Token} (hopening : opening.lexeme = .opening .paren)
    (h : Reads leaves tokens) (hclosing : closing.lexeme = .closing .paren) :
    Reads leaves (opening :: tokens ++ [closing]) := by
  refine ⟨?_, fun stack => ?_, fun token hmem => ?_⟩
  · have hfilter : (opening :: tokens ++ [closing]).filter Token.isKept =
        tokens.filter Token.isKept := by
      simp [Token.isKept, hopening, hclosing, Lexeme.isPunctuation]
    rw [hfilter]
    exact h.yields
  · have hopened : View.trackAll stack (opening :: tokens ++ [closing]) =
        View.trackAll ((opening.location, .paren) :: stack) (tokens ++ [closing]) := by
      simp only [View.trackAll, List.cons_append, List.foldlM_cons, hopening]
      rfl
    rw [hopened, View.trackAll_append, h.closed]
    show (View.track _ closing.location closing.lexeme).bind pure = _
    rw [hclosing]
    rfl
  · rw [List.mem_append, List.mem_cons, List.mem_singleton] at hmem
    rcases hmem with (rfl | hmem) | rfl
    · intro _
      rw [hopening]
      rfl
    · exact h.round token hmem
    · intro _
      rw [hclosing]
      rfl

end Reads

/-! ## Languages that read as leaves -/

/-- All tokens of a language read as some leaves. -/
def ReadAs (language : Language Token) (leaves : List Leaf) : Prop :=
  ∀ tokens ∈ language, Reads leaves tokens

namespace ReadAs

variable {language language' : Language Token} {leaves leaves' : List Leaf}

theorem one : ReadAs 1 [] := by
  intro tokens h
  rw [Language.mem_one] at h
  subst h
  exact .nil

theorem mul (h : ReadAs language leaves) (h' : ReadAs language' leaves') :
    ReadAs (language * language') (leaves ++ leaves') := by
  intro tokens hmem
  obtain ⟨front, hfront, behind, hbehind, rfl⟩ := Language.mem_mul.mp hmem
  exact (h front hfront).append (h' behind hbehind)

theorem leaf {leaf : Leaf} (hpunctuation : leaf.lexeme.isPunctuation = false)
    (hbracket : leaf.lexeme.isBracket = false) : ReadAs (Spelling.leaf leaf) [leaf] := by
  rintro tokens ⟨token, rfl, hof⟩
  exact .of_leaf hof hpunctuation hbracket

theorem separators : ReadAs Spelling.separators [] :=
  fun _ h => .of_separators h

theorem comma : ReadAs (only .comma) [] := by
  rintro tokens ⟨token, rfl, hof⟩
  exact .of_divider (.inr hof.lexeme)

theorem wrapped (h : ReadAs language leaves) : ReadAs (Spelling.wrapped language) leaves := by
  intro tokens hwrapped
  induction hwrapped with
  | bare hmem => exact h _ hmem
  | separated hgap _ ih => exact (Reads.of_separators hgap).append ih
  | grouped hopening _ hclosing ih => exact ih.grouped hopening hclosing

theorem prod {languages : List (Language Token)} {leaves : List (List Leaf)}
    (h : List.Forall₂ ReadAs languages leaves) : ReadAs languages.prod leaves.flatten := by
  induction h with
  | nil => exact .one
  | cons hfirst _ ih =>
    rw [List.prod_cons, List.flatten_cons]
    exact hfirst.mul ih

theorem listed {languages : List (Language Token)} {leaves : List (List Leaf)}
    (h : List.Forall₂ ReadAs languages leaves) :
    ReadAs (Spelling.listed languages) leaves.flatten := by
  cases h with
  | nil => exact .one
  | @cons first found others rest hfirst hothers =>
    have hcommas : List.Forall₂ ReadAs (others.map (only .comma * ·)) rest :=
      List.forall₂_map_left_iff.mpr (hothers.imp fun _ _ hread => comma.mul hread)
    have hend : ReadAs (1 + only .comma) [] := fun tokens hmem =>
      hmem.elim (one tokens) (comma tokens)
    have hall := (hfirst.mul (prod hcommas)).mul hend
    rwa [List.append_nil] at hall

theorem tuple (location : Location) {languages : List (Language Token)} {leaves : List (List Leaf)}
    (h : List.Forall₂ ReadAs languages leaves) :
    ReadAs (Spelling.tuple location languages) leaves.flatten := by
  intro tokens hmem
  obtain ⟨front, hfront, _, ⟨closing, rfl, hclosing⟩, rfl⟩ := Language.mem_mul.mp hmem
  obtain ⟨_, ⟨opening, rfl, hopening⟩, inside, hinside, rfl⟩ := Language.mem_mul.mp hfront
  exact (listed h inside hinside).grouped hopening.lexeme hclosing.lexeme

theorem symbol (name : Name) : ReadAs (Spelling.leaf name.symbolLeaf) [name.symbolLeaf] := by
  obtain ⟨text, h⟩ | ⟨text, h⟩ : (∃ text, name.symbolLeaf.lexeme = .operator text) ∨
      ∃ text, name.symbolLeaf.lexeme = .identifier text := by
    show (∃ text, Lexeme.ofSymbol name.text = _) ∨ ∃ text, Lexeme.ofSymbol name.text = _
    unfold Lexeme.ofSymbol
    split
    · split
      · exact .inl ⟨_, rfl⟩
      · exact .inr ⟨_, rfl⟩
    · exact .inr ⟨_, rfl⟩
  · exact leaf (by rw [h]; rfl) (by rw [h]; rfl)
  · exact leaf (by rw [h]; rfl) (by rw [h]; rfl)

end ReadAs

/-! ## Trees -/

mutual

theorem Pattern.readAs_yield : ∀ pattern : Pattern, ReadAs pattern.plain pattern.yield
  | .variable _ => .leaf rfl rfl
  | .integer _ _ => .leaf rfl rfl
  | .text _ _ => .leaf rfl rfl
  | .constructor name arguments => by
    have hname : ReadAs (leaf name.leaf) _ := .leaf rfl rfl
    have h := hname.mul (.prod (Pattern.readAs_yields arguments))
    rwa [← Pattern.yieldAll_eq_flatten] at h
  | .tuple location members => by
    have h := ReadAs.tuple location (Pattern.readAs_yields members)
    rwa [← Pattern.yieldAll_eq_flatten] at h

theorem Pattern.readAs_yields : ∀ patterns : List Pattern,
    List.Forall₂ ReadAs (Pattern.spellings patterns) (patterns.map Pattern.yield)
  | [] => .nil
  | pattern :: rest => .cons (Pattern.readAs_yield pattern).wrapped (Pattern.readAs_yields rest)

end

mutual

theorem Expr.readAs_yield : ∀ expr : Expr, ReadAs expr.plain expr.yield
  | .lambda _ _ _ => fun _ h => absurd h (Language.notMem_zero _)
  | .binding location name value body => by
    have hlet : ReadAs (leaf (.placed location (.identifier "let"))) _ := .leaf rfl rfl
    have hname : ReadAs (leaf name.leaf) _ := .leaf rfl rfl
    have hassign : ReadAs (only .assign) _ := .leaf rfl rfl
    have hvalue := (Expr.readAs_yield value).wrapped
    have hin : ReadAs (only .inWord) _ := .leaf rfl rfl
    have hbody := (Expr.readAs_yield body).wrapped
    have h := (((((hlet.mul hname).mul hassign).mul hvalue).mul .separators).mul hin).mul hbody
    simpa [Expr.plain, Expr.yield] using h
  | .integer _ _ => .leaf rfl rfl
  | .float _ _ => .leaf rfl rfl
  | .text _ _ => .leaf rfl rfl
  | .symbol name => .symbol name
  | .matching location subject arms => by
    have hmatch : ReadAs (leaf (.placed location (.identifier "match"))) _ := .leaf rfl rfl
    have hsubject := (Expr.readAs_yield subject).wrapped
    have h := (hmatch.mul hsubject).mul (.prod (Arm.readAs_yields arms))
    rw [← Arm.yieldAll_eq_flatten] at h
    simpa [Expr.plain, Expr.yield] using h
  | .call function arguments => by
    have h := (Expr.readAs_yield function).wrapped.mul (.prod (Expr.readAs_yields arguments))
    rwa [← Expr.yieldAll_eq_flatten] at h
  | .tuple location members => by
    have h := ReadAs.tuple location (Expr.readAs_yields members)
    rwa [← Expr.yieldAll_eq_flatten] at h

theorem Arm.readAs_yield : ∀ arm : Arm, ReadAs arm.plain arm.yield
  | .mk pattern body => by
    have hpattern := (Pattern.readAs_yield pattern).wrapped
    have harrow : ReadAs (only .arrow) _ := .leaf rfl rfl
    have hbody := (Expr.readAs_yield body).wrapped
    have h := ((ReadAs.separators.mul hpattern).mul harrow).mul hbody
    simpa [Arm.plain, Arm.yield] using h

theorem Expr.readAs_yields : ∀ exprs : List Expr,
    List.Forall₂ ReadAs (Expr.spellings exprs) (exprs.map Expr.yield)
  | [] => .nil
  | expr :: rest => .cons (Expr.readAs_yield expr).wrapped (Expr.readAs_yields rest)

theorem Arm.readAs_yields : ∀ arms : List Arm,
    List.Forall₂ ReadAs (Arm.spellings arms) (arms.map Arm.yield)
  | [] => .nil
  | arm :: rest => .cons (Arm.readAs_yield arm) (Arm.readAs_yields rest)

end

theorem Decl.readAs_yield (decl : Decl) : ReadAs decl.plain decl.yield := by
  have hname : ReadAs (leaf decl.name.leaf) _ := .leaf rfl rfl
  have hpatterns := ReadAs.prod (Pattern.readAs_yields decl.patterns)
  have hassign : ReadAs (only .assign) _ := .leaf rfl rfl
  have hbody := (Expr.readAs_yield decl.body).wrapped
  have h := ((hname.mul hpatterns).mul hassign).mul hbody
  rw [← Pattern.yieldAll_eq_flatten] at h
  simpa [Decl.plain, Decl.yield] using h

/-- **The tokens that spell declarations are the leaves of these**, but for punctuation, and every
bracket among them is a parenthesis and is closed. -/
theorem Decl.reads_of_spellings {decls : List Decl} {tokens : List Token}
    (h : tokens ∈ Decl.spellings decls) : Reads (decls.flatMap Decl.yield) tokens := by
  have hdecls : ∀ decls : List Decl, ReadAs (decls.map fun decl => decl.plain * separators).prod
      (decls.flatMap Decl.yield) := by
    intro decls
    induction decls with
    | nil => exact .one
    | cons decl rest ih =>
      rw [List.map_cons, List.prod_cons, List.flatMap_cons]
      have hdecl := (Decl.readAs_yield decl).mul .separators
      rw [List.append_nil] at hdecl
      exact hdecl.mul ih
  exact ReadAs.separators.mul (hdecls decls) tokens h

end FrontEnd
