import FrontEnd.Proofs.Grammar.Begins
import FrontEnd.Proofs.Grammar.Joined
import FrontEnd.Proofs.Grammar.WellFormed
import FrontEnd.Proofs.Lexer.Tiles

/-!
# Redundant parentheses

A group with a single member and no comma is that member. So parentheses may be put around the body
of a declaration, and around its pattern if it has just one: what is between them is read as it was
read without them.

* `Greedy.pattern_anywhere` — a pattern is made of the tokens that it takes, whatever follows them.
* `Greedy.call_enclosed` — a call that takes all tokens is a term between parentheses.
* `Greedy.file_enclosed_body`, `Greedy.decl_enclosed_pattern` — a declaration with parentheses
  around its body, and around its pattern.
* `Greedy.inWord_of_call` — the only sign in a body that assigns is that of a binding.
-/

set_option autoImplicit false

namespace FrontEnd

namespace Greedy

open Item

variable {tokens rest : List Token} {opening closing : Token}

/-! ## Patterns in front of other tokens -/

/-- An item that made a value and left `rest` takes tokens without separators, and it makes the same
of them in front of other tokens with a property. -/
def TakesBefore {α : Type} (item : Item α) (before : List Token → Prop) (tokens rest : List Token)
    (value : α) : Prop :=
  ∃ used, tokens = used ++ rest ∧ (∀ token ∈ used, token.lexeme ≠ .semicolon) ∧
    ∀ rest', before rest' → item (used ++ rest') = some (value, rest')

/-- Every pattern on a list that is shorter than the bound is made of the tokens that it takes. It
does not look at what follows, but for whether a further pattern begins there. -/
def Anywhere (bound : Nat) : Prop :=
  ∀ (tokens rest : List Token) (found : Pattern), tokens.length < bound →
    pattern tokens = some (found, rest) →
    TakesBefore pattern (fun rest' => pattern rest = none → pattern rest' = none) tokens rest found

section Anywhere

variable {bound : Nat} (h : Anywhere bound)

include h

theorem many_anywhere {found : List Pattern} (hlength : tokens.length < bound)
    (hmany : many pattern tokens = some (found, rest)) :
    TakesBefore (many pattern) (fun rest' => pattern rest' = none) tokens rest found := by
  induction hn : tokens.length using Nat.strongRecOn generalizing tokens found with
  | ind n ih =>
    rcases many_cases shrinks_pattern hmany with
      ⟨rfl, rfl, -⟩ | ⟨value, behind, others, rfl, hpattern, hothers⟩
    · exact ⟨[], rfl, by simp, fun _ hrest' => many_of_none hrest'⟩
    · have hlt := shrinks_pattern _ _ _ hpattern
      obtain ⟨used, rfl, hplain, hused⟩ := h _ _ _ hlength hpattern
      obtain ⟨taken, rfl, hplain', htaken⟩ := ih behind.length (by omega) (by omega) hothers rfl
      refine ⟨used ++ taken, (List.append_assoc _ _ _).symm,
        List.forall_mem_append.mpr ⟨hplain, hplain'⟩, fun rest' hrest' => ?_⟩
      -- Where the next pattern began it still begins.
      have hnext : pattern (taken ++ rest) = none → pattern (taken ++ rest') = none := by
        intro hnone
        rw [many_of_none hnone] at hothers
        have hnil : taken = [] :=
          List.append_left_eq_self.mp (congrArg Prod.snd (Option.some.inj hothers))
        rwa [hnil]
      rw [List.append_assoc, many_of_some shrinks_pattern (hused _ hnext), htaken rest' hrest']
      rfl

theorem listedTail_anywhere {found : List Pattern × Bool} (hlength : tokens.length < bound)
    (hclosing : closing.lexeme = .closing .paren)
    (hlisted : listedTail pattern tokens = some (found, closing :: rest)) :
    ∃ used, tokens = used ++ closing :: rest ∧ (∀ token ∈ used, token.lexeme ≠ .semicolon) ∧
      ∀ rest', listedTail pattern (used ++ closing :: rest') = some (found, closing :: rest') ∧
        pattern (used ++ closing :: rest') = none := by
  induction hn : tokens.length using Nat.strongRecOn generalizing tokens found with
  | ind n ih =>
    rcases listedTail_cases shrinks_pattern hlisted with
      ⟨-, rfl, rfl⟩ | ⟨comma, behind, rfl, hcomma, hbehind⟩
    · have hcomma : ∀ rest, only .comma (closing :: rest) = none :=
        fun rest => only_of_ne (by simp [hclosing]) rest
      exact ⟨[], rfl, by simp, fun rest' =>
        ⟨listedTail_of_none (hcomma rest'), pattern_of_closing hclosing⟩⟩
    · rw [List.length_cons] at hlength hn
      have hnone : ∀ rest, pattern (comma :: rest) = none :=
        fun rest => pattern_of_term_none (term_of_comma hcomma)
      rcases hbehind with ⟨-, rfl, rfl⟩ | ⟨value, left, others, hpattern, hothers, rfl⟩
      · exact ⟨[comma], rfl, by simp [hcomma], fun rest' =>
          ⟨listedTail_of_comma_none hcomma (pattern_of_closing hclosing), hnone _⟩⟩
      · have hlt := shrinks_pattern _ _ _ hpattern
        obtain ⟨used, rfl, hplain, hused⟩ := h _ _ _ (by omega) hpattern
        obtain ⟨taken, rfl, hplain', htaken⟩ := ih left.length (by omega) (by omega) hothers rfl
        refine ⟨comma :: (used ++ taken), by simp, ?_, fun rest' => ⟨?_, hnone _⟩⟩
        · exact List.forall_mem_cons.mpr
            ⟨by simp [hcomma], List.forall_mem_append.mpr ⟨hplain, hplain'⟩⟩
        · obtain ⟨htail, hstop⟩ := htaken rest'
          rw [List.cons_append, List.append_assoc,
            listedTail_of_comma_some shrinks_pattern hcomma (hused _ fun _ => hstop), htail]
          rfl

/-- What is between the parentheses of a group does not depend on what follows it. -/
theorem members_anywhere {found : List Pattern × Bool} (hlength : tokens.length < bound)
    (hclosing : closing.lexeme = .closing .paren)
    (hmembers : members pattern tokens = some (found, closing :: rest)) :
    ∃ used, tokens = used ++ closing :: rest ∧ (∀ token ∈ used, token.lexeme ≠ .semicolon) ∧
      ∀ rest', members pattern (used ++ closing :: rest') = some (found, closing :: rest') := by
  cases hfirst : pattern tokens with
  | none =>
    rw [members_of_none hfirst] at hmembers
    cases hmembers
    exact ⟨[], rfl, by simp, fun rest' => members_of_none (pattern_of_closing hclosing)⟩
  | some result =>
    obtain ⟨first, mid⟩ := result
    obtain ⟨others, left, htail⟩ := exists_listedTail pattern mid
    rw [members_of_some hfirst htail] at hmembers
    cases hmembers
    have hlt := shrinks_pattern _ _ _ hfirst
    obtain ⟨used, rfl, hplain, hused⟩ := h _ _ _ hlength hfirst
    obtain ⟨taken, rfl, hplain', htaken⟩ := listedTail_anywhere h (by omega) hclosing htail
    refine ⟨used ++ taken, (List.append_assoc _ _ _).symm,
      List.forall_mem_append.mpr ⟨hplain, hplain'⟩, fun rest' => ?_⟩
    obtain ⟨htail', hstop⟩ := htaken rest'
    rw [List.append_assoc, members_of_some (hused _ fun _ => hstop) htail']

end Anywhere

theorem anywhere (bound : Nat) : Anywhere bound := by
  induction bound with
  | zero => exact fun _ _ _ hlength => absurd hlength (Nat.not_lt_zero _)
  | succ bound ih =>
    intro tokens rest found hlength hpattern
    obtain ⟨token, behind, rfl, hcases⟩ := pattern_cases hpattern
    have hfirst : token.lexeme ≠ .semicolon := by
      intro hlexeme
      rw [pattern_of_separator hlexeme] at hpattern
      cases hpattern
    rw [List.length_cons] at hlength
    rcases hcases with ⟨hplain, rfl⟩ | ⟨name, arguments, hname, hmany, rfl⟩ | hopening
    · exact ⟨[token], rfl, by simpa using hfirst, fun _ _ => pattern_of_plain hplain⟩
    · obtain ⟨used, rfl, hplain, hused⟩ := many_anywhere ih (by omega) hmany
      exact ⟨token :: used, rfl, List.forall_mem_cons.mpr ⟨hfirst, hplain⟩, fun rest' hrest' =>
        pattern_of_constructor hname (hused rest' (hrest' (many_stops shrinks_pattern hmany)))⟩
    · rw [pattern_of_opening hopening, patternGroup,
        bind_of_some (only_of_eq hopening behind)] at hpattern
      obtain ⟨group, left, hmembers, hclose⟩ := bind_eq_some.mp hpattern
      obtain ⟨closing, left', hclosing, hpure⟩ := bind_eq_some.mp hclose
      obtain ⟨rfl, hlexeme⟩ := only_eq_some hclosing
      cases hpure
      obtain ⟨used, rfl, hplain, hused⟩ := members_anywhere ih (by omega) hlexeme hmembers
      refine ⟨token :: used ++ [closing], by simp, ?_, fun rest' _ => ?_⟩
      · exact List.forall_mem_append.mpr
          ⟨List.forall_mem_cons.mpr ⟨hfirst, hplain⟩, by simp [hlexeme]⟩
      · rw [List.append_assoc, List.cons_append]
        exact pattern_of_members hopening hlexeme (hused rest')

/-- **A pattern is made of the tokens that it takes.** In front of other tokens it is the same, if
no further pattern begins there where none began before. -/
theorem pattern_anywhere {found : Pattern} (h : pattern tokens = some (found, rest)) :
    TakesBefore pattern (fun rest' => pattern rest = none → pattern rest' = none) tokens rest
      found :=
  anywhere _ _ _ _ (Nat.lt_succ_self _) h

/-! ## Parentheses around patterns and calls -/

/-- A pattern between parentheses is that pattern. -/
theorem pattern_enclosed (hopening : opening.lexeme = .opening .paren)
    (hclosing : closing.lexeme = .closing .paren) {found : Pattern}
    (h : pattern tokens = some (found, closing :: rest)) :
    pattern (opening :: tokens) = some (found, rest) := by
  have hcomma : only .comma (closing :: rest) = none := only_of_ne (by simp [hclosing]) rest
  exact pattern_of_members hopening hclosing (members_of_some h (listedTail_of_none hcomma))

/-- **A call that takes all tokens is a call between parentheses.** -/
theorem call_enclosed (hopening : opening.lexeme = .opening .paren)
    (hclosing : closing.lexeme = .closing .paren) {found : Expr}
    (h : call tokens = some (found, [])) :
    call (opening :: (tokens ++ [closing])) = some (found, []) := by
  have hends : Ends [closing] := by
    refine ⟨⟨closing, [], rfl, .inr hclosing⟩, arm_of_pattern_none ?_⟩
    rw [dropWhile_of_ne (by simp [hclosing])]
    exact pattern_of_closing hclosing
  have hpersists : Persists Stuck [closing] call tokens :=
    persists_call (fun tokens _ => persists_term hends tokens) (Nat.lt_succ_self _)
  have hinside : call (tokens ++ [closing]) = some (found, [closing]) :=
    (hpersists _ _ h).resolve_left fun hstuck => hstuck.remains rfl
  have hcomma : only .comma [closing] = none := only_of_ne (by simp [hclosing]) []
  have hterm : term (opening :: (tokens ++ [closing])) = some (found, []) :=
    term_of_listed hopening hclosing (listed_of_some hinside (listedTail_of_none hcomma))
  exact call_of_some hterm (many_of_none term_nil)

/-! ## Declarations -/

/-- The parts of a declaration. -/
theorem decl_eq_some {found : Decl} :
    decl tokens = some (found, rest) ↔ ∃ behind assign left,
      name tokens = some (found.name, behind) ∧
      many pattern behind = some (found.patterns, assign :: left) ∧ assign.lexeme = .assign ∧
      call left = some (found.body, rest) := by
  constructor
  · intro h
    obtain ⟨name, behind, hname, h⟩ := bind_eq_some.mp h
    obtain ⟨patterns, left, hpatterns, h⟩ := bind_eq_some.mp h
    obtain ⟨assign, left', hassign, h⟩ := bind_eq_some.mp h
    obtain ⟨body, _, hbody, h⟩ := bind_eq_some.mp h
    cases h
    obtain ⟨rfl, hlexeme⟩ := only_eq_some hassign
    exact ⟨behind, assign, left', hname, hpatterns, hlexeme, hbody⟩
  · rintro ⟨behind, assign, left, hname, hpatterns, hassign, hbody⟩
    rw [decl, bind_of_some hname, bind_of_some hpatterns, bind_of_some (only_of_eq hassign left),
      bind_of_some hbody]
    rfl

/-- No pattern begins with the sign that assigns. -/
theorem pattern_of_assign {assign : Token} (h : assign.lexeme = .assign) :
    pattern (assign :: rest) = none :=
  pattern_of_other (by simp [plainPattern?, h, Lexeme.assign])
    (by simp [constructorName?, Token.name?, h, Lexeme.assign]) (by simp [h, Lexeme.assign])

/-- A declaration that takes all tokens of a file is its only one. -/
theorem file_of_decl {found : Decl} (h : decl tokens = some (found, [])) :
    file tokens = some [found] := by
  have hskip : tokens.dropWhile Token.isSeparator = tokens := by
    obtain ⟨_, _, _, hname, -⟩ := decl_eq_some.mp h
    obtain ⟨token, rfl, hmake⟩ := one_eq_some hname
    refine dropWhile_of_ne fun hlexeme => ?_
    simp [Token.name?, hlexeme] at hmake
  rw [file_eq_some, hskip, decls,
    many_of_some shrinks_declAndSeparators (declAndSeparators_of_some h),
    many_of_none (bind_of_none rfl)]
  rfl

/-- The only declaration of a file that begins with no separator, and does not end in one, takes all
tokens. -/
theorem decl_of_file (hwell : ∀ token ∈ tokens, token.lexeme.WellFormed) {found : Decl}
    (hfirst : tokens.dropWhile Token.isSeparator = tokens)
    (hlast : ∀ last, tokens.getLast? = some last → last.lexeme ≠ .semicolon)
    (h : file tokens = some [found]) : decl tokens = some (found, []) := by
  have hdecls := file_eq_some.mp h
  rw [hfirst] at hdecls
  rcases many_cases shrinks_declAndSeparators hdecls with
    ⟨hnil, -⟩ | ⟨value, behind, others, hcons, hone, hothers⟩
  · cases hnil
  obtain ⟨rfl, rfl⟩ := List.cons.inj hcons
  obtain ⟨decl, left, hdecl, hgap⟩ := bind_eq_some.mp hone
  rw [bind_of_some (separators_eq left)] at hgap
  cases hgap
  have hskipped : left.dropWhile Token.isSeparator = [] := by
    rcases many_cases shrinks_declAndSeparators hothers with ⟨-, heq, -⟩ | ⟨_, _, _, hcons, -⟩
    · exact heq.symm
    · cases hcons
  obtain ⟨token, used, rfl, -⟩ := decl_cases hwell hdecl
  rcases List.eq_nil_or_concat' left with rfl | ⟨front, last, rfl⟩
  · exact hdecl
  · have hseparator : last.isSeparator = true :=
      List.dropWhile_eq_nil_iff.mp hskipped last (by simp)
    have hend : (token :: (used ++ (front ++ [last]))).getLast? = some last := by
      rw [← List.append_assoc, ← List.cons_append, List.getLast?_append_cons]
      rfl
    exact absurd (of_decide_eq_true hseparator) (hlast last hend)

/-- **Parentheses around the body of a declaration change nothing.** -/
theorem decl_enclosed_body {token assign : Token} {body : List Token} {found : Decl}
    (hassign : assign.lexeme = .assign) (hopening : opening.lexeme = .opening .paren)
    (hclosing : closing.lexeme = .closing .paren)
    (h : decl (token :: assign :: body) = some (found, [])) :
    decl (token :: assign :: opening :: (body ++ [closing])) = some (found, []) := by
  obtain ⟨behind, assign', left, hname, hpatterns, -, hbody⟩ := decl_eq_some.mp h
  obtain ⟨_, heq, hmake⟩ := one_eq_some hname
  cases heq
  have hnone : ∀ rest, pattern (assign :: rest) = none := fun _ => pattern_of_assign hassign
  rw [many_of_none (hnone body)] at hpatterns
  obtain ⟨hnil, heq⟩ := Prod.mk.inj (Option.some.inj hpatterns)
  cases heq
  refine decl_eq_some.mpr ⟨_, assign, _, one_of_some hmake _, ?_, hassign,
    call_enclosed hopening hclosing hbody⟩
  rw [many_of_none (hnone _), ← hnil]

/-- **Parentheses around the only pattern of a declaration change nothing.** -/
theorem decl_enclosed_pattern {token : Token} {found : Decl} {single : Pattern}
    (hsingle : found.patterns = [single]) (hopening : opening.lexeme = .opening .paren)
    (hclosing : closing.lexeme = .closing .paren)
    (h : decl (token :: tokens) = some (found, rest)) :
    ∃ used assign left, tokens = used ++ assign :: left ∧ assign.lexeme = .assign ∧
      pattern tokens = some (single, assign :: left) ∧
      (∀ token ∈ used, token.lexeme ≠ .semicolon) ∧ call left = some (found.body, rest) ∧
      decl (token :: opening :: (used ++ closing :: assign :: left)) = some (found, rest) := by
  obtain ⟨behind, assign, left, hname, hpatterns, hassign, hbody⟩ := decl_eq_some.mp h
  obtain ⟨_, heq, hmake⟩ := one_eq_some hname
  cases heq
  rw [hsingle] at hpatterns
  have hpattern : pattern tokens = some (single, assign :: left) := by
    rcases many_cases shrinks_pattern hpatterns with
      ⟨hnil, -⟩ | ⟨value, mid, others, hcons, hfirst, hothers⟩
    · cases hnil
    · obtain ⟨rfl, rfl⟩ := List.cons.inj hcons
      rcases many_cases shrinks_pattern hothers with ⟨-, rfl, -⟩ | ⟨_, _, _, hcons, -⟩
      · exact hfirst
      · cases hcons
  obtain ⟨used, rfl, hplain, hused⟩ := pattern_anywhere hpattern
  refine ⟨used, assign, left, rfl, hassign, hpattern, hplain, hbody, ?_⟩
  have hgroup := pattern_enclosed hopening hclosing
    (hused (closing :: assign :: left) fun _ => pattern_of_closing hclosing)
  refine decl_eq_some.mpr ⟨_, assign, left, one_of_some hmake _, ?_, hassign, hbody⟩
  rw [many_of_some shrinks_pattern hgroup, many_of_none (pattern_of_assign hassign), hsingle]
  rfl

end Greedy

/-! ## The signs that assign -/

/-- Behind every sign that assigns there is the word that ends the value of a binding. -/
def Bound (lexemes : List Lexeme) : Prop :=
  ∀ front behind, lexemes = front ++ .assign :: behind → .inWord ∈ behind

namespace Bound

variable {lexemes lexemes' : List Lexeme}

theorem of_not_mem (h : .assign ∉ lexemes) : Bound lexemes := by
  rintro front behind rfl
  exact absurd (List.mem_append_right _ List.mem_cons_self) h

theorem append (h : Bound lexemes) (h' : Bound lexemes') : Bound (lexemes ++ lexemes') := by
  intro front behind heq
  rcases List.append_eq_append_iff.mp heq with ⟨right, rfl, hright⟩ | ⟨left, rfl, hleft⟩
  · exact h' right behind hright
  · cases left with
    | nil => exact h' [] behind hleft.symm
    | cons lexeme left =>
      obtain ⟨rfl, rfl⟩ := List.cons.inj hleft
      exact List.mem_append_left _ (h front left rfl)

/-- What ends a value ends it for all that is in front. -/
theorem binding (h : Bound lexemes') : Bound (lexemes ++ .inWord :: lexemes') := by
  intro front behind heq
  rcases List.append_eq_append_iff.mp heq with ⟨right, rfl, hright⟩ | ⟨left, rfl, hleft⟩
  · cases right with
    | nil => cases hright
    | cons lexeme right =>
      obtain ⟨rfl, rfl⟩ := List.cons.inj hright
      exact h right behind rfl
  · cases left with
    | nil => cases hleft
    | cons lexeme left =>
      obtain ⟨rfl, rfl⟩ := List.cons.inj hleft
      simp

end Bound

mutual

theorem Pattern.assign_not_mem : ∀ pattern : Pattern, .assign ∉ pattern.yield.map Leaf.lexeme
  | .variable _ => by simp [Pattern.yield, Name.leaf, Leaf.placed, Lexeme.assign]
  | .integer _ _ => by simp [Pattern.yield, Leaf.placed, Lexeme.assign]
  | .text _ _ => by simp [Pattern.yield, Leaf.placed, Lexeme.assign, Lexeme.ofText]
  | .constructor _ arguments => by
    simpa [Pattern.yield, Name.leaf, Leaf.placed, Lexeme.assign] using
      Pattern.assign_not_mem_all arguments
  | .tuple _ members => Pattern.assign_not_mem_all members

theorem Pattern.assign_not_mem_all : ∀ patterns : List Pattern,
    .assign ∉ (Pattern.yieldAll patterns).map Leaf.lexeme
  | [] => by simp [Pattern.yieldAll]
  | pattern :: rest => by
    rw [Pattern.yieldAll, List.map_append, List.mem_append, not_or]
    exact ⟨pattern.assign_not_mem, Pattern.assign_not_mem_all rest⟩

end

/-- No symbol is the sign that assigns. -/
theorem Name.symbolLeaf_ne_assign {name : Name} (h : name.SymbolWellFormed) :
    name.symbolLeaf.lexeme ≠ .assign := by
  show Lexeme.ofSymbol name.text ≠ .assign
  rcases h with ⟨hword, -⟩ | ⟨hoperator, hne⟩
  · rw [Lexeme.ofSymbol_identifier hword]
    simp [Lexeme.assign]
  · rw [Lexeme.ofSymbol_operator hoperator]
    simpa [Lexeme.assign] using hne

mutual

/-- In an expression only bindings assign. -/
theorem Expr.bound_yield : ∀ expr : Expr, expr.WellFormed true →
    Bound (expr.yield.map Leaf.lexeme)
  | .lambda _ _ _, h => h.elim
  | .binding location name value body, h => by
    let front : List Lexeme :=
      .identifier "let" :: .identifier name.text :: .assign :: value.yield.map Leaf.lexeme
    have hall : Bound (front ++ .inWord :: body.yield.map Leaf.lexeme) :=
      (body.bound_yield h.2.2).binding
    simpa [front, Expr.yield, Name.leaf, Leaf.placed, Leaf.fixed] using hall
  | .integer _ _, _ => .of_not_mem (by simp [Expr.yield, Leaf.placed, Lexeme.assign])
  | .float _ _, _ => .of_not_mem (by simp [Expr.yield, Leaf.placed, Lexeme.assign])
  | .text _ _, _ => .of_not_mem (by simp [Expr.yield, Leaf.placed, Lexeme.assign, Lexeme.ofText])
  | .symbol name, h =>
    .of_not_mem (by simpa [Expr.yield] using (Name.symbolLeaf_ne_assign h).symm)
  | .matching location subject arms, h => by
    have hword : Bound [.identifier "match"] := .of_not_mem (by simp [Lexeme.assign])
    have hall := hword.append ((subject.bound_yield h.1).append (Arm.bound_yields arms h.2.2))
    simpa [Expr.yield, Leaf.placed] using hall
  | .call function arguments, h => by
    have hall := (function.bound_yield h.1).append (Expr.bound_yields arguments h.2.2)
    rwa [← List.map_append] at hall
  | .tuple _ members, h => Expr.bound_yields members h

theorem Arm.bound_yield : ∀ arm : Arm, arm.WellFormed true → Bound (arm.yield.map Leaf.lexeme)
  | .mk pattern body, h => by
    have harrow : Bound [.arrow] := .of_not_mem (by simp [Lexeme.arrow, Lexeme.assign])
    have hpattern : Bound (pattern.yield.map Leaf.lexeme) := .of_not_mem pattern.assign_not_mem
    have hall := hpattern.append (harrow.append (body.bound_yield h.2))
    simpa [Arm.yield, Leaf.fixed] using hall

theorem Expr.bound_yields : ∀ exprs : List Expr, Expr.AllWellFormed true exprs →
    Bound ((Expr.yieldAll exprs).map Leaf.lexeme)
  | [], _ => .of_not_mem (by simp [Expr.yieldAll])
  | expr :: rest, h => by
    have hall := (expr.bound_yield h.1).append (Expr.bound_yields rest h.2)
    rwa [← List.map_append] at hall

theorem Arm.bound_yields : ∀ arms : List Arm, Arm.AllWellFormed true arms →
    Bound ((Arm.yieldAll arms).map Leaf.lexeme)
  | [], _ => .of_not_mem (by simp [Arm.yieldAll])
  | arm :: rest, h => by
    have hall := (arm.bound_yield h.1).append (Arm.bound_yields rest h.2)
    rwa [← List.map_append] at hall

end

namespace Greedy

/-- **Only bindings assign in the body of a declaration.** Behind each sign that assigns there is
the word that ends the value of its binding. -/
theorem inWord_of_call {body : List Token} {found : Expr}
    (hwell : ∀ token ∈ body, token.lexeme.WellFormed) (h : call body = some (found, []))
    {front behind : List Token} {assign : Token} (hbody : body = front ++ assign :: behind)
    (hassign : assign.lexeme = .assign) : ∃ token ∈ behind, token.lexeme = .inWord := by
  obtain ⟨_, -, hgood⟩ := makes_callWith makes_term body found [] hwell h
  obtain ⟨used, hused, hspelled⟩ := spells_callWith spells_term body found [] hwell h
  rw [List.append_nil] at hused
  subst hused
  have hlexemes : _ = (body.filter Token.isKept).map Token.lexeme :=
    ((Expr.readAs_yield found).wrapped _ hspelled).lexemes
  have hkept : assign.isKept = true := by
    simp [Token.isKept, hassign, Lexeme.assign, Lexeme.isPunctuation]
  have hbound := found.bound_yield hgood
  rw [hlexemes, hbody, List.filter_append, List.filter_cons_of_pos hkept, List.map_append,
    List.map_cons, hassign] at hbound
  obtain ⟨token, hmem, hlexeme⟩ := List.mem_map.mp (hbound _ _ rfl)
  exact ⟨token, List.mem_of_mem_filter hmem, hlexeme⟩

/-- The last sign that assigns, in front of a single token, is the one in front of the body. -/
theorem body_of_last {used left front : List Token} {assign assign' last : Token} {found : Expr}
    (hwell : ∀ token ∈ left, token.lexeme.WellFormed) (h : call left = some (found, []))
    (htokens : used ++ assign :: left = front ++ [assign', last])
    (hassign : assign'.lexeme = .assign) (hlast : last.lexeme ≠ .inWord) :
    used = front ∧ left = [last] := by
  rcases List.append_eq_append_iff.mp htokens with ⟨right, rfl, hright⟩ | ⟨right, rfl, hright⟩
  · cases right with
    | nil => exact ⟨by simp, (List.cons.inj hright).2⟩
    | cons token right =>
      obtain ⟨-, hleft⟩ := List.cons.inj hright
      obtain ⟨word, hmem, hword⟩ := inWord_of_call hwell h hleft hassign
      rw [List.mem_singleton.mp hmem] at hword
      exact absurd hword hlast
  · match right with
    | [] => exact ⟨by simp, (List.cons.inj hright).2.symm⟩
    | [token] =>
      obtain ⟨-, hleft⟩ := List.cons.inj hright
      obtain ⟨-, rfl⟩ := List.cons.inj hleft
      cases h
    | _ :: _ :: right => simp at hright

end Greedy

end FrontEnd
