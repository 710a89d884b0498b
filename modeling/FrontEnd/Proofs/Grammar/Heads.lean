import FrontEnd.Proofs.Grammar.Greedy

/-!
# Items and the token in front

Which alternative of a rule can match is decided by the first token.

* `Greedy.pattern_of_plain`, … — patterns by their first token.
* `Greedy.term_of_atom`, … — terms by their first token.
* `Greedy.exists_call_of_pattern` — what is a pattern up to a comma or a closing parenthesis is also
  a call up to there.
-/

set_option autoImplicit false

namespace FrontEnd

/-- Whether a token is a separator. -/
def Token.isSeparator (token : Token) : Bool :=
  decide (token.lexeme = .semicolon)

namespace Greedy

open Item

variable {token : Token} {tokens rest : List Token}

/-! ## Separators and commas -/

theorem separators_eq (tokens : List Token) :
    separators tokens =
      some (tokens.takeWhile Token.isSeparator, tokens.dropWhile Token.isSeparator) := by
  induction tokens with
  | nil => rfl
  | cons token rest ih =>
    unfold separators at ih ⊢
    by_cases h : token.lexeme = .semicolon
    · rw [many_of_some (shrinks_only _) (only_of_eq h rest), ih]
      simp [Token.isSeparator, h]
    · rw [many_of_none (only_of_ne h rest)]
      simp [Token.isSeparator, h]

/-- What stands in front of no separator is what separators leave. -/
theorem dropWhile_of_ne (h : token.lexeme ≠ .semicolon) :
    (token :: rest).dropWhile Token.isSeparator = token :: rest := by
  simp [Token.isSeparator, h]

section Listed

variable {α : Type} {item : Item α}

theorem listedTail_of_none (h : only .comma tokens = none) :
    listedTail item tokens = some (([], false), tokens) := by
  rw [listedTail, bind_of_some (many_of_none (bind_of_none h)), bind_of_some (optional_of_none h)]
  rfl

theorem listedTail_of_comma_none (hcomma : token.lexeme = .comma) (h : item rest = none) :
    listedTail item (token :: rest) = some (([], true), rest) := by
  have hitem : (only .comma >>= fun _ => item) (token :: rest) = none := by
    rw [bind_of_some (only_of_eq hcomma rest), h]
  rw [listedTail, bind_of_some (many_of_none hitem),
    bind_of_some (optional_of_some (only_of_eq hcomma rest))]
  rfl

theorem listedTail_of_comma_some (hshrinks : Shrinks item) (hcomma : token.lexeme = .comma)
    {value : α} {behind : List Token} (h : item rest = some (value, behind)) :
    listedTail item (token :: rest) =
      (listedTail item behind).map fun result => ((value :: result.1.1, true), result.2) := by
  have hitem : (only .comma >>= fun _ => item) (token :: rest) = some (value, behind) := by
    rw [bind_of_some (only_of_eq hcomma rest), h]
  have hboth : Shrinks (only .comma >>= fun _ => item) :=
    .of_nearTaking fun bound => (NearTaking.of_one _).bind_near fun _ =>
      NearTaking.near fun tokens _ => ⟨rfl, hshrinks tokens⟩
  unfold listedTail
  rw [bind_apply, many_of_some hboth hitem, bind_apply]
  cases many (only .comma >>= fun _ => item) behind with
  | none => rfl
  | some result =>
    simp only [Option.map_some, Option.bind_some]
    rw [bind_apply, bind_apply]
    cases optional (only .comma) result.2 <;> rfl

/-- What a list between commas goes on with: nothing, a last comma, or a comma and an item. -/
theorem listedTail_cases (hshrinks : Shrinks item) {found : List α × Bool}
    (h : listedTail item tokens = some (found, rest)) :
    (only .comma tokens = none ∧ found = ([], false) ∧ rest = tokens) ∨
      ∃ token behind, tokens = token :: behind ∧ token.lexeme = .comma ∧
        ((item behind = none ∧ found = ([], true) ∧ rest = behind) ∨
          ∃ value left others, item behind = some (value, left) ∧
            listedTail item left = some (others, rest) ∧ found = (value :: others.1, true)) := by
  cases hcomma : only .comma tokens with
  | none =>
    rw [listedTail_of_none hcomma] at h
    cases h
    exact .inl ⟨rfl, rfl, rfl⟩
  | some result =>
    obtain ⟨token, behind⟩ := result
    obtain ⟨rfl, hlexeme⟩ := only_eq_some hcomma
    refine .inr ⟨token, behind, rfl, hlexeme, ?_⟩
    cases hitem : item behind with
    | none =>
      rw [listedTail_of_comma_none hlexeme hitem] at h
      cases h
      exact .inl ⟨rfl, rfl, rfl⟩
    | some result =>
      obtain ⟨value, left⟩ := result
      rw [listedTail_of_comma_some hshrinks hlexeme hitem, Option.map_eq_some_iff] at h
      obtain ⟨⟨others, _⟩, htail, heq⟩ := h
      cases heq
      exact .inr ⟨value, left, others, rfl, htail, rfl⟩

theorem exists_listedTail (item : Item α) (tokens : List Token) :
    ∃ found rest, listedTail item tokens = some (found, rest) := by
  obtain ⟨others, rest, hmany⟩ := exists_many (only .comma >>= fun _ => item) tokens
  rw [listedTail, bind_of_some hmany]
  cases hcomma : only .comma rest with
  | none => exact ⟨_, _, bind_of_some (optional_of_none hcomma)⟩
  | some result => exact ⟨_, _, bind_of_some (optional_of_some hcomma)⟩

theorem listed_of_some {first : α} {mid : List Token} {found : List α × Bool}
    (hfirst : item tokens = some (first, mid)) (htail : listedTail item mid = some (found, rest)) :
    listed item tokens = some ((first :: found.1, found.2), rest) := by
  rw [listed, bind_of_some hfirst, bind_of_some htail]
  rfl

theorem members_of_none (h : item tokens = none) :
    members item tokens = some (([], false), tokens) :=
  map_of_some (optional_of_none (bind_of_none h))

theorem members_of_some {first : α} {mid : List Token} {found : List α × Bool}
    (hfirst : item tokens = some (first, mid)) (htail : listedTail item mid = some (found, rest)) :
    members item tokens = some ((first :: found.1, found.2), rest) :=
  map_of_some (optional_of_some (listed_of_some hfirst htail))

/-- Behind a comma any number of items may follow. -/
theorem listedTail_of_comma (hshrinks : Shrinks item) (hcomma : token.lexeme = .comma) :
    listedTail item (token :: rest) =
      (members item rest).map fun result => ((result.1.1, true), result.2) := by
  cases hitem : item rest with
  | none => rw [listedTail_of_comma_none hcomma hitem, members_of_none hitem]; rfl
  | some result =>
    obtain ⟨value, behind⟩ := result
    obtain ⟨found, left, htail⟩ := exists_listedTail item behind
    rw [listedTail_of_comma_some hshrinks hcomma hitem, members_of_some hitem htail, htail]
    rfl

end Listed

/-! ## Patterns -/

theorem pattern_nil : pattern [] = none := rfl

theorem pattern_apply (tokens : List Token) : pattern tokens =
    ((one plainPattern? tokens).or (constructed pattern tokens)).or
      (patternGroup pattern tokens) := by
  have heq : pattern tokens = patternWith pattern tokens := by rw [← pattern_eq]
  rw [heq, patternWith, orElse_apply, orElse_apply, Option.or_assoc]

theorem pattern_of_plain {found : Pattern} (h : plainPattern? token = some found) :
    pattern (token :: rest) = some (found, rest) := by
  rw [pattern_apply, one_of_some h, Option.some_or, Option.some_or]

theorem plainPattern?_of_constructor {name : Name} (h : constructorName? token = some name) :
    plainPattern? token = none := by
  unfold constructorName? Token.name? at h
  unfold plainPattern?
  cases hlexeme : token.lexeme with
  | identifier word =>
    simp only [hlexeme] at h ⊢
    cases hkeyword : isKeyword word with
    | true => simp
    | false =>
      cases hc : Grammar.isConstructorName word with
      | true => simp
      | false => simp [hkeyword, hc] at h
  | _ => simp [hlexeme] at h

theorem pattern_of_constructor {name : Name} (h : constructorName? token = some name)
    {arguments : List Pattern} {behind : List Token}
    (hmany : many pattern rest = some (arguments, behind)) :
    pattern (token :: rest) = some (.constructor name arguments, behind) := by
  have hconstructed : constructed pattern (token :: rest) =
      some (.constructor name arguments, behind) := by
    rw [constructed, bind_of_some (one_of_some h rest), bind_of_some hmany]
    rfl
  rw [pattern_apply, one_of_none (plainPattern?_of_constructor h), Option.none_or, hconstructed,
    Option.some_or]

theorem pattern_of_opening (h : token.lexeme = .opening .paren) :
    pattern (token :: rest) = patternGroup pattern (token :: rest) := by
  have hplain : plainPattern? token = none := by simp [plainPattern?, h]
  have hname : constructorName? token = none := by simp [constructorName?, Token.name?, h]
  have hconstructed : constructed pattern (token :: rest) = none :=
    bind_of_none (one_of_none hname rest)
  rw [pattern_apply, one_of_none hplain, hconstructed, Option.none_or, Option.none_or]

/-- No other token begins a pattern. -/
theorem pattern_of_other (hplain : plainPattern? token = none)
    (hname : constructorName? token = none) (hopening : token.lexeme ≠ .opening .paren) :
    pattern (token :: rest) = none := by
  have hconstructed : constructed pattern (token :: rest) = none :=
    bind_of_none (one_of_none hname rest)
  have hgroup : patternGroup pattern (token :: rest) = none :=
    bind_of_none (only_of_ne hopening rest)
  rw [pattern_apply, one_of_none hplain, hconstructed, hgroup, Option.none_or, Option.none_or]

theorem pattern_of_separator (h : token.lexeme = .semicolon) : pattern (token :: rest) = none :=
  pattern_of_other (by simp [plainPattern?, h]) (by simp [constructorName?, Token.name?, h])
    (by simp [h])

theorem pattern_of_closing (h : token.lexeme = .closing .paren) : pattern (token :: rest) = none :=
  pattern_of_other (by simp [plainPattern?, h]) (by simp [constructorName?, Token.name?, h])
    (by simp [h])

/-- The members of a group stand between its parentheses. -/
theorem pattern_of_members {opening closing : Token} {found : List Pattern × Bool}
    (hopening : opening.lexeme = .opening .paren) (hclosing : closing.lexeme = .closing .paren)
    (h : members pattern tokens = some (found, closing :: rest)) :
    pattern (opening :: tokens) = some (groupedPattern opening.location found, rest) := by
  rw [pattern_of_opening hopening, patternGroup, bind_of_some (only_of_eq hopening tokens),
    bind_of_some h, bind_of_some (only_of_eq hclosing rest)]
  rfl

/-- What a pattern begins with, and what is behind it. -/
theorem pattern_cases {found : Pattern} (h : pattern tokens = some (found, rest)) :
    ∃ token behind, tokens = token :: behind ∧
      ((plainPattern? token = some found ∧ rest = behind) ∨
        (∃ name arguments, constructorName? token = some name ∧
          many pattern behind = some (arguments, rest) ∧ found = .constructor name arguments) ∨
        token.lexeme = .opening .paren) := by
  cases tokens with
  | nil => cases h
  | cons token behind =>
    refine ⟨token, behind, rfl, ?_⟩
    cases hplain : plainPattern? token with
    | some plain =>
      rw [pattern_of_plain hplain] at h
      cases h
      exact .inl ⟨rfl, rfl⟩
    | none =>
      cases hname : constructorName? token with
      | some name =>
        obtain ⟨arguments, left, hmany⟩ := exists_many pattern behind
        rw [pattern_of_constructor hname hmany] at h
        cases h
        exact .inr (.inl ⟨name, arguments, rfl, hmany, rfl⟩)
      | none =>
        by_cases hopening : token.lexeme = .opening .paren
        · exact .inr (.inr hopening)
        · rw [pattern_of_other hplain hname hopening] at h
          cases h

/-! ## Terms -/

theorem term_nil : term [] = none := rfl

theorem term_apply (tokens : List Token) : term tokens =
    (one atom? tokens).or (((unit <|> group term) tokens).or
      ((binding term tokens).or (matching term tokens))) := by
  have heq : term tokens = termWith term tokens := by rw [← term_eq]
  rw [heq, termWith]
  simp only [orElse_apply, Option.or_assoc]

theorem term_of_atom {found : Expr} (h : atom? token = some found) :
    term (token :: rest) = some (found, rest) := by
  rw [term_apply, one_of_some h, Option.some_or]

theorem name?_eq_none (h : ∀ word, token.lexeme ≠ .identifier word) : token.name? = none := by
  unfold Token.name?
  split
  · rename_i word hlexeme
    exact absurd hlexeme (h word)
  · rfl

theorem atom?_eq_none (hidentifier : ∀ word, token.lexeme ≠ .identifier word)
    (hoperator : ∀ symbol, token.lexeme ≠ .operator symbol)
    (hsigned : ∀ value, token.lexeme ≠ .signed value)
    (hfloat : ∀ value, token.lexeme ≠ .float value)
    (hquoted : ∀ text, token.lexeme ≠ .quoted text) : atom? token = none := by
  unfold atom?
  cases hlexeme : token.lexeme with
  | identifier word => exact absurd hlexeme (hidentifier word)
  | operator symbol => exact absurd hlexeme (hoperator symbol)
  | signed value => exact absurd hlexeme (hsigned value)
  | float value => exact absurd hlexeme (hfloat value)
  | quoted text => exact absurd hlexeme (hquoted text)
  | _ => rfl

section Begun

variable {lexeme : Lexeme}

/-- Only a token with that lexeme begins what begins with a certain lexeme. -/
theorem only_bind_of_ne {α : Type} {next : Token → Item α} (h : token.lexeme ≠ lexeme) :
    (only lexeme >>= next) (token :: rest) = none :=
  bind_of_none (only_of_ne h rest)

theorem unit_or_group_of_ne (h : token.lexeme ≠ .opening .paren) :
    (unit <|> group term) (token :: rest) = none := by
  rw [orElse_apply, unit, only_bind_of_ne h, group, only_bind_of_ne h, Option.none_or]

end Begun

theorem term_of_opening (h : token.lexeme = .opening .paren) :
    term (token :: rest) = (unit <|> group term) (token :: rest) := by
  have hatom : atom? token = none := by simp [atom?, h]
  rw [term_apply, one_of_none hatom, binding, only_bind_of_ne (by simp [h]), matching,
    only_bind_of_ne (by simp [h])]
  simp

theorem term_of_let (h : token.lexeme = .identifier "let") :
    term (token :: rest) = binding term (token :: rest) := by
  have hatom : atom? token = none := by
    have hkeyword : isKeyword "let" = true := by decide
    simp [atom?, h, hkeyword]
  rw [term_apply, one_of_none hatom, unit_or_group_of_ne (by simp [h]), matching,
    only_bind_of_ne (by simp [h])]
  simp

theorem term_of_match (h : token.lexeme = .identifier "match") :
    term (token :: rest) = matching term (token :: rest) := by
  have hatom : atom? token = none := by
    have hkeyword : isKeyword "match" = true := by decide
    simp [atom?, h, hkeyword]
  rw [term_apply, one_of_none hatom, unit_or_group_of_ne (by simp [h]), binding,
    only_bind_of_ne (by simp [h])]
  simp

/-- No other token begins a term. -/
theorem term_of_other (hatom : atom? token = none) (hopening : token.lexeme ≠ .opening .paren)
    (hlet : token.lexeme ≠ .identifier "let") (hmatch : token.lexeme ≠ .identifier "match") :
    term (token :: rest) = none := by
  rw [term_apply, one_of_none hatom, unit_or_group_of_ne hopening, binding,
    only_bind_of_ne hlet, matching, only_bind_of_ne hmatch]
  rfl

theorem term_of_separator (h : token.lexeme = .semicolon) : term (token :: rest) = none :=
  term_of_other (by simp [atom?, h]) (by simp [h]) (by simp [h]) (by simp [h])

theorem term_of_comma (h : token.lexeme = .comma) : term (token :: rest) = none :=
  term_of_other (by simp [atom?, h]) (by simp [h]) (by simp [h]) (by simp [h])

theorem term_of_closing (h : token.lexeme = .closing .paren) : term (token :: rest) = none :=
  term_of_other (by simp [atom?, h]) (by simp [h]) (by simp [h]) (by simp [h])

/-! ## Calls and groups -/

/-- No separators stand where a term begins. -/
theorem dropWhile_of_term {found : Expr} (h : term tokens = some (found, rest)) :
    tokens.dropWhile Token.isSeparator = tokens := by
  cases tokens with
  | nil => rfl
  | cons token behind =>
    refine dropWhile_of_ne fun hlexeme => ?_
    rw [term_of_separator hlexeme] at h
    cases h

theorem call_of_some {function : Expr} {arguments : List Expr} {mid : List Token}
    (hfunction : term tokens = some (function, mid))
    (harguments : many term mid = some (arguments, rest)) :
    call tokens = some (applied function arguments, rest) := by
  unfold call callWith
  rw [bind_of_some (separators_eq tokens), dropWhile_of_term hfunction, bind_of_some hfunction,
    bind_of_some harguments]
  rfl

/-- A call matches at no closing parenthesis. -/
theorem call_of_closing (h : token.lexeme = .closing .paren) : call (token :: rest) = none := by
  unfold call callWith
  rw [bind_of_some (separators_eq _), dropWhile_of_ne (by simp [h])]
  exact bind_of_none (term_of_closing h)

/-- The expressions of a group stand between its parentheses. -/
theorem term_of_listed {opening closing : Token} {found : List Expr × Bool}
    (hopening : opening.lexeme = .opening .paren) (hclosing : closing.lexeme = .closing .paren)
    (h : listed call tokens = some (found, closing :: rest)) :
    term (opening :: tokens) = some (groupedExpr opening.location found, rest) := by
  -- The empty tuple is tried first, and no call begins with a closing parenthesis.
  have hunit : unit (opening :: tokens) = none := by
    rw [unit, bind_of_some (only_of_eq hopening tokens)]
    refine bind_of_none ?_
    cases hfirst : only (.closing .paren) tokens with
    | none => rfl
    | some result =>
      obtain ⟨rfl, hlexeme⟩ := only_eq_some hfirst
      have hlisted : listed call (result.1 :: result.2) = none :=
        bind_of_none (call_of_closing hlexeme)
      cases h.symm.trans hlisted
  have hgroup : group term (opening :: tokens) =
      some (groupedExpr opening.location found, rest) := by
    rw [group, bind_of_some (only_of_eq hopening tokens)]
    exact (bind_of_some h).trans (bind_of_some (only_of_eq hclosing rest))
  rw [term_of_opening hopening, orElse_of_none hunit, hgroup]

/-! ## Declarations -/

/-- A declaration and the separators behind it. -/
theorem declAndSeparators_of_some {found : Decl} (h : decl tokens = some (found, rest)) :
    (do let found ← decl; let _ ← separators; pure found : Item Decl) tokens =
      some (found, rest.dropWhile Token.isSeparator) := by
  rw [bind_of_some h, bind_of_some (separators_eq rest)]
  rfl

theorem shrinks_declAndSeparators :
    Shrinks (do let found ← decl; let _ ← separators; pure found : Item Decl) :=
  .of_nearTaking fun bound => (near_decl bound).bind_near fun _ => near_separators.bind fun _ =>
    .of_pure _

/-- The declarations of a file are what is behind the separators at its start, to the end. -/
theorem file_eq_some {tokens : List Token} {found : List Decl} :
    file tokens = some found ↔ decls (tokens.dropWhile Token.isSeparator) = some (found, []) := by
  have hseq : (separators *> decls) tokens = decls (tokens.dropWhile Token.isSeparator) :=
    bind_of_some (separators_eq tokens)
  unfold file
  constructor
  · intro h
    split at h
    · rename_i heq
      cases h
      exact hseq.symm.trans heq
    · cases h
  · intro h
    have hall : (separators *> decls) tokens = some (found, []) := hseq.trans h
    rw [hall]

/-! ## Patterns read as terms -/

/-- Some terms lead from one place to another, and a repetition goes on from there. -/
def Spans (terms : List Expr) (tokens rest : List Token) : Prop :=
  many term tokens = (many term rest).map fun result => (terms ++ result.1, result.2)

theorem Spans.nil (tokens : List Token) : Spans [] tokens tokens := by
  unfold Spans
  cases many term tokens <;> rfl

theorem Spans.cons {first : Expr} {terms : List Expr} {mid : List Token}
    (hfirst : term tokens = some (first, mid)) (h : Spans terms mid rest) :
    Spans (first :: terms) tokens rest := by
  unfold Spans at h ⊢
  rw [many_of_some shrinks_term hfirst, h, Option.map_map]
  rfl

theorem Spans.append {terms others : List Expr} {mid : List Token} (h : Spans terms tokens mid)
    (h' : Spans others mid rest) : Spans (terms ++ others) tokens rest := by
  unfold Spans at h h' ⊢
  rw [h, h', Option.map_map]
  congr 1
  funext result
  simp

/-- Terms that lead to a place where no term begins are a call. -/
theorem exists_call_of_spans {first : Expr} {terms : List Expr}
    (h : Spans (first :: terms) (token :: tokens) rest) (hne : token.lexeme ≠ .semicolon)
    (hrest : term rest = none) : ∃ found, call (token :: tokens) = some (found, rest) := by
  have hmany : many term (token :: tokens) = some (first :: terms, rest) := by
    rw [h, many_of_none hrest]
    simp
  rcases many_cases shrinks_term hmany with ⟨hnil, -⟩ | ⟨value, behind, others, -, hterm, hothers⟩
  · cases hnil
  · have hseparators : separators (token :: tokens) = some ([], token :: tokens) := by
      rw [separators_eq]
      simp [Token.isSeparator, hne]
    unfold call callWith
    rw [bind_of_some hseparators, bind_of_some hterm, bind_of_some hothers]
    exact ⟨_, rfl⟩

/-- Every pattern on a list that is shorter than the bound is a row of terms. -/
def SpansPatterns (bound : Nat) : Prop :=
  ∀ (tokens rest : List Token) (found : Pattern), tokens.length < bound →
    pattern tokens = some (found, rest) → ∃ first others, Spans (first :: others) tokens rest

section Spans

variable {bound : Nat} (h : SpansPatterns bound)

include h

theorem exists_spans_of_many {tokens rest : List Token} {found : List Pattern}
    (hlength : tokens.length < bound) (hmany : many pattern tokens = some (found, rest)) :
    ∃ terms, Spans terms tokens rest := by
  induction hn : tokens.length using Nat.strongRecOn generalizing tokens found with
  | ind n ih =>
    rcases many_cases shrinks_pattern hmany with
      ⟨-, rfl, -⟩ | ⟨value, behind, others, -, hpattern, hothers⟩
    · exact ⟨[], .nil _⟩
    · have hlt := shrinks_pattern _ _ _ hpattern
      obtain ⟨first, more, hfirst⟩ := h _ _ _ hlength hpattern
      obtain ⟨terms, hterms⟩ := ih behind.length (by omega) (by omega) hothers rfl
      exact ⟨_, hfirst.append hterms⟩

/-- A pattern up to a place where no term begins is a call up to there. -/
theorem exists_call_of_pattern {tokens rest : List Token} {found : Pattern}
    (hlength : tokens.length < bound) (hpattern : pattern tokens = some (found, rest))
    (hrest : term rest = none) : ∃ value, call tokens = some (value, rest) := by
  obtain ⟨first, others, hspans⟩ := h _ _ _ hlength hpattern
  obtain ⟨token, behind, rfl, -⟩ := pattern_cases hpattern
  refine exists_call_of_spans hspans (fun hlexeme => ?_) hrest
  rw [pattern_of_separator hlexeme] at hpattern
  cases hpattern

/-- A list of patterns up to a closing parenthesis is a list of calls up to there. -/
theorem exists_listedTail_of_patterns {tokens rest : List Token} {token : Token}
    {found : List Pattern × Bool} (hlength : tokens.length < bound)
    (hlexeme : token.lexeme = .closing .paren)
    (hlisted : listedTail pattern tokens = some (found, token :: rest)) :
    term tokens = none ∧ ∃ values, listedTail call tokens = some (values, token :: rest) := by
  induction hn : tokens.length using Nat.strongRecOn generalizing tokens found with
  | ind n ih =>
    rcases listedTail_cases shrinks_pattern hlisted with
      ⟨hcomma, -, rfl⟩ | ⟨comma, behind, rfl, hcomma, hbehind⟩
    · exact ⟨term_of_closing hlexeme, _, listedTail_of_none hcomma⟩
    · refine ⟨term_of_comma hcomma, ?_⟩
      rw [List.length_cons] at hlength hn
      rcases hbehind with ⟨-, -, rfl⟩ | ⟨value, left, others, hpattern, hothers, -⟩
      · exact ⟨_, listedTail_of_comma_none hcomma (call_of_closing hlexeme)⟩
      · have hlt := shrinks_pattern _ _ _ hpattern
        obtain ⟨hterm, values, hvalues⟩ :=
          ih left.length (by omega) (by omega) hothers rfl
        obtain ⟨call, hcall⟩ := exists_call_of_pattern h (by omega) hpattern hterm
        rw [listedTail_of_comma_some shrinks_call hcomma hcall, hvalues]
        exact ⟨_, rfl⟩

/-- A group of patterns is a group of expressions. -/
theorem exists_term_of_patternGroup {rest behind : List Token} {token : Token} {found : Pattern}
    (hlength : (token :: rest).length ≤ bound) (hopening : token.lexeme = .opening .paren)
    (hgroup : patternGroup pattern (token :: rest) = some (found, behind)) :
    ∃ value, term (token :: rest) = some (value, behind) := by
  rw [patternGroup, bind_of_some (only_of_eq hopening rest)] at hgroup
  rw [List.length_cons] at hlength
  cases hfirst : pattern rest with
  | none =>
    rw [bind_of_some (members_of_none hfirst)] at hgroup
    obtain ⟨closing, left, hclosing, hfound⟩ := bind_eq_some.mp hgroup
    obtain ⟨rfl, -⟩ := only_eq_some hclosing
    cases hfound
    have hunit : unit (token :: closing :: behind) =
        some (.tuple token.location [], behind) := by
      rw [unit, bind_of_some (only_of_eq hopening _), bind_of_some hclosing]
      rfl
    exact ⟨_, (term_of_opening hopening).trans (orElse_of_some hunit)⟩
  | some result =>
    obtain ⟨first, mid⟩ := result
    obtain ⟨others, left, htail⟩ := exists_listedTail pattern mid
    rw [bind_of_some (members_of_some hfirst htail)] at hgroup
    obtain ⟨closing, left', hclosing, hfound⟩ := bind_eq_some.mp hgroup
    obtain ⟨rfl, hlexeme⟩ := only_eq_some hclosing
    cases hfound
    have hmid := shrinks_pattern _ _ _ hfirst
    obtain ⟨hterm, values, hvalues⟩ :=
      exists_listedTail_of_patterns h (by omega) hlexeme htail
    obtain ⟨value, hvalue⟩ := exists_call_of_pattern h (by omega) hfirst hterm
    exact ⟨_, term_of_listed hopening hlexeme (listed_of_some hvalue hvalues)⟩

end Spans

theorem atom?_of_plainPattern? {found : Pattern} (h : plainPattern? token = some found) :
    ∃ value, atom? token = some value := by
  unfold plainPattern? at h
  unfold atom?
  cases hlexeme : token.lexeme with
  | signed value => exact ⟨_, rfl⟩
  | quoted text => exact ⟨_, rfl⟩
  | identifier word =>
    cases hkeyword : isKeyword word with
    | true => simp [hlexeme, hkeyword] at h
    | false => exact ⟨.symbol ⟨word, token.location⟩, by simp [hkeyword]⟩
  | _ => simp [hlexeme] at h

theorem atom?_of_constructorName? {name : Name} (h : constructorName? token = some name) :
    ∃ value, atom? token = some value := by
  unfold constructorName? Token.name? at h
  unfold atom?
  cases hlexeme : token.lexeme with
  | identifier word =>
    cases hkeyword : isKeyword word with
    | true => simp [hlexeme, hkeyword] at h
    | false => exact ⟨.symbol ⟨word, token.location⟩, by simp [hkeyword]⟩
  | _ => simp [hlexeme] at h

/-- **Every pattern is a row of terms.** -/
theorem spansPatterns (bound : Nat) : SpansPatterns bound := by
  induction bound with
  | zero => exact fun _ _ _ hlength => absurd hlength (Nat.not_lt_zero _)
  | succ bound ih =>
    intro tokens rest found hlength hpattern
    obtain ⟨token, behind, rfl, hcases⟩ := pattern_cases hpattern
    rw [List.length_cons] at hlength
    rcases hcases with ⟨hplain, rfl⟩ | ⟨name, arguments, hname, hmany, -⟩ | hopening
    · obtain ⟨value, hatom⟩ := atom?_of_plainPattern? hplain
      exact ⟨value, [], .cons (term_of_atom hatom) (.nil _)⟩
    · obtain ⟨value, hatom⟩ := atom?_of_constructorName? hname
      obtain ⟨terms, hterms⟩ := exists_spans_of_many ih (by omega) hmany
      exact ⟨value, terms, .cons (term_of_atom hatom) hterms⟩
    · rw [pattern_of_opening hopening] at hpattern
      obtain ⟨value, hterm⟩ :=
        exists_term_of_patternGroup ih (by rw [List.length_cons]; omega) hopening hpattern
      exact ⟨value, [], .cons hterm (.nil _)⟩

/-- Where no term begins no pattern begins either. -/
theorem pattern_of_term_none (h : term tokens = none) : pattern tokens = none := by
  cases hpattern : pattern tokens with
  | none => rfl
  | some result =>
    obtain ⟨found, rest⟩ := result
    obtain ⟨first, others, hspans⟩ := spansPatterns _ _ _ _ (Nat.lt_succ_self _) hpattern
    unfold Spans at hspans
    rw [many_of_none h] at hspans
    cases hmany : many term rest <;> simp [hmany] at hspans

end Greedy

end FrontEnd
