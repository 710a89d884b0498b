import FrontEnd.Proofs.Grammar.Heads

/-!
# Where nothing fits

A rule stops with a fault where it began something that it cannot finish. The grammar then goes on
from an earlier place, but to no avail: at that place no rule that may follow matches.

* `Greedy.Stuck` — nothing that may follow a term matches here.
* `Greedy.PatternStuck` — a parenthesis that begins no pattern.
* `Greedy.stuck_of_head`, `Greedy.stuck_of_patternStuck`, `Greedy.stuck_of_call_none` — places where
  terms and arms were given up.
* `Greedy.call_stops`, `Greedy.arm_stops` — no term begins behind a call or an arm.
-/

set_option autoImplicit false

namespace FrontEnd.Greedy

open Item

/-- An opening parenthesis that begins no pattern. -/
structure PatternStuck (tokens : List Token) : Prop where
  opening : ∃ token rest, tokens = token :: rest ∧ token.lexeme = .opening .paren
  pattern : pattern tokens = none

/-- Nothing that may follow a term matches: no further term, no arm, no comma, no closing
parenthesis, and behind separators neither the end, nor the word that ends a binding's value, nor a
declaration. -/
structure Stuck (tokens : List Token) : Prop where
  term : term tokens = none
  arm : arm tokens = none
  comma : only .comma tokens = none
  closing : only (.closing .paren) tokens = none
  remains : tokens.dropWhile Token.isSeparator ≠ []
  inWord : only .inWord (tokens.dropWhile Token.isSeparator) = none
  decl : decl (tokens.dropWhile Token.isSeparator) = none

variable {token : Token} {tokens rest : List Token}

theorem PatternStuck.only (h : PatternStuck tokens) (lexeme : Lexeme)
    (hne : lexeme ≠ .opening .paren) : only lexeme tokens = none := by
  obtain ⟨⟨token, rest, rfl, hopening⟩, -⟩ := h
  exact only_of_ne (by rw [hopening]; exact hne.symm) rest

theorem arm_of_pattern_none (h : pattern (tokens.dropWhile Token.isSeparator) = none) :
    arm tokens = none := by
  unfold arm armWith
  rw [bind_of_some (separators_eq tokens)]
  exact bind_of_none h

theorem arm_of_pattern_some {found : Pattern}
    (h : pattern (tokens.dropWhile Token.isSeparator) = some (found, rest)) :
    arm tokens = (do
      let _ ← only .arrow
      let body ← call
      pure (.mk found body) : Item Arm) rest := by
  unfold arm armWith
  rw [bind_of_some (separators_eq tokens), bind_of_some h]
  rfl

theorem arm_of_call_some {found : Pattern} {body : Expr} {behind : List Token}
    (hfound : pattern (tokens.dropWhile Token.isSeparator) = some (found, token :: rest))
    (harrow : token.lexeme = .arrow) (hcall : call rest = some (body, behind)) :
    arm tokens = some (.mk found body, behind) := by
  rw [arm_of_pattern_some hfound, bind_of_some (only_of_eq harrow rest), bind_of_some hcall]
  rfl

/-- A place where neither a term nor an arm nor a declaration matches, and whose first token behind
separators ends nothing. -/
theorem stuck_of_none (hterm : term tokens = none) (harm : arm tokens = none)
    (hskip : tokens.dropWhile Token.isSeparator = token :: rest)
    (hdecl : decl (token :: rest) = none) (hcomma : token.lexeme ≠ .comma)
    (hclosing : token.lexeme ≠ .closing .paren) (hin : token.lexeme ≠ .inWord) :
    Stuck tokens := by
  have hfirst : ∀ lexeme, token.lexeme ≠ lexeme → lexeme ≠ .semicolon →
      only lexeme tokens = none := by
    intro lexeme hne hsemicolon
    cases tokens with
    | nil => rfl
    | cons head tail =>
      by_cases hhead : head.lexeme = .semicolon
      · exact only_of_ne (by rw [hhead]; exact hsemicolon.symm) tail
      · rw [dropWhile_of_ne hhead] at hskip
        cases hskip
        exact only_of_ne hne rest
  refine ⟨hterm, harm, hfirst _ hcomma (by simp), hfirst _ hclosing (by simp), ?_, ?_, ?_⟩
  · rw [hskip]
    simp
  · rw [hskip]
    exact only_of_ne hin rest
  · rw [hskip]
    exact hdecl

theorem decl_of_name_none (h : token.name? = none) : decl (token :: rest) = none :=
  bind_of_none (one_of_none (by simp [h]) rest)

/-- A token that names nothing and ends nothing, where no term matches. -/
theorem stuck_of_head (hterm : term (token :: rest) = none) (hname : token.name? = none)
    (hsemicolon : token.lexeme ≠ .semicolon) (hcomma : token.lexeme ≠ .comma)
    (hclosing : token.lexeme ≠ .closing .paren) (hin : token.lexeme ≠ .inWord) :
    Stuck (token :: rest) := by
  have hskip : (token :: rest).dropWhile Token.isSeparator = token :: rest :=
    dropWhile_of_ne hsemicolon
  refine stuck_of_none hterm (arm_of_pattern_none ?_) hskip (decl_of_name_none hname) hcomma
    hclosing hin
  rw [hskip]
  exact pattern_of_term_none hterm

/-- What a name is in a pattern. -/
theorem plain_or_constructor {word : String} (h : token.name? = some word) :
    (∃ found, plainPattern? token = some found) ∨
      ∃ name, constructorName? token = some name := by
  unfold Token.name? at h
  cases hlexeme : token.lexeme with
  | identifier text =>
    simp only [hlexeme] at h
    cases hkeyword : isKeyword text with
    | true => simp [hkeyword] at h
    | false =>
      cases hc : Grammar.isConstructorName text with
      | true =>
        exact .inr ⟨⟨text, token.location⟩, by
          simp [constructorName?, Token.name?, hlexeme, hkeyword, hc]⟩
      | false =>
        exact .inl ⟨.variable ⟨text, token.location⟩, by
          simp [plainPattern?, hlexeme, hkeyword, hc]⟩
  | _ => simp [hlexeme] at h

/-- A declaration does not match where a pattern leads to a place that neither begins a pattern nor
assigns. -/
theorem decl_of_pattern {found : Option Pattern}
    (hfound : optional pattern tokens = some (found, rest)) (hstop : pattern rest = none)
    (hassign : only .assign rest = none) : decl tokens = none := by
  cases tokens with
  | nil => rfl
  | cons token behind =>
    cases hname : token.name? with
    | none => exact decl_of_name_none hname
    | some word =>
      have hmany : ∃ arguments, many pattern behind = some (arguments, rest) := by
        rcases plain_or_constructor hname with ⟨plain, hplain⟩ | ⟨name, hc⟩
        · rw [optional_of_some (pattern_of_plain hplain)] at hfound
          cases hfound
          exact ⟨[], many_of_none hstop⟩
        · obtain ⟨arguments, left, hmany⟩ := exists_many pattern behind
          rw [optional_of_some (pattern_of_constructor hc hmany)] at hfound
          cases hfound
          exact ⟨arguments, hmany⟩
      obtain ⟨arguments, hmany⟩ := hmany
      have hone : name (token :: behind) = some (⟨word, token.location⟩, behind) :=
        one_of_some (by simp [hname]) behind
      rw [decl, bind_of_some hone, bind_of_some hmany]
      exact bind_of_none hassign

/-- What a pattern begins with ends nothing. -/
theorem ne_of_pattern {found : Pattern} (h : pattern (token :: rest) = some (found, tokens)) :
    token.lexeme ≠ .comma ∧ token.lexeme ≠ .closing .paren ∧ token.lexeme ≠ .inWord := by
  have hkeyword : isKeyword "in" = true := by decide
  refine ⟨fun hlexeme => ?_, fun hlexeme => ?_, fun hlexeme => ?_⟩ <;>
  · rw [pattern_of_other (by simp [plainPattern?, hlexeme, Lexeme.inWord, hkeyword])
      (by simp [constructorName?, Token.name?, hlexeme, Lexeme.inWord, hkeyword])
      (by simp [hlexeme, Lexeme.inWord])] at h
    cases h

/-- An arm whose pattern was given up. -/
theorem stuck_of_patternStuck {found : Option Pattern} (hterm : term tokens = none)
    (hfound : optional pattern (tokens.dropWhile Token.isSeparator) = some (found, rest))
    (hrest : PatternStuck rest) : Stuck tokens := by
  have hdecl := decl_of_pattern hfound hrest.pattern (hrest.only _ (by simp [Lexeme.assign]))
  cases hpattern : pattern (tokens.dropWhile Token.isSeparator) with
  | none =>
    rw [optional_of_none hpattern] at hfound
    cases hfound
    obtain ⟨⟨token, behind, hskip, hopening⟩, -⟩ := hrest
    rw [hskip] at hdecl
    exact stuck_of_none hterm (arm_of_pattern_none hpattern) hskip hdecl (by simp [hopening])
      (by simp [hopening]) (by simp [hopening, Lexeme.inWord])
  | some result =>
    obtain ⟨value, behind⟩ := result
    rw [optional_of_some hpattern] at hfound
    cases hfound
    have harm : arm tokens = none := by
      rw [arm_of_pattern_some hpattern]
      exact bind_of_none (hrest.only _ (by simp [Lexeme.arrow]))
    obtain ⟨token, behind, hskip, -⟩ := pattern_cases hpattern
    rw [hskip] at hdecl hpattern
    obtain ⟨hcomma, hclosing, hin⟩ := ne_of_pattern hpattern
    exact stuck_of_none hterm harm hskip hdecl hcomma hclosing hin

/-- The head of an arm is not the head of a declaration. -/
theorem decl_of_arrow {found : Pattern} (hfound : pattern tokens = some (found, token :: rest))
    (harrow : token.lexeme = .arrow) : decl tokens = none := by
  have hstop : pattern (token :: rest) = none :=
    pattern_of_other (by simp [plainPattern?, harrow, Lexeme.arrow])
      (by simp [constructorName?, Token.name?, harrow, Lexeme.arrow])
      (by simp [harrow, Lexeme.arrow])
  have hassign : only .assign (token :: rest) = none :=
    only_of_ne (by simp [harrow, Lexeme.arrow, Lexeme.assign]) rest
  exact decl_of_pattern (optional_of_some hfound) hstop hassign

/-- An arm whose body was given up. -/
theorem stuck_of_call_none {found : Pattern} (hterm : term tokens = none)
    (hfound : pattern (tokens.dropWhile Token.isSeparator) = some (found, token :: rest))
    (harrow : token.lexeme = .arrow) (hcall : call rest = none) : Stuck tokens := by
  have hdecl := decl_of_arrow hfound harrow
  have harm : arm tokens = none := by
    rw [arm_of_pattern_some hfound, bind_of_some (only_of_eq harrow rest)]
    exact bind_of_none hcall
  obtain ⟨head, behind, hskip, -⟩ := pattern_cases hfound
  rw [hskip] at hdecl hfound
  obtain ⟨hcomma, hclosing, hin⟩ := ne_of_pattern hfound
  exact stuck_of_none hterm harm hskip hdecl hcomma hclosing hin

/-- Behind the arrow of an arm that does not match there is no call. -/
theorem call_of_arm_none {found : Pattern} (harm : arm tokens = none)
    (hfound : pattern (tokens.dropWhile Token.isSeparator) = some (found, token :: rest))
    (harrow : token.lexeme = .arrow) : call rest = none := by
  cases hcall : call rest with
  | none => rfl
  | some result =>
    rw [arm_of_call_some hfound harrow hcall] at harm
    cases harm

/-! ## Arms that are given up -/

section Arms

variable {arms : List Arm} (hterm : term tokens = none)
  (harms : many arm tokens = some (arms, rest))

include hterm harms

/-- Where the pattern of an arm is given up, the arms end in a place where nothing fits. -/
theorem stuck_of_arms_pattern
    (hdead : ∀ found behind, optional pattern (tokens.dropWhile Token.isSeparator) =
      some (found, behind) → PatternStuck behind) : Stuck rest := by
  obtain ⟨found, behind, hfound⟩ := exists_optional pattern (tokens.dropWhile Token.isSeparator)
  have hstuck := stuck_of_patternStuck hterm hfound (hdead _ _ hfound)
  rw [many_of_none hstuck.arm] at harms
  cases harms
  exact hstuck

/-- Where the body of an arm is given up, the arms end in a place where nothing fits. -/
theorem stuck_of_arms_call {found : Pattern} {behind : List Token}
    (hfound : pattern (tokens.dropWhile Token.isSeparator) = some (found, token :: behind))
    (harrow : token.lexeme = .arrow)
    (hdead : ∀ body left, call behind = some (body, left) → Stuck left) : Stuck rest := by
  cases hcall : call behind with
  | none =>
    have hstuck := stuck_of_call_none hterm hfound harrow hcall
    rw [many_of_none hstuck.arm] at harms
    cases harms
    exact hstuck
  | some result =>
    obtain ⟨body, left⟩ := result
    have hstuck := hdead _ _ hcall
    have harm := arm_of_call_some hfound harrow hcall
    rw [many_of_some shrinks_arm harm, many_of_none hstuck.arm] at harms
    cases harms
    exact hstuck

end Arms

/-! ## Where calls and arms end -/

theorem call_stops {found : Expr} (h : call tokens = some (found, rest)) : term rest = none := by
  obtain ⟨_, _, -, h⟩ := bind_eq_some.mp h
  obtain ⟨_, _, -, h⟩ := bind_eq_some.mp h
  obtain ⟨_, _, hmany, h⟩ := bind_eq_some.mp h
  cases h
  exact many_stops shrinks_term hmany

theorem arm_stops {found : Arm} (h : arm tokens = some (found, rest)) : term rest = none := by
  obtain ⟨_, _, -, h⟩ := bind_eq_some.mp h
  obtain ⟨_, _, -, h⟩ := bind_eq_some.mp h
  obtain ⟨_, _, -, h⟩ := bind_eq_some.mp h
  obtain ⟨_, _, hcall, h⟩ := bind_eq_some.mp h
  cases h
  exact call_stops hcall

end FrontEnd.Greedy
