import FrontEnd.Proofs.Grammar.Stuck

/-!
# Matches in front of more tokens

What matches a list of tokens matches it also where a separator and a further file follow, or a
closing parenthesis, and it leaves the same tokens before these. Where it does not, it stopped at a
place where nothing fits, so that no file could have been read on from there.

* `Item.Persists` — an item matches the same where more tokens follow.
* `Greedy.persists_pattern`, `Greedy.persists_term` — the items that nest in each other.
* `Greedy.file_joined` — the declarations of two files with a separator between them.
-/

set_option autoImplicit false

namespace FrontEnd

/-! ## Items in front of more tokens -/

namespace Item

variable {α β : Type}

/-- What an item matches in some tokens it also matches where `tail` follows them, or it stops at a
stuck place. -/
def Persists (stuck : List Token → Prop) (tail : List Token) (item : Item α)
    (tokens : List Token) : Prop :=
  ∀ value rest, item tokens = some (value, rest) →
    stuck rest ∨ item (tokens ++ tail) = some (value, rest ++ tail)

variable {stuck stuck' : List Token → Prop} {tail tokens rest : List Token} {item : Item α}

theorem Persists.of_pure (value : α) : Persists stuck tail (pure value) tokens := by
  intro found rest h
  cases h
  exact .inr rfl

theorem Persists.of_one (make : Token → Option α) : Persists stuck tail (one make) tokens := by
  intro value rest h
  obtain ⟨token, rfl, hmake⟩ := one_eq_some h
  exact .inr (one_of_some hmake _)

/-- What an item is followed by persists, if behind a stuck place only stuck places are reached. -/
theorem Persists.bind {next : α → Item β} (h : Persists stuck tail item tokens)
    (hnext : ∀ value rest, item tokens = some (value, rest) →
      Persists stuck' tail (next value) rest)
    (hstuck : ∀ value rest, item tokens = some (value, rest) → stuck rest →
      ∀ value' rest', next value rest = some (value', rest') → stuck' rest') :
    Persists stuck' tail (item >>= next) tokens := by
  intro value' rest' hbind
  obtain ⟨value, rest, hitem, hvalue⟩ := bind_eq_some.mp hbind
  rcases h value rest hitem with hdead | hlonger
  · exact .inl (hstuck value rest hitem hdead value' rest' hvalue)
  · rw [bind_of_some hlonger]
    exact hnext value rest hitem value' rest' hvalue

/-- What begins with a single token goes on behind it. -/
theorem Persists.one_bind {make : Token → Option α} {next : α → Item β}
    (hnext : ∀ token value rest, tokens = token :: rest → make token = some value →
      Persists stuck tail (next value) rest) :
    Persists stuck tail (one make >>= next) tokens := by
  have hmake : Persists (fun _ => False) tail (one make) tokens := .of_one make
  refine hmake.bind (fun value rest hone => ?_) fun _ _ _ hfalse => hfalse.elim
  obtain ⟨token, heq, hmake⟩ := one_eq_some hone
  exact hnext token value rest heq hmake

section Optional

theorem Persists.of_found {value : α} (h : item tokens = some (value, rest))
    (hpersists : Persists stuck tail item tokens) : Persists stuck tail (optional item) tokens := by
  intro found rest' hfound
  rw [optional_of_some h] at hfound
  cases hfound
  exact (hpersists value rest h).imp id optional_of_some

theorem Persists.of_missing (h : item tokens = none)
    (hlonger : stuck tokens ∨ item (tokens ++ tail) = none) :
    Persists stuck tail (optional item) tokens := by
  intro found rest hfound
  rw [optional_of_none h] at hfound
  cases hfound
  exact hlonger.imp id optional_of_none

theorem Persists.found (h : Persists stuck tail (optional item) tokens) :
    Persists stuck tail item tokens := by
  intro value rest hitem
  refine (h _ _ (optional_of_some hitem)).imp id fun hlonger => ?_
  rcases optional_cases hlonger with ⟨hnone, -⟩ | ⟨found, heq, hfound⟩
  · cases hnone
  · cases heq
    exact hfound

theorem Persists.missing (h : Persists stuck tail (optional item) tokens)
    (hitem : item tokens = none) : stuck tokens ∨ item (tokens ++ tail) = none := by
  refine (h _ _ (optional_of_none hitem)).imp id fun hlonger => ?_
  rcases optional_cases hlonger with ⟨-, -, hnone⟩ | ⟨found, heq, -⟩
  · exact hnone
  · cases heq

end Optional

/-- A repetition persists, if its item does so wherever the repetition can get. -/
theorem Persists.many (inside : List Token → Prop) (hshrinks : Shrinks item)
    (hstuck : ∀ tokens, stuck tokens → item tokens = none)
    (hstays : ∀ tokens value rest, item tokens = some (value, rest) → inside rest)
    {bound : Nat} (h : ∀ tokens : List Token, tokens.length ≤ bound → inside tokens →
      Persists stuck tail (optional item) tokens)
    (hlength : tokens.length ≤ bound) (hinside : inside tokens) :
    Persists stuck tail (many item) tokens := by
  induction hn : tokens.length using Nat.strongRecOn generalizing tokens with
  | ind n ih =>
    intro values rest hmany
    have hitem := h tokens hlength hinside
    rcases many_cases hshrinks hmany with
      ⟨rfl, rfl, hnone⟩ | ⟨value, behind, others, rfl, hsome, hothers⟩
    · exact (hitem.missing hnone).imp id many_of_none
    · have hlt := hshrinks _ _ _ hsome
      rcases hitem.found value behind hsome with hdead | hlonger
      · rw [many_of_none (hstuck _ hdead)] at hothers
        cases hothers
        exact .inl hdead
      · have hbehind := ih behind.length (by omega) (by omega) (hstays _ _ _ hsome) rfl
        refine (hbehind others rest hothers).imp id fun hrest => ?_
        rw [many_of_some hshrinks hlonger, hrest]
        rfl

end Item

namespace Greedy

open Item

/-- Tokens that end whatever stands before them: a separator with no arm behind it, or a closing
parenthesis. -/
structure Ends (tail : List Token) : Prop where
  first : ∃ token rest, tail = token :: rest ∧
    (token.lexeme = .semicolon ∨ token.lexeme = .closing .paren)
  arm : arm tail = none

variable {stuck stuck' : List Token → Prop} {tail tokens rest : List Token} {token : Token}

/-! ## Single tokens and separators -/

section Ends

variable (hends : Ends tail)

include hends

theorem Ends.only_of_ne {lexeme : Lexeme} (hsemicolon : lexeme ≠ .semicolon)
    (hclosing : lexeme ≠ .closing .paren) : only lexeme tail = none := by
  obtain ⟨token, behind, rfl, hlexeme | hlexeme⟩ := hends.first
  · exact Item.only_of_ne (by rw [hlexeme]; exact hsemicolon.symm) behind
  · exact Item.only_of_ne (by rw [hlexeme]; exact hclosing.symm) behind

theorem Ends.term : term tail = none := by
  obtain ⟨token, behind, rfl, hlexeme | hlexeme⟩ := hends.first
  · exact term_of_separator hlexeme
  · exact term_of_closing hlexeme

end Ends

theorem only_joined {lexeme : Lexeme} (h : only lexeme tokens = none)
    (htail : tokens = [] → only lexeme tail = none) : only lexeme (tokens ++ tail) = none := by
  cases tokens with
  | nil => exact htail rfl
  | cons token rest =>
    refine only_of_ne (fun heq => ?_) _
    rw [only_of_eq heq] at h
    cases h

theorem dropWhile_joined (h : tokens.dropWhile Token.isSeparator ≠ []) :
    (tokens ++ tail).dropWhile Token.isSeparator =
      tokens.dropWhile Token.isSeparator ++ tail := by
  rw [List.dropWhile_append, if_neg]
  simpa using h

theorem dropWhile_joined_nil (h : tokens.dropWhile Token.isSeparator = []) :
    (tokens ++ tail).dropWhile Token.isSeparator = tail.dropWhile Token.isSeparator := by
  rw [List.dropWhile_append, if_pos]
  simp [h]

/-- What is behind separators persists, if it does not match at the end. -/
theorem persists_skip {β : Type} {next : Item β} (hnil : next [] = none)
    (h : Persists stuck tail next (tokens.dropWhile Token.isSeparator)) :
    Persists stuck tail (separators >>= fun _ => next) tokens := by
  intro value rest hfound
  rw [bind_of_some (separators_eq tokens)] at hfound
  have hne : tokens.dropWhile Token.isSeparator ≠ [] := by
    intro heq
    rw [heq, hnil] at hfound
    cases hfound
  rw [bind_of_some (separators_eq _), dropWhile_joined hne]
  exact h value rest hfound

/-! ## Lists between commas -/

section Lists

variable {α : Type} {item : Item α}
  (hclosing : ∀ token rest, token.lexeme = .closing .paren → item (token :: rest) = none)

include hclosing

/-- At the end of a list no item matches, or nothing closes the list. -/
theorem unclosed_or_none (tokens tail : List Token) :
    only (.closing .paren) tokens = none ∨ item (tokens ++ tail) = none := by
  cases h : only (.closing .paren) tokens with
  | none => exact .inl rfl
  | some result =>
    obtain ⟨rfl, hlexeme⟩ := only_eq_some h
    exact .inr (hclosing _ _ hlexeme)

variable (hends : Ends tail) (hshrinks : Shrinks item)
  (hcomma : ∀ tokens, stuck tokens → only .comma tokens = none)
  (hunclosed : ∀ tokens, stuck tokens → only (.closing .paren) tokens = none)

include hends hshrinks hcomma hunclosed

theorem persists_listedTail {bound : Nat}
    (h : ∀ tokens : List Token, tokens.length < bound → Persists stuck tail item tokens)
    (hlength : tokens.length ≤ bound) :
    Persists (fun rest => only (.closing .paren) rest = none) tail (listedTail item) tokens := by
  induction hn : tokens.length using Nat.strongRecOn generalizing tokens with
  | ind n ih =>
    intro found rest hfound
    rcases listedTail_cases hshrinks hfound with
      ⟨hnone, rfl, rfl⟩ | ⟨comma, behind, rfl, hlexeme, hbehind⟩
    · exact .inr (listedTail_of_none
        (only_joined hnone fun _ => hends.only_of_ne (by simp) (by simp)))
    · rw [List.length_cons] at hlength hn
      rcases hbehind with ⟨-, rfl, rfl⟩ | ⟨value, left, others, hitem, hothers, rfl⟩
      · exact (unclosed_or_none hclosing rest tail).imp id
          (listedTail_of_comma_none hlexeme)
      · have hlt := hshrinks _ _ _ hitem
        rcases h behind (by omega) value left hitem with hdead | hlonger
        · rw [listedTail_of_none (hcomma _ hdead)] at hothers
          cases hothers
          exact .inl (hunclosed _ hdead)
        · refine (ih left.length (by omega) (by omega) rfl others rest hothers).imp id
            fun hrest => ?_
          rw [List.cons_append, listedTail_of_comma_some hshrinks hlexeme hlonger, hrest]
          rfl

theorem persists_listed {bound : Nat}
    (h : ∀ tokens : List Token, tokens.length < bound → Persists stuck tail item tokens)
    (hlength : tokens.length < bound) :
    Persists (fun rest => only (.closing .paren) rest = none) tail (listed item) tokens := by
  refine (h tokens hlength).bind (fun first behind hitem => ?_) fun first behind _ hdead => ?_
  · have hlt := hshrinks _ _ _ hitem
    refine (persists_listedTail hclosing hends hshrinks hcomma hunclosed h (by omega)).bind
      (fun _ _ _ => .of_pure _) fun _ _ _ hclosed _ _ hpure => ?_
    cases hpure
    exact hclosed
  · rw [bind_of_some (listedTail_of_none (hcomma _ hdead))]
    intro _ _ hpure
    cases hpure
    exact hunclosed _ hdead

theorem persists_members {bound : Nat}
    (h : ∀ tokens : List Token, tokens.length < bound → Persists stuck tail item tokens)
    (hlength : tokens.length < bound) :
    Persists (fun rest => only (.closing .paren) rest = none) tail (members item) tokens := by
  intro found rest hfound
  cases hitem : item tokens with
  | none =>
    rw [members_of_none hitem] at hfound
    cases hfound
    exact (unclosed_or_none hclosing tokens tail).imp id members_of_none
  | some result =>
    obtain ⟨first, mid⟩ := result
    obtain ⟨others, left, htail⟩ := exists_listedTail item mid
    rw [members_of_some hitem htail] at hfound
    cases hfound
    have hlisted := persists_listed hclosing hends hshrinks hcomma hunclosed h hlength
    refine (hlisted _ _ (listed_of_some hitem htail)).imp id fun hlonger => ?_
    exact map_of_some (optional_of_some hlonger)

end Lists

/-! ## Patterns -/

section Patterns

variable (hends : Ends tail)

include hends

theorem persists_patternGroup {bound : Nat}
    (h : ∀ tokens : List Token, tokens.length < bound →
      Persists PatternStuck tail (optional pattern) tokens)
    (hlength : (token :: rest).length ≤ bound) :
    Persists stuck tail (patternGroup pattern) (token :: rest) := by
  refine .one_bind fun _ opening _ heq _ => ?_
  cases heq
  have hmembers := persists_members (fun _ _ => pattern_of_closing) hends shrinks_pattern
    (fun _ hstuck => hstuck.only _ (by simp)) (fun _ hstuck => hstuck.only _ (by simp))
    (fun tokens hlt => (h tokens hlt).found) (Nat.lt_of_succ_le hlength)
  refine hmembers.bind (fun found behind _ => ?_) fun found behind _ hopen => ?_
  · exact .one_bind fun _ _ _ _ _ => .of_pure _
  · rw [bind_of_none hopen]
    intro _ _ hnone
    cases hnone

theorem persists_pattern (tokens : List Token) :
    Persists PatternStuck tail (optional pattern) tokens := by
  induction hn : tokens.length using Nat.strongRecOn generalizing tokens with
  | ind n ih =>
    have ih : ∀ tokens : List Token, tokens.length < n →
        Persists PatternStuck tail (optional pattern) tokens :=
      fun tokens hlt => ih tokens.length hlt tokens rfl
    cases tokens with
    | nil =>
      exact .of_missing pattern_nil (.inr (pattern_of_term_none hends.term))
    | cons token rest =>
      rw [List.length_cons] at hn
      cases hplain : plainPattern? token with
      | some plain =>
        refine .of_found (pattern_of_plain hplain) fun value left hfound => .inr ?_
        rw [pattern_of_plain hplain] at hfound
        cases hfound
        exact pattern_of_plain hplain
      | none =>
        cases hname : constructorName? token with
        | some name =>
          obtain ⟨arguments, behind, hmany⟩ := exists_many pattern rest
          refine .of_found (pattern_of_constructor hname hmany) fun value left hfound => ?_
          rw [pattern_of_constructor hname hmany] at hfound
          cases hfound
          have harguments := Persists.many (fun _ => True) shrinks_pattern
            (fun _ hstuck => hstuck.pattern) (fun _ _ _ _ => trivial)
            (fun tokens hle _ => ih tokens (by omega)) (Nat.le_refl rest.length) trivial
          exact (harguments _ _ hmany).imp id (pattern_of_constructor hname)
        | none =>
          by_cases hopening : token.lexeme = .opening .paren
          · cases hpattern : pattern (token :: rest) with
            | none => exact .of_missing hpattern (.inl ⟨⟨token, rest, rfl, hopening⟩, hpattern⟩)
            | some result =>
              refine .of_found hpattern fun value left hfound => ?_
              rw [pattern_of_opening hopening] at hfound
              rw [List.cons_append, pattern_of_opening hopening]
              exact persists_patternGroup hends ih (by rw [List.length_cons]; omega) _ _ hfound
          · exact .of_missing (pattern_of_other hplain hname hopening)
              (.inr (pattern_of_other hplain hname hopening))

end Patterns

/-! ## Terms -/

/-- What begins with a word or a parenthesis that nothing else begins with. -/
theorem persists_begun {item : Item Expr} (hpersists : Persists Stuck tail item (token :: rest))
    (heq : ∀ rest, term (token :: rest) = item (token :: rest)) (hname : token.name? = none)
    (hsemicolon : token.lexeme ≠ .semicolon) (hcomma : token.lexeme ≠ .comma)
    (hclosing : token.lexeme ≠ .closing .paren) (hin : token.lexeme ≠ .inWord) :
    Persists Stuck tail (optional term) (token :: rest) := by
  cases hterm : term (token :: rest) with
  | none =>
    exact .of_missing hterm (.inl (stuck_of_head hterm hname hsemicolon hcomma hclosing hin))
  | some result =>
    refine .of_found hterm fun value left hfound => ?_
    rw [heq] at hfound
    rw [List.cons_append, heq]
    exact hpersists value left hfound

/-- An arm that does not match does not match in front of the tail either, or nothing fits here. -/
theorem arm_joined (hends : Ends tail) (hterm : term tokens = none)
    (harm : arm tokens = none) : Stuck tokens ∨ arm (tokens ++ tail) = none := by
  by_cases hnil : tokens.dropWhile Token.isSeparator = []
  · -- Only separators are left before the tail, behind which there is no arm either.
    have harms : arm (tokens ++ tail) = arm tail := by
      unfold arm armWith
      rw [bind_of_some (separators_eq _), bind_of_some (separators_eq _),
        dropWhile_joined_nil hnil]
    exact .inr (harms.trans hends.arm)
  · have hskip : (tokens ++ tail).dropWhile Token.isSeparator = _ := dropWhile_joined hnil
    have hpattern := persists_pattern hends (tokens.dropWhile Token.isSeparator)
    cases hfound : pattern (tokens.dropWhile Token.isSeparator) with
    | none =>
      rcases hpattern.missing hfound with hstuck | hlonger
      · exact .inl (stuck_of_patternStuck hterm (optional_of_none hfound) hstuck)
      · exact .inr (arm_of_pattern_none (by rw [hskip]; exact hlonger))
    | some result =>
      obtain ⟨value, behind⟩ := result
      rcases hpattern.found _ _ hfound with hstuck | hlonger
      · exact .inl (stuck_of_patternStuck hterm (optional_of_some hfound) hstuck)
      · rw [← hskip] at hlonger
        rw [arm_of_pattern_some hlonger]
        cases harrow : only .arrow behind with
        | none =>
          exact .inr (bind_of_none (only_joined harrow fun _ =>
            hends.only_of_ne (by simp [Lexeme.arrow]) (by simp [Lexeme.arrow])))
        | some result =>
          obtain ⟨arrow, left⟩ := result
          obtain ⟨rfl, hlexeme⟩ := only_eq_some harrow
          have hcall := call_of_arm_none harm hfound hlexeme
          exact .inl (stuck_of_call_none hterm hfound hlexeme hcall)

section Terms

variable (hends : Ends tail) {bound : Nat}
  (h : ∀ tokens : List Token, tokens.length < bound → Persists Stuck tail (optional term) tokens)

include h

theorem persists_call (hlength : tokens.length < bound) : Persists Stuck tail call tokens := by
  refine persists_skip rfl ?_
  have hle : (tokens.dropWhile Token.isSeparator).length ≤ tokens.length :=
    (List.dropWhile_suffix _).length_le
  refine (h _ (by omega)).found.bind (fun function behind hterm => ?_)
    fun function behind _ hstuck => ?_
  · have hlt := shrinks_term _ _ _ hterm
    have harguments := Persists.many (fun _ => True) shrinks_term
      (fun _ hstuck => hstuck.term) (fun _ _ _ _ => trivial)
      (fun tokens hle _ => h tokens (by omega)) (Nat.le_refl behind.length) trivial
    refine harguments.bind (fun _ _ _ => .of_pure _) fun _ _ _ hstuck _ _ hpure => ?_
    cases hpure
    exact hstuck
  · rw [bind_of_some (many_of_none hstuck.term)]
    intro _ _ hpure
    cases hpure
    exact hstuck

theorem persists_binding (hlength : (token :: rest).length ≤ bound) :
    Persists Stuck tail (binding term) (token :: rest) := by
  rw [List.length_cons] at hlength
  refine .one_bind fun _ word _ heq _ => ?_
  cases heq
  refine .one_bind fun _ name _ heq _ => .one_bind fun _ assign rest' heq' _ => ?_
  subst heq
  subst heq'
  simp only [List.length_cons] at hlength
  refine (persists_call h (by omega)).bind (fun value behind hcall => ?_)
    fun value behind _ hstuck => ?_
  · have hlt := shrinks_call _ _ _ hcall
    refine persists_skip rfl (.one_bind fun _ inWord left heq _ => ?_)
    have hle : (behind.dropWhile Token.isSeparator).length ≤ behind.length :=
      (List.dropWhile_suffix _).length_le
    rw [heq, List.length_cons] at hle
    refine (persists_call h (by omega)).bind (fun _ _ _ => .of_pure _)
      fun _ _ _ hstuck _ _ hpure => ?_
    cases hpure
    exact hstuck
  · rw [bind_of_some (separators_eq _), bind_of_none hstuck.inWord]
    intro _ _ hnone
    cases hnone

include hends

theorem persists_group (hlength : (token :: rest).length ≤ bound) :
    Persists stuck tail (unit <|> group term) (token :: rest) := by
  rw [List.length_cons] at hlength
  intro value left hfound
  refine .inr ?_
  cases hunit : unit (token :: rest) with
  | some result =>
    rw [orElse_of_some hunit] at hfound
    cases hfound
    have hpersists : Persists (fun _ => False) tail unit (token :: rest) :=
      .one_bind fun _ _ _ _ _ => .one_bind fun _ _ _ _ _ => .of_pure _
    exact orElse_of_some ((hpersists _ _ hunit).resolve_left id)
  | none =>
    rw [orElse_of_none hunit] at hfound
    have hpersists : Persists (fun _ => False) tail (group term) (token :: rest) := by
      refine .one_bind fun _ opening _ heq _ => ?_
      cases heq
      have hlisted := persists_listed (fun _ _ => call_of_closing) hends shrinks_call
        (fun _ hstuck => hstuck.comma) (fun _ hstuck => hstuck.closing)
        (fun tokens hlt => persists_call h hlt) (Nat.lt_of_succ_le hlength)
      refine hlisted.bind (fun found behind _ => ?_) fun found behind _ hopen => ?_
      · exact .one_bind fun _ _ _ _ _ => .of_pure _
      · rw [bind_of_none hopen]
        intro _ _ hnone
        cases hnone
    -- The empty tuple does not match a group that is not empty, whatever follows.
    have hunit' : unit (token :: rest ++ tail) = none := by
      cases hopening : only (.opening .paren) (token :: rest) with
      | none =>
        rw [group, bind_of_none hopening] at hfound
        cases hfound
      | some result =>
        obtain ⟨opening, inside⟩ := result
        obtain ⟨heq, hlexeme⟩ := only_eq_some hopening
        obtain ⟨rfl, rfl⟩ := List.cons.inj heq
        rw [unit, bind_of_some hopening] at hunit
        rw [unit, List.cons_append, bind_of_some (only_of_eq hlexeme _)]
        have hne : rest ≠ [] := by
          rintro rfl
          rw [group, bind_of_some hopening] at hfound
          cases hfound
        cases hclosing : only (.closing .paren) rest with
        | none => exact bind_of_none (only_joined hclosing fun hnil => absurd hnil hne)
        | some result =>
          rw [bind_of_some hclosing] at hunit
          cases hunit
    exact (orElse_of_none hunit').trans ((hpersists _ _ hfound).resolve_left id)

/-- An arm, from where no further term of what is before it begins. -/
theorem persists_arm (hlength : tokens.length < bound) (hterm : term tokens = none) :
    Persists Stuck tail (optional arm) tokens := by
  have hle : (tokens.dropWhile Token.isSeparator).length ≤ tokens.length :=
    (List.dropWhile_suffix _).length_le
  cases harm : arm tokens with
  | none => exact .of_missing harm (arm_joined hends hterm harm)
  | some result =>
    have hpattern := persists_pattern hends (tokens.dropWhile Token.isSeparator)
    refine .of_found harm (persists_skip rfl (hpattern.found.bind (fun found behind hfound => ?_)
      fun found behind _ hstuck => ?_))
    · have hlt := shrinks_pattern _ _ _ hfound
      refine .one_bind fun _ arrow left heq _ => ?_
      rw [heq, List.length_cons] at hlt
      refine (persists_call h (by omega)).bind (fun _ _ _ => .of_pure _)
        fun _ _ _ hstuck _ _ hpure => ?_
      cases hpure
      exact hstuck
    · rw [bind_of_none (hstuck.only _ (by simp [Lexeme.arrow]))]
      intro _ _ hnone
      cases hnone

theorem persists_matching (hlength : (token :: rest).length ≤ bound) :
    Persists Stuck tail (matching term) (token :: rest) := by
  rw [List.length_cons] at hlength
  refine .one_bind fun _ word _ heq _ => ?_
  cases heq
  refine (persists_call h (by omega)).bind (fun subject tokens hsubject => ?_)
    fun subject tokens _ hstuck => ?_
  · have hlt := shrinks_call _ _ _ hsubject
    refine (persists_arm hends h (by omega) (call_stops hsubject)).found.bind
      (fun first behind hfirst => ?_) fun first behind _ hstuck => ?_
    · have hlt' := shrinks_arm _ _ _ hfirst
      have hothers := Persists.many (fun tokens => term tokens = none) shrinks_arm
        (fun _ hstuck => hstuck.arm) (fun _ _ _ => arm_stops)
        (fun tokens hle hterm => persists_arm hends h (by omega) hterm)
        (Nat.le_refl behind.length) (arm_stops hfirst)
      refine hothers.bind (fun _ _ _ => .of_pure _) fun _ _ _ hstuck _ _ hpure => ?_
      cases hpure
      exact hstuck
    · have hmany : many (armWith term) behind = some ([], behind) := many_of_none hstuck.arm
      rw [bind_of_some hmany]
      intro _ _ hpure
      cases hpure
      exact hstuck
  · have harm : armWith term tokens = none := hstuck.arm
    rw [bind_of_none harm]
    intro _ _ hnone
    cases hnone

end Terms

theorem persists_term (hends : Ends tail) (tokens : List Token) :
    Persists Stuck tail (optional term) tokens := by
  induction hn : tokens.length using Nat.strongRecOn generalizing tokens with
  | ind n ih =>
    have ih : ∀ tokens : List Token, tokens.length < n →
        Persists Stuck tail (optional term) tokens :=
      fun tokens hlt => ih tokens.length hlt tokens rfl
    cases tokens with
    | nil =>
      exact .of_missing term_nil (.inr hends.term)
    | cons token rest =>
      have hlength : (token :: rest).length ≤ n := Nat.le_of_eq hn
      have hkeyword : ∀ word, token.lexeme = .identifier word → isKeyword word = true →
          token.name? = none := by
        intro word hlexeme hkeyword
        simp [Token.name?, hlexeme, hkeyword]
      cases hatom : atom? token with
      | some atom =>
        refine .of_found (term_of_atom hatom) fun value left hfound => .inr ?_
        rw [term_of_atom hatom] at hfound
        cases hfound
        exact term_of_atom hatom
      | none =>
        by_cases hopening : token.lexeme = .opening .paren
        · exact persists_begun (persists_group hends ih hlength)
            (fun _ => term_of_opening hopening) (by simp [Token.name?, hopening])
            (by simp [hopening]) (by simp [hopening]) (by simp [hopening])
            (by simp [hopening, Lexeme.inWord])
        by_cases hlet : token.lexeme = .identifier "let"
        · exact persists_begun (persists_binding ih hlength) (fun _ => term_of_let hlet)
            (hkeyword _ hlet (by decide)) (by simp [hlet]) (by simp [hlet]) (by simp [hlet])
            (by simp [hlet, Lexeme.inWord])
        by_cases hmatch : token.lexeme = .identifier "match"
        · exact persists_begun (persists_matching hends ih hlength) (fun _ => term_of_match hmatch)
            (hkeyword _ hmatch (by decide)) (by simp [hmatch]) (by simp [hmatch])
            (by simp [hmatch]) (by simp [hmatch, Lexeme.inWord])
        exact .of_missing (term_of_other hatom hopening hlet hmatch)
          (.inr (term_of_other hatom hopening hlet hmatch))

/-! ## Declarations -/

theorem persists_decl (hends : Ends tail) (tokens : List Token) :
    Persists Stuck tail decl tokens := by
  refine .one_bind fun _ name rest _ _ => ?_
  have hpatterns := Persists.many (fun _ => True) shrinks_pattern
    (fun _ hstuck => hstuck.pattern) (fun _ _ _ _ => trivial)
    (fun tokens _ _ => persists_pattern hends tokens) (Nat.le_refl rest.length) trivial
  refine hpatterns.bind (fun patterns behind _ => ?_) fun patterns behind _ hstuck => ?_
  · refine .one_bind fun _ assign left _ _ => ?_
    have hcall := persists_call (fun tokens _ => persists_term hends tokens)
      left.length.lt_succ_self
    refine hcall.bind (fun _ _ _ => .of_pure _) fun _ _ _ hstuck _ _ hpure => ?_
    cases hpure
    exact hstuck
  · rw [bind_of_none (hstuck.only _ (by simp [Lexeme.assign]))]
    intro _ _ hnone
    cases hnone

/-! ## Files -/

/-- A file that is read begins with no arm. -/
theorem arm_of_file {found : List Decl} (h : file tokens = some found) : arm tokens = none := by
  have hdecls := file_eq_some.mp h
  cases hpattern : pattern (tokens.dropWhile Token.isSeparator) with
  | none => exact arm_of_pattern_none hpattern
  | some result =>
    obtain ⟨value, rest⟩ := result
    rw [arm_of_pattern_some hpattern]
    cases harrow : only .arrow rest with
    | none => exact bind_of_none harrow
    | some result =>
      obtain ⟨arrow, behind⟩ := result
      obtain ⟨rfl, hlexeme⟩ := only_eq_some harrow
      have hdecl := decl_of_arrow hpattern hlexeme
      rw [decls, many_of_none (bind_of_none hdecl)] at hdecls
      have hnil : tokens.dropWhile Token.isSeparator = [] :=
        congrArg Prod.snd (Option.some.inj hdecls)
      rw [hnil] at hpattern
      cases hpattern

/-- **The declarations of two files with a separator between them** are those of the first and then
those of the second. -/
theorem file_joined {separator : Token} {first second : List Token} {found found' : List Decl}
    (hseparator : separator.lexeme = .semicolon) (h : file first = some found)
    (h' : file second = some found') :
    file (first ++ separator :: second) = some (found ++ found') := by
  have hskip : (separator :: second).dropWhile Token.isSeparator =
      second.dropWhile Token.isSeparator := by
    simp [Token.isSeparator, hseparator]
  have hends : Ends (separator :: second) := by
    refine ⟨⟨separator, second, rfl, .inl hseparator⟩, ?_⟩
    have harm := arm_of_file h'
    unfold arm armWith at harm ⊢
    rw [bind_of_some (separators_eq _)] at harm ⊢
    rw [hskip]
    exact harm
  rw [file_eq_some] at h h' ⊢
  induction hn : first.length using Nat.strongRecOn generalizing first found with
  | ind n ih =>
    by_cases hnil : first.dropWhile Token.isSeparator = []
    · rw [hnil] at h
      cases h
      rw [dropWhile_joined_nil hnil, hskip, h']
      rfl
    · rw [dropWhile_joined hnil]
      have hle : (first.dropWhile Token.isSeparator).length ≤ first.length :=
        (List.dropWhile_suffix _).length_le
      rcases many_cases shrinks_declAndSeparators h with
        ⟨-, heq, -⟩ | ⟨value, behind, others, rfl, hitem, hothers⟩
      · exact absurd heq.symm hnil
      · obtain ⟨found, rest, hdecl, hrest⟩ := bind_eq_some.mp hitem
        rw [bind_of_some (separators_eq rest)] at hrest
        cases hrest
        have hlt := shrinks_decl _ _ _ hdecl
        rcases persists_decl hends _ _ _ hdecl with hstuck | hlonger
        · -- The second declaration cannot begin where the first one left nothing that fits.
          rw [many_of_none (bind_of_none hstuck.decl)] at hothers
          exact absurd (congrArg Prod.snd (Option.some.inj hothers)) hstuck.remains
        · have hrest := ih rest.length (by omega) hothers rfl
          rw [decls, many_of_some shrinks_declAndSeparators (declAndSeparators_of_some hlonger)]
          rw [decls] at hrest
          rw [hrest]
          rfl

end Greedy

end FrontEnd
