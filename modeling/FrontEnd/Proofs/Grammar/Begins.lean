import FrontEnd.Proofs.Grammar.Spelled
import FrontEnd.Proofs.Grammar.Stuck
import Mathlib.Data.List.Basic

/-!
# Where declarations begin

A call takes all the terms that it can get, and a name is a term. So a declaration begins with the
file or behind a separator, and nothing else can stand in front of its name.

* `Begun` — tokens among which declarations begin behind separators.
* `Greedy.begun_of_file` — the declarations of a file begin so.
-/

set_option autoImplicit false

namespace FrontEnd

/-- Tokens among which declarations begin, each with its name. What is in front of a name, behind
the name before, is nothing or ends in a separator. -/
inductive Begun : List Token → List Decl → Prop
  | none (tokens : List Token) : Begun tokens []
  | decl {front behind : List Token} {token : Token} {decl : Decl} {decls : List Decl} :
      (∀ last, front.getLast? = some last → last.lexeme = .semicolon) →
      token.name? = some decl.name.text → token.location = decl.location → Begun behind decls →
      Begun (front ++ token :: behind) (decl :: decls)

namespace Greedy

open Item

variable {tokens rest : List Token}

theorem isSeparator_of_mem {token : Token} (h : token ∈ tokens.takeWhile Token.isSeparator) :
    token.lexeme = .semicolon := by
  have hseparator : Token.isSeparator token = true := List.mem_takeWhile_imp h
  exact of_decide_eq_true hseparator

/-- A name is a term. -/
theorem term_of_name {token : Token} {word : String} (h : token.name? = some word) :
    term (token :: rest) ≠ none := by
  have hatom : atom? token = some (.symbol ⟨word, token.location⟩) := by
    unfold Token.name? at h
    split at h
    · rename_i name hlexeme
      split at h
      · cases h
      · rename_i hkeyword
        cases h
        simp [atom?, hlexeme, hkeyword]
    · cases h
  rw [term_of_atom hatom]
  exact Option.some_ne_none _

/-- A declaration takes its name first, and stops where no term begins. -/
theorem decl_cases (hwell : ∀ token ∈ tokens, token.lexeme.WellFormed) {found : Decl}
    (h : decl tokens = some (found, rest)) :
    ∃ token used, tokens = token :: (used ++ rest) ∧ token.name? = some found.name.text ∧
      token.location = found.location ∧ term rest = none := by
  obtain ⟨all, hall, -⟩ := spells_decl tokens found rest hwell h
  have hdecl := h
  obtain ⟨named, behind, hname, h⟩ := bind_eq_some.mp h
  obtain ⟨_, _, -, h⟩ := bind_eq_some.mp h
  obtain ⟨_, _, -, h⟩ := bind_eq_some.mp h
  obtain ⟨_, _, hcall, h⟩ := bind_eq_some.mp h
  cases h
  obtain ⟨token, rfl, hmake⟩ := one_eq_some hname
  obtain ⟨word, hword, rfl⟩ := Option.map_eq_some_iff.mp hmake
  cases all with
  | nil =>
    have hlt := shrinks_decl _ _ _ hdecl
    rw [hall, List.nil_append] at hlt
    exact absurd hlt (Nat.lt_irrefl _)
  | cons first used =>
    obtain ⟨rfl, hused⟩ := List.cons.inj hall
    exact ⟨token, used, congrArg (token :: ·) hused, hword, rfl, call_stops hcall⟩

/-- Declarations with separators behind them begin behind what ends in a separator. -/
theorem begun_of_decls (hwell : ∀ token ∈ tokens, token.lexeme.WellFormed) {found : List Decl}
    (h : decls tokens = some (found, rest)) {front : List Token}
    (hfront : term tokens ≠ none → ∀ last, front.getLast? = some last → last.lexeme = .semicolon) :
    Begun (front ++ tokens) found := by
  induction hlength : tokens.length using Nat.strongRecOn generalizing tokens found front with
  | ind length ih =>
    rcases many_cases shrinks_declAndSeparators h with
      ⟨rfl, -, -⟩ | ⟨first, left, others, rfl, hone, hmore⟩
    · exact .none _
    obtain ⟨decl, behind, hdecl, hgap⟩ := bind_eq_some.mp hone
    obtain ⟨_, _, hseparators, hpure⟩ := bind_eq_some.mp hgap
    cases hpure
    rw [separators_eq] at hseparators
    cases hseparators
    obtain ⟨token, used, rfl, hname, hplace, hstop⟩ := decl_cases hwell hdecl
    refine .decl (hfront (term_of_name hname)) hname hplace ?_
    have hsplit := List.takeWhile_append_dropWhile (p := Token.isSeparator) (l := behind)
    rw [← hsplit, ← List.append_assoc]
    have hlonger : (behind.dropWhile Token.isSeparator).length ≤ behind.length :=
      (List.dropWhile_sublist _).length_le
    have hwell' : ∀ token ∈ behind.dropWhile Token.isSeparator, token.lexeme.WellFormed := by
      intro other hother
      have hbehind := (List.dropWhile_sublist Token.isSeparator).subset hother
      exact hwell other (List.mem_cons_of_mem _ (List.mem_append_right used hbehind))
    refine ih _ ?_ hwell' hmore ?_ rfl
    · rw [← hlength, List.length_cons, List.length_append]
      omega
    · -- without a separator the name would be a term of the call before it
      intro hterm last hlast
      by_cases hnil : behind.takeWhile Token.isSeparator = []
      · rw [hnil, List.nil_append] at hsplit
        rw [hsplit] at hterm
        exact absurd hstop hterm
      · rw [List.getLast?_append_of_ne_nil _ hnil] at hlast
        exact isSeparator_of_mem (List.mem_of_mem_getLast? hlast)

/-- **The declarations of a file begin behind separators.** -/
theorem begun_of_file (hwell : ∀ token ∈ tokens, token.lexeme.WellFormed) {found : List Decl}
    (h : file tokens = some found) : Begun tokens found := by
  have hmatch : (separators *> decls) tokens = some (found, []) := by
    unfold file at h
    split at h
    · rename_i hmatch
      cases h
      exact hmatch
    · cases h
  have hsplit := List.takeWhile_append_dropWhile (p := Token.isSeparator) (l := tokens)
  obtain ⟨_, _, hseparators, hdecls⟩ := bind_eq_some.mp hmatch
  rw [separators_eq] at hseparators
  cases hseparators
  rw [← hsplit]
  refine begun_of_decls (fun token htoken => ?_) hdecls fun _ last hlast => ?_
  · exact hwell token ((List.dropWhile_sublist _).subset htoken)
  · exact isSeparator_of_mem (List.mem_of_mem_getLast? hlast)

end Greedy

end FrontEnd
