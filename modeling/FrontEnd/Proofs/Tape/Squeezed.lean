import FrontEnd.Proofs.Grammar.Agreement
import FrontEnd.Proofs.Rules.Showing
import Mathlib.Data.List.DropRight

/-!
# Squeezed tapes

Rules skip separators together, and of a token they see the lexeme and the location. So a tape is
read like the tape of its bare lexemes in which every run of separators is squeezed into one.

* `Lexeme.squeeze` — one separator in the place of every run of separators.
* `Lexeme.spaced` — the same, without separators in front.
* `Tape.Squeezes` — a tape and the squeezed tape of its lexemes.
* `Tape.squeezing` — tapes are like the squeezed tapes of their lexemes.
* `Grammar.same_spaced` — what is read from a tape depends on its spaced lexemes alone.
-/

set_option autoImplicit false

namespace FrontEnd

/-! ## Squeezing -/

namespace Lexeme

/-- Lexemes with one separator in the place of every run of separators. -/
def squeeze : List Lexeme → List Lexeme
  | [] => []
  | lexeme :: rest =>
      if lexeme = .semicolon ∧ rest.head? = some .semicolon then squeeze rest
      else lexeme :: squeeze rest

/-- Whether a lexeme separates. -/
def separates (lexeme : Lexeme) : Bool :=
  lexeme = .semicolon

/-- Lexemes with one separator in the place of every run of separators, and none in front. -/
def spaced (lexemes : List Lexeme) : List Lexeme :=
  squeeze (lexemes.dropWhile separates)

theorem squeeze_of_ne {lexeme : Lexeme} (h : lexeme ≠ .semicolon) (rest : List Lexeme) :
    squeeze (lexeme :: rest) = lexeme :: squeeze rest := by
  rw [squeeze, if_neg fun hboth => h hboth.1]

theorem head?_squeeze (lexemes : List Lexeme) : (squeeze lexemes).head? = lexemes.head? := by
  induction lexemes with
  | nil => rfl
  | cons lexeme rest ih =>
    rw [squeeze]
    split
    · rename_i hboth
      rw [ih, hboth.2, List.head?_cons, hboth.1]
    · rfl

theorem length_squeeze_le (lexemes : List Lexeme) :
    (squeeze lexemes).length ≤ lexemes.length := by
  induction lexemes with
  | nil => exact Nat.le_refl _
  | cons lexeme rest ih =>
    rw [squeeze]
    split
    · exact Nat.le_succ_of_le ih
    · exact Nat.succ_le_succ ih

/-- Without the separators in front, squeezed lexemes are what is squeezed without them. -/
theorem dropWhile_squeeze (lexemes : List Lexeme) :
    (squeeze lexemes).dropWhile separates = squeeze (lexemes.dropWhile separates) := by
  induction lexemes with
  | nil => rfl
  | cons lexeme rest ih =>
    by_cases h : lexeme = .semicolon
    · have hdrop : (lexeme :: rest).dropWhile separates = rest.dropWhile separates :=
        List.dropWhile_cons_of_pos (by simp [separates, h])
      rw [hdrop, ← ih, squeeze]
      split
      · rfl
      · exact List.dropWhile_cons_of_pos (by simp [separates, h])
    · have hstop : ¬ separates lexeme = true := by simp [separates, h]
      rw [squeeze_of_ne h, List.dropWhile_cons_of_neg hstop, List.dropWhile_cons_of_neg hstop,
        squeeze_of_ne h]

/-- Lexemes without separators are spaced. -/
theorem spaced_of_not_mem {lexemes : List Lexeme} (h : Lexeme.semicolon ∉ lexemes) :
    spaced lexemes = lexemes := by
  have hsqueeze : squeeze lexemes = lexemes := by
    induction lexemes with
    | nil => rfl
    | cons lexeme rest ih =>
      have hne : lexeme ≠ .semicolon := fun heq => h (heq ▸ List.mem_cons_self)
      rw [squeeze_of_ne hne, ih fun hmem => h (List.mem_cons_of_mem _ hmem)]
  have hfront : lexemes.dropWhile separates = lexemes := by
    rw [List.dropWhile_eq_self_iff]
    intro hpos hfirst
    exact h (of_decide_eq_true hfirst ▸ List.getElem_mem hpos)
  rw [spaced, hfront, hsqueeze]

end Lexeme

/-! ## Tapes of bare lexemes -/

/-- A lexeme as a token without a place. -/
def Token.bare (lexeme : Lexeme) : Token :=
  ⟨default, lexeme, ""⟩

namespace Tape

/-- A tape of lexemes without places. -/
def bare (lexemes : List Lexeme) : Tape :=
  .running default (lexemes.map Token.bare)

theorem location_bare (lexemes : List Lexeme) : (bare lexemes).location = default := by
  cases lexemes <;> rfl

/-- Faults with the same cause. -/
def SameCause (fault fault' : Fault) : Prop :=
  ∃ place place' cause, fault = .diagnostic ⟨place, cause, .error⟩ ∧
    fault' = .diagnostic ⟨place', cause, .error⟩

theorem skip_running (place : Location) (tokens : List Token) :
    (Rule.skipSemicolons : Rule Tape Unit) (.running place tokens) =
      .ok () (.running place (tokens.dropWhile Token.isSeparator)) :=
  Rule.skipSemicolons_running tokens

theorem lexemes_dropWhile (tokens : List Token) :
    (tokens.dropWhile Token.isSeparator).map Token.lexeme =
      (tokens.map Token.lexeme).dropWhile Lexeme.separates := by
  rw [List.dropWhile_map]
  rfl

theorem skip_bare (lexemes : List Lexeme) :
    (Rule.skipSemicolons : Rule Tape Unit) (bare lexemes) =
      .ok () (bare (lexemes.dropWhile Lexeme.separates)) := by
  rw [bare, skip_running, List.dropWhile_map]
  rfl

/-- A tape and the squeezed tape of its lexemes. -/
def Squeezes (tape seen : Tape) : Prop :=
  ∃ place tokens, tape = .running place tokens ∧
    seen = bare (Lexeme.squeeze (tokens.map Token.lexeme))

namespace Squeezes

variable {tape seen : Tape}

/-- The squeezed tape has the same lexeme in front. -/
theorem lookahead (h : Squeezes tape seen) :
    seen.lookahead = (Feed.lookahead tape).map fun token => .bare token.lexeme := by
  obtain ⟨place, tokens, rfl, rfl⟩ := h
  have hhead := Lexeme.head?_squeeze (tokens.map Token.lexeme)
  cases tokens with
  | nil => rfl
  | cons token rest =>
    generalize Lexeme.squeeze ((token :: rest).map Token.lexeme) = squeezed at hhead ⊢
    cases squeezed with
    | nil => cases hhead
    | cons lexeme lexemes =>
      cases hhead
      rfl

theorem location (h : Squeezes tape seen) : seen.location = default := by
  obtain ⟨place, tokens, rfl, rfl⟩ := h
  exact location_bare _

/-- The squeezed tape is no longer. -/
theorem size_le (h : Squeezes tape seen) : seen.size ≤ Feed.left tape := by
  obtain ⟨place, tokens, rfl, rfl⟩ := h
  have hlength := Lexeme.length_squeeze_le (tokens.map Token.lexeme)
  have hleft := (running place tokens).size_le_left
  rw [size_running] at hleft
  rw [List.length_map] at hlength
  rw [bare, size_running, List.length_map]
  omega

/-- A token that is no separator is read over on both tapes. -/
theorem advance (h : Squeezes tape seen)
    (hfront : ∀ token, Feed.lookahead tape = .ready token → token.lexeme ≠ .semicolon) :
    SameResult SameCause Squeezes (fun _ => default) (Feed.advance tape) seen.advance := by
  obtain ⟨place, tokens, rfl, rfl⟩ := h
  cases tokens with
  | nil => exact ⟨rfl, place, [], rfl, rfl⟩
  | cons token rest =>
    have hne : token.lexeme ≠ .semicolon := hfront token rfl
    have hseen : bare (Lexeme.squeeze ((token :: rest).map Token.lexeme)) =
        running default (Token.bare token.lexeme ::
          (Lexeme.squeeze (rest.map Token.lexeme)).map Token.bare) := by
      rw [List.map_cons, Lexeme.squeeze_of_ne hne, bare, List.map_cons]
    have hadvance : Feed.advance (running place (token :: rest)) =
        .ok (running place rest).location (running place rest) :=
      Rule.advance_running
    have hadvance' : (bare (Lexeme.squeeze ((token :: rest).map Token.lexeme))).advance =
        .ok default (bare (Lexeme.squeeze (rest.map Token.lexeme))) := by
      have hstep : Feed.advance (running default (Token.bare token.lexeme ::
          (Lexeme.squeeze (rest.map Token.lexeme)).map Token.bare)) =
            .ok (bare (Lexeme.squeeze (rest.map Token.lexeme))).location
              (bare (Lexeme.squeeze (rest.map Token.lexeme))) :=
        Rule.advance_running
      rw [location_bare] at hstep
      rw [hseen]
      exact hstep
    rw [hadvance, hadvance']
    exact ⟨rfl, place, rest, rfl, rfl⟩

/-- Separators are skipped on both tapes. -/
theorem skip (h : Squeezes tape seen) :
    SameResult SameCause Squeezes id (Rule.skipSemicolons tape) (Rule.skipSemicolons seen) := by
  obtain ⟨place, tokens, rfl, rfl⟩ := h
  rw [skip_running, skip_bare, Lexeme.dropWhile_squeeze, ← lexemes_dropWhile]
  exact ⟨rfl, place, tokens.dropWhile Token.isSeparator, rfl, rfl⟩

end Squeezes

theorem lasting_true : Feed.Lasting fun _ _ : Tape => True where
  refl _ := trivial
  trans _ _ := trivial
  advance _ := trivial
  note _ _ := trivial
  rewind _ := trivial

/-- Tapes are like the squeezed tapes of their lexemes. -/
def squeezing : Likeness Tape where
  move _ := default
  see token := .bare token.lexeme
  faults := SameCause
  shows := Squeezes
  follows _ _ := True
  lasting := lasting_true
  lexeme_see _ := rfl
  location_see _ := rfl
  fail _ := ⟨_, _, _, rfl, rfl⟩
  lookahead h := h.lookahead
  location h _ := h.location
  left h := h.size_le
  advance h := h.advance
  skip h := h.skip
  note _ h := h
  rewind h _ := h

end Tape

/-! ## Reading squeezed tapes -/

namespace Grammar

open Rule

/-- Reading a file begins with its first token. -/
theorem file_unstarted (budget : Nat) (start place : Location) (tokens : List Token) :
    file budget (⟨.unstarted start, tokens, .ok place⟩ : Tape) =
      declarations budget (.running place tokens) := by
  cases tokens <;> rfl

/-- Separators in front of a file are read over. -/
theorem declarations_dropWhile (budget : Nat) (place : Location) (tokens : List Token) :
    declarations budget (Tape.running place tokens) =
      declarations budget (.running place (tokens.dropWhile Token.isSeparator)) := by
  let behind := tokens.dropWhile Token.isSeparator
  have hbound : behind.length ≤ tokens.length := (List.dropWhile_suffix _).length_le
  have hagain : behind.dropWhile Token.isSeparator = behind := List.dropWhile_idempotent _ _
  have hdecls : (bounded fun left => declarationsUpTo budget (left + 1))
      (Tape.running place tokens) =
        (bounded fun left => declarationsUpTo budget (left + 1)) (Tape.running place behind) := by
    have hleft := (Tape.running place tokens).size_le_left
    have hleft' := (Tape.running place behind).size_le_left
    rw [Tape.size_running] at hleft hleft'
    have henough : declarationsUpTo budget (Feed.left (Tape.running place behind) + 1)
        (Tape.running place behind) =
          declarationsUpTo budget (Feed.left (Tape.running place tokens) + 1)
            (Tape.running place behind) := by
      refine declarationsUpTo_enough budget ?_ ?_
      · rw [Tape.size_running]
        omega
      · rw [Tape.size_running]
        omega
    show declarationsUpTo budget (Feed.left (Tape.running place tokens) + 1) _ =
      declarationsUpTo budget (Feed.left (Tape.running place behind) + 1) _
    rw [henough, declarationsUpTo, bind_of_ok (Tape.skip_running place tokens),
      bind_of_ok (Tape.skip_running place behind), hagain]
  cases hr : (bounded fun left => declarationsUpTo budget (left + 1))
      (Tape.running place behind) with
  | ok decls left =>
    rw [declarations, bind_of_ok (hdecls.trans hr), bind_of_ok hr]
  | error fault left =>
    rw [declarations, bind_of_error (hdecls.trans hr), bind_of_error hr]

/-- **What is read from a tape depends on its spaced lexemes alone**, but for locations: the
declarations, or why reading stops. -/
theorem same_spaced (budget : Nat) (start place : Location) (tokens : List Token) :
    SameResult Tape.SameCause (fun _ _ => True) (List.map (·.relocate fun _ => default))
      (file budget (⟨.unstarted start, tokens, .ok place⟩ : Tape))
      (declarations budget (Tape.bare (Lexeme.spaced (tokens.map Token.lexeme)))) := by
  let behind := tokens.dropWhile Token.isSeparator
  have hbare : Tape.bare (Lexeme.spaced (tokens.map Token.lexeme)) =
      Tape.bare (Lexeme.squeeze (behind.map Token.lexeme)) := by
    rw [Lexeme.spaced, ← Tape.lexemes_dropWhile]
  have hruns : Runs Tape.squeezing (List.map (·.relocate fun _ => default)) (.running place behind)
      (declarations budget) (declarations budget) :=
    runs_declarations budget
  rw [file_unstarted, declarations_dropWhile, hbare]
  exact (hruns _ _ trivial ⟨place, behind, rfl, rfl⟩).mono fun _ _ => trivial

end Grammar

end FrontEnd
