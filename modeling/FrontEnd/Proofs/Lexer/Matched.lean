import FrontEnd.Proofs.Lexer.View
import FrontEnd.Proofs.Tree.Yield
import Mathlib.Data.List.Induction

/-!
# Matched brackets

Which brackets of a row of lexemes match can be said without a stack: an opened bracket is closed by
a later one of its kind if the row between the two is well nested.

* `WellNested` — the rows in which every bracket is matched.
* `unmatched` — the opened brackets of some tokens that nothing behind them closes.
* `Bracket.nest` — the kinds of the open brackets behind a row, if no bracket of it is refused.
* `View.unmatched_of_trackAll` — the stack behind some tokens are their unmatched brackets.
* `exists_wellNested_append` — a row goes on to a well-nested one just where nothing is refused.
-/

set_option autoImplicit false

namespace FrontEnd

/-! ## Well-nested rows -/

/-- A row of lexemes in which every bracket is matched by one of its kind. -/
inductive WellNested : List Lexeme → Prop
  | nil : WellNested []
  | plain {lexeme : Lexeme} {behind : List Lexeme} :
      lexeme.isBracket = false → WellNested behind → WellNested (lexeme :: behind)
  | group {bracket : Bracket} {inside behind : List Lexeme} :
      WellNested inside → WellNested behind →
      WellNested (.opening bracket :: (inside ++ .closing bracket :: behind))

theorem WellNested.append {row behind : List Lexeme} (h : WellNested row)
    (hbehind : WellNested behind) : WellNested (row ++ behind) := by
  induction h with
  | nil => exact hbehind
  | plain hplain _ ih => exact .plain hplain ih
  | group hinside _ _ ih =>
    rw [List.cons_append, List.append_assoc, List.cons_append]
    exact .group hinside ih

/-- The bracket that was opened in front of a row is closed in it: what is between is well nested.
-/
def ClosedIn (bracket : Bracket) (row : List Lexeme) : Prop :=
  ∃ inside rest, row = inside ++ .closing bracket :: rest ∧ WellNested inside

/-! ## The kinds of open brackets -/

namespace Bracket

/-- The kinds of the open brackets, innermost first, behind one lexeme. A closing bracket that the
innermost one does not match is refused. -/
def nestOne (kinds : List Bracket) : Lexeme → Option (List Bracket)
  | .opening bracket => some (bracket :: kinds)
  | .closing bracket =>
      match kinds with
      | [] => none
      | top :: outer => if top = bracket then some outer else none
  | _ => some kinds

/-- The kinds of the open brackets behind a row. -/
def nest (kinds : List Bracket) (row : List Lexeme) : Option (List Bracket) :=
  row.foldlM nestOne kinds

theorem nest_cons (kinds : List Bracket) (lexeme : Lexeme) (row : List Lexeme) :
    nest kinds (lexeme :: row) = (nestOne kinds lexeme).bind fun kinds => nest kinds row :=
  List.foldlM_cons

theorem nest_append (kinds : List Bracket) (row behind : List Lexeme) :
    nest kinds (row ++ behind) = (nest kinds row).bind fun kinds => nest kinds behind :=
  List.foldlM_append

theorem nestOne_plain {lexeme : Lexeme} (h : lexeme.isBracket = false) (kinds : List Bracket) :
    nestOne kinds lexeme = some kinds := by
  cases lexeme <;> first | rfl | cases h

end Bracket

/-- A well-nested row leaves the brackets open that were open before. -/
theorem WellNested.nest {row : List Lexeme} (h : WellNested row) (kinds : List Bracket) :
    Bracket.nest kinds row = some kinds := by
  induction h generalizing kinds with
  | nil => rfl
  | plain hplain _ ih =>
    rw [Bracket.nest_cons, Bracket.nestOne_plain hplain]
    exact ih kinds
  | @group bracket inside behind _ _ ihinside ihbehind =>
    have hclose : Bracket.nestOne (bracket :: kinds) (.closing bracket) = some kinds := if_pos rfl
    rw [Bracket.nest_cons, Bracket.nestOne, Option.bind_some, Bracket.nest_append, ihinside,
      Option.bind_some, Bracket.nest_cons, hclose]
    exact ihbehind kinds

/-! ## Kinds and stacks -/

namespace View

variable {stack after : List (Location × Bracket)}

/-- The kinds of a stack behind one lexeme. -/
theorem kinds_track (stack : List (Location × Bracket)) (place : Location) (lexeme : Lexeme) :
    (track stack place lexeme).toOption.map (List.map Prod.snd) =
      Bracket.nestOne (stack.map Prod.snd) lexeme := by
  cases lexeme with
  | closing bracket =>
    cases stack with
    | nil => rfl
    | cons frame outer =>
      simp only [track, Brackets.popped, List.map_cons, Bracket.nestOne]
      split <;> rfl
  | _ => rfl

theorem trackAll_concat {tokens : List Token} {token : Token}
    (h : trackAll stack (tokens ++ [token]) = .ok after) :
    ∃ inner, trackAll stack tokens = .ok inner ∧
      track inner token.location token.lexeme = .ok after := by
  rw [trackAll_append] at h
  cases hinner : trackAll stack tokens with
  | error cause =>
    rw [hinner] at h
    cases h
  | ok inner =>
    rw [hinner] at h
    have hone : (track inner token.location token.lexeme >>= pure) = .ok after := h
    rw [bind_pure] at hone
    exact ⟨inner, rfl, hone⟩

/-- **Tokens can be tracked just where none of their brackets is refused**, and the kinds of the
brackets that are then open depend on the lexemes alone. -/
theorem kinds_trackAll (stack : List (Location × Bracket)) (tokens : List Token) :
    (trackAll stack tokens).toOption.map (List.map Prod.snd) =
      Bracket.nest (stack.map Prod.snd) (tokens.map Token.lexeme) := by
  induction tokens generalizing stack with
  | nil => rfl
  | cons token tokens ih =>
    have hone := kinds_track stack token.location token.lexeme
    rw [trackAll_cons, List.map_cons, Bracket.nest_cons, ← hone]
    cases track stack token.location token.lexeme with
    | error cause => rfl
    | ok inner => exact ih inner

theorem nest_of_trackAll {tokens : List Token} (h : trackAll stack tokens = .ok after) :
    Bracket.nest (stack.map Prod.snd) (tokens.map Token.lexeme) = some (after.map Prod.snd) := by
  rw [← kinds_trackAll, h]
  rfl

theorem trackAll_of_nest {tokens : List Token} {kinds : List Bracket}
    (h : Bracket.nest (stack.map Prod.snd) (tokens.map Token.lexeme) = some kinds) :
    ∃ after, trackAll stack tokens = .ok after ∧ after.map Prod.snd = kinds := by
  rw [← kinds_trackAll] at h
  cases htrack : trackAll stack tokens with
  | error cause =>
    rw [htrack] at h
    cases h
  | ok after =>
    rw [htrack] at h
    cases h
    exact ⟨after, rfl, rfl⟩

end View

/-- Tokens with matched brackets leave no bracket open. -/
theorem WellNested.trackAll {tokens : List Token} (h : WellNested (tokens.map Token.lexeme)) :
    View.trackAll [] tokens = .ok [] := by
  obtain ⟨after, htrack, hafter⟩ : ∃ after, View.trackAll [] tokens = .ok after ∧
      after.map Prod.snd = [] := View.trackAll_of_nest (h.nest [])
  rw [htrack, List.map_eq_nil_iff.mp hafter]

/-! ## Tokens that leave brackets open -/

/-- Some tokens leave some brackets open, outermost first: the tokens between any two of these are
well nested, and so are those in front of the first and behind the last. -/
inductive Leaves : List Token → List (Location × Bracket) → Prop
  | nothing {tokens : List Token} : WellNested (tokens.map Token.lexeme) → Leaves tokens []
  | bracket {front behind : List Token} {token : Token} {bracket : Bracket}
      {frames : List (Location × Bracket)} :
      WellNested (front.map Token.lexeme) → token.lexeme = .opening bracket →
      Leaves behind frames → Leaves (front ++ token :: behind) ((token.location, bracket) :: frames)

namespace Leaves

variable {tokens : List Token} {token : Token} {frames : List (Location × Bracket)}
  {bracket : Bracket}

theorem plain (h : Leaves tokens frames) (hplain : token.lexeme.isBracket = false) :
    Leaves (tokens ++ [token]) frames := by
  induction h with
  | nothing hnested =>
    refine .nothing ?_
    rw [List.map_append]
    exact hnested.append (.plain hplain .nil)
  | bracket hfront hopen _ ih =>
    rw [List.append_assoc, List.cons_append]
    exact .bracket hfront hopen ih

theorem opening (h : Leaves tokens frames) (hopen : token.lexeme = .opening bracket) :
    Leaves (tokens ++ [token]) (frames ++ [(token.location, bracket)]) := by
  induction h with
  | nothing hnested => exact .bracket hnested hopen (.nothing .nil)
  | bracket hfront hopen' _ ih =>
    rw [List.append_assoc, List.cons_append]
    exact .bracket hfront hopen' ih

/-- A bracket closes the last one that was left open, and what they enclose becomes well nested. -/
theorem closing {place : Location} (h : Leaves tokens (frames ++ [(place, bracket)]))
    (hclose : token.lexeme = .closing bracket) : Leaves (tokens ++ [token]) frames := by
  generalize hall : frames ++ [(place, bracket)] = all at h
  induction h generalizing frames with
  | nothing => simp at hall
  | @bracket front behind opener kind inner hfront hopen hbehind ih =>
    cases frames with
    | nil =>
      obtain ⟨hframe, hinner⟩ := List.cons.inj hall
      subst hinner
      obtain ⟨-, rfl⟩ := Prod.mk.inj hframe
      cases hbehind with
      | nothing hnested =>
        refine .nothing ?_
        simp only [List.map_append, List.map_cons, List.map_nil, hopen, hclose, List.append_assoc,
          List.cons_append]
        exact hfront.append (.group hnested .nil)
    | cons frame frames =>
      obtain ⟨rfl, hinner⟩ := List.cons.inj hall
      rw [List.append_assoc, List.cons_append]
      exact .bracket hfront hopen (ih hinner)

/-- A token that is tracked changes what is left open as it changes the stack. -/
theorem track {stack after : List (Location × Bracket)} (h : Leaves tokens stack.reverse)
    (htrack : View.track stack token.location token.lexeme = .ok after) :
    Leaves (tokens ++ [token]) after.reverse := by
  cases hlexeme : token.lexeme with
  | opening bracket =>
    rw [hlexeme] at htrack
    cases htrack
    rw [List.reverse_cons]
    exact h.opening hlexeme
  | closing bracket =>
    rw [hlexeme] at htrack
    cases stack with
    | nil => cases htrack
    | cons frame outer =>
      obtain ⟨place, top⟩ := frame
      simp only [View.track, Brackets.popped] at htrack
      split at htrack
      · rename_i htop
        cases htrack
        subst htop
        rw [List.reverse_cons] at h
        exact h.closing hlexeme
      · cases htrack
  | _ =>
    rw [hlexeme] at htrack
    cases htrack
    exact h.plain (by rw [hlexeme]; rfl)

/-- Closing what was left open makes the tokens well nested. -/
theorem exists_append (h : Leaves tokens frames) :
    WellNested (tokens.map Token.lexeme ++
      (frames.reverse.map fun frame => Lexeme.closing frame.2)) := by
  induction h with
  | nothing hnested => simpa using hnested
  | @bracket front behind token bracket frames hfront hopen _ ih =>
    have hgroup := hfront.append (@WellNested.group bracket _ _ ih .nil)
    simpa [hopen] using hgroup

end Leaves

/-- **Tokens that can be tracked leave the brackets of their stack open.** -/
theorem leaves_of_trackAll {tokens : List Token} {stack : List (Location × Bracket)}
    (h : View.trackAll [] tokens = .ok stack) : Leaves tokens stack.reverse := by
  -- The last token acts on the innermost bracket, so the tokens are taken from the back.
  induction tokens using List.reverseRecOn generalizing stack with
  | nil =>
    cases h
    exact .nothing .nil
  | append_singleton tokens token ih =>
    obtain ⟨inner, hinner, htrack⟩ := View.trackAll_concat h
    exact (ih hinner).track htrack

/-! ## Deciding what matches -/

theorem exists_wellNested_append_of_nest {row : List Lexeme} {kinds : List Bracket}
    (h : Bracket.nest [] row = some kinds) :
    WellNested (row ++ kinds.map Lexeme.closing) := by
  let tokens := row.map fun lexeme => (⟨default, lexeme, ""⟩ : Token)
  have hrow : tokens.map Token.lexeme = row := by
    simp only [tokens, List.map_map]
    exact List.map_id row
  rw [← hrow] at h
  obtain ⟨stack, htrack, hkinds⟩ : ∃ stack, View.trackAll [] tokens = .ok stack ∧
      stack.map Prod.snd = kinds := View.trackAll_of_nest h
  have hleaves := (leaves_of_trackAll htrack).exists_append
  rw [List.reverse_reverse, hrow] at hleaves
  rw [← hkinds, List.map_map]
  exact hleaves

theorem wellNested_iff {row : List Lexeme} : WellNested row ↔ Bracket.nest [] row = some [] := by
  constructor
  · intro h
    exact h.nest []
  · intro h
    have hnested := exists_wellNested_append_of_nest h
    rwa [List.map_nil, List.append_nil] at hnested

/-- **A row is the front of a well-nested one just where none of its brackets is refused.** -/
theorem exists_wellNested_append {row : List Lexeme} :
    (∃ rest, WellNested (row ++ rest)) ↔ (Bracket.nest [] row).isSome = true := by
  constructor
  · rintro ⟨rest, hnested⟩
    have hnest := hnested.nest []
    rw [Bracket.nest_append] at hnest
    cases hrow : Bracket.nest [] row with
    | none =>
      rw [hrow] at hnest
      cases hnest
    | some kinds => rfl
  · intro h
    obtain ⟨kinds, hkinds⟩ := Option.isSome_iff_exists.mp h
    exact ⟨_, exists_wellNested_append_of_nest hkinds⟩

instance (row : List Lexeme) : Decidable (WellNested row) :=
  decidable_of_iff _ wellNested_iff.symm

theorem closedIn_iff {bracket : Bracket} {row : List Lexeme} : ClosedIn bracket row ↔
    ∃ i, i < row.length ∧ row[i]? = some (.closing bracket) ∧ WellNested (row.take i) := by
  constructor
  · rintro ⟨inside, rest, rfl, hnested⟩
    refine ⟨inside.length, by simp, by simp, ?_⟩
    rwa [List.take_left]
  · rintro ⟨i, hi, hclose, hnested⟩
    refine ⟨row.take i, row.drop (i + 1), ?_, hnested⟩
    obtain ⟨_, hget⟩ := List.getElem?_eq_some_iff.mp hclose
    rw [← hget, ← List.drop_eq_getElem_cons, List.take_append_drop]

instance (bracket : Bracket) (row : List Lexeme) : Decidable (ClosedIn bracket row) :=
  decidable_of_iff _ closedIn_iff.symm

/-! ## Unmatched brackets -/

/-- The opened brackets of some tokens that no later token closes, in the order of the tokens. -/
def unmatched : List Token → List (Location × Bracket)
  | [] => []
  | token :: behind =>
      match token.lexeme with
      | .opening bracket =>
          if ClosedIn bracket (behind.map Token.lexeme) then unmatched behind
          else (token.location, bracket) :: unmatched behind
      | _ => unmatched behind

/-- Tokens that are well nested leave no bracket unmatched. -/
theorem unmatched_append {row : List Lexeme} (h : WellNested row) {front : List Token}
    (hfront : front.map Token.lexeme = row) (behind : List Token) :
    unmatched (front ++ behind) = unmatched behind := by
  induction h generalizing front behind with
  | nil =>
    rw [List.map_eq_nil_iff.mp hfront]
    rfl
  | plain hplain _ ih =>
    obtain ⟨token, front, rfl, hlexeme, hrest⟩ := List.map_eq_cons_iff.mp hfront
    rw [List.cons_append, unmatched]
    split
    · rename_i hopen
      rw [← hlexeme, hopen] at hplain
      cases hplain
    · exact ih hrest behind
  | @group bracket inside outside hinside _ ihinside ihoutside =>
    obtain ⟨opener, front, rfl, hopen, hrest⟩ := List.map_eq_cons_iff.mp hfront
    obtain ⟨first, second, rfl, hfirst, hsecond⟩ := List.map_eq_append_iff.mp hrest
    obtain ⟨closer, last, rfl, hclose, hlast⟩ := List.map_eq_cons_iff.mp hsecond
    have hclosed : ClosedIn bracket ((first ++ closer :: last ++ behind).map Token.lexeme) := by
      refine ⟨inside, (last ++ behind).map Token.lexeme, ?_, hinside⟩
      simp [hfirst, hclose]
    rw [List.cons_append, unmatched, hopen]
    simp only [hclosed, if_true]
    rw [List.append_assoc, ihinside hfirst, List.cons_append, unmatched, hclose]
    exact ihoutside hlast behind

/-- Tokens that leave brackets open close none of those that were open in front of them. -/
theorem Leaves.not_closedIn {tokens : List Token} {frames : List (Location × Bracket)}
    (h : Leaves tokens frames) (bracket : Bracket) :
    ¬ ClosedIn bracket (tokens.map Token.lexeme) := by
  rintro ⟨inside, rest, hrow, hinside⟩
  have hnested := h.exists_append
  have hnest := hnested.nest []
  rw [hrow, List.append_assoc, Bracket.nest_append, hinside.nest, Option.bind_some,
    List.cons_append, Bracket.nest_cons] at hnest
  cases hnest

theorem Leaves.unmatched_eq {tokens : List Token} {frames : List (Location × Bracket)}
    (h : Leaves tokens frames) : unmatched tokens = frames := by
  induction h with
  | @nothing tokens hnested =>
    have hall := unmatched_append hnested rfl []
    rwa [List.append_nil] at hall
  | @bracket front behind token bracket frames hfront hopen hbehind ih =>
    rw [unmatched_append hfront rfl, unmatched, hopen]
    simp only [hbehind.not_closedIn bracket, if_false, ih]

/-- **The stack behind some tokens are their unmatched brackets**, the last of them on top. -/
theorem View.unmatched_of_trackAll {tokens : List Token} {stack : List (Location × Bracket)}
    (h : View.trackAll [] tokens = .ok stack) : unmatched tokens = stack.reverse :=
  (leaves_of_trackAll h).unmatched_eq

end FrontEnd
