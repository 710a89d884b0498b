import FrontEnd.Proofs.Lexer.Laid

/-!
# Sources in another layout

The texts of the tokens of a source can be written down again with other gaps between them. As long
as they are kept apart, and newlines stay where they mean the same, the lexemes are the same.

* `Placing`, `Layout` — how tokens are written down again.
* `Token.Rereads` — a token whose text can be read again.
* `tokenize_respaced` — the lexemes of a source in another layout.
-/

set_option autoImplicit false

namespace FrontEnd

/-! ## Layouts -/

/-- A token, how it is spelled in another layout, and the gap that follows it there. -/
structure Placing where
  token : Token
  spelling : List Char
  gap : List Char

/-- The characters of a token in another layout. -/
def Placing.text (placing : Placing) : List Char :=
  placing.spelling ++ placing.gap

/-- A token is spelled by its text. Outside brackets a separator is a newline or a semicolon. -/
def Placing.Spells (stack : List (Location × Bracket)) (placing : Placing) : Prop :=
  placing.spelling = placing.token.text.toList ∨
    (stack = [] ∧ placing.token.lexeme = .semicolon ∧
      (placing.spelling = [';'] ∨ placing.spelling = ['\n']))

/-- Tokens in another layout, the first of which stands inside some open brackets. Between two
tokens there is a gap that is not empty, and a gap has newlines only if a bracket is open behind the
token in front of it. -/
def Layout : List (Location × Bracket) → List Placing → Prop
  | _, [] => True
  | stack, placing :: placings =>
      placing.Spells stack ∧
      ∀ inner, View.track stack placing.token.location placing.token.lexeme = .ok inner →
        IsGap inner placing.gap ∧ (placings ≠ [] → placing.gap ≠ []) ∧ Layout inner placings

/-! ## Tokens that can be read again -/

/-- A token whose text is read as its lexeme, whatever delimits it. -/
def Token.Rereads (token : Token) : Prop :=
  ∀ behind, Scan.Delimits behind → Scan.Reads token.text.toList token.lexeme behind

theorem View.rereads_remaining (file : String) (bound : Nat) (view : View) :
    ∀ token ∈ (view.remaining file bound).1, token.Rereads := by
  induction bound generalizing view with
  | zero => exact fun _ h => by cases h
  | succ bound ih =>
    rcases advance_cases file view with
      ⟨fault, next, hadvance⟩ | ⟨next, hadvance, hend⟩ | ⟨token, next, hadvance, hready, hne, -⟩
    · rw [remaining_of_error _ hadvance]
      intro _ h
      cases h
    · rw [remaining_of_ended _ hadvance hend]
      intro _ h
      cases h
    · rw [remaining_of_ready _ hadvance hready]
      intro found hfound
      rcases List.mem_cons.mp hfound with rfl | hfound
      · rcases advance_eq_ok hne hadvance with
          ⟨-, hend, -⟩ | ⟨c, rest, lexeme, stack, -, hscan, -, -, rfl⟩
        · rw [hend] at hready
          cases hready
        · cases hready
          intro behind hbehind
          have hreads := Scan.reads_of_found hscan hbehind
          rwa [← String.toList_ofList (l := (Scan.token c rest).taken)] at hreads
      · exact ih next found hfound

/-! ## Texts in another layout -/

/-- Gaps delimit what is in front of them. -/
theorem delimits_of_gap {stack : List (Location × Bracket)} {gap behind : List Char}
    (hgap : IsGap stack gap) (hbehind : gap = [] → behind = []) :
    Scan.Delimits (gap ++ behind) := by
  cases gap with
  | nil =>
    rw [hbehind rfl]
    exact Scan.delimits_nil
  | cons c gap =>
    have hblank : Text.isBlank c = true := (hgap c List.mem_cons_self).1
    exact Scan.delimits_cons (Scan.isDelimiter_of_isBlank hblank).1 _

/-- A placed token is read in front of what delimits it. -/
theorem Placing.Spells.reads {stack : List (Location × Bracket)} {placing : Placing}
    (h : placing.Spells stack) (hrereads : placing.token.Rereads) {behind : List Char}
    (hbehind : Scan.Delimits behind) :
    Scan.Reads placing.spelling placing.token.lexeme behind := by
  rcases h with htext | ⟨-, hlexeme, hspelling | hspelling⟩
  · rw [htext]
    exact hrereads behind hbehind
  · rw [hlexeme, hspelling]
    exact Scan.reads_punctuation rfl behind
  · rw [hlexeme, hspelling]
    exact Scan.reads_punctuation rfl behind

/-- **Tokens in another layout lay out their lexemes**, if their pieces tile a text. -/
theorem Layout.laid {file : String} {cursor : Cursor} {stack after : List (Location × Bracket)}
    {pieces : List Piece} (h : Tiles file cursor stack pieces after) {placings : List Placing}
    (htokens : pieces.map Piece.token = placings.map Placing.token)
    (hrereads : ∀ piece ∈ pieces, piece.token.Rereads) (hlayout : Layout stack placings)
    {gap : List Char} (hgap : IsGap stack gap) :
    Laid stack (placings.map (·.token.lexeme)) (gap ++ placings.flatMap Placing.text) := by
  induction h generalizing placings gap with
  | none cursor stack =>
    obtain rfl : placings = [] := List.map_eq_nil_iff.mp htokens.symm
    rw [List.flatMap_nil, List.append_nil]
    exact .none hgap
  | @piece cursor stack inner after piece pieces hfits htrack hmore ih =>
    cases placings with
    | nil => cases htokens
    | cons placing placings =>
      obtain ⟨htoken, hrest⟩ := List.cons.inj htokens
      obtain ⟨hspells, hfollows⟩ := hlayout
      rw [← htoken] at hfollows
      obtain ⟨hgap', hapart, hlayout'⟩ := hfollows inner htrack
      have hlaid := ih hrest (fun piece hmem => hrereads piece (List.mem_cons_of_mem _ hmem))
        hlayout' hgap'
      have hdelimits : Scan.Delimits (placing.gap ++ placings.flatMap Placing.text) := by
        refine delimits_of_gap hgap' fun hnil => ?_
        by_cases hlast : placings = []
        · rw [hlast, List.flatMap_nil]
        · exact absurd hnil (hapart hlast)
      have hreads := hspells.reads (htoken ▸ hrereads piece List.mem_cons_self) hdelimits
      have hnewline : placing.spelling = ['\n'] → stack = [] := by
        intro hspelling
        rcases hspells with htext | ⟨hempty, -⟩
        · have htext' : placing.token.text = "\n" := by
            rw [← String.ofList_toList (s := placing.token.text), ← htext, hspelling]
          exact (hfits.separator (htoken ▸ htext')).1
        · exact hempty
      rw [htoken] at htrack
      rw [List.flatMap_cons, Placing.text, List.append_assoc, List.map_cons]
      exact .spelled hgap hreads hnewline htrack hlaid

/-- **A source in another layout has the same lexemes.** If a source can be split into tokens, so
can every source in which their texts are written down again, in order, with gaps between them that
are not empty, and blanks around them. Separators outside brackets may be written as newlines or as
semicolons. -/
theorem tokenize_respaced (file file' source : String) (placings : List Placing) (lead : List Char)
    (last : Lexer) (h : tokenize file source = (placings.map Placing.token, none, last))
    (hlead : IsGap [] lead) (hlayout : Layout [] placings) :
    ∃ tokens last', tokenize file' (String.ofList (lead ++ placings.flatMap Placing.text)) =
        (tokens, none, last') ∧
      tokens.map Token.lexeme = placings.map (·.token.lexeme) := by
  have htiled := tiled_tokenize file source
  rw [h] at htiled
  obtain ⟨pieces, gap, ⟨htokens, after, htiles, -⟩, -⟩ := htiled
  have hremaining := remaining_of_tokenize h (Nat.lt_succ_self _)
  have hrereads : ∀ piece ∈ pieces, piece.token.Rereads := by
    intro piece hmem
    have hall := View.rereads_remaining file (source.toList.length + 1)
      (Lexer.ofSource file source).view
    rw [hremaining, ← htokens] at hall
    exact hall piece.token (List.mem_map_of_mem hmem)
  exact tokenize_of_laid file' (Layout.laid htiles htokens hrereads hlayout hlead)

/-- A newline inside brackets, and a newline in the place of a semicolon. -/
theorem tokenize_respaced_of_group : ∃ placings last,
    tokenize "f.em" "(x);" = (placings.map Placing.token, none, last) ∧ IsGap [] [' '] ∧
    Layout [] placings ∧
    String.ofList ([' '] ++ placings.flatMap Placing.text) = " (\nx ) \n" ∧
    ∃ tokens last',
      tokenize "g.em" (String.ofList ([' '] ++ placings.flatMap Placing.text)) =
        (tokens, none, last') ∧
      tokens.map Token.lexeme = placings.map (·.token.lexeme) := by
  let placings : List Placing :=
    [⟨⟨⟨"f.em", 1, 0⟩, .opening .paren, "("⟩, ['('], ['\n']⟩,
      ⟨⟨⟨"f.em", 1, 1⟩, .identifier "x", "x"⟩, ['x'], [' ']⟩,
      ⟨⟨⟨"f.em", 1, 2⟩, .closing .paren, ")"⟩, [')'], [' ']⟩,
      ⟨⟨⟨"f.em", 1, 3⟩, .semicolon, ";"⟩, ['\n'], []⟩]
  have htokens : tokenize "f.em" "(x);" =
      (placings.map Placing.token, none, (tokenize "f.em" "(x);").2.2) := by
    decide +kernel
  have hlead : IsGap [] [' '] := by decide
  have hlayout : Layout [] placings := by
    refine ⟨.inl rfl, fun inner h => ?_⟩
    cases h
    refine ⟨by decide, by simp, .inl rfl, fun inner h => ?_⟩
    cases h
    refine ⟨by decide, by simp, .inl rfl, fun inner h => ?_⟩
    cases h
    refine ⟨by decide, by simp, .inr ⟨rfl, rfl, .inr rfl⟩, fun inner h => ?_⟩
    cases h
    exact ⟨by decide, by simp, trivial⟩
  exact ⟨placings, _, htokens, hlead, hlayout, by decide,
    tokenize_respaced _ _ _ placings _ _ htokens hlead hlayout⟩

end FrontEnd
