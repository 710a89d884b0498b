import FrontEnd.Proofs.Lexer.Unquoted

/-!
# The brackets of a source

* `tokenize_nested` — a lexer has those brackets open that no later token matched, it refuses the
  closing brackets that do not match the last of them, and a source without other faults can be
  split into tokens just if its brackets are the front of a well-nested row.
-/

set_option autoImplicit false

namespace FrontEnd

/-! ## Open brackets of lexers -/

/-- What the brackets of a lexer are behind some tokens, and, unless the lexer has stopped there,
what becomes of the next closing bracket. -/
structure Lexer.TracksBrackets (lexer : Lexer) (tokens : List Token) (fault : Option Fault) :
    Prop where
  /-- The open brackets are the unmatched ones of the tokens, the last one first. -/
  openFrames : (lexer.brackets.openFrames.map fun frame => (frame.location, frame.bracket)) =
    (unmatched tokens).reverse
  /-- The next token is refused just if it closes a bracket, but not the last unmatched one. -/
  misplaced : fault = none →
    ((∃ diagnostic after, lexer.advance = .error (.diagnostic diagnostic) after ∧
        diagnostic.code = "E102") ↔
      ∃ bracket rest, lexer.nextCursor.rest = bracket.closer :: rest ∧
        ∀ top ∈ (unmatched tokens).getLast?, top.2 ≠ bracket)
  /-- The report names the last unmatched bracket and its place. -/
  mismatched : fault = none → ∀ bracket rest place top,
    lexer.nextCursor.rest = bracket.closer :: rest →
    (unmatched tokens).getLast? = some (place, top) → top ≠ bracket →
    ∃ diagnostic after, lexer.advance = .error (.diagnostic diagnostic) after ∧
      diagnostic.code = "E102" ∧
      diagnostic.message = "mismatched '" ++ bracket.closer.toString ++ "': '" ++
        top.opener.toString ++ "' opened at " ++ place.text ++ " expects '" ++
        top.closer.toString ++ "'"

namespace Lexer

variable {lexer : Lexer} {bracket : Bracket} {rest : List Char}

/-- A lexer that stands in front of a closing bracket has not ended. -/
theorem going_of_closer (hsound : lexer.brackets.Sound)
    (hspent : lexer.lookahead = .ended → lexer.cursor.rest = [])
    (hrest : lexer.nextCursor.rest = bracket.closer :: rest) : lexer.lookahead ≠ .ended := by
  intro hended
  have hsplit := lexer.view.skipped_append
  rw [nextCursor_view hsound, hrest] at hsplit
  have hnil : lexer.view.cursor.rest = [] := hspent hended
  rw [hnil] at hsplit
  simp at hsplit

/-- A lexer reports a closing bracket for the reason for which the stack refuses it. -/
theorem advance_of_popped (hsound : lexer.brackets.Sound)
    (hspent : lexer.lookahead = .ended → lexer.cursor.rest = [])
    (hrest : lexer.nextCursor.rest = bracket.closer :: rest) {cause : Cause}
    (hpopped : Brackets.popped lexer.brackets.stack bracket = .error cause) :
    ∃ diagnostic after, lexer.advance = .error (.diagnostic diagnostic) after ∧
      diagnostic.cause = cause := by
  have hgoing : lexer.view.lookahead ≠ .ended := going_of_closer hsound hspent hrest
  rw [← nextCursor_view hsound] at hrest
  obtain ⟨next, hnext⟩ := View.advance_of_popped hgoing hrest hpopped
  have hview := advance_view hsound
  cases ha : lexer.advance with
  | ok place after =>
    rw [ha] at hview
    have hsame := hnext.symm.trans hview.1
    cases hsame
  | error fault after =>
    rw [ha] at hview
    have hsame := hnext.symm.trans hview.1
    obtain ⟨hfault, -⟩ := Prod.mk.inj hsame
    cases hfault
    exact ⟨_, after, rfl, rfl⟩

/-- A bracket that a lexer reports is refused by the stack. -/
theorem popped_of_advance (hsound : lexer.brackets.Sound) {diagnostic : Diagnostic} {after : Lexer}
    (h : lexer.advance = .error (.diagnostic diagnostic) after) (hcode : diagnostic.code = "E102") :
    ∃ bracket rest cause, lexer.nextCursor.rest = bracket.closer :: rest ∧
      Brackets.popped lexer.brackets.stack bracket = .error cause := by
  have hview := advance_view hsound
  rw [h] at hview
  obtain ⟨-, bracket, rest, cause, hrest, hpopped, -⟩ :=
    View.advance_misplaced hview.1 ⟨diagnostic, rfl, hcode⟩
  rw [nextCursor_view hsound] at hrest
  exact ⟨bracket, rest, cause, hrest, hpopped⟩

/-- What a run keeps of the brackets is all that a lexer does with the next one. -/
theorem Bracketed.tracksBrackets {root : Lexer} {tokens : List Token} {fault : Option Fault}
    (hroot : root.brackets.stack = []) (h : root.Bracketed tokens fault lexer) :
    lexer.TracksBrackets tokens fault := by
  have htrack := h.stack
  rw [hroot] at htrack
  have hunmatched := View.unmatched_of_trackAll htrack
  have htop : (unmatched tokens).getLast? = lexer.brackets.stack.head? := by
    rw [hunmatched, List.getLast?_reverse]
  refine ⟨?_, ?_, ?_⟩
  · rw [hunmatched, List.reverse_reverse]
    rfl
  · intro hnone
    rw [htop]
    constructor
    · rintro ⟨diagnostic, after, hadvance, hcode⟩
      obtain ⟨bracket, rest, cause, hrest, hpopped⟩ := popped_of_advance h.sound hadvance hcode
      exact ⟨bracket, rest, hrest, Brackets.popped_eq_error_iff.mp ⟨cause, hpopped⟩⟩
    · rintro ⟨bracket, rest, hrest, hkinds⟩
      obtain ⟨cause, hpopped⟩ := Brackets.popped_eq_error_iff.mpr hkinds
      obtain ⟨diagnostic, after, hadvance, hcause⟩ :=
        advance_of_popped h.sound (h.spent hnone) hrest hpopped
      refine ⟨diagnostic, after, hadvance, ?_⟩
      rw [Diagnostic.code, hcause]
      exact Brackets.code_of_popped hpopped
  · intro hnone bracket rest place top hrest hlast hne
    rw [htop] at hlast
    obtain ⟨outer, hstack⟩ := List.head?_eq_some_iff.mp hlast
    have hpopped : Brackets.popped lexer.brackets.stack bracket =
        .error (.mismatched bracket top place) := by
      rw [hstack]
      exact if_neg hne
    obtain ⟨diagnostic, after, hadvance, hcause⟩ :=
      advance_of_popped h.sound (h.spent hnone) hrest hpopped
    refine ⟨diagnostic, after, hadvance, ?_, ?_⟩
    · rw [Diagnostic.code, hcause]
      rfl
    · rw [Diagnostic.message, hcause]
      rfl

end Lexer

/-! ## Sources -/

/-- What reading some tokens of a source does with its brackets. -/
theorem Lexer.bracketed_ofSource (file source : String) (bound : Nat) :
    match (Lexer.ofSource file source).tokensUpTo bound with
    | (tokens, fault, last) => (Lexer.ofSource file source).Bracketed tokens fault last :=
  bracketed_tokensUpTo (.ofSource file source) Brackets.sound_none (going_ofSource file source)
    bound

theorem bracketed_tokenize (file source : String) :
    match tokenize file source with
    | (tokens, fault, last) => (Lexer.ofSource file source).Bracketed tokens fault last :=
  Lexer.bracketed_ofSource file source (Lexer.ofSource file source).left

/-- Lexemes that are no brackets have no part in what is nested. -/
theorem nest_bracketsOf (kinds : List Bracket) (tokens : List Token) :
    Bracket.nest kinds (bracketsOf tokens) =
      Bracket.nest kinds (tokens.map Token.lexeme) := by
  induction tokens generalizing kinds with
  | nil => rfl
  | cons token tokens ih =>
    rw [bracketsOf, List.map_cons, List.filter_cons]
    split
    · rw [Bracket.nest_cons, Bracket.nest_cons]
      congr 1
      funext inner
      exact ih inner
    · rename_i hplain
      rw [Bracket.nest_cons, Bracket.nestOne_plain (by simpa using hplain)]
      exact ih kinds

/-- **A lexer keeps track of brackets as a stack does**, at every point of a run up to the end of
the source or the first fault. A source without other faults can be split into tokens if and only if
its brackets outside quotes are the front of a well-nested row. -/
theorem tokenize_nested (file source : String) :
    (∀ bound, match (Lexer.ofSource file source).tokensUpTo bound with
      | (tokens, fault, lexer) => lexer.TracksBrackets tokens fault) ∧
    ((∀ fault, (tokenize file source).2.1 = some fault → fault.IsMisplaced) →
      ((tokenize file source).2.1 = none ↔
        ∃ rest, WellNested (unquotedBrackets false source.toList ++ rest))) := by
  constructor
  · intro bound
    exact (Lexer.bracketed_ofSource file source bound).tracksBrackets rfl
  · have hrun := bracketed_tokenize file source
    have htiled := tiled_tokenize file source
    generalize tokenize file source = result at hrun htiled ⊢
    obtain ⟨tokens, fault, last⟩ := result
    intro hothers
    rw [exists_wellNested_append]
    have hnest : Bracket.nest [] (bracketsOf tokens) =
        some (last.brackets.stack.map Prod.snd) := by
      rw [nest_bracketsOf]
      exact View.nest_of_trackAll hrun.stack
    cases fault with
    | none =>
      obtain ⟨pieces, gap, -, hall, hlast⟩ := htiled
      have hnil : last.cursor.rest = [] := by
        rw [hlast, Cursor.rest_move, hall]
        exact List.drop_length
      have hread : unquotedBrackets false source.toList = bracketsOf tokens := by
        have hread : unquotedBrackets false source.toList = _ := hrun.read rfl
        rwa [hnil, unquotedBrackets, List.append_nil] at hread
      rw [hread, hnest]
      simp
    | some fault =>
      obtain ⟨bracket, behind, hread, hrefused⟩ :=
        hrun.refused fault rfl (hothers fault rfl)
      have hread : unquotedBrackets false source.toList =
          bracketsOf tokens ++ .closing bracket :: behind := hread
      rw [hread, Bracket.nest_append, hnest, Option.bind_some, Bracket.nest_cons, hrefused]
      simp

/-- In `(a "]" [b` the bracket in quotes does not count, and the two others can still be closed. A
brace behind them closes neither, and nothing that follows makes up for it. -/
theorem tokenize_nested_of_brace :
    ((∀ fault, (tokenize "m" "(a \"]\" [b").2.1 = some fault → fault.IsMisplaced) ∧
      (tokenize "m" "(a \"]\" [b").2.1 = none ∧
      ∃ rest, WellNested (unquotedBrackets false "(a \"]\" [b".toList ++ rest)) ∧
    (∀ fault, (tokenize "m" "(a \"]\" [b \x7d").2.1 = some fault → fault.IsMisplaced) ∧
      (tokenize "m" "(a \"]\" [b \x7d").2.1 ≠ none ∧
      ¬∃ rest, WellNested (unquotedBrackets false "(a \"]\" [b \x7d".toList ++ rest) := by
  have hnone : (tokenize "m" "(a \"]\" [b").2.1 = none := by decide +kernel
  have hfault : (tokenize "m" "(a \"]\" [b \x7d").2.1 = some (.diagnostic
      ⟨⟨"m", 1, 10⟩, .mismatched .curly .square ⟨"m", 1, 7⟩, .error⟩) := by
    decide +kernel
  have hnothing : ∀ fault, (tokenize "m" "(a \"]\" [b").2.1 = some fault →
      fault.IsMisplaced := by
    intro fault h
    rw [hnone] at h
    cases h
  have hothers : ∀ fault, (tokenize "m" "(a \"]\" [b \x7d").2.1 = some fault →
      fault.IsMisplaced := by
    intro fault h
    rw [hfault] at h
    cases h
    exact ⟨_, rfl, rfl⟩
  have hrefused : (tokenize "m" "(a \"]\" [b \x7d").2.1 ≠ none := by
    rw [hfault]
    exact nofun
  have hfront := (tokenize_nested "m" "(a \"]\" [b").2 hnothing
  have hbrace := (tokenize_nested "m" "(a \"]\" [b \x7d").2 hothers
  exact ⟨⟨hnothing, hnone, hfront.mp hnone⟩, hothers, hrefused, mt hbrace.mpr hrefused⟩

end FrontEnd
