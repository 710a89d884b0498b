import FrontEnd.Proofs.Lexer.Delimited
import FrontEnd.Proofs.Lexer.Matched
import FrontEnd.Proofs.Lexer.Tiles

/-!
# Brackets outside quotes

Which brackets a text has can be read off its characters: a bracket counts unless a quote is open in
front of it. The tokens of the text have the same brackets, so the text alone decides whether one of
them is refused.

* `unquotedBrackets` — the brackets of a text outside quotes.
* `Scan.brackets_of_found` — what a scan takes has the brackets of what it finds.
* `Lexer.bracketed_tokensUpTo` — what a run of a lexer does with the brackets of its text.
-/

set_option autoImplicit false

namespace FrontEnd

/-! ## Brackets of texts -/

/-- The lexeme of a bracket character. -/
def Bracket.lexeme? (c : Char) : Option Lexeme :=
  [Bracket.paren, .square, .curly].findSome? fun bracket =>
    if c = bracket.opener then some (.opening bracket)
    else if c = bracket.closer then some (.closing bracket)
    else none

/-- The brackets of a text that are in no quotes. In front of the text a quote may be open. -/
def unquotedBrackets (quoted : Bool) : List Char → List Lexeme
  | [] => []
  | c :: rest =>
      if c = '"' then unquotedBrackets (!quoted) rest
      else if quoted then unquotedBrackets true rest
      else (Bracket.lexeme? c).toList ++ unquotedBrackets false rest

/-- The brackets among some tokens. -/
def bracketsOf (tokens : List Token) : List Lexeme :=
  (tokens.map Token.lexeme).filter Lexeme.isBracket

/-- The characters that decide which brackets a text has. -/
def bracketMarks : List Char :=
  ['"', '(', ')', '[', ']', '\x7b', '\x7d']

theorem lexeme?_of_not_mark {c : Char} (h : c ∉ bracketMarks) : Bracket.lexeme? c = none := by
  simp only [bracketMarks, List.mem_cons, not_or] at h
  simp [Bracket.lexeme?, Bracket.opener, Bracket.closer, h]

theorem unquotedBrackets_of_plain {front : List Char} (h : ∀ c ∈ front, c ∉ bracketMarks)
    (behind : List Char) :
    unquotedBrackets false (front ++ behind) = unquotedBrackets false behind := by
  induction front with
  | nil => rfl
  | cons c front ih =>
    have hc : c ∉ bracketMarks := h c List.mem_cons_self
    have hquote : c ≠ '"' := by
      rintro rfl
      exact hc (by decide)
    rw [List.cons_append, unquotedBrackets, if_neg hquote, if_neg (by decide),
      lexeme?_of_not_mark hc]
    exact ih fun d hd => h d (List.mem_cons_of_mem c hd)

/-- Brackets in a quoted text do not count. -/
theorem unquotedBrackets_of_quoted {inside : List Char} (h : '"' ∉ inside) (behind : List Char) :
    unquotedBrackets true (inside ++ '"' :: behind) = unquotedBrackets false behind := by
  induction inside with
  | nil => rfl
  | cons c inside ih =>
    have hquote : c ≠ '"' := fun hc => h (hc ▸ List.mem_cons_self)
    rw [List.cons_append, unquotedBrackets, if_neg hquote, if_pos rfl]
    exact ih fun hmem => h (List.mem_cons_of_mem c hmem)

theorem unquotedBrackets_bracket {c : Char} (h : c ≠ '"') (behind : List Char) :
    unquotedBrackets false (c :: behind) =
      (Bracket.lexeme? c).toList ++ unquotedBrackets false behind := by
  rw [unquotedBrackets, if_neg h, if_neg (by decide)]

/-! ## Brackets of scans -/

namespace Scan

/-- A class of characters without marks. -/
theorem not_mark_of_class {p : Char → Bool} (hp : bracketMarks.any p = false) {c : Char}
    (hc : p c = true) : c ∉ bracketMarks :=
  fun hmem => List.any_eq_false.mp hp c hmem hc

theorem number_not_mark {negative : Bool} {text : List Char} {c : Char}
    (h : c ∈ (number negative text).taken) : c ∉ bracketMarks := by
  rcases mem_number h with rfl | rfl | hdigit
  · decide
  · decide
  · exact not_mark_of_class (p := Text.isDigit) (by decide) hdigit

theorem number_not_bracket {negative : Bool} {text : List Char} {lexeme : Lexeme}
    (h : (number negative text).found = .ok lexeme) : lexeme.isBracket = false := by
  simp only [number] at h
  cases hfraction : fractionDigits (text.dropWhile Text.isDigit) with
  | none =>
    rw [hfraction] at h
    obtain ⟨value, -, rfl⟩ := integer_eq_ok h
    rfl
  | some fraction =>
    rw [hfraction] at h
    cases h
    rfl

/-- A character of punctuation has the bracket of its lexeme. -/
theorem brackets_of_punctuation {c : Char} {lexeme : Lexeme} (h : punctuation? c = some lexeme) :
    c ≠ '"' ∧ (Bracket.lexeme? c).toList = [lexeme].filter Lexeme.isBracket := by
  unfold punctuation? at h
  split at h <;> cases h <;> decide

/-- What a scan finds is no bracket and has no marks in it, or it is a quoted text, or punctuation.
-/
theorem found_cases {c : Char} {rest : List Char} {lexeme : Lexeme}
    (h : (token c rest).found = .ok lexeme) :
    (lexeme.isBracket = false ∧ ∀ d ∈ (token c rest).taken, d ∉ bracketMarks) ∨
    (lexeme.isBracket = false ∧
      ∃ inside, '"' ∉ inside ∧ (token c rest).taken = '"' :: (inside ++ ['"'])) ∨
    (punctuation? c = some lexeme ∧ (token c rest).taken = [c]) := by
  by_cases hdigit : Text.isDigit c = true
  · rw [token_of_digit hdigit] at h ⊢
    exact .inl ⟨number_not_bracket h, fun d hd => number_not_mark hd⟩
  by_cases hminus : c = '-' ∧ startsWithDigit rest = true
  · obtain ⟨rfl, hstarts⟩ := hminus
    rw [token_of_minus hstarts] at h ⊢
    exact .inl ⟨number_not_bracket h, fun d hd => number_not_mark hd⟩
  by_cases hstart : Text.isWordStart c = true
  · rw [token_of_wordStart (by simpa using hdigit) hstart] at h ⊢
    cases h
    refine .inl ⟨rfl, fun d hd => ?_⟩
    exact not_mark_of_class (p := Text.isWordPart) (by decide +kernel) (List.mem_takeWhile_imp hd)
  by_cases hoperator : isOperatorChar c = true
  · rw [token_of_operator hoperator hminus] at h ⊢
    cases h
    refine .inl ⟨rfl, fun d hd => ?_⟩
    exact not_mark_of_class (p := isOperatorChar) (by decide) (List.mem_takeWhile_imp hd)
  by_cases hquote : c = '"'
  · subst hquote
    rw [token_quote] at h ⊢
    have hinside : '"' ∉ rest.takeWhile (· != '"') := not_mem_takeWhile (by decide) rest
    unfold quotedRest at h ⊢
    dsimp only at h ⊢
    split at h
    · cases h
    · cases h
      exact .inr (.inl ⟨rfl, _, hinside, rfl⟩)
  · have hsingle : token c rest = single c := by
      simp [token, hdigit, hminus, hstart, hoperator, hquote]
    rw [hsingle] at h ⊢
    unfold single at h ⊢
    split at h
    · rename_i hpunctuation
      cases h
      exact .inr (.inr ⟨hpunctuation, rfl⟩)
    · cases h

/-- **What a scan takes has the brackets of what it finds.** -/
theorem brackets_of_found {c : Char} {rest : List Char} {lexeme : Lexeme}
    (h : (token c rest).found = .ok lexeme) (behind : List Char) :
    unquotedBrackets false ((token c rest).taken ++ behind) =
      [lexeme].filter Lexeme.isBracket ++ unquotedBrackets false behind := by
  rcases found_cases h with
    ⟨hbracket, hplain⟩ | ⟨hbracket, inside, hinside, htaken⟩ | ⟨hpunctuation, htaken⟩
  · rw [unquotedBrackets_of_plain hplain]
    simp [hbracket]
  · rw [htaken, List.cons_append, List.append_assoc, unquotedBrackets, if_pos rfl]
    simpa [hbracket] using unquotedBrackets_of_quoted hinside behind
  · obtain ⟨hc, hbracket⟩ := brackets_of_punctuation hpunctuation
    rw [htaken, List.singleton_append, unquotedBrackets_bracket hc, hbracket]

/-- Blanks are no brackets. -/
theorem not_mark_of_isBlank {c : Char} (h : Text.isBlank c = true) : c ∉ bracketMarks :=
  not_mark_of_class (p := Text.isBlank) (by decide +kernel) h

/-- A closing bracket is scanned wherever its character stands. -/
theorem token_closer (bracket : Bracket) (rest : List Char) :
    token bracket.closer rest = ⟨[bracket.closer], .ok (.closing bracket)⟩ := by
  have hpunctuation : punctuation? bracket.closer = some (.closing bracket) := by
    cases bracket <;> rfl
  obtain ⟨c, inner, hspelling, htoken⟩ := reads_punctuation hpunctuation rest
  obtain ⟨rfl, rfl⟩ := List.cons.inj hspelling
  exact htoken

/-- Only the character of a closing bracket is scanned as one. -/
theorem eq_closer_of_found {c : Char} {rest : List Char} {bracket : Bracket}
    (h : (token c rest).found = .ok (.closing bracket)) : c = bracket.closer := by
  rcases found_cases h with ⟨hbracket, -⟩ | ⟨hbracket, -⟩ | ⟨hpunctuation, -⟩
  · cases hbracket
  · cases hbracket
  · unfold punctuation? at hpunctuation
    split at hpunctuation <;> cases hpunctuation <;> rfl

end Scan

/-! ## Faults of brackets -/

/-- A fault that reports a bracket out of place. -/
def Fault.IsMisplaced (fault : Fault) : Prop :=
  ∃ diagnostic, fault = .diagnostic diagnostic ∧ diagnostic.code = "E102"

theorem Flaw.not_isMisplaced (flaw : Flaw) (place : Location) :
    ¬ (flaw.fault place).IsMisplaced := by
  rintro ⟨diagnostic, hfault, hcode⟩
  cases flaw <;> cases hfault <;> simp [Diagnostic.code, Cause.code] at hcode

namespace Brackets

variable {stack : List (Location × Bracket)} {bracket : Bracket} {cause : Cause}

/-- A closing bracket is refused where no bracket is open, or one of another kind is innermost. -/
theorem popped_eq_error_iff :
    (∃ cause, popped stack bracket = .error cause) ↔ ∀ top ∈ stack.head?, top.2 ≠ bracket := by
  cases stack with
  | nil => simp [popped]
  | cons frame outer =>
    by_cases hkind : frame.2 = bracket
    · simp [popped, hkind]
    · simp [popped, hkind]

theorem code_of_popped (h : popped stack bracket = .error cause) : cause.code = "E102" := by
  cases stack with
  | nil =>
    cases h
    rfl
  | cons frame outer =>
    simp only [popped] at h
    split at h
    · cases h
    · cases h
      rfl

/-- What is refused is not nested in what is open. -/
theorem nestOne_of_popped (h : popped stack bracket = .error cause) :
    Bracket.nestOne (stack.map Prod.snd) (.closing bracket) = .none := by
  have htrack : View.track stack default (.closing bracket) = .error cause := h
  rw [← View.kinds_track stack default, htrack]
  rfl

end Brackets

/-! ## Runs -/

namespace View

variable {file : String} {view next : View}

/-- What is skipped in front of a token has no brackets. -/
theorem brackets_nextCursor (view : View) :
    unquotedBrackets false view.cursor.rest = unquotedBrackets false view.nextCursor.rest := by
  rw [← view.skipped_append]
  exact unquotedBrackets_of_plain
    (fun c hc => Scan.not_mark_of_isBlank (view.isGap_skipped c hc).1) _

/-- What an advance reads has the brackets of the token that it puts in front. -/
theorem brackets_of_advance {c : Char} {rest : List Char} {lexeme : Lexeme}
    (hrest : view.nextCursor.rest = c :: rest) (hfound : (Scan.token c rest).found = .ok lexeme) :
    unquotedBrackets false view.cursor.rest = [lexeme].filter Lexeme.isBracket ++
      unquotedBrackets false
        (view.nextCursor.move (Scan.token c rest).taken.length).rest := by
  rw [← split_of_scan hrest, List.append_assoc, unquotedBrackets_of_plain
    (fun c hc => Scan.not_mark_of_isBlank (view.isGap_skipped c hc).1)]
  exact Scan.brackets_of_found hfound _

/-- Where an advance reports a bracket out of place, the character of that bracket stands. -/
theorem advance_misplaced {fault : Fault} (h : view.advance file = (.error fault, next))
    (hfault : fault.IsMisplaced) :
    next.stack = view.stack ∧ ∃ bracket rest cause, view.nextCursor.rest = bracket.closer :: rest ∧
      Brackets.popped view.stack bracket = .error cause ∧
      fault = .diagnostic ⟨view.nextCursor.location file, cause, .error⟩ := by
  obtain ⟨c, rest, -, hrest, rfl, hcases⟩ := advance_error h
  refine ⟨rfl, ?_⟩
  rcases hcases with ⟨flaw, -, rfl⟩ | ⟨lexeme, cause, hfound, htrack, rfl⟩
  · exact absurd hfault (flaw.not_isMisplaced _)
  · obtain ⟨bracket, rfl, hpopped⟩ := track_eq_error htrack
    rw [Scan.eq_closer_of_found hfound] at hrest
    exact ⟨bracket, rest, cause, hrest, hpopped, rfl⟩

/-- A closing bracket that is refused is reported. -/
theorem advance_of_popped {bracket : Bracket} {rest : List Char} {cause : Cause}
    (hne : view.lookahead ≠ .ended) (hrest : view.nextCursor.rest = bracket.closer :: rest)
    (hpopped : Brackets.popped view.stack bracket = .error cause) :
    ∃ next, view.advance file =
      (.error (.diagnostic ⟨view.nextCursor.location file, cause, .error⟩), next) := by
  have htrack : track view.stack (view.nextCursor.location file) (.closing bracket) =
      .error cause := hpopped
  rw [advance_of_ne_ended file hne, hrest]
  simp only [accept, Scan.token_closer, htrack]
  exact ⟨_, rfl⟩

end View

namespace Lexer

/-- What a run of a lexer over some tokens did with the brackets of its text. -/
structure Bracketed (lexer : Lexer) (tokens : List Token) (fault : Option Fault) (last : Lexer) :
    Prop where
  sound : last.brackets.Sound
  stack : View.trackAll lexer.brackets.stack tokens = .ok last.brackets.stack
  spent : fault = none → last.lookahead = .ended → last.cursor.rest = []
  read : fault = none → unquotedBrackets false lexer.cursor.rest =
    bracketsOf tokens ++ unquotedBrackets false last.cursor.rest
  refused : ∀ found, fault = some found → found.IsMisplaced → ∃ bracket behind,
    unquotedBrackets false lexer.cursor.rest = bracketsOf tokens ++ .closing bracket :: behind ∧
      Bracket.nestOne (last.brackets.stack.map Prod.snd) (.closing bracket) = none

/-- A run that goes on behind a token. -/
theorem Bracketed.cons {lexer next last : Lexer} {token : Token} {tokens : List Token}
    {fault : Option Fault}
    (htrack : View.track lexer.brackets.stack token.location token.lexeme =
      .ok next.brackets.stack)
    (htext : unquotedBrackets false lexer.cursor.rest =
      [token.lexeme].filter Lexeme.isBracket ++ unquotedBrackets false next.cursor.rest)
    (h : next.Bracketed tokens fault last) : lexer.Bracketed (token :: tokens) fault last := by
  have hbrackets : bracketsOf (token :: tokens) =
      [token.lexeme].filter Lexeme.isBracket ++ bracketsOf tokens :=
    List.filter_append [token.lexeme] (tokens.map Token.lexeme)
  refine ⟨h.sound, ?_, h.spent, ?_, ?_⟩
  · rw [View.trackAll_cons, htrack]
    exact h.stack
  · intro hnone
    rw [htext, h.read hnone, hbrackets, List.append_assoc]
  · intro found hsome hmisplaced
    obtain ⟨bracket, behind, hread, hnest⟩ := h.refused found hsome hmisplaced
    refine ⟨bracket, behind, ?_, hnest⟩
    rw [htext, hread, hbrackets, List.append_assoc]

/-- **A run of a lexer keeps track of the brackets of its text** that are outside quotes. -/
theorem bracketed_tokensUpTo (lexer : Lexer) (h : lexer.brackets.Sound)
    (hgoing : lexer.lookahead ≠ .ended) (bound : Nat) :
    match lexer.tokensUpTo bound with
    | (tokens, fault, last) => lexer.Bracketed tokens fault last := by
  induction bound generalizing lexer with
  | zero =>
    refine ⟨h, rfl, ?_, fun _ => rfl, ?_⟩
    · intro _ hended
      exact absurd hended hgoing
    · intro found hfound
      cases hfound
  | succ bound ih =>
    have hview := advance_view h
    rw [tokensUpTo]
    cases ha : lexer.advance with
    | error fault last =>
      rw [ha] at hview
      obtain ⟨hadvance, hsound, -⟩ := hview
      obtain ⟨c, rest, -, hrest, hlast, -⟩ := View.advance_error hadvance
      refine ⟨hsound, ?_, ?_, ?_, ?_⟩
      · exact congrArg Except.ok (congrArg View.stack hlast).symm
      · intro hnone
        cases hnone
      · intro hnone
        cases hnone
      · intro found hfound hmisplaced
        cases hfound
        obtain ⟨hstack, bracket, rest, cause, hrest, hpopped, -⟩ :=
          View.advance_misplaced hadvance hmisplaced
        have hstack : last.brackets.stack = lexer.brackets.stack := hstack
        refine ⟨bracket, unquotedBrackets false rest, ?_, ?_⟩
        · have hfound := congrArg Scan.found (Scan.token_closer bracket rest)
          have hread := View.brackets_of_advance hrest hfound
          have htaken := congrArg Scan.taken (Scan.token_closer bracket rest)
          rw [htaken, Cursor.rest_move, hrest] at hread
          exact hread
        · rw [hstack]
          exact Brackets.nestOne_of_popped hpopped
    | ok place next =>
      rw [ha] at hview
      obtain ⟨hadvance, hsound, hgrows⟩ := hview
      rcases View.advance_eq_ok hgoing hadvance with
        ⟨hnil, hend, -⟩ | ⟨c, rest, lexeme, stack, hrest, hfound, htrack, -, hnext⟩
      · have hlook : next.lookahead = .ended := hend
        have hseen : next.view = { lexer.view with
            cursor := lexer.view.nextCursor, lookahead := .ended } := by
          rw [View.advance_of_ne_ended _ hgoing, hnil] at hadvance
          exact (congrArg Prod.snd hadvance).symm
        have hcursor : next.cursor = lexer.view.nextCursor := congrArg View.cursor hseen
        have hstack : next.brackets.stack = lexer.brackets.stack := congrArg View.stack hseen
        simp only [hlook, Lookahead.token?]
        refine ⟨hsound, congrArg Except.ok hstack.symm, ?_, ?_, ?_⟩
        · intro _ _
          rw [hcursor, hnil]
        · intro _
          rw [hcursor]
          exact lexer.view.brackets_nextCursor
        · intro found hfound
          cases hfound
      · have hlook : next.lookahead = .ready (View.tokenAt lexer.file lexer.view.nextCursor c rest
          lexeme) := congrArg View.lookahead hnext
        have hstack : next.brackets.stack = stack := congrArg View.stack hnext
        have hcursor : next.cursor =
            lexer.view.nextCursor.move (Scan.token c rest).taken.length :=
          congrArg View.cursor hnext
        have hread := View.brackets_of_advance hrest hfound
        rw [← hcursor] at hread
        rw [← hstack] at htrack
        have hrun := ih next hsound (by rw [hlook]; simp)
        simp only [hlook, Lookahead.token?]
        exact hrun.cons htrack hread

end Lexer

end FrontEnd
