import FrontEnd.Proofs.Lexer.Below
import FrontEnd.Proofs.Lexer.Delimited
import FrontEnd.Proofs.Lexer.Tiles
import Mathlib.Data.List.Basic

/-!
# Texts as rows of scans

A text that can be split into tokens is a row of scans with blanks between them. Each token is what
one scan finds where the token stands, in front of what follows there.

* `View.Run` — the tokens that are read from a view on, one after the other.
* `Scanned` — tokens that are scanned one after the other from a cursor on.
* `scanned_of_tokenize` — the tokens of a source are scanned from its start on.
* `Scanned.split` — where a token of such a row stands, and what is in front of it.
-/

set_option autoImplicit false

namespace FrontEnd

/-- What a scan finds is read from what it takes. -/
theorem Scan.exists_reads {c : Char} {rest : List Char} {lexeme : Lexeme}
    (h : (token c rest).found = .ok lexeme) :
    ∃ behind, c :: rest = (token c rest).taken ++ behind ∧
      Reads (token c rest).taken lexeme behind := by
  obtain ⟨behind, hbehind⟩ := token_taken_isPrefix c rest
  cases htaken : (token c rest).taken with
  | nil => exact absurd htaken (token_found c rest lexeme h).2
  | cons d inner =>
    rw [htaken, List.cons_append] at hbehind
    obtain ⟨rfl, rfl⟩ := List.cons.inj hbehind
    refine ⟨behind, rfl, d, inner, rfl, ?_⟩
    rw [← htaken, ← h]

/-! ## Runs of a view -/

namespace View

/-- A token that is read at a view, behind what is skipped there, and the view behind it. -/
structure Passes (file : String) (view : View) (token : Token) (next : View)
    (behind : List Char) : Prop where
  rest : view.cursor.rest = view.skipped ++ (token.text.toList ++ behind)
  reads : Scan.Reads token.text.toList token.lexeme behind
  location : token.location = (view.cursor.move view.skipped.length).location file
  tracked : track view.stack token.location token.lexeme = .ok next.stack
  cursor : next.cursor = view.cursor.move (view.skipped ++ token.text.toList).length
  newline : token.text = "\n" → view.stack = []

/-- The tokens that are read from a view on, up to the end of the text. -/
inductive Run (file : String) : View → List Token → Prop
  | none {view : View} : view.cursor.rest = view.skipped → Run file view []
  | token {view next : View} {token : Token} {tokens : List Token} {behind : List Char} :
      view.Passes file token next behind → Run file next tokens → Run file view (token :: tokens)

theorem Passes.behind {file : String} {view next : View} {token : Token} {behind : List Char}
    (h : view.Passes file token next behind) : next.cursor.rest = behind := by
  rw [h.cursor, Cursor.rest_move, h.rest, ← List.append_assoc, List.drop_left]

/-- A token that is scanned is passed. -/
theorem passes_of_found {file : String} {view : View} {c : Char} {rest : List Char}
    {lexeme : Lexeme} {stack : List (Location × Bracket)} (hrest : view.nextCursor.rest = c :: rest)
    (hfound : (Scan.token c rest).found = .ok lexeme)
    (htrack : track view.stack (view.nextCursor.location file) lexeme = .ok stack) :
    ∃ behind, view.Passes file (tokenAt file view.nextCursor c rest lexeme)
      ⟨view.nextCursor.move (Scan.token c rest).taken.length,
        .ready (tokenAt file view.nextCursor c rest lexeme), stack⟩ behind := by
  obtain ⟨behind, hbehind, hreads⟩ := Scan.exists_reads hfound
  have htext : (tokenAt file view.nextCursor c rest lexeme).text.toList =
      (Scan.token c rest).taken := String.toList_ofList
  have hfits : (⟨view.skipped, tokenAt file view.nextCursor c rest lexeme⟩ : Piece).Fits file
      view.cursor view.stack := fits_of_found hrest hfound
  refine ⟨behind, ?_, htext ▸ hreads, hfits.place, htrack, ?_, fun h => (hfits.separator h).1⟩
  · rw [htext, ← hbehind, ← hrest, view.skipped_append]
  · rw [htext, ← view.move_nextCursor]

/-- What is left of a text without faults is a run. -/
theorem run_of_remaining {file : String} {bound : Nat} {view : View} {tokens : List Token}
    {place : Location} (hgoing : view.lookahead ≠ .ended)
    (hbound : view.cursor.rest.length < bound)
    (h : view.remaining file bound = (tokens, .ok place)) : Run file view tokens := by
  induction bound generalizing view tokens with
  | zero => omega
  | succ bound ih =>
    obtain ⟨result, next, hadvance⟩ : ∃ result next, view.advance file = (result, next) :=
      ⟨_, _, rfl⟩
    cases result with
    | error fault =>
      rw [remaining_of_error _ hadvance] at h
      cases h
    | ok answer =>
      rcases advance_eq_ok hgoing hadvance with
        ⟨hnil, hend, -⟩ | ⟨c, rest, lexeme, stack, hrest, hfound, htrack, -, rfl⟩
      · rw [remaining_of_ended _ hadvance hend] at h
        cases h
        have hsplit := view.skipped_append
        rw [hnil, List.append_nil] at hsplit
        exact .none hsplit.symm
      · rw [remaining_of_ready _ hadvance rfl] at h
        obtain ⟨rfl, hstop⟩ := Prod.mk.inj h
        obtain ⟨behind, hpasses⟩ := passes_of_found hrest hfound htrack
        have hshorter : behind.length < bound := by
          have hpos := List.length_pos_iff.mpr (Scan.token_found c rest lexeme hfound).2
          have hlength := congrArg List.length hpasses.rest
          rw [List.length_append, List.length_append, tokenAt, String.toList_ofList] at hlength
          omega
        exact .token hpasses (ih (by simp) (hpasses.behind ▸ hshorter) (Prod.ext rfl hstop))

end View

/-- The tokens of a source are a run from its start on. -/
theorem run_of_tokenize {file source : String} {tokens : List Token} {last : Lexer}
    (h : tokenize file source = (tokens, none, last)) :
    View.Run file (Lexer.ofSource file source).view tokens :=
  View.run_of_remaining (Lexer.going_ofSource file source) (Nat.lt_succ_self _)
    (remaining_of_tokenize h (Nat.lt_succ_self _))

/-! ## Rows of scans -/

/-- Tokens that are scanned one after the other from a cursor on, with blanks around them. -/
inductive Scanned (file : String) : Cursor → List Token → Prop
  | blank {cursor : Cursor} : (∀ c ∈ cursor.rest, Text.isBlank c = true) → Scanned file cursor []
  | token {cursor : Cursor} {gap behind : List Char} {token : Token} {tokens : List Token} :
      (∀ c ∈ gap, Text.isBlank c = true) → cursor.rest = gap ++ (token.text.toList ++ behind) →
      Scan.Reads token.text.toList token.lexeme behind →
      token.location = (cursor.move gap.length).location file →
      Scanned file (cursor.move (gap ++ token.text.toList).length) tokens →
      Scanned file cursor (token :: tokens)

/-- The tokens of a run are scanned from its cursor on. -/
theorem View.Run.scanned {file : String} {view : View} {tokens : List Token}
    (h : Run file view tokens) : Scanned file view.cursor tokens := by
  induction h with
  | @none view hrest => exact .blank fun c hc => (view.isGap_skipped c (hrest ▸ hc)).1
  | @token view next token tokens behind hpasses hmore ih =>
    have hblank : ∀ c ∈ view.skipped, Text.isBlank c = true :=
      fun c hc => (view.isGap_skipped c hc).1
    exact .token hblank hpasses.rest hpasses.reads hpasses.location (hpasses.cursor ▸ ih)

/-- The tokens of a source are scanned from its start on. -/
theorem scanned_of_tokenize {file source : String} {tokens : List Token} {last : Lexer}
    (h : tokenize file source = (tokens, none, last)) :
    Scanned file (.start source.toList) tokens :=
  (run_of_tokenize h).scanned

/-! ## Tokens in a row -/

/-- Every token of a row is read in front of some text. -/
theorem Scanned.reads {file : String} {cursor : Cursor} {tokens : List Token}
    (h : Scanned file cursor tokens) :
    ∀ token ∈ tokens, ∃ behind, Scan.Reads token.text.toList token.lexeme behind := by
  induction h with
  | blank => simp
  | token _ _ hreads _ _ ih => exact List.forall_mem_cons.mpr ⟨⟨_, hreads⟩, ih⟩

/-- A token behind some others in a row of scans: where it stands, the text in front of it and the
text behind it. What is in front of it ends in a blank or in the token before. -/
structure Scanned.At (file : String) (cursor : Cursor) (front : List Token) (token : Token)
    (tokens : List Token) (before behind : List Char) : Prop where
  rest : cursor.rest = before ++ (token.text.toList ++ behind)
  reads : Scan.Reads token.text.toList token.lexeme behind
  location : token.location = (cursor.move before.length).location file
  behind : Scanned file (cursor.move (before ++ token.text.toList).length) tokens
  first : before = [] → front = []
  last : ∀ c, before.getLast? = some c → Text.isBlank c = true ∨
    ∃ other, front.getLast? = some other ∧ other.text.toList.getLast? = some c

theorem Scanned.split {file : String} {cursor : Cursor} {front tokens : List Token} {token : Token}
    (h : Scanned file cursor (front ++ token :: tokens)) :
    ∃ before behind, At file cursor front token tokens before behind := by
  induction front generalizing cursor with
  | nil =>
    cases h with
    | @token _ gap behind _ _ hgap hrest hreads hplace hmore =>
      exact ⟨gap, behind, hrest, hreads, hplace, hmore, fun _ => rfl,
        fun c hc => .inl (hgap c (List.mem_of_mem_getLast? hc))⟩
  | cons other front ih =>
    cases h with
    | @token _ gap left _ _ hgap hrest hreads hplace hmore =>
      obtain ⟨before, behind, hat⟩ := ih hmore
      have hleft : left = before ++ (token.text.toList ++ behind) := by
        have hall := hat.rest
        rw [Cursor.rest_move, hrest, ← List.append_assoc, List.drop_left] at hall
        exact hall
      have hne : other.text.toList ≠ [] := by
        obtain ⟨c, inner, hspelling, -⟩ := hreads
        rw [hspelling]
        exact List.cons_ne_nil c inner
      refine ⟨gap ++ other.text.toList ++ before, behind, ?_, hat.reads, ?_, ?_, ?_, ?_⟩
      · rw [hrest, hleft]
        simp only [List.append_assoc]
      · rw [hat.location, Cursor.move_move, ← List.length_append]
      · have hmoved := hat.behind
        rw [Cursor.move_move, ← List.length_append, ← List.append_assoc] at hmoved
        exact hmoved
      · intro hnil
        simp [hne] at hnil
      · intro c hc
        rcases List.eq_nil_or_concat before with rfl | ⟨inner, d, rfl⟩
        · -- nothing is between the token and the one before
          obtain rfl := hat.first rfl
          rw [List.append_nil, List.getLast?_append_of_ne_nil _ hne] at hc
          exact .inr ⟨other, rfl, hc⟩
        · rw [List.getLast?_append_of_ne_nil _ (by simp)] at hc
          refine (hat.last c hc).imp id ?_
          rintro ⟨others, hothers, hc⟩
          refine ⟨others, ?_, hc⟩
          rw [List.getLast?_cons, hothers]
          rfl

end FrontEnd
