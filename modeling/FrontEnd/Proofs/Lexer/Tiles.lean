import FrontEnd.Proofs.Lexer.Joined

/-!
# Tokens tile their text

A lexer cuts its text into tokens and the gaps in front of them. Nothing else is between two tokens,
and what a newline is depends on the brackets that are open where it stands.

* `Piece` — a token and the gap in front of it.
* `Tiles` — pieces that follow each other in a text, each with the brackets that are open there.
* `Newline` — what a newline of a text can be: a separator, a part of a gap inside brackets, or a
  part of a quoted text.
* `Lexer.tiled_tokensUpTo` — the tokens of a lexer tile the text in front of it.
-/

set_option autoImplicit false

namespace FrontEnd

/-! ## Pieces -/

/-- A token behind the characters that are skipped in front of it. -/
structure Piece where
  gap : List Char
  token : Token

/-- The characters of a piece. -/
def Piece.text (piece : Piece) : List Char :=
  piece.gap ++ piece.token.text.toList

/-- The characters of some pieces. -/
def Piece.texts (pieces : List Piece) : List Char :=
  pieces.flatMap Piece.text

/-- Characters that may stand between tokens: blanks, and newlines only inside brackets. -/
def IsGap (stack : List (Location × Bracket)) (gap : List Char) : Prop :=
  ∀ c ∈ gap, Text.isBlank c = true ∧ (c = '\n' → stack ≠ [])

instance (stack : List (Location × Bracket)) (gap : List Char) : Decidable (IsGap stack gap) :=
  List.decidableBAll (fun c => Text.isBlank c = true ∧ (c = '\n' → stack ≠ [])) gap

theorem isGap_nil (stack : List (Location × Bracket)) : IsGap stack [] :=
  fun _ h => by cases h

/-- A piece that may stand at a cursor, where some brackets are open. -/
structure Piece.Fits (file : String) (cursor : Cursor) (stack : List (Location × Bracket))
    (piece : Piece) : Prop where
  gap : IsGap stack piece.gap
  spelled : piece.token.text.toList ≠ []
  place : piece.token.location = (cursor.move piece.gap.length).location file
  separator : piece.token.text = "\n" → stack = [] ∧ piece.token.lexeme = .semicolon
  newline : '\n' ∈ piece.token.text.toList →
    piece.token.text = "\n" ∨ piece.token.lexeme = .quoted piece.token.text

/-- Pieces that follow each other from a cursor on. The first stack are the brackets that are open
in front of them, and the second one those behind them. -/
inductive Tiles (file : String) : Cursor → List (Location × Bracket) → List Piece →
    List (Location × Bracket) → Prop
  | none (cursor : Cursor) (stack : List (Location × Bracket)) : Tiles file cursor stack [] stack
  | piece {cursor : Cursor} {stack inner after : List (Location × Bracket)} {piece : Piece}
      {pieces : List Piece} :
      piece.Fits file cursor stack →
      View.track stack piece.token.location piece.token.lexeme = .ok inner →
      Tiles file (cursor.move piece.text.length) inner pieces after →
      Tiles file cursor stack (piece :: pieces) after

/-- What a newline behind the characters `before` can be in a text of pieces with a gap behind
them. -/
inductive Newline (file : String) (cursor : Cursor) (stack : List (Location × Bracket))
    (pieces : List Piece) (gap before : List Char) : Prop
  /-- It is a separator, and no bracket is open. -/
  | separator {front behind : List Piece} {piece : Piece} :
      pieces = front ++ piece :: behind → Tiles file cursor stack front [] →
      piece.token.text = "\n" → piece.token.lexeme = .semicolon →
      before = Piece.texts front ++ piece.gap → Newline file cursor stack pieces gap before
  /-- It is in the gap in front of a token, and a bracket is open. -/
  | skipped {front behind : List Piece} {piece : Piece} {inner : List (Location × Bracket)}
      {first second : List Char} :
      pieces = front ++ piece :: behind → Tiles file cursor stack front inner → inner ≠ [] →
      piece.gap = first ++ '\n' :: second →
      before = Piece.texts front ++ first → Newline file cursor stack pieces gap before
  /-- It is in the last gap, and a bracket is open. -/
  | trailing {inner : List (Location × Bracket)} {first second : List Char} :
      Tiles file cursor stack pieces inner → inner ≠ [] → gap = first ++ '\n' :: second →
      before = Piece.texts pieces ++ first → Newline file cursor stack pieces gap before
  /-- It is in a quoted text. -/
  | quoted {front behind : List Piece} {piece : Piece} {first second : List Char} :
      pieces = front ++ piece :: behind → piece.token.lexeme = .quoted piece.token.text →
      piece.token.text.toList = first ++ '\n' :: second →
      before = Piece.texts front ++ piece.gap ++ first → Newline file cursor stack pieces gap before

theorem Piece.texts_cons (piece : Piece) (pieces : List Piece) :
    Piece.texts (piece :: pieces) =
      piece.gap ++ (piece.token.text.toList ++ Piece.texts pieces) := by
  simp [Piece.texts, Piece.text]

/-! ## Newlines -/

/-- A newline behind a piece is what it is among the pieces that follow. -/
theorem Newline.cons {file : String} {cursor : Cursor}
    {stack inner : List (Location × Bracket)} {piece : Piece} {pieces : List Piece}
    {gap before : List Char} (hfits : piece.Fits file cursor stack)
    (htrack : View.track stack piece.token.location piece.token.lexeme = .ok inner)
    (h : Newline file (cursor.move piece.text.length) inner pieces gap before) :
    Newline file cursor stack (piece :: pieces) gap (piece.text ++ before) := by
  cases h with
  | separator hpieces hfront htext hlexeme hbefore =>
    refine .separator (by rw [hpieces, List.cons_append]) (.piece hfits htrack hfront) htext hlexeme
      ?_
    rw [hbefore, Piece.texts_cons, Piece.text]
    simp only [List.append_assoc]
  | skipped hpieces hfront hopen hgap hbefore =>
    refine .skipped (by rw [hpieces, List.cons_append]) (.piece hfits htrack hfront) hopen hgap ?_
    rw [hbefore, Piece.texts_cons, Piece.text]
    simp only [List.append_assoc]
  | trailing hall hopen hgap hbefore =>
    refine .trailing (.piece hfits htrack hall) hopen hgap ?_
    rw [hbefore, Piece.texts_cons, Piece.text]
    simp only [List.append_assoc]
  | quoted hpieces hlexeme htext hbefore =>
    refine .quoted (by rw [hpieces, List.cons_append]) hlexeme htext ?_
    rw [hbefore, Piece.texts_cons, Piece.text]
    simp only [List.append_assoc]

/-- A character of two texts in a row is in the first one or in the second one. -/
theorem split_of_append {first second before behind : List Char} {c : Char}
    (h : first ++ second = before ++ c :: behind) :
    (∃ left, first = before ++ c :: left) ∨
      ∃ right, before = first ++ right ∧ second = right ++ c :: behind := by
  rcases List.append_eq_append_iff.mp h with ⟨right, hbefore, hsecond⟩ | ⟨left, hfirst, hleft⟩
  · exact .inr ⟨right, hbefore, hsecond⟩
  · cases left with
    | nil => exact .inr ⟨[], by simpa using hfirst.symm, hleft.symm⟩
    | cons d left =>
      have hd : c = d := (List.cons.inj hleft).1
      exact .inl ⟨left, by rw [hfirst, hd]⟩

/-- **A newline is a separator where no bracket is open**, and it is skipped where one is, unless it
stands in a quoted text. -/
theorem Tiles.newline {file : String} {cursor : Cursor} {stack after : List (Location × Bracket)}
    {pieces : List Piece} (h : Tiles file cursor stack pieces after) {gap : List Char}
    (hgap : IsGap after gap) {before behind : List Char}
    (htext : Piece.texts pieces ++ gap = before ++ '\n' :: behind) :
    Newline file cursor stack pieces gap before := by
  induction h generalizing before with
  | none cursor stack =>
    have hopen : stack ≠ [] := (hgap '\n' (by rw [show gap = _ from htext]; simp)).2 rfl
    exact .trailing (.none cursor stack) hopen htext rfl
  | @piece cursor stack inner after piece pieces hfits htrack hmore ih =>
    rw [Piece.texts_cons, List.append_assoc, List.append_assoc] at htext
    -- The newline is in the gap of the first piece, in its token, or behind it.
    rcases split_of_append htext with ⟨second, hskipped⟩ | ⟨inside, hbefore, hrest⟩
    · have hopen : stack ≠ [] := (hfits.gap '\n' (by rw [hskipped]; simp)).2 rfl
      exact .skipped (List.nil_append _).symm (.none cursor stack) hopen hskipped rfl
    · rcases split_of_append hrest with ⟨second, hspelled⟩ | ⟨later, hinside, hlater⟩
      · have hmem : '\n' ∈ piece.token.text.toList := by
          rw [hspelled]
          simp
        rcases hfits.newline hmem with hseparator | hquoted
        · obtain ⟨rfl, hlexeme⟩ := hfits.separator hseparator
          have hnil : inside = [] := by
            have hlength := congrArg List.length hspelled
            rw [hseparator] at hlength
            simp at hlength
            exact List.eq_nil_of_length_eq_zero (by omega)
          refine .separator (List.nil_append _).symm (.none cursor []) hseparator hlexeme ?_
          rw [hbefore, hnil, List.append_nil]
          rfl
        · exact .quoted (List.nil_append _).symm hquoted hspelled hbefore
      · have hnewline := Newline.cons hfits htrack (ih hgap hlater)
        rwa [Piece.text, List.append_assoc, ← hinside, ← hbefore] at hnewline

/-! ## Scans -/

namespace Scan

/-- What is taken of a class has no other characters. -/
theorem not_mem_takeWhile {p : Char → Bool} {c : Char} (h : p c = false) (text : List Char) :
    c ∉ text.takeWhile p := by
  intro hmem
  have hpos := List.mem_takeWhile_imp hmem
  rw [h] at hpos
  cases hpos

/-- A number is written with digits, a sign and a point. -/
theorem mem_number {negative : Bool} {text : List Char} {c : Char}
    (h : c ∈ (number negative text).taken) : c = '-' ∨ c = '.' ∨ Text.isDigit c = true := by
  have hsign : c ∈ (if negative then ['-'] else []) → c = '-' := by
    cases negative <;> simp
  simp only [number] at h
  cases hfraction : fractionDigits (text.dropWhile Text.isDigit) with
  | none =>
    rw [hfraction] at h
    rcases List.mem_append.mp h with h | h
    · exact .inl (hsign h)
    · exact .inr (.inr (List.mem_takeWhile_imp h))
  | some fraction =>
    rw [hfraction] at h
    simp only [List.mem_append, List.mem_cons] at h
    rcases h with (h | h) | h | h
    · exact .inl (hsign h)
    · exact .inr (.inr (List.mem_takeWhile_imp h))
    · exact .inr (.inl h)
    · refine .inr (.inr ?_)
      unfold fractionDigits at hfraction
      split at hfraction
      · split at hfraction
        · cases hfraction
          exact List.mem_takeWhile_imp h
        · cases hfraction
      · cases hfraction

/-- Of what is scanned only punctuation and a quoted text have a delimiter. -/
theorem token_delimiter {c d : Char} {rest : List Char} {lexeme : Lexeme}
    (h : (token c rest).found = .ok lexeme) (hd : isDelimiter d = true)
    (hmem : d ∈ (token c rest).taken) :
    d = c ∨ c = '"' ∧ lexeme = .quoted (String.ofList (token c rest).taken) := by
  obtain ⟨hnotDigit, hnotWord, hnotOperator⟩ := isDelimiter_eq hd
  have hnumber : ∀ negative text, d ∉ (number negative text).taken := by
    intro negative text hmem
    rcases mem_number hmem with rfl | rfl | hdigit
    · exact absurd hnotOperator (by decide)
    · exact absurd hnotOperator (by decide)
    · rw [hnotDigit] at hdigit
      cases hdigit
  unfold token at h hmem ⊢
  split at hmem
  · exact absurd hmem (hnumber false _)
  split at hmem
  · exact absurd hmem (hnumber true _)
  split at hmem
  · exact absurd hmem (not_mem_takeWhile hnotWord _)
  split at hmem
  · exact absurd hmem (not_mem_takeWhile hnotOperator _)
  split at hmem
  · rename_i hdigit hminus hword hoperator hquote
    rw [if_neg hdigit, if_neg hminus, if_neg hword, if_neg hoperator, if_pos hquote] at h ⊢
    unfold quotedRest at h ⊢
    dsimp only at h ⊢
    split at h
    · cases h
    · cases h
      exact .inr ⟨hquote, rfl⟩
  · unfold single at hmem
    split at hmem
    · exact .inl (List.mem_singleton.mp hmem)
    · cases hmem

end Scan

/-! ## Advances -/

namespace View

variable {file : String} {view next : View}

/-- The characters that are skipped at a view. -/
def skipped (view : View) : List Char :=
  view.cursor.rest.takeWhile (Lexer.isSkipped (!view.stack.isEmpty))

/-- What is skipped in front of a token is a gap. -/
theorem isGap_skipped (view : View) : IsGap view.stack view.skipped := by
  intro c hc
  have hskipped : Lexer.isSkipped (!view.stack.isEmpty) c = true := List.mem_takeWhile_imp hc
  simp only [Lexer.isSkipped, Bool.and_eq_true, Bool.or_eq_true] at hskipped
  refine ⟨hskipped.1, fun hnewline hempty => ?_⟩
  simp [hempty, hnewline] at hskipped

theorem skipped_append (view : View) : view.skipped ++ view.nextCursor.rest = view.cursor.rest := by
  rw [nextCursor, Cursor.rest_move, skipped]
  exact List.prefix_iff_eq_append.mp (List.takeWhile_prefix _)

/-- The place behind some text at the next token. -/
theorem move_nextCursor (view : View) (text : List Char) :
    view.nextCursor.move text.length = view.cursor.move (view.skipped ++ text).length := by
  rw [List.length_append, ← Cursor.move_move]
  rfl

/-- What is skipped, what is scanned and what is behind it are all of the text. -/
theorem split_of_scan {c : Char} {rest : List Char} (h : view.nextCursor.rest = c :: rest) :
    view.skipped ++ (Scan.token c rest).taken ++
      (view.nextCursor.move (Scan.token c rest).taken.length).rest = view.cursor.rest := by
  have hscan := List.prefix_iff_eq_append.mp (Scan.token_taken_isPrefix c rest)
  rw [List.append_assoc, Cursor.rest_move, h, hscan, ← h, view.skipped_append]

/-- The next token begins with a character that is not skipped. -/
theorem not_skipped {c : Char} {rest : List Char} (h : view.nextCursor.rest = c :: rest) :
    Lexer.isSkipped (!view.stack.isEmpty) c = false := by
  have hskip : view.nextCursor.rest =
      view.cursor.rest.dropWhile (Lexer.isSkipped (!view.stack.isEmpty)) := by
    have hsplit := view.skipped_append
    rw [← List.takeWhile_append_dropWhile (p := Lexer.isSkipped (!view.stack.isEmpty))
      (l := view.cursor.rest)] at hsplit
    exact List.append_cancel_left hsplit
  have hhead := List.head?_dropWhile_not (Lexer.isSkipped (!view.stack.isEmpty)) view.cursor.rest
  rw [← hskip, h] at hhead
  simpa using hhead

/-- A newline is not skipped outside brackets only. -/
theorem stack_of_newline {rest : List Char} (h : view.nextCursor.rest = '\n' :: rest) :
    view.stack = [] := by
  have hblank : Text.isBlank '\n' = true := by decide
  simpa [Lexer.isSkipped, hblank] using not_skipped h

/-- The only blank that is not skipped is a newline. -/
theorem isBlank_of_ne_newline {c : Char} {rest : List Char} (h : view.nextCursor.rest = c :: rest)
    (hc : c ≠ '\n') : Text.isBlank c = false := by
  simpa [Lexer.isSkipped, hc] using not_skipped h

/-- **A token that is scanned makes a piece** with what was skipped in front of it. -/
theorem fits_of_found {c : Char} {rest : List Char} {lexeme : Lexeme}
    (hrest : view.nextCursor.rest = c :: rest) (hfound : (Scan.token c rest).found = .ok lexeme) :
    (⟨view.skipped, tokenAt file view.nextCursor c rest lexeme⟩ : Piece).Fits file view.cursor
      view.stack := by
  have hnewline : c = '\n' → view.stack = [] ∧ lexeme = .semicolon ∧
      (Scan.token c rest).taken = ['\n'] := by
    rintro rfl
    rw [Scan.token_newline] at hfound
    cases hfound
    exact ⟨stack_of_newline hrest, rfl, by rw [Scan.token_newline]⟩
  have hprefix := Scan.token_taken_isPrefix c rest
  constructor
  · exact view.isGap_skipped
  · simpa [tokenAt] using (Scan.token_found c rest lexeme hfound).2
  · rfl
  · intro htext
    have htaken : (Scan.token c rest).taken = ['\n'] := by
      simpa [tokenAt] using congrArg String.toList htext
    rw [htaken] at hprefix
    obtain ⟨hstack, hlexeme, -⟩ := hnewline (List.cons_prefix_cons.mp hprefix).1.symm
    exact ⟨hstack, hlexeme⟩
  · intro hmem
    have hmem : '\n' ∈ (Scan.token c rest).taken := by simpa [tokenAt] using hmem
    rcases Scan.token_delimiter hfound (by decide +kernel) hmem with hc | ⟨-, hquoted⟩
    · obtain ⟨-, -, htaken⟩ := hnewline hc.symm
      exact .inl (by rw [tokenAt, htaken])
    · exact .inr hquoted

/-- An advance that fails stands where the scan stopped, and a diagnostic stands where it began. -/
theorem advance_eq_error {fault : Fault} (h : view.advance file = (.error fault, next)) :
    ∃ c rest, view.nextCursor.rest = c :: rest ∧
      next.cursor = view.nextCursor.move (Scan.token c rest).taken.length ∧
      ∀ diagnostic, fault = .diagnostic diagnostic →
        diagnostic.location = view.nextCursor.location file := by
  obtain ⟨c, rest, -, hrest, rfl, hfault⟩ := advance_error h
  refine ⟨c, rest, hrest, rfl, ?_⟩
  intro diagnostic hdiagnostic
  rcases hfault with ⟨flaw, -, rfl⟩ | ⟨lexeme, cause, -, -, rfl⟩
  · cases flaw <;> cases hdiagnostic <;> rfl
  · cases hdiagnostic
    rfl

end View

/-! ## Runs -/

/-- Some tokens as the tiles of a text: the pieces that they are in, and a gap behind them. -/
structure Tiling (file : String) (cursor : Cursor) (stack : List (Location × Bracket))
    (tokens : List Token) (pieces : List Piece) (gap : List Char) : Prop where
  tokens : pieces.map Piece.token = tokens
  tiles : ∃ after, Tiles file cursor stack pieces after ∧ IsGap after gap

theorem Tiling.cons {file : String} {cursor : Cursor} {stack inner : List (Location × Bracket)}
    {piece : Piece} {tokens : List Token} {pieces : List Piece} {gap : List Char}
    (hfits : piece.Fits file cursor stack)
    (htrack : View.track stack piece.token.location piece.token.lexeme = .ok inner)
    (h : Tiling file (cursor.move piece.text.length) inner tokens pieces gap) :
    Tiling file cursor stack (piece.token :: tokens) (piece :: pieces) gap := by
  obtain ⟨after, htiles, hgap⟩ := h.tiles
  exact ⟨by rw [List.map_cons, h.tokens], after, .piece hfits htrack htiles, hgap⟩

/-- What a run of a lexer from a cursor on made of its text. Tokens and gaps cover all of it, or
they cover it up to where a fault stands; behind that is what the failing scan read. -/
def Tiled (file : String) (cursor : Cursor) (stack : List (Location × Bracket)) :
    List Token × Option Fault × Lexer → Prop
  | (tokens, none, last) => ∃ pieces gap,
      Tiling file cursor stack tokens pieces gap ∧
      Piece.texts pieces ++ gap = cursor.rest ∧
      last.cursor = cursor.move (Piece.texts pieces ++ gap).length
  | (tokens, some fault, last) => ∃ pieces gap read,
      Tiling file cursor stack tokens pieces gap ∧
      Piece.texts pieces ++ gap ++ read ++ last.cursor.rest = cursor.rest ∧
      last.cursor = cursor.move (Piece.texts pieces ++ gap ++ read).length ∧
      ∀ diagnostic, fault = .diagnostic diagnostic →
        diagnostic.location = (cursor.move (Piece.texts pieces ++ gap).length).location file

/-- A run that goes on behind a piece. -/
theorem Tiled.cons {file : String} {cursor : Cursor} {stack inner : List (Location × Bracket)}
    {piece : Piece} {tokens : List Token} {fault : Option Fault} {last : Lexer}
    (hfits : piece.Fits file cursor stack)
    (htrack : View.track stack piece.token.location piece.token.lexeme = .ok inner)
    (htext : piece.text ++ (cursor.move piece.text.length).rest = cursor.rest)
    (h : Tiled file (cursor.move piece.text.length) inner (tokens, fault, last)) :
    Tiled file cursor stack (piece.token :: tokens, fault, last) := by
  have htexts : ∀ pieces, Piece.texts (piece :: pieces) = piece.text ++ Piece.texts pieces :=
    fun pieces => List.flatMap_cons
  cases fault with
  | none =>
    obtain ⟨pieces, gap, htiling, hall, hlast⟩ := h
    refine ⟨piece :: pieces, gap, htiling.cons hfits htrack, ?_, ?_⟩
    · rw [htexts, List.append_assoc, hall, htext]
    · rw [hlast, Cursor.move_move, htexts]
      simp only [List.length_append, Nat.add_assoc]
  | some fault =>
    obtain ⟨pieces, gap, read, htiling, hall, hlast, hplace⟩ := h
    refine ⟨piece :: pieces, gap, read, htiling.cons hfits htrack, ?_, ?_, ?_⟩
    · rw [htexts, ← htext, ← hall]
      simp only [List.append_assoc]
    · rw [hlast, Cursor.move_move, htexts]
      simp only [List.length_append, Nat.add_assoc]
    · intro diagnostic hdiagnostic
      rw [hplace diagnostic hdiagnostic, Cursor.move_move, htexts]
      simp only [List.length_append, Nat.add_assoc]

namespace Lexer

/-- **The tokens of a lexer tile the text in front of it.** -/
theorem tiled_tokensUpTo (lexer : Lexer) (h : lexer.brackets.Sound)
    (hgoing : lexer.lookahead ≠ .ended) (bound : Nat) (hbound : lexer.cursor.rest.length < bound) :
    Tiled lexer.file lexer.cursor lexer.brackets.stack (lexer.tokensUpTo bound) := by
  induction bound generalizing lexer with
  | zero => omega
  | succ bound ih =>
    have hview := advance_view h
    have hnone : Tiling lexer.file lexer.cursor lexer.brackets.stack [] [] lexer.view.skipped :=
      ⟨rfl, _, .none _ _, lexer.view.isGap_skipped⟩
    rw [tokensUpTo]
    cases ha : lexer.advance with
    | error fault last =>
      rw [ha] at hview
      obtain ⟨c, rest, hrest, hlast, hplace⟩ := View.advance_eq_error hview.1
      have hlast : last.cursor = lexer.view.nextCursor.move (Scan.token c rest).taken.length :=
        hlast
      refine ⟨[], lexer.view.skipped, (Scan.token c rest).taken, hnone, ?_, ?_, hplace⟩
      · rw [hlast]
        exact View.split_of_scan hrest
      · rw [hlast]
        exact lexer.view.move_nextCursor _
    | ok place next =>
      rw [ha] at hview
      obtain ⟨hadvance, hsound, hgrows⟩ := hview
      rcases View.advance_eq_ok hgoing hadvance with
        ⟨hnil, hend, -⟩ | ⟨c, rest, lexeme, stack, hrest, hfound, htrack, -, hnext⟩
      · have hlook : next.lookahead = .ended := hend
        have hlast : next.cursor = lexer.view.nextCursor := by
          rw [View.advance_of_ne_ended _ hgoing, hnil] at hadvance
          exact (congrArg (fun result => result.2.cursor) hadvance).symm
        have hall := lexer.view.skipped_append
        rw [hnil, List.append_nil] at hall
        simp only [hlook, Lookahead.token?]
        exact ⟨[], lexer.view.skipped, hnone, hall, hlast⟩
      · have hlook : next.lookahead = .ready (View.tokenAt lexer.file lexer.view.nextCursor c rest
          lexeme) := congrArg View.lookahead hnext
        have hstack : next.brackets.stack = stack := congrArg View.stack hnext
        have hnext : next.cursor = lexer.view.nextCursor.move (Scan.token c rest).taken.length :=
          congrArg View.cursor hnext
        let piece : Piece :=
          ⟨lexer.view.skipped, View.tokenAt lexer.file lexer.view.nextCursor c rest lexeme⟩
        have hfits : piece.Fits lexer.file lexer.cursor lexer.brackets.stack :=
          View.fits_of_found hrest hfound
        have htext : piece.text = lexer.view.skipped ++ (Scan.token c rest).taken := by
          simp [piece, Piece.text, View.tokenAt]
        have hmoved : next.cursor = lexer.cursor.move piece.text.length := by
          rw [hnext, htext]
          exact lexer.view.move_nextCursor _
        have hsplit : piece.text ++ (lexer.cursor.move piece.text.length).rest =
            lexer.cursor.rest := by
          rw [← hmoved, hnext, htext]
          exact View.split_of_scan hrest
        have hshorter : next.cursor.rest.length < lexer.cursor.rest.length := by
          have hpos := List.length_pos_iff.mpr (Scan.token_found c rest lexeme hfound).2
          have hlength := congrArg List.length hsplit
          rw [← hmoved, htext] at hlength
          simp only [List.length_append] at hlength
          omega
        have hrun := ih next hsound (by rw [hlook]; simp) (by omega)
        rw [hgrows.file, hstack, hmoved] at hrun
        simp only [hlook, Lookahead.token?]
        exact hrun.cons hfits htrack hsplit

end Lexer

/-- The tokens of a source tile it. -/
theorem tiled_tokenize (file source : String) :
    Tiled file (.start source.toList) [] (tokenize file source) := by
  exact Lexer.tiled_tokensUpTo (.ofSource file source) Brackets.sound_none
    (Lexer.going_ofSource file source) _ (Nat.lt_succ_self _)

end FrontEnd
