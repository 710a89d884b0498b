import FrontEnd.Proofs.Highlight.Rules
import FrontEnd.Proofs.Lexer.Scanned
import Mathlib.Data.List.DropRight
import Mathlib.Data.List.Forall2

/-!
# The highlighter cuts texts as the lexer does

A text that can be split into tokens is a row of scans with blanks between them; to the highlighter,
newlines that separate are blanks too. Piece by piece, the highlighter takes these blanks and scans.

* `Strewn` — tokens in a text with blanks around them.
* `strewn_of_tokenize` — the tokens of a source, without its newlines, in the source.
* `Strewn.tidied` — and in the source made ready for display.
* `pieces_of_strewn` — the pieces of such a text are its blanks and its tokens.
* `pieces_follow_tokens` — the pieces of a source are coloured after its tokens.
-/

set_option autoImplicit false

namespace FrontEnd.Highlight

/-! ## Scans in front of a last newline -/

/-- What is scanned in front of a last newline is scanned without it. -/
theorem token_concat_newline (c : Char) {rest : List Char} {lexeme : Lexeme}
    (h : (Scan.token c (rest ++ ['\n'])).found = .ok lexeme) :
    Scan.token c (rest ++ ['\n']) = Scan.token c rest := by
  by_cases hquote : c = '"'
  · subst hquote
    rw [Scan.token_quote] at h ⊢
    rw [Scan.token_quote]
    -- the quote that closes the text is no newline
    cases hbehind : rest.dropWhile (· != '"') with
    | nil => simp [Scan.quotedRest, List.dropWhile_append, hbehind] at h
    | cons quote behind =>
      have hclosed : ∃ closed, (Scan.quotedRest rest).found = .ok closed := by
        simp [Scan.quotedRest, hbehind]
      obtain ⟨closed, hclosed⟩ := hclosed
      exact Scan.quotedRest_joined hclosed _
  · exact Scan.token_joined_of_ne_quote hquote (Scan.delimits_newline _)

/-! ## Tokens among blanks -/

/-- Tokens that are scanned from a text one after the other, with blanks around them. A newline is
one of the blanks, be it a separator or not. -/
inductive Strewn : List Token → List Char → Prop
  | blank {gap : List Char} : (∀ c ∈ gap, Text.isBlank c = true) → Strewn [] gap
  | token {gap rest : List Char} {c : Char} {token : Token} {tokens : List Token} :
      (∀ c ∈ gap, Text.isBlank c = true) → c ≠ '\n' →
      (Scan.token c rest).found = .ok token.lexeme →
      token.text.toList = (Scan.token c rest).taken →
      Strewn tokens ((c :: rest).drop (Scan.token c rest).taken.length) →
      Strewn (token :: tokens) (gap ++ c :: rest)

/-- Blanks in front change nothing. -/
theorem Strewn.behind_blanks {tokens : List Token} {text : List Char} (h : Strewn tokens text)
    {gap : List Char} (hgap : ∀ c ∈ gap, Text.isBlank c = true) : Strewn tokens (gap ++ text) := by
  have hall : ∀ inner : List Char, (∀ c ∈ inner, Text.isBlank c = true) →
      ∀ c ∈ gap ++ inner, Text.isBlank c = true := by
    intro inner hinner c hc
    rcases List.mem_append.mp hc with hc | hc
    · exact hgap c hc
    · exact hinner c hc
  cases h with
  | blank hinner => exact .blank (hall _ hinner)
  | token hinner hc hfound htext hmore =>
    rw [← List.append_assoc]
    exact .token (hall _ hinner) hc hfound htext hmore

/-- The tokens of a row of scans, without newlines, in its text. -/
theorem strewn_of_scanned {file : String} {cursor : Cursor} {tokens : List Token}
    (h : Scanned file cursor tokens) : Strewn (tokens.filter (·.text != "\n")) cursor.rest := by
  induction h with
  | blank hblank => exact .blank hblank
  | @token cursor gap behind token tokens hgap hrest hreads _ _ ih =>
    obtain ⟨c, inner, hspelling, hscan⟩ := hreads
    have hbehind : (cursor.move (gap ++ token.text.toList).length).rest = behind := by
      rw [Cursor.rest_move, hrest, ← List.append_assoc]
      exact List.drop_left
    rw [hbehind] at ih
    rw [hrest]
    by_cases hc : c = '\n'
    · -- a separator is dropped with the blanks in front of it
      subst hc
      have htext : token.text.toList = ['\n'] := by
        rw [Scan.token_newline] at hscan
        exact (congrArg Scan.taken hscan).symm
      have hdropped : token.text = "\n" := String.toList_injective htext
      have hnewline : ∀ c ∈ ['\n'], Text.isBlank c = true :=
        List.forall_mem_singleton.mpr (by decide)
      rw [List.filter_cons_of_neg (by simp [hdropped]), htext]
      exact (ih.behind_blanks hnewline).behind_blanks hgap
    · have hkept : token.text ≠ "\n" := by
        intro htext
        rw [htext] at hspelling
        exact hc (List.cons.inj hspelling).1.symm
      rw [List.filter_cons_of_pos (by simpa using hkept), hspelling, List.cons_append]
      have hdrop : (token.text.toList ++ behind).drop token.text.toList.length = behind :=
        List.drop_left
      rw [← hdrop, hspelling] at ih
      refine .token hgap hc (congrArg Scan.found hscan) (congrArg Scan.taken hscan).symm ?_
      rw [congrArg Scan.taken hscan, hspelling]
      exact ih

/-- The tokens of a source, without newlines, in the source. -/
theorem strewn_of_tokenize {file source : String} {tokens : List Token} {last : Lexer}
    (h : tokenize file source = (tokens, none, last)) :
    Strewn (tokens.filter (·.text != "\n")) source.toList :=
  strewn_of_scanned (scanned_of_tokenize h)

/-! ## Texts made ready for display -/

namespace Strewn

variable {tokens : List Token} {text : List Char}

theorem of_newline_cons (h : Strewn tokens ('\n' :: text)) : Strewn tokens text := by
  generalize hwhole : '\n' :: text = whole at h
  cases h with
  | blank hgap =>
    subst hwhole
    exact .blank fun c hc => hgap c (List.mem_cons_of_mem _ hc)
  | @token gap rest c token tokens hgap hc hfound htext hmore =>
    cases gap with
    | nil => exact absurd (List.cons.inj hwhole).1.symm hc
    | cons d gap =>
      obtain ⟨-, rfl⟩ := List.cons.inj hwhole
      exact .token (fun e he => hgap e (List.mem_cons_of_mem _ he)) hc hfound htext hmore

theorem dropWhile_newline (h : Strewn tokens text) :
    Strewn tokens (text.dropWhile (· == '\n')) := by
  induction text with
  | nil => exact h
  | cons c text ih =>
    by_cases hc : c = '\n'
    · subst hc
      rw [List.dropWhile_cons_of_pos (by simp)]
      exact ih h.of_newline_cons
    · rw [List.dropWhile_cons_of_neg (by simpa using hc)]
      exact h

/-- A newline behind a text changes none of its scans. -/
theorem concat_newline (h : Strewn tokens text) : Strewn tokens (text ++ ['\n']) := by
  induction h with
  | @blank gap hgap =>
    refine .blank fun c hc => ?_
    rcases List.mem_append.mp hc with hc | hc
    · exact hgap c hc
    · rw [List.mem_singleton.mp hc]
      decide
  | @token gap rest c token tokens hgap hc hfound htext hmore ih =>
    have hsame : Scan.token c (rest ++ ['\n']) = Scan.token c rest :=
      Scan.token_joined c hfound (Scan.delimits_newline _)
    have hlength := (Scan.token_taken_isPrefix c rest).length_le
    rw [← List.drop_append_of_le_length hlength, List.cons_append] at ih
    rw [List.append_assoc, List.cons_append]
    rw [← hsame] at hfound htext ih
    exact .token hgap hc hfound htext ih

/-- Nor does a newline that was there. -/
theorem of_concat_newline (h : Strewn tokens (text ++ ['\n'])) : Strewn tokens text := by
  generalize hwhole : text ++ ['\n'] = whole at h
  induction h generalizing text with
  | @blank gap hgap =>
    subst hwhole
    exact .blank fun c hc => hgap c (List.mem_append_left _ hc)
  | @token gap rest c token tokens hgap hc hfound htext hmore ih =>
    obtain ⟨rest, rfl⟩ : ∃ front, rest = front ++ ['\n'] := by
      rcases List.eq_nil_or_concat rest with rfl | ⟨front, last, rfl⟩
      · exact absurd (List.append_inj_right' hwhole rfl) (by simpa using hc.symm)
      · rw [List.concat_eq_append] at hwhole ⊢
        have hassoc := hwhole.trans (List.append_assoc gap (c :: front) _).symm
        have hlast := List.append_inj_right' hassoc rfl
        exact ⟨front, by rw [← hlast]⟩
    rw [← List.cons_append, ← List.append_assoc] at hwhole
    obtain rfl := List.append_cancel_right hwhole
    have hsame := token_concat_newline c hfound
    have hlength := (Scan.token_taken_isPrefix c rest).length_le
    rw [hsame] at hfound htext ih
    refine .token hgap hc hfound htext (ih ?_)
    rw [← List.cons_append, List.drop_append_of_le_length hlength]

theorem rdropWhile_newline (h : Strewn tokens text) :
    Strewn tokens (text.rdropWhile (· == '\n')) := by
  induction text using List.reverseRecOn with
  | nil => exact h
  | append_singleton text c ih =>
    by_cases hc : c = '\n'
    · subst hc
      rw [List.rdropWhile_concat_pos _ _ _ (by simp)]
      exact ih h.of_concat_newline
    · rw [List.rdropWhile_concat_neg _ _ _ (by simpa using hc)]
      exact h

end Strewn

theorem unifyNewlines_eq {text : List Char} (h : '\r' ∉ text) : Text.unifyNewlines text = text := by
  fun_induction Text.unifyNewlines text with
  | case1 => rfl
  | case2 | case3 => simp at h
  | case4 c rest _ _ ih => rw [ih fun hmem => h (List.mem_cons_of_mem c hmem)]

/-- How a text of ASCII characters without carriage returns is made ready for display. -/
theorem tidied_eq {text : List Char} (hascii : IsAscii text) (hreturn : '\r' ∉ text) :
    tidied text = (text.dropWhile (· == '\n')).rdropWhile (· == '\n') ++ ['\n'] := by
  have hmark : ¬ text.head? = some '\ufeff' := fun h =>
    absurd (hascii _ (List.mem_of_mem_head? h)) (by decide)
  simp only [tidied, hmark, if_false, unifyNewlines_eq hreturn]
  rfl

/-- The tokens of a text are those of the text made ready for display. -/
theorem Strewn.tidied {tokens : List Token} {text : List Char} (h : Strewn tokens text)
    (hascii : IsAscii text) (hreturn : '\r' ∉ text) : Strewn tokens (tidied text) := by
  rw [tidied_eq hascii hreturn]
  exact h.dropWhile_newline.rdropWhile_newline.concat_newline

theorem IsAscii.tidied {text : List Char} (hascii : IsAscii text) (hreturn : '\r' ∉ text) :
    IsAscii (tidied text) := by
  rw [tidied_eq hascii hreturn]
  intro c hc
  rcases List.mem_append.mp hc with hc | hc
  · exact hascii c ((List.dropWhile_sublist _).subset ((List.rdropWhile_prefix _ _).subset hc))
  · rw [List.mem_singleton.mp hc]
    decide

/-! ## Pieces and tokens -/

/-- Whether a piece is blank. -/
def Piece.isBlank (piece : Piece) : Bool :=
  piece.text.toList.all Text.isBlank

/-- A piece shows a token: its text, in a style that suits it. -/
structure Piece.Shows (piece : Piece) (token : Token) : Prop where
  text : piece.text = token.text
  style : piece.style.Suits token.lexeme

/-- Pieces without errors show tokens in order, with blank pieces between them. -/
structure Show (pieces : List Piece) (tokens : List Token) : Prop where
  clean : ∀ piece ∈ pieces, piece.style ≠ .error
  shown : List.Forall₂ Piece.Shows (pieces.filter (!·.isBlank)) tokens

theorem Style.Suits.ne_error {style : Style} {lexeme : Lexeme} (h : style.Suits lexeme) :
    style ≠ .error := by
  rintro rfl
  cases lexeme with
  | operator symbol =>
    have hstyle : Style.error = if symbol = "=>" then .punctuation else .operator := h
    split at hstyle <;> cases hstyle
  | identifier name => rcases h with h | h | h <;> cases h
  | signed | float | quoted | opening | closing | semicolon | comma => cases h

namespace Show

variable {piece : Piece} {pieces : List Piece} {token : Token} {tokens : List Token}

theorem nil : Show [] [] :=
  ⟨fun _ h => absurd h List.not_mem_nil, .nil⟩

theorem blank (h : Show pieces tokens) (hstyle : piece.style = .text)
    (hblank : piece.isBlank = true) : Show (piece :: pieces) tokens := by
  refine ⟨fun other hother => ?_, ?_⟩
  · rcases List.mem_cons.mp hother with rfl | hother
    · rw [hstyle]
      decide
    · exact h.clean other hother
  · rw [List.filter_cons_of_neg (by simp [hblank])]
    exact h.shown

theorem cons (h : Show pieces tokens) (hpiece : piece.Shows token)
    (hblank : piece.isBlank = false) : Show (piece :: pieces) (token :: tokens) := by
  refine ⟨fun other hother => ?_, ?_⟩
  · rcases List.mem_cons.mp hother with rfl | hother
    · exact hpiece.style.ne_error
    · exact h.clean other hother
  · rw [List.filter_cons_of_pos (by simp [hblank])]
    exact .cons hpiece h.shown

end Show

/-- Blanks in front of what is not blank are one piece. -/
theorem firstPiece_gap (before : Option Char) {gap behind : List Char} (hne : gap ≠ [])
    (hgap : ∀ c ∈ gap, Text.isBlank c = true)
    (hbehind : ∀ c rest, behind = c :: rest → Text.isBlank c = false) :
    firstPiece before (gap ++ behind) = (.text, gap.length) := by
  have htaken := Scan.takeWhile_append_of_all hgap hbehind
  obtain ⟨n, hn⟩ : ∃ n, gap.length = n + 1 :=
    ⟨gap.length - 1, by have := List.length_pos_iff.mpr hne; omega⟩
  have hblank : blankLength (gap ++ behind) = some gap.length := by
    simp only [blankLength, run, htaken, hn]
  simp [firstPiece, rules, hblank]

/-- The pieces of every text, however they are counted, show the tokens. -/
def ShownIn (tokens : List Token) (text : List Char) : Prop :=
  ∀ (bound start : Nat) (before : Option Char), text.length ≤ bound →
    Show (piecesFrom bound start before text) tokens

theorem piecesFrom_cons {bound start : Nat} {before : Option Char} {text : List Char}
    (hne : text ≠ []) :
    piecesFrom (bound + 1) start before text =
      ⟨start, (firstPiece before text).1, String.ofList (text.take (firstPiece before text).2)⟩ ::
        piecesFrom bound (start + (firstPiece before text).2)
          ((text.take (firstPiece before text).2).getLast?.or before)
          (text.drop (firstPiece before text).2) := by
  rw [piecesFrom]
  exact hne

/-- Blanks in front of what is not blank are cut off as one piece. -/
theorem piecesFrom_gap {bound start : Nat} {before : Option Char} {gap text : List Char}
    (hne : gap ≠ []) (hgap : ∀ c ∈ gap, Text.isBlank c = true)
    (htext : ∀ c rest, text = c :: rest → Text.isBlank c = false) :
    piecesFrom (bound + 1) start before (gap ++ text) =
      ⟨start, .text, String.ofList gap⟩ ::
        piecesFrom bound (start + gap.length) (gap.getLast?.or before) text := by
  rw [piecesFrom_cons (by simp [hne]), firstPiece_gap before hne hgap htext]
  dsimp only
  rw [List.take_left, List.drop_left]

/-- What is scanned is cut off as one piece. -/
theorem piecesFrom_scan {bound start : Nat} {before : Option Char} {c : Char} {rest : List Char}
    {lexeme : Lexeme} (hascii : IsAscii (c :: rest))
    (hfound : (Scan.token c rest).found = .ok lexeme) (hnewline : c ≠ '\n') :
    piecesFrom (bound + 1) start before (c :: rest) =
      ⟨start, (firstPiece before (c :: rest)).1, String.ofList (Scan.token c rest).taken⟩ ::
        piecesFrom bound (start + (Scan.token c rest).taken.length)
          ((Scan.token c rest).taken.getLast?.or before)
          ((c :: rest).drop (Scan.token c rest).taken.length) := by
  obtain ⟨style, -, hpiece⟩ := firstPiece_of_found before hascii hfound hnewline
  have htaken : (c :: rest).take (Scan.token c rest).taken.length = (Scan.token c rest).taken :=
    (List.prefix_iff_eq_take.mp (Scan.token_taken_isPrefix c rest)).symm
  rw [piecesFrom_cons (List.cons_ne_nil c rest), hpiece]
  dsimp only
  rw [htaken]

theorem Piece.isBlank_gap {start : Nat} {style : Style} {gap : List Char}
    (hgap : ∀ c ∈ gap, Text.isBlank c = true) :
    (⟨start, style, String.ofList gap⟩ : Piece).isBlank = true := by
  rw [Piece.isBlank, String.toList_ofList]
  exact List.all_eq_true.mpr hgap

theorem Piece.isBlank_scan {start : Nat} {style : Style} {c : Char} {rest : List Char}
    {lexeme : Lexeme} (hfound : (Scan.token c rest).found = .ok lexeme)
    (hblank : Text.isBlank c = false) :
    (⟨start, style, String.ofList (Scan.token c rest).taken⟩ : Piece).isBlank = false := by
  obtain ⟨behind, hbehind⟩ := Scan.token_taken_isPrefix c rest
  obtain ⟨d, inner, htaken⟩ :=
    List.exists_cons_of_ne_nil (Scan.token_found c rest lexeme hfound).2
  rw [htaken, List.cons_append] at hbehind
  obtain ⟨rfl, -⟩ := List.cons.inj hbehind
  rw [Piece.isBlank, String.toList_ofList, htaken, List.all_cons, hblank, Bool.false_and]

theorem ShownIn.behind_gap {tokens : List Token} {gap text : List Char} (h : ShownIn tokens text)
    (hgap : ∀ c ∈ gap, Text.isBlank c = true)
    (htext : ∀ c rest, text = c :: rest → Text.isBlank c = false) :
    ShownIn tokens (gap ++ text) := by
  intro bound start before hbound
  by_cases hne : gap = []
  · subst hne
    exact h bound start before hbound
  · have hpos := List.length_pos_iff.mpr hne
    rw [List.length_append] at hbound
    obtain ⟨bound, rfl⟩ : ∃ n, bound = n + 1 := ⟨bound - 1, by omega⟩
    rw [piecesFrom_gap hne hgap htext]
    exact (h bound _ _ (by omega)).blank rfl (Piece.isBlank_gap hgap)

/-- The token of a scan is one piece. -/
theorem ShownIn.behind_scan {tokens : List Token} {token : Token} {c : Char} {rest : List Char}
    (h : ShownIn tokens ((c :: rest).drop (Scan.token c rest).taken.length))
    (hascii : IsAscii (c :: rest)) (hfound : (Scan.token c rest).found = .ok token.lexeme)
    (htext : token.text.toList = (Scan.token c rest).taken) (hnewline : c ≠ '\n')
    (hblank : Text.isBlank c = false) : ShownIn (token :: tokens) (c :: rest) := by
  intro bound start before hbound
  have hpos := List.length_pos_iff.mpr (Scan.token_found c rest token.lexeme hfound).2
  obtain ⟨style, hsuits, hpiece⟩ := firstPiece_of_found before hascii hfound hnewline
  rw [List.length_cons] at hbound
  obtain ⟨bound, rfl⟩ : ∃ n, bound = n + 1 := ⟨bound - 1, by omega⟩
  have hrest : ((c :: rest).drop (Scan.token c rest).taken.length).length ≤ bound := by
    rw [List.length_drop, List.length_cons]
    omega
  rw [piecesFrom_scan hascii hfound hnewline, hpiece]
  refine (h bound _ _ hrest).cons ⟨?_, hsuits⟩ (Piece.isBlank_scan hfound hblank)
  rw [← htext, String.ofList_toList]

/-- No scan but that of a newline begins with a blank. -/
theorem isBlank_of_found {c : Char} {rest : List Char} {lexeme : Lexeme}
    (h : (Scan.token c rest).found = .ok lexeme) (hnewline : c ≠ '\n') :
    Text.isBlank c = false := by
  by_contra hblank
  obtain ⟨behind, hbehind, d, inner, hspelling, hscan⟩ := Scan.exists_reads h
  rw [hspelling, List.cons_append] at hbehind
  obtain ⟨rfl, -⟩ := List.cons.inj hbehind
  have heq := Scan.Reads.eq_newline ⟨c, inner, rfl, hspelling ▸ hscan⟩ (by simpa using hblank)
  exact hnewline (List.cons.inj heq).1

/-- **The pieces of a text with tokens among blanks show the tokens.** -/
theorem shownIn_of_strewn {tokens : List Token} {text : List Char} (h : Strewn tokens text)
    (hascii : IsAscii text) : ShownIn tokens text := by
  induction h with
  | @blank gap hgap =>
    have hnil : ShownIn [] [] := by
      intro bound start before _
      cases bound <;> exact .nil
    rw [← List.append_nil gap]
    exact hnil.behind_gap hgap (by simp)
  | @token gap rest c token tokens hgap hc hfound htext hmore ih =>
    have hascii' : IsAscii (c :: rest) := fun d hd => hascii d (List.mem_append_right gap hd)
    have hblank := isBlank_of_found hfound hc
    refine ShownIn.behind_gap ?_ hgap ?_
    · exact (ih (hascii'.drop _)).behind_scan hascii' hfound htext hc hblank
    · intro d others heq
      rw [← (List.cons.inj heq).1]
      exact hblank

/-- **The highlighter cuts a source as the lexer does.** Neither in the source nor in the source
made ready for display is anything an error, and the pieces that are not blank are the tokens, in
order and without the newlines that separate, each in a style that suits its lexeme. -/
theorem pieces_follow_tokens (file source : String) (tokens : List Token) (last : Lexer)
    (hascii : IsAscii source.toList) (hreturn : '\r' ∉ source.toList)
    (h : tokenize file source = (tokens, none, last)) :
    ∀ text ∈ [source.toList, tidied source.toList],
      (∀ piece ∈ pieces text, piece.style ≠ .error) ∧
        List.Forall₂ Piece.Shows ((pieces text).filter (!·.isBlank))
          (tokens.filter (·.text != "\n")) := by
  have hstrewn := strewn_of_tokenize h
  have hshown : ∀ text, Strewn (tokens.filter (·.text != "\n")) text → IsAscii text →
      (∀ piece ∈ pieces text, piece.style ≠ .error) ∧
        List.Forall₂ Piece.Shows ((pieces text).filter (!·.isBlank))
          (tokens.filter (·.text != "\n")) := by
    intro text htext hplain
    obtain ⟨hclean, hpieces⟩ := shownIn_of_strewn htext hplain text.length 0 none (Nat.le_refl _)
    exact ⟨hclean, hpieces⟩
  intro text hmem
  rcases List.mem_pair.mp hmem with rfl | rfl
  · exact hshown _ hstrewn hascii
  · exact hshown _ (hstrewn.tidied hascii hreturn) (hascii.tidied hreturn)

/-- A source with a sign and an arrow inside longer operators, a point that is no fraction, a text
over two lines and empty lines around it all. -/
def mixedSource : String :=
  "\n\nlet_it =let=> -1.5=>- 2.x, \"a\n;b\"\n[Ab1 ->(\n3--4\n)];\n\n"

/-- It can be split into tokens. -/
theorem pieces_follow_tokens_mixed :
    IsAscii mixedSource.toList ∧ '\r' ∉ mixedSource.toList ∧
      (tokenize "mixed" mixedSource).2.1 = none ∧
      ∀ text ∈ [mixedSource.toList, tidied mixedSource.toList],
        (∀ piece ∈ pieces text, piece.style ≠ .error) ∧
          List.Forall₂ Piece.Shows ((pieces text).filter (!·.isBlank))
            ((tokenize "mixed" mixedSource).1.filter (·.text != "\n")) := by
  have hcodes : mixedSource.toList.all (fun c => decide (c.toNat < 128)) = true := by
    decide +kernel
  have hascii : IsAscii mixedSource.toList :=
    fun c hc => of_decide_eq_true (List.all_eq_true.mp hcodes c hc)
  have hreturn : '\r' ∉ mixedSource.toList := by decide +kernel
  have hended : (tokenize "mixed" mixedSource).2.1 = none := by decide +kernel
  have h : tokenize "mixed" mixedSource =
      ((tokenize "mixed" mixedSource).1, none, (tokenize "mixed" mixedSource).2.2) := by
    rw [← hended]
  exact ⟨hascii, hreturn, hended, pieces_follow_tokens "mixed" mixedSource _ _ hascii hreturn h⟩

example : ((pieces mixedSource.toList).take 11).map (fun piece => (piece.style, piece.text)) =
    [(.text, "\n\n"), (.name, "let_it"), (.text, " "), (.operator, "="), (.keyword, "let"),
      (.punctuation, "=>"), (.text, " "), (.float, "-1.5"), (.operator, "=>-"), (.text, " "),
      (.integer, "2")] := by
  decide +kernel

end FrontEnd.Highlight
