import FrontEnd.Proofs.Highlight.Pieces
import FrontEnd.Proofs.Source.Abutting

/-!
# Names are coloured by what they are

A name is shown as a keyword, as a constructor or as another name. A keyword is one only where no
part of a word is directly in front of it, so behind a number it is shown as any other name; nothing
else that may stand next to a name changes how it is shown.

* `joinedTokens` — the tokens of a text, each with whether a part of a word is directly in front.
* `colouredIn_of_strewn` — the pieces of a text are coloured after its tokens so marked.
* `joinedTokens_of_scanned` — in a source, the names so marked are those directly behind numbers.
* `Strewn.joinedTokens_tidied` — and they are the same in the source made ready for display.
* `names_coloured` — how the names of a source are coloured.
-/

set_option autoImplicit false

namespace FrontEnd.Highlight

/-! ## Tokens with what is in front of them -/

/-- The tokens of a text, each with whether it stands directly behind a part of a word; `joined`
says whether the text does. -/
def joinedTokens : Bool → List Token → List Char → List (Token × Bool)
  | _, [], _ => []
  | joined, token :: tokens, text =>
      (token, joined && !text.head?.any Text.isBlank) ::
        joinedTokens token.endsInWord tokens
          ((text.dropWhile Text.isBlank).drop token.text.toList.length)

section Joined

variable {joined : Bool} {token : Token} {tokens : List Token} {c : Char}
  {gap text rest : List Char}

/-- Nothing stands directly behind a part of a word, if blanks are between them. -/
theorem joinedTokens_gap (hne : gap ≠ []) (hgap : ∀ c ∈ gap, Text.isBlank c = true) :
    joinedTokens joined tokens (gap ++ text) = joinedTokens false tokens text := by
  cases tokens with
  | nil => rfl
  | cons token tokens =>
    have hhead : (gap ++ text).head?.any Text.isBlank = true := by
      obtain ⟨d, inner, rfl⟩ := List.exists_cons_of_ne_nil hne
      exact hgap d List.mem_cons_self
    simp only [joinedTokens, List.dropWhile_append_of_pos hgap, hhead, Bool.not_true,
      Bool.and_false, Bool.false_and]

/-- The token at the start of a text, and those behind it. -/
theorem joinedTokens_scan (hblank : Text.isBlank c = false) :
    joinedTokens joined (token :: tokens) (c :: rest) =
      (token, joined) ::
        joinedTokens token.endsInWord tokens ((c :: rest).drop token.text.toList.length) := by
  simp [joinedTokens, hblank]

/-- The first token behind a gap, and those behind it. -/
theorem joinedTokens_cons (hgap : ∀ c ∈ gap, Text.isBlank c = true)
    (hblank : Text.isBlank c = false) :
    joinedTokens joined (token :: tokens) (gap ++ c :: rest) =
      (token, joined && gap.isEmpty) ::
        joinedTokens token.endsInWord tokens ((c :: rest).drop token.text.toList.length) := by
  by_cases hnil : gap = []
  · subst hnil
    rw [List.nil_append, joinedTokens_scan hblank, List.isEmpty_nil, Bool.and_true]
  · rw [joinedTokens_gap hnil hgap, joinedTokens_scan hblank, List.isEmpty_eq_false_iff.mpr hnil,
      Bool.and_false]

end Joined

/-! ## Pieces are coloured after the tokens -/

/-- A piece shows a token, and if the token is a name, as what it is. -/
structure Piece.Colours (piece : Piece) (entry : Token × Bool) : Prop where
  text : piece.text = entry.1.text
  style : ∀ name, entry.1.lexeme = .identifier name → piece.style = nameStyle entry.2 name

/-- The first piece in front of a name. -/
theorem firstPiece_identifier (before : Option Char) {c : Char} {rest : List Char} {name : String}
    (hascii : IsAscii (c :: rest)) (hfound : (Scan.token c rest).found = .ok (.identifier name)) :
    (firstPiece before (c :: rest)).1 = nameStyle (before.any Text.isWordPart) name := by
  have hword := Scan.token_identifier hfound
  obtain ⟨kind, hlongest⟩ := Scan.longest_of_found hfound
  have hstart : Text.isWordStart c = true := by
    obtain ⟨behind, hbehind⟩ := hlongest.isPrefix
    have hspells := hlongest.spells
    generalize (Scan.token c rest).taken = taken at hspells hbehind
    cases hspells with
    | word hstart =>
      rw [List.cons_append] at hbehind
      rwa [← (List.cons.inj hbehind).1]
    | punctuation hmark =>
      unfold Scan.punctuation? at hmark
      split at hmark <;> cases hmark
  have hname : String.ofList (Scan.word (c :: rest)).taken = name := by
    rw [hword] at hfound
    exact Lexeme.identifier.inj (Except.ok.inj hfound)
  rw [firstPiece_name before hascii hstart, hname]

/-- The pieces of a text, however they are counted, are coloured after the tokens. -/
def ColouredIn (tokens : List Token) (text : List Char) : Prop :=
  ∀ (bound start : Nat) (before : Option Char), text.length ≤ bound →
    List.Forall₂ Piece.Colours ((piecesFrom bound start before text).filter (!·.isBlank))
      (joinedTokens (before.any Text.isWordPart) tokens text)

namespace ColouredIn

variable {tokens : List Token} {text : List Char}

theorem nil : ColouredIn [] [] := by
  intro bound start before _
  cases bound <;> exact .nil

theorem behind_gap {gap : List Char} (h : ColouredIn tokens text)
    (hgap : ∀ c ∈ gap, Text.isBlank c = true)
    (htext : ∀ c rest, text = c :: rest → Text.isBlank c = false) :
    ColouredIn tokens (gap ++ text) := by
  intro bound start before hbound
  by_cases hne : gap = []
  · subst hne
    exact h bound start before hbound
  · have hpos := List.length_pos_iff.mpr hne
    rw [List.length_append] at hbound
    obtain ⟨bound, rfl⟩ : ∃ n, bound = n + 1 := ⟨bound - 1, by omega⟩
    have hends : (gap.getLast?.or before).any Text.isWordPart = false := by
      have hlast := List.getLast?_eq_some_getLast hne
      rw [hlast]
      exact endsOutside_of_blank hgap _ hlast
    have hmore := h bound (start + gap.length) (gap.getLast?.or before) (by omega)
    rw [hends] at hmore
    rw [piecesFrom_gap hne hgap htext, joinedTokens_gap hne hgap,
      List.filter_cons_of_neg (by simp [Piece.isBlank_gap hgap])]
    exact hmore

/-- The token of a scan is one piece, and what follows it stands behind its last character. -/
theorem behind_scan {token : Token} {c : Char} {rest : List Char}
    (h : ColouredIn tokens ((c :: rest).drop (Scan.token c rest).taken.length))
    (hascii : IsAscii (c :: rest)) (hfound : (Scan.token c rest).found = .ok token.lexeme)
    (htext : token.text.toList = (Scan.token c rest).taken) (hnewline : c ≠ '\n')
    (hblank : Text.isBlank c = false) : ColouredIn (token :: tokens) (c :: rest) := by
  intro bound start before hbound
  have hne := (Scan.token_found c rest token.lexeme hfound).2
  have hpos := List.length_pos_iff.mpr hne
  rw [List.length_cons] at hbound
  obtain ⟨bound, rfl⟩ : ∃ n, bound = n + 1 := ⟨bound - 1, by omega⟩
  have hlast : ((Scan.token c rest).taken.getLast?.or before).any Text.isWordPart =
      token.endsInWord := by
    rw [Token.endsInWord, htext, List.getLast?_eq_some_getLast hne]
    rfl
  have hmore := h bound (start + (Scan.token c rest).taken.length)
    ((Scan.token c rest).taken.getLast?.or before) (by
      rw [List.length_drop, List.length_cons]
      omega)
  rw [hlast] at hmore
  rw [joinedTokens_scan hblank, htext, piecesFrom_scan hascii hfound hnewline,
    List.filter_cons_of_pos (by simp [Piece.isBlank_scan hfound hblank])]
  refine .cons ⟨?_, fun name hname => ?_⟩ hmore
  · rw [← htext, String.ofList_toList]
  · dsimp only at hname
    rw [hname] at hfound
    exact firstPiece_identifier before hascii hfound

end ColouredIn

/-- **The pieces of a text with tokens among blanks are coloured after the tokens.** -/
theorem colouredIn_of_strewn {tokens : List Token} {text : List Char} (h : Strewn tokens text)
    (hascii : IsAscii text) : ColouredIn tokens text := by
  induction h with
  | @blank gap hgap =>
    rw [← List.append_nil gap]
    exact ColouredIn.nil.behind_gap hgap (by simp)
  | @token gap rest c token tokens hgap hc hfound htext hmore ih =>
    have hascii' : IsAscii (c :: rest) := fun d hd => hascii d (List.mem_append_right gap hd)
    have hblank := isBlank_of_found hfound hc
    refine ColouredIn.behind_gap ?_ hgap ?_
    · exact (ih (hascii'.drop _)).behind_scan hascii' hfound htext hc hblank
    · rintro d others ⟨⟩
      exact hblank

/-! ## Names directly behind numbers -/

section Scanned

variable {joined : Bool} {gap behind : List Char} {token : Token} {tokens : List Token}

/-- A token that is read behind a gap, and those behind it. -/
theorem joinedTokens_reads (hgap : ∀ c ∈ gap, Text.isBlank c = true)
    (hreads : Scan.Reads token.text.toList token.lexeme behind) (hkept : token.text ≠ "\n") :
    joinedTokens joined (token :: tokens) (gap ++ (token.text.toList ++ behind)) =
      (token, joined && gap.isEmpty) :: joinedTokens token.endsInWord tokens behind := by
  obtain ⟨c, inner, hspelling, -⟩ := id hreads
  have hblank : Text.isBlank c = false := by
    by_contra hblank
    rw [hspelling] at hreads
    have hnewline := hreads.eq_newline (by simpa using hblank)
    exact hkept (String.toList_injective (hspelling.trans hnewline))
  have hdrop : (c :: (inner ++ behind)).drop token.text.toList.length = behind := by
    rw [hspelling, ← List.cons_append, List.drop_left]
  rw [hspelling, List.cons_append, joinedTokens_cons hgap hblank, hdrop]

/-- A separator is one of the blanks. -/
theorem joinedTokens_separator (hgap : ∀ c ∈ gap, Text.isBlank c = true)
    (hnewline : token.text = "\n") :
    joinedTokens joined tokens (gap ++ (token.text.toList ++ behind)) =
      joinedTokens token.endsInWord tokens behind := by
  have htext : token.text.toList = ['\n'] := by
    rw [hnewline]
    rfl
  have hblank : ∀ c ∈ gap ++ ['\n'], Text.isBlank c = true :=
    List.forall_mem_append.mpr ⟨hgap, List.forall_mem_singleton.mpr (by decide)⟩
  have hends : token.endsInWord = false := by
    rw [Token.endsInWord, htext]
    decide +kernel
  rw [htext, hends, ← List.append_assoc, joinedTokens_gap (by simp) hblank]

/-- **In a row of scans, the names directly behind a part of a word are those behind numbers.** -/
theorem joinedTokens_of_scanned {file name : String} {text : List Char} {cursor : Cursor}
    {previous : Option Token} {front : List Token}
    (h : Scanned file cursor (front ++ token :: tokens)) (hstands : cursor.StandsIn text)
    (hedge : Edge file text cursor previous) (hlexeme : token.lexeme = .identifier name)
    (hword : IsWord name.toList) :
    (joinedTokens (previous.any Token.endsInWord)
        ((front ++ token :: tokens).filter (·.text != "\n"))
        cursor.rest)[(front.filter (·.text != "\n")).length]? =
      some (token, token.behindNumber (front.getLast?.or previous)) := by
  induction front generalizing cursor previous with
  | nil =>
    cases h with
    | @token _ gap behind _ _ hgap hrest hreads hplace _ =>
      have htext : token.text.toList = name.toList := by
        rw [hlexeme] at hreads
        exact (startsOutside_of_reads hreads).1
      have hkept : token.text ≠ "\n" := by
        intro heq
        exact hword.no_newline (by rw [← htext, heq]; simp)
      have hcases := hedge.cases_of_word hstands hgap (htext ▸ hword) hrest hplace
      rw [List.nil_append, List.filter_cons_of_pos (by simpa using hkept), hrest,
        joinedTokens_reads hgap hreads hkept]
      rcases hcases with ⟨hfree, -, hjoined⟩ | ⟨number, before, rfl, hbehind, rfl, hjoined, -⟩
      · by_cases hnil : gap = []
        · simp [hfree, hjoined hnil]
        · simp [hfree, hnil]
      · simp [hbehind, hjoined]
  | cons other front ih =>
    cases h with
    | @token _ gap behind _ _ hgap hrest hreads hplace hmore =>
      have hnext := ih hmore (hstands.move _) (hedge.step hstands hgap hrest hreads hplace)
      have hbehind : (cursor.move (gap ++ other.text.toList).length).rest = behind := by
        rw [Cursor.rest_move, hrest, ← List.append_assoc, List.drop_left]
      have hprevious : (other :: front).getLast?.or previous = front.getLast?.or (some other) := by
        rw [List.getLast?_cons]
        cases front.getLast? <;> rfl
      rw [hbehind, Option.any_some] at hnext
      rw [hrest, hprevious, ← hnext, List.cons_append]
      by_cases hnewline : other.text = "\n"
      · rw [List.filter_cons_of_neg (by simp [hnewline]),
          List.filter_cons_of_neg (by simp [hnewline]), joinedTokens_separator hgap hnewline]
      · rw [List.filter_cons_of_pos (by simpa using hnewline),
          List.filter_cons_of_pos (by simpa using hnewline),
          joinedTokens_reads hgap hreads hnewline, List.length_cons, List.getElem?_cons_succ]

end Scanned

/-! ## Texts made ready for display -/

section Tidied

variable {joined : Bool} {tokens : List Token} {text : List Char}

theorem joinedTokens_dropWhile (tokens : List Token) (text : List Char) :
    joinedTokens false tokens (text.dropWhile (· == '\n')) = joinedTokens false tokens text := by
  have hsplit := List.takeWhile_append_dropWhile (p := (· == '\n')) (l := text)
  have hblank : ∀ c ∈ text.takeWhile (· == '\n'), Text.isBlank c = true := by
    intro c hc
    have heq : c = '\n' := by simpa using List.mem_takeWhile_imp hc
    rw [heq]
    decide
  by_cases hnil : text.takeWhile (· == '\n') = []
  · rw [hnil, List.nil_append] at hsplit
    rw [hsplit]
  · conv => rhs; rw [← hsplit]
    exact (joinedTokens_gap hnil hblank).symm

theorem Strewn.joinedTokens_concat (h : Strewn tokens text) :
    joinedTokens joined tokens (text ++ ['\n']) = joinedTokens joined tokens text := by
  induction h generalizing joined with
  | blank => rfl
  | @token gap rest c token tokens hgap hc hfound htext hmore ih =>
    have hblank := isBlank_of_found hfound hc
    have hlength : token.text.toList.length ≤ (c :: rest).length := by
      rw [htext]
      exact (Scan.token_taken_isPrefix c rest).length_le
    rw [← htext] at ih
    rw [List.append_assoc, List.cons_append, joinedTokens_cons hgap hblank,
      joinedTokens_cons hgap hblank, ← List.cons_append, List.drop_append_of_le_length hlength, ih]

theorem Strewn.joinedTokens_rdropWhile (h : Strewn tokens text) :
    joinedTokens joined tokens (text.rdropWhile (· == '\n')) = joinedTokens joined tokens text := by
  induction text using List.reverseRecOn with
  | nil => rfl
  | append_singleton text c ih =>
    by_cases hc : c = '\n'
    · subst hc
      rw [List.rdropWhile_concat_pos _ _ _ (by simp), ih h.of_concat_newline,
        h.of_concat_newline.joinedTokens_concat]
    · rw [List.rdropWhile_concat_neg _ _ _ (by simpa using hc)]

/-- What is directly in front of the tokens of a text is so in the text made ready for display. -/
theorem Strewn.joinedTokens_tidied (h : Strewn tokens text) (hascii : IsAscii text)
    (hreturn : '\r' ∉ text) :
    joinedTokens false tokens (Highlight.tidied text) = joinedTokens false tokens text := by
  have hfront := h.dropWhile_newline
  rw [tidied_eq hascii hreturn, hfront.rdropWhile_newline.joinedTokens_concat,
    hfront.joinedTokens_rdropWhile, joinedTokens_dropWhile]

end Tidied

/-! ## The names of a source -/

/-- How a name is shown, read off its style. -/
theorem nameStyle_iff (joined : Bool) (name : String) :
    (nameStyle joined name = .keyword ↔ isKeyword name = true ∧ joined = false) ∧
      (nameStyle joined name = .constructor ↔ startsUpper name = true) ∧
      (nameStyle joined name = .name ↔
        startsUpper name = false ∧ (isKeyword name = true → joined = true)) := by
  have hkeyword : isKeyword name = true → startsUpper name = false := by
    intro hname
    have hall : keywords.all (fun word => !startsUpper word) = true := by decide
    simpa using List.all_eq_true.mp hall name (List.contains_iff_mem.mp hname)
  unfold nameStyle
  cases joined <;> cases hreserved : isKeyword name <;> cases hstarts : startsUpper name <;>
    simp_all

/-- The identifiers of a source among its tokens without newlines. -/
theorem joinedTokens_of_tokenize {file source name : String} {tokens front behind : List Token}
    {token : Token} {last : Lexer} (h : tokenize file source = (tokens, none, last))
    (htokens : tokens = front ++ token :: behind) (hlexeme : token.lexeme = .identifier name) :
    (joinedTokens false (tokens.filter (·.text != "\n"))
        source.toList)[(front.filter (·.text != "\n")).length]? =
      some (token, token.behindNumber front.getLast?) := by
  have hscanned := scanned_of_tokenize h
  have hwell := wellFormed_tokenize file source token (by rw [h, htokens]; simp)
  rw [hlexeme] at hwell
  rw [htokens] at hscanned ⊢
  have hentry := joinedTokens_of_scanned hscanned (Cursor.standsIn_start _) (Edge.start file _)
    hlexeme (isWord_of_wellFormed hwell)
  rwa [Option.or_none] at hentry

/-- The piece of a name. -/
theorem exists_piece_of_joined {tokens : List Token} {text : List Char} {n : Nat} {token : Token}
    {joined : Bool} {name : String} (h : Strewn tokens text) (hascii : IsAscii text)
    (hentry : (joinedTokens false tokens text)[n]? = some (token, joined))
    (hlexeme : token.lexeme = .identifier name) :
    ∃ piece, ((pieces text).filter (!·.isBlank))[n]? = some piece ∧ piece.text = token.text ∧
      piece.style = nameStyle joined name := by
  have hcolours := colouredIn_of_strewn h hascii text.length 0 none (Nat.le_refl _)
  obtain ⟨hlt, hget⟩ := List.getElem?_eq_some_iff.mp hentry
  have hpieces := hcolours.length_eq.symm ▸ hlt
  have hpiece := hcolours.get hpieces hlt
  rw [List.get_eq_getElem, List.get_eq_getElem] at hpiece
  have hentry : Piece.Colours _ (token, joined) := hget ▸ hpiece
  exact ⟨_, List.getElem?_eq_getElem hpieces, hentry.text, hentry.style name hlexeme⟩

/-- **Names are coloured by what they are**, in a source and in the source made ready for display.
The piece of an identifier, which is counted among the pieces that are not blank as the identifier
is among the tokens without newlines, is a keyword just if its name is one and it does not stand
directly behind a number, a constructor just if its name begins with a capital letter, and another
name otherwise. -/
theorem names_coloured (file source : String) (tokens : List Token) (last : Lexer)
    (hascii : IsAscii source.toList) (hreturn : '\r' ∉ source.toList)
    (h : tokenize file source = (tokens, none, last)) (front behind : List Token) (token : Token)
    (name : String) (htokens : tokens = front ++ token :: behind)
    (hlexeme : token.lexeme = .identifier name) :
    ∀ text ∈ [source.toList, tidied source.toList],
      ∃ piece, ((pieces text).filter (!·.isBlank))[(front.filter (·.text != "\n")).length]? =
          some piece ∧
        piece.text = name ∧
        (piece.style = .keyword ↔
          isKeyword name = true ∧ token.behindNumber front.getLast? = false) ∧
        (piece.style = .constructor ↔ startsUpper name = true) ∧
        (piece.style = .name ↔ startsUpper name = false ∧
          (isKeyword name = true → token.behindNumber front.getLast? = true)) := by
  have hstrewn := strewn_of_tokenize h
  have hentry := joinedTokens_of_tokenize h htokens hlexeme
  obtain ⟨hname, -⟩ := word_of_identifier h htokens hlexeme
  have hstyled : ∀ text ∈ [source.toList, tidied source.toList],
      ∃ piece, ((pieces text).filter (!·.isBlank))[(front.filter (·.text != "\n")).length]? =
          some piece ∧ piece.text = token.text ∧
        piece.style = nameStyle (token.behindNumber front.getLast?) name := by
    intro text hmem
    rcases List.mem_pair.mp hmem with rfl | rfl
    · exact exists_piece_of_joined hstrewn hascii hentry hlexeme
    · rw [← hstrewn.joinedTokens_tidied hascii hreturn] at hentry
      exact exists_piece_of_joined (hstrewn.tidied hascii hreturn) (hascii.tidied hreturn) hentry
        hlexeme
  intro text hmem
  obtain ⟨piece, hindex, htext, hstyle⟩ := hstyled text hmem
  refine ⟨piece, hindex, htext.trans hname, ?_⟩
  rw [hstyle]
  exact nameStyle_iff _ name

/-- The same word directly behind a number and behind a blank. -/
theorem names_coloured_adjoining :
    let source := "1in\n-Some in"
    IsAscii source.toList ∧ '\r' ∉ source.toList ∧ (tokenize "adjoining" source).2.1 = none ∧
      ∀ text ∈ [source.toList, tidied source.toList],
        (((pieces text).filter (!·.isBlank))[1]?).map Piece.style = some .name ∧
          (((pieces text).filter (!·.isBlank))[4]?).map Piece.style = some .keyword := by
  intro source
  have hcodes : source.toList.all (fun c => decide (c.toNat < 128)) = true := by decide +kernel
  have hascii : IsAscii source.toList :=
    fun c hc => of_decide_eq_true (List.all_eq_true.mp hcodes c hc)
  have hreturn : '\r' ∉ source.toList := by decide +kernel
  have hended : (tokenize "adjoining" source).2.1 = none := by decide +kernel
  have h : tokenize "adjoining" source =
      ((tokenize "adjoining" source).1, none, (tokenize "adjoining" source).2.2) := by
    rw [← hended]
  let number : Token := ⟨⟨"adjoining", 1, 0⟩, .signed 1, "1"⟩
  let joined : Token := ⟨⟨"adjoining", 1, 1⟩, .identifier "in", "in"⟩
  let between : List Token := [⟨⟨"adjoining", 1, 3⟩, .semicolon, "\n"⟩,
    ⟨⟨"adjoining", 2, 0⟩, .operator "-", "-"⟩, ⟨⟨"adjoining", 2, 1⟩, .identifier "Some", "Some"⟩]
  let free : Token := ⟨⟨"adjoining", 2, 6⟩, .identifier "in", "in"⟩
  have htokens : (tokenize "adjoining" source).1 = [number] ++ joined :: (between ++ [free]) := by
    decide +kernel
  refine ⟨hascii, hreturn, hended, fun text hmem => ⟨?_, ?_⟩⟩
  · obtain ⟨piece, hindex, -, -, -, hname⟩ := names_coloured "adjoining" source _ _ hascii hreturn h
      [number] (between ++ [free]) joined "in" htokens rfl text hmem
    have hpiece : ((pieces text).filter (!·.isBlank))[1]? = some piece := hindex
    rw [hpiece, Option.map_some, hname.mpr (by decide)]
  · obtain ⟨piece, hindex, -, hkeyword, -⟩ := names_coloured "adjoining" source _ _ hascii hreturn h
      ([number, joined] ++ between) [] free "in" htokens rfl text hmem
    have hpiece : ((pieces text).filter (!·.isBlank))[4]? = some piece := hindex
    rw [hpiece, Option.map_some, hkeyword.mpr (by decide)]

/-- **Not every keyword is coloured as one**: directly behind the number 1 it is shown as a name. -/
theorem keyword_behind_number :
    IsAscii "1in".toList ∧ '\r' ∉ "1in".toList ∧
      (tokenize "joined" "1in").2.1 = none ∧
      (tokenize "joined" "1in").1[1]? = some ⟨⟨"joined", 1, 1⟩, .identifier "in", "in"⟩ ∧
      isKeyword "in" = true ∧
      (pieces "1in".toList)[1]? = some ⟨1, .name, "in"⟩ ∧
      (pieces (tidied "1in".toList))[1]? = some ⟨1, .name, "in"⟩ := by
  have hcodes : "1in".toList.all (fun c => decide (c.toNat < 128)) = true := by decide +kernel
  refine ⟨fun c hc => of_decide_eq_true (List.all_eq_true.mp hcodes c hc), ?_⟩
  decide +kernel

end FrontEnd.Highlight
