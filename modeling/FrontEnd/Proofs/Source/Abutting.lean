import FrontEnd.Proofs.Lexer.Faults
import FrontEnd.Proofs.Lexer.Longest
import FrontEnd.Proofs.Source.Named

/-!
# Names directly behind numbers

To the lexer a number ends behind its digits, and a name may begin there. To what knows words only,
digits and name are one word. This happens behind no other token: what ends in a character of a word
is a name, which would have gone on, or a number.

* `Token.behindNumber`, `digitsBefore` — a token directly behind a number, and the digits there.
* `Scan.Reads.edge` — in what a token ends, and with what nothing behind it begins.
* `Edge` — what is in front of a cursor between two tokens, kept from token to token.
* `word_of_identifier` — an identifier, and the digits in front of it, are a whole word of a source.
-/

set_option autoImplicit false

namespace FrontEnd

/-! ## Definitions -/

/-- Whether a lexeme is a number. -/
def Lexeme.isNumber : Lexeme → Bool
  | .signed _ | .float _ => true
  | _ => false

namespace Token

/-- Where a token ends that is on one line. -/
def stop (token : Token) : Location :=
  { token.location with col := token.location.col + token.text.length }

/-- Whether a token stands directly behind a number; `previous` is the token before. -/
def behindNumber (token : Token) (previous : Option Token) : Bool :=
  previous.any fun number => number.lexeme.isNumber && number.stop == token.location

/-- The last digits of a token. -/
def lastDigits (token : Token) : List Char :=
  token.text.toList.rtakeWhile Text.isDigit

/-- The digits that a token stands directly behind: the last ones of a number. -/
def digitsBefore (token : Token) (previous : Option Token) : List Char :=
  if token.behindNumber previous then previous.elim [] lastDigits else []

/-- Whether a token ends in a character of a word. -/
def endsInWord (token : Token) : Bool :=
  token.text.toList.getLast?.any Text.isWordPart

end Token

/-! ## Digits and words -/

namespace Text

/-- Whether the ascending ranges hold a number and the nine behind it in one of them. -/
def holdsRow : List (Nat × Nat) → Nat → Bool
  | [], _ => false
  | (low, high) :: rest, first =>
      Nat.ble low first &&
        (Nat.ble (first + 9) high || (Nat.blt high first && holdsRow rest first))

theorem inRanges_of_holdsRow {ranges : List (Nat × Nat)} {first n : Nat}
    (h : holdsRow ranges first = true) (hlow : first ≤ n) (hhigh : n < first + 10) :
    inRanges ranges n = true := by
  induction ranges with
  | nil => cases h
  | cons range rest ih =>
    obtain ⟨low, high⟩ := range
    simp only [holdsRow, Bool.and_eq_true, Bool.or_eq_true, Nat.ble_eq, Nat.blt_eq] at h
    obtain ⟨hstart, hwhole | ⟨hbehind, hrest⟩⟩ := h
    · rw [inRanges, if_neg (by omega), if_pos (by omega)]
    · rw [inRanges, if_neg (by omega), if_neg (by omega)]
      exact ih hrest

/-- Digits are parts of words. -/
theorem isWordPart_of_isDigit {c : Char} (h : isDigit c = true) : isWordPart c = true := by
  -- by rows of digits, which are far fewer than digits
  have hrows : digitZeros.all (holdsRow numeralRanges) = true := by decide +kernel
  cases hdigit : digitValue? c with
  | none => simp [isDigit, hdigit] at h
  | some d =>
    obtain ⟨first, hfirst, hlow, hhigh⟩ := exists_of_digitIn hdigit
    have hnumeral : isNumeral c = true :=
      inRanges_of_holdsRow (List.all_eq_true.mp hrows first hfirst) hlow hhigh
    simp [isWordPart, hnumeral]

end Text

/-- A text ends in digits, and with these no word begins in front of them. -/
structure EndsInDigits (text head digits : List Char) : Prop where
  cut : text = head ++ digits
  ne_nil : digits ≠ []
  isDigit : ∀ c ∈ digits, Text.isDigit c = true
  head : EndsOutside head

theorem EndsInDigits.rtakeWhile_eq {text head digits : List Char}
    (h : EndsInDigits text head digits) : text.rtakeWhile Text.isDigit = digits := by
  rw [List.rtakeWhile, h.cut, List.reverse_append, Scan.takeWhile_append_of_all,
    List.reverse_reverse]
  · exact fun c hc => h.isDigit c (List.mem_reverse.mp hc)
  · intro c rest hcons
    have hlast : head.getLast? = some c := by rw [← List.head?_reverse, hcons]; rfl
    by_contra hdigit
    rw [Bool.not_eq_false] at hdigit
    exact absurd (Text.isWordPart_of_isDigit hdigit) (by simp [h.head c hlast])

theorem EndsInDigits.append {text head digits : List Char} (h : EndsInDigits text head digits)
    {before : List Char} (hbefore : head = [] → EndsOutside before) :
    EndsInDigits (before ++ text) (before ++ head) digits := by
  refine ⟨by rw [h.cut, List.append_assoc], h.ne_nil, h.isDigit, ?_⟩
  by_cases hnil : head = []
  · rw [hnil, List.append_nil]
    exact hbefore hnil
  · exact h.head.append hnil

/-! ## The ends of tokens -/

namespace TokenClass.Spells

variable {kind : TokenClass} {text : List Char} {lexeme : Lexeme}

/-- A number ends in digits, is on one line and goes on with every further digit. -/
theorem number_edge (h : TokenClass.number.Spells text lexeme) :
    lexeme.isNumber = true ∧ (∃ head digits, EndsInDigits text head digits) ∧ '\n' ∉ text ∧
      ∀ d, Text.isDigit d = true → ∃ meaning, TokenClass.number.Spells (text ++ [d]) meaning := by
  have hminus : EndsOutside ['-'] := fun c hc => by cases hc; decide +kernel
  have hpoint : EndsOutside ['.'] := fun c hc => by cases hc; decide +kernel
  have hnewline : ∀ digits : List Char, (∀ c ∈ digits, Text.isDigit c = true) → '\n' ∉ digits :=
    fun digits hdigits hmem => absurd (hdigits _ hmem) (by decide)
  have hliteral : ∀ literal : IntegerLiteral, '\n' ∉ literal.text := by
    intro literal hmem
    rcases List.mem_append.mp hmem with hsign | hdigit
    · split at hsign <;> simp at hsign
    · exact hnewline _ literal.isDigit hdigit
  have hmore : ∀ (digits : List Char) (d : Char), (∀ c ∈ digits, Text.isDigit c = true) →
      Text.isDigit d = true → ∀ c ∈ digits ++ [d], Text.isDigit c = true :=
    fun digits d hdigits hd => List.forall_mem_append.mpr ⟨hdigits, by simpa using hd⟩
  cases h with
  | integer literal =>
    refine ⟨rfl, ⟨_, literal.digits, rfl, literal.digits_ne_nil, literal.isDigit, ?_⟩,
      hliteral literal, fun d hd => ?_⟩
    · split
      · exact hminus
      · exact fun c hc => by cases hc
    · have hlonger := Spells.integer ⟨literal.negative, literal.digits ++ [d], by simp,
        hmore _ d literal.isDigit hd⟩
      rw [IntegerLiteral.text, ← List.append_assoc] at hlonger
      exact ⟨_, hlonger⟩
  | @fraction literal fraction hne hdigits =>
    refine ⟨rfl, ⟨literal.text ++ ['.'], fraction, by simp, hne, hdigits,
      hpoint.append (by simp)⟩, ?_, fun d hd => ?_⟩
    · simp [hliteral literal, hnewline _ hdigits]
    · have hlonger := Spells.fraction literal (by simp) (hmore _ d hdigits hd)
      rw [← List.cons_append, ← List.append_assoc] at hlonger
      exact ⟨_, hlonger⟩

/-- Only numbers stand for numbers, and what is neither a number nor a word does not end in one. -/
theorem other_edge (h : kind.Spells text lexeme) (hnumber : kind ≠ .number) :
    lexeme.isNumber = false ∧ (kind ≠ .word → EndsOutside text) := by
  cases h with
  | integer | fraction => exact absurd rfl hnumber
  | word => exact ⟨rfl, fun hword => absurd rfl hword⟩
  | operator hne hall =>
    refine ⟨rfl, fun _ c hc => ?_⟩
    have hmarks : operatorChars.all (fun d => !Text.isWordPart d) = true := by decide +kernel
    have hoperator := hall c (List.mem_of_mem_getLast? hc)
    simpa using List.all_eq_true.mp hmarks c (List.contains_iff_mem.mp hoperator)
  | quoted =>
    refine ⟨rfl, fun _ c hc => ?_⟩
    rw [List.getLast?_concat] at hc
    cases hc
    decide +kernel
  | @punctuation c lexeme hmark =>
    have hpart : Text.isWordPart c = false ∧ lexeme.isNumber = false := by
      unfold Scan.punctuation? at hmark
      split at hmark <;> cases hmark <;> exact ⟨by decide +kernel, rfl⟩
    exact ⟨hpart.2, fun _ d hd => by cases hd; exact hpart.1⟩

end TokenClass.Spells

/-- **What a token ends in decides what may begin directly behind it.** A number ends in digits, and
no digit follows. Behind any other token there is no part of a word, or the token does not end in
one. -/
theorem Scan.Reads.edge {spelling behind : List Char} {lexeme : Lexeme}
    (h : Reads spelling lexeme behind) :
    (lexeme.isNumber = true ∧ (∃ head digits, EndsInDigits spelling head digits) ∧
      '\n' ∉ spelling ∧ startsWithDigit behind = false) ∨
    (lexeme.isNumber = false ∧ (EndsOutside spelling ∨ StartsOutside behind)) := by
  obtain ⟨c, inner, rfl, hscan⟩ := h
  obtain ⟨kind, hlongest⟩ := longest_of_found (congrArg found hscan)
  rw [hscan] at hlongest
  by_cases hnumber : kind = .number
  · subst hnumber
    obtain ⟨hlexeme, hdigits, hnewline, hmore⟩ := hlongest.spells.number_edge
    refine .inl ⟨hlexeme, hdigits, hnewline, ?_⟩
    by_contra hstarts
    cases behind with
    | nil => exact hstarts rfl
    | cons d rest =>
      obtain ⟨meaning, hlonger⟩ := hmore d (by simpa [startsWithDigit] using hstarts)
      have hlength := hlongest.longest _ meaning ⟨rest, by simp⟩ hlonger
      rw [List.length_append, List.length_singleton] at hlength
      omega
  · obtain ⟨hlexeme, hends⟩ := hlongest.spells.other_edge hnumber
    refine .inr ⟨hlexeme, ?_⟩
    by_cases hword : kind = .word
    · subst hword
      have hspells := hlongest.spells
      cases hspells
      exact .inr (startsOutside_of_reads ⟨c, inner, rfl, hscan⟩).2
    · exact .inl (hends hword)

/-! ## Cursors over gaps and words -/

namespace Cursor.StandsIn

variable {text : List Char} {cursor : Cursor}

/-- What is in front of a cursor that has moved. -/
theorem take_move (h : cursor.StandsIn text) {word behind : List Char}
    (hrest : cursor.rest = word ++ behind) :
    text.take (cursor.move word.length).pos = text.take cursor.pos ++ word := by
  have hpos : (cursor.move word.length).pos = cursor.pos + word.length :=
    pos_move (by rw [hrest, List.length_append]; omega)
  rw [hpos, List.take_add, ← h.rest, hrest, List.take_left]

/-- Line and column behind some text. -/
theorem location_move (h : cursor.StandsIn text) (file : String) {word behind : List Char}
    (hrest : cursor.rest = word ++ behind) :
    let before := text.take cursor.pos
    cursor.location file = ⟨file, Text.lineOf (before ++ (word ++ behind)) before.length,
      Text.colOf (before ++ (word ++ behind)) before.length⟩ ∧
    (cursor.move word.length).location file =
      ⟨file, Text.lineOf (before ++ (word ++ behind)) (before ++ word).length,
        Text.colOf (before ++ (word ++ behind)) (before ++ word).length⟩ := by
  intro before
  have htext : before ++ (word ++ behind) = text := by
    rw [← hrest, h.rest, List.take_append_drop]
  have hbefore : before.length = cursor.pos := List.length_take_of_le h.pos_le
  have hmoved := h.move word.length
  have hpos : (before ++ word).length = (cursor.move word.length).pos := by
    rw [← h.take_move hrest, List.length_take_of_le hmoved.pos_le]
  rw [htext, hbefore, hpos, ← h.line, ← h.col, ← hmoved.line, ← hmoved.col]
  exact ⟨rfl, rfl⟩

/-- Behind a word the column counts its characters. -/
theorem location_word (h : cursor.StandsIn text) (file : String) {word behind : List Char}
    (hrest : cursor.rest = word ++ behind) (hnewline : '\n' ∉ word) :
    (cursor.move word.length).location file =
      { cursor.location file with col := (cursor.location file).col + word.length } := by
  obtain ⟨hplace, hmoved⟩ := h.location_move file hrest
  rw [hplace, hmoved, Text.lineOf_word _ _ hnewline, Text.colOf_word _ _ hnewline]
  simp

/-- Another location follows every gap. -/
theorem location_gap_ne (h : cursor.StandsIn text) (file : String) {gap behind : List Char}
    (hrest : cursor.rest = gap ++ behind) (hne : gap ≠ []) :
    (cursor.move gap.length).location file ≠ cursor.location file := by
  intro heq
  by_cases hnewline : '\n' ∈ gap
  · -- there the line is a later one
    obtain ⟨hplace, hmoved⟩ := h.location_move file hrest
    have hcount := List.count_pos_iff.mpr hnewline
    rw [hmoved, hplace, ← List.append_assoc, Text.lineOf_append, List.append_assoc,
      Text.lineOf_append, List.count_append] at heq
    have hline := congrArg Location.line heq
    dsimp only at hline
    omega
  · have hcol := congrArg Location.col heq
    rw [h.location_word file hrest hnewline] at hcol
    have hpos := List.length_pos_iff.mpr hne
    dsimp only at hcol
    omega

end Cursor.StandsIn

/-! ## Between two tokens -/

/-- What is in front of a cursor that stands directly behind a token, or at the start of a text: no
part of a word; or a name, and no part of a word follows; or the digits of a number, and no digit
follows. -/
inductive Edge (file : String) (text : List Char) (cursor : Cursor) : Option Token → Prop
  | outside {previous : Option Token} (ends : EndsOutside (text.take cursor.pos))
      (noNumber : ∀ token ∈ previous, token.lexeme.isNumber = false)
      (noWord : ∀ token ∈ previous, token.endsInWord = false) : Edge file text cursor previous
  | word {token : Token} (starts : StartsOutside cursor.rest)
      (noNumber : token.lexeme.isNumber = false) : Edge file text cursor (some token)
  | number {token : Token} {before : List Char} (isNumber : token.lexeme.isNumber = true)
      (digits : EndsInDigits (text.take cursor.pos) before token.lastDigits)
      (isWord : token.endsInWord = true)
      (stops : Scan.startsWithDigit cursor.rest = false)
      (place : token.stop = cursor.location file) : Edge file text cursor (some token)

theorem Edge.start (file : String) (text : List Char) : Edge file text (.start text) none :=
  .outside (fun c hc => by simp [Cursor.start] at hc) (by simp) (by simp)

theorem EndsOutside.endsInWord {token : Token} (h : EndsOutside token.text.toList) :
    token.endsInWord = false := by
  rw [Token.endsInWord]
  cases hlast : token.text.toList.getLast? with
  | none => rfl
  | some c => exact h c hlast

theorem EndsInDigits.endsInWord {token : Token} {head digits : List Char}
    (h : EndsInDigits token.text.toList head digits) : token.endsInWord = true := by
  rw [Token.endsInWord, h.cut, List.getLast?_append_of_ne_nil _ h.ne_nil,
    List.getLast?_eq_some_getLast h.ne_nil]
  exact Text.isWordPart_of_isDigit (h.isDigit _ (List.getLast_mem h.ne_nil))

section Edge

variable {file : String} {text : List Char} {cursor : Cursor} {previous : Option Token}
  {token : Token} {gap behind : List Char}

/-- Where digits begin, no part of a word is in front of them. -/
theorem Edge.endsOutside_of_digit (h : Edge file text cursor previous)
    (hgap : ∀ c ∈ gap, Text.isBlank c = true) (hrest : cursor.rest = gap ++ behind)
    (hstarts : Scan.startsWithDigit behind = true) :
    EndsOutside (text.take cursor.pos ++ gap) := by
  by_cases hnil : gap = []
  · subst hnil
    rw [List.nil_append] at hrest
    rw [List.append_nil]
    cases h with
    | outside ends _ _ => exact ends
    | word starts _ =>
      obtain ⟨d, rest, rfl⟩ : ∃ d rest, behind = d :: rest := by
        cases behind with
        | nil => cases hstarts
        | cons d rest => exact ⟨d, rest, rfl⟩
      have hpart := Text.isWordPart_of_isDigit (c := d) hstarts
      rw [starts d (by rw [hrest]; rfl)] at hpart
      cases hpart
    | number _ _ _ stops _ =>
      rw [hrest, hstarts] at stops
      cases stops
  · exact (endsOutside_of_blank hgap).append hnil

/-- **Every token that is read keeps it so.** -/
theorem Edge.step (h : Edge file text cursor previous) (hstands : cursor.StandsIn text)
    (hgap : ∀ c ∈ gap, Text.isBlank c = true)
    (hrest : cursor.rest = gap ++ (token.text.toList ++ behind))
    (hreads : Scan.Reads token.text.toList token.lexeme behind)
    (hplace : token.location = (cursor.move gap.length).location file) :
    Edge file text (cursor.move (gap ++ token.text.toList).length) (some token) := by
  have hwhole : cursor.rest = gap ++ token.text.toList ++ behind := by
    rw [hrest, List.append_assoc]
  have htake := hstands.take_move hwhole
  have hbehind : (cursor.move (gap ++ token.text.toList).length).rest = behind := by
    rw [Cursor.rest_move, hwhole, List.drop_left]
  have hne : token.text.toList ≠ [] := by
    obtain ⟨c, inner, hspelling, -⟩ := hreads
    simp [hspelling]
  rcases hreads.edge with ⟨hnumber, ⟨head, digits, hdigits⟩, hnewline, hstops⟩ | ⟨hother, hedge⟩
  · have hlast : token.lastDigits = digits := hdigits.rtakeWhile_eq
    have hfront : head = [] → EndsOutside (text.take cursor.pos ++ gap) := by
      intro hnil
      refine h.endsOutside_of_digit hgap hrest ?_
      have hcut := hdigits.cut
      rw [hnil, List.nil_append] at hcut
      obtain ⟨d, rest, hcons⟩ := List.exists_cons_of_ne_nil hdigits.ne_nil
      rw [hcut, hcons]
      exact hdigits.isDigit d (hcons ▸ List.mem_cons_self)
    have hends : EndsInDigits (text.take (cursor.move (gap ++ token.text.toList).length).pos)
        (text.take cursor.pos ++ gap ++ head) token.lastDigits := by
      rw [htake, hlast, ← List.append_assoc]
      exact hdigits.append hfront
    have hmoved : (cursor.move gap.length).rest = token.text.toList ++ behind := by
      rw [Cursor.rest_move, hrest, List.drop_left]
    refine .number hnumber hends hdigits.endsInWord (by rwa [hbehind]) ?_
    rw [List.length_append, ← Cursor.move_move,
      (hstands.move gap.length).location_word file hmoved hnewline, ← hplace, Token.stop,
      String.length_toList]
  · rcases hedge with hends | hstarts
    · refine .outside ?_ (by simpa using hother) (by simpa using hends.endsInWord)
      rw [htake, ← List.append_assoc]
      exact hends.append hne
    · exact .word (by rwa [hbehind]) hother

/-- **In front of a word there is no part of one, but for a number directly in front of it.** -/
theorem Edge.cases_of_word (h : Edge file text cursor previous) (hstands : cursor.StandsIn text)
    (hgap : ∀ c ∈ gap, Text.isBlank c = true) {word : List Char} (hword : IsWord word)
    (hrest : cursor.rest = gap ++ (word ++ behind))
    (hplace : token.location = (cursor.move gap.length).location file) :
    (token.behindNumber previous = false ∧ EndsOutside (text.take cursor.pos ++ gap) ∧
      (gap = [] → previous.any Token.endsInWord = false)) ∨
    ∃ number before, previous = some number ∧ token.behindNumber previous = true ∧ gap = [] ∧
      number.endsInWord = true ∧ EndsInDigits (text.take cursor.pos) before number.lastDigits := by
  cases h with
  | outside ends noNumber noWord =>
    have hbehind : token.behindNumber previous = false ∧
        previous.any Token.endsInWord = false := by
      cases previous with
      | none => exact ⟨rfl, rfl⟩
      | some other => exact ⟨by simp [Token.behindNumber, noNumber other rfl], noWord other rfl⟩
    refine .inl ⟨hbehind.1, ?_, fun _ => hbehind.2⟩
    by_cases hnil : gap = []
    · rwa [hnil, List.append_nil]
    · exact (endsOutside_of_blank hgap).append hnil
  | word starts noNumber =>
    have hne : gap ≠ [] := by
      rintro rfl
      exact hword.not_startsOutside behind (hrest ▸ starts)
    exact .inl ⟨by simp [Token.behindNumber, noNumber], (endsOutside_of_blank hgap).append hne,
      fun hnil => absurd hnil hne⟩
  | @number number before isNumber digits isWord stops place =>
    by_cases hnil : gap = []
    · subst hnil
      have hstop : number.stop = token.location := by rw [place, hplace]; rfl
      exact .inr ⟨number, before, rfl, by simp [Token.behindNumber, isNumber, hstop], rfl, isWord,
        digits⟩
    · have hstop : number.stop ≠ token.location := by
        rw [place, hplace]
        exact (hstands.location_gap_ne file hrest hnil).symm
      exact .inl ⟨by simp [Token.behindNumber, hstop], (endsOutside_of_blank hgap).append hnil,
        fun hempty => absurd hempty hnil⟩

/-- Behind some tokens in a row of scans. -/
theorem Scanned.edge {front tokens : List Token} (h : Scanned file cursor (front ++ tokens))
    (hstands : cursor.StandsIn text) (hedge : Edge file text cursor previous) :
    ∃ next : Cursor, next.StandsIn text ∧ Edge file text next (front.getLast?.or previous) ∧
      Scanned file next tokens := by
  induction front generalizing cursor previous with
  | nil => exact ⟨cursor, hstands, hedge, h⟩
  | cons other front ih =>
    cases h with
    | token hgap hrest hreads hplace hmore =>
      obtain ⟨next, hnext, hlast, htokens⟩ :=
        ih hmore (hstands.move _) (hedge.step hstands hgap hrest hreads hplace)
      refine ⟨next, hnext, ?_, htokens⟩
      rw [List.getLast?_cons]
      cases hfront : front.getLast? <;> rwa [hfront] at hlast

end Edge

/-! ## Identifiers of a source -/

/-- **An identifier, with the digits that it stands directly behind, is a whole word of the
source**, and its location is where the identifier begins. -/
theorem word_of_identifier {file source name : String} {tokens front behind : List Token}
    {token : Token} {last : Lexer} (h : tokenize file source = (tokens, none, last))
    (htokens : tokens = front ++ token :: behind) (hlexeme : token.lexeme = .identifier name) :
    token.text = name ∧ ∃ before rest,
      let digits := token.digitsBefore front.getLast?
      source.toList = before ++ (digits ++ name.toList ++ rest) ∧
        IsWord (digits ++ name.toList) ∧ EndsOutside before ∧ StartsOutside rest ∧
        (digits = [] ↔ token.behindNumber front.getLast? = false) ∧
        token.location = placeAt file source (before ++ digits).length := by
  have hscanned := scanned_of_tokenize h
  rw [htokens] at hscanned
  obtain ⟨cursor, hstands, hedge, hmore⟩ :=
    hscanned.edge (Cursor.standsIn_start _) (Edge.start file _)
  rw [Option.or_none] at hedge
  have hwell := wellFormed_tokenize file source token (by rw [h, htokens]; simp)
  rw [hlexeme] at hwell
  have hword := isWord_of_wellFormed hwell
  cases hmore with
  | @token _ gap rest _ _ hgap hrest hreads hplace _ =>
    rw [hlexeme] at hreads
    obtain ⟨htext, hrest'⟩ := startsOutside_of_reads hreads
    rw [htext] at hrest
    have hsource : source.toList =
        source.toList.take cursor.pos ++ gap ++ (name.toList ++ rest) := by
      rw [List.append_assoc, ← hrest, hstands.rest, List.take_append_drop]
    have hpos : token.location =
        placeAt file source (source.toList.take cursor.pos ++ gap).length := by
      rw [hplace, (hstands.move _).location_eq, ← hstands.take_move hrest,
        List.length_take_of_le (hstands.move _).pos_le]
    refine ⟨String.toList_injective htext, ?_⟩
    rcases hedge.cases_of_word hstands hgap hword hrest hplace with
      ⟨hfree, hends, -⟩ | ⟨number, before, hprevious, hbehind, hnil, -, hdigits⟩
    · have hnone : token.digitsBefore front.getLast? = [] := by simp [Token.digitsBefore, hfree]
      refine ⟨source.toList.take cursor.pos ++ gap, rest, ?_⟩
      simp only [hnone, hfree, List.nil_append, List.append_nil]
      exact ⟨hsource, hword, hends, hrest', by simp, hpos⟩
    · have hlast : token.digitsBefore front.getLast? = number.lastDigits := by
        rw [Token.digitsBefore, if_pos hbehind, hprevious]
        rfl
      refine ⟨before, rest, ?_⟩
      rw [hnil, List.append_nil, hdigits.cut] at hsource hpos
      simp only [hlast, hbehind, Bool.true_eq_false]
      refine ⟨by rw [hsource]; simp, ⟨by simp [hdigits.ne_nil], ?_⟩, hdigits.head, hrest',
        iff_of_false hdigits.ne_nil id, hpos⟩
      intro c hc
      rcases List.mem_append.mp hc with hc | hc
      · exact Text.isWordPart_of_isDigit (hdigits.isDigit c hc)
      · exact hword.parts c hc

end FrontEnd
