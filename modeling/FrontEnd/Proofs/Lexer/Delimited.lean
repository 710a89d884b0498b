import FrontEnd.Proofs.Lexer.Joined

/-!
# Spellings in front of other texts

What is scanned depends on the character behind it only if that could belong to it. Blanks and
punctuation belong to no number, no word and no operator.

* `Scan.isDelimiter_of_isBlank` — blanks end all of these.
* `Scan.Reads` — a spelling is scanned as a lexeme in front of a text.
* `Scan.reads_of_found` — what was scanned once is scanned again in front of every such text.
* `Scan.Reads.alike` — what is scanned depends only on what is in front of a delimiter.
-/

set_option autoImplicit false

namespace FrontEnd

namespace Scan

/-! ## Blanks -/

/-- The code points of the blanks. -/
def blankPoints : List Nat :=
  Text.blankRanges.flatMap fun range => List.range' range.1 (range.2 + 1 - range.1)

/-- **Every blank is a delimiter**, and no blank but the newline is punctuation. -/
theorem isDelimiter_of_isBlank {c : Char} (h : Text.isBlank c = true) :
    isDelimiter c = true ∧ c ≠ '"' ∧ (c ≠ '\n' → punctuation? c = none) := by
  have hall : ∀ n ∈ blankPoints, isDelimiter (Char.ofNat n) = true ∧ Char.ofNat n ≠ '"' ∧
      (Char.ofNat n ≠ '\n' → punctuation? (Char.ofNat n) = none) := by
    decide +kernel
  obtain ⟨range, hmem, hlow, hhigh⟩ := Text.exists_of_inRanges h
  have hpoint : c.toNat ∈ blankPoints := by
    refine List.mem_flatMap.mpr ⟨range, hmem, ?_⟩
    rw [List.mem_range'_1]
    omega
  have hc := hall c.toNat hpoint
  rwa [Char.ofNat_toNat] at hc

/-- No blank is part of a word. -/
theorem isWordPart_of_isBlank {c : Char} (h : Text.isBlank c = true) : Text.isWordPart c = false :=
  (isDelimiter_eq (isDelimiter_of_isBlank h).1).2.1

theorem isBlank_of_isWordPart {c : Char} (h : Text.isWordPart c = true) :
    Text.isBlank c = false := by
  by_contra hblank
  rw [isWordPart_of_isBlank (by simpa using hblank)] at h
  cases h

/-! ## Classes of characters in front of a text -/

variable {behind : List Char}

variable {p : Char → Bool} {front : List Char}

theorem takeWhile_append_of_all (hfront : ∀ c ∈ front, p c = true)
    (hbehind : ∀ c rest, behind = c :: rest → p c = false) :
    (front ++ behind).takeWhile p = front := by
  rw [List.takeWhile_append_of_pos hfront]
  cases behind with
  | nil => rw [List.takeWhile_nil, List.append_nil]
  | cons c rest =>
    have hc := hbehind c rest rfl
    rw [List.takeWhile_cons_of_neg (by simp [hc]), List.append_nil]

theorem dropWhile_append_of_all (hfront : ∀ c ∈ front, p c = true)
    (hbehind : ∀ c rest, behind = c :: rest → p c = false) :
    (front ++ behind).dropWhile p = behind := by
  rw [List.dropWhile_append_of_pos hfront]
  cases behind with
  | nil => rfl
  | cons c rest =>
    have hc := hbehind c rest rfl
    exact List.dropWhile_cons_of_neg (by simp [hc])

/-! ## Numbers -/

theorem fractionDigits_eq_some {text fraction : List Char}
    (h : fractionDigits text = some fraction) :
    (∀ c ∈ fraction, Text.isDigit c = true) ∧ ∃ c rest, fraction = c :: rest := by
  unfold fractionDigits at h
  split at h
  · rename_i c rest
    split at h
    · rename_i hdigit
      cases h
      refine ⟨fun d hd => List.mem_takeWhile_imp hd, ?_⟩
      exact ⟨c, rest.takeWhile Text.isDigit, List.takeWhile_cons_of_pos hdigit⟩
    · cases h
  · cases h

theorem fractionDigits_delimited {fraction : List Char}
    (hdigits : ∀ c ∈ fraction, Text.isDigit c = true) (hne : ∃ c rest, fraction = c :: rest)
    (hbehind : Delimits behind) : fractionDigits ('.' :: (fraction ++ behind)) = some fraction := by
  obtain ⟨c, rest, rfl⟩ := hne
  have htaken := takeWhile_append_of_all hdigits hbehind.not_digit
  have hdigit : Text.isDigit c = true := hdigits c List.mem_cons_self
  rw [List.cons_append] at htaken ⊢
  simp only [fractionDigits, hdigit, if_true, htaken]

/-- A row of digits, with a fraction or without one, is read as the number that it is part of. -/
theorem number_delimited (negative : Bool) (text : List Char) (hbehind : Delimits behind) :
    ∃ fraction, (number negative text).taken =
        (if negative then ['-'] else []) ++ (text.takeWhile Text.isDigit ++ fraction) ∧
      number negative (text.takeWhile Text.isDigit ++ fraction ++ behind) =
        number negative text := by
  have hwhole : ∀ c ∈ text.takeWhile Text.isDigit, Text.isDigit c = true :=
    fun c hc => List.mem_takeWhile_imp hc
  cases hfraction : fractionDigits (text.dropWhile Text.isDigit) with
  | none =>
    have hpoint : fractionDigits behind = none := fractionDigits_joined hbehind []
    refine ⟨[], by simp [number, hfraction], ?_⟩
    rw [List.append_nil]
    simp only [number, hfraction, takeWhile_append_of_all hwhole hbehind.not_digit,
      dropWhile_append_of_all hwhole hbehind.not_digit, hpoint]
  | some fraction =>
    obtain ⟨hdigits, hne⟩ := fractionDigits_eq_some hfraction
    have hpoint : ∀ c rest, '.' :: (fraction ++ behind) = c :: rest → Text.isDigit c = false := by
      intro c rest h
      cases h
      decide
    refine ⟨'.' :: fraction, by simp [number, hfraction], ?_⟩
    rw [List.append_assoc, List.cons_append]
    simp only [number, hfraction, takeWhile_append_of_all hwhole hpoint,
      dropWhile_append_of_all hwhole hpoint, fractionDigits_delimited hdigits hne hbehind]

/-! ## Spellings -/

/-- A spelling is scanned as a lexeme in front of a text. -/
def Reads (spelling : List Char) (lexeme : Lexeme) (behind : List Char) : Prop :=
  ∃ c inner, spelling = c :: inner ∧ token c (inner ++ behind) = ⟨spelling, .ok lexeme⟩

/-- The marks of punctuation begin nothing else. -/
theorem of_punctuation {c : Char} {lexeme : Lexeme} (h : punctuation? c = some lexeme) :
    Text.isDigit c = false ∧ c ≠ '-' ∧ Text.isWordStart c = false ∧ isOperatorChar c = false ∧
      c ≠ '"' := by
  have hsingle : ['(', ')', '[', ']', '\x7b', '\x7d', ';', '\n', ','].all (fun d =>
      !Text.isDigit d && d != '-' && !Text.isWordStart d && !isOperatorChar d && d != '"') =
        true := by
    decide +kernel
  have hmem : c ∈ ['(', ')', '[', ']', '\x7b', '\x7d', ';', '\n', ','] := by
    unfold punctuation? at h
    split at h <;> first | cases h; done | decide
  have hc := List.all_eq_true.mp hsingle c hmem
  simpa only [Bool.and_eq_true, Bool.not_eq_true', bne_iff_ne, and_assoc] using hc

/-- A character of punctuation is read in front of every text. -/
theorem reads_punctuation {c : Char} {lexeme : Lexeme} (h : punctuation? c = some lexeme)
    (behind : List Char) : Reads [c] lexeme behind := by
  obtain ⟨hdigit, hminus, hword, hoperator, hquote⟩ := of_punctuation h
  refine ⟨c, [], rfl, ?_⟩
  simp [token, single, h, hdigit, hminus, hword, hoperator, hquote]

/-- A digit begins a number. -/
theorem token_of_digit {c : Char} (h : Text.isDigit c = true) (rest : List Char) :
    token c rest = number false (c :: rest) := by
  simp [token, h]

/-- A minus sign in front of a digit begins a number. -/
theorem token_of_minus {rest : List Char} (h : startsWithDigit rest = true) :
    token '-' rest = number true rest := by
  have hminus : Text.isDigit '-' = false := by decide
  simp [token, h, hminus]

theorem token_of_wordStart {c : Char} (hdigit : Text.isDigit c = false)
    (h : Text.isWordStart c = true) (rest : List Char) : token c rest = word (c :: rest) := by
  have hminus : c ≠ '-' := by
    rintro rfl
    exact absurd h (by decide +kernel)
  simp [token, hdigit, hminus, h]

theorem isDigit_of_isOperatorChar {c : Char} (h : isOperatorChar c = true) :
    Text.isDigit c = false := by
  have hdigits : operatorChars.all (fun d => !Text.isDigit d) = true := by decide +kernel
  have hc := List.all_eq_true.mp hdigits c (List.contains_iff_mem.mp h)
  simpa using hc

/-- An operator character begins an operator if it is no minus sign in front of a digit. -/
theorem token_of_operator {c : Char} {rest : List Char} (h : isOperatorChar c = true)
    (hnumber : ¬ (c = '-' ∧ startsWithDigit rest = true)) :
    token c rest = operator (c :: rest) := by
  have hdigit : Text.isDigit c = false := isDigit_of_isOperatorChar h
  have hstart : Text.isWordStart c = false := isWordStart_of_isOperatorChar h
  simp [token, hdigit, hnumber, hstart, h]

/-- A quoted text is read in front of every text. -/
theorem reads_quoted {inside : List Char} (h : ∀ c ∈ inside, c ≠ '"') (behind : List Char) :
    Reads ('"' :: inside ++ ['"']) (.quoted (String.ofList ('"' :: inside ++ ['"']))) behind := by
  have hinside : ∀ c ∈ inside, (c != '"') = true := fun c hc => bne_iff_ne.mpr (h c hc)
  have hquote : ∀ c rest, '"' :: behind = c :: rest → (c != '"') = false := by
    intro c rest heq
    cases heq
    rfl
  refine ⟨'"', inside ++ ['"'], rfl, ?_⟩
  rw [token_quote, List.append_assoc, List.singleton_append]
  simp only [quotedRest, takeWhile_append_of_all hinside hquote,
    dropWhile_append_of_all hinside hquote]

theorem reads_operator {c : Char} {inner : List Char} (hc : isOperatorChar c = true)
    (hinner : ∀ d ∈ inner, isOperatorChar d = true)
    (hnumber : ¬ (c = '-' ∧ startsWithDigit inner = true)) (hbehind : Delimits behind) :
    Reads (c :: inner) (.operator (String.ofList (c :: inner))) behind := by
  have hall : ∀ d ∈ c :: inner, isOperatorChar d = true := by
    intro d hd
    rcases List.mem_cons.mp hd with rfl | hd
    · exact hc
    · exact hinner d hd
  have hbehind' : ¬ (c = '-' ∧ startsWithDigit (inner ++ behind) = true) := by
    rintro ⟨hminus, hdigit⟩
    cases inner with
    | cons d inner => exact hnumber ⟨hminus, hdigit⟩
    | nil =>
      cases behind with
      | nil => cases hdigit
      | cons d rest =>
        have hd : Text.isDigit d = false := hbehind.not_digit d rest rfl
        exact absurd hdigit (by simp [startsWithDigit, hd])
  refine ⟨c, inner, rfl, ?_⟩
  rw [token_of_operator hc hbehind', operator, ← List.cons_append,
    takeWhile_append_of_all hall hbehind.not_operator]

theorem reads_word {c : Char} {inner : List Char} (hdigit : Text.isDigit c = false)
    (hstart : Text.isWordStart c = true) (hinner : ∀ d ∈ inner, Text.isWordPart d = true)
    (hbehind : Delimits behind) :
    Reads (c :: inner) (.identifier (String.ofList (c :: inner))) behind := by
  have hall : ∀ d ∈ c :: inner, Text.isWordPart d = true := by
    intro d hd
    rcases List.mem_cons.mp hd with rfl | hd
    · exact Text.isWordPart_of_isWordStart hstart
    · exact hinner d hd
  refine ⟨c, inner, rfl, ?_⟩
  rw [token_of_wordStart hdigit hstart, word, ← List.cons_append,
    takeWhile_append_of_all hall hbehind.not_wordPart]

/-- What begins with a digit is read in front of what delimits it. -/
theorem reads_of_digit {c : Char} {rest : List Char} {lexeme : Lexeme}
    (hdigit : Text.isDigit c = true) (h : (number false (c :: rest)).found = .ok lexeme)
    (hbehind : Delimits behind) : Reads (number false (c :: rest)).taken lexeme behind := by
  obtain ⟨fraction, htaken, hagain⟩ := number_delimited false (c :: rest) hbehind
  have hdigits : (c :: rest).takeWhile Text.isDigit = c :: rest.takeWhile Text.isDigit :=
    List.takeWhile_cons_of_pos hdigit
  rw [hdigits] at htaken hagain
  refine ⟨c, rest.takeWhile Text.isDigit ++ fraction, htaken, ?_⟩
  rw [token_of_digit hdigit, ← h]
  exact hagain

/-- What begins with a sign in front of a digit is read in front of what delimits it. -/
theorem reads_of_minus {rest : List Char} {lexeme : Lexeme}
    (hdigit : startsWithDigit rest = true) (h : (number true rest).found = .ok lexeme)
    (hbehind : Delimits behind) : Reads (number true rest).taken lexeme behind := by
  obtain ⟨fraction, htaken, hagain⟩ := number_delimited true rest hbehind
  cases rest with
  | nil => cases hdigit
  | cons c rest =>
    have hdigits : (c :: rest).takeWhile Text.isDigit = c :: rest.takeWhile Text.isDigit :=
      List.takeWhile_cons_of_pos hdigit
    have hstarts : startsWithDigit
        ((c :: rest).takeWhile Text.isDigit ++ fraction ++ behind) = true := by
      rw [hdigits]
      exact hdigit
    refine ⟨'-', (c :: rest).takeWhile Text.isDigit ++ fraction, htaken, ?_⟩
    rw [token_of_minus hstarts, hagain, ← h]

/-- What is taken of a quoted text ends with the next quote. -/
theorem exists_inside {rest : List Char} {lexeme : Lexeme}
    (h : (quotedRest rest).found = .ok lexeme) :
    ∃ inside, (∀ c ∈ inside, c ≠ '"') ∧ (quotedRest rest).taken = '"' :: inside ++ ['"'] ∧
      lexeme = .quoted (String.ofList ('"' :: inside ++ ['"'])) := by
  refine ⟨rest.takeWhile (· != '"'), fun c hc => ?_, ?_⟩
  · exact bne_iff_ne.mp (List.mem_takeWhile_imp (p := (· != '"')) hc)
  · unfold quotedRest at h ⊢
    dsimp only at h ⊢
    split at h
    · cases h
    · cases h
      exact ⟨rfl, rfl⟩

/-- A quoted text that was scanned is read in front of every text. -/
theorem reads_of_quote {rest : List Char} {lexeme : Lexeme}
    (h : (quotedRest rest).found = .ok lexeme) (behind : List Char) :
    Reads (quotedRest rest).taken lexeme behind := by
  obtain ⟨inside, hinside, htaken, rfl⟩ := exists_inside h
  rw [htaken]
  exact reads_quoted hinside behind

/-- **What was scanned once is scanned again** in front of a text that delimits it. -/
theorem reads_of_found {c : Char} {rest : List Char} {lexeme : Lexeme}
    (h : (token c rest).found = .ok lexeme) (hbehind : Delimits behind) :
    Reads (token c rest).taken lexeme behind := by
  have hclass : ∀ p : Char → Bool, ∀ d ∈ rest.takeWhile p, p d = true :=
    fun p d hd => List.mem_takeWhile_imp hd
  by_cases hdigit : Text.isDigit c = true
  · rw [token_of_digit hdigit] at h ⊢
    exact reads_of_digit hdigit h hbehind
  by_cases hminus : c = '-' ∧ startsWithDigit rest = true
  · obtain ⟨rfl, hstarts⟩ := hminus
    rw [token_of_minus hstarts] at h ⊢
    exact reads_of_minus hstarts h hbehind
  by_cases hstart : Text.isWordStart c = true
  · rw [token_of_wordStart (by simpa using hdigit) hstart] at h ⊢
    have htaken : (c :: rest).takeWhile Text.isWordPart = c :: rest.takeWhile Text.isWordPart :=
      List.takeWhile_cons_of_pos (Text.isWordPart_of_isWordStart hstart)
    rw [word, htaken] at h ⊢
    cases h
    exact reads_word (by simpa using hdigit) hstart (hclass _) hbehind
  by_cases hoperator : isOperatorChar c = true
  · rw [token_of_operator hoperator hminus] at h ⊢
    have htaken : (c :: rest).takeWhile isOperatorChar = c :: rest.takeWhile isOperatorChar :=
      List.takeWhile_cons_of_pos hoperator
    have hnumber : ¬ (c = '-' ∧ startsWithDigit (rest.takeWhile isOperatorChar) = true) := by
      rintro ⟨rfl, hstarts⟩
      cases rest with
      | nil => cases hstarts
      | cons d rest =>
        by_cases hd : isOperatorChar d = true
        · rw [List.takeWhile_cons_of_pos hd] at hstarts
          exact hminus ⟨rfl, hstarts⟩
        · rw [List.takeWhile_cons_of_neg hd] at hstarts
          cases hstarts
    rw [operator, htaken] at h ⊢
    cases h
    exact reads_operator hoperator (hclass _) hnumber hbehind
  by_cases hquote : c = '"'
  · subst hquote
    rw [token_quote] at h ⊢
    exact reads_of_quote h behind
  · have hsingle : token c rest = single c := by
      simp [token, hdigit, hminus, hstart, hoperator, hquote]
    rw [hsingle] at h ⊢
    unfold single at h ⊢
    split at h
    · rename_i hpunctuation
      cases h
      exact reads_punctuation hpunctuation behind
    · cases h

/-- Texts that are the same up to what delimits them. -/
def Alike (text text' : List Char) : Prop :=
  ∃ front behind behind', text = front ++ behind ∧ text' = front ++ behind' ∧ Delimits behind ∧
    Delimits behind'

theorem Alike.append {text text' : List Char} (h : Alike text text') (front : List Char) :
    Alike (front ++ text) (front ++ text') := by
  obtain ⟨front', behind, behind', rfl, rfl, hbehind⟩ := h
  exact ⟨front ++ front', behind, behind', by simp, by simp, hbehind⟩

theorem Alike.of_delimits (h : Delimits front) (hbehind : Delimits behind) : Alike front behind :=
  ⟨[], front, behind, rfl, rfl, h, hbehind⟩

/-- **A spelling does not tell texts that are alike apart.** -/
theorem Reads.alike {spelling text text' : List Char} {lexeme : Lexeme}
    (h : Reads spelling lexeme text) (halike : Alike text text') :
    Reads spelling lexeme text' := by
  obtain ⟨c, inner, rfl, htoken⟩ := h
  obtain ⟨front, behind, behind', rfl, rfl, hbehind, hbehind'⟩ := halike
  by_cases hquote : c = '"'
  · subst hquote
    rw [token_quote] at htoken
    have hreads := reads_of_quote (congrArg Scan.found htoken) (front ++ behind')
    rwa [congrArg Scan.taken htoken] at hreads
  · refine ⟨c, inner, rfl, ?_⟩
    rw [← List.append_assoc, token_joined_of_ne_quote hquote hbehind] at htoken
    rw [← List.append_assoc, token_joined_of_ne_quote hquote hbehind', htoken]

/-- A text has one first spelling only. -/
theorem Reads.unique {spelling spelling' behind' : List Char} {lexeme lexeme' : Lexeme}
    (h : Reads spelling lexeme behind) (h' : Reads spelling' lexeme' behind')
    (htext : spelling ++ behind = spelling' ++ behind') :
    spelling = spelling' ∧ lexeme = lexeme' ∧ behind = behind' := by
  obtain ⟨c, inner, rfl, htoken⟩ := h
  obtain ⟨c', inner', rfl, htoken'⟩ := h'
  obtain ⟨rfl, (hrest : inner ++ behind = inner' ++ behind')⟩ := List.cons.inj htext
  rw [hrest, htoken'] at htoken
  obtain ⟨heq, hlexeme⟩ := Scan.mk.inj htoken
  rw [← heq] at htext
  exact ⟨heq.symm, (Except.ok.inj hlexeme).symm, List.append_cancel_left htext⟩

/-- The only spelling that begins with a blank is a newline. -/
theorem Reads.eq_newline {c : Char} {inner : List Char} {lexeme : Lexeme}
    (h : Reads (c :: inner) lexeme behind) (hblank : Text.isBlank c = true) :
    c :: inner = ['\n'] := by
  obtain ⟨d, inner', hspelling, htoken⟩ := h
  cases hspelling
  obtain ⟨hdelimiter, hquote, hpunctuation⟩ := isDelimiter_of_isBlank hblank
  obtain ⟨hdigit, hword, hoperator⟩ := isDelimiter_eq hdelimiter
  have hstart : ¬ Text.isWordStart c = true := by
    intro hstart
    rw [Text.isWordPart_of_isWordStart hstart] at hword
    cases hword
  have hminus : c ≠ '-' := by
    rintro rfl
    exact absurd hoperator (by decide)
  have hsingle : token c (inner ++ behind) = single c := by
    simp [token, hdigit, hminus, hstart, hoperator, hquote]
  rw [hsingle, single] at htoken
  by_cases hc : c = '\n'
  · subst hc
    exact (congrArg Scan.taken htoken).symm
  · rw [hpunctuation hc] at htoken
    cases htoken

end Scan

end FrontEnd
