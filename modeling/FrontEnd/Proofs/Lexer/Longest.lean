import FrontEnd.Proofs.Lexer.Integers

/-!
# Longest matches

Every token belongs to a class of spellings, and the first characters of what is left of a text
decide which: one character, or a minus sign with the character behind it. Classes overlap in these
characters, and a point belongs to numbers and operators alike, so the choice comes first, and then
the longest spelling of the class is taken, whatever other classes could have taken.

* `TokenClass.of?` — the class that the first characters decide on.
* `TokenClass.Spells` — the spellings of a class, with what they stand for.
* `Scan.longest_of_found` — a scan takes the longest spelling of the class.
* `Scan.token_of_no_class`, `Scan.token_of_open_quote` — what a scan refuses.
-/

set_option autoImplicit false

namespace FrontEnd

/-! ## Definitions -/

/-- The classes of tokens. -/
inductive TokenClass where
  | number
  | word
  | operator
  | quoted
  | punctuation
  deriving DecidableEq, Repr

namespace TokenClass

/-- The class that the first characters of a text decide on. A minus sign begins a number only
directly in front of a digit. -/
def of? : List Char → Option TokenClass
  | [] => none
  | c :: rest =>
      if Text.isDigit c ∨ (c = '-' ∧ Scan.startsWithDigit rest) then some .number
      else if Text.isWordStart c then some .word
      else if isOperatorChar c then some .operator
      else if c = '"' then some .quoted
      else if (Scan.punctuation? c).isSome then some .punctuation
      else none

/-- The spellings of a class, with what they stand for: digits behind an optional sign are the
integer of their decimal value, and with a fraction a float; a word begins with a letter or an
underscore; an operator is any run of its characters; a quoted text goes from a quote to the next
one; and each mark of punctuation stands alone, the newline that separates declarations among
them. -/
inductive Spells : TokenClass → List Char → Lexeme → Prop
  | integer (literal : IntegerLiteral) : Spells .number literal.text (.signed literal.value)
  | fraction (literal : IntegerLiteral) {fraction : List Char} (ne_nil : fraction ≠ [])
      (isDigit : ∀ c ∈ fraction, Text.isDigit c = true) :
      Spells .number (literal.text ++ '.' :: fraction)
        (.float (Binary64.ofDecimal literal.negative
          (Text.digitsValue (literal.digits ++ fraction)) (-fraction.length)))
  | word {c : Char} {inner : List Char} (isWordStart : Text.isWordStart c = true)
      (isWordPart : ∀ d ∈ inner, Text.isWordPart d = true) :
      Spells .word (c :: inner) (.identifier (String.ofList (c :: inner)))
  | operator {text : List Char} (ne_nil : text ≠ [])
      (isOperatorChar : ∀ c ∈ text, isOperatorChar c = true) :
      Spells .operator text (.operator (String.ofList text))
  | quoted {inside : List Char} (noQuote : '"' ∉ inside) :
      Spells .quoted ('"' :: inside ++ ['"']) (.quoted (String.ofList ('"' :: inside ++ ['"'])))
  | punctuation {c : Char} {lexeme : Lexeme} (isMark : Scan.punctuation? c = some lexeme) :
      Spells .punctuation [c] lexeme

/-- A text is the longest spelling in front of another text, of the class that is decided on there.
The spelling alone decides on the same class, and in this class it stands for one lexeme. -/
structure Longest (kind : TokenClass) (whole text : List Char) (lexeme : Lexeme) : Prop where
  begins : of? whole = some kind
  alone : of? text = some kind
  isPrefix : text <+: whole
  spells : kind.Spells text lexeme
  longest : ∀ other meaning, other <+: whole → kind.Spells other meaning →
    other.length ≤ text.length
  unique : ∀ meaning, kind.Spells text meaning → meaning = lexeme

end TokenClass

/-! ## Literals -/

namespace IntegerLiteral

variable {literal other : IntegerLiteral} {behind text : List Char}

theorem startsWithDigit_digits (literal : IntegerLiteral) (behind : List Char) :
    Scan.startsWithDigit (literal.digits ++ behind) = true := by
  obtain ⟨first, others, hdigits⟩ := List.exists_cons_of_ne_nil literal.digits_ne_nil
  rw [hdigits]
  exact literal.isDigit first (hdigits ▸ List.mem_cons_self)

theorem not_startsWithDigit_minus (rest : List Char) :
    ¬ Scan.startsWithDigit ('-' :: rest) = true := by
  have hminus : Text.isDigit '-' = false := by decide
  simp [Scan.startsWithDigit, hminus]

/-- A literal in front of a sign and a row of digits has this sign, and digits of the row. -/
theorem isPrefix_of_text {negative : Bool} (hstarts : Scan.startsWithDigit text = true)
    (h : literal.text ++ behind <+: (if negative then ['-'] else []) ++ text) :
    literal.negative = negative ∧ literal.digits ++ behind <+: text := by
  have hdigits := literal.startsWithDigit_digits behind
  obtain ⟨tail, htail⟩ := h
  rw [IntegerLiteral.text] at htail
  cases hliteral : literal.negative with
  | false =>
    cases negative with
    | false => exact ⟨rfl, tail, by simpa [hliteral] using htail⟩
    | true =>
      -- a literal without a sign begins with a digit
      have hminus : literal.digits ++ behind ++ tail = '-' :: text := by
        simpa [hliteral] using htail
      have hfirst := literal.startsWithDigit_digits (behind ++ tail)
      rw [← List.append_assoc, hminus] at hfirst
      exact absurd hfirst (not_startsWithDigit_minus text)
  | true =>
    cases negative with
    | true => exact ⟨rfl, tail, by simpa [hliteral] using htail⟩
    | false =>
      have hminus : text = '-' :: (literal.digits ++ (behind ++ tail)) := by
        simpa [hliteral] using htail.symm
      rw [hminus] at hstarts
      exact absurd hstarts (not_startsWithDigit_minus _)

/-- No literal has a point. -/
theorem no_point (literal : IntegerLiteral) : ∀ c ∈ literal.text, (c != '.') = true := by
  intro c hc
  rw [bne_iff_ne]
  rintro rfl
  rw [text, List.mem_append] at hc
  rcases hc with hc | hc
  · split at hc <;> simp at hc
  · exact absurd (literal.isDigit _ hc) (by decide)

/-- Literals with the same characters have the same sign and the same digits. -/
theorem eq_of_text (h : literal.text = other.text) :
    literal.negative = other.negative ∧ literal.digits = other.digits := by
  have hstarts : Scan.startsWithDigit other.digits = true := by
    simpa using other.startsWithDigit_digits []
  have hfront : literal.text ++ [] <+: (if other.negative then ['-'] else []) ++ other.digits := by
    rw [List.append_nil, h]
    exact List.prefix_rfl
  obtain ⟨hsign, -⟩ := isPrefix_of_text hstarts hfront
  rw [text, text, hsign] at h
  exact ⟨hsign, List.append_cancel_left h⟩

end IntegerLiteral

/-! ## Spellings -/

namespace TokenClass

theorem of?_number {text : List Char} (h : Scan.startsWithDigit text = true) (negative : Bool) :
    of? ((if negative then ['-'] else []) ++ text) = some .number := by
  cases negative with
  | true => simp [of?, h]
  | false => cases text with
    | nil => cases h
    | cons c rest =>
      have hc : Text.isDigit c = true := h
      simp [of?, hc]

theorem of?_word {c : Char} (h : Text.isWordStart c = true) (rest : List Char) :
    of? (c :: rest) = some .word := by
  have hminus : c ≠ '-' := by
    rintro rfl
    exact absurd h (by decide +kernel)
  simp [of?, Text.isDigit_of_isWordStart h, hminus, h]

theorem of?_operator {c : Char} {rest : List Char} (h : isOperatorChar c = true)
    (hnumber : ¬ (c = '-' ∧ Scan.startsWithDigit rest = true)) :
    of? (c :: rest) = some .operator := by
  simp [of?, Scan.isDigit_of_isOperatorChar h, isWordStart_of_isOperatorChar h, hnumber, h]

theorem of?_quoted (rest : List Char) : of? ('"' :: rest) = some .quoted := by
  have hstart : Text.isWordStart '"' = false := by decide +kernel
  have hdigit : Text.isDigit '"' = false := by decide
  have hoperator : isOperatorChar '"' = false := by decide
  simp [of?, hstart, hdigit, hoperator]

theorem of?_punctuation {c : Char} {lexeme : Lexeme} (h : Scan.punctuation? c = some lexeme)
    (rest : List Char) : of? (c :: rest) = some .punctuation := by
  obtain ⟨hdigit, hminus, hword, hoperator, hquote⟩ := Scan.of_punctuation h
  simp [of?, hdigit, hminus, hword, hoperator, hquote, h]

variable {kind : TokenClass} {text : List Char} {lexeme meaning : Lexeme}

/-- **A spelling of a class begins as the class does**, so it belongs to no other class. -/
theorem Spells.of?_eq (h : kind.Spells text lexeme) : of? text = some kind := by
  cases h with
  | integer literal =>
    have hstarts : Scan.startsWithDigit literal.digits = true := by
      simpa using literal.startsWithDigit_digits []
    exact of?_number hstarts literal.negative
  | fraction literal _ _ =>
    rw [IntegerLiteral.text, List.append_assoc]
    exact of?_number (literal.startsWithDigit_digits _) literal.negative
  | word hstart _ => exact of?_word hstart _
  | operator hne hall =>
    obtain ⟨c, rest, rfl⟩ := List.exists_cons_of_ne_nil hne
    refine of?_operator (hall c List.mem_cons_self) ?_
    rintro ⟨-, hdigit⟩
    cases rest with
    | nil => cases hdigit
    | cons d rest =>
      have hd := hall d (List.mem_cons_of_mem c List.mem_cons_self)
      exact Bool.eq_false_iff.mp (Scan.isDigit_of_isOperatorChar hd) hdigit
  | quoted _ => exact of?_quoted _
  | punctuation hmark => exact of?_punctuation hmark []

/-- **A spelling stands for one lexeme** in its class. -/
theorem Spells.unique (h : kind.Spells text lexeme) (h' : kind.Spells text meaning) :
    meaning = lexeme := by
  cases h with
  | integer literal =>
    generalize htext : literal.text = text at h'
    cases h' with
    | integer other =>
      obtain ⟨hsign, hdigits⟩ := IntegerLiteral.eq_of_text htext
      rw [IntegerLiteral.value, IntegerLiteral.value, hsign, hdigits]
    | fraction other _ _ =>
      have hpoint := literal.no_point '.' (by rw [htext]; simp)
      exact absurd hpoint (by decide)
  | @fraction literal fraction _ _ =>
    generalize htext : literal.text ++ '.' :: fraction = text at h'
    cases h' with
    | integer other =>
      have hpoint := other.no_point '.' (by rw [← htext]; simp)
      exact absurd hpoint (by decide)
    | @fraction other fraction' _ _ =>
      have hpoint : ∀ fraction : List Char, ∀ c rest, '.' :: fraction = c :: rest →
          (c != '.') = false := by
        rintro fraction c rest ⟨⟩
        rfl
      have hwhole := congrArg (List.takeWhile (· != '.')) htext
      have hrest := congrArg (List.dropWhile (· != '.')) htext
      rw [Scan.takeWhile_append_of_all literal.no_point (hpoint _),
        Scan.takeWhile_append_of_all other.no_point (hpoint _)] at hwhole
      rw [Scan.dropWhile_append_of_all literal.no_point (hpoint _),
        Scan.dropWhile_append_of_all other.no_point (hpoint _)] at hrest
      obtain ⟨hsign, hdigits⟩ := IntegerLiteral.eq_of_text hwhole
      cases hrest
      rw [hsign, hdigits]
  | word _ _ => cases h' with
    | word _ _ => rfl
  | operator _ _ => cases h' with
    | operator _ _ => rfl
  | @quoted inside _ =>
    generalize htext : '"' :: inside ++ ['"'] = text at h'
    cases h' with
    | quoted _ => rfl
  | punctuation hmark => cases h' with
    | punctuation hmark' => exact Option.some.inj (hmark'.symm.trans hmark)

theorem Longest.of_spells {whole : List Char} (begins : of? whole = some kind)
    (isPrefix : text <+: whole) (spells : kind.Spells text lexeme)
    (longest : ∀ other meaning, other <+: whole → kind.Spells other meaning →
      other.length ≤ text.length) : kind.Longest whole text lexeme :=
  ⟨begins, spells.of?_eq, isPrefix, spells, longest, fun _ => spells.unique⟩

end TokenClass

/-! ## Longest spellings -/

namespace Scan

open TokenClass

/-- A run of a class of characters is no longer than the run that is there. -/
theorem length_le_takeWhile {p : Char → Bool} {front text : List Char} (h : front <+: text)
    (hall : ∀ c ∈ front, p c = true) : front.length ≤ (text.takeWhile p).length := by
  obtain ⟨behind, rfl⟩ := h
  rw [List.takeWhile_append_of_pos hall, List.length_append]
  exact Nat.le_add_right _ _

/-- The literal at the front of a row of digits. -/
def literalAt (negative : Bool) (text : List Char) (h : startsWithDigit text = true) :
    IntegerLiteral where
  negative := negative
  digits := text.takeWhile Text.isDigit
  digits_ne_nil := by
    cases text with
    | nil => cases h
    | cons c rest =>
      have hc : Text.isDigit c = true := h
      simp [hc]
  isDigit _ hc := List.mem_takeWhile_imp hc

section Numbers

variable {negative : Bool} {text : List Char} {lexeme : Lexeme}
  (hstarts : startsWithDigit text = true)

include hstarts

/-- What is taken of a number, and what it stands for. -/
theorem spells_number (hfound : (number negative text).found = .ok lexeme) :
    TokenClass.number.Spells (number negative text).taken lexeme := by
  have hliteral := (literalAt negative text hstarts).integer_eq
  simp only [number] at hfound ⊢
  cases hfraction : fractionDigits (text.dropWhile Text.isDigit) with
  | some fraction =>
    rw [hfraction] at hfound
    cases hfound
    obtain ⟨hdigits, c, rest, hcons⟩ := fractionDigits_eq_some hfraction
    exact .fraction (literalAt negative text hstarts) (by simp [hcons]) hdigits
  | none =>
    rw [hfraction] at hfound
    have hsigned : lexeme = .signed (literalAt negative text hstarts).value := by
      have hinteger : integer negative (text.takeWhile Text.isDigit) = .ok lexeme := hfound
      have hscan : integer (literalAt negative text hstarts).negative
          (literalAt negative text hstarts).digits = .ok lexeme := hinteger
      rw [hliteral] at hscan
      split at hscan
      · cases hscan
      · split at hscan
        · cases hscan
        · split at hscan <;> cases hscan
          rfl
    rw [hsigned]
    exact .integer (literalAt negative text hstarts)

/-- **No number is longer than the one that is taken**: not by digits, and not by a fraction, which
is taken where there is one. -/
theorem number_longest {other : List Char} {meaning : Lexeme}
    (hfront : other <+: (if negative then ['-'] else []) ++ text)
    (h : TokenClass.number.Spells other meaning) :
    other.length ≤ (number negative text).taken.length := by
  cases h with
  | integer literal =>
    rw [← List.append_nil literal.text] at hfront
    obtain ⟨hsign, hdigits⟩ := IntegerLiteral.isPrefix_of_text hstarts hfront
    rw [List.append_nil] at hdigits
    have hle := length_le_takeWhile hdigits literal.isDigit
    simp only [number, IntegerLiteral.text, hsign, List.length_append]
    cases fractionDigits (text.dropWhile Text.isDigit) <;> simp only [List.length_append] <;> omega
  | @fraction literal fraction hne hall =>
    obtain ⟨hsign, behind, hbehind⟩ := IntegerLiteral.isPrefix_of_text hstarts hfront
    have htext : text = literal.digits ++ '.' :: (fraction ++ behind) := by
      rw [← hbehind]
      simp
    have hpoint : ∀ c rest, '.' :: (fraction ++ behind) = c :: rest → Text.isDigit c = false := by
      rintro c rest ⟨⟩
      decide
    obtain ⟨d, others, hfraction⟩ := List.exists_cons_of_ne_nil hne
    have hd : Text.isDigit d = true := hall d (hfraction ▸ List.mem_cons_self)
    have hrest : fractionDigits ('.' :: (fraction ++ behind)) =
        some ((fraction ++ behind).takeWhile Text.isDigit) := by
      rw [hfraction, List.cons_append]
      simp only [fractionDigits, hd, if_true]
    have hle := length_le_takeWhile (List.prefix_append fraction behind) hall
    simp only [number, htext, takeWhile_append_of_all literal.isDigit hpoint,
      dropWhile_append_of_all literal.isDigit hpoint, hrest, IntegerLiteral.text, hsign]
    simp only [List.length_append, List.length_cons]
    omega

end Numbers

/-! ## What a scan takes -/

section Found

variable {c : Char} {rest : List Char} {lexeme : Lexeme}

theorem longest_word (hstart : Text.isWordStart c = true) :
    TokenClass.word.Longest (c :: rest) (word (c :: rest)).taken
      (.identifier (String.ofList (word (c :: rest)).taken)) := by
  have htaken : (word (c :: rest)).taken = c :: rest.takeWhile Text.isWordPart :=
    List.takeWhile_cons_of_pos (Text.isWordPart_of_isWordStart hstart)
  have hspells : TokenClass.word.Spells (word (c :: rest)).taken
      (.identifier (String.ofList (word (c :: rest)).taken)) := by
    rw [htaken]
    exact .word hstart fun d hd => List.mem_takeWhile_imp hd
  refine .of_spells (of?_word hstart rest) (List.takeWhile_prefix _) hspells ?_
  intro other meaning hprefix hother
  refine length_le_takeWhile hprefix ?_
  cases hother with
  | word hstart hinner =>
    exact List.forall_mem_cons.mpr ⟨Text.isWordPart_of_isWordStart hstart, hinner⟩

theorem longest_operator (hoperator : isOperatorChar c = true)
    (hnumber : ¬ (c = '-' ∧ startsWithDigit rest = true)) :
    TokenClass.operator.Longest (c :: rest) (operator (c :: rest)).taken
      (.operator (String.ofList (operator (c :: rest)).taken)) := by
  have htaken : (operator (c :: rest)).taken = c :: rest.takeWhile isOperatorChar :=
    List.takeWhile_cons_of_pos hoperator
  have hspells : TokenClass.operator.Spells (operator (c :: rest)).taken
      (.operator (String.ofList (operator (c :: rest)).taken)) :=
    .operator (by simp [htaken]) fun d hd => List.mem_takeWhile_imp hd
  refine .of_spells (of?_operator hoperator hnumber) (List.takeWhile_prefix _) hspells ?_
  intro other meaning hprefix hother
  cases hother with
  | operator _ hall => exact length_le_takeWhile hprefix hall

theorem longest_number (negative : Bool) {text : List Char}
    (hstarts : startsWithDigit text = true)
    (hfound : (number negative text).found = .ok lexeme) :
    TokenClass.number.Longest ((if negative then ['-'] else []) ++ text)
      (number negative text).taken lexeme :=
  .of_spells (of?_number hstarts negative) (number_taken_isPrefix negative text)
    (spells_number hstarts hfound) fun _ _ => number_longest hstarts

/-- Up to the next quote there is only one quoted text. -/
theorem longest_quoted (hfound : (quotedRest rest).found = .ok lexeme) :
    TokenClass.quoted.Longest ('"' :: rest) (quotedRest rest).taken lexeme := by
  have hprefix := quotedRest_taken_isPrefix rest
  have hinside : '"' ∉ rest.takeWhile (· != '"') := by
    intro hmem
    simpa using List.mem_takeWhile_imp hmem
  cases hdrop : rest.dropWhile (· != '"') with
  | nil => simp [quotedRest, hdrop] at hfound
  | cons d behind =>
    have hscan : quotedRest rest = ⟨'"' :: rest.takeWhile (· != '"') ++ ['"'],
        .ok (.quoted (String.ofList ('"' :: rest.takeWhile (· != '"') ++ ['"'])))⟩ := by
      simp [quotedRest, hdrop]
    rw [hscan] at hfound hprefix ⊢
    cases hfound
    refine .of_spells (of?_quoted rest) hprefix (.quoted hinside) fun other meaning hother h => ?_
    cases h with
    | @quoted inside hquote =>
      obtain ⟨tail, htail⟩ := hother
      have hrest : rest = inside ++ '"' :: tail := by simpa using htail.symm
      have hall : ∀ c ∈ inside, (c != '"') = true :=
        fun c hc => bne_iff_ne.mpr fun heq => hquote (heq ▸ hc)
      have hstop : ∀ c behind, '"' :: tail = c :: behind → (c != '"') = false := by
        rintro c behind ⟨⟩
        rfl
      rw [hrest, takeWhile_append_of_all hall hstop]

theorem longest_single (h : punctuation? c = some lexeme) :
    TokenClass.punctuation.Longest (c :: rest) [c] lexeme := by
  refine .of_spells (of?_punctuation h rest) (List.prefix_append [c] rest) (.punctuation h) ?_
  rintro _ _ - ⟨⟩
  exact Nat.le_refl _

/-- **A scan that finds a lexeme takes the longest spelling** of the class that the first characters
decide on. -/
theorem longest_of_found (h : (token c rest).found = .ok lexeme) :
    ∃ kind : TokenClass, kind.Longest (c :: rest) (token c rest).taken lexeme := by
  by_cases hdigit : Text.isDigit c = true
  · rw [token_of_digit hdigit] at h ⊢
    exact ⟨.number, longest_number false hdigit h⟩
  by_cases hminus : c = '-' ∧ startsWithDigit rest = true
  · obtain ⟨rfl, hstarts⟩ := hminus
    rw [token_of_minus hstarts] at h ⊢
    exact ⟨.number, longest_number true hstarts h⟩
  by_cases hstart : Text.isWordStart c = true
  · rw [token_of_wordStart (by simpa using hdigit) hstart] at h ⊢
    cases h
    exact ⟨.word, longest_word hstart⟩
  by_cases hoperator : isOperatorChar c = true
  · rw [token_of_operator hoperator hminus] at h ⊢
    cases h
    exact ⟨.operator, longest_operator hoperator hminus⟩
  by_cases hquote : c = '"'
  · subst hquote
    rw [token_quote] at h ⊢
    exact ⟨.quoted, longest_quoted h⟩
  · have hsingle : token c rest = single c := by
      simp [token, hdigit, hminus, hstart, hoperator, hquote]
    rw [hsingle] at h ⊢
    unfold single at h ⊢
    split at h
    · rename_i hmark
      cases h
      exact ⟨.punctuation, longest_single hmark⟩
    · cases h

/-! ## What a scan refuses -/

/-- Where no class applies, the character is not recognized. -/
theorem token_of_no_class (h : of? (c :: rest) = none) :
    punctuation? c = none ∧ token c rest = ⟨[], .error (.unrecognized c)⟩ := by
  rw [of?] at h
  split at h
  · cases h
  rename_i hnumber
  rw [not_or] at hnumber
  split at h
  · cases h
  rename_i hstart
  split at h
  · cases h
  rename_i hoperator
  split at h
  · cases h
  rename_i hquote
  split at h
  · cases h
  rename_i hmark
  have hnone : punctuation? c = none := by simpa using hmark
  refine ⟨hnone, ?_⟩
  simp [token, single, hnumber.1, hnumber.2, hstart, hoperator, hquote, hnone]

/-- A quote that is never closed is refused. -/
theorem token_of_open_quote (h : '"' ∉ rest) :
    (token '"' rest).found = .error .unterminated := by
  have hdrop : rest.dropWhile (· != '"') = [] := by
    refine List.dropWhile_eq_nil_iff.mpr fun d hd => ?_
    rw [bne_iff_ne]
    rintro rfl
    exact h hd
  rw [token_quote]
  simp [quotedRest, hdrop]

end Found

end Scan

end FrontEnd
