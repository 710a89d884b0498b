import FrontEnd.Highlight
import FrontEnd.Proofs.Lexer.Joined
import FrontEnd.Proofs.Lexer.Delimited

/-!
# Rules of the highlighter and scans of the lexer

The highlighter tries an ordered list of rules at each place; the lexer looks at one character, or
at two, and then scans. In a text of ASCII characters the first rule that applies takes just what
the lexer scans there, and styles it as what the lexer finds.

* `Style.Suits` — how a lexeme may be styled.
* `integerLength_eq`, `floatLength_eq` — the rules for numbers, against the scan of a number.
* `firstPiece_name` — how a name is shown, by what it is and by what is directly in front of it.
* `firstPiece_of_found` — the piece in front of a text that begins with a token.
-/

set_option autoImplicit false

namespace FrontEnd.Highlight

open Scan

/-! ## Styles of lexemes -/

/-- The styles that a lexeme may be shown in. What a name is shown as depends on the name. -/
def Style.Suits (style : Style) : Lexeme → Prop
  | .signed _ => style = .integer
  | .float _ => style = .float
  | .quoted _ => style = .string
  | .identifier _ => style = .keyword ∨ style = .constructor ∨ style = .name
  | .operator symbol => style = if symbol = "=>" then .punctuation else .operator
  | .opening _ => style = .punctuation
  | .closing _ => style = .punctuation
  | .semicolon => style = .punctuation
  | .comma => style = .punctuation

instance (style : Style) (lexeme : Lexeme) : Decidable (style.Suits lexeme) := by
  cases lexeme <;> unfold Style.Suits <;> infer_instance

/-! ## Characters of ASCII -/

/-- A text of ASCII characters. -/
def IsAscii (text : List Char) : Prop :=
  ∀ c ∈ text, c.toNat < 128

/-- Among ASCII characters the classes of the lexer are those of the highlighter. -/
theorem classes_of_ascii {c : Char} (h : c.toNat < 128) :
    Text.isDigit c = c.isDigit ∧ Text.isWordPart c = isNamePart c ∧
      (Text.isWordStart c = true → Text.isDigit c = false ∧
        (c.isUpper = true ∨ (c.isLower || c == '_') = true)) := by
  have hall : ∀ n < 128, Text.isDigit (Char.ofNat n) = (Char.ofNat n).isDigit ∧
      Text.isWordPart (Char.ofNat n) = isNamePart (Char.ofNat n) ∧
      (Text.isWordStart (Char.ofNat n) = true → Text.isDigit (Char.ofNat n) = false ∧
        ((Char.ofNat n).isUpper = true ∨
          ((Char.ofNat n).isLower || Char.ofNat n == '_') = true)) := by
    decide +kernel
  simpa [Char.ofNat_toNat] using hall c.toNat h

/-- Classes that agree on a text take as much of it. -/
theorem takeWhile_congr {p q : Char → Bool} {text : List Char} (h : ∀ c ∈ text, p c = q c) :
    text.takeWhile p = text.takeWhile q := by
  induction text with
  | nil => rfl
  | cons c text ih =>
    have hc : p c = q c := h c List.mem_cons_self
    have hrest := ih fun d hd => h d (List.mem_cons_of_mem c hd)
    rw [List.takeWhile_cons, List.takeWhile_cons, hc, hrest]

theorem IsAscii.digits {text : List Char} (h : IsAscii text) :
    text.takeWhile Char.isDigit = text.takeWhile Text.isDigit :=
  takeWhile_congr fun c hc => (classes_of_ascii (h c hc)).1.symm

theorem IsAscii.names {text : List Char} (h : IsAscii text) :
    text.takeWhile isNamePart = text.takeWhile Text.isWordPart :=
  takeWhile_congr fun c hc => (classes_of_ascii (h c hc)).2.1.symm

theorem IsAscii.drop {text : List Char} (h : IsAscii text) (n : Nat) : IsAscii (text.drop n) :=
  fun c hc => h c (List.mem_of_mem_drop hc)

/-! ## Numbers -/

section Numbers

variable {text : List Char}

/-- What a run of digits leaves of a text. -/
theorem drop_digits (text : List Char) :
    text.drop (text.takeWhile Text.isDigit).length = text.dropWhile Text.isDigit := by
  conv => lhs; arg 2; rw [← List.takeWhile_append_dropWhile (p := Text.isDigit) (l := text)]
  exact List.drop_left

/-- The sign of a number. -/
def signOf (negative : Bool) : List Char :=
  if negative then ['-'] else []

/-- The length that the rule for integers takes of a number. -/
theorem integerLength_eq (negative : Bool) (hascii : IsAscii text)
    (h : startsWithDigit text = true) :
    integerLength (signOf negative ++ text) =
      some ((signOf negative).length + (text.takeWhile Text.isDigit).length) := by
  cases text with
  | nil => cases h
  | cons c rest =>
    have hdigit : Text.isDigit c = true := h
    have hminus : c ≠ '-' := by
      rintro rfl
      exact absurd hdigit (by decide)
    have hdigits := hascii.digits
    have hrun : ∃ n, run Char.isDigit (c :: rest) = n + 1 := by
      rw [run, hdigits, List.takeWhile_cons_of_pos hdigit]
      exact ⟨_, List.length_cons⟩
    obtain ⟨n, hn⟩ := hrun
    have hlength : ((c :: rest).takeWhile Text.isDigit).length = n + 1 := by
      rw [← hdigits]
      exact hn
    cases negative with
    | true => simp [integerLength, signOf, hn, hlength]
    | false => simp [integerLength, signOf, hminus, hn, hlength]

/-- The length that the rule for fractions takes of a number, if the number has a fraction. -/
theorem floatLength_eq (negative : Bool) (hascii : IsAscii text)
    (h : startsWithDigit text = true) :
    floatLength (signOf negative ++ text) =
      (fractionDigits (text.dropWhile Text.isDigit)).map fun fraction =>
        (signOf negative).length + (text.takeWhile Text.isDigit).length + 1 + fraction.length := by
  have hrest : (signOf negative ++ text).drop
      ((signOf negative).length + (text.takeWhile Text.isDigit).length) =
        text.dropWhile Text.isDigit := by
    rw [List.drop_append, List.drop_eq_nil_of_le (by omega), List.nil_append,
      Nat.add_sub_cancel_left, drop_digits]
  have hascii' : IsAscii (text.dropWhile Text.isDigit) := by
    rw [← drop_digits]
    exact hascii.drop _
  rw [floatLength, integerLength_eq negative hascii h]
  dsimp only
  rw [hrest]
  generalize text.dropWhile Text.isDigit = behind at hascii' ⊢
  match behind with
  | [] => rfl
  | [c] => by_cases hc : c = '.' <;> simp [fractionDigits, run, hc]
  | c :: d :: rest =>
    by_cases hc : c = '.'
    · subst hc
      have hdigits : (d :: rest).takeWhile Char.isDigit = (d :: rest).takeWhile Text.isDigit :=
        IsAscii.digits fun e he => hascii' e (List.mem_cons_of_mem _ he)
      by_cases hd : Text.isDigit d = true
      · simp [fractionDigits, run, hdigits, hd]
      · simp [fractionDigits, run, hdigits, hd]
    · simp [fractionDigits, hc]

/-- What does not begin with a digit, or with a sign in front of one, is no number. -/
theorem integerLength_eq_none (hascii : IsAscii text) (h : startsWithDigit text = false)
    (hsign : text.head? = some '-' → startsWithDigit text.tail = false) :
    integerLength text = none := by
  have hnone : ∀ text : List Char, IsAscii text → startsWithDigit text = false →
      run Char.isDigit text = 0 := by
    intro text hascii h
    cases text with
    | nil => rfl
    | cons c rest =>
      have hdigit : Text.isDigit c = false := h
      rw [run, hascii.digits, List.takeWhile_cons_of_neg (by simp [hdigit])]
      rfl
  by_cases hminus : text.head? = some '-'
  · have hrest : run Char.isDigit (text.drop 1) = 0 := by
      rw [List.drop_one]
      exact hnone _ (List.drop_one ▸ hascii.drop 1) (hsign hminus)
    simp only [integerLength, hminus, if_true, hrest]
  · have hrest : run Char.isDigit (text.drop 0) = 0 := hnone _ hascii h
    simp only [integerLength, hminus, if_false, hrest]

end Numbers

/-! ## Pieces in front of tokens -/

section Pieces

variable {before : Option Char} {c : Char} {rest : List Char}

theorem blankLength_eq_none (h : Text.isBlank c = false) : blankLength (c :: rest) = none := by
  simp [blankLength, run, h]

theorem quotedLength_eq_none (h : c ≠ '"') : quotedLength (c :: rest) = none := by
  unfold quotedLength
  split
  · rename_i heq
    cases heq
    exact absurd rfl h
  · rfl

theorem floatLength_eq_none {text : List Char} (h : integerLength text = none) :
    floatLength text = none := by
  rw [floatLength, h]

theorem keywordLength_eq_none (h : Text.isWordPart c = false) :
    keywordLength before (c :: rest) = none := by
  have hempty : isKeyword (String.ofList []) = false := by decide
  simp [keywordLength, h, hempty]

theorem operators_eq_none (h : isOperatorChar c = false) :
    arrowLength (c :: rest) = none ∧ operatorLength (c :: rest) = none := by
  constructor
  · simp [arrowLength, h]
  · simp [operatorLength, run, h]

/-- The rules for names do not apply where no word begins. -/
theorem nameLength_eq_none {start : Char → Bool} (h : start c = false) :
    nameLength start (c :: rest) = none := by
  simp [nameLength, h]

/-- A number is taken as a whole and styled by whether it has a fraction. -/
theorem firstPiece_number (before : Option Char) (negative : Bool) {text : List Char}
    {lexeme : Lexeme} (hascii : IsAscii text) (h : startsWithDigit text = true)
    (hfound : (number negative text).found = .ok lexeme) :
    ∃ style : Style, style.Suits lexeme ∧ firstPiece before (signOf negative ++ text) =
      (style, (number negative text).taken.length) := by
  have hinteger := integerLength_eq negative hascii h
  have hfloat := floatLength_eq negative hascii h
  have hblank : blankLength (signOf negative ++ text) = none ∧
      quotedLength (signOf negative ++ text) = none := by
    cases text with
    | nil => cases h
    | cons c rest =>
      have hdigit : Text.isDigit c = true := h
      have hnot : Text.isBlank c = false ∧ c ≠ '"' := by
        refine ⟨?_, ?_⟩
        · by_contra hblank
          have hdelimiter := (isDelimiter_of_isBlank (by simpa using hblank)).1
          rw [(isDelimiter_eq hdelimiter).1] at hdigit
          cases hdigit
        · rintro rfl
          exact absurd hdigit (by decide)
      cases negative with
      | true => exact ⟨blankLength_eq_none (by decide), quotedLength_eq_none (by decide)⟩
      | false => exact ⟨blankLength_eq_none hnot.1, quotedLength_eq_none hnot.2⟩
  have hsign : (if negative = true then ['-'] else []) = signOf negative := rfl
  simp only [number, hsign] at hfound ⊢
  cases hfraction : fractionDigits (text.dropWhile Text.isDigit) with
  | none =>
    simp only [hfraction, Option.map_none] at hfound hfloat
    obtain ⟨value, -, rfl⟩ := integer_eq_ok hfound
    refine ⟨.integer, rfl, ?_⟩
    simp [firstPiece, rules, hblank, hfloat, hinteger]
  | some fraction =>
    simp only [hfraction, Option.map_some] at hfound hfloat
    cases hfound
    refine ⟨.float, rfl, ?_⟩
    simp [firstPiece, rules, hblank, hfloat]
    omega

/-- Whether a name begins with a capital letter of ASCII. -/
def startsUpper (name : String) : Bool :=
  name.toList.head?.any Char.isUpper

/-- How a name is shown; `joined` says whether a part of a word is directly in front of it. -/
def nameStyle (joined : Bool) (name : String) : Style :=
  if !joined && isKeyword name then .keyword
  else if startsUpper name then .constructor
  else .name

theorem nameStyle_cases (joined : Bool) (name : String) :
    nameStyle joined name = .keyword ∨ nameStyle joined name = .constructor ∨
      nameStyle joined name = .name := by
  unfold nameStyle
  split
  · exact .inl rfl
  · split
    · exact .inr (.inl rfl)
    · exact .inr (.inr rfl)

theorem keywordLength_eq (before : Option Char) (text : List Char) :
    keywordLength before text =
      if !before.any Text.isWordPart && isKeyword (String.ofList (word text).taken) then
        some (word text).taken.length
      else none := by
  cases before <;> rfl

/-- A word is taken as a whole, and shown as the name that it is. -/
theorem firstPiece_name (before : Option Char) (hascii : IsAscii (c :: rest))
    (h : Text.isWordStart c = true) :
    firstPiece before (c :: rest) =
      (nameStyle (before.any Text.isWordPart) (String.ofList (word (c :: rest)).taken),
        (word (c :: rest)).taken.length) := by
  obtain ⟨hdigit, hletter⟩ := (classes_of_ascii (hascii c List.mem_cons_self)).2.2 h
  have hpart : Text.isWordPart c = true := Text.isWordPart_of_isWordStart h
  have hnames : rest.takeWhile isNamePart = rest.takeWhile Text.isWordPart :=
    IsAscii.names fun d hd => hascii d (List.mem_cons_of_mem c hd)
  have hblank : Text.isBlank c = false := isBlank_of_isWordPart hpart
  have hquote : c ≠ '"' := by
    rintro rfl
    exact absurd h (by decide +kernel)
  have hminus : c ≠ '-' := by
    rintro rfl
    exact absurd h (by decide +kernel)
  have hoperator : isOperatorChar c = false := by
    by_contra hoperator
    rw [isWordStart_of_isOperatorChar (by simpa using hoperator)] at h
    cases h
  have hinteger : integerLength (c :: rest) = none :=
    integerLength_eq_none hascii hdigit fun hhead => absurd (Option.some.inj hhead) hminus
  have htaken : (word (c :: rest)).taken.length = 1 + run isNamePart rest := by
    rw [word, List.takeWhile_cons_of_pos hpart, List.length_cons, run, hnames, Nat.add_comm]
  have hearlier : blankLength (c :: rest) = none ∧ quotedLength (c :: rest) = none ∧
      floatLength (c :: rest) = none ∧ arrowLength (c :: rest) = none ∧
      operatorLength (c :: rest) = none :=
    ⟨blankLength_eq_none hblank, quotedLength_eq_none hquote, floatLength_eq_none hinteger,
      operators_eq_none hoperator⟩
  have hhead : (String.ofList (word (c :: rest)).taken).toList.head? = some c := by
    rw [String.toList_ofList, word, List.takeWhile_cons_of_pos hpart, List.head?_cons]
  have hkeyword := keywordLength_eq before (c :: rest)
  unfold nameStyle startsUpper
  rw [hhead]
  by_cases hreserved : (!before.any Text.isWordPart &&
      isKeyword (String.ofList (word (c :: rest)).taken)) = true
  · rw [if_pos hreserved] at hkeyword ⊢
    simp [firstPiece, rules, hearlier, hinteger, hkeyword]
  · rw [if_neg hreserved] at hkeyword ⊢
    by_cases hupper : c.isUpper = true
    · simp [firstPiece, rules, hearlier, hinteger, hkeyword, nameLength, hupper, htaken]
    · have hlower := hletter.resolve_left hupper
      simp only [firstPiece, rules, hearlier, hinteger, hkeyword, nameLength, hupper, hlower,
        htaken, Option.any_some]
      rfl

/-- A word is taken as a whole, as a keyword, as a constructor or as another name. -/
theorem firstPiece_word (before : Option Char) (hascii : IsAscii (c :: rest))
    (h : Text.isWordStart c = true) :
    ∃ style : Style, style.Suits (.identifier (String.ofList (word (c :: rest)).taken)) ∧
      firstPiece before (c :: rest) = (style, (word (c :: rest)).taken.length) :=
  ⟨_, nameStyle_cases _ _, firstPiece_name before hascii h⟩

/-- An operator is taken as a whole; only the arrow is no operator to the highlighter. -/
theorem firstPiece_operator (before : Option Char) (hascii : IsAscii (c :: rest))
    (h : isOperatorChar c = true) (hnumber : ¬ (c = '-' ∧ startsWithDigit rest = true)) :
    ∃ style : Style, style.Suits (.operator (String.ofList (operator (c :: rest)).taken)) ∧
      firstPiece before (c :: rest) = (style, (operator (c :: rest)).taken.length) := by
  have hmarks : operatorChars.all (fun d =>
      !Text.isBlank d && !Text.isDigit d && !Text.isWordPart d && d != '"') = true := by
    decide +kernel
  have hmark := List.all_eq_true.mp hmarks c (List.contains_iff_mem.mp h)
  simp only [Bool.and_eq_true, Bool.not_eq_true', bne_iff_ne] at hmark
  obtain ⟨⟨⟨hblank, hdigit⟩, hpart⟩, hquote⟩ := hmark
  have hinteger : integerLength (c :: rest) = none := by
    refine integerLength_eq_none hascii hdigit fun hhead => ?_
    have hminus : c = '-' := Option.some.inj hhead
    simpa [hminus] using hnumber
  have hearlier : blankLength (c :: rest) = none ∧ quotedLength (c :: rest) = none ∧
      floatLength (c :: rest) = none ∧ keywordLength before (c :: rest) = none :=
    ⟨blankLength_eq_none hblank, quotedLength_eq_none hquote, floatLength_eq_none hinteger,
      keywordLength_eq_none hpart⟩
  have htaken : (operator (c :: rest)).taken = (c :: rest).takeWhile isOperatorChar := rfl
  rw [htaken]
  by_cases harrow : (c :: rest).takeWhile isOperatorChar = ['=', '>']
  · refine ⟨.punctuation, ?_, ?_⟩
    · rw [harrow]
      decide
    · simp [firstPiece, rules, hearlier, hinteger, arrowLength, harrow]
  · have hsymbol : String.ofList ((c :: rest).takeWhile isOperatorChar) ≠ "=>" := by
      intro heq
      have hlist := congrArg String.toList heq
      rw [String.toList_ofList] at hlist
      exact harrow hlist
    refine ⟨.operator, (if_neg hsymbol).symm, ?_⟩
    have harrowLength : arrowLength (c :: rest) = none := if_neg harrow
    have hlength : operatorLength (c :: rest) =
        some ((c :: rest).takeWhile isOperatorChar).length := by
      simp [operatorLength, run, h]
    simp [firstPiece, rules, hearlier, hinteger, harrowLength, hlength]

/-- A quoted text that is closed is taken as a whole. -/
theorem firstPiece_quoted (before : Option Char) {lexeme : Lexeme}
    (hfound : (quotedRest rest).found = .ok lexeme) :
    ∃ style : Style, style.Suits lexeme ∧
      firstPiece before ('"' :: rest) = (style, (quotedRest rest).taken.length) := by
  have hblank : blankLength ('"' :: rest) = none := blankLength_eq_none (by decide)
  have hsplit := congrArg List.length
    (List.takeWhile_append_dropWhile (p := (· != '"')) (l := rest))
  unfold quotedRest at hfound ⊢
  dsimp only at hfound ⊢
  split at hfound
  · cases hfound
  · rename_i hquote
    cases hfound
    refine ⟨.string, rfl, ?_⟩
    rw [List.length_append, hquote, List.length_cons] at hsplit
    have hlength : quotedLength ('"' :: rest) = some (run (· != '"') rest + 2) := by
      have hinside : run (· != '"') rest < rest.length := by
        unfold run
        omega
      rw [quotedLength, if_pos hinside]
    simp [firstPiece, rules, hblank, hlength, run]

/-- Punctuation is taken character by character. -/
theorem firstPiece_single (before : Option Char) (hascii : IsAscii (c :: rest)) {lexeme : Lexeme}
    (h : punctuation? c = some lexeme) (hnewline : c ≠ '\n') :
    ∃ style : Style, style.Suits lexeme ∧ firstPiece before (c :: rest) = (style, 1) := by
  have hmarks : ['(', ')', '[', ']', '\x7b', '\x7d', ';', ','].all (fun d =>
      !Text.isBlank d && !Text.isDigit d && !Text.isWordPart d && !isOperatorChar d && d != '"' &&
        d != '-' && !d.isUpper && !(d.isLower || d == '_') && isPunctuation d) = true := by
    decide +kernel
  have hmem : c ∈ ['(', ')', '[', ']', '\x7b', '\x7d', ';', ','] := by
    unfold punctuation? at h
    split at h <;> first | cases h; done | decide | exact absurd rfl hnewline
  have hsuits : Style.Suits .punctuation lexeme := by
    unfold punctuation? at h
    split at h <;> cases h <;> rfl
  have hmark := List.all_eq_true.mp hmarks c hmem
  simp only [Bool.and_eq_true, Bool.not_eq_true', bne_iff_ne] at hmark
  obtain ⟨⟨⟨⟨⟨⟨⟨⟨hblank, hdigit⟩, hpart⟩, hoperator⟩, hquote⟩, hminus⟩, hupper⟩, hlower⟩,
    hpunctuation⟩ := hmark
  have hinteger : integerLength (c :: rest) = none :=
    integerLength_eq_none hascii hdigit fun hhead => absurd (Option.some.inj hhead) hminus
  have hearlier : blankLength (c :: rest) = none ∧ quotedLength (c :: rest) = none ∧
      floatLength (c :: rest) = none ∧ keywordLength before (c :: rest) = none ∧
      arrowLength (c :: rest) = none ∧ operatorLength (c :: rest) = none ∧
      nameLength Char.isUpper (c :: rest) = none ∧
      nameLength (fun d => d.isLower || d == '_') (c :: rest) = none :=
    ⟨blankLength_eq_none hblank, quotedLength_eq_none hquote, floatLength_eq_none hinteger,
      keywordLength_eq_none hpart, (operators_eq_none hoperator).1,
      (operators_eq_none hoperator).2, nameLength_eq_none hupper, nameLength_eq_none hlower⟩
  refine ⟨.punctuation, hsuits, ?_⟩
  simp [firstPiece, rules, hearlier, hinteger, punctuationLength, hpunctuation]

/-- **The first rule that applies takes what the lexer scans**, and styles it as what the lexer
finds. Only a newline that separates is blank to the highlighter. -/
theorem firstPiece_of_found (before : Option Char) (hascii : IsAscii (c :: rest)) {lexeme : Lexeme}
    (hfound : (token c rest).found = .ok lexeme) (hnewline : c ≠ '\n') :
    ∃ style : Style, style.Suits lexeme ∧
      firstPiece before (c :: rest) = (style, (token c rest).taken.length) := by
  have hrest : IsAscii rest := fun d hd => hascii d (List.mem_cons_of_mem c hd)
  by_cases hdigit : Text.isDigit c = true
  · rw [token_of_digit hdigit] at hfound ⊢
    exact firstPiece_number before false hascii hdigit hfound
  by_cases hminus : c = '-' ∧ startsWithDigit rest = true
  · obtain ⟨rfl, hstarts⟩ := hminus
    rw [token_of_minus hstarts] at hfound ⊢
    exact firstPiece_number before true hrest hstarts hfound
  by_cases hstart : Text.isWordStart c = true
  · rw [token_of_wordStart (by simpa using hdigit) hstart] at hfound ⊢
    cases hfound
    exact firstPiece_word before hascii hstart
  by_cases hoperator : isOperatorChar c = true
  · rw [token_of_operator hoperator hminus] at hfound ⊢
    cases hfound
    exact firstPiece_operator before hascii hoperator hminus
  by_cases hquote : c = '"'
  · subst hquote
    rw [token_quote] at hfound ⊢
    exact firstPiece_quoted before hfound
  · have hsingle : token c rest = single c := by
      simp [token, hdigit, hminus, hstart, hoperator, hquote]
    rw [hsingle] at hfound ⊢
    unfold single at hfound ⊢
    split at hfound
    · rename_i hpunctuation
      cases hfound
      exact firstPiece_single before hascii hpunctuation hnewline
    · cases hfound

end Pieces

end FrontEnd.Highlight
