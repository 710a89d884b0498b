import FrontEnd.Proofs.Lexer.Tape

/-!
# Tokens in front of a newline

A text in which all brackets are closed can be followed by a newline and a further text: its tokens
stay what they are, and the newline becomes a separator.

* `Scan.isDelimiter`, `Scan.Delimits` — the characters, and the texts, that belong to no number, no
  word and no operator.
* `Scan.token_joined` — what is scanned does not depend on what is behind such a character.
* `View.remaining_followed` — the tokens of the text, the separator, and what is read behind it.
-/

set_option autoImplicit false

namespace FrontEnd

/-! ## Scans in front of a delimiter -/

namespace Scan

/-- Whether a character belongs to no number, word or operator. -/
def isDelimiter (c : Char) : Bool :=
  !Text.isDigit c && !Text.isWordPart c && !isOperatorChar c

/-- A text that has ended, or goes on with a delimiter. -/
def Delimits (text : List Char) : Prop :=
  ∀ c rest, text = c :: rest → isDelimiter c = true

theorem delimits_nil : Delimits [] := by
  intro c rest h
  cases h

theorem delimits_cons {c : Char} (h : isDelimiter c = true) (rest : List Char) :
    Delimits (c :: rest) := by
  intro d rest h'
  cases h'
  exact h

theorem isDelimiter_eq {c : Char} (h : isDelimiter c = true) :
    Text.isDigit c = false ∧ Text.isWordPart c = false ∧ isOperatorChar c = false := by
  simpa [isDelimiter, and_assoc] using h

variable {rest behind : List Char}

/-- What ends a text of a class is no member of it. -/
theorem Delimits.not_digit (h : Delimits behind) :
    ∀ c rest, behind = c :: rest → Text.isDigit c = false :=
  fun c rest hbehind => (isDelimiter_eq (h c rest hbehind)).1

theorem Delimits.not_wordPart (h : Delimits behind) :
    ∀ c rest, behind = c :: rest → Text.isWordPart c = false :=
  fun c rest hbehind => (isDelimiter_eq (h c rest hbehind)).2.1

theorem Delimits.not_operator (h : Delimits behind) :
    ∀ c rest, behind = c :: rest → isOperatorChar c = false :=
  fun c rest hbehind => (isDelimiter_eq (h c rest hbehind)).2.2

theorem takeWhile_joined {p : Char → Bool} (h : ∀ c more, behind = c :: more → p c = false) :
    (rest ++ behind).takeWhile p = rest.takeWhile p := by
  rw [List.takeWhile_append]
  split
  · rename_i hall
    have hnil : behind.takeWhile p = [] := by
      cases behind with
      | nil => rfl
      | cons c more => exact List.takeWhile_cons_of_neg (by simp [h c more rfl])
    rw [hnil, List.append_nil]
    exact ((List.takeWhile_prefix p).eq_of_length hall).symm
  · rfl

theorem dropWhile_joined {p : Char → Bool} (h : ∀ c more, behind = c :: more → p c = false) :
    (rest ++ behind).dropWhile p = rest.dropWhile p ++ behind := by
  have hall := List.takeWhile_append_dropWhile (p := p) (l := rest ++ behind)
  rw [takeWhile_joined h] at hall
  refine List.append_cancel_left (hall.trans ?_)
  rw [← List.append_assoc, List.takeWhile_append_dropWhile]

section Delimits

variable (h : Delimits behind)

include h

theorem startsWithDigit_joined : startsWithDigit (rest ++ behind) = startsWithDigit rest := by
  cases rest with
  | cons c rest => rfl
  | nil =>
    cases behind with
    | nil => rfl
    | cons c more => exact h.not_digit c more rfl

theorem fractionDigits_joined (text : List Char) :
    fractionDigits (text ++ behind) = fractionDigits text := by
  match text with
  | [] =>
    cases behind with
    | nil => rfl
    | cons c more =>
      have hc : c ≠ '.' := by
        rintro rfl
        exact absurd (h.not_operator _ _ rfl) (by decide)
      simp [fractionDigits, hc]
  | [c] =>
    by_cases hc : c = '.'
    · subst hc
      cases behind with
      | nil => rfl
      | cons d more => simp [fractionDigits, h.not_digit d more rfl]
    · simp [fractionDigits, hc]
  | c :: d :: rest =>
    by_cases hc : c = '.'
    · subst hc
      have hdigits : (d :: rest ++ behind).takeWhile Text.isDigit =
          (d :: rest).takeWhile Text.isDigit := takeWhile_joined h.not_digit
      rw [List.cons_append] at hdigits
      simp only [List.cons_append, fractionDigits, hdigits]
    · simp [fractionDigits, hc]

theorem number_joined (negative : Bool) (text : List Char) :
    number negative (text ++ behind) = number negative text := by
  simp only [number, takeWhile_joined h.not_digit, dropWhile_joined h.not_digit,
    fractionDigits_joined h]

end Delimits

/-- A quoted text that is closed ends before what follows. -/
theorem quotedRest_joined {lexeme : Lexeme} (h : (quotedRest rest).found = .ok lexeme)
    (behind : List Char) : quotedRest (rest ++ behind) = quotedRest rest := by
  have hsplit := List.takeWhile_append_dropWhile (p := (· != '"')) (l := rest)
  cases hquote : rest.dropWhile (· != '"') with
  | nil =>
    simp [quotedRest, hquote] at h
  | cons quote left =>
    have hlength : (rest.takeWhile (· != '"')).length ≠ rest.length := by
      intro heq
      have hall := congrArg List.length hsplit
      rw [List.length_append, hquote, List.length_cons] at hall
      omega
    simp only [quotedRest, List.dropWhile_append, List.takeWhile_append, hquote, hlength, if_false,
      List.isEmpty_cons, Bool.false_eq_true, List.cons_append]

theorem token_quote (rest : List Char) : token '"' rest = quotedRest rest := by
  have hdigit : Text.isDigit '"' = false := by decide
  have hstart : Text.isWordStart '"' = false := by decide +kernel
  have hoperator : isOperatorChar '"' = false := by decide
  simp [token, hdigit, hstart, hoperator]

/-- What begins with no quote is scanned the same in front of what delimits it. -/
theorem token_joined_of_ne_quote {c : Char} (hquote : c ≠ '"') (h : Delimits behind) :
    token c (rest ++ behind) = token c rest := by
  unfold token
  rw [startsWithDigit_joined h, ← List.cons_append]
  split
  · exact number_joined h false (c :: rest)
  split
  · exact number_joined h true rest
  split
  · simp only [word, takeWhile_joined h.not_wordPart]
  split
  · simp only [operator, takeWhile_joined h.not_operator]
  · rfl

/-- What is scanned from a text is scanned from it also in front of what delimits it. -/
theorem token_joined (c : Char) {lexeme : Lexeme} (h : (token c rest).found = .ok lexeme)
    (hbehind : Delimits behind) : token c (rest ++ behind) = token c rest := by
  by_cases hquote : c = '"'
  · subst hquote
    rw [token_quote] at h ⊢
    rw [token_quote]
    exact quotedRest_joined h _
  · exact token_joined_of_ne_quote hquote hbehind

theorem delimits_newline (more : List Char) : Delimits ('\n' :: more) :=
  delimits_cons (by decide +kernel) more

/-- A newline that is read is a separator. -/
theorem token_newline (rest : List Char) : token '\n' rest = ⟨['\n'], .ok .semicolon⟩ := by
  have hdigit : Text.isDigit '\n' = false := by decide
  have hstart : Text.isWordStart '\n' = false := by decide +kernel
  have hoperator : isOperatorChar '\n' = false := by decide
  simp [token, hdigit, hstart, hoperator, single, punctuation?]

end Scan

/-! ## Cursors in front of more text -/

namespace Cursor

variable {cursor : Cursor} {more : List Char}

/-- The same cursor in a text that goes on. -/
def followed (cursor : Cursor) (more : List Char) : Cursor :=
  { cursor with rest := cursor.rest ++ more }

/-- The cursor at the end of the text. -/
def atEnd (cursor : Cursor) : Cursor :=
  cursor.move cursor.rest.length

theorem move_followed {n : Nat} (h : n ≤ cursor.rest.length) :
    (cursor.followed more).move n = (cursor.move n).followed more := by
  induction n generalizing cursor with
  | zero => rfl
  | succ n ih =>
    have hstep : (cursor.followed more).step = cursor.step.followed more := by
      cases hrest : cursor.rest with
      | nil =>
        rw [hrest, List.length_nil] at h
        omega
      | cons c rest =>
        by_cases hc : c = '\n' <;> simp [followed, step, hrest, hc]
    have hlength : cursor.step.rest.length = cursor.rest.length - 1 := by
      rw [rest_step, List.length_tail]
    rw [move, hstep, ih (by omega)]
    rfl

theorem move_of_nil (h : cursor.rest = []) (n : Nat) : cursor.move n = cursor := by
  induction n with
  | zero => rfl
  | succ n ih =>
    have hstep : cursor.step = cursor := by simp [step, h]
    rw [move, hstep, ih]

/-- There is only one end. -/
theorem move_eq_atEnd {n : Nat} (h : (cursor.move n).rest = []) : cursor.move n = cursor.atEnd := by
  rw [rest_move, List.drop_eq_nil_iff] at h
  obtain ⟨k, rfl⟩ := Nat.exists_eq_add_of_le h
  have hend : cursor.atEnd.rest = [] := by simp [atEnd, rest_move]
  rw [← move_move]
  exact move_of_nil hend k

theorem rest_atEnd (cursor : Cursor) : cursor.atEnd.rest = [] := by
  simp [atEnd, rest_move]

theorem atEnd_move (n : Nat) : (cursor.move n).atEnd = cursor.atEnd := by
  have hend := (cursor.move n).rest_atEnd
  unfold atEnd at hend ⊢
  rw [move_move] at hend ⊢
  exact move_eq_atEnd hend

/-- Lines are counted by newlines. -/
theorem line_add_count_move (n : Nat) (cursor : Cursor) :
    (cursor.move n).line + (cursor.move n).rest.count '\n' =
      cursor.line + cursor.rest.count '\n' := by
  induction n generalizing cursor with
  | zero => rfl
  | succ n ih =>
    rw [move, ih]
    cases hrest : cursor.rest with
    | nil => simp [step, hrest]
    | cons c rest =>
      by_cases hc : c = '\n'
      · simp [step, hrest, hc]
        omega
      · simp [step, hrest, hc]

theorem line_atEnd (cursor : Cursor) :
    cursor.atEnd.line = cursor.line + cursor.rest.count '\n' := by
  have h := line_add_count_move cursor.rest.length cursor
  have hend : (cursor.move cursor.rest.length).rest = [] := cursor.rest_atEnd
  rwa [hend, List.count_nil, Nat.add_zero] at h

end Cursor

/-! ## Views in front of a newline -/

namespace View

variable {file : String} {view next : View} {place : Location} {token : Token}

/-- The same view in a text that goes on. -/
def followed (view : View) (more : List Char) : View :=
  { view with cursor := view.cursor.followed more }

/-- The separator that is read at a cursor in front of a newline. -/
def newlineToken (file : String) (cursor : Cursor) : Token :=
  ⟨cursor.location file, .semicolon, "\n"⟩

/-- The view behind a newline at a cursor, outside all brackets. -/
def behindNewline (file : String) (cursor : Cursor) (text : List Char) : View :=
  ⟨⟨text, cursor.pos + 1, cursor.line + 1, 0⟩, .ready (newlineToken file cursor), []⟩

theorem nextCursor_followed (h : view.nextCursor.rest ≠ []) (more : List Char) :
    (view.followed more).nextCursor = view.nextCursor.followed more := by
  have hlength : (view.cursor.rest.takeWhile (Lexer.isSkipped (!view.stack.isEmpty))).length ≠
      view.cursor.rest.length := by
    intro heq
    rw [nextCursor, Cursor.rest_move, heq, List.drop_length] at h
    exact h rfl
  have hskip : (view.followed more).cursor.rest.takeWhile
      (Lexer.isSkipped (!(view.followed more).stack.isEmpty)) =
        view.cursor.rest.takeWhile (Lexer.isSkipped (!view.stack.isEmpty)) := by
    show (view.cursor.rest ++ more).takeWhile (Lexer.isSkipped (!view.stack.isEmpty)) = _
    rw [List.takeWhile_append, if_neg hlength]
  unfold nextCursor
  rw [hskip]
  exact Cursor.move_followed (List.takeWhile_prefix _).length_le

/-- Outside brackets no newline is skipped. -/
theorem nextCursor_followed_newline (h : view.nextCursor.rest = []) (hstack : view.stack = [])
    (text : List Char) :
    (view.followed ('\n' :: text)).nextCursor = view.cursor.atEnd.followed ('\n' :: text) := by
  have hnewline : Lexer.isSkipped (!view.stack.isEmpty) '\n' = false := by
    simp [Lexer.isSkipped, hstack]
  have hskip : (view.followed ('\n' :: text)).cursor.rest.takeWhile
      (Lexer.isSkipped (!(view.followed ('\n' :: text)).stack.isEmpty)) =
        view.cursor.rest.takeWhile (Lexer.isSkipped (!view.stack.isEmpty)) :=
    Scan.takeWhile_joined fun c more h => (List.cons.inj h).1 ▸ hnewline
  unfold nextCursor at h ⊢
  rw [hskip, ← Cursor.move_eq_atEnd h]
  exact Cursor.move_followed (List.takeWhile_prefix _).length_le

/-- A token that is read is read the same in front of a newline, and its lexeme is tracked. -/
theorem advance_followed (hne : view.lookahead ≠ .ended)
    (h : view.advance file = (.ok place, next)) (hready : next.lookahead = .ready token)
    (text : List Char) :
    track view.stack token.location token.lexeme = .ok next.stack ∧
      (view.followed ('\n' :: text)).advance file = (.ok place, next.followed ('\n' :: text)) := by
  have hne' : (view.followed ('\n' :: text)).lookahead ≠ .ended := hne
  rcases advance_eq_ok hne h with
    ⟨-, hend, -⟩ | ⟨c, rest, lexeme, stack, hrest, hfound, htrack, rfl, rfl⟩
  · rw [hend] at hready
    cases hready
  · cases hready
    refine ⟨htrack, ?_⟩
    have hnext := nextCursor_followed (by rw [hrest]; simp) ('\n' :: text)
    have hrest' : (view.followed ('\n' :: text)).nextCursor.rest = c :: (rest ++ '\n' :: text) := by
      simp [hnext, Cursor.followed, hrest]
    have htaken : (Scan.token c rest).taken.length ≤ view.nextCursor.rest.length := by
      rw [hrest]
      exact (Scan.token_taken_isPrefix c rest).length_le
    have hscan : Scan.token c (rest ++ '\n' :: text) = Scan.token c rest :=
      Scan.token_joined c hfound (Scan.delimits_newline text)
    have htrack' : track (view.followed ('\n' :: text)).stack
        ((view.followed ('\n' :: text)).nextCursor.location file) lexeme = .ok stack := by
      rw [hnext]
      exact htrack
    rw [advance_of_found hne' hrest' (by rw [hscan, hfound]) htrack', hnext, hscan,
      Cursor.move_followed htaken, tokenAt, hscan]
    rfl

/-- At the end of a text whose brackets are closed a newline is read as a separator. -/
theorem advance_followed_newline (hne : view.lookahead ≠ .ended) (hstack : view.stack = [])
    (h : view.advance file = (.ok place, next)) (hend : next.lookahead = .ended)
    (text : List Char) :
    (view.followed ('\n' :: text)).advance file =
      (.ok (view.cursor.atEnd.location file), behindNewline file view.cursor.atEnd text) := by
  have hne' : (view.followed ('\n' :: text)).lookahead ≠ .ended := hne
  rcases advance_eq_ok hne h with ⟨hnil, -⟩ | ⟨c, rest, lexeme, stack, -, -, -, -, rfl⟩
  · have hnext := nextCursor_followed_newline hnil hstack text
    have hrest : (view.followed ('\n' :: text)).nextCursor.rest = '\n' :: text := by
      simp [hnext, Cursor.followed, Cursor.rest_atEnd]
    have htrack : track (view.followed ('\n' :: text)).stack
        ((view.followed ('\n' :: text)).nextCursor.location file) .semicolon = .ok [] :=
      congrArg Except.ok hstack
    rw [advance_of_found hne' hrest (by rw [Scan.token_newline]) htrack, hnext]
    simp [behindNewline, newlineToken, tokenAt, Scan.token_newline, Cursor.location,
      Cursor.followed, Cursor.move, Cursor.step, Cursor.rest_atEnd]
  · cases hend

/-- **The tokens of a text stay what they are in front of a newline**, which is read as a separator
if the text closes all brackets, and what follows it is read from there. -/
theorem remaining_followed {bound : Nat} {tokens : List Token} (hne : view.lookahead ≠ .ended)
    (hlength : view.cursor.rest.length < bound)
    (h : view.remaining file bound = (tokens, .ok place))
    (hclosed : trackAll view.stack tokens = .ok []) (text : List Char) (more : Nat) :
    (view.followed ('\n' :: text)).remaining file (tokens.length + (more + 1)) =
      let behind := (behindNewline file view.cursor.atEnd text).remaining file more
      (tokens ++ newlineToken file view.cursor.atEnd :: behind.1, behind.2) := by
  induction bound generalizing view tokens with
  | zero => omega
  | succ bound ih =>
    rcases advance_cases file view with
      ⟨fault, next, hadvance⟩ | ⟨next, hadvance, hend⟩ | ⟨token, next, hadvance, hready, -, -, hlt⟩
    · rw [remaining_of_error _ hadvance] at h
      cases h
    · rw [remaining_of_ended _ hadvance hend] at h
      cases h
      have hstack : view.stack = [] := Except.ok.inj hclosed
      have hnewline := advance_followed_newline hne hstack hadvance hend text
      rw [List.length_nil, Nat.zero_add, remaining_of_ready _ hnewline rfl]
      rfl
    · rw [remaining_of_ready _ hadvance hready] at h
      obtain ⟨htrack, hlonger⟩ := advance_followed hne hadvance hready text
      obtain ⟨n, hn⟩ := exists_move_advance file view
      rw [hadvance] at hn
      have hend : next.cursor.atEnd = view.cursor.atEnd := by rw [hn, Cursor.atEnd_move]
      have htokens : (token :: (next.remaining file bound).1, (next.remaining file bound).2) =
        (tokens, .ok place) := h
      obtain ⟨rfl, hstop⟩ := Prod.mk.inj htokens
      have hclosed' : trackAll next.stack (next.remaining file bound).1 = .ok [] := by
        rw [trackAll_cons, htrack] at hclosed
        exact hclosed
      have hrest := ih (by rw [hready]; simp) (by omega) (Prod.ext rfl hstop) hclosed'
      rw [List.length_cons, Nat.succ_add, remaining_of_ready _ hlonger hready, hrest, hend]
      rfl

end View

end FrontEnd
