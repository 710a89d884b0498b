import FrontEnd.Proofs.Editor.Symbols
import FrontEnd.Proofs.Source.Abutting

/-!
# The word under the cursor and the lexer

The lexer knows where an identifier begins, because it has read all that is in front; the editor
grows a word around the cursor on one line. Both find the same, unless the identifier stands
directly behind a number. Then the editor takes the last digits of the number for a part of the
word.

* `wordAt_digits_append` — what the editor finds on the characters of an identifier, and behind it.
* `wordAt_identifiers` — that is the identifier just where no number is directly in front of it.
-/

set_option autoImplicit false

namespace FrontEnd.Editor

variable {file source name : String} {tokens front behind : List Token} {token : Token}
  {last : Lexer}

/-- On the characters of an identifier, and behind the last of them, the editor finds the identifier
with the digits that it stands directly behind. -/
theorem wordAt_digits_append (h : tokenize file source = (tokens, none, last))
    (htokens : tokens = front ++ token :: behind) (hlexeme : token.lexeme = .identifier name)
    {k : Nat} (hk : k ≤ name.length) :
    wordAt source (token.location.line - 1) (token.location.col + k) =
      String.ofList (token.digitsBefore front.getLast?) ++ name := by
  obtain ⟨-, before, rest, hcut, hword, hfront, hrest, -, hplace⟩ :=
    word_of_identifier h htokens hlexeme
  -- the editor's word begins where the digits do
  have hplaced : Placed file source.toList before
      ⟨String.ofList (token.digitsBefore front.getLast?) ++ name,
        placeAt file source before.length⟩ rest := by
    have htext : (String.ofList (token.digitsBefore front.getLast?) ++ name).toList =
        token.digitsBefore front.getLast? ++ name.toList := by
      rw [String.toList_append, String.toList_ofList]
    exact ⟨by rw [htext]; exact hcut, htext ▸ hword, hfront, hrest, rfl⟩
  have hnewline : '\n' ∉ token.digitsBefore front.getLast? :=
    fun hmem => hword.no_newline (List.mem_append_left _ hmem)
  have hline := Text.lineOf_word before (name.toList ++ rest) hnewline
  have hcol := Text.colOf_word before (name.toList ++ rest) hnewline
  rw [← List.append_assoc _ name.toList, ← hcut] at hline hcol
  rw [placeAt, hline, hcol] at hplace
  have hlength : (String.ofList (token.digitsBefore front.getLast?) ++ name).length =
      (token.digitsBefore front.getLast?).length + name.length := by
    rw [String.length_append, String.length_ofList]
  rw [hplace]
  refine hplaced.wordAt_eq ?_ ?_
  · simp only [nameRange, rangeAt, placeAt]
    omega
  · simp only [nameRange, rangeAt, placeAt, hlength]
    omega

/-- **The word under the cursor is the identifier of the lexer**, wherever the cursor stands on it,
just if the identifier does not stand directly behind a number. If it does, the word is the last
digits of the number followed by the identifier. -/
theorem wordAt_identifiers (file source : String) (tokens : List Token) (last : Lexer)
    (h : tokenize file source = (tokens, none, last)) (front behind : List Token) (token : Token)
    (name : String) (htokens : tokens = front ++ token :: behind)
    (hlexeme : token.lexeme = .identifier name) :
    token.text = name ∧ ∀ k < name.length,
      let word := wordAt source (token.location.line - 1) (token.location.col + k)
      word = String.ofList (token.digitsBefore front.getLast?) ++ name ∧
        (word = name ↔ token.behindNumber front.getLast? = false) := by
  obtain ⟨htext, -, -, -, -, -, -, hdigits, -⟩ := word_of_identifier h htokens hlexeme
  refine ⟨htext, fun k hk => ?_⟩
  intro word
  have hword : word = String.ofList (token.digitsBefore front.getLast?) ++ name :=
    wordAt_digits_append h htokens hlexeme (by omega)
  refine ⟨hword, ?_⟩
  rw [hword, ← hdigits]
  constructor
  · intro hsame
    have hlength := congrArg String.length hsame
    rw [String.length_append, String.length_ofList] at hlength
    exact List.length_eq_zero_iff.mp (by omega)
  · intro hnil
    rw [hnil]
    exact String.empty_append

/-- Of two identifiers one stands behind a number and the other one behind blanks. -/
theorem wordAt_identifiers_mixed :
    let source := "größe = 12a\n  x2"
    (tokenize "mixed" source).2.1 = none ∧ wordAt source 0 10 = "12a" ∧
      wordAt source 1 3 = "x2" := by
  intro source
  have hended : (tokenize "mixed" source).2.1 = none := by decide +kernel
  have h : tokenize "mixed" source =
      ((tokenize "mixed" source).1, none, (tokenize "mixed" source).2.2) := by
    rw [← hended]
  let front : List Token := [⟨⟨"mixed", 1, 0⟩, .identifier "größe", "größe"⟩,
    ⟨⟨"mixed", 1, 6⟩, .operator "=", "="⟩, ⟨⟨"mixed", 1, 8⟩, .signed 12, "12"⟩]
  let joined : Token := ⟨⟨"mixed", 1, 10⟩, .identifier "a", "a"⟩
  let newline : Token := ⟨⟨"mixed", 1, 11⟩, .semicolon, "\n"⟩
  let free : Token := ⟨⟨"mixed", 2, 2⟩, .identifier "x2", "x2"⟩
  have htokens : (tokenize "mixed" source).1 = front ++ joined :: [newline, free] := by
    decide +kernel
  have hjoined := wordAt_identifiers "mixed" source _ _ h front [newline, free] joined "a" htokens
    rfl
  have hfree := wordAt_identifiers "mixed" source _ _ h (front ++ [joined, newline]) [] free "x2"
    (htokens.trans (by simp)) rfl
  exact ⟨hended, (hjoined.2 0 (by decide)).1, (hfree.2 1 (by decide)).2.mpr (by decide +kernel)⟩

/-- **Not every word is an identifier**: directly behind the number 1 the editor finds another word
than the lexer. -/
theorem wordAt_joins_digits :
    (tokenize "joined" "1a").2.1 = none ∧
      ¬ ∀ token ∈ (tokenize "joined" "1a").1, ∀ name, token.lexeme = .identifier name →
        ∀ k < name.length,
          wordAt "1a" (token.location.line - 1) (token.location.col + k) = name := by
  refine ⟨by decide +kernel, fun hsame => ?_⟩
  have hmem : (⟨⟨"joined", 1, 1⟩, .identifier "a", "a"⟩ : Token) ∈ (tokenize "joined" "1a").1 := by
    decide +kernel
  have hword : wordAt "1a" 0 1 = "a" := hsame _ hmem "a" rfl 0 (by decide)
  have hfound : wordAt "1a" 0 1 = "1a" := by decide +kernel
  rw [hfound] at hword
  exact absurd hword (by decide)

end FrontEnd.Editor
