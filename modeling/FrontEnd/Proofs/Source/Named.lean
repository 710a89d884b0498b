import FrontEnd.Proofs.Grammar.Begins
import FrontEnd.Proofs.Lexer.Scanned
import FrontEnd.Proofs.Source.Accepted
import Mathlib.Data.List.DropRight

/-!
# Declared names are whole words of the source

A name is scanned as far as a word goes, and in front of the name of a declaration there is nothing,
a blank or a separator. So the name is a whole word of the text, and the location of the
declaration is where that word stands.

* `IsWord`, `EndsOutside`, `StartsOutside` — a whole word and what may be around it.
* `Words` — whole words of a text, one after the other.
* `words_of_parse` — the names of the declarations of a source are such words.
-/

set_option autoImplicit false

namespace FrontEnd

/-! ## Scans of words and separators -/

namespace Scan

/-- Lexemes that are neither names nor separators. -/
def IsOther (lexeme : Lexeme) : Prop :=
  (∀ name, lexeme ≠ .identifier name) ∧ lexeme ≠ .semicolon

theorem isOther_of_number {negative : Bool} {text : List Char} {lexeme : Lexeme}
    (h : (number negative text).found = .ok lexeme) : IsOther lexeme := by
  unfold number at h
  dsimp only at h
  split at h
  · cases h
    exact ⟨by simp [fractional], by simp [fractional]⟩
  · obtain ⟨value, -, rfl⟩ := integer_eq_ok h
    exact ⟨by simp, by simp⟩

theorem isOther_of_quoted {rest : List Char} {lexeme : Lexeme}
    (h : (quotedRest rest).found = .ok lexeme) : IsOther lexeme := by
  unfold quotedRest at h
  dsimp only at h
  split at h
  · cases h
  · cases h
    exact ⟨by simp, by simp⟩

/-- A scan reads as much as a word goes, or one character of punctuation, or finds neither a name
nor a separator. -/
theorem token_cases {c : Char} {rest : List Char} {lexeme : Lexeme}
    (h : (token c rest).found = .ok lexeme) :
    token c rest = word (c :: rest) ∨
      (punctuation? c = some lexeme ∧ (token c rest).taken = [c]) ∨ IsOther lexeme := by
  unfold token at h ⊢
  split at h
  · exact .inr (.inr (isOther_of_number h))
  rename_i hdigit
  rw [if_neg hdigit]
  split at h
  · exact .inr (.inr (isOther_of_number h))
  rename_i hminus
  rw [if_neg hminus]
  split at h
  · rename_i hstart
    exact .inl (if_pos hstart)
  rename_i hstart
  rw [if_neg hstart]
  split at h
  · cases h
    exact .inr (.inr ⟨by simp, by simp⟩)
  rename_i hoperator
  rw [if_neg hoperator]
  split at h
  · exact .inr (.inr (isOther_of_quoted h))
  rename_i hquote
  rw [if_neg hquote]
  unfold single at h ⊢
  split at h
  · rename_i hpunctuation
    cases h
    exact .inr (.inl ⟨hpunctuation, rfl⟩)
  · cases h

/-- An identifier is as much of a text as a word goes. -/
theorem token_identifier {c : Char} {rest : List Char} {name : String}
    (h : (token c rest).found = .ok (.identifier name)) : token c rest = word (c :: rest) := by
  rcases token_cases h with hword | ⟨hpunctuation, -⟩ | hother
  · exact hword
  · unfold punctuation? at hpunctuation
    split at hpunctuation <;> cases hpunctuation
  · exact absurd rfl (hother.1 name)

/-- A separator is one character, which is part of no word. -/
theorem token_semicolon {c : Char} {rest : List Char}
    (h : (token c rest).found = .ok .semicolon) :
    (token c rest).taken = [c] ∧ Text.isWordPart c = false := by
  rcases token_cases h with hword | ⟨hpunctuation, htaken⟩ | hother
  · rw [hword] at h
    cases h
  · refine ⟨htaken, ?_⟩
    unfold punctuation? at hpunctuation
    -- the marks of the other tokens are no separators
    split at hpunctuation <;> first | cases hpunctuation; done | decide +kernel
  · exact absurd rfl hother.2

end Scan

/-! ## Whole words -/

/-- A text of word characters. -/
structure IsWord (text : List Char) : Prop where
  ne_nil : text ≠ []
  parts : ∀ c ∈ text, Text.isWordPart c = true

theorem IsWord.no_newline {text : List Char} (h : IsWord text) : '\n' ∉ text := by
  intro hmem
  exact absurd (h.parts _ hmem) (by decide +kernel)

/-- A text whose last character, if there is one, is part of no word. -/
def EndsOutside (text : List Char) : Prop :=
  ∀ c, text.getLast? = some c → Text.isWordPart c = false

/-- A text whose first character, if there is one, is part of no word. -/
def StartsOutside (text : List Char) : Prop :=
  ∀ c, text.head? = some c → Text.isWordPart c = false

theorem EndsOutside.append {front text : List Char} (h : EndsOutside text) (hne : text ≠ []) :
    EndsOutside (front ++ text) := by
  intro c hc
  rw [List.getLast?_append_of_ne_nil _ hne] at hc
  exact h c hc

theorem endsOutside_of_blank {gap : List Char} (h : ∀ c ∈ gap, Text.isBlank c = true) :
    EndsOutside gap :=
  fun c hc => Scan.isWordPart_of_isBlank (h c (List.mem_of_mem_getLast? hc))

theorem EndsOutside.rtakeWhile {text : List Char} (h : EndsOutside text) (p : Char → Bool) :
    EndsOutside (text.rtakeWhile p) := by
  intro c hc
  rw [List.rtakeWhile, List.getLast?_reverse, List.head?_takeWhile, List.head?_reverse] at hc
  exact h c (Option.filter_eq_some_iff.mp hc).1

theorem StartsOutside.takeWhile {text : List Char} (h : StartsOutside text) (p : Char → Bool) :
    StartsOutside (text.takeWhile p) := by
  intro c hc
  rw [List.head?_takeWhile] at hc
  exact h c (Option.filter_eq_some_iff.mp hc).1

/-- What starts outside of words does not start with one. -/
theorem IsWord.not_startsOutside {word : List Char} (h : IsWord word) (behind : List Char) :
    ¬ StartsOutside (word ++ behind) := by
  intro hstarts
  obtain ⟨c, rest, rfl⟩ := List.exists_cons_of_ne_nil h.ne_nil
  have hpart := h.parts c List.mem_cons_self
  rw [hstarts c rfl] at hpart
  cases hpart

/-- Names that stand in a text one after the other, each as a whole word. -/
inductive Words (file : String) : Cursor → List Name → Prop
  | none (cursor : Cursor) : Words file cursor []
  | word {cursor : Cursor} {before behind : List Char} {name : Name} {names : List Name} :
      cursor.rest = before ++ (name.text.toList ++ behind) →
      IsWord name.text.toList → EndsOutside before → StartsOutside behind →
      name.location = (cursor.move before.length).location file →
      Words file (cursor.move (before ++ name.text.toList).length) names →
      Words file cursor (name :: names)

theorem isWord_of_wellFormed {name : String} (h : (Lexeme.identifier name).WellFormed) :
    IsWord name.toList := by
  obtain ⟨c, rest, rfl, hstart, hparts⟩ := h
  rw [String.toList_ofList]
  refine ⟨List.cons_ne_nil c rest, fun d hd => ?_⟩
  rcases List.mem_cons.mp hd with rfl | hd
  · exact Text.isWordPart_of_isWordStart hstart
  · exact hparts d hd

/-- What is behind the text of an identifier does not go on with it. -/
theorem startsOutside_of_reads {spelling behind : List Char} {name : String}
    (h : Scan.Reads spelling (.identifier name) behind) :
    spelling = name.toList ∧ StartsOutside behind := by
  obtain ⟨c, inner, rfl, hscan⟩ := h
  have hword := Scan.token_identifier (congrArg Scan.found hscan)
  rw [hscan, Scan.word] at hword
  have htaken : c :: inner = (c :: (inner ++ behind)).takeWhile Text.isWordPart :=
    congrArg Scan.taken hword
  have hname : name = String.ofList ((c :: (inner ++ behind)).takeWhile Text.isWordPart) :=
    Lexeme.identifier.inj (Except.ok.inj (congrArg Scan.found hword))
  refine ⟨by rw [hname, String.toList_ofList]; exact htaken, fun d hd => ?_⟩
  have hrest : (c :: (inner ++ behind)).dropWhile Text.isWordPart = behind := by
    have hsplit := List.takeWhile_append_dropWhile (p := Text.isWordPart)
      (l := c :: (inner ++ behind))
    rw [← htaken, List.cons_append] at hsplit
    exact List.append_cancel_left (List.cons.inj hsplit).2
  have hhead := List.head?_dropWhile_not Text.isWordPart (c :: (inner ++ behind))
  rw [hrest, hd] at hhead
  simpa using hhead

/-- What is in front of a token ends outside of a word, if the token before is a separator. -/
theorem endsOutside_of_at {file : String} {cursor : Cursor} {front tokens : List Token}
    {token : Token} {before behind : List Char}
    (hat : Scanned.At file cursor front token tokens before behind)
    (hreads : ∀ other ∈ front, ∃ behind, Scan.Reads other.text.toList other.lexeme behind)
    (hfront : ∀ last, front.getLast? = some last → last.lexeme = .semicolon) :
    EndsOutside before := by
  intro c hc
  rcases hat.last c hc with hblank | ⟨other, hother, hlast⟩
  · exact Scan.isWordPart_of_isBlank hblank
  · obtain ⟨behind, d, inner, hspelling, hscan⟩ := hreads other (List.mem_of_mem_getLast? hother)
    rw [hfront other hother] at hscan
    obtain ⟨htaken, hpart⟩ := Scan.token_semicolon (congrArg Scan.found hscan)
    rw [hscan] at htaken
    have hd : [d].getLast? = some c := htaken ▸ hlast
    cases hd
    exact hpart

/-- **Declarations that begin behind separators have whole words as names.** -/
theorem words_of_begun {file : String} {tokens : List Token} {decls : List Decl}
    (h : Begun tokens decls) {cursor : Cursor} (hscanned : Scanned file cursor tokens)
    (hwell : ∀ token ∈ tokens, token.lexeme.WellFormed) :
    Words file cursor (decls.map (·.name)) := by
  induction h generalizing cursor with
  | none => exact .none cursor
  | @decl front behind token decl decls hfront hname hplace _ ih =>
    obtain ⟨before, after, hat⟩ := hscanned.split
    have hlexeme := Token.lexeme_of_name? hname
    have hreads := hat.reads
    rw [hlexeme] at hreads
    obtain ⟨htext, hbehind⟩ := startsOutside_of_reads hreads
    have hmem : token ∈ front ++ token :: behind := by simp
    refine .word (htext ▸ hat.rest) (isWord_of_wellFormed ?_) ?_ hbehind ?_ ?_
    · exact hlexeme ▸ hwell token hmem
    · exact endsOutside_of_at hat (fun other hother => hscanned.reads other
        (List.mem_append_left _ hother)) hfront
    · rw [← hat.location]
      exact hplace.symm
    · refine ih ?_ fun other hother => hwell other ?_
      · exact htext ▸ hat.behind
      · exact List.mem_append_right _ (List.mem_cons_of_mem _ hother)

/-- **The names of the declarations of a source are whole words of it**, one after the other. -/
theorem words_of_parse {file source : String} {decls : List Decl}
    (h : parse file source = .ok decls) :
    Words file (.start source.toList) (decls.map (·.name)) := by
  obtain ⟨tokens, last, htokens, hmatch⟩ := greedy_of_parse h
  have hwell := wellFormed_tokenize file source
  rw [htokens] at hwell
  exact words_of_begun (Greedy.begun_of_file hwell hmatch) (scanned_of_tokenize htokens) hwell

end FrontEnd
