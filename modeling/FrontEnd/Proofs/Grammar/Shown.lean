import FrontEnd.Proofs.Grammar.Heads
import FrontEnd.Proofs.Tape.Squeezed
import FrontEnd.Proofs.Tree.Reread
import FrontEnd.Proofs.Tree.Shown

/-!
# Reading what is shown

The greedy grammar reads from the lexemes of a head the patterns that the head stands for: an
argument takes nothing from behind it that does not begin a pattern, and only a constructor without
parentheses takes what does.

* `Pattern.isOpen` — a pattern as it is shown takes the patterns behind it.
* `Greedy.pattern_shown`, `Greedy.many_shown`, `Greedy.members_shown` — what is read from a pattern,
  from patterns beside each other and from patterns between commas.
* `Greedy.file_head` — what is read from a head with a body behind it.
-/

set_option autoImplicit false

namespace FrontEnd

/-- Whether a pattern as it is shown takes the patterns behind it as its arguments. -/
def Pattern.isOpen (nested : Bool) : Pattern → Bool
  | .constructor _ [] => true
  | .constructor _ (_ :: _) => !nested
  | _ => false

theorem Pattern.isOpen_of_lone?_none {pattern : Pattern} (h : pattern.lone? = none) :
    pattern.isOpen true = false := by
  unfold Pattern.isOpen
  split
  · cases h
  · rfl
  · rfl

namespace Greedy

open Item

/-- The place of what has none. -/
def nowhere (_ : Location) : Location := default

section Tokens

variable {name : Name} {rest : List Token}

theorem name?_bare (h : name.WellFormed) :
    (Token.bare (.identifier name.text)).name? = some name.text := by
  simp [Token.bare, Token.name?, h.2]

theorem name_bare (h : name.WellFormed) (rest : List Token) :
    Greedy.name (Token.bare (.identifier name.text) :: rest) =
      some (name.relocate nowhere, rest) :=
  one_of_some (by rw [name?_bare h]; rfl) rest

theorem constructorName?_bare (h : name.WellFormed)
    (hcase : Grammar.isConstructorName name.text = true) :
    constructorName? (Token.bare (.identifier name.text)) = some (name.relocate nowhere) := by
  simp only [constructorName?, name?_bare h, hcase, if_true]
  rfl

theorem plainPattern?_bare (h : name.WellFormed)
    (hcase : Grammar.isConstructorName name.text = false) :
    plainPattern? (Token.bare (.identifier name.text)) =
      some (.variable (name.relocate nowhere)) := by
  simp [plainPattern?, Token.bare, h.2, hcase, Name.relocate, nowhere]

theorem plainPattern?_text (value : String) :
    plainPattern? (Token.bare (.ofText value)) = some (.text default value) := by
  simp [plainPattern?, Token.bare, Lexeme.ofText, Grammar.unquote]

theorem only_bare (lexeme : Lexeme) (rest : List Token) :
    only lexeme (Token.bare lexeme :: rest) = some (Token.bare lexeme, rest) :=
  only_of_eq rfl rest

variable (rest)

theorem pattern_closing : pattern (Token.bare (.closing .paren) :: rest) = none :=
  pattern_of_closing rfl

theorem pattern_comma : pattern (Token.bare .comma :: rest) = none :=
  pattern_of_term_none (term_of_comma rfl)

theorem listedTail_closing {α : Type} {item : Item α} :
    listedTail item (Token.bare (.closing .paren) :: rest) =
      some (([], false), Token.bare (.closing .paren) :: rest) :=
  listedTail_of_none (only_of_ne (by simp [Token.bare]) rest)

theorem listedTail_comma : listedTail pattern (Token.bare .comma :: rest) =
    (members pattern rest).map fun result => ((result.1.1, true), result.2) :=
  listedTail_of_comma shrinks_pattern rfl

variable {rest}

/-- The members of a group stand between its parentheses. -/
theorem pattern_grouped (lexemes : List Lexeme) {found : List Pattern × Bool}
    (h : members pattern (lexemes.map Token.bare ++ Token.bare (.closing .paren) :: rest) =
      some (found, Token.bare (.closing .paren) :: rest)) :
    pattern ((Lexeme.grouped lexemes).map Token.bare ++ rest) =
      some (groupedPattern default found, rest) := by
  have htokens : (Lexeme.grouped lexemes).map Token.bare ++ rest =
      Token.bare (.opening .paren) ::
        (lexemes.map Token.bare ++ Token.bare (.closing .paren) :: rest) := by
    simp [Lexeme.grouped]
  rw [htokens]
  exact pattern_of_members rfl rfl h

end Tokens

mutual

/-- **What is read where a pattern is shown.** If it takes patterns from behind it, there are none
to be what it stands for. -/
theorem pattern_shown : ∀ (shown : Pattern) (nested : Bool) (rest : List Token), shown.WellFormed →
    (shown.isOpen nested = true → pattern rest = none) →
    pattern ((shown.lexemes nested).map Token.bare ++ rest) =
      some (shown.reread.relocate nowhere, rest)
  | .variable name, _, rest, h, _ => pattern_of_plain (plainPattern?_bare h.1 h.2)
  | .integer _ value, _, rest, _, _ => pattern_of_plain rfl
  | .text _ value, _, rest, _, _ => pattern_of_plain (plainPattern?_text value)
  | .constructor name [], _, rest, h, hrest =>
    pattern_of_constructor (constructorName?_bare h.1 h.2.1) (many_of_none (hrest rfl))
  | .constructor name (first :: more), nested, rest, h, hrest => by
    have hrow : ∀ rest, pattern rest = none →
        pattern (Token.bare (.identifier name.text) ::
          ((Pattern.lexemesAll true (first :: more)).flatten.map Token.bare ++ rest)) =
            some ((Pattern.constructor name (first :: more)).reread.relocate nowhere, rest) :=
      fun rest hrest => pattern_of_constructor (constructorName?_bare h.1 h.2.1)
        (many_shown (first :: more) rest h.2.2 hrest)
    cases nested with
    | false => exact hrow rest (hrest rfl)
    | true =>
      have hmembers := members_of_some (hrow _ (pattern_closing rest)) (listedTail_closing rest)
      exact pattern_grouped
        (.identifier name.text :: (Pattern.lexemesAll true (first :: more)).flatten) hmembers
  | .tuple _ [], _, rest, _, _ => pattern_grouped [] (members_of_none (pattern_closing rest))
  | .tuple location [single], _, rest, h, _ => by
    have hsingle := pattern_shown single false _ h.1 fun _ =>
      pattern_comma (Token.bare (.closing .paren) :: rest)
    have htail := listedTail_comma (Token.bare (.closing .paren) :: rest)
    rw [members_of_none (pattern_closing rest)] at htail
    have hmembers := members_of_some hsingle htail
    have htokens : (single.lexemes false).map Token.bare ++
        Token.bare .comma :: Token.bare (.closing .paren) :: rest =
          (single.lexemes false ++ [Lexeme.comma]).map Token.bare ++
            Token.bare (.closing .paren) :: rest := by
      simp
    rw [htokens] at hmembers
    exact pattern_grouped _ hmembers
  | .tuple _ (first :: second :: more), _, rest, h, _ =>
    pattern_grouped _ (members_shown (first :: second :: more) rest h)

/-- **What is read where patterns are shown beside each other.** -/
theorem many_shown : ∀ (row : List Pattern) (rest : List Token), Pattern.AllWellFormed row →
    pattern rest = none →
    many pattern ((Pattern.lexemesAll true row).flatten.map Token.bare ++ rest) =
      some (Pattern.relocateAll nowhere (Pattern.rereadRow row), rest)
  | [], _, _, hrest => by
    rw [Pattern.lexemesAll, Pattern.rereadRow]
    exact many_of_none hrest
  | shown :: row, rest, h, hrest => by
    let behind := (Pattern.lexemesAll true row).flatten.map Token.bare ++ rest
    have hbehind : many pattern behind = _ := many_shown row rest h.2 hrest
    rw [Pattern.lexemesAll, List.flatten_cons, List.map_append, List.append_assoc,
      Pattern.rereadRow]
    cases hlone : shown.lone? with
    | none =>
      have hclosed : shown.isOpen true = true → pattern behind = none := by
        rw [Pattern.isOpen_of_lone?_none hlone]
        exact fun hopen => by cases hopen
      have hfirst := pattern_shown shown true behind h.1 hclosed
      rw [many_of_some shrinks_pattern hfirst, hbehind]
      rfl
    | some name =>
      -- a constructor without arguments takes the rest of the row
      obtain rfl := Pattern.eq_of_lone? hlone
      have hfirst := pattern_of_constructor (constructorName?_bare h.1.1 h.1.2.1) hbehind
      have hmany := many_of_some shrinks_pattern hfirst
      rw [many_of_none hrest] at hmany
      exact hmany

/-- **What is read where patterns are shown between commas.** -/
theorem members_shown : ∀ (shown : List Pattern) (rest : List Token), Pattern.AllWellFormed shown →
    members pattern (([Lexeme.comma].intercalate (Pattern.lexemesAll false shown)).map Token.bare ++
        Token.bare (.closing .paren) :: rest) =
      some ((Pattern.relocateAll nowhere (Pattern.rereadEach shown), decide (1 < shown.length)),
        Token.bare (.closing .paren) :: rest)
  | [], rest, _ => members_of_none (pattern_closing rest)
  | [single], rest, h => by
    have hsingle := pattern_shown single false _ h.1 fun _ => pattern_closing rest
    rw [Pattern.lexemesAll, Pattern.lexemesAll, List.intercalate_singleton]
    exact members_of_some hsingle (listedTail_closing rest)
  | first :: second :: more, rest, h => by
    let behind := ([Lexeme.comma].intercalate (Pattern.lexemesAll false (second :: more))).map
      Token.bare ++ Token.bare (.closing .paren) :: rest
    have htokens : ([Lexeme.comma].intercalate
        (Pattern.lexemesAll false (first :: second :: more))).map Token.bare ++
          Token.bare (.closing .paren) :: rest =
        (first.lexemes false).map Token.bare ++ Token.bare .comma :: behind := by
      simp [behind, Pattern.lexemesAll, List.intercalate_cons_cons]
    have hmore : members pattern behind = _ := members_shown (second :: more) rest h.2
    have hfirst := pattern_shown first false _ h.1 fun _ => pattern_comma behind
    have htail := listedTail_comma behind
    rw [hmore] at htail
    rw [htokens, members_of_some hfirst htail]
    simp [Pattern.rereadEach, Pattern.relocateAll]

end

/-- **What is read from a head with a name as its body**: a declaration of the same name with the
patterns that the head stands for. -/
theorem file_head {decl : Decl} (h : decl.HeadWellFormed) :
    file (decl.stubLexemes.map Token.bare) =
      some [⟨decl.name.relocate nowhere,
        Pattern.relocateAll nowhere (Pattern.rereadRow decl.patterns),
        .symbol ⟨"x", default⟩⟩] := by
  let body := [Token.bare .assign, Token.bare (.identifier "x")]
  let row := (Pattern.lexemesAll true decl.patterns).flatten.map Token.bare
  have htokens : decl.stubLexemes.map Token.bare =
      Token.bare (.identifier decl.name.text) :: (row ++ body) := by
    simp [Decl.stubLexemes, Decl.headLexemes, row, body]
  have hassign : pattern body = none :=
    pattern_of_other rfl rfl (by simp [Token.bare, Lexeme.assign])
  have hrow : many pattern (row ++ body) = _ := many_shown decl.patterns body h.patterns hassign
  have hbody : call [Token.bare (.identifier "x")] = some (.symbol ⟨"x", default⟩, []) := rfl
  have hdecl : Greedy.decl (Token.bare (.identifier decl.name.text) :: (row ++ body)) =
      some (⟨decl.name.relocate nowhere,
        Pattern.relocateAll nowhere (Pattern.rereadRow decl.patterns),
        .symbol ⟨"x", default⟩⟩, []) := by
    rw [Greedy.decl, bind_of_some (name_bare h.name _), bind_of_some hrow,
      bind_of_some (only_bare _ _), bind_of_some hbody]
    rfl
  have hend : (do let found ← Greedy.decl; let _ ← separators; pure found : Item Decl) [] = none :=
    rfl
  rw [htokens, file_eq_some, dropWhile_of_ne (by simp [Token.bare]), decls,
    many_of_some shrinks_declAndSeparators (declAndSeparators_of_some hdecl), List.dropWhile_nil,
    many_of_none hend]
  rfl

end Greedy

end FrontEnd
