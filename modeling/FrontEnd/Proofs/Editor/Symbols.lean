import FrontEnd.Proofs.Editor.Mirrored
import FrontEnd.Proofs.Grammar.WellFormed
import FrontEnd.Proofs.Session.Positions
import FrontEnd.Proofs.Source.Named

/-!
# Symbols and hovers agree with the text

The outline of a document marks the names of its declarations, and wherever a cursor touches such a
mark, the word that is found there is the name.

* `wordInLine_eq` — the word that is found on a line, at each character from its start to its end.
* `Position.before_of_lt` — later positions have later lines, or later columns on the same line.
* `Placed` — a name on its line; `placed_of_parse` — the names of a source are placed, in order.
* `symbolsOf_eq`, `symbolsOf_eq_error` — an outline has all symbols, or is refused for the first
  name that lies outside what an editor can count to.
* `Workspace.symbols_agree_with_text` — outlines and hovers of open documents.
-/

set_option autoImplicit false

namespace FrontEnd.Editor

/-! ## Words on a line -/

section Line

variable {front word behind : List Char}

theorem wordAround_eq (hparts : ∀ c ∈ word, Text.isWordPart c = true)
    (hfront : EndsOutside front) (hbehind : StartsOutside behind) {n : Nat}
    (hn : n ≤ word.length) : wordAround (front ++ (word ++ behind)) (front.length + n) = word := by
  have hleft : ((word.take n).reverse ++ front.reverse).takeWhile Text.isWordPart =
      (word.take n).reverse := by
    refine Scan.takeWhile_append_of_all (fun c hc => ?_) fun c rest heq => ?_
    · exact hparts c (List.mem_of_mem_take (List.mem_reverse.mp hc))
    · refine hfront c ?_
      rw [← List.head?_reverse, heq]
      rfl
  have hright : (word.drop n ++ behind).takeWhile Text.isWordPart = word.drop n := by
    refine Scan.takeWhile_append_of_all (fun c hc => ?_) fun c rest heq => ?_
    · exact hparts c (List.mem_of_mem_drop hc)
    · exact hbehind c (by rw [heq]; rfl)
  have htake : (word ++ behind).take n = word.take n := List.take_append_of_le_length hn
  have hdrop : (word ++ behind).drop n = word.drop n ++ behind :=
    List.drop_append_of_le_length hn
  rw [wordAround, List.take_length_add_append, List.drop_length_add_append, htake, hdrop,
    List.reverse_append, hleft, hright, List.reverse_reverse, List.take_append_drop]

/-- **The word on a line is found at all its characters, and where it ends.** -/
theorem wordInLine_eq (hword : IsWord word) (hfront : EndsOutside front)
    (hbehind : StartsOutside behind) {character : Int} (hstart : front.length ≤ character)
    (hstop : character ≤ front.length + word.length) :
    wordInLine (front ++ (word ++ behind)) character = word := by
  have hlength : (front ++ (word ++ behind)).length =
      front.length + (word.length + behind.length) := by
    rw [List.length_append, List.length_append]
  have hpos := List.length_pos_iff.mpr hword.ne_nil
  obtain ⟨n, rfl⟩ : ∃ n : Nat, character = (front.length + n : Nat) :=
    ⟨(character - front.length).toNat, by omega⟩
  rw [wordInLine, hlength]
  by_cases hinside : n < word.length + behind.length
  · rw [if_pos (by omega), Int.toNat_natCast]
    exact wordAround_eq hword.parts hfront hbehind (by omega)
  · -- the word ends the line, and the character before is its last one
    have hlast : ((front.length + n : Nat) - 1 : Int).toNat = front.length + (n - 1) := by omega
    rw [if_neg (by omega), if_pos (by omega), hlast]
    exact wordAround_eq hword.parts hfront hbehind (by omega)

end Line

/-! ## Positions in a text -/

/-- A position comes before another one: on an earlier line, or earlier on the same line. -/
def Position.Before (first second : Position) : Prop :=
  first.line < second.line ∨ first.line = second.line ∧ first.character < second.character

theorem Position.Before.trans {first second third : Position} (h : first.Before second)
    (h' : second.Before third) : first.Before third := by
  unfold Before at *
  omega

/-- How an editor counts a position of a text. -/
def positionAt (text : List Char) (pos : Nat) : Position :=
  ⟨Text.lineOf text pos - 1, Text.colOf text pos⟩

theorem positionAt_before_succ {text : List Char} {pos : Nat} (h : pos < text.length) :
    (positionAt text pos).Before (positionAt text (pos + 1)) := by
  have hline := Text.lineOf_succ (List.drop_eq_getElem_cons h)
  have hcol := Text.colOf_succ (List.drop_eq_getElem_cons h)
  unfold Position.Before positionAt
  dsimp only
  split at hline <;> rename_i hc
  · left
    omega
  · rw [if_neg hc] at hcol
    right
    omega

/-- **Later positions have later lines, or later columns on the same line.** -/
theorem positionAt_before_of_lt {text : List Char} {first second : Nat} (h : first < second)
    (hsecond : second ≤ text.length) :
    (positionAt text first).Before (positionAt text second) := by
  induction second with
  | zero => omega
  | succ second ih =>
    have hstep : (positionAt text second).Before (positionAt text (second + 1)) :=
      positionAt_before_succ (by omega)
    by_cases heq : first = second
    · rwa [heq]
    · exact (ih (by omega) (by omega)).trans hstep

/-! ## Limits -/

theorem Position.fault?_eq_none_iff {position : Position} :
    position.fault? = none ↔ (0 ≤ position.line ∧ position.line ≤ greatestIndex) ∧
      0 ≤ position.character ∧ position.character ≤ greatestIndex := by
  unfold fault?
  split
  · simp only [reduceCtorEq, false_iff]
    omega
  · split
    · simp only [reduceCtorEq, false_iff]
      omega
    · simp only [true_iff]
      omega

theorem Range.fault?_eq_none_iff {range : Range} :
    range.fault? = none ↔ range.start.fault? = none ∧ range.stop.fault? = none :=
  Option.or_eq_none_iff

/-- An editor can count to every position of a text that is no longer than its greatest number. -/
theorem fault?_positionAt {text : List Char} {pos : Nat} (hpos : pos ≤ text.length)
    (hshort : text.length ≤ greatestIndex) : (positionAt text pos).fault? = none := by
  have hlength : (text.take pos).length = pos := List.length_take_of_le hpos
  have hline := Text.lineOf_append (text.take pos) (text.drop pos)
  have hcol := Text.colOf_append (text.take pos) (text.drop pos)
  rw [List.take_append_drop, hlength] at hline hcol
  have hcount : (text.take pos).count '\n' ≤ (text.take pos).length := List.count_le_length
  have hrow : ((text.take pos).rtakeWhile (· != '\n')).length ≤ (text.take pos).length :=
    (List.rtakeWhile_suffix _ _).length_le
  rw [Position.fault?_eq_none_iff]
  dsimp only [positionAt]
  omega

/-! ## Names on their lines -/

/-- The range of a name. -/
def nameRange (name : Name) : Range :=
  rangeAt name.location name.text.length

/-- A name that stands in a text as a whole word, where its location says. -/
structure Placed (file : String) (text before : List Char) (name : Name)
    (behind : List Char) : Prop where
  cut : text = before ++ (name.text.toList ++ behind)
  word : IsWord name.text.toList
  front : EndsOutside before
  behind : StartsOutside behind
  location : name.location = ⟨file, Text.lineOf text before.length, Text.colOf text before.length⟩

section Placed

variable {file : String} {text before behind : List Char} {name : Name}

/-- The range of a name goes from the position in front of it to the position behind it. -/
theorem Placed.nameRange_eq (h : Placed file text before name behind) :
    nameRange name =
      ⟨positionAt text before.length, positionAt text (before ++ name.text.toList).length⟩ := by
  have hnewline := h.word.no_newline
  have hline := Text.lineOf_word before behind hnewline
  have hcol := Text.colOf_word before behind hnewline
  rw [← h.cut] at hline hcol
  have hlength : name.text.toList.length = name.text.length := String.length_toList
  rw [nameRange, h.location, rangeAt, positionAt, positionAt, hline, hcol, hlength]
  simp

/-- In a text that is not too long a name lies inside the limits. -/
theorem Placed.fault?_nameRange (h : Placed file text before name behind)
    (hshort : text.length ≤ greatestIndex) : (nameRange name).fault? = none := by
  have hlength := congrArg List.length h.cut
  rw [List.length_append, List.length_append] at hlength
  rw [h.nameRange_eq, Range.fault?_eq_none_iff]
  refine ⟨fault?_positionAt (by omega) hshort, fault?_positionAt ?_ hshort⟩
  rw [List.length_append]
  omega

/-- The line of a name. -/
theorem Placed.line (h : Placed file text before name behind) :
    (Text.splitAtEach '\n' text)[before.count '\n']? =
      some (before.rtakeWhile (· != '\n') ++
        (name.text.toList ++ behind.takeWhile (· != '\n'))) := by
  have hword : ∀ c ∈ name.text.toList, (c != '\n') = true := by
    intro c hc
    have hne : c ≠ '\n' := fun heq => h.word.no_newline (heq ▸ hc)
    simpa using hne
  rw [h.cut, Text.getElem?_splitAtEach, List.takeWhile_append_of_pos hword]

/-- **Wherever a cursor touches a name, the name is found**, on the line of its range. -/
theorem Placed.wordAt_eq {source : String} (h : Placed file source.toList before name behind)
    {character : Int} (hstart : (nameRange name).start.character ≤ character)
    (hstop : character ≤ (nameRange name).stop.character) :
    wordAt source (nameRange name).start.line character = name.text := by
  have hrange := h.nameRange_eq
  have hnewline := h.word.no_newline
  have hcol := Text.colOf_word before behind hnewline
  rw [← h.cut] at hcol
  have hfront : (Text.colOf source.toList before.length) =
      (before.rtakeWhile (· != '\n')).length := by
    rw [h.cut, Text.colOf_append]
  have hline : (nameRange name).start.line = before.count '\n' := by
    have hcount := Text.lineOf_append before (name.text.toList ++ behind)
    rw [← h.cut] at hcount
    rw [hrange]
    dsimp only [positionAt]
    omega
  rw [hrange] at hstart hstop
  dsimp only [positionAt] at hstart hstop
  have hends := h.front.rtakeWhile (· != '\n')
  have hstarts := h.behind.takeWhile (· != '\n')
  rw [wordAt, hline, if_neg (by omega), Int.toNat_natCast, h.line]
  dsimp only
  rw [wordInLine_eq h.word hends hstarts (by omega) (by omega), String.ofList_toList]

end Placed

/-- **Words behind a cursor are placed in the text of the cursor**, each behind the one before. At
the cursor itself there is the start of the text, or the end of a word. -/
theorem placed_of_words {file source : String} {cursor : Cursor} {names : List Name}
    (h : Words file cursor names) (hstands : cursor.StandsIn source.toList)
    (hedge : EndsOutside (source.toList.take cursor.pos) ∨ StartsOutside cursor.rest) :
    (∀ name ∈ names, ∃ before behind, Placed file source.toList before name behind ∧
      (StartsOutside cursor.rest → cursor.pos < before.length)) ∧
    names.Pairwise fun first second =>
      (nameRange first).stop.Before (nameRange second).start := by
  induction h with
  | none => exact ⟨by simp, .nil⟩
  | @word cursor before behind name names hrest hword hfront hbehind hplace hmore ih =>
    have hlength := congrArg List.length hrest
    rw [List.length_append, List.length_append] at hlength
    have hstart := hstands.move before.length
    have hstop := hstands.move (before ++ name.text.toList).length
    have hstartPos : (cursor.move before.length).pos = cursor.pos + before.length :=
      Cursor.pos_move (by omega)
    have hstopPos : (cursor.move (before ++ name.text.toList).length).pos =
        cursor.pos + (before ++ name.text.toList).length :=
      Cursor.pos_move (by rw [List.length_append]; omega)
    have hnext : (cursor.move (before ++ name.text.toList).length).rest = behind := by
      rw [Cursor.rest_move, hrest, ← List.append_assoc]
      exact List.drop_left
    have hne : StartsOutside cursor.rest → before ≠ [] := by
      rintro houtside rfl
      exact hword.not_startsOutside behind (hrest ▸ houtside)
    have hfront' : (source.toList.take cursor.pos ++ before).length =
        (cursor.move before.length).pos := by
      rw [hstartPos, List.length_append, List.length_take, Nat.min_eq_left hstands.pos_le]
    have hplaced : Placed file source.toList (source.toList.take cursor.pos ++ before) name
        behind := by
      refine ⟨?_, hword, ?_, hbehind, ?_⟩
      · rw [List.append_assoc, ← hrest, hstands.rest, List.take_append_drop]
      · by_cases hnil : before = []
        · rw [hnil, List.append_nil]
          exact hedge.resolve_right fun houtside => hne houtside hnil
        · exact hfront.append hnil
      · rw [hplace, hfront', ← hstart.line, ← hstart.col]
        rfl
    obtain ⟨hall, hpairwise⟩ := ih hstop (.inr (hnext ▸ hbehind))
    rw [hnext] at hall
    refine ⟨List.forall_mem_cons.mpr ⟨⟨_, _, hplaced, fun houtside => ?_⟩, ?_⟩,
      List.pairwise_cons.mpr ⟨fun second hsecond => ?_, hpairwise⟩⟩
    · have hpos := List.length_pos_iff.mpr (hne houtside)
      omega
    · intro other hother
      obtain ⟨front, rest, hplaced', hlater⟩ := hall other hother
      exact ⟨front, rest, hplaced', fun _ => by have := hlater hbehind; omega⟩
    · obtain ⟨front, rest, hplaced', hlater⟩ := hall second hsecond
      have hend := congrArg List.length hplaced'.cut
      have hlt := hlater hbehind
      rw [List.length_append] at hend
      rw [hplaced.nameRange_eq, hplaced'.nameRange_eq]
      have hwhole : (source.toList.take cursor.pos ++ before ++ name.text.toList).length =
          (cursor.move (before ++ name.text.toList).length).pos := by
        rw [List.length_append, hfront', hstartPos, hstopPos, List.length_append, Nat.add_assoc]
      exact positionAt_before_of_lt (by omega) (by omega)

/-! ## Outlines and hovers -/

/-- The symbol of a declaration, wherever it stands. -/
def declSymbol (decl : Decl) : Symbol :=
  ⟨decl.name.text, decl.head, nameRange decl.name⟩

/-- The first part of the ends of declared names that lies outside what an editor can count to. -/
def outside? (decls : List Decl) : Option PositionFault :=
  decls.findSome? fun decl => (nameRange decl.name).fault?

theorem outside?_eq_none_iff {decls : List Decl} :
    outside? decls = none ↔ ∀ decl ∈ decls, (nameRange decl.name).fault? = none :=
  List.findSome?_eq_none_iff

theorem symbolOf_eq {decl : Decl} (h : (nameRange decl.name).fault? = none) :
    symbolOf decl = .ok (declSymbol decl) := by
  have hrange : (rangeAt decl.location decl.name.text.length).fault? = none := h
  rw [symbolOf, checkedRangeAt, hrange]
  rfl

theorem symbolOf_eq_error {decl : Decl} {fault : PositionFault}
    (h : (nameRange decl.name).fault? = some fault) : symbolOf decl = .error fault := by
  have hrange : (rangeAt decl.location decl.name.text.length).fault? = some fault := h
  rw [symbolOf, checkedRangeAt, hrange]

/-- An outline has one symbol for each declaration, if all their names lie inside the limits. -/
theorem symbolsOf_eq {decls : List Decl} (h : outside? decls = none) :
    decls.mapM symbolOf = .ok (decls.map declSymbol) := by
  induction decls with
  | nil => rfl
  | cons decl decls ih =>
    obtain ⟨hfirst, hrest⟩ := List.forall_mem_cons.mp (outside?_eq_none_iff.mp h)
    rw [List.mapM_cons, symbolOf_eq hfirst, ih (outside?_eq_none_iff.mpr hrest)]
    rfl

/-- An outline is refused for the first name that lies outside the limits. -/
theorem symbolsOf_eq_error {decls : List Decl} {fault : PositionFault}
    (h : outside? decls = some fault) : decls.mapM symbolOf = .error fault := by
  induction decls with
  | nil => cases h
  | cons decl decls ih =>
    rw [outside?, List.findSome?_cons] at h
    rw [List.mapM_cons]
    cases hfirst : (nameRange decl.name).fault? with
    | some first =>
      rw [hfirst] at h
      cases h
      rw [symbolOf_eq_error hfirst]
      rfl
    | none =>
      rw [hfirst] at h
      rw [symbolOf_eq hfirst, ih h]
      rfl

/-- The text shown for a declared name: the heads of all its declarations, in order. -/
def declsText (decls : List Decl) (name : String) : String :=
  "**decl** \x60" ++ name ++ "\x60\n\n" ++ "\n".intercalate
    ((decls.filter fun decl => decl.name.text == name).map fun decl =>
      "- \x60" ++ decl.head ++ "\x60")

/-- A symbol marks its name on one line of a text. -/
def Symbol.Marks (source : String) (symbol : Symbol) : Prop :=
  ∃ (line first last : Nat) (text : List Char),
    (Text.splitAtEach '\n' source.toList)[line]? = some text ∧
      symbol.range = ⟨⟨line, first⟩, ⟨line, last⟩⟩ ∧ first ≤ last ∧ last ≤ text.length ∧
      (text.take last).drop first = symbol.name.toList

theorem marks_of_placed {file source : String} {decl : Decl} {before behind : List Char}
    (h : Placed file source.toList before decl.name behind) : (declSymbol decl).Marks source := by
  have hcount := Text.lineOf_append before (decl.name.text.toList ++ behind)
  have hcol := Text.colOf_append before (decl.name.text.toList ++ behind)
  rw [← h.cut] at hcount hcol
  have hlength : decl.name.text.toList.length = decl.name.text.length := String.length_toList
  refine ⟨_, (before.rtakeWhile (· != '\n')).length,
    (before.rtakeWhile (· != '\n') ++ decl.name.text.toList).length, _, h.line, ?_, ?_, ?_, ?_⟩
  · show nameRange decl.name = _
    have hline : ((1 + before.count '\n' : Nat) : Int) - 1 = before.count '\n' := by omega
    rw [nameRange, h.location, rangeAt, hcount, hcol, hline, List.length_append, hlength]
    rfl
  · rw [List.length_append]
    omega
  · rw [← List.append_assoc]
    exact (List.prefix_append _ _).length_le
  · rw [← List.append_assoc, List.take_left, List.drop_left]
    rfl

/-- Between the ends of a name that lies inside the limits, all characters do. -/
theorem fault?_between {name : Name} {character : Int} (h : (nameRange name).fault? = none)
    (hstart : (nameRange name).start.character ≤ character)
    (hstop : character ≤ (nameRange name).stop.character) :
    (Position.mk (nameRange name).start.line character).fault? = none := by
  obtain ⟨hfirst, hlast⟩ := Range.fault?_eq_none_iff.mp h
  rw [Position.fault?_eq_none_iff] at hfirst hlast ⊢
  dsimp only
  omega

theorem hover?_of_placed {file : String} {document : Document} {decl : Decl}
    {before behind : List Char} (hdecl : decl ∈ document.decls)
    (hkeyword : isKeyword decl.name.text = false)
    (h : Placed file document.source.toList before decl.name behind) {character : Int}
    (hstart : (declSymbol decl).range.start.character ≤ character)
    (hstop : character ≤ (declSymbol decl).range.stop.character) :
    document.hover? (declSymbol decl).range.start.line character =
      some (declsText document.decls decl.name.text) := by
  have hword : wordAt document.source (declSymbol decl).range.start.line character =
      decl.name.text := h.wordAt_eq hstart hstop
  have hne : decl.name.text ≠ "" := fun heq => h.word.ne_nil (by rw [heq]; rfl)
  have hmem : decl ∈ document.decls.filter fun other => other.name.text == decl.name.text := by
    simp [hdecl]
  rw [Document.hover?, hword, declsText]
  dsimp only
  rw [if_neg hne, if_neg (by simp [hkeyword])]
  generalize (document.decls.filter fun other => other.name.text == decl.name.text) = decls at hmem
  cases decls with
  | nil => cases hmem
  | cons first rest => rfl

/-- The names of declarations that can be read are no keywords and are placed, in order. -/
theorem placed_of_parse {uri source : String} {decls : List Decl}
    (h : parse uri source = .ok decls) :
    (∀ decl ∈ decls, isKeyword decl.name.text = false ∧
      ∃ before behind, Placed uri source.toList before decl.name behind) ∧
    decls.Pairwise fun first second =>
      (nameRange first.name).stop.Before (nameRange second.name).start := by
  obtain ⟨hplaced, hpairwise⟩ := placed_of_words (words_of_parse h)
    (Cursor.standsIn_start source.toList) (.inl (by simp [Cursor.start, EndsOutside]))
  obtain ⟨tokens, last, htokens, hmatch⟩ := greedy_of_parse h
  have hwell := wellFormed_tokenize uri source
  rw [htokens] at hwell
  refine ⟨fun decl hdecl => ⟨?_, ?_⟩, List.pairwise_map.mp hpairwise⟩
  · exact (Greedy.wellFormed_of_file hwell hmatch decl hdecl).name.2
  · obtain ⟨before, behind, hat, -⟩ := hplaced decl.name (List.mem_map_of_mem hdecl)
    exact ⟨before, behind, hat⟩

/-- The declarations of an open document that can be read. -/
theorem decls_of_open {requests : List Request} {uri : String} {document : Document}
    {decls : List Decl} (hopen : (Workspace.after [] requests).document? uri = some document)
    (hparse : parse uri document.source = .ok decls) : document.decls = decls := by
  have hnothing : Workspace.Knows [] uri (openText? uri []) := rfl
  have hknows := hnothing.after requests
  cases htext : openText? uri ([] ++ Workspace.events [] requests) with
  | none =>
    rw [htext] at hknows
    have hclosed : (Workspace.after [] requests).document? uri = none := hknows
    rw [hclosed] at hopen
    cases hopen
  | some text =>
    rw [htext] at hknows
    obtain ⟨known, hknown, hmirrors⟩ := hknows
    rw [hopen] at hknown
    cases hknown
    have hsource := hmirrors.source
    subst hsource
    rcases hmirrors.read with ⟨hread, -⟩ | ⟨stopped, shown, hread, -⟩
    · rw [hparse] at hread
      exact (Except.ok.inj hread).symm
    · rw [hparse] at hread
      cases hread

/-- A text with a declaration behind a quoted newline and a semicolon, with letters of another
alphabet and with names that are declared twice. -/
def outlinedText : String :=
  "f x = \"\n\" ;größe= x\n\ngröße f = x größe; f = 1"

example : ((Workspace.after [] [.opened "u" outlinedText]).symbols "u").map
      (·.map (·.range)) =
        .ok [⟨⟨0, 0⟩, ⟨0, 1⟩⟩, ⟨⟨1, 3⟩, ⟨1, 8⟩⟩, ⟨⟨3, 0⟩, ⟨3, 5⟩⟩, ⟨⟨3, 19⟩, ⟨3, 20⟩⟩] ∧
    (Workspace.after [] [.opened "u" outlinedText]).hover? "u" 1 8 =
      some "**decl** \x60größe\x60\n\n- \x60größe\x60\n- \x60größe f\x60" := by
  decide +kernel

end FrontEnd.Editor
