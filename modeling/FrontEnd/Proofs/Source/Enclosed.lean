import FrontEnd.Proofs.Grammar.Enclosed
import FrontEnd.Proofs.Lexer.Enclosed
import FrontEnd.Proofs.Source.Filed
import FrontEnd.Proofs.Source.Spelled
import FrontEnd.Proofs.Source.Written

/-!
# Redundant parentheses in a source

Parentheses may be put around the body of a declaration, and around its only pattern. What is parsed
is the same, but for locations.

* `laid_enclosed` — a source between parentheses lays out its lexemes between them.
* `parse_enclosed` — what is parsed from a source with parentheses around the body of a declaration,
  and around its pattern.
-/

set_option autoImplicit false

namespace FrontEnd

open Scan

/-! ## Texts between parentheses -/

section Enclosed

variable {source : String} {tokens : List Token}
  (h : Laid [] (tokens.map Token.lexeme) source.toList)

include h

/-- What is read from a source are the lexemes that it lays out. -/
theorem exists_tokens_of_laid (file : String) :
    ∃ found last, tokenize file source = (found, none, last) ∧
      found.map Token.lexeme = tokens.map Token.lexeme := by
  have htokens := tokenize_of_laid file h
  rwa [String.ofList_toList] at htokens

/-- **The lexemes of a source that closes its brackets are laid out between parentheses**, if its
newlines are written as semicolons. -/
theorem laid_enclosed (file : String) (hclosed : View.trackAll [] tokens = .ok [])
    {more : List Lexeme} {tail : List Char} (hmore : Laid [] more tail) :
    Laid [] (.opening .paren :: (tokens.map Token.lexeme ++ .closing .paren :: more))
      ('(' :: (withSemicolons (tokenize file source).1 source.toList ++ ')' :: tail)) := by
  obtain ⟨found, last, hfound, hlexemes⟩ := exists_tokens_of_laid h file
  have hnest := View.nest_of_trackAll hclosed
  rw [← hlexemes] at hnest
  obtain ⟨after, htracked, hkinds⟩ := View.trackAll_of_nest hnest
  rw [List.map_eq_nil_iff.mp hkinds] at htracked
  have hclosing : Laid [(default, .paren)] (.closing .paren :: more) (')' :: tail) :=
    .punctuated rfl (by decide) rfl hmore
  have houter : [((default : Location), Bracket.paren)] ≠ [] := List.cons_ne_nil _ _
  have hinside := (run_of_tokenize hfound).enclosed houter
    (delimits_cons (by decide +kernel) tail) htracked hclosing
  rw [hlexemes] at hinside
  rw [hfound]
  exact .punctuated rfl (by decide) rfl hinside

/-- Without separators there is nothing to be written as a semicolon. -/
theorem withSemicolons_tokenize (file : String)
    (hplain : ∀ token ∈ tokens, token.lexeme ≠ .semicolon) :
    withSemicolons (tokenize file source).1 source.toList = source.toList := by
  obtain ⟨found, last, hfound, hlexemes⟩ := exists_tokens_of_laid h file
  rw [hfound]
  refine (run_of_tokenize hfound).withSemicolons_eq_self fun token hmem => ?_
  have hlexeme : token.lexeme ∈ tokens.map Token.lexeme := hlexemes ▸ List.mem_map_of_mem hmem
  obtain ⟨other, hother, heq⟩ := List.mem_map.mp hlexeme
  exact heq ▸ hplain other hother

end Enclosed

/-! ## Sources with one declaration -/

variable {stack : List (Location × Bracket)} {lexemes : List Lexeme} {text : List Char}

theorem wellFormed_letter {c : Char} (h : Text.isWordStart c = true) :
    (Lexeme.identifier (String.ofList [c])).WellFormed :=
  ⟨c, [], rfl, h, by simp⟩

theorem reads_letter {c : Char} (h : Text.isWordStart c = true) (htext : Delimits text) :
    Scan.Reads [c] (.identifier (String.ofList [c])) text := by
  have hreads := reads_identifier (wellFormed_letter h) htext
  rwa [String.toList_ofList] at hreads

/-- What is behind a name of one letter and a blank. -/
theorem Laid.behind_letter {c : Char} (h : Laid stack lexemes (c :: ' ' :: text))
    (hc : Text.isWordStart c = true) (hblank : Text.isBlank c = false) :
    ∃ others, lexemes = .identifier (String.ofList [c]) :: others ∧ Laid stack others text := by
  have hreads := reads_letter hc (delimits_cons (c := ' ') (by decide +kernel) text)
  obtain ⟨place, inner, others, rfl, htrack, hothers⟩ := h.behind_spelling hreads hblank
  cases htrack
  exact ⟨others, rfl, hothers.behind_blank (by decide) (by decide)⟩

/-- What is behind the sign that assigns and a blank. -/
theorem Laid.behind_assign (h : Laid stack lexemes ('=' :: ' ' :: text)) :
    ∃ others, lexemes = .assign :: others ∧ Laid stack others text := by
  have hreads : Scan.Reads ['='] .assign (' ' :: text) :=
    reads_operator (by decide) (by simp) (by decide) (delimits_cons (by decide +kernel) text)
  obtain ⟨place, inner, others, rfl, htrack, hothers⟩ := h.behind_spelling hreads (by decide)
  cases htrack
  exact ⟨others, rfl, hothers.behind_blank (by decide) (by decide)⟩

/-- A body that is a name lays out nothing else. -/
theorem Laid.stubBody (h : Laid stack lexemes [' ', '=', ' ', 'x']) :
    lexemes = [.assign, .identifier "x"] := by
  obtain ⟨others, rfl, hothers⟩ := (h.behind_blank (by decide) (by decide)).behind_assign
  have hreads : Scan.Reads ['x'] (.identifier "x") [] :=
    reads_letter (by decide +kernel) delimits_nil
  obtain ⟨place, inner, more, rfl, -, hmore⟩ := hothers.behind_spelling hreads (by decide)
  generalize hnil : [] = rest at hmore
  cases hmore with
  | none => rfl
  | spelled _ hreads =>
    obtain ⟨c, inner, rfl, -⟩ := hreads
    simp at hnil

variable {file : String} {tokens : List Token} {last : Lexer}

/-- The tokens of a declaration without patterns. -/
theorem tokens_of_body {body : String} (h : tokenize file ("f = " ++ body) = (tokens, none, last)) :
    ∃ name assign rest, tokens = name :: assign :: rest ∧ name.lexeme = .identifier "f" ∧
      assign.lexeme = .assign ∧ Laid [] (rest.map Token.lexeme) body.toList := by
  have htext : ("f = " ++ body).toList = 'f' :: ' ' :: '=' :: ' ' :: body.toList :=
    String.toList_append
  obtain ⟨others, hothers, hlaid⟩ :=
    (htext ▸ laid_of_tokenize h).behind_letter (by decide +kernel) (by decide)
  obtain ⟨lexemes, rfl, hbody⟩ := hlaid.behind_assign
  obtain ⟨name, _, rfl, hname, hrest⟩ := List.map_eq_cons_iff.mp hothers
  obtain ⟨assign, rest, rfl, hassign, hlexemes⟩ := List.map_eq_cons_iff.mp hrest
  exact ⟨name, assign, rest, rfl, hname, hassign, hlexemes ▸ hbody⟩

/-- The tokens of a declaration whose body is a name. -/
theorem tokens_of_head {head : String}
    (h : tokenize file ("f " ++ head ++ " = x") = (tokens, none, last)) :
    ∃ name front assign body, tokens = name :: (front ++ [assign, body]) ∧
      name.lexeme = .identifier "f" ∧ assign.lexeme = .assign ∧ body.lexeme = .identifier "x" ∧
      Laid [] (front.map Token.lexeme) head.toList := by
  have htext : ("f " ++ head ++ " = x").toList =
      'f' :: ' ' :: (head.toList ++ ' ' :: ['=', ' ', 'x']) := by
    rw [String.toList_append, String.toList_append]
    rfl
  obtain ⟨others, hothers, hlaid⟩ :=
    (htext ▸ laid_of_tokenize h).behind_letter (by decide +kernel) (by decide)
  obtain ⟨before, after, inner, rfl, hbefore, hafter⟩ := hlaid.cut (by decide)
  rw [hafter.stubBody] at hothers
  obtain ⟨name, rest, rfl, hname, hrest⟩ := List.map_eq_cons_iff.mp hothers
  obtain ⟨front, stub, rfl, hfront, hstub⟩ := List.map_eq_append_iff.mp hrest
  obtain ⟨assign, _, rfl, hassign, hlast⟩ := List.map_eq_cons_iff.mp hstub
  obtain ⟨body, rfl, hbody⟩ := List.map_eq_singleton_iff.mp hlast
  exact ⟨name, front, assign, body, rfl, hname, hassign, hbody, hfront ▸ hbefore⟩

/-! ## What is parsed -/

/-- What is parsed from a source is just the declaration, up to locations, unless the source nests
too deeply. -/
def ParsesAs (file source : String) (decl : Decl) : Prop :=
  (∃ decl', parse file source = .ok [decl'] ∧
      decl'.relocate (fun _ => default) = decl.relocate fun _ => default) ∨
    ∃ fault, parse file source = .error fault ∧ fault.IsTooDeep

/-- A source with the lexemes of tokens that are just a declaration. -/
theorem parsesAs_of_laid {source : String} {decl : Decl}
    (h : Laid [] (tokens.map Token.lexeme) source.toList)
    (hmatch : Greedy.decl tokens = some (decl, [])) : ParsesAs file source decl := by
  obtain ⟨found, last, htokens, hlexemes⟩ := exists_tokens_of_laid h file
  rcases parse_of_greedy_like htokens (congrArg Lexeme.spaced hlexemes)
      (Greedy.file_of_decl hmatch) with ⟨decls, hparse, hdecls⟩ | htooDeep
  · obtain ⟨decl', rfl, hdecl⟩ := List.map_eq_singleton_iff.mp hdecls
    exact .inl ⟨decl', hparse, hdecl⟩
  · exact .inr htooDeep

variable {decl : Decl}

/-- Parentheses around a body. -/
theorem parsesAs_enclosed_body {body : String} (h : parse file ("f = " ++ body) = .ok [decl])
    (hlast : ∀ last, (tokenize file body).1.getLast? = some last → last.lexeme ≠ .semicolon) :
    ParsesAs file ("f = (" ++
      String.ofList (withSemicolons (tokenize file body).1 body.toList) ++ ")") decl := by
  obtain ⟨tokens, last, htokens, hmatch, hspelled⟩ := spellings_of_parse h
  have hwell := wellFormed_tokenize file ("f = " ++ body)
  rw [htokens] at hwell
  obtain ⟨name, assign, rest, rfl, hname, hassign, hlaid⟩ := tokens_of_body htokens
  have hends : ∀ token, (name :: assign :: rest).getLast? = some token →
      token.lexeme ≠ .semicolon := by
    intro token htoken
    obtain ⟨found, last', hfound, hlexemes⟩ := exists_tokens_of_laid hlaid file
    rw [hfound] at hlast
    rcases List.eq_nil_or_concat' rest with rfl | ⟨front, other, rfl⟩
    · obtain rfl : assign = token := Option.some.inj htoken
      simp [hassign, Lexeme.assign]
    · have hmap := congrArg List.getLast? hlexemes
      rw [List.getLast?_map, List.getLast?_map, List.getLast?_concat, Option.map_some] at hmap
      obtain ⟨twin, htwin, hlexeme⟩ := Option.map_eq_some_iff.mp hmap
      have hother : (name :: assign :: front ++ [other]).getLast? = some other :=
        List.getLast?_concat
      rw [← Option.some.inj (hother.symm.trans htoken), ← hlexeme]
      exact hlast twin htwin
  have hdecl : Greedy.decl (name :: assign :: rest) = some (decl, []) :=
    Greedy.decl_of_file hwell (Greedy.dropWhile_of_ne (by simp [hname])) hends hmatch
  have hclosed : View.trackAll [] rest = .ok [] := by
    have hall := (Decl.reads_of_spellings hspelled).closed []
    rw [View.trackAll_cons, hname] at hall
    have hrest : View.trackAll [] (assign :: rest) = .ok [] := hall
    rw [View.trackAll_cons, hassign] at hrest
    exact hrest
  have hhead : LaysOut ['f', ' ', '='] [.identifier "f", .assign] :=
    (laysOut_name (wellFormed_letter (by decide +kernel))).append laysOut_assign.blank
      (by decide +kernel)
  have hinside := laid_enclosed hlaid file hclosed (.none (isGap_nil []))
  have hall := hhead [] _ _ hinside.blank (delimits_cons (by decide +kernel) _)
  let opening := Token.bare (.opening .paren)
  let closing := Token.bare (.closing .paren)
  have hgroup : Greedy.decl (name :: assign :: opening :: (rest ++ [closing])) = some (decl, []) :=
    Greedy.decl_enclosed_body hassign rfl rfl hdecl
  refine parsesAs_of_laid ?_ hgroup
  simpa [opening, closing, hname, hassign, Token.bare] using hall

/-- Parentheses around a pattern. -/
theorem parsesAs_enclosed_pattern {head : String}
    (h : parse file ("f " ++ head ++ " = x") = .ok [decl]) (hsingle : decl.patterns.length = 1) :
    ParsesAs file ("f (" ++ head ++ ") = x") decl := by
  obtain ⟨single, hsingle⟩ := List.length_eq_one_iff.mp hsingle
  obtain ⟨tokens, last, htokens, hmatch⟩ := greedy_of_parse h
  have hwell := wellFormed_tokenize file ("f " ++ head ++ " = x")
  rw [htokens] at hwell
  obtain ⟨name, front, assign, body, rfl, hname, hassign, hbody, hlaid⟩ := tokens_of_head htokens
  have hdecl : Greedy.decl (name :: (front ++ [assign, body])) = some (decl, []) := by
    refine Greedy.decl_of_file hwell (Greedy.dropWhile_of_ne (by simp [hname])) ?_ hmatch
    intro token htoken
    have hlast : (name :: front ++ [assign, body]).getLast? = some body :=
      List.getLast?_append_cons ..
    rw [← Option.some.inj (hlast.symm.trans htoken), hbody]
    simp
  let opening := Token.bare (.opening .paren)
  let closing := Token.bare (.closing .paren)
  obtain ⟨used, assign', left, hused, hassign', hpattern, hplain, hcall, hgroup⟩ :=
    Greedy.decl_enclosed_pattern hsingle (rfl : opening.lexeme = .opening .paren)
      (rfl : closing.lexeme = .closing .paren) hdecl
  have hinside : ∀ token ∈ front ++ [assign, body], token.lexeme.WellFormed :=
    fun token hmem => hwell token (List.mem_cons_of_mem _ hmem)
  rw [hused] at hinside hpattern
  obtain ⟨rfl, rfl⟩ := Greedy.body_of_last
    (fun token hmem => hinside token (by simp [hmem])) hcall hused.symm hassign
    (by simp [hbody, Lexeme.inWord])
  have hclosed : View.trackAll [] used = .ok [] := by
    obtain ⟨taken, htaken, hspelled⟩ := Greedy.spells_pattern _ _ _ hinside hpattern
    obtain rfl := List.append_cancel_right htaken
    exact ((Pattern.readAs_yield single).wrapped _ hspelled).closed []
  have hstub := laysOut_stubBody [] [] [] (.none (isGap_nil [])) delimits_nil
  have hgrouped := laid_enclosed hlaid file hclosed hstub
  rw [withSemicolons_tokenize hlaid file hplain] at hgrouped
  have hall := laysOut_name (wellFormed_letter (c := 'f') (by decide +kernel)) [] _ _
    hgrouped.blank (delimits_cons (by decide +kernel) _)
  refine parsesAs_of_laid ?_ hgroup
  simpa [opening, closing, hname, hassign', hbody, Token.bare] using hall

/-- **Redundant parentheses change nothing.** Where a text is the body of a declaration without
patterns, and it does not end in a separator, it may stand between parentheses, with semicolons for
the newlines among its tokens. Where a text is the only pattern of a declaration, it may stand
between parentheses as it is. In both cases what is parsed is the same declaration, up to locations,
unless it nests too deeply. -/
theorem parse_enclosed (file : String) :
    (∀ (body : String) (decl : Decl), parse file ("f = " ++ body) = .ok [decl] →
      (∀ last, (tokenize file body).1.getLast? = some last → last.lexeme ≠ .semicolon) →
      ParsesAs file ("f = (" ++
        String.ofList (withSemicolons (tokenize file body).1 body.toList) ++ ")") decl) ∧
    ∀ (head : String) (decl : Decl), parse file ("f " ++ head ++ " = x") = .ok [decl] →
      decl.patterns.length = 1 → ParsesAs file ("f (" ++ head ++ ") = x") decl :=
  ⟨fun _ _ h hlast => parsesAs_enclosed_body h hlast,
    fun _ _ h hsingle => parsesAs_enclosed_pattern h hsingle⟩

/-- A binding of a match, whose arms begin behind newlines, and a constructor with two arguments. -/
theorem parse_enclosed_of_match : ∃ decl decl',
    parse "f.em" ("f = " ++ "let y = match x\n C z => (z,\n 1)\n _ => x\n in y") = .ok [decl] ∧
    String.ofList (withSemicolons
        (tokenize "f.em" "let y = match x\n C z => (z,\n 1)\n _ => x\n in y").1
        "let y = match x\n C z => (z,\n 1)\n _ => x\n in y".toList) =
      "let y = match x; C z => (z,\n 1); _ => x; in y" ∧
    ParsesAs "f.em" ("f = (" ++ "let y = match x; C z => (z,\n 1); _ => x; in y" ++ ")") decl ∧
    parse "f.em" ("f " ++ "C (x, \" = \") y" ++ " = x") = .ok [decl'] ∧
    decl'.patterns.length = 1 ∧
    ParsesAs "f.em" ("f (" ++ "C (x, \" = \") y" ++ ") = x") decl' := by
  have hlengths : (parse "f.em" ("f = " ++
      "let y = match x\n C z => (z,\n 1)\n _ => x\n in y")).map List.length = .ok 1 := by
    decide +kernel
  have hlengths' : (parse "f.em" ("f " ++ "C (x, \" = \") y" ++ " = x")).map
      (List.map (·.patterns.length)) = .ok [1] := by
    decide +kernel
  have htext : String.ofList (withSemicolons
      (tokenize "f.em" "let y = match x\n C z => (z,\n 1)\n _ => x\n in y").1
      "let y = match x\n C z => (z,\n 1)\n _ => x\n in y".toList) =
        "let y = match x; C z => (z,\n 1); _ => x; in y" := by
    decide +kernel
  have hlast : ∀ last, (tokenize "f.em"
      "let y = match x\n C z => (z,\n 1)\n _ => x\n in y").1.getLast? = some last →
        last.lexeme ≠ .semicolon := by
    have hall : (tokenize "f.em"
        "let y = match x\n C z => (z,\n 1)\n _ => x\n in y").1.getLast?.map Token.lexeme =
          some (.identifier "y") := by
      decide +kernel
    intro last hlast
    rw [hlast, Option.map_some, Option.some_inj] at hall
    simp [hall]
  obtain ⟨decls, h⟩ : ∃ decls, parse "f.em" ("f = " ++
      "let y = match x\n C z => (z,\n 1)\n _ => x\n in y") = .ok decls :=
    exists_of_isOk (by decide +kernel)
  obtain ⟨decls', h'⟩ : ∃ decls,
      parse "f.em" ("f " ++ "C (x, \" = \") y" ++ " = x") = .ok decls :=
    exists_of_isOk (by decide +kernel)
  rw [h, Except.map, Except.ok.injEq] at hlengths
  rw [h', Except.map, Except.ok.injEq] at hlengths'
  obtain ⟨decl, rfl⟩ := List.length_eq_one_iff.mp hlengths
  obtain ⟨decl', rfl, hsingle⟩ := List.map_eq_singleton_iff.mp hlengths'
  obtain ⟨hbody, hhead⟩ := parse_enclosed "f.em"
  have henclosed := hbody _ decl h hlast
  rw [htext] at henclosed
  exact ⟨decl, decl', h, htext, henclosed, h', hsingle, hhead _ decl' h' hsingle⟩

end FrontEnd
