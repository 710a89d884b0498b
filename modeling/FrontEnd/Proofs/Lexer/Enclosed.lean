import FrontEnd.Proofs.Lexer.Scanned
import FrontEnd.Proofs.Lexer.Shown

/-!
# Texts between parentheses

Between parentheses a newline is no separator any more, but a semicolon is. So a text is written
between parentheses with a semicolon for each newline that was read as a token, and the same lexemes
are read from it.

* `withSemicolons` — a text with semicolons for the newlines among its tokens.
* `View.Run.enclosed` — inside brackets it lays out the lexemes of the tokens.
* `Laid.behind_blank`, `Laid.behind_spelling` — what a text lays out behind its first characters.
* `Laid.cut` — what it lays out in front of a blank.
-/

set_option autoImplicit false

namespace FrontEnd

open Scan

/-! ## Semicolons for newlines -/

/-- What is in front of a token in a text: the blanks there, up to the newline if the token is
one. -/
def Token.gap (token : Token) (text : List Char) : List Char :=
  text.takeWhile fun c => Text.isBlank c && (c != '\n' || token.text != "\n")

/-- A text, from which some tokens are read, with a semicolon for each of them that is a newline. -/
def withSemicolons : List Token → List Char → List Char
  | [], text => text
  | token :: tokens, text =>
      let gap := token.gap text
      let behind := text.drop (gap ++ token.text.toList).length
      gap ++ ((if token.text = "\n" then [';'] else token.text.toList) ++
        withSemicolons tokens behind)

namespace View

variable {file : String} {view next : View} {token : Token} {tokens : List Token}
  {behind : List Char}

/-- What is skipped in front of a token is the gap in front of it. -/
theorem Passes.gap_eq (h : view.Passes file token next behind) :
    token.gap view.cursor.rest = view.skipped := by
  obtain ⟨c, inner, hspelling, -⟩ := h.reads
  rw [Token.gap, h.rest, hspelling]
  apply takeWhile_append_of_all
  · intro d hd
    obtain ⟨hblank, hopen⟩ := view.isGap_skipped d hd
    have hnewline : d = '\n' → token.text ≠ "\n" := fun hd htext => hopen hd (h.newline htext)
    simpa [hblank, imp_iff_not_or] using hnewline
  · intro d rest heq
    obtain ⟨rfl, -⟩ := List.cons.inj heq
    by_cases hblank : Text.isBlank c = true
    · have htext := (hspelling ▸ h.reads).eq_newline hblank
      have hnewline : token.text = "\n" := String.toList_inj.mp (hspelling.trans htext)
      simp [(List.cons.inj htext).1, hnewline]
    · simp [hblank]

theorem Passes.withSemicolons_eq (h : view.Passes file token next behind) (tokens : List Token) :
    withSemicolons (token :: tokens) view.cursor.rest =
      view.skipped ++ ((if token.text = "\n" then [';'] else token.text.toList) ++
        withSemicolons tokens next.cursor.rest) := by
  have hbehind : view.cursor.rest.drop (view.skipped ++ token.text.toList).length = behind := by
    rw [h.rest, ← List.append_assoc, List.drop_left]
  rw [withSemicolons, h.gap_eq, hbehind, h.behind]

/-- A token whose text is a newline is a separator. -/
theorem Passes.lexeme_of_newline (h : view.Passes file token next behind)
    (htext : token.text = "\n") : token.lexeme = .semicolon := by
  have hreads := h.reads
  rw [htext] at hreads
  exact (hreads.unique (reads_punctuation rfl behind) rfl).2.1

/-- Where no token is a separator, nothing is written as a semicolon. -/
theorem Run.withSemicolons_eq_self (h : Run file view tokens)
    (hplain : ∀ token ∈ tokens, token.lexeme ≠ .semicolon) :
    withSemicolons tokens view.cursor.rest = view.cursor.rest := by
  induction h with
  | none => rfl
  | @token view next token tokens behind hpasses hmore ih =>
    obtain ⟨hfirst, hplain⟩ := List.forall_mem_cons.mp hplain
    have htext : token.text ≠ "\n" := fun htext => hfirst (hpasses.lexeme_of_newline htext)
    rw [hpasses.withSemicolons_eq, if_neg htext, ih hplain, hpasses.behind, hpasses.rest]

/-- Up to its first newline the text stays as it is. -/
theorem Run.alike (h : Run file view tokens) {tail : List Char} (htail : Delimits tail) :
    Alike view.cursor.rest (withSemicolons tokens view.cursor.rest ++ tail) := by
  induction h with
  | @none view hrest =>
    exact ⟨view.cursor.rest, [], tail, by simp, rfl, delimits_nil, htail⟩
  | @token view next token tokens behind hpasses hmore ih =>
    rw [hpasses.withSemicolons_eq, hpasses.rest, List.append_assoc, List.append_assoc]
    refine Alike.append ?_ view.skipped
    by_cases htext : token.text = "\n"
    · rw [if_pos htext, htext]
      exact .of_delimits (delimits_newline behind) (delimits_cons (by decide +kernel) _)
    · rw [if_neg htext]
      rw [hpasses.behind] at ih
      exact hpasses.behind ▸ ih.append token.text.toList

/-- Brackets are tracked the same inside others. -/
theorem track_append {stack inner : List (Location × Bracket)} {place : Location} {lexeme : Lexeme}
    (h : track stack place lexeme = .ok inner) (outer : List (Location × Bracket)) :
    track (stack ++ outer) place lexeme = .ok (inner ++ outer) := by
  cases lexeme with
  | opening bracket =>
    cases h
    rfl
  | closing bracket =>
    cases stack with
    | nil => cases h
    | cons frame frames =>
      simp only [track, Brackets.popped, List.cons_append] at h ⊢
      split at h
      · rename_i hbracket
        cases h
        rw [if_pos hbracket]
      · cases h
  | _ =>
    cases h
    rfl

/-- **Inside brackets a run whose newlines are written as semicolons lays out the same lexemes.** -/
theorem Run.enclosed (h : Run file view tokens) {outer final : List (Location × Bracket)}
    {more : List Lexeme} {tail : List Char} (houter : outer ≠ []) (htail : Delimits tail)
    (htrack : trackAll view.stack tokens = .ok final) (hmore : Laid (final ++ outer) more tail) :
    Laid (view.stack ++ outer) (tokens.map Token.lexeme ++ more)
      (withSemicolons tokens view.cursor.rest ++ tail) := by
  have hgap : ∀ view : View, IsGap (view.stack ++ outer) view.skipped := fun view c hc =>
    ⟨(view.isGap_skipped c hc).1, fun _ => List.append_ne_nil_of_right_ne_nil _ houter⟩
  induction h with
  | @none view hrest =>
    cases htrack
    rw [withSemicolons, hrest]
    exact hmore.gap (hgap view)
  | @token view next token tokens behind hpasses hrun ih =>
    rw [trackAll_cons, hpasses.tracked] at htrack
    have hlaid := ih htrack
    rw [hpasses.withSemicolons_eq, List.append_assoc, List.append_assoc]
    by_cases htext : token.text = "\n"
    · have hlexeme := hpasses.lexeme_of_newline htext
      have htracked := track_append hpasses.tracked outer
      rw [hlexeme] at htracked
      rw [if_pos htext, List.map_cons, hlexeme]
      exact .spelled (hgap view) (reads_punctuation rfl _) (by simp) htracked hlaid
    · have halike := hrun.alike htail
      rw [hpasses.behind] at halike hlaid ⊢
      have hreads := hpasses.reads.alike halike
      have hspelling : token.text.toList = ['\n'] → view.stack ++ outer = [] :=
        fun heq => absurd (String.toList_inj.mp heq) htext
      rw [if_neg htext]
      exact .spelled (hgap view) hreads hspelling (track_append hpasses.tracked outer) hlaid

end View

/-! ## The first characters of a text -/

namespace Laid

variable {stack : List (Location × Bracket)} {lexemes : List Lexeme} {text behind : List Char}

/-- A blank in front is not part of what is laid out. -/
theorem behind_blank {c : Char} (h : Laid stack lexemes (c :: text))
    (hblank : Text.isBlank c = true) (hc : c ≠ '\n') : Laid stack lexemes text := by
  generalize hall : c :: text = all at h
  cases h with
  | none hgap =>
    subst hall
    exact .none fun d hd => hgap d (List.mem_cons_of_mem _ hd)
  | @spelled _ inner place lexeme lexemes gap spelling behind hgap hreads hnewline htrack hmore =>
    cases gap with
    | nil =>
      obtain ⟨d, inside, rfl, -⟩ := id hreads
      obtain ⟨rfl, -⟩ := List.cons.inj hall
      exact absurd (List.cons.inj (hreads.eq_newline hblank)).1 hc
    | cons d gap =>
      obtain ⟨rfl, rfl⟩ := List.cons.inj hall
      exact .spelled (fun d hd => hgap d (List.mem_cons_of_mem _ hd)) hreads hnewline htrack hmore

/-- A spelling in front is the first lexeme that is laid out. -/
theorem behind_spelling {c : Char} {inside : List Char} {lexeme : Lexeme}
    (h : Laid stack lexemes (c :: inside ++ behind))
    (hreads : Scan.Reads (c :: inside) lexeme behind)
    (hblank : Text.isBlank c = false) :
    ∃ place inner others, lexemes = lexeme :: others ∧
      View.track stack place lexeme = .ok inner ∧ Laid inner others behind := by
  generalize hall : c :: inside ++ behind = all at h
  have hgap : ∀ gap rest, IsGap stack gap → gap ++ rest = c :: inside ++ behind → gap = [] := by
    intro gap rest hgap heq
    cases gap with
    | nil => rfl
    | cons d gap =>
      obtain ⟨rfl, -⟩ := List.cons.inj heq
      have hblank' := (hgap d List.mem_cons_self).1
      rw [hblank] at hblank'
      cases hblank'
  cases h with
  | none hnone =>
    subst hall
    cases hgap _ [] hnone (List.append_nil _)
  | @spelled _ inner place found others gap spelling left hskipped hfound hnewline htrack hmore =>
    obtain rfl := hgap gap _ hskipped hall.symm
    obtain ⟨-, rfl, rfl⟩ := hfound.unique hreads hall.symm
    exact ⟨place, inner, others, rfl, htrack, hmore⟩

/-- A spelling with a blank in it is a quoted text. -/
theorem quote_of_blank {front spelling : List Char} {lexeme : Lexeme}
    (h : Scan.Reads (front ++ ' ' :: spelling) lexeme behind) : '"' ∈ spelling := by
  obtain ⟨c, inner, hspelling, htoken⟩ := id h
  have hmem : ' ' ∈ (token c (inner ++ behind)).taken := by
    rw [htoken]
    simp
  rcases token_delimiter (congrArg Scan.found htoken) (by decide +kernel) hmem with rfl | ⟨rfl, -⟩
  · rw [hspelling] at h
    exact absurd (List.cons.inj (h.eq_newline (by decide))).1 (by decide)
  · rw [token_quote] at htoken
    obtain ⟨inside, -, htaken, -⟩ := exists_inside (congrArg Scan.found htoken)
    rw [congrArg Scan.taken htoken] at htaken
    rcases List.eq_nil_or_concat' spelling with rfl | ⟨others, d, rfl⟩
    · have hlast : [' '] = ['"'] := (List.append_inj' htaken rfl).2
      exact absurd (List.cons.inj hlast).1 (by decide)
    · have hsplit : (front ++ ' ' :: others) ++ [d] = ('"' :: inside) ++ ['"'] := by
        simpa using htaken
      have hlast : [d] = ['"'] := (List.append_inj' hsplit rfl).2
      exact List.mem_append_right _ (by simp [hlast])

/-- **A text is cut at a blank.** What is in front of it and what is behind it lay out the lexemes
one after the other, if no quoted text goes on behind it. -/
theorem cut {front : List Char} (h : Laid stack lexemes (front ++ ' ' :: behind))
    (hquote : '"' ∉ behind) :
    ∃ before after inner, lexemes = before ++ after ∧ Laid stack before front ∧
      Laid inner after (' ' :: behind) := by
  generalize hall : front ++ ' ' :: behind = all at h
  induction h generalizing front with
  | @none stack gap hgap =>
    subst hall
    obtain ⟨hfront, hbehind⟩ := List.forall_mem_append.mp hgap
    exact ⟨[], [], stack, rfl, .none hfront, .none hbehind⟩
  | @spelled stack inner place lexeme lexemes gap spelling rest hgap hreads hnewline htrack hmore
      ih =>
    -- The blank is in the gap, in the spelling, or behind it.
    rcases split_of_append hall.symm with ⟨left, rfl⟩ | ⟨right, rfl, hright⟩
    · obtain ⟨hfront, hleft⟩ := List.forall_mem_append.mp hgap
      have hbehind : left ++ (spelling ++ rest) = behind := by simpa using hall.symm
      refine ⟨[], lexeme :: lexemes, stack, rfl, .none hfront, ?_⟩
      have hlaid : Laid stack (lexeme :: lexemes) (' ' :: left ++ (spelling ++ rest)) :=
        .spelled hleft hreads hnewline htrack hmore
      rwa [List.cons_append, hbehind] at hlaid
    · rcases split_of_append hright with ⟨left, rfl⟩ | ⟨further, rfl, rfl⟩
      · have hbehind : left ++ rest = behind := by simpa using hright
        rw [← hbehind] at hquote
        exact absurd (List.mem_append_left _ (quote_of_blank hreads)) hquote
      · obtain ⟨before, after, last, rfl, hbefore, hafter⟩ := ih rfl
        have halike : Alike (further ++ ' ' :: behind) further :=
          ⟨further, ' ' :: behind, [], rfl, by simp, delimits_cons (by decide +kernel) _,
            delimits_nil⟩
        exact ⟨lexeme :: before, after, last, rfl,
          .spelled hgap (hreads.alike halike) hnewline htrack hbefore, hafter⟩

end Laid

end FrontEnd
