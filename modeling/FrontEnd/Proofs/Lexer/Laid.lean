import FrontEnd.Proofs.Lexer.Below
import FrontEnd.Proofs.Lexer.Delimited
import FrontEnd.Proofs.Lexer.Tiles

/-!
# Texts that are laid out

Lexemes are laid out in a text by spelling them one after the other, with gaps that keep them apart.
Which lexemes are read from such a text does not depend on the gaps or on where the brackets stand.

* `Laid` — the texts that lay out lexemes inside some open brackets.
* `View.remaining_of_laid` — what is read from such a text are these lexemes.
* `tokenize_of_laid` — and so it is from a source.
-/

set_option autoImplicit false

namespace FrontEnd

/-- A text that spells lexemes inside some open brackets, with gaps around the spellings. Every
spelling is read as its lexeme in front of what follows it, and a newline is a spelling only outside
brackets. -/
inductive Laid : List (Location × Bracket) → List Lexeme → List Char → Prop
  | none {stack : List (Location × Bracket)} {gap : List Char} :
      IsGap stack gap → Laid stack [] gap
  | spelled {stack inner : List (Location × Bracket)} {place : Location} {lexeme : Lexeme}
      {lexemes : List Lexeme} {gap spelling behind : List Char} :
      IsGap stack gap → Scan.Reads spelling lexeme behind → (spelling = ['\n'] → stack = []) →
      View.track stack place lexeme = .ok inner → Laid inner lexemes behind →
      Laid stack (lexeme :: lexemes) (gap ++ (spelling ++ behind))

namespace View

variable {view : View} {stack stack' inner : List (Location × Bracket)}

/-- Whether brackets match depends on their kinds alone. -/
theorem track_kinds {place : Location} {lexeme : Lexeme}
    (hkinds : stack'.map Prod.snd = stack.map Prod.snd)
    (h : track stack place lexeme = .ok inner) (place' : Location) :
    ∃ inner', track stack' place' lexeme = .ok inner' ∧
      inner'.map Prod.snd = inner.map Prod.snd := by
  cases lexeme with
  | opening bracket =>
    cases h
    exact ⟨(place', bracket) :: stack', rfl, by rw [List.map_cons, List.map_cons, hkinds]⟩
  | closing bracket =>
    cases stack with
    | nil => cases h
    | cons frame outer =>
      cases stack' with
      | nil => cases hkinds
      | cons frame' outer' =>
        obtain ⟨hframe, houter⟩ := List.cons.inj hkinds
        simp only [track, Brackets.popped] at h ⊢
        split at h
        · rename_i hbracket
          cases h
          rw [if_pos (hframe.trans hbracket)]
          exact ⟨outer', rfl, houter⟩
        · cases h
  | _ =>
    cases h
    exact ⟨stack', rfl, hkinds⟩

/-- All of a gap is skipped in front of a spelling. -/
theorem skipped_of_gap {gap behind : List Char}
    (hkinds : view.stack.map Prod.snd = stack.map Prod.snd) (hgap : IsGap stack gap)
    (hrest : view.cursor.rest = gap ++ behind)
    (hbehind : ∀ c rest, behind = c :: rest → Text.isBlank c = true → c = '\n' ∧ stack = []) :
    view.skipped = gap := by
  have hnil : view.stack = [] ↔ stack = [] := by
    rw [← List.map_eq_nil_iff (f := Prod.snd), hkinds, List.map_eq_nil_iff]
  unfold skipped
  rw [hrest]
  apply Scan.takeWhile_append_of_all
  · intro c hc
    obtain ⟨hblank, hnewline⟩ := hgap c hc
    by_cases hc : c = '\n'
    · have hopen : view.stack ≠ [] := fun hempty => hnewline hc (hnil.mp hempty)
      simp [Lexer.isSkipped, hblank, hopen]
    · simp [Lexer.isSkipped, hblank, hc]
  · intro c rest hbehind'
    by_cases hblank : Text.isBlank c = true
    · obtain ⟨hc, hempty⟩ := hbehind c rest hbehind' hblank
      simp [Lexer.isSkipped, hc, hnil.mpr hempty]
    · simp [Lexer.isSkipped, hblank]

/-- **What is read from a text are the lexemes that it lays out.** -/
theorem remaining_of_laid (file : String) {lexemes : List Lexeme} {text : List Char}
    (h : Laid stack lexemes text) (hrest : view.cursor.rest = text)
    (hkinds : view.stack.map Prod.snd = stack.map Prod.snd)
    (hgoing : view.lookahead ≠ .ended) {bound : Nat} (hbound : text.length < bound) :
    ∃ tokens place, view.remaining file bound = (tokens, .ok place) ∧
      tokens.map Token.lexeme = lexemes := by
  obtain ⟨bound, rfl⟩ : ∃ n, bound = n + 1 := ⟨bound - 1, by omega⟩
  induction h generalizing view bound with
  | @none stack gap hgap =>
    have hskipped : view.skipped = gap := by
      have hrest : view.cursor.rest = gap ++ [] := by rw [hrest, List.append_nil]
      refine skipped_of_gap hkinds hgap hrest ?_
      intro c rest h
      cases h
    have hnil : view.nextCursor.rest = [] := by
      have hsplit := view.skipped_append
      rw [hskipped, hrest] at hsplit
      exact List.append_right_eq_self.mp hsplit
    have hadvance := advance_of_ne_ended file hgoing
    rw [hnil] at hadvance
    exact ⟨[], _, remaining_of_ended bound hadvance rfl, rfl⟩
  | @spelled stack inner place lexeme lexemes gap spelling behind hgap hreads hnewline htrack
      hlaid ih =>
    obtain ⟨c, others, rfl, htoken⟩ := hreads
    have hskipped : view.skipped = gap := by
      refine skipped_of_gap hkinds hgap hrest ?_
      intro d rest h hblank
      obtain ⟨rfl, -⟩ := List.cons.inj h
      have heq := Scan.Reads.eq_newline ⟨c, others, rfl, htoken⟩ hblank
      exact ⟨(List.cons.inj heq).1, hnewline heq⟩
    have hnext : view.nextCursor.rest = c :: (others ++ behind) := by
      have hsplit := view.skipped_append
      rw [hskipped, hrest] at hsplit
      exact List.append_cancel_left hsplit
    obtain ⟨inner', htrack', hkinds'⟩ :=
      track_kinds hkinds htrack (view.nextCursor.location file)
    let token := tokenAt file view.nextCursor c (others ++ behind) lexeme
    let next : View := ⟨view.nextCursor.move (c :: others).length, .ready token, inner'⟩
    have hadvance : view.advance file = (.ok (view.nextCursor.location file), next) := by
      rw [advance_of_found hgoing hnext (congrArg Scan.found htoken) htrack',
        congrArg Scan.taken htoken]
    rw [List.length_append, List.length_append, List.length_cons] at hbound
    obtain ⟨bound, rfl⟩ : ∃ n, bound = n + 1 := ⟨bound - 1, by omega⟩
    have hbehind : next.cursor.rest = behind := by
      show (view.nextCursor.move (c :: others).length).rest = behind
      rw [Cursor.rest_move, hnext]
      exact List.drop_left
    have hgoing' : next.lookahead ≠ .ended := by simp [next]
    obtain ⟨tokens, place', htokens, hlexemes⟩ := ih hbehind hkinds' hgoing' bound (by omega)
    refine ⟨token :: tokens, place', ?_, ?_⟩
    · rw [remaining_of_ready _ hadvance rfl, htokens]
    · rw [List.map_cons, hlexemes]
      rfl

end View

/-- **A source that lays out lexemes is split into tokens with these lexemes.** -/
theorem tokenize_of_laid (file : String) {lexemes : List Lexeme} {text : List Char}
    (h : Laid [] lexemes text) :
    ∃ tokens last, tokenize file (String.ofList text) = (tokens, none, last) ∧
      tokens.map Token.lexeme = lexemes := by
  have hview : (Lexer.ofSource file (String.ofList text)).view.cursor.rest = text :=
    String.toList_ofList
  have hgoing := Lexer.going_ofSource file (String.ofList text)
  obtain ⟨tokens, place, htokens, hlexemes⟩ :=
    View.remaining_of_laid file h hview rfl hgoing (Nat.lt_succ_self _)
  obtain ⟨last, hlast⟩ := tokenize_of_remaining (by simp) htokens
  exact ⟨tokens, last, hlast, hlexemes⟩

end FrontEnd
