import FrontEnd.Proofs.Lexer.Faults

/-!
# Diagnostics point into their source

Whatever is wrong with a source, the diagnostic is at a position of it: where the lexeme begins that
could not be scanned, at the end where the input ends too early, and otherwise where a token begins,
or at the end where no token is left.

* `Diagnostic.PointsInto` — what the place of a diagnostic has to do with its source.
* `Lexer.Within` — a lexer that tokens of a source alone led to, with only such tokens to come.
* `Lexer.ending_within` — rules read from such lexers, and stop with such diagnostics.
* `points_of_file`, `points_of_tokenize` — so do the readings of whole sources.
-/

set_option autoImplicit false

namespace FrontEnd

/-! ## Places -/

/-- Where a diagnostic points that a lexer on a source was left with: to what could not be scanned
by an advance from before, to the end of the input, or to a token, unless none is left. -/
def Diagnostic.PointsInto (file source : String) (left : Lexer) (diagnostic : Diagnostic) : Prop :=
  ∃ pos ≤ source.length, diagnostic.location = placeAt file source pos ∧
    ((diagnostic.code ∈ lexicalCodes ∧ diagnostic.cause.Offends (source.toList.drop pos) ∧
        ∃ lexer, Lexer.Reached (.ofSource file source) lexer ∧ lexer.nextCursor.pos = pos ∧
          lexer.advance = .error (.diagnostic diagnostic) left) ∨
      (diagnostic.code = "E201" ∧ pos = source.length) ∨
      (diagnostic.code ∉ "E201" :: lexicalCodes ∧
        ((∃ token ∈ (tokenize file source).1, token.location = diagnostic.location) ∨
          left.lookahead = .ended ∧ pos = source.length)))

/-- Behind the end there is no other place than at the end. -/
theorem placeAt_min (file source : String) (pos : Nat) :
    placeAt file source (min pos source.length) = placeAt file source pos := by
  have htake : source.toList.take (min pos source.length) = source.toList.take pos := by
    rw [List.take_eq_take_iff, String.length_toList]
    omega
  unfold placeAt Text.lineOf Text.colOf
  rw [htake]

theorem Cause.code_of_refusesToken {cause : Cause} (h : cause.refusesToken = true) :
    cause.code ∉ "E201" :: lexicalCodes := by
  cases cause <;> simp [refusesToken, code, lexicalCodes] at h ⊢

theorem Cause.code_of_refusesEnd {cause : Cause} (h : cause.refusesEnd = true) :
    cause.code = "E201" ∨ cause.code ∉ "E201" :: lexicalCodes := by
  cases cause <;> simp [refusesEnd, code, lexicalCodes] at h ⊢

/-! ## Tokens to come -/

/-- An advance of a tape that answers brings the first token to come to the front, or nothing. -/
theorem Tape.advance_eq_ok {tape next : Tape} {place : Location}
    (h : tape.advance = .ok place next) :
    (∃ token, tape.coming = token :: next.coming ∧ next.lookahead = .ready token) ∨
      next.lookahead = .ended ∧ next.coming ⊆ tape.coming := by
  obtain ⟨front, coming, stop⟩ := tape
  cases front with
  | ended place =>
    cases h
    exact .inr ⟨rfl, fun _ h => h⟩
  | _ =>
    cases coming with
    | cons token rest =>
      cases h
      exact .inl ⟨token, rfl, rfl⟩
    | nil =>
      cases stop with
      | error fault => cases h
      | ok place =>
        cases h
        exact .inr ⟨rfl, fun _ h => h⟩

namespace Lexer

/-- The tokens that are still to come. -/
def coming (root lexer : Lexer) : List Token :=
  (lexer.view.tape root.file).coming

/-- A lexer that was started, with a token of `root` in front, if any, and only such tokens to
come. -/
structure Within (root lexer : Lexer) : Prop where
  reached : Reached root lexer
  started : lexer.lookahead ≠ .unstarted
  front : ∀ token, lexer.lookahead = .ready token → token ∈ root.coming root
  coming : root.coming lexer ⊆ root.coming root

variable {root lexer next : Lexer} {place : Location}

/-- An advance that answers leads on to such a lexer. -/
theorem within_of_advance (hroot : root.brackets.Sound) (h : Reached root lexer)
    (hcoming : root.coming lexer ⊆ root.coming root) (hadvance : lexer.advance = .ok place next) :
    Within root next := by
  have hnext : lexer.advanced = next := Rule.after_of_ok hadvance
  have hreached : Reached root next := hnext ▸ h.advance
  obtain ⟨hsound, hgrows⟩ := h.sound hroot
  have hview := advance_view hsound
  rw [hadvance] at hview
  have htape := View.advance_tape lexer.file lexer.view
  rw [hview.1, hgrows.file] at htape
  have hlook : (next.view.tape root.file).lookahead = next.lookahead :=
    View.lookahead_tape root.file next.view
  rcases Tape.advance_eq_ok htape with ⟨token, hfirst, hready⟩ | ⟨hended, hsubset⟩
  · have hready : next.lookahead = .ready token := hlook.symm.trans hready
    have hfirst : root.coming lexer = token :: root.coming next := hfirst
    rw [hfirst] at hcoming
    refine ⟨hreached, by rw [hready]; nofun, fun found hfound => ?_, fun found hfound => ?_⟩
    · rw [hready] at hfound
      cases hfound
      exact hcoming List.mem_cons_self
    · exact hcoming (List.mem_cons_of_mem _ hfound)
  · have hended : next.lookahead = .ended := hlook.symm.trans hended
    refine ⟨hreached, by rw [hended]; nofun, fun found hfound => ?_, fun _ h => hcoming (hsubset h)⟩
    rw [hended] at hfound
    cases hfound

/-- A reset leads back to such a lexer. -/
theorem Within.reset {marked : Lexer} (hroot : root.brackets.Sound) (hmarked : Within root marked)
    (h : Within root lexer) (hgrows : marked.Grows lexer) :
    Within root (lexer.reset marked.mark) := by
  have hview := view_reset (hmarked.reached.sound hroot).1 (h.reached.sound hroot).1 hgrows
  refine ⟨.reset hmarked.reached h.reached hgrows, hmarked.started, hmarked.front, ?_⟩
  rw [Lexer.coming, hview]
  exact hmarked.coming

/-! ## Stops -/

section Sources

variable (file source : String)

theorem coming_ofSource :
    (ofSource file source).coming (ofSource file source) = (tokenize file source).1 := by
  have htape := sourceTape_eq file source
  show (sourceTape file source).coming = _
  generalize tokenize file source = result at htape
  obtain ⟨tokens, _ | fault, last⟩ := result <;>
  · rw [htape]

variable {file source} {lexer left : Lexer}

/-- An advance that fails points to what could not be scanned. -/
theorem points_of_advance (h : Reached (.ofSource file source) lexer) {diagnostic : Diagnostic}
    (hadvance : lexer.advance = .error (.diagnostic diagnostic) left) :
    diagnostic.PointsInto file source left := by
  obtain ⟨hle, hlocation, hoffends⟩ := offends_of_advance h hadvance
  exact ⟨_, hle, hlocation, .inl ⟨hoffends.code_mem, hoffends, lexer, h, rfl, hadvance⟩⟩

/-- A rule that refuses a token points to it. -/
theorem points_of_token (h : Within (.ofSource file source) lexer) {token : Token}
    (hready : lexer.lookahead = .ready token) {cause : Cause}
    (hcause : cause.refusesToken = true) :
    Diagnostic.PointsInto file source left ⟨token.location, cause, .error⟩ := by
  obtain ⟨pos, hstands⟩ := h.reached.front_stands token hready
  have hmem : token ∈ (tokenize file source).1 := by
    rw [← coming_ofSource]
    exact h.front token hready
  refine ⟨min pos source.length, Nat.min_le_right _ _, ?_, ?_⟩
  · rw [placeAt_min]
    exact hstands.location
  · exact .inr (.inr ⟨Cause.code_of_refusesToken hcause, .inl ⟨token, hmem, rfl⟩⟩)

/-- A rule that stops where no token is left points to the end. -/
theorem points_of_ended (h : Within (.ofSource file source) lexer)
    (hended : lexer.lookahead = .ended) {cause : Cause} (hcause : cause.refusesEnd = true) :
    Diagnostic.PointsInto file source lexer ⟨lexer.location, cause, .error⟩ := by
  have hpos := h.reached.pos_of_ended hended
  have hfile : lexer.file = file := (h.reached.sound Brackets.sound_none).2.file
  have hlocation : lexer.location = placeAt file source lexer.cursor.pos := by
    rw [location, hfile, h.reached.standsIn.location_eq]
  rw [hpos] at hlocation
  refine ⟨source.length, Nat.le_refl _, hlocation, .inr ?_⟩
  rcases Cause.code_of_refusesEnd hcause with hcode | hcode
  · exact .inl ⟨hcode, rfl⟩
  · exact .inr ⟨hcode, .inr ⟨hended, rfl⟩⟩

variable (file source) in
/-- **Rules read from lexers within a source, and stop with diagnostics that point into it**, unless
the budget for nesting is used up. -/
theorem ending_within :
    Feed.Ending
      (fun lexer after : Lexer => Within (.ofSource file source) lexer →
        lexer.Grows after ∧ Within (.ofSource file source) after)
      (fun origin fault left => Within (.ofSource file source) origin →
        ∀ diagnostic, fault = .diagnostic diagnostic → diagnostic.cause ≠ .tooDeep →
          diagnostic.PointsInto file source left) where
  refl lexer h := ⟨.refl lexer, h⟩
  trans h₁ h₂ h := ⟨(h₁ h).1.trans (h₂ (h₁ h).2).1, (h₂ (h₁ h).2).2⟩
  advance {lexer place next} hadvance h := by
    have hview := advance_view (h.reached.sound Brackets.sound_none).1
    have hadvance : lexer.advance = .ok place next := hadvance
    rw [hadvance] at hview
    exact ⟨hview.2.2, within_of_advance Brackets.sound_none h.reached h.coming hadvance⟩
  note event lexer h :=
    ⟨⟨rfl, rfl, .refl _⟩, .note event h.reached, h.started, h.front, h.coming⟩
  rewind {marked lexer} hfollows h :=
    ⟨(hfollows h).1.reset _, h.reset Brackets.sound_none (hfollows h).2 (hfollows h).1⟩
  widen hfollows hstops h := hstops (hfollows h).2
  fault hfollows hadvance h := by
    rintro diagnostic rfl -
    exact points_of_advance (hfollows h).2.reached hadvance
  token hfollows hready hcause _ h := by
    rintro _ ⟨⟩ -
    exact points_of_token (hfollows h).2 hready hcause
  ended hfollows hended hcause h := by
    rintro _ ⟨⟩ -
    exact points_of_ended (hfollows h).2 hended hcause
  unstarted hfollows hunstarted h := absurd hunstarted (hfollows h).2.started
  tooDeep _ _ := by
    rintro _ ⟨⟩ hcause
    exact absurd rfl hcause

end Sources

end Lexer

/-! ## Readings -/

variable {file source : String} {left : Lexer} {diagnostic : Diagnostic}

/-- Reading a file begins with its first token. -/
theorem file_ofSource (budget : Nat) (file source : String) :
    Grammar.file budget (Lexer.ofSource file source) =
      match (Lexer.ofSource file source).advance with
      | .ok _ next => Grammar.declarations budget next
      | .error fault left => .error fault left := by
  have hbegin : (Rule.begin : Rule Lexer Unit) (Lexer.ofSource file source) =
      (discard Rule.advance : Rule Lexer Unit) (Lexer.ofSource file source) := rfl
  cases ha : (Lexer.ofSource file source).advance with
  | ok place next =>
    have hfirst : (Rule.begin : Rule Lexer Unit) (Lexer.ofSource file source) = .ok () next := by
      rw [hbegin]
      exact Rule.bind_of_ok ha
    exact Rule.bind_of_ok hfirst
  | error fault left =>
    have hfirst : (Rule.begin : Rule Lexer Unit) (Lexer.ofSource file source) =
        .error fault left := by
      rw [hbegin]
      exact Rule.bind_of_error ha
    exact Rule.bind_of_error hfirst

/-- **Where the reading of a file stops, its diagnostic points into the source.** -/
theorem points_of_file {budget : Nat}
    (h : Grammar.file budget (Lexer.ofSource file source) = .error (.diagnostic diagnostic) left)
    (hcause : diagnostic.cause ≠ .tooDeep) : diagnostic.PointsInto file source left := by
  rw [file_ofSource] at h
  cases ha : (Lexer.ofSource file source).advance with
  | error fault stopped =>
    rw [ha] at h
    cases h
    exact Lexer.points_of_advance .root ha
  | ok place next =>
    have hwithin : Lexer.Within (.ofSource file source) next :=
      Lexer.within_of_advance Brackets.sound_none .root (fun _ h => h) ha
    have hends : Rule.Ended _ _ next (Grammar.declarations budget next) :=
      Grammar.ends_declarations (Lexer.ending_within file source) budget next
        fun h => ⟨.refl next, h⟩
    rw [ha] at h
    dsimp only at h
    rw [h] at hends
    exact hends hwithin diagnostic rfl hcause

/-- A run over tokens that fails does so in an advance. -/
theorem Lexer.exists_advance_of_tokensUpTo {root lexer last : Lexer} {bound : Nat}
    {tokens : List Token} {fault : Fault} (hreached : Reached root lexer)
    (h : lexer.tokensUpTo bound = (tokens, some fault, last)) :
    ∃ stopped, Reached root stopped ∧ stopped.advance = .error fault last := by
  induction bound generalizing lexer tokens with
  | zero => cases h
  | succ bound ih =>
    rw [tokensUpTo] at h
    cases ha : lexer.advance with
    | error found after =>
      rw [ha] at h
      cases h
      exact ⟨lexer, hreached, ha⟩
    | ok place next =>
      have hnext : lexer.advanced = next := Rule.after_of_ok ha
      rw [ha] at h
      dsimp only at h
      split at h
      · cases h
      · generalize hrun : next.tokensUpTo bound = result at h
        obtain ⟨rest, found, stop⟩ := result
        cases h
        exact ih (hnext ▸ hreached.advance) hrun

/-- **Where the scan of a file stops, its diagnostic points into the source.** -/
theorem points_of_tokenize {tokens : List Token}
    (h : tokenize file source = (tokens, some (.diagnostic diagnostic), left)) :
    diagnostic.PointsInto file source left := by
  obtain ⟨lexer, hreached, hadvance⟩ := Lexer.exists_advance_of_tokensUpTo .root h
  exact Lexer.points_of_advance hreached hadvance

end FrontEnd
