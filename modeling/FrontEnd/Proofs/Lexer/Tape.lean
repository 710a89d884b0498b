import FrontEnd.Proofs.Lexer.Reached
import FrontEnd.Proofs.Lexer.Scan
import FrontEnd.Proofs.Rules.Showing
import FrontEnd.Source

/-!
# Lexers as tapes

What a lexer has still to offer depends on its view alone, so a lexer is shown by the tape of these
tokens. Reading a source with a lexer is therefore reading the finished list of its tokens.

* `View.tape` — the tokens to come, and the end of the input or the fault behind them.
* `parse_eq_tape` — what is parsed from a source is what is parsed from its tape.
* `sourceTape_eq` — the tape of a source holds the tokens of `tokenize`.
-/

set_option autoImplicit false

namespace FrontEnd

/-! ## Moving cursors -/

namespace Cursor

theorem move_move (n m : Nat) (cursor : Cursor) :
    (cursor.move n).move m = cursor.move (n + m) := by
  induction n generalizing cursor with
  | zero => rw [Nat.zero_add]; rfl
  | succ n ih => rw [Nat.succ_add]; exact ih _

theorem length_rest_move (n : Nat) (cursor : Cursor) :
    (move n cursor).rest.length = cursor.rest.length - n := by
  rw [rest_move, List.length_drop]

/-- A cursor has as many characters before it and behind it as the text has. -/
theorem pos_add_length_step (cursor : Cursor) :
    cursor.step.pos + cursor.step.rest.length = cursor.pos + cursor.rest.length := by
  unfold step
  split
  · rfl
  · rename_i c rest h
    rw [h]
    split <;> simp only [List.length_cons] <;> omega

theorem pos_add_length_move (n : Nat) (cursor : Cursor) :
    (move n cursor).pos + (move n cursor).rest.length = cursor.pos + cursor.rest.length := by
  induction n generalizing cursor with
  | zero => rfl
  | succ n ih => rw [move, ih, pos_add_length_step]

theorem pos_le_move (n : Nat) (cursor : Cursor) : cursor.pos ≤ (move n cursor).pos := by
  have hcount := pos_add_length_move n cursor
  rw [length_rest_move] at hcount
  omega

end Cursor

/-! ## Advances of views -/

namespace View

variable (file : String)

/-- An advance moves the cursor forward. -/
theorem exists_move_advance (view : View) :
    ∃ n, (view.advance file).2.cursor = view.cursor.move n := by
  unfold advance
  split
  · exact ⟨0, rfl⟩
  · dsimp only
    split
    · exact ⟨_, rfl⟩
    · unfold accept
      dsimp only [nextCursor]
      split
      · exact ⟨_, Cursor.move_move _ _ _⟩
      · split
        · exact ⟨_, Cursor.move_move _ _ _⟩
        · exact ⟨_, Cursor.move_move _ _ _⟩

/-- An advance fails, or it ends the input where the cursor then stands, or it puts a token in front
that begins at the answer and took a character at least. -/
theorem advance_cases (view : View) :
    (∃ fault next, view.advance file = (.error fault, next)) ∨
    (∃ next, view.advance file = (.ok (next.cursor.location file), next) ∧
      next.lookahead = .ended) ∨
    (∃ token next, view.advance file = (.ok token.location, next) ∧
      next.lookahead = .ready token ∧ view.lookahead ≠ .ended ∧ token.lexeme.WellFormed ∧
      next.cursor.rest.length < view.cursor.rest.length) := by
  by_cases hend : view.lookahead = .ended
  · exact .inr (.inl ⟨view, by simp [advance, hend], hend⟩)
  obtain ⟨result, next, hadvance⟩ : ∃ result next, view.advance file = (result, next) :=
    ⟨_, _, rfl⟩
  rw [hadvance]
  cases result with
  | error fault => exact .inl ⟨fault, next, rfl⟩
  | ok place =>
    refine .inr ?_
    rcases advance_eq_ok hend hadvance with
      ⟨-, hnext, rfl⟩ | ⟨c, rest, lexeme, stack, hrest, hfound, -, rfl, rfl⟩
    · exact .inl ⟨next, rfl, hnext⟩
    · obtain ⟨hwell, htaken⟩ := Scan.token_found c rest lexeme hfound
      have hpos : 0 < (Scan.token c rest).taken.length := List.length_pos_iff.mpr htaken
      have hcursor := congrArg List.length hrest
      have hnext : view.nextCursor.rest.length ≤ view.cursor.rest.length := by
        rw [nextCursor, Cursor.length_rest_move]
        omega
      refine .inr ⟨tokenAt file view.nextCursor c rest lexeme, _, rfl, rfl, hend, hwell, ?_⟩
      show (view.nextCursor.move _).rest.length < _
      rw [List.length_cons] at hcursor
      rw [Cursor.length_rest_move]
      omega

/-! ## Tokens to come -/

/-- The tokens of at most `bound` advances, and where the input ends or why it is not read on. -/
def remaining : Nat → View → List Token × Except Fault Location
  | 0, view => ([], .ok (view.cursor.location file))
  | bound + 1, view =>
      match view.advance file with
      | (.error fault, _) => ([], .error fault)
      | (.ok place, next) =>
          match next.lookahead.token? with
          | none => ([], .ok place)
          | some token =>
              let (tokens, stop) := remaining bound next
              (token :: tokens, stop)

variable {file} {view next : View}

theorem remaining_of_error {fault : Fault} (bound : Nat)
    (h : view.advance file = (.error fault, next)) :
    view.remaining file (bound + 1) = ([], .error fault) := by
  simp [remaining, h]

theorem remaining_of_ended {place : Location} (bound : Nat)
    (h : view.advance file = (.ok place, next)) (hend : next.lookahead = .ended) :
    view.remaining file (bound + 1) = ([], .ok place) := by
  simp [remaining, h, hend, Lookahead.token?]

theorem remaining_of_ready {place : Location} {token : Token} (bound : Nat)
    (h : view.advance file = (.ok place, next)) (hready : next.lookahead = .ready token) :
    view.remaining file (bound + 1) =
      (token :: (next.remaining file bound).1, (next.remaining file bound).2) := by
  simp [remaining, h, hready, Lookahead.token?]

/-- Every token takes a character, so no more advances than there are characters are of use. -/
theorem remaining_step (bound : Nat) (view : View) (h : view.cursor.rest.length < bound) :
    view.remaining file (bound + 1) = view.remaining file bound := by
  induction bound generalizing view with
  | zero => omega
  | succ bound ih =>
    rcases advance_cases file view with
      ⟨fault, next, hadvance⟩ | ⟨next, hadvance, hend⟩ | ⟨token, next, hadvance, hready, -, -, hlt⟩
    · rw [remaining_of_error _ hadvance, remaining_of_error _ hadvance]
    · rw [remaining_of_ended _ hadvance hend, remaining_of_ended _ hadvance hend]
    · rw [remaining_of_ready _ hadvance hready, remaining_of_ready _ hadvance hready,
        ih next (by omega)]

theorem remaining_enough {n m : Nat} (hn : view.cursor.rest.length < n)
    (hm : view.cursor.rest.length < m) : view.remaining file n = view.remaining file m :=
  Rule.stable_of_step (f := fun n => view.remaining file n)
    (fun k hk => remaining_step k view hk) hn hm

theorem length_remaining_le (bound : Nat) (view : View) :
    (view.remaining file bound).1.length ≤ view.cursor.rest.length := by
  induction bound generalizing view with
  | zero => exact Nat.zero_le _
  | succ bound ih =>
    rcases advance_cases file view with
      ⟨fault, next, hadvance⟩ | ⟨next, hadvance, hend⟩ | ⟨token, next, hadvance, hready, -, -, hlt⟩
    · rw [remaining_of_error _ hadvance]
      exact Nat.zero_le _
    · rw [remaining_of_ended _ hadvance hend]
      exact Nat.zero_le _
    · rw [remaining_of_ready _ hadvance hready]
      have := ih next
      simp only [List.length_cons]
      omega

theorem wellFormed_remaining (bound : Nat) (view : View) :
    ∀ token ∈ (view.remaining file bound).1, token.lexeme.WellFormed := by
  induction bound generalizing view with
  | zero => exact fun _ h => by cases h
  | succ bound ih =>
    rcases advance_cases file view with
      ⟨fault, next, hadvance⟩ | ⟨next, hadvance, hend⟩ |
      ⟨token, next, hadvance, hready, -, hwell, -⟩
    · rw [remaining_of_error _ hadvance]
      intro _ h
      cases h
    · rw [remaining_of_ended _ hadvance hend]
      intro _ h
      cases h
    · rw [remaining_of_ready _ hadvance hready]
      intro found hfound
      rcases List.mem_cons.mp hfound with rfl | hfound
      · exact hwell
      · exact ih next found hfound

/-! ## Tapes of views -/

variable (file view)

/-- What is in front of a view. -/
def front : Tape.Front :=
  match view.lookahead with
  | .unstarted => .unstarted (view.cursor.location file)
  | .ready token => .ready token
  | .ended => .ended (view.cursor.location file)

/-- The tape of what a view has still to offer. -/
def tape : Tape :=
  let remaining := view.remaining file (view.cursor.rest.length + 1)
  ⟨view.front file, remaining.1, remaining.2⟩

variable {view}

theorem lookahead_tape (view : View) : (view.tape file).lookahead = view.lookahead := by
  unfold tape front Tape.lookahead
  cases view.lookahead <;> rfl

theorem location_tape (h : view.lookahead.token? = none) :
    (view.tape file).location = view.cursor.location file := by
  unfold tape front Tape.location
  cases hl : view.lookahead with
  | ready token => simp [hl, Lookahead.token?] at h
  | unstarted => rfl
  | ended => rfl

theorem size_tape_le (view : View) : (view.tape file).size ≤ view.cursor.rest.length + 1 := by
  have hlength : (view.remaining file _).1.length ≤ _ :=
    length_remaining_le (view.cursor.rest.length + 1) view
  have hsize : (view.tape file).size ≤ (view.tape file).coming.length + 1 :=
    (view.tape file).size_le_left
  exact Nat.le_trans hsize (Nat.succ_le_succ hlength)

/-- **An advance of a view is an advance of its tape.** -/
theorem advance_tape (view : View) :
    match view.advance file with
    | (.ok place, next) => (view.tape file).advance = .ok place (next.tape file)
    | (.error fault, _) => (view.tape file).advance = .error fault (view.tape file) := by
  by_cases hend : view.lookahead = .ended
  · have hadvance : view.advance file = (.ok (view.cursor.location file), view) := by
      simp [advance, hend]
    have hfront : (view.tape file).front = .ended (view.cursor.location file) := by
      show view.front file = _
      simp [front, hend]
    rw [hadvance]
    simp [Tape.advance, hfront]
  · have hfront : ∀ place, (view.tape file).front ≠ .ended place := by
      intro place
      show view.front file ≠ _
      unfold front
      cases hl : view.lookahead with
      | ended => exact absurd hl hend
      | unstarted => simp
      | ready token => simp
    rw [Tape.advance_of_ne_ended hfront]
    rcases advance_cases file view with
      ⟨fault, next, hadvance⟩ | ⟨next, hadvance, hnext⟩ | ⟨token, next, hadvance, hready, -, -, hlt⟩
    · rw [hadvance]
      simp [tape, remaining_of_error _ hadvance]
    · have hstay : next.advance file = (.ok (next.cursor.location file), next) := by
        simp [advance, hnext]
      rw [hadvance]
      simp [tape, remaining_of_ended _ hadvance hnext, remaining_of_ended _ hstay hnext, front,
        hnext]
    · rw [hadvance]
      have henough : next.remaining file view.cursor.rest.length =
          next.remaining file (next.cursor.rest.length + 1) :=
        remaining_enough hlt (Nat.lt_succ_self _)
      simp [tape, remaining_of_ready _ hadvance hready, henough, front, hready]

end View

/-! ## Tapes of lexers -/

namespace Lexer

/-- The cursor has as many characters before it and behind it as the text has. -/
def Placed (lexer : Lexer) : Prop :=
  lexer.cursor.pos + lexer.cursor.rest.length = lexer.size

/-- Operations move the cursor over the text of the first lexer, forward or back. -/
theorem Reached.exists_move {root lexer : Lexer} (hroot : root.brackets.Sound)
    (h : Reached root lexer) : ∃ n, lexer.cursor = root.cursor.move n := by
  induction h with
  | root => exact ⟨0, rfl⟩
  | @advance lexer hl ih =>
    obtain ⟨n, hn⟩ := ih
    obtain ⟨m, hm⟩ := View.exists_move_advance lexer.file lexer.view
    rw [(advance_spec (hl.sound hroot).1).1] at hm
    have hcursor : lexer.advanced.cursor = lexer.cursor.move m := hm
    exact ⟨n + m, by rw [hcursor, hn, Cursor.move_move]⟩
  | note _ _ ih => exact ih
  | reset _ _ _ ihm _ => exact ihm

theorem Reached.placed {root lexer : Lexer} (hroot : root.brackets.Sound) (hplaced : root.Placed)
    (h : Reached root lexer) : lexer.Placed := by
  obtain ⟨n, hn⟩ := h.exists_move hroot
  rw [Placed, hn, Cursor.pos_add_length_move, (h.sound hroot).2.size]
  exact hplaced

/-- A lexer is shown by the tape of its view. -/
def showing (root : Lexer) (hroot : root.brackets.Sound) (hplaced : root.Placed) :
    Showing Lexer where
  move := id
  shows lexer tape := Reached root lexer ∧ tape = lexer.view.tape root.file
  follows lexer after := Reached root lexer → lexer.Grows after ∧ Reached root after
  lasting := lasting_reached hroot
  lookahead := by
    rintro lexer _ ⟨-, rfl⟩
    rw [View.lookahead_tape, Lookahead.relocate_id]
    rfl
  location := by
    rintro lexer _ ⟨hreached, rfl⟩ h
    have hlocation : (lexer.view.tape root.file).location = lexer.view.cursor.location root.file :=
      View.location_tape root.file h
    rw [hlocation]
    show _ = lexer.cursor.location lexer.file
    rw [(hreached.sound hroot).2.file]
    rfl
  left := by
    rintro lexer _ ⟨hreached, rfl⟩
    have hsize := View.size_tape_le root.file lexer.view
    have hplaced : lexer.cursor.pos + lexer.cursor.rest.length = lexer.size :=
      hreached.placed hroot hplaced
    have hrest : lexer.view.cursor.rest.length = lexer.cursor.rest.length := rfl
    show _ ≤ lexer.size - lexer.cursor.pos + 1
    omega
  advance := by
    rintro lexer _ ⟨hreached, rfl⟩
    obtain ⟨hsound, hgrows⟩ := hreached.sound hroot
    have htape := View.advance_tape lexer.file lexer.view
    have hreached' := hreached.advance
    rw [(advance_spec hsound).1] at htape
    rw [← hgrows.file]
    show SameResult (MovedFault id) _ id lexer.advance _
    unfold Rule.answer advanced Rule.after at htape
    unfold advanced Rule.after at hreached'
    cases ha : lexer.advance with
    | ok place after =>
      simp only [ha] at htape hreached'
      rw [htape]
      exact ⟨rfl, hreached', rfl⟩
    | error fault after =>
      simp only [ha] at htape
      rw [htape]
      exact (Fault.relocate_id fault).symm
  note := by
    rintro lexer _ event ⟨hreached, rfl⟩
    exact ⟨.note event hreached, rfl⟩
  rewind := by
    rintro marked lexer _ ⟨hreached, rfl⟩ hfollows
    obtain ⟨hgrows, hreached'⟩ := hfollows hreached
    refine ⟨.reset hreached hreached' hgrows, ?_⟩
    show _ = (lexer.reset marked.mark).view.tape root.file
    rw [view_reset (hreached.sound hroot).1 (hreached'.sound hroot).1 hgrows]

/-- The tokens of a lexer, and where or why they end, are those of its view. -/
theorem tokensUpTo_eq (lexer : Lexer) (h : lexer.brackets.Sound) (bound : Nat) :
    match lexer.tokensUpTo bound with
    | (tokens, none, last) =>
        lexer.view.remaining lexer.file bound = (tokens, .ok last.location)
    | (tokens, some fault, _) =>
        lexer.view.remaining lexer.file bound = (tokens, .error fault) := by
  induction bound generalizing lexer with
  | zero => rfl
  | succ bound ih =>
    have hview := advance_view h
    rw [tokensUpTo]
    cases ha : lexer.advance with
    | error fault after =>
      rw [ha] at hview
      exact View.remaining_of_error _ hview.1
    | ok place after =>
      rw [ha] at hview
      obtain ⟨hadvance, hsound, hgrows⟩ := hview
      have ih := ih after hsound
      have hplace : after.file = lexer.file := hgrows.file
      rw [hgrows.file] at ih
      rcases View.advance_cases lexer.file lexer.view with
        ⟨fault, next, hnext⟩ | ⟨next, hnext, hend⟩ | ⟨token, next, hnext, hready, -⟩
      · rw [hadvance] at hnext
        cases hnext
      · rw [hadvance] at hnext
        cases hnext
        have hlook : after.lookahead = .ended := hend
        simp only [hlook, Lookahead.token?]
        rw [View.remaining_of_ended _ hadvance hend, location, hplace]
        rfl
      · rw [hadvance] at hnext
        cases hnext
        have hlook : after.lookahead = .ready token := hready
        simp only [hlook, Lookahead.token?]
        rw [View.remaining_of_ready _ hadvance hready]
        generalize after.tokensUpTo bound = result at ih ⊢
        obtain ⟨tokens, _ | fault, last⟩ := result
        · rw [ih]
        · rw [ih]

end Lexer

/-! ## Sources -/

/-- The tape of a source: its tokens, and the end of the input or the fault behind them. -/
def sourceTape (file source : String) : Tape :=
  (Lexer.ofSource file source).view.tape file

/-- The tape of a source holds the tokens of the source. -/
theorem sourceTape_eq (file source : String) :
    match tokenize file source with
    | (tokens, none, last) =>
        sourceTape file source = ⟨.unstarted ⟨file, 1, 0⟩, tokens, .ok last.location⟩
    | (tokens, some fault, _) =>
        sourceTape file source = ⟨.unstarted ⟨file, 1, 0⟩, tokens, .error fault⟩ := by
  have htokens := Lexer.tokensUpTo_eq (.ofSource file source) Brackets.sound_none
    (Lexer.ofSource file source).left
  unfold tokenize
  dsimp only
  generalize (Lexer.ofSource file source).tokensUpTo _ = result at htokens ⊢
  have htape : sourceTape file source = ⟨.unstarted ⟨file, 1, 0⟩,
      ((Lexer.ofSource file source).view.remaining file (Lexer.ofSource file source).left).1,
      ((Lexer.ofSource file source).view.remaining file (Lexer.ofSource file source).left).2⟩ :=
    rfl
  obtain ⟨tokens, _ | fault, last⟩ := result
  · have htokens : View.remaining file _ _ = _ := htokens
    rw [htape, htokens]
  · have htokens : View.remaining file _ _ = _ := htokens
    rw [htape, htokens]

/-- Every token of a source can be spelled. -/
theorem wellFormed_tokenize (file source : String) :
    ∀ token ∈ (tokenize file source).1, token.lexeme.WellFormed := by
  have htape := sourceTape_eq file source
  have hwell : ∀ token ∈ (sourceTape file source).coming, token.lexeme.WellFormed :=
    View.wellFormed_remaining _ _
  generalize tokenize file source = result at htape
  obtain ⟨tokens, _ | fault, last⟩ := result <;>
  · rw [htape] at hwell
    exact hwell

/-- What comes of a source is what the grammar answers over a lexer at its start. -/
theorem outcome_eq_answer (budget : Nat) (file source : String) :
    (readWithin budget file source).outcome =
      Rule.answer (Grammar.file budget) (Lexer.ofSource file source) := by
  unfold readWithin Rule.answer
  cases Grammar.file budget (Lexer.ofSource file source) <;> rfl

/-- **Reading a source is reading its finished list of tokens**: the same declarations, or the same
fault. -/
theorem outcome_readWithin (budget : Nat) (file source : String) :
    (readWithin budget file source).outcome =
      Rule.answer (Grammar.file budget) (sourceTape file source) := by
  have hroot : (Lexer.ofSource file source).brackets.Sound := Brackets.sound_none
  have hplaced : (Lexer.ofSource file source).Placed := Nat.zero_add _
  let showing := Lexer.showing (.ofSource file source) hroot hplaced
  have hshows : showing.shows (.ofSource file source) (sourceTape file source) := ⟨.root, rfl⟩
  rw [outcome_eq_answer]
  exact Grammar.answer_file_eq showing rfl hshows budget

theorem parse_eq_tape (file source : String) :
    parse file source =
      Rule.answer (Grammar.file nestingBudget) (sourceTape file source) :=
  outcome_readWithin nestingBudget file source

end FrontEnd
