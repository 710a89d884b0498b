import FrontEnd.Proofs.Lexer.Reached

/-!
# Rollback in sessions

Marks of a session may be put back in any order and any number of times, also after commands that
failed. Nothing of this can be seen afterwards: the lexer of a session always looks like a fresh one
after plain advances, and what is read behind a mark is what was first read there.

* `Session.Traced` — the lexer of a session is reached from a first one, and so was the lexer of
  every mark, whose frames are all still there; every command keeps this.
-/

set_option autoImplicit false

namespace FrontEnd

namespace Session

/-- A session after commands, carried out one after the other. -/
def after (session : Session) (commands : List Command) : Session :=
  commands.foldl (fun session command => (session.step command).2) session

/-- The sessions of a run are those after its first commands. -/
theorem exists_after_of_mem_run {session : Session} {commands : List Command}
    {result : Except Fault Answer × Session} (h : result ∈ session.run commands) :
    ∃ first, result.2 = session.after first := by
  induction commands generalizing session with
  | nil => cases h
  | cons command commands ih =>
    rcases List.mem_cons.mp h with h | h
    · exact ⟨[command], by rw [h]; rfl⟩
    · obtain ⟨first, hfirst⟩ := ih h
      exact ⟨command :: first, hfirst⟩

/-! ## Traced sessions -/

/-- All lexers of a session come from `root`: the one it has, and those its marks were taken of. -/
structure Traced (root : Lexer) (session : Session) : Prop where
  lexer : Lexer.Reached root session.lexer
  marks : ∀ mark ∈ session.marks, ∃ marked, Lexer.Reached root marked ∧
    marked.Grows session.lexer ∧ marked.mark = mark

/-- What a command keeps of a session: the frames of its lexer, and its marks. -/
structure Follows (older newer : Session) : Prop where
  lexer : older.lexer.Grows newer.lexer
  marks : ∀ (i : Nat) (mark : Lexer.Mark), older.marks[i]? = some mark →
    newer.marks[i]? = some mark

variable {root : Lexer} {session : Session}

theorem traced_ofSource (file source : String) :
    Traced (.ofSource file source) (ofSource file source) :=
  ⟨.root, fun _ h => by simp [ofSource] at h⟩

/-! ## Commands -/

/-- What most commands do: they leave a successor of the lexer, and the marks as they are. -/
structure Proceeds (older newer : Session) : Prop where
  lexer : ∀ {rel : Lexer → Lexer → Prop}, Feed.Lasting rel → rel older.lexer newer.lexer
  marks : newer.marks = older.marks

theorem keeps_drain {rel : Lexer → Lexer → Prop} (lasting : Feed.Lasting rel) {origin : Lexer} :
    Rule.Keeps rel origin drain := by
  have hupTo : ∀ bound, Rule.Keeps rel origin (drainUpTo bound) := by
    intro bound
    induction bound with
    | zero => exact .of_pure _
    | succ bound ih =>
      refine Rule.keeps_peek.bind fun found => ?_
      cases found with
      | none => exact .of_pure _
      | some token => exact (Rule.keeps_advance lasting).bind fun _ => ih.bind fun _ => .of_pure _
  exact (Rule.keeps_begin lasting).bind fun _ => .bounded fun _ => hupTo _

theorem keeps_prepare {rel : Lexer → Lexer → Prop} (lasting : Feed.Lasting rel) {origin : Lexer}
    (iterator : TokenIterator) : Rule.Keeps rel origin (TokenIterator.prepare iterator) := by
  cases iterator with
  | fresh => exact Rule.keeps_begin lasting
  | running => exact (Rule.keeps_advance lasting).map _
  | finished => exact (Rule.keeps_advance lasting).map _

theorem step_reset_of_none {i : Nat} (h : session.marks[i]? = none) :
    (session.step (.reset i)).2 = session := by
  simp [Session.step, h]

theorem step_reset {i : Nat} {mark : Lexer.Mark} (h : session.marks[i]? = some mark) :
    (session.step (.reset i)).2 = { session with lexer := session.lexer.reset mark } := by
  simp [Session.step, h]

theorem Proceeds.refl (session : Session) : Proceeds session session :=
  ⟨fun lasting => lasting.refl _, rfl⟩

/-- A rule changes the lexer only. -/
theorem proceeds_apply (session : Session) {α : Type} {rule : Rule Lexer α}
    (hrule : ∀ {rel : Lexer → Lexer → Prop}, Feed.Lasting rel →
      ∀ {origin}, Rule.Keeps rel origin rule) (answer : α → Answer) :
    Proceeds session (session.apply rule answer).2 := by
  have hkeeps : ∀ {rel : Lexer → Lexer → Prop}, Feed.Lasting rel →
      rel session.lexer (Rule.after rule session.lexer) :=
    fun lasting => hrule lasting session.lexer (lasting.refl _)
  unfold Session.apply
  cases hr : rule session.lexer with
  | ok value lexer =>
    rw [Rule.after_of_ok hr] at hkeeps
    exact ⟨hkeeps, rfl⟩
  | error fault lexer =>
    rw [Rule.after_of_error hr] at hkeeps
    exact ⟨hkeeps, rfl⟩

/-- An iterator changes the lexer and its own state. -/
theorem proceeds_next (session : Session) (i : Nat) : Proceeds session (session.next i).2 := by
  unfold Session.next
  split
  · exact .refl session
  · exact .refl session
  · rename_i iterator _ _
    have hkeeps : ∀ {rel : Lexer → Lexer → Prop}, Feed.Lasting rel →
        rel session.lexer (Rule.after (TokenIterator.prepare iterator) session.lexer) :=
      fun lasting => keeps_prepare lasting iterator session.lexer (lasting.refl _)
    cases hp : TokenIterator.prepare iterator session.lexer with
    | error fault lexer =>
      rw [Rule.after_of_error hp] at hkeeps
      exact ⟨hkeeps, rfl⟩
    | ok value lexer =>
      rw [Rule.after_of_ok hp] at hkeeps
      dsimp only
      split
      · exact ⟨hkeeps, rfl⟩
      · exact ⟨hkeeps, rfl⟩

/-- **What a command can do to a session**: it takes a mark, goes back to one, or goes on. -/
theorem step_cases (session : Session) (command : Command) :
    (session.step command).2 = { session with marks := session.marks.push session.lexer.mark } ∨
    (∃ mark ∈ session.marks,
      (session.step command).2 = { session with lexer := session.lexer.reset mark }) ∨
    Proceeds session (session.step command).2 := by
  have hstay : Proceeds session session := .refl session
  cases command with
  | mark => exact .inl rfl
  | reset i =>
    cases hm : session.marks[i]? with
    | none =>
      rw [step_reset_of_none hm]
      exact .inr (.inr hstay)
    | some mark =>
      rw [step_reset hm]
      exact .inr (.inl ⟨mark, Array.mem_of_getElem? hm, rfl⟩)
  | peek => exact .inr (.inr (proceeds_apply session (fun _ => Rule.keeps_peek) _))
  | peekMatches form =>
    exact .inr (.inr (proceeds_apply session (fun _ => Rule.keeps_ahead form) _))
  | advance =>
    exact .inr (.inr (proceeds_apply session (fun lasting => Rule.keeps_advance lasting) _))
  | chomp form =>
    exact .inr (.inr (proceeds_apply session (fun lasting => Rule.keeps_chomp lasting form) _))
  | skipSemicolons =>
    exact .inr (.inr (proceeds_apply session (fun lasting => Rule.keeps_skipSemicolons lasting) _))
  | openBrackets => exact .inr (.inr hstay)
  | drain => exact .inr (.inr (proceeds_apply session (fun lasting => keeps_drain lasting) _))
  | location => exact .inr (.inr hstay)
  | iterate => exact .inr (.inr ⟨fun lasting => lasting.refl _, rfl⟩)
  | next i => exact .inr (.inr (proceeds_next session i))
  | run name =>
    exact .inr (.inr (proceeds_apply session (fun lasting => RuleName.keeps_rule lasting name) _))
  | runMany name =>
    have hmany : ∀ {rel : Lexer → Lexer → Prop}, Feed.Lasting rel →
        ∀ {origin}, Rule.Keeps rel origin (Rule.many name.optional) :=
      fun lasting => Rule.keeps_many lasting (RuleName.keeps_optional lasting name)
    exact .inr (.inr (proceeds_apply session hmany _))

/-- A session whose lexer went on and whose marks stayed. -/
theorem Traced.proceed (h : Traced root session) {newer : Session}
    (hreached : Lexer.Reached root newer.lexer) (hgrows : session.lexer.Grows newer.lexer)
    (hmarks : newer.marks = session.marks) : Traced root newer ∧ Follows session newer := by
  refine ⟨⟨hreached, fun mark hm => ?_⟩, hgrows, fun _ _ hm => by rwa [hmarks]⟩
  rw [hmarks] at hm
  obtain ⟨marked, hr, hg, rfl⟩ := h.marks mark hm
  exact ⟨marked, hr, hg.trans hgrows, rfl⟩

section Commands

variable (hroot : root.brackets.Sound)

include hroot

/-- **Every command keeps a session traced**, and keeps its frames and marks. -/
theorem Traced.step (h : Traced root session) (command : Command) :
    Traced root (session.step command).2 ∧ Follows session (session.step command).2 := by
  rcases session.step_cases command with hmark | ⟨mark, hm, hreset⟩ | hproceeds
  · rw [hmark]
    refine ⟨⟨h.lexer, fun mark hm => ?_⟩, .refl _, fun i mark hm => ?_⟩
    · rcases Array.mem_push.mp hm with hm | hm
      · exact h.marks mark hm
      · exact ⟨session.lexer, h.lexer, .refl _, hm.symm⟩
    · have hi : i < session.marks.size := by
        rw [Array.getElem?_eq_some_iff] at hm
        exact hm.1
      rw [← hm]
      exact Array.getElem?_push_lt hi |>.trans (Array.getElem?_eq_getElem hi).symm
  · obtain ⟨marked, hr, hg, rfl⟩ := h.marks mark hm
    rw [hreset]
    exact h.proceed (.reset hr h.lexer hg) (Lexer.Grows.reset (.refl _) _) rfl
  · obtain ⟨hgrows, hreached⟩ := hproceeds.lexer (Lexer.lasting_reached hroot) h.lexer
    exact h.proceed hreached hgrows hproceeds.marks

/-- **A run of commands keeps a session traced**, and keeps its frames and marks. -/
theorem Traced.after (h : Traced root session) (commands : List Command) :
    Traced root (session.after commands) ∧ Follows session (session.after commands) := by
  induction commands generalizing session with
  | nil => exact ⟨h, .refl _, fun _ _ hm => hm⟩
  | cons command commands ih =>
    obtain ⟨htraced, hfollows⟩ := h.step hroot command
    obtain ⟨htraced', hfollows'⟩ := ih htraced
    exact ⟨htraced', hfollows.lexer.trans hfollows'.lexer,
      fun i mark hm => hfollows'.marks i mark (hfollows.marks i mark hm)⟩

end Commands

/-! ## What can be seen of a rollback -/

theorem sound_ofSource (file source : String) :
    (Lexer.ofSource file source).brackets.Sound :=
  Brackets.sound_none

/-- **Rollback cannot be seen.** After any commands, failed ones among them, the lexer of a session
looks like a fresh one after a number of advances, whether or not these failed. And where a mark is
put back, the lexer looks as it did when the mark was taken, and every further pass gives the same
locations, tokens and faults as the pass from there. -/
theorem rollback_unseen (file source : String) :
    (∀ commands, ∀ result ∈ (ofSource file source).run commands,
      ∃ n, result.2.lexer.view = (Lexer.advanced^[n] (Lexer.ofSource file source)).view) ∧
    ∀ before between : List Command,
      let marked := (ofSource file source).after before
      let later := marked.after (.mark :: between)
      let rolled := (later.step (.reset marked.marks.size)).2
      rolled.lexer.view = marked.lexer.view ∧
        ∀ n, Lexer.pass n rolled.lexer = Lexer.pass n marked.lexer := by
  have hroot := sound_ofSource file source
  refine ⟨fun commands result hresult => ?_, fun before between => ?_⟩
  · obtain ⟨first, hfirst⟩ := exists_after_of_mem_run hresult
    rw [hfirst]
    exact ((traced_ofSource file source).after hroot first).1.lexer.exists_view hroot
  · intro marked later rolled
    obtain ⟨htraced, -⟩ := (traced_ofSource file source).after hroot before
    obtain ⟨htraced₁, hfollows₁⟩ := htraced.step hroot .mark
    obtain ⟨htraced₂, hfollows₂⟩ := htraced₁.after hroot between
    -- The mark is still there, and so are all frames that were there when it was taken.
    have hmark : later.marks[marked.marks.size]? = some marked.lexer.mark :=
      hfollows₂.marks _ _ Array.getElem?_push_size
    have hgrows : marked.lexer.Grows later.lexer := hfollows₁.lexer.trans hfollows₂.lexer
    obtain ⟨hsound, hfile⟩ := htraced.lexer.sound hroot
    obtain ⟨hsound₂, hfile₂⟩ := htraced₂.lexer.sound hroot
    have hrolled : rolled.lexer = later.lexer.reset marked.lexer.mark := by
      rw [show rolled = _ from step_reset hmark]
    have hview : rolled.lexer.view = marked.lexer.view := by
      rw [hrolled]
      exact Lexer.view_reset hsound hsound₂ hgrows
    refine ⟨hview, fun n => Lexer.pass_congr n ?_ hsound ?_ hview⟩
    · rw [hrolled]
      exact Lexer.sound_reset hsound hsound₂ hgrows
    · rw [hrolled]
      exact hgrows.file

end Session

end FrontEnd
