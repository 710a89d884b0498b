import FrontEnd.Proofs.Rules.Lasting

/-!
# Progress of rules

A rule with an optional answer decides by the token in front alone. Where it finds nothing it has
only looked, and where it finds something it has read over that token before anything else; whatever
it does then, resets among it, starts behind the token. So a repetition of such a rule goes on for
as long as tokens last, with no need of the bound that it carries.

* `Rule.Progresses` — a rule that finds nothing leaves the feed as it was, and one that finds
  something leaves a successor of the feed behind the token in front.
* `Grammar.progresses_pattern`, `Grammar.progresses_term`, `Grammar.progresses_declaration` — the
  rules of the grammar do, on every feed.
* `Rule.Repeats`, `Rule.repeats_many` — a repetition is the loop without a bound and without a reset
  at its end.
-/

set_option autoImplicit false

namespace FrontEnd

namespace Rule

variable {σ α β : Type}

/-! ## Binding -/

theorem bind_eq_ok {rule : Rule σ α} {next : α → Rule σ β} {feed left : σ} {value : β} :
    (rule >>= next) feed = .ok value left ↔
      ∃ first mid, rule feed = .ok first mid ∧ next first mid = .ok value left := by
  cases h : rule feed with
  | ok first mid =>
    rw [bind_of_ok h]
    refine ⟨fun hnext => ⟨first, mid, rfl, hnext⟩, ?_⟩
    rintro ⟨_, _, hrule, hnext⟩
    cases hrule
    exact hnext
  | error fault mid => simp [bind_of_error h]

/-- What a rule leaves when it answers is a successor of what it began with. -/
theorem Keeps.of_ok {rel : σ → σ → Prop} {rule : Rule σ α} {feed left : σ} {value : α}
    (h : Keeps rel feed rule) (hrefl : rel feed feed) (hok : rule feed = .ok value left) :
    rel feed left := by
  have := h feed hrefl
  rwa [after_of_ok hok] at this

/-- A rule that always finds something if it does not stop. -/
def Finds (rule : Rule σ (Option α)) : Prop :=
  ∀ (feed left : σ) (found : Option α), rule feed = .ok found left → found.isSome

theorem Finds.of_pure (item : α) : Finds (pure (some item) : Rule σ (Option α)) := by
  intro feed left found h
  cases h
  rfl

theorem Finds.bind {rule : Rule σ β} {next : β → Rule σ (Option α)}
    (h : ∀ value, Finds (next value)) : Finds (rule >>= next) := by
  intro feed left found hrule
  obtain ⟨value, mid, -, hnext⟩ := bind_eq_ok.mp hrule
  exact h value mid left found hnext

/-! ## Progress -/

variable [Feed σ] {rel : σ → σ → Prop} {feed : σ}

/-- At a feed, a rule that finds nothing leaves the feed as it was, and one that finds something
leaves a successor of the feed behind the token in front. -/
def ProgressesAt (rel : σ → σ → Prop) (feed : σ) (rule : Rule σ (Option α)) : Prop :=
  ∀ (left : σ) (found : Option α), rule feed = .ok found left →
    match found with
    | none => left = feed
    | some _ => ∃ token place next, Feed.lookahead feed = .ready token ∧
        Feed.advance feed = .ok place next ∧ rel next left

/-- A rule that finds nothing touches nothing, and one that finds something makes progress. -/
def Progresses (rel : σ → σ → Prop) (rule : Rule σ (Option α)) : Prop :=
  ∀ feed, ProgressesAt rel feed rule

theorem ProgressesAt.of_none : ProgressesAt rel feed (pure none : Rule σ (Option α)) := by
  intro left found h
  cases h
  rfl

theorem ProgressesAt.of_fail (location : Location) (cause : Cause) :
    ProgressesAt rel feed (fail location cause : Rule σ (Option α)) := by
  intro left found h
  cases h

/-- What reads over the token in front first, and then always finds something, makes progress. -/
theorem ProgressesAt.of_advance {token : Token} {next : Location → Rule σ (Option α)}
    (hfront : Feed.lookahead feed = .ready token) (hrefl : ∀ feed, rel feed feed)
    (hkeeps : ∀ place {origin}, Keeps rel origin (next place))
    (hfinds : ∀ place, Finds (next place)) : ProgressesAt rel feed (advance >>= next) := by
  intro left found h
  obtain ⟨place, mid, hadvance, hnext⟩ := bind_eq_ok.mp h
  have hsome := hfinds place mid left found hnext
  have hrel := (hkeeps place).of_ok (hrefl mid) hnext
  cases found with
  | none => cases hsome
  | some item => exact ⟨token, place, mid, hfront, hadvance, hrel⟩

/-- A rule that looks at the token in front, finds nothing where there is none, and makes progress
on each token. -/
theorem Progresses.of_peek {next : Option Token → Rule σ (Option α)} (hnone : next none = pure none)
    (hsome : ∀ feed token, Feed.lookahead feed = .ready token →
      ProgressesAt rel feed (next (some token))) : Progresses rel (peek >>= next) := by
  intro feed
  cases hfront : Feed.lookahead feed with
  | ready token =>
    intro left found h
    rw [bind_of_ok (peek_eq feed), hfront] at h
    exact hsome feed token hfront left found h
  | unstarted =>
    intro left found h
    rw [bind_of_ok (peek_eq feed), hfront, show Lookahead.unstarted.token? = none from rfl,
      hnone] at h
    exact ProgressesAt.of_none left found h
  | ended =>
    intro left found h
    rw [bind_of_ok (peek_eq feed), hfront, show Lookahead.ended.token? = none from rfl, hnone] at h
    exact ProgressesAt.of_none left found h

/-! ## Repetition -/

/-- What it comes to when a rule is applied until it finds nothing and then leaves the feed as it
is, with no bound on the number of items and no reset at the end. -/
inductive Repeats (rule : Rule σ (Option α)) : σ → EStateM.Result Fault σ (List α) → Prop
  | stop {feed : σ} : rule feed = .ok none feed → Repeats rule feed (.ok [] feed)
  | item {feed mid left : σ} {first : α} {items : List α} : rule feed = .ok (some first) mid →
      Repeats rule mid (.ok items left) → Repeats rule feed (.ok (first :: items) left)
  | later {feed mid left : σ} {first : α} {fault : Fault} : rule feed = .ok (some first) mid →
      Repeats rule mid (.error fault left) → Repeats rule feed (.error fault left)
  | fault {feed left : σ} {fault : Fault} : rule feed = .error fault left →
      Repeats rule feed (.error fault left)

section Repetition

variable {rule : Rule σ (Option α)} {good : σ → Prop} {weight : σ → Nat}
  (hreset : ∀ feed : σ, Feed.reset (Feed.mark feed) feed = feed)
  (hnone : ∀ {feed left : σ}, good feed → rule feed = .ok none left → left = feed)
  (hsome : ∀ {feed left : σ} {item : α}, good feed → rule feed = .ok (some item) left →
    good left ∧ weight left < weight feed)

include hreset hnone hsome

/-- Where each item takes some of the weight of a feed, a bound above the weight is not reached. -/
theorem repeats_manyUpTo {bound : Nat} (hgood : good feed) (hbound : weight feed < bound) :
    Repeats rule feed (manyUpTo rule bound feed) := by
  induction bound generalizing feed with
  | zero => omega
  | succ bound ih =>
    have hmark : (mark : Rule σ (Feed.Mark σ)) feed = .ok (Feed.mark feed) feed := rfl
    rw [manyUpTo, bind_of_ok hmark]
    cases hrule : rule feed with
    | error fault left =>
      rw [bind_of_error hrule]
      exact .fault hrule
    | ok found left =>
      rw [bind_of_ok hrule]
      cases found with
      | none =>
        cases hnone hgood hrule
        have hback : Feed.reset (Feed.mark feed) feed = feed := hreset feed
        show Repeats rule feed (.ok [] (Feed.reset (Feed.mark feed) feed))
        rw [hback]
        exact .stop hrule
      | some item =>
        obtain ⟨hleft, hlt⟩ := hsome hgood hrule
        have hrest := ih hleft (by omega)
        show Repeats rule feed ((manyUpTo rule bound >>= fun items => pure (item :: items)) left)
        cases hmany : manyUpTo rule bound left with
        | error fault last =>
          rw [hmany] at hrest
          rw [bind_of_error hmany]
          exact .later hrule hrest
        | ok items last =>
          rw [hmany] at hrest
          rw [bind_of_ok hmany]
          exact .item hrule hrest

/-- **A repetition is the loop without a bound and without a reset at its end.** -/
theorem repeats_many (hgood : good feed) (hweight : weight feed ≤ Feed.left feed) :
    Repeats rule feed (many rule feed) :=
  repeats_manyUpTo hreset hnone hsome hgood (Nat.lt_succ_of_le hweight)

end Repetition

end Rule

/-! ## Progress of the grammar -/

namespace Grammar

open Rule

variable {σ : Type} [Feed σ] {rel : σ → σ → Prop} (lasting : Feed.Lasting rel)

theorem progresses_tooDeep {α : Type} : Progresses rel (tooDeep : Rule σ (Option α)) := by
  intro feed left found h
  obtain ⟨_, mid, -, hfail⟩ := bind_eq_ok.mp h
  cases hfail

include lasting

theorem progresses_patternWith {inner : Rule σ (Option Pattern)}
    (hinner : ∀ {origin}, Keeps rel origin inner) : Progresses rel (patternWith inner) := by
  refine .of_peek rfl fun feed token hfront => ?_
  dsimp only
  split
  · exact .of_advance hfront lasting.refl (fun _ => .of_pure _) fun _ => .of_pure _
  · exact .of_advance hfront lasting.refl (fun _ => .of_pure _) fun _ => .of_pure _
  · split
    · exact .of_none
    · refine .of_advance hfront lasting.refl (fun _ => ?_) fun _ => ?_
      · split
        · exact (keeps_many lasting hinner).bind fun _ => .of_pure _
        · exact .of_pure _
      · split
        · exact .bind fun _ => .of_pure _
        · exact .of_pure _
  · refine .of_advance hfront lasting.refl (fun _ => ?_) fun _ => .bind fun _ => .of_pure _
    exact (keeps_groupedPattern lasting hinner _).bind fun _ => .of_pure _
  · exact .of_none

theorem progresses_pattern (budget : Nat) :
    Progresses rel (pattern budget : Rule σ (Option Pattern)) := by
  cases budget with
  | zero => exact progresses_tooDeep
  | succ budget => exact progresses_patternWith lasting (keeps_pattern lasting budget)

theorem progresses_termWith {inner : Rule σ (Option Expr)} {patterns : Rule σ (Option Pattern)}
    (hinner : ∀ {origin}, Keeps rel origin inner)
    (hpatterns : ∀ {origin}, Keeps rel origin patterns) :
    Progresses rel (termWith inner patterns) := by
  refine .of_peek rfl fun feed token hfront => ?_
  dsimp only
  split
  · refine .of_advance hfront lasting.refl (fun _ => ?_) fun _ => .bind fun _ => .of_pure _
    exact (keeps_bindingRest lasting hinner _).bind fun _ => .of_pure _
  · refine .of_advance hfront lasting.refl (fun _ => ?_) fun _ => .bind fun _ => .of_pure _
    exact (keeps_matchRest lasting hinner hpatterns _).bind fun _ => .of_pure _
  · split
    · exact .of_none
    · exact .of_advance hfront lasting.refl (fun _ => .of_pure _) fun _ => .of_pure _
  · exact .of_none
  · exact .of_advance hfront lasting.refl (fun _ => .of_pure _) fun _ => .of_pure _
  · refine .of_advance hfront lasting.refl (fun _ => ?_) fun _ => .bind fun _ => .of_pure _
    exact (keeps_groupedRest lasting hinner _).bind fun _ => .of_pure _
  · exact .of_advance hfront lasting.refl (fun _ => .of_pure _) fun _ => .of_pure _
  · exact .of_advance hfront lasting.refl (fun _ => .of_pure _) fun _ => .of_pure _
  · exact .of_advance hfront lasting.refl (fun _ => .of_pure _) fun _ => .of_pure _
  · exact .of_none
  · exact .of_none
  · exact .of_none
  · exact .of_fail _ _

theorem progresses_term (budget : Nat) : Progresses rel (term budget : Rule σ (Option Expr)) := by
  cases budget with
  | zero => exact progresses_tooDeep
  | succ budget =>
    exact progresses_termWith lasting (keeps_term lasting budget) (keeps_pattern lasting budget)

theorem progresses_declaration (budget : Nat) :
    Progresses rel (declaration budget : Rule σ (Option Decl)) := by
  refine .of_peek rfl fun feed token hfront => ?_
  dsimp only
  split
  · exact .of_none
  · refine .of_advance hfront lasting.refl (fun _ => ?_) fun _ => ?_
    · refine (keeps_many lasting (keeps_pattern lasting budget)).bind fun _ => ?_
      refine (keeps_chomp lasting _).bind fun _ => ?_
      refine (keeps_application lasting (keeps_term lasting budget)).bind fun _ => ?_
      exact (keeps_note lasting _).bind fun _ => .of_pure _
    · exact .bind fun _ => .bind fun _ => .bind fun _ => .bind fun _ => .of_pure _

end Grammar

end FrontEnd
