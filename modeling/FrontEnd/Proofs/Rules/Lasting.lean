import FrontEnd.Proofs.Rules.Ends
import FrontEnd.Session

/-!
# What rules do to a feed

A rule changes a feed only by the steps that every feed has: advances, resets to marks that were
taken on the way, and notes in the log. So a relation between a feed and its successors that these
steps keep holds between a feed and what any rule leaves of it, whether the rule answers or stops.

* `Feed.Lasting` — a relation that advances, resets and notes keep.
* `Rule.Keeps` — a rule that begins with a successor of a feed leaves a successor of it.
* `RuleName.keeps_rule` — all rules of the grammar do.
-/

set_option autoImplicit false

namespace FrontEnd

/-! ## Relations that last -/

/-- A relation between a feed and its successors that all steps of feeds keep. A reset goes back to
a mark of an earlier feed, and what it leaves is still a successor of that feed. -/
structure Feed.Lasting {σ : Type} [Feed σ] (rel : σ → σ → Prop) : Prop where
  refl : ∀ feed, rel feed feed
  trans : ∀ {first second third}, rel first second → rel second third → rel first third
  advance : ∀ feed, rel feed (Rule.after (Feed.advance : Rule σ Location) feed)
  note : ∀ event feed, rel feed (Feed.note event feed)
  rewind : ∀ {marked feed}, rel marked feed → rel marked (Feed.reset (Feed.mark marked) feed)

/-- A rule that begins with a successor of `origin` leaves a successor of it. -/
def Rule.Keeps {σ α : Type} (rel : σ → σ → Prop) (origin : σ) (rule : Rule σ α) : Prop :=
  ∀ feed, rel origin feed → rel origin (rule.after feed)

/-- Where rules stop, a relation that lasts holds as well. -/
theorem Feed.Lasting.ending {σ : Type} [Feed σ] {rel : σ → σ → Prop} (lasting : Feed.Lasting rel) :
    Feed.Ending rel fun origin _ left => rel origin left where
  refl := lasting.refl
  trans := lasting.trans
  advance {feed place next} h := by
    have hlast := lasting.advance feed
    rwa [Rule.after_of_ok h] at hlast
  note := lasting.note
  rewind := lasting.rewind
  widen := lasting.trans
  fault {origin feed fault left} hfeed h := by
    have hlast := lasting.advance feed
    rw [Rule.after_of_error h] at hlast
    exact lasting.trans hfeed hlast
  token _ _ _ h := h
  ended h _ _ := h
  unstarted h _ := h
  tooDeep h := h

namespace Rule

variable {σ α β : Type} {rel : σ → σ → Prop} {origin : σ}

theorem keeps_iff_ends {rule : Rule σ α} :
    Keeps rel origin rule ↔ Ends rel (fun origin _ left => rel origin left) origin rule := by
  refine forall₂_congr fun feed _ => ?_
  unfold after
  cases rule feed <;> rfl

theorem Keeps.of_pure (value : α) : Keeps rel origin (pure value : Rule σ α) :=
  fun _ h => h

theorem Keeps.bind {rule : Rule σ α} {next : α → Rule σ β} (h : Keeps rel origin rule)
    (hnext : ∀ value, Keeps rel origin (next value)) : Keeps rel origin (rule >>= next) :=
  keeps_iff_ends.mpr ((keeps_iff_ends.mp h).bind fun value => keeps_iff_ends.mp (hnext value))

theorem Keeps.map {rule : Rule σ α} (h : Keeps rel origin rule) (f : α → β) :
    Keeps rel origin (f <$> rule) :=
  h.bind fun value => .of_pure (f value)

theorem Keeps.bounded [Feed σ] {rule : Nat → Rule σ α}
    (h : ∀ bound, Keeps rel origin (rule bound)) : Keeps rel origin (bounded rule) :=
  fun feed => h _ feed

theorem keeps_peek [Feed σ] : Keeps rel origin (peek : Rule σ (Option Token)) :=
  fun _ h => h

theorem keeps_ahead [Feed σ] (form : Form) : Keeps rel origin (ahead form : Rule σ Bool) :=
  keeps_iff_ends.mpr (ends_ahead form)

variable [Feed σ] (lasting : Feed.Lasting rel)

include lasting

theorem keeps_advance : Keeps rel origin (advance : Rule σ Location) :=
  keeps_iff_ends.mpr (ends_advance lasting.ending)

theorem keeps_note (event : Event) : Keeps rel origin (note event : Rule σ Unit) :=
  keeps_iff_ends.mpr (ends_note lasting.ending event)

theorem keeps_chomp (form : Form) : Keeps rel origin (chomp form : Rule σ Unit) :=
  keeps_iff_ends.mpr (ends_chomp lasting.ending form)

theorem keeps_begin : Keeps rel origin (begin : Rule σ Unit) :=
  keeps_iff_ends.mpr (ends_begin lasting.ending)

theorem keeps_skipSemicolons : Keeps rel origin (skipSemicolons : Rule σ Unit) :=
  keeps_iff_ends.mpr (ends_skipSemicolons lasting.ending)

theorem keeps_many {rule : Rule σ (Option α)} (h : ∀ {origin}, Keeps rel origin rule) :
    Keeps rel origin (many rule) :=
  keeps_iff_ends.mpr (ends_many lasting.ending (keeps_iff_ends.mp h))

end Rule

/-! ## The grammar -/

namespace Grammar

open Rule

variable {σ : Type} [Feed σ] {rel : σ → σ → Prop} {origin : σ} (lasting : Feed.Lasting rel)

include lasting

theorem keeps_groupedPattern {inner : Rule σ (Option Pattern)}
    (hinner : ∀ {origin}, Keeps rel origin inner) (location : Location) :
    Keeps rel origin (groupedPattern inner location) :=
  keeps_iff_ends.mpr (ends_groupedPattern lasting.ending (keeps_iff_ends.mp hinner) location)

theorem keeps_pattern (budget : Nat) : Keeps rel origin (pattern budget) :=
  keeps_iff_ends.mpr (ends_pattern lasting.ending budget)

theorem keeps_identifier : Keeps rel origin (identifier : Rule σ Name) :=
  keeps_iff_ends.mpr (ends_identifier lasting.ending)

section Expressions

variable {inner : Rule σ (Option Expr)} {patterns : Rule σ (Option Pattern)}
  (hinner : ∀ {origin}, Keeps rel origin inner) (hpatterns : ∀ {origin}, Keeps rel origin patterns)

include hinner

theorem keeps_application : Keeps rel origin (application inner) :=
  keeps_iff_ends.mpr (ends_application lasting.ending (keeps_iff_ends.mp hinner))

theorem keeps_bindingRest (location : Location) :
    Keeps rel origin (bindingRest inner location) :=
  keeps_iff_ends.mpr (ends_bindingRest lasting.ending (keeps_iff_ends.mp hinner) location)

theorem keeps_groupedRest (location : Location) :
    Keeps rel origin (groupedRest inner location) :=
  keeps_iff_ends.mpr (ends_groupedRest lasting.ending (keeps_iff_ends.mp hinner) location)

include hpatterns

theorem keeps_matchRest (location : Location) :
    Keeps rel origin (matchRest inner patterns location) :=
  keeps_iff_ends.mpr (ends_matchRest lasting.ending (keeps_iff_ends.mp hinner)
    (keeps_iff_ends.mp hpatterns) fun _ _ _ h => h)

end Expressions

theorem keeps_term (budget : Nat) : Keeps rel origin (term budget) :=
  keeps_iff_ends.mpr (ends_term lasting.ending budget)

theorem keeps_declaration (budget : Nat) :
    Keeps rel origin (declaration budget : Rule σ (Option Decl)) :=
  keeps_iff_ends.mpr (ends_declaration lasting.ending budget)

theorem keeps_declarationsUpTo (budget bound : Nat) :
    Keeps rel origin (declarationsUpTo budget bound : Rule σ (List Decl)) :=
  keeps_iff_ends.mpr (ends_declarationsUpTo lasting.ending budget bound)

theorem keeps_file (budget : Nat) : Keeps rel origin (file budget : Rule σ (List Decl)) :=
  keeps_iff_ends.mpr (ends_file lasting.ending budget)

end Grammar

/-! ## Named rules -/

namespace RuleName

open Rule Grammar

variable {rel : Lexer → Lexer → Prop} (lasting : Feed.Lasting rel) {origin : Lexer}

include lasting

/-- **Every rule leaves a successor of what it began with.** -/
theorem keeps_rule (name : RuleName) : Keeps rel origin name.rule := by
  have hterm : ∀ {origin}, Keeps rel origin (Grammar.term nestingBudget) := keeps_term lasting _
  have hpattern : ∀ {origin}, Keeps rel origin (Grammar.pattern nestingBudget) :=
    keeps_pattern lasting _
  cases name with
  | file => exact (keeps_file lasting _).bind fun _ => .of_pure _
  | declaration => exact (keeps_declaration lasting _).bind fun _ => .of_pure _
  | patterns => exact (keeps_many lasting hpattern).bind fun _ => .of_pure _
  | pattern => exact hpattern.bind fun _ => .of_pure _
  | application => exact (keeps_application lasting hterm).bind fun _ => .of_pure _
  | term => exact hterm.bind fun _ => .of_pure _
  | identifier => exact (keeps_identifier lasting).bind fun _ => .of_pure _
  | bindingRest location =>
    exact (keeps_bindingRest lasting hterm location).bind fun _ => .of_pure _
  | matchRest location =>
    exact (keeps_matchRest lasting hterm hpattern location).bind fun _ => .of_pure _
  | groupedRest location =>
    exact (keeps_groupedRest lasting hterm location).bind fun _ => .of_pure _
  | groupedPattern location =>
    exact (keeps_groupedPattern lasting hpattern location).bind fun _ => .of_pure _

theorem keeps_optional (name : RuleName) : Keeps rel origin name.optional := by
  refine (keeps_rule lasting name).bind fun found => ?_
  cases found <;> exact .of_pure _

end RuleName

end FrontEnd
