import FrontEnd.Token

/-!
# Items of a grammar

An item reads from the front of a list of tokens: it answers what it made of them with the tokens
behind, or it does not match. A choice takes the first item that matches, a repetition takes as many
items as it can, and nothing that matched is taken back.

* `Item.one`, `Item.only` — a single token.
* `Item.many` — as many items as there are.
* `Item.Near`, `Item.NearTaking` — two items match alike on short lists, and take tokens. All ways
  of building items keep this, so a recursion over the length of the list defines an item.
-/

set_option autoImplicit false

namespace FrontEnd

/-- What can be read from the front of a list of tokens. -/
abbrev Item (α : Type) := StateT (List Token) Option α

namespace Item

variable {α β : Type}

/-- A token of which something can be made. -/
def one (make : Token → Option α) : Item α
  | [] => none
  | token :: rest => (make token).map fun value => (value, rest)

/-- A token with a certain lexeme. -/
def only (lexeme : Lexeme) : Item Token :=
  one fun token => if token.lexeme = lexeme then some token else none

/-- As many items as match, at most `bound` of them. -/
def manyUpTo (item : Item α) : Nat → Item (List α)
  | 0 => pure []
  | bound + 1 =>
      (do
        let value ← item
        let values ← manyUpTo item bound
        pure (value :: values)) <|> pure []

/-- As many items as match. Each takes a token, so there are no more than tokens. -/
def many (item : Item α) : Item (List α) :=
  fun tokens => manyUpTo item tokens.length tokens

/-! ## Equations -/

theorem one_of_some {make : Token → Option α} {token : Token} {value : α}
    (h : make token = some value) (rest : List Token) :
    one make (token :: rest) = some (value, rest) := by
  simp [one, h]

theorem one_of_none {make : Token → Option α} {token : Token} (h : make token = none)
    (rest : List Token) : one make (token :: rest) = none := by
  simp [one, h]

theorem only_of_eq {lexeme : Lexeme} {token : Token} (h : token.lexeme = lexeme)
    (rest : List Token) : only lexeme (token :: rest) = some (token, rest) :=
  one_of_some (by simp [h]) rest

theorem only_of_ne {lexeme : Lexeme} {token : Token} (h : token.lexeme ≠ lexeme)
    (rest : List Token) : only lexeme (token :: rest) = none :=
  one_of_none (by simp [h]) rest

theorem bind_apply (item : Item α) (next : α → Item β) (tokens : List Token) :
    (item >>= next) tokens = (item tokens).bind fun result => next result.1 result.2 := by
  cases h : item tokens <;> simp [Bind.bind, StateT.bind, h]

theorem bind_of_some {item : Item α} {next : α → Item β} {tokens rest : List Token} {value : α}
    (h : item tokens = some (value, rest)) : (item >>= next) tokens = next value rest := by
  rw [bind_apply, h]
  rfl

theorem bind_of_none {item : Item α} {next : α → Item β} {tokens : List Token}
    (h : item tokens = none) : (item >>= next) tokens = none := by
  rw [bind_apply, h]
  rfl

theorem bind_eq_some {item : Item α} {next : α → Item β} {tokens rest : List Token} {value : β} :
    (item >>= next) tokens = some (value, rest) ↔
      ∃ first behind, item tokens = some (first, behind) ∧
        next first behind = some (value, rest) := by
  rw [bind_apply]
  cases h : item tokens with
  | none => simp
  | some result =>
    obtain ⟨first, behind⟩ := result
    refine ⟨fun hnext => ⟨first, behind, rfl, hnext⟩, ?_⟩
    rintro ⟨_, _, hitem, hnext⟩
    cases hitem
    exact hnext

theorem map_of_none {item : Item α} {f : α → β} {tokens : List Token} (h : item tokens = none) :
    (f <$> item) tokens = none := by
  simp [Functor.map, StateT.map, h]

theorem map_of_some {item : Item α} {f : α → β} {tokens rest : List Token} {value : α}
    (h : item tokens = some (value, rest)) : (f <$> item) tokens = some (f value, rest) := by
  simp [Functor.map, StateT.map, h]

theorem orElse_apply (item other : Item α) (tokens : List Token) :
    (item <|> other) tokens = (item tokens).or (other tokens) := by
  cases h : item tokens <;>
    simp [HOrElse.hOrElse, OrElse.orElse, Alternative.orElse, StateT.orElse, h]

theorem orElse_of_none {item other : Item α} {tokens : List Token} (h : item tokens = none) :
    (item <|> other) tokens = other tokens := by
  rw [orElse_apply, h, Option.none_or]

theorem orElse_of_some {item other : Item α} {tokens rest : List Token} {value : α}
    (h : item tokens = some (value, rest)) : (item <|> other) tokens = some (value, rest) := by
  rw [orElse_apply, h, Option.some_or]

theorem optional_of_none {item : Item α} {tokens : List Token} (h : item tokens = none) :
    optional item tokens = some (none, tokens) :=
  orElse_of_none (map_of_none h)

theorem optional_of_some {item : Item α} {tokens rest : List Token} {value : α}
    (h : item tokens = some (value, rest)) :
    optional item tokens = some (some value, rest) :=
  orElse_of_some (map_of_some h)

theorem exists_optional (item : Item α) (tokens : List Token) :
    ∃ found rest, optional item tokens = some (found, rest) := by
  cases h : item tokens with
  | none => exact ⟨_, _, optional_of_none h⟩
  | some result => exact ⟨_, _, optional_of_some h⟩

theorem optional_cases {item : Item α} {tokens rest : List Token} {found : Option α}
    (h : optional item tokens = some (found, rest)) :
    (found = none ∧ rest = tokens ∧ item tokens = none) ∨
      ∃ value, found = some value ∧ item tokens = some (value, rest) := by
  cases hitem : item tokens with
  | none =>
    rw [optional_of_none hitem] at h
    cases h
    exact .inl ⟨rfl, rfl, rfl⟩
  | some result =>
    obtain ⟨value, behind⟩ := result
    rw [optional_of_some hitem] at h
    cases h
    exact .inr ⟨value, rfl, rfl⟩

/-! ## Progress -/

/-- An item that takes a token whenever it matches. -/
def Shrinks (item : Item α) : Prop :=
  ∀ tokens value rest, item tokens = some (value, rest) → rest.length < tokens.length

/-- Up to a length two items match alike, and `rel` holds between the length of what the first of
them leaves and the length of what it got. -/
def Alike (rel : Nat → Nat → Prop) (bound : Nat) (item other : Item α) : Prop :=
  ∀ tokens : List Token, tokens.length ≤ bound → item tokens = other tokens ∧
    ∀ value rest, item tokens = some (value, rest) → rel rest.length tokens.length

/-- Up to a length two items match alike and never leave more than they got. -/
def Near (bound : Nat) (item other : Item α) : Prop :=
  Alike (· ≤ ·) bound item other

/-- Up to a length two items match alike and take a token whenever they match. -/
def NearTaking (bound : Nat) (item other : Item α) : Prop :=
  Alike (· < ·) bound item other

variable {bound : Nat}

theorem NearTaking.near {item other : Item α} (h : NearTaking bound item other) :
    Near bound item other :=
  fun tokens hlength =>
    ⟨(h tokens hlength).1,
      fun value rest hitem => Nat.le_of_lt ((h tokens hlength).2 value rest hitem)⟩

theorem Shrinks.of_nearTaking {item : Item α} (h : ∀ bound, NearTaking bound item item) :
    Shrinks item :=
  fun tokens => (h tokens.length tokens (Nat.le_refl _)).2

theorem Near.of_pure (value : α) : Near bound (pure value : Item α) (pure value) := by
  intro tokens _
  refine ⟨rfl, fun found rest h => ?_⟩
  cases h
  exact Nat.le_refl _

theorem one_eq_some {make : Token → Option α} {tokens rest : List Token} {value : α}
    (h : one make tokens = some (value, rest)) :
    ∃ token, tokens = token :: rest ∧ make token = some value := by
  cases tokens with
  | nil => cases h
  | cons token behind =>
    simp only [one, Option.map_eq_some_iff, Prod.mk.injEq] at h
    obtain ⟨found, hmake, rfl, rfl⟩ := h
    exact ⟨token, rfl, hmake⟩

theorem only_eq_some {lexeme : Lexeme} {tokens rest : List Token} {token : Token}
    (h : only lexeme tokens = some (token, rest)) :
    tokens = token :: rest ∧ token.lexeme = lexeme := by
  obtain ⟨found, rfl, hmake⟩ := one_eq_some h
  split at hmake
  · rename_i hlexeme
    cases hmake
    exact ⟨rfl, hlexeme⟩
  · cases hmake

theorem NearTaking.of_one (make : Token → Option α) : NearTaking bound (one make) (one make) := by
  intro tokens _
  refine ⟨rfl, fun value rest h => ?_⟩
  obtain ⟨token, rfl, -⟩ := one_eq_some h
  exact Nat.lt_succ_self _

theorem Near.of_one (make : Token → Option α) : Near bound (one make) (one make) :=
  (NearTaking.of_one make).near

theorem shrinks_one (make : Token → Option α) : Shrinks (one make) :=
  .of_nearTaking fun _ => .of_one make

theorem shrinks_only (lexeme : Lexeme) : Shrinks (only lexeme) :=
  shrinks_one _

theorem Near.bind {item other : Item α} {next next' : α → Item β} (h : Near bound item other)
    (hnext : ∀ value, Near bound (next value) (next' value)) :
    Near bound (item >>= next) (other >>= next') := by
  intro tokens hlength
  obtain ⟨heq, hle⟩ := h tokens hlength
  cases hitem : item tokens with
  | none =>
    rw [bind_of_none hitem, bind_of_none (heq.symm.trans hitem)]
    exact ⟨rfl, fun _ _ h => by cases h⟩
  | some result =>
    obtain ⟨value, rest⟩ := result
    have hrest := hle value rest hitem
    rw [bind_of_some hitem, bind_of_some (heq.symm.trans hitem)]
    obtain ⟨heq', hle'⟩ := hnext value rest (Nat.le_trans hrest hlength)
    exact ⟨heq', fun found behind h => Nat.le_trans (hle' found behind h) hrest⟩

/-- What takes a token before something else takes one altogether. -/
theorem NearTaking.bind_near {item other : Item α} {next next' : α → Item β}
    (h : NearTaking bound item other) (hnext : ∀ value, Near bound (next value) (next' value)) :
    NearTaking bound (item >>= next) (other >>= next') := by
  intro tokens hlength
  refine ⟨(h.near.bind hnext tokens hlength).1, fun found behind hfound => ?_⟩
  obtain ⟨value, rest, hitem, hvalue⟩ := bind_eq_some.mp hfound
  have hlt : rest.length < tokens.length := (h tokens hlength).2 value rest hitem
  have hle : behind.length ≤ rest.length := (hnext value rest (by omega)).2 found behind hvalue
  omega

/-- What takes a token behind something else takes one altogether. -/
theorem Near.bind_taking {item other : Item α} {next next' : α → Item β}
    (h : Near bound item other) (hnext : ∀ value, NearTaking bound (next value) (next' value)) :
    NearTaking bound (item >>= next) (other >>= next') := by
  intro tokens hlength
  refine ⟨(h.bind (fun value => (hnext value).near) tokens hlength).1,
    fun found behind hfound => ?_⟩
  obtain ⟨value, rest, hitem, hvalue⟩ := bind_eq_some.mp hfound
  have hle : rest.length ≤ tokens.length := (h tokens hlength).2 value rest hitem
  have hlt : behind.length < rest.length := (hnext value rest (by omega)).2 found behind hvalue
  omega

theorem Near.map {item other : Item α} (h : Near bound item other) (f : α → β) :
    Near bound (f <$> item) (f <$> other) := by
  intro tokens hlength
  obtain ⟨heq, hle⟩ := h tokens hlength
  cases hitem : item tokens with
  | none =>
    rw [map_of_none hitem, map_of_none (heq.symm.trans hitem)]
    exact ⟨rfl, fun _ _ h => by cases h⟩
  | some result =>
    obtain ⟨value, rest⟩ := result
    rw [map_of_some hitem, map_of_some (heq.symm.trans hitem)]
    refine ⟨rfl, fun found behind h => ?_⟩
    cases h
    exact hle value rest hitem

/-- Behind a token the lists are shorter. -/
theorem NearTaking.one_bind {make : Token → Option α} {next next' : α → Item β}
    (hnext : ∀ value, Near bound (next value) (next' value)) :
    NearTaking (bound + 1) (one make >>= next) (one make >>= next') := by
  intro tokens hlength
  cases hone : one make tokens with
  | none =>
    rw [bind_of_none hone, bind_of_none hone]
    exact ⟨rfl, fun _ _ h => by cases h⟩
  | some result =>
    obtain ⟨value, rest⟩ := result
    have hrest := shrinks_one make tokens value rest hone
    rw [bind_of_some hone, bind_of_some hone]
    obtain ⟨heq, hle⟩ := hnext value rest (by omega)
    exact ⟨heq, fun found behind h => Nat.lt_of_le_of_lt (hle found behind h) hrest⟩

theorem Alike.orElse {rel : Nat → Nat → Prop} {item item' other other' : Item α}
    (h : Alike rel bound item item') (hother : Alike rel bound other other') :
    Alike rel bound (item <|> other) (item' <|> other') := by
  intro tokens hlength
  obtain ⟨heq, hle⟩ := h tokens hlength
  cases hitem : item tokens with
  | none =>
    rw [orElse_of_none hitem, orElse_of_none (heq.symm.trans hitem)]
    exact hother tokens hlength
  | some result =>
    obtain ⟨value, rest⟩ := result
    rw [orElse_of_some hitem, orElse_of_some (heq.symm.trans hitem)]
    refine ⟨rfl, fun found behind h => ?_⟩
    cases h
    exact hle value rest hitem

theorem Near.orElse {item item' other other' : Item α} (h : Near bound item item')
    (hother : Near bound other other') : Near bound (item <|> other) (item' <|> other') :=
  Alike.orElse h hother

theorem NearTaking.orElse {item item' other other' : Item α} (h : NearTaking bound item item')
    (hother : NearTaking bound other other') :
    NearTaking bound (item <|> other) (item' <|> other') :=
  Alike.orElse h hother

theorem Near.optional {item other : Item α} (h : Near bound item other) :
    Near bound (optional item) (optional other) :=
  .orElse (h.map _) (.of_pure _)

theorem Near.manyUpTo {item other : Item α} (h : Near bound item other) (n : Nat) :
    Near bound (manyUpTo item n) (manyUpTo other n) := by
  induction n with
  | zero => exact .of_pure _
  | succ n ih => exact .orElse (.bind h fun _ => .bind ih fun _ => .of_pure _) (.of_pure _)

theorem Near.many {item other : Item α} (h : Near bound item other) :
    Near bound (many item) (many other) :=
  fun tokens hlength => h.manyUpTo tokens.length tokens hlength

/-! ## Repetition -/

variable {item : Item α} {tokens rest : List Token}

theorem manyUpTo_of_none (h : item tokens = none) (n : Nat) :
    manyUpTo item n tokens = some ([], tokens) := by
  cases n with
  | zero => rfl
  | succ n => exact orElse_of_none (bind_of_none h)

theorem exists_manyUpTo (item : Item α) (n : Nat) (tokens : List Token) :
    ∃ values rest, manyUpTo item n tokens = some (values, rest) := by
  induction n generalizing tokens with
  | zero => exact ⟨[], tokens, rfl⟩
  | succ n ih =>
    cases h : item tokens with
    | none => exact ⟨[], tokens, manyUpTo_of_none h _⟩
    | some result =>
      obtain ⟨value, behind⟩ := result
      obtain ⟨values, rest, hrest⟩ := ih behind
      exact ⟨value :: values, rest, orElse_of_some ((bind_of_some h).trans (bind_of_some hrest))⟩

theorem exists_many (item : Item α) (tokens : List Token) :
    ∃ values rest, many item tokens = some (values, rest) :=
  exists_manyUpTo item tokens.length tokens

theorem manyUpTo_of_some {value : α} {behind : List Token} (h : item tokens = some (value, behind))
    (n : Nat) :
    manyUpTo item (n + 1) tokens =
      (manyUpTo item n behind).map fun result => (value :: result.1, result.2) := by
  obtain ⟨values, rest, hrest⟩ := exists_manyUpTo item n behind
  rw [hrest]
  exact orElse_of_some ((bind_of_some h).trans (bind_of_some hrest))

theorem many_of_none (h : item tokens = none) : many item tokens = some ([], tokens) :=
  manyUpTo_of_none h _

variable (hshrinks : Shrinks item)

include hshrinks

theorem manyUpTo_enough {n m : Nat} (hn : tokens.length ≤ n) (hm : tokens.length ≤ m) :
    manyUpTo item n tokens = manyUpTo item m tokens := by
  induction n generalizing tokens m with
  | zero =>
    have hnil : tokens = [] := List.length_eq_zero_iff.mp (by omega)
    have hnone : item tokens = none := by
      cases h : item tokens with
      | none => rfl
      | some result =>
        have := hshrinks tokens result.1 result.2 h
        rw [hnil] at this
        exact absurd this (Nat.not_lt_zero _)
    rw [manyUpTo_of_none hnone, manyUpTo_of_none hnone]
  | succ n ih =>
    cases h : item tokens with
    | none => rw [manyUpTo_of_none h, manyUpTo_of_none h]
    | some result =>
      obtain ⟨value, behind⟩ := result
      have hlt := hshrinks tokens value behind h
      obtain ⟨k, rfl⟩ : ∃ k, m = k + 1 := ⟨m - 1, by omega⟩
      rw [manyUpTo_of_some h, manyUpTo_of_some h, ih (m := k) (by omega) (by omega)]

theorem many_of_some {value : α} {behind : List Token} (h : item tokens = some (value, behind)) :
    many item tokens =
      (many item behind).map fun result => (value :: result.1, result.2) := by
  have hlt := hshrinks tokens value behind h
  obtain ⟨k, hk⟩ : ∃ k, tokens.length = k + 1 := ⟨tokens.length - 1, by omega⟩
  rw [many, hk, manyUpTo_of_some h, many, manyUpTo_enough hshrinks (by omega) (Nat.le_refl _)]

/-- A repetition ends at once, or goes on behind its first item. -/
theorem many_cases {values : List α} (h : many item tokens = some (values, rest)) :
    (values = [] ∧ rest = tokens ∧ item tokens = none) ∨
      ∃ value behind others, values = value :: others ∧ item tokens = some (value, behind) ∧
        many item behind = some (others, rest) := by
  cases hitem : item tokens with
  | none =>
    rw [many_of_none hitem] at h
    cases h
    exact .inl ⟨rfl, rfl, rfl⟩
  | some result =>
    obtain ⟨value, behind⟩ := result
    rw [many_of_some hshrinks hitem, Option.map_eq_some_iff] at h
    obtain ⟨⟨others, rest'⟩, hothers, heq⟩ := h
    cases heq
    exact .inr ⟨value, behind, others, rfl, rfl, hothers⟩

/-- Where a repetition ends its item does not match. -/
theorem many_stops {values : List α} (h : many item tokens = some (values, rest)) :
    item rest = none := by
  induction hlength : tokens.length using Nat.strongRecOn generalizing tokens values with
  | ind length ih =>
    rcases many_cases hshrinks h with ⟨-, rfl, hnone⟩ | ⟨value, behind, others, -, hitem, hmany⟩
    · exact hnone
    · exact ih behind.length (by have := hshrinks _ _ _ hitem; omega) hmany rfl

end Item

end FrontEnd
