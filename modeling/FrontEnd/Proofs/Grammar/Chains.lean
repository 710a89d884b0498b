import FrontEnd.Proofs.Grammar.Heads
import Mathlib.Logic.Relation

/-!
# Chains of constructs

How deeply the constructs of some tokens nest in each other. A place is inside a construct if a part
of the construct is read there: an argument of a constructor, a member of a group, the value or the
body of a binding, the subject of a match, or the pattern or the body of an arm. Of what stands side
by side there, however much, nothing is inside the other.

What is tried counts like what is read. So a constructor has the place behind its last argument
inside it, and a match has the pattern inside it that is tried behind its last arm, which may be the
head of the next declaration. In what can be parsed, each of these makes a chain longer by at most
one constructor.

* `Inside` — a place that is inside a construct, and in no smaller one.
* `NestsAtMost` — no chain of places, each inside the one before, goes through more constructs of a
  kind than that.
* `nestsAtMost_of_length` — constructs nest no deeper than there are tokens.
-/

set_option autoImplicit false

namespace FrontEnd

open Item Greedy Relation

/-! ## Places -/

/-- What nests. -/
inductive Construct where
  | group
  | binding
  | matching
  | constructor
  deriving DecidableEq, Repr

/-- A place where a pattern or a term is read from the tokens that are there. -/
inductive Spot where
  | pattern (tokens : List Token)
  | term (tokens : List Token)

def Spot.tokens : Spot → List Token
  | .pattern tokens => tokens
  | .term tokens => tokens

/-- An item leads from a place to the place behind it. -/
def Reaches {α : Type} (item : Item α) (tokens rest : List Token) : Prop :=
  ∃ value, item tokens = some (value, rest)

/-- An item leads to the place behind the comma that follows it. -/
def ReachesComma {α : Type} (item : Item α) (tokens rest : List Token) : Prop :=
  ∃ comma, Reaches item tokens (comma :: rest) ∧ comma.lexeme = .comma

/-- A declaration leads to the place behind the separators that follow it. -/
def ReachesDecl (tokens rest : List Token) : Prop :=
  ∃ behind, Reaches decl tokens behind ∧ rest = behind.dropWhile Token.isSeparator

/-- A place of the function or of an argument of a call, or the one behind them. -/
def InCall (tokens inner : List Token) : Prop :=
  ReflTransGen (Reaches term) (tokens.dropWhile Token.isSeparator) inner

/-- A place inside a construct that begins at another place, and in no construct that begins
between them. -/
inductive Inside : Construct → Spot → Spot → Prop
  | argument {token : Token} {name : Name} {rest inner : List Token} :
      constructorName? token = some name → ReflTransGen (Reaches pattern) rest inner →
      Inside .constructor (.pattern (token :: rest)) (.pattern inner)
  | member {token : Token} {rest inner : List Token} :
      token.lexeme = .opening .paren → ReflTransGen (ReachesComma pattern) rest inner →
      Inside .group (.pattern (token :: rest)) (.pattern inner)
  | element {token : Token} {rest left inner : List Token} :
      token.lexeme = .opening .paren → ReflTransGen (ReachesComma call) rest left →
      InCall left inner → Inside .group (.term (token :: rest)) (.term inner)
  | value {token assign : Token} {rest behind inner : List Token} :
      token.lexeme = .identifier "let" → Reaches name rest (assign :: behind) →
      assign.lexeme = .assign → InCall behind inner →
      Inside .binding (.term (token :: rest)) (.term inner)
  | body {token assign inWord : Token} {rest behind left mid inner : List Token} :
      token.lexeme = .identifier "let" → Reaches name rest (assign :: behind) →
      assign.lexeme = .assign → Reaches call behind left →
      left.dropWhile Token.isSeparator = inWord :: mid → inWord.lexeme = .inWord →
      InCall mid inner → Inside .binding (.term (token :: rest)) (.term inner)
  | subject {token : Token} {rest inner : List Token} :
      token.lexeme = .identifier "match" → InCall rest inner →
      Inside .matching (.term (token :: rest)) (.term inner)
  | arm {token : Token} {rest left inner : List Token} :
      token.lexeme = .identifier "match" → Reaches call rest left →
      ReflTransGen (Reaches arm) left inner →
      Inside .matching (.term (token :: rest)) (.pattern (inner.dropWhile Token.isSeparator))
  | answer {token arrow : Token} {rest left mid behind inner : List Token} :
      token.lexeme = .identifier "match" → Reaches call rest left →
      ReflTransGen (Reaches arm) left mid →
      Reaches pattern (mid.dropWhile Token.isSeparator) (arrow :: behind) → arrow.lexeme = .arrow →
      InCall behind inner → Inside .matching (.term (token :: rest)) (.term inner)

/-- A place of a declaration that is inside no construct: one where a pattern or a part of the body
is read. -/
inductive InDecl : List Token → Spot → Prop
  | pattern {token : Token} {word : String} {rest inner : List Token} :
      token.name? = some word → ReflTransGen (Reaches pattern) rest inner →
      InDecl (token :: rest) (.pattern inner)
  | body {token assign : Token} {word : String} {rest behind inner : List Token} :
      token.name? = some word → ReflTransGen (Reaches pattern) rest (assign :: behind) →
      assign.lexeme = .assign → InCall behind inner → InDecl (token :: rest) (.term inner)

/-- A place of a file that is inside no construct. -/
def Outermost (tokens : List Token) (spot : Spot) : Prop :=
  ∃ start, ReflTransGen ReachesDecl (tokens.dropWhile Token.isSeparator) start ∧ InDecl start spot

/-- The constructs on the way from a place into others, each inside the one before. -/
inductive Chain : Spot → List Construct → Prop
  | none {spot : Spot} : Chain spot []
  | inside {construct : Construct} {spot inner : Spot} {chain : List Construct} :
      Inside construct spot inner → Chain inner chain → Chain spot (construct :: chain)

/-- Constructs of one kind nest at most `limit` deep in the declarations of a file, whatever other
constructs are between them. -/
def NestsAtMost (limit : Nat) (tokens : List Token) : Prop :=
  ∀ spot chain, Outermost tokens spot → Chain spot chain →
    ∀ construct : Construct, chain.count construct ≤ limit

/-! ## Lengths of chains -/

/-- All chains from a place are shorter than a bound. -/
def Spot.Within (spot : Spot) (bound : Nat) : Prop :=
  ∀ chain, Chain spot chain → chain.length < bound

theorem Spot.Within.inside {construct : Construct} {spot inner : Spot} {bound : Nat}
    (h : spot.Within (bound + 1)) (hinside : Inside construct spot inner) : inner.Within bound :=
  fun _ hchain => Nat.lt_of_succ_lt_succ (h _ (.inside hinside hchain))

theorem Construct.length_eq_count (chain : List Construct) :
    chain.length = chain.count .group + chain.count .binding + chain.count .matching +
      chain.count .constructor := by
  induction chain with
  | nil => rfl
  | cons construct chain ih =>
    cases construct <;> simp only [List.length_cons, List.count_cons, ih] <;> simp <;> omega

theorem NestsAtMost.within {limit bound : Nat} {tokens : List Token} {spot : Spot}
    (h : NestsAtMost limit tokens) (hbound : 4 * limit < bound) (hspot : Outermost tokens spot) :
    spot.Within bound := by
  intro chain hchain
  have hcount := h spot chain hspot hchain
  have hgroup := hcount .group
  have hbinding := hcount .binding
  have hmatching := hcount .matching
  have hconstructor := hcount .constructor
  rw [Construct.length_eq_count]
  omega

section Lengths

variable {α : Type} {tokens rest : List Token}

theorem Greedy.length_dropWhile_le (tokens : List Token) :
    (tokens.dropWhile Token.isSeparator).length ≤ tokens.length :=
  (List.dropWhile_suffix _).length_le

theorem Reaches.length_lt {item : Item α} (hshrinks : Shrinks item) (h : Reaches item tokens rest) :
    rest.length < tokens.length := by
  obtain ⟨value, hvalue⟩ := h
  exact hshrinks _ _ _ hvalue

theorem ReachesComma.length_lt {item : Item α} (hshrinks : Shrinks item)
    (h : ReachesComma item tokens rest) : rest.length < tokens.length := by
  obtain ⟨comma, htakes, -⟩ := h
  exact Nat.lt_of_succ_lt (htakes.length_lt hshrinks)

theorem ReachesDecl.length_lt (h : ReachesDecl tokens rest) : rest.length < tokens.length := by
  obtain ⟨behind, htakes, rfl⟩ := h
  exact Nat.lt_of_le_of_lt (length_dropWhile_le behind) (htakes.length_lt shrinks_decl)

/-- What leads on leaves no more tokens. -/
theorem length_le_of_leads {rel : List Token → List Token → Prop}
    (hrel : ∀ {tokens rest}, rel tokens rest → rest.length < tokens.length)
    (h : ReflTransGen rel tokens rest) : rest.length ≤ tokens.length := by
  induction h with
  | refl => exact Nat.le_refl _
  | tail _ hstep ih => exact Nat.le_trans (Nat.le_of_lt (hrel hstep)) ih

theorem InCall.length_le (h : InCall tokens rest) : rest.length ≤ tokens.length :=
  Nat.le_trans (length_le_of_leads (Reaches.length_lt shrinks_term) h) (length_dropWhile_le tokens)

/-- Inside a construct there are fewer tokens. -/
theorem Inside.length_lt {construct : Construct} {spot inner : Spot}
    (h : Inside construct spot inner) : inner.tokens.length < spot.tokens.length := by
  cases h with
  | argument _ hleads =>
    exact Nat.lt_succ_of_le (length_le_of_leads (Reaches.length_lt shrinks_pattern) hleads)
  | member _ hleads =>
    exact Nat.lt_succ_of_le (length_le_of_leads (ReachesComma.length_lt shrinks_pattern) hleads)
  | element _ hleads hcall =>
    exact Nat.lt_succ_of_le (Nat.le_trans hcall.length_le
      (length_le_of_leads (ReachesComma.length_lt shrinks_call) hleads))
  | value _ hname _ hcall =>
    have hbehind := hname.length_lt (shrinks_one _)
    have hinner := hcall.length_le
    simp only [Spot.tokens, List.length_cons] at *
    omega
  | @body _ _ _ _ _ left _ _ _ hname _ hvalue hskip _ hcall =>
    have hbehind := hname.length_lt (shrinks_one _)
    have hleft := hvalue.length_lt shrinks_call
    have hmid := length_dropWhile_le left
    rw [hskip] at hmid
    have hinner := hcall.length_le
    simp only [Spot.tokens, List.length_cons] at *
    omega
  | subject _ hcall => exact Nat.lt_succ_of_le hcall.length_le
  | @arm _ _ _ inner _ hsubject hleads =>
    have hleft := hsubject.length_lt shrinks_call
    have hinner := length_le_of_leads (Reaches.length_lt shrinks_arm) hleads
    have hskip := length_dropWhile_le inner
    simp only [Spot.tokens, List.length_cons] at *
    omega
  | @answer _ _ _ _ mid _ _ _ hsubject hleads hpattern _ hcall =>
    have hleft := hsubject.length_lt shrinks_call
    have hmid := length_le_of_leads (Reaches.length_lt shrinks_arm) hleads
    have hskip := length_dropWhile_le mid
    have hbehind := hpattern.length_lt shrinks_pattern
    have hinner := hcall.length_le
    simp only [Spot.tokens, List.length_cons] at *
    omega

/-- A chain takes a token for each of its constructs. -/
theorem Chain.length_le {spot : Spot} {chain : List Construct} (h : Chain spot chain) :
    chain.length ≤ spot.tokens.length := by
  induction h with
  | none => exact Nat.zero_le _
  | inside hinside _ ih => exact Nat.lt_of_le_of_lt ih hinside.length_lt

theorem InDecl.length_le {spot : Spot} (h : InDecl tokens spot) :
    spot.tokens.length ≤ tokens.length := by
  cases h with
  | pattern _ hleads =>
    exact Nat.le_succ_of_le (length_le_of_leads (Reaches.length_lt shrinks_pattern) hleads)
  | body _ hleads _ hcall =>
    have hbehind := length_le_of_leads (Reaches.length_lt shrinks_pattern) hleads
    have hinner := hcall.length_le
    simp only [Spot.tokens, List.length_cons] at *
    omega

theorem Outermost.length_le {spot : Spot} (h : Outermost tokens spot) :
    spot.tokens.length ≤ tokens.length := by
  obtain ⟨start, hdecls, hspot⟩ := h
  exact Nat.le_trans hspot.length_le (Nat.le_trans
    (length_le_of_leads ReachesDecl.length_lt hdecls) (length_dropWhile_le tokens))

/-- **Constructs nest no deeper than there are tokens.** -/
theorem nestsAtMost_of_length {limit : Nat} (h : tokens.length ≤ limit) :
    NestsAtMost limit tokens := fun _ _ hspot hchain _ =>
  Nat.le_trans List.count_le_length
    (Nat.le_trans hchain.length_le (Nat.le_trans hspot.length_le h))

end Lengths

end FrontEnd
