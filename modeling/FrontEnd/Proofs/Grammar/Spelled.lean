import FrontEnd.Proofs.Grammar.Heads
import FrontEnd.Proofs.Tree.Spelling

/-!
# Matches are spelled by what they take

Whatever an item of the greedy grammar matches, the tokens that it took spell the tree that it made.
So no token is lost, read twice or moved.

* `Item.Spells` — the item takes what spells its value; `Item.Completes` — it does so behind tokens
  that were taken before.
* `Greedy.spells_pattern`, `Greedy.spells_term` — the items that nest in each other.
* `Greedy.spellings_of_file` — a whole file.
-/

set_option autoImplicit false

namespace FrontEnd

open Spelling

/-! ## Items that spell their values -/

namespace Item

variable {α β : Type}

/-- Behind the tokens of `front` an item takes what makes them a spelling of its value. -/
def Completes (front : List Token) (item : Item α) (spelled : α → Language Token) : Prop :=
  ∀ tokens value rest, (∀ token ∈ tokens, token.lexeme.WellFormed) →
    item tokens = some (value, rest) → ∃ used, tokens = used ++ rest ∧ front ++ used ∈ spelled value

/-- An item takes what spells its value. -/
def Spells (item : Item α) (spelled : α → Language Token) : Prop :=
  Completes [] item spelled

variable {front : List Token} {item other : Item α} {spelled : α → Language Token}

theorem Completes.of_pure {value : α} (h : front ∈ spelled value) :
    Completes front (pure value) spelled := by
  intro tokens found rest _ heq
  cases heq
  exact ⟨[], rfl, by rwa [List.append_nil]⟩

theorem Completes.bind {next : α → Item β} {spelled' : β → Language Token}
    (h : Spells item spelled)
    (hnext : ∀ value used, used ∈ spelled value → Completes (front ++ used) (next value) spelled') :
    Completes front (item >>= next) spelled' := by
  intro tokens value rest hwell hbind
  obtain ⟨first, behind, hitem, hvalue⟩ := bind_eq_some.mp hbind
  obtain ⟨used, rfl, hused⟩ := h tokens first behind hwell hitem
  have hbehind : ∀ token ∈ behind, token.lexeme.WellFormed := fun token htoken =>
    hwell token (List.mem_append_right used htoken)
  obtain ⟨taken, rfl, htaken⟩ := hnext first used hused behind value rest hbehind hvalue
  exact ⟨used ++ taken, (List.append_assoc ..).symm, by rwa [← List.append_assoc]⟩

theorem Completes.orElse (h : Completes front item spelled)
    (hother : Completes front other spelled) :
    Completes front (item <|> other) spelled := by
  intro tokens value rest hwell hfound
  cases hitem : item tokens with
  | none =>
    rw [orElse_of_none hitem] at hfound
    exact hother tokens value rest hwell hfound
  | some result =>
    rw [orElse_of_some hitem] at hfound
    cases hfound
    exact h tokens _ _ hwell hitem

theorem Completes.mono {wider : α → Language Token} (h : Completes front item spelled)
    (hle : ∀ value used, used ∈ spelled value → used ∈ wider value) :
    Completes front item wider := by
  intro tokens value rest hwell hfound
  obtain ⟨used, heq, hused⟩ := h tokens value rest hwell hfound
  exact ⟨used, heq, hle _ _ hused⟩

theorem Spells.of_one {make : Token → Option α}
    (h : ∀ token value, token.lexeme.WellFormed → make token = some value →
      [token] ∈ spelled value) : Spells (one make) spelled := by
  intro tokens value rest hwell hone
  obtain ⟨token, rfl, hmake⟩ := one_eq_some hone
  exact ⟨[token], rfl, h token value (hwell token (List.mem_cons_self ..)) hmake⟩

/-- A token by itself, if it has a certain lexeme. -/
def justToken (lexeme : Lexeme) (token : Token) : Language Token :=
  {used : List Token | used = [token] ∧ token.lexeme = lexeme}

theorem spells_only (lexeme : Lexeme) : Spells (only lexeme) (justToken lexeme) := by
  intro tokens token rest _ honly
  obtain ⟨rfl, hlexeme⟩ := only_eq_some honly
  exact ⟨[token], rfl, rfl, hlexeme⟩

/-- What is left out is spelled by nothing. -/
def optionally (spelled : α → Language Token) : Option α → Language Token
  | none => 1
  | some value => spelled value

theorem Spells.optional (h : Spells item spelled) :
    Spells (optional item) (optionally spelled) := by
  intro tokens found rest hwell hfound
  rcases optional_cases hfound with ⟨rfl, rfl, -⟩ | ⟨value, rfl, hitem⟩
  · exact ⟨[], rfl, Language.nil_mem_one⟩
  · exact h tokens value rest hwell hitem

/-- Repeated items are spelled one behind the other. -/
theorem Spells.many (h : Spells item spelled) :
    Spells (many item) fun values => (values.map spelled).prod := by
  have hupTo : ∀ bound, Spells (manyUpTo item bound) fun values => (values.map spelled).prod := by
    intro bound
    induction bound with
    | zero => exact .of_pure Language.nil_mem_one
    | succ bound ih =>
      refine Completes.orElse
        (.bind h fun value used hused => .bind ih fun values taken htaken => ?_)
        (.of_pure Language.nil_mem_one)
      refine .of_pure ?_
      rw [List.map_cons, List.prod_cons]
      exact Language.append_mem_mul hused htaken
  exact fun tokens => hupTo tokens.length tokens

end Item

theorem Token.lexeme_of_name? {token : Token} {word : String} (h : token.name? = some word) :
    token.lexeme = .identifier word := by
  unfold Token.name? at h
  split at h
  · rename_i word hlexeme
    split at h <;> cases h
    exact hlexeme
  · cases h

namespace Greedy

open Item

/-! ## Parts of rules -/

theorem spells_separators : Spells separators fun _ => Spelling.separators := by
  refine (spells_only .semicolon).many.mono fun tokens used hused => ?_
  induction tokens generalizing used with
  | nil =>
    rw [List.map_nil, List.prod_nil, Language.mem_one] at hused
    subst hused
    exact fun token htoken => by cases htoken
  | cons token tokens ih =>
    rw [List.map_cons, List.prod_cons] at hused
    obtain ⟨_, ⟨rfl, hlexeme⟩, behind, hbehind, rfl⟩ := Language.mem_mul.mp hused
    intro next hnext
    rcases List.mem_cons.mp hnext with rfl | hnext
    · exact hlexeme
    · exact ih behind hbehind next hnext

theorem spells_name : Spells name fun name => leaf name.leaf := by
  refine .of_one fun token found _ hmake => ?_
  obtain ⟨text, hname, rfl⟩ := Option.map_eq_some_iff.mp hmake
  exact ⟨token, rfl, .of_placed (Token.lexeme_of_name? hname)⟩

section Lists

variable {α : Type} {item : Item α} {spelled : α → Language Token}

/-- The spellings of what follows the first of some items between commas. -/
def tailSpelled (spelled : α → Language Token) : List α × Bool → Language Token
  | ([], false) => 1
  | (others, _) =>
      ((others.map spelled).map (Spelling.only .comma * ·)).prod * (1 + Spelling.only .comma)

/-- The spellings between the parentheses of a group. A single item without a comma is for
itself. -/
def groupSpelled (spelled : α → Language Token) : List α × Bool → Language Token
  | ([single], false) => spelled single
  | (members, _) => Spelling.listed (members.map spelled)

theorem spells_listedTail (h : Spells item spelled) :
    Spells (listedTail item) (tailSpelled spelled) := by
  have hcomma : Spells (do let _ ← Item.only .comma; item) fun value =>
      Spelling.only .comma * spelled value := by
    refine .bind (spells_only .comma) fun comma _ hcomma => ?_
    obtain ⟨rfl, hlexeme⟩ := hcomma
    intro tokens value rest hwell hitem
    obtain ⟨used, rfl, hused⟩ := h tokens value rest hwell hitem
    exact ⟨used, rfl, Language.append_mem_mul ⟨comma, rfl, .of_fixed hlexeme⟩ hused⟩
  refine .bind hcomma.many fun others used hothers => ?_
  refine .bind (spells_only .comma).optional fun trailing taken htrailing => .of_pure ?_
  have hprod : used ∈ ((others.map spelled).map (Spelling.only .comma * ·)).prod := by
    rwa [List.map_map]
  cases trailing with
  | none =>
    have hnil : taken = [] := htrailing
    subst hnil
    cases others with
    | nil => simpa [tailSpelled] using hprod
    | cons other others => exact Language.append_mem_mul hprod (.inl rfl)
  | some comma =>
    obtain ⟨rfl, hlexeme⟩ := htrailing
    have hend : [comma] ∈ (1 + Spelling.only .comma : Language Token) :=
      .inr ⟨comma, rfl, .of_fixed hlexeme⟩
    cases others with
    | nil => exact Language.append_mem_mul hprod hend
    | cons other others => exact Language.append_mem_mul hprod hend

theorem spells_listed (h : Spells item spelled) : Spells (listed item) (groupSpelled spelled) := by
  refine .bind h fun first used hfirst => .bind (spells_listedTail h) fun found taken hfound => ?_
  obtain ⟨others, sawComma⟩ := found
  refine .of_pure ?_
  show used ++ taken ∈ _
  cases others with
  | nil =>
    cases sawComma with
    | false =>
      have hnil : taken = [] := hfound
      rw [hnil, List.append_nil]
      exact hfirst
    | true =>
      have htaken : taken ∈ (1 * (1 + Spelling.only .comma) : Language Token) := hfound
      show used ++ taken ∈ spelled first * 1 * (1 + Spelling.only .comma)
      rw [mul_assoc]
      exact Language.append_mem_mul hfirst htaken
  | cons other others =>
    show used ++ taken ∈ spelled first * _ * (1 + Spelling.only .comma)
    rw [mul_assoc]
    exact Language.append_mem_mul hfirst hfound

theorem spells_members (h : Spells item spelled) :
    Spells (members item) (groupSpelled spelled) := by
  intro tokens found rest hwell hmembers
  cases hlisted : optional (listed item) tokens with
  | none =>
    rw [members, map_of_none hlisted] at hmembers
    cases hmembers
  | some result =>
    obtain ⟨value, behind⟩ := result
    rw [members, map_of_some hlisted] at hmembers
    cases hmembers
    obtain ⟨used, rfl, hused⟩ := (spells_listed h).optional tokens _ _ hwell hlisted
    refine ⟨used, rfl, ?_⟩
    cases value with
    | none => exact hused
    | some found => exact hused

/-- A group between parentheses. -/
theorem wrapped_of_group {plain : α → Language Token} {make : Location → List α × Bool → α}
    (hsingle : ∀ location value, make location ([value], false) = value)
    (htuple : ∀ location found, (∀ value, found ≠ ([value], false)) →
      plain (make location found) =
        Spelling.tuple location (found.1.map fun value => wrapped (plain value)))
    {opening closing : Token} {used : List Token} {found : List α × Bool}
    (hopening : opening.lexeme = .opening .paren)
    (hused : used ∈ groupSpelled (fun value => wrapped (plain value)) found)
    (hclosing : closing.lexeme = .closing .paren) :
    opening :: used ++ [closing] ∈ wrapped (plain (make opening.location found)) := by
  by_cases h : ∃ value, found = ([value], false)
  · obtain ⟨value, rfl⟩ := h
    rw [hsingle]
    exact .grouped hopening hused hclosing
  · have hlisted : used ∈ Spelling.listed (found.1.map fun value => wrapped (plain value)) := by
      unfold groupSpelled at hused
      split at hused
      · rename_i value
        exact absurd ⟨value, rfl⟩ h
      · exact hused
    refine .bare ?_
    rw [htuple _ _ fun value heq => h ⟨value, heq⟩]
    have hopen : [opening] ∈ leaf (.placed opening.location (.opening .paren)) :=
      ⟨opening, rfl, .of_placed hopening⟩
    exact Language.append_mem_mul (Language.append_mem_mul hopen hlisted)
      ⟨closing, rfl, .of_fixed hclosing⟩

end Lists

/-! ## Patterns -/

theorem spells_plainPattern : Spells (one plainPattern?) fun pattern => wrapped pattern.plain := by
  refine .of_one fun token found hwell hmake => .bare ?_
  unfold plainPattern? at hmake
  split at hmake
  · rename_i value hlexeme
    cases hmake
    exact ⟨token, rfl, .of_placed hlexeme⟩
  · rename_i text hlexeme
    cases hmake
    rw [hlexeme] at hwell
    exact ⟨token, rfl, .of_placed (hlexeme.trans (Lexeme.ofText_unquote hwell).symm)⟩
  · rename_i word hlexeme
    split at hmake <;> cases hmake
    exact ⟨token, rfl, .of_placed hlexeme⟩
  · cases hmake

theorem spells_constructorName : Spells (one constructorName?) fun name => leaf name.leaf := by
  refine .of_one fun token found _ hmake => ?_
  unfold constructorName? at hmake
  split at hmake
  · rename_i word hname
    split at hmake <;> cases hmake
    exact ⟨token, rfl, .of_placed (Token.lexeme_of_name? hname)⟩
  · cases hmake

theorem spells_patternWith {inner : Item Pattern}
    (h : Spells inner fun pattern => wrapped pattern.plain) :
    Spells (patternWith inner) fun pattern => wrapped pattern.plain := by
  refine Completes.orElse spells_plainPattern (Completes.orElse ?_ ?_)
  · refine .bind spells_constructorName fun name used hname =>
      .bind h.many fun arguments taken harguments => .of_pure (.bare ?_)
    rw [← Pattern.spellings_eq_map] at harguments
    exact Language.append_mem_mul hname harguments
  · refine .bind (spells_only _) fun opening _ hopening => .bind (spells_members h)
      fun found used hfound => .bind (spells_only _) fun closing _ hclosing => .of_pure ?_
    obtain ⟨rfl, hopening⟩ := hopening
    obtain ⟨rfl, hclosing⟩ := hclosing
    refine wrapped_of_group (fun _ _ => rfl) (fun location found hne => ?_) hopening hfound hclosing
    rw [← Pattern.spellings_eq_map]
    unfold groupedPattern
    split
    · rename_i single
      exact absurd rfl (hne single)
    · rfl

theorem spells_patternUpTo (depth : Nat) :
    Spells (patternUpTo depth) fun pattern => wrapped pattern.plain := by
  induction depth with
  | zero => exact fun _ _ _ _ hnone => by cases hnone
  | succ depth ih => exact spells_patternWith ih

/-- **A pattern is spelled by the tokens that it is matched with.** -/
theorem spells_pattern : Spells pattern fun pattern => wrapped pattern.plain :=
  fun tokens => spells_patternUpTo tokens.length tokens

/-! ## Terms -/

theorem spells_atom : Spells (one atom?) fun expr => wrapped expr.plain := by
  refine .of_one fun token found hwell hmake => .bare ?_
  unfold atom? at hmake
  split at hmake
  · rename_i word hlexeme
    split at hmake <;> cases hmake
    rw [hlexeme] at hwell
    exact ⟨token, rfl, .of_placed (hlexeme.trans (Lexeme.ofSymbol_identifier hwell).symm)⟩
  · rename_i symbol hlexeme
    split at hmake <;> cases hmake
    rw [hlexeme] at hwell
    exact ⟨token, rfl, .of_placed (hlexeme.trans (Lexeme.ofSymbol_operator hwell).symm)⟩
  · rename_i value hlexeme
    cases hmake
    exact ⟨token, rfl, .of_placed hlexeme⟩
  · rename_i value hlexeme
    cases hmake
    exact ⟨token, rfl, .of_placed hlexeme⟩
  · rename_i text hlexeme
    cases hmake
    rw [hlexeme] at hwell
    exact ⟨token, rfl, .of_placed (hlexeme.trans (Lexeme.ofText_unquote hwell).symm)⟩
  · cases hmake

theorem spells_unit : Spells unit fun expr => wrapped expr.plain := by
  refine .bind (spells_only _) fun opening _ hopening => .bind (spells_only _)
    fun closing _ hclosing => .of_pure (.bare ?_)
  obtain ⟨rfl, hopening⟩ := hopening
  obtain ⟨rfl, hclosing⟩ := hclosing
  have hopen : [opening] ∈ leaf (.placed opening.location (.opening .paren)) :=
    ⟨opening, rfl, .of_placed hopening⟩
  show [opening] ++ [] ++ [closing] ∈ _
  exact Language.append_mem_mul (Language.append_mem_mul hopen Language.nil_mem_one)
    ⟨closing, rfl, .of_fixed hclosing⟩

section Terms

variable {inner : Item Expr} (h : Spells inner fun expr => wrapped expr.plain)

include h

theorem spells_callWith : Spells (callWith inner) fun expr => wrapped expr.plain := by
  refine .bind spells_separators fun _ gap hgap => .bind h fun function used hfunction =>
    .bind h.many fun arguments taken harguments => .of_pure ?_
  show gap ++ used ++ taken ∈ _
  rw [List.append_assoc]
  refine .separated hgap ?_
  cases arguments with
  | nil =>
    have hnil : taken = [] := harguments
    rw [hnil, List.append_nil]
    exact hfunction
  | cons argument arguments =>
    rw [← Expr.spellings_eq_map] at harguments
    exact .bare (Language.append_mem_mul hfunction harguments)

theorem spells_group : Spells (group inner) fun expr => wrapped expr.plain := by
  refine .bind (spells_only _) fun opening _ hopening => .bind (spells_listed (spells_callWith h))
    fun found used hfound => .bind (spells_only _) fun closing _ hclosing => .of_pure ?_
  obtain ⟨rfl, hopening⟩ := hopening
  obtain ⟨rfl, hclosing⟩ := hclosing
  refine wrapped_of_group (fun _ _ => rfl) (fun location found hne => ?_) hopening hfound hclosing
  rw [← Expr.spellings_eq_map]
  unfold groupedExpr
  split
  · rename_i single
    exact absurd rfl (hne single)
  · rfl

theorem spells_binding : Spells (binding inner) fun expr => wrapped expr.plain := by
  have hcall := spells_callWith h
  refine .bind (spells_only _) fun word _ hlet => .bind spells_name fun name _ hname =>
    .bind (spells_only _) fun assign _ hassign => .bind hcall fun value _ hvalue =>
    .bind spells_separators fun _ _ hgap => .bind (spells_only _) fun inWord _ hin =>
    .bind hcall fun body _ hbody => .of_pure (.bare ?_)
  obtain ⟨rfl, hlet⟩ := hlet
  obtain ⟨rfl, hassign⟩ := hassign
  obtain ⟨rfl, hin⟩ := hin
  have hword : [word] ∈ leaf (.placed word.location (.identifier "let")) :=
    ⟨word, rfl, .of_placed hlet⟩
  have hhead := Language.append_mem_mul (Language.append_mem_mul hword hname)
    (show [assign] ∈ Spelling.only .assign from ⟨assign, rfl, .of_fixed hassign⟩)
  exact Language.append_mem_mul (Language.append_mem_mul (Language.append_mem_mul
    (Language.append_mem_mul hhead hvalue) hgap) ⟨inWord, rfl, .of_fixed hin⟩) hbody

theorem spells_armWith : Spells (armWith inner) Arm.plain := by
  refine .bind spells_separators fun _ _ hgap => .bind spells_pattern fun pattern _ hpattern =>
    .bind (spells_only _) fun arrow _ harrow => .bind (spells_callWith h) fun body _ hbody =>
    .of_pure ?_
  obtain ⟨rfl, harrow⟩ := harrow
  exact Language.append_mem_mul (Language.append_mem_mul (Language.append_mem_mul hgap hpattern)
    ⟨arrow, rfl, .of_fixed harrow⟩) hbody

theorem spells_matching : Spells (matching inner) fun expr => wrapped expr.plain := by
  have harm := spells_armWith h
  refine .bind (spells_only _) fun word _ hmatch => .bind (spells_callWith h)
    fun subject _ hsubject => .bind harm fun first used hfirst => .bind harm.many
    fun others taken hothers => .of_pure (.bare ?_)
  obtain ⟨rfl, hmatch⟩ := hmatch
  have hword : [word] ∈ leaf (.placed word.location (.identifier "match")) :=
    ⟨word, rfl, .of_placed hmatch⟩
  have harms : used ++ taken ∈ (Arm.spellings (first :: others)).prod := by
    rw [Arm.spellings_eq_map, List.map_cons, List.prod_cons]
    exact Language.append_mem_mul hfirst hothers
  rw [List.append_assoc]
  exact Language.append_mem_mul (Language.append_mem_mul hword hsubject) harms

theorem spells_termWith : Spells (termWith inner) fun expr => wrapped expr.plain :=
  Completes.orElse spells_atom <| Completes.orElse spells_unit <|
    Completes.orElse (spells_group h) <| Completes.orElse (spells_binding h) (spells_matching h)

end Terms

theorem spells_termUpTo (depth : Nat) : Spells (termUpTo depth) fun expr => wrapped expr.plain := by
  induction depth with
  | zero => exact fun _ _ _ _ hnone => by cases hnone
  | succ depth ih => exact spells_termWith ih

/-- **A term is spelled by the tokens that it is matched with.** -/
theorem spells_term : Spells term fun expr => wrapped expr.plain :=
  fun tokens => spells_termUpTo tokens.length tokens

/-! ## Declarations -/

theorem spells_decl : Spells decl Decl.plain := by
  refine .bind spells_name fun name _ hname => .bind spells_pattern.many
    fun patterns _ hpatterns => .bind (spells_only _) fun assign _ hassign =>
    .bind (spells_callWith spells_term) fun body _ hbody => .of_pure ?_
  obtain ⟨rfl, hassign⟩ := hassign
  rw [← Pattern.spellings_eq_map] at hpatterns
  exact Language.append_mem_mul (Language.append_mem_mul (Language.append_mem_mul hname hpatterns)
    ⟨assign, rfl, .of_fixed hassign⟩) hbody

/-- **The declarations of a file are spelled by all of its tokens.** -/
theorem spellings_of_file {tokens : List Token} {found : List Decl}
    (hwell : ∀ token ∈ tokens, token.lexeme.WellFormed) (h : file tokens = some found) :
    tokens ∈ Decl.spellings found := by
  have hdecls : Spells decls fun found =>
      (found.map fun decl => decl.plain * Spelling.separators).prod :=
    Spells.many (.bind spells_decl fun decl _ hdecl => .bind spells_separators
      fun _ _ hgap => .of_pure (Language.append_mem_mul hdecl hgap))
  have hall : Spells (separators *> decls) Decl.spellings :=
    .bind spells_separators fun _ gap hgap => fun left value rest hleft hvalue => by
      obtain ⟨used, rfl, hused⟩ := hdecls left value rest hleft hvalue
      exact ⟨used, rfl, Language.append_mem_mul hgap hused⟩
  unfold file at h
  split at h
  · rename_i hmatch
    cases h
    obtain ⟨used, rfl, hused⟩ := hall tokens _ [] hwell hmatch
    rw [List.append_nil]
    exact hused
  · cases h

end Greedy

end FrontEnd
