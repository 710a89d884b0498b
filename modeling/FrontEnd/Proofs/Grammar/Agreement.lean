import FrontEnd.Proofs.Grammar.Stuck
import FrontEnd.Proofs.Tape.Bounds

/-!
# Rules and items agree

What a rule answers on a tape is what the item of the greedy grammar matches. Where a rule stops,
its nesting was too deep, or the item does not match, or it matches up to a place where the grammar
is stuck.

* `Agrees` — this agreement, for one run of a rule.
* `Greedy.agrees_pattern`, `Greedy.agrees_term` — the rules that nest in each other.
* `Greedy.agrees_file` — a whole file.
-/

set_option autoImplicit false

namespace FrontEnd

/-- What a rule led to is what an item matched. A rule that stopped nested too deeply, or the item
matched at most up to a place that is stuck. -/
def Agrees {α : Type} (stuck : List Token → Prop) (place : Location) :
    EStateM.Result Fault Tape α → Option (α × List Token) → Prop
  | .ok value tape, found => ∃ rest, tape = .running place rest ∧ found = some (value, rest)
  | .error fault _, found =>
      fault.IsTooDeep ∨ ∀ value rest, found = some (value, rest) → stuck rest

namespace Lexeme

/-- But for floats, a lexeme is the expected one if it is equal to it. -/
theorem is_form_iff {lexeme expected : Lexeme} (h : ∀ value, expected ≠ .float value) :
    lexeme.is expected.form = true ↔ lexeme = expected := by
  cases expected with
  | float value => exact absurd rfl (h value)
  | _ => cases lexeme <;> simp [is, form, Form.same, FormValue.same]

end Lexeme

/-! ## Running tapes -/

namespace Rule

variable {α β : Type} {place : Location} {token : Token} {tokens rest : List Token}

theorem advance_running : (advance : Rule Tape Location) (.running place (token :: rest)) =
    .ok (Tape.running place rest).location (.running place rest) := by
  cases rest <;> rfl

theorem peek_running :
    (peek : Rule Tape (Option Token)) (.running place tokens) =
      .ok tokens.head? (.running place tokens) := by
  cases tokens <;> rfl

/-- A tape begins with its first token, or ends at once. -/
theorem begin_unstarted (start : Location) (tokens : List Token) :
    (begin : Rule Tape Unit) ⟨.unstarted start, tokens, .ok place⟩ =
      .ok () (.running place tokens) := by
  cases tokens <;> rfl

theorem ahead_running_cons (form : Form) :
    (ahead form : Rule Tape Bool) (.running place (token :: rest)) =
      .ok (token.lexeme.is form) (.running place (token :: rest)) := rfl

theorem exists_expected (what : String) (tape : Tape) :
    ∃ fault left, (expected what : Rule Tape α) tape = .error fault left := by
  obtain ⟨front, coming, stop⟩ := tape
  cases front <;> exact ⟨_, _, rfl⟩

variable {lexeme : Lexeme} (hlexeme : ∀ value, lexeme ≠ .float value)

include hlexeme

theorem ahead_eq_only (tokens : List Token) :
    (ahead lexeme.form : Rule Tape Bool) (.running place tokens) =
      .ok (Item.only lexeme tokens).isSome (.running place tokens) := by
  cases tokens with
  | nil => rfl
  | cons token rest =>
    rw [ahead_running_cons]
    congr 1
    by_cases h : token.lexeme = lexeme
    · rw [Item.only_of_eq h, (Lexeme.is_form_iff hlexeme).mpr h]
      rfl
    · rw [Item.only_of_ne h]
      exact Bool.eq_false_iff.mpr fun his => h ((Lexeme.is_form_iff hlexeme).mp his)

theorem chomp_of_eq (h : token.lexeme = lexeme) (rest : List Token) :
    (chomp lexeme.form : Rule Tape Unit) (.running place (token :: rest)) =
      .ok () (.running place rest) := by
  have his : token.lexeme.is lexeme.form = true := (Lexeme.is_form_iff hlexeme).mpr h
  show (if token.lexeme.is lexeme.form then discard advance
    else fail _ _ : Rule Tape Unit) (.running place (token :: rest)) = _
  rw [if_pos his]
  cases rest <;> rfl

theorem chomp_of_ne (h : token.lexeme ≠ lexeme) (rest : List Token) :
    (chomp lexeme.form : Rule Tape Unit) (.running place (token :: rest)) =
      .error (.diagnostic ⟨token.location, .unexpected token.lexeme.form (.lexeme lexeme.form),
        .error⟩) (.running place (token :: rest)) := by
  have his : ¬ token.lexeme.is lexeme.form = true :=
    fun his => h ((Lexeme.is_form_iff hlexeme).mp his)
  show (if token.lexeme.is lexeme.form then discard advance
    else fail _ _ : Rule Tape Unit) (.running place (token :: rest)) = _
  rw [if_neg his]
  rfl

theorem chomp_of_none (place : Location) (h : Item.only lexeme tokens = none) :
    ∃ fault left, (chomp lexeme.form : Rule Tape Unit) (.running place tokens) =
      .error fault left := by
  cases tokens with
  | nil => exact ⟨_, _, rfl⟩
  | cons token rest =>
    have hne : token.lexeme ≠ lexeme := by
      intro heq
      rw [Item.only_of_eq heq] at h
      cases h
    exact ⟨_, _, chomp_of_ne hlexeme hne rest⟩

end Rule

namespace Agrees

open Rule Item

variable {α β : Type} {stuck stuck' : List Token → Prop} {place : Location} {tokens : List Token}

theorem of_pure (value : α) :
    Agrees stuck place ((pure value : Rule Tape α) (.running place tokens))
      ((pure value : Item α) tokens) :=
  ⟨tokens, rfl, rfl⟩

theorem of_error {result : EStateM.Result Fault Tape α} {found : Option (α × List Token)}
    (h : ∃ fault left, result = .error fault left)
    (hfound : ∀ value rest, found = some (value, rest) → stuck rest) :
    Agrees stuck place result found := by
  obtain ⟨fault, left, rfl⟩ := h
  exact .inr hfound

theorem of_tooDeep {found : Option (α × List Token)} (tape : Tape) :
    Agrees stuck place ((Grammar.tooDeep : Rule Tape α) tape) found := by
  obtain ⟨front, coming, stop⟩ := tape
  cases front <;> exact .inl rfl

/-- What a rule is followed by agrees, if it does so where the rule leads, and if behind a stuck
place only stuck places are reached. -/
theorem bind {rule : Rule Tape α} {item : Item α} {next : α → Rule Tape β} {next' : α → Item β}
    (h : Agrees stuck place (rule (.running place tokens)) (item tokens))
    (hnext : ∀ value rest, item tokens = some (value, rest) →
      Agrees stuck' place (next value (.running place rest)) (next' value rest))
    (hstuck : ∀ value rest, item tokens = some (value, rest) → stuck rest →
      ∀ value' rest', next' value rest = some (value', rest') → stuck' rest') :
    Agrees stuck' place ((rule >>= next) (.running place tokens)) ((item >>= next') tokens) := by
  cases hr : rule (.running place tokens) with
  | ok value tape =>
    rw [hr] at h
    obtain ⟨rest, rfl, hitem⟩ := h
    rw [bind_of_ok hr, bind_of_some hitem]
    exact hnext value rest hitem
  | error fault tape =>
    rw [hr] at h
    rw [bind_of_error hr]
    refine h.imp id fun hdead value' rest' hfound => ?_
    obtain ⟨value, rest, hitem, hnext'⟩ := bind_eq_some.mp hfound
    exact hstuck value rest hitem (hdead value rest hitem) value' rest' hnext'

theorem mono {result : EStateM.Result Fault Tape α} {found : Option (α × List Token)}
    (h : Agrees stuck place result found) (himp : ∀ rest, stuck rest → stuck' rest) :
    Agrees stuck' place result found := by
  cases result with
  | ok value tape => exact h
  | error fault tape =>
    exact h.imp id fun hdead value rest hfound => himp rest (hdead value rest hfound)

/-- A lexeme that is demanded. -/
theorem chomp_bind {lexeme : Lexeme} (hlexeme : ∀ value, lexeme ≠ .float value)
    {next : Unit → Rule Tape β} {next' : Token → Item β}
    (hnext : ∀ token rest, tokens = token :: rest → token.lexeme = lexeme →
      Agrees stuck place (next () (.running place rest)) (next' token rest)) :
    Agrees stuck place ((chomp lexeme.form >>= next) (.running place tokens))
      ((only lexeme >>= next') tokens) := by
  cases honly : only lexeme tokens with
  | none =>
    obtain ⟨fault, left, hchomp⟩ := chomp_of_none hlexeme place honly
    rw [Rule.bind_of_error hchomp, Item.bind_of_none honly]
    exact .inr fun _ _ h => by cases h
  | some result =>
    obtain ⟨token, rest⟩ := result
    obtain ⟨rfl, heq⟩ := only_eq_some honly
    rw [Rule.bind_of_ok (chomp_of_eq hlexeme heq rest), Item.bind_of_some honly]
    exact hnext token rest rfl heq

end Agrees

/-! ## Repetition -/

namespace Rule

open Item

variable {α β : Type} {place : Location}

theorem skipUpTo_running (bound : Nat) (tokens : List Token) (h : tokens.length ≤ bound) :
    (skipUpTo bound : Rule Tape Unit) (.running place tokens) =
      .ok () (.running place (tokens.dropWhile Token.isSeparator)) := by
  have hlexeme : ∀ value, Lexeme.semicolon ≠ .float value := by simp
  induction bound generalizing tokens with
  | zero =>
    have hnil : tokens = [] := List.length_eq_zero_iff.mp (by omega)
    rw [hnil]
    rfl
  | succ bound ih =>
    rw [skipUpTo, bind_of_ok (ahead_eq_only hlexeme tokens)]
    cases honly : only .semicolon tokens with
    | none =>
      cases tokens with
      | nil => rfl
      | cons token rest =>
        have hne : token.lexeme ≠ .semicolon := by
          intro heq
          rw [only_of_eq heq] at honly
          cases honly
        rw [Greedy.dropWhile_of_ne hne]
        rfl
    | some result =>
      obtain ⟨token, rest⟩ := result
      obtain ⟨rfl, heq⟩ := only_eq_some honly
      have hdrop : (token :: rest).dropWhile Token.isSeparator =
          rest.dropWhile Token.isSeparator := by simp [Token.isSeparator, heq]
      rw [List.length_cons] at h
      rw [hdrop, ← ih rest (by omega)]
      exact bind_of_ok advance_running

theorem skipSemicolons_running (tokens : List Token) :
    (skipSemicolons : Rule Tape Unit) (.running place tokens) =
      .ok () (.running place (tokens.dropWhile Token.isSeparator)) := by
  have hleft := (Tape.running place tokens).size_le_left
  rw [Tape.size_running] at hleft
  exact skipUpTo_running _ tokens hleft

end Rule

namespace Agrees

open Rule Item

variable {α β : Type} {stuck : List Token → Prop} {place : Location} {tokens : List Token}

theorem skip_bind {next : Unit → Rule Tape β} {next' : List Token → Item β}
    (hnext : ∀ gone, Agrees stuck place
      (next () (.running place (tokens.dropWhile Token.isSeparator)))
      (next' gone (tokens.dropWhile Token.isSeparator))) :
    Agrees stuck place ((skipSemicolons >>= next) (.running place tokens))
      ((Greedy.separators >>= next') tokens) := by
  rw [Rule.bind_of_ok (skipSemicolons_running tokens),
    Item.bind_of_some (Greedy.separators_eq tokens)]
  exact hnext _

/-- A bounded rule, whose bound is no less than the number of tokens. -/
theorem of_bounded {rule : Nat → Rule Tape α} {found : Option (α × List Token)}
    (h : ∀ bound, tokens.length ≤ bound →
      Agrees stuck place (rule bound (.running place tokens)) found) :
    Agrees stuck place (bounded rule (.running place tokens)) found := by
  have hleft := (Tape.running place tokens).size_le_left
  rw [Tape.size_running] at hleft
  exact h _ hleft

/-- The rest of an answer is made of what agrees. -/
theorem map {rule : Rule Tape α} {found : Option (α × List Token)} {f : α → β}
    (h : Agrees stuck place (rule (.running place tokens)) found) :
    Agrees stuck place ((rule >>= fun value => pure (f value)) (.running place tokens))
      (found.map fun result => (f result.1, result.2)) := by
  cases hr : rule (.running place tokens) with
  | error fault tape =>
    rw [hr] at h
    rw [Rule.bind_of_error hr]
    refine h.imp id fun hdead value rest hfound => ?_
    obtain ⟨⟨value', rest'⟩, hfound', heq⟩ := Option.map_eq_some_iff.mp hfound
    cases heq
    exact hdead _ _ hfound'
  | ok value tape =>
    rw [hr] at h
    obtain ⟨rest, rfl, rfl⟩ := h
    rw [Rule.bind_of_ok hr]
    exact ⟨rest, rfl, rfl⟩

theorem of_item_none {item : Item α} (h : item tokens = none) :
    Agrees stuck place ((pure none : Rule Tape (Option α)) (.running place tokens))
      (optional item tokens) :=
  ⟨tokens, rfl, optional_of_none h⟩

/-- A single token that is found. -/
theorem of_token {item : Item α} {token : Token} {rest : List Token} {value : α}
    (h : item (token :: rest) = some (value, rest)) :
    Agrees stuck place
      ((advance >>= fun _ => pure (some value) : Rule Tape (Option α))
        (.running place (token :: rest)))
      (optional item (token :: rest)) := by
  rw [Rule.bind_of_ok advance_running, optional_of_some h]
  exact ⟨rest, rfl, rfl⟩

/-- What begins with a token and then goes on with a rule. -/
theorem of_begun {rule : Rule Tape (Option α)} {item : Item α} {token : Token} {rest : List Token}
    (h : Agrees stuck place (rule (.running place rest))
      ((item (token :: rest)).map fun result => (some result.1, result.2)))
    (hstuck : item (token :: rest) = none → stuck (token :: rest)) :
    Agrees stuck place ((advance >>= fun _ => rule) (.running place (token :: rest)))
      (optional item (token :: rest)) := by
  rw [Rule.bind_of_ok advance_running]
  cases hitem : item (token :: rest) with
  | some result =>
    rw [optional_of_some hitem]
    rw [hitem] at h
    exact h
  | none =>
    rw [hitem] at h
    rw [optional_of_none hitem]
    cases hr : rule (.running place rest) with
    | ok value tape =>
      rw [hr] at h
      obtain ⟨behind, -, hnone⟩ := h
      cases hnone
    | error fault tape =>
      rw [hr] at h
      refine h.imp id fun _ found left hfound => ?_
      cases hfound
      exact hstuck hitem

section Many

variable {rule : Rule Tape (Option α)} {item : Item α} (hshrinks : Shrinks item)
  (hstuck : ∀ tokens, stuck tokens → item tokens = none)
  (h : ∀ tokens, Agrees stuck place (rule (.running place tokens)) (optional item tokens))

include hshrinks hstuck h

theorem manyUpTo (bound : Nat) (tokens : List Token) (hlength : tokens.length < bound) :
    Agrees stuck place (Rule.manyUpTo rule bound (.running place tokens)) (many item tokens) := by
  induction bound generalizing tokens with
  | zero => omega
  | succ bound ih =>
    have hrule := h tokens
    rw [Rule.manyUpTo]
    show Agrees stuck place ((rule >>= _) (.running place tokens)) _
    cases hr : rule (.running place tokens) with
    | error fault tape =>
      rw [hr] at hrule
      rw [Rule.bind_of_error hr]
      refine hrule.imp id fun hdead values rest hmany => ?_
      cases hitem : item tokens with
      | none =>
        rw [many_of_none hitem] at hmany
        cases hmany
        exact hdead _ _ (optional_of_none hitem)
      | some result =>
        obtain ⟨value, behind⟩ := result
        have hbehind := hdead _ _ (optional_of_some hitem)
        rw [many_of_some hshrinks hitem, many_of_none (hstuck _ hbehind)] at hmany
        cases hmany
        exact hbehind
    | ok found tape =>
      rw [hr] at hrule
      obtain ⟨rest, rfl, hfound⟩ := hrule
      rw [Rule.bind_of_ok hr]
      rcases optional_cases hfound with ⟨rfl, rfl, hitem⟩ | ⟨value, rfl, hitem⟩
      · rw [many_of_none hitem]
        exact ⟨rest, rfl, rfl⟩
      · have hlt := hshrinks _ _ _ hitem
        have hrest := ih rest (by omega)
        rw [many_of_some hshrinks hitem]
        exact hrest.map

theorem many (tokens : List Token) :
    Agrees stuck place (Rule.many rule (.running place tokens)) (many item tokens) :=
  .of_bounded fun bound hlength =>
    manyUpTo hshrinks hstuck h (bound + 1) tokens (Nat.lt_succ_of_le hlength)

end Many

end Agrees

/-! ## Patterns -/

namespace Greedy

open Rule Item

variable {place : Location} {token : Token} {tokens rest : List Token}

theorem closing_ne_float (bracket : Bracket) :
    ∀ value, Lexeme.closing bracket ≠ .float value := by simp

theorem comma_ne_float : ∀ value, Lexeme.comma ≠ .float value := by simp

/-- No closing parenthesis is in front. -/
def Unclosed (tokens : List Token) : Prop :=
  only (.closing .paren) tokens = none

/-- Where a pattern of a group is given up, the members end where no parenthesis closes. -/
theorem unclosed_of_members {tokens rest : List Token} {found : List Pattern × Bool}
    (hclosing : Unclosed tokens)
    (hdead : ∀ found behind, optional pattern tokens = some (found, behind) → PatternStuck behind)
    (hmembers : members pattern tokens = some (found, rest)) : Unclosed rest := by
  cases hpattern : pattern tokens with
  | none =>
    rw [members_of_none hpattern] at hmembers
    cases hmembers
    exact hclosing
  | some result =>
    obtain ⟨value, behind⟩ := result
    have hstuck := hdead _ _ (optional_of_some hpattern)
    have hcomma : only .comma behind = none := hstuck.only _ (by simp)
    rw [members_of_some hpattern (listedTail_of_none hcomma)] at hmembers
    cases hmembers
    exact hstuck.only _ (by simp)

/-- Where a call behind a comma is given up, the list ends where no parenthesis closes. -/
theorem unclosed_of_listedTail {comma : Token} {tokens rest : List Token}
    {found : List Expr × Bool} (hclosing : Unclosed tokens) (hcomma : comma.lexeme = .comma)
    (hdead : ∀ value behind, call tokens = some (value, behind) → Stuck behind)
    (htail : listedTail call (comma :: tokens) = some (found, rest)) : Unclosed rest := by
  cases hcall : call tokens with
  | none =>
    rw [listedTail_of_comma_none hcomma hcall] at htail
    cases htail
    exact hclosing
  | some result =>
    obtain ⟨value, behind⟩ := result
    have hstuck := hdead _ _ hcall
    rw [listedTail_of_comma_some shrinks_call hcomma hcall,
      listedTail_of_none hstuck.comma] at htail
    cases htail
    exact hstuck.closing

section Patterns

variable {inner : Rule Tape (Option Pattern)}
  (h : ∀ tokens,
    Agrees PatternStuck place (inner (.running place tokens)) (optional pattern tokens))

include h

theorem agrees_patternMembers (bound : Nat) (tokens : List Token)
    (hlength : tokens.length < bound) :
    Agrees Unclosed place (Grammar.patternMembers inner bound (.running place tokens))
      (members pattern tokens) := by
  induction bound generalizing tokens with
  | zero => omega
  | succ bound ih =>
    rw [Grammar.patternMembers, Grammar.parenClose, Grammar.commaForm]
    rw [bind_of_ok (ahead_eq_only (closing_ne_float _) tokens)]
    cases hclosing : only (.closing .paren) tokens with
    | some result =>
      obtain ⟨token, rest⟩ := result
      obtain ⟨rfl, hlexeme⟩ := only_eq_some hclosing
      rw [members_of_none (pattern_of_closing hlexeme)]
      exact ⟨_, rfl, rfl⟩
    | none =>
      show Agrees Unclosed place ((inner >>= _) (.running place tokens)) _
      have hinner := h tokens
      cases hr : inner (.running place tokens) with
      | error fault tape =>
        rw [hr] at hinner
        rw [Rule.bind_of_error hr]
        exact hinner.imp id fun hdead _ _ hmembers => unclosed_of_members hclosing hdead hmembers
      | ok found tape =>
        rw [hr] at hinner
        obtain ⟨rest, rfl, hfound⟩ := hinner
        rw [Rule.bind_of_ok hr]
        rcases optional_cases hfound with ⟨rfl, rfl, hpattern⟩ | ⟨value, rfl, hpattern⟩
        · rw [members_of_none hpattern]
          refine .of_error (exists_expected _ _) fun found rest hmembers => ?_
          cases hmembers
          exact hclosing
        · have hlt := shrinks_pattern _ _ _ hpattern
          dsimp only
          rw [Rule.bind_of_ok (ahead_eq_only comma_ne_float rest)]
          cases hcomma : only .comma rest with
          | none =>
            rw [members_of_some hpattern (listedTail_of_none hcomma)]
            exact ⟨rest, rfl, rfl⟩
          | some result =>
            obtain ⟨comma, behind⟩ := result
            obtain ⟨rfl, hlexeme⟩ := only_eq_some hcomma
            rw [List.length_cons] at hlt
            have hmembers := ih behind (by omega)
            obtain ⟨others, left, htail⟩ := exists_listedTail pattern (comma :: behind)
            rw [members_of_some hpattern htail]
            rw [listedTail_of_comma shrinks_pattern hlexeme] at htail
            show Agrees Unclosed place ((advance >>= _) (.running place (comma :: behind))) _
            rw [Rule.bind_of_ok advance_running]
            cases hm : members pattern behind with
            | none =>
              rw [hm] at htail
              cases htail
            | some result =>
              rw [hm] at htail hmembers
              cases htail
              exact hmembers.map (f := fun found : List Pattern × Bool => (value :: found.1, true))

/-- A group of patterns behind its opening parenthesis. -/
theorem agrees_patternGroup (rest : List Token) (hopening : token.lexeme = .opening .paren) :
    Agrees (fun _ => False) place
      (Grammar.groupedPattern inner token.location (.running place rest))
      (patternGroup pattern (token :: rest)) := by
  rw [patternGroup, Item.bind_of_some (only_of_eq hopening rest)]
  have hmembers := Agrees.of_bounded fun bound hlength =>
    agrees_patternMembers h (bound + 1) rest (Nat.lt_succ_of_le hlength)
  refine hmembers.bind (fun found left _ => ?_) fun found left _ hunclosed => ?_
  · refine .chomp_bind (closing_ne_float _) fun closing behind _ _ => ?_
    obtain ⟨members, sawComma⟩ := found
    rcases members with _ | ⟨first, _ | ⟨second, more⟩⟩
    · exact .of_pure _
    · cases sawComma <;> exact .of_pure _
    · exact .of_pure _
  · rw [Item.bind_of_none hunclosed]
    intro _ _ hfound
    cases hfound

theorem agrees_patternWith (tokens : List Token) :
    Agrees PatternStuck place (Grammar.patternWith inner (.running place tokens))
      (optional pattern tokens) := by
  rw [Grammar.patternWith, Rule.bind_of_ok peek_running]
  cases tokens with
  | nil => exact .of_item_none pattern_nil
  | cons token rest =>
    simp only [List.head?_cons]
    have hother : plainPattern? token = none → constructorName? token = none →
        token.lexeme ≠ .opening .paren → Agrees PatternStuck place
          ((pure none : Rule Tape (Option Pattern)) (.running place (token :: rest)))
          (optional pattern (token :: rest)) :=
      fun hplain hname hopening => .of_item_none (pattern_of_other hplain hname hopening)
    cases hl : token.lexeme with
    | signed value => exact .of_token (pattern_of_plain (by simp [plainPattern?, hl]))
    | quoted text => exact .of_token (pattern_of_plain (by simp [plainPattern?, hl]))
    | identifier word =>
      cases hkeyword : isKeyword word with
      | true =>
        simp only [hkeyword, if_true]
        exact hother (by simp [plainPattern?, hl, hkeyword])
          (by simp [constructorName?, Token.name?, hl, hkeyword]) (by simp [hl])
      | false =>
        simp only [hkeyword, Bool.false_eq_true, if_false]
        cases hc : Grammar.isConstructorName word with
        | false =>
          exact .of_token (pattern_of_plain (by simp [plainPattern?, hl, hkeyword, hc]))
        | true =>
          have hname : constructorName? token = some ⟨word, token.location⟩ := by
            simp [constructorName?, Token.name?, hl, hkeyword, hc]
          have hmany := Agrees.many shrinks_pattern (fun _ hstuck => hstuck.pattern) h rest
          obtain ⟨arguments, behind, hbehind⟩ := exists_many pattern rest
          rw [Rule.bind_of_ok advance_running,
            optional_of_some (pattern_of_constructor hname hbehind)]
          rw [hbehind] at hmany
          exact hmany.map (f := fun arguments =>
            some (Pattern.constructor ⟨word, token.location⟩ arguments))
    | opening bracket =>
      cases bracket with
      | paren =>
        have hgroup := agrees_patternGroup h rest hl
        rw [← pattern_of_opening hl] at hgroup
        exact .of_begun (hgroup.mono fun _ hfalse => hfalse.elim).map
          fun hnone => ⟨⟨token, rest, rfl, hl⟩, hnone⟩
      | _ =>
        exact hother (by simp [plainPattern?, hl]) (by simp [constructorName?, Token.name?, hl])
          (by simp [hl])
    | _ =>
      exact hother (by simp [plainPattern?, hl]) (by simp [constructorName?, Token.name?, hl])
        (by simp [hl])

end Patterns

/-- **What the rule for patterns answers is a pattern of the grammar.** -/
theorem agrees_pattern (budget : Nat) (tokens : List Token) :
    Agrees PatternStuck place (Grammar.pattern budget (.running place tokens))
      (optional pattern tokens) := by
  induction budget generalizing tokens with
  | zero => exact .of_tooDeep _
  | succ budget ih => exact agrees_patternWith ih tokens

/-! ## Terms -/

theorem agrees_identifier (tokens : List Token) :
    Agrees (fun _ => False) place (Grammar.identifier (.running place tokens)) (name tokens) := by
  rw [Grammar.identifier, Rule.bind_of_ok peek_running]
  cases tokens with
  | nil => exact .inr fun _ _ hfound => by cases hfound
  | cons token rest =>
    simp only [List.head?_cons]
    cases hname : token.name? with
    | none =>
      have hnone : name (token :: rest) = none := one_of_none (by simp [hname]) rest
      rw [hnone]
      exact .inr fun _ _ hfound => by cases hfound
    | some word =>
      have hsome : name (token :: rest) = some (⟨word, token.location⟩, rest) :=
        one_of_some (by simp [hname]) rest
      rw [hsome]
      show Agrees _ place ((advance >>= _) (.running place (token :: rest))) _
      rw [Rule.bind_of_ok advance_running]
      exact ⟨rest, rfl, rfl⟩

section Terms

variable {inner : Rule Tape (Option Expr)}
  (h : ∀ tokens, Agrees Stuck place (inner (.running place tokens)) (optional term tokens))

include h

theorem agrees_application (tokens : List Token) :
    Agrees Stuck place (Grammar.application inner (.running place tokens)) (call tokens) := by
  refine .skip_bind fun gone => ?_
  generalize tokens.dropWhile Token.isSeparator = tokens
  have hinner := h tokens
  cases hr : inner (.running place tokens) with
  | error fault tape =>
    rw [hr] at hinner
    rw [Rule.bind_of_error hr]
    refine hinner.imp id fun hdead found rest hcall => ?_
    obtain ⟨function, behind, hterm, hcall⟩ := bind_eq_some.mp hcall
    have hbehind := hdead _ _ (optional_of_some hterm)
    rw [Item.bind_of_some (many_of_none hbehind.term)] at hcall
    cases hcall
    exact hbehind
  | ok found tape =>
    rw [hr] at hinner
    obtain ⟨rest, rfl, hfound⟩ := hinner
    rw [Rule.bind_of_ok hr]
    rcases optional_cases hfound with ⟨rfl, rfl, hterm⟩ | ⟨function, rfl, hterm⟩
    · rw [Item.bind_of_none hterm]
      refine .of_error ?_ fun _ _ hnone => by cases hnone
      cases rest <;> exact ⟨_, _, rfl⟩
    · rw [Item.bind_of_some hterm]
      refine (Agrees.many shrinks_term (fun _ hstuck => hstuck.term) h rest).bind
        (fun arguments behind _ => ?_) fun arguments behind _ hstuck _ _ hpure => ?_
      · cases arguments <;> exact .of_pure _
      · cases hpure
        exact hstuck

theorem agrees_binding (rest : List Token) (hlet : token.lexeme = .identifier "let") :
    Agrees Stuck place (Grammar.bindingRest inner token.location (.running place rest))
      (binding term (token :: rest)) := by
  rw [binding, Item.bind_of_some (only_of_eq hlet rest)]
  refine (agrees_identifier rest).bind (fun name behind _ => ?_) fun _ _ _ hfalse => hfalse.elim
  refine .chomp_bind (by simp [Lexeme.assign]) fun _ behind _ _ => ?_
  refine (agrees_application h behind).bind (fun value behind _ => ?_) fun _ behind _ hstuck => ?_
  · refine .skip_bind fun _ => .chomp_bind (by simp [Lexeme.inWord]) fun _ behind _ _ => ?_
    refine (agrees_application h behind).bind (fun _ _ _ => .of_pure _)
      fun _ _ _ hstuck _ _ hpure => ?_
    cases hpure
    exact hstuck
  · -- No value that ends in a stuck place is followed by the word that is demanded.
    rw [Item.bind_of_some (separators_eq _), Item.bind_of_none hstuck.inWord]
    intro _ _ hfound
    cases hfound

theorem agrees_tupleMembers (bound : Nat) (tokens : List Token) (hlength : tokens.length < bound) :
    Agrees Unclosed place (Grammar.tupleMembers inner bound (.running place tokens))
      (listedTail call tokens) := by
  induction bound generalizing tokens with
  | zero => omega
  | succ bound ih =>
    rw [Grammar.tupleMembers, Grammar.commaForm, Grammar.parenClose]
    rw [Rule.bind_of_ok (ahead_eq_only comma_ne_float tokens)]
    cases hcomma : only .comma tokens with
    | none =>
      rw [listedTail_of_none hcomma]
      exact ⟨tokens, rfl, rfl⟩
    | some result =>
      obtain ⟨comma, rest⟩ := result
      obtain ⟨rfl, hlexeme⟩ := only_eq_some hcomma
      rw [List.length_cons] at hlength
      show Agrees Unclosed place ((advance >>= _) (.running place (comma :: rest))) _
      rw [Rule.bind_of_ok advance_running,
        Rule.bind_of_ok (ahead_eq_only (closing_ne_float _) rest)]
      cases hclosing : only (.closing .paren) rest with
      | some result =>
        obtain ⟨closing, behind⟩ := result
        obtain ⟨rfl, hclosed⟩ := only_eq_some hclosing
        rw [listedTail_of_comma_none hlexeme (call_of_closing hclosed)]
        exact ⟨_, rfl, rfl⟩
      | none =>
        show Agrees Unclosed place ((Grammar.application inner >>= _) (.running place rest)) _
        have hcall := agrees_application h rest
        cases hr : Grammar.application inner (.running place rest) with
        | error fault tape =>
          rw [hr] at hcall
          rw [Rule.bind_of_error hr]
          exact hcall.imp id fun hdead _ _ htail =>
            unclosed_of_listedTail hclosing hlexeme hdead htail
        | ok value tape =>
          rw [hr] at hcall
          obtain ⟨behind, rfl, hc⟩ := hcall
          have hlt := shrinks_call _ _ _ hc
          rw [Rule.bind_of_ok hr, listedTail_of_comma_some shrinks_call hlexeme hc]
          exact (ih behind (by omega)).map
            (f := fun found : List Expr × Bool => (value :: found.1, true))

/-- A group of expressions behind its opening parenthesis. -/
theorem agrees_group (rest : List Token) (hopening : token.lexeme = .opening .paren) :
    Agrees (fun _ => False) place (Grammar.groupedRest inner token.location (.running place rest))
      ((unit <|> group term) (token :: rest)) := by
  rw [Grammar.groupedRest, Grammar.parenClose]
  rw [Rule.bind_of_ok (ahead_eq_only (closing_ne_float _) rest)]
  cases hclosing : only (.closing .paren) rest with
  | some result =>
    obtain ⟨closing, behind⟩ := result
    obtain ⟨rfl, hclosed⟩ := only_eq_some hclosing
    have hunit : unit (token :: closing :: behind) = some (.tuple token.location [], behind) := by
      rw [unit, Item.bind_of_some (only_of_eq hopening _), Item.bind_of_some hclosing]
      rfl
    rw [orElse_of_some hunit]
    show Agrees _ place ((advance >>= _) (.running place (closing :: behind))) _
    rw [Rule.bind_of_ok advance_running]
    exact ⟨behind, rfl, rfl⟩
  | none =>
    have hunit : unit (token :: rest) = none := by
      rw [unit, Item.bind_of_some (only_of_eq hopening _), Item.bind_of_none hclosing]
    rw [orElse_of_none hunit, group, Item.bind_of_some (only_of_eq hopening rest)]
    simp only [listed, bind_assoc, pure_bind]
    refine (agrees_application h rest).bind (fun first left _ => ?_) fun first left _ hstuck => ?_
    · have htail := Agrees.of_bounded fun bound hlength =>
        agrees_tupleMembers h (bound + 1) left (Nat.lt_succ_of_le hlength)
      refine htail.bind (fun found behind hfound => ?_) fun found behind _ hunclosed => ?_
      · refine .chomp_bind (closing_ne_float _) fun _ behind _ _ => ?_
        rcases listedTail_cases shrinks_call hfound with
          ⟨-, rfl, -⟩ | ⟨_, _, -, -, ⟨-, rfl, -⟩ | ⟨_, _, others, -, -, rfl⟩⟩
        · exact .of_pure _
        · exact .of_pure _
        · exact .of_pure _
      · rw [Item.bind_of_none hunclosed]
        intro _ _ hnone
        cases hnone
    · rw [Item.bind_of_some (listedTail_of_none hstuck.comma), Item.bind_of_none hstuck.closing]
      intro _ _ hnone
      cases hnone

section Matching

variable {patterns : Rule Tape (Option Pattern)}
  (hpatterns : ∀ tokens,
    Agrees PatternStuck place (patterns (.running place tokens)) (optional pattern tokens))

include hpatterns

/-- The arms of a match, from where no further term of its subject begins. -/
theorem agrees_armsUpTo (bound : Nat) (tokens : List Token) (hlength : tokens.length < bound)
    (hterm : term tokens = none) :
    Agrees Stuck place (Grammar.armsUpTo inner patterns bound (.running place tokens))
      (many arm tokens) := by
  induction bound generalizing tokens with
  | zero => omega
  | succ bound ih =>
    rw [Grammar.armsUpTo]
    show Agrees Stuck place ((skipSemicolons >>= _) (.running place tokens)) _
    rw [Rule.bind_of_ok (skipSemicolons_running tokens)]
    have hpattern := hpatterns (tokens.dropWhile Token.isSeparator)
    cases hr : patterns (.running place (tokens.dropWhile Token.isSeparator)) with
    | error fault tape =>
      rw [hr] at hpattern
      rw [Rule.bind_of_error hr]
      exact hpattern.imp id fun hdead _ _ harms => stuck_of_arms_pattern hterm harms hdead
    | ok found tape =>
      rw [hr] at hpattern
      obtain ⟨rest, rfl, hfound⟩ := hpattern
      rw [Rule.bind_of_ok hr]
      rcases optional_cases hfound with ⟨rfl, -, hnone⟩ | ⟨value, rfl, hsome⟩
      · rw [many_of_none (arm_of_pattern_none hnone)]
        exact ⟨tokens, rfl, rfl⟩
      · dsimp only
        rw [Rule.bind_of_ok (ahead_eq_only (by simp [Lexeme.arrow]) rest)]
        cases harrow : only .arrow rest with
        | none =>
          have harm : arm tokens = none := by
            rw [arm_of_pattern_some hsome]
            exact Item.bind_of_none harrow
          rw [many_of_none harm]
          exact ⟨tokens, rfl, rfl⟩
        | some result =>
          obtain ⟨arrow, behind⟩ := result
          obtain ⟨rfl, hlexeme⟩ := only_eq_some harrow
          show Agrees Stuck place ((advance >>= _) (.running place (arrow :: behind))) _
          rw [Rule.bind_of_ok advance_running]
          have hcall := agrees_application h behind
          cases hr' : Grammar.application inner (.running place behind) with
          | error fault tape =>
            rw [hr'] at hcall
            rw [Rule.bind_of_error hr']
            exact hcall.imp id fun hdead _ _ harms =>
              stuck_of_arms_call hterm harms hsome hlexeme hdead
          | ok body tape =>
            rw [hr'] at hcall
            obtain ⟨left, rfl, hc⟩ := hcall
            have harm := arm_of_call_some hsome hlexeme hc
            have hlt := shrinks_arm _ _ _ harm
            rw [Rule.bind_of_ok hr', many_of_some shrinks_arm harm]
            exact (ih left (by omega) (call_stops hc)).map

theorem agrees_matching (rest : List Token) (hmatch : token.lexeme = .identifier "match") :
    Agrees Stuck place (Grammar.matchRest inner patterns token.location (.running place rest))
      (matching term (token :: rest)) := by
  rw [matching, Item.bind_of_some (only_of_eq hmatch rest)]
  refine (agrees_application h rest).bind (fun subject tokens hsubject => ?_)
    fun subject tokens _ hstuck => ?_
  · have harms := Agrees.of_bounded fun bound hlength =>
      agrees_armsUpTo h hpatterns (bound + 1) tokens (Nat.lt_succ_of_le hlength)
        (call_stops hsubject)
    obtain ⟨arms, left, hmany⟩ := exists_many arm tokens
    -- The first arm is demanded: a match without arms is a fault, and no match.
    have hfirst : (armWith term >>= fun first => many (armWith term) >>= fun others =>
        pure (.matching token.location subject (first :: others)) : Item Expr) tokens =
          if arms = [] then none else some (.matching token.location subject arms, left) := by
      rcases many_cases shrinks_arm hmany with
        ⟨rfl, -, hnone⟩ | ⟨first, behind, others, rfl, hsome, hothers⟩
      · exact Item.bind_of_none hnone
      · exact (Item.bind_of_some hsome).trans (Item.bind_of_some hothers)
    rw [hfirst]
    rw [hmany] at harms
    cases hr : bounded (fun left => Grammar.armsUpTo inner patterns (left + 1))
        (.running place tokens) with
    | error fault tape =>
      rw [hr] at harms
      rw [Rule.bind_of_error hr]
      refine harms.imp id fun hdead found behind hfound => ?_
      split at hfound
      · cases hfound
      · cases hfound
        exact hdead _ _ rfl
    | ok found tape =>
      rw [hr] at harms
      obtain ⟨behind, rfl, heq⟩ := harms
      cases heq
      rw [Rule.bind_of_ok hr]
      cases arms with
      | nil => exact .of_error ⟨_, _, rfl⟩ fun _ _ hnone => by cases hnone
      | cons arm arms => exact ⟨left, rfl, rfl⟩
  · have harm : armWith term tokens = none := hstuck.arm
    rw [Item.bind_of_none harm]
    intro _ _ hnone
    cases hnone

theorem agrees_termWith (tokens : List Token) :
    Agrees Stuck place (Grammar.termWith inner patterns (.running place tokens))
      (optional term tokens) := by
  rw [Grammar.termWith, Rule.bind_of_ok peek_running]
  cases tokens with
  | nil => exact .of_item_none term_nil
  | cons token rest =>
    simp only [List.head?_cons]
    let Matches (rule : Rule Tape (Option Expr)) : Prop :=
      Agrees Stuck place (rule (.running place (token :: rest))) (optional term (token :: rest))
    have hkeyword : ∀ word, token.lexeme = .identifier word → isKeyword word = true →
        atom? token = none ∧ token.name? = none := by
      intro word hlexeme hkeyword
      simp [atom?, Token.name?, hlexeme, hkeyword]
    show Matches _
    split
    · rename_i hl
      obtain ⟨-, hname⟩ := hkeyword _ hl (by decide)
      have hbinding := agrees_binding h rest hl
      rw [← term_of_let hl] at hbinding
      exact .of_begun hbinding.map fun hnone => stuck_of_head hnone hname (by simp [hl])
        (by simp [hl]) (by simp [hl]) (by simp [hl, Lexeme.inWord])
    · rename_i hl
      obtain ⟨-, hname⟩ := hkeyword _ hl (by decide)
      have hmatching := agrees_matching h hpatterns rest hl
      rw [← term_of_match hl] at hmatching
      exact .of_begun hmatching.map fun hnone => stuck_of_head hnone hname (by simp [hl])
        (by simp [hl]) (by simp [hl]) (by simp [hl, Lexeme.inWord])
    · rename_i word hlet hmatch hl
      split
      · rename_i hword
        exact .of_item_none (term_of_other (hkeyword word hl hword).1 (by simp [hl])
          (fun heq => hlet (by simpa [hl] using heq))
          (fun heq => hmatch (by simpa [hl] using heq)))
      · rename_i hword
        exact .of_token (term_of_atom (by simp [atom?, hl, hword]))
    · rename_i hl
      exact .of_item_none (term_of_other (by simp [atom?, hl]) (by simp [hl]) (by simp [hl])
        (by simp [hl]))
    · rename_i symbol hne hl
      have hsymbol : symbol ≠ "=" := hne
      exact .of_token (term_of_atom (by simp [atom?, hl, hsymbol]))
    · rename_i hl
      have hgroup := agrees_group h rest hl
      rw [← term_of_opening hl] at hgroup
      have hname : token.name? = none := by simp [Token.name?, hl]
      exact .of_begun (hgroup.mono fun _ hfalse => hfalse.elim).map fun hnone =>
        stuck_of_head hnone hname (by simp [hl]) (by simp [hl]) (by simp [hl])
          (by simp [hl, Lexeme.inWord])
    · rename_i hl
      exact .of_token (term_of_atom (by simp [atom?, hl]))
    · rename_i hl
      exact .of_token (term_of_atom (by simp [atom?, hl]))
    · rename_i hl
      exact .of_token (term_of_atom (by simp [atom?, hl]))
    · rename_i hl
      exact .of_item_none (term_of_other (by simp [atom?, hl]) (by simp [hl]) (by simp [hl])
        (by simp [hl]))
    · rename_i hl
      exact .of_item_none (term_of_closing hl)
    · rename_i hl
      exact .of_item_none (term_of_comma hl)
    · rename_i hlet hmatch hidentifier _ hoperator hopening hquoted hsigned hfloat hsemicolon
        hclosing hcomma
      have hatom : atom? token = none :=
        atom?_eq_none hidentifier hoperator hsigned hfloat hquoted
      have hname : token.name? = none := name?_eq_none hidentifier
      have hterm : term (token :: rest) = none := term_of_other hatom hopening hlet hmatch
      refine .of_error ⟨_, _, rfl⟩ fun found behind hfound => ?_
      rw [optional_of_none hterm] at hfound
      cases hfound
      exact stuck_of_head hterm hname hsemicolon hcomma hclosing (hidentifier _)

end Matching

end Terms

/-- **What the rule for terms answers is a term of the grammar.** -/
theorem agrees_term (budget : Nat) (tokens : List Token) :
    Agrees Stuck place (Grammar.term budget (.running place tokens)) (optional term tokens) := by
  induction budget generalizing tokens with
  | zero => exact .of_tooDeep _
  | succ budget ih => exact agrees_termWith ih (agrees_pattern budget) tokens

/-! ## Declarations -/

/-- Behind separators neither the end nor a declaration is reached. -/
structure Unfinished (tokens : List Token) : Prop where
  remains : tokens.dropWhile Token.isSeparator ≠ []
  decl : decl (tokens.dropWhile Token.isSeparator) = none

theorem agrees_declaration (budget : Nat) (tokens : List Token) :
    Agrees Unfinished place (Grammar.declaration budget (.running place tokens))
      (optional decl tokens) := by
  rw [Grammar.declaration, Rule.bind_of_ok peek_running]
  cases tokens with
  | nil => exact .of_item_none rfl
  | cons token rest =>
    simp only [List.head?_cons]
    cases hname : token.name? with
    | none => exact .of_item_none (decl_of_name_none hname)
    | some word =>
      have hne : token.lexeme ≠ .semicolon := by
        intro heq
        simp [Token.name?, heq] at hname
      have hone : name (token :: rest) = some (⟨word, token.location⟩, rest) :=
        one_of_some (by simp [hname]) rest
      refine .of_begun ?_ fun hnone => ?_
      · have hmap : (decl (token :: rest)).map (fun result => (some result.1, result.2)) =
            (some <$> decl) (token :: rest) := by
          cases hdecl : decl (token :: rest) with
          | none => rw [map_of_none hdecl]; rfl
          | some result => rw [map_of_some hdecl]; rfl
        rw [hmap, decl, map_bind, Item.bind_of_some hone]
        simp only [map_bind, map_pure]
        refine (Agrees.many shrinks_pattern (fun _ hstuck => hstuck.pattern)
          (agrees_pattern budget) rest).bind (fun patterns behind _ => ?_)
          fun patterns behind _ hstuck => ?_
        · refine .chomp_bind (by simp [Lexeme.assign]) fun _ behind _ _ => ?_
          refine (agrees_application (agrees_term budget) behind).bind
            (fun body left _ => ⟨left, rfl, rfl⟩) fun _ _ _ hstuck _ _ hpure => ?_
          cases hpure
          exact ⟨hstuck.remains, hstuck.decl⟩
        · rw [Item.bind_of_none (hstuck.only _ (by simp [Lexeme.assign]))]
          intro _ _ hfound
          cases hfound
      · have hskip : (token :: rest).dropWhile Token.isSeparator = token :: rest :=
          dropWhile_of_ne hne
        refine ⟨?_, ?_⟩
        · rw [hskip]
          simp
        · rw [hskip]
          exact hnone

theorem agrees_declarationsUpTo (budget bound : Nat) (tokens : List Token)
    (hlength : tokens.length < bound) :
    Agrees (· ≠ []) place (Grammar.declarationsUpTo budget bound (Tape.running place tokens))
      (decls (tokens.dropWhile Token.isSeparator)) := by
  induction bound generalizing tokens with
  | zero => omega
  | succ bound ih =>
    rw [Grammar.declarationsUpTo, Rule.bind_of_ok (skipSemicolons_running tokens)]
    have hle : (tokens.dropWhile Token.isSeparator).length ≤ tokens.length :=
      (List.dropWhile_suffix _).length_le
    generalize tokens.dropWhile Token.isSeparator = tokens at hle
    have hdecl : Agrees Unfinished place _ _ := agrees_declaration budget tokens
    unfold decls
    cases hr : Grammar.declaration budget (Tape.running place tokens) with
    | error fault tape =>
      rw [hr] at hdecl
      rw [Rule.bind_of_error hr]
      refine hdecl.imp id fun hdead found rest hdecls => ?_
      cases hd : decl tokens with
      | none =>
        rw [many_of_none (Item.bind_of_none hd)] at hdecls
        cases hdecls
        intro hnil
        exact (hdead _ _ (optional_of_none hd)).remains (by rw [hnil]; rfl)
      | some result =>
        obtain ⟨value, behind⟩ := result
        have hbehind := hdead _ _ (optional_of_some hd)
        rw [many_of_some shrinks_declAndSeparators (declAndSeparators_of_some hd),
          many_of_none (Item.bind_of_none hbehind.decl)] at hdecls
        cases hdecls
        exact hbehind.remains
    | ok found tape =>
      rw [hr] at hdecl
      obtain ⟨rest, rfl, hfound⟩ := hdecl
      rw [Rule.bind_of_ok hr]
      rcases optional_cases hfound with ⟨rfl, rfl, hd⟩ | ⟨value, rfl, hd⟩
      · rw [many_of_none (Item.bind_of_none hd)]
        exact ⟨rest, rfl, rfl⟩
      · have hlt := shrinks_decl _ _ _ hd
        rw [many_of_some shrinks_declAndSeparators (declAndSeparators_of_some hd)]
        exact (ih rest (by omega)).map

/-- **What is read from a whole tape is matched by the greedy grammar to the end**, and where the
reading stops the grammar does not match, unless the nesting was too deep. -/
theorem agrees_file (budget : Nat) (start place : Location) (tokens : List Token) :
    match Grammar.file budget (⟨.unstarted start, tokens, .ok place⟩ : Tape) with
    | .ok found _ => file tokens = some found
    | .error fault _ => fault.IsTooDeep ∨ file tokens = none := by
  have hdecls : Agrees (· ≠ []) place _ _ := Agrees.of_bounded fun bound hlength =>
    agrees_declarationsUpTo budget (bound + 1) tokens (Nat.lt_succ_of_le hlength)
  rw [Grammar.file, Rule.bind_of_ok (begin_unstarted start tokens)]
  cases hr : bounded (fun left => Grammar.declarationsUpTo budget (left + 1))
      (Tape.running place tokens) with
  | error fault tape =>
    rw [hr] at hdecls
    rw [Rule.bind_of_error hr]
    refine hdecls.imp id fun hdead => ?_
    cases hfile : file tokens with
    | none => rfl
    | some found => exact absurd rfl (hdead _ _ (file_eq_some.mp hfile))
  | ok found tape =>
    rw [hr] at hdecls
    obtain ⟨rest, rfl, heq⟩ := hdecls
    rw [Rule.bind_of_ok hr, Rule.bind_of_ok peek_running]
    cases rest with
    | nil => exact file_eq_some.mpr heq
    | cons token rest =>
      obtain ⟨fault, left, hexpected⟩ : ∃ fault left,
          (expected "a declaration" : Rule Tape (List Decl)) (.running place (token :: rest)) =
            .error fault left := exists_expected _ _
      simp only [List.head?_cons, hexpected]
      refine .inr ?_
      cases hfile : file tokens with
      | none => rfl
      | some found =>
        rw [file_eq_some, heq] at hfile
        cases hfile

end Greedy

end FrontEnd
