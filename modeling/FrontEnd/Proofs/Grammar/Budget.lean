import FrontEnd.Proofs.Grammar.Agreement
import FrontEnd.Proofs.Grammar.Chains

/-!
# Budgets that suffice

Every construct takes one from the budget for what is inside it, and nothing else does. So a budget
above the lengths of all chains is never used up, whether the tokens are matched or not: what is
side by side is read with the same budget.

* `Allowed` — a rule did not stop because of its budget.
* `Greedy.allowed_pattern`, `Greedy.allowed_term` — the rules that nest in each other.
* `Greedy.allowed_file` — a whole file.
-/

set_option autoImplicit false

namespace FrontEnd

open Item Greedy Relation

/-- A rule did not stop because of its budget. -/
def Allowed {α : Type} (result : EStateM.Result Fault Tape α) : Prop :=
  ∀ fault left, result = .error fault left → ¬ fault.IsTooDeep

namespace Allowed

open Rule

variable {α β : Type} {stuck : List Token → Prop} {place : Location} {tokens : List Token}

theorem of_ok (value : α) (tape : Tape) : Allowed (.ok value tape) :=
  fun _ _ h => by cases h

theorem of_fail (location : Location) {cause : Cause} (h : cause ≠ .tooDeep) (tape : Tape) :
    Allowed ((fail location cause : Rule Tape α) tape) := by
  intro fault left hfault
  cases hfault
  exact h

theorem of_fail_here {cause : Cause} (h : cause ≠ .tooDeep) (tape : Tape) :
    Allowed ((do fail (← here) cause : Rule Tape α) tape) := by
  obtain ⟨front, coming, stop⟩ := tape
  cases front <;> exact of_fail _ h _

theorem of_expected (what : String) (tape : Tape) :
    Allowed ((expected what : Rule Tape α) tape) := by
  obtain ⟨front, coming, stop⟩ := tape
  cases front <;> exact of_fail _ (by simp) _

theorem bind {rule : Rule Tape α} {next : α → Rule Tape β} {tape : Tape}
    (h : Allowed (rule tape))
    (hnext : ∀ value left, rule tape = .ok value left → Allowed (next value left)) :
    Allowed ((rule >>= next) tape) := by
  cases hr : rule tape with
  | error fault left =>
    rw [bind_of_error hr]
    rw [hr] at h
    intro fault' left' heq
    cases heq
    exact h fault left rfl
  | ok value left =>
    rw [bind_of_ok hr]
    exact hnext value left hr

theorem map {rule : Rule Tape α} {tape : Tape} (h : Allowed (rule tape)) (f : α → β) :
    Allowed ((rule >>= fun value => pure (f value)) tape) :=
  h.bind fun value left _ => of_ok (f value) left

/-- What a rule is followed by is allowed where the rule, and its item with it, lead. -/
theorem bind_item {rule : Rule Tape α} {next : α → Rule Tape β} {found : Option (α × List Token)}
    (h : Allowed (rule (.running place tokens)))
    (hagrees : Agrees stuck place (rule (.running place tokens)) found)
    (hnext : ∀ value rest, found = some (value, rest) →
      Allowed (next value (.running place rest))) :
    Allowed ((rule >>= next) (.running place tokens)) := by
  refine h.bind fun value left hr => ?_
  rw [hr] at hagrees
  obtain ⟨rest, rfl, hfound⟩ := hagrees
  exact hnext value rest hfound

theorem chomp_bind {lexeme : Lexeme} (hlexeme : ∀ value, lexeme ≠ .float value)
    {next : Unit → Rule Tape β}
    (hnext : ∀ token rest, tokens = token :: rest → token.lexeme = lexeme →
      Allowed (next () (.running place rest))) :
    Allowed ((chomp lexeme.form >>= next) (.running place tokens)) := by
  cases tokens with
  | nil => exact of_fail _ (by simp) _
  | cons token rest =>
    by_cases h : token.lexeme = lexeme
    · rw [bind_of_ok (chomp_of_eq hlexeme h rest)]
      exact hnext token rest rfl h
    · rw [bind_of_error (chomp_of_ne hlexeme h rest)]
      exact of_fail token.location (by simp) _

theorem begun {rule : Rule Tape α} {token : Token} {rest : List Token}
    (h : Allowed (rule (.running place rest))) :
    Allowed ((advance >>= fun _ => rule) (.running place (token :: rest))) := by
  rwa [bind_of_ok advance_running]

theorem skip_bind {next : Unit → Rule Tape β}
    (hnext : Allowed (next () (.running place (tokens.dropWhile Token.isSeparator)))) :
    Allowed ((skipSemicolons >>= next) (.running place tokens)) := by
  rwa [bind_of_ok (skipSemicolons_running tokens)]

/-- A repetition is allowed if its rule is wherever its items lead. -/
theorem many {rule : Rule Tape (Option α)} {item : Item α}
    (hagrees : ∀ tokens,
      Agrees stuck place (rule (.running place tokens)) (optional item tokens))
    (h : ∀ inner, ReflTransGen (Reaches item) tokens inner →
      Allowed (rule (.running place inner))) :
    Allowed (many rule (.running place tokens)) := by
  have hmany : ∀ bound, Allowed (manyUpTo rule bound (.running place tokens)) := by
    intro bound
    induction bound generalizing tokens with
    | zero => exact of_ok _ _
    | succ bound ih =>
      rw [Rule.manyUpTo]
      show Allowed ((rule >>= _) (.running place tokens))
      refine (h tokens .refl).bind_item (hagrees tokens) fun found rest hfound => ?_
      rcases optional_cases hfound with ⟨rfl, -, -⟩ | ⟨value, rfl, hitem⟩
      · exact of_ok _ _
      · exact (ih fun inner hinner => h inner (.head ⟨value, hitem⟩ hinner)).map _
  exact hmany _

end Allowed

/-! ## Rules and what they nest -/

namespace Greedy

open Rule

variable {place : Location} {token : Token} {tokens rest : List Token}

section Patterns

variable {inner : Rule Tape (Option Pattern)}
  (hagrees : ∀ tokens,
    Agrees PatternStuck place (inner (.running place tokens)) (optional pattern tokens))

include hagrees

theorem allowed_patternMembers (bound : Nat)
    (h : ∀ left, ReflTransGen (ReachesComma pattern) tokens left →
      Allowed (inner (.running place left))) :
    Allowed (Grammar.patternMembers inner bound (.running place tokens)) := by
  induction bound generalizing tokens with
  | zero => exact .of_ok _ _
  | succ bound ih =>
    rw [Grammar.patternMembers, Grammar.parenClose, Grammar.commaForm]
    rw [bind_of_ok (ahead_eq_only (closing_ne_float _) tokens)]
    cases only (.closing .paren) tokens with
    | some result => exact .of_ok _ _
    | none =>
      refine (h tokens .refl).bind_item (hagrees tokens) fun found mid hfound => ?_
      rcases optional_cases hfound with ⟨rfl, -, -⟩ | ⟨value, rfl, hpattern⟩
      · exact .of_expected _ _
      · dsimp only
        rw [bind_of_ok (ahead_eq_only comma_ne_float mid)]
        cases hcomma : only .comma mid with
        | none => exact .of_ok _ _
        | some result =>
          obtain ⟨comma, behind⟩ := result
          obtain ⟨rfl, hlexeme⟩ := only_eq_some hcomma
          show Allowed ((advance >>= _) (.running place (comma :: behind)))
          rw [bind_of_ok advance_running]
          refine Allowed.map (ih fun left hleft => h left (.head ?_ hleft)) _
          exact ⟨comma, ⟨value, hpattern⟩, hlexeme⟩

theorem allowed_groupedPattern (location : Location)
    (h : ∀ left, ReflTransGen (ReachesComma pattern) tokens left →
      Allowed (inner (.running place left))) :
    Allowed (Grammar.groupedPattern inner location (.running place tokens)) := by
  have hmembers : Allowed (bounded (fun left => Grammar.patternMembers inner (left + 1))
      (.running place tokens)) := allowed_patternMembers hagrees _ h
  refine hmembers.bind_item (.of_bounded fun bound hlength =>
    agrees_patternMembers hagrees (bound + 1) tokens (Nat.lt_succ_of_le hlength))
    fun found mid _ => ?_
  refine .chomp_bind (closing_ne_float _) fun _ behind _ _ => ?_
  obtain ⟨members, sawComma⟩ := found
  rcases members with _ | ⟨first, _ | ⟨second, more⟩⟩
  · exact .of_ok _ _
  · cases sawComma <;> exact .of_ok _ _
  · exact .of_ok _ _

/-- A pattern is allowed if all patterns inside it are. -/
theorem allowed_patternWith
    (h : ∀ construct left, Inside construct (.pattern tokens) (.pattern left) →
      Allowed (inner (.running place left))) :
    Allowed (Grammar.patternWith inner (.running place tokens)) := by
  rw [Grammar.patternWith, bind_of_ok peek_running]
  cases tokens with
  | nil => exact .of_ok _ _
  | cons token rest =>
    simp only [List.head?_cons]
    cases hl : token.lexeme with
    | signed value => exact .begun (.of_ok _ _)
    | quoted text => exact .begun (.of_ok _ _)
    | identifier word =>
      cases hkeyword : isKeyword word with
      | true =>
        simp only [hkeyword, if_true]
        exact .of_ok _ _
      | false =>
        simp only [hkeyword, Bool.false_eq_true, if_false]
        refine .begun ?_
        cases hconstructor : Grammar.isConstructorName word with
        | false => exact .of_ok _ _
        | true =>
          have hname : constructorName? token = some ⟨word, token.location⟩ := by
            simp [constructorName?, Token.name?, hl, hkeyword, hconstructor]
          exact (Allowed.many hagrees fun left hleft =>
            h .constructor left (.argument hname hleft)).map _
    | opening bracket =>
      cases bracket with
      | paren =>
        exact .begun ((allowed_groupedPattern hagrees token.location fun left hleft =>
          h .group left (.member hl hleft)).map _)
      | _ => exact .of_ok _ _
    | _ => exact .of_ok _ _

end Patterns

/-- **A budget above the lengths of all chains from a pattern suffices to read it.** -/
theorem allowed_pattern {budget : Nat} (h : (Spot.pattern tokens).Within budget) :
    Allowed (Grammar.pattern budget (.running place tokens)) := by
  induction budget generalizing tokens with
  | zero => exact absurd (h [] .none) (Nat.not_lt_zero _)
  | succ budget ih =>
    exact allowed_patternWith (agrees_pattern budget) fun _ _ hinside => ih (h.inside hinside)

theorem allowed_identifier (tokens : List Token) :
    Allowed (Grammar.identifier (.running place tokens)) := by
  rw [Grammar.identifier, bind_of_ok peek_running]
  cases tokens with
  | nil => exact .of_fail_here (by simp) _
  | cons token rest =>
    simp only [List.head?_cons]
    cases token.name? with
    | none => exact .of_fail_here (by simp) _
    | some word =>
      show Allowed ((advance >>= _) (.running place (token :: rest)))
      rw [bind_of_ok advance_running]
      exact .of_ok _ _

section Terms

variable {inner : Rule Tape (Option Expr)}
  (hagrees : ∀ tokens, Agrees Stuck place (inner (.running place tokens)) (optional term tokens))

include hagrees

theorem allowed_application
    (h : ∀ left, InCall tokens left → Allowed (inner (.running place left))) :
    Allowed (Grammar.application inner (.running place tokens)) := by
  refine .skip_bind ?_
  refine (h _ .refl).bind_item (hagrees _) fun found mid hfound => ?_
  rcases optional_cases hfound with ⟨rfl, -, -⟩ | ⟨function, rfl, hterm⟩
  · exact .of_fail_here (by simp) _
  · refine Allowed.bind (.many hagrees fun left hleft => h left (.head ⟨_, hterm⟩ hleft))
      fun arguments left _ => ?_
    cases arguments <;> exact .of_ok _ _

theorem allowed_bindingRest (hlet : token.lexeme = .identifier "let")
    (h : ∀ left, Inside .binding (.term (token :: rest)) (.term left) →
      Allowed (inner (.running place left))) :
    Allowed (Grammar.bindingRest inner token.location (.running place rest)) := by
  refine (allowed_identifier rest).bind_item (agrees_identifier rest) fun found behind hname => ?_
  refine .chomp_bind (by simp [Lexeme.assign]) fun assign behind heq hassign => ?_
  subst heq
  have hvalue : Allowed (Grammar.application inner (.running place behind)) :=
    allowed_application hagrees fun left hleft => h left (.value hlet ⟨_, hname⟩ hassign hleft)
  refine hvalue.bind_item (agrees_application hagrees behind) fun value left hcall => ?_
  refine .skip_bind (.chomp_bind (by simp [Lexeme.inWord]) fun inWord mid hskip hword => ?_)
  have hbody : Allowed (Grammar.application inner (.running place mid)) :=
    allowed_application hagrees fun left hleft =>
      h left (.body hlet ⟨_, hname⟩ hassign ⟨_, hcall⟩ hskip hword hleft)
  exact hbody.map _

theorem allowed_tupleMembers (bound : Nat)
    (h : ∀ comma behind mid left, tokens = comma :: behind → comma.lexeme = .comma →
      ReflTransGen (ReachesComma call) behind mid → InCall mid left →
      Allowed (inner (.running place left))) :
    Allowed (Grammar.tupleMembers inner bound (.running place tokens)) := by
  induction bound generalizing tokens with
  | zero => exact .of_ok _ _
  | succ bound ih =>
    rw [Grammar.tupleMembers, Grammar.commaForm, Grammar.parenClose]
    rw [bind_of_ok (ahead_eq_only comma_ne_float tokens)]
    cases hcomma : only .comma tokens with
    | none => exact .of_ok _ _
    | some result =>
      obtain ⟨comma, behind⟩ := result
      obtain ⟨rfl, hlexeme⟩ := only_eq_some hcomma
      show Allowed ((advance >>= _) (.running place (comma :: behind)))
      rw [bind_of_ok advance_running, bind_of_ok (ahead_eq_only (closing_ne_float _) behind)]
      cases only (.closing .paren) behind with
      | some result => exact .of_ok _ _
      | none =>
        have hmember : Allowed (Grammar.application inner (.running place behind)) :=
          allowed_application hagrees fun left hleft => h _ _ _ left rfl hlexeme .refl hleft
        show Allowed ((Grammar.application inner >>= _) (.running place behind))
        refine hmember.bind_item (agrees_application hagrees behind) fun value next hcall => ?_
        refine Allowed.map (ih fun comma' behind' mid left heq hlexeme' hmid hleft => ?_) _
        subst heq
        exact h _ _ mid left rfl hlexeme (.head ⟨comma', ⟨value, hcall⟩, hlexeme'⟩ hmid) hleft

theorem allowed_groupedRest (hopening : token.lexeme = .opening .paren)
    (h : ∀ left, Inside .group (.term (token :: rest)) (.term left) →
      Allowed (inner (.running place left))) :
    Allowed (Grammar.groupedRest inner token.location (.running place rest)) := by
  rw [Grammar.groupedRest, Grammar.parenClose]
  rw [bind_of_ok (ahead_eq_only (closing_ne_float _) rest)]
  cases hclosing : only (.closing .paren) rest with
  | some result =>
    obtain ⟨closing, behind⟩ := result
    obtain ⟨rfl, -⟩ := only_eq_some hclosing
    show Allowed ((advance >>= _) (.running place (closing :: behind)))
    rw [bind_of_ok advance_running]
    exact .of_ok _ _
  | none =>
    have hfirst : Allowed (Grammar.application inner (.running place rest)) :=
      allowed_application hagrees fun left hleft => h left (.element hopening .refl hleft)
    refine hfirst.bind_item (agrees_application hagrees rest) fun first mid hcall => ?_
    have hmembers : Allowed (bounded (fun left => Grammar.tupleMembers inner (left + 1))
        (.running place mid)) := by
      refine allowed_tupleMembers hagrees _ fun comma behind next left heq hlexeme hnext hleft => ?_
      subst heq
      exact h left (.element hopening (.head ⟨comma, ⟨first, hcall⟩, hlexeme⟩ hnext) hleft)
    refine hmembers.bind_item (.of_bounded fun bound hlength =>
      agrees_tupleMembers hagrees (bound + 1) mid (Nat.lt_succ_of_le hlength))
      fun found behind _ => ?_
    refine .chomp_bind (closing_ne_float _) fun _ left _ _ => ?_
    cases found.2 <;> exact .of_ok _ _

section Matching

variable {patterns : Rule Tape (Option Pattern)}
  (hpatterns : ∀ tokens,
    Agrees PatternStuck place (patterns (.running place tokens)) (optional pattern tokens))

include hpatterns

theorem allowed_armsUpTo (bound : Nat)
    (hpattern : ∀ mid, ReflTransGen (Reaches arm) tokens mid →
      Allowed (patterns (.running place (mid.dropWhile Token.isSeparator))))
    (hanswer : ∀ arrow mid behind left, ReflTransGen (Reaches arm) tokens mid →
      Reaches pattern (mid.dropWhile Token.isSeparator) (arrow :: behind) → arrow.lexeme = .arrow →
      InCall behind left → Allowed (inner (.running place left))) :
    Allowed (Grammar.armsUpTo inner patterns bound (.running place tokens)) := by
  induction bound generalizing tokens with
  | zero => exact .of_ok _ _
  | succ bound ih =>
    rw [Grammar.armsUpTo]
    show Allowed ((skipSemicolons >>= _) (.running place tokens))
    refine .skip_bind ((hpattern tokens .refl).bind_item (hpatterns _) fun found mid hfound => ?_)
    rcases optional_cases hfound with ⟨rfl, -, -⟩ | ⟨value, rfl, hvalue⟩
    · exact .of_ok _ _
    · dsimp only
      rw [bind_of_ok (ahead_eq_only (by simp [Lexeme.arrow]) mid)]
      cases harrow : only .arrow mid with
      | none => exact .of_ok _ _
      | some result =>
        obtain ⟨arrow, behind⟩ := result
        obtain ⟨rfl, hlexeme⟩ := only_eq_some harrow
        show Allowed ((advance >>= _) (.running place (arrow :: behind)))
        rw [bind_of_ok advance_running]
        have hbody : Allowed (Grammar.application inner (.running place behind)) :=
          allowed_application hagrees fun left hleft =>
            hanswer arrow tokens behind left .refl ⟨_, hvalue⟩ hlexeme hleft
        refine hbody.bind_item (agrees_application hagrees behind) fun body next hcall => ?_
        have harm : Reaches arm tokens next := ⟨_, arm_of_call_some hvalue hlexeme hcall⟩
        exact Allowed.map (ih (fun mid hmid => hpattern mid (.head harm hmid))
          fun arrow mid behind left hmid => hanswer arrow mid behind left (.head harm hmid)) _

theorem allowed_matchRest (hmatch : token.lexeme = .identifier "match")
    (hpattern : ∀ left, Inside .matching (.term (token :: rest)) (.pattern left) →
      Allowed (patterns (.running place left)))
    (hinner : ∀ left, Inside .matching (.term (token :: rest)) (.term left) →
      Allowed (inner (.running place left))) :
    Allowed (Grammar.matchRest inner patterns token.location (.running place rest)) := by
  have hsubject : Allowed (Grammar.application inner (.running place rest)) :=
    allowed_application hagrees fun left hleft => hinner left (.subject hmatch hleft)
  refine hsubject.bind_item (agrees_application hagrees rest) fun subject mid hcall => ?_
  have harms : Allowed (bounded (fun left => Grammar.armsUpTo inner patterns (left + 1))
      (.running place mid)) :=
    allowed_armsUpTo hagrees hpatterns _
      (fun left hleft => hpattern _ (.arm hmatch ⟨_, hcall⟩ hleft))
      fun arrow _ behind left hmid hvalue harrow hleft =>
        hinner left (.answer hmatch ⟨_, hcall⟩ hmid hvalue harrow hleft)
  refine harms.bind fun arms left _ => ?_
  cases arms with
  | nil => exact .of_fail _ (by simp) _
  | cons arm arms => exact .of_ok _ _

/-- A term is allowed if all terms and patterns inside it are. -/
theorem allowed_termWith
    (hpattern : ∀ construct left, Inside construct (.term tokens) (.pattern left) →
      Allowed (patterns (.running place left)))
    (hinner : ∀ construct left, Inside construct (.term tokens) (.term left) →
      Allowed (inner (.running place left))) :
    Allowed (Grammar.termWith inner patterns (.running place tokens)) := by
  rw [Grammar.termWith, bind_of_ok peek_running]
  cases tokens with
  | nil => exact .of_ok _ _
  | cons token rest =>
    simp only [List.head?_cons]
    let Reads (rule : Rule Tape (Option Expr)) : Prop :=
      Allowed (rule (.running place (token :: rest)))
    show Reads _
    split
    · rename_i hl
      exact .begun ((allowed_bindingRest hagrees hl fun left => hinner .binding left).map _)
    · rename_i hl
      exact .begun ((allowed_matchRest hagrees hpatterns hl (fun left => hpattern .matching left)
        fun left => hinner .matching left).map _)
    · split
      · exact .of_ok _ _
      · exact .begun (.of_ok _ _)
    · exact .of_ok _ _
    · exact .begun (.of_ok _ _)
    · rename_i hl
      exact .begun ((allowed_groupedRest hagrees hl fun left => hinner .group left).map _)
    · exact .begun (.of_ok _ _)
    · exact .begun (.of_ok _ _)
    · exact .begun (.of_ok _ _)
    · exact .of_ok _ _
    · exact .of_ok _ _
    · exact .of_ok _ _
    · exact .of_fail _ (by simp) _

end Matching

end Terms

/-- **A budget above the lengths of all chains from a term suffices to read it.** -/
theorem allowed_term {budget : Nat} (h : (Spot.term tokens).Within budget) :
    Allowed (Grammar.term budget (.running place tokens)) := by
  induction budget generalizing tokens with
  | zero => exact absurd (h [] .none) (Nat.not_lt_zero _)
  | succ budget ih =>
    exact allowed_termWith (agrees_term budget) (agrees_pattern budget)
      (fun _ _ hinside => allowed_pattern (h.inside hinside)) fun _ _ hinside =>
        ih (h.inside hinside)

/-! ## Declarations -/

/-- The items of a repetition lead to its end. -/
theorem leads_of_many {α : Type} {item : Item α} (hshrinks : Shrinks item) {values : List α}
    (h : many item tokens = some (values, rest)) : ReflTransGen (Reaches item) tokens rest := by
  induction values generalizing tokens with
  | nil =>
    rcases many_cases hshrinks h with ⟨-, rfl, -⟩ | ⟨_, _, _, hcons, -⟩
    · exact .refl
    · cases hcons
  | cons value values ih =>
    rcases many_cases hshrinks h with ⟨hnil, -⟩ | ⟨first, behind, others, hcons, hfirst, hothers⟩
    · cases hnil
    · cases hcons
      exact .head ⟨_, hfirst⟩ (ih hothers)

variable {budget : Nat}

theorem allowed_declaration (h : ∀ spot, InDecl tokens spot → spot.Within budget) :
    Allowed (Grammar.declaration budget (.running place tokens)) := by
  rw [Grammar.declaration, bind_of_ok peek_running]
  cases tokens with
  | nil => exact .of_ok _ _
  | cons token rest =>
    simp only [List.head?_cons]
    cases hname : token.name? with
    | none => exact .of_ok _ _
    | some word =>
      show Allowed ((advance >>= _) (.running place (token :: rest)))
      rw [bind_of_ok advance_running]
      have hpatterns : Allowed ((Grammar.pattern budget).many (.running place rest)) :=
        .many (agrees_pattern budget) fun inner hinner =>
          allowed_pattern (h _ (.pattern hname hinner))
      refine hpatterns.bind_item (.many shrinks_pattern (fun _ hstuck => hstuck.pattern)
        (agrees_pattern budget) rest) fun patterns mid hmany => ?_
      refine .chomp_bind (by simp [Lexeme.assign]) fun assign behind heq hassign => ?_
      subst heq
      have hbody : Allowed (Grammar.application (Grammar.term budget) (.running place behind)) :=
        allowed_application (agrees_term budget) fun inner hinner =>
          allowed_term (h _ (.body hname (leads_of_many shrinks_pattern hmany) hassign hinner))
      exact hbody.bind fun body left _ => .of_ok _ _

theorem allowed_declarationsUpTo (bound : Nat)
    (h : ∀ spot, Outermost tokens spot → spot.Within budget) :
    Allowed (Grammar.declarationsUpTo budget bound (Tape.running place tokens)) := by
  induction bound generalizing tokens with
  | zero => exact .of_ok _ _
  | succ bound ih =>
    rw [Grammar.declarationsUpTo]
    have hdecl : Allowed (Grammar.declaration budget
        (Tape.running place (tokens.dropWhile Token.isSeparator))) :=
      allowed_declaration fun spot hspot => h spot ⟨_, .refl, hspot⟩
    refine .skip_bind (hdecl.bind_item (agrees_declaration budget _) fun found rest hfound => ?_)
    rcases optional_cases hfound with ⟨rfl, -, -⟩ | ⟨decl, rfl, hdecl⟩
    · exact .of_ok _ _
    · refine Allowed.map (ih fun spot hspot => ?_) _
      obtain ⟨start, hdecls, hspot⟩ := hspot
      exact h spot ⟨start, .head ⟨rest, ⟨decl, hdecl⟩, rfl⟩ hdecls, hspot⟩

/-- **A budget above the lengths of all chains of a file suffices to read it.** -/
theorem allowed_file (h : ∀ spot, Outermost tokens spot → spot.Within budget)
    (start place : Location) :
    Allowed (Grammar.file budget (⟨.unstarted start, tokens, .ok place⟩ : Tape)) := by
  have hdecls : Allowed (bounded (fun left => Grammar.declarationsUpTo budget (left + 1))
      (Tape.running place tokens)) := allowed_declarationsUpTo _ h
  rw [Grammar.file, bind_of_ok (begin_unstarted start tokens)]
  refine hdecls.bind fun decls left _ => ?_
  rw [bind_of_ok (peek_eq left)]
  cases (Feed.lookahead left).token? with
  | none => exact .of_ok _ _
  | some token => exact .of_expected _ _

end Greedy

end FrontEnd
