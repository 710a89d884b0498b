import FrontEnd.Proofs.Grammar.Shown
import FrontEnd.Proofs.Source.Spaced

/-!
# Heads read as sources

What an editor shows as the head of a declaration can be read again, in front of a body. It is read
as the patterns that it stands for, and these are those of the declaration exactly if in none of its
rows a constructor without arguments stands in front of another pattern.

* `parse_of_greedy_spaced` — what the grammar matches of spaced lexemes is parsed, but for
  locations.
* `parse_head` — what is parsed from the head of a declaration.
* `parse_head_of_lone` — a head that is read as other patterns.
-/

set_option autoImplicit false

namespace FrontEnd

open Greedy

/-- What the grammar matches of the spaced lexemes of a source is parsed from the source, but for
locations, unless it nests too deeply. -/
theorem parse_of_greedy_spaced {file source : String} {tokens : List Token} {last : Lexer}
    {found : List Decl} (htokens : tokenize file source = (tokens, none, last))
    (hmatch : Greedy.file ((Lexeme.spaced (tokens.map Token.lexeme)).map Token.bare) = some found) :
    (∃ decls, parse file source = .ok decls ∧
        decls.map (·.relocate fun _ => default) = found) ∨
      ∃ fault, parse file source = .error fault ∧ fault.IsTooDeep := by
  have hfile := Greedy.agrees_file nestingBudget default default
    ((Lexeme.spaced (tokens.map Token.lexeme)).map Token.bare)
  rw [Grammar.file_unstarted, hmatch] at hfile
  have hspaced := parse_of_spaced htokens
  rw [Rule.answer, Tape.bare] at hspaced
  cases hr : Grammar.declarations nestingBudget
      (Tape.running default ((Lexeme.spaced (tokens.map Token.lexeme)).map Token.bare)) with
  | ok read left =>
    rw [hr] at hfile hspaced
    cases hfile
    rcases hspaced with ⟨decls, hparse, hread⟩ | ⟨fault, fault', -, hread, -⟩
    · exact .inl ⟨decls, hparse, (Except.ok.inj hread).symm⟩
    · cases hread
  | error fault' left =>
    rw [hr] at hfile hspaced
    have hdeep : fault'.IsTooDeep := hfile.resolve_right (by simp)
    rcases hspaced with ⟨decls, -, hread⟩ | ⟨fault, found, hparse, hread, hcause⟩
    · cases hread
    · cases hread
      obtain ⟨place, place', cause, rfl, rfl⟩ := hcause
      exact .inr ⟨_, hparse, hdeep⟩

/-- The heads of what is parsed can be spelled. -/
theorem headWellFormed_of_parse {file source : String} {decls : List Decl}
    (h : parse file source = .ok decls) : ∀ decl ∈ decls, decl.HeadWellFormed := by
  obtain ⟨tokens, last, htokens, hmatch⟩ := greedy_of_parse h
  have hwell := wellFormed_tokenize file source
  rw [htokens] at hwell
  exact fun decl hmem => (wellFormed_of_file hwell hmatch decl hmem).toHeadWellFormed

/-- A head in front of a name as its body is split into its lexemes. -/
theorem tokenize_stub (file : String) {decl : Decl} (h : decl.HeadWellFormed) :
    ∃ tokens last, tokenize file (decl.head ++ " = x") = (tokens, none, last) ∧
      tokens.map Token.lexeme = decl.stubLexemes := by
  have hnone : Laid [] [] [] := .none (isGap_nil [])
  have hlaid := Decl.laysOut_stub h [] [] [] hnone Scan.delimits_nil
  rw [List.append_nil, List.append_nil] at hlaid
  have htokens := tokenize_of_laid file hlaid
  rwa [String.ofList_toList] at htokens

/-- **What is parsed from the head of a declaration** that was parsed, with a name as its body, is
one declaration of the same name with the patterns that the head stands for, unless it nests too
deeply. Up to locations these are the patterns of the declaration exactly if no constructor without
arguments stands in front of another pattern, among them or among the arguments of a constructor in
them. -/
theorem parse_head (file file' source : String) (decls : List Decl) (decl : Decl)
    (h : parse file source = .ok decls) (hmem : decl ∈ decls)
    (hdeep : ∀ fault, parse file' (decl.head ++ " = x") = .error fault → ¬ fault.IsTooDeep) :
    ∃ found, parse file' (decl.head ++ " = x") = .ok [found] ∧
      found.name.text = decl.name.text ∧
      found.patterns.map (·.relocate fun _ => default) =
        (Pattern.rereadRow decl.patterns).map (·.relocate fun _ => default) ∧
      (found.patterns.map (·.relocate fun _ => default) =
          decl.patterns.map (·.relocate fun _ => default) ↔
        Pattern.rowApart decl.patterns = true) := by
  have hwell := headWellFormed_of_parse h decl hmem
  obtain ⟨tokens, last, htokens, hlexemes⟩ := tokenize_stub file' hwell
  have hmatch := file_head hwell
  rw [← Lexeme.spaced_of_not_mem decl.separator_not_mem, ← hlexemes] at hmatch
  rcases parse_of_greedy_spaced htokens hmatch with
    ⟨decls', hok, hfound⟩ | ⟨fault, hfault, htooDeep⟩
  · obtain ⟨found, rfl, hdecl⟩ := List.map_eq_singleton_iff.mp hfound
    have hpatterns : found.patterns.map (·.relocate fun _ => default) =
        (Pattern.rereadRow decl.patterns).map (·.relocate fun _ => default) :=
      (congrArg Decl.patterns hdecl).trans (Pattern.relocateAll_eq_map nowhere _)
    have hname := congrArg (fun head : Decl => head.name.text) hdecl
    refine ⟨found, hok, hname, hpatterns, ?_⟩
    rw [hpatterns, ← Pattern.relocateAll_eq_map, ← Pattern.relocateAll_eq_map]
    exact Pattern.rereadRow_eq_iff _ decl.patterns
  · exact absurd htooDeep (hdeep fault hfault)

/-- A head with constructors that have arguments, with a constructor without arguments at the end of
a row, and with a tuple of one member. -/
theorem parse_head_of_constructors : ∃ decls decl,
    parse "f.em" "map f (Cons x (Just -1 Nil)) (y,) \"s\" = f x" = .ok decls ∧ decl ∈ decls ∧
    (∀ fault, parse "g.em" (decl.head ++ " = x") = .error fault → ¬ fault.IsTooDeep) ∧
    ∃ found, parse "g.em" (decl.head ++ " = x") = .ok [found] ∧
      found.name.text = decl.name.text ∧
      found.patterns.map (·.relocate fun _ => default) =
        (Pattern.rereadRow decl.patterns).map (·.relocate fun _ => default) ∧
      (found.patterns.map (·.relocate fun _ => default) =
          decl.patterns.map (·.relocate fun _ => default) ↔
        Pattern.rowApart decl.patterns = true) := by
  have hheads : (parse "f.em" "map f (Cons x (Just -1 Nil)) (y,) \"s\" = f x").map
      (List.map Decl.head) = .ok ["map f (Cons x (Just -1 Nil)) (y,) \"s\""] := by
    decide +kernel
  obtain ⟨decls, h⟩ : ∃ decls,
      parse "f.em" "map f (Cons x (Just -1 Nil)) (y,) \"s\" = f x" = .ok decls :=
    exists_of_isOk (by decide +kernel)
  rw [h, Except.map, Except.ok.injEq] at hheads
  obtain ⟨decl, rfl, hhead⟩ := List.map_eq_singleton_iff.mp hheads
  obtain ⟨found, hfound⟩ : ∃ found, parse "g.em" (decl.head ++ " = x") = .ok found :=
    exists_of_isOk (by rw [hhead]; decide +kernel)
  have hdeep : ∀ fault, parse "g.em" (decl.head ++ " = x") = .error fault →
      ¬ fault.IsTooDeep := by
    intro fault hfault
    rw [hfound] at hfault
    cases hfault
  exact ⟨_, decl, h, List.mem_singleton_self _, hdeep,
    parse_head _ _ _ _ _ h (List.mem_singleton_self _) hdeep⟩

/-- A constructor without arguments in front of another pattern: the head is read as the constructor
applied to that pattern, so with fewer patterns. -/
theorem parse_head_of_lone : ∃ decls decl found,
    parse "f.em" "g (A) y = 1" = .ok decls ∧ decl ∈ decls ∧
    parse "f.em" (decl.head ++ " = x") = .ok [found] ∧
    found.patterns.map (·.relocate fun _ => default) ≠
      decl.patterns.map (·.relocate fun _ => default) := by
  have hheads : (parse "f.em" "g (A) y = 1").map
      (List.map fun decl => (decl.head, decl.patterns.length)) = .ok [("g A y", 2)] := by
    decide +kernel
  have hagain : (parse "f.em" ("g A y" ++ " = x")).map (List.map (·.patterns.length)) =
      .ok [1] := by
    decide +kernel
  obtain ⟨decls, h⟩ : ∃ decls, parse "f.em" "g (A) y = 1" = .ok decls :=
    exists_of_isOk (by decide +kernel)
  obtain ⟨decls', h'⟩ : ∃ decls, parse "f.em" ("g A y" ++ " = x") = .ok decls :=
    exists_of_isOk (by decide +kernel)
  rw [h, Except.map, Except.ok.injEq] at hheads
  rw [h', Except.map, Except.ok.injEq] at hagain
  obtain ⟨decl, rfl, hdecl⟩ := List.map_eq_singleton_iff.mp hheads
  obtain ⟨found, rfl, hfound⟩ := List.map_eq_singleton_iff.mp hagain
  obtain ⟨hhead, hlength⟩ := Prod.mk.inj hdecl
  refine ⟨[decl], decl, found, h, List.mem_singleton_self _, hhead ▸ h', fun heq => ?_⟩
  have hlengths := congrArg List.length heq
  rw [List.length_map, List.length_map, hfound, hlength] at hlengths
  cases hlengths

end FrontEnd
