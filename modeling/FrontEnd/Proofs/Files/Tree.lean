import FrontEnd.Files.Tree
import FrontEnd.Proofs.Files.Path

/-!
# Where paths lead in a tree of files

A path is followed name by name through what is seen from each place. That is the same as a walk
over the entries of the tree: a name leads down to an entry, a double dot back to the directory
above.

* `FileTree.Leads` — where names lead from a place.
* `FileTree.follow_eq_ok_iff`, `FileTree.locate_eq_ok_iff` — following a path is such a walk.
* `FileTree.locate_ofText` — what a text leads to as it is written, its path leads to.
* `FileTree.Sound` — a tree whose entries can be reached: each has a name that can be looked up and
  stands in a directory.
* `FileTree.Sound.locate_self` — in a sound tree every entry is found under its own names.
* `FileTree.Sound.seek_below` — what is found under a name in a directory of such a tree.
* `FileTree.Sound.resolve_of_locate` — a path resolves to the place that it leads to.
* `FileTree.Sound.mem_children` — what is in a directory are the entries one name below it.
-/

set_option autoImplicit false

namespace FrontEnd

/-- A name that an entry can have. -/
structure IsEntryName (name : String) : Prop where
  plain : Path.IsPlainName name
  ne_up : name ≠ ".."
  short : isLongName name = false
  noNull : Char.ofNat 0 ∉ name.toList

instance (name : String) : Decidable (IsEntryName name) :=
  decidable_of_iff
    (Path.IsPlainName name ∧ name ≠ ".." ∧ isLongName name = false ∧ Char.ofNat 0 ∉ name.toList)
    ⟨fun ⟨hplain, hup, hshort, hnull⟩ => ⟨hplain, hup, hshort, hnull⟩,
      fun ⟨hplain, hup, hshort, hnull⟩ => ⟨hplain, hup, hshort, hnull⟩⟩

namespace FileTree

variable {tree : FileTree} {path : Path} {place goal : Place} {names more : List String}

/-! ## What is seen from a place -/

@[simp]
theorem entryAt_root (tree : FileTree) : tree.entryAt [] = some .directory := rfl

theorem entryAt_of_ne (h : place ≠ []) : tree.entryAt place = tree.entries.lookup place :=
  if_neg h

theorem lookup_foldl_behind (place rest : Place) (entries : Entries) :
    List.lookup rest (place.foldl (fun seen name => Entries.behind name seen) entries) =
      List.lookup (place ++ rest) entries := by
  induction place generalizing entries with
  | nil => rfl
  | cons name place ih => rw [List.foldl_cons, ih, Entries.lookup_behind, List.cons_append]

/-- The place from which something is seen is what the tree has there. -/
theorem here?_seenFrom (tree : FileTree) (place : Place) :
    (tree.seenFrom place).here? = tree.entryAt place := by
  rw [Entries.here?, seenFrom, lookup_foldl_behind, List.append_nil, List.lookup_cons]
  by_cases h : place = []
  · subst h
    rfl
  · rw [beq_eq_false_iff_ne.mpr h, entryAt_of_ne h]

theorem behind_seenFrom (tree : FileTree) (place : Place) (name : String) :
    (tree.seenFrom place).behind name = tree.seenFrom (place ++ [name]) := by
  rw [seenFrom, seenFrom, List.foldl_append]
  rfl

/-! ## Following names -/

/-- Where names lead from a place. Only from a directory does a name lead on. -/
inductive Leads (tree : FileTree) : Place → List String → Place → Prop
  | here (place : Place) : Leads tree place [] place
  | stay {place goal : Place} {name : String} {rest : List String}
      (hdirectory : tree.entryAt place = some .directory) (hname : name = "" ∨ name = ".")
      (hrest : Leads tree place rest goal) : Leads tree place (name :: rest) goal
  | up {place goal : Place} {rest : List String}
      (hdirectory : tree.entryAt place = some .directory)
      (hrest : Leads tree place.dropLast rest goal) : Leads tree place (".." :: rest) goal
  | down {place goal : Place} {name : String} {rest : List String}
      (hdirectory : tree.entryAt place = some .directory)
      (hname : ¬(name = "" ∨ name = ".")) (hup : name ≠ "..") (hshort : isLongName name = false)
      (hentry : (tree.entryAt (place ++ [name])).isSome)
      (hrest : Leads tree (place ++ [name]) rest goal) : Leads tree place (name :: rest) goal

/-- Behind names that lead somewhere a path is followed on from there. -/
theorem Leads.follow_append (h : tree.Leads place names goal) (path : Path) (more : List String) :
    tree.follow path place (tree.seenFrom place) (names ++ more) =
      tree.follow path goal (tree.seenFrom goal) more := by
  induction h with
  | here place => rfl
  | stay hdirectory hname hrest ih =>
    rw [List.cons_append, follow, here?_seenFrom, hdirectory]
    dsimp only
    rw [if_pos hname, ih]
  | up hdirectory hrest ih =>
    rw [List.cons_append, follow, here?_seenFrom, hdirectory]
    dsimp only
    rw [if_neg (by decide), if_pos rfl, ih]
  | down hdirectory hname hup hshort hentry hrest ih =>
    obtain ⟨entry, hsome⟩ := Option.isSome_iff_exists.mp hentry
    rw [List.cons_append, follow, here?_seenFrom, hdirectory]
    dsimp only
    rw [if_neg hname, if_neg hup, hshort, behind_seenFrom, here?_seenFrom, hsome]
    exact ih

/-- Following a path succeeds just where its names lead somewhere. -/
theorem follow_eq_ok_iff (path : Path) :
    tree.follow path place (tree.seenFrom place) names = .ok goal ↔
      tree.Leads place names goal := by
  constructor
  · intro h
    induction names generalizing place with
    | nil =>
      rw [follow] at h
      cases h
      exact .here _
    | cons name rest ih =>
      rw [follow, here?_seenFrom] at h
      split at h
      · cases h
      · cases h
      · rename_i hdirectory
        split at h
        · rename_i hname
          exact .stay hdirectory hname (ih h)
        · rename_i hname
          split at h
          · rename_i hup
            subst hup
            exact .up hdirectory (ih h)
          · rename_i hup
            split at h
            · cases h
            · rename_i hshort
              dsimp only at h
              rw [behind_seenFrom, here?_seenFrom] at h
              split at h
              · cases h
              · rename_i entry hentry
                exact .down hdirectory hname hup (by simpa using hshort) (by simp [hentry]) (ih h)
  · intro h
    rw [← List.append_nil names, h.follow_append path [], follow]

/-- A path leads to the place that its names lead to from the root, the working directory's names
first. -/
theorem locate_eq_ok_iff :
    tree.locate path = .ok place ↔ path.holdsNull = false ∧ path.isLong = false ∧
      tree.Leads [] (tree.workingDirectory.join path).names place := by
  rw [locate]
  cases hnull : path.holdsNull with
  | true => simp
  | false =>
    cases hlong : path.isLong with
    | true => simp
    | false => simp [follow_eq_ok_iff]

/-- What two lists of names lead to, one behind the other. -/
theorem leads_append :
    tree.Leads place (names ++ more) goal ↔
      ∃ middle, tree.Leads place names middle ∧ tree.Leads middle more goal := by
  constructor
  · intro h
    induction names generalizing place with
    | nil => exact ⟨place, .here place, h⟩
    | cons name names ih =>
      cases h with
      | stay hdirectory hname hrest =>
        obtain ⟨middle, hnames, hmore⟩ := ih hrest
        exact ⟨middle, .stay hdirectory hname hnames, hmore⟩
      | up hdirectory hrest =>
        obtain ⟨middle, hnames, hmore⟩ := ih hrest
        exact ⟨middle, .up hdirectory hnames, hmore⟩
      | down hdirectory hname hup hshort hentry hrest =>
        obtain ⟨middle, hnames, hmore⟩ := ih hrest
        exact ⟨middle, .down hdirectory hname hup hshort hentry hnames, hmore⟩
  · rintro ⟨middle, hnames, hmore⟩
    induction hnames with
    | here place => exact hmore
    | stay hdirectory hname hrest ih => exact .stay hdirectory hname (ih hmore)
    | up hdirectory hrest ih => exact .up hdirectory (ih hmore)
    | down hdirectory hname hup hshort hentry hrest ih =>
      exact .down hdirectory hname hup hshort hentry (ih hmore)

/-- Names that stay where they are may be left out. -/
theorem Leads.kept (h : tree.Leads place names goal) :
    tree.Leads place (names.filter fun name => name != "" && name != ".") goal := by
  induction h with
  | here place => exact .here place
  | stay hdirectory hname hrest ih =>
    rw [List.filter_cons_of_neg (by simpa [or_iff_not_imp_left] using hname)]
    exact ih
  | up hdirectory hrest ih =>
    rw [List.filter_cons_of_pos (by decide)]
    exact .up hdirectory ih
  | down hdirectory hname hup hshort hentry hrest ih =>
    rw [List.filter_cons_of_pos (by simpa [or_iff_not_imp_left] using hname)]
    exact .down hdirectory hname hup hshort hentry ih

/-- What a text leads to as it is written, its path leads to. -/
theorem locate_ofText {text : String} (h : tree.locate (.written text) = .ok place) :
    tree.locate (.ofText text) = .ok place := by
  obtain ⟨hnull, hshort, hleads⟩ := locate_eq_ok_iff.mp h
  refine locate_eq_ok_iff.mpr ⟨?_, Path.isLong_ofText hshort, ?_⟩
  · rw [Path.holdsNull, List.any_eq_false] at hnull ⊢
    rw [Path.names_ofText]
    exact fun name hname => hnull name (List.mem_of_mem_filter hname)
  · unfold Path.join at hleads ⊢
    rw [← Path.absolute_written]
    split at hleads
    · rename_i habsolute
      rw [if_pos habsolute, Path.names_ofText]
      exact hleads.kept
    · rename_i hrelative
      rw [if_neg hrelative]
      dsimp only at hleads ⊢
      obtain ⟨middle, hworking, hrest⟩ := leads_append.mp hleads
      rw [Path.names_ofText]
      exact leads_append.mpr ⟨middle, hworking, hrest.kept⟩

/-- What a path from the root leads to stands in a directory, which the path without its last name
leads to. -/
theorem locate_parent {name : String} (h : tree.locate ⟨.root, names ++ [name]⟩ = .ok goal) :
    ∃ place, tree.locate ⟨.root, names⟩ = .ok place ∧ tree.entryAt place = some .directory := by
  obtain ⟨hnull, hshort, hleads⟩ := locate_eq_ok_iff.mp h
  obtain ⟨place, hnames, hlast⟩ := leads_append.mp hleads
  rw [Path.holdsNull, List.any_append, Bool.or_eq_false_iff] at hnull
  refine ⟨place, locate_eq_ok_iff.mpr ⟨hnull.1, Path.isLong_of_append hshort, hnames⟩, ?_⟩
  cases hlast with
  | stay hdirectory hname hrest => exact hdirectory
  | up hdirectory hrest => exact hdirectory
  | down hdirectory hname hup hshort hentry hrest => exact hdirectory

/-- Names lead to one place at most. -/
theorem Leads.unique {other : Place} (h : tree.Leads place names goal)
    (hother : tree.Leads place names other) : goal = other := by
  have hfirst := (follow_eq_ok_iff .root).mpr h
  have hsecond := (follow_eq_ok_iff .root).mpr hother
  rw [hfirst] at hsecond
  exact Except.ok.inj hsecond

/-- Plain names lead where they are collapsed to. -/
theorem Leads.eq_collapse (h : tree.Leads place names goal)
    (hplain : ∀ name ∈ names, Path.IsPlainName name) :
    goal = Path.collapse place.reverse names := by
  induction h with
  | here place => rw [Path.collapse, List.reverse_reverse]
  | stay hdirectory hname hrest ih =>
    obtain ⟨hblank, hdot, -⟩ := hplain _ List.mem_cons_self
    exact absurd hname (by simp [hblank, hdot])
  | up hdirectory hrest ih =>
    rw [Path.collapse, if_pos rfl, ih fun name hname => hplain name (List.mem_cons_of_mem _ hname),
      List.tail_reverse]
  | down hdirectory hname hup hshort hentry hrest ih =>
    rw [Path.collapse, if_neg hup, ih fun name hname => hplain name (List.mem_cons_of_mem _ hname),
      List.reverse_append]
    rfl

/-! ## What a path leads to -/

theorem seek_of_locate (h : tree.locate path = .ok place) :
    tree.seek path = .ok (tree.entryAt place) := by
  rw [seek, h]

theorem locate_of_seek {entry : Entry} (h : tree.seek path = .ok (some entry)) :
    ∃ place, tree.locate path = .ok place ∧ tree.entryAt place = some entry := by
  unfold seek at h
  split at h
  · cases h
  · cases h
  · rename_i place hlocate
    exact ⟨place, hlocate, Except.ok.inj h⟩

/-- What is too long cannot be looked up. -/
theorem seek_of_isLong (tree : FileTree) (hnull : path.holdsNull = false)
    (hlong : path.isLong = true) :
    tree.seek path = .error (.tooLong path) := by
  rw [seek, locate, hnull, hlong]
  rfl

theorem bytes_of_locate {content : ByteArray} (hlocate : tree.locate path = .ok place)
    (hentry : tree.entryAt place = some (.file content)) : tree.bytes path = .ok content := by
  rw [bytes, hlocate]
  dsimp only
  rw [hentry]

theorem isDirectory_iff :
    tree.isDirectory path = true ↔ tree.seek path = .ok (some .directory) := by
  rw [isDirectory, entry?, seek]
  cases tree.locate path with
  | error fault => cases fault <;> simp
  | ok place =>
    dsimp only
    cases tree.entryAt place with
    | none => simp
    | some entry => cases entry <;> simp

/-! ## Sound trees -/

/-- A tree whose entries can be reached: each stands in a directory and has names that can be looked
up, and the working directory is one. -/
structure Sound (tree : FileTree) : Prop where
  distinct : (tree.entries.map Prod.fst).Nodup
  root : ∀ entry ∈ tree.entries, entry.1 = [] → entry.2 = .directory
  named : ∀ entry ∈ tree.entries, ∀ name ∈ entry.1, IsEntryName name
  parent : ∀ entry ∈ tree.entries, tree.entryAt entry.1.dropLast = some .directory
  absolute : tree.workingDirectory.absolute = true
  working : tree.entryAt tree.workingDirectory.names = some .directory

theorem mem_of_entryAt {entry : Entry} (h : tree.entryAt place = some entry) (hne : place ≠ []) :
    (place, entry) ∈ tree.entries := by
  rw [entryAt_of_ne hne, List.lookup_eq_some_iff] at h
  obtain ⟨before, behind, heq, -⟩ := h
  rw [heq]
  exact List.mem_append_right before List.mem_cons_self

namespace Sound

variable {name : String} {entry : Entry} {sub : List String}

theorem entryAt_of_mem (h : tree.Sound) (hmem : (place, entry) ∈ tree.entries) :
    tree.entryAt place = some entry := by
  by_cases hroot : place = []
  · have hentry : entry = .directory := h.root _ hmem hroot
    rw [hroot, hentry, entryAt_root]
  rw [entryAt_of_ne hroot, List.lookup_eq_some_iff]
  obtain ⟨before, behind, heq⟩ := List.append_of_mem hmem
  refine ⟨before, behind, heq, fun other hother => ?_⟩
  have hdistinct := h.distinct
  rw [heq, List.map_append, List.map_cons, List.nodup_append] at hdistinct
  have hne := hdistinct.2.2 other.1 (List.mem_map_of_mem hother) place List.mem_cons_self
  exact bne_iff_ne.mpr (Ne.symm hne)

theorem isEntryName (h : tree.Sound) (hentry : (tree.entryAt place).isSome) :
    ∀ name ∈ place, IsEntryName name := by
  intro name hname
  obtain ⟨entry, hsome⟩ := Option.isSome_iff_exists.mp hentry
  exact h.named _ (mem_of_entryAt hsome (List.ne_nil_of_mem hname)) name hname

/-- What has an entry stands in a directory. -/
theorem entryAt_dropLast (h : tree.Sound) (hentry : (tree.entryAt place).isSome) :
    tree.entryAt place.dropLast = some .directory := by
  by_cases hne : place = []
  · subst hne
    rfl
  · obtain ⟨entry, hsome⟩ := Option.isSome_iff_exists.mp hentry
    exact h.parent _ (mem_of_entryAt hsome hne)

/-- What has something below it is a directory. -/
theorem entryAt_of_append (h : tree.Sound) (hne : sub ≠ [])
    (hentry : (tree.entryAt (place ++ sub)).isSome) : tree.entryAt place = some .directory := by
  induction sub using List.reverseRecOn with
  | nil => exact absurd rfl hne
  | append_singleton sub name ih =>
    have hdirectory := h.entryAt_dropLast hentry
    rw [← List.append_assoc, List.dropLast_concat] at hdirectory
    by_cases hsub : sub = []
    · rwa [hsub, List.append_nil] at hdirectory
    · exact ih hsub (by rw [hdirectory]; rfl)

/-- Below a place where nothing is there is nothing. -/
theorem entryAt_below_none (h : tree.Sound) (hnone : tree.entryAt place = none)
    (sub : List String) : tree.entryAt (place ++ sub) = none := by
  by_cases hsub : sub = []
  · rwa [hsub, List.append_nil]
  · rw [Option.eq_none_iff_forall_ne_some]
    intro entry hentry
    have hdirectory := h.entryAt_of_append hsub (by rw [hentry]; rfl)
    rw [hnone] at hdirectory
    cases hdirectory

/-- From a directory names lead to entries only. -/
theorem entryAt_of_leads (h : tree.Sound) (hleads : tree.Leads place names goal)
    (hentry : (tree.entryAt place).isSome) : (tree.entryAt goal).isSome := by
  induction hleads with
  | here place => exact hentry
  | stay hdirectory hname hrest ih => exact ih hentry
  | up hdirectory hrest ih => exact ih (by rw [h.entryAt_dropLast hentry]; rfl)
  | down hdirectory hname hup hshort hbelow hrest ih => exact ih hbelow

/-- A path that is located leads to an entry. -/
theorem entryAt_of_locate (h : tree.Sound) (hlocate : tree.locate path = .ok place) :
    (tree.entryAt place).isSome :=
  h.entryAt_of_leads (locate_eq_ok_iff.mp hlocate).2.2 rfl

/-- The path of an entry does not hold the character of code zero. -/
theorem holdsNull_eq_false (h : tree.Sound) (hentry : (tree.entryAt place).isSome) :
    (Path.mk .root place).holdsNull = false := by
  rw [Path.holdsNull, List.any_eq_false]
  intro name hname
  simpa using (h.isEntryName hentry name hname).noNull

/-- The names from one place down to an entry lead there. -/
theorem leads (h : tree.Sound) (hentry : (tree.entryAt (place ++ sub)).isSome) :
    tree.Leads place sub (place ++ sub) := by
  induction sub generalizing place with
  | nil =>
    rw [List.append_nil]
    exact .here place
  | cons name sub ih =>
    have hname := h.isEntryName hentry name (List.mem_append_right place List.mem_cons_self)
    obtain ⟨hblank, hdot, -⟩ := hname.plain
    have hdirectory := h.entryAt_of_append (List.cons_ne_nil name sub) hentry
    rw [List.append_cons] at hentry ⊢
    refine .down hdirectory (by simp [hblank, hdot]) hname.ne_up hname.short ?_ (ih hentry)
    by_cases hsub : sub = []
    · rwa [hsub, List.append_nil] at hentry
    · rw [h.entryAt_of_append hsub hentry]
      rfl

/-- What is below a located path is located by its names behind those of the path, unless they are
too long together. -/
theorem locate_below (h : tree.Sound) (hlocate : tree.locate path = .ok place)
    (hentry : (tree.entryAt (place ++ sub)).isSome)
    (hshort : (Path.mk path.anchor (path.names ++ sub)).isLong = false) :
    tree.locate ⟨path.anchor, path.names ++ sub⟩ = .ok (place ++ sub) := by
  obtain ⟨hnull, -, hleads⟩ := locate_eq_ok_iff.mp hlocate
  refine locate_eq_ok_iff.mpr ⟨?_, hshort, ?_⟩
  · have hplace := h.holdsNull_eq_false hentry
    rw [Path.holdsNull, List.any_append, Bool.or_eq_false_iff] at hplace ⊢
    exact ⟨hnull, hplace.2⟩
  · rw [Path.join_append]
    exact leads_append.mpr ⟨place, hleads, h.leads hentry⟩

theorem locate_root (tree : FileTree) : tree.locate .root = .ok [] :=
  locate_eq_ok_iff.mpr ⟨rfl, by decide, .here []⟩

/-- An entry is located by its own names from the root, unless they are too long together. -/
theorem locate_self (h : tree.Sound) (hentry : (tree.entryAt place).isSome)
    (hshort : (Path.mk .root place).isLong = false) : tree.locate ⟨.root, place⟩ = .ok place :=
  h.locate_below (locate_root tree) hentry hshort

/-- What a name leads to from a directory is found under the names of both, unless they are too long
together. -/
theorem seek_below (h : tree.Sound) (hdirectory : tree.entryAt place = some .directory)
    (hname : IsEntryName name) (hshort : (Path.mk .root (place ++ [name])).isLong = false) :
    tree.seek ⟨.root, place ++ [name]⟩ = .ok (tree.entryAt (place ++ [name])) := by
  cases hentry : tree.entryAt (place ++ [name]) with
  | some entry =>
    rw [seek_of_locate (h.locate_self (by rw [hentry]; rfl) hshort), hentry]
  | none =>
    have hplace : (tree.entryAt ([] ++ place)).isSome := by
      rw [List.nil_append, hdirectory]
      rfl
    have hnull : (Path.mk .root (place ++ [name])).holdsNull = false := by
      rw [Path.holdsNull, List.any_append, Bool.or_eq_false_iff]
      refine ⟨h.holdsNull_eq_false hplace, ?_⟩
      simpa using hname.noNull
    obtain ⟨hblank, hdot, -⟩ := hname.plain
    have hlocate : tree.locate ⟨.root, place ++ [name]⟩ =
        .error (.missing ⟨.root, place ++ [name]⟩) := by
      rw [locate, hnull, hshort, if_neg (by decide), if_neg (by decide), Path.join_root,
        (h.leads hplace).follow_append, follow, here?_seenFrom, List.nil_append, hdirectory]
      dsimp only
      rw [if_neg (by simp [hblank, hdot]), if_neg hname.ne_up, hname.short, behind_seenFrom,
        here?_seenFrom, hentry]
      rfl
    rw [seek, hlocate]

/-- A plain path that is located resolves to its place. -/
theorem resolve_of_locate (h : tree.Sound) (hplain : path.IsPlain)
    (hlocate : tree.locate path = .ok place) :
    path.resolve tree.workingDirectory = ⟨.root, place⟩ := by
  obtain ⟨-, -, hleads⟩ := locate_eq_ok_iff.mp hlocate
  have hworking : tree.workingDirectory.IsPlain := by
    intro name hname
    exact (h.isEntryName (by rw [h.working]; rfl) name hname).plain
  rw [Path.resolve, hleads.eq_collapse (hworking.join hplain)]
  rfl

/-- What is in a directory are the entries one name below it. -/
theorem mem_children (h : tree.Sound) :
    (name, entry) ∈ tree.children place ↔ tree.entryAt (place ++ [name]) = some entry := by
  rw [children, List.mem_filterMap]
  constructor
  · rintro ⟨⟨other, value⟩, hmem, hchild⟩
    dsimp only at hchild
    split at hchild
    · rename_i last hlast
      split at hchild
      · rename_i hplace
        cases hchild
        have hother : place ++ [name] = other := by
          rw [← hplace]
          exact List.dropLast_append_getLast? name hlast
        rw [hother]
        exact h.entryAt_of_mem hmem
      · cases hchild
    · cases hchild
  · intro hentry
    refine ⟨(place ++ [name], entry), mem_of_entryAt hentry (by simp), ?_⟩
    simp

end Sound

end FileTree

end FrontEnd
