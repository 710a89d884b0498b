import FrontEnd.Proofs.Files.Tree
import Mathlib.Data.List.Nodup

/-!
# Trees of files that grow

Making directories and writing files puts entries at places of a sound tree. The tree stays sound,
and what was found before is still found.

* `FileTree.Grows` — a tree that has all directories and entries of another.
* `FileTree.Leads.mono` — names that lead somewhere still lead there in a tree that has grown.
* `FileTree.Sound.put` — an entry in a directory keeps a tree sound.
* `FileTree.sound_ofWorkingDirectory` — the tree that a program begins with is sound.
* `FileTree.makeDirectories_child`, `FileTree.writeText_child` — what the changes of a tree do.
-/

set_option autoImplicit false

namespace FrontEnd.FileTree

variable {tree later : FileTree} {path : Path} {place goal : Place} {names : List String}
  {name : String} {entry : Entry}

/-! ## Entries that are put -/

theorem lookup_filter_ne {other : Place} (h : other ≠ place) (entries : Entries) :
    List.lookup other (entries.filter fun entry => entry.1 != place) =
      List.lookup other entries := by
  induction entries with
  | nil => rfl
  | cons first entries ih =>
    obtain ⟨at', value⟩ := first
    by_cases hsame : at' = place
    · subst hsame
      rw [List.filter_cons_of_neg (by simp), ih, List.lookup_cons, beq_eq_false_iff_ne.mpr h]
    · rw [List.filter_cons_of_pos (by simpa using hsame), List.lookup_cons, List.lookup_cons, ih]

theorem lookup_filter_self (entries : Entries) :
    List.lookup place (entries.filter fun entry => entry.1 != place) = none := by
  rw [List.lookup_eq_none_iff]
  intro other hother
  have hne := (List.mem_filter.mp hother).2
  exact bne_iff_ne.mpr (Ne.symm (bne_iff_ne.mp hne))

/-- What was put at a place is there, and elsewhere nothing changes. -/
theorem entryAt_put (hne : place ≠ []) (other : Place) :
    (tree.put place entry).entryAt other =
      if other = place then some entry else tree.entryAt other := by
  by_cases hroot : other = []
  · subst hroot
    rw [if_neg (Ne.symm hne), entryAt_root, entryAt_root]
  · rw [entryAt_of_ne hroot, put, List.lookup_append]
    split
    · rename_i hsame
      subst hsame
      rw [lookup_filter_self, List.lookup_cons, beq_self_eq_true]
      rfl
    · rename_i hother
      rw [lookup_filter_ne hother, entryAt_of_ne hroot, List.lookup_cons,
        beq_eq_false_iff_ne.mpr hother]
      exact Option.or_none

theorem entryAt_put_self (tree : FileTree) (hne : place ≠ []) (entry : Entry) :
    (tree.put place entry).entryAt place = some entry := by
  rw [entryAt_put hne, if_pos rfl]

/-! ## Growing -/

/-- A tree that has all directories and entries of another one, files perhaps rewritten. -/
structure Grows (tree later : FileTree) : Prop where
  workingDirectory : later.workingDirectory = tree.workingDirectory
  directory : ∀ place, tree.entryAt place = some .directory →
    later.entryAt place = some .directory
  present : ∀ place, (tree.entryAt place).isSome → (later.entryAt place).isSome

namespace Grows

theorem refl (tree : FileTree) : Grows tree tree :=
  ⟨rfl, fun _ => id, fun _ => id⟩

theorem trans {middle : FileTree} (h : Grows tree middle) (hrest : Grows middle later) :
    Grows tree later :=
  ⟨hrest.workingDirectory.trans h.workingDirectory,
    fun place hplace => hrest.directory place (h.directory place hplace),
    fun place hplace => hrest.present place (h.present place hplace)⟩

theorem put (hne : place ≠ []) (hkept : entry = .directory ∨ tree.entryAt place ≠ some .directory) :
    Grows tree (tree.put place entry) := by
  refine ⟨rfl, fun other hother => ?_, fun other hother => ?_⟩
  · rw [entryAt_put hne]
    split
    · rename_i hsame
      subst hsame
      rcases hkept with rfl | hkept
      · rfl
      · exact absurd hother hkept
    · exact hother
  · rw [entryAt_put hne]
    split
    · rfl
    · exact hother

end Grows

/-- An entry in a directory keeps a tree sound, unless it takes the place of a directory. -/
theorem Sound.put (h : tree.Sound) (hname : IsEntryName name)
    (hparent : tree.entryAt place = some .directory)
    (hkept : entry = .directory ∨ tree.entryAt (place ++ [name]) ≠ some .directory) :
    (tree.put (place ++ [name]) entry).Sound := by
  have hne : place ++ [name] ≠ [] := by simp
  have hdirectory := (Grows.put hne hkept).directory
  have hmem : ∀ other ∈ (tree.put (place ++ [name]) entry).entries,
      other ∈ tree.entries ∨ other = (place ++ [name], entry) := by
    intro other hother
    rcases List.mem_append.mp hother with hold | hnew
    · exact .inl (List.mem_filter.mp hold).1
    · exact .inr (List.mem_singleton.mp hnew)
  refine ⟨?_, fun other hother => ?_, fun other hother => ?_, fun other hother => ?_, h.absolute,
    hdirectory _ h.working⟩
  · rw [FileTree.put, List.map_append, List.nodup_append]
    refine ⟨h.distinct.sublist (List.filter_sublist.map _), List.nodup_singleton _, ?_⟩
    intro first hfirst second hsecond
    obtain ⟨old, hold, rfl⟩ := List.mem_map.mp hfirst
    rw [List.map_singleton, List.mem_singleton] at hsecond
    rw [hsecond]
    exact bne_iff_ne.mp (List.mem_filter.mp hold).2
  · rcases hmem other hother with hold | rfl
    · exact h.root other hold
    · exact fun hroot => absurd hroot hne
  · rcases hmem other hother with hold | rfl
    · exact h.named other hold
    · intro other hother
      rcases List.mem_append.mp hother with habove | hlast
      · exact h.isEntryName (by rw [hparent]; rfl) other habove
      · rw [List.mem_singleton.mp hlast]
        exact hname
  · rcases hmem other hother with hold | rfl
    · exact hdirectory _ (h.parent other hold)
    · rw [List.dropLast_concat]
      exact hdirectory _ hparent

/-- Names that lead somewhere still lead there when the tree has grown. -/
theorem Leads.mono (h : Grows tree later) (hleads : tree.Leads place names goal) :
    later.Leads place names goal := by
  induction hleads with
  | here place => exact .here place
  | stay hdirectory hname hrest ih => exact .stay (h.directory _ hdirectory) hname ih
  | up hdirectory hrest ih => exact .up (h.directory _ hdirectory) ih
  | down hdirectory hname hup hshort hentry hrest ih =>
    exact .down (h.directory _ hdirectory) hname hup hshort (h.present _ hentry) ih

theorem locate_mono (h : Grows tree later) (hlocate : tree.locate path = .ok place) :
    later.locate path = .ok place := by
  obtain ⟨hnull, hshort, hleads⟩ := locate_eq_ok_iff.mp hlocate
  refine locate_eq_ok_iff.mpr ⟨hnull, hshort, ?_⟩
  rw [h.workingDirectory]
  exact hleads.mono h

/-! ## Trees to begin with -/

/-- A tree with directories at the first beginnings of a place, where nothing was. -/
def laid (place : Place) (tree : FileTree) (count : Nat) : FileTree :=
  ((List.range count).map place.take).foldl
    (fun tree above => if (tree.entryAt above).isSome then tree else tree.put above .directory) tree

theorem laid_succ (place : Place) (tree : FileTree) (count : Nat) :
    laid place tree (count + 1) =
      if ((laid place tree count).entryAt (place.take count)).isSome then laid place tree count
      else (laid place tree count).put (place.take count) .directory := by
  rw [laid, List.range_succ, List.map_append, List.foldl_append]
  rfl

theorem install_eq (place : Place) (entry : Entry) (tree : FileTree) :
    install place entry tree = (laid place tree place.length).put place entry := rfl

/-- Where no file is on the way, directories can be laid. -/
theorem sound_laid (h : tree.Sound) (hnames : ∀ name ∈ place, IsEntryName name)
    (hway : ∀ n < place.length, ∀ content, tree.entryAt (place.take n) ≠ some (.file content))
    {count : Nat} (hcount : count ≤ place.length) :
    (laid place tree count).Sound ∧ Grows tree (laid place tree count) ∧
      (∀ n < count, (laid place tree count).entryAt (place.take n) = some .directory) ∧
      ∀ n ≤ place.length, count ≤ n →
        (laid place tree count).entryAt (place.take n) = tree.entryAt (place.take n) := by
  induction count with
  | zero => exact ⟨h, .refl tree, nofun, fun _ _ _ => rfl⟩
  | succ count ih =>
    obtain ⟨hsound, hgrows, hbelow, hbeyond⟩ := ih (Nat.le_of_succ_le hcount)
    rw [laid_succ]
    cases hentry : (laid place tree count).entryAt (place.take count) with
    | some entry =>
      have hdirectory : entry = .directory := by
        cases entry with
        | directory => rfl
        | file content =>
          rw [hbeyond count (Nat.le_of_succ_le hcount) le_rfl] at hentry
          exact absurd hentry (hway count hcount content)
      rw [if_pos (by rfl)]
      refine ⟨hsound, hgrows, fun n hn => ?_,
        fun n hn hbetween => hbeyond n hn (Nat.le_of_succ_le hbetween)⟩
      rcases Nat.lt_succ_iff_lt_or_eq.mp hn with hless | rfl
      · exact hbelow n hless
      · rw [hentry, hdirectory]
    | none =>
      have hroot : count ≠ 0 := by
        rintro rfl
        cases hentry
      obtain ⟨count, rfl⟩ := Nat.exists_eq_succ_of_ne_zero hroot
      have htake : place.take (count + 1) = place.take count ++ [place[count]] :=
        List.take_succ_eq_append_getElem (by omega)
      have hne : place.take count ++ [place[count]] ≠ [] :=
        List.append_ne_nil_of_right_ne_nil _ (by simp)
      have hname : IsEntryName place[count] := hnames _ (List.getElem_mem _)
      rw [if_neg (by simp), htake]
      refine ⟨hsound.put hname (hbelow count (Nat.lt_succ_self count)) (.inl rfl),
        hgrows.trans (.put hne (.inl rfl)), fun n hn => ?_, fun n hn hbetween => ?_⟩
      · rw [entryAt_put hne]
        split
        · rfl
        · rename_i hother
          refine hbelow n (Nat.lt_of_le_of_ne (Nat.lt_succ_iff.mp hn) ?_)
          rintro rfl
          exact hother htake
      · rw [entryAt_put hne, if_neg, hbeyond n hn (Nat.le_of_succ_le hbetween)]
        intro hsame
        have hlength := congrArg List.length hsame
        rw [← htake, List.length_take, List.length_take] at hlength
        omega

/-- Where no file is on the way, an entry is installed with the directories above it. -/
theorem sound_install (h : tree.Sound) (hnames : ∀ name ∈ place, IsEntryName name)
    (hne : place ≠ [])
    (hway : ∀ n < place.length, ∀ content, tree.entryAt (place.take n) ≠ some (.file content))
    (hkept : entry = .directory ∨ tree.entryAt place ≠ some .directory) :
    (install place entry tree).Sound := by
  obtain ⟨hsound, -, hbelow, hbeyond⟩ := sound_laid h hnames hway le_rfl
  obtain ⟨above, name, rfl⟩ := (List.eq_nil_or_concat' place).resolve_left hne
  have hlast := hbeyond (above ++ [name]).length le_rfl le_rfl
  rw [List.take_length] at hlast
  have habove := hbelow above.length (by simp)
  rw [List.take_left] at habove
  rw [install_eq]
  refine hsound.put (hnames name (by simp)) habove ?_
  rwa [hlast]

/-- What is installed does not depend on the working directory. -/
theorem laid_withWorkingDirectory (place : Place) (tree : FileTree) (path : Path) (count : Nat) :
    laid place { tree with workingDirectory := path } count =
      { laid place tree count with workingDirectory := path } := by
  induction count with
  | zero => rfl
  | succ count ih =>
    rw [laid_succ, laid_succ, ih]
    show (if ((laid place tree count).entryAt (place.take count)).isSome then _ else _) = _
    split <;> rfl

/-- Any directory of a sound tree may be the working directory. -/
theorem Sound.withWorkingDirectory (h : tree.Sound)
    (hplace : tree.entryAt place = some .directory) :
    ({ tree with workingDirectory := ⟨.root, place⟩ } : FileTree).Sound :=
  ⟨h.distinct, h.root, h.named, h.parent, rfl, hplace⟩

/-- **A tree that holds nothing but its working directory is sound**, and what directories and files
are put into it keeps it so. -/
theorem sound_ofWorkingDirectory (hnames : ∀ name ∈ place, IsEntryName name) :
    (ofWorkingDirectory place).Sound := by
  by_cases hne : place = []
  · subst hne
    refine ⟨List.nodup_singleton _, fun entry hentry _ => ?_, fun entry hentry name hname => ?_,
      fun entry hentry => ?_, rfl, rfl⟩
    · rw [List.mem_singleton.mp hentry]
    · rw [List.mem_singleton.mp hentry] at hname
      cases hname
    · rw [List.mem_singleton.mp hentry]
      rfl
  · have hempty : (⟨[], .root⟩ : FileTree).Sound :=
      ⟨List.nodup_nil, nofun, nofun, nofun, rfl, rfl⟩
    have hnoFile : ∀ (other : Place) content,
        (⟨[], .root⟩ : FileTree).entryAt other ≠ some (.file content) := by
      intro other content hentry
      by_cases hroot : other = []
      · subst hroot
        cases hentry
      · rw [entryAt_of_ne hroot] at hentry
        cases hentry
    have hinstalled :=
      sound_install hempty hnames hne (fun n _ => hnoFile (place.take n)) (.inl rfl)
    have hplace : (install place .directory ⟨[], .root⟩).entryAt place = some .directory :=
      entryAt_put_self _ hne .directory
    have hsame : ofWorkingDirectory place =
        { install place .directory ⟨[], .root⟩ with workingDirectory := ⟨.root, place⟩ } := by
      rw [ofWorkingDirectory, install_eq, install_eq]
      exact congrArg (put place .directory)
        (laid_withWorkingDirectory place ⟨[], .root⟩ ⟨.root, place⟩ place.length)
    rw [hsame]
    exact hinstalled.withWorkingDirectory hplace

/-! ## Changes -/

/-- A path without names leads to the root or to the working directory. -/
theorem entryAt_of_no_names (hsound : tree.Sound) (hnames : path.names = [])
    (h : tree.locate path.parent = .ok place) : tree.entryAt place = some .directory := by
  obtain ⟨-, -, hleads⟩ := locate_eq_ok_iff.mp h
  rw [Path.parent, hnames] at hleads
  unfold Path.join at hleads
  split at hleads
  · cases hleads
    rfl
  · rw [List.dropLast_nil, List.append_nil] at hleads
    have hhere : tree.Leads [] tree.workingDirectory.names tree.workingDirectory.names :=
      hsound.leads (by rw [List.nil_append, hsound.working]; rfl)
    rw [hleads.unique hhere]
    exact hsound.working

/-- Where a path leads to whose last name need not exist: one name below a directory. -/
theorem spot_eq_ok (hplain : path.IsPlain) (h : tree.spot path = .ok place)
    (hsound : tree.Sound) (hnew : tree.entryAt place ≠ some .directory) :
    ∃ above name, path.names.getLast? = some name ∧ IsEntryName name ∧
      tree.locate path.parent = .ok above ∧ tree.entryAt above = some .directory ∧
      place = above ++ [name] ∧ path.holdsNull = false ∧ path.isLong = false := by
  unfold spot at h
  split at h
  · cases h
  · rename_i hnull
    split at h
    · cases h
    · rename_i hlong
      split at h
      all_goals try cases h
      · rename_i hlast hlocate
        exact absurd (entryAt_of_no_names hsound (List.getLast?_eq_none_iff.mp hlast) hlocate) hnew
      · rename_i above name hlocate hlast
        split at h
        · rename_i hdirectory
          split at h
          · cases h
            exact absurd (hsound.entryAt_dropLast (by rw [hdirectory]; rfl)) hnew
          · rename_i hup
            split at h
            · cases h
            · rename_i hshort
              cases h
              have hmem := List.mem_of_getLast? hlast
              refine ⟨above, name, hlast, ⟨hplain name hmem, hup, by simpa using hshort, ?_⟩,
                hlocate, hdirectory, rfl, by simpa using hnull, by simpa using hlong⟩
              have hnone := hnull
              rw [Path.holdsNull, Bool.not_eq_true, List.any_eq_false] at hnone
              simpa using hnone name hmem
        · cases h

/-- The names of a path are those of its parent and its last one. -/
theorem names_eq_concat (hlast : path.names.getLast? = some name) :
    path.names = path.parent.names ++ [name] :=
  (List.dropLast_append_getLast? name hlast).symm

theorem join_names_concat (base : Path) (hlast : path.names.getLast? = some name) :
    (base.join path).names = (base.join path.parent).names ++ [name] := by
  rw [← Path.join_append, ← names_eq_concat hlast]
  rfl

/-- Two changes that succeed one behind the other. -/
theorem bind_ok {α β : Type} {first : Change α} {next : α → Change β} {result : β}
    (h : (first >>= next) tree = .ok result later) :
    ∃ value middle, first tree = .ok value middle ∧ next value middle = .ok result later := by
  change EStateM.bind first next tree = _ at h
  unfold EStateM.bind at h
  split at h
  · rename_i value middle hfirst
    exact ⟨value, middle, hfirst, h⟩
  · cases h

/-- What a change that puts one entry does: the tree stays sound and grows, the entry is where its
path leads, and elsewhere nothing changes. -/
structure Adds (tree later : FileTree) (path : Path) (place : Place) (entry : Entry) : Prop where
  sound : later.Sound
  grows : Grows tree later
  located : later.locate path = .ok place
  parent : tree.locate path.parent = .ok place.dropLast
  last : path.names.getLast? = place.getLast?
  entryAt : ∀ other, later.entryAt other = if other = place then some entry else tree.entryAt other

theorem adds_of_spot (hsound : tree.Sound) (hplain : path.IsPlain)
    (h : tree.spot path = .ok place)
    (hnew : tree.entryAt place ≠ some .directory) (entry : Entry) :
    Adds tree (tree.put place entry) path place entry := by
  obtain ⟨above, name, hlast, hname, hlocate, habove, rfl, hnull, hlong⟩ :=
    spot_eq_ok hplain h hsound hnew
  have hne : above ++ [name] ≠ [] := by simp
  have hlater : (tree.put (above ++ [name]) entry).Sound := hsound.put hname habove (.inr hnew)
  have hgrows : Grows tree (tree.put (above ++ [name]) entry) := .put hne (.inr hnew)
  refine ⟨hlater, hgrows, ?_, ?_, ?_, entryAt_put hne⟩
  · refine locate_eq_ok_iff.mpr ⟨hnull, hlong, ?_⟩
    obtain ⟨-, -, hleads⟩ := locate_eq_ok_iff.mp (locate_mono hgrows hlocate)
    have hentry : ((tree.put (above ++ [name]) entry).entryAt (above ++ [name])).isSome := by
      rw [entryAt_put_self tree hne]
      rfl
    rw [join_names_concat _ hlast]
    exact leads_append.mpr ⟨above, hleads, hlater.leads hentry⟩
  · rw [List.dropLast_concat]
    exact hlocate
  · rw [hlast, List.getLast?_concat]

/-- A directory is made at a place where nothing is. -/
theorem makeDirectory_ok (hsound : tree.Sound) (hplain : path.IsPlain)
    (h : makeDirectory path tree = .ok () later) :
    ∃ place, tree.entryAt place = none ∧ Adds tree later path place .directory := by
  unfold makeDirectory at h
  split at h
  · cases h
  · rename_i place hspot
    split at h
    · cases h
    · rename_i hnone
      cases h
      exact ⟨place, hnone, adds_of_spot hsound hplain hspot (by rw [hnone]; nofun) .directory⟩

/-- A directory that cannot be made leaves the tree as it is. -/
theorem makeDirectory_error {fault : FileFault} (h : makeDirectory path tree = .error fault later) :
    later = tree := by
  unfold makeDirectory at h
  split at h
  · cases h
    rfl
  · split at h <;> cases h
    rfl

/-- A file is written at a place where no directory is. -/
theorem writeBytes_ok (hsound : tree.Sound) (hplain : path.IsPlain) {content : ByteArray}
    (h : writeBytes path content tree = .ok () later) :
    ∃ place, Adds tree later path place (.file content) := by
  unfold writeBytes at h
  split at h
  · cases h
  · rename_i place hspot
    split at h
    · cases h
    · rename_i hfile
      cases h
      exact ⟨place, adds_of_spot hsound hplain hspot hfile (.file content)⟩

/-- What is added under a name in a directory is that name below its place. -/
theorem Adds.eq_concat {base : Path} {above : Place}
    (h : Adds tree later (base.child name) place entry) (hbase : tree.locate base = .ok above) :
    place = above ++ [name] := by
  have hparent := h.parent
  have hlast := h.last
  rw [Path.parent, Path.child, List.dropLast_concat, hbase] at hparent
  rw [Path.child, List.getLast?_concat] at hlast
  rw [Except.ok.inj hparent]
  exact (List.dropLast_append_getLast? name hlast.symm).symm

/-- A text is written under a name in a directory. -/
theorem writeText_child {base : Path} {above : Place} {content : String} (hsound : tree.Sound)
    (hplain : (base.child name).IsPlain) (hbase : tree.locate base = .ok above)
    (h : writeText (base.child name) content tree = .ok () later) :
    Adds tree later (base.child name) (above ++ [name]) (.file content.toUTF8) := by
  obtain ⟨place, hadds⟩ := writeBytes_ok hsound hplain h
  have hplace := hadds.eq_concat hbase
  subst hplace
  exact hadds

/-- What making directories does: the tree stays sound and grows, and what must not exist already is
made last, at a place where nothing is. -/
structure Provides (tree later : FileTree) (path : Path) (tolerant : Bool) : Prop where
  sound : later.Sound
  grows : Grows tree later
  fresh : tolerant = false → ∃ middle place, middle.Sound ∧ Grows tree middle ∧
    middle.entryAt place = none ∧ Adds middle later path place .directory

theorem provides_of_made {middle : FileTree} {tolerant : Bool} (hsound : middle.Sound)
    (hgrows : Grows tree middle) (hplain : path.IsPlain)
    (h : makeDirectory path middle = .ok () later) : Provides tree later path tolerant := by
  obtain ⟨place, hnone, hadds⟩ := makeDirectory_ok hsound hplain h
  exact ⟨hadds.sound, hgrows.trans hadds.grows,
    fun _ => ⟨middle, place, hsound, hgrows, hnone, hadds⟩⟩

theorem provides_of_settled {middle : FileTree} {tolerant : Bool} {fault : FileFault}
    (hsound : middle.Sound) (hgrows : Grows tree middle)
    (h : (if tolerant && middle.isDirectory path then EStateM.Result.ok () middle
      else .error fault middle) = .ok () later) : Provides tree later path tolerant := by
  split at h
  · rename_i htolerant
    cases h
    refine ⟨hsound, hgrows, fun hstrict => ?_⟩
    rw [hstrict] at htolerant
    cases htolerant
  · cases h

/-- Directories are made one below the other. -/
theorem makeDirectories_ok {anchor : Anchor} {tolerant : Bool} {reversed : List String}
    (hsound : tree.Sound) (hplain : ∀ name ∈ reversed, Path.IsPlainName name)
    (h : makeDirectories anchor tolerant reversed tree = .ok () later) :
    Provides tree later ⟨anchor, reversed.reverse⟩ tolerant := by
  induction reversed generalizing tolerant later with
  | nil =>
    unfold makeDirectories at h
    split at h
    · rename_i htolerant
      cases h
      refine ⟨hsound, .refl tree, fun hstrict => ?_⟩
      rw [hstrict] at htolerant
      cases htolerant
    · cases h
  | cons name above ih =>
    have hpath : (Path.mk anchor (name :: above).reverse).IsPlain :=
      fun other hother => hplain other (List.mem_reverse.mp hother)
    have habove : ∀ other ∈ above, Path.IsPlainName other :=
      fun other hother => hplain other (List.mem_cons_of_mem name hother)
    rw [makeDirectories] at h
    dsimp only at h
    split at h
    · rename_i hmake
      cases h
      exact provides_of_made hsound (.refl tree) hpath hmake
    · rename_i hmake
      rw [makeDirectory_error hmake] at h
      split at h
      · cases h
      · rename_i middle hbelow
        have hprovides := ih habove hbelow
        split at h
        · rename_i hagain
          cases h
          exact provides_of_made hprovides.sound hprovides.grows hpath hagain
        · rename_i hagain
          rw [makeDirectory_error hagain] at h
          exact provides_of_settled hprovides.sound hprovides.grows h
    · rename_i hmake
      rw [makeDirectory_error hmake] at h
      exact provides_of_settled hsound (.refl tree) h

/-- A directory that must not exist already, made with the directories above it, is empty. -/
theorem makeDirectories_child {base : Path} (hsound : tree.Sound)
    (hplain : (base.child name).IsPlain)
    (h : makeDirectories base.anchor false (base.child name).names.reverse tree = .ok () later) :
    later.Sound ∧ Grows tree later ∧ ∃ above, later.locate base = .ok above ∧
      later.locate (base.child name) = .ok (above ++ [name]) ∧
      ∀ sub, (later.entryAt (above ++ [name] ++ sub)).isSome → sub = [] := by
  have hprovides :=
    makeDirectories_ok hsound (fun name hname => hplain name (List.mem_reverse.mp hname)) h
  obtain ⟨middle, place, hmiddle, hgrows, hnone, hadds⟩ := hprovides.fresh rfl
  rw [List.reverse_reverse] at hadds
  obtain ⟨above, habove⟩ : ∃ above, middle.locate base = .ok above := by
    have hparent := hadds.parent
    rw [Path.parent, Path.child, List.dropLast_concat] at hparent
    exact ⟨_, hparent⟩
  have hplace : place = above ++ [name] := hadds.eq_concat habove
  subst hplace
  refine ⟨hadds.sound, hprovides.grows, above, locate_mono hadds.grows habove, hadds.located,
    fun sub hsub => ?_⟩
  rw [hadds.entryAt] at hsub
  split at hsub
  · rename_i hsame
    exact List.append_right_eq_self.mp hsame
  · rw [hmiddle.entryAt_below_none hnone] at hsub
    cases hsub

end FrontEnd.FileTree
