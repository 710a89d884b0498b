import FrontEnd.Files.Glob
import FrontEnd.Proofs.Files.Tree
import Mathlib.Data.List.Lex
import Mathlib.Data.String.Basic

/-!
# What a pattern finds below a directory

A pattern for the end of names finds all entries below a directory whose names end so, at any depth,
each once and in the order of their names.

* `Glob.pairwise_arranged` — the order of paths is that of their lists of names.
* `Glob.fits_of_suffix`, `Glob.fits_verbatim` — an asterisk and an ending fit the names that end so.
* `Glob.reach_anywhere`, `Glob.reach_matching` — what each step of such a pattern comes to.
* `Glob.findAll_ending` — what is found.
-/

set_option autoImplicit false

namespace FrontEnd.Glob

variable {tree : FileTree} {directory path : Path} {place : Place} {names : List String}

/-! ## The order of paths -/

theorem textLt_iff (text other : List Char) : textLt text other = true ↔ text < other := by
  induction text generalizing other with
  | nil =>
    cases other with
    | nil => simp [textLt]
    | cons d other => simp [textLt]
  | cons c text ih =>
    cases other with
    | nil => simp [textLt]
    | cons d other =>
      have hc : c.toNat < d.toNat ↔ c < d := Iff.rfl
      rw [textLt, List.cons_lt_cons_iff, Bool.or_eq_true, Bool.and_eq_true, decide_eq_true_iff, hc,
        beq_iff_eq, ih]

/-- Lists of names are compared as lists are. -/
theorem namesLe_iff (names others : List String) :
    namesLe names others = true ↔ names ≤ others := by
  rw [le_iff_lt_or_eq]
  induction names generalizing others with
  | nil =>
    cases others with
    | nil => simp [namesLe]
    | cons other others => simp [namesLe]
  | cons name names ih =>
    cases others with
    | nil => simp [namesLe]
    | cons other others =>
      rw [namesLe, List.cons_lt_cons_iff, Bool.or_eq_true, Bool.and_eq_true, textLt_iff,
        ← String.lt_iff, beq_iff_eq, ih, List.cons.injEq]
      tauto

section Repetitions

variable {α : Type} [DecidableEq α] {x y : α} {items : List α}

theorem loop_eq_append (x : α) (items kept : List α) :
    List.eraseRepsBy.loop (· == ·) x items kept =
      kept.reverse ++ List.eraseRepsBy.loop (· == ·) x items [] := by
  induction items generalizing x kept with
  | nil => simp [List.eraseRepsBy.loop]
  | cons y items ih =>
    simp only [List.eraseRepsBy.loop]
    split
    · exact ih x kept
    · rw [ih y (x :: kept), ih y [x]]
      simp

theorem eraseReps_cons_self (x : α) (items : List α) :
    (x :: x :: items).eraseReps = (x :: items).eraseReps := by
  simp [List.eraseReps, List.eraseRepsBy, List.eraseRepsBy.loop]

theorem eraseReps_cons_of_ne (h : x ≠ y) (items : List α) :
    (x :: y :: items).eraseReps = x :: (y :: items).eraseReps := by
  have hne : (x == y) = false := beq_eq_false_iff_ne.mpr h
  have hloop := loop_eq_append y items [x]
  simpa [List.eraseReps, List.eraseRepsBy, List.eraseRepsBy.loop, hne] using hloop

theorem mem_eraseReps : x ∈ items.eraseReps ↔ x ∈ items := by
  induction items with
  | nil => exact Iff.rfl
  | cons y items ih =>
    cases items with
    | nil => exact Iff.rfl
    | cons z items =>
      by_cases h : y = z
      · subst h
        rw [eraseReps_cons_self, ih]
        simp
      · rw [eraseReps_cons_of_ne h, List.mem_cons, ih, ← List.mem_cons]

/-- In a list where equal items are side by side, none is left twice. -/
theorem pairwise_eraseReps {le : α → α → Prop}
    (hantisymm : ∀ x ∈ items, ∀ y ∈ items, le x y → le y x → x = y) (h : items.Pairwise le) :
    items.eraseReps.Pairwise fun x y => le x y ∧ x ≠ y := by
  induction items with
  | nil => exact .nil
  | cons y items ih =>
    obtain ⟨hfirst, hrest⟩ := List.pairwise_cons.mp h
    have hkept := ih (fun a ha b hb => hantisymm a (.tail y ha) b (.tail y hb)) hrest
    cases items with
    | nil => exact List.pairwise_singleton _ _
    | cons z items =>
      by_cases hsame : y = z
      · subst hsame
        rwa [eraseReps_cons_self]
      · rw [eraseReps_cons_of_ne hsame]
        refine List.pairwise_cons.mpr ⟨fun x hx => ?_, hkept⟩
        have hmem := mem_eraseReps.mp hx
        refine ⟨hfirst x hmem, ?_⟩
        -- what comes again behind another item would be equal to that one too
        rintro rfl
        have hback : le z y := by
          rcases List.mem_cons.mp hmem with hz | hy
          · exact absurd hz hsame
          · exact (List.pairwise_cons.mp hrest).1 y hy
        exact hsame (hantisymm y List.mem_cons_self z (.tail y List.mem_cons_self)
          (hfirst z List.mem_cons_self) hback)

end Repetitions

section Arranged

variable {paths : List Path}

theorem mem_arranged : path ∈ arranged paths ↔ path ∈ paths := by
  rw [arranged, mem_eraseReps, List.mem_mergeSort]

/-- Paths are arranged by their names, each once. -/
theorem pairwise_arranged (anchor : Anchor) (h : ∀ path ∈ paths, path.anchor = anchor) :
    (arranged paths).Pairwise fun path other => path.names < other.names := by
  have htrans : ∀ a b c : Path, namesLe a.names b.names = true → namesLe b.names c.names = true →
      namesLe a.names c.names = true := by
    intro a b c hab hbc
    rw [namesLe_iff] at hab hbc ⊢
    exact le_trans hab hbc
  have htotal : ∀ a b : Path, (namesLe a.names b.names || namesLe b.names a.names) = true := by
    intro a b
    rw [Bool.or_eq_true, namesLe_iff, namesLe_iff]
    exact le_total a.names b.names
  have hsorted := List.pairwise_mergeSort htrans htotal paths
  have hle : (paths.mergeSort fun x y => namesLe x.names y.names).Pairwise
      fun path other => path.names ≤ other.names :=
    hsorted.imp fun hnames => (namesLe_iff _ _).mp hnames
  have hkept := pairwise_eraseReps (fun x hx y hy hxy hyx => ?_) hle
  · refine hkept.imp_of_mem fun {x y} hx hy hxy => lt_of_le_of_ne hxy.1 fun hnames => hxy.2 ?_
    rw [Path.mk.injEq, h x (mem_arranged.mp hx), h y (mem_arranged.mp hy)]
    exact ⟨rfl, hnames⟩
  · rw [List.mem_mergeSort] at hx hy
    rw [Path.mk.injEq, h x hx, h y hy]
    exact ⟨rfl, le_antisymm hxy hyx⟩

end Arranged

/-! ## Names that end in a text -/

/-- The piece of a pattern for a character that opens no brackets. -/
def pieceOf (c : Char) : Piece :=
  if c = '*' then .any else if c = '?' then .one else .literal c

/-- A text that a pattern may end in: it opens no brackets, and behind an asterisk it has no two of
them side by side. -/
structure IsEnding (text : List Char) : Prop where
  noSlash : '/' ∉ text
  noBracket : '[' ∉ text
  noDoubleStar : hasDoubleStar ('*' :: text) = false

/-- A text without wildcards. -/
def IsVerbatim (text : List Char) : Prop :=
  ∀ c ∈ text, c ≠ '*' ∧ c ≠ '?' ∧ c ≠ '['

variable {text name : List Char} {rests : List (List Char)}

theorem piecesUpTo_eq_map (h : '[' ∉ text) {bound : Nat} (hbound : text.length ≤ bound) :
    piecesUpTo bound text = text.map pieceOf := by
  induction text generalizing bound with
  | nil => rw [piecesUpTo, List.map_nil]
  | cons c text ih =>
    obtain ⟨hc, htext⟩ := not_or.mp (mt List.mem_cons.mpr h)
    obtain ⟨bound, rfl⟩ : ∃ n, bound = n + 1 := ⟨bound - 1, by simp at hbound; omega⟩
    have hrest := ih htext (Nat.le_of_succ_le_succ hbound)
    rw [List.map_cons, pieceOf]
    split
    · rename_i hstar
      subst hstar
      rw [piecesUpTo, hrest]
    · rename_i hstar
      split
      · rename_i hmark
        subst hmark
        rw [piecesUpTo, hrest]
      · rename_i hmark
        rw [piecesUpTo.eq_6 _ _ _ hstar hmark (Ne.symm hc), hrest]

/-- An asterisk and an ending are one step of a pattern. -/
theorem stepsOf?_ending {ending : String} (h : IsEnding ending.toList) :
    stepsOf? ("*" ++ ending) = some [.matching (.any :: ending.toList.map pieceOf)] := by
  have hlist : ("*" ++ ending).toList = '*' :: ending.toList := by
    rw [String.toList_append]
    rfl
  have hslash : '/' ∉ ("*" ++ ending).toList := by
    rw [hlist, List.mem_cons]
    exact not_or.mpr ⟨by decide, h.noSlash⟩
  have hplain : Path.IsPlainName ("*" ++ ending) := by
    refine ⟨fun hnone => ?_, fun hdot => ?_, hslash⟩
    · rw [hnone] at hlist
      cases hlist
    · rw [hdot] at hlist
      cases hlist
  have hnames : (Path.ofText ("*" ++ ending)).names = ["*" ++ ending] := by
    have hraw := Path.rawNames_intercalate (List.cons_ne_nil ("*" ++ ending) [])
      (by simpa using hplain)
    rw [String.intercalate_singleton] at hraw
    rw [Path.ofText, hraw]
    exact Path.filter_plain (by simpa using hplain)
  have hstars : ("*" ++ ending) ≠ "**" := by
    intro hstars
    rw [hstars] at hlist
    have hdouble := h.noDoubleStar
    rw [← hlist] at hdouble
    exact absurd hdouble (by decide)
  have hwild : hasWildcard ("*" ++ ending) = true := by
    rw [hasWildcard, hlist]
    rfl
  have hstep : stepOf? ("*" ++ ending) =
      some (.matching (.any :: ending.toList.map pieceOf)) := by
    rw [stepOf?, if_neg hstars, hlist, h.noDoubleStar, hwild, ← String.length_toList, hlist,
      List.length_cons]
    rw [piecesUpTo, piecesUpTo_eq_map h.noBracket le_rfl]
    simp
  have hlast : ("*" ++ ending).toList.getLast? ≠ some '/' :=
    fun hlast => hslash (List.mem_of_getLast? hlast)
  rw [stepsOf?, hnames, List.mapM_cons, hstep, List.mapM_nil]
  exact congrArg some (if_neg hlast)

/-! ## What fits -/

theorem fits_iff {pieces : List Piece} :
    fits pieces name = true ↔
      [] ∈ pieces.foldl (fun rests piece => piece.behind rests) [name] := by
  rw [fits, List.any_eq_true]
  constructor
  · rintro ⟨rest, hmem, hnone⟩
    rwa [List.isEmpty_iff.mp hnone] at hmem
  · intro hmem
    exact ⟨[], hmem, rfl⟩

/-- Behind a character are the rests that begin with it. -/
theorem mem_behind_literal {c : Char} :
    text ∈ (Piece.literal c).behind rests ↔ c :: text ∈ rests := by
  simp only [Piece.behind, List.mem_filterMap]
  constructor
  · rintro ⟨rest, hmem, hrest⟩
    cases rest with
    | nil => cases hrest
    | cons d rest =>
      by_cases hsame : d = c
      · subst hsame
        simp only [Piece.admits, beq_self_eq_true, if_true, Option.some.injEq] at hrest
        rwa [← hrest]
      · simp [Piece.admits, hsame] at hrest
  · intro hmem
    exact ⟨c :: text, hmem, by simp [Piece.admits]⟩

/-- Characters are left with nothing just where they are all that was left. -/
theorem nil_mem_foldl_literals :
    [] ∈ (text.map Piece.literal).foldl (fun rests piece => piece.behind rests) rests ↔
      text ∈ rests := by
  induction text generalizing rests with
  | nil => rfl
  | cons c text ih => rw [List.map_cons, List.foldl_cons, ih, mem_behind_literal]

/-- **A text without wildcards behind an asterisk fits the names that end in it.** -/
theorem fits_verbatim (h : IsVerbatim text) :
    fits (.any :: text.map pieceOf) name = true ↔ text <:+ name := by
  have hliterals : text.map pieceOf = text.map .literal :=
    List.map_congr_left fun c hc => by
      obtain ⟨hstar, hmark, -⟩ := h c hc
      rw [pieceOf, if_neg hstar, if_neg hmark]
  rw [fits_iff, hliterals, List.foldl_cons, nil_mem_foldl_literals, Piece.behind, mem_ends]

/-- Ends of a text, the longer ones first. -/
def AreEnds (rests : List (List Char)) : Prop :=
  rests.Pairwise fun longer shorter => shorter <:+ longer

theorem areEnds_ends (text : List Char) : AreEnds (ends text) := by
  induction text with
  | nil => exact List.pairwise_singleton _ _
  | cons c text ih =>
    refine List.pairwise_cons.mpr ⟨fun part hpart => ?_, ih⟩
    exact (mem_ends.mp hpart).trans (List.suffix_cons c text)

theorem suffix_of_cons_suffix {c d : Char} {longer shorter : List Char}
    (h : d :: shorter <:+ c :: longer) : shorter <:+ longer := by
  rcases List.suffix_cons_iff.mp h with heq | hinside
  · exact (List.cons.inj heq).2 ▸ List.suffix_rfl
  · exact (List.suffix_cons d shorter).trans hinside

theorem AreEnds.behind (h : AreEnds rests) (piece : Piece) : AreEnds (piece.behind rests) := by
  unfold Piece.behind
  split
  · cases rests with
    | nil => exact .nil
    | cons longest rests => exact areEnds_ends longest
  · refine List.Pairwise.filterMap _ (fun longer shorter hsuffix rest hrest other hother => ?_) h
    cases longer with
    | nil => cases hrest
    | cons c longer =>
      cases shorter with
      | nil => cases hother
      | cons d shorter =>
        dsimp only at hrest hother
        rw [Option.ite_none_right_eq_some, Option.some.injEq] at hrest hother
        rw [← hrest.2, ← hother.2]
        exact suffix_of_cons_suffix hsuffix

/-- Behind the piece of a character is what followed that character. -/
theorem mem_behind_pieceOf (h : AreEnds rests) {c : Char} (hmem : c :: text ∈ rests) :
    text ∈ (pieceOf c).behind rests := by
  rw [pieceOf]
  split
  · obtain ⟨longest, others, rfl⟩ := List.exists_cons_of_ne_nil (List.ne_nil_of_mem hmem)
    refine mem_ends.mpr ((List.suffix_cons c text).trans ?_)
    rcases List.mem_cons.mp hmem with rfl | hothers
    · exact List.suffix_rfl
    · exact (List.pairwise_cons.mp h).1 _ hothers
  · split
    · exact List.mem_filterMap.mpr ⟨c :: text, hmem, rfl⟩
    · exact mem_behind_literal.mpr hmem

theorem nil_mem_foldl_pieceOf (h : AreEnds rests) (hmem : text ∈ rests) :
    [] ∈ (text.map pieceOf).foldl (fun rests piece => piece.behind rests) rests := by
  induction text generalizing rests with
  | nil => exact hmem
  | cons c text ih =>
    rw [List.map_cons, List.foldl_cons]
    exact ih (h.behind (pieceOf c)) (mem_behind_pieceOf h hmem)

/-- **A text behind an asterisk fits the names that end in it**, whatever its wildcards stand for
besides. -/
theorem fits_of_suffix (h : text <:+ name) : fits (.any :: text.map pieceOf) name = true := by
  rw [fits_iff, List.foldl_cons]
  exact nil_mem_foldl_pieceOf (areEnds_ends name) (mem_ends.mpr h)

/-! ## What is below a directory -/

/-- The directories below one are found with their names behind those of the place, down to the
given depth. -/
theorem mem_directoriesBelow (hsound : tree.Sound) {depth : Nat} {names found : List String}
    (hdirectory : tree.entryAt place = some .directory) :
    found ∈ directoriesBelow tree depth place names ↔
      ∃ sub, found = names ++ sub ∧ sub.length ≤ depth ∧
        tree.entryAt (place ++ sub) = some .directory := by
  induction depth generalizing place names with
  | zero =>
    rw [directoriesBelow, List.mem_singleton]
    constructor
    · rintro rfl
      exact ⟨[], by simp, le_rfl, by simpa using hdirectory⟩
    · rintro ⟨sub, rfl, hlength, -⟩
      rw [List.length_eq_zero_iff.mp (Nat.le_zero.mp hlength), List.append_nil]
  | succ depth ih =>
    rw [directoriesBelow, List.mem_cons, List.mem_flatMap]
    constructor
    · rintro (rfl | ⟨⟨name, entry⟩, hchild, hfound⟩)
      · exact ⟨[], by simp, Nat.zero_le _, by simpa using hdirectory⟩
      · cases entry with
        | file content => cases hfound
        | directory =>
          obtain ⟨sub, rfl, hlength, hentry⟩ := (ih (hsound.mem_children.mp hchild)).mp hfound
          refine ⟨name :: sub, by simp, Nat.succ_le_succ hlength, ?_⟩
          rwa [List.append_cons]
    · rintro ⟨sub, rfl, hlength, hentry⟩
      cases sub with
      | nil => exact .inl (List.append_nil names)
      | cons name sub =>
        have hname : tree.entryAt (place ++ [name]) = some .directory := by
          rw [List.append_cons] at hentry
          by_cases hsub : sub = []
          · rwa [hsub, List.append_nil] at hentry
          · exact hsound.entryAt_of_append hsub (by rw [hentry]; rfl)
        refine .inr ⟨(name, .directory), hsound.mem_children.mpr hname, ?_⟩
        refine (ih hname).mpr ⟨sub, by simp, Nat.le_of_succ_le_succ hlength, ?_⟩
        rwa [List.append_cons] at hentry

theorem foldl_max_le (entries : Entries) (depth : Nat) :
    depth ≤ entries.foldl (fun depth entry => max depth entry.1.length) depth ∧
      ∀ entry ∈ entries,
        entry.1.length ≤ entries.foldl (fun depth entry => max depth entry.1.length) depth := by
  induction entries generalizing depth with
  | nil => exact ⟨le_rfl, nofun⟩
  | cons first entries ih =>
    obtain ⟨hdepth, hentries⟩ := ih (max depth first.1.length)
    rw [List.foldl_cons]
    refine ⟨le_trans (le_max_left _ _) hdepth, fun entry hentry => ?_⟩
    rcases List.mem_cons.mp hentry with rfl | hrest
    · exact le_trans (le_max_right _ _) hdepth
    · exact hentries entry hrest

/-- No entry is deeper than the tree. -/
theorem length_le_depthOf {entry : Entry} (hentry : tree.entryAt place = some entry) :
    place.length ≤ depthOf tree := by
  by_cases hne : place = []
  · subst hne
    exact Nat.zero_le _
  · exact (foldl_max_le tree.entries 0).2 _ (FileTree.mem_of_entryAt hentry hne)

/-- Where something is found for each item, all that is found is put together. -/
theorem gather_eq_ok {α : Type} {find : α → Except FileFault (List Path)} {items : List α}
    {IsFound : α → Path → Prop}
    (h : ∀ item ∈ items,
      ∃ paths, find item = .ok paths ∧ ∀ path, path ∈ paths ↔ IsFound item path) :
    ∃ found, gather find items = .ok found ∧
      ∀ path, path ∈ found ↔ ∃ item ∈ items, IsFound item path := by
  induction items with
  | nil => exact ⟨[], rfl, by simp⟩
  | cons item items ih =>
    obtain ⟨first, hfind, hfirst⟩ := h item List.mem_cons_self
    obtain ⟨rest, hgather, hrest⟩ :=
      ih fun other hother => h other (List.mem_cons_of_mem item hother)
    refine ⟨first ++ rest, ?_, fun path => ?_⟩
    · rw [gather, hfind]
      dsimp only
      rw [hgather]
      rfl
    · simp [hfirst, hrest]

/-- A step that succeeds from all paths is followed by the next step. -/
theorem select_cons {step : Step} {steps : List Step} {paths found : List Path}
    (h : gather (fun path => step.reach tree steps.isEmpty path) paths = .ok found) :
    select tree (step :: steps) paths = select tree steps (arranged found) := by
  rw [select, h]

/-- No directory from a place down has a path too long to be looked up. -/
def AreShort (tree : FileTree) (directory : Path) (place : Place) : Prop :=
  ∀ sub, tree.entryAt (place ++ sub) = some .directory →
    (Path.mk directory.anchor (directory.names ++ sub)).isLong = false

/-- Directories at any depth are reached with their names behind those of the path. -/
theorem reach_anywhere (hsound : tree.Sound) (hlocate : tree.locate directory = .ok place)
    (hdirectory : tree.entryAt place = some .directory) :
    ∃ found, Step.anywhere.reach tree false directory = .ok found ∧
      ∀ path, path ∈ found ↔ ∃ sub, path = ⟨directory.anchor, directory.names ++ sub⟩ ∧
        tree.entryAt (place ++ sub) = some .directory := by
  refine ⟨(directoriesBelow tree (depthOf tree + 1) place directory.names).map
    fun names => ⟨directory.anchor, names⟩, by rw [Step.reach, hlocate], fun path => ?_⟩
  rw [List.mem_map]
  constructor
  · rintro ⟨names, hnames, rfl⟩
    obtain ⟨sub, rfl, -, hentry⟩ := (mem_directoriesBelow hsound hdirectory).mp hnames
    exact ⟨sub, rfl, hentry⟩
  · rintro ⟨sub, rfl, hentry⟩
    have hdepth := length_le_depthOf hentry
    rw [List.length_append] at hdepth
    exact ⟨_, (mem_directoriesBelow hsound hdirectory).mpr ⟨sub, rfl, by omega, hentry⟩, rfl⟩

/-- What the last step of a pattern reaches from a directory are the entries there that fit. -/
theorem reach_matching (hsound : tree.Sound) (hlocate : tree.locate directory = .ok place)
    (pieces : List Piece) :
    ∃ found, (Step.matching pieces).reach tree true directory = .ok found ∧
      ∀ path, path ∈ found ↔ ∃ name, path = directory.child name ∧
        (tree.entryAt (place ++ [name])).isSome ∧ fits pieces name.toList = true := by
  refine ⟨_, by rw [Step.reach, hlocate], fun path => ?_⟩
  have hreached : ∀ entry, isReached true (some entry) = true := by
    intro entry
    cases entry <;> rfl
  simp only [List.mem_map, List.mem_filter, hreached, Bool.true_and]
  constructor
  · rintro ⟨⟨name, entry⟩, ⟨hchild, hfits⟩, rfl⟩
    exact ⟨name, rfl, by rw [hsound.mem_children.mp hchild]; rfl, hfits⟩
  · rintro ⟨name, rfl, hentry, hfits⟩
    obtain ⟨entry, hsome⟩ := Option.isSome_iff_exists.mp hentry
    exact ⟨(name, entry), ⟨hsound.mem_children.mpr hsome, hfits⟩, rfl⟩

/-- **What is found below a directory** for an ending of names: the paths of all entries that fit,
at any depth, in the order of their names. -/
theorem findAll_ending (hsound : tree.Sound) (hlocate : tree.locate directory = .ok place)
    (hdirectory : tree.entryAt place = some .directory) (hshort : AreShort tree directory place)
    {ending : String} (hending : IsEnding ending.toList) :
    ∃ found, findAll tree directory ("*" ++ ending) = .ok found ∧
      found.Pairwise (fun path other => path.names < other.names) ∧
      ∀ path, path ∈ found ↔ ∃ sub name,
        path = ⟨directory.anchor, directory.names ++ sub ++ [name]⟩ ∧
        (tree.entryAt (place ++ sub ++ [name])).isSome ∧
        fits (.any :: ending.toList.map pieceOf) name.toList = true := by
  have hisDirectory : tree.isDirectory directory = true := by
    rw [FileTree.isDirectory_iff, FileTree.seek_of_locate hlocate, hdirectory]
  -- the first step leads to the directories, the second one from each of them to what fits
  obtain ⟨directories, hanywhere, hdirectories⟩ := reach_anywhere hsound hlocate hdirectory
  have hfirst : gather (fun path => Step.anywhere.reach tree false path) [directory] =
      .ok directories := by
    rw [gather, hanywhere]
    exact congrArg Except.ok (List.append_nil directories)
  have hinside : ∀ above ∈ arranged directories, ∃ inside,
      (Step.matching (.any :: ending.toList.map pieceOf)).reach tree true above = .ok inside ∧
      ∀ path, path ∈ inside ↔ ∃ sub name,
        above = ⟨directory.anchor, directory.names ++ sub⟩ ∧ path = above.child name ∧
        (tree.entryAt (place ++ sub ++ [name])).isSome ∧
        fits (.any :: ending.toList.map pieceOf) name.toList = true := by
    intro above habove
    obtain ⟨sub, rfl, hentry⟩ := (hdirectories above).mp (mem_arranged.mp habove)
    have hbelow := hsound.locate_below hlocate (by rw [hentry]; rfl) (hshort sub hentry)
    obtain ⟨inside, hreach, hinside⟩ :=
      reach_matching hsound hbelow (.any :: ending.toList.map pieceOf)
    refine ⟨inside, hreach, fun path => (hinside path).trans ?_⟩
    constructor
    · rintro ⟨name, rfl, hfits⟩
      exact ⟨sub, name, rfl, rfl, hfits⟩
    · rintro ⟨other, name, hpath, rfl, hfits⟩
      have hsub : sub = other := List.append_cancel_left (congrArg Path.names hpath)
      subst hsub
      exact ⟨name, rfl, hfits⟩
  obtain ⟨found, hsecond, hfound⟩ := gather_eq_ok hinside
  have hmem : ∀ path, path ∈ found ↔ ∃ sub name,
      path = ⟨directory.anchor, directory.names ++ sub ++ [name]⟩ ∧
      (tree.entryAt (place ++ sub ++ [name])).isSome ∧
      fits (.any :: ending.toList.map pieceOf) name.toList = true := by
    intro path
    rw [hfound]
    constructor
    · rintro ⟨above, -, sub, name, rfl, rfl, hentry, hfits⟩
      exact ⟨sub, name, rfl, hentry, hfits⟩
    · rintro ⟨sub, name, rfl, hentry, hfits⟩
      have habove := hsound.entryAt_of_append (List.cons_ne_nil name []) hentry
      exact ⟨_, mem_arranged.mpr ((hdirectories _).mpr ⟨sub, rfl, habove⟩), sub, name, rfl, rfl,
        hentry, hfits⟩
  refine ⟨arranged found, ?_, ?_, fun path => ?_⟩
  · rw [findAll, stepsOf?_ending hending]
    dsimp only
    rw [if_pos hisDirectory, select_cons hfirst, select_cons hsecond, select]
  · refine pairwise_arranged directory.anchor fun path hpath => ?_
    obtain ⟨sub, name, rfl, -⟩ := (hmem path).mp hpath
    rfl
  · rw [mem_arranged, hmem]

end FrontEnd.Glob
