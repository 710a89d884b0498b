import FrontEnd.Files.Tree
import FrontEnd.Proofs.Text.Lines

/-!
# Texts of paths

The text of a path that was read from a text leads back to the path.

* `Path.IsPlain` — a path of names that a text can hold.
* `Path.ofText_text` — such a path is read back from its text.
* `Path.absolute_written` — as it is written, a path begins at the root just if it does so as read.
* `Path.names_ofText`, `Path.isLong_ofText` — of the names of a text its path keeps some.
* `Path.isLong_of_append` — what a path from the root begins with is no longer than it.
* `Path.isLong_resolve` — without its double dots a path from the root is no longer either.
-/

set_option autoImplicit false

namespace FrontEnd.Path

/-- A name that stands between two slashes and leads on. -/
def IsPlainName (name : String) : Prop :=
  name ≠ "" ∧ name ≠ "." ∧ '/' ∉ name.toList

/-- A path whose names are such names, as those of every path are that was read from a text. -/
def IsPlain (path : Path) : Prop :=
  ∀ name ∈ path.names, IsPlainName name

instance (name : String) : Decidable (IsPlainName name) :=
  inferInstanceAs (Decidable (name ≠ "" ∧ name ≠ "." ∧ '/' ∉ name.toList))

instance (path : Path) : Decidable path.IsPlain :=
  inferInstanceAs (Decidable (∀ name ∈ path.names, IsPlainName name))

theorem isPlain_ofText (text : String) : (ofText text).IsPlain := by
  intro name hname
  obtain ⟨hraw, hkept⟩ := List.mem_filter.mp hname
  obtain ⟨piece, hpiece, rfl⟩ := List.mem_map.mp hraw
  have hslash : '/' ∉ piece := Text.not_mem_of_mem_splitAtEach hpiece
  rw [← String.toList_ofList (l := piece)] at hslash
  simp only [Bool.and_eq_true, bne_iff_ne, ne_eq] at hkept
  exact ⟨hkept.1, hkept.2, hslash⟩

theorem IsPlain.child {path : Path} {name : String} (h : path.IsPlain) (hname : IsPlainName name) :
    (path.child name).IsPlain := by
  intro other hother
  rcases List.mem_append.mp hother with hbefore | hlast
  · exact h other hbefore
  · rw [List.mem_singleton.mp hlast]
    exact hname

theorem IsPlain.join {base path : Path} (hbase : base.IsPlain) (h : path.IsPlain) :
    (base.join path).IsPlain := by
  unfold Path.join
  split
  · exact h
  · exact fun name hname => (List.mem_append.mp hname).elim (hbase name) (h name)

/-- Plain names, written with slashes between them, are found again between the slashes. -/
theorem rawNames_intercalate {names : List String} (hne : names ≠ [])
    (hplain : ∀ name ∈ names, IsPlainName name) : rawNames ("/".intercalate names) = names := by
  have hslash : ∀ piece ∈ names.map String.toList, '/' ∉ piece := by
    intro piece hpiece
    obtain ⟨name, hname, rfl⟩ := List.mem_map.mp hpiece
    exact (hplain name hname).2.2
  have hnames : names.map String.toList ≠ [] := by simpa using hne
  rw [rawNames, Text.splitAtEach_eq_splitOn, String.toList_intercalate,
    show "/".toList = ['/'] from rfl, List.splitOn_intercalate '/' hslash hnames, List.map_map]
  simp [Function.comp_def]

/-- Plain names are all kept. -/
theorem filter_plain {names : List String} (hplain : ∀ name ∈ names, IsPlainName name) :
    names.filter (fun name => name != "" && name != ".") = names := by
  refine List.filter_eq_self.mpr fun name hname => ?_
  obtain ⟨hblank, hdot, -⟩ := hplain name hname
  simp [hblank, hdot]

/-- A path from the root is written behind a slash. -/
theorem rawNames_slash (text : String) : rawNames ("/" ++ text) = "" :: rawNames text := by
  unfold rawNames
  rw [String.toList_append, show "/".toList = ['/'] from rfl, List.singleton_append,
    Text.splitAtEach]
  simp

/-- Slashes in front of a text are no names. -/
theorem rawNames_slashes (anchor : Anchor) (text : String) :
    (rawNames (anchor.slashes ++ text)).filter (fun name => name != "" && name != ".") =
      (rawNames text).filter fun name => name != "" && name != "." := by
  cases anchor with
  | here => rw [show Anchor.here.slashes = "" from rfl, String.empty_append]
  | root =>
    rw [Anchor.slashes, rawNames_slash]
    rfl
  | doubleRoot =>
    rw [Anchor.slashes, show "//" = "/" ++ "/" from rfl, String.append_assoc, rawNames_slash,
      rawNames_slash]
    rfl

/-- A text of plain names begins with the first of them, and not with a slash. -/
theorem takeWhile_intercalate {names : List String} (hplain : ∀ name ∈ names, IsPlainName name) :
    ("/".intercalate names).toList.takeWhile (· == '/') = [] := by
  cases names with
  | nil => rfl
  | cons name rest =>
    obtain ⟨hblank, -, hslash⟩ := hplain name List.mem_cons_self
    have hlist : name.toList ≠ [] := fun h => hblank (String.toList_eq_nil_iff.mp h)
    obtain ⟨c, others, hname⟩ := List.exists_cons_of_ne_nil hlist
    have hc : (c == '/') = false := by
      refine beq_eq_false_iff_ne.mpr ?_
      rintro rfl
      exact hslash (hname ▸ List.mem_cons_self)
    obtain ⟨behind, htext⟩ : ∃ behind, ("/".intercalate (name :: rest)).toList = c :: behind := by
      rw [String.toList_intercalate, List.map_cons, hname]
      cases rest with
      | nil => exact ⟨others, by simp⟩
      | cons next rest => exact ⟨_, by rw [List.map_cons, List.intercalate_cons_cons]; rfl⟩
    rw [htext, List.takeWhile_cons, hc]
    rfl

/-- The slashes in front of plain names say where the path begins. -/
theorem anchorOf_slashes (anchor : Anchor) {names : List String}
    (hplain : ∀ name ∈ names, IsPlainName name) :
    anchorOf (anchor.slashes ++ "/".intercalate names) = anchor := by
  have hslashes : ∀ c ∈ anchor.slashes.toList, (c == '/') = true :=
    List.all_eq_true.mp (by cases anchor <;> rfl)
  rw [anchorOf, String.toList_append, List.takeWhile_append_of_pos hslashes,
    takeWhile_intercalate hplain, List.append_nil]
  cases anchor <;> rfl

/-- **A plain path is read back from its text.** -/
theorem ofText_text {path : Path} (h : path.IsPlain) : ofText path.text = path := by
  obtain ⟨anchor, names⟩ := path
  by_cases hempty : anchor = .here ∧ names = []
  · obtain ⟨rfl, rfl⟩ := hempty
    decide
  · have hkept : (rawNames (anchor.slashes ++ "/".intercalate names)).filter
        (fun name => name != "" && name != ".") = names := by
      rw [rawNames_slashes]
      by_cases hne : names = []
      · subst hne
        rfl
      · rw [rawNames_intercalate hne h]
        exact filter_plain h
    rw [text, if_neg hempty, ofText, anchorOf_slashes anchor h, hkept]

/-! ## Paths as they are written -/

theorem absolute_ofText (text : String) : (ofText text).absolute = startsAtRoot text := by
  show (anchorOf text != .here) = startsAtRoot text
  unfold anchorOf startsAtRoot
  cases text.toList with
  | nil => rfl
  | cons c rest =>
    by_cases hc : c = '/'
    · subst hc
      rw [List.takeWhile_cons_of_pos rfl, List.length_cons]
      cases (rest.takeWhile (· == '/')).length with
      | zero => rfl
      | succ count => cases count <;> rfl
    · rw [List.takeWhile_cons_of_neg (by simpa using hc)]
      simpa using hc

/-- The path of a text begins at the root just if it does so as it is written. -/
theorem absolute_written (text : String) : (written text).absolute = (ofText text).absolute := by
  rw [absolute_ofText, written]
  split
  · rename_i hroot
    rw [hroot]
    rfl
  · rename_i hrelative
    exact (Bool.eq_false_iff.mpr hrelative).symm

theorem anchor_written {text : String} (h : anchorOf text ≠ .doubleRoot) :
    anchorOf text = (written text).anchor := by
  have habsolute : (anchorOf text != .here) = startsAtRoot text := absolute_ofText text
  unfold written
  split
  · rename_i hroot
    rw [hroot] at habsolute
    cases hanchor : anchorOf text with
    | here => rw [hanchor] at habsolute; cases habsolute
    | root => rfl
    | doubleRoot => exact absurd hanchor h
  · rename_i hrelative
    rw [Bool.eq_false_iff.mpr hrelative] at habsolute
    simpa using habsolute

/-- Of the names between the slashes of a text its path keeps those that lead on. -/
theorem names_ofText (text : String) : (ofText text).names =
    (written text).names.filter fun name => name != "" && name != "." := by
  rw [ofText, written]
  dsimp only
  split
  · rename_i hroot
    obtain ⟨rest, hrest⟩ : ∃ rest, text = "/" ++ rest := by
      unfold startsAtRoot at hroot
      obtain ⟨rest, hrest⟩ := List.head?_eq_some_iff.mp (beq_iff_eq.mp hroot)
      exact ⟨String.ofList rest, by rw [← String.toList_inj, hrest]; simp⟩
    rw [hrest, rawNames_slash]
    rfl
  · rfl

/-! ## Lengths -/

/-- The number of bytes of names with a slash before each. -/
def bytesOf : List String → Nat
  | [] => 0
  | name :: names => name.utf8ByteSize + 1 + bytesOf names

theorem bytesOf_append (names more : List String) :
    bytesOf (names ++ more) = bytesOf names + bytesOf more := by
  induction names with
  | nil => simp [bytesOf]
  | cons name names ih =>
    rw [List.cons_append, bytesOf, bytesOf, ih]
    omega

theorem bytesOf_replicate (count : Nat) (name : String) :
    bytesOf (List.replicate count name) = count * (name.utf8ByteSize + 1) := by
  induction count with
  | zero => simp [bytesOf]
  | succ count ih =>
    rw [List.replicate_succ, bytesOf, ih, Nat.succ_mul]
    omega

theorem bytesOf_le_of_sublist {names more : List String} (h : names.Sublist more) :
    bytesOf names ≤ bytesOf more := by
  induction h with
  | slnil => exact Nat.le_refl _
  | cons name h ih =>
    rw [bytesOf]
    omega
  | cons_cons name h ih =>
    rw [bytesOf, bytesOf]
    omega

theorem utf8ByteSize_intercalate (name : String) (names : List String) :
    ("/".intercalate (name :: names)).utf8ByteSize = name.utf8ByteSize + bytesOf names := by
  induction names generalizing name with
  | nil => simp [bytesOf]
  | cons next names ih =>
    rw [String.intercalate_cons_cons, String.utf8ByteSize_append, String.utf8ByteSize_append, ih,
      bytesOf, show "/".utf8ByteSize = 1 from rfl]
    omega

theorem one_le_slashes {anchor : Anchor} (h : anchor ≠ .here) :
    1 ≤ anchor.slashes.utf8ByteSize := by
  cases anchor with
  | here => exact absurd rfl h
  | _ => decide

/-- A path has a slash between its names, and those in front of them. -/
theorem utf8ByteSize_text {path : Path} (hne : path.names ≠ []) :
    path.text.utf8ByteSize + 1 = path.anchor.slashes.utf8ByteSize + bytesOf path.names := by
  obtain ⟨anchor, names⟩ := path
  obtain ⟨name, rest, rfl⟩ := List.exists_cons_of_ne_nil hne
  rw [text, if_neg fun h => hne h.2, String.utf8ByteSize_append, utf8ByteSize_intercalate, bytesOf]
  omega

theorem isLong_eq_false_iff {names : List String} (hne : names ≠ []) :
    (Path.mk .root names).isLong = false ↔ bytesOf names < pathLimit := by
  have hbytes : (Path.mk .root names).text.utf8ByteSize + 1 = 1 + bytesOf names :=
    utf8ByteSize_text hne
  rw [isLong, decide_eq_false_iff_not, not_le]
  omega

/-- A path from the root is no shorter than one that has only some of its names. -/
theorem isLong_of_sublist {names more : List String} (hsublist : names.Sublist more)
    (h : (Path.mk .root more).isLong = false) : (Path.mk .root names).isLong = false := by
  by_cases hne : names = []
  · subst hne
    decide
  · have hmore : more ≠ [] := by
      rintro rfl
      exact hne (List.sublist_nil.mp hsublist)
    rw [isLong_eq_false_iff hmore] at h
    exact (isLong_eq_false_iff hne).mpr (Nat.lt_of_le_of_lt (bytesOf_le_of_sublist hsublist) h)

/-- A path from the root is longer than what it begins with. -/
theorem isLong_of_append {names more : List String}
    (h : (Path.mk .root (names ++ more)).isLong = false) : (Path.mk .root names).isLong = false :=
  isLong_of_sublist (List.sublist_append_left names more) h

/-- Behind two slashes at the beginning of a text there is a name that does not lead on. -/
theorem written_of_doubleRoot {text : String} (h : anchorOf text = .doubleRoot) :
    ∃ names, written text = ⟨.root, "" :: names⟩ := by
  have hlength : (text.toList.takeWhile (· == '/')).length = 2 := by
    unfold anchorOf at h
    split at h <;> first | assumption | cases h
  obtain ⟨c, d, hslashes⟩ := List.length_eq_two.mp hlength
  have hall : ∀ e ∈ [c, d], e = '/' := by
    intro e he
    rw [← hslashes] at he
    simpa using List.mem_takeWhile_imp he
  rw [hall c (by simp), hall d (by simp)] at hslashes
  have htext : text = "/" ++ ("/" ++ String.ofList (text.toList.dropWhile (· == '/'))) := by
    rw [← String.toList_inj]
    conv => lhs; rw [← List.takeWhile_append_dropWhile (p := (· == '/')) (l := text.toList)]
    rw [hslashes]
    simp
  have hroot : startsAtRoot text = true := by
    rw [htext]
    unfold startsAtRoot
    rw [String.toList_append]
    rfl
  rw [written, if_pos hroot, htext, rawNames_slash, rawNames_slash]
  exact ⟨_, rfl⟩

/-- The path of a text has no more bytes than what is written. -/
theorem bytesOf_ofText_le (text : String) :
    (ofText text).anchor.slashes.utf8ByteSize + bytesOf (ofText text).names ≤
      (written text).anchor.slashes.utf8ByteSize + bytesOf (written text).names := by
  have hnames := names_ofText text
  by_cases hdouble : anchorOf text = .doubleRoot
  · obtain ⟨names, hwritten⟩ := written_of_doubleRoot hdouble
    rw [hwritten, List.filter_cons_of_neg (by decide)] at hnames
    have hless : bytesOf (ofText text).names ≤ bytesOf names :=
      hnames ▸ bytesOf_le_of_sublist List.filter_sublist
    have hanchor : (ofText text).anchor = .doubleRoot := hdouble
    rw [hwritten, hanchor, bytesOf, show Anchor.doubleRoot.slashes.utf8ByteSize = 2 from rfl,
      show Anchor.root.slashes.utf8ByteSize = 1 from rfl, show "".utf8ByteSize = 0 from rfl]
    omega
  · have hless : bytesOf (ofText text).names ≤ bytesOf (written text).names :=
      hnames ▸ bytesOf_le_of_sublist List.filter_sublist
    have hanchor : (ofText text).anchor = (written text).anchor := anchor_written hdouble
    rw [hanchor]
    omega

/-- The path of a text is no longer than the text. -/
theorem isLong_ofText {text : String} (h : (written text).isLong = false) :
    (ofText text).isLong = false := by
  by_cases hkept : (ofText text).names = []
  · show (Path.mk (anchorOf text) (ofText text).names).isLong = false
    rw [hkept]
    cases anchorOf text <;> decide
  · have hne : (written text).names ≠ [] := by
      intro hnil
      rw [names_ofText, hnil] at hkept
      exact hkept rfl
    have hless := bytesOf_ofText_le text
    have hpath := utf8ByteSize_text hkept
    have hwhole := utf8ByteSize_text hne
    rw [isLong, decide_eq_false_iff_not, not_le] at h ⊢
    omega

/-- Collapsing double dots only leaves names out. -/
theorem bytesOf_collapse_le (above names : List String) :
    bytesOf (collapse above names) ≤ bytesOf above.reverse + bytesOf names := by
  induction names generalizing above with
  | nil => exact Nat.le_add_right _ _
  | cons name names ih =>
    rw [collapse, bytesOf]
    split
    · have hrest := ih above.tail
      have htail : bytesOf above.tail.reverse ≤ bytesOf above.reverse := by
        cases above with
        | nil => exact Nat.le_refl _
        | cons last above =>
          rw [List.tail_cons, List.reverse_cons, bytesOf_append]
          exact Nat.le_add_right _ _
      omega
    · have hrest := ih (name :: above)
      rw [List.reverse_cons, bytesOf_append, bytesOf, bytesOf] at hrest
      omega

/-- A path from the root does not get longer when it is resolved, whatever stands behind it. -/
theorem isLong_resolve {path : Path} {more : List String} (habsolute : path.absolute = true)
    (hmore : more ≠ []) (h : (Path.mk path.anchor (path.names ++ more)).isLong = false)
    (workingDirectory : Path) :
    (Path.mk .root ((path.resolve workingDirectory).names ++ more)).isLong = false := by
  have hne : path.names ++ more ≠ [] := by simp [hmore]
  have hnames : (path.resolve workingDirectory).names = collapse [] path.names := by
    rw [resolve, join, if_pos habsolute]
  have hless := bytesOf_collapse_le [] path.names
  rw [List.reverse_nil, bytesOf, Nat.zero_add] at hless
  have hbytes : (Path.mk path.anchor (path.names ++ more)).text.utf8ByteSize + 1 =
      path.anchor.slashes.utf8ByteSize + bytesOf (path.names ++ more) := utf8ByteSize_text hne
  have hslashes := one_le_slashes (bne_iff_ne.mp habsolute)
  rw [isLong, decide_eq_false_iff_not, not_le] at h
  rw [isLong_eq_false_iff (by simp [hmore]), hnames, bytesOf_append]
  rw [bytesOf_append] at hbytes
  omega

end FrontEnd.Path
