import FrontEnd.Proofs.Project.Check
import FrontEnd.Proofs.Project.Nearest
import FrontEnd.Proofs.Project.Settings
import FrontEnd.Proofs.Source.Filed

/-!
# New projects

A project that was made stands in one directory, with its settings and a single source file below a
directory of sources that was not there before. What it is called afterwards depends on the name:
it stands in the settings between quotes as it is.

* `Project.IsScaffold` — what stands where a project was made.
* `Project.isScaffold_of_build` — that this is what making one does.
* `Project.IsScaffold.name_eq_iff` — the name is kept just if it needs no escape.
* `Project.IsScaffold.checks_clean` — where it is kept, the project checks clean.
* `Project.scaffold_keeps_plain` — both for what a request for a new project leaves behind.
-/

set_option autoImplicit false

namespace FrontEnd.Project

open Output

variable {tree later : FileTree} {base directory : Path} {place : Place} {name : String}

/-! ## What is made -/

/-- What stands where a project was made: its settings, and below the directory of the sources one
file and nothing else. -/
structure IsScaffold (tree : FileTree) (directory : Path) (name : String) (place : Place) :
    Prop where
  sound : tree.Sound
  plain : directory.IsPlain
  located : tree.locate directory = .ok place
  settings : tree.locate (directory.child settingsName) = .ok (place ++ [settingsName])
  main : tree.locate ((directory.child "src").child "main.emb") =
    .ok (place ++ ["src"] ++ ["main.emb"])
  settingsEntry : tree.entryAt (place ++ [settingsName]) = some (.file (settingsText name).toUTF8)
  mainEntry : tree.entryAt (place ++ ["src"] ++ ["main.emb"]) = some (.file sourceText.toUTF8)
  only : ∀ sub, (tree.entryAt (place ++ ["src"] ++ sub)).isSome → sub = [] ∨ sub = ["main.emb"]

/-- **What making a project does.** -/
theorem isScaffold_of_build (hsound : tree.Sound) (hplain : directory.IsPlain)
    (h : build directory name tree = .ok () later) :
    later.workingDirectory = tree.workingDirectory ∧
      ∃ place, IsScaffold later directory name place := by
  have hsource : (directory.child "src").IsPlain := hplain.child (by decide)
  unfold build at h
  obtain ⟨_, made, hmake, h⟩ := FileTree.bind_ok h
  obtain ⟨_, first, hsettings, h⟩ := FileTree.bind_ok h
  obtain ⟨_, second, hmain, h⟩ := FileTree.bind_ok h
  obtain ⟨_, third, hignored, hdescription⟩ := FileTree.bind_ok h
  obtain ⟨hmade, hgrows, place, hbase, hinside, hempty⟩ :=
    FileTree.makeDirectories_child hsound hsource hmake
  have hfirst := FileTree.writeText_child hmade (hplain.child (by decide)) hbase hsettings
  replace hbase := FileTree.locate_mono hfirst.grows hbase
  replace hinside := FileTree.locate_mono hfirst.grows hinside
  have hsecond := FileTree.writeText_child hfirst.sound (hsource.child (by decide)) hinside hmain
  replace hbase := FileTree.locate_mono hsecond.grows hbase
  have hthird := FileTree.writeText_child hsecond.sound (hplain.child (by decide)) hbase hignored
  replace hbase := FileTree.locate_mono hthird.grows hbase
  have hlast := FileTree.writeText_child hthird.sound (hplain.child (by decide)) hbase hdescription
  have hrest := hthird.grows.trans hlast.grows
  -- the last two files touch neither the settings nor the sources
  have hkept : ∀ other, other ≠ place ++ [".gitignore"] → other ≠ place ++ ["README.md"] →
      later.entryAt other = second.entryAt other := by
    intro other hignored hdescription
    rw [hlast.entryAt, if_neg hdescription, hthird.entryAt, if_neg hignored]
  refine ⟨?_, place, hlast.sound, hplain, FileTree.locate_mono hlast.grows hbase,
    FileTree.locate_mono (hsecond.grows.trans hrest) hfirst.located,
    FileTree.locate_mono hrest hsecond.located, ?_, ?_, fun sub hsub => ?_⟩
  · exact (hgrows.trans (hfirst.grows.trans (hsecond.grows.trans hrest))).workingDirectory
  · rw [hkept _ (by simp [settingsName]) (by simp [settingsName]), hsecond.entryAt,
      if_neg (by simp), hfirst.entryAt, if_pos rfl]
  · rw [hkept _ (by simp) (by simp), hsecond.entryAt, if_pos rfl]
  · rw [hkept _ (by simp) (by simp), hsecond.entryAt] at hsub
    split at hsub
    · rename_i hsame
      exact .inr (List.append_cancel_left hsame)
    · rw [hfirst.entryAt, if_neg (by simp [settingsName])] at hsub
      exact .inl (hempty sub hsub)

theorem build_of_scaffold (h : scaffold base name tree = (.ok directory, later)) :
    directory = base.join (.ofText name) ∧ build directory name tree = .ok () later := by
  unfold scaffold at h
  dsimp only at h
  split at h
  · cases h
  · cases h
  · split at h
    · rename_i hbuild
      cases h
      exact ⟨rfl, hbuild⟩
    · cases h

/-! ## The settings -/

theorem fromUTF8?_toUTF8 (text : String) : String.fromUTF8? text.toUTF8 = some text := by
  simp only [String.fromUTF8?, String.toUTF8_eq_toByteArray, dif_pos text.isValidUTF8]
  rfl

section Loading

variable {path : Path} {text : String} (hlocate : tree.locate path = .ok place)
  (hentry : tree.entryAt place = some (.file text.toUTF8))

include hlocate hentry

/-- Settings are those of the document that was written as a text. -/
theorem load_of_parse {document : Toml.Table} (hparse : Toml.parse text = .ok document) :
    Settings.load tree path = Settings.ofDocument document := by
  rw [Settings.load, FileTree.bytes_of_locate hlocate hentry]
  dsimp only
  rw [fromUTF8?_toUTF8]
  dsimp only
  rw [hparse]

/-- Settings cannot be loaded from a text that is no document. -/
theorem load_of_fault {fault : Toml.Fault} (hparse : Toml.parse text = .error fault) :
    Settings.load tree path = .error (.document fault) := by
  rw [Settings.load, FileTree.bytes_of_locate hlocate hentry]
  dsimp only
  rw [fromUTF8?_toUTF8]
  dsimp only
  rw [hparse]

end Loading

/-- Where the settings are found, a plain name is read back with the defaults. -/
theorem IsScaffold.load_plain (h : IsScaffold tree directory name place)
    (hname : Toml.IsPlainText name.toList) {path : Path}
    (hlocate : tree.locate path = .ok (place ++ [settingsName])) :
    Settings.load tree path = .ok { name := .text name, version := .text "0.1.0" } := by
  rw [load_of_parse hlocate h.settingsEntry (parse_settingsText hname)]
  exact ofDocument_settings name

/-- **The name is kept just if it needs no escape.** -/
theorem IsScaffold.name_eq_iff (h : IsScaffold tree directory name place) :
    (∃ settings, Settings.load tree (directory.child settingsName) = .ok settings ∧
      settings.name = .text name) ↔ Toml.IsPlainText name.toList := by
  constructor
  · rintro ⟨settings, hload, hname⟩
    cases hparse : Toml.parse (settingsText name) with
    | error fault =>
      rw [load_of_fault h.settings h.settingsEntry hparse] at hload
      cases hload
    | ok document =>
      rw [load_of_parse h.settings h.settingsEntry hparse] at hload
      exact isPlainText_of_settings hparse hload hname
  · intro hname
    exact ⟨_, h.load_plain hname h.settings, rfl⟩

/-! ## The check -/

/-- The source file of a new project is accepted, whatever it is called. -/
theorem parse_sourceText (file : String) : ∃ decls, parse file sourceText = .ok decls := by
  have hparse : (parse "" sourceText).isOk = true := by decide +kernel
  cases houtcome : parse "" sourceText with
  | error fault =>
    rw [houtcome] at hparse
    cases hparse
  | ok decls =>
    obtain ⟨decls', hdecls', -⟩ := parse_filed houtcome file
    exact ⟨decls', hdecls'⟩

theorem ofBytes?_sourceText :
    SourceText.ofBytes? sourceText.toUTF8 = some (.ofContent sourceText) := by
  have hends : Text.unifyNewlines sourceText.toList = sourceText.toList := by decide +kernel
  rw [SourceText.ofBytes?, fromUTF8?_toUTF8]
  dsimp only
  rw [hends, String.ofList_toList]

/-- A file with the source of a new project neither stops a check nor is rejected. -/
theorem passes_sourceText {path : Path} (hlocate : tree.locate path = .ok place)
    (hentry : tree.entryAt place = some (.file sourceText.toUTF8)) :
    crash? tree path = none ∧ rejection? tree path = none := by
  have htext : tree.text path = .ok (.ofContent sourceText) := by
    rw [FileTree.text, FileTree.bytes_of_locate hlocate hentry]
    dsimp only
    rw [ofBytes?_sourceText]
  obtain ⟨decls, hparse⟩ := parse_sourceText path.text
  have houtcome : parse path.text (SourceText.ofContent sourceText).content = .ok decls := hparse
  constructor
  · rw [crash?, htext]
    dsimp only
    rw [houtcome]
  · rw [rejection?, htext]
    dsimp only
    rw [houtcome]

/-- The settings that hold in a directory that has some are its own. -/
theorem locate_of_settings (hsound : tree.Sound) (hplain : directory.IsPlain)
    (hlocate : tree.locate directory = .ok place)
    (hsettings : (tree.entryAt (place ++ [settingsName])).isSome)
    (hshort : (Path.mk .root (place ++ [settingsName])).isLong = false) :
    locate tree directory = .ok (some ⟨.root, place ++ [settingsName]⟩) := by
  have hplace : directoryOf tree place = place := by
    rw [directoryOf, hsound.entryAt_of_append (List.cons_ne_nil _ []) hsettings]
  obtain ⟨found, hfound, hbelongs⟩ := locate_belongs hsound hplain hlocate
    ⟨Path.isLong_of_append hshort, by rwa [hplace]⟩
  have hown : Belongs tree (directoryOf tree place) (some ⟨.root, place ++ [settingsName]⟩) := by
    rw [hplace]
    exact ⟨place, isNearest_self hsettings, rfl⟩
  rw [hfound, hbelongs.unique hown]

/-- A list in strict order with one member only. -/
theorem eq_singleton_of_pairwise {found : List Path} {path : Path}
    (hsorted : found.Pairwise fun first second => first.names < second.names)
    (hmem : ∀ other, other ∈ found ↔ other = path) : found = [path] := by
  cases found with
  | nil => cases (hmem path).mpr rfl
  | cons first rest =>
    cases rest with
    | nil => rw [(hmem first).mp List.mem_cons_self]
    | cons second rest =>
      have hfirst := (hmem first).mp List.mem_cons_self
      have hsecond := (hmem second).mp (List.mem_cons_of_mem first List.mem_cons_self)
      have hless := (List.pairwise_cons.mp hsorted).1 second List.mem_cons_self
      rw [hfirst, hsecond] at hless
      exact absurd hless (List.lt_irrefl path.names)

/-- The only source file that is found below a new project. -/
theorem IsScaffold.findAll_eq (h : IsScaffold tree directory name place)
    (hsource : tree.locate ⟨.root, place ++ ["src"]⟩ = .ok (place ++ ["src"])) :
    Glob.findAll tree ⟨.root, place ++ ["src"]⟩ ("*" ++ ".emb") =
      .ok [⟨.root, place ++ ["src"] ++ ["main.emb"]⟩] := by
  have hmain : (tree.entryAt (place ++ ["src"] ++ ["main.emb"])).isSome := by
    rw [h.mainEntry]
    rfl
  have hdirectory := h.sound.entryAt_of_append (by simp) hmain
  have hshort : Glob.AreShort tree ⟨.root, place ++ ["src"]⟩ (place ++ ["src"]) := by
    intro sub hsub
    rcases h.only sub (by rw [hsub]; rfl) with rfl | rfl
    · rw [List.append_nil]
      exact (FileTree.locate_eq_ok_iff.mp hsource).2.1
    · rw [h.mainEntry] at hsub
      cases hsub
  have hending : Glob.IsEnding ".emb".toList := ⟨by decide, by decide, by decide⟩
  obtain ⟨found, hfound, hsorted, hmem⟩ :=
    Glob.findAll_ending h.sound hsource hdirectory hshort hending
  have hone : found = [⟨.root, place ++ ["src"] ++ ["main.emb"]⟩] := by
    refine eq_singleton_of_pairwise hsorted fun path => (hmem path).trans ⟨?_, ?_⟩
    · rintro ⟨sub, other, rfl, hother, hfits⟩
      rw [List.append_assoc _ sub] at hother
      rcases h.only (sub ++ [other]) hother with hnil | hlast
      · exact absurd hnil (by simp)
      · dsimp only
        rw [List.append_assoc _ sub, hlast]
    · rintro rfl
      refine ⟨[], "main.emb", by rw [List.append_nil], by rwa [List.append_nil],
        Glob.fits_of_suffix (by decide)⟩
  rw [hfound, hone]

/-- **A new project with a plain name checks clean**, from the directory that it was made in. -/
theorem IsScaffold.checks_clean (h : IsScaffold tree directory name place)
    (hname : Toml.IsPlainText name.toList)
    (hshort : (Path.mk .root (place ++ ["src", "main.emb"])).isLong = false)
    (verbose color : Bool) :
    ∃ log, messages log = [] ∧ check verbose color tree directory =
      (.out ("checking " ++ name ++ "...") :: log ++ [.out ("checked " ++ name ++ ": no errors")],
        .exit 0) := by
  have hmain : (tree.entryAt (place ++ ["src"] ++ ["main.emb"])).isSome := by
    rw [h.mainEntry]
    rfl
  have hdirectory := h.sound.entryAt_of_append (by simp) hmain
  have hsettings : (tree.entryAt (place ++ [settingsName])).isSome := by
    rw [h.settingsEntry]
    rfl
  have hshortMain : (Path.mk .root (place ++ ["src"] ++ ["main.emb"])).isLong = false := by
    rwa [List.append_assoc]
  have hshortSettings : (Path.mk .root (place ++ [settingsName])).isLong = false := by
    have hless : Path.bytesOf [settingsName] ≤ Path.bytesOf ["src", "main.emb"] := by decide
    rw [Path.isLong_eq_false_iff (by simp), Path.bytesOf_append] at hshort ⊢
    omega
  have hproject := locate_of_settings h.sound h.plain h.located hsettings hshortSettings
  have hload := h.load_plain hname (h.sound.locate_self hsettings hshortSettings)
  have hsource := h.sound.locate_self (by rw [hdirectory]; rfl) (Path.isLong_of_append hshortMain)
  have hsources :
      sourceDirectory tree ⟨.root, place⟩ { name := .text name, version := .text "0.1.0" } =
        .ok ⟨.root, place ++ ["src"]⟩ := by
    have hjoined : (Path.mk .root place).join (.ofText "src") = ⟨.root, place ++ ["src"]⟩ := by
      rw [show Path.ofText "src" = ⟨.here, ["src"]⟩ by decide]
      rfl
    rw [sourceDirectory]
    dsimp only
    rw [hjoined, FileTree.seek_of_locate hsource, hdirectory]
  have hmainPath := h.sound.locate_self hmain hshortMain
  rw [check_of_settings hproject hload rfl, Path.parent, List.dropLast_concat]
  refine checkProject_of_accepted rfl hsources (h.findAll_eq hsource) (by simp) ?_ verbose color
  intro path hpath
  rw [List.mem_singleton.mp hpath]
  exact passes_sourceText hmainPath h.mainEntry

/-- **What a new project is afterwards.** Its name is kept just if nothing in it needs an escape
between quotes. Then the other settings are the defaults, and the project checks clean, unless the
path of its source file from the root is too long to be looked up. -/
theorem scaffold_keeps_plain (hsound : tree.Sound) (hbase : base.IsPlain)
    (h : scaffold base name tree = (.ok directory, later)) :
    ((∃ settings, Settings.load later (directory.child settingsName) = .ok settings ∧
        settings.name = .text name) ↔ Toml.IsPlainText name.toList) ∧
      (Toml.IsPlainText name.toList →
        Settings.load later (directory.child settingsName) =
          .ok { name := .text name, version := .text "0.1.0" } ∧
        (directory.absolute = true ∨
          (((directory.resolve tree.workingDirectory).child "src").child "main.emb").isLong =
            false →
        ∀ verbose color, ∃ log, messages log = [] ∧ check verbose color later directory =
          (.out ("checking " ++ name ++ "...") :: log ++
            [.out ("checked " ++ name ++ ": no errors")], .exit 0))) := by
  obtain ⟨rfl, hbuild⟩ := build_of_scaffold h
  have hplain := hbase.join (Path.isPlain_ofText name)
  obtain ⟨hworking, place, hmade⟩ := isScaffold_of_build hsound hplain hbuild
  have hresolved := hmade.sound.resolve_of_locate hplain hmade.located
  refine ⟨hmade.name_eq_iff, fun hname =>
    ⟨hmade.load_plain hname hmade.settings, fun hshort verbose color => ?_⟩⟩
  refine hmade.checks_clean hname ?_ verbose color
  rcases hshort with habsolute | hshort
  · have hmain := (FileTree.locate_eq_ok_iff.mp hmade.main).2.1
    rw [Path.child, Path.child, List.append_assoc] at hmain
    have hnames := Path.isLong_resolve habsolute (by simp) hmain later.workingDirectory
    rw [hresolved] at hnames
    exact hnames
  · rw [← hworking, hresolved, Path.child, Path.child, List.append_assoc] at hshort
    exact hshort

/-- A project with a plain name in an empty directory. -/
theorem scaffold_keeps_demo :
    ∃ later, scaffold ⟨.root, ["home"]⟩ "demo" (.ofWorkingDirectory ["home"]) =
        (.ok ⟨.root, ["home", "demo"]⟩, later) ∧
      Settings.load later ⟨.root, ["home", "demo", settingsName]⟩ =
        .ok { name := .text "demo", version := .text "0.1.0" } ∧
      ∀ verbose color, ∃ log, messages log = [] ∧
        check verbose color later ⟨.root, ["home", "demo"]⟩ =
          (.out ("checking " ++ "demo" ++ "...") :: log ++
            [.out ("checked " ++ "demo" ++ ": no errors")], .exit 0) := by
  obtain ⟨later, h⟩ : ∃ later, scaffold ⟨.root, ["home"]⟩ "demo" (.ofWorkingDirectory ["home"]) =
      (.ok ⟨.root, ["home", "demo"]⟩, later) := ⟨_, rfl⟩
  have hhome : ∀ name ∈ ["home"], IsEntryName name := by decide
  have hsound := FileTree.sound_ofWorkingDirectory hhome
  obtain ⟨-, hplain⟩ := scaffold_keeps_plain hsound (by decide) h
  obtain ⟨hload, hcheck⟩ := hplain (by decide)
  exact ⟨later, h, hload, hcheck (.inl rfl)⟩

/-- A quote ends the name in the settings, so that they cannot be read. -/
theorem scaffold_loses_quoted :
    ∃ later, scaffold ⟨.root, ["home"]⟩ "a\"b" (.ofWorkingDirectory ["home"]) =
        (.ok ⟨.root, ["home", "a\"b"]⟩, later) ∧
      ∃ fault, Settings.load later ⟨.root, ["home", "a\"b", settingsName]⟩ = .error fault ∧
        check false false later ⟨.root, ["home", "a\"b"]⟩ = ([], .crash (.settings fault)) := by
  obtain ⟨later, h⟩ : ∃ later, scaffold ⟨.root, ["home"]⟩ "a\"b" (.ofWorkingDirectory ["home"]) =
      (.ok ⟨.root, ["home", "a\"b"]⟩, later) := ⟨_, rfl⟩
  have hhome : ∀ name ∈ ["home"], IsEntryName name := by decide
  have hsound := FileTree.sound_ofWorkingDirectory hhome
  have hplain : (Path.mk .root ["home", "a\"b"]).IsPlain := by decide
  obtain ⟨-, place, hmade⟩ := isScaffold_of_build hsound hplain (build_of_scaffold h).2
  have hplace : ["home", "a\"b"] = place :=
    congrArg Path.names (hmade.sound.resolve_of_locate hplain hmade.located)
  subst hplace
  obtain ⟨fault, hparse⟩ : ∃ fault, Toml.parse (settingsText "a\"b") = .error fault := by
    have hrejected : (Toml.parse (settingsText "a\"b")).toOption.isNone = true := by decide +kernel
    cases hresult : Toml.parse (settingsText "a\"b") with
    | error fault => exact ⟨fault, rfl⟩
    | ok document =>
      rw [hresult] at hrejected
      cases hrejected
  have hload : Settings.load later ⟨.root, ["home", "a\"b"] ++ [settingsName]⟩ =
      .error (.document fault) :=
    load_of_fault hmade.settings hmade.settingsEntry hparse
  have hproject := locate_of_settings hmade.sound hplain hmade.located
    (by rw [hmade.settingsEntry]; rfl) (by decide)
  refine ⟨later, h, .document fault, hload, ?_⟩
  rw [check, hproject]
  dsimp only
  rw [hload]

end FrontEnd.Project
