import FrontEnd.Proofs.Files.Glob
import FrontEnd.Proofs.Files.Growth
import FrontEnd.Proofs.Source.Reported

/-!
# Which files a check reads

A check reads the source files of a project in the order of their paths, and it goes on behind a
file that is rejected. Only a file that cannot be read to its end without a diagnostic stops it:
one that is a directory or no text, or one with an integer of too many digits.

* `Project.crash?`, `Project.rejection?` — what reading one file comes to.
* `Project.checkFiles_spec`, `Project.checkProject_spec` — what reading a list of files and checking
  a project with its settings come to.
* `Project.locate_project` — the directory of the settings that hold at a path.
* `Project.check_reports_rejected` — a check of a project reports all files that are rejected before
  such a stop.
-/

set_option autoImplicit false

namespace FrontEnd.Project

open Output

variable {tree : FileTree} {reporter : Reporter} {path : Path} {verbose : Bool}

/-! ## One file -/

/-- Why reading a file stops a check, if it does. -/
def crash? (tree : FileTree) (path : Path) : Option Crash :=
  match tree.text path with
  | .error fault => some (.file fault)
  | .ok text =>
      match parse path.text text.content with
      | .error (.tooManyDigits count) => some (.tooManyDigits count)
      | _ => none

/-- The diagnostic with which a file is rejected, if it is. -/
def rejection? (tree : FileTree) (path : Path) : Option Diagnostic :=
  match tree.text path with
  | .error _ => none
  | .ok text =>
      match parse path.text text.content with
      | .error (.diagnostic diagnostic) => some diagnostic
      | _ => none

/-- Whether a file is read to its end or rejected, so that a check goes on behind it. -/
def isPassed (tree : FileTree) (path : Path) : Bool :=
  (crash? tree path).isNone

/-- The report of a diagnostic with the line from its file. -/
def reportIn (tree : FileTree) (color : Bool) (diagnostic : Diagnostic) : String :=
  Reporter.report color (tree.text? diagnostic.location.file) diagnostic

/-- The messages among lines. -/
def messages (lines : List Line) : List String :=
  lines.filterMap fun line =>
    match line with
    | .message text => some text
    | _ => none

@[simp]
theorem messages_append (lines others : List Line) :
    messages (lines ++ others) = messages lines ++ messages others :=
  List.filterMap_append

@[simp]
theorem messages_message (text : String) (lines : List Line) :
    messages (.message text :: lines) = text :: messages lines := rfl

@[simp]
theorem messages_out (text : String) (lines : List Line) :
    messages (.out text :: lines) = messages lines := rfl

@[simp]
theorem messages_logLines (verbose : Bool) (events : List Event) :
    messages (logLines verbose events) = [] := by
  rw [messages, List.filterMap_eq_nil_iff]
  unfold logLines
  intro line hline
  split at hline
  · obtain ⟨event, -, rfl⟩ := List.mem_map.mp hline
    rfl
  · cases hline

@[simp]
theorem messages_countLine (verbose : Bool) (path : Path) (decls : List Decl) :
    messages (countLine verbose path decls) = [] := by
  cases verbose <;> rfl

/-- A file is read to its end, rejected, or stops a check. -/
theorem reading_cases (tree : FileTree) (path : Path) :
    (∃ crash, crash? tree path = some crash ∧ rejection? tree path = none) ∨
    (∃ text decls, tree.text path = .ok text ∧ parse path.text text.content = .ok decls ∧
      crash? tree path = none ∧ rejection? tree path = none) ∨
    ∃ text diagnostic, tree.text path = .ok text ∧
      parse path.text text.content = .error (.diagnostic diagnostic) ∧
      crash? tree path = none ∧ rejection? tree path = some diagnostic := by
  unfold crash? rejection?
  cases htext : tree.text path with
  | error fault => exact .inl ⟨_, rfl, rfl⟩
  | ok text =>
    dsimp only
    cases houtcome : parse path.text text.content with
    | ok decls => exact .inr (.inl ⟨text, decls, rfl, houtcome, rfl, rfl⟩)
    | error fault =>
      cases fault with
      | tooManyDigits count => exact .inl ⟨_, rfl, rfl⟩
      | diagnostic diagnostic => exact .inr (.inr ⟨text, diagnostic, rfl, houtcome, rfl, rfl⟩)

/-- Behind a file that stops a check nothing is read, and no message is written about it. -/
theorem checkFiles_of_crash {crash : Crash} (h : crash? tree path = some crash)
    (paths : List Path) :
    messages (checkFiles verbose tree reporter (path :: paths)).1 = [] ∧
      (checkFiles verbose tree reporter (path :: paths)).2 = .error crash := by
  unfold crash? at h
  rw [checkFiles]
  cases htext : tree.text path with
  | error fault =>
    rw [htext] at h
    cases h
    exact ⟨rfl, rfl⟩
  | ok text =>
    rw [htext] at h
    dsimp only at h ⊢
    rw [parse] at h
    split at h
    · rename_i count hcount
      cases h
      rw [hcount]
      exact ⟨messages_logLines _ _, rfl⟩
    · cases h

/-- **What reading a list of files comes to**: the files that are rejected are reported in their
order, as far as no file before them stops the check, and all files are accepted unless one is
rejected. -/
theorem checkFiles_spec (hrecalls : reporter.Recalls tree) (paths : List Path) :
    messages (checkFiles verbose tree reporter paths).1 =
        ((paths.takeWhile (isPassed tree)).filterMap (rejection? tree)).map
          (reportIn tree reporter.color) ∧
      (checkFiles verbose tree reporter paths).2 =
        match paths.findSome? (crash? tree) with
        | some crash => .error crash
        | none => .ok (paths.all fun path => (rejection? tree path).isNone) := by
  induction paths generalizing reporter with
  | nil => exact ⟨rfl, rfl⟩
  | cons path paths ih =>
    rw [List.takeWhile_cons, List.findSome?_cons, List.all_cons]
    rcases reading_cases tree path with ⟨crash, hcrash, -⟩ |
      ⟨text, decls, htext, houtcome, hcrash, hrejection⟩ |
      ⟨text, diagnostic, htext, houtcome, hcrash, hrejection⟩
    · rw [isPassed, hcrash]
      exact checkFiles_of_crash hcrash paths
    · obtain ⟨hmessages, hresult⟩ := ih hrecalls
      rw [checkFiles_of_ok htext houtcome, isPassed, hcrash, hrejection]
      refine ⟨?_, hresult⟩
      simp [hmessages, hrejection]
    · obtain ⟨hreport, hkept, hcolor⟩ := hrecalls.render diagnostic
      obtain ⟨hmessages, hresult⟩ := ih hkept
      rw [checkFiles_of_diagnostic htext houtcome, isPassed, hcrash, hrejection]
      refine ⟨?_, ?_⟩
      · simp [hmessages, hrejection, hreport, hcolor, reportIn]
      · rw [hresult]
        cases paths.findSome? (crash? tree) <;> rfl

/-! ## The project -/

variable {start settingsPath project directory : Path} {settings : Settings}
  {source ending : String}

/-- The settings that hold at a path stand in a directory. -/
theorem locate_nearest {reversed : List String}
    (h : nearestSettings tree reversed = .ok (some settingsPath)) :
    ∃ place, tree.locate settingsPath.parent = .ok place ∧
      tree.entryAt place = some .directory := by
  have hfound : ∀ above entry, tree.seek (settingsBelow above) = .ok (some entry) →
      ∃ place, tree.locate (settingsBelow above).parent = .ok place ∧
        tree.entryAt place = some .directory := by
    intro above entry hseek
    obtain ⟨goal, hlocate, -⟩ := FileTree.locate_of_seek hseek
    have hnames : settingsBelow above = ⟨.root, above.reverse ++ [settingsName]⟩ := by
      rw [settingsBelow, List.reverse_cons]
    rw [hnames] at hlocate ⊢
    rw [Path.parent, List.dropLast_concat]
    exact FileTree.locate_parent hlocate
  induction reversed with
  | nil =>
    rw [nearestSettings] at h
    split at h
    · cases h
    · rename_i entry hseek
      cases h
      exact hfound _ entry hseek
    · cases h
  | cons name above ih =>
    rw [nearestSettings] at h
    split at h
    · cases h
    · rename_i entry hseek
      cases h
      exact hfound _ entry hseek
    · exact ih h

/-- The project that a path belongs to is a directory. -/
theorem locate_project (h : locate tree start = .ok (some settingsPath)) :
    ∃ place, tree.locate settingsPath.parent = .ok place ∧
      tree.entryAt place = some .directory := by
  unfold locate at h
  split at h
  · cases h
  · exact locate_nearest h

/-- The sources are in the directory that the settings name, or in the project itself where there is
no such directory. -/
theorem locate_source {place : Place} (hplace : tree.locate project = .ok place)
    (hproject : tree.entryAt place = some .directory) (hsource : settings.directory = .text source)
    (h : sourceDirectory tree project settings = .ok directory) :
    (directory = if tree.isDirectory (project.join (.ofText source)) then
        project.join (.ofText source) else project) ∧
      ∃ place, tree.locate directory = .ok place ∧ tree.entryAt place = some .directory := by
  rw [sourceDirectory, hsource] at h
  dsimp only at h
  split at h
  · cases h
  · rename_i hseek
    cases h
    rw [if_pos (FileTree.isDirectory_iff.mpr hseek)]
    exact ⟨rfl, FileTree.locate_of_seek hseek⟩
  · rename_i entry hother hseek
    cases h
    rw [if_neg fun hdirectory => ?_]
    · exact ⟨rfl, place, hplace, hproject⟩
    · rw [FileTree.isDirectory_iff, hseek] at hdirectory
      exact hother (Except.ok.inj hdirectory)

/-- What reading the sources of a project comes to, given the files that are found. -/
theorem checkSources_spec {found : List Path} (hending : settings.extension = .text ending)
    (hdirectory : sourceDirectory tree project settings = .ok directory)
    (hfound : Glob.findAll tree directory ("*" ++ ending) = .ok found) (verbose color : Bool) :
    messages (checkSources verbose color tree project settings).1 =
        (if found = [] then ["warning: no " ++ ending ++ " files found"]
        else ((found.takeWhile (isPassed tree)).filterMap (rejection? tree)).map
          (reportIn tree (color && settings.color.isTruthy))) ∧
      (checkSources verbose color tree project settings).2 =
        match found.findSome? (crash? tree) with
        | some crash => .error crash
        | none => .ok (found.all fun path => (rejection? tree path).isNone) := by
  have hshown : settings.extension.shown = ending := by
    rw [hending]
    rfl
  have hwritable : settings.extension.isWritable = true := by
    rw [hending, Toml.Value.isWritable]
    all_goals nofun
  rw [checkSources, hdirectory]
  dsimp only
  rw [hshown, hwritable, hfound]
  cases found with
  | nil => exact ⟨rfl, rfl⟩
  | cons path found =>
    have hrecalls := Reporter.recalls_ofColor tree (color && settings.color.isTruthy)
    rw [if_neg (List.cons_ne_nil path found)]
    exact checkFiles_spec hrecalls (path :: found)

/-- What a check of a project writes and how it ends, given the files that are found. -/
theorem checkProject_spec {found : List Path} (hending : settings.extension = .text ending)
    (hdirectory : sourceDirectory tree project settings = .ok directory)
    (hfound : Glob.findAll tree directory ("*" ++ ending) = .ok found) (verbose color : Bool) :
    messages (checkProject verbose color tree project settings).1 =
        (if found = [] then ["warning: no " ++ ending ++ " files found"]
        else ((found.takeWhile (isPassed tree)).filterMap (rejection? tree)).map
          (reportIn tree (color && settings.color.isTruthy))) ∧
      (checkProject verbose color tree project settings).2 =
        match found.findSome? (crash? tree) with
        | some crash => .crash crash
        | none => .exit (if found.all fun path => (rejection? tree path).isNone then 0 else 1) := by
  obtain ⟨hmessages, hresult⟩ := checkSources_spec hending hdirectory hfound verbose color
  rw [checkProject]
  dsimp only
  rw [hresult]
  cases found.findSome? (crash? tree) with
  | some crash => exact ⟨hmessages, rfl⟩
  | none =>
    cases found.all fun path => (rejection? tree path).isNone with
    | false => exact ⟨hmessages, rfl⟩
    | true =>
      refine ⟨?_, rfl⟩
      rw [messages_append, messages_out, hmessages]
      exact List.append_nil _

/-- Where files are found and all of them are accepted, a check of a project says that there are no
errors, and no message is written. -/
theorem checkProject_of_accepted {found : List Path} (hending : settings.extension = .text ending)
    (hdirectory : sourceDirectory tree project settings = .ok directory)
    (hfound : Glob.findAll tree directory ("*" ++ ending) = .ok found) (hne : found ≠ [])
    (haccepted : ∀ path ∈ found, crash? tree path = none ∧ rejection? tree path = none)
    (verbose color : Bool) :
    ∃ log, messages log = [] ∧ checkProject verbose color tree project settings =
      (.out ("checking " ++ settings.name.shown ++ "...") :: log ++
        [.out ("checked " ++ settings.name.shown ++ ": no errors")], .exit 0) := by
  obtain ⟨hmessages, hresult⟩ := checkSources_spec hending hdirectory hfound verbose color
  have hcrash : found.findSome? (crash? tree) = none :=
    List.findSome?_eq_none_iff.mpr fun path hpath => (haccepted path hpath).1
  have hrejection : (found.takeWhile (isPassed tree)).filterMap (rejection? tree) = [] :=
    List.filterMap_eq_nil_iff.mpr fun path hpath =>
      (haccepted path (List.takeWhile_subset _ hpath)).2
  have hall : (found.all fun path => (rejection? tree path).isNone) = true := by
    rw [List.all_eq_true]
    intro path hpath
    rw [(haccepted path hpath).2]
    rfl
  rw [if_neg hne, hrejection] at hmessages
  rw [hcrash, hall] at hresult
  refine ⟨_, hmessages, ?_⟩
  rw [checkProject]
  dsimp only
  rw [hresult]

/-- A check of a path is one of the project that it belongs to. -/
theorem check_of_settings {name : String} (hlocate : locate tree start = .ok (some settingsPath))
    (hload : Settings.load tree settingsPath = .ok settings) (hname : settings.name = .text name)
    (verbose color : Bool) :
    check verbose color tree start =
      checkProject verbose color tree settingsPath.parent settings := by
  have hwritable : settings.name.isWritable = true := by
    rw [hname, Toml.Value.isWritable]
    all_goals nofun
  rw [check, hlocate]
  dsimp only
  rw [hload]
  dsimp only
  rw [if_pos hwritable]

/-- **A check reports every file that is rejected**, in the order of the paths, as long as no file
before it stops the check. Below the directory of the sources it comes to all entries whose names
end as the settings say, at any depth, each once. Without a stop it ends with the exit code 1 just
if a file is rejected. -/
theorem check_reports_rejected (hsound : tree.Sound)
    (hlocate : locate tree start = .ok (some settingsPath))
    (hload : Settings.load tree settingsPath = .ok settings) {name : String}
    (hname : settings.name = .text name) (hsource : settings.directory = .text source)
    (hextension : settings.extension = .text ending) (hending : Glob.IsEnding ending.toList)
    (hdirectory : sourceDirectory tree settingsPath.parent settings = .ok directory)
    (hshort : ∀ place, tree.locate directory = .ok place → Glob.AreShort tree directory place) :
    (directory = if tree.isDirectory (settingsPath.parent.join (.ofText source)) then
        settingsPath.parent.join (.ofText source) else settingsPath.parent) ∧
    ∃ place found, tree.locate directory = .ok place ∧
      found.Pairwise (fun path other => path.names < other.names) ∧
      (∀ sub name, (tree.entryAt (place ++ sub ++ [name])).isSome →
        ending.toList <:+ name.toList →
          (⟨directory.anchor, directory.names ++ sub ++ [name]⟩ : Path) ∈ found) ∧
      (∀ path ∈ found, ∃ sub name,
        path = ⟨directory.anchor, directory.names ++ sub ++ [name]⟩ ∧
        (tree.entryAt (place ++ sub ++ [name])).isSome ∧
        (Glob.IsVerbatim ending.toList → ending.toList <:+ name.toList)) ∧
      ∀ verbose color,
        messages (check verbose color tree start).1 =
            (if found = [] then ["warning: no " ++ ending ++ " files found"]
            else ((found.takeWhile (isPassed tree)).filterMap (rejection? tree)).map
              (reportIn tree (color && settings.color.isTruthy))) ∧
          (check verbose color tree start).2 =
            match found.findSome? (crash? tree) with
            | some crash => .crash crash
            | none =>
                .exit (if found.all fun path => (rejection? tree path).isNone then 0 else 1) := by
  obtain ⟨project, hproject, hentry⟩ := locate_project hlocate
  obtain ⟨hwhich, place, hplace, hplaced⟩ := locate_source hproject hentry hsource hdirectory
  obtain ⟨found, hfound, hsorted, hmem⟩ :=
    Glob.findAll_ending hsound hplace hplaced (hshort place hplace) hending
  refine ⟨hwhich, place, found, hplace, hsorted, fun sub name hname hends => ?_,
    fun path hpath => ?_, fun verbose color => ?_⟩
  · exact (hmem _).mpr ⟨sub, name, rfl, hname, Glob.fits_of_suffix hends⟩
  · obtain ⟨sub, name, rfl, hname, hfits⟩ := (hmem path).mp hpath
    exact ⟨sub, name, rfl, hname, fun hverbatim => (Glob.fits_verbatim hverbatim).mp hfits⟩
  · rw [check_of_settings hlocate hload hname]
    exact checkProject_spec hextension hdirectory hfound verbose color

/-- A project with settings that say nothing, and with two entries more. -/
def smallProject (first second : String × Entry) : FileTree :=
  (((FileTree.ofWorkingDirectory ["home"]).put (["home"] ++ [settingsName])
    (.file "".toUTF8)).put (["home"] ++ [first.1]) first.2).put (["home"] ++ [second.1]) second.2

theorem sound_smallProject {first second : String × Entry} (hfirst : IsEntryName first.1)
    (hsecond : IsEntryName second.1) (hne : first.1 ≠ second.1) :
    (smallProject first second).Sound := by
  have hhome : ∀ name ∈ ["home"], IsEntryName name := by decide
  have hnothing : ∀ name,
      (FileTree.ofWorkingDirectory ["home"]).entryAt (["home"] ++ [name]) = none :=
    fun name => rfl
  have hsettings : ∀ name, ((FileTree.ofWorkingDirectory ["home"]).put (["home"] ++ [settingsName])
      (.file "".toUTF8)).entryAt (["home"] ++ [name]) ≠ some .directory := by
    intro name
    rw [FileTree.entryAt_put (by simp)]
    split
    · nofun
    · rw [hnothing]
      nofun
  refine FileTree.Sound.put (FileTree.Sound.put (FileTree.Sound.put
    (FileTree.sound_ofWorkingDirectory hhome) (by decide) rfl (.inr nofun)) hfirst rfl
    (.inr (hsettings _))) hsecond rfl (.inr ?_)
  rw [FileTree.entryAt_put (by simp), if_neg (by simpa using hne.symm)]
  exact hsettings _

/-- Two files that are rejected. -/
theorem check_reports_rejected_of_two :
    let tree := smallProject ("a.emb", .file "f = )".toUTF8) ("b.emb", .file "g = (".toUTF8)
    ∃ found : List Path, found.Pairwise (fun path other => path.names < other.names) ∧
      ⟨.root, ["home", "a.emb"]⟩ ∈ found ∧ ⟨.root, ["home", "b.emb"]⟩ ∈ found ∧
      (check false false tree (.ofText ".")).2 =
        match found.findSome? (crash? tree) with
        | some crash => .crash crash
        | none => .exit (if found.all fun path => (rejection? tree path).isNone then 0 else 1) := by
  intro tree
  have hsound : tree.Sound := sound_smallProject (by decide) (by decide) (by decide)
  have hproject : locate tree (.ofText ".") = .ok (some ⟨.root, ["home", settingsName]⟩) := rfl
  have hload : Settings.load tree ⟨.root, ["home", settingsName]⟩ = .ok {} := rfl
  have hending : Glob.IsEnding ".emb".toList := ⟨by decide, by decide, by decide⟩
  have hdirectory : sourceDirectory tree ⟨.root, ["home"]⟩ {} = .ok ⟨.root, ["home"]⟩ := rfl
  have hhome : tree.locate ⟨.root, ["home"]⟩ = .ok ["home"] := rfl
  have hshort : ∀ place, tree.locate ⟨.root, ["home"]⟩ = .ok place →
      Glob.AreShort tree ⟨.root, ["home"]⟩ place := by
    intro place hplace sub hentry
    rw [hhome] at hplace
    cases hplace
    have hentries : tree.entries = [(["home"], .directory),
      (["home", settingsName], .file "".toUTF8), (["home", "a.emb"], .file "f = )".toUTF8),
      (["home", "b.emb"], .file "g = (".toUTF8)] := rfl
    have hmem := FileTree.mem_of_entryAt hentry (List.append_ne_nil_of_left_ne_nil (by simp) sub)
    have hsub : sub = [] := by simpa [hentries] using hmem
    subst hsub
    decide
  obtain ⟨-, place, found, hplace, hsorted, hfound, -, hcheck⟩ :=
    check_reports_rejected hsound hproject hload rfl rfl rfl hending hdirectory hshort
  cases hhome.symm.trans hplace
  exact ⟨found, hsorted, hfound [] "a.emb" rfl (by decide), hfound [] "b.emb" rfl (by decide),
    (hcheck false false).2⟩

/-- A file that is no text hides the one behind it, which is rejected but not reported. -/
theorem check_hides_behind_undecodable :
    let tree := smallProject ("a.emb", .file ⟨#[0xff]⟩) ("b.emb", .file "f = )".toUTF8)
    (rejection? tree ⟨.root, ["home", "b.emb"]⟩).isSome = true ∧
      messages (check false false tree (.ofText ".")).1 = [] ∧
      (check false false tree (.ofText ".")).2 = .crash (.file .notText) := by
  intro tree
  have hproject : locate tree (.ofText ".") = .ok (some ⟨.root, ["home", settingsName]⟩) := rfl
  have hload : Settings.load tree ⟨.root, ["home", settingsName]⟩ = .ok {} := rfl
  have hcheck : check false false tree (.ofText ".") =
      checkProject false false tree ⟨.root, ["home"]⟩ {} :=
    check_of_settings hproject hload rfl false false
  have hdirectory : sourceDirectory tree ⟨.root, ["home"]⟩ {} = .ok ⟨.root, ["home"]⟩ := rfl
  have hfound : Glob.findAll tree ⟨.root, ["home"]⟩ ("*" ++ ".emb") =
      .ok [⟨.root, ["home", "a.emb"]⟩, ⟨.root, ["home", "b.emb"]⟩] := by
    have hending : Glob.IsEnding ".emb".toList := ⟨by decide, by decide, by decide⟩
    have hroot : Glob.arranged [⟨.root, ["home"]⟩] = [⟨.root, ["home"]⟩] := by
      rw [Glob.arranged, List.mergeSort_of_pairwise] <;> decide
    have htwo : Glob.arranged [⟨.root, ["home", "a.emb"]⟩, ⟨.root, ["home", "b.emb"]⟩] =
        [⟨.root, ["home", "a.emb"]⟩, ⟨.root, ["home", "b.emb"]⟩] := by
      rw [Glob.arranged, List.mergeSort_of_pairwise] <;> decide
    have hisDirectory : tree.isDirectory ⟨.root, ["home"]⟩ = true := rfl
    have hfirst : Glob.gather (fun path => Glob.Step.anywhere.reach tree false path)
        [⟨.root, ["home"]⟩] = .ok [⟨.root, ["home"]⟩] := rfl
    have hsecond : Glob.gather (fun path =>
        (Glob.Step.matching (.any :: ".emb".toList.map Glob.pieceOf)).reach tree true path)
        [⟨.root, ["home"]⟩] = .ok [⟨.root, ["home", "a.emb"]⟩, ⟨.root, ["home", "b.emb"]⟩] := rfl
    rw [Glob.findAll, Glob.stepsOf?_ending hending]
    dsimp only
    rw [if_pos hisDirectory, Glob.select_cons hfirst, hroot, Glob.select_cons hsecond, htwo,
      Glob.select]
  obtain ⟨hmessages, hending⟩ := checkProject_spec rfl hdirectory hfound false false
  rw [hcheck, hmessages, hending]
  refine ⟨by decide +kernel, by decide +kernel, by decide +kernel⟩

end FrontEnd.Project
