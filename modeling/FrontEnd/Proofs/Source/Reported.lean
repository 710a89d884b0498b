import FrontEnd.CommandLine.Run
import FrontEnd.Proofs.Files.Path
import FrontEnd.Proofs.Source.Pointed

/-!
# Reports show where sources are wrong

A diagnostic points into its source, so its report finds the line there and has room for the caret:
under a character of the line, or right behind the last one.

* `Reporter.Shows` — a report that shows its diagnostic on a line of a text.
* `Reporter.Recalls` — a reporter that knows nothing but what the files say; reporting keeps it so.
* `diagnostics_point` — diagnostics point into their sources, and reports of files show them there.
-/

set_option autoImplicit false

namespace FrontEnd

/-! ## Texts of files -/

namespace FileTree

variable {tree : FileTree} {path : Path} {text : SourceText}

/-- The lines of a file are those of its text. -/
theorem eq_ofContent_of_text (h : tree.text path = .ok text) :
    text = SourceText.ofContent text.content := by
  unfold FileTree.text at h
  cases hbytes : tree.bytes path with
  | error fault =>
    rw [hbytes] at h
    cases h
  | ok content =>
    rw [hbytes] at h
    dsimp only at h
    cases hdecoded : SourceText.ofBytes? content with
    | none =>
      rw [hdecoded] at h
      cases h
    | some decoded =>
      rw [hdecoded] at h
      cases h
      unfold SourceText.ofBytes? at hdecoded
      split at hdecoded
      · cases hdecoded
      · cases hdecoded
        rfl

/-- A file is found under the text of its path. -/
theorem text?_text (hplain : path.IsPlain) (h : tree.text path = .ok text) :
    tree.text? path.text = some text := by
  rw [text?, Path.ofText_text hplain, h]
  rfl

end FileTree

/-! ## Reports -/

namespace Reporter

/-- A report that shows its diagnostic on a line of a text: the line is there, and the caret is
under it or right behind its end. -/
def Shows (content : String) (color : Bool) (diagnostic : Diagnostic) (report : String) : Prop :=
  ∃ (number : Nat) (line : String), (Text.linesOf content)[number]? = some line ∧
    diagnostic.location.line = number + 1 ∧
    0 ≤ diagnostic.location.col ∧ diagnostic.location.col ≤ line.length ∧
    report = "\n".intercalate (headline color diagnostic :: snippet color diagnostic line)

/-- The report of a diagnostic at a position of a text shows it there. -/
theorem shows_report {file content : String} {pos : Nat} {diagnostic : Diagnostic}
    (h : diagnostic.location = placeAt file content pos) (color : Bool) :
    Shows content color diagnostic
      (report color (some (SourceText.ofContent content)) diagnostic) := by
  have hline := SourceText.getElem?_linesOf content pos
  have hnumber := SourceText.line?_lineOf content pos
  rw [hline] at hnumber
  refine ⟨_, _, hline, ?_, ?_, ?_, ?_⟩
  · rw [h]
    simp only [placeAt, Text.lineOf]
    omega
  · rw [h]
    exact Int.natCast_nonneg _
  · rw [h, String.length_ofList, List.length_append]
    simp only [placeAt, Text.colOf]
    omega
  · have hfound : (SourceText.ofContent content).line? diagnostic.location.line =
        some (String.ofList ((content.toList.take pos).rtakeWhile (· != '\n') ++
          (content.toList.drop pos).takeWhile (· != '\n'))) := by
      rw [h]
      exact hnumber
    rw [report, Option.bind_some, hfound]

/-- A reporter that knows nothing but what the files say. -/
def Recalls (tree : FileTree) (reporter : Reporter) : Prop :=
  ∀ file text, reporter.known.lookup file = some text → text = tree.text? file

variable {tree : FileTree} {reporter : Reporter}

theorem recalls_ofColor (tree : FileTree) (color : Bool) : (ofColor color).Recalls tree :=
  nofun

/-- It answers with what the files say, and goes on so. -/
theorem Recalls.textOf (h : reporter.Recalls tree) (file : String) :
    (reporter.textOf tree.text? file).1 = tree.text? file ∧
      (reporter.textOf tree.text? file).2.Recalls tree ∧
      (reporter.textOf tree.text? file).2.color = reporter.color := by
  unfold Reporter.textOf
  cases hknown : reporter.known.lookup file with
  | some text => exact ⟨h file text hknown, h, rfl⟩
  | none =>
    refine ⟨rfl, fun other text hother => ?_, rfl⟩
    rw [List.lookup_cons] at hother
    split at hother
    · rename_i hsame
      cases hother
      rw [beq_iff_eq.mp hsame]
    · exact h other text hother

/-- What is reported is what the files say. -/
theorem Recalls.render (h : reporter.Recalls tree) (diagnostic : Diagnostic) :
    (reporter.render tree.text? diagnostic).1 =
        report reporter.color (tree.text? diagnostic.location.file) diagnostic ∧
      (reporter.render tree.text? diagnostic).2.Recalls tree ∧
      (reporter.render tree.text? diagnostic).2.color = reporter.color := by
  obtain ⟨htext, hrecalls, hcolor⟩ := h.textOf diagnostic.location.file
  refine ⟨?_, hrecalls, hcolor⟩
  show report (reporter.textOf tree.text? diagnostic.location.file).2.color
    (reporter.textOf tree.text? diagnostic.location.file).1 diagnostic = _
  rw [htext, hcolor]

end Reporter

/-! ## Checks -/

namespace Project

variable {verbose : Bool} {tree : FileTree} {reporter : Reporter} {path : Path} {text : SourceText}

/-- A file that is accepted is counted, and the next one is read. -/
theorem checkFiles_of_ok (htext : tree.text path = .ok text) {decls : List Decl}
    (houtcome : parse path.text text.content = .ok decls) (paths : List Path) :
    checkFiles verbose tree reporter (path :: paths) =
      (logLines verbose (read path.text text.content).events ++ countLine verbose path decls ++
          (checkFiles verbose tree reporter paths).1,
        (checkFiles verbose tree reporter paths).2) := by
  rw [parse] at houtcome
  rw [checkFiles, htext]
  dsimp only
  rw [houtcome]

/-- A file that is rejected is reported, and the next one is read. -/
theorem checkFiles_of_diagnostic (htext : tree.text path = .ok text) {diagnostic : Diagnostic}
    (houtcome : parse path.text text.content = .error (.diagnostic diagnostic))
    (paths : List Path) :
    checkFiles verbose tree reporter (path :: paths) =
      (logLines verbose (read path.text text.content).events ++
          .message (reporter.render tree.text? diagnostic).1 ::
            (checkFiles verbose tree (reporter.render tree.text? diagnostic).2 paths).1,
        (checkFiles verbose tree (reporter.render tree.text? diagnostic).2 paths).2.map
          fun _ => false) := by
  rw [parse] at houtcome
  rw [checkFiles, htext]
  dsimp only
  rw [houtcome]

/-- The next file is read just if this one is accepted or rejected. -/
theorem checkFiles_cons {paths : List Path} {accepted : Bool}
    (h : (checkFiles verbose tree reporter (path :: paths)).2 = .ok accepted) :
    ∃ text, tree.text path = .ok text ∧
      ((∃ decls, parse path.text text.content = .ok decls ∧
          (checkFiles verbose tree reporter paths).2 = .ok accepted) ∨
        ∃ diagnostic, parse path.text text.content = .error (.diagnostic diagnostic) ∧
          ∃ others, (checkFiles verbose tree (reporter.render tree.text? diagnostic).2 paths).2 =
            .ok others) := by
  cases htext : tree.text path with
  | error fault =>
    rw [checkFiles, htext] at h
    cases h
  | ok text =>
    refine ⟨text, rfl, ?_⟩
    cases houtcome : parse path.text text.content with
    | ok decls =>
      rw [checkFiles_of_ok htext houtcome] at h
      exact .inl ⟨decls, rfl, h⟩
    | error fault =>
      cases fault with
      | tooManyDigits count =>
        rw [parse] at houtcome
        rw [checkFiles, htext] at h
        dsimp only at h
        rw [houtcome] at h
        cases h
      | diagnostic diagnostic =>
        rw [checkFiles_of_diagnostic htext houtcome] at h
        refine .inr ⟨diagnostic, rfl, ?_⟩
        cases hrest : (checkFiles verbose tree
            (reporter.render tree.text? diagnostic).2 paths).2 with
        | ok others => exact ⟨others, rfl⟩
        | error crash =>
          rw [hrest] at h
          cases h

/-- **Files that were read leave nothing behind but their lines**: what follows is checked by a
reporter that again knows nothing but what the files say. -/
theorem checkFiles_append (hrecalls : reporter.Recalls tree) {before : List Path} {accepted : Bool}
    (h : (checkFiles verbose tree reporter before).2 = .ok accepted) :
    ∃ later : Reporter, later.Recalls tree ∧ later.color = reporter.color ∧ ∀ behind,
      (checkFiles verbose tree reporter (before ++ behind)).1 =
        (checkFiles verbose tree reporter before).1 ++
          (checkFiles verbose tree later behind).1 := by
  induction before generalizing reporter accepted with
  | nil => exact ⟨reporter, hrecalls, rfl, fun _ => rfl⟩
  | cons path before ih =>
    obtain ⟨text, htext, ⟨decls, houtcome, hrest⟩ | ⟨diagnostic, houtcome, others, hrest⟩⟩ :=
      checkFiles_cons h
    · obtain ⟨later, hlater, hcolor, hbehind⟩ := ih hrecalls hrest
      refine ⟨later, hlater, hcolor, fun behind => ?_⟩
      rw [List.cons_append, checkFiles_of_ok htext houtcome, checkFiles_of_ok htext houtcome]
      simp only [hbehind, List.append_assoc]
    · obtain ⟨-, hkept, hsame⟩ := hrecalls.render diagnostic
      obtain ⟨later, hlater, hcolor, hbehind⟩ := ih hkept hrest
      refine ⟨later, hlater, hcolor.trans hsame, fun behind => ?_⟩
      rw [List.cons_append, checkFiles_of_diagnostic htext houtcome,
        checkFiles_of_diagnostic htext houtcome]
      simp only [hbehind, List.append_assoc, List.cons_append]

end Project

/-- A file that is rejected is reported instead of shown. -/
theorem CommandLine.viewFile_of_diagnostic {options : Options} {tree : FileTree} {path : Path}
    {text : SourceText} {diagnostic : Diagnostic} (htext : tree.text path = .ok text)
    (houtcome : parse path.text text.content = .error (.diagnostic diagnostic)) :
    viewFile options tree path =
      (Project.logLines options.verbose (read path.text text.content).events ++
        [reportLine options tree diagnostic], .exit 1) := by
  rw [parse] at houtcome
  rw [viewFile, htext]
  dsimp only
  rw [houtcome]

/-! ## Files -/

section Files

variable {tree : FileTree} {path : Path} {text : SourceText} {diagnostic : Diagnostic}

/-- Where reading a source stops with a diagnostic, it points into the source. -/
theorem points_of_parse {file source : String}
    (h : parse file source = .error (.diagnostic diagnostic))
    (hcause : diagnostic.cause ≠ .tooDeep) :
    ∃ left, Grammar.file nestingBudget (Lexer.ofSource file source) =
        .error (.diagnostic diagnostic) left ∧ diagnostic.PointsInto file source left := by
  have hanswer : Rule.answer (Grammar.file nestingBudget) (Lexer.ofSource file source) =
      .error (.diagnostic diagnostic) :=
    (outcome_eq_answer nestingBudget file source).symm.trans h
  have hfile := Rule.eq_error_of_answer hanswer
  exact ⟨_, hfile, points_of_file hfile hcause⟩

/-- **A file that is rejected is shown where it is wrong** by every reporter that knows nothing but
what the files say. -/
theorem shows_of_parse {reporter : Reporter} (hrecalls : reporter.Recalls tree)
    (hplain : path.IsPlain) (htext : tree.text path = .ok text)
    (h : parse path.text text.content = .error (.diagnostic diagnostic))
    (hcause : diagnostic.cause ≠ .tooDeep) :
    Reporter.Shows text.content reporter.color diagnostic
      (reporter.render tree.text? diagnostic).1 := by
  obtain ⟨-, -, pos, -, hlocation, -⟩ := points_of_parse h hcause
  have hfile : diagnostic.location.file = path.text := by
    rw [hlocation]
    rfl
  have hfound : tree.text? diagnostic.location.file =
      some (SourceText.ofContent text.content) := by
    rw [hfile, FileTree.text?_text hplain htext, ← FileTree.eq_ofContent_of_text htext]
  rw [(hrecalls.render diagnostic).1, hfound]
  exact Reporter.shows_report hlocation reporter.color

end Files

/-- **Diagnostics point into their sources, and reports show them there.** Whatever stops an
advance over a source, its splitting into tokens, or its reading, short of the budget for nesting,
is at a position of the source. And a file that is rejected is reported, when it is viewed or
checked, with the line of that position, and the caret is under this line or right behind its
end. -/
theorem diagnostics_point :
    (∀ file source lexer diagnostic left, Lexer.Reached (.ofSource file source) lexer →
      lexer.advance = .error (.diagnostic diagnostic) left →
        diagnostic.PointsInto file source left) ∧
    (∀ file source tokens diagnostic left,
      tokenize file source = (tokens, some (.diagnostic diagnostic), left) →
        diagnostic.PointsInto file source left) ∧
    (∀ file source diagnostic, parse file source = .error (.diagnostic diagnostic) →
      diagnostic.cause ≠ .tooDeep →
        ∃ left, Grammar.file nestingBudget (Lexer.ofSource file source) =
            .error (.diagnostic diagnostic) left ∧
          diagnostic.PointsInto file source left) ∧
    ∀ (tree : FileTree) path text diagnostic, path.IsPlain → tree.text path = .ok text →
      parse path.text text.content = .error (.diagnostic diagnostic) →
      diagnostic.cause ≠ .tooDeep →
        let events := (read path.text text.content).events
        (∀ options, ∃ report, Reporter.Shows text.content options.color diagnostic report ∧
          CommandLine.viewFile options tree path =
            (Project.logLines options.verbose events ++ [.message report], .exit 1)) ∧
        ∀ verbose (reporter : Reporter) before behind accepted, reporter.Recalls tree →
          (Project.checkFiles verbose tree reporter before).2 = .ok accepted →
            ∃ report rest, Reporter.Shows text.content reporter.color diagnostic report ∧
              (Project.checkFiles verbose tree reporter (before ++ path :: behind)).1 =
                (Project.checkFiles verbose tree reporter before).1 ++
                  (Project.logLines verbose events ++ .message report :: rest) := by
  refine ⟨fun _ _ _ _ _ hreached => Lexer.points_of_advance hreached,
    fun _ _ _ _ _ => points_of_tokenize, fun _ _ _ => points_of_parse, ?_⟩
  intro tree path text diagnostic hplain htext h hcause events
  refine ⟨fun options => ?_, fun verbose reporter before behind accepted hrecalls hbefore => ?_⟩
  · have hrecalls := Reporter.recalls_ofColor tree options.color
    have hshows := shows_of_parse hrecalls hplain htext h hcause
    exact ⟨((Reporter.ofColor options.color).render tree.text? diagnostic).1, hshows,
      CommandLine.viewFile_of_diagnostic htext h⟩
  · obtain ⟨later, hlater, hcolor, hbehind⟩ := Project.checkFiles_append hrecalls hbefore
    have hshows := shows_of_parse hlater hplain htext h hcause
    rw [hcolor] at hshows
    refine ⟨(later.render tree.text? diagnostic).1,
      (Project.checkFiles verbose tree (later.render tree.text? diagnostic).2 behind).1, hshows, ?_⟩
    rw [hbehind, Project.checkFiles_of_diagnostic htext h]

/-- A file that ends in a closing bracket which was never opened. -/
theorem diagnostics_point_of_unopened :
    let tree : FileTree := ⟨[(["main.em"], .file "f = )".toUTF8)], .root⟩
    let diagnostic : Diagnostic := ⟨⟨"main.em", 1, 4⟩, .unopened .paren, .error⟩
    parse "main.em" "f = )" = .error (.diagnostic diagnostic) ∧
      (∃ left, diagnostic.PointsInto "main.em" "f = )" left) ∧
      ∃ report, Reporter.Shows "f = )" false diagnostic report ∧
        CommandLine.viewFile ⟨false, false, false⟩ tree (.ofText "main.em") =
          ([.message report], .exit 1) := by
  intro tree diagnostic
  have htext : tree.text (.ofText "main.em") = .ok (SourceText.ofContent "f = )") := by
    decide +kernel
  have hstop : (match parse "main.em" "f = )" with
      | .ok _ => none
      | .error fault => some fault) = some (.diagnostic diagnostic) := by
    decide +kernel
  have hparse : parse "main.em" "f = )" = .error (.diagnostic diagnostic) := by
    split at hstop
    · cases hstop
    · rename_i hfault
      rw [hfault, Option.some.inj hstop]
  have hcause : diagnostic.cause ≠ .tooDeep := by decide
  obtain ⟨-, -, hpoints, hshows⟩ := diagnostics_point
  obtain ⟨left, -, hleft⟩ := hpoints _ _ _ hparse hcause
  obtain ⟨report, hreport, hview⟩ :=
    (hshows tree (.ofText "main.em") _ diagnostic (Path.isPlain_ofText _) htext hparse hcause).1
      ⟨false, false, false⟩
  exact ⟨hparse, ⟨left, hleft⟩, report, hreport, hview⟩

end FrontEnd
