import FrontEnd.Project.Scaffold
import FrontEnd.Proofs.Toml.Document

/-!
# The settings of a new project

The name of a new project is put between quotes as it is. So it is read back from the settings just
if nothing in it needs an escape there.

* `Project.parse_settingsText` — the document for a plain name.
* `Project.ofDocument_settings` — its settings: the name, and defaults for the sources and the
  diagnostics.
* `Project.isPlainText_of_settings` — only a plain name is read back.
-/

set_option autoImplicit false

namespace FrontEnd.Project

open Toml

variable {name : String}

/-! ## The text -/

/-- What stands in the settings behind the line with the name. -/
def behindName : List Char :=
  ["version = \"0.1.0\"\n", "authors = []\n", "\n", "[source]\n", "dir = \"src\"\n",
    "extension = \".emb\"\n", "\n", "[diagnostics]\n", "color = true\n"].flatMap String.toList

theorem toList_foldl_append (parts : List String) (text : String) :
    (parts.foldl (· ++ ·) text).toList = text.toList ++ parts.flatMap String.toList := by
  induction parts generalizing text with
  | nil => simp
  | cons part parts ih => simp [ih]

/-- The text is cut before and behind the name. -/
theorem toList_settingsText (name : String) :
    (settingsText name).toList =
      "[package]\n".toList ++
        ("name = ".toList ++ '"' :: (name.toList ++ '"' :: '\n' :: behindName)) := by
  have hparts : settingsText name =
      ["version = \"0.1.0\"\n", "authors = []\n", "\n", "[source]\n", "dir = \"src\"\n",
        "extension = \".emb\"\n", "\n", "[diagnostics]\n", "color = true\n"].foldl (· ++ ·)
      ("[package]\n" ++ "name = \"" ++ name ++ "\"\n") := rfl
  rw [hparts, toList_foldl_append, String.toList_append, String.toList_append,
    String.toList_append, List.append_assoc, List.append_assoc, List.append_assoc]
  rfl

/-! ## Its statements -/

/-- A document whose first table was just opened. -/
def packageOpened : Progress :=
  ⟨[("package", .table [])], ["package"], [], [["package"]], []⟩

/-- A document whose first table has a name. -/
def packageNamed (name : String) : Progress :=
  { packageOpened with table := [("package", .table [("name", .text name)])] }

theorem statement_header (rest : List Char) :
    statement .empty ("[package]\n".toList ++ rest) = .ok (packageOpened, '\n' :: rest) := rfl

/-- The line with the name assigns what is read between the quotes. -/
theorem statement_name (text : List Char) :
    statement packageOpened ("name = ".toList ++ '"' :: text) =
      (valid (readText ('"' :: text)) >>= fun read =>
        .ok (packageNamed read.1, skipSpaces read.2)) := by
  have hread : readValue (text.length + 8) ('"' :: text) =
      (valid (readText ('"' :: text)) >>= fun read => pure (Value.text read.1, read.2)) := rfl
  have hassignment : assignment (readValue (text.length + 8)) ("name = ".toList ++ '"' :: text) =
      (readValue (text.length + 8) ('"' :: text) >>= fun read =>
        pure (["name"], read.1, read.2)) := rfl
  have hstatement : statement packageOpened ("name = ".toList ++ '"' :: text) =
      (assignment (readValue (text.length + 8)) ("name = ".toList ++ '"' :: text) >>= fun read =>
        packageOpened.assign read.1 read.2.1 >>= fun later =>
          pure (later, skipSpaces read.2.2)) := rfl
  rw [hstatement, hassignment, hread]
  cases readText ('"' :: text) with
  | none => rfl
  | some read => rfl

/-- The settings of a project of a given name, as a document. -/
def settingsDocument (name : String) : Table :=
  [("package", .table [("name", .text name), ("version", .text "0.1.0"), ("authors", .array [])]),
    ("source", .table [("dir", .text "src"), ("extension", .text ".emb")]),
    ("diagnostics", .table [("color", .boolean true)])]

theorem statements_behindName (name : String) (bound : Nat) :
    statements (bound + 12) (packageNamed name) behindName = .ok (settingsDocument name) := rfl

/-- Reading the settings comes to reading what begins with the name. -/
theorem parse_eq_statements (name : String) :
    ∃ bound, Toml.parse (settingsText name) = statements (bound + 13) packageOpened
      ("name = ".toList ++ '"' :: (unifyLineEnds name.toList ++ '"' :: '\n' :: behindName)) := by
  have hbehind : unifyLineEnds ('\n' :: behindName) = '\n' :: behindName :=
    unifyLineEnds_of_not_mem (by decide +kernel)
  have hunified : unifyLineEnds (settingsText name).toList = "[package]\n".toList ++
      ("name = ".toList ++ '"' :: (unifyLineEnds name.toList ++ '"' :: '\n' :: behindName)) := by
    have hfront : ∀ text,
        unifyLineEnds ("[package]\n".toList ++ ("name = ".toList ++ '"' :: text)) =
          "[package]\n".toList ++ ("name = ".toList ++ '"' :: unifyLineEnds text) := fun _ => rfl
    rw [toList_settingsText, hfront, unifyLineEnds_append_quote, hbehind]
  have hlength : 13 ≤ (unifyLineEnds (settingsText name).toList).length := by
    have hheader : "[package]\n".toList.length = 10 := rfl
    have hkey : "name = ".toList.length = 7 := rfl
    rw [hunified, List.length_append, List.length_append, hheader, hkey]
    omega
  obtain ⟨bound, hbound⟩ := Nat.exists_eq_add_of_le' hlength
  refine ⟨bound, ?_⟩
  rw [Toml.parse, hbound, hunified]
  exact statements_of_statement (statement_header _)

/-- **A plain name is read back** from the settings. -/
theorem parse_settingsText (h : IsPlainText name.toList) :
    Toml.parse (settingsText name) = .ok (settingsDocument name) := by
  have hreturn : '\r' ∉ name.toList := by
    intro hmem
    exact absurd (h _ hmem).2.2 (by decide)
  have hread : readText ('"' :: (name.toList ++ '"' :: '\n' :: behindName)) =
      some (name, '\n' :: behindName) := by
    rw [readText_plain h, String.ofList_toList]
  have hname : statement packageOpened (skipSpaces
      ("name = ".toList ++ '"' :: (name.toList ++ '"' :: '\n' :: behindName))) =
      .ok (packageNamed name, '\n' :: behindName) := by
    have hspaces : ∀ text, skipSpaces ("name = ".toList ++ '"' :: text) =
        "name = ".toList ++ '"' :: text := fun _ => rfl
    rw [hspaces, statement_name, hread]
    rfl
  obtain ⟨bound, hparse⟩ := parse_eq_statements name
  rw [hparse, unifyLineEnds_of_not_mem hreturn, statements_of_statement hname]
  exact statements_behindName name bound

/-- The settings of a new project with a plain name: the name, and defaults for the sources and the
diagnostics. -/
theorem ofDocument_settings (name : String) :
    Settings.ofDocument (settingsDocument name) =
      .ok { name := .text name, version := .text "0.1.0" } := rfl

/-- **Only a plain name is read back** from the settings. -/
theorem isPlainText_of_settings {document : Table} {settings : Settings}
    (hparse : Toml.parse (settingsText name) = .ok document)
    (hsettings : Settings.ofDocument document = .ok settings)
    (hname : settings.name = .text name) : IsPlainText name.toList := by
  obtain ⟨bound, hstatements⟩ := parse_eq_statements name
  rw [hstatements] at hparse
  have hspaces : ∀ text, skipSpaces ("name = ".toList ++ '"' :: text) =
      "name = ".toList ++ '"' :: text := fun _ => rfl
  obtain ⟨⟨later, rest⟩, hfirst, -⟩ := bind_eq_ok.mp hparse
  have hstatement := hfirst
  rw [hspaces, statement_name] at hstatement
  obtain ⟨⟨value, behind⟩, hread, hlater⟩ := bind_eq_ok.mp hstatement
  cases hlater
  have hholds : HoldsText value ["package", "name"] document :=
    holdsText_of_first hfirst ⟨_, rfl, rfl⟩ hparse
  have hsame : value = name := by
    obtain ⟨package, hpackage, hvalue⟩ := hholds
    have hentries : Settings.entriesOf document "package" = .ok package := by
      rw [Settings.entriesOf, hpackage]
    rw [Settings.ofDocument, hentries] at hsettings
    split at hsettings
    any_goals cases hsettings
    rename_i entries _ _ hentries _ _
    cases hentries
    rw [Settings.valueOr, show List.lookup "name" package = _ from hvalue] at hname
    exact Toml.Value.text.inj hname
  subst hsame
  have hlength : (unifyLineEnds value.toList).length ≤ value.length :=
    length_unifyLineEnds_le value.toList
  have htail : ¬threeQuotes <:+: behindName := by decide +kernel
  obtain ⟨hkept, hplain⟩ := isPlainText_of_readText (valid_eq_ok.mp hread) hlength htail
  rw [hkept, String.toList_ofList]
  exact hplain

end FrontEnd.Project
