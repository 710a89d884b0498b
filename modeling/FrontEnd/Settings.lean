import FrontEnd.Files.Tree
import FrontEnd.Toml.Document

/-!
# Project settings

The settings of a project stand in a file at its root. Every setting has a default. Values are taken
as they are, whatever their type; only a section must be a table. Unknown keys are ignored.
-/

set_option autoImplicit false

namespace FrontEnd

/-- The name of the file that holds the settings of a project. -/
def settingsName : String := "ember.toml"

/-- The settings of a project. -/
structure Settings where
  name : Toml.Value := .text "untitled"
  version : Toml.Value := .text "0.0.0"
  authors : Toml.Value := .array []
  /-- The directory of the sources. -/
  directory : Toml.Value := .text "src"
  /-- What the names of source files end in. -/
  extension : Toml.Value := .text ".emb"
  /-- Whether diagnostics are shown in color. -/
  color : Toml.Value := .boolean true

/-- Why settings cannot be loaded. -/
inductive SettingsFault where
  | file (fault : FileFault)
  | document (fault : Toml.Fault)
  /-- A section that is no table. -/
  | noTable (typeName : String)
  deriving DecidableEq, Repr

namespace Settings

/-- The entries of a section; a section that is not there has none. -/
def entriesOf (document : Toml.Table) (name : String) : Except SettingsFault Toml.Table :=
  match document.lookup name with
  | none => .ok []
  | some (.table entries) => .ok entries
  | some value => .error (.noTable value.typeName)

/-- The value of a key, or a default. -/
def valueOr (default : Toml.Value) (key : String) (entries : Toml.Table) : Toml.Value :=
  (entries.lookup key).getD default

/-- The settings of a document. -/
def ofDocument (document : Toml.Table) : Except SettingsFault Settings :=
  match entriesOf document "package", entriesOf document "source",
      entriesOf document "diagnostics" with
  | .error fault, _, _ => .error fault
  | _, .error fault, _ => .error fault
  | _, _, .error fault => .error fault
  | .ok package, .ok source, .ok diagnostics =>
      let defaults : Settings := {}
      .ok
        { name := valueOr defaults.name "name" package
          version := valueOr defaults.version "version" package
          authors := valueOr defaults.authors "authors" package
          directory := valueOr defaults.directory "dir" source
          extension := valueOr defaults.extension "extension" source
          color := valueOr defaults.color "color" diagnostics }

/-- Loads the settings from a file. -/
def load (tree : FileTree) (path : Path) : Except SettingsFault Settings :=
  match tree.bytes path with
  | .error fault => .error (.file fault)
  | .ok bytes =>
      match String.fromUTF8? bytes with
      | none => .error (.file .notText)
      | some text =>
          match Toml.parse text with
          | .error fault => .error (.document fault)
          | .ok document => ofDocument document

end Settings

end FrontEnd
