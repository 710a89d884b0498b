import FrontEnd.Editor.Range
import FrontEnd.Editor.Word
import FrontEnd.Source
import FrontEnd.Tree.Head

/-!
# Open documents

An editor tells which documents are open and what they hold. Each is read whenever it changes, and
questions about it are answered from what was read. A document that cannot be read has one
notice and no declarations.
-/

set_option autoImplicit false

namespace FrontEnd.Editor

/-- What is known of an open document. -/
structure Document where
  source : String
  decls : List Decl
  notices : List Notice

/-- The open documents by their addresses, each address once. -/
abbrev Workspace := List (String × Document)

/-- Why the text of a document leaves nothing to show: a literal has too many digits, or the place
of the diagnostic lies outside what can be counted to. -/
inductive Obstacle where
  | tooManyDigits (count : Nat)
  | misplaced (fault : PositionFault)
  deriving DecidableEq, Repr

/-- Reads a document. -/
def analyze (uri source : String) : Except Obstacle Document :=
  match parse uri source with
  | .ok decls => .ok ⟨source, decls, []⟩
  | .error (.tooManyDigits count) => .error (.tooManyDigits count)
  | .error (.diagnostic diagnostic) =>
      match noticeOf diagnostic with
      | .error fault => .error (.misplaced fault)
      | .ok notice => .ok ⟨source, [], [notice]⟩

namespace Workspace

def document? (workspace : Workspace) (uri : String) : Option Document :=
  List.lookup uri workspace

/-- Replaces what is known of a document, or adds it. -/
def insert (workspace : Workspace) (uri : String) (document : Document) : Workspace :=
  (uri, document) :: List.filter (fun entry => entry.1 != uri) workspace

/-! ## Changes -/

/-- Takes over the text of a document, opened or changed, and answers the notices to publish. -/
def update (workspace : Workspace) (uri source : String) :
    Except Obstacle (List Notice) × Workspace :=
  match analyze uri source with
  | .ok document => (.ok document.notices, workspace.insert uri document)
  | .error obstacle => (.error obstacle, workspace)

/-- Takes over a list of changes. Each holds the whole text, so only the last one counts; without
any the document is empty. -/
def change (workspace : Workspace) (uri : String) (texts : List String) :
    Except Obstacle (List Notice) × Workspace :=
  workspace.update uri (texts.getLast?.getD "")

def close (workspace : Workspace) (uri : String) : Workspace :=
  List.filter (fun entry => entry.1 != uri) workspace

/-- The addresses of the open documents in alphabetical order. -/
def addresses (workspace : Workspace) : List String :=
  (List.map Prod.fst workspace).mergeSort (fun x y => decide (x ≤ y))

end Workspace

/-! ## Questions -/

/-- The text shown for the word at a place: that it is a keyword, or the heads of its
declarations. -/
def Document.hover? (document : Document) (line character : Int) : Option String :=
  let word := wordAt document.source line character
  if word = "" then none
  else if isKeyword word then some ("**keyword** \x60" ++ word ++ "\x60")
  else
    match document.decls.filter (fun decl => decl.name.text == word) with
    | [] => none
    | decls =>
        let heads := decls.map fun decl => "- \x60" ++ decl.head ++ "\x60"
        some ("**decl** \x60" ++ word ++ "\x60\n\n" ++ "\n".intercalate heads)

/-- The text shown for a place of a document, if it is open. -/
def Workspace.hover? (workspace : Workspace) (uri : String) (line character : Int) :
    Option String :=
  (workspace.document? uri).bind fun document => document.hover? line character

/-- Something that may be typed: a keyword, or the name of a declaration with its head. -/
inductive Completion where
  | keyword (word : String)
  | decl (name head : String)
  deriving DecidableEq, Repr

def Completion.label : Completion → String
  | .keyword word => word
  | .decl name _ => name

/-- The declarations with names that were not seen before, in order. -/
def firstDecls (seen : List String) : List Decl → List Decl
  | [] => []
  | decl :: rest =>
      if seen.contains decl.name.text then firstDecls seen rest
      else decl :: firstDecls (decl.name.text :: seen) rest

/-- What may be typed in a document: the keywords, and each declared name with its first head. -/
def Workspace.completions (workspace : Workspace) (uri : String) : List Completion :=
  let decls := ((workspace.document? uri).map (·.decls)).getD []
  keywords.map .keyword ++
    (firstDecls [] decls).map fun decl => .decl decl.name.text decl.head

/-- A declaration in the outline of a document: its name, its head and the range of its name. -/
structure Symbol where
  name : String
  detail : String
  range : Range
  deriving DecidableEq, Repr

def symbolOf (decl : Decl) : Except PositionFault Symbol :=
  match checkedRangeAt decl.location decl.name.text.length with
  | .error fault => .error fault
  | .ok range => .ok ⟨decl.name.text, decl.head, range⟩

/-- The declarations of a document in the order of its text, if all their names can be told to an
editor. -/
def Workspace.symbols (workspace : Workspace) (uri : String) :
    Except PositionFault (List Symbol) :=
  (((workspace.document? uri).map (·.decls)).getD []).mapM symbolOf

/-! ## Requests -/

/-- What an editor tells or asks. -/
inductive Request where
  | opened (uri text : String)
  | changed (uri : String) (texts : List String)
  | closed (uri : String)
  | hover (uri : String) (line character : Int)
  | completion (uri : String)
  | symbols (uri : String)

/-- What an editor gets back. -/
inductive Response where
  | published (uri : String) (notices : List Notice)
  | done
  | hover (text : Option String)
  | completions (items : List Completion)
  | symbols (items : List Symbol)
  | tooManyDigits (count : Nat)
  /-- The place that was asked about, or that of a diagnostic or a symbol, lies outside what can be
  counted to. -/
  | misplaced (fault : PositionFault)

/-- The response to new text of a document. -/
def published (uri : String) (result : Except Obstacle (List Notice) × Workspace) :
    Response × Workspace :=
  match result with
  | (.ok notices, workspace) => (.published uri notices, workspace)
  | (.error (.tooManyDigits count), workspace) => (.tooManyDigits count, workspace)
  | (.error (.misplaced fault), workspace) => (.misplaced fault, workspace)

/-- The response to a question about a place. -/
def Workspace.hoverResponse (workspace : Workspace) (uri : String) (line character : Int) :
    Response :=
  match (Position.mk line character).fault? with
  | some fault => .misplaced fault
  | none => .hover (workspace.hover? uri line character)

/-- The response to the question for the outline of a document. -/
def Workspace.symbolsResponse (workspace : Workspace) (uri : String) : Response :=
  match workspace.symbols uri with
  | .error fault => .misplaced fault
  | .ok symbols => .symbols symbols

/-- Answers a request. -/
def Workspace.respond (workspace : Workspace) : Request → Response × Workspace
  | .opened uri text => published uri (workspace.update uri text)
  | .changed uri texts => published uri (workspace.change uri texts)
  | .closed uri => (.done, workspace.close uri)
  | .hover uri line character => (workspace.hoverResponse uri line character, workspace)
  | .completion uri => (.completions (workspace.completions uri), workspace)
  | .symbols uri => (workspace.symbolsResponse uri, workspace)

/-- Answers requests one after the other: each response with the documents afterwards. -/
def Workspace.run (workspace : Workspace) : List Request → List (Response × Workspace)
  | [] => []
  | request :: requests =>
      let result := workspace.respond request
      result :: Workspace.run result.2 requests

end FrontEnd.Editor
