import FrontEnd.Files.Tree

/-!
# Patterns of file names

A pattern is a path whose names may hold wildcards: an asterisk stands for any characters, a
question mark for one, and brackets for one of a set. Two asterisks alone stand for any directories.
-/

set_option autoImplicit false

namespace FrontEnd.Glob

/-! ## Names -/

/-- One piece of a pattern for a name. -/
inductive Piece where
  | any
  | one
  | literal (c : Char)
  /-- A character inside the given ranges, or outside them if `negated`. -/
  | oneOf (negated : Bool) (ranges : List (Char × Char))
  deriving DecidableEq, Repr

/-- An item of a set of characters: a single one, or all from the first to the last. -/
inductive Item where
  | single (c : Char)
  | span (first last : Char)
  deriving DecidableEq, Repr

/-- The items of a set of characters: a hyphen between two characters makes a span of them. -/
def itemsOf : List Char → List Item
  | [] => []
  | first :: '-' :: last :: rest => .span first last :: itemsOf rest
  | c :: rest => .single c :: itemsOf rest

/-- The items of all that stands between the brackets. An exclamation mark in front is no end of a
span. -/
def bracketItems : List Char → List Item
  | '!' :: rest => .single '!' :: itemsOf rest
  | text => itemsOf text

/-- A span from a later to an earlier character holds nothing. -/
def Item.isUsable : Item → Bool
  | .single _ => true
  | .span first last => decide (first ≤ last)

def Item.range : Item → Char × Char
  | .single c => (c, c)
  | .span first last => (first, last)

/-- The piece that items make. An exclamation mark in front of them stands for all but the rest; in
a span that comes first it does so too, and leaves the hyphen and the span's end to the rest. -/
def pieceOfItems : List Item → Piece
  | .single '!' :: rest => .oneOf true (rest.map Item.range)
  | .span '!' last :: rest => .oneOf true (('-', '-') :: (last, last) :: rest.map Item.range)
  | items => .oneOf false (items.map Item.range)

/-- The piece for what stands between brackets. Spans that hold nothing are left out first, so an
exclamation mark behind them may come to the front. -/
def pieceOfBrackets (text : List Char) : Piece :=
  pieceOfItems ((bracketItems text).filter Item.isUsable)

/-- Splits off what comes first and cannot close the brackets: an exclamation mark, a closing
bracket or both. -/
def bracketFront : List Char → List Char × List Char
  | '!' :: ']' :: rest => (['!', ']'], rest)
  | '!' :: rest => (['!'], rest)
  | ']' :: rest => ([']'], rest)
  | text => ([], text)

/-- What stands between the brackets in front of a text, behind the opening one, and what follows
them. A closing bracket that comes first stands between them. -/
def takeBrackets (text : List Char) : Option (List Char × List Char) :=
  let (front, text) := bracketFront text
  match text.dropWhile (· != ']') with
  | [] => none
  | _ :: rest => some (front ++ text.takeWhile (· != ']'), rest)

/-- Reads a pattern for a name; `bound` is at least its length. -/
def piecesUpTo : Nat → List Char → List Piece
  | _, [] => []
  | 0, _ => []
  | bound + 1, '*' :: rest => .any :: piecesUpTo bound rest
  | bound + 1, '?' :: rest => .one :: piecesUpTo bound rest
  | bound + 1, '[' :: rest =>
      match takeBrackets rest with
      | none => .literal '[' :: piecesUpTo bound rest
      | some (inside, rest) => pieceOfBrackets inside :: piecesUpTo bound rest
  | bound + 1, c :: rest => .literal c :: piecesUpTo bound rest

/-- Whether a piece other than `any` admits a character. -/
def Piece.admits (piece : Piece) (c : Char) : Bool :=
  match piece with
  | .any => true
  | .one => true
  | .literal d => c == d
  | .oneOf negated ranges =>
      ranges.any (fun range => decide (range.1 ≤ c ∧ c ≤ range.2)) != negated

/-- A text and all its ends, the longest first. -/
def ends : List Char → List (List Char)
  | [] => [[]]
  | c :: text => (c :: text) :: ends text

theorem mem_ends {part text : List Char} : part ∈ ends text ↔ part <:+ text := by
  induction text with
  | nil => simp [ends]
  | cons c text ih => simp [ends, ih, List.suffix_cons_iff]

/-- What may be left of a name behind a piece, given what may be left of it before the piece; longer
ends come first. Any characters behind the longest end include those behind the others. -/
def Piece.behind (piece : Piece) (rests : List (List Char)) : List (List Char) :=
  match piece with
  | .any =>
      match rests with
      | [] => []
      | longest :: _ => ends longest
  | _ =>
      rests.filterMap fun rest =>
        match rest with
        | [] => none
        | c :: rest => if piece.admits c then some rest else none

/-- Whether pieces fit a name from its first character to its last. -/
def fits (pieces : List Piece) (name : List Char) : Bool :=
  (pieces.foldl (fun rests piece => piece.behind rests) [name]).any List.isEmpty

/-- Whether a text holds a wildcard. -/
def hasWildcard (text : String) : Bool :=
  text.toList.any fun c => c == '*' || c == '?' || c == '['

/-! ## Paths -/

/-- One name of a pattern. -/
inductive Step where
  /-- Any directories, none included. -/
  | anywhere
  | matching (pieces : List Piece)
  | named (name : String)
  /-- Only a directory fits. -/
  | directory
  deriving DecidableEq, Repr

/-- Whether two asterisks stand side by side in a text. -/
def hasDoubleStar : List Char → Bool
  | '*' :: '*' :: _ => true
  | _ :: rest => hasDoubleStar rest
  | [] => false

/-- Reads one name of a pattern; two asterisks may only stand alone. -/
def stepOf? (name : String) : Option Step :=
  if name = "**" then some .anywhere
  else if hasDoubleStar name.toList then none
  else if hasWildcard name then some (.matching (piecesUpTo name.length name.toList))
  else some (.named name)

/-- Reads a relative pattern. A slash at its end asks for directories. -/
def stepsOf? (pattern : String) : Option (List Step) :=
  match (Path.ofText pattern).names.mapM stepOf? with
  | none => none
  | some steps =>
      some (if pattern.toList.getLast? = some '/' then steps ++ [.directory] else steps)

/-- The directories below a place and the place itself, by the names that lead to them; `depth` is
at least the depth of the tree. -/
def directoriesBelow (tree : FileTree) : Nat → Place → List String → List (List String)
  | 0, _, names => [names]
  | depth + 1, place, names =>
      names :: (tree.children place).flatMap fun (name, entry) =>
        match entry with
        | .directory => directoriesBelow tree depth (place ++ [name]) (names ++ [name])
        | .file _ => []

/-- The greatest number of names to a place. -/
def depthOf (tree : FileTree) : Nat :=
  tree.entries.foldl (fun depth entry => max depth entry.1.length) 0

/-- Gathers what is found for each item of a list, up to the first fault. -/
def gather {α : Type} (find : α → Except FileFault (List Path)) :
    List α → Except FileFault (List Path)
  | [] => .ok []
  | item :: items =>
      match find item with
      | .error fault => .error fault
      | .ok paths => (gather find items).map (paths ++ ·)

/-- Whether something is at a path that a pattern may end at, if `last`, or else lead on from. -/
def isReached (last : Bool) : Option Entry → Bool
  | none => false
  | some .directory => true
  | some (.file _) => last

/-- The paths that one step leads to from a directory; `last` says that the pattern ends with it. -/
def Step.reach (tree : FileTree) (last : Bool) (path : Path) : Step → Except FileFault (List Path)
  | .directory => .ok [path]
  | .named name =>
      match tree.seek (path.child name) with
      | .error fault => .error fault
      | .ok entry => .ok (if isReached last entry then [path.child name] else [])
  | .matching pieces =>
      match tree.locate path with
      | .error fault => .error fault
      | .ok place =>
          let found := (tree.children place).filter fun (name, entry) =>
            isReached last (some entry) && fits pieces name.toList
          .ok (found.map fun (name, _) => path.child name)
  | .anywhere =>
      match tree.locate path with
      | .error fault => .error fault
      | .ok place =>
          let found := directoriesBelow tree (depthOf tree + 1) place path.names
          .ok (found.map fun names => ⟨path.anchor, names⟩)

/-- Compares texts, character by character. -/
def textLt : List Char → List Char → Bool
  | _, [] => false
  | [], _ :: _ => true
  | c :: text, d :: other => c.toNat < d.toNat || c == d && textLt text other

/-- Compares lists of names, name by name. -/
def namesLe : List String → List String → Bool
  | [], _ => true
  | _ :: _, [] => false
  | name :: names, other :: others =>
      textLt name.toList other.toList || name == other && namesLe names others

/-- Paths in the order of their names, each once. -/
def arranged (paths : List Path) : List Path :=
  (paths.mergeSort fun x y => namesLe x.names y.names).eraseReps

/-- The paths that steps lead to from directories. -/
def select (tree : FileTree) : List Step → List Path → Except FileFault (List Path)
  | [], paths => .ok paths
  | step :: rest, paths =>
      match gather (fun path => step.reach tree rest.isEmpty path) paths with
      | .error fault => .error fault
      | .ok found => select tree rest (arranged found)

/-- Why files cannot be found. -/
inductive SearchFault where
  | invalidPattern
  | file (fault : FileFault)
  deriving DecidableEq, Repr

/-- All paths below a directory that fit a pattern at any depth, in the order of their names. -/
def findAll (tree : FileTree) (directory : Path) (pattern : String) :
    Except SearchFault (List Path) :=
  match stepsOf? pattern with
  | none => .error .invalidPattern
  | some steps =>
      if tree.isDirectory directory then
        match select tree (.anywhere :: steps) [directory] with
        | .error fault => .error (.file fault)
        | .ok paths => .ok paths
      else .ok []

end FrontEnd.Glob
