import FrontEnd.Toml.Value

/-!
# TOML documents

A document is a sequence of statements: assignments of values to keys, and headers that open tables
or add a table to an array. Beside the table that they build, what may still be opened or extended
is kept: a value in one piece is closed for good, and a table is opened once.
-/

set_option autoImplicit false

namespace FrontEnd.Toml

/-- Why a document cannot be read: it is not valid, or an integer has too many digits to convert. -/
inductive Fault where
  | invalid
  | tooManyDigits (count : Nat)
  deriving DecidableEq, Repr

/-- The path of names to a place in nested tables. -/
abbrev Key := List String

/-! ## Nested tables -/

/-- Replaces the value of a key, which the table has, or adds the key at the end. -/
def Table.put (key : String) (value : Value) : Table → Table
  | [] => [(key, value)]
  | (k, v) :: rest => if k = key then (k, value) :: rest else (k, v) :: Table.put key value rest

/-- Changes the last item of an array. -/
def changeLast (change : Value → Option Value) : List Value → Option (List Value)
  | [] => none
  | [last] => (change last).map ([·])
  | item :: rest => (changeLast change rest).map (item :: ·)

/-- Changes the table at a path, and makes the tables on the way that do not exist. The way goes
through the last table of an array if `throughArrays` says so, and through no other value. -/
def changeAt (throughArrays : Bool) (change : Table → Option Table) : Key → Table → Option Table
  | [], table => change table
  | key :: path, table =>
      let changeValue : Value → Option Value
        | .table inner => (changeAt throughArrays change path inner).map .table
        | _ => none
      let changed : Option Value :=
        match List.lookup key table with
        | none => (changeAt throughArrays change path []).map .table
        | some (.array items) =>
            if throughArrays then (changeLast changeValue items).map .array else none
        | some value => changeValue value
      changed.map fun value => Table.put key value table

/-- Adds a key that the table does not have yet. -/
def define (key : String) (value : Value) (table : Table) : Option Table :=
  if (List.lookup key table).isSome then none else some (table ++ [(key, value)])

/-- Adds an empty table to the array of a key, or begins the array. -/
def appendTable (key : String) (table : Table) : Option Table :=
  match List.lookup key table with
  | none => some (table ++ [(key, .array [.table []])])
  | some (.array items) => some (Table.put key (.array (items ++ [.table []])) table)
  | some _ => none

/-- Splits a path into the way and its last name. -/
def splitLast : Key → Option (Key × String)
  | [] => none
  | [last] => some ([], last)
  | name :: rest => (splitLast rest).map fun (way, last) => (name :: way, last)

/-! ## Inline values -/

/-- The nonempty beginnings of a path that are shorter than it. -/
def properPrefixes : Key → List Key
  | [] => []
  | [_] => []
  | name :: rest => [name] :: (properPrefixes rest).map (name :: ·)

/-- Whether a value was written in one piece, so that nothing can be added to it. -/
def isComposite : Value → Bool
  | .array _ => true
  | .table _ => true
  | _ => false

/-- Whether a path is one of the closed ones or leads through one. -/
def isClosed (closed : List Key) (key : Key) : Bool :=
  closed.any fun path => path.isPrefixOf key

/-- Reads over the equality sign of an assignment. -/
def expectAssign (text : List Char) : Except Fault (List Char) :=
  match expectChar '=' text with
  | none => .error .invalid
  | some rest => .ok (skipSpaces rest)

/-- Where a reader of lexical forms finds nothing valid, the document is invalid. -/
def valid {α : Type} (read : Option α) : Except Fault α :=
  match read with
  | none => .error .invalid
  | some value => .ok value

section Composites

variable (inner : List Char → Except Fault (Value × List Char))

/-- Reads the items of an array behind its bracket or a comma; there may be none. -/
def arrayItems : Nat → List Char → Except Fault (List Value × List Char)
  | 0, _ => .error .invalid
  | bound + 1, text => do
      match ← valid (skipFiller text) with
      | ']' :: rest => pure ([], rest)
      | text =>
          let (item, rest) ← inner text
          match ← valid (skipFiller rest) with
          | ']' :: rest => pure ([item], rest)
          | ',' :: rest =>
              let (items, rest) ← arrayItems bound rest
              pure (item :: items, rest)
          | _ => .error .invalid

/-- Reads an assignment: a key and its value. -/
def assignment (text : List Char) : Except Fault (Key × Value × List Char) := do
  let (key, rest) ← valid (readKey text)
  let (value, rest) ← inner (← expectAssign rest)
  pure (key, value, rest)

/-- Reads the assignments of an inline table behind its brace or a comma; there is at least one.
`closed` are the keys of the composite values before. -/
def inlineEntries :
    Nat → List Key → Table → List Char → Except Fault (Table × List Char)
  | 0, _, _, _ => .error .invalid
  | bound + 1, closed, table, text => do
      let (key, value, rest) ← assignment inner text
      if isClosed closed key then .error .invalid
      else
        let (way, name) ← valid (splitLast key)
        let table ← valid (changeAt false (define name value) way table)
        match skipSpaces rest with
        | '\x7d' :: rest => pure (table, rest)
        | ',' :: rest =>
            let closed := if isComposite value then key :: closed else closed
            inlineEntries bound closed table (skipSpaces rest)
        | _ => .error .invalid

/-- Reads an inline table behind its opening brace. -/
def inlineTable (text : List Char) : Except Fault (Table × List Char) :=
  match skipSpaces text with
  | '\x7d' :: rest => .ok ([], rest)
  | text => inlineEntries inner text.length [] [] text

/-- Reads a value that begins with neither a bracket nor a quote. -/
def plainValue (text : List Char) : Except Fault (Value × List Char) :=
  match text with
  | 't' :: 'r' :: 'u' :: 'e' :: rest => .ok (.boolean true, rest)
  | 'f' :: 'a' :: 'l' :: 's' :: 'e' :: rest => .ok (.boolean false, rest)
  | _ =>
      match readMoment text with
      | some none => .error .invalid
      | some (some (moment, rest)) => .ok (.moment moment, rest)
      | none =>
          match (digitNumber text).or (wordNumber text) with
          | none => .error .invalid
          | some (.integer value, rest) => .ok (.integer value, rest)
          | some (.float value, rest) => .ok (.float value, rest)
          | some (.tooLong count, _) => .error (.tooManyDigits count)

/-- Reads a value whose parts are read by `inner`. -/
def valueWith (text : List Char) : Except Fault (Value × List Char) :=
  match text with
  | '[' :: rest => do
      let (items, rest) ← arrayItems inner rest.length rest
      pure (.array items, rest)
  | '\x7b' :: rest => do
      let (table, rest) ← inlineTable inner rest
      pure (.table table, rest)
  | '"' :: _ => do
      let (value, rest) ← valid (readText text)
      pure (.text value, rest)
  | '\x27' :: _ => do
      let (value, rest) ← valid (readText text)
      pure (.text value, rest)
  | _ => plainValue text

end Composites

/-- Reads a value that nests less deeply than `bound`. -/
def readValue : Nat → List Char → Except Fault (Value × List Char)
  | 0, _ => .error .invalid
  | bound + 1, text => valueWith (readValue bound) text

/-! ## Statements -/

/-- A document as far as it was read. -/
structure Progress where
  table : Table
  /-- The table that assignments go to. -/
  header : Key
  /-- Values that nothing can be added to. -/
  closed : List Key
  /-- Tables that no header can open again. -/
  opened : List Key
  /-- Tables that become opened at the next header. -/
  pending : List Key

namespace Progress

def empty : Progress := ⟨[], [], [], [], []⟩

/-- Takes an assignment into the table of the last header. -/
def assign (progress : Progress) (key : Key) (value : Value) : Except Fault Progress := do
  let (way, name) ← valid (splitLast key)
  let between := (properPrefixes key).map (progress.header ++ ·)
  if between.any progress.opened.contains || isClosed progress.closed (progress.header ++ way) then
    .error .invalid
  else
    let table ← valid (changeAt true (define name value) (progress.header ++ way) progress.table)
    let closed :=
      if isComposite value then (progress.header ++ key) :: progress.closed else progress.closed
    pure { progress with table := table, closed := closed, pending := between ++ progress.pending }

/-- What was pending is opened when a header comes. -/
def settle (progress : Progress) : Progress :=
  { progress with opened := progress.pending ++ progress.opened, pending := [] }

/-- Opens a table, which must not have been opened before. -/
def openTable (progress : Progress) (key : Key) : Except Fault Progress := do
  let progress := progress.settle
  if progress.opened.contains key || isClosed progress.closed key then .error .invalid
  else
    let table ← valid (changeAt true some key progress.table)
    pure { progress with table := table, header := key, opened := key :: progress.opened }

/-- Adds a table to an array. All that was opened in the array's last table may be opened anew in
this one. -/
def extendArray (progress : Progress) (key : Key) : Except Fault Progress := do
  let progress := progress.settle
  if isClosed progress.closed key then .error .invalid
  else
    let (way, name) ← valid (splitLast key)
    let table ← valid (changeAt true (appendTable name) way progress.table)
    let elsewhere (path : Key) : Bool := !key.isPrefixOf path
    pure
      { progress with
        table := table
        header := key
        closed := progress.closed.filter elsewhere
        opened := key :: progress.opened.filter elsewhere }

end Progress

/-- Reads over the closing brackets of a header. -/
def expectClosing (count : Nat) (text : List Char) : Except Fault (List Char) :=
  if text.take count = List.replicate count ']' then .ok (text.drop count) else .error .invalid

/-- Whether a statement that begins with this character is an assignment. -/
def startsKey (c : Char) : Bool :=
  isBareKeyChar c || c == '"' || c == '\x27'

/-- Reads a statement, of which there may be none on the line. -/
def statement (progress : Progress) (text : List Char) :
    Except Fault (Progress × List Char) :=
  match text with
  | '[' :: '[' :: rest => do
      let (key, rest) ← valid (readKey (skipSpaces rest))
      let progress ← progress.extendArray key
      pure (progress, skipSpaces (← expectClosing 2 rest))
  | '[' :: rest => do
      let (key, rest) ← valid (readKey (skipSpaces rest))
      let progress ← progress.openTable key
      pure (progress, skipSpaces (← expectClosing 1 rest))
  | c :: _ =>
      if startsKey c then do
        let (key, value, rest) ← assignment (readValue text.length) text
        let progress ← progress.assign key value
        pure (progress, skipSpaces rest)
      else .ok (progress, text)
  | [] => .ok (progress, [])

/-- Reads the statements of a document, one a line. -/
def statements : Nat → Progress → List Char → Except Fault Table
  | 0, _, _ => .error .invalid
  | bound + 1, progress, text => do
      let (progress, rest) ← statement progress (skipSpaces text)
      match ← valid (skipComment rest) with
      | [] => pure progress.table
      | '\n' :: rest => statements bound progress rest
      | _ => .error .invalid

/-- Line ends of two characters count as one. -/
def unifyLineEnds : List Char → List Char
  | [] => []
  | '\r' :: '\n' :: rest => '\n' :: unifyLineEnds rest
  | c :: rest => c :: unifyLineEnds rest

/-- The table that a document defines. -/
def parse (document : String) : Except Fault Table :=
  let text := unifyLineEnds document.toList
  statements (text.length + 1) .empty text

end FrontEnd.Toml
