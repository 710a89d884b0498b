import FrontEnd.Settings

/-!
# What a run writes

A run writes lines to two streams and ends with an exit code, or with a crash for which no message
was prepared. Where a stream is not shown on a terminal, escape sequences are taken out of what is
written there; lines of the log stay as they are.
-/

set_option autoImplicit false

namespace FrontEnd.Output

/-- A line that is written: to the standard output, as a message, or to the log. Messages and the
log share a stream. -/
inductive Line where
  | out (text : String)
  | message (text : String)
  | log (text : String)
  deriving DecidableEq, Repr

/-- Why a run ends without a message. -/
inductive Crash where
  | file (fault : FileFault)
  | settings (fault : SettingsFault)
  | tooManyDigits (count : Nat)
  /-- A value to be shown holds an integer of more digits than can be written. -/
  | unwritable
  /-- The source directory is given by a value that is no text. -/
  | noPath (typeName : String)
  /-- The extension makes an invalid pattern of file names. -/
  | invalidPattern
  deriving DecidableEq, Repr

/-- The wording of a crash; documents and texts that cannot be decoded have none. -/
def Crash.message : Crash → String
  | .file fault => fault.message
  | .settings (.file fault) => fault.message
  | .settings (.document .invalid) => ""
  | .settings (.document (.tooManyDigits count)) => digitLimitMessage count
  | .settings (.noTable typeName) => "'" ++ typeName ++ "' object has no attribute 'items'"
  | .tooManyDigits count => digitLimitMessage count
  | .unwritable => writingLimitMessage
  | .noPath typeName =>
      "unsupported operand type(s) for /: 'PosixPath' and '" ++ typeName ++ "'"
  | .invalidPattern => "Invalid pattern: '**' can only be an entire path component"

/-- How a run ends. -/
inductive Ending where
  | exit (code : Nat)
  /-- The arguments make no request. -/
  | usage
  | crash (crash : Crash)
  deriving DecidableEq, Repr

/-- The exit code of an ending. -/
def Ending.code : Ending → Nat
  | .exit code => code
  | .usage => 2
  | .crash _ => 1

/-! ## Streams -/

/-- Whether a character may follow the bracket of an escape sequence: a digit or one of `:;<=>?`. -/
def isParameter (c : Char) : Bool :=
  '0' ≤ c && c ≤ '?'

/-- Whether a character may stand behind the parameters of an escape sequence: a blank or one of the
marks up to the slash. -/
def isIntermediate (c : Char) : Bool :=
  ' ' ≤ c && c ≤ '/'

/-- Whether a character ends an escape sequence: a letter or one of the marks around letters. -/
def isFinal (c : Char) : Bool :=
  '@' ≤ c && c ≤ '~'

/-- What follows an escape sequence whose escape character and bracket are read; `none` if they
begin no sequence. -/
def behindSequence (text : List Char) : Option (List Char) :=
  match (text.dropWhile isParameter).dropWhile isIntermediate with
  | c :: rest => if isFinal c then some rest else none
  | [] => none

/-- Takes the escape sequences out of a text; `bound` is at least its length. -/
def withoutEscapes : Nat → List Char → List Char
  | _, [] => []
  | 0, text => text
  | bound + 1, '\x1b' :: '[' :: rest =>
      match behindSequence rest with
      | some behind => withoutEscapes bound behind
      | none => '\x1b' :: withoutEscapes bound ('[' :: rest)
  | bound + 1, c :: rest => c :: withoutEscapes bound rest

/-- A text as it is written. -/
def written (terminal : Bool) (text : String) : String :=
  if terminal then text else String.ofList (withoutEscapes text.length text.toList)

/-- What is written to the standard output. -/
def standardOutput (terminal : Bool) (lines : List Line) : String :=
  String.join (lines.map fun line =>
    match line with
    | .out text => written terminal text ++ "\n"
    | _ => "")

/-- What is written to the stream of messages. -/
def standardError (terminal : Bool) (lines : List Line) : String :=
  String.join (lines.map fun line =>
    match line with
    | .out _ => ""
    | .message text => written terminal text ++ "\n"
    | .log text => text ++ "\n")

end FrontEnd.Output
