import FrontEnd.Lexer.Brackets
import FrontEnd.Lexer.Cursor
import FrontEnd.Lexer.Event
import FrontEnd.Lexer.Scan
import FrontEnd.Text.Blank

/-!
# Lexers

A lexer reads a text one token at a time and holds the last token that it read. Blanks between
tokens are skipped, but a newline is a token of its own, a separator, while no bracket is open.

An advance that fails leaves the cursor where the scan stopped and changes nothing else. A mark
holds all that an advance changes apart from the arena of brackets and the log, which only grow.
-/

set_option autoImplicit false

namespace FrontEnd

/-- The token in front of a reader: none was read yet, one is there, or the input has ended. -/
inductive Lookahead where
  | unstarted
  | ready (token : Token)
  | ended
  deriving DecidableEq, Repr

/-- The token in front of a reader, if one is there. -/
def Lookahead.token? : Lookahead → Option Token
  | .ready token => some token
  | _ => none

/-- The state of a lexer: its input of `size` characters, the cursor in it, the token in front, the
brackets, and the log with its newest event first. -/
structure Lexer where
  file : String
  size : Nat
  cursor : Cursor
  lookahead : Lookahead
  brackets : Brackets
  log : List Event
  deriving DecidableEq, Repr

/-- What a lexer can be set back to. -/
structure Lexer.Mark where
  cursor : Cursor
  innermost : Option Nat
  lookahead : Lookahead
  deriving DecidableEq, Repr

namespace Lexer

/-- A lexer before the first token of a text. -/
def ofText (file : String) (text : List Char) : Lexer :=
  ⟨file, text.length, .start text, .unstarted, .none, []⟩

/-- A lexer before the first token of a source. -/
def ofSource (file source : String) : Lexer :=
  ofText file source.toList

/-- Where the cursor stands. -/
def location (lexer : Lexer) : Location :=
  lexer.cursor.location lexer.file

/-- Whether a character is skipped between tokens. -/
def isSkipped (insideBrackets : Bool) (c : Char) : Bool :=
  Text.isBlank c && (insideBrackets || c != '\n')

/-- The cursor at the next token, or at the end. -/
def nextCursor (lexer : Lexer) : Cursor :=
  lexer.cursor.move (lexer.cursor.rest.takeWhile (isSkipped lexer.brackets.innermost.isSome)).length

/-- The brackets after a lexeme, and what the log says of it. -/
def track (brackets : Brackets) (location : Location) :
    Lexeme → Except Cause (Brackets × List Event)
  | .opening bracket => .ok (brackets.opened location bracket, [.opened location bracket])
  | .closing bracket =>
      match brackets.closed bracket with
      | .error cause => .error cause
      | .ok brackets => .ok (brackets, [.closed location bracket])
  | _ => .ok (brackets, [])

/-- Reads the token at `start`, where the characters `c :: rest` follow. -/
def accept (lexer : Lexer) (start : Cursor) (c : Char) (rest : List Char) :
    EStateM.Result Fault Lexer Location :=
  let scan := Scan.token c rest
  let place := start.location lexer.file
  let stopped := { lexer with cursor := start.move scan.taken.length }
  match scan.found with
  | .error flaw => .error (flaw.fault place) stopped
  | .ok lexeme =>
      match track lexer.brackets place lexeme with
      | .error cause => .error (.diagnostic ⟨place, cause, .error⟩) stopped
      | .ok (brackets, events) =>
          .ok place
            { stopped with
              lookahead := .ready ⟨place, lexeme, String.ofList scan.taken⟩
              brackets := brackets
              log := events ++ lexer.log }

/-- Ends the input at `stop`. -/
def finish (lexer : Lexer) (stop : Cursor) : Lexer :=
  let place := stop.location lexer.file
  { lexer with cursor := stop, lookahead := .ended, log := .inputEnded place :: lexer.log }

/-- Reads the next token and answers where it begins. At the end of the input there is none, and the
answer is where the cursor stands; further advances change nothing. -/
def advance (lexer : Lexer) : EStateM.Result Fault Lexer Location :=
  match lexer.lookahead with
  | .ended => .ok lexer.location lexer
  | _ =>
      let start := lexer.nextCursor
      match start.rest with
      | [] => .ok (start.location lexer.file) (lexer.finish start)
      | c :: rest => lexer.accept start c rest

def mark (lexer : Lexer) : Mark :=
  ⟨lexer.cursor, lexer.brackets.innermost, lexer.lookahead⟩

/-- Goes back to a mark. -/
def reset (mark : Mark) (lexer : Lexer) : Lexer :=
  { lexer with
    cursor := mark.cursor
    lookahead := mark.lookahead
    brackets := { lexer.brackets with innermost := mark.innermost } }

/-- A bound on the tokens still to come. -/
def left (lexer : Lexer) : Nat :=
  lexer.size - lexer.cursor.pos + 1

/-- Adds an event to the log. -/
def note (event : Event) (lexer : Lexer) : Lexer :=
  { lexer with log := event :: lexer.log }

/-- The log in the order of events. -/
def events (lexer : Lexer) : List Event :=
  lexer.log.reverse

end Lexer

end FrontEnd
