import FrontEnd.Location
import FrontEnd.Token
import FrontEnd.Text.Quoted

/-!
# Diagnostics

A diagnostic says what is wrong at a place. Its cause is a value; the code and the wording follow
from it. Codes that begin with `E1` concern the spelling of tokens, those that begin with `E2` their
order.
-/

set_option autoImplicit false

namespace FrontEnd

/-- How serious a diagnostic is. -/
inductive Severity where
  | info
  | warning
  | error
  deriving DecidableEq, Repr

def Severity.text : Severity → String
  | .info => "info"
  | .warning => "warning"
  | .error => "error"

/-- What a reader waited for: a certain lexeme, or something described in words. -/
inductive Expectation where
  | lexeme (form : Form)
  | words (text : String)
  deriving DecidableEq, Repr

def Expectation.text : Expectation → String
  | .lexeme form => form.text
  | .words text => text

/-- What is wrong. -/
inductive Cause where
  /-- A character that begins no token. -/
  | unrecognized (c : Char)
  /-- An integer literal outside the signed 64-bit range. -/
  | outOfRange (literal : String)
  /-- A closing bracket while none is open. -/
  | unopened (closing : Bracket)
  /-- A closing bracket of another kind than the innermost open one. -/
  | mismatched (closing opening : Bracket) (openedAt : Location)
  /-- A quote that is never closed. -/
  | unterminated
  | unexpected (found : Form) (expected : Expectation)
  | endOfInput (expected : Expectation)
  /-- A token was demanded before the first one was read. -/
  | notStarted
  /-- A token that begins constructs which the language does not have yet. -/
  | notImplemented
  | missingExpression
  | missingIdentifier
  | noArms
  | tooDeep
  /-- A diagnostic in the words of the one who reports it. -/
  | stated (code message : String)
  deriving DecidableEq, Repr

namespace Cause

/-- The code of a cause. -/
def code : Cause → String
  | .unrecognized _ => "E100"
  | .outOfRange _ => "E101"
  | .unopened _ => "E102"
  | .mismatched _ _ _ => "E102"
  | .unterminated => "E104"
  | .unexpected _ _ => "E200"
  | .endOfInput _ => "E201"
  | .notStarted => "E202"
  | .notImplemented => "E203"
  | .missingExpression => "E204"
  | .missingIdentifier => "E204"
  | .noArms => "E204"
  | .tooDeep => "E204"
  | .stated code _ => code

/-- The wording of a cause. -/
def message : Cause → String
  | .unrecognized c => "unrecognized character " ++ Text.quoted c.toString
  | .outOfRange literal => "integer literal " ++ literal ++ " does not fit in 64 bits"
  | .unopened closing => "unexpected '" ++ closing.closer.toString ++ "' with no open bracket"
  | .mismatched closing opening openedAt =>
      "mismatched '" ++ closing.closer.toString ++ "': '" ++ opening.opener.toString ++
        "' opened at " ++ openedAt.text ++ " expects '" ++ opening.closer.toString ++ "'"
  | .unterminated => "unterminated string literal"
  | .unexpected found expected =>
      "unexpected token (" ++ found.text ++ ") found. expected " ++ expected.text
  | .endOfInput expected => "hit EOF but expected " ++ expected.text
  | .notStarted => "lexer was not started"
  | .notImplemented => "parsing this is not implemented"
  | .missingExpression => "missing function callsite expression"
  | .missingIdentifier => "expected an identifier here"
  | .noArms => "match expression has no arms"
  | .tooDeep => "expression nested too deeply"
  | .stated _ message => message

end Cause

/-- What is wrong, and where. -/
structure Diagnostic where
  location : Location
  cause : Cause
  severity : Severity := .error
  deriving DecidableEq, Repr

namespace Diagnostic

def code (diagnostic : Diagnostic) : String :=
  diagnostic.cause.code

def message (diagnostic : Diagnostic) : String :=
  diagnostic.cause.message

/-- A diagnostic on one line, without its code. -/
def text (diagnostic : Diagnostic) : String :=
  diagnostic.location.text ++ ": " ++ diagnostic.severity.text ++ ": " ++ diagnostic.message

end Diagnostic

/-- Why reading stops: something is wrong with the source, or an integer literal of harmless value
has more digits than are ever converted. -/
inductive Fault where
  | diagnostic (diagnostic : Diagnostic)
  | tooManyDigits (count : Nat)
  deriving DecidableEq, Repr

end FrontEnd
