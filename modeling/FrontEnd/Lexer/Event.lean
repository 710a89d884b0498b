import FrontEnd.Lexeme
import FrontEnd.Location
import FrontEnd.Text.Quoted

/-!
# Events

What reading a source brings about, for the log. Events are kept in the order in which they
happened, also those of attempts that were rolled back.
-/

set_option autoImplicit false

namespace FrontEnd

/-- Something that happened while a source was read. -/
inductive Event where
  | opened (location : Location) (bracket : Bracket)
  | closed (location : Location) (bracket : Bracket)
  | inputEnded (location : Location)
  | declared (location : Location) (name : String)
  deriving DecidableEq, Repr

namespace Event

/-- The line that an event adds to the log. -/
def text : Event → String
  | .opened location bracket =>
      "DEBUG ember.lexer: " ++ location.text ++ ": opened " ++ Text.quoted bracket.opener.toString
  | .closed location bracket =>
      "DEBUG ember.lexer: " ++ location.text ++ ": closed " ++ Text.quoted bracket.closer.toString
  | .inputEnded location => "DEBUG ember.lexer: " ++ location.text ++ ": end of input"
  | .declared location name => "DEBUG ember.parser: " ++ location.text ++ ": found decl " ++ name

end Event

end FrontEnd
