import FrontEnd.Source

/-!
# Recordings

A recording is a finished list of tokens with what came behind the last of them: the end of the
input or a fault. An index says how many of the tokens were handed out, and a mark is an index.
Declarations can be read from a recording as they are from a lexer.
-/

set_option autoImplicit false

namespace FrontEnd

/-- The tokens of a source, of which `taken` were handed out. One more than there are have been
taken where the end was reached. -/
structure Recording where
  file : String
  tokens : List Token
  /-- Where the input ends, or the fault that stops it before. -/
  stop : Except Fault Location
  taken : Nat

namespace Recording

/-- The recording of a source, before its first token. -/
def ofSource (file source : String) : Recording :=
  match tokenize file source with
  | (tokens, some fault, _) => ⟨file, tokens, .error fault, 0⟩
  | (tokens, none, lexer) => ⟨file, tokens, .ok lexer.location, 0⟩

/-- What is in front: the token that was handed out last. -/
def lookahead (recording : Recording) : Lookahead :=
  match recording.taken with
  | 0 => .unstarted
  | before + 1 =>
      match recording.tokens[before]? with
      | some token => .ready token
      | none => .ended

/-- Where the token in front is: before the first one the beginning, behind the last one the end. -/
def location (recording : Recording) : Location :=
  match recording.lookahead, recording.stop with
  | .unstarted, _ => ⟨recording.file, 1, 0⟩
  | .ready token, _ => token.location
  | .ended, .ok location => location
  | .ended, .error _ => ⟨recording.file, 1, 0⟩

/-- Hands out the next token. Behind the last one comes the fault or the end. -/
def advance (recording : Recording) : EStateM.Result Fault Recording Location :=
  match recording.tokens[recording.taken]?, recording.stop with
  | some token, _ => .ok token.location { recording with taken := recording.taken + 1 }
  | none, .error fault => .error fault recording
  | none, .ok location => .ok location { recording with taken := recording.tokens.length + 1 }

/-- A bound on the tokens still to come. -/
def left (recording : Recording) : Nat :=
  recording.tokens.length - recording.taken + 1

instance : Feed Recording where
  Mark := Nat
  lookahead := lookahead
  location := location
  left := left
  advance := advance
  mark := taken
  reset := fun taken recording => { recording with taken := taken }
  note := fun _ recording => recording

/-- Reads the declarations of a recording. -/
def decls (budget : Nat) (recording : Recording) : Except Fault (List Decl) :=
  match Grammar.file budget recording with
  | .ok decls _ => .ok decls
  | .error fault _ => .error fault

end Recording

end FrontEnd
