/-!
# Arguments

Options come first and are followed by a command with its own arguments. Two hyphens end the
options; a hyphen alone is an argument.
-/

set_option autoImplicit false

namespace FrontEnd.CommandLine

/-- The options of every command. -/
structure Options where
  verbose : Bool := false
  color : Bool := true
  version : Bool := false
  deriving DecidableEq, Repr

/-- What is asked for. -/
inductive Request where
  | version
  | lex (file : String)
  | view (file : String)
  | check (path : String)
  | new (name : String)
  deriving DecidableEq, Repr

/-- Whether an argument is an option. -/
def isOption (argument : String) : Bool :=
  match argument.toList with
  | '-' :: _ :: _ => true
  | _ => false

/-- Takes in one option: a long one, or a hyphen with letters. -/
def takeOption (options : Options) (argument : String) : Option Options :=
  match argument with
  | "--verbose" => some { options with verbose := true }
  | "--color" => some { options with color := true }
  | "--no-color" => some { options with color := false }
  | "--version" => some { options with version := true }
  | _ =>
      match argument.toList with
      | '-' :: letters =>
          if letters.all (· == 'v') then some { options with verbose := true } else none
      | _ => none

/-- Takes in the options before the command. -/
def takeOptions (options : Options) : List String → Option (Options × List String)
  | [] => some (options, [])
  | argument :: rest =>
      if argument = "--" then some (options, rest)
      else if isOption argument then
        match takeOption options argument with
        | none => none
        | some options => takeOptions options rest
      else some (options, argument :: rest)

/-- The arguments of a command, which has no options of its own. -/
def commandArguments : List String → Option (List String)
  | [] => some []
  | argument :: rest =>
      if argument = "--" then some rest
      else if isOption argument then none
      else (commandArguments rest).map (argument :: ·)

/-- The request of a command with its arguments. -/
def commandRequest (command : String) (arguments : List String) : Option Request :=
  match command, commandArguments arguments with
  | "lex", some [file] => some (.lex file)
  | "view", some [file] => some (.view file)
  | "check", some [] => some (.check ".")
  | "check", some [path] => some (.check path)
  | "new", some [name] => some (.new name)
  | _, _ => none

/-- Whether arguments ask for the version by their options. -/
def asksVersion (arguments : List String) : Bool :=
  match takeOptions {} arguments with
  | some (options, _) => options.version
  | none => false

/-- The options and the request of a list of arguments; `none` if there is no such request. Where
an option stands in the place of the command, all from there on is read once more as options, which
may ask for the version and for nothing else. -/
def parseArguments (arguments : List String) : Option (Options × Request) :=
  match takeOptions {} arguments with
  | none => none
  | some (options, rest) =>
      if options.version then some (options, .version)
      else
        match rest with
        | [] => none
        | command :: more =>
            if isOption command then
              if asksVersion rest then some (options, .version) else none
            else (commandRequest command more).map (options, ·)

end FrontEnd.CommandLine
