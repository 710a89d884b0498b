import FrontEnd.Source

/-!
# Sessions

A session is one lexer under a sequence of commands: the lexer's own operations, marks and
iterators, and every rule of the grammar. A command that fails has an effect too, and the next one
goes on from there.
-/

set_option autoImplicit false

namespace FrontEnd

/-- The rules that a command can run. Those that read the rest of a construct take its location. -/
inductive RuleName where
  | file
  | declaration
  | patterns
  | pattern
  | application
  | term
  | identifier
  | bindingRest (location : Location)
  | matchRest (location : Location)
  | groupedRest (location : Location)
  | groupedPattern (location : Location)
  deriving DecidableEq, Repr

/-- What a rule found. -/
inductive Found where
  | node (node : Option Node)
  | nodes (nodes : List Node)

/-- The rule of a name, with the full budget for nesting. -/
def RuleName.rule : RuleName → Rule Lexer Found
  | .file => do
      let decls ← Grammar.file nestingBudget
      pure (.nodes (decls.map .ofDecl))
  | .declaration => do
      let decl ← Grammar.declaration nestingBudget
      pure (.node (decl.map .ofDecl))
  | .patterns => do
      let patterns ← Rule.many (Grammar.pattern nestingBudget)
      pure (.nodes (patterns.map .ofPattern))
  | .pattern => do
      let pattern ← Grammar.pattern nestingBudget
      pure (.node (pattern.map .ofPattern))
  | .application => do
      let expr ← Grammar.application (Grammar.term nestingBudget)
      pure (.node (some (.ofExpr expr)))
  | .term => do
      let expr ← Grammar.term nestingBudget
      pure (.node (expr.map .ofExpr))
  | .identifier => do
      let name ← Grammar.identifier
      pure (.node (some (.ofName name)))
  | .bindingRest location => do
      let expr ← Grammar.bindingRest (Grammar.term nestingBudget) location
      pure (.node (some (.ofExpr expr)))
  | .matchRest location => do
      let expr ←
        Grammar.matchRest (Grammar.term nestingBudget) (Grammar.pattern nestingBudget) location
      pure (.node (some (.ofExpr expr)))
  | .groupedRest location => do
      let expr ← Grammar.groupedRest (Grammar.term nestingBudget) location
      pure (.node (some (.ofExpr expr)))
  | .groupedPattern location => do
      let pattern ← Grammar.groupedPattern (Grammar.pattern nestingBudget) location
      pure (.node (some (.ofPattern pattern)))

/-- The rule of a name as one that may find nothing; a rule that finds lists counts as finding
nothing, so that repeating it ends. -/
def RuleName.optional (name : RuleName) : Rule Lexer (Option Node) := do
  match ← name.rule with
  | .node node => pure node
  | .nodes _ => pure none

/-- How far an iterator over the tokens has come. -/
inductive TokenIterator where
  | fresh
  | running
  | finished
  deriving DecidableEq, Repr

/-- A lexer with the marks and the iterators that were made of it, oldest first. -/
structure Session where
  lexer : Lexer
  marks : Array Lexer.Mark
  iterators : Array TokenIterator

/-- What can be asked of a session. Marks and iterators are named by their number. -/
inductive Command where
  | peek
  | peekMatches (form : Form)
  | advance
  | chomp (form : Form)
  | skipSemicolons
  | mark
  | reset (mark : Nat)
  | openBrackets
  | drain
  | location
  | iterate
  | next (iterator : Nat)
  | run (rule : RuleName)
  | runMany (rule : RuleName)

/-- What a command answers. -/
inductive Answer where
  | nothing
  | flag (value : Bool)
  | index (value : Nat)
  | location (value : Location)
  | token (value : Option Token)
  | tokens (values : List Token)
  | frames (values : List Frame)
  | node (value : Option Node)
  | nodes (values : List Node)

/-- What a rule found, as an answer. -/
def Found.answer : Found → Answer
  | .node found => .node found
  | .nodes found => .nodes found

namespace Session

/-- A session before the first token of a source. -/
def ofSource (file source : String) : Session :=
  ⟨.ofSource file source, #[], #[]⟩

/-- Applies a rule to the lexer. -/
def apply {α : Type} (session : Session) (rule : Rule Lexer α) (answer : α → Answer) :
    Except Fault Answer × Session :=
  match rule session.lexer with
  | .ok value lexer => (.ok (answer value), { session with lexer := lexer })
  | .error fault lexer => (.error fault, { session with lexer := lexer })

/-- The rest of the tokens: the one in front and all that follow. -/
def drainUpTo : Nat → Rule Lexer (List Token)
  | 0 => pure []
  | bound + 1 => do
      match ← Rule.peek with
      | none => pure []
      | some token =>
          let _ ← Rule.advance
          let tokens ← drainUpTo bound
          pure (token :: tokens)

/-- Reads all remaining tokens. -/
def drain : Rule Lexer (List Token) := do
  Rule.begin
  Rule.bounded fun left => drainUpTo (left + 1)

/-- What an iterator does before it looks at the token in front. -/
def TokenIterator.prepare : TokenIterator → Rule Lexer Unit
  | .fresh => Rule.begin
  | _ => discard Rule.advance

/-- The next token of an iterator. Only the first call leaves a token that is already there; an
iterator that ended or failed stays ended and leaves the lexer alone. -/
def next (session : Session) (i : Nat) : Except Fault Answer × Session :=
  match session.iterators[i]? with
  | none => (.ok (.token none), session)
  | some .finished => (.ok (.token none), session)
  | some iterator =>
      let after (lexer : Lexer) (state : TokenIterator) : Session :=
        { session with lexer := lexer, iterators := session.iterators.setIfInBounds i state }
      match TokenIterator.prepare iterator session.lexer with
      | .error fault lexer => (.error fault, after lexer .finished)
      | .ok _ lexer =>
          match lexer.lookahead.token? with
          | none => (.ok (.token none), after lexer .finished)
          | some token => (.ok (.token (some token)), after lexer .running)

/-- Carries out a command. A number that names no mark changes nothing. -/
def step (session : Session) : Command → Except Fault Answer × Session
  | .peek => session.apply Rule.peek .token
  | .peekMatches form => session.apply (Rule.ahead form) .flag
  | .advance => session.apply Rule.advance .location
  | .chomp form => session.apply (Rule.chomp form) fun _ => .nothing
  | .skipSemicolons => session.apply Rule.skipSemicolons fun _ => .nothing
  | .mark =>
      (.ok (.index session.marks.size),
        { session with marks := session.marks.push session.lexer.mark })
  | .reset i =>
      match session.marks[i]? with
      | none => (.ok .nothing, session)
      | some mark => (.ok .nothing, { session with lexer := session.lexer.reset mark })
  | .openBrackets => (.ok (.frames session.lexer.brackets.openFrames), session)
  | .drain => session.apply drain .tokens
  | .location => (.ok (.location session.lexer.location), session)
  | .iterate =>
      (.ok (.index session.iterators.size),
        { session with iterators := session.iterators.push .fresh })
  | .next i => session.next i
  | .run name => session.apply name.rule Found.answer
  | .runMany name => session.apply (Rule.many name.optional) .nodes

/-- Carries out commands one after the other. -/
def run (session : Session) : List Command → List (Except Fault Answer × Session)
  | [] => []
  | command :: commands =>
      let result := session.step command
      result :: result.2.run commands

end Session

end FrontEnd
