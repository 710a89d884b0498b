import FrontEnd.Main
import FrontEnd.Editor.Workspace
import FrontEnd.Highlight
import FrontEnd.Recording
import FrontEnd.Session
import FrontEnd.Tree.Relocation
import FrontEnd.Proofs.Session.Rollback
import FrontEnd.Proofs.Source.Accepted
import FrontEnd.Proofs.Source.Spelled
import FrontEnd.Proofs.Source.Tiled
import FrontEnd.Proofs.Source.Respaced
import FrontEnd.Proofs.Source.Spaced
import FrontEnd.Proofs.Source.Joined
import FrontEnd.Proofs.Source.Head
import FrontEnd.Proofs.Source.Nested
import FrontEnd.Proofs.Session.Positions
import FrontEnd.Proofs.Source.WellFormed
import FrontEnd.Proofs.Source.Written
import FrontEnd.Proofs.Lexer.Integers
import FrontEnd.Proofs.Source.Recorded
import FrontEnd.Proofs.Source.Reported
import FrontEnd.Proofs.Highlight.Pieces
import FrontEnd.Proofs.Editor.Symbols
import FrontEnd.Proofs.Project.Scaffold
import FrontEnd.Proofs.Session.Progress
import FrontEnd.Proofs.Session.Longest
import FrontEnd.Proofs.Source.Enclosed
import FrontEnd.Proofs.Source.Budget
import FrontEnd.Proofs.Session.Failing
import FrontEnd.Proofs.Editor.Word
import FrontEnd.Proofs.Editor.Identifiers
import FrontEnd.Proofs.Highlight.Names
import FrontEnd.Proofs.Session.Arena
import FrontEnd.Proofs.Editor.Completions
import FrontEnd.Proofs.Project.Nearest
import FrontEnd.Proofs.Tree.Alike
import FrontEnd.Proofs.Session.Draining
