import Scriptlet.Binding
import Scriptlet.Checking.Annotations
import Scriptlet.Checking.Error
import Scriptlet.Checking.Program
import Scriptlet.Checking.Rules
import Scriptlet.Command
import Scriptlet.Decimal
import Scriptlet.Decimal.Compare
import Scriptlet.Decimal.Text
import Scriptlet.Evaluation.Error
import Scriptlet.Evaluation.Machine
import Scriptlet.Evaluation.Operator
import Scriptlet.Evaluation.Run
import Scriptlet.Java.Expression
import Scriptlet.Java.Program
import Scriptlet.Main
import Scriptlet.Outline
import Scriptlet.Outline.Tree
import Scriptlet.Parsing.Cursor
import Scriptlet.Parsing.Expression
import Scriptlet.Parsing.Program
import Scriptlet.Parsing.Statement
import Scriptlet.Pipeline
import Scriptlet.Proofs.Arena
import Scriptlet.Proofs.CheckSound
import Scriptlet.Proofs.Conform
import Scriptlet.Proofs.Denotation
import Scriptlet.Proofs.Grammar
import Scriptlet.Proofs.Lexeme
import Scriptlet.Proofs.Munch
import Scriptlet.Proofs.NameSound
import Scriptlet.Proofs.Nodes
import Scriptlet.Proofs.Outcome
import Scriptlet.Proofs.ParseComplete
import Scriptlet.Proofs.ParseSound
import Scriptlet.Proofs.Plain
import Scriptlet.Proofs.ProgramComplete
import Scriptlet.Proofs.ProgramRuns
import Scriptlet.Proofs.ProgramSound
import Scriptlet.Proofs.ProgramTyped
import Scriptlet.Proofs.RunRules
import Scriptlet.Proofs.RunSound
import Scriptlet.Proofs.RunState
import Scriptlet.Proofs.RunSteps
import Scriptlet.Proofs.TokenTail
import Scriptlet.Proofs.TypeSound
import Scriptlet.Proofs.Typing
import Scriptlet.Proofs.Watch
import Scriptlet.Proofs.Walk
import Scriptlet.Scope
import Scriptlet.Table
import Scriptlet.Text.Escape
import Scriptlet.Text.Shown
import Scriptlet.Text.Window
import Scriptlet.Token
import Scriptlet.Token.Lexer
import Scriptlet.Tree
import Scriptlet.Tree.Same
import Scriptlet.Ty
import Scriptlet.Value
import Scriptlet.Proofs.Regime
import Scriptlet.Proofs.ScopeKept
import Scriptlet.Proofs.Lexical
import Scriptlet.Proofs.Callers
import Scriptlet.Proofs.Parts
import Scriptlet.Proofs.CheckComplete
import Scriptlet.Proofs.ProgramAccepted
import Scriptlet.Proofs.JavaReader
import Scriptlet.Proofs.JavaScan
import Scriptlet.Proofs.Written
import Scriptlet.Proofs.JavaText
import Scriptlet.Proofs.JavaStructure
import Scriptlet.Proofs.Cut
import Scriptlet.Proofs.LiteralText
import Scriptlet.Proofs.Visits
import Scriptlet.Proofs.Findings
import Scriptlet.Proofs.JavaNeeds
import Scriptlet.Proofs.Fuel
import Scriptlet.Proofs.Calm
import Scriptlet.Proofs.CallOrder
import Scriptlet.Proofs.Ending
import Scriptlet.Proofs.Progress
import Scriptlet.Proofs.Lookahead
import Scriptlet.Proofs.Viable
import Scriptlet.Proofs.ParseFailure
import Scriptlet.Proofs.OutputLimit
import Scriptlet.Proofs.Places
import Scriptlet.Proofs.Stable
import Scriptlet.Proofs.Assignment
import Scriptlet.Proofs.DeclaredNames
import Scriptlet.Proofs.JavaBlocks
import Scriptlet.Proofs.JavaLocals
import Scriptlet.Proofs.Quotient
import Scriptlet.Proofs.Blanks
import Scriptlet.Proofs.Faults
import Scriptlet.Proofs.LiteralTokens
import Scriptlet.Proofs.Descent
import Scriptlet.Proofs.DescentEnds
import Scriptlet.Proofs.Calls
import Scriptlet.Proofs.NodeTree
import Scriptlet.Proofs.Numbering
import Scriptlet.Proofs.JavaMissing
import Scriptlet.Proofs.CheckState
import Scriptlet.Proofs.Limit
import Scriptlet.Proofs.Inserted
import Scriptlet.Proofs.Blind
import Scriptlet.Proofs.SwitchChain
import Scriptlet.Proofs.Arity
import Scriptlet.Proofs.OpenScopes
import Scriptlet.Proofs.Bracket
