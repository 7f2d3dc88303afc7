import Scriptlet.Checking.Program
import Scriptlet.Evaluation.Run
import Scriptlet.Java.Program
import Scriptlet.Parsing.Program
import Scriptlet.Token.Lexer

/-!
# From text to result

The steps from program text to a result, each of which may fail; a failure tells
which step it comes from.
-/

namespace Scriptlet

-- powers are the core library's, whichever others are in scope
attribute [local instance (high)] instPowNat

/-- An error and the step it comes from. -/
inductive Failure where
  | lexing (e : LexError)
  | parsing (e : ParseError)
  | checking (e : CheckError)
  | evaluation (e : EvalError)
  | generation (e : JavaError)
  /-- The printed text could not be passed on. -/
  | flushing
  /-- The run needs more fuel than it was given. -/
  | outOfFuel
  deriving DecidableEq

/-- The wording of a failure. -/
def Failure.message : Failure → String
  | lexing e => s!"Lexing failed: {e.message}"
  | parsing e => s!"Parsing failed: {e.message}"
  | checking e => s!"Analysis failed: {e.message}"
  | evaluation e => s!"Evaluation failed: {e.message}"
  | generation e => s!"Generation failed: {e.message}"
  | flushing => "Flushing program output: flush refused"
  | outOfFuel => "Evaluation failed: out of fuel"

/-- Fuel for runs that are to end only when their program does. -/
def ampleFuel : Nat := 2 ^ (62 : Nat)

namespace Pipeline

/-- The tokens of a text. -/
def tokens (text : String) : Except Failure (List Token) := (Token.scan text).mapError .lexing

/-- The program that a text denotes, its nodes numbered from `firstId`, and the
number after the last. -/
def sourceFrom (firstId : NodeId) (text : String) : Except Failure (Source × NodeId) := do
  match Rule.source (.ofTokens (← tokens text) firstId) with
  | .ok p c => .ok (p, c.nextId)
  | .error e _ => .error (.parsing e)

/-- The program that a text denotes. -/
def source (text : String) : Except Failure Source := (sourceFrom 0 text).map Prod.fst

/-- What checking finds out about a program. -/
def annotations (p : Source) : Except Failure Annotations := p.check.mapError .checking

/-- Runs a program on a fresh machine whose output has an optional limit: the value
of `main` or a failure, and the machine at the end. -/
def run (fuel : Nat) (limit : Option Nat) (p : Source) : Except Failure Object × Machine :=
  match Eval.source fuel p (.start limit) with
  | .ok value m => (.ok value, m)
  | .error (.error e) m => (.error (.evaluation e), m)
  | .error .outOfFuel m => (.error .outOfFuel, m)

/-- Checks a program and writes it in Java. -/
def java (p : Source) : Except Failure String := do
  (Java.program (← annotations p) p).mapError .generation

end Pipeline
end Scriptlet
