import Scriptlet.Outline.Tree
import Scriptlet.Pipeline

/-!
# The command line

    [--backend interpreter|generator] [--skip-analysis] [--tokens] [--ast] [file]

Reads a program from a file or from standard input and runs it, after checking it
unless told not to; or writes it in Java; or shows its tokens or its tree.  A run
exits with the integer that `main` returns.
-/

namespace Scriptlet
namespace Command

-- powers are the core library's, whichever others are in scope
attribute [local instance (high)] instPowNat

/-- What is done with a program. -/
inductive Backend where
  | interpreter
  | generator
  deriving DecidableEq, Repr

/-- The backend of a name. -/
def Backend.ofName? : String → Option Backend
  | "interpreter" => some .interpreter
  | "generator" => some .generator
  | _ => none

/-- The choices of a command line. -/
structure Options where
  backend : Backend
  skipAnalysis : Bool
  tokens : Bool
  ast : Bool
  file : Option String
  deriving DecidableEq, Repr

/-- The choices of an empty command line. -/
def Options.default : Options := ⟨.interpreter, false, false, false, none⟩

/-- The name in an argument `--backend=name`, `-b=name` or `-bname`. -/
def backendValue? (argument : String) : Option String :=
  ["--backend=", "-b=", "-b"].findSome? fun option =>
    if option.toList.isPrefixOf argument.toList then
      some (String.ofList (argument.toList.drop option.length))
    else none

/-- Reads arguments one after the other; `none` if they make no sense.  After `--`
only a file may follow. -/
def Options.read? : Options → List String → Option Options
  | o, [] | o, ["--"] => some o
  | o, ["--", file] => if o.file.isSome then none else some { o with file := some file }
  | o, "--skip-analysis" :: rest => Options.read? { o with skipAnalysis := true } rest
  | o, "--tokens" :: rest => Options.read? { o with tokens := true } rest
  | o, "--ast" :: rest => Options.read? { o with ast := true } rest
  | o, "--backend" :: name :: rest | o, "-b" :: name :: rest =>
    match Backend.ofName? name with
    | some backend => Options.read? { o with backend := backend } rest
    | none => none
  | o, argument :: rest =>
    match backendValue? argument with
    | some name =>
      match Backend.ofName? name with
      | some backend => Options.read? { o with backend := backend } rest
      | none => none
    | none =>
      if (argument.startsWith "-" && argument ≠ "-") || o.file.isSome then none
      else Options.read? { o with file := some argument } rest

/-- The choices that arguments make. -/
def Options.ofArguments? (arguments : List String) : Option Options :=
  match Options.read? .default arguments with
  | some o => if o.tokens && o.ast then none else some o
  | none => none

/-- Why a program could not be read. -/
inductive ReadError where
  | missingFile
  | invalidText
  /-- Another reason, in the words of the system. -/
  | other (reason : String)
  deriving DecidableEq, Repr

/-- The wording of a read error; `origin` is a file name or `stdin`. -/
def ReadError.message (origin : String) : ReadError → String
  | missingFile => s!"Reading {origin}: No such file or directory (os error 2)"
  | invalidText => s!"Reading {origin}: stream did not contain valid UTF-8"
  | other reason => s!"Reading {origin}: {reason}"

/-- The text that bytes encode. -/
def decodeText (bytes : ByteArray) : Except ReadError String :=
  match String.fromUTF8? bytes with
  | some text => .ok text
  | none => .error .invalidText

/-- What a command leaves behind. -/
structure Report where
  exitCode : UInt32
  stdout : ByteArray
  stderr : String

/-- A command that printed something and then failed. -/
def Report.failed (stdout : ByteArray) (message : String) : Report :=
  ⟨1, stdout, s!"Error: {message}\n"⟩

/-- A command that printed something and succeeded. -/
def Report.printed (text : String) : Report := ⟨0, text.toUTF8, ""⟩

/-- The report of a text that may have failed to come about. -/
def Report.ofText : Except Failure String → Report
  | .ok text => .printed text
  | .error e => .failed .empty e.message

/-- The exit code for the value of `main`: the low 32 bits of an integer, 0 for no
value, and an error for anything else. -/
def exitCode : Value → Except String UInt32
  | .integer n => .ok (UInt32.ofNat (n % 2 ^ (32 : Nat)).toNat)
  | .nil => .ok 0
  | v => .error s!"main returned {v.shapeName} instead of an Integer"

/-- The tokens of a text, one on a line. -/
def tokenListing (text : String) : Except Failure String := do
  return String.join ((← Pipeline.tokens text).map fun t => (Outline.ofToken t).line ++ "\n")

/-- The tree of a program. -/
def treeListing (p : Source) : String :=
  String.join ((Outline.ofSource p).lines.map (· ++ "\n"))

/-- Runs a program. -/
def runProgram (fuel : Nat) (p : Source) : Report :=
  match Pipeline.run fuel none p with
  | (.error e, m) => .failed m.output.bytes e.message
  | (.ok value, m) =>
    match exitCode value.value with
    | .ok code => ⟨code, m.output.bytes, ""⟩
    | .error message => .failed m.output.bytes message

/-- Does what the options ask for with the program a text denotes. -/
def execute (fuel : Nat) (o : Options) (text : String) : Report :=
  if o.tokens then .ofText (tokenListing text)
  else
    match Pipeline.source text with
    | .error e => .failed .empty e.message
    | .ok p =>
      if o.ast then .printed (treeListing p)
      else
        match o.backend with
        | .generator => .ofText (Pipeline.java p)
        | .interpreter =>
          if o.skipAnalysis then runProgram fuel p
          else
            match Pipeline.annotations p with
            | .error e => .failed .empty e.message
            | .ok _ => runProgram fuel p

/-- Does what the options ask for with a program that may have failed to be read. -/
def report (fuel : Nat) (o : Options) (input : Except ReadError String) : Report :=
  match input with
  | .ok text => execute fuel o text
  | .error e => .failed .empty (e.message (o.file.getD "stdin"))

end Command
end Scriptlet
