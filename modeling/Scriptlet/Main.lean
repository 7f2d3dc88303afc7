import Scriptlet.Command

/-!
# The program

Reads the program text, hands it to `Command.report`, and passes on what that
leaves behind.
-/

namespace Scriptlet
namespace Command

/-- What to say to arguments that make no sense. -/
def usage : String :=
  "Usage: scriptlet [--backend interpreter|generator] [--skip-analysis] [--tokens] [--ast] [FILE]"

/-- The text of the file, or of standard input. -/
def readInput (o : Options) : IO (Except ReadError String) := do
  try
    let bytes ← match o.file with
      | some path => IO.FS.readBinFile path
      | none => (← IO.getStdin).readBinToEnd
    return decodeText bytes
  catch
    | .noFileOrDirectory .. => return .error .missingFile
    | e => return .error (.other (toString e))

/-- Reads, works, and writes. -/
def run (arguments : List String) : IO UInt32 := do
  match Options.ofArguments? arguments with
  | none =>
    IO.eprintln usage
    return 2
  | some o =>
    let r := report ampleFuel o (← readInput o)
    let stdout ← IO.getStdout
    stdout.write r.stdout
    stdout.flush
    IO.eprint r.stderr
    return r.exitCode

end Command
end Scriptlet

/-- The command line program. -/
def main (arguments : List String) : IO UInt32 := Scriptlet.Command.run arguments
