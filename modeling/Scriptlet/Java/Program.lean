import Scriptlet.Java.Expression

/-!
# Programs in Java

A program becomes one class.  Globals become fields, `final` unless they may be
assigned; functions become methods; and a static method `main` makes an object of
the class and exits with what its own `main` answers.

| statement   | Java                                                       |
|-------------|------------------------------------------------------------|
| declaration | a local variable                                           |
| `IF`        | `if`, with an `else` branch unless it is empty             |
| `SWITCH`    | `switch`, with a `break` at the end of every arm but the default |
| `WHILE`     | `while`, on one line if its body is empty                  |

Text is produced as lines, each with the depth of its indentation.
-/

namespace Scriptlet
namespace Java

/-- A line of text and how many steps it is indented by. -/
structure Line where
  depth : Nat
  text : String
  deriving DecidableEq, Repr

/-- A line without text. -/
def Line.blank : Line := ⟨0, ""⟩

/-- A line with its indentation of four spaces a step, and its end. -/
def Line.render (l : Line) : String :=
  String.ofList (List.replicate (4 * l.depth) ' ') ++ l.text ++ "\n"

/-- The braces that enclose a block. -/
def openBrace : String := "\x7b"

/-- The closing one of the braces that enclose a block. -/
def closeBrace : String := "\x7d"

/-- A value after an equals sign, if there is one. -/
def initializer (a : Annotations) : Option Expr → Except JavaError String
  | none => .ok ""
  | some value => do return " = " ++ (← expression a value)

/-- A local declaration. -/
def declaration (a : Annotations) (id : NodeId) (name : String) (value : Option Expr) :
    Except JavaError String := do
  let v ← variableOf a id name
  return s!"{v.ty.javaName} {v.javaName}{← initializer a value};"

mutual

/-- The lines of a statement at a depth. -/
def statement (a : Annotations) (depth : Nat) : Stmt → Except JavaError (List Line)
  | .expression e => do return [⟨depth, s!"{← expression a e};"⟩]
  | .declaration id name _ value => do return [⟨depth, ← declaration a id name value⟩]
  | .assignment receiver value => do
    let r ← expression a receiver
    let v ← expression a value
    return [⟨depth, s!"{r} = {v};"⟩]
  | .ifElse condition thenBody elseBody => do
    let c ← expression a condition
    let thenLines ← block a (depth + 1) thenBody
    let elseLines ← block a (depth + 1) elseBody
    let opening : Line := ⟨depth, s!"if ({c}) {openBrace}"⟩
    let middle : List Line :=
      if elseBody.isEmpty then [] else [⟨depth, s!"{closeBrace} else {openBrace}"⟩]
    return opening :: thenLines ++ middle ++ elseLines ++ [⟨depth, closeBrace⟩]
  | .switch condition arms => do
    let c ← expression a condition
    let lines ← cases a (depth + 1) arms
    return ⟨depth, s!"switch ({c}) {openBrace}"⟩ :: lines ++ [⟨depth, closeBrace⟩]
  | .whileDo condition body => do
    let c ← expression a condition
    let lines ← block a (depth + 1) body
    if body.isEmpty then return [⟨depth, s!"while ({c}) {openBrace}{closeBrace}"⟩]
    return ⟨depth, s!"while ({c}) {openBrace}"⟩ :: lines ++ [⟨depth, closeBrace⟩]
  | .returnWith value => do return [⟨depth, s!"return {← expression a value};"⟩]

/-- The lines of statements at a depth. -/
def block (a : Annotations) (depth : Nat) : List Stmt → Except JavaError (List Line)
  | [] => .ok []
  | first :: rest => do
    let lines ← statement a depth first
    return lines ++ (← block a depth rest)

/-- The lines of the arms of a `switch` at a depth. -/
def cases (a : Annotations) (depth : Nat) : List Case → Except JavaError (List Line)
  | [] => .ok []
  | .mk (some value) body :: rest => do
    let v ← expression a value
    let lines ← block a (depth + 1) body
    let more ← cases a depth rest
    return ⟨depth, s!"case {v}:"⟩ :: lines ++ ⟨depth + 1, "break;"⟩ :: more
  | .mk none body :: rest => do
    let lines ← block a (depth + 1) body
    let more ← cases a depth rest
    return ⟨depth, "default:"⟩ :: lines ++ more

end

/-- Whether the value of a global is written as a list. -/
def isList : Option Expr → Bool
  | some (.list ..) => true
  | _ => false

/-- A global as a field. -/
def field (a : Annotations) (g : GlobalDecl) : Except JavaError Line := do
  let v ← variableOf a g.id g.name
  let qualifier := if g.mutable then "" else "final "
  let brackets := if isList g.value then "[]" else ""
  let value ← initializer a g.value
  return ⟨1, s!"{qualifier}{v.ty.javaName}{brackets} {v.javaName}{value};"⟩

/-- A function as a method. -/
def method (a : Annotations) (f : FunctionDecl) : Except JavaError (List Line) := do
  let r ← functionOf a f.id f.name
  let parameters := (f.parameters.zip r.parameterTypes).map fun (name, ty) =>
    s!"{ty.javaName} {name}"
  let parameterList := ", ".intercalate parameters
  let header := s!"{r.returnType.javaName} {r.javaName}({parameterList}) {openBrace}"
  let lines ← block a 2 f.body
  if f.body.isEmpty then return [⟨1, header ++ closeBrace⟩]
  return ⟨1, header⟩ :: lines ++ [⟨1, closeBrace⟩]

/-- The static method that starts the program. -/
def entryPoint : List Line :=
  [⟨1, s!"public static void main(String[] args) {openBrace}"⟩,
    ⟨2, "System.exit(new Main().main());"⟩, ⟨1, closeBrace⟩]

/-- The lines of the class. -/
def classLines (a : Annotations) (p : Source) : Except JavaError (List Line) := do
  let fields ← p.globals.mapM (field a)
  let methods ← p.functions.mapM (method a)
  let opening : List Line := [⟨0, s!"public class Main {openBrace}"⟩, .blank]
  let gap : List Line := if fields.isEmpty then [] else [.blank]
  let separated := methods.flatMap fun lines => Line.blank :: lines
  return opening ++ fields ++ gap ++ entryPoint ++ separated ++ [.blank, ⟨0, closeBrace⟩]

/-- The Java text of a program, given what checking recorded. -/
def program (a : Annotations) (p : Source) : Except JavaError String := do
  return String.join ((← classLines a p).map Line.render)

end Java
end Scriptlet
