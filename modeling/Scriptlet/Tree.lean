import Scriptlet.Decimal

/-!
# Program trees

A program is a list of globals and a list of functions.  Expressions, globals,
local declarations and functions carry a `NodeId`, under which later passes
record what they found out.  Two trees are the same (`Expr.same` and its
companions) if they differ in node ids only, decimals being compared by the
number they stand for.
-/

namespace Scriptlet

/-- The identity of a node that later passes describe.  Nodes are counted, and a counter of
64 bits would do as well: no process lives long enough to exhaust it. -/
abbrev NodeId := Nat

/-- The operators between two expressions. -/
inductive BinaryOp where
  | and
  | or
  | less
  | greater
  | equal
  | notEqual
  | add
  | subtract
  | multiply
  | divide
  | power
  deriving DecidableEq, Repr

/-- The four precedence levels, loosest first. -/
inductive Level where
  | logical
  | comparison
  | additive
  | multiplicative
  deriving DecidableEq, Repr

namespace BinaryOp

/-- Every operator. -/
def all : List BinaryOp :=
  [and, or, less, greater, equal, notEqual, add, subtract, multiply, divide, power]

/-- The symbol of an operator. -/
def symbol : BinaryOp → String
  | and => "&&"
  | or => "||"
  | less => "<"
  | greater => ">"
  | equal => "=="
  | notEqual => "!="
  | add => "+"
  | subtract => "-"
  | multiply => "*"
  | divide => "/"
  | power => "^"

/-- The operator of a symbol. -/
def ofSymbol? (symbol : String) : Option BinaryOp := all.find? (·.symbol = symbol)

@[simp] theorem ofSymbol?_symbol (op : BinaryOp) : ofSymbol? op.symbol = some op := by
  cases op <;> rfl

/-- The name of an operator. -/
def name : BinaryOp → String
  | and => "And"
  | or => "Or"
  | less => "Less"
  | greater => "Greater"
  | equal => "Equal"
  | notEqual => "NotEqual"
  | add => "Add"
  | subtract => "Subtract"
  | multiply => "Multiply"
  | divide => "Divide"
  | power => "Power"

/-- The precedence level of an operator. -/
def level : BinaryOp → Level
  | and | or => .logical
  | less | greater | equal | notEqual => .comparison
  | add | subtract => .additive
  | multiply | divide | power => .multiplicative

end BinaryOp

/-- A value written in program text. -/
inductive Literal where
  | nil
  | boolean (value : Bool)
  | integer (value : Int)
  | decimal (value : Decimal)
  | character (value : Char)
  | string (value : String)
  deriving DecidableEq, Repr

/-- An expression. -/
inductive Expr where
  | literal (id : NodeId) (value : Literal)
  /-- A parenthesised expression. -/
  | group (id : NodeId) (inner : Expr)
  | binary (id : NodeId) (op : BinaryOp) (left right : Expr)
  /-- The value of a variable. -/
  | access (id : NodeId) (name : String)
  /-- An element of the list that a variable holds. -/
  | element (id : NodeId) (name : String) (offset : Expr)
  | call (id : NodeId) (name : String) (arguments : List Expr)
  | list (id : NodeId) (elements : List Expr)

/-- The identity of an expression. -/
def Expr.id : Expr → NodeId
  | literal id _ => id
  | group id _ => id
  | binary id _ _ _ => id
  | access id _ => id
  | element id _ _ => id
  | call id _ _ => id
  | list id _ => id

mutual

/-- A statement. -/
inductive Stmt where
  | expression (value : Expr)
  | declaration (id : NodeId) (name : String) (typeName : Option String) (value : Option Expr)
  | assignment (receiver value : Expr)
  | ifElse (condition : Expr) (thenBody elseBody : List Stmt)
  | switch (condition : Expr) (cases : List Case)
  | whileDo (condition : Expr) (body : List Stmt)
  | returnWith (value : Expr)

/-- An arm of a `SWITCH`; the one without a value is the `DEFAULT` arm. -/
inductive Case where
  | mk (value : Option Expr) (body : List Stmt)

end

/-- The value an arm is chosen for. -/
def Case.value : Case → Option Expr
  | .mk value _ => value

/-- The statements of an arm. -/
def Case.body : Case → List Stmt
  | .mk _ body => body

/-- A variable or list declared at the top of a program. -/
structure GlobalDecl where
  id : NodeId
  name : String
  typeName : Option String
  mutable : Bool
  value : Option Expr

/-- A function of a program.  Parameter names and type names are two lists, paired
from the front. -/
structure FunctionDecl where
  id : NodeId
  name : String
  parameters : List String
  parameterTypeNames : List String
  returnTypeName : Option String
  body : List Stmt

/-- A whole program. -/
structure Source where
  globals : List GlobalDecl
  functions : List FunctionDecl

end Scriptlet
