import Scriptlet.Decimal.Compare
import Scriptlet.Tree

/-!
# Sameness of trees

Node ids tell nodes apart that are otherwise equal, and `2.5` and `2.50` are two
spellings of one number.  Two trees are the same if nothing else tells them
apart.
-/

namespace Scriptlet

/-- Two literals with the same value; decimals are compared as numbers. -/
def Literal.same : Literal → Literal → Bool
  | .decimal a, .decimal b => a.eqv b
  | a, b => a = b

mutual

/-- Two expressions that differ in node ids only. -/
def Expr.same : Expr → Expr → Bool
  | .literal _ a, .literal _ b => a.same b
  | .group _ a, .group _ b => a.same b
  | .binary _ op a b, .binary _ op' a' b' => op = op' && a.same a' && b.same b'
  | .access _ name, .access _ name' => name = name'
  | .element _ name offset, .element _ name' offset' => name = name' && offset.same offset'
  | .call _ name args, .call _ name' args' => name = name' && Expr.sameList args args'
  | .list _ es, .list _ es' => Expr.sameList es es'
  | _, _ => false

/-- `Expr.same`, element by element. -/
def Expr.sameList : List Expr → List Expr → Bool
  | [], [] => true
  | a :: as, b :: bs => a.same b && Expr.sameList as bs
  | _, _ => false

end

/-- `Expr.same`, where both are present or both absent. -/
def Expr.sameOption : Option Expr → Option Expr → Bool
  | none, none => true
  | some a, some b => a.same b
  | _, _ => false

mutual

/-- Two statements that differ in node ids only. -/
def Stmt.same : Stmt → Stmt → Bool
  | .expression a, .expression b => a.same b
  | .declaration _ name ty value, .declaration _ name' ty' value' =>
    name = name' && ty = ty' && Expr.sameOption value value'
  | .assignment a b, .assignment a' b' => a.same a' && b.same b'
  | .ifElse c t e, .ifElse c' t' e' => c.same c' && Stmt.sameList t t' && Stmt.sameList e e'
  | .switch c cases, .switch c' cases' => c.same c' && Case.sameList cases cases'
  | .whileDo c body, .whileDo c' body' => c.same c' && Stmt.sameList body body'
  | .returnWith a, .returnWith b => a.same b
  | _, _ => false

/-- Two arms that differ in node ids only. -/
def Case.same : Case → Case → Bool
  | .mk value body, .mk value' body' => Expr.sameOption value value' && Stmt.sameList body body'

/-- `Stmt.same`, statement by statement. -/
def Stmt.sameList : List Stmt → List Stmt → Bool
  | [], [] => true
  | a :: as, b :: bs => a.same b && Stmt.sameList as bs
  | _, _ => false

/-- `Case.same`, arm by arm. -/
def Case.sameList : List Case → List Case → Bool
  | [], [] => true
  | a :: as, b :: bs => a.same b && Case.sameList as bs
  | _, _ => false

end

/-- Two globals that differ in node ids only. -/
def GlobalDecl.same (a b : GlobalDecl) : Bool :=
  a.name = b.name && a.typeName = b.typeName && a.mutable = b.mutable &&
    Expr.sameOption a.value b.value

/-- Two functions that differ in node ids only. -/
def FunctionDecl.same (a b : FunctionDecl) : Bool :=
  a.name = b.name && a.parameters = b.parameters &&
    a.parameterTypeNames = b.parameterTypeNames && a.returnTypeName = b.returnTypeName &&
    Stmt.sameList a.body b.body

/-- Two programs that differ in node ids only. -/
def Source.same (a b : Source) : Bool :=
  a.globals.length = b.globals.length && a.functions.length = b.functions.length &&
    (a.globals.zip b.globals).all (fun (x, y) => x.same y) &&
    (a.functions.zip b.functions).all (fun (x, y) => x.same y)

end Scriptlet
