import Scriptlet.Binding
import Scriptlet.Table

/-!
# Scopes

Scopes live in a list and are named by their position in it.  Position 0 is the
root; every other scope has a parent, and a name is looked up from the current
scope through its parents.  Entering a scope appends one and makes it current;
leaving it drops everything from there on and goes back to the scope that was
current before.

A function sees the scope it was defined in and not the one it is called from, so
the parent of a new scope is given and need not be the current one.
-/

namespace Scriptlet

/-- A scope's position. -/
abbrev ScopeId := Nat

/-- The names defined in one scope.  Functions are found by name and number of
arguments. -/
structure Scope (α β : Type) where
  parent : Option ScopeId
  vars : Table String (Variable α)
  functions : Table (String × Nat) (Routine β)

/-- The scopes that are open, and the current one. -/
structure Scopes (α β : Type) where
  scopes : List (Scope α β)
  current : ScopeId

/-- What to go back to on leaving a scope. -/
structure Frame where
  previous : ScopeId
  depth : Nat

namespace Scope

variable {α β : Type}

/-- A scope without names. -/
def empty (parent : Option ScopeId) : Scope α β := ⟨parent, .empty, .empty⟩

/-- Adds a variable. -/
def addVariable (scope : Scope α β) (v : Variable α) : Scope α β :=
  { scope with vars := scope.vars.insert v.name v }

/-- Replaces what is stored under the name of a variable. -/
def setVariable (scope : Scope α β) (name : String) (v : Variable α) : Scope α β :=
  { scope with vars := scope.vars.insert name v }

/-- Adds a function. -/
def addFunction (scope : Scope α β) (r : Routine β) : Scope α β :=
  { scope with functions := scope.functions.insert (r.name, r.arity) r }

end Scope

namespace Scopes

variable {α β : Type}

/-- The position of the outermost scope. -/
def root : ScopeId := 0

/-- The root scope alone, holding some functions. -/
def ofBuiltins (builtins : List (Routine β)) : Scopes α β :=
  ⟨[builtins.foldl Scope.addFunction (.empty none)], root⟩

/-- How many scopes are open. -/
def depth (s : Scopes α β) : Nat := s.scopes.length

/-- What leaving a scope entered now would go back to. -/
def frame (s : Scopes α β) : Frame := ⟨s.current, s.depth⟩

/-- Opens a scope below `parent` and makes it current. -/
def enter (s : Scopes α β) (parent : ScopeId) : Scopes α β :=
  ⟨s.scopes ++ [.empty (some parent)], s.depth⟩

/-- Drops the scopes opened since `frame` and goes back to the scope before it. -/
def leave (s : Scopes α β) (frame : Frame) : Scopes α β :=
  ⟨s.scopes.take frame.depth, frame.previous⟩

@[simp] theorem depth_enter (s : Scopes α β) (parent : ScopeId) :
    (s.enter parent).depth = s.depth + 1 := by
  simp [enter, depth]

/-- **Leaving a scope undoes entering it.** -/
theorem leave_enter (s : Scopes α β) (parent : ScopeId) : (s.enter parent).leave s.frame = s := by
  simp [enter, leave, frame, depth]

/-- Changes one scope. -/
def modify (s : Scopes α β) (id : ScopeId) (f : Scope α β → Scope α β) : Scopes α β :=
  { s with scopes := s.scopes.modify id f }

/-- Walks from scope `id` through its parents to the first scope in which `get`
finds something, visiting at most `n` scopes: that scope, and what was found. -/
def search {γ : Type} (s : Scopes α β) (get : Scope α β → Option γ) :
    (n : Nat) → (id : ScopeId) → Option (ScopeId × γ)
  | 0, _ => none
  | n + 1, id =>
    match s.scopes[id]? with
    | none => none
    | some scope =>
      match get scope with
      | some found => some (id, found)
      | none =>
        match scope.parent with
        | none => none
        | some parent => s.search get n parent

/-- What `get` finds first from the current scope outwards, and where. -/
def resolve? {γ : Type} (s : Scopes α β) (get : Scope α β → Option γ) : Option (ScopeId × γ) :=
  s.search get s.depth s.current

/-- The nearest variable of a name. -/
def findVariable? (s : Scopes α β) (name : String) : Option (Variable α) :=
  (s.resolve? fun scope => scope.vars.find? name).map Prod.snd

/-- The nearest function of a name and number of arguments. -/
def findFunction? (s : Scopes α β) (name : String) (arity : Nat) : Option (Routine β) :=
  (s.resolve? fun scope => scope.functions.find? (name, arity)).map Prod.snd

/-- Defines a variable in the current scope. -/
def defineVariable (s : Scopes α β) (v : Variable α) : Except DefinitionError (Scopes α β) :=
  if (s.scopes[s.current]?).any (·.vars.contains v.name) then
    .error (.duplicateVariable v.name)
  else .ok (s.modify s.current (·.addVariable v))

/-- Defines a function in the current scope. -/
def defineFunction (s : Scopes α β) (r : Routine β) : Except DefinitionError (Scopes α β) :=
  if (s.scopes[s.current]?).any (·.functions.contains (r.name, r.arity)) then
    .error (.duplicateFunction r.name r.arity)
  else .ok (s.modify s.current (·.addFunction r))

/-- Replaces the value of the nearest variable of a name, if there is one. -/
def assign? (s : Scopes α β) (name : String) (value : α) : Option (Scopes α β) :=
  match s.resolve? fun scope => scope.vars.find? name with
  | none => none
  | some (id, v) => some (s.modify id (·.setVariable name { v with value := value }))

end Scopes
end Scriptlet
