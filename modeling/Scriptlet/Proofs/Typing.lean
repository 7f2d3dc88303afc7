import Mathlib.Data.List.Forall2
import Scriptlet.Checking.Program

/-!
# Typing rules

What it means for a program to be well typed, said without a checker.  Variables
are typed by an environment, a list of frames with the innermost first, and
functions by one table, since functions are declared at the top only.  A statement
takes the innermost frame to the frame after it; the frames outside stay as they
are.

A derivation can be asked to agree with `Notes` about the nodes it meets: the type
of every expression, the variable that a declaration introduces, and the types that
the program names.  `Notes.any` asks nothing.
-/

namespace Scriptlet

-- powers are the core library's, whichever others are in scope
attribute [local instance (high)] instPowNat

/-- The variables declared in one scope. -/
abbrev Locals := Table String (Variable Unit)

/-- The variables in scope: frames, innermost first. -/
abbrev Env := List Locals

/-- The functions of a program, by name and number of arguments. -/
abbrev Signatures := Table (String × Nat) (Routine Unit)

/-- The variable that a name stands for: that of the innermost frame that has one. -/
def Env.lookup : Env → String → Option (Variable Unit)
  | [], _ => none
  | frame :: outer, name => (frame.find? name).or (Env.lookup outer name)

/-- What a derivation is asked to agree with. -/
structure Notes where
  /-- The type of an expression. -/
  type : NodeId → Ty → Prop
  /-- The variable of a declaration. -/
  var : NodeId → Variable Unit → Prop
  /-- A type that the program names. -/
  named : Ty → Prop
  /-- Lists may stand inside expressions. -/
  lists : Prop

/-- Notes that every derivation agrees with. -/
def Notes.any : Notes := ⟨fun _ _ => True, fun _ _ => True, fun _ => True, True⟩

namespace Typing

/-- The type of a literal, which has to be in the range of its type. -/
inductive OfLiteral : Literal → Ty → Prop where
  | nil : OfLiteral .nil .nil
  | boolean (b : Bool) : OfLiteral (.boolean b) .boolean
  | integer {n : Int} :
    -2 ^ (31 : Nat) ≤ n → n < 2 ^ (31 : Nat) → OfLiteral (.integer n) .integer
  | decimal {d : Decimal} : d.isFiniteDouble = true → OfLiteral (.decimal d) .decimal
  | character (c : Char) : OfLiteral (.character c) .character
  | string (s : String) : OfLiteral (.string s) .string

/-- A type of numbers. -/
def IsNumber (ty : Ty) : Prop := ty = .integer ∨ ty = .decimal

/-- A type whose values have an order. -/
inductive IsOrdered : Ty → Prop where
  | integer : IsOrdered .integer
  | decimal : IsOrdered .decimal
  | character : IsOrdered .character
  | string : IsOrdered .string

/-- A value of type `actual` may stand where type `target` is asked for. -/
inductive Assignable : (target actual : Ty) → Prop where
  | same (ty : Ty) : Assignable ty ty
  | any (actual : Ty) : Assignable .any actual
  | comparable {actual : Ty} : IsOrdered actual → Assignable .comparable actual

/-- Ordered types are told apart by a test. -/
theorem isOrdered_iff {ty : Ty} : ty.isOrdered = true ↔ IsOrdered ty := by
  constructor
  · intro h
    cases ty with
    | integer => exact .integer
    | decimal => exact .decimal
    | character => exact .character
    | string => exact .string
    | _ => cases h
  · rintro (_ | _ | _ | _) <;> rfl

/-- **Acceptance decides what is assignable.** -/
theorem accepts_iff {target actual : Ty} :
    target.accepts actual = true ↔ Assignable target actual := by
  constructor
  · intro h
    cases target with
    | any => exact .any actual
    | comparable =>
      rcases Bool.or_eq_true_iff.1 h with hsame | hordered
      · rw [of_decide_eq_true hsame]
        exact .same _
      · exact .comparable (isOrdered_iff.1 hordered)
    | _ =>
      rw [← of_decide_eq_true h]
      exact .same _
  · rintro (_ | _ | hordered)
    · exact Ty.accepts_self _
    · rfl
    · exact Bool.or_eq_true_iff.2 (.inr (isOrdered_iff.2 hordered))

/-- An operator with its operands. -/
inductive IsBinary : Expr → Prop where
  | intro (id : NodeId) (op : BinaryOp) (left right : Expr) : IsBinary (.binary id op left right)

/-- Operators with their operands are told apart by a test. -/
theorem isBinary_iff {e : Expr} : Check.isBinary e = true ↔ IsBinary e := by
  constructor
  · intro h
    cases e with
    | binary id op left right => exact .intro id op left right
    | _ => cases h
  · rintro ⟨⟩
    rfl

/-- The type of an operator's result for operands of two types. -/
inductive OfOperator : BinaryOp → Ty → Ty → Ty → Prop where
  | logic {op : BinaryOp} : op = .and ∨ op = .or → OfOperator op .boolean .boolean .boolean
  | compare {op : BinaryOp} {ty : Ty} :
    op ∈ [.less, .greater, .equal, .notEqual] → Assignable .comparable ty →
      OfOperator op ty ty .boolean
  | concat {left right : Ty} :
    left = .string ∨ right = .string → OfOperator .add left right .string
  | arithmetic {op : BinaryOp} {ty : Ty} :
    op ∈ [.add, .subtract, .multiply, .divide] → IsNumber ty → OfOperator op ty ty ty
  | power {ty : Ty} : IsNumber ty → OfOperator .power ty .integer ty

variable (N : Notes) (Φ : Signatures)

mutual

/-- The type of an expression. -/
inductive HasType (Γ : Env) : Expr → Ty → Prop where
  | literal {id : NodeId} {value : Literal} {ty : Ty} :
    OfLiteral value ty → N.type id ty → HasType Γ (.literal id value) ty
  | group {id : NodeId} {inner : Expr} {ty : Ty} :
    IsBinary inner → HasType Γ inner ty → N.type id ty → HasType Γ (.group id inner) ty
  | binary {id : NodeId} {op : BinaryOp} {left right : Expr} {l r ty : Ty} :
    HasType Γ left l → HasType Γ right r → OfOperator op l r ty → N.type id ty →
      HasType Γ (.binary id op left right) ty
  | access {id : NodeId} {name : String} {v : Variable Unit} :
    Γ.lookup name = some v → N.type id v.ty → HasType Γ (.access id name) v.ty
  | element {id : NodeId} {name : String} {offset : Expr} {v : Variable Unit} :
    HasType Γ offset .integer → Γ.lookup name = some v → N.type id v.ty →
      HasType Γ (.element id name offset) v.ty
  | call {id : NodeId} {name : String} {args : List Expr} {r : Routine Unit} :
    Φ.find? (name, args.length) = some r → Fit Γ args r.parameterTypes → N.type id r.returnType →
      HasType Γ (.call id name args) r.returnType
  | list {id : NodeId} {es : List Expr} :
    N.lists → Fit Γ es (List.replicate es.length .any) → N.type id .any →
      HasType Γ (.list id es) .any

/-- Expressions fit the types they are asked for, one by one. -/
inductive Fit (Γ : Env) : List Expr → List Ty → Prop where
  | nil : Fit Γ [] []
  | cons {e : Expr} {es : List Expr} {target actual : Ty} {targets : List Ty} :
    HasType Γ e actual → Assignable target actual → Fit Γ es targets →
      Fit Γ (e :: es) (target :: targets)

end

/-- The type of a new variable: the one that is named, which must fit the value if
there is one, or else that of the value. -/
inductive Declares (Γ : Env) : Option String → Option Expr → Ty → Prop where
  | both {typeName : String} {e : Expr} {ty actual : Ty} :
    Ty.ofName? typeName = some ty → N.named ty → HasType N Φ Γ e actual →
      Assignable ty actual → Declares Γ (some typeName) (some e) ty
  | named {typeName : String} {ty : Ty} :
    Ty.ofName? typeName = some ty → N.named ty → Declares Γ (some typeName) none ty
  | inferred {e : Expr} {ty : Ty} : HasType N Φ Γ e ty → Declares Γ none (some e) ty

/-- The variable that an assignment writes to, or whose list it writes to. -/
inductive Writes : Expr → String → Prop where
  | access {id : NodeId} {name : String} : Writes (.access id name) name
  | element {id : NodeId} {name : String} {offset : Expr} : Writes (.element id name offset) name

mutual

/-- A statement of a function that returns type `ret`: it takes the innermost frame
to the frame after it; `outer` are the other frames. -/
inductive Statement (ret : Ty) : (outer : Env) → Locals → Stmt → Locals → Prop where
  | expression {outer : Env} {frame : Locals} {id : NodeId} {name : String} {args : List Expr}
    {ty : Ty} :
    HasType N Φ (frame :: outer) (.call id name args) ty →
      Statement ret outer frame (.expression (.call id name args)) frame
  | declaration {outer : Env} {frame : Locals} {id : NodeId} {name : String}
    {typeName : Option String} {value : Option Expr} {ty : Ty} :
    Declares N Φ (frame :: outer) typeName value ty → frame.find? name = none →
      N.var id ⟨name, ty, true, ()⟩ →
        Statement ret outer frame (.declaration id name typeName value)
          (frame.insert name ⟨name, ty, true, ()⟩)
  | assignment {outer : Env} {frame : Locals} {receiver value : Expr} {name : String}
    {v : Variable Unit} {target actual : Ty} :
    Writes receiver name → HasType N Φ (frame :: outer) receiver target →
      Env.lookup (frame :: outer) name = some v → v.mutable = true →
        HasType N Φ (frame :: outer) value actual → Assignable target actual →
          Statement ret outer frame (.assignment receiver value) frame
  | ifElse {outer : Env} {frame thenFrame elseFrame : Locals} {condition : Expr}
    {thenBody elseBody : List Stmt} :
    HasType N Φ (frame :: outer) condition .boolean → thenBody ≠ [] →
      Block ret (frame :: outer) .empty thenBody thenFrame →
        Block ret (frame :: outer) .empty elseBody elseFrame →
          Statement ret outer frame (.ifElse condition thenBody elseBody) frame
  | switch {outer : Env} {frame : Locals} {condition : Expr} {arms : List Case} {ty : Ty} :
    HasType N Φ (frame :: outer) condition ty → Arms ret (frame :: outer) ty arms →
      Statement ret outer frame (.switch condition arms) frame
  | whileDo {outer : Env} {frame bodyFrame : Locals} {condition : Expr} {body : List Stmt} :
    HasType N Φ (frame :: outer) condition .boolean →
      Block ret (frame :: outer) .empty body bodyFrame →
        Statement ret outer frame (.whileDo condition body) frame
  | returnWith {outer : Env} {frame : Locals} {value : Expr} {actual : Ty} :
    HasType N Φ (frame :: outer) value actual → Assignable ret actual →
      Statement ret outer frame (.returnWith value) frame

/-- Statements one after the other. -/
inductive Block (ret : Ty) : (outer : Env) → Locals → List Stmt → Locals → Prop where
  | nil {outer : Env} {frame : Locals} : Block ret outer frame [] frame
  | cons {outer : Env} {before between after : Locals} {s : Stmt} {rest : List Stmt} :
    Statement ret outer before s between → Block ret outer between rest after →
      Block ret outer before (s :: rest) after

/-- The arms of a `SWITCH` over a value of type `ty`: an arm without a value is the
last one. -/
inductive Arms (ret : Ty) : Env → Ty → List Case → Prop where
  | nil {Γ : Env} {ty : Ty} : Arms ret Γ ty []
  | case {Γ : Env} {ty : Ty} {value : Expr} {body : List Stmt} {frame : Locals}
    {rest : List Case} :
    HasType N Φ Γ value ty → Block ret Γ .empty body frame → Arms ret Γ ty rest →
      Arms ret Γ ty (.mk (some value) body :: rest)
  | default {Γ : Env} {ty : Ty} {body : List Stmt} {frame : Locals} :
    Block ret Γ .empty body frame → Arms ret Γ ty [.mk none body]

end

/-- A global: it takes the globals before it to those after it.  A list has the type
of its elements, and any type if none is named. -/
inductive Global : Locals → GlobalDecl → Locals → Prop where
  | plain {frame : Locals} {g : GlobalDecl} {ty : Ty} :
    (∀ id es, g.value ≠ some (.list id es)) → Declares N Φ [frame] g.typeName g.value ty →
      frame.find? g.name = none → N.var g.id ⟨g.name, ty, g.mutable, ()⟩ →
        Global frame g (frame.insert g.name ⟨g.name, ty, g.mutable, ()⟩)
  | list {frame : Locals} {g : GlobalDecl} {id : NodeId} {es : List Expr} {ty : Ty} :
    g.value = some (.list id es) → g.typeName.elim (some .any) Ty.ofName? = some ty → N.named ty →
      Fit N Φ [frame] es (List.replicate es.length ty) → N.type id ty →
        frame.find? g.name = none → N.var g.id ⟨g.name, ty, g.mutable, ()⟩ →
          Global frame g (frame.insert g.name ⟨g.name, ty, g.mutable, ()⟩)

/-- The globals of a program, in order. -/
inductive Globals : Locals → List GlobalDecl → Locals → Prop where
  | nil {frame : Locals} : Globals frame [] frame
  | cons {before between after : Locals} {g : GlobalDecl} {rest : List GlobalDecl} :
    Global N Φ before g between → Globals between rest after → Globals before (g :: rest) after

/-- The frame of parameters, names paired with types from the front, on top of those
already there. -/
inductive Parameters : Locals → List String → List Ty → Locals → Prop where
  | noName {frame : Locals} {tys : List Ty} : Parameters frame [] tys frame
  | noType {frame : Locals} {names : List String} : Parameters frame names [] frame
  | cons {frame after : Locals} {name : String} {names : List String} {ty : Ty} {tys : List Ty} :
    frame.find? name = none → Parameters (frame.insert name ⟨name, ty, true, ()⟩) names tys after →
      Parameters frame (name :: names) (ty :: tys) after

/-- What a function's type names say about it. -/
def Signature (f : FunctionDecl) (r : Routine Unit) : Prop :=
  ∃ tys ty, List.Forall₂ (fun name ty => Ty.ofName? name = some ty) f.parameterTypeNames tys ∧
    (f.returnTypeName.elim (some .nil) Ty.ofName?) = some ty ∧ r = .named f.name tys ty ()

/-- The body of a function with signature `r`, below the globals. -/
def Body (globals : Locals) (f : FunctionDecl) (r : Routine Unit) : Prop :=
  ∃ frame after, Parameters .empty f.parameters r.parameterTypes frame ∧
    Block N Φ r.returnType [globals] frame f.body after

/-- The functions that are there before the program. -/
def builtins : Signatures := Table.empty.insert ("print", 1) (.print ())

end Typing

open Typing in
/-- The functions of a program, in order: the body of a function may call the functions
before it and itself. -/
inductive Typing.Functions (N : Notes) (globals : Locals) :
    Signatures → List FunctionDecl → Signatures → Prop where
  | nil {Φ : Signatures} : Functions N globals Φ [] Φ
  | cons {Φ Φ' : Signatures} {f : FunctionDecl} {r : Routine Unit} {rest : List FunctionDecl} :
    Signature f r → (∀ ty ∈ r.returnType :: r.parameterTypes, N.named ty) →
      Φ.find? (r.name, r.arity) = none → Body N (Φ.insert (r.name, r.arity) r) globals f r →
        Functions N globals (Φ.insert (r.name, r.arity) r) rest Φ' →
          Functions N globals Φ (f :: rest) Φ'

open Typing in
/-- A well-typed program, whose globals are `frame` and whose functions are `Φ`. -/
structure WellTyped (N : Notes) (p : Source) (frame : Locals) (Φ : Signatures) : Prop where
  globals : Globals N builtins .empty p.globals frame
  functions : Functions N frame builtins p.functions Φ
  main : ∃ r, Φ.find? ("main", 0) = some r ∧ r.returnType = .integer

/-! ### More names

A derivation stays one when more functions are known, and when the environment
is exchanged for one in which its names mean the same. -/

/-- What a table has, the other has too. -/
def Table.Within {κ α : Type} [DecidableEq κ] (t t' : Table κ α) : Prop :=
  ∀ k a, t.find? k = some a → t'.find? k = some a

namespace Table.Within

variable {κ α : Type} [DecidableEq κ] {t t' t'' : Table κ α}

theorem refl (t : Table κ α) : t.Within t := fun _ _ h => h

theorem trans (h : t.Within t') (h' : t'.Within t'') : t.Within t'' := fun k a hk =>
  h' k a (h k a hk)

theorem insert {k : κ} (a : α) (h : t.find? k = none) : t.Within (t.insert k a) := by
  intro k' a' hk'
  rw [find?_insert, if_neg]
  · exact hk'
  · rintro rfl
    rw [h] at hk'
    cases hk'

end Table.Within

namespace Typing

variable {N : Notes} {Φ Φ' : Signatures} {Γ Γ' : Env}

mutual

/-- An expression keeps its type with more functions, and with more names in scope. -/
theorem HasType.mono (hΦ : Φ.Within Φ') (hΓ : ∀ x v, Γ.lookup x = some v → Γ'.lookup x = some v)
    {e : Expr} {ty : Ty} : HasType N Φ Γ e ty → HasType N Φ' Γ' e ty
  | .literal h hn => .literal h hn
  | .group hb h hn => .group hb (h.mono hΦ hΓ) hn
  | .binary hl hr ho hn => .binary (hl.mono hΦ hΓ) (hr.mono hΦ hΓ) ho hn
  | .access h hn => .access (hΓ _ _ h) hn
  | .element ho h hn => .element (ho.mono hΦ hΓ) (hΓ _ _ h) hn
  | .call h hargs hn => .call (hΦ _ _ h) (hargs.mono hΦ hΓ) hn
  | .list hl hes hn => .list hl (hes.mono hΦ hΓ) hn

/-- Arguments fit with more functions, and with more names in scope. -/
theorem Fit.mono (hΦ : Φ.Within Φ') (hΓ : ∀ x v, Γ.lookup x = some v → Γ'.lookup x = some v)
    {es : List Expr} {tys : List Ty} : Fit N Φ Γ es tys → Fit N Φ' Γ' es tys
  | .nil => .nil
  | .cons h ha hrest => .cons (h.mono hΦ hΓ) ha (hrest.mono hΦ hΓ)

end

/-- An empty frame declares nothing. -/
theorem HasType.inner {e : Expr} {ty : Ty} (h : HasType N Φ Γ e ty) :
    HasType N Φ (.empty :: Γ) e ty := by
  have hΓ : ∀ x v, Γ.lookup x = some v → Env.lookup (.empty :: Γ) x = some v := fun _ _ hx => hx
  exact h.mono (Table.Within.refl Φ) hΓ

theorem HasType.moreFunctions (hΦ : Φ.Within Φ') {e : Expr} {ty : Ty} (h : HasType N Φ Γ e ty) :
    HasType N Φ' Γ e ty := h.mono hΦ fun _ _ hx => hx

theorem Declares.moreFunctions (hΦ : Φ.Within Φ') {typeName : Option String} {value : Option Expr}
    {ty : Ty} (h : Declares N Φ Γ typeName value ty) : Declares N Φ' Γ typeName value ty := by
  cases h with
  | both hn hw he ha => exact .both hn hw (he.moreFunctions hΦ) ha
  | named hn hw => exact .named hn hw
  | inferred he => exact .inferred (he.moreFunctions hΦ)

mutual

/-- A statement is well typed with more functions. -/
theorem Statement.moreFunctions (hΦ : Φ.Within Φ') {ret : Ty} {outer : Env}
    {before after : Locals} {s : Stmt} :
    Statement N Φ ret outer before s after → Statement N Φ' ret outer before s after
  | .expression h => .expression (h.moreFunctions hΦ)
  | .declaration h hf hn => .declaration (h.moreFunctions hΦ) hf hn
  | .assignment hw hr hl hm hv ha =>
    .assignment hw (hr.moreFunctions hΦ) hl hm (hv.moreFunctions hΦ) ha
  | .ifElse hc hne ht he =>
    .ifElse (hc.moreFunctions hΦ) hne (ht.moreFunctions hΦ) (he.moreFunctions hΦ)
  | .switch hc ha => .switch (hc.moreFunctions hΦ) (ha.moreFunctions hΦ)
  | .whileDo hc hb => .whileDo (hc.moreFunctions hΦ) (hb.moreFunctions hΦ)
  | .returnWith hv ha => .returnWith (hv.moreFunctions hΦ) ha

/-- A block is well typed with more functions. -/
theorem Block.moreFunctions (hΦ : Φ.Within Φ') {ret : Ty} {outer : Env} {before after : Locals}
    {body : List Stmt} :
    Block N Φ ret outer before body after → Block N Φ' ret outer before body after
  | .nil => .nil
  | .cons hs hrest => .cons (hs.moreFunctions hΦ) (hrest.moreFunctions hΦ)

/-- Arms are well typed with more functions. -/
theorem Arms.moreFunctions (hΦ : Φ.Within Φ') {ret ty : Ty} {Γ : Env} {arms : List Case} :
    Arms N Φ ret Γ ty arms → Arms N Φ' ret Γ ty arms
  | .nil => .nil
  | .case hv hb hrest =>
    .case (hv.moreFunctions hΦ) (hb.moreFunctions hΦ) (hrest.moreFunctions hΦ)
  | .default hb => .default (hb.moreFunctions hΦ)

end

end Typing
end Scriptlet
