import Mathlib.Data.List.Induction
import Scriptlet.Proofs.Calm
import Scriptlet.Proofs.CallOrder
import Scriptlet.Proofs.NameSound

/-!
# Runs that end

A program without `WHILE`, without list literals and without functions that call themselves
ends.  Calls are looked up while the program runs, among all of its functions; but a call is
of a function that stands before the caller (`Source.calls_of_check`), and the root keeps the
functions it has while bodies run (`Calm`).  So the fuel that a body needs is its size and the
fuel that the functions before it need (`exists_callsEnd`).  Each part is given the fuel of its
own size, which `Walk`, where all parts have the same fuel, cannot say.
-/

namespace Scriptlet

/-- Whether an expression is a list literal. -/
def Expr.isList : Expr → Bool
  | .list _ _ => true
  | _ => false

mutual

/-- Whether a statement has no `WHILE` in it. -/
def Stmt.loopFree : Stmt → Bool
  | .ifElse _ thenBody elseBody => Stmt.loopFreeList thenBody && Stmt.loopFreeList elseBody
  | .switch _ arms => Case.loopFreeList arms
  | .whileDo _ _ => false
  | .expression _ | .declaration _ _ _ _ | .assignment _ _ | .returnWith _ => true

/-- Whether statements have no `WHILE` in them. -/
def Stmt.loopFreeList : List Stmt → Bool
  | [] => true
  | s :: rest => s.loopFree && Stmt.loopFreeList rest

/-- Whether the arms of a `SWITCH` have no `WHILE` in them. -/
def Case.loopFreeList : List Case → Bool
  | [] => true
  | .mk _ body :: rest => Stmt.loopFreeList body && Case.loopFreeList rest

end

/-- Whether a program has no `WHILE` in it. -/
def Source.loopFree (p : Source) : Bool := p.functions.all fun f => Stmt.loopFreeList f.body

/-! ### Parts of programs -/

/-- Expressions whose calls are of certain functions and that make no list. -/
structure Tame (K : String × Nat → Prop) (es : List Expr) : Prop where
  calls : CallsWithin K es
  lists : ∀ e ∈ es, e.isList = false

/-- The functions of `K` end if they are called with at least `n` fuel. -/
def CallsEnd (F : FunctionTable) (K : String × Nat → Prop) (n : Nat) : Prop :=
  ∀ key r, K key → F.find? key = some r → ∀ fuel, n ≤ fuel → ∀ arguments,
    Terminates F (Eval.call fuel r arguments)

/-- Two lists of expressions are tame if both are. -/
theorem Tame.append_iff {K : String × Nat → Prop} {es es' : List Expr} :
    Tame K (es ++ es') ↔ Tame K es ∧ Tame K es' := by
  constructor
  · rintro ⟨hcalls, hlists⟩
    have hcalls := List.forall_mem_append.1 hcalls
    have hlists := List.forall_mem_append.1 hlists
    exact ⟨⟨hcalls.1, hlists.1⟩, ⟨hcalls.2, hlists.2⟩⟩
  · rintro ⟨h, h'⟩
    exact ⟨h.calls.append h'.calls, List.forall_mem_append.2 ⟨h.lists, h'.lists⟩⟩

/-- Every expression takes some fuel. -/
theorem Expr.sizeOf_pos (e : Expr) : 0 < sizeOf e := by
  cases e <;> simp only [literal.sizeOf_spec, group.sizeOf_spec, binary.sizeOf_spec,
    access.sizeOf_spec, element.sizeOf_spec, call.sizeOf_spec, list.sizeOf_spec] <;> omega

/-- With some fuel, every part of a program ends that is smaller than the fuel, less what the
functions need that it calls. -/
structure EndsAt (F : FunctionTable) (K : String × Nat → Prop) (n fuel : Nat) : Prop where
  expression : ∀ e, Tame K e.parts → sizeOf e + n ≤ fuel → Terminates F (Eval.expression fuel e)
  expressions : ∀ es, Tame K (Expr.partsOfList es) → sizeOf es + n ≤ fuel →
    Terminates F (Eval.expressions fuel es)
  binary : ∀ op left right, Tame K left.parts → Tame K right.parts →
    sizeOf left + sizeOf right + n ≤ fuel → Terminates F (Eval.binary fuel op left right)
  statement : ∀ s, Tame K s.parts → s.loopFree = true → sizeOf s + n ≤ fuel →
    Terminates F (Eval.statement fuel s)
  assignment : ∀ receiver value, Tame K receiver.parts → Tame K value.parts →
    sizeOf receiver + sizeOf value + n ≤ fuel → Terminates F (Eval.assignment fuel receiver value)
  block : ∀ body, Tame K (Stmt.partsOfList body) → Stmt.loopFreeList body = true →
    sizeOf body + n ≤ fuel → Terminates F (Eval.block fuel body)
  cases : ∀ condition arms, Tame K (Case.partsOfList arms) → Case.loopFreeList arms = true →
    sizeOf arms + n ≤ fuel → Terminates F (Eval.cases fuel condition arms)

namespace EndsAt

variable {F : FunctionTable} {K : String × Nat → Prop} {n fuel : Nat}

/-- A condition ends, and then what comes after it. -/
theorem condition (ih : EndsAt F K n fuel) {α : Type} {e : Expr} {next : Bool → Eval α}
    (he : Tame K e.parts) (hfuel : sizeOf e + n ≤ fuel) (h : ∀ b, Terminates F (next b)) :
    Terminates F (do next (← Eval.requireBoolean (← Eval.expression fuel e))) :=
  (ih.expression e he hfuel).bind fun o => (Terminates.requireBoolean o).bind h

/-- An expression ends: a call is of a function that ends. -/
theorem expression_succ (hK : CallsEnd F K n) (ih : EndsAt F K n fuel) (e : Expr)
    (he : Tame K e.parts) (hfuel : sizeOf e + n ≤ fuel + 1) :
    Terminates F (Eval.expression (fuel + 1) e) := by
  cases e with
  | literal id value => exact .pure _
  | group id inner =>
    simp only [Expr.group.sizeOf_spec] at hfuel
    exact ih.expression inner (Tame.append_iff.1 he).1 (by omega)
  | binary id op left right =>
    obtain ⟨hleft, he⟩ := Tame.append_iff.1 he
    simp only [Expr.binary.sizeOf_spec] at hfuel
    exact ih.binary op left right hleft (Tame.append_iff.1 he).1 (by omega)
  | access id name => exact (Terminates.lookupVariable name).bind fun _ => .pure _
  | element id name offset =>
    simp only [Expr.element.sizeOf_spec] at hfuel
    refine (ih.expression offset (Tame.append_iff.1 he).1 (by omega)).bind fun o => ?_
    exact (Terminates.requireInteger o).bind fun index => .readElement name index
  | call id name args =>
    obtain ⟨hargs, hcall⟩ := Tame.append_iff.1 he
    have hkey : K (name, args.length) := hcall.calls _ (List.mem_singleton_self _) _ rfl
    simp only [Expr.call.sizeOf_spec] at hfuel
    refine .lookupFunction fun r hr => (ih.expressions args hargs (by omega)).bind fun os => ?_
    exact hK _ r hkey hr fuel (by omega) os
  | list id es =>
    have hlist := he.lists _ (Expr.mem_parts_self _)
    cases hlist

/-- Expressions end, one after the other. -/
theorem expressions_succ (ih : EndsAt F K n fuel) (es : List Expr)
    (hes : Tame K (Expr.partsOfList es)) (hfuel : sizeOf es + n ≤ fuel + 1) :
    Terminates F (Eval.expressions (fuel + 1) es) := by
  cases es with
  | nil => exact .pure _
  | cons e es =>
    obtain ⟨he, hes⟩ := Tame.append_iff.1 hes
    have hpos := e.sizeOf_pos
    simp only [List.cons.sizeOf_spec] at hfuel
    exact (ih.expression e he (by omega)).bind fun _ =>
      (ih.expressions es hes (by omega)).bind fun _ => .pure _

/-- An operation ends, whether or not its second operand is evaluated. -/
theorem binary_succ (ih : EndsAt F K n fuel) (op : BinaryOp) (left right : Expr)
    (hleft : Tame K left.parts) (hright : Tame K right.parts)
    (hfuel : sizeOf left + sizeOf right + n ≤ fuel + 1) :
    Terminates F (Eval.binary (fuel + 1) op left right) := by
  have hpos := left.sizeOf_pos
  have hpos' := right.sizeOf_pos
  have hfirst : sizeOf left + n ≤ fuel := by omega
  have hsecond : sizeOf right + n ≤ fuel := by omega
  have hresult : Terminates F (do
      return Object.boolean (← Eval.requireBoolean (← Eval.expression fuel right))) :=
    ih.condition hright hsecond fun _ => .pure _
  cases op with
  | and => exact ih.condition hleft hfirst fun _ => .ite hresult (.pure _)
  | or => exact ih.condition hleft hfirst fun _ => .ite (.pure _) hresult
  | less | greater | equal | notEqual | add | subtract | multiply | divide | power =>
    exact (ih.expression left hleft hfirst).bind fun _ =>
      (ih.expression right hright hsecond).bind fun _ => .apply _ _ _

/-- A statement ends, for it is no loop. -/
theorem statement_succ (ih : EndsAt F K n fuel) (s : Stmt) (hs : Tame K s.parts)
    (hloops : s.loopFree = true) (hfuel : sizeOf s + n ≤ fuel + 1) :
    Terminates F (Eval.statement (fuel + 1) s) := by
  cases s with
  | expression e =>
    simp only [Stmt.expression.sizeOf_spec] at hfuel
    exact (ih.expression e hs (by omega)).bind fun _ => .pure _
  | declaration id name typeName value =>
    have hdeclare : ∀ o, Terminates F (do
        Eval.declare name typeName true o
        return Flow.next) := fun o =>
      (Terminates.declare name typeName true o).bind fun _ => .pure _
    cases value with
    | none => exact hdeclare .nil
    | some e =>
      simp only [Stmt.declaration.sizeOf_spec, Option.some.sizeOf_spec] at hfuel
      exact (ih.expression e hs (by omega)).bind hdeclare
  | assignment receiver value =>
    obtain ⟨hreceiver, hvalue⟩ := Tame.append_iff.1 hs
    simp only [Stmt.assignment.sizeOf_spec] at hfuel
    exact (ih.assignment receiver value hreceiver hvalue (by omega)).bind fun _ => .pure _
  | ifElse condition thenBody elseBody =>
    obtain ⟨hcondition, hs⟩ := Tame.append_iff.1 hs
    obtain ⟨hthen, helse⟩ := Tame.append_iff.1 hs
    obtain ⟨hthen', helse'⟩ := Bool.and_eq_true_iff.1 hloops
    simp only [Stmt.ifElse.sizeOf_spec] at hfuel
    exact ih.condition hcondition (by omega) fun _ =>
      .ite (ih.block thenBody hthen hthen' (by omega)).inScope
        (ih.block elseBody helse helse' (by omega)).inScope
  | switch condition arms =>
    obtain ⟨hcondition, harms⟩ := Tame.append_iff.1 hs
    simp only [Stmt.switch.sizeOf_spec] at hfuel
    exact (ih.expression condition hcondition (by omega)).bind fun o =>
      (ih.cases o arms harms hloops (by omega)).inScope
  | whileDo condition body => cases hloops
  | returnWith value =>
    simp only [Stmt.returnWith.sizeOf_spec] at hfuel
    exact (ih.expression value hs (by omega)).bind fun _ => .pure _

/-- An assignment ends. -/
theorem assignment_succ (ih : EndsAt F K n fuel) (receiver value : Expr)
    (hreceiver : Tame K receiver.parts) (hvalue : Tame K value.parts)
    (hfuel : sizeOf receiver + sizeOf value + n ≤ fuel + 1) :
    Terminates F (Eval.assignment (fuel + 1) receiver value) := by
  have hpos := receiver.sizeOf_pos
  have hpos' := value.sizeOf_pos
  have hsecond : sizeOf value + n ≤ fuel := by omega
  cases receiver with
  | access id name =>
    exact (ih.expression value hvalue hsecond).bind fun o => .assignVariable name o
  | element id name offset =>
    simp only [Expr.element.sizeOf_spec] at hfuel
    refine (ih.expression offset (Tame.append_iff.1 hreceiver).1 (by omega)).bind fun o => ?_
    refine (Terminates.requireInteger o).bind fun index => ?_
    exact (ih.expression value hvalue hsecond).bind fun o => .writeElement name index o
  | literal | group | binary | call | list => exact .fail .invalidAssignmentTarget

/-- A block ends. -/
theorem block_succ (ih : EndsAt F K n fuel) (body : List Stmt)
    (hbody : Tame K (Stmt.partsOfList body)) (hloops : Stmt.loopFreeList body = true)
    (hfuel : sizeOf body + n ≤ fuel + 1) : Terminates F (Eval.block (fuel + 1) body) := by
  cases body with
  | nil => exact .pure _
  | cons first rest =>
    obtain ⟨hfirst, hrest⟩ := Tame.append_iff.1 hbody
    obtain ⟨hfirst', hrest'⟩ := Bool.and_eq_true_iff.1 hloops
    simp only [List.cons.sizeOf_spec] at hfuel
    refine (ih.statement first hfirst hfirst' (by omega)).bind fun flow => ?_
    cases flow with
    | next => exact ih.block rest hrest hrest' (by omega)
    | returned value => exact .pure _

/-- Arms end, whichever is taken. -/
theorem cases_succ (ih : EndsAt F K n fuel) (condition : Object) (arms : List Case)
    (harms : Tame K (Case.partsOfList arms)) (hloops : Case.loopFreeList arms = true)
    (hfuel : sizeOf arms + n ≤ fuel + 1) :
    Terminates F (Eval.cases (fuel + 1) condition arms) := by
  cases arms with
  | nil => exact .pure _
  | cons arm rest =>
    obtain ⟨value, body⟩ := arm
    obtain ⟨hvalue, harms⟩ := Tame.append_iff.1 harms
    obtain ⟨hbody, hrest⟩ := Tame.append_iff.1 harms
    obtain ⟨hbody', hrest'⟩ := Bool.and_eq_true_iff.1 hloops
    simp only [List.cons.sizeOf_spec, Case.mk.sizeOf_spec] at hfuel
    cases value with
    | none => exact ih.block body hbody hbody' (by omega)
    | some value =>
      simp only [Option.some.sizeOf_spec] at hfuel
      have hmatch : ∀ o, Terminates F (Eval.valuesMatch o condition) := fun o =>
        .of_silent fun m => .inl ⟨_, rfl⟩
      refine (ih.expression value hvalue (by omega)).bind fun o => (hmatch o).bind fun _ => ?_
      exact .ite (ih.block body hbody hbody' (by omega))
        (ih.cases condition rest hrest hrest' (by omega))

end EndsAt

/-- **Without loops, the fuel that a part needs is its size**, and what the functions need that
it calls. -/
theorem endsAt {F : FunctionTable} {K : String × Nat → Prop} {n : Nat} (hK : CallsEnd F K n)
    (fuel : Nat) : EndsAt F K n fuel := by
  induction fuel with
  | zero =>
    -- nothing is that small
    refine ⟨fun e _ h => ?_, fun es _ h => ?_, fun op left right _ _ h => ?_, fun s _ _ h => ?_,
      fun receiver value _ _ h => ?_, fun body _ _ h => ?_, fun condition arms _ _ h => ?_⟩
    · have := e.sizeOf_pos
      omega
    · cases es <;> simp at h
    · have := left.sizeOf_pos
      omega
    · cases s <;> simp at h
    · have := receiver.sizeOf_pos
      omega
    · cases body <;> simp at h
    · cases arms <;> simp at h
  | succ fuel ih =>
    exact ⟨ih.expression_succ hK, ih.expressions_succ, ih.binary_succ, ih.statement_succ,
      ih.assignment_succ, ih.block_succ, ih.cases_succ⟩

/-! ### Functions, in their order -/

/-- The root has `print`, and each function of a list under its key. -/
structure FunctionTable.Has (F : FunctionTable) (fs : List FunctionDecl) : Prop where
  print : F.find? ("print", 1) = some (.print .print)
  functions : ∀ f ∈ fs, ∃ r, F.find? f.key = some r ∧ r.body = .declared f Scopes.root

/-- A call ends if the body does; if the number of arguments is wrong, it fails at once. -/
theorem Terminates.call {F : FunctionTable} {fuel : Nat} {r : Routine Body}
    {arguments : List Object} (h : Terminates F (Eval.routine fuel r arguments)) :
    Terminates F (Eval.call (fuel + 1) r arguments) := by
  rw [Eval.call_succ]
  split
  · exact h
  · exact .fail _

/-- To print a line ends. -/
theorem Terminates.print {F : FunctionTable} {fuel : Nat} {r : Routine Body}
    (hr : r.body = .print) (arguments : List Object) :
    Terminates F (Eval.routine fuel r arguments) := by
  unfold Eval.routine
  rw [hr]
  exact (forM fun o _ => printLine o).bind fun _ => .pure _

/-- The body of a function runs in a new scope below the root. -/
theorem Terminates.declared {F : FunctionTable} {fuel : Nat} {r : Routine Body} {f : FunctionDecl}
    (hr : r.body = .declared f Scopes.root) (hbody : Terminates F (Eval.block fuel f.body))
    (arguments : List Object) : Terminates F (Eval.routine fuel r arguments) := by
  unfold Eval.routine
  rw [hr]
  intro m hm
  refine inScopeOf ?_ hm hm.lexical.wellFormed.depth_pos
  exact (bindParameters _ _ _).bind fun _ => hbody.bind fun _ => .pure _

/-- Before any function is declared there is `print` alone. -/
theorem callsEnd_print {F : FunctionTable} {fs : List FunctionDecl} (hF : F.Has fs) :
    CallsEnd F (· ∈ keysAfter []) 1 := by
  intro key r hkey hr fuel hfuel arguments
  obtain rfl := List.mem_singleton.1 hkey
  obtain rfl := Option.some.inj (hr.symm.trans hF.print)
  obtain ⟨k, rfl⟩ : ∃ k, fuel = k + 1 := ⟨fuel - 1, by omega⟩
  exact .call (.print rfl arguments)

/-- **Functions end that call only those before them.**  The induction is on how many of them
are known to end; the next one then needs its own size more. -/
theorem exists_callsEnd {fs : List FunctionDecl}
    (htame : ∀ before f rest, fs = before ++ f :: rest → Tame (· ∈ keysAfter before) f.parts)
    (hloops : ∀ f ∈ fs, Stmt.loopFreeList f.body = true) (before rest : List FunctionDecl)
    (hfs : fs = before ++ rest) :
    ∃ n, ∀ F : FunctionTable, F.Has fs → CallsEnd F (· ∈ keysAfter before) n := by
  induction before using List.reverseRecOn generalizing rest with
  | nil => exact ⟨1, fun F hF => callsEnd_print hF⟩
  | append_singleton before f ih =>
    rw [List.append_assoc, List.singleton_append] at hfs
    obtain ⟨n, hn⟩ := ih (f :: rest) hfs
    have hmem : f ∈ fs := by simp [hfs]
    refine ⟨sizeOf f.body + n + 1, fun F hF key r hkey hr fuel hfuel arguments => ?_⟩
    have hcase : key ∈ keysAfter before ∨ key = f.key := by
      simpa [keysAfter, or_assoc] using hkey
    rcases hcase with hold | rfl
    · exact hn F hF key r hold hr fuel (by omega) arguments
    · obtain ⟨r', hr', hdeclared⟩ := hF.functions f hmem
      obtain rfl := Option.some.inj (hr.symm.trans hr')
      obtain ⟨k, rfl⟩ : ∃ k, fuel = k + 1 := ⟨fuel - 1, by omega⟩
      have hbody : Terminates F (Eval.block k f.body) :=
        (endsAt (hn F hF) k).block f.body (htame before f rest hfs) (hloops f hmem) (by omega)
      exact .call (.declared hdeclared hbody arguments)

/-! ### Programs -/

/-- A step finishes and leaves no list behind. -/
structure Quiet {α : Type} (x : Eval α) (m : Machine) : Prop where
  finished : Finished (x m)
  heap : (after x m).heap = .empty

/-- A step that ends in calm states is quiet. -/
theorem Terminates.quiet {F : FunctionTable} {α : Type} {x : Eval α} (hx : Terminates F x)
    {m : Machine} (hm : Calm F m) : Quiet x m :=
  have ⟨hfinished, hcalm, _⟩ := hx m hm
  ⟨hfinished, hcalm.heap⟩

/-- One quiet step after the other. -/
theorem Quiet.bind {α β : Type} {x : Eval α} {f : α → Eval β} {m : Machine} (hx : Quiet x m)
    (hf : ∀ a m', x m = .ok a m' → Quiet (f a) m') : Quiet (x >>= f) m := by
  cases hxm : x m with
  | ok a m' =>
    obtain ⟨hfinished, hheap⟩ := hf a m' hxm
    exact ⟨by rwa [bind_eq hxm], by rwa [after_bind_ok hxm]⟩
  | error e m' =>
    refine ⟨fun m₁ h => ?_, ?_⟩
    · cases (bind_eq_error hxm f).symm.trans h
      exact hx.finished m' hxm
    · rw [after_bind_error hxm, ← after_eq_of_error hxm]
      exact hx.heap

/-- The functions before a run. -/
def FunctionTable.start : FunctionTable := Table.insert .empty ("print", 1) (.print .print)

/-- At first the root has the builtin functions and none of a program. -/
theorem FunctionTable.has_start : FunctionTable.start.Has [] :=
  ⟨by rw [FunctionTable.start, Table.find?_insert, if_pos rfl], nofun⟩

/-- At first the state is calm. -/
theorem Calm.start (limit : Option Nat) : Calm .start (.start limit) := ⟨.start limit, rfl, rfl⟩

/-- A new function is defined in the root, or its key is taken. -/
theorem function_cases {F : FunctionTable} {m : Machine} (hm : Calm F m)
    (hroot : m.scopes.current = Scopes.root) {f : FunctionDecl} {r : Routine Unit}
    (hr : Typing.Signature f r) :
    (∃ e, Eval.function f m = .error (.error e) m) ∨
      F.find? f.key = none ∧ ∃ m', Eval.function f m = .ok () m' ∧
        m'.scopes.current = Scopes.root ∧
          Calm (F.insert f.key { r with body := .declared f Scopes.root }) m' := by
  obtain ⟨scope, hscope, rfl⟩ := Option.map_eq_some_iff.1 hm.functions
  rw [Setting.function_eq hr, hroot, Eval.defineFunction]
  cases hdefine : m.scopes.defineFunction { r with body := .declared f Scopes.root } with
  | error e => exact .inl ⟨_, rfl⟩
  | ok s =>
    have hlexical := hm.lexical.defineFunction hroot
      (fun decl closure hbody => (by cases hbody; rfl)) hdefine
    have hkey := hr.key
    rw [Scopes.defineFunction, hroot, hscope] at hdefine
    split at hdefine
    · cases hdefine
    rename_i hfree
    obtain rfl := Except.ok.inj hdefine
    refine .inr ⟨?_, _, rfl, hroot, hlexical, ?_, hm.heap⟩
    · simpa [Table.contains, ← hkey, Routine.arity] using hfree
    · simp [Scopes.modify, hscope, Scope.addFunction, ← hkey]
      rfl

/-- Functions are defined in the root, one after the other, or a name is taken. -/
theorem functions_quiet {fs : List FunctionDecl} (hsignatures : ∀ f ∈ fs, ∃ r, Typing.Signature f r)
    {F : FunctionTable} {before : List FunctionDecl} (hF : F.Has before) {m : Machine}
    (hm : Calm F m) (hroot : m.scopes.current = Scopes.root) :
    Quiet (fs.forM Eval.function) m ∧ ∀ u m', fs.forM Eval.function m = .ok u m' →
      ∃ F', Calm F' m' ∧ F'.Has (before ++ fs) := by
  induction fs generalizing F before m with
  | nil =>
    refine ⟨⟨nofun, hm.heap⟩, fun u m' h => ?_⟩
    cases h
    exact ⟨F, hm, by rwa [List.append_nil]⟩
  | cons f fs ih =>
    obtain ⟨⟨r, hr⟩, hrest⟩ := List.forall_mem_cons.1 hsignatures
    have hcons : (f :: fs).forM Eval.function =
        (Eval.function f >>= fun _ => fs.forM Eval.function) := rfl
    rw [hcons]
    rcases function_cases hm hroot hr with ⟨e, hfail⟩ | ⟨hnew, m₁, hok, hroot₁, hm₁⟩
    · rw [bind_eq_error hfail]
      refine ⟨⟨?_, ?_⟩, nofun⟩
      · rw [bind_eq_error hfail]
        exact nofun
      · rw [after_bind_error hfail]
        exact hm.heap
    · have hhas : FunctionTable.Has (F.insert f.key { r with body := .declared f Scopes.root })
          (before ++ [f]) := by
        have hwithin := Table.Within.insert { r with body := Body.declared f Scopes.root } hnew
        refine ⟨hwithin _ _ hF.print, fun g hg => ?_⟩
        rcases List.mem_append.1 hg with hg | hg
        · obtain ⟨r', hr', hbody⟩ := hF.functions g hg
          exact ⟨r', hwithin _ _ hr', hbody⟩
        · obtain rfl := List.mem_singleton.1 hg
          exact ⟨_, by rw [Table.find?_insert, if_pos rfl], rfl⟩
      obtain ⟨hquiet, hdefined⟩ := ih hrest hhas hm₁ hroot₁
      rw [List.append_assoc, List.singleton_append] at hdefined
      rw [bind_eq hok]
      exact ⟨⟨by rw [bind_eq hok]; exact hquiet.finished,
        by rw [after_bind_ok hok]; exact hquiet.heap⟩, hdefined⟩

/-- A function that does not call itself calls only `print` and functions before it. -/
theorem Source.calls_before {p : Source} {a : Annotations} (h : p.check = .ok a)
    (hself : ∀ f ∈ p.functions, f.callsItself = false) {before rest : List FunctionDecl}
    {f : FunctionDecl} (hfs : p.functions = before ++ f :: rest) :
    CallsWithin (· ∈ keysAfter before) f.parts := by
  have hmem : f ∈ p.functions := by simp [hfs]
  have hother : ∀ e ∈ f.parts, e.callee? ≠ some f.key := by
    simpa [FunctionDecl.callsItself] using hself f hmem
  refine ((Source.calls_of_check h).2 before f rest hfs).imp fun e he key hkey hcase => ?_
  have hne : key ≠ f.key := fun h => hother e he (h ▸ hkey)
  simpa [keysAfter, hne] using hcase

/-- A global evaluates its value, if there is one, and is defined. -/
theorem Terminates.global {F : FunctionTable} {K : String × Nat → Prop} {n fuel : Nat}
    (hK : CallsEnd F K n) {g : GlobalDecl} (htame : Tame K g.parts)
    (hfuel : sizeOf g + n ≤ fuel) : Terminates F (Eval.global fuel g) := by
  obtain ⟨id, name, typeName, mutable, value⟩ := g
  cases value with
  | none => exact .declare name typeName mutable .nil
  | some e =>
    simp only [GlobalDecl.mk.sizeOf_spec, Option.some.sizeOf_spec] at hfuel
    exact ((endsAt hK fuel).expression e htame (by omega)).bind fun o =>
      .declare name typeName mutable o

/-- A program whose calls go back in the order of its functions ends with enough fuel. -/
theorem exists_source_quiet {p : Source}
    (hsignatures : ∀ f ∈ p.functions, ∃ r, Typing.Signature f r)
    (hmain : ("main", 0) ∈ keysAfter p.functions)
    (hglobals : ∀ g ∈ p.globals, Tame (· ∈ keysAfter []) g.parts)
    (htame : ∀ before f rest, p.functions = before ++ f :: rest →
      Tame (· ∈ keysAfter before) f.parts)
    (hloops : p.loopFree = true) :
    ∃ bound, ∀ fuel, bound ≤ fuel → ∀ limit, Quiet (Eval.source fuel p) (.start limit) := by
  have hbodies : ∀ f ∈ p.functions, Stmt.loopFreeList f.body = true := by
    simpa [Source.loopFree] using hloops
  obtain ⟨n, hn⟩ := exists_callsEnd htame hbodies p.functions [] (List.append_nil _).symm
  refine ⟨sizeOf p.globals + n + 1, fun fuel hfuel limit => ?_⟩
  have hstart := Calm.start limit
  have hdeclared : Terminates .start (p.globals.forM (Eval.global fuel)) := by
    refine .forM fun g hg => .global (callsEnd_print FunctionTable.has_start) (hglobals g hg) ?_
    have hsize := List.sizeOf_lt_of_mem hg
    omega
  refine (hdeclared.quiet hstart).bind fun _ m₁ hm₁ => ?_
  obtain ⟨-, hcalm, hkept⟩ := hdeclared _ hstart
  rw [after_eq hm₁] at hcalm hkept
  obtain ⟨hquiet, hdefined⟩ :=
    functions_quiet hsignatures FunctionTable.has_start hcalm hkept.current
  refine hquiet.bind fun u m₂ hm₂ => ?_
  obtain ⟨F, hcalm₂, hF⟩ := hdefined u m₂ hm₂
  have hinvoke : Terminates F (Eval.invoke fuel "main" []) :=
    .lookupFunction fun r hr => hn F hF ("main", 0) r hmain hr fuel (by omega) []
  exact hinvoke.quiet hcalm₂

/-- **Accepted programs without loops and direct recursion end.**  In an accepted program a
function calls `print`, functions before it, or itself, so that no two functions call each
other.  If moreover there is no `WHILE` and no list literal, and no function calls itself, then
some amount of fuel gives an outcome, a value or an error of the program; every larger amount
gives the same one, whatever the limit of the output, and no list was made. -/
theorem run_ends_of_check {p : Source} {a : Annotations} (hcheck : p.check = .ok a) :
    (∀ before f rest, p.functions = before ++ f :: rest →
      CallsWithin (· ∈ keysAfter (before ++ [f])) f.parts) ∧
    (p.loopFree = true → (∀ e ∈ p.expressions, e.isList = false) →
      (∀ f ∈ p.functions, f.callsItself = false) →
        ∃ bound, ∀ limit, Finished (Eval.source bound p (.start limit)) ∧
          (∀ fuel, bound ≤ fuel →
            Eval.source fuel p (.start limit) = Eval.source bound p (.start limit)) ∧
          (after (Eval.source bound p) (.start limit)).heap = .empty) := by
  obtain ⟨hglobals, hcalls⟩ := Source.calls_of_check hcheck
  refine ⟨hcalls, fun hloops hlists hself => ?_⟩
  obtain ⟨hsignatures, hmain⟩ := Source.main_of_check hcheck
  obtain ⟨hlists, hlists'⟩ := List.forall_mem_append.1 hlists
  have hglobalsTame : ∀ g ∈ p.globals, Tame (· ∈ keysAfter []) g.parts := fun g hg =>
    ⟨hglobals g hg, fun e he => hlists e (List.mem_flatMap.2 ⟨g, hg, he⟩)⟩
  have htame : ∀ before f rest, p.functions = before ++ f :: rest →
      Tame (· ∈ keysAfter before) f.parts := fun before f rest hfs =>
    ⟨Source.calls_before hcheck hself hfs, fun e he =>
      hlists' e (List.mem_flatMap.2 ⟨f, by simp [hfs], he⟩)⟩
  obtain ⟨bound, hbound⟩ := exists_source_quiet hsignatures hmain hglobalsTame htame hloops
  refine ⟨bound, fun limit => ?_⟩
  have hquiet := hbound bound (Nat.le_refl bound) limit
  exact ⟨hquiet.finished, fun fuel hfuel => Eval.source_steady hfuel p _ hquiet.finished,
    hquiet.heap⟩

/-- Two functions of one name, of which the second calls the first, in its own arguments and in
a branch; `main` chooses between their values. -/
theorem run_ends_of_check_same_name :
    ∃ p next, Pipeline.sourceFrom 0 "FUN f(n: Integer): Integer DO print(n); RETURN n * 2; END
        FUN f(n: Integer, m: Integer): Integer DO
          IF n < m DO RETURN f(f(n)); END RETURN f(m); END
        FUN main(): Integer DO SWITCH f(1, 2) CASE 4: RETURN f(3); DEFAULT RETURN 0; END
          RETURN 1; END" = .ok (p, next) ∧
      (∃ a, p.check = .ok a) ∧ p.loopFree = true ∧ (∀ e ∈ p.expressions, e.isList = false) ∧
        (∀ f ∈ p.functions, f.callsItself = false) ∧
          ∃ bound, ∀ limit, Finished (Eval.source bound p (.start limit)) := by
  obtain ⟨⟨p, next⟩, hread, hgood⟩ := exists_ok_of_any
    (fun ⟨p, _⟩ => p.check.toOption.isSome && (p.loopFree &&
      (p.expressions.all (!·.isList) && p.functions.all (!·.callsItself))))
    (show (Pipeline.sourceFrom 0 "FUN f(n: Integer): Integer DO print(n); RETURN n * 2; END
        FUN f(n: Integer, m: Integer): Integer DO
          IF n < m DO RETURN f(f(n)); END RETURN f(m); END
        FUN main(): Integer DO SWITCH f(1, 2) CASE 4: RETURN f(3); DEFAULT RETURN 0; END
          RETURN 1; END").toOption.any _ = true by decide +kernel)
  simp only [Bool.and_eq_true, List.all_eq_true, Bool.not_eq_true'] at hgood
  obtain ⟨haccepted, hloops, hlists, hself⟩ := hgood
  obtain ⟨a, hcheck, -⟩ := exists_ok_of_any (fun _ => true)
    (show p.check.toOption.any _ = true by simpa [Option.any_true] using haccepted)
  obtain ⟨bound, hbound⟩ := (run_ends_of_check hcheck).2 hloops hlists hself
  exact ⟨p, next, hread, ⟨a, hcheck⟩, hloops, hlists, hself, bound, fun limit => (hbound limit).1⟩

end Scriptlet
