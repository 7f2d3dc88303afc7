import Scriptlet.Proofs.Parts
import Scriptlet.Proofs.Places
import Scriptlet.Proofs.ProgramTyped

/-!
# What a check leaves behind

A step of checking opens scopes and enters functions, and may fail in the midst of them.
Whatever its outcome, all that is left of it are definitions in the scope that is current, one
after the other (`Scopes.Gains`), and findings at the nodes of what was checked.  The scopes
that were open, their other definitions and the enclosing function are as before.

| step | definitions that it leaves |
| --- | --- |
| an expression, a statement that is no declaration | none |
| a declaration, a global | its variable |
| a function | the function, also if its body is refused |
| a program | those of its globals and functions up to the one that is refused |

`Check.Confined` says this of a step, and `Task`s are what the program that embeds the checker
can ask for, in any order.
-/

namespace Scriptlet

/-! ### Definitions in the current scope -/

/-- A definition: a variable or a function. -/
inductive Binding (α β : Type) where
  | var (v : Variable α)
  | function (r : Routine β)

/-- The name that is defined. -/
def Binding.name {α β : Type} : Binding α β → Name
  | var v => .var v.name
  | function r => .function r.name r.arity

namespace Scopes

variable {α β : Type} {s s₁ s' : Scopes α β} {bindings bindings' : List (Binding α β)}

/-- Adds a definition to the current scope, in which its name must not be defined. -/
def bind? (s : Scopes α β) : Binding α β → Except DefinitionError (Scopes α β)
  | .var v => s.defineVariable v
  | .function r => s.defineFunction r

/-- The second scopes are the first after some definitions in the current scope. -/
inductive Gains : List (Binding α β) → Scopes α β → Scopes α β → Prop where
  | nil {s : Scopes α β} : Gains [] s s
  | cons {b : Binding α β} {bindings : List (Binding α β)} {s s₁ s' : Scopes α β} :
    s.bind? b = .ok s₁ → Gains bindings s₁ s' → Gains (b :: bindings) s s'

/-- What one definition does: the scope at `current` gets the name, all else is as before. -/
theorem bind?_eq {b : Binding α β} (h : s.bind? b = .ok s') :
    ∃ f : Scope α β → Scope α β, s' = s.modify s.current f ∧
      ∀ scope name, (f scope).Defines name ↔ scope.Defines name ∨ b.name = name := by
  cases b with
  | var v =>
    rw [bind?, Scopes.defineVariable] at h
    split at h
    · cases h
    cases h
    refine ⟨(·.addVariable v), rfl, fun scope name => ?_⟩
    cases name with
    | var name =>
      simp only [Scope.Defines, Scope.addVariable, Kept.insert_isSome, Binding.name, Name.var.injEq]
      exact or_comm
    | function name arity => simp [Scope.Defines, Scope.addVariable, Binding.name]
  | function r =>
    rw [bind?, Scopes.defineFunction] at h
    split at h
    · cases h
    cases h
    refine ⟨(·.addFunction r), rfl, fun scope name => ?_⟩
    cases name with
    | var name => simp [Scope.Defines, Scope.addFunction, Binding.name]
    | function name arity =>
      simp only [Scope.Defines, Scope.addFunction, Kept.insert_isSome, Binding.name,
        Name.function.injEq, Prod.mk.injEq]
      exact or_comm

namespace Gains

/-- One definition in the current scope. -/
theorem one {b : Binding α β} (h : s.bind? b = .ok s') : Gains [b] s s' := .cons h .nil

/-- Definitions, and then more of them. -/
theorem trans (h : Gains bindings s s₁) (h' : Gains bindings' s₁ s') :
    Gains (bindings ++ bindings') s s' := by
  induction h with
  | nil => exact h'
  | cons hb _ ih => exact .cons hb (ih h')

/-- Gaining definitions keeps the scopes that were there. -/
theorem kept (h : Gains bindings s s') : Kept true s s' := by
  induction h with
  | nil => exact .refl _
  | @cons b _ _ _ _ hb _ ih =>
    cases b with
    | var v => exact (Kept.defineVariable hb).trans ih
    | function r => exact (Kept.defineFunction hb).trans ih

/-- Only the current scope changes. -/
theorem scopes_of_ne (h : Gains bindings s s') {i : ScopeId} (hi : i ≠ s.current) :
    s'.scopes[i]? = s.scopes[i]? := by
  induction h with
  | nil => rfl
  | cons hb _ ih =>
    obtain ⟨f, rfl, -⟩ := bind?_eq hb
    rw [ih hi, scopes_modify, if_neg (Ne.symm hi)]

/-- **Leaving a scope undoes entering it, whatever was defined there.** -/
theorem leave {parent : ScopeId} (h : Gains bindings (s.enter parent) s') :
    s'.leave s.frame = s := by
  refine (congrArg₂ Scopes.mk ?_ rfl : s'.leave s.frame = ⟨s.scopes, s.current⟩)
  refine List.ext_getElem? fun i => ?_
  rw [List.getElem?_take]
  split
  · rename_i hi
    rw [h.scopes_of_ne (Nat.ne_of_lt hi), Kept.scopes_enter s parent hi]
  · rename_i hi
    exact (List.getElem?_eq_none (Nat.not_lt.1 hi)).symm

/-- The names of the definitions are what the current scope gains. -/
theorem defines_iff (h : Gains bindings s s') (hopen : s.current < s.depth) (name : Name) :
    s'.Defines s.current name ↔
      s.Defines s.current name ∨ name ∈ bindings.map Binding.name := by
  induction h with
  | nil => simp
  | @cons b bindings s s₁ s' hb _ ih =>
    obtain ⟨f, rfl, hf⟩ := bind?_eq hb
    obtain ⟨scope, hscope⟩ : ∃ scope, s.scopes[s.current]? = some scope :=
      ⟨_, List.getElem?_eq_getElem hopen⟩
    have hdefines : (s.modify s.current f).Defines s.current name ↔
        s.Defines s.current name ∨ b.name = name := by
      simp [Defines, scopes_modify, hscope, hf]
    have hdepth : (s.modify s.current f).depth = s.depth := by simp [Scopes.modify, Scopes.depth]
    rw [List.map_cons, List.mem_cons, ← or_assoc, eq_comm (a := name), ← hdefines]
    exact ih (by rw [hdepth]; exact hopen)

/-- A variable that was there is still there. -/
theorem variableAt (h : Gains bindings s s') {i : ScopeId} {name : String} {v : Variable α}
    (hv : s.variableAt i name = some v) : s'.variableAt i name = some v := by
  induction h with
  | nil => exact hv
  | @cons b _ _ _ _ hb _ ih =>
    refine ih ?_
    cases b with
    | var v' => exact variableAt_of_defineVariable hb hv
    | function r => rw [variableAt_defineFunction hb]; exact hv

/-- A function that was there is still there. -/
theorem functionAt (h : Gains bindings s s') {i : ScopeId} {key : String × Nat} {r : Routine β}
    (hr : s.functionAt i key = some r) : s'.functionAt i key = some r := by
  induction h with
  | nil => exact hr
  | @cons b _ _ _ _ hb _ ih =>
    refine ih ?_
    cases b with
    | var v => rw [functionAt_defineVariable hb]; exact hr
    | function r' => exact functionAt_kept_of_defineFunction hb hr

end Gains
end Scopes

/-! ### Steps of checking -/

/-- From `s` to `s'` definitions came to the current scope and findings to the nodes `ids`. -/
structure Checker.Adds (ids : List NodeId) (bindings : List (Binding Unit Unit))
    (s s' : Checker) : Prop where
  scopes : s.scopes.Gains bindings s'.scopes
  returnType : s'.returnType = s.returnType
  annotations : Annotations.Touches ids s.annotations s'.annotations

namespace Checker.Adds

variable {s s₁ s' : Checker} {ids jds : List NodeId} {bindings bindings' : List (Binding Unit Unit)}

/-- Nothing is added. -/
theorem refl (ids : List NodeId) (s : Checker) : Adds ids [] s s := ⟨.nil, rfl, .refl ids _⟩

/-- One step adds to what the other has added. -/
theorem trans (h : Adds ids bindings s s₁) (h' : Adds jds bindings' s₁ s') :
    Adds (ids ++ jds) (bindings ++ bindings') s s' :=
  ⟨h.scopes.trans h'.scopes, h'.returnType.trans h.returnType, h.annotations.trans h'.annotations⟩

/-- Findings at some nodes are findings at more. -/
theorem mono (h : Adds ids bindings s s') (hsub : ids ⊆ jds) : Adds jds bindings s s' :=
  ⟨h.scopes, h.returnType, fun kds hkds => h.annotations kds fun _ hk hi => hkds hk (hsub hi)⟩

end Checker.Adds

namespace Check

variable {α β : Type} {ids jds : List NodeId} {names names' : List Name}

/-- **However the step ends, it leaves definitions with the first of the given names and
findings at the given nodes**; if it succeeds, it leaves definitions with all the names. -/
def Confined (x : Check α) (ids : List NodeId) (names : List Name) : Prop :=
  ∀ s, ∃ bindings, s.Adds ids bindings (after x s) ∧ bindings.map Binding.name <+: names ∧
    ∀ a s', x s = .ok a s' → bindings.map Binding.name = names

/-- The step changes nothing. -/
def Silent (x : Check α) : Prop := ∀ s, after x s = s

/-- A rule of typing looks at no state. -/
theorem rule_silent (r : Except CheckError α) : Silent (rule r) := by
  intro s
  cases r <;> rfl

/-- To look a variable up changes nothing. -/
theorem lookupVariable_silent (name : String) : Silent (lookupVariable name) := by
  intro s
  unfold after lookupVariable
  cases s.scopes.findVariable? name <;> rfl

/-- To look a function up changes nothing. -/
theorem lookupFunction_silent (name : String) (arity : Nat) :
    Silent (lookupFunction name arity) := by
  intro s
  unfold after lookupFunction
  cases s.scopes.findFunction? name arity <;> rfl

/-- To look for `main` changes nothing. -/
theorem requireMain_silent : Silent requireMain := by
  intro s
  unfold after requireMain
  cases s.scopes.findFunction? "main" 0 with
  | none => rfl
  | some r => by_cases hr : r.returnType = .integer <;> simp [hr]

namespace Confined

variable {x : Check α} {f : α → Check β}

/-- A step that changes nothing is confined to nothing. -/
theorem of_silent (h : Silent x) : Confined x ids [] := by
  intro s
  rw [h s]
  exact ⟨[], .refl ids s, List.nil_prefix, fun _ _ _ => rfl⟩

/-- A result changes nothing. -/
theorem pure (a : α) : Confined (pure a : Check α) ids [] := of_silent fun _ => rfl

/-- A failure changes nothing; it may have fewer definitions than a success. -/
theorem fail (e : CheckError) : Confined (fail e : Check α) ids names := fun s =>
  ⟨[], .refl ids s, List.nil_prefix, fun _ _ h => nomatch h⟩

/-- Nothing is done after a failure. -/
theorem failThen (e : CheckError) (f : α → Check β) :
    Confined (Check.fail e >>= f) ids names := fun s =>
  ⟨[], .refl ids s, List.nil_prefix, fun _ _ h => nomatch h⟩

/-- If the first step fails, its definitions are some of those that both together would leave. -/
theorem bind (hx : Confined x ids names) (hf : ∀ a, Confined (f a) jds names') :
    Confined (x >>= f) (ids ++ jds) (names ++ names') := by
  intro s
  obtain ⟨bindings, hadds, hprefix, hnames⟩ := hx s
  cases hxs : x s with
  | ok a s₁ =>
    rw [after_eq hxs] at hadds
    obtain ⟨bindings', hadds', hprefix', hnames'⟩ := hf a s₁
    rw [after_bind_ok hxs]
    refine ⟨bindings ++ bindings', hadds.trans hadds', ?_, fun b s' hb => ?_⟩
    · rw [List.map_append, hnames a s₁ hxs]
      exact (List.prefix_append_right_inj names).2 hprefix'
    · rw [bind_eq hxs] at hb
      rw [List.map_append, hnames a s₁ hxs, hnames' b s' hb]
  | error e s₁ =>
    rw [after_eq_of_error hxs] at hadds
    rw [after_bind_error hxs]
    refine ⟨bindings, hadds.mono (List.subset_append_left ..),
      hprefix.trans (List.prefix_append ..), fun b s' hb => ?_⟩
    rw [bind_eq_error hxs] at hb
    cases hb

/-- Findings at some nodes are findings at more. -/
theorem mono (h : Confined x ids names) (hsub : ids ⊆ jds) : Confined x jds names := by
  intro s
  obtain ⟨bindings, hadds, hnames⟩ := h s
  exact ⟨bindings, hadds.mono hsub, hnames⟩

/-- A step that defines nothing, and one after it. -/
theorem andThen (hx : Confined x ids []) (hf : ∀ a, Confined (f a) jds names) :
    Confined (x >>= f) (ids ++ jds) names := hx.bind hf

/-- Two steps at one node. -/
theorem again {id : NodeId} (hx : Confined x [id] names) (hf : ∀ a, Confined (f a) [id] []) :
    Confined (x >>= f) [id] names := by
  have hsub : [id] ++ [id] ⊆ [id] := by simp
  have h := (hx.bind hf).mono hsub
  rwa [List.append_nil] at h

/-- A step that changes nothing, and one after it. -/
theorem silently (hx : Silent x) (hf : ∀ a, Confined (f a) ids names) :
    Confined (x >>= f) ids names := by
  have hfirst : Confined x [] [] := of_silent hx
  exact hfirst.andThen hf

/-- A step, and one after it that changes nothing. -/
theorem thenSilent (hx : Confined x ids names) (hf : ∀ a, Silent (f a)) :
    Confined (x >>= f) ids names := by
  have hsecond : ∀ a, Confined (f a) [] [] := fun a => of_silent (hf a)
  have h := hx.bind hsecond
  rwa [List.append_nil, List.append_nil] at h

/-- Both branches are confined. -/
theorem ite {b : Prop} [Decidable b] {y : Check α} (hx : Confined x ids names)
    (hy : Confined y ids names) : Confined (if b then x else y) ids names := by
  split
  · exact hx
  · exact hy

/-- The result is changed, and not the state. -/
theorem map (f : α → β) (hx : Confined x ids names) : Confined (f <$> x) ids names :=
  hx.thenSilent fun _ _ => rfl

/-- A note is made at one node. -/
theorem record {f : Annotations → Annotations} {id : NodeId}
    (h : ∀ a, Annotations.Touches [id] a (f a)) : Confined (record f) [id] [] := fun s =>
  ⟨[], ⟨.nil, rfl, h s.annotations⟩, List.nil_prefix, fun _ _ _ => rfl⟩

/-- A type is noted at its node. -/
theorem typed (id : NodeId) (ty : Ty) : Confined (typed id ty) [id] [] :=
  (record fun a => .setType a id ty).thenSilent fun _ _ => rfl

/-- A variable is noted at the node that names it. -/
theorem bindVariable (id : NodeId) (v : Variable Unit) :
    Confined (Check.record (·.bindVariable id v)) [id] [] := record fun a => .bindVariable a id v

/-- A function is noted at the node that calls it. -/
theorem bindFunction (id : NodeId) (r : Routine Unit) :
    Confined (Check.record (·.bindFunction id r)) [id] [] := record fun a => .bindFunction a id r

/-- A variable is defined, or its name is taken. -/
theorem defineVariable (v : Variable Unit) :
    Confined (defineVariable v) [] [.var v.name] := by
  intro s
  unfold after Check.defineVariable
  cases hdefine : s.scopes.defineVariable v with
  | ok scopes =>
    exact ⟨[.var v], ⟨.one (b := .var v) hdefine, rfl, .refl [] _⟩, List.prefix_refl _,
      fun _ _ _ => rfl⟩
  | error e => exact ⟨[], .refl [] s, List.nil_prefix, fun _ _ h => nomatch h⟩

/-- A function is defined, or its name is taken. -/
theorem defineFunction (r : Routine Unit) :
    Confined (defineFunction r) [] [.function r.name r.arity] := by
  intro s
  unfold after Check.defineFunction
  cases hdefine : s.scopes.defineFunction r with
  | ok scopes =>
    exact ⟨[.function r], ⟨.one (b := .function r) hdefine, rfl, .refl [] _⟩, List.prefix_refl _,
      fun _ _ _ => rfl⟩
  | error e => exact ⟨[], .refl [] s, List.nil_prefix, fun _ _ h => nomatch h⟩

/-- **What is defined in a scope of its own is gone after it.** -/
theorem inScope (hx : Confined x ids names) : Confined (inScope x) ids [] := by
  intro s
  obtain ⟨bindings, hadds, -⟩ := hx { s with scopes := s.scopes.enter s.scopes.current }
  have hafter : after (Check.inScope x) s =
      { after x { s with scopes := s.scopes.enter s.scopes.current } with scopes := s.scopes } := by
    have hleave := hadds.scopes.leave
    unfold after Check.inScope at *
    cases hxs : x { s with scopes := s.scopes.enter s.scopes.current } with
    | ok a s' =>
      rw [hxs] at hleave
      simp only [hleave]
    | error e s' =>
      rw [hxs] at hleave
      simp only [hleave]
  rw [hafter]
  exact ⟨[], ⟨.nil, hadds.returnType, hadds.annotations⟩, List.nil_prefix, fun _ _ _ => rfl⟩

/-- The enclosing function is the one before. -/
theorem returning (ty : Ty) (hx : Confined x ids names) : Confined (returning ty x) ids names := by
  intro s
  obtain ⟨bindings, hadds, hprefix, hnames⟩ := hx { s with returnType := some ty }
  unfold after Check.returning at *
  cases hxs : x { s with returnType := some ty } with
  | ok a s' =>
    rw [hxs] at hadds
    exact ⟨bindings, ⟨hadds.scopes, rfl, hadds.annotations⟩, hprefix, fun _ _ _ => hnames a s' hxs⟩
  | error e s' =>
    rw [hxs] at hadds
    exact ⟨bindings, ⟨hadds.scopes, rfl, hadds.annotations⟩, hprefix, fun _ _ h => nomatch h⟩

/-- A step for each element of a list, up to the first that fails. -/
theorem forM {step : α → Check PUnit} {idsOf : α → List NodeId} {namesOf : α → List Name}
    (h : ∀ x, Confined (step x) (idsOf x) (namesOf x)) (xs : List α) :
    Confined (xs.forM step) (xs.flatMap idsOf) (xs.flatMap namesOf) := by
  induction xs with
  | nil => exact pure _
  | cons x xs ih =>
    rw [List.flatMap_cons, List.flatMap_cons]
    exact (h x).bind fun _ => ih

end Confined

/-! ### Expressions -/

/-- An access notes its variable and its type at its own node. -/
theorem variableType_confined (id : NodeId) (name : String) :
    Confined (variableType id name) [id] [] :=
  .silently (lookupVariable_silent name) fun v =>
    (Confined.bindVariable id v).again fun _ => .typed id v.ty

mutual

/-- An expression notes at its own nodes, and defines nothing. -/
theorem expression_confined : (e : Expr) → Confined (expression e) e.nodes []
  | .literal id value => by
    rw [expression]
    exact .silently (rule_silent _) fun ty => .typed id ty
  | .group id inner => by
    rw [expression]
    have hinner := (expression_confined inner).andThen fun ty => .typed id ty
    exact .ite hinner (.failThen _ _)
  | .binary id op left right => by
    rw [expression]
    exact (expression_confined left).andThen fun _ => (expression_confined right).andThen fun _ =>
      .silently (rule_silent _) fun ty => .typed id ty
  | .access id name => by
    rw [expression]
    exact variableType_confined id name
  | .element id name offset => by
    rw [expression]
    exact (expression_confined offset).andThen fun _ =>
      .ite (variableType_confined id name) (.failThen _ _)
  | .call id name args => by
    rw [expression]
    exact .silently (lookupFunction_silent _ _) fun r =>
      (arguments_confined args _).andThen fun _ =>
      (Confined.bindFunction id r).again fun _ => .typed id _
  | .list id es => by
    rw [expression]
    exact (elements_confined .any es).andThen fun _ => .typed id _

/-- Arguments note at their own nodes. -/
theorem arguments_confined : (es : List Expr) → (tys : List Ty) →
    Confined (arguments es tys) (Expr.nodesOfList es) []
  | e :: es, ty :: tys => by
    rw [arguments]
    exact (expression_confined e).andThen fun _ =>
      .silently (rule_silent _) fun _ => arguments_confined es tys
  | [], _ => by
    rw [arguments]
    · exact .pure _
    · nofun
  | _ :: _, [] => by
    rw [arguments]
    · exact .pure _
    · nofun

/-- Elements of a list note at their own nodes. -/
theorem elements_confined (ty : Ty) : (es : List Expr) →
    Confined (elements ty es) (Expr.nodesOfList es) []
  | [] => by
    rw [elements]
    exact .pure _
  | e :: es => by
    rw [elements]
    exact (expression_confined e).andThen fun _ =>
      .silently (rule_silent _) fun _ => elements_confined ty es

end

/-- A value that need not be there. -/
theorem expression?_confined (value : Option Expr) :
    Confined (expression? value) (Expr.nodesOfOption value) [] := by
  cases value with
  | none => exact .pure _
  | some e => exact (expression_confined e).map _

/-! ### Statements -/

/-- A declaration defines its variable and notes it at its node. -/
theorem declare_confined (id : NodeId) (v : Variable Unit) :
    Confined (declare id v) [id] [.var v.name] :=
  (Confined.defineVariable v).bind fun _ => .bindVariable id v

/-- A condition notes what its expression notes. -/
theorem condition_confined (statement : Conditional) (e : Expr) :
    Confined (condition statement e) e.nodes [] := by
  have hfound : ∀ found : Ty, Confined (if found = .boolean then pure ()
      else fail (.conditionType statement found)) [] [] := fun _ => .ite (.pure _) (.fail _)
  have h := (expression_confined e).andThen hfound
  rwa [List.append_nil] at h

/-- The receiver and the value note at their own nodes; in between the variable is looked up. -/
theorem assignTo_confined (name : String) (receiver value : Expr) :
    Confined (assignTo name receiver value) (receiver.nodes ++ value.nodes) [] :=
  (expression_confined receiver).andThen fun _ => .silently (lookupVariable_silent name) fun _ =>
    .ite ((expression_confined value).thenSilent fun _ => rule_silent _) (.failThen _ _)

/-- An assignment notes at the nodes of its two sides. -/
theorem assignment_confined (receiver value : Expr) :
    Confined (assignment receiver value) (receiver.nodes ++ value.nodes) [] := by
  unfold assignment
  split
  · exact assignTo_confined _ _ value
  · exact assignTo_confined _ _ value
  · exact .fail _

/-- A `RETURN` notes at the nodes of its value. -/
theorem returnValue_confined (value : Expr) : Confined (returnValue value) value.nodes [] := by
  intro s
  unfold after returnValue
  cases s.returnType with
  | none => exact Confined.fail .returnOutsideFunction s
  | some expected =>
    exact (expression_confined value).thenSilent (fun _ => rule_silent _) s

/-- The value of an arm notes at its nodes; `DEFAULT` has none. -/
theorem caseValue_confined (expected : Ty) (isLast : Bool) (value : Option Expr) :
    Confined (caseValue expected isLast value) (Expr.nodesOfOption value) [] := by
  cases value with
  | none => exact .ite (.pure _) (.fail _)
  | some e =>
    have hfound : ∀ found : Ty, Confined (if found = expected then pure ()
        else fail (.caseType expected found)) [] [] := fun _ => .ite (.pure _) (.fail _)
    have h := (expression_confined e).andThen hfound
    rwa [List.append_nil] at h

end Check

/-- The names that a statement defines in the scope it stands in. -/
def Stmt.binds : Stmt → List Name
  | .declaration _ name _ _ => [.var name]
  | _ => []

/-- The names that a global defines. -/
def GlobalDecl.binds (g : GlobalDecl) : List Name := [.var g.name]

/-- The names that a function defines. -/
def FunctionDecl.binds (f : FunctionDecl) : List Name :=
  [.function f.name f.parameterTypeNames.length]

/-- The names that a program defines: those of its globals, then those of its functions. -/
def Source.binds (p : Source) : List Name :=
  p.globals.flatMap GlobalDecl.binds ++ p.functions.flatMap FunctionDecl.binds

namespace Check

mutual

/-- Only a declaration leaves a definition; what other statements define is in scopes that are
closed. -/
theorem statement_confined : (s : Stmt) → Confined (statement s) s.nodes s.binds
  | .expression e => by
    unfold statement
    split
    · exact (expression_confined _).thenSilent fun _ _ => rfl
    · exact .fail _
  | .declaration id name typeName value => by
    rw [statement]
    exact .silently (rule_silent _) fun _ => (expression?_confined value).andThen fun _ =>
      .silently (rule_silent _) fun _ => declare_confined id _
  | .assignment receiver value => by
    rw [statement]
    exact assignment_confined receiver value
  | .ifElse e thenBody elseBody => by
    rw [statement]
    have hbodies := (block_confined thenBody).inScope.andThen fun _ =>
      (block_confined elseBody).inScope
    exact (condition_confined .ifElse e).andThen fun _ => .ite (.failThen _ _) hbodies
  | .switch e arms => by
    rw [statement]
    exact (expression_confined e).andThen fun ty => cases_confined ty arms
  | .whileDo e body => by
    rw [statement]
    exact (condition_confined .whileDo e).andThen fun _ => (block_confined body).inScope
  | .returnWith value => by
    rw [statement]
    exact returnValue_confined value

/-- A block leaves the declarations of its own statements, up to the one that is refused. -/
theorem block_confined : (body : List Stmt) →
    Confined (block body) (Stmt.nodesOfList body) (body.flatMap Stmt.binds)
  | [] => by
    rw [block]
    exact .pure _
  | first :: rest => by
    rw [block]
    exact (statement_confined first).bind fun _ => block_confined rest

/-- Each arm has a scope of its own, which is closed. -/
theorem cases_confined (expected : Ty) : (arms : List Case) →
    Confined (cases expected arms) (Case.nodesOfList arms) []
  | [] => by
    rw [cases]
    exact .pure _
  | .mk value body :: rest => by
    rw [cases]
    exact (caseValue_confined expected _ value).andThen fun _ =>
      (block_confined body).inScope.andThen fun _ => cases_confined expected rest

end

/-! ### Programs -/

/-- The value of a global notes at its nodes. -/
theorem globalValue_confined (declared : Option Ty) (value : Option Expr) :
    Confined (globalValue declared value) (Expr.nodesOfOption value) [] := by
  unfold globalValue
  split
  · exact (elements_confined _ _).andThen fun _ => (Confined.typed _ _).map _
  · exact expression?_confined value

/-- A global defines its variable. -/
theorem global_confined (g : GlobalDecl) : Confined (global g) g.nodes g.binds :=
  .silently (rule_silent _) fun declared => (globalValue_confined declared g.value).andThen fun _ =>
    .silently (rule_silent _) fun _ => declare_confined g.id _

/-- Parameters are defined one after the other. -/
theorem parameters_confined : (names : List String) → (tys : List Ty) →
    Confined (parameters names tys) [] ((names.zip tys).map fun p => .var p.1)
  | name :: names, ty :: tys =>
    (Confined.defineVariable _).bind fun _ => parameters_confined names tys
  | [], _ => by
    rw [parameters]
    · exact .pure _
    · nofun
  | _ :: _, [] => by
    rw [parameters]
    · exact .pure _
    · nofun

/-- A signature is defined under the name and number of parameters of its function. -/
theorem signature_name {f : FunctionDecl} {r : Routine Unit} (h : signature f = .ok r) :
    [.function r.name r.arity] = f.binds := by
  obtain ⟨tys, ty, htys, -, rfl⟩ := signature_ok h
  rw [FunctionDecl.binds, htys.length_eq]
  rfl

/-- A function is defined before its body is checked, in a scope that is closed. -/
theorem function_confined (f : FunctionDecl) : Confined (function f) f.nodes f.binds := by
  unfold function
  cases hr : signature f with
  | error e => exact .failThen e _
  | ok r =>
    have hbody := ((parameters_confined f.parameters r.parameterTypes).bind fun _ =>
      block_confined f.body).inScope.returning r.returnType
    have h := (Confined.defineFunction r).bind fun _ =>
      (Confined.bindFunction f.id r).andThen fun _ => hbody
    rw [signature_name hr, List.append_nil] at h
    exact h.mono (by simp [FunctionDecl.nodes])

/-- A program leaves its globals and functions, up to the one that is refused. -/
theorem source_confined (p : Source) : Confined (source p) p.nodes p.binds :=
  (Confined.forM global_confined p.globals).bind fun _ =>
    (Confined.forM function_confined p.functions).thenSilent fun _ => requireMain_silent

end Check

/-! ### One task after the other -/

/-- What the embedding program can ask the checker for. -/
inductive Task where
  | defineVariable (v : Variable Unit)
  | defineFunction (r : Routine Unit)
  | global (g : GlobalDecl)
  | function (f : FunctionDecl)
  | statement (s : Stmt)
  | expression (e : Expr)
  | source (p : Source)

namespace Task

/-- The step of checking that is asked for. -/
def step : Task → Check Unit
  | defineVariable v => Check.defineVariable v
  | defineFunction r => Check.defineFunction r
  | global g => Check.global g
  | function f => Check.function f
  | statement s => Check.statement s
  | expression e => do let _ ← Check.expression e
  | source p => Check.source p

/-- The nodes of what is checked. -/
def nodes : Task → List NodeId
  | defineVariable _ | defineFunction _ => []
  | global g => g.nodes
  | function f => f.nodes
  | statement s => s.nodes
  | expression e => e.nodes
  | source p => p.nodes

/-- The names that are defined at the top level. -/
def binds : Task → List Name
  | defineVariable v => [.var v.name]
  | defineFunction r => [.function r.name r.arity]
  | global g => g.binds
  | function f => f.binds
  | statement s => s.binds
  | expression _ => []
  | source p => p.binds

/-- Whatever is asked for is confined to its own nodes and names. -/
theorem step_confined (task : Task) : Check.Confined task.step task.nodes task.binds := by
  cases task with
  | defineVariable v => exact .defineVariable v
  | defineFunction r => exact .defineFunction r
  | global g => exact Check.global_confined g
  | function f => exact Check.function_confined f
  | statement s => exact Check.statement_confined s
  | expression e => exact (Check.expression_confined e).thenSilent fun _ _ => rfl
  | source p => exact Check.source_confined p

/-- The state after a task, whatever its outcome. -/
def perform (s : Checker) (task : Task) : Checker := after task.step s

/-- The state after some tasks. -/
def performAll (tasks : List Task) : Checker := tasks.foldl perform Check.start

/-- Tasks one after the other add to what those before them have added. -/
theorem foldl_adds (tasks : List Task) (s : Checker) :
    ∃ bindings, s.Adds (tasks.flatMap nodes) bindings (tasks.foldl perform s) := by
  induction tasks generalizing s with
  | nil => exact ⟨[], .refl [] s⟩
  | cons task tasks ih =>
    obtain ⟨bindings, hadds, -⟩ := task.step_confined s
    obtain ⟨bindings', hadds'⟩ := ih (perform s task)
    exact ⟨bindings ++ bindings', hadds.trans hadds'⟩

end Task

/-- No finding is lost or changed. -/
structure Annotations.Extends (a a' : Annotations) : Prop where
  types : ∀ id ty, a.types.find? id = some ty → a'.types.find? id = some ty
  vars : ∀ id v, a.vars.find? id = some v → a'.vars.find? id = some v
  functions : ∀ id r, a.functions.find? id = some r → a'.functions.find? id = some r

/-- Findings are at visited nodes only, so they are not changed by what is found elsewhere. -/
theorem Annotations.Touches.extends {visited ids : List NodeId} {a a' : Annotations}
    (h : Touches visited .empty a) (h' : Touches ids a a') (hnew : ids.Disjoint visited) :
    a.Extends a' := by
  have hnone : ∀ id, id ∉ visited →
      a.types.find? id = none ∧ a.vars.find? id = none ∧ a.functions.find? id = none :=
    fun id hid => h [id] (List.singleton_disjoint.2 hid) id (List.mem_singleton_self id)
  have hsame : ∀ id, id ∈ visited → a'.types.find? id = a.types.find? id ∧
      a'.vars.find? id = a.vars.find? id ∧ a'.functions.find? id = a.functions.find? id :=
    fun id hid => h' [id] (List.singleton_disjoint.2 fun hids => hnew hids hid) id
      (List.mem_singleton_self id)
  refine ⟨fun id ty hty => ?_, fun id v hv => ?_, fun id r hr => ?_⟩
  all_goals by_cases hid : id ∈ visited
  · exact (hsame id hid).1.trans hty
  · cases (hnone id hid).1.symm.trans hty
  · exact (hsame id hid).2.1.trans hv
  · cases (hnone id hid).2.1.symm.trans hv
  · exact (hsame id hid).2.2.trans hr
  · cases (hnone id hid).2.2.symm.trans hr

/-- The state `s'` after a task in the state `s`, which was reached by visiting some nodes. -/
structure Task.Restores (task : Task) (visited : List NodeId) (s s' : Checker) : Prop where
  depth : s'.scopes.depth = 1
  current : s'.scopes.current = Scopes.root
  noFunction : s'.returnType = none
  /-- A `RETURN` at the top level is refused. -/
  refusesReturn : ∀ value,
    Check.statement (.returnWith value) s' = .error .returnOutsideFunction s'
  keepsVariables : ∀ name v, s.scopes.variableAt Scopes.root name = some v →
    s'.scopes.variableAt Scopes.root name = some v
  keepsFunctions : ∀ key r, s.scopes.functionAt Scopes.root key = some r →
    s'.scopes.functionAt Scopes.root key = some r
  /-- The root gains the names of what was processed: all of them if the task succeeds. -/
  names : ∃ processed, processed <+: task.binds ∧
    (∀ name, s'.scopes.Defines Scopes.root name ↔
      s.scopes.Defines Scopes.root name ∨ name ∈ processed) ∧
    (task.step s = .ok () s' → processed = task.binds)
  /-- Findings change at the nodes of the task only. -/
  findings : Annotations.Touches task.nodes s.annotations s'.annotations
  keepsFindings : task.nodes.Disjoint visited → s.annotations.Extends s'.annotations

/-- **After every task, successful or not, the checker is back at the top level**, whatever
tasks came before.  Only the root is open and there is no enclosing function, so a `RETURN` is
refused.  The definitions in the root are kept, and new ones have the names of the globals,
functions and top-level declarations that the task has processed.  Findings are kept at the
nodes that the task does not have, so none is lost if its nodes are new. -/
theorem checker_restored_after_every_task (tasks : List Task) (task : Task) :
    task.Restores (tasks.flatMap Task.nodes) (Task.performAll tasks)
      (Task.perform (Task.performAll tasks) task) := by
  obtain ⟨earlier, hstart⟩ := Task.foldl_adds tasks Check.start
  obtain ⟨bindings, hadds, hprefix, hnames⟩ := task.step_confined (Task.performAll tasks)
  have hall := hstart.trans hadds
  have hkept := hall.scopes.kept
  have hroot : (Task.performAll tasks).scopes.current = Scopes.root := hstart.scopes.kept.current
  have hdepth : (Task.performAll tasks).scopes.depth = 1 := hstart.scopes.kept.depth
  have hreturn : (Task.perform (Task.performAll tasks) task).returnType = none := hall.returnType
  refine {
    depth := hkept.depth
    current := hkept.current
    noFunction := hreturn
    refusesReturn := fun value => ?_
    keepsVariables := fun _ _ => hadds.scopes.variableAt
    keepsFunctions := fun _ _ => hadds.scopes.functionAt
    names := ⟨bindings.map Binding.name, hprefix, fun name => ?_, fun h => hnames _ _ h⟩
    findings := hadds.annotations
    keepsFindings := fun hnew => hstart.annotations.extends hadds.annotations hnew }
  · rw [Check.statement, Check.returnValue, hreturn]
  · have hopen : (Task.performAll tasks).scopes.current < (Task.performAll tasks).scopes.depth := by
      rw [hroot, hdepth]
      exact Nat.zero_lt_one
    have hdefines := hadds.scopes.defines_iff hopen name
    rwa [hroot] at hdefines

end Scriptlet
