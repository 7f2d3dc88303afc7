import Scriptlet.Proofs.RunSound

/-!
# Well-typed programs run as planned

A run has three phases.  No function of the program is known while the globals are
computed, so a global may call `print` only.

| phase | functions known before | plan after it |
| --- | --- | --- |
| globals | `print` | the globals, and a cell for each list |
| functions | those before it | one more function |
| `main` | all | as before |

The main results are `source_settles` and `settles_of_check`: a run of a well-typed
program, and so of an accepted one, ends in a state that agrees with a plan, with a value
for `main` or for a reason that a well-typed program may have.
-/

namespace Scriptlet

open Typing

/-- The type of the elements of a global that is a list. -/
def GlobalDecl.elementType (g : GlobalDecl) : Option Ty :=
  match g.value with
  | some (.list _ _) => g.typeName.elim (some .any) Ty.ofName?
  | _ => none

/-- The type of the elements in a cell: the lists of a program are globals, and their cells
are in the order of the globals. -/
def Source.cellType (p : Source) (cell : CellId) : Ty :=
  ((p.globals.filterMap GlobalDecl.elementType)[cell]?).getD .any

/-- The plan before a run. -/
def Plan.start : Plan := ⟨.ofBuiltins [.print ()], 0⟩

namespace Setting

variable {S : Setting} {Φ : Signatures} {globals : Locals} {fuel : Nat} {K : Plan}
  {frame after : Locals}

/-! ### Globals -/

/-- If values fit one type, each of them does. -/
theorem ValuesFit.all {ty : Ty} {n : Nat} {os : List Object} (hty : S.Declarable ty)
    (h : S.ValuesFit (List.replicate n ty) os) : ∀ o ∈ os, S.Fits ty o.value := by
  induction n generalizing os with
  | zero =>
    cases h
    simp
  | succ n ih =>
    cases h with
    | cons ho hos =>
      intro o hmem
      rcases List.mem_cons.1 hmem with rfl | hmem
      · exact ho hty
      · exact ih hos o hmem

/-- A list literal makes a new cell, whose elements fit its type. -/
theorem Sound.list (ih : ∀ n, Sound S Φ globals n) {Γ : Env} {id : NodeId} {es : List Expr}
    {ty : Ty} (hΓ : K.At Φ Γ) (hlast : Γ.getLast? = some globals) (hty : S.Declarable ty)
    (hes : Fit S.notes Φ Γ es (List.replicate es.length ty)) (hnote : S.notes.type id ty)
    (hcell : S.notes.lists ∨ S.cellType K.cells = ty) (fuel : Nat) :
    S.Runs K (Watch.expression fuel (.list id es)) fun o K' =>
      K' = { K with cells := K.cells + 1 } ∧ S.Fits ty o.value := by
  cases fuel with
  | zero => exact outOfFuel_runs
  | succ fuel =>
    refine Runs.valued ?_ hnote fun o K' h => h.2
    refine ((ih fuel).expressions hΓ hlast hes).bind fun os hos => ?_
    exact Runs.basic (allocList_steps hcell (hos.all hty))

/-- A global is evaluated and put into the root, and a list gets a cell. -/
theorem global_runs (hknows : S.Knows Φ frame) {g : GlobalDecl}
    (hg : Typing.Global S.notes Φ frame g after) (hΓ : K.At Φ [frame])
    (hcell : ∀ ty, g.elementType = some ty → S.notes.lists ∨ S.cellType K.cells = ty) :
    S.Runs K (Watch.global fuel g) fun _ K' =>
      K' = ⟨K.scopes.withVars after, K.cells + g.elementType.toList.length⟩ := by
  cases hg with
  | plain hplain hdeclares hfree hnote =>
    have hnone : g.elementType = none := by
      unfold GlobalDecl.elementType
      split
      · exact absurd ‹_› (hplain _ _)
      · rfl
    refine Runs.of_state fun w hw => ?_
    obtain ⟨hty, hname, hvalue⟩ := (sound hknows fuel).declares hw hΓ rfl hdeclares
    have hdeclared := fun (o : Object) ho => declare_runs (o := o) hΓ hname hfree hty ho hnote
    rw [hnone]
    unfold Watch.global
    cases hv : g.value with
    | none => exact hdeclared .nil (.nil S _)
    | some e => exact (hvalue e hv).bind hdeclared
  | @list id es ty hlist hname hnamed hes hnode hfree hnote =>
    have hsome : g.elementType = some ty := by
      rw [GlobalDecl.elementType, hlist]
      exact hname
    have hty := S.named ty hnamed
    have hvalue := Sound.list (sound hknows) hΓ rfl hty hes hnode (hcell ty hsome) fuel
    have hname' : ∀ n, g.typeName = some n → Ty.ofName? n = some ty := by
      intro n hn
      rw [hn] at hname
      exact hname
    rw [hsome]
    unfold Watch.global
    rw [hlist]
    refine hvalue.bind ?_
    rintro o _ ⟨rfl, ho⟩
    have hΓ' : Plan.At { K with cells := K.cells + 1 } Φ [frame] := hΓ
    exact declare_runs hΓ' hname' hfree hty ho hnote

/-- The globals of a program: their lists are in the cells in order. -/
theorem globals_runs (hknows : ∀ frame, S.Knows Φ frame) {gs : List GlobalDecl}
    (hgs : Globals S.notes Φ frame gs after) :
    ∀ {K : Plan}, K.At Φ [frame] →
      (∀ i ty, (gs.filterMap GlobalDecl.elementType)[i]? = some ty →
        S.notes.lists ∨ S.cellType (K.cells + i) = ty) →
      S.Runs K (gs.forM (Watch.global fuel)) fun _ K' => ∃ cells,
        K' = ⟨K.scopes.withVars after, cells⟩ := by
  induction hgs with
  | nil =>
    intro K hΓ _
    exact Runs.pure ⟨K.cells, (Plan.withVars_self hΓ).symm⟩
  | @cons before between after g rest hg _ ih =>
    intro K hΓ hcells
    have hcell : ∀ ty, g.elementType = some ty → S.notes.lists ∨ S.cellType K.cells = ty := by
      intro ty hty
      refine hcells 0 ty ?_
      rw [List.filterMap_cons, hty]
      rfl
    refine (global_runs (hknows before) hg hΓ hcell).bind ?_
    rintro _ _ rfl
    have hΓ' : Plan.At ⟨K.scopes.withVars between, K.cells + g.elementType.toList.length⟩ Φ
        [between] := Chain.withVars hΓ between
    refine (ih hΓ' fun i ty hty => ?_).imp ?_
    -- the cells of the other globals come after those of this one
    · have hshift : S.notes.lists ∨
          S.cellType (K.cells + (g.elementType.toList.length + i)) = ty := by
        refine hcells _ ty ?_
        rw [List.filterMap_cons]
        cases g.elementType with
        | none => simpa using hty
        | some elementType => simpa [Nat.add_comm] using hty
      rwa [← Nat.add_assoc] at hshift
    · rintro _ _ ⟨cells, rfl⟩
      refine ⟨cells, ?_⟩
      rw [Scopes.withVars_withVars]

/-! ### Functions -/

/-- The types of parameters are known by their names. -/
theorem mapM_typeNamed {names : List String} {tys : List Ty}
    (h : List.Forall₂ (fun name ty => Ty.ofName? name = some ty) names tys) :
    names.mapM Eval.typeNamed = pure tys := by
  induction h with
  | nil => rfl
  | cons hname _ ih =>
    rw [List.mapM_cons, Eval.typeNamed, hname, ih]
    rfl

/-- To declare a function is to define it with its signature, in the current scope. -/
theorem function_eq {f : FunctionDecl} {r : Routine Unit} (h : Signature f r) (m : Machine) :
    Eval.function f m =
      Eval.defineFunction { r with body := .declared f m.scopes.current } m := by
  obtain ⟨tys, ret, htys, hret, rfl⟩ := h
  unfold Eval.function
  rw [mapM_typeNamed htys]
  cases hname : f.returnTypeName with
  | none =>
    rw [hname] at hret
    cases hret
    rfl
  | some name =>
    rw [hname] at hret
    have htype : Eval.typeNamed name = pure ret := by
      rw [Eval.typeNamed, show Ty.ofName? name = some ret from hret]
    show (do
      let returnType ← Eval.typeNamed name
      fun m => Eval.defineFunction (.named f.name tys returnType
        (.declared f m.scopes.current)) m : Eval Unit) m = _
    rw [htype]
    rfl

/-- A function that is declared is put into the root, in the run and in the plan. -/
theorem function_steps {f : FunctionDecl} {r : Routine Unit} (hsignature : Signature f r)
    (hroot : K.scopes.current = 0) (hΓ : Chain K.scopes.scopes Φ 0 [globals])
    (hnew : Φ.find? (r.name, r.arity) = none) (hret : S.Declarable r.returnType)
    (hbody : S.body f r) :
    S.Steps K (Eval.function f) fun _ K' =>
      K' = { K with scopes := K.scopes.modify 0 (·.addFunction r) } := by
  intro m origins ha
  have hcurrent : m.scopes.current = Scopes.root := ha.scopes.current.symm.trans hroot
  have himplements : S.Implements r { r with body := .declared f m.scopes.current } :=
    ⟨rfl, hret, .inr ⟨f, by rw [hcurrent], hbody⟩⟩
  have hdefine : K.scopes.defineFunction r = .ok (K.scopes.modify 0 (·.addFunction r)) := by
    rw [hΓ.defineFunction hroot, hnew]
  obtain ⟨scopes, hscopes, halike⟩ := ha.scopes.defineFunction rfl rfl himplements hdefine
  rw [function_eq hsignature, Eval.defineFunction, hscopes]
  refine ⟨{ K with scopes := K.scopes.modify 0 (·.addFunction r) },
    ⟨halike, ?_, ha.heap, ha.cells⟩, rfl⟩
  exact ha.origins.modify_left 0 fun _ _ h => ⟨h.parent, h.vars, trivial⟩

end Setting

/-- Functions that were known stay known. -/
theorem Typing.Functions.within {N : Notes} {globals : Locals} {Φ Φ' : Signatures}
    {fs : List FunctionDecl} (h : Functions N globals Φ fs Φ') : Φ.Within Φ' := by
  induction h with
  | nil => exact .refl _
  | cons _ _ hnew _ _ ih => exact (Table.Within.insert _ hnew).trans ih

/-- Functions stay under their own names. -/
theorem Typing.Functions.keyed {N : Notes} {globals : Locals} {Φ Φ' : Signatures}
    {fs : List FunctionDecl} (h : Functions N globals Φ fs Φ') (hΦ : Φ.Keyed) : Φ'.Keyed := by
  induction h with
  | nil => exact hΦ
  | cons _ _ _ _ _ ih => exact ih (hΦ.insert _)

/-- A body that is well typed is so with more functions. -/
theorem Typing.Body.moreFunctions {N : Notes} {globals : Locals} {Φ Φ' : Signatures}
    {f : FunctionDecl} {r : Routine Unit} (hΦ : Φ.Within Φ') (h : Typing.Body N Φ globals f r) :
    Typing.Body N Φ' globals f r := by
  obtain ⟨frame, after, hparameters, hblock⟩ := h
  exact ⟨frame, after, hparameters, hblock.moreFunctions hΦ⟩

namespace Setting

variable {S : Setting} {Φ : Signatures} {globals : Locals} {fuel : Nat} {K : Plan}
  {frame after : Locals}

/-- The functions of a program: all are known at the end, and their bodies were typed
with some of them. -/
theorem functions_runs {fs : List FunctionDecl} {Φ' : Signatures}
    (hfs : Functions S.notes globals Φ fs Φ') :
    (∀ f r, (∀ ty ∈ r.parameterTypes, S.Declarable ty) → Typing.Body S.notes Φ' globals f r →
      S.body f r) → ∀ {K : Plan}, K.scopes.current = 0 → Chain K.scopes.scopes Φ 0 [globals] →
        S.Runs K (fs.forM fun f => Watch.basic (Eval.function f)) fun _ K' =>
          K'.At Φ' [globals] := by
  induction hfs with
  | nil =>
    intro _ K hroot hΓ
    refine Runs.pure ?_
    rw [Plan.At, hroot]
    exact hΓ
  | @cons Φ Φ' f r rest hsignature hnamed hnew hbody hrest ih =>
    intro hbodies K hroot hΓ
    have hdeclarable : ∀ ty ∈ r.returnType :: r.parameterTypes, S.Declarable ty := fun ty hty =>
      S.named ty (hnamed ty hty)
    have hret := hdeclarable r.returnType List.mem_cons_self
    have hf : S.body f r := by
      refine hbodies f r (fun ty hty => hdeclarable ty (List.mem_cons_of_mem _ hty)) ?_
      exact hbody.moreFunctions hrest.within
    refine (Runs.basic (function_steps hsignature hroot hΓ hnew hret hf)).bind ?_
    rintro _ _ rfl
    exact ih hbodies hroot (hΓ.addFunction r)

/-! ### Programs -/

/-- The setting in which no function of the program is known. -/
def withoutBodies (S : Setting) : Setting := { S with body := fun _ _ => False }

/-- Knowing no function is knowing only functions that are as they should be. -/
theorem State.withBodies {w : Watched} (h : S.withoutBodies.State K w) : S.State K w where
  agrees := by
    obtain ⟨hscopes, horigins, hheap, hcells⟩ := h.agrees
    refine ⟨hscopes.mono ?_ ?_, horigins, hheap, hcells⟩
    · intro v v' hv
      exact ⟨hv.mutable, hv.value, hv.declarable⟩
    · intro t t' ht
      refine ht.mono fun r r' hr => ⟨hr.parameterTypes, hr.returnType, hr.body.imp_right ?_⟩
      rintro ⟨_, -, hfalse⟩
      exact hfalse.elim
  record moment hmoment := by
    obtain ⟨⟨hvars, hheap⟩, hevent⟩ := h.record moment hmoment
    exact ⟨⟨hvars, hheap⟩, hevent⟩

/-- A reason to stop does not depend on what is said about bodies. -/
theorem HaltFits.withBodies {record : List Moment} {e : Halt}
    (h : S.withoutBodies.HaltFits record e) : S.HaltFits record e := by
  cases e with
  | outOfFuel => trivial
  | error e => cases e <;> exact h

/-- An end of a run does not depend on what is said about bodies. -/
theorem Settles.withBodies {α : Type} {Q : α → Plan → Prop}
    {result : EStateM.Result Halt Watched α} (h : S.withoutBodies.Settles Q result) :
    S.Settles Q result := by
  cases result with
  | ok a w =>
    obtain ⟨K, hw, hQ⟩ := h
    exact ⟨K, hw.withBodies, hQ⟩
  | error e w =>
    obtain ⟨⟨K, hw⟩, hhalt⟩ := h
    exact ⟨⟨K, hw.withBodies⟩, hhalt.withBodies⟩

/-- At first there is `print` alone, in the run and in the plan. -/
theorem state_start (S : Setting) (limit : Option Nat) :
    S.State Plan.start (Watch.start limit) where
  agrees := by
    have hprint : S.Implements (.print ()) (.print .print) :=
      ⟨rfl, .inr ⟨by decide, by decide⟩, .inl rfl⟩
    refine ⟨⟨rfl, fun i => ?_⟩, ⟨rfl, fun i => ?_⟩, ?_, .inr rfl⟩
    · cases i with
      | zero => exact .some ⟨rfl, .empty _, (Table.Alike.empty _).insert _ hprint⟩
      | succ i => exact .none
    · cases i with
      | zero => exact .some ⟨rfl, .empty _, trivial⟩
      | succ i => exact .none
    · intro cell o ho
      cases ho
  record moment hmoment := by cases hmoment

/-- The result of `main` fits its type. -/
theorem main_runs {r : Routine Unit} (hknows : S.Knows Φ globals) (hΦ : Φ.Keyed)
    (hmain : Φ.find? ("main", 0) = some r) (hΓ : K.At Φ [globals]) :
    S.Runs K (do Watch.call fuel (← Watch.basic (Eval.lookupFunction "main" 0)) []) fun o _ =>
      S.Fits r.returnType o.value := by
  have hnone : r.parameterTypes = [] := List.eq_nil_of_length_eq_zero (hΦ _ _ _ hmain)
  have hvalues : S.ValuesFit r.parameterTypes [] := by
    rw [hnone]
    exact .nil
  refine (Yields.basic (lookupFunction_reads hΓ hmain)).bind fun r' himplements => ?_
  refine Runs.imp ((sound hknows fuel).call hΓ rfl himplements hvalues) ?_
  exact fun o K' h => h.2

/-- **A run of a well-typed program ends as it should**, and so did all its moments. -/
theorem source_settles {p : Source} (hp : WellTyped S.notes p globals Φ)
    (hbody : ∀ f r, S.body f r ↔
      (∀ ty ∈ r.parameterTypes, S.Declarable ty) ∧ Typing.Body S.notes Φ globals f r)
    (hcells : ∀ i ty, (p.globals.filterMap GlobalDecl.elementType)[i]? = some ty →
      S.notes.lists ∨ S.cellType i = ty) (fuel : Nat) (limit : Option Nat) :
    S.Settles (fun o _ => S.Fits .integer o.value)
      (Watch.source fuel p (Watch.start limit)) := by
  obtain ⟨hglobals, hfunctions, r, hmain, hinteger⟩ := hp
  -- the globals run before any function of the program is known
  have hstart : S.withoutBodies.State Plan.start (Watch.start limit) := state_start _ limit
  have hnone : ∀ frame, S.withoutBodies.Knows builtins frame := fun _ _ _ h => h.elim
  have hcells' : ∀ i ty, (p.globals.filterMap GlobalDecl.elementType)[i]? = some ty →
      S.withoutBodies.notes.lists ∨ S.withoutBodies.cellType (Plan.start.cells + i) = ty := by
    intro i ty hty
    rw [show Plan.start.cells + i = i from Nat.zero_add i]
    exact hcells i ty hty
  have hΓ : Plan.start.At builtins [.empty] := Check.chain_start
  have hfirst : S.withoutBodies.Runs Plan.start (p.globals.forM (Watch.global fuel)) _ :=
    globals_runs hnone hglobals hΓ hcells'
  refine (hfirst _ hstart).withBodies.bind ?_
  rintro _ _ w ⟨cells, rfl⟩ hw
  have hroot : Chain (Plan.start.scopes.withVars globals).scopes builtins 0 [globals] :=
    hΓ.withVars globals
  have hbodies := fun f r hparameters hf => (hbody f r).2 ⟨hparameters, hf⟩
  have hknows : S.Knows Φ globals := fun f r => (hbody f r).1
  have hsecond := functions_runs hfunctions hbodies (K := ⟨_, cells⟩) rfl hroot
  refine (hsecond w hw).bind fun _ K w' hK hw' => ?_
  rw [← hinteger]
  exact main_runs hknows (hfunctions.keyed keyed_builtins) hmain hK w' hw'

/-- The setting of a program whose derivation has certain notes. -/
def ofProgram (p : Source) (globals : Locals) (Φ : Signatures) (N : Notes)
    (hnamed : ∀ ty, N.named ty → N.lists ∨ ty.Concrete) : Setting where
  notes := N
  cellType := p.cellType
  body f r := (∀ ty ∈ r.parameterTypes, N.lists ∨ ty.Concrete) ∧ Typing.Body N Φ globals f r
  named := hnamed

/-- **A run of an accepted program ends as it should**, measured against any notes that suit
what checking found. -/
theorem settles_of_check {p : Source} {a : Annotations} (h : p.check = .ok a) {N : Notes}
    (hnamed : ∀ ty, N.named ty → N.lists ∨ ty.Concrete)
    (hsuits : N = Notes.any ∨
      ((∀ ty : Ty, ty.Concrete → N.named ty) ∧ p.nodes.Nodup ∧ p.plain = true))
    (hhold : N.Hold a p.nodes) :
    ∃ S : Setting, S.notes = N ∧ S.cellType = p.cellType ∧ ∀ fuel limit,
      S.Settles (fun o _ => S.Fits .integer o.value)
        (Watch.source fuel p (Watch.start limit)) := by
  obtain ⟨globals, Φ, htyped⟩ := Source.wellTyped_of_check h
  refine ⟨ofProgram p globals Φ N hnamed, rfl, rfl, fun fuel limit => ?_⟩
  have hN : N.Suits p.nodes p.plain :=
    hsuits.imp_right fun ⟨hconcrete, hnodes, hplain⟩ => ⟨hconcrete, hnodes, .inl hplain⟩
  refine source_settles (htyped N hN hhold) (fun _ _ => Iff.rfl) (fun i ty hty => ?_) fuel limit
  have hcell : p.cellType i = ty := by
    rw [Source.cellType, hty]
    rfl
  exact .inr hcell

end Setting
end Scriptlet
