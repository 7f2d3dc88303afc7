import Scriptlet.Proofs.RunState

/-!
# Basic steps of a run

`Steps K x Q`: from a state that agrees with the plan `K` the basic step `x` ends in a
state that agrees with some plan, of which `Q` holds if the step has a result; if it
has none, the reason is one of those a well-typed program may have.  Here are the steps
that read and write variables, lists and the output.
-/

namespace Scriptlet
namespace Setting

variable {S : Setting} {α β : Type} {K : Plan} {Φ : Signatures} {Γ : Env}

/-- What a basic step does from states that agree with a plan. -/
def Steps (S : Setting) (K : Plan) (x : Eval α) (Q : α → Plan → Prop) : Prop :=
  ∀ m origins, S.Agrees K m origins →
    match x m with
    | .ok a m' => ∃ K', S.Agrees K' m' origins ∧ Q a K'
    | .error e m' => (∃ K', S.Agrees K' m' origins) ∧ ∀ record, S.HaltFits record e

/-- A basic step after which the plan is the same. -/
def Reads (S : Setting) (K : Plan) (x : Eval α) (Q : α → Prop) : Prop :=
  S.Steps K x fun a K' => K' = K ∧ Q a

namespace Steps

variable {x : Eval α} {Q : α → Plan → Prop}

/-- A result, and the plan is as before. -/
theorem pure {a : α} (h : Q a K) : S.Steps K (pure a) Q := fun _ _ ha => ⟨K, ha, h⟩

/-- A failure that a well-typed program may have. -/
theorem fail {e : EvalError} (h : ∀ record, S.HaltFits record (.error e)) :
    S.Steps K (Eval.fail e : Eval α) Q := fun _ _ ha => ⟨⟨K, ha⟩, h⟩

/-- The second step starts with the plan that the first has left. -/
theorem bind {f : α → Eval β} {R : β → Plan → Prop} (hx : S.Steps K x Q)
    (hf : ∀ a K', Q a K' → S.Steps K' (f a) R) : S.Steps K (x >>= f) R := by
  intro m origins ha
  have h := hx m origins ha
  show match EStateM.bind x f m with | .ok a m' => _ | .error e m' => _
  rw [EStateM.bind]
  revert h
  cases x m with
  | ok a m' =>
    rintro ⟨K', ha', hQ⟩
    exact hf a K' hQ m' origins ha'
  | error e m' => exact fun h => h

end Steps

namespace Reads

variable {x : Eval α} {P : α → Prop}

/-- A result, without looking at anything. -/
theorem pure {a : α} (h : P a) : S.Reads K (pure a) P := Steps.pure ⟨rfl, h⟩

/-- A failure that a well-typed program may have. -/
theorem fail {e : EvalError} (h : ∀ record, S.HaltFits record (.error e)) :
    S.Reads K (Eval.fail e : Eval α) P := Steps.fail h

/-- After a step that changes no plan, the next starts with the same plan. -/
theorem bind {f : α → Eval β} {Q : β → Plan → Prop} (hx : S.Reads K x P)
    (hf : ∀ a, P a → S.Steps K (f a) Q) : S.Steps K (x >>= f) Q := by
  refine Steps.bind hx ?_
  rintro a _ ⟨rfl, ha⟩
  exact hf a ha

end Reads

/-! ### Names -/

/-- What is related to something is something. -/
theorem rel_some {γ γ' : Type} {R : γ → γ' → Prop} {c : γ} {x : Option γ'}
    (h : Option.Rel R (some c) x) : ∃ c', x = some c' ∧ R c c' := by
  cases h with
  | some h => exact ⟨_, rfl, h⟩

/-- A variable that the typing rules know is there at run time, with a value that fits. -/
theorem Agrees.findVariable? {m : Machine} {origins : Scopes Origin Unit} {name : String}
    {v : Variable Unit} (h : S.Agrees K m origins) (hΓ : K.At Φ Γ) (hv : Γ.lookup name = some v) :
    ∃ v', m.scopes.findVariable? name = some v' ∧ S.Holds v v' := by
  have hfind := h.scopes.findVariable? name
  rw [Chain.findVariable? hΓ, hv] at hfind
  exact rel_some hfind

/-- To look such a variable up succeeds. -/
theorem lookupVariable_reads {name : String} {v : Variable Unit} (hΓ : K.At Φ Γ)
    (hv : Γ.lookup name = some v) : S.Reads K (Eval.lookupVariable name) (S.Holds v) := by
  intro m origins ha
  obtain ⟨v', hfind, hholds⟩ := ha.findVariable? hΓ hv
  rw [Eval.lookupVariable, hfind]
  exact ⟨K, ha, rfl, hholds⟩

/-- A function that the typing rules know is there at run time, with the body that implements it. -/
theorem Agrees.findFunction? {m : Machine} {origins : Scopes Origin Unit} {name : String}
    {n : Nat} {r : Routine Unit} (h : S.Agrees K m origins) (hΓ : K.At Φ Γ)
    (hr : Φ.find? (name, n) = some r) :
    ∃ r', m.scopes.findFunction? name n = some r' ∧ S.Implements r r' := by
  have hfind := h.scopes.findFunction? name n
  rw [Chain.findFunction? hΓ, hr] at hfind
  exact rel_some hfind

/-- To look such a function up succeeds. -/
theorem lookupFunction_reads {name : String} {n : Nat} {r : Routine Unit} (hΓ : K.At Φ Γ)
    (hr : Φ.find? (name, n) = some r) :
    S.Reads K (Eval.lookupFunction name n) (S.Implements r) := by
  intro m origins ha
  obtain ⟨r', hfind, himplements⟩ := ha.findFunction? hΓ hr
  rw [Eval.lookupFunction, hfind]
  exact ⟨K, ha, rfl, himplements⟩

/-- The type is known by its name. -/
theorem typeNamed_reads {name : String} {ty : Ty} (h : Ty.ofName? name = some ty) :
    S.Reads K (Eval.typeNamed name) (· = ty) := by
  rw [Eval.typeNamed, h]
  exact .pure rfl

/-! ### Values of a type -/

/-- A value that fits `Boolean` is a truth value, or the run stops and names what it is. -/
theorem requireBoolean_reads {o : Object} (h : S.Fits .boolean o.value) :
    S.Reads K (Eval.requireBoolean o) fun _ => True := by
  unfold Eval.requireBoolean
  split
  · exact .pure trivial
  · exact .fail fun _ => ⟨o.value, h, by assumption, rfl⟩

/-- A value that fits `Integer` is an integer, or the run stops and names what it is. -/
theorem requireInteger_reads {o : Object} (h : S.Fits .integer o.value) :
    S.Reads K (Eval.requireInteger o) fun _ => True := by
  unfold Eval.requireInteger
  split
  · exact .pure trivial
  · exact .fail fun _ => ⟨o.value, h, by assumption, rfl⟩

/-! ### Lists -/

/-- What is found is a list whose elements have the type of the variable, or the variable holds
none. -/
theorem lookupList_reads {name : String} {v : Variable Unit} (hΓ : K.At Φ Γ)
    (hv : Γ.lookup name = some v) :
    S.Reads K (Eval.lookupList name) fun cell => S.Fits v.ty (.list cell) := by
  refine (lookupVariable_reads hΓ hv).bind fun v' hholds => ?_
  have hvalue := hholds.value
  split
  · rename_i cell heq
    rw [heq] at hvalue
    exact Steps.pure ⟨rfl, hvalue⟩
  · exact .fail fun _ => trivial

/-- An index may be out of range in a well-typed program too. -/
theorem elementIndex_reads (index : Int) (cell : CellId) :
    S.Reads K (Eval.elementIndex index cell) fun _ => True := by
  intro m origins ha
  rw [Eval.elementIndex]
  by_cases hindex : 0 ≤ index ∧ index < (m.heap.elements cell).length
  · rw [if_pos hindex]
    exact ⟨K, ha, rfl, trivial⟩
  · rw [if_neg hindex]
    exact ⟨⟨K, ha⟩, fun _ => trivial⟩

/-- An element of a list fits the type of the list; where there is none it is `NIL`. -/
theorem HeapFits.getElem? {h : Heap} (hfits : S.HeapFits h) {ty : Ty} {cell : CellId}
    (hcell : S.Fits ty (.list cell)) (i : Nat) :
    S.Fits ty ((h.elements cell)[i]?.getD .nil).value := by
  cases helement : (h.elements cell)[i]? with
  | none => exact .nil S ty
  | some o => exact hcell.of_cell (hfits cell o (List.mem_of_getElem? helement))

/-- An element that is read fits the type of the variable. -/
theorem readElement_reads {name : String} {v : Variable Unit} (index : Int) (hΓ : K.At Φ Γ)
    (hv : Γ.lookup name = some v) :
    S.Reads K (Eval.readElement name index) fun o => S.Fits v.ty o.value := by
  refine (lookupList_reads hΓ hv).bind fun cell hcell => ?_
  refine (elementIndex_reads index cell).bind fun i _ => ?_
  intro m origins ha
  exact ⟨K, ha, rfl, ha.heap.getElem? hcell i⟩

/-- Lists still fit after a value that fits was put into one of them. -/
theorem HeapFits.write {h : Heap} (hfits : S.HeapFits h) {cell : CellId} {o : Object}
    (ho : S.Fits (S.cellType cell) o.value) (i : Nat) : S.HeapFits (h.write cell i o) := by
  intro cell' o' ho'
  rw [Heap.elements, Heap.write, List.getElem?_modify] at ho'
  by_cases hcell : cell = cell'
  · subst hcell
    simp only [if_true] at ho'
    cases hold : h.cells[cell]? with
    | none =>
      rw [hold] at ho'
      cases ho'
    | some elements =>
      rw [hold] at ho'
      rcases List.mem_or_eq_of_mem_set ho' with hmem | rfl
      · refine hfits cell o' ?_
        rw [Heap.elements, hold]
        exact hmem
      · exact ho
  · refine hfits cell' o' ?_
    simpa [hcell, Heap.elements] using ho'

/-- An element is replaced by a value that fits. -/
theorem writeElement_reads {name : String} {v : Variable Unit} (index : Int) {o : Object}
    (hΓ : K.At Φ Γ) (hv : Γ.lookup name = some v) (ho : S.Fits v.ty o.value) :
    S.Reads K (Eval.writeElement name index o) fun _ => True := by
  refine (lookupList_reads hΓ hv).bind fun cell hcell => ?_
  refine (elementIndex_reads index cell).bind fun i _ => ?_
  intro m origins ha
  refine ⟨K, ⟨ha.scopes, ha.origins, ha.heap.write (hcell.to_cell ho) i, ?_⟩, rfl, trivial⟩
  rw [Heap.write, List.length_modify]
  exact ha.cells

/-- A new list fits, if its elements do. -/
theorem HeapFits.alloc {h : Heap} (hfits : S.HeapFits h) {ty : Ty} {elements : List Object}
    (hty : S.notes.lists ∨ S.cellType h.cells.length = ty)
    (helements : ∀ o ∈ elements, S.Fits ty o.value) :
    S.HeapFits (h.alloc elements).2 ∧ S.Fits ty (h.alloc elements).1.value := by
  rcases hty with hlists | rfl
  · exact ⟨fun _ _ _ => .inl hlists, .inl hlists⟩
  · refine ⟨fun cell o ho => ?_, .inr (.list rfl)⟩
    rw [Heap.elements, Heap.alloc, List.getElem?_append] at ho
    split at ho
    · exact hfits cell o ho
    · rename_i hge
      rw [List.getElem?_singleton] at ho
      split at ho
      · rename_i hle
        obtain rfl : cell = h.cells.length :=
          Nat.le_antisymm (Nat.sub_eq_zero_iff_le.1 hle) (Nat.not_lt.1 hge)
        exact helements o ho
      · cases ho

/-- A list of a type is put into the next cell. -/
theorem allocList_steps {ty : Ty} {elements : List Object}
    (hty : S.notes.lists ∨ S.cellType K.cells = ty)
    (helements : ∀ o ∈ elements, S.Fits ty o.value) :
    S.Steps K (Eval.allocList elements) fun o K' =>
      K' = { K with cells := K.cells + 1 } ∧ S.Fits ty o.value := by
  intro m origins ha
  have hty' : S.notes.lists ∨ S.cellType m.heap.cells.length = ty := by
    rcases ha.cells with hlists | hcells
    · exact .inl hlists
    · rwa [hcells]
  obtain ⟨hheap, hvalue⟩ := ha.heap.alloc hty' helements
  refine ⟨{ K with cells := K.cells + 1 }, ⟨ha.scopes, ha.origins, hheap, ?_⟩, rfl, hvalue⟩
  refine ha.cells.imp_right fun hcells => ?_
  simp [hcells]

/-- Where lists may be anywhere, cells are not counted. -/
theorem allocList_reads {ty : Ty} {elements : List Object} (hlists : S.notes.lists) :
    S.Reads K (Eval.allocList elements) fun o => S.Fits ty o.value := by
  intro m origins ha
  refine ⟨K, ⟨ha.scopes, ha.origins, fun _ _ _ => .inl hlists, .inl hlists⟩, rfl, .inl hlists⟩

/-! ### Variables and output -/

/-- A mutable variable gets a value that fits its type. -/
theorem assignVariable_reads {name : String} {v : Variable Unit} {o : Object} (hΓ : K.At Φ Γ)
    (hv : Γ.lookup name = some v) (hmutable : v.mutable = true) (ho : S.Fits v.ty o.value) :
    S.Reads K (Eval.assignVariable name o) fun _ => True := by
  refine (lookupVariable_reads hΓ hv).bind fun v' hholds => ?_
  rw [hholds.mutable, hmutable]
  intro m origins ha
  obtain ⟨v'', -, hholds', hassign⟩ := ha.scopes.assign ((Chain.findVariable? hΓ name).trans hv)
  obtain ⟨scopes, hscopes, halike⟩ := hassign o ⟨hholds'.mutable, ho, hholds'.declarable⟩
  refine ⟨K, ⟨?_, ha.origins, ha.heap, ha.cells⟩, rfl, trivial⟩
  show Scopes.Alike _ _ _ ((m.scopes.assign? name o).getD m.scopes)
  rw [hscopes]
  exact halike

/-- A line is printed, or there is no room for it. -/
theorem printLine_reads (o : Object) : S.Reads K (Eval.printLine o) fun _ => True := by
  intro m origins ha
  have hprinted : ∀ output, S.Agrees K { m with output := output } origins := fun _ =>
    ⟨ha.scopes, ha.origins, ha.heap, ha.cells⟩
  unfold Eval.printLine
  cases m.output.write (m.heap.text o.value ++ "\n") with
  | mk taken output =>
    cases taken with
    | true => exact ⟨K, hprinted output, rfl, trivial⟩
    | false => exact ⟨⟨K, hprinted output⟩, fun _ => trivial⟩

/-- Any two values can be compared. -/
theorem valuesMatch_reads (a b : Object) : S.Reads K (Eval.valuesMatch a b) fun _ => True :=
  fun _ _ ha => ⟨K, ha, rfl, trivial⟩

end Setting
end Scriptlet
