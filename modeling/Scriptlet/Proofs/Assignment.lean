import Mathlib.Data.Finset.Card
import Scriptlet.Proofs.NameSound
import Scriptlet.Proofs.Places

/-!
# What an assignment writes

An assignment evaluates the offset, if there is one, and then the value.  What it writes is
settled in the state that it has then reached, since both may have changed what the name on
its left stands for.

| receiver | place that is written | unless |
| --- | --- | --- |
| `x` | the nearest variable `x` | there is none, or it is not mutable |
| `x[i]` | element `i` of the list that the nearest `x` holds | there is no such element |
| anything else | none | |

At the place stands the value afterwards, and all else is as it was; if there is no such
place, everything is (`assignment_writes_one_place`).  A list may be held by many variables
and by elements of lists: an element is read through each of them.
-/

namespace Scriptlet

/-! ### The nearest variable -/

namespace Scopes

variable {α β : Type} {s : Scopes α β} {name : String}

/-- From one scope outwards, the first scope with a variable of a name. -/
inductive Nearest (s : Scopes α β) (name : String) : ScopeId → ScopeId → Prop where
  | here {id : ScopeId} {v : Variable α} : s.variableAt id name = some v → Nearest s name id id
  | outer {id parent i : ScopeId} : s.variableAt id name = none →
    s.parentAt id = some (some parent) → Nearest s name parent i → Nearest s name id i

/-- What a search finds is the nearest of its name. -/
theorem Nearest.of_search {n : Nat} : ∀ {id i : ScopeId} {v : Variable α},
    s.search (fun scope => scope.vars.find? name) n id = some (i, v) → s.Nearest name id i := by
  induction n with
  | zero =>
    intro id i v h
    cases h
  | succ n ih =>
    intro id i v h
    rw [search_succ] at h
    split at h
    · rename_i hfound
      cases h
      exact .here hfound
    · rename_i hnone
      obtain ⟨parent, hparent, hsearch⟩ := Option.bind_eq_some_iff.1 h
      exact .outer hnone (Option.join_eq_some_iff.1 hparent) (ih hsearch)

/-- The nearest of a name is found by a search that is long enough. -/
theorem Nearest.search {id i : ScopeId} (h : s.Nearest name id i) {v : Variable α}
    (hv : s.variableAt i name = some v) :
    ∃ n, s.search (fun scope => scope.vars.find? name) n id = some (i, v) := by
  induction h with
  | here hat =>
    refine ⟨1, ?_⟩
    rw [search_succ, show s.scopes[_]?.bind _ = _ from hv]
  | outer hnone hparent _ ih =>
    obtain ⟨n, hn⟩ := ih hv
    refine ⟨n + 1, ?_⟩
    rw [search_succ, show s.scopes[_]?.bind _ = _ from hnone, hparent]
    exact hn

section Bound

variable {get : Scope α β → Option (Variable α)}

/-- A longer search finds the same. -/
theorem search_mono {r : ScopeId × Variable α} {m n : Nat} (h : m ≤ n) :
    ∀ {id : ScopeId}, s.search get m id = some r → s.search get n id = some r := by
  induction m generalizing n with
  | zero => exact fun hr => by cases hr
  | succ m ih =>
    obtain ⟨n, rfl⟩ : ∃ k, n = k + 1 := ⟨n - 1, by omega⟩
    intro id hr
    rw [search_succ] at hr ⊢
    split at hr
    · exact hr
    · obtain ⟨parent, hparent, hsearch⟩ := Option.bind_eq_some_iff.1 hr
      exact Option.bind_eq_some_iff.2 ⟨parent, hparent, ih (Nat.le_of_succ_le_succ h) hsearch⟩

/-- The search succeeds when it goes beyond `n` scopes, and not before. -/
def FoundAfter (s : Scopes α β) (get : Scope α β → Option (Variable α)) (n : Nat)
    (id : ScopeId) : Prop :=
  s.search get n id = none ∧ ∃ r, s.search get (n + 1) id = some r

namespace FoundAfter

/-- A name is found at one distance only. -/
theorem unique {m n : Nat} {id : ScopeId} (hm : s.FoundAfter get m id)
    (hn : s.FoundAfter get n id) : m = n := by
  obtain ⟨hm, r, hr⟩ := hm
  obtain ⟨hn, r', hr'⟩ := hn
  rcases Nat.lt_trichotomy m n with hlt | heq | hgt
  · cases (search_mono hlt hr).symm.trans hn
  · exact heq
  · cases (search_mono hgt hr').symm.trans hm

/-- A name is found from open scopes only. -/
theorem lt_depth {n : Nat} {id : ScopeId} (h : s.FoundAfter get n id) : id < s.depth := by
  obtain ⟨-, r, hr⟩ := h
  rw [search] at hr
  by_contra hge
  rw [List.getElem?_eq_none (Nat.le_of_not_lt hge)] at hr
  cases hr

/-- What is found further away is found from the parent. -/
theorem parent {n : Nat} {id : ScopeId} (h : s.FoundAfter get (n + 1) id) :
    ∃ parent, s.FoundAfter get n parent := by
  obtain ⟨hnone, r, hr⟩ := h
  rw [search_succ] at hnone hr
  cases hget : s.scopes[id]?.bind get with
  | some v =>
    rw [hget] at hnone
    cases hnone
  | none =>
    rw [hget] at hnone hr
    obtain ⟨parent, hparent, hsearch⟩ := Option.bind_eq_some_iff.1 hr
    simp only [hparent, Option.bind_some] at hnone
    exact ⟨parent, hnone, r, hsearch⟩

/-- On the way to it, a name is at every smaller distance from some scope. -/
theorem of_le {n : Nat} : ∀ {id : ScopeId}, s.FoundAfter get n id →
    ∀ k ≤ n, ∃ id', s.FoundAfter get k id' := by
  induction n with
  | zero => exact fun h k hk => ⟨_, Nat.le_zero.1 hk ▸ h⟩
  | succ n ih =>
    intro id h k hk
    rcases Nat.eq_or_lt_of_le hk with rfl | hlt
    · exact ⟨id, h⟩
    · obtain ⟨parent, hparent⟩ := h.parent
      exact ih hparent k (Nat.lt_succ_iff.1 hlt)

/-- No scope is visited twice, so there are more scopes than were visited in vain. -/
theorem lt {n : Nat} {id : ScopeId} (h : s.FoundAfter get n id) : n < s.depth := by
  choose! scope hscope using h.of_le
  have hcard : (Finset.range (n + 1)).card ≤ (Finset.range s.depth).card := by
    refine Finset.card_le_card_of_injOn scope (fun k hk => ?_) fun k hk l hl heq => ?_
    · rw [Finset.coe_range, Set.mem_Iio] at hk
      exact Finset.mem_coe.2 (Finset.mem_range.2 (hscope k (Nat.lt_succ_iff.1 hk)).lt_depth)
    · rw [Finset.coe_range, Set.mem_Iio] at hk hl
      have hl' := hscope l (Nat.lt_succ_iff.1 hl)
      rw [← heq] at hl'
      exact (hscope k (Nat.lt_succ_iff.1 hk)).unique hl'
  rwa [Finset.card_range, Finset.card_range] at hcard

end FoundAfter

/-- As many steps as there are scopes are enough. -/
theorem search_depth {n : Nat} {id : ScopeId} {r : ScopeId × Variable α}
    (h : s.search get n id = some r) : s.search get s.depth id = some r := by
  have hfound : ∃ k, s.FoundAfter get k id ∧ s.search get (k + 1) id = some r := by
    induction n with
    | zero => cases h
    | succ n ih =>
      cases hn : s.search get n id with
      | none => exact ⟨n, ⟨hn, r, h⟩, h⟩
      | some r' =>
        have hr' := (search_mono (Nat.le_succ n) hn).symm.trans h
        exact ih (hn.trans hr')
  obtain ⟨k, hk, hr⟩ := hfound
  exact search_mono hk.lt hr

end Bound

/-- **A name is looked up from the current scope outwards.** -/
theorem resolve?_eq_some_iff {i : ScopeId} {v : Variable α} :
    (s.resolve? fun scope => scope.vars.find? name) = some (i, v) ↔
      s.Nearest name s.current i ∧ s.variableAt i name = some v := by
  refine ⟨fun h => ⟨.of_search h, variableAt_of_resolve? h⟩, fun ⟨hnearest, hv⟩ => ?_⟩
  obtain ⟨n, hn⟩ := hnearest.search hv
  exact search_depth hn

/-- A variable is found exactly if it is the nearest of its name. -/
theorem findVariable?_eq_some_iff {v : Variable α} :
    s.findVariable? name = some v ↔
      ∃ i, s.Nearest name s.current i ∧ s.variableAt i name = some v := by
  simp only [← resolve?_eq_some_iff, findVariable?, Option.map_eq_some_iff, Prod.exists]
  constructor
  · rintro ⟨i, v', h, rfl⟩
    exact ⟨i, h⟩
  · rintro ⟨i, h⟩
    exact ⟨i, v, h, rfl⟩

end Scopes

/-! ### Lists of variables -/

namespace Eval

/-- A list is looked up as the value of a variable. -/
theorem lookupList_eq (name : String) (m : Machine) :
    lookupList name m =
      match m.scopes.findVariable? name with
      | none => .error (.error (.undefinedVariable name)) m
      | some v =>
        match v.value.value with
        | .list cell => .ok cell m
        | _ => .error (.error (.expectedList name)) m := by
  unfold lookupList
  cases hfind : m.scopes.findVariable? name with
  | none => exact bind_eq_error (by rw [lookupVariable, hfind]; rfl) _
  | some v =>
    refine (bind_eq (by rw [lookupVariable, hfind]) _).trans ?_
    cases hvalue : v.value.value <;> simp only [hvalue] <;> rfl

/-- An index is valid from zero up to the length of the list. -/
theorem elementIndex_eq (index : Int) (cell : CellId) (m : Machine) :
    elementIndex index cell m =
      if 0 ≤ index ∧ index < (m.heap.elements cell).length then .ok index.toNat m
      else .error (.error (.indexOutOfBounds index (m.heap.elements cell).length)) m := rfl

/-- An element is read through any variable that holds the list. -/
theorem readElement_eq {name : String} {v : Variable Object} {cell : CellId} {index : Nat}
    {o : Object} {m : Machine} (hv : m.scopes.findVariable? name = some v)
    (hlist : v.value.value = .list cell) (ho : (m.heap.elements cell)[index]? = some o) :
    readElement name index m = .ok o m := by
  have hlookup : lookupList name m = .ok cell m := by
    rw [lookupList_eq, hv]
    simp only [hlist]
  have hindex : elementIndex index cell m = .ok index m := by
    have hlt := (List.getElem?_eq_some_iff.1 ho).1
    rw [elementIndex_eq, if_pos ⟨Int.natCast_nonneg _, Int.ofNat_lt.2 hlt⟩, Int.toNat_natCast]
  refine (bind_eq hlookup _).trans ((bind_eq hindex _).trans ?_)
  rw [ho, Option.getD_some]

end Eval

/-! ### Places -/

/-- What an assignment can write: a variable of a scope, or an element of a list. -/
inductive Place where
  | var (i : ScopeId) (name : String)
  | element (cell : CellId) (index : Nat)

namespace Machine

/-- The element at an index of the list to which an object refers. -/
def elementOf (m : Machine) (o : Object) (index : Nat) : Option Object :=
  match o.value with
  | .list cell => (m.heap.elements cell)[index]?
  | _ => none

/-- The second state is the first one with another value in one variable. -/
structure SetsVariable (i : ScopeId) (name : String) (value : Object) (m m' : Machine) : Prop where
  heap : m'.heap = m.heap
  output : m'.output = m.output
  frame : m'.scopes.frame = m.scopes.frame
  parents : ∀ j, m'.scopes.parentAt j = m.scopes.parentAt j
  functions : ∀ j key, m'.scopes.functionAt j key = m.scopes.functionAt j key
  vars : ∀ j name', ¬ (i = j ∧ name = name') →
    m'.scopes.variableAt j name' = m.scopes.variableAt j name'
  written : m'.scopes.variableAt i name =
    (m.scopes.variableAt i name).map fun v => { v with value := value }

/-- The second state is the first one with another element in one list, through whatever
reference to the list it is read. -/
structure SetsElement (cell : CellId) (index : Nat) (value : Object) (m m' : Machine) : Prop where
  scopes : m'.scopes = m.scopes
  output : m'.output = m.output
  lists : m'.heap.cells.length = m.heap.cells.length
  lengths : ∀ cell', (m'.heap.elements cell').length = (m.heap.elements cell').length
  elements : ∀ o j, ¬ (o.value = .list cell ∧ index = j) → m'.elementOf o j = m.elementOf o j
  written : ∀ o, o.value = .list cell → m'.elementOf o index = some value
  read : ∀ name v, m'.scopes.findVariable? name = some v → v.value.value = .list cell →
    Eval.readElement name index m' = .ok value m'

/-- The second state is the first one with another object at one place. -/
def Sets : Place → Object → Machine → Machine → Prop
  | .var i name => SetsVariable i name
  | .element cell index => SetsElement cell index

/-- The place that an assignment to a name writes, with an offset or without. -/
inductive Target (m : Machine) (name : String) : Option Int → Place → Prop where
  | var {i : ScopeId} {v : Variable Object} : m.scopes.Nearest name m.scopes.current i →
    m.scopes.variableAt i name = some v → v.mutable = true → Target m name none (.var i name)
  | element {i : ScopeId} {v : Variable Object} {cell : CellId} {index : Nat} :
    m.scopes.Nearest name m.scopes.current i → m.scopes.variableAt i name = some v →
      v.value.value = .list cell → index < (m.heap.elements cell).length →
        Target m name (some index) (.element cell index)

/-- An assignment whose operands are known ends: the value is written, or there is no place
for it. -/
def Assigns (m : Machine) (name : String) (offset : Option Int) (value : Object)
    (result : EStateM.Result Halt Machine Flow) : Prop :=
  (∃ place m', m.Target name offset place ∧ m.Sets place value m' ∧ result = .ok .next m') ∨
    (∀ place, ¬ m.Target name offset place) ∧ ∃ e, result = .error (.error e) m

/-! ### Variables -/

/-- A variable at a place gets a value, and all else is as it was. -/
theorem setsVariable {m : Machine} {i : ScopeId} {name : String} {v : Variable Object}
    (hv : m.scopes.variableAt i name = some v) (value : Object) :
    m.SetsVariable i name value
      { m with scopes := m.scopes.modify i (·.setVariable name { v with value := value }) } where
  heap := rfl
  output := rfl
  frame := by simp [Scopes.frame, Scopes.depth, Scopes.modify]
  parents j := by
    simp only [Scopes.parentAt, Scopes.scopes_modify]
    split
    · simp [Scope.setVariable, Function.comp_def]
    · rfl
  functions j key := Scopes.functionAt_setVariable ..
  vars j name' hplace := by rw [Scopes.variableAt_setVariable hv, if_neg hplace]
  written := by rw [Scopes.variableAt_setVariable hv, if_pos ⟨rfl, rfl⟩, hv, Option.map_some]

/-- A name stands for one variable. -/
theorem Target.var_iff {m : Machine} {name : String} {i : ScopeId} {v : Variable Object}
    (hresolve : (m.scopes.resolve? fun scope => scope.vars.find? name) = some (i, v)) :
    (∃ place, m.Target name none place) ↔ v.mutable = true := by
  obtain ⟨hnearest, hv⟩ := Scopes.resolve?_eq_some_iff.1 hresolve
  refine ⟨fun ⟨place, htarget⟩ => ?_, fun hmutable => ⟨_, .var hnearest hv hmutable⟩⟩
  cases htarget with
  | var hnearest' hv' hmutable =>
    cases hresolve.symm.trans (Scopes.resolve?_eq_some_iff.2 ⟨hnearest', hv'⟩)
    exact hmutable

/-- If there is a place to write to, the name is found. -/
theorem Target.resolve? {m : Machine} {name : String} {offset : Option Int} {place : Place}
    (h : m.Target name offset place) :
    ∃ r, (m.scopes.resolve? fun scope => scope.vars.find? name) = some r := by
  cases h with
  | var hnearest hv _ => exact ⟨_, Scopes.resolve?_eq_some_iff.2 ⟨hnearest, hv⟩⟩
  | element hnearest hv _ _ => exact ⟨_, Scopes.resolve?_eq_some_iff.2 ⟨hnearest, hv⟩⟩

/-- An assignment to a variable writes to the nearest one, or fails and changes nothing. -/
theorem assignVariable_assigns (m : Machine) (name : String) (value : Object) :
    m.Assigns name none value ((do Eval.assignVariable name value; return Flow.next) m) := by
  have hassign := Eval.assignVariable_eq name value m
  cases hresolve : m.scopes.resolve? fun scope => scope.vars.find? name with
  | none =>
    rw [Scopes.findVariable?, hresolve] at hassign
    refine .inr ⟨fun place htarget => ?_, _, bind_eq_error hassign _⟩
    obtain ⟨r, hr⟩ := htarget.resolve?
    cases hresolve.symm.trans hr
  | some found =>
    obtain ⟨i, v⟩ := found
    obtain ⟨hnearest, hv⟩ := Scopes.resolve?_eq_some_iff.1 hresolve
    rw [Scopes.findVariable?, hresolve, Scopes.assign?, hresolve] at hassign
    cases hmutable : v.mutable with
    | false =>
      have hfixed : ¬ v.mutable = true := by rw [hmutable]; exact Bool.false_ne_true
      refine .inr ⟨fun place htarget => ?_, _, bind_eq_error (hassign.trans (if_neg hfixed)) _⟩
      exact hfixed ((Target.var_iff hresolve).1 ⟨place, htarget⟩)
    | true =>
      refine .inl ⟨_, _, .var hnearest hv hmutable, setsVariable hv value, ?_⟩
      exact bind_eq (hassign.trans (if_pos hmutable)) _

/-! ### Elements -/

/-- Only the list that is written to changes, and in it one element. -/
theorem elements_write (h : Heap) (cell : CellId) (i : Nat) (value : Object) (cell' : CellId) :
    (h.write cell i value).elements cell' =
      if cell = cell' then (h.elements cell').set i value else h.elements cell' := by
  rw [Heap.elements, Heap.elements, Heap.write, List.getElem?_modify]
  cases h.cells[cell']? with
  | none => split <;> rfl
  | some elements => split <;> rfl

/-- An element gets a value, and all else is as it was. -/
theorem setsElement {m : Machine} {cell : CellId} {index : Nat}
    (hindex : index < (m.heap.elements cell).length) (value : Object) :
    m.SetsElement cell index value { m with heap := m.heap.write cell index value } := by
  have hwritten : ((m.heap.write cell index value).elements cell)[index]? = some value := by
    rw [elements_write, if_pos rfl, List.getElem?_set_self hindex]
  have hlengths : ∀ cell', ((m.heap.write cell index value).elements cell').length =
      (m.heap.elements cell').length := by
    intro cell'
    rw [elements_write]
    split
    · rw [List.length_set]
    · rfl
  refine ⟨rfl, rfl, by simp [Heap.write], hlengths, fun o j hplace => ?_, fun o ho => ?_,
    fun name v hv hlist => ?_⟩
  · cases ho : o.value with
    | list cell' =>
      simp only [elementOf, ho, elements_write]
      split
      · rename_i hcell
        subst hcell
        rw [List.getElem?_set_ne fun hj => hplace ⟨ho, hj⟩]
      · rfl
    | nil | boolean | integer | decimal | character | string => simp only [elementOf, ho]
  · simp only [elementOf, ho]
    exact hwritten
  · exact Eval.readElement_eq hv hlist hwritten

/-- An element is written if there is one at the offset. -/
theorem writeElement_assigns (m : Machine) (name : String) (offset : Int) (value : Object) :
    m.Assigns name (some offset) value
      ((do Eval.writeElement name offset value; return Flow.next) m) := by
  have hlookup := Eval.lookupList_eq name m
  -- whatever the target is, the name stands for the variable that holds its list
  have htarget : ∀ place, m.Target name (some offset) place → ∃ v cell index,
      m.scopes.findVariable? name = some v ∧ v.value.value = .list cell ∧
        offset = (index : Nat) ∧ index < (m.heap.elements cell).length := by
    rintro place (_ | ⟨hnearest, hv, hlist, hindex⟩)
    exact ⟨_, _, _, Scopes.findVariable?_eq_some_iff.2 ⟨_, hnearest, hv⟩, hlist, rfl, hindex⟩
  have hfails : ∀ e, Eval.lookupList name m = .error (.error e) m →
      (do Eval.writeElement name offset value; return Flow.next) m = .error (.error e) m :=
    fun e h => bind_eq_error (bind_eq_error h _) _
  cases hfind : m.scopes.findVariable? name with
  | none =>
    rw [hfind] at hlookup
    refine .inr ⟨fun place h => ?_, _, hfails _ hlookup⟩
    obtain ⟨v, cell, index, hv, -⟩ := htarget place h
    cases hfind.symm.trans hv
  | some v =>
    rw [hfind] at hlookup
    obtain ⟨i, hnearest, hv⟩ := Scopes.findVariable?_eq_some_iff.1 hfind
    by_cases hlist : ∃ cell, v.value.value = .list cell
    · obtain ⟨cell, hcell⟩ := hlist
      simp only [hcell] at hlookup
      have hindex := Eval.elementIndex_eq offset cell m
      by_cases hbounds : 0 ≤ offset ∧ offset < (m.heap.elements cell).length
      · rw [if_pos hbounds] at hindex
        obtain ⟨index, rfl⟩ := Int.eq_ofNat_of_zero_le hbounds.1
        have hlt := Int.ofNat_lt.1 hbounds.2
        refine .inl ⟨_, _, .element hnearest hv hcell hlt, setsElement hlt value, ?_⟩
        exact bind_eq ((bind_eq hlookup _).trans (bind_eq hindex _)) _
      · rw [if_neg hbounds] at hindex
        refine .inr ⟨fun place h => ?_, _,
          bind_eq_error ((bind_eq hlookup _).trans (bind_eq_error hindex _)) _⟩
        obtain ⟨v', cell', index, hv', hcell', rfl, hlt⟩ := htarget place h
        cases hfind.symm.trans hv'
        cases hcell.symm.trans hcell'
        exact hbounds ⟨Int.natCast_nonneg _, Int.ofNat_lt.2 hlt⟩
    · have hother : Eval.lookupList name m = .error (.error (.expectedList name)) m := by
        rw [hlookup]
        cases hvalue : v.value.value with
        | list cell => exact absurd ⟨cell, hvalue⟩ hlist
        | nil | boolean | integer | decimal | character | string => simp only [hvalue]
      refine .inr ⟨fun place h => ?_, _, hfails _ hother⟩
      obtain ⟨v', cell, index, hv', hcell, -⟩ := htarget place h
      cases hfind.symm.trans hv'
      exact hlist ⟨cell, hcell⟩

end Machine

/-! ### Assignments -/

namespace Eval

/-- An integer is a valid offset. -/
theorem requireInteger_ok {o : Object} {i : Int} (h : o.value = .integer i) (m : Machine) :
    requireInteger o m = .ok i m := by
  rw [requireInteger, h]
  rfl

/-- Anything else is an error, which changes nothing. -/
theorem requireInteger_error {o : Object} (h : ∀ i, o.value ≠ .integer i) (m : Machine) :
    ∃ e, requireInteger o m = .error (.error e) m := by
  unfold requireInteger
  cases hvalue : o.value with
  | integer i => exact absurd hvalue (h i)
  | nil | boolean | decimal | character | string | list => exact ⟨_, rfl⟩

variable {fuel : Nat} {receiver value : Expr} {m S : Machine}

/-- After the operands there is one step left. -/
theorem statement_assignment {last : Eval Unit}
    (h : assignment (fuel + 1) receiver value m = last S) :
    statement (fuel + 2) (.assignment receiver value) m = (do last; return Flow.next) S :=
  bind_congr_left h _

/-- A statement fails as its assignment does. -/
theorem statement_assignment_error {e : Halt}
    (h : assignment (fuel + 1) receiver value m = .error e S) :
    statement (fuel + 2) (.assignment receiver value) m = .error e S :=
  bind_eq_error h _

end Eval

/-- **An assignment writes one place, or nothing.**  An operand that fails ends the assignment
in the state that it leaves, and so does an offset that is no integer.  Otherwise let `S` be the
state after the operands, the offset first.  If the nearest variable of the name in `S` is
mutable, its value is replaced, and with an offset within the list that it holds, one element;
all else is as in `S`.  If there is no such place, the assignment fails in the state `S`.  With
any other receiver nothing is evaluated and nothing is written. -/
theorem assignment_writes_one_place (fuel : Nat) (value : Expr) (m : Machine) :
    (∀ id name,
      let result := Eval.statement (fuel + 2) (.assignment (.access id name) value) m
      (∀ e S, Eval.expression fuel value m = .error e S → result = .error e S) ∧
      ∀ v S, Eval.expression fuel value m = .ok v S → S.Assigns name none v result) ∧
    (∀ id name offset,
      let result := Eval.statement (fuel + 2) (.assignment (.element id name offset) value) m
      (∀ e S, Eval.expression fuel offset m = .error e S → result = .error e S) ∧
      ∀ o S₀, Eval.expression fuel offset m = .ok o S₀ →
        ((∀ i, o.value ≠ .integer i) → ∃ e, result = .error (.error e) S₀) ∧
        ∀ i, o.value = .integer i →
          (∀ e S, Eval.expression fuel value S₀ = .error e S → result = .error e S) ∧
          ∀ v S, Eval.expression fuel value S₀ = .ok v S → S.Assigns name (some i) v result) ∧
    ∀ receiver, (∀ id name, receiver ≠ .access id name) →
      (∀ id name offset, receiver ≠ .element id name offset) →
        ∃ e, Eval.statement (fuel + 2) (.assignment receiver value) m = .error (.error e) m := by
  refine ⟨fun id name => ⟨fun e S he => ?_, fun v S hv => ?_⟩,
    fun id name offset => ⟨fun e S he => ?_, fun o S₀ ho => ⟨fun hother => ?_, fun i hi =>
      ⟨fun e S he => ?_, fun v S hv => ?_⟩⟩⟩, fun receiver haccess helement => ?_⟩
  · exact Eval.statement_assignment_error (bind_eq_error he _)
  · have hassigns := S.assignVariable_assigns name v
    have hoperand : Eval.assignment (fuel + 1) (.access id name) value m =
        Eval.assignVariable name v S := bind_eq hv _
    rwa [← Eval.statement_assignment hoperand] at hassigns
  · exact Eval.statement_assignment_error (bind_eq_error he _)
  · obtain ⟨e, he⟩ := Eval.requireInteger_error hother S₀
    exact ⟨e, Eval.statement_assignment_error ((bind_eq ho _).trans (bind_eq_error he _))⟩
  · have hinteger := Eval.requireInteger_ok hi S₀
    exact Eval.statement_assignment_error
      ((bind_eq ho _).trans ((bind_eq hinteger _).trans (bind_eq_error he _)))
  · have hinteger := Eval.requireInteger_ok hi S₀
    have hassigns := S.writeElement_assigns name i v
    have hoperands : Eval.assignment (fuel + 1) (.element id name offset) value m =
        Eval.writeElement name i v S :=
      (bind_eq ho _).trans ((bind_eq hinteger _).trans (bind_eq hv _))
    rwa [← Eval.statement_assignment hoperands] at hassigns
  · refine ⟨.invalidAssignmentTarget, Eval.statement_assignment_error ?_⟩
    cases receiver with
    | access id name => exact absurd rfl (haccess id name)
    | element id name offset => exact absurd rfl (helement id name offset)
    | literal | group | binary | call | list => rfl

/-- The value of an assignment to `xs[1]` is a call that stores another list in `xs`, so the
assignment writes to that list, and the variable that holds the old one does not see it. -/
theorem assignment_writes_one_place_after_call :
    ∃ p next, Pipeline.sourceFrom 0
        "LIST xs: Integer = [1, 2]; VAR ys = xs; LIST zs: Integer = [3, 4];
        FUN swap(): Integer DO xs = zs; RETURN 5; END FUN main(): Integer DO RETURN 0; END" =
          .ok (p, next) ∧
      let m := after (Eval.source 30 p) (.start none)
      let offset : Expr := .literal 0 (.integer 1)
      let value : Expr := .call 1 "swap" []
      ∃ S₀ S, Eval.expression 28 offset m = .ok (.integer 1) S₀ ∧
        Eval.expression 28 value S₀ = .ok (.integer 5) S ∧
          S.Assigns "xs" (some 1) (.integer 5)
            (Eval.statement 30 (.assignment (.element 2 "xs" offset) value) m) ∧
          let m' := after (Eval.statement 30 (.assignment (.element 2 "xs" offset) value)) m
          m'.heap.elements 0 = [.integer 1, .integer 2] ∧
            m'.heap.elements 1 = [.integer 3, .integer 5] := by
  obtain ⟨⟨p, next⟩, hread, hgood⟩ := exists_ok_of_any
    (fun ⟨p, _⟩ =>
      let m := after (Eval.source 30 p) (.start none)
      let m' := after (Eval.statement 30 (.assignment
        (.element 2 "xs" (.literal 0 (.integer 1))) (.call 1 "swap" []))) m
      (match Eval.expression 28 (.call 1 "swap" []) m with
        | .ok o _ => o = .integer 5
        | .error _ _ => false) &&
        (m'.heap.elements 0 = [.integer 1, .integer 2] &&
          m'.heap.elements 1 = [.integer 3, .integer 5]))
    (show (Pipeline.sourceFrom 0 "LIST xs: Integer = [1, 2]; VAR ys = xs; LIST zs: Integer = [3, 4];
        FUN swap(): Integer DO xs = zs; RETURN 5; END FUN main(): Integer DO RETURN 0; END"
          ).toOption.any _ = true by decide +kernel)
  obtain ⟨hcall, hlists⟩ := Bool.and_eq_true_iff.1 hgood
  obtain ⟨hold, hnew⟩ := Bool.and_eq_true_iff.1 hlists
  refine ⟨p, next, hread, ?_⟩
  intro m offset value
  obtain ⟨S, hS⟩ : ∃ S, Eval.expression 28 value m = .ok (.integer 5) S := by
    split at hcall
    · rename_i o S hvalue
      exact ⟨S, of_decide_eq_true hcall ▸ hvalue⟩
    · cases hcall
  have helement := (assignment_writes_one_place 28 value m).2.1 2 "xs" offset
  exact ⟨m, S, rfl, hS, ((helement.2 (.integer 1) m rfl).2 1 rfl).2 _ S hS,
    of_decide_eq_true hold, of_decide_eq_true hnew⟩

end Scriptlet
