import Scriptlet.Pipeline
import Scriptlet.Proofs.Fuel
import Scriptlet.Proofs.NameSound

/-!
# Runs with a limited output

An output with a limit takes bytes up to the limit, and the line that does not fit stops the
run.  So a run with a limit is a run without one that may be cut short (`Truncates`): as long
as what is printed fits, both are in the same state, and the first line that does not fit
ends the limited run with an error, after the bytes that still fit.  No step catches this
error, and none looks at what was printed.

Most steps know nothing of the output (`Eval.quietly`), and steps that are put together are cut
short where what they are made of is.  So the walk in `Walk` shows this of whole programs
(`Truncates.source`), and `run_with_limit_truncates` says it of runs that end.
-/

namespace Scriptlet

/-! ### Outputs -/

/-- The first `n` bytes, if there are no more. -/
theorem extract_eq_self {bytes : ByteArray} {n : Nat} (h : bytes.size ≤ n) :
    bytes.extract 0 n = bytes :=
  ByteArray.ext (ByteArray.data_extract.trans (Array.extract_eq_self_of_le h))

/-- The first `n` bytes of what goes on after them. -/
theorem extract_append_of_le {bytes : ByteArray} {n : Nat} (h : n ≤ bytes.size) (more : ByteArray) :
    (bytes ++ more).extract 0 n = bytes.extract 0 n := by
  have hnone : more.extract (0 - bytes.size) (n - bytes.size) = .empty :=
    ByteArray.extract_eq_empty_iff.2 (by omega)
  rw [ByteArray.extract_append, hnone, ByteArray.append_empty]

namespace Output

/-- Without a limit everything is printed. -/
theorem write_unlimited {o : Output} (h : o.limit = none) (text : String) :
    o.write text = (true, { o with bytes := o.bytes ++ text.toUTF8 }) := by
  have haccepted : o.accepted text.toUTF8.size = text.toUTF8.size := by
    rw [accepted, h]
  simp only [write, haccepted, decide_true, ByteArray.extract_zero_size]

/-- All that is printed is taken if it fits, and otherwise its first bytes. -/
theorem write_limited {o : Output} {n : Nat} (h : o.limit = some n) (hfits : o.bytes.size ≤ n)
    (text : String) :
    o.write text = (decide ((o.bytes ++ text.toUTF8).size ≤ n),
      { o with bytes := (o.bytes ++ text.toUTF8).extract 0 n }) := by
  have haccepted : o.accepted text.toUTF8.size = min text.toUTF8.size (n - o.bytes.size) := by
    rw [accepted, h]
  have hall : min text.toUTF8.size (n - o.bytes.size) = text.toUTF8.size ↔
      (o.bytes ++ text.toUTF8).size ≤ n := by
    rw [ByteArray.size_append]
    omega
  have hbytes : o.bytes ++ text.toUTF8.extract 0 (min text.toUTF8.size (n - o.bytes.size)) =
      (o.bytes ++ text.toUTF8).extract 0 n := by
    have hmin : text.toUTF8.extract 0 (min (n - o.bytes.size) text.toUTF8.size) =
        text.toUTF8.extract 0 (n - o.bytes.size) := by
      have hextract := ByteArray.extract_extract (a := text.toUTF8) (i := 0)
        (j := text.toUTF8.size) (k := 0) (l := n - o.bytes.size)
      rwa [ByteArray.extract_zero_size, Nat.zero_add, Nat.zero_add, eq_comm] at hextract
    rw [ByteArray.extract_append, extract_eq_self hfits, Nat.min_comm, hmin, Nat.zero_sub]
  simp only [write, haccepted, hall, hbytes]

end Output

namespace Machine

/-- The state with another limit for the output. -/
def limitedTo (n : Nat) (m : Machine) : Machine :=
  { m with output := { m.output with limit := some n } }

/-- What was printed. -/
def printed (m : Machine) : ByteArray := m.output.bytes

/-- The state after something else was printed. -/
def withPrinted (bytes : ByteArray) (m : Machine) : Machine :=
  { m with output := { m.output with bytes } }

/-- What was printed is what it was replaced by. -/
@[simp] theorem printed_withPrinted (bytes : ByteArray) (m : Machine) :
    (m.withPrinted bytes).printed = bytes := rfl

/-- The output has no limit. -/
def Unlimited (m : Machine) : Prop := m.output.limit = none

/-- What was printed by one state is continued by the other, both without a limit. -/
structure Continues (m m' : Machine) : Prop where
  unlimited : m'.Unlimited
  printed : ∃ more, m'.printed = m.printed ++ more

namespace Continues

variable {m m₁ m₂ : Machine}

/-- Nothing is printed. -/
theorem of_output_eq (h : m.Unlimited) (houtput : m₁.output = m.output) : m.Continues m₁ where
  unlimited := by rwa [Unlimited, houtput]
  printed := ⟨.empty, by rw [Machine.printed, houtput, ByteArray.append_empty]; rfl⟩

/-- What is printed goes on from what was printed. -/
theorem trans (h : m.Continues m₁) (h' : m₁.Continues m₂) : m.Continues m₂ := by
  obtain ⟨more, hmore⟩ := h.printed
  obtain ⟨more', hmore'⟩ := h'.printed
  exact ⟨h'.unlimited, more ++ more', by rw [hmore', hmore, ByteArray.append_assoc]⟩

/-- What was printed does not get shorter. -/
theorem size_le (h : m.Continues m₁) : m.printed.size ≤ m₁.printed.size := by
  obtain ⟨more, hmore⟩ := h.printed
  rw [hmore, ByteArray.size_append]
  exact Nat.le_add_right ..

/-- The first bytes stay. -/
theorem extract_eq (h : m.Continues m₁) {n : Nat} (hn : n ≤ m.printed.size) :
    m₁.printed.extract 0 n = m.printed.extract 0 n := by
  obtain ⟨more, hmore⟩ := h.printed
  rw [hmore, extract_append_of_le hn]

end Continues
end Machine

/-! ### Steps -/

/-- A step that neither looks at the output nor changes it. -/
def Eval.quietly {α : Type}
    (f : Scopes Object Body → Heap → Except EvalError (α × Scopes Object Body × Heap)) :
    Eval α := fun m =>
  match f m.scopes m.heap with
  | .ok (a, scopes, heap) => .ok a { m with scopes := scopes, heap := heap }
  | .error e => .error (.error e) m

/-- With a limit of `n` bytes a step does the same as without one, if what is printed fits; if
it does not, the step fails, and the first `n` bytes are printed. -/
structure Truncates {α : Type} (n : Nat) (x : Eval α) : Prop where
  continues : ∀ m : Machine, m.Unlimited → m.Continues (after x m)
  fits : ∀ m : Machine, m.Unlimited → (after x m).printed.size ≤ n →
    x (m.limitedTo n) = onState (Machine.limitedTo n) (x m)
  stops : ∀ m : Machine, m.Unlimited → m.printed.size ≤ n → n < (after x m).printed.size →
    ∃ m', x (m.limitedTo n) = .error (.error .outputFull) m' ∧
      m'.printed = (after x m).printed.extract 0 n

namespace Truncates

variable {n : Nat} {α β : Type} {x : Eval α}

/-- What knows nothing of the output does the same, whatever the limit. -/
theorem quietly
    (f : Scopes Object Body → Heap → Except EvalError (α × Scopes Object Body × Heap)) :
    Truncates n (Eval.quietly f) := by
  have houtput : ∀ m, (after (Eval.quietly f) m).output = m.output := by
    intro m
    simp only [after, Eval.quietly]
    cases f m.scopes m.heap <;> rfl
  refine ⟨fun m hm => .of_output_eq hm (houtput m), fun m _ _ => ?_, fun m _ hfits hmore => ?_⟩
  · have hsame : f (m.limitedTo n).scopes (m.limitedTo n).heap = f m.scopes m.heap := rfl
    simp only [Eval.quietly, hsame]
    cases f m.scopes m.heap <;> rfl
  · rw [Machine.printed, houtput] at hmore
    exact absurd hfits (Nat.not_le.2 hmore)

/-- A step that is quiet, if perhaps not written so. -/
theorem of_quietly
    (f : Scopes Object Body → Heap → Except EvalError (α × Scopes Object Body × Heap))
    (h : ∀ m, x m = Eval.quietly f m) : Truncates n x := by
  obtain rfl : x = Eval.quietly f := funext h
  exact quietly f

/-- A step without fuel prints nothing. -/
theorem outOfFuel : Truncates n (Eval.outOfFuel : Eval α) where
  continues _ hm := .of_output_eq hm rfl
  fits _ _ _ := rfl
  stops _ _ hfits hmore := absurd hfits (Nat.not_le.2 hmore)

/-- A line is printed if it fits; otherwise its first bytes are, and the step fails. -/
theorem printLine (o : Object) : Truncates n (Eval.printLine o) := by
  let all (m : Machine) : ByteArray := m.printed ++ (m.heap.text o.value ++ "\n").toUTF8
  have hfree : ∀ m : Machine, m.Unlimited →
      Eval.printLine o m = .ok () (m.withPrinted (all m)) := by
    intro m hm
    rw [Eval.printLine, Output.write_unlimited hm]
    rfl
  have hafter : ∀ m : Machine, m.Unlimited → (after (Eval.printLine o) m).printed = all m :=
    fun m hm => by rw [after_eq (hfree m hm), Machine.printed_withPrinted]
  have hcontinues : ∀ m : Machine, m.Unlimited → m.Continues (after (Eval.printLine o) m) := by
    intro m hm
    rw [after_eq (hfree m hm)]
    exact ⟨hm, _, rfl⟩
  have hlimited : ∀ m : Machine, m.printed.size ≤ n →
      let m' := (m.withPrinted ((all m).extract 0 n)).limitedTo n
      Eval.printLine o (m.limitedTo n) =
        if (all m).size ≤ n then .ok () m' else .error (.error .outputFull) m' := by
    intro m hfits m'
    have hwrite : (m.limitedTo n).output.write (m.heap.text o.value ++ "\n") =
        (decide ((all m).size ≤ n), m'.output) :=
      Output.write_limited (o := (m.limitedTo n).output) rfl hfits _
    rw [Eval.printLine, show (m.limitedTo n).heap = m.heap from rfl, hwrite]
    by_cases hall : (all m).size ≤ n
    · rw [if_pos hall]
      exact if_pos (decide_eq_true hall)
    · rw [if_neg hall]
      exact if_neg (by rw [decide_eq_false hall]; exact Bool.false_ne_true)
  refine ⟨hcontinues, fun m hm hall => ?_, fun m hm hfits hmore => ?_⟩
  · have hfits := Nat.le_trans (hcontinues m hm).size_le hall
    rw [hafter m hm] at hall
    rw [hlimited m hfits, if_pos hall, hfree m hm, extract_eq_self hall]
    rfl
  · rw [hafter m hm] at hmore ⊢
    exact ⟨_, (hlimited m hfits).trans (if_neg (Nat.not_le.2 hmore)), rfl⟩

/-- One step after the other: if the first prints too much, the second is not made. -/
theorem bind {f : α → Eval β} (hx : Truncates n x)
    (hf : ∀ m a m', x m = .ok a m' → Truncates n (f a)) : Truncates n (x >>= f) := by
  refine ⟨fun m hm => ?_, fun m hm hall => ?_, fun m hm hfits hmore => ?_⟩
  · have hfirst := hx.continues m hm
    cases hxm : x m with
    | ok a m₁ =>
      rw [after_eq hxm] at hfirst
      rw [after_bind_ok hxm]
      exact hfirst.trans ((hf m a m₁ hxm).continues m₁ hfirst.unlimited)
    | error e m₁ =>
      rw [after_eq_of_error hxm] at hfirst
      rwa [after_bind_error hxm]
  · have hfirst := hx.continues m hm
    cases hxm : x m with
    | ok a m₁ =>
      rw [after_eq hxm] at hfirst
      rw [after_bind_ok hxm] at hall
      have hsecond := (hf m a m₁ hxm).continues m₁ hfirst.unlimited
      have hlimited := hx.fits m hm (by rw [after_eq hxm]; exact Nat.le_trans hsecond.size_le hall)
      rw [hxm] at hlimited
      rw [bind_eq hlimited, bind_eq hxm]
      exact (hf m a m₁ hxm).fits m₁ hfirst.unlimited hall
    | error e m₁ =>
      rw [after_bind_error hxm] at hall
      have hlimited := hx.fits m hm (by rwa [after_eq_of_error hxm])
      rw [hxm] at hlimited
      rw [bind_eq_error hlimited, bind_eq_error hxm]
      rfl
  · have hfirst := hx.continues m hm
    cases hxm : x m with
    | ok a m₁ =>
      rw [after_eq hxm] at hfirst
      rw [after_bind_ok hxm] at hmore ⊢
      rcases Nat.lt_or_ge n m₁.printed.size with hfull | hroom
      · -- the first step already prints too much, and the second one adds to that
        obtain ⟨m', hlimited, hprinted⟩ := hx.stops m hm hfits (by rwa [after_eq hxm])
        rw [after_eq hxm] at hprinted
        have hsecond := (hf m a m₁ hxm).continues m₁ hfirst.unlimited
        refine ⟨m', bind_eq_error hlimited f, hprinted.trans ?_⟩
        exact (hsecond.extract_eq (Nat.le_of_lt hfull)).symm
      · have hlimited := hx.fits m hm (by rwa [after_eq hxm])
        rw [hxm] at hlimited
        rw [bind_eq hlimited]
        exact (hf m a m₁ hxm).stops m₁ hfirst.unlimited hroom hmore
    | error e m₁ =>
      rw [after_bind_error hxm] at hmore ⊢
      obtain ⟨m', hlimited, hprinted⟩ := hx.stops m hm hfits (by rwa [after_eq_of_error hxm])
      rw [after_eq_of_error hxm] at hprinted
      exact ⟨m', bind_eq_error hlimited f, hprinted⟩

/-- A step in a scope of its own prints what the step prints. -/
theorem inScopeOf (parent : ScopeId) (hx : Truncates n x) :
    Truncates n (Eval.inScopeOf parent x) := by
  -- opening and closing the scope leaves the output alone
  have hin : ∀ m, Eval.inScopeOf parent x m =
      onState (fun m' => { m' with scopes := m'.scopes.leave m.scopes.frame })
        (x { m with scopes := m.scopes.enter parent }) := by
    intro m
    rw [Eval.inScopeOf]
    cases x { m with scopes := m.scopes.enter parent } <;> rfl
  have hprinted : ∀ m, (after (Eval.inScopeOf parent x) m).output =
      (after x { m with scopes := m.scopes.enter parent }).output := by
    intro m
    rw [after_of_onState (hin m)]
  refine ⟨fun m hm => ?_, fun m hm hall => ?_, fun m hm hfits hmore => ?_⟩
  · obtain ⟨hunlimited, hcontinued⟩ := hx.continues { m with scopes := m.scopes.enter parent } hm
    rw [Machine.printed, ← hprinted] at hcontinued
    rw [Machine.Unlimited, ← hprinted] at hunlimited
    exact ⟨hunlimited, hcontinued⟩
  · rw [Machine.printed, hprinted] at hall
    have hlimited := hx.fits { m with scopes := m.scopes.enter parent } hm hall
    rw [hin, hin]
    simp only [Machine.limitedTo] at hlimited ⊢
    rw [hlimited]
    cases x { m with scopes := m.scopes.enter parent } <;> rfl
  · rw [Machine.printed, hprinted] at hmore ⊢
    obtain ⟨m', hlimited, hbytes⟩ :=
      hx.stops { m with scopes := m.scopes.enter parent } hm hfits hmore
    rw [hin]
    simp only [Machine.limitedTo] at hlimited ⊢
    rw [hlimited]
    exact ⟨_, rfl, hbytes⟩

/-- The current scope is looked at, and the step made in a scope below it. -/
theorem inScope (hx : Truncates n x) : Truncates n (Eval.inScope x) := by
  have hcurrent : Truncates n fun m => .ok m.scopes.current m :=
    of_quietly (fun s h => .ok (s.current, s, h)) fun _ => rfl
  exact hcurrent.bind fun _ parent _ _ => hx.inScopeOf parent

/-! ### Quiet steps -/

/-- What looks at the lists is quiet. -/
theorem reads (f : Heap → Except EvalError α) : Truncates n (Eval.reads f) := by
  refine of_quietly (fun s h => (f h).map fun a => (a, s, h)) fun m => ?_
  simp only [Eval.reads, Eval.quietly]
  cases f m.heap <;> rfl

/-- Looking up a variable is quiet. -/
theorem lookupVariable (name : String) : Truncates n (Eval.lookupVariable name) := by
  refine of_quietly (fun s h => (s.findVariable? name).elim
    (.error (.undefinedVariable name)) fun v => .ok (v, s, h)) fun m => ?_
  simp only [Eval.lookupVariable, Eval.quietly]
  cases m.scopes.findVariable? name <;> rfl

/-- Looking up a function is quiet. -/
theorem lookupFunction (name : String) (arity : Nat) :
    Truncates n (Eval.lookupFunction name arity) := by
  refine of_quietly (fun s h => (s.findFunction? name arity).elim
    (.error (.undefinedFunction name arity)) fun r => .ok (r, s, h)) fun m => ?_
  simp only [Eval.lookupFunction, Eval.quietly]
  cases m.scopes.findFunction? name arity <;> rfl

/-- Declaring a variable is quiet. -/
theorem defineVariable (v : Variable Object) : Truncates n (Eval.defineVariable v) := by
  refine of_quietly (fun s h => ((s.defineVariable v).mapError .redefinition).map
    fun s' => ((), s', h)) fun m => ?_
  simp only [Eval.defineVariable, Eval.quietly]
  cases m.scopes.defineVariable v <;> rfl

/-- Assigning to a variable is quiet. -/
theorem assignVariable (name : String) (value : Object) :
    Truncates n (Eval.assignVariable name value) := by
  have hassign : Truncates n fun m => .ok ()
      { m with scopes := (m.scopes.assign? name value).getD m.scopes } :=
    of_quietly (fun s h => .ok ((), (s.assign? name value).getD s, h)) fun _ => rfl
  have hfail : Truncates n (Eval.fail (.immutableAssignment name) : Eval Unit) :=
    of_quietly (fun _ _ => .error _) fun _ => rfl
  refine (lookupVariable name).bind fun _ v _ _ => ?_
  cases v.mutable with
  | false => exact hfail.bind fun _ _ _ _ => hassign
  | true => exact hassign

/-- A function of the embedding program is quiet. -/
theorem callNative (name : String) (run : Native) (arguments : List Object) :
    Truncates n (Eval.callNative name run arguments) := by
  refine of_quietly (fun s h => ((run h arguments).mapError (.native name)).map
    fun result => (result.1, s, result.2)) fun m => ?_
  simp only [Eval.callNative, Eval.quietly]
  cases run m.heap arguments <;> rfl

/-! ### Parts of programs -/

/-- The walk that shows that a limit cuts runs short. -/
def walk (n : Nat) : Walk where
  Step _ x := Truncates n x
  Rel _ _ y := Truncates n y
  Named _ := True
  Callable _ _ := True

/-- Only `print` prints, and steps that are put together are cut short at the first line that
does not fit. -/
theorem walk_lawful (n : Nat) : (walk n).Lawful where
  andThen hx hf := hx.bind fun _ a _ _ => hf a
  reads f _ := reads f
  lookupVariable _ := lookupVariable _
  assignVariable _ value := assignVariable _ value
  defineVariable _ := defineVariable _
  allocList elements :=
    of_quietly (fun s h => .ok ((h.alloc elements).1, s, (h.alloc elements).2)) fun _ => rfl
  write cell i value := of_quietly (fun s h => .ok ((), s, h.write cell i value)) fun _ => rfl
  printLine := printLine
  callNative _ _ := callNative _ _ _
  mismatch _ _ := of_quietly (fun _ _ => .error _) fun _ => rfl
  basic hx := hx
  weaken h := h
  pure a := of_quietly (fun s h => .ok (a, s, h)) fun _ => rfl
  note _ := of_quietly (fun s h => .ok ((), s, h)) fun _ => rfl
  place _ := of_quietly (fun s h => .ok ((), s, h)) fun _ => rfl
  seq _ _ hP hx hf := hx.bind fun m a m' ha => hf a (hP m a m' ha)
  lookupFunction name arity hf := (lookupFunction name arity).bind fun _ r _ _ => hf r trivial
  inScope h := h.inScope
  inScopeOf _ _ h := h.inScopeOf _
  names _ _ _ _ := trivial

/-- Looking up types is quiet. -/
theorem mapM_typeNamed (names : List String) : Truncates n (names.mapM Eval.typeNamed) := by
  induction names with
  | nil => exact (walk_lawful n).pure []
  | cons name names ih =>
    rw [List.mapM_cons]
    exact ((walk_lawful n).typeNamed name).bind fun _ _ _ _ =>
      ih.bind fun _ _ _ _ => (walk_lawful n).pure _

/-- Defining a function is quiet. -/
theorem function (f : FunctionDecl) : Truncates n (Eval.function f) := by
  have hdefine : ∀ tys ty, Truncates n fun m =>
      Eval.defineFunction (.named f.name tys ty (.declared f m.scopes.current)) m := by
    intro tys ty
    refine of_quietly (fun s h =>
      ((s.defineFunction (.named f.name tys ty (.declared f s.current))).mapError
        .redefinition).map fun s' => ((), s', h)) fun m => ?_
    simp only [Eval.defineFunction, Eval.quietly]
    cases m.scopes.defineFunction (.named f.name tys ty (.declared f m.scopes.current)) <;> rfl
  refine (mapM_typeNamed f.parameterTypeNames).bind fun _ tys _ _ => ?_
  cases f.returnTypeName with
  | none => exact hdefine tys .nil
  | some name => exact ((walk_lawful n).typeNamed name).bind fun _ ty _ _ => hdefine tys ty

/-- **A limit cuts the run of a program short and changes nothing else.** -/
theorem source (n fuel : Nat) (p : Source) : Truncates n (Eval.source fuel p) :=
  ((walk_lawful n).relAt outOfFuel fuel).source (walk_lawful n) (fun _ => trivial)
    fun f _ => function f

end Truncates

/-! ### Programs -/

namespace Pipeline

/-- How a run is shown: its outcome and the state after it. -/
def shown : EStateM.Result Halt Machine Object → Except Failure Object × Machine
  | .ok value m => (.ok value, m)
  | .error (.error e) m => (.error (.evaluation e), m)
  | .error .outOfFuel m => (.error .outOfFuel, m)

/-- A run is the evaluation of the program, with its outcome as it is shown. -/
theorem run_eq (fuel : Nat) (limit : Option Nat) (p : Source) :
    run fuel limit p = shown (Eval.source fuel p (.start limit)) := by
  rw [run]
  cases Eval.source fuel p (.start limit) with
  | ok value m => rfl
  | error e m => cases e <;> rfl

/-- The state after a run, whatever its outcome. -/
theorem snd_run (fuel : Nat) (limit : Option Nat) (p : Source) :
    (run fuel limit p).2 = after (Eval.source fuel p) (.start limit) := by
  rw [run_eq, after]
  cases Eval.source fuel p (.start limit) with
  | ok value m => rfl
  | error e m => cases e <;> rfl

/-- More fuel gives the same, if there was enough. -/
theorem run_steady {fuel fuel' : Nat} {limit : Option Nat} {p : Source} (hfuel : fuel ≤ fuel')
    (hends : (run fuel limit p).1 ≠ .error .outOfFuel) :
    run fuel' limit p = run fuel limit p := by
  have hfinished : Finished (Eval.source fuel p (.start limit)) := by
    intro m h
    rw [run_eq, h] at hends
    exact hends rfl
  rw [run_eq, run_eq, Eval.source_steady hfuel p (.start limit) hfinished]

end Pipeline

/-- **A limit of the output cuts a run short and changes nothing else.**  Let a program's run
without a limit end with the outcome `r` in the state `m`.  Run with a limit of `n` bytes it
prints the first `n` of the bytes that it prints without.  If these are all, it has the same
outcome and ends in the same state, up to the limit; and otherwise it ends with the error that
the output is full. -/
theorem run_with_limit_truncates {p : Source} {fuel fuel' : Nat} {r : Except Failure Object}
    {m : Machine} (hrun : Pipeline.run fuel none p = (r, m)) (hends : r ≠ .error .outOfFuel)
    (hfuel : fuel ≤ fuel') (n : Nat) :
    let limited := Pipeline.run fuel' (some n) p
    limited.2.printed = m.printed.extract 0 n ∧
      (m.printed.size ≤ n → limited = (r, m.limitedTo n)) ∧
        (n < m.printed.size → limited.1 = .error (.evaluation .outputFull)) := by
  intro limited
  have htruncates := Truncates.source n fuel' p
  have hrun' : Pipeline.run fuel' none p = (r, m) := by
    rw [Pipeline.run_steady hfuel (by rwa [hrun]), hrun]
  have hafter : after (Eval.source fuel' p) (.start none) = m := by
    rw [← Pipeline.snd_run, hrun']
  have hfits : m.printed.size ≤ n → limited = (r, m.limitedTo n) := by
    intro hall
    have hlimited := htruncates.fits (.start none) rfl (by rwa [hafter])
    have hshown : limited =
        Pipeline.shown (onState (Machine.limitedTo n) (Eval.source fuel' p (.start none))) :=
      (Pipeline.run_eq fuel' (some n) p).trans (congrArg Pipeline.shown hlimited)
    rw [Pipeline.run_eq] at hrun'
    rw [hshown]
    cases hfree : Eval.source fuel' p (.start none) with
    | ok value m' =>
      rw [hfree] at hrun'
      cases hrun'
      rfl
    | error e m' =>
      rw [hfree] at hrun'
      cases e <;> (cases hrun'; rfl)
  have hstops : n < m.printed.size → ∃ m', limited = (.error (.evaluation .outputFull), m') ∧
      m'.printed = m.printed.extract 0 n := by
    intro hmore
    obtain ⟨m', hlimited, hprinted⟩ :=
      htruncates.stops (.start none) rfl (Nat.zero_le n) (by rwa [hafter])
    rw [hafter] at hprinted
    exact ⟨m', (Pipeline.run_eq fuel' (some n) p).trans (congrArg Pipeline.shown hlimited),
      hprinted⟩
  refine ⟨?_, hfits, fun hmore => ?_⟩
  · rcases Nat.lt_or_ge n m.printed.size with hmore | hall
    · obtain ⟨m', hlimited, hprinted⟩ := hstops hmore
      rw [hlimited]
      exact hprinted
    · rw [hfits hall, extract_eq_self hall]
      rfl
  · obtain ⟨m', hlimited, -⟩ := hstops hmore
    rw [hlimited]

/-- Three lines are printed by calls, two of them by the operands of a condition.  A limit in
the second line ends the run there, and a limit of all nine bytes does nothing. -/
theorem run_with_limit_truncates_in_condition :
    ∃ p next r m, Pipeline.sourceFrom 0 "FUN say(n: Integer): Integer DO print(n); RETURN n; END
        FUN main(): Integer DO WHILE say(10) + say(200) > 0 DO RETURN say(7); END RETURN 0; END" =
          .ok (p, next) ∧
      Pipeline.run 30 none p = (r, m) ∧ r ≠ .error .outOfFuel ∧
        m.printed.data = "10\n200\n7\n".toUTF8.data ∧
          (Pipeline.run 40 (some 5) p).2.printed = m.printed.extract 0 5 ∧
            (Pipeline.run 40 (some 5) p).1 = .error (.evaluation .outputFull) ∧
              Pipeline.run 40 (some 9) p = (r, m.limitedTo 9) := by
  obtain ⟨⟨p, next⟩, hread, hgood⟩ := exists_ok_of_any
    (fun ⟨p, _⟩ => (Pipeline.run 30 none p).1.toOption.isSome &&
      (Pipeline.run 30 none p).2.printed.data = "10\n200\n7\n".toUTF8.data)
    (show (Pipeline.sourceFrom 0 "FUN say(n: Integer): Integer DO print(n); RETURN n; END
        FUN main(): Integer DO WHILE say(10) + say(200) > 0 DO RETURN say(7); END RETURN 0; END"
          ).toOption.any _ = true by decide +kernel)
  obtain ⟨r, m, hrun⟩ : ∃ r m, Pipeline.run 30 none p = (r, m) := ⟨_, _, rfl⟩
  obtain ⟨hvalue, hprinted⟩ := Bool.and_eq_true_iff.1 hgood
  rw [hrun] at hvalue hprinted
  have hends : r ≠ .error .outOfFuel := by
    rintro rfl
    cases hvalue
  have hsize : m.printed.size = 9 := by
    rw [← ByteArray.size_data, of_decide_eq_true hprinted]
    decide +kernel
  have hlimited := run_with_limit_truncates hrun hends (show 30 ≤ 40 by decide)
  exact ⟨p, next, r, m, hread, hrun, hends, of_decide_eq_true hprinted, (hlimited 5).1,
    (hlimited 5).2.2 (by rw [hsize]; decide), (hlimited 9).2.1 (Nat.le_of_eq hsize)⟩

end Scriptlet
