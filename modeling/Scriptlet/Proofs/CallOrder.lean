import Scriptlet.Proofs.Parts
import Scriptlet.Proofs.ProgramTyped

/-!
# The order of functions

Checking knows a function from its own body on.  So in an accepted program a function calls
only `print`, functions that stand before it, and itself, and a global calls `print` only:
no two functions can call each other (`Source.calls_of_check`).
-/

namespace Scriptlet

/-- The name and the number of arguments under which a function is found. -/
def FunctionDecl.key (f : FunctionDecl) : String × Nat := (f.name, f.parameterTypeNames.length)

/-- What a call is looked up by. -/
def Expr.callee? : Expr → Option (String × Nat)
  | .call _ name args => some (name, args.length)
  | _ => none

/-- Whether a function calls itself in its own body. -/
def FunctionDecl.callsItself (f : FunctionDecl) : Bool := f.parts.any (·.callee? = some f.key)

/-- The functions that can be called once those of a list are known. -/
def keysAfter (fs : List FunctionDecl) : List (String × Nat) :=
  ("print", 1) :: fs.map FunctionDecl.key

/-- All calls among some expressions are of certain functions. -/
def CallsWithin (K : String × Nat → Prop) (es : List Expr) : Prop :=
  ∀ e ∈ es, ∀ key, e.callee? = some key → K key

namespace CallsWithin

variable {K K' : String × Nat → Prop} {es es' : List Expr}

/-- There is no call. -/
theorem nil : CallsWithin K [] := nofun

/-- Calls of two parts. -/
theorem append (h : CallsWithin K es) (h' : CallsWithin K es') : CallsWithin K (es ++ es') :=
  List.forall_mem_append.2 ⟨h, h'⟩

/-- The parts of an expression, and then the expression itself. -/
theorem snoc (h : CallsWithin K es) {e : Expr} (he : ∀ key, e.callee? = some key → K key) :
    CallsWithin K (es ++ [e]) := h.append (List.forall_mem_singleton.2 he)

/-- Calls of some functions are calls of more. -/
theorem imp (h : CallsWithin K es) (hK : ∀ e ∈ es, ∀ key, e.callee? = some key → K key → K' key) :
    CallsWithin K' es := fun e he key hkey => hK e he key hkey (h e he key hkey)

end CallsWithin

namespace Typing

/-- A function that is known. -/
def Knows (Φ : Signatures) (key : String × Nat) : Prop := (Φ.find? key).isSome = true

variable {N : Notes} {Φ : Signatures}

/-- With one more function, a function is known already or is this one. -/
theorem Knows.of_insert {key key' : String × Nat} {r : Routine Unit}
    (h : Knows (Φ.insert key r) key') : Knows Φ key' ∨ key' = key := by
  unfold Knows at h ⊢
  rw [Table.find?_insert] at h
  split at h
  · exact .inr (Eq.symm ‹_›)
  · exact .inl h

mutual

/-- A well-typed expression calls functions that are known. -/
theorem HasType.calls {Γ : Env} {e : Expr} {ty : Ty} :
    HasType N Φ Γ e ty → CallsWithin (Knows Φ) e.parts
  | .literal _ _ | .access _ _ => CallsWithin.nil.snoc nofun
  | .group _ h _ => h.calls.snoc nofun
  | .binary hl hr _ _ => hl.calls.append (hr.calls.snoc nofun)
  | .element h _ _ => h.calls.snoc nofun
  | .call hr hargs _ => by
    refine hargs.calls.snoc fun key hkey => ?_
    cases hkey
    exact Option.isSome_of_eq_some hr
  | .list _ hes _ => hes.calls.snoc nofun

/-- Well-typed arguments call functions that are known. -/
theorem Fit.calls {Γ : Env} {es : List Expr} {tys : List Ty} :
    Fit N Φ Γ es tys → CallsWithin (Knows Φ) (Expr.partsOfList es)
  | .nil => .nil
  | .cons h _ hes => h.calls.append hes.calls

end

/-- The value of a declaration calls functions that are known. -/
theorem Declares.calls {Γ : Env} {typeName : Option String} {value : Option Expr} {ty : Ty}
    (h : Declares N Φ Γ typeName value ty) : CallsWithin (Knows Φ) (Expr.partsOfOption value) := by
  cases h with
  | both _ _ he _ => exact he.calls
  | named _ _ => exact .nil
  | inferred he => exact he.calls

mutual

/-- A well-typed statement calls functions that are known. -/
theorem Statement.calls {ret : Ty} {outer : Env} {before after : Locals} {s : Stmt} :
    Statement N Φ ret outer before s after → CallsWithin (Knows Φ) s.parts
  | .expression h => h.calls
  | .declaration h _ _ => h.calls
  | .assignment _ hr _ _ hv _ => hr.calls.append hv.calls
  | .ifElse hc _ ht he => hc.calls.append (ht.calls.append he.calls)
  | .switch hc ha => hc.calls.append ha.calls
  | .whileDo hc hb => hc.calls.append hb.calls
  | .returnWith hv _ => hv.calls

/-- A well-typed block calls functions that are known. -/
theorem Block.calls {ret : Ty} {outer : Env} {before after : Locals} {body : List Stmt} :
    Block N Φ ret outer before body after → CallsWithin (Knows Φ) (Stmt.partsOfList body)
  | .nil => .nil
  | .cons hs hrest => hs.calls.append hrest.calls

/-- Well-typed arms call functions that are known. -/
theorem Arms.calls {ret ty : Ty} {Γ : Env} {arms : List Case} :
    Arms N Φ ret Γ ty arms → CallsWithin (Knows Φ) (Case.partsOfList arms)
  | .nil => .nil
  | .case hv hb hrest => hv.calls.append (hb.calls.append hrest.calls)
  | .default hb => CallsWithin.nil.append (hb.calls.append .nil)

end

/-- A well-typed global calls functions that are known. -/
theorem Global.calls {before after : Locals} {g : GlobalDecl} (h : Global N Φ before g after) :
    CallsWithin (Knows Φ) g.parts := by
  unfold GlobalDecl.parts
  cases h with
  | plain _ hdeclares _ _ => exact hdeclares.calls
  | list hvalue _ _ hes _ _ _ =>
    rw [hvalue]
    exact hes.calls.snoc nofun

/-- Well-typed globals call functions that are known. -/
theorem Globals.calls {before after : Locals} {gs : List GlobalDecl}
    (h : Globals N Φ before gs after) : ∀ g ∈ gs, CallsWithin (Knows Φ) g.parts := by
  induction h with
  | nil => exact nofun
  | cons hg _ ih => exact List.forall_mem_cons.2 ⟨hg.calls, ih⟩

/-- A function is known under its own name and number of parameters. -/
theorem Signature.key {f : FunctionDecl} {r : Routine Unit} (h : Signature f r) :
    (r.name, r.arity) = f.key := by
  obtain ⟨tys, ret, htys, -, rfl⟩ := h
  exact Prod.ext rfl htys.length_eq.symm

/-- A function calls what is known before the functions, functions before it, and itself. -/
theorem Functions.calls {globals : Locals} {Φ' : Signatures} {fs : List FunctionDecl}
    (h : Functions N globals Φ fs Φ') {before : List FunctionDecl} {f : FunctionDecl}
    {rest : List FunctionDecl} (hfs : fs = before ++ f :: rest) :
    CallsWithin (fun key => Knows Φ key ∨ key ∈ (before ++ [f]).map FunctionDecl.key) f.parts := by
  induction h generalizing before with
  | nil => simp at hfs
  | cons hsignature _ _ hbody _ ih =>
    have hkey := hsignature.key
    cases before with
    | nil =>
      obtain ⟨rfl, -⟩ := List.cons.inj hfs
      obtain ⟨frame, after, -, hblock⟩ := hbody
      refine hblock.calls.imp fun e _ key _ hknows => hknows.of_insert.imp_right fun h => ?_
      simp [h, hkey]
    | cons g before =>
      obtain ⟨rfl, hrest⟩ := List.cons.inj hfs
      refine (ih hrest).imp fun e _ key _ hcase => ?_
      rcases hcase with hknows | hmem
      · exact hknows.of_insert.imp_right fun h => by simp [h, hkey]
      · exact .inr (List.mem_cons_of_mem _ hmem)

/-- What is known after some functions was known before, or is one of them. -/
theorem Functions.knows {globals : Locals} {Φ' : Signatures} {fs : List FunctionDecl}
    (h : Functions N globals Φ fs Φ') {key : String × Nat} (hkey : Knows Φ' key) :
    Knows Φ key ∨ key ∈ fs.map FunctionDecl.key := by
  induction h with
  | nil => exact .inl hkey
  | cons hsignature _ _ _ _ ih =>
    rcases ih hkey with hknows | hmem
    · exact hknows.of_insert.imp_right fun h => by simp [h, hsignature.key]
    · exact .inr (List.mem_cons_of_mem _ hmem)

/-- Every function of a well-typed program has a signature. -/
theorem Functions.signatures {globals : Locals} {Φ' : Signatures} {fs : List FunctionDecl}
    (h : Functions N globals Φ fs Φ') : ∀ f ∈ fs, ∃ r, Signature f r := by
  induction h with
  | nil => exact nofun
  | cons hsignature _ _ _ _ ih => exact List.forall_mem_cons.2 ⟨⟨_, hsignature⟩, ih⟩

/-- Of the builtin functions there is `print` alone. -/
theorem knows_builtins {key : String × Nat} (h : Knows builtins key) : key = ("print", 1) := by
  rcases h.of_insert with hnone | rfl
  · cases hnone
  · rfl

end Typing

open Typing

/-- The types that an accepted program names are known, and so is its `main`. -/
theorem Source.main_of_check {p : Source} {a : Annotations} (h : p.check = .ok a) :
    (∀ f ∈ p.functions, ∃ r, Signature f r) ∧ ("main", 0) ∈ keysAfter p.functions := by
  obtain ⟨globals, Φ, htyped⟩ := Source.wellTyped_of_check h
  obtain ⟨-, hfunctions, r, hmain, -⟩ := htyped .any (.inl rfl) (Notes.hold_any a _)
  refine ⟨hfunctions.signatures, ?_⟩
  rcases hfunctions.knows (Option.isSome_of_eq_some hmain) with hknows | hmem
  · exact List.mem_cons.2 (.inl (knows_builtins hknows))
  · exact List.mem_cons_of_mem _ hmem

/-- **An accepted program calls only what stands before the call**: a global calls `print`,
and a function calls `print`, functions before it, or itself. -/
theorem Source.calls_of_check {p : Source} {a : Annotations} (h : p.check = .ok a) :
    (∀ g ∈ p.globals, CallsWithin (· ∈ keysAfter []) g.parts) ∧
      ∀ before f rest, p.functions = before ++ f :: rest →
        CallsWithin (· ∈ keysAfter (before ++ [f])) f.parts := by
  obtain ⟨globals, Φ, htyped⟩ := Source.wellTyped_of_check h
  obtain ⟨hglobals, hfunctions, -⟩ := htyped .any (.inl rfl) (Notes.hold_any a _)
  constructor
  · intro g hg
    refine (hglobals.calls g hg).imp fun e _ key _ hknows => ?_
    exact List.mem_singleton.2 (knows_builtins hknows)
  · intro before f rest hfs
    refine (hfunctions.calls hfs).imp fun e _ key _ hcase => ?_
    rcases hcase with hknows | hmem
    · exact List.mem_cons.2 (.inl (knows_builtins hknows))
    · exact List.mem_cons_of_mem _ hmem

end Scriptlet
