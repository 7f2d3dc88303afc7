import Scriptlet.Pipeline
import Scriptlet.Proofs.CheckComplete
import Scriptlet.Proofs.NameSound

/-!
# Exactly the well-typed programs are accepted

Globals and functions after expressions and statements: a derivation for a whole program is
followed by a check that succeeds (`WellTyped.check_eq`).  Together with
`Source.wellTyped_of_check` this is the main result, `check_accepts_iff_wellTyped`: checking
succeeds exactly for the programs with a derivation, and the type that it records at an
expression is the only one that a derivation can give it.
-/

namespace Scriptlet

namespace Check

open Typing Annotations

variable {N : Notes} {Φ : Signatures} {scopes : Scopes Unit Unit} {frame after : Locals}

/-! ### Globals -/

/-- The value of a global is an expression like others unless it is a list. -/
theorem globalValue_eq_expression? {value : Option Expr}
    (h : ∀ id es, value ≠ some (.list id es)) (declared : Option Ty) :
    globalValue declared value = expression? value := by
  rw [globalValue]
  exact fun id es => h id es

/-- The elements of a list have the declared type of the list, and the list has it too. -/
theorem listValue_accepts (hs : Shows scopes Φ [frame]) {id : NodeId} {es : List Expr} {ty : Ty}
    {declared : Option Ty} (hty : declared.getD .any = ty)
    (hes : Fit N Φ [frame] es (List.replicate es.length ty)) (hnote : N.type id ty) :
    Accepts N (Expr.list id es).nodes (Expr.list id es).parts
      (globalValue declared (some (.list id es))) none scopes (some ty) scopes := by
  subst hty
  intro a
  obtain ⟨a₁, hrun, hfinds⟩ := hes.accepts es hs a
  refine ⟨a₁.setType id (declared.getD .any), ?_, ?_⟩
  · rw [globalValue, elements_eq, bind_eq hrun]
    rfl
  · exact hfinds.node (.setType a₁ id _) rfl rfl fun _ =>
      ⟨⟨_, find?_setType a₁ id _, hnote⟩, trivial⟩

/-- The declared type of a list that is a global. -/
theorem typeNamed?_list {typeName : Option String} {ty : Ty}
    (h : typeName.elim (some .any) Ty.ofName? = some ty) (name : String) :
    ∃ declared, typeNamed? typeName = .ok declared ∧ declared.getD .any = ty ∧
      declaredType name declared (some ty) = .ok ty := by
  cases typeName with
  | none =>
    cases h
    exact ⟨none, rfl, rfl, rfl⟩
  | some typeName =>
    refine ⟨some ty, typeNamed?_eq h, rfl, ?_⟩
    rw [declaredType, requireFits_eq (.same ty)]
    rfl

/-- A well-typed global is accepted. -/
theorem global_accepts {g : GlobalDecl} (h : Typing.Global N Φ frame g after)
    (hs : Shows scopes Φ [frame]) :
    Accepts N g.nodes g.parts (global g) none scopes () (scopes.withVars after) ∧ after.Named := by
  have hframe := (List.forall_mem_cons.1 hs.named).1
  cases h with
  | @plain ty hplain hdeclares hfree _ =>
    have hdeclaration := declaration_accepts none hs g.id g.mutable hdeclares hfree
    refine ⟨?_, hframe.insert ⟨g.name, ty, g.mutable, ()⟩⟩
    unfold global
    simp only [globalValue_eq_expression? hplain]
    exact hdeclaration
  | @list id es ty hvalue htype _ hes hnote hfree _ =>
    obtain ⟨declared, hnamed, hget, hty⟩ := typeNamed?_list htype g.name
    have hlist := listValue_accepts hs hget hes hnote
    have hdeclare := declare_accepts (N := N) (v := ⟨g.name, ty, g.mutable, ()⟩) none hs hfree g.id
    refine ⟨?_, hframe.insert ⟨g.name, ty, g.mutable, ()⟩⟩
    rw [GlobalDecl.nodes, GlobalDecl.parts, global, hvalue,
      ← List.append_nil (Expr.partsOfOption _)]
    exact .rule hnamed (hlist.bind (.rule hty hdeclare))

/-- Well-typed globals are accepted, one after the other. -/
theorem globals_accepts {gs : List GlobalDecl} (h : Globals N Φ frame gs after)
    (hs : Shows scopes Φ [frame]) :
    Accepts N (gs.flatMap GlobalDecl.nodes) (gs.flatMap GlobalDecl.parts) (gs.forM global) none
      scopes () (scopes.withVars after) ∧ after.Named := by
  induction h generalizing scopes with
  | nil =>
    rw [hs.withVars_eq]
    exact ⟨.pure N none () scopes, (List.forall_mem_cons.1 hs.named).1⟩
  | cons hg _ ih =>
    obtain ⟨hglobal, hbetween⟩ := global_accepts hg hs
    obtain ⟨hrest, hafter⟩ := ih (hs.withVars hbetween)
    rw [Scopes.withVars_withVars] at hrest
    exact ⟨hglobal.bind hrest, hafter⟩

/-! ### Functions -/

/-- Parameters with different names are accepted. -/
theorem parameters_accepts (ret : Option Ty) {outer : Env} {names : List String} {tys : List Ty}
    (h : Parameters frame names tys after) (hs : Shows scopes Φ (frame :: outer)) :
    Accepts N [] [] (parameters names tys) ret scopes () (scopes.withVars after) ∧
      after.Named := by
  induction h generalizing scopes with
  | noName | noType =>
    rw [hs.withVars_eq, parameters]
    · exact ⟨.pure N ret () scopes, (List.forall_mem_cons.1 hs.named).1⟩
    · simp
  | @cons frame after name names ty tys hfree _ ih =>
    have hvars := (List.forall_mem_cons.1 hs.named).1.insert ⟨name, ty, true, ()⟩
    obtain ⟨hrest, hafter⟩ := ih (hs.withVars hvars)
    rw [Scopes.withVars_withVars] at hrest
    refine ⟨?_, hafter⟩
    intro a
    obtain ⟨a', hrun, hfinds⟩ := hrest a
    exact ⟨a', (bind_eq (defineVariable_eq hs hfree a) _).trans hrun, hfinds⟩

/-- The types of parameters are known by their names. -/
theorem typesNamed_eq {names : List String} {tys : List Ty}
    (h : List.Forall₂ (fun name ty => Ty.ofName? name = some ty) names tys) :
    names.mapM typeNamed = .ok tys := by
  induction h with
  | nil => rfl
  | cons hname _ ih =>
    rw [List.mapM_cons, ih, typeNamed, hname]
    rfl

/-- A function that has a signature gets this one. -/
theorem signature_eq {f : FunctionDecl} {r : Routine Unit} (h : Signature f r) :
    signature f = .ok r := by
  obtain ⟨tys, ty, htys, hty, rfl⟩ := h
  rw [signature, typesNamed_eq htys]
  cases hreturn : f.returnTypeName with
  | none =>
    rw [hreturn] at hty
    cases hty
    rfl
  | some name =>
    rw [hreturn] at hty
    rw [typeNamed?_eq hty]
    rfl

/-- A function of a program has its own name in Java. -/
theorem javaName_of_signature {f : FunctionDecl} {r : Routine Unit} (h : Signature f r) :
    r.javaName = r.name := by
  obtain ⟨tys, ty, -, -, rfl⟩ := h
  rfl

/-- Parameters and body of a function share a scope. -/
theorem body_accepts {globals : Locals} {f : FunctionDecl} {r : Routine Unit}
    (h : Typing.Body N Φ globals f r) (hs : Shows scopes Φ [globals]) :
    Accepts N (Stmt.nodesOfList f.body) f.parts
      (returning r.returnType <| inScope do
        parameters f.parameters r.parameterTypes
        block f.body) none scopes () scopes := by
  obtain ⟨frame, after, hparameters, hblock⟩ := h
  obtain ⟨hfirst, hframe⟩ := parameters_accepts (N := N) (some r.returnType) hparameters hs.enter
  obtain ⟨hbody, -⟩ := hblock.accepts f.body (hs.enter.withVars hframe)
  rw [Scopes.withVars_withVars] at hbody
  exact .returning (.inScope (hfirst.bind hbody))

/-- The scopes at the root, with one more function. -/
theorem Shows.addFunction {globals : Locals} (hs : Shows scopes Φ [globals])
    (hroot : scopes.current = 0) {r : Routine Unit} (hname : r.javaName = r.name)
    (hnew : Φ.find? (r.name, r.arity) = none) :
    Shows (scopes.modify 0 (·.addFunction r)) (Φ.insert (r.name, r.arity) r) [globals] where
  chain := by
    have hchain := hs.chain
    rw [hroot] at hchain
    rw [Scopes.modify, hroot]
    exact hchain.addFunction r
  named := hs.named
  javaNamed := hs.javaNamed.insert hname hnew

/-- A new function is put into the root. -/
theorem defineFunction_eq {globals : Locals} (hs : Shows scopes Φ [globals])
    (hroot : scopes.current = 0) {r : Routine Unit} (hnew : Φ.find? (r.name, r.arity) = none)
    (a : Annotations) :
    defineFunction r ⟨scopes, a, none⟩ = .ok () ⟨scopes.modify 0 (·.addFunction r), a, none⟩ := by
  have hchain := hs.chain
  rw [hroot] at hchain
  rw [defineFunction, hchain.defineFunction hroot r, hnew]

/-- A well-typed function is accepted: it is known in its own body. -/
theorem function_accepts {globals : Locals} {f : FunctionDecl} {r : Routine Unit}
    (hsignature : Signature f r) (hnew : Φ.find? (r.name, r.arity) = none)
    (hbody : Typing.Body N (Φ.insert (r.name, r.arity) r) globals f r)
    (hs : Shows scopes Φ [globals]) (hroot : scopes.current = 0) :
    Accepts N f.nodes f.parts (function f) none scopes () (scopes.modify 0 (·.addFunction r)) := by
  have hjava := javaName_of_signature hsignature
  intro a
  obtain ⟨a', hrun, hfinds⟩ := body_accepts hbody (hs.addFunction hroot hjava hnew)
    (a.bindFunction f.id r)
  refine ⟨a', ?_, ?_⟩
  · unfold function
    rw [signature_eq hsignature]
    exact (bind_eq (defineFunction_eq hs hroot hnew a) _).trans hrun
  · -- the node of the function is noted first, but stands last among its nodes
    have hfirst := Finds.other (N := N) (.bindFunction a f.id r)
    exact (hfirst.trans hfinds).perm List.perm_append_comm

/-- Well-typed functions are accepted, each with those before it. -/
theorem functions_accepts {globals : Locals} {fs : List FunctionDecl} {Φ' : Signatures}
    (h : Functions N globals Φ fs Φ') (hs : Shows scopes Φ [globals]) (hroot : scopes.current = 0) :
    ∃ scopes', Accepts N (fs.flatMap FunctionDecl.nodes) (fs.flatMap FunctionDecl.parts)
      (fs.forM function) none scopes () scopes' ∧ Shows scopes' Φ' [globals] := by
  induction h generalizing scopes with
  | nil => exact ⟨scopes, .pure N none () scopes, hs⟩
  | @cons Φ _ f r rest hsignature _ hnew hbody _ ih =>
    have hfirst := function_accepts hsignature hnew hbody hs hroot
    have hjava := javaName_of_signature hsignature
    obtain ⟨scopes', hrest, hs'⟩ := ih (hs.addFunction hroot hjava hnew) hroot
    exact ⟨scopes', hfirst.bind hrest, hs'⟩

/-! ### Programs -/

/-- The program has a `main` as it should be. -/
theorem requireMain_eq {globals : Locals} (hs : Shows scopes Φ [globals]) {r : Routine Unit}
    (hmain : Φ.find? ("main", 0) = some r) (hinteger : r.returnType = .integer) (a : Annotations) :
    requireMain ⟨scopes, a, none⟩ = .ok () ⟨scopes, a, none⟩ := by
  have hfind := (hs.chain.findFunction? "main" 0).trans hmain
  rw [requireMain, hfind]
  exact if_pos hinteger

/-- At first there are the builtin functions and no globals. -/
theorem shows_start : Shows start.scopes Typing.builtins [.empty] where
  chain := chain_start
  named := List.forall_mem_singleton.2 .empty
  javaNamed := javaNamed_builtins

end Check

open Check Annotations in
/-- **A well-typed program is accepted**, and all is found out about its expressions. -/
theorem WellTyped.check_eq {N : Notes} {p : Source} {frame : Locals} {Φ : Signatures}
    (h : WellTyped N p frame Φ) :
    ∃ a, p.check = .ok a ∧ Finds N p.nodes p.expressions start.annotations a := by
  obtain ⟨hglobals, hfunctions, r, hmain, hinteger⟩ := h
  obtain ⟨hglobals, hframe⟩ := globals_accepts hglobals shows_start
  have hs := shows_start.withVars hframe
  obtain ⟨scopes', hfunctions, hs'⟩ := functions_accepts hfunctions hs rfl
  obtain ⟨a₁, hrun₁, hfinds₁⟩ := hglobals start.annotations
  obtain ⟨a₂, hrun₂, hfinds₂⟩ := hfunctions a₁
  have hrun : source p start = .ok () ⟨scopes', a₂, none⟩ := by
    rw [source, bind_eq (s := start) hrun₁, bind_eq hrun₂]
    exact requireMain_eq hs' hmain hinteger a₂
  refine ⟨a₂, ?_, hfinds₁.trans hfinds₂⟩
  rw [Source.check, hrun]

/-- The types and variables of a derivation are those that were found out. -/
def Annotations.exactNotes (a : Annotations) : Notes where
  type id ty := a.types.find? id = some ty
  var id v := a.vars.find? id = some v
  named _ := True
  lists := True

/-- **Checking accepts exactly the well-typed programs**, if the nodes of the program are
distinct.  What is recorded for a program that is accepted is a derivation, and the type
recorded at an expression is the one that every derivation gives it. -/
theorem check_accepts_iff_wellTyped {p : Source} (hnodes : p.nodes.Nodup) :
    ((∃ a, p.check = .ok a) ↔ ∃ frame Φ, WellTyped .any p frame Φ) ∧
      ∀ a, p.check = .ok a → (∃ frame Φ, WellTyped a.exactNotes p frame Φ) ∧
        ∀ e ∈ p.expressions, ∃ ty, a.types.find? e.id = some ty ∧
          ∀ N frame Φ, WellTyped N p frame Φ → N.type e.id ty := by
  refine ⟨⟨?_, ?_⟩, fun a hcheck => ?_⟩
  · rintro ⟨a, hcheck⟩
    obtain ⟨frame, Φ, htyped⟩ := Source.wellTyped_of_check hcheck
    exact ⟨frame, Φ, htyped .any (.inl rfl) (Notes.hold_any a p.nodes)⟩
  · rintro ⟨frame, Φ, htyped⟩
    obtain ⟨a, hcheck, -⟩ := htyped.check_eq
    exact ⟨a, hcheck⟩
  · have hsuits : a.exactNotes.Suits p.nodes p.plain :=
      .inr ⟨fun _ _ => trivial, hnodes, .inr ⟨trivial, fun _ => trivial⟩⟩
    have hhold : a.exactNotes.Hold a p.nodes := fun _ _ => ⟨fun _ h => h, fun _ h => h⟩
    obtain ⟨frame, Φ, htyped⟩ := Source.wellTyped_of_check hcheck
    have hexact := htyped a.exactNotes hsuits hhold
    -- whatever the derivation, checking finds out the same
    have hknows : ∀ {N frame Φ}, WellTyped N p frame Φ → ∀ e ∈ p.expressions, a.Knows N e := by
      intro N frame Φ hderivation e he
      obtain ⟨a', hcheck', hfinds⟩ := hderivation.check_eq
      obtain rfl : a = a' := Except.ok.inj (hcheck.symm.trans hcheck')
      exact hfinds.knows hnodes e he
    refine ⟨⟨frame, Φ, hexact⟩, fun e he => ?_⟩
    obtain ⟨ty, hty, -⟩ := (hknows hexact e he).type
    refine ⟨ty, hty, fun N frame Φ hderivation => ?_⟩
    obtain ⟨ty', hty', hnote⟩ := (hknows hderivation e he).type
    obtain rfl : ty = ty' := Option.some.inj (hty.symm.trans hty')
    exact hnote

/-- A recursive function, in which a name has another type inside a branch than around it. -/
theorem check_accepts_iff_wellTyped_shadowing :
    ∃ p next, Pipeline.sourceFrom 0 "FUN f(x: Decimal): Integer DO IF x > 1.0 DO
        LET x = 1; RETURN x; END RETURN f(x + 1.0); END
        FUN main(): Integer DO RETURN f(0.5); END" = .ok (p, next) ∧ p.nodes.Nodup ∧
      (∃ frame Φ, WellTyped .any p frame Φ) ∧ ∃ a, p.check = .ok a ∧
        (p.expressions.filter (· matches .access ..)).map (a.types.find? ·.id) =
            [some .decimal, some .integer, some .decimal] ∧
          (∃ frame Φ, WellTyped a.exactNotes p frame Φ) ∧
            ∀ e ∈ p.expressions, ∃ ty, a.types.find? e.id = some ty ∧
              ∀ N frame Φ, WellTyped N p frame Φ → N.type e.id ty := by
  obtain ⟨⟨p, next⟩, hread, hgood⟩ := exists_ok_of_any
    (fun ⟨p, _⟩ => p.check.toOption.any fun a => decide p.nodes.Nodup &&
      (p.expressions.filter (· matches .access ..)).map (a.types.find? ·.id) =
        [some .decimal, some .integer, some .decimal])
    (show (Pipeline.sourceFrom 0 "FUN f(x: Decimal): Integer DO IF x > 1.0 DO
        LET x = 1; RETURN x; END RETURN f(x + 1.0); END
        FUN main(): Integer DO RETURN f(0.5); END").toOption.any _ = true by decide +kernel)
  obtain ⟨a, hcheck, hgood⟩ := exists_ok_of_any _ hgood
  obtain ⟨hnodup, htypes⟩ := Bool.and_eq_true_iff.1 hgood
  obtain ⟨hiff, hfound⟩ := check_accepts_iff_wellTyped (of_decide_eq_true hnodup)
  exact ⟨p, next, hread, of_decide_eq_true hnodup, hiff.1 ⟨a, hcheck⟩, a, hcheck,
    of_decide_eq_true htypes, hfound a hcheck⟩

end Scriptlet
