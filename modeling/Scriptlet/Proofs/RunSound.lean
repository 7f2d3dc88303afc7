import Scriptlet.Proofs.RunRules

/-!
# Well-typed parts run as planned

Every part of a well-typed program keeps the states of a run in agreement with a plan,
whatever fuel it has.  `Sound fuel` says so for the nine kinds of parts; each kind with
`fuel + 1` is sound if all kinds are with `fuel`, so the induction is on the fuel.  The cases
are those of the typing rules and not of the syntax, so that `Walk` does not serve here.

| part | plan after it |
| --- | --- |
| expression, operator, call, assignment, loop | as before |
| statement, block, arm | other variables in the current scope |
-/

namespace Scriptlet

open Typing

namespace Setting

/-- The values of arguments or elements fit the types they are asked for. -/
def ValuesFit (S : Setting) : List Ty → List Object → Prop :=
  List.Forall₂ fun ty o => S.Declarable ty → S.Fits ty o.value

/-- A value that is returned fits the type of the function. -/
def FlowFits (S : Setting) (ret : Ty) : Flow → Prop
  | .next => True
  | .returned o => S.Fits ret o.value

/-- The functions of the program are well typed, with the globals in scope. -/
def Knows (S : Setting) (Φ : Signatures) (globals : Locals) : Prop :=
  ∀ decl r, S.body decl r →
    (∀ ty ∈ r.parameterTypes, S.Declarable ty) ∧ Typing.Body S.notes Φ globals decl r

/-- How a statement that takes the frame to `after` ends. -/
def Ends (S : Setting) (K : Plan) (ret : Ty) (after : Locals) (flow : Flow) (K' : Plan) : Prop :=
  ∃ vars, K' = K.withVars vars ∧ S.FlowFits ret flow ∧ (flow = .next → vars = after)

/-- With some fuel, every well-typed part of a program runs as planned. -/
structure Sound (S : Setting) (Φ : Signatures) (globals : Locals) (fuel : Nat) : Prop where
  expression : ∀ {K : Plan} {Γ : Env} {e : Expr} {ty : Ty}, K.At Φ Γ →
    Γ.getLast? = some globals → HasType S.notes Φ Γ e ty →
      S.Yields K (Watch.expression fuel e) fun o => S.Fits ty o.value
  expressions : ∀ {K : Plan} {Γ : Env} {es : List Expr} {tys : List Ty}, K.At Φ Γ →
    Γ.getLast? = some globals → Fit S.notes Φ Γ es tys →
      S.Yields K (Watch.expressions fuel es) (S.ValuesFit tys)
  binary : ∀ {K : Plan} {Γ : Env} {op : BinaryOp} {left right : Expr} {l r ty : Ty}, K.At Φ Γ →
    Γ.getLast? = some globals → HasType S.notes Φ Γ left l → HasType S.notes Φ Γ right r →
      OfOperator op l r ty →
        S.Yields K (Watch.binary fuel op left right) fun o => S.Fits ty o.value
  call : ∀ {K : Plan} {Γ : Env} {r : Routine Unit} {r' : Routine Body} {arguments : List Object},
    K.At Φ Γ → Γ.getLast? = some globals → S.Implements r r' →
      S.ValuesFit r.parameterTypes arguments →
        S.Yields K (Watch.call fuel r' arguments) fun o => S.Fits r.returnType o.value
  statement : ∀ {K : Plan} {outer : Env} {frame after : Locals} {s : Stmt} {ret : Ty},
    K.At Φ (frame :: outer) → outer.getLast? = some globals → S.Declarable ret →
      Statement S.notes Φ ret outer frame s after →
        S.Runs K (Watch.statement fuel s) (S.Ends K ret after)
  assignment : ∀ {K : Plan} {Γ : Env} {receiver value : Expr} {name : String}
    {v : Variable Unit} {target actual : Ty}, K.At Φ Γ → Γ.getLast? = some globals →
      Writes receiver name → HasType S.notes Φ Γ receiver target → Γ.lookup name = some v →
        v.mutable = true → HasType S.notes Φ Γ value actual → Assignable target actual →
          S.Yields K (Watch.assignment fuel receiver value) fun _ => True
  block : ∀ {K : Plan} {outer : Env} {frame after : Locals} {body : List Stmt} {ret : Ty},
    K.At Φ (frame :: outer) → outer.getLast? = some globals → S.Declarable ret →
      Block S.notes Φ ret outer frame body after →
        S.Runs K (Watch.block fuel body) (S.Ends K ret after)
  cases : ∀ {K : Plan} {Γ : Env} {condition : Object} {arms : List Case} {ty ret : Ty},
    K.At Φ (.empty :: Γ) → Γ.getLast? = some globals → S.Declarable ret →
      Arms S.notes Φ ret Γ ty arms → S.Runs K (Watch.cases fuel condition arms) fun flow K' =>
        (∃ vars, K' = K.withVars vars) ∧ S.FlowFits ret flow
  loop : ∀ {K : Plan} {Γ : Env} {condition : Expr} {body : List Stmt} {frame : Locals} {ret : Ty},
    K.At Φ Γ → Γ.getLast? = some globals → S.Declarable ret →
      HasType S.notes Φ Γ condition .boolean → Block S.notes Φ ret Γ .empty body frame →
        S.Yields K (Watch.loop fuel condition body) (S.FlowFits ret)

variable {S : Setting} {Φ : Signatures} {globals : Locals} {fuel : Nat} {K : Plan} {Γ outer : Env}
  {frame : Locals}

/-- That the fuel is used up is no fault of the program. -/
theorem outOfFuel_runs {α : Type} {Q : α → Plan → Prop} :
    S.Runs K (Watch.basic Eval.outOfFuel) Q := by
  refine .basic fun m origins ha => ?_
  exact ⟨⟨K, ha⟩, fun _ => trivial⟩

/-- Without fuel every part is sound: it has no result. -/
theorem sound_zero : Sound S Φ globals 0 := by
  constructor <;> intros <;> exact outOfFuel_runs

/-! ### Types of variables -/

/-- A new frame leaves the globals the last ones. -/
theorem getLast?_cons {frame : Locals} (h : outer.getLast? = some globals) :
    (frame :: outer).getLast? = some globals := by
  rw [List.getLast?_cons, h]
  rfl

/-- The type of an expression is noted at its node. -/
theorem note_of_hasType {e : Expr} {ty : Ty} {N : Notes} (h : HasType N Φ Γ e ty) :
    N.type e.id ty := by
  cases h <;> assumption

/-- Types of expressions may be declared, if those of variables and functions may. -/
theorem declarable_of_hasType (hΓ : ∀ name v, Γ.lookup name = some v → S.Declarable v.ty)
    (hΦ : ∀ key r, Φ.find? key = some r → S.Declarable r.returnType) {e : Expr} {ty : Ty} :
    HasType S.notes Φ Γ e ty → S.Declarable ty
  | .literal h _ => .inr (by cases h <;> exact ⟨by decide, by decide⟩)
  | .group _ h _ => declarable_of_hasType hΓ hΦ h
  | .binary _ _ h _ => by
    cases h with
    | logic | compare | concat => exact .inr ⟨by decide, by decide⟩
    | arithmetic _ hnumber | power hnumber =>
      rcases hnumber with rfl | rfl <;> exact .inr ⟨by decide, by decide⟩
  | .access h _ => hΓ _ _ h
  | .element _ h _ => hΓ _ _ h
  | .call h _ _ => hΦ _ _ h
  | .list h _ _ => .inl h

/-- The type of an expression is one that a variable may have. -/
theorem Agrees.declarable {m : Machine} {origins : Scopes Origin Unit} {e : Expr} {ty : Ty}
    (h : S.Agrees K m origins) (hΓ : K.At Φ Γ) (he : HasType S.notes Φ Γ e ty) :
    S.Declarable ty := by
  refine declarable_of_hasType ?_ ?_ he
  · intro name v hv
    obtain ⟨v', -, hholds⟩ := h.findVariable? hΓ hv
    exact hholds.declarable
  · rintro ⟨name, n⟩ r hr
    obtain ⟨r', -, himplements⟩ := h.findFunction? hΓ hr
    exact himplements.returnType

/-! ### Expressions -/

/-- An expression yields a value that fits its type, by its typing rule. -/
theorem Sound.expression_succ (ih : Sound S Φ globals fuel) {e : Expr} {ty : Ty} (hΓ : K.At Φ Γ)
    (hlast : Γ.getLast? = some globals) (he : HasType S.notes Φ Γ e ty) :
    S.Yields K (Watch.expression (fuel + 1) e) fun o => S.Fits ty o.value := by
  have hnote := note_of_hasType he
  refine Runs.valued ?_ hnote fun o K' h => h.2
  cases he with
  | literal hliteral => exact Yields.pure (.inr (.ofLiteral hliteral))
  | group _ hinner => exact ih.expression hΓ hlast hinner
  | binary hleft hright hop => exact ih.binary hΓ hlast hleft hright hop
  | access hv =>
    refine (Yields.basic (lookupVariable_reads hΓ hv)).bind fun v' hholds => ?_
    exact Yields.pure hholds.value
  | element hoffset hv =>
    refine (ih.expression hΓ hlast hoffset).bind fun o ho => ?_
    refine (Yields.basic (requireInteger_reads ho)).bind fun index _ => ?_
    exact Yields.basic (readElement_reads index hΓ hv)
  | call hr hargs =>
    refine (Yields.basic (lookupFunction_reads hΓ hr)).bind fun r' himplements => ?_
    refine (ih.expressions hΓ hlast hargs).bind fun arguments hfits => ?_
    exact ih.call hΓ hlast himplements hfits
  | list hlists hes =>
    -- a list inside an expression has no type of its own: only names are followed
    refine (ih.expressions hΓ hlast hes).bind fun os _ => ?_
    exact Yields.basic (allocList_reads hlists)

/-- Expressions yield values that fit their types, from left to right. -/
theorem Sound.expressions_succ (ih : Sound S Φ globals fuel) {es : List Expr} {tys : List Ty}
    (hΓ : K.At Φ Γ) (hlast : Γ.getLast? = some globals) (hes : Fit S.notes Φ Γ es tys) :
    S.Yields K (Watch.expressions (fuel + 1) es) (S.ValuesFit tys) := by
  cases hes with
  | nil => exact Yields.pure .nil
  | cons he hfits hrest =>
    refine (ih.expression hΓ hlast he).bind fun o ho => ?_
    refine (ih.expressions hΓ hlast hrest).bind fun os hos => ?_
    exact Yields.pure (.cons (fun hty => ho.assign hty hfits) hos)

/-! ### Operators -/

/-- The operators `&&` and `||` are on truth values. -/
theorem logical_of_ofOperator {op : BinaryOp} {l r ty : Ty} (h : OfOperator op l r ty)
    (hop : op.level = .logical) : l = .boolean ∧ r = .boolean ∧ ty = .boolean := by
  cases h with
  | logic => exact ⟨rfl, rfl, rfl⟩
  | concat | power => cases hop
  | compare hmem | arithmetic hmem =>
    simp only [List.mem_cons, List.not_mem_nil, or_false] at hmem
    rcases hmem with rfl | rfl | rfl | rfl <;> cases hop

/-- A result of an operator fits the type of the operation. -/
theorem Fits.apply {op : BinaryOp} {l r ty : Ty} {a b : Value} {h : Heap} {o : Object}
    (hop : op.level ≠ .logical) (hty : OfOperator op l r ty) (ha : S.Fits l a) (hb : S.Fits r b)
    (happly : Operator.apply h op a b = .ok o) : S.Fits ty o.value := by
  rcases ha with hlists | ha
  · exact .inl hlists
  · exact hb.imp fun hb => Operator.apply_conforms hop hty ha hb happly

/-- The operands are recorded before the operator is applied, so they are known if it
fails. -/
theorem applied_yields {op : BinaryOp} {left right : Expr} {l r ty : Ty} {a b : Value}
    (hop : op.level ≠ .logical) (hty : OfOperator op l r ty) (hl : S.notes.type left.id l)
    (hr : S.notes.type right.id r) (ha : S.Fits l a) (hb : S.Fits r b) :
    S.Yields K (Watch.applied op left right a b) fun o => S.Fits ty o.value := by
  intro w hw
  have hevent : S.EventFits (.applying op left right a b) := ⟨l, r, ty, hl, hr, hty, ha, hb⟩
  have hnoted := hw.note hevent
  rw [Watch.applied_eq]
  cases happly : Operator.apply w.machine.heap op a b with
  | ok o => exact ⟨K, hnoted.note trivial, rfl, .apply hop hty ha hb happly⟩
  | error e =>
    refine ⟨⟨K, hnoted⟩, ?_⟩
    rcases Operator.apply_error happly with rfl | rfl | ⟨exponent, rfl⟩
    · exact ⟨_, w.record, left, right, a, b, rfl, rfl, happly⟩
    · trivial
    · trivial

/-- An operator is applied to two values that fit, and can fail only as a well-typed program may. -/
theorem Sound.operator (ih : Sound S Φ globals fuel) {op : BinaryOp} {left right : Expr}
    {l r ty : Ty} (hop : op.level ≠ .logical) (hΓ : K.At Φ Γ) (hlast : Γ.getLast? = some globals)
    (hleft : HasType S.notes Φ Γ left l) (hright : HasType S.notes Φ Γ right r)
    (hty : OfOperator op l r ty) :
    S.Yields K (do
      let a ← Watch.expression fuel left
      let b ← Watch.expression fuel right
      Watch.applied op left right a.value b.value) fun o => S.Fits ty o.value := by
  refine (ih.expression hΓ hlast hleft).bind fun a ha => ?_
  refine (ih.expression hΓ hlast hright).bind fun b hb => ?_
  exact applied_yields hop hty (note_of_hasType hleft) (note_of_hasType hright) ha hb

/-- A condition yields a truth value, and then the run goes on. -/
theorem Sound.condition (ih : Sound S Φ globals fuel) {e : Expr} (hΓ : K.At Φ Γ)
    (hlast : Γ.getLast? = some globals) (he : HasType S.notes Φ Γ e .boolean) {α : Type}
    {f : Bool → Watch α} {Q : α → Plan → Prop} (hf : ∀ b, S.Runs K (f b) Q) :
    S.Runs K (do
      let o ← Watch.expression fuel e
      let b ← Watch.basic (Eval.requireBoolean o)
      f b) Q := by
  refine (ih.expression hΓ hlast he).bind fun o ho => ?_
  exact (Yields.basic (requireBoolean_reads ho)).bind fun b _ => hf b

/-- An operation yields a value that fits; the second operand of `&&` and `||` need not be
evaluated. -/
theorem Sound.binary_succ (ih : Sound S Φ globals fuel) {op : BinaryOp} {left right : Expr}
    {l r ty : Ty} (hΓ : K.At Φ Γ) (hlast : Γ.getLast? = some globals)
    (hleft : HasType S.notes Φ Γ left l) (hright : HasType S.notes Φ Γ right r)
    (hty : OfOperator op l r ty) :
    S.Yields K (Watch.binary (fuel + 1) op left right) fun o => S.Fits ty o.value := by
  have hboolean : ∀ b, S.Fits .boolean (Object.boolean b).value := fun b => .inr (.of_kind rfl)
  cases op with
  | and =>
    obtain ⟨rfl, rfl, rfl⟩ := logical_of_ofOperator hty rfl
    refine ih.condition hΓ hlast hleft fun b => ?_
    cases b with
    | false => exact Yields.pure (hboolean false)
    | true => exact ih.condition hΓ hlast hright fun b => Yields.pure (hboolean b)
  | or =>
    obtain ⟨rfl, rfl, rfl⟩ := logical_of_ofOperator hty rfl
    refine ih.condition hΓ hlast hleft fun b => ?_
    cases b with
    | false => exact ih.condition hΓ hlast hright fun b => Yields.pure (hboolean b)
    | true => exact Yields.pure (hboolean true)
  | less | greater | equal | notEqual | add | subtract | multiply | divide | power =>
    exact ih.operator (by decide) hΓ hlast hleft hright hty

/-! ### Calls -/

/-- Parameters are defined in the new frame, with values that fit. -/
theorem bindParameters_runs {names : List String} {tys : List Ty} {after : Locals}
    (hparameters : Parameters frame names tys after) :
    ∀ {K : Plan} {values : List Object}, K.At Φ (frame :: outer) →
      (∀ ty ∈ tys, S.Declarable ty) → S.ValuesFit tys values →
        S.Runs K (Watch.bindParameters names tys values) fun _ K' => K' = K.withVars after := by
  induction hparameters with
  | noName =>
    intro K values hΓ _ _
    exact Runs.pure (Plan.withVars_self hΓ).symm
  | noType =>
    intro K values hΓ _ _
    rw [Watch.bindParameters]
    · exact Runs.pure (Plan.withVars_self hΓ).symm
    · simp
  | @cons frame after name names ty tys hfree _ ih =>
    intro K values hΓ hdeclarable hvalues
    cases hvalues with
    | @cons _ value _ values hvalue hrest =>
      have hty := hdeclarable ty List.mem_cons_self
      have hholds : S.Holds ⟨name, ty, true, ()⟩ ⟨name, ty, true, value⟩ :=
        ⟨rfl, hvalue hty, hty⟩
      have horigin : S.ComesFrom ⟨name, ty, true, ()⟩ (.parameter ty) := rfl
      refine (Runs.defineVariable hΓ rfl hfree hholds horigin).bind ?_
      rintro _ _ rfl
      have hdeclarable' : ∀ ty' ∈ tys, S.Declarable ty' := fun ty' h =>
        hdeclarable ty' (List.mem_cons_of_mem _ h)
      refine (ih (hΓ.withVars _) hdeclarable' hrest).imp ?_
      rintro _ _ rfl
      exact Plan.withVars_withVars K _ _

/-- A call runs the body in a scope below the globals, with the parameters in its frame. -/
theorem Sound.call_succ (ih : Sound S Φ globals fuel) (hknows : S.Knows Φ globals)
    {r : Routine Unit} {r' : Routine Body} {arguments : List Object} (hΓ : K.At Φ Γ)
    (hlast : Γ.getLast? = some globals) (himplements : S.Implements r r')
    (harguments : S.ValuesFit r.parameterTypes arguments) :
    S.Yields K (Watch.call (fuel + 1) r' arguments) fun o => S.Fits r.returnType o.value := by
  have harity : arguments.length = r'.arity := by
    rw [Routine.arity, himplements.parameterTypes]
    exact harguments.length_eq.symm
  rw [Watch.call, if_pos harity]
  rcases himplements.body with hprint | ⟨decl, hdecl, hbody⟩
  · rw [hprint]
    refine (Yields.forM (fun o => .basic (printLine_reads o)) arguments).bind fun _ _ => ?_
    exact Yields.pure (.nil S _)
  · obtain ⟨hdeclarable, frame, after, hparameters, hblock⟩ := hknows decl r hbody
    -- the body sees the globals only, whatever is in scope where it is called
    have hroot := hΓ.enter_root hlast
    rw [hdecl, himplements.parameterTypes]
    refine Yields.inScopeOf Scopes.root ?_
    refine (bindParameters_runs hparameters hroot hdeclarable harguments).bind ?_
    rintro _ _ rfl
    refine (ih.block (hroot.withVars frame) rfl himplements.returnType hblock).bind ?_
    rintro flow _ ⟨vars, rfl, hflow, -⟩
    refine Runs.pure ⟨⟨vars, Plan.withVars_withVars _ _ _⟩, ?_⟩
    cases flow with
    | next => exact .nil S _
    | returned o => exact hflow

/-! ### Statements -/

/-- A statement that declares nothing leaves the frame as it is. -/
theorem Ends.next (hΓ : K.At Φ (frame :: outer)) (ret : Ty) : S.Ends K ret frame .next K :=
  ⟨frame, (Plan.withVars_self hΓ).symm, trivial, fun _ => rfl⟩

/-- A step that declares nothing ends as a statement does. -/
theorem Yields.ends {x : Watch Flow} {ret : Ty} (h : S.Yields K x (S.FlowFits ret))
    (hΓ : K.At Φ (frame :: outer)) : S.Runs K x (S.Ends K ret frame) := by
  refine Runs.imp h ?_
  rintro flow _ ⟨rfl, hflow⟩
  exact ⟨frame, (Plan.withVars_self hΓ).symm, hflow, fun _ => rfl⟩

/-- A declaration puts a variable into the frame, with a value that fits. -/
theorem declare_runs {id : NodeId} {name : String} {typeName : Option String} {mutable : Bool}
    {o : Object} {ty : Ty} (hΓ : K.At Φ (frame :: outer))
    (hname : ∀ n, typeName = some n → Ty.ofName? n = some ty) (hfree : frame.find? name = none)
    (hty : S.Declarable ty) (ho : S.Fits ty o.value)
    (hnote : S.notes.var id ⟨name, ty, mutable, ()⟩) :
    S.Runs K (Watch.declare (.declared id) name typeName mutable o) fun _ K' =>
      K' = K.withVars (frame.insert name ⟨name, ty, mutable, ()⟩) := by
  have horigin : S.ComesFrom ⟨name, ty, mutable, ()⟩ (.declared id) := hnote
  -- a run infers the type from the value, which may be `NIL`; only the planned type counts
  have hdefine : ∀ ty', S.Runs K (Watch.defineVariable (.declared id) ⟨name, ty', mutable, o⟩)
      fun _ K' => K' = K.withVars (frame.insert name ⟨name, ty, mutable, ()⟩) := fun ty' =>
    Runs.defineVariable hΓ rfl hfree ⟨rfl, ho, hty⟩ horigin
  cases typeName with
  | none => exact hdefine o.ty
  | some n =>
    refine (Yields.basic (typeNamed_reads (hname n rfl))).bind fun ty' _ => ?_
    exact hdefine ty'

/-- A block in a scope of its own. -/
theorem Sound.branch (ih : Sound S Φ globals fuel) {body : List Stmt} {after : Locals} {ret : Ty}
    (hΓ : K.At Φ Γ) (hlast : Γ.getLast? = some globals) (hret : S.Declarable ret)
    (hbody : Block S.notes Φ ret Γ .empty body after) :
    S.Yields K (Watch.inScope (Watch.block fuel body)) (S.FlowFits ret) := by
  refine Yields.inScope ((ih.block hΓ.enter hlast hret hbody).imp ?_)
  rintro flow _ ⟨vars, rfl, hflow, -⟩
  exact ⟨⟨vars, rfl⟩, hflow⟩

/-- A declaration has a type that a variable may have, the one that is named if one is,
and its value fits the type. -/
theorem Sound.declares (ih : Sound S Φ globals fuel) {w : Watched} {typeName : Option String}
    {value : Option Expr} {ty : Ty} (hw : S.State K w) (hΓ : K.At Φ Γ)
    (hlast : Γ.getLast? = some globals) (hdeclares : Declares S.notes Φ Γ typeName value ty) :
    S.Declarable ty ∧ (∀ n, typeName = some n → Ty.ofName? n = some ty) ∧
      ∀ e, value = some e → S.Yields K (Watch.expression fuel e) fun o => S.Fits ty o.value := by
  cases hdeclares with
  | both hname hnamed he hfits =>
    refine ⟨S.named ty hnamed, fun n hn => Option.some.inj hn ▸ hname, ?_⟩
    rintro _ ⟨⟩
    exact (ih.expression hΓ hlast he).imp fun o ho => ho.assign (S.named ty hnamed) hfits
  | named hname hnamed =>
    exact ⟨S.named ty hnamed, fun n hn => Option.some.inj hn ▸ hname, nofun⟩
  | inferred he =>
    refine ⟨hw.agrees.declarable hΓ he, nofun, ?_⟩
    rintro _ ⟨⟩
    exact ih.expression hΓ hlast he

/-- A declaration evaluates its value, if there is one; otherwise the variable is `NIL`. -/
theorem Sound.declaration (ih : Sound S Φ globals fuel) {id : NodeId} {name : String}
    {typeName : Option String} {value : Option Expr} {ty ret : Ty} (hΓ : K.At Φ (frame :: outer))
    (hlast : outer.getLast? = some globals)
    (hdeclares : Declares S.notes Φ (frame :: outer) typeName value ty)
    (hfree : frame.find? name = none) (hnote : S.notes.var id ⟨name, ty, true, ()⟩) :
    S.Runs K (Watch.statement (fuel + 1) (.declaration id name typeName value))
      (S.Ends K ret (frame.insert name ⟨name, ty, true, ()⟩)) := by
  refine Runs.of_state fun w hw => ?_
  obtain ⟨hty, hname, hvalue⟩ := ih.declares hw hΓ (getLast?_cons hlast) hdeclares
  have hdeclared : ∀ o : Object, S.Fits ty o.value →
      S.Runs K (do
        Watch.declare (.declared id) name typeName true o
        return .next) (S.Ends K ret (frame.insert name ⟨name, ty, true, ()⟩)) := by
    intro o ho
    refine (declare_runs hΓ hname hfree hty ho hnote).bind ?_
    rintro _ _ rfl
    exact Runs.pure ⟨_, rfl, trivial, fun _ => rfl⟩
  cases value with
  | none => exact hdeclared .nil (.nil S ty)
  | some e => exact (hvalue e rfl).bind hdeclared

/-- A statement runs as its typing rule says. -/
theorem Sound.statement_succ (ih : Sound S Φ globals fuel) {s : Stmt} {after : Locals} {ret : Ty}
    (hΓ : K.At Φ (frame :: outer)) (hlast : outer.getLast? = some globals)
    (hret : S.Declarable ret) (hs : Statement S.notes Φ ret outer frame s after) :
    S.Runs K (Watch.statement (fuel + 1) s) (S.Ends K ret after) := by
  have hlast' : (frame :: outer).getLast? = some globals := getLast?_cons hlast
  cases hs with
  | expression he =>
    exact (ih.expression hΓ hlast' he).bind fun _ _ => Runs.pure (.next hΓ ret)
  | declaration hdeclares hfree hnote => exact ih.declaration hΓ hlast hdeclares hfree hnote
  | assignment hwrites hreceiver hv hmutable hvalue hfits =>
    refine (ih.assignment hΓ hlast' hwrites hreceiver hv hmutable hvalue hfits).bind ?_
    exact fun _ _ => Runs.pure (.next hΓ ret)
  | ifElse hcondition _ hthen helse =>
    refine ih.condition hΓ hlast' hcondition fun b => ?_
    cases b with
    | true => exact (ih.branch hΓ hlast' hret hthen).ends hΓ
    | false => exact (ih.branch hΓ hlast' hret helse).ends hΓ
  | switch hcondition harms =>
    refine (ih.expression hΓ hlast' hcondition).bind fun o _ => ?_
    exact (Yields.inScope (ih.cases hΓ.enter hlast' hret harms)).ends hΓ
  | whileDo hcondition hbody => exact (ih.loop hΓ hlast' hret hcondition hbody).ends hΓ
  | returnWith hvalue hfits =>
    refine (ih.expression hΓ hlast' hvalue).bind fun o ho => ?_
    exact Runs.pure ⟨frame, (Plan.withVars_self hΓ).symm, ho.assign hret hfits, nofun⟩

/-- An assignment puts a value that fits into a mutable variable, or into a list. -/
theorem Sound.assignment_succ (ih : Sound S Φ globals fuel) {receiver value : Expr}
    {name : String} {v : Variable Unit} {target actual : Ty} (hΓ : K.At Φ Γ)
    (hlast : Γ.getLast? = some globals) (hwrites : Writes receiver name)
    (hreceiver : HasType S.notes Φ Γ receiver target) (hv : Γ.lookup name = some v)
    (hmutable : v.mutable = true) (hvalue : HasType S.notes Φ Γ value actual)
    (hfits : Assignable target actual) :
    S.Yields K (Watch.assignment (fuel + 1) receiver value) fun _ => True := by
  refine Runs.of_state fun w hw => ?_
  have hty := hw.agrees.declarable hΓ hreceiver
  cases hwrites with
  | access =>
    cases hreceiver with
    | access hv' =>
      cases hv.symm.trans hv'
      refine (ih.expression hΓ hlast hvalue).bind fun o ho => ?_
      exact Yields.basic (assignVariable_reads hΓ hv hmutable (ho.assign hty hfits))
  | element =>
    cases hreceiver with
    | element hoffset hv' =>
      cases hv.symm.trans hv'
      refine (ih.expression hΓ hlast hoffset).bind fun o ho => ?_
      refine (Yields.basic (requireInteger_reads ho)).bind fun index _ => ?_
      refine (ih.expression hΓ hlast hvalue).bind fun o ho => ?_
      exact Yields.basic (writeElement_reads index hΓ hv (ho.assign hty hfits))

/-- A block runs from frame to frame. -/
theorem Sound.block_succ (ih : Sound S Φ globals fuel) {body : List Stmt} {after : Locals}
    {ret : Ty} (hΓ : K.At Φ (frame :: outer)) (hlast : outer.getLast? = some globals)
    (hret : S.Declarable ret) (hbody : Block S.notes Φ ret outer frame body after) :
    S.Runs K (Watch.block (fuel + 1) body) (S.Ends K ret after) := by
  cases hbody with
  | nil => exact Runs.pure (.next hΓ ret)
  | cons hfirst hrest =>
    -- after a `RETURN` the variables are those of the place it stands at, so any are allowed
    refine (ih.statement hΓ hlast hret hfirst).bind ?_
    rintro flow _ ⟨vars, rfl, hflow, hnext⟩
    cases flow with
    | next =>
      obtain rfl := hnext rfl
      refine (ih.block (hΓ.withVars vars) hlast hret hrest).imp ?_
      rintro flow _ ⟨vars', rfl, hflow', hnext'⟩
      exact ⟨vars', Plan.withVars_withVars K _ _, hflow', hnext'⟩
    | returned o => exact Runs.pure ⟨vars, rfl, hflow, nofun⟩

/-- The values of the arms are evaluated in the scope that the arms share, in which
nothing is declared before one of them is chosen. -/
theorem Sound.cases_succ (ih : Sound S Φ globals fuel) {condition : Object} {arms : List Case}
    {ty ret : Ty} (hΓ : K.At Φ (.empty :: Γ)) (hlast : Γ.getLast? = some globals)
    (hret : S.Declarable ret) (harms : Arms S.notes Φ ret Γ ty arms) :
    S.Runs K (Watch.cases (fuel + 1) condition arms) fun flow K' =>
      (∃ vars, K' = K.withVars vars) ∧ S.FlowFits ret flow := by
  have hchosen : ∀ {body : List Stmt} {after : Locals}, Block S.notes Φ ret Γ .empty body after →
      S.Runs K (Watch.block fuel body) fun flow K' =>
        (∃ vars, K' = K.withVars vars) ∧ S.FlowFits ret flow := by
    intro body after hbody
    refine (ih.block hΓ hlast hret hbody).imp ?_
    rintro flow K' ⟨vars, hK', hflow, -⟩
    exact ⟨⟨vars, hK'⟩, hflow⟩
  cases harms with
  | nil => exact Runs.pure ⟨⟨.empty, (Plan.withVars_self hΓ).symm⟩, trivial⟩
  | case hvalue hbody hrest =>
    refine (ih.expression hΓ (getLast?_cons hlast) hvalue.inner).bind fun o _ => ?_
    refine (Yields.basic (valuesMatch_reads o condition)).bind fun b _ => ?_
    cases b with
    | true => exact hchosen hbody
    | false => exact ih.cases hΓ hlast hret hrest
  | default hbody => exact hchosen hbody

/-- Rounds of a loop have frames of their own. -/
theorem Sound.loop_succ (ih : Sound S Φ globals fuel) {condition : Expr} {body : List Stmt}
    {after : Locals} {ret : Ty} (hΓ : K.At Φ Γ) (hlast : Γ.getLast? = some globals)
    (hret : S.Declarable ret) (hcondition : HasType S.notes Φ Γ condition .boolean)
    (hbody : Block S.notes Φ ret Γ .empty body after) :
    S.Yields K (Watch.loop (fuel + 1) condition body) (S.FlowFits ret) := by
  refine ih.condition hΓ hlast hcondition fun b => ?_
  cases b with
  | true =>
    refine (ih.branch hΓ hlast hret hbody).bind fun flow hflow => ?_
    cases flow with
    | next => exact ih.loop hΓ hlast hret hcondition hbody
    | returned o => exact Yields.pure hflow
  | false => exact Yields.pure trivial

/-- **Every part of a well-typed program runs as planned.** -/
theorem sound (hknows : S.Knows Φ globals) (fuel : Nat) : Sound S Φ globals fuel := by
  induction fuel with
  | zero => exact sound_zero
  | succ fuel ih =>
    exact ⟨ih.expression_succ, ih.expressions_succ, ih.binary_succ, ih.call_succ hknows,
      ih.statement_succ, ih.assignment_succ, ih.block_succ, ih.cases_succ, ih.loop_succ⟩

end Setting
end Scriptlet
