import Scriptlet.Proofs.CheckSound

/-!
# Accepted programs are well typed

A statement may declare a variable, so it changes the innermost frame of the scopes;
what it opens for its branches is closed again.

| step | scopes after it |
| --- | --- |
| an expression, a branch, a loop, an arm | as before |
| a statement, a block, a global | other variables in the current scope |
| a function | one more function in the root |

The main result is `Source.wellTyped_of_check`: a program that is accepted is well
typed, with notes taken from the findings.
-/

namespace Scriptlet

/-- A signature is put under its own name and number of parameters. -/
theorem Table.Keyed.insert {Φ : Signatures} (h : Φ.Keyed) (r : Routine Unit) :
    (Table.insert Φ (r.name, r.arity) r).Keyed := by
  intro name n r' hr'
  rw [find?_insert] at hr'
  split at hr'
  · rename_i hkey
    cases hkey
    cases hr'
    rfl
  · exact h name n r' hr'

/-- The builtin functions are under their own names. -/
theorem Typing.keyed_builtins : Typing.builtins.Keyed := by
  have hempty : (Table.empty : Signatures).Keyed := by
    intro _ _ _ h
    cases h
  exact hempty.insert (.print ())

/-- The types of parameters are those that the notes know by a name. -/
theorem Notes.Suits.namedAll {N : Notes} {names : List String} {tys : List Ty}
    (hN : N.Suits [] (names.all plainName))
    (h : List.Forall₂ (fun name ty => Ty.ofName? name = some ty) names tys) :
    ∀ ty ∈ tys, N.named ty := by
  induction h with
  | nil => simp
  | cons hname _ ih =>
    have hN' : N.Suits ([] ++ []) _ := hN
    rw [List.all_cons] at hN'
    intro ty hty
    rcases List.mem_cons.1 hty with rfl | hty
    · exact hN'.left.named hname
    · exact ih hN'.right ty hty

/-- The types of a function with plain type names may be named. -/
theorem Typing.Signature.named {N : Notes} {f : FunctionDecl} {r : Routine Unit}
    (h : Signature f r)
    (hN : N.Suits [] (f.parameterTypeNames.all plainName && f.returnTypeName.all plainName)) :
    ∀ ty ∈ r.returnType :: r.parameterTypes, N.named ty := by
  obtain ⟨tys, ret, htys, hret, rfl⟩ := h
  have hN' : N.Suits ([] ++ []) _ := hN
  intro ty hty
  rcases List.mem_cons.1 hty with rfl | hty
  · have hplain := hN'.right
    revert hret hplain
    cases f.returnTypeName with
    | none =>
      intro hret hplain
      cases hret
      rcases hplain with rfl | ⟨hnamed, -⟩
      · trivial
      · exact hnamed .nil ⟨by decide, by decide⟩
    | some name =>
      intro hret hplain
      exact hplain.named hret
  · exact hN'.left.namedAll htys ty hty

namespace Check

open Typing

variable {s s₁ s₂ s' : Checker}

/-! ### Steps that declare -/

/-- A step that may declare variables in the current scope, and what it shows about the
frame before and after it. -/
structure Extends (ids : List NodeId) (plain : Bool) (s s' : Checker)
    (P : Notes → Signatures → Env → Locals → Locals → Prop) : Prop where
  returnType : s'.returnType = s.returnType
  grows : Annotations.Grows ids s.annotations s'.annotations
  derives : ∀ {Φ : Signatures} {outer : Env} {frame : Locals},
    Chain s.scopes.scopes Φ s.scopes.current (frame :: outer) →
      ∃ after, s'.scopes = s.scopes.withVars after ∧ ∀ {N : Notes}, N.Suits ids plain →
        N.Hold s'.annotations ids → Φ.Keyed → P N Φ outer frame after

namespace Extends

variable {ids jds : List NodeId} {plain plain' : Bool}
  {P Q : Notes → Signatures → Env → Locals → Locals → Prop}

/-- A step shows what follows from what it shows. -/
theorem imp (h : Extends ids plain s s' P)
    (hPQ : ∀ {N : Notes} {Φ : Signatures} {outer : Env} {frame after : Locals},
      P N Φ outer frame after → Q N Φ outer frame after) : Extends ids plain s s' Q where
  returnType := h.returnType
  grows := h.grows
  derives hΓ := by
    obtain ⟨after, hs, hP⟩ := h.derives hΓ
    exact ⟨after, hs, fun hN hold hΦ => hPQ (hP hN hold hΦ)⟩

/-- One step after the other, with the frame between them. -/
theorem trans (h : Extends ids plain s s₁ P) (h' : Extends jds plain' s₁ s₂ Q) :
    Extends (ids ++ jds) (plain && plain') s s₂ fun N Φ outer frame after =>
      ∃ between, P N Φ outer frame between ∧ Q N Φ outer between after where
  returnType := h'.returnType.trans h.returnType
  grows := h.grows.trans h'.grows
  derives hΓ := by
    obtain ⟨between, hs, hP⟩ := h.derives hΓ
    have hΓ' := hΓ.withVars between
    rw [← Scopes.withVars_current s.scopes between, ← hs] at hΓ'
    obtain ⟨after, hs', hQ⟩ := h'.derives hΓ'
    refine ⟨after, ?_, fun hN hold hΦ => ⟨between, ?_, ?_⟩⟩
    · rw [hs', hs, Scopes.withVars_withVars]
    · exact hP hN.left (hold.earlier h'.grows hN) hΦ
    · exact hQ hN.right hold.right hΦ

end Extends

/-- A step that leaves the scopes alone leaves the frame as it is. -/
theorem Gives.extends {ids : List NodeId} {plain : Bool} {P : Notes → Signatures → Env → Prop}
    (h : Gives ids plain s s' P) : Extends ids plain s s' fun N Φ outer frame after =>
      after = frame ∧ P N Φ (frame :: outer) where
  returnType := h.returnType
  grows := h.grows
  derives hΓ := by
    obtain ⟨scope, hscope, rfl⟩ := hΓ.current_scope
    refine ⟨scope.vars, ?_, fun hN hold hΦ => ⟨rfl, h.derives hN hold hΦ hΓ⟩⟩
    rw [h.scopes hΓ, Scopes.withVars_self hscope]

/-- A definition that is accepted changes the scopes alone. -/
theorem defineVariable_ok {v : Variable Unit} {u : Unit} (h : defineVariable v s = .ok u s') :
    ∃ scopes, s.scopes.defineVariable v = .ok scopes ∧ s' = { s with scopes := scopes } := by
  unfold defineVariable at h
  split at h
  · cases h
    exact ⟨_, ‹_›, rfl⟩
  · cases h

/-- A variable is new in its frame, and is put there. -/
theorem defineVariable_extends {v : Variable Unit} {u : Unit}
    (h : defineVariable v s = .ok u s') : Extends [] true s s' fun _ _ _ frame after =>
      frame.find? v.name = none ∧ after = frame.insert v.name v := by
  obtain ⟨scopes, hdefine, rfl⟩ := defineVariable_ok h
  refine ⟨rfl, .refl _, fun {Φ outer frame} hΓ => ?_⟩
  rw [hΓ.defineVariable v] at hdefine
  split at hdefine
  · cases hdefine
  · cases hdefine
    exact ⟨frame.insert v.name v, rfl, fun _ _ _ => ⟨‹_›, rfl⟩⟩

/-- A variable is noted at its node. -/
theorem record_gives (id : NodeId) (v : Variable Unit) (s : Checker) :
    Gives [id] true s { s with annotations := s.annotations.bindVariable id v } fun N _ _ =>
      N.var id v where
  scopes _ := rfl
  returnType := rfl
  grows := .bindVariable _ id v
  derives _ hold _ _ := by
    refine (hold id (List.mem_singleton_self _)).2 v ?_
    simp [Annotations.bindVariable, Table.find?_insert]

/-- A declaration puts a new variable into its frame and notes it at its node. -/
theorem declare_extends {id : NodeId} {v : Variable Unit} {u : Unit}
    (h : declare id v s = .ok u s') : Extends [id] true s s' fun N _ _ frame after =>
      frame.find? v.name = none ∧ after = frame.insert v.name v ∧ N.var id v := by
  obtain ⟨_, s₁, hdefine, h⟩ := bind_ok.1 h
  cases h
  refine ((defineVariable_extends hdefine).trans (record_gives id v s₁).extends).imp ?_
  rintro N Φ outer frame after ⟨_, ⟨hfree, rfl⟩, rfl, hnote⟩
  exact ⟨hfree, rfl, hnote⟩

/-- A name of a type that is accepted names the type. -/
theorem typeNamed_ok {name : String} {ty : Ty} (h : typeNamed name = .ok ty) :
    Ty.ofName? name = some ty := by
  unfold typeNamed at h
  split at h
  · cases h
    assumption
  · cases h

/-- What a type name that may be absent stands for. -/
theorem typeNamed?_ok {typeName : Option String} {declared : Option Ty}
    (h : typeNamed? typeName = .ok declared) :
    (typeName = none ∧ declared = none) ∨
      ∃ name ty, typeName = some name ∧ declared = some ty ∧ Ty.ofName? name = some ty := by
  cases typeName with
  | none =>
    cases h
    exact .inl ⟨rfl, rfl⟩
  | some name =>
    rw [typeNamed?] at h
    cases hty : typeNamed name with
    | error e =>
      rw [hty] at h
      cases h
    | ok ty =>
      rw [hty] at h
      cases h
      exact .inr ⟨name, ty, rfl, rfl, typeNamed_ok hty⟩

/-- With a type and a value, the value must fit the type. -/
theorem declaredType_both_ok {name : String} {declared actual ty : Ty}
    (h : declaredType name (some declared) (some actual) = .ok ty) :
    ty = declared ∧ Assignable declared actual := by
  rw [declaredType] at h
  cases hfits : requireFits declared actual with
  | error e =>
    rw [hfits] at h
    cases h
  | ok u =>
    rw [hfits] at h
    cases h
    exact ⟨rfl, requireFits_ok hfits⟩

/-- The type of a declaration whose value is not a list of a global. -/
theorem declares_gives {name : String} {typeName : Option String} {value : Option Expr}
    {declared actual : Option Ty} {ty : Ty} (hnamed : typeNamed? typeName = .ok declared)
    (hvalue : expression? value s = .ok actual s')
    (hty : declaredType name declared actual = .ok ty) :
    Gives (Expr.nodesOfOption value) (typeName.all plainName && Expr.plainOption value) s s'
      fun N Φ Γ => Declares N Φ Γ typeName value ty := by
  cases value with
  | none =>
    cases hvalue
    rcases typeNamed?_ok hnamed with ⟨rfl, rfl⟩ | ⟨name, declared, rfl, rfl, hname⟩
    · cases hty
    · cases hty
      exact ((Gives.refl _).named fun hN => hN.named hname).imp fun hn => .named hname hn.1
  | some e =>
    obtain ⟨actual, he, rfl⟩ := map_ok.1 hvalue
    rcases typeNamed?_ok hnamed with ⟨rfl, rfl⟩ | ⟨name, declared, rfl, rfl, hname⟩
    · cases hty
      exact (expression_gives e he).imp fun hn => .inferred hn
    · obtain ⟨rfl, hfits⟩ := declaredType_both_ok hty
      exact ((expression_gives e he).named fun hN => hN.named hname).imp fun hn =>
        .both hname hn.1 hn.2 hfits

/-! ### Statements -/

/-- A condition that is accepted has type `Boolean`. -/
theorem condition_gives {kind : Conditional} {e : Expr} {u : Unit}
    (h : condition kind e s = .ok u s') :
    Gives e.nodes e.plain s s' fun N Φ Γ => HasType N Φ Γ e .boolean := by
  obtain ⟨found, s₁, he, h⟩ := bind_ok.1 h
  by_cases hfound : found = .boolean
  · subst hfound
    cases h
    exact expression_gives e he
  · rw [if_neg hfound] at h
    cases h

/-- What is assigned to is mutable, and the value fits it. -/
theorem assignTo_gives {name : String} {receiver value : Expr} {u : Unit}
    (h : assignTo name receiver value s = .ok u s') :
    Gives (receiver.nodes ++ value.nodes) (receiver.plain && value.plain) s s'
      fun N Φ Γ => ∃ target v actual, HasType N Φ Γ receiver target ∧ Γ.lookup name = some v ∧
        v.mutable = true ∧ HasType N Φ Γ value actual ∧ Assignable target actual := by
  obtain ⟨target, s₁, hreceiver, h⟩ := bind_ok.1 h
  obtain ⟨v, hfind, h⟩ := lookupVariable_ok h
  obtain ⟨hmutable, h⟩ := unless_ok h
  obtain ⟨actual, s₂, hvalue, h⟩ := bind_ok.1 h
  cases hfits : requireFits target actual with
  | error e =>
    rw [hfits] at h
    cases h
  | ok u =>
    rw [hfits] at h
    cases h
    have hv := (expression_gives value hvalue).known fun {Φ Γ} _ hΓ =>
      (hΓ.findVariable? name).symm.trans hfind
    exact ((expression_gives receiver hreceiver).trans hv).imp fun hn =>
      ⟨target, v, actual, hn.1, hn.2.1, hmutable, hn.2.2, requireFits_ok hfits⟩

/-- What is assigned to is a variable or an element, and the value fits it. -/
theorem assignment_gives {receiver value : Expr} {u : Unit}
    (h : assignment receiver value s = .ok u s') :
    Gives (receiver.nodes ++ value.nodes) (receiver.plain && value.plain) s s'
      fun N Φ Γ => ∃ name target v actual, Writes receiver name ∧ HasType N Φ Γ receiver target ∧
        Γ.lookup name = some v ∧ v.mutable = true ∧ HasType N Φ Γ value actual ∧
          Assignable target actual := by
  unfold assignment at h
  split at h
  · refine (assignTo_gives h).imp fun hn => ?_
    obtain ⟨target, v, actual, hrest⟩ := hn
    exact ⟨_, target, v, actual, .access, hrest⟩
  · refine (assignTo_gives h).imp fun hn => ?_
    obtain ⟨target, v, actual, hrest⟩ := hn
    exact ⟨_, target, v, actual, .element, hrest⟩
  · cases h

/-- What is returned fits the function. -/
theorem returnValue_gives {value : Expr} {ret : Ty} {u : Unit} (hret : s.returnType = some ret)
    (h : returnValue value s = .ok u s') :
    Gives value.nodes value.plain s s' fun N Φ Γ =>
      ∃ actual, HasType N Φ Γ value actual ∧ Assignable ret actual := by
  unfold returnValue at h
  rw [hret] at h
  obtain ⟨actual, s₁, hvalue, h⟩ := bind_ok.1 h
  cases hfits : requireFits ret actual with
  | error e =>
    rw [hfits] at h
    cases h
  | ok u =>
    rw [hfits] at h
    cases h
    exact (expression_gives value hvalue).imp fun hn => ⟨actual, hn, requireFits_ok hfits⟩

/-- What a step declares in a scope of its own is forgotten with the scope. -/
theorem inScope_gives {α : Type} {step : Check α} {a : α} {ids : List NodeId} {plain : Bool}
    {P : Notes → Signatures → Env → Locals → Locals → Prop} (h : inScope step s = .ok a s')
    (hstep : ∀ {s₁ : Checker},
      step { s with scopes := s.scopes.enter s.scopes.current } = .ok a s₁ →
      Extends ids plain { s with scopes := s.scopes.enter s.scopes.current } s₁ P) :
    Gives ids plain s s' fun N Φ Γ => ∃ after, P N Φ Γ .empty after := by
  unfold inScope at h
  split at h
  · rename_i s₁ hok
    cases h
    have hextends := hstep hok
    refine ⟨fun hΓ => ?_, hextends.returnType, hextends.grows, fun hN hold hΦ hΓ => ?_⟩
    · obtain ⟨after, hs, -⟩ := hextends.derives hΓ.enter
      rw [hs]
      exact s.scopes.leave_withVars_enter _ after
    · obtain ⟨after, -, hP⟩ := hextends.derives hΓ.enter
      exact ⟨after, hP hN hold hΦ⟩
  · cases h

/-- The value of an arm has the type of what is switched on; `DEFAULT` comes last. -/
theorem caseValue_gives {value : Option Expr} {ty : Ty} {isLast : Bool} {u : Unit}
    (h : caseValue ty isLast value s = .ok u s') :
    Gives (Expr.nodesOfOption value) (Expr.plainOption value) s s' fun N Φ Γ =>
      value.elim (isLast = true) fun e => HasType N Φ Γ e ty := by
  cases value with
  | none =>
    cases isLast with
    | true =>
      cases h
      exact (Gives.refl s).imp fun _ => rfl
    | false => cases h
  | some e =>
    obtain ⟨found, s₁, he, h⟩ := bind_ok.1 h
    by_cases hfound : found = ty
    · subst hfound
      rw [if_pos rfl] at h
      cases h
      exact expression_gives e he
    · rw [if_neg hfound] at h
      cases h

/-- An expression as a statement, which leaves its frame as it is. -/
theorem expressionStatement_extends {e : Expr} {ret : Ty} {u : Unit}
    (h : statement (.expression e) s = .ok u s') :
    Extends (Stmt.expression e).nodes (Stmt.expression e).plain s s' fun N Φ outer frame after =>
      Statement N Φ ret outer frame (.expression e) after := by
  cases e with
  | call id name args =>
    rw [statement] at h
    obtain ⟨ty, s₁, he, h⟩ := bind_ok.1 h
    cases h
    refine (expression_gives _ he).extends.imp ?_
    rintro N Φ outer frame _ ⟨rfl, hn⟩
    exact .expression hn
  | literal | group | binary | access | element | list =>
    rw [statement] at h
    · cases h
    · simp

/-- A declaration, with a type, a value or both. -/
theorem declaration_extends {id : NodeId} {name : String} {typeName : Option String}
    {value : Option Expr} {ret : Ty} {u : Unit}
    (h : statement (.declaration id name typeName value) s = .ok u s') :
    Extends (Stmt.declaration id name typeName value).nodes
      (Stmt.declaration id name typeName value).plain s s' fun N Φ outer frame after =>
        Statement N Φ ret outer frame (.declaration id name typeName value) after := by
  rw [statement] at h
  obtain ⟨declared, hnamed, h⟩ := rule_ok h
  obtain ⟨actual, s₁, hvalue, h⟩ := bind_ok.1 h
  obtain ⟨ty, hty, h⟩ := rule_ok h
  have hboth := (declares_gives hnamed hvalue hty).extends.trans (declare_extends h)
  rw [Bool.and_true] at hboth
  refine hboth.imp ?_
  rintro N Φ outer frame _ ⟨_, ⟨rfl, hdeclares⟩, hfree, rfl, hnote⟩
  exact .declaration hdeclares hfree hnote

mutual

/-- **A statement that is accepted is well typed.** -/
theorem statement_extends (st : Stmt) {s s' : Checker} {u : Unit} {ret : Ty}
    (h : statement st s = .ok u s') (hret : s.returnType = some ret) :
    Extends st.nodes st.plain s s' fun N Φ outer frame after =>
      Statement N Φ ret outer frame st after := by
  cases st with
  | expression e => exact expressionStatement_extends h
  | declaration id name typeName value => exact declaration_extends h
  | assignment receiver value =>
    rw [statement] at h
    refine (assignment_gives h).extends.imp ?_
    rintro N Φ outer frame _ ⟨rfl, name, target, v, actual, hw, hr, hv, hm, he, ha⟩
    exact .assignment hw hr hv hm he ha
  | ifElse e thenBody elseBody =>
    rw [statement] at h
    obtain ⟨_, s₁, he, h⟩ := bind_ok.1 h
    by_cases hempty : thenBody.isEmpty = true
    · rw [if_pos hempty] at h
      cases h
    · rw [if_neg hempty] at h
      obtain ⟨_, s₂, hthen, h⟩ := bind_ok.1 h
      have hcondition := condition_gives he
      have hret₁ := hcondition.returnType.trans hret
      have hfirst := inScope_gives hthen fun hb => block_extends thenBody hb hret₁
      have hret₂ := hfirst.returnType.trans hret₁
      have hsecond := inScope_gives h fun hb => block_extends elseBody hb hret₂
      refine (hcondition.trans (hfirst.trans hsecond)).extends.imp ?_
      rintro N Φ outer frame _ ⟨rfl, hn, ⟨_, ht⟩, _, he⟩
      refine .ifElse hn ?_ ht he
      rintro rfl
      exact hempty rfl
  | switch e arms =>
    rw [statement] at h
    obtain ⟨ty, s₁, he, h⟩ := bind_ok.1 h
    have hcondition := expression_gives e he
    refine (hcondition.trans (cases_gives arms h (hcondition.returnType.trans hret))).extends.imp ?_
    rintro N Φ outer frame _ ⟨rfl, hn, harms⟩
    exact .switch hn harms
  | whileDo e body =>
    rw [statement] at h
    obtain ⟨_, s₁, he, h⟩ := bind_ok.1 h
    have hcondition := condition_gives he
    have hret₁ := hcondition.returnType.trans hret
    have hblock := inScope_gives h fun hb => block_extends body hb hret₁
    refine (hcondition.trans hblock).extends.imp ?_
    rintro N Φ outer frame _ ⟨rfl, hn, _, hb⟩
    exact .whileDo hn hb
  | returnWith value =>
    rw [statement] at h
    refine (returnValue_gives hret h).extends.imp ?_
    rintro N Φ outer frame _ ⟨rfl, actual, hn, hfits⟩
    exact .returnWith hn hfits

/-- A block that is accepted is well typed, from frame to frame. -/
theorem block_extends (body : List Stmt) {s s' : Checker} {u : Unit} {ret : Ty}
    (h : block body s = .ok u s') (hret : s.returnType = some ret) :
    Extends (Stmt.nodesOfList body) (Stmt.plainList body) s s' fun N Φ outer frame after =>
      Block N Φ ret outer frame body after := by
  cases body with
  | nil =>
    rw [block] at h
    cases h
    refine (Gives.refl s).extends.imp ?_
    rintro N Φ outer frame _ ⟨rfl, -⟩
    exact .nil
  | cons first rest =>
    rw [block] at h
    obtain ⟨_, s₁, hfirst, h⟩ := bind_ok.1 h
    have hstatement := statement_extends first hfirst hret
    refine (hstatement.trans (block_extends rest h (hstatement.returnType.trans hret))).imp ?_
    rintro N Φ outer frame after ⟨between, hs, hrest⟩
    exact .cons hs hrest

/-- Arms that are accepted are well typed, each in a frame of its own. -/
theorem cases_gives (arms : List Case) {s s' : Checker} {u : Unit} {ret ty : Ty}
    (h : cases ty arms s = .ok u s') (hret : s.returnType = some ret) :
    Gives (Case.nodesOfList arms) (Case.plainList arms) s s' fun N Φ Γ =>
      Arms N Φ ret Γ ty arms := by
  cases arms with
  | nil =>
    rw [cases] at h
    cases h
    exact (Gives.refl s).imp fun _ => .nil
  | cons arm rest =>
    obtain ⟨value, body⟩ := arm
    rw [cases] at h
    obtain ⟨_, s₁, hvalue, h⟩ := bind_ok.1 h
    obtain ⟨_, s₂, hbody, h⟩ := bind_ok.1 h
    have hfirst := caseValue_gives hvalue
    have hret₁ := hfirst.returnType.trans hret
    have hblock := inScope_gives hbody fun hb => block_extends body hb hret₁
    have hrest := cases_gives rest h (hblock.returnType.trans hret₁)
    refine (hfirst.trans (hblock.trans hrest)).imp fun {N Φ Γ} hn => ?_
    obtain ⟨hvalue, ⟨_, hb⟩, harms⟩ := hn
    cases value with
    | none =>
      rw [List.isEmpty_iff.1 hvalue]
      exact .default hb
    | some e => exact .case hvalue hb harms

end

/-! ### Globals -/

/-- A global whose value, if any, is not a list. -/
theorem plain_extends {g : GlobalDecl} {u : Unit} {declared actual : Option Ty} {ty : Ty}
    (hplain : ∀ id es, g.value ≠ some (.list id es)) (hnamed : typeNamed? g.typeName = .ok declared)
    (hvalue : globalValue declared g.value s = .ok actual s₁)
    (hty : declaredType g.name declared actual = .ok ty)
    (h : declare g.id ⟨g.name, ty, g.mutable, ()⟩ s₁ = .ok u s') :
    Extends g.nodes g.plain s s' fun N Φ outer frame after =>
      outer = [] → Typing.Global N Φ frame g after := by
  have hg : g.plain = ((g.typeName.all plainName && Expr.plainOption g.value) && true) := by
    rw [GlobalDecl.plain, Bool.and_true]
    split
    · exact absurd ‹_› (hplain _ _)
    · rfl
  have hexpression : expression? g.value s = .ok actual s₁ := by
    rw [globalValue] at hvalue
    · exact hvalue
    · exact fun id es => hplain id es
  rw [hg]
  refine ((declares_gives hnamed hexpression hty).extends.trans (declare_extends h)).imp ?_
  rintro N Φ outer frame _ ⟨_, ⟨rfl, hdeclares⟩, hnew, rfl, hnote⟩ rfl
  exact .plain hplain hdeclares hnew hnote

/-- The elements of a list that is a global have the type that the global names, or any
type if it names none. -/
theorem declaredType_list {name : String} {typeName : Option String} {declared : Option Ty}
    {ty : Ty} (hnamed : typeNamed? typeName = .ok declared)
    (hty : declaredType name declared (some (declared.getD .any)) = .ok ty) :
    ty = declared.getD .any ∧ typeName.elim (some .any) Ty.ofName? = some ty ∧
      ∀ {N : Notes}, N.Suits [] (typeName.any plainName) → N.named ty := by
  rcases typeNamed?_ok hnamed with ⟨rfl, rfl⟩ | ⟨name, declared, rfl, rfl, hname⟩
  · cases hty
    exact ⟨rfl, rfl, fun hN => hN.lists.2 _⟩
  · obtain ⟨rfl, -⟩ := declaredType_both_ok hty
    exact ⟨rfl, hname, fun hN => hN.named hname⟩

/-- A global that is a list has the type of the elements. -/
theorem list_extends {g : GlobalDecl} {id : NodeId} {es : List Expr} {u : Unit}
    {declared actual : Option Ty} {ty : Ty} (hlist : g.value = some (.list id es))
    (hnamed : typeNamed? g.typeName = .ok declared)
    (hvalue : globalValue declared (some (.list id es)) s = .ok actual s₁)
    (hty : declaredType g.name declared actual = .ok ty)
    (h : declare g.id ⟨g.name, ty, g.mutable, ()⟩ s₁ = .ok u s') :
    Extends g.nodes g.plain s s' fun N Φ outer frame after =>
      outer = [] → Typing.Global N Φ frame g after := by
  have hnodes : g.nodes = (Expr.nodesOfList es ++ [id]) ++ [g.id] := by
    rw [GlobalDecl.nodes, hlist]
    rfl
  have hplain : g.plain = ((g.typeName.any plainName && Expr.plainList es) && true) := by
    rw [GlobalDecl.plain, hlist, Bool.and_true]
  obtain ⟨_, s₂, hes, hvalue⟩ := bind_ok.1 hvalue
  obtain ⟨elementType, htyped, rfl⟩ := map_ok.1 hvalue
  obtain ⟨rfl, hg⟩ := (elements_gives es hes).typed htyped
  obtain ⟨rfl, hname, hplainName⟩ := declaredType_list hnamed hty
  rw [hnodes, hplain]
  refine ((hg.named hplainName).extends.trans (declare_extends h)).imp ?_
  rintro N Φ outer frame _ ⟨_, ⟨rfl, hty, hfit, hnode⟩, hnew, rfl, hnote⟩ rfl
  exact .list hlist hname hty hfit hnode hnew hnote

/-- A global that is accepted is well typed in the frame of the globals before it. -/
theorem global_extends (g : GlobalDecl) {u : Unit} (h : global g s = .ok u s') :
    Extends g.nodes g.plain s s' fun N Φ outer frame after =>
      outer = [] → Typing.Global N Φ frame g after := by
  obtain ⟨declared, hnamed, h⟩ := rule_ok h
  obtain ⟨actual, s₁, hvalue, h⟩ := bind_ok.1 h
  obtain ⟨ty, hty, h⟩ := rule_ok h
  by_cases hlist : ∃ id es, g.value = some (.list id es)
  · obtain ⟨id, es, hlist⟩ := hlist
    rw [hlist] at hvalue
    exact list_extends hlist hnamed hvalue hty h
  · exact plain_extends (fun id es hv => hlist ⟨id, es, hv⟩) hnamed hvalue hty h

/-- Globals that are accepted are well typed, one after the other. -/
theorem globals_extends (gs : List GlobalDecl) {s s' : Checker} {u : Unit}
    (h : gs.forM global s = .ok u s') :
    Extends (gs.flatMap GlobalDecl.nodes) (gs.all GlobalDecl.plain) s s'
      fun N Φ outer frame after => outer = [] → Globals N Φ frame gs after := by
  induction gs generalizing s with
  | nil =>
    cases h
    refine (Gives.refl _).extends.imp ?_
    rintro N Φ outer frame _ ⟨rfl, -⟩ _
    exact .nil
  | cons g rest ih =>
    obtain ⟨_, s₁, hg, h⟩ := bind_ok.1 h
    refine ((global_extends g hg).trans (ih h)).imp ?_
    rintro N Φ outer frame after ⟨between, hfirst, hrest⟩ houter
    exact .cons (hfirst houter) (hrest houter)

/-! ### Functions -/

/-- Parameters are put into the frame one after the other. -/
theorem parameters_extends (names : List String) {tys : List Ty} {s s' : Checker} {u : Unit}
    (h : parameters names tys s = .ok u s') :
    Extends [] true s s' fun _ _ _ frame after => Parameters frame names tys after := by
  induction names generalizing tys s with
  | nil =>
    cases h
    refine (Gives.refl _).extends.imp ?_
    rintro N Φ outer frame _ ⟨rfl, -⟩
    exact .noName
  | cons name names ih =>
    cases tys with
    | nil =>
      cases h
      refine (Gives.refl _).extends.imp ?_
      rintro N Φ outer frame _ ⟨rfl, -⟩
      exact .noType
    | cons ty tys =>
      obtain ⟨_, s₁, hdefine, h⟩ := bind_ok.1 h
      refine ((defineVariable_extends hdefine).trans (ih h)).imp ?_
      rintro N Φ outer frame after ⟨_, ⟨hnew, rfl⟩, hrest⟩
      exact .cons hnew hrest

/-- Every name of a type among the parameters names its type. -/
theorem typesNamed_ok {names : List String} {tys : List Ty} (h : names.mapM typeNamed = .ok tys) :
    List.Forall₂ (fun name ty => Ty.ofName? name = some ty) names tys := by
  induction names generalizing tys with
  | nil =>
    cases h
    exact .nil
  | cons name names ih =>
    rw [List.mapM_cons] at h
    cases hname : typeNamed name with
    | error e =>
      rw [hname] at h
      cases h
    | ok ty =>
      cases hnames : names.mapM typeNamed with
      | error e =>
        rw [hname, hnames] at h
        cases h
      | ok rest =>
        rw [hname, hnames] at h
        cases h
        exact .cons (typeNamed_ok hname) (ih hnames)

/-- The signature of a function that is accepted is the one it is written with. -/
theorem signature_ok {f : FunctionDecl} {r : Routine Unit} (h : signature f = .ok r) :
    Signature f r := by
  unfold signature at h
  cases htys : f.parameterTypeNames.mapM typeNamed with
  | error e =>
    rw [htys] at h
    cases h
  | ok tys =>
    cases hret : typeNamed? f.returnTypeName with
    | error e =>
      rw [htys, hret] at h
      cases h
    | ok ret =>
      rw [htys, hret] at h
      cases h
      refine ⟨tys, ret.getD .nil, typesNamed_ok htys, ?_, rfl⟩
      rcases typeNamed?_ok hret with ⟨hnone, rfl⟩ | ⟨name, ty, hsome, rfl, hname⟩
      · rw [hnone]
        rfl
      · rw [hsome]
        exact hname

/-- A step that defines functions in the root: `Φ` are the functions after it. -/
structure Defines (ids : List NodeId) (plain : Bool) (s s' : Checker) (Φ : Signatures)
    (globals : Locals) (P : Notes → Prop) : Prop where
  root : s'.scopes.current = 0
  chain : Chain s'.scopes.scopes Φ 0 [globals]
  grows : Annotations.Grows ids s.annotations s'.annotations
  derives : ∀ {N : Notes}, N.Suits ids plain → N.Hold s'.annotations ids → P N

/-- A function that is accepted is new, and is put into the root. -/
theorem defineFunction_ok {r : Routine Unit} {u : Unit} {Φ : Signatures} {globals : Locals}
    (h : defineFunction r s = .ok u s') (hroot : s.scopes.current = 0)
    (hΓ : Chain s.scopes.scopes Φ 0 [globals]) :
    Φ.find? (r.name, r.arity) = none ∧
      s' = { s with scopes := s.scopes.modify 0 (·.addFunction r) } := by
  unfold defineFunction at h
  rw [hΓ.defineFunction hroot] at h
  cases hfind : Φ.find? (r.name, r.arity) with
  | none =>
    rw [hfind] at h
    cases h
    exact ⟨rfl, rfl⟩
  | some r' =>
    rw [hfind] at h
    cases h

/-- Parameters and body of a function share a scope. -/
theorem body_gives {f : FunctionDecl} {r : Routine Unit} {u : Unit}
    (h : returning r.returnType (inScope do
      parameters f.parameters r.parameterTypes
      block f.body) s = .ok u s') :
    Gives (Stmt.nodesOfList f.body) (Stmt.plainList f.body) s s' fun N Φ Γ =>
      ∃ frame after, Parameters .empty f.parameters r.parameterTypes frame ∧
        Block N Φ r.returnType Γ frame f.body after := by
  unfold returning at h
  split at h
  · rename_i s₁ hok
    cases h
    have hg := inScope_gives hok fun hb => by
      obtain ⟨_, s₂, hparameters, hb⟩ := bind_ok.1 hb
      have hfirst := parameters_extends f.parameters hparameters
      exact hfirst.trans (block_extends f.body hb hfirst.returnType)
    refine ⟨hg.scopes, rfl, hg.grows, fun hN hold hΦ hΓ => ?_⟩
    obtain ⟨after, frame, hparameters, hblock⟩ := hg.derives hN hold hΦ hΓ
    exact ⟨frame, after, hparameters, hblock⟩
  · cases h

/-- A function that is accepted is well typed with itself among the functions. -/
theorem function_defines {f : FunctionDecl} {u : Unit} {Φ : Signatures} {globals : Locals}
    (h : function f s = .ok u s') (hroot : s.scopes.current = 0)
    (hΓ : Chain s.scopes.scopes Φ 0 [globals]) (hΦ : Φ.Keyed) :
    ∃ r, Signature f r ∧ Φ.find? (r.name, r.arity) = none ∧
      Defines f.nodes f.plain s s' (Φ.insert (r.name, r.arity) r) globals fun N =>
        (∀ ty ∈ r.returnType :: r.parameterTypes, N.named ty) ∧
          Body N (Φ.insert (r.name, r.arity) r) globals f r := by
  obtain ⟨r, hsignature, h⟩ := rule_ok h
  obtain ⟨_, s₁, hdefine, h⟩ := bind_ok.1 h
  obtain ⟨_, s₂, hrecord, h⟩ := bind_ok.1 h
  cases hrecord
  obtain ⟨hnew, rfl⟩ := defineFunction_ok hdefine hroot hΓ
  have hg := body_gives h
  have hΓ' : Chain (s.scopes.modify 0 (·.addFunction r)).scopes (Φ.insert (r.name, r.arity) r)
      s.scopes.current [globals] := by
    rw [hroot]
    exact hΓ.addFunction r
  have hs := hg.scopes hΓ'
  refine ⟨r, signature_ok hsignature, hnew, ?_, ?_, ?_, fun hN hold => ?_⟩
  · rw [hs]
    exact hroot
  · rw [hs]
    exact hΓ.addFunction r
  · exact hg.grows.mono (List.subset_append_left _ _)
  · have hN' : Notes.Suits _ ([] ++ Stmt.nodesOfList f.body) f.plain := hN.init
    refine ⟨(signature_ok hsignature).named hN'.left, ?_⟩
    refine hg.derives hN'.right (fun id hid => hold id (List.mem_append_left _ hid)) ?_ hΓ'
    exact hΦ.insert r

/-- Functions that are accepted are well typed, each with those before it. -/
theorem functions_defines (fs : List FunctionDecl) {s s' : Checker} {u : Unit} {Φ : Signatures}
    {globals : Locals} (h : fs.forM function s = .ok u s') (hroot : s.scopes.current = 0)
    (hΓ : Chain s.scopes.scopes Φ 0 [globals]) (hΦ : Φ.Keyed) :
    ∃ Φ', Defines (fs.flatMap FunctionDecl.nodes) (fs.all FunctionDecl.plain) s s' Φ' globals
      fun N => Functions N globals Φ fs Φ' := by
  induction fs generalizing s Φ with
  | nil =>
    cases h
    exact ⟨Φ, hroot, hΓ, .refl _, fun _ _ => .nil⟩
  | cons f rest ih =>
    obtain ⟨_, s₁, hf, h⟩ := bind_ok.1 h
    obtain ⟨r, hsignature, hnew, hfirst⟩ := function_defines hf hroot hΓ hΦ
    obtain ⟨Φ', hrest⟩ := ih h hfirst.root hfirst.chain (hΦ.insert r)
    refine ⟨Φ', hrest.root, hrest.chain, hfirst.grows.trans hrest.grows, fun hN hold => ?_⟩
    -- later functions have nodes of their own, so what is noted for this one is still there
    obtain ⟨hnamed, hbody⟩ := hfirst.derives hN.left (hold.earlier hrest.grows hN)
    exact .cons hsignature hnamed hnew hbody (hrest.derives hN.right hold.right)

/-- At first there are the builtin functions and no globals. -/
theorem chain_start : Chain start.scopes.scopes Typing.builtins 0 [.empty] :=
  have hscope : start.scopes.scopes[0]? = some ⟨none, .empty, Typing.builtins⟩ := rfl
  .root hscope rfl rfl

/-- There is a `main` without parameters that returns an `Integer`. -/
theorem requireMain_ok {u : Unit} (h : requireMain s = .ok u s') :
    s' = s ∧ ∃ r, s.scopes.findFunction? "main" 0 = some r ∧ r.returnType = .integer := by
  unfold requireMain at h
  split at h
  · cases h
  · split at h
    · cases h
      exact ⟨rfl, _, ‹_›, ‹_›⟩
    · cases h

end Check

/-- **A program that is accepted is well typed**, and its derivation agrees with what
checking found out about its nodes. -/
theorem Source.wellTyped_of_check {p : Source} {a : Annotations} (h : p.check = .ok a) :
    ∃ frame Φ, ∀ N : Notes, N.Suits p.nodes p.plain → N.Hold a p.nodes →
      WellTyped N p frame Φ := by
  unfold Source.check at h
  split at h
  · rename_i s hok
    cases h
    obtain ⟨_, s₁, hglobals, hok⟩ := bind_ok.1 hok
    obtain ⟨_, s₂, hfunctions, hok⟩ := bind_ok.1 hok
    have hextends := Check.globals_extends p.globals hglobals
    obtain ⟨frame, hs₁, hframe⟩ := hextends.derives Check.chain_start
    have hroot : s₁.scopes.current = 0 := by
      rw [hs₁]
      rfl
    have hΓ : Chain s₁.scopes.scopes Typing.builtins 0 [frame] := by
      rw [hs₁]
      exact Check.chain_start.withVars frame
    obtain ⟨Φ, hdefines⟩ :=
      Check.functions_defines p.functions hfunctions hroot hΓ Typing.keyed_builtins
    obtain ⟨rfl, r, hmain, hinteger⟩ := Check.requireMain_ok hok
    refine ⟨frame, Φ, fun N hN hold => ⟨?_, ?_, r, ?_, hinteger⟩⟩
    -- the nodes of the functions are not those of the globals
    · exact hframe hN.left (hold.earlier hdefines.grows hN) Typing.keyed_builtins rfl
    · exact hdefines.derives hN.right hold.right
    · have hcurrent : Chain s.scopes.scopes Φ s.scopes.current [frame] := by
        rw [hdefines.root]
        exact hdefines.chain
      rw [← hmain, hcurrent.findFunction?]
  · cases h

end Scriptlet
