import Scriptlet.Proofs.Parts
import Scriptlet.Proofs.ProgramTyped

/-!
# Well-typed programs are accepted

The converse of `Source.wellTyped_of_check`: from a derivation it follows that checking
succeeds, and what it finds out.  A step that succeeds is described by the scopes that it
leaves and by its findings (`Check.Accepts`); derivations are followed rule by rule.

Names need some care.  A variable is kept in a frame under its own name, and a function
under its own name and number of parameters, so that what is recorded for an access or a
call bears the name that is written there.
-/

namespace Scriptlet

/-! ### Names -/

/-- Every variable is stored under its name. -/
def Table.Named (frame : Locals) : Prop := ∀ name v, frame.find? name = some v → v.name = name

/-- An empty frame names nothing wrong. -/
theorem Table.Named.empty : (Table.empty : Locals).Named := fun _ _ h => nomatch h

/-- A variable is put into a frame under its own name. -/
theorem Table.Named.insert {frame : Locals} (h : frame.Named) (v : Variable Unit) :
    (Table.insert frame v.name v).Named := by
  intro name v' hv'
  rw [Table.find?_insert] at hv'
  split at hv'
  · cases hv'
    assumption
  · exact h name v' hv'

/-- In every frame variables are stored under their names. -/
def Env.Named (Γ : Env) : Prop := ∀ frame ∈ Γ, frame.Named

/-- A variable that is found bears the name that was looked up. -/
theorem Env.Named.lookup {Γ : Env} (h : Γ.Named) {name : String} {v : Variable Unit}
    (hv : Γ.lookup name = some v) : v.name = name := by
  induction Γ with
  | nil => cases hv
  | cons frame outer ih =>
    obtain ⟨hframe, houter⟩ := List.forall_mem_cons.1 h
    rw [Env.lookup] at hv
    cases hfind : frame.find? name with
    | none =>
      rw [hfind] at hv
      exact ih houter hv
    | some found =>
      rw [hfind] at hv
      obtain rfl : found = v := Option.some.inj hv
      exact hframe name found hfind

/-- Every function has the Java name of the key under which it is stored, and `print` is
there. -/
def Table.JavaNamed (Φ : Signatures) : Prop :=
  (Φ.find? ("print", 1)).isSome ∧
    ∀ name n r, Φ.find? (name, n) = some r → r.javaName = javaNameOf name n

/-- At first there is `print` alone, under its own name. -/
theorem Typing.javaNamed_builtins : Typing.builtins.JavaNamed := by
  refine ⟨rfl, fun name n r hr => ?_⟩
  rw [builtins, Table.find?_insert] at hr
  split at hr
  · rename_i hkey
    cases hr
    rw [javaNameOf, if_pos hkey.symm]
    rfl
  · cases hr

/-- A function of the program keeps its name; it is not `print`, which is there already. -/
theorem Table.JavaNamed.insert {Φ : Signatures} (h : Φ.JavaNamed) {r : Routine Unit}
    (hname : r.javaName = r.name) (hnew : Φ.find? (r.name, r.arity) = none) :
    (Table.insert Φ (r.name, r.arity) r).JavaNamed := by
  have hprint : (r.name, r.arity) ≠ ("print", 1) := by
    intro heq
    rw [heq] at hnew
    rw [JavaNamed, hnew] at h
    cases h.1
  refine ⟨?_, fun name n r' hr' => ?_⟩
  · rw [Table.find?_insert, if_neg hprint]
    exact h.1
  · rw [Table.find?_insert] at hr'
    split at hr'
    · rename_i hkey
      cases hr'
      rw [javaNameOf, if_neg (hkey ▸ hprint), hname]
      exact congrArg Prod.fst hkey
    · exact h.2 name n r' hr'

namespace Typing

/-! ### Rules without names -/

/-- The type of a literal is found. -/
theorem OfLiteral.typeOfLiteral_eq {value : Literal} {ty : Ty} (h : OfLiteral value ty) :
    typeOfLiteral value = .ok ty := by
  cases h with
  | nil | boolean | character | string => rfl
  | integer hlow hhigh =>
    have hfits : fitsInt32 _ = true := decide_eq_true ⟨hlow, hhigh⟩
    rw [typeOfLiteral, if_pos hfits]
  | decimal hfinite => rw [typeOfLiteral, if_pos hfinite]

/-- A type that can be assigned fits. -/
theorem requireFits_eq {target actual : Ty} (h : Assignable target actual) :
    requireFits target actual = .ok () := if_pos (accepts_iff.2 h)

/-- The type of an operation is found. -/
theorem OfOperator.typeOfBinary_eq {op : BinaryOp} {l r ty : Ty} (h : OfOperator op l r ty) :
    typeOfBinary op l r = .ok ty := by
  cases h with
  | logic hop => rcases hop with rfl | rfl <;> rfl
  | compare hop hcomparable =>
    have hfits := requireFits_eq hcomparable
    cases op with
    | less | greater | equal | notEqual =>
      rw [typeOfBinary, hfits]
      show (if l = l then Except.ok Ty.boolean else _) = _
      exact if_pos rfl
    | and | or | add | subtract | multiply | divide | power => exact absurd hop (by decide)
  | concat hstring => exact if_pos hstring
  | arithmetic hop hnumber =>
    have hops : op = .add ∨ op = .subtract ∨ op = .multiply ∨ op = .divide := by simpa using hop
    rcases hops with rfl | rfl | rfl | rfl <;> rcases hnumber with rfl | rfl <;> rfl
  | power hnumber => exact if_pos ⟨hnumber, rfl⟩

end Typing

namespace Check

open Annotations

/-! ### Steps that succeed -/

/-- Whatever was found out before, a step succeeds, takes the scopes to other scopes, and
finds out what should be known about some expressions; `ret` is what the enclosing function
returns. -/
def Accepts {α : Type} (N : Notes) (ids : List NodeId) (es : List Expr) (x : Check α)
    (ret : Option Ty) (scopes : Scopes Unit Unit) (result : α) (scopes' : Scopes Unit Unit) :
    Prop :=
  ∀ a, ∃ a', x ⟨scopes, a, ret⟩ = .ok result ⟨scopes', a', ret⟩ ∧ Finds N ids es a a'

namespace Accepts

variable {α β : Type} {N : Notes} {ids jds : List NodeId} {es es' : List Expr} {x : Check α}
  {ret : Option Ty} {result : α} {result' : β} {scopes scopes' scopes'' : Scopes Unit Unit}

/-- One step after the other: findings and nodes are put together. -/
theorem bind {f : α → Check β} (hx : Accepts N ids es x ret scopes result scopes')
    (hf : Accepts N jds es' (f result) ret scopes' result' scopes'') :
    Accepts N (ids ++ jds) (es ++ es') (x >>= f) ret scopes result' scopes'' := by
  intro a
  obtain ⟨a₁, hrun, hfinds⟩ := hx a
  obtain ⟨a₂, hrun', hfinds'⟩ := hf a₁
  exact ⟨a₂, (bind_eq hrun f).trans hrun', hfinds.trans hfinds'⟩

/-- After a step only the answer is changed. -/
theorem last {f : α → Check β} (hx : Accepts N ids es x ret scopes result scopes')
    (hf : ∀ s, f result s = .ok result' s) :
    Accepts N ids es (x >>= f) ret scopes result' scopes' := by
  intro a
  obtain ⟨a', hrun, hfinds⟩ := hx a
  exact ⟨a', (bind_eq hrun f).trans (hf _), hfinds⟩

/-- Before a step nothing is changed. -/
theorem first {y : Check β} {f : β → Check α}
    (hy : ∀ a, y ⟨scopes, a, ret⟩ = .ok result' ⟨scopes, a, ret⟩)
    (hf : Accepts N ids es (f result') ret scopes result scopes') :
    Accepts N ids es (y >>= f) ret scopes result scopes' := by
  intro a
  obtain ⟨a', hrun, hfinds⟩ := hf a
  exact ⟨a', (bind_eq (hy a) f).trans hrun, hfinds⟩

/-- A rule of typing that gives its result, and then a step. -/
theorem rule {y : Except CheckError β} {f : β → Check α} (hy : y = .ok result')
    (hf : Accepts N ids es (f result') ret scopes result scopes') :
    Accepts N ids es (Check.rule y >>= f) ret scopes result scopes' := by
  subst hy
  exact hf

/-- A result leaves all as it is. -/
theorem pure (N : Notes) (ret : Option Ty) (result : α) (scopes : Scopes Unit Unit) :
    Accepts N [] [] (pure result) ret scopes result scopes :=
  fun a => ⟨a, rfl, .refl N a⟩

/-- The branch of a condition that holds. -/
theorem condition {p : Prop} [Decidable p] {y : Check α} (hp : p)
    (h : Accepts N ids es x ret scopes result scopes') :
    Accepts N ids es (if p then x else y) ret scopes result scopes' := by
  rw [if_pos hp]
  exact h

/-- A scope that is closed again is forgotten. -/
theorem inScope {vars : Locals} (h : Accepts N ids es x ret (scopes.enter scopes.current) result
      ((scopes.enter scopes.current).withVars vars)) :
    Accepts N ids es (Check.inScope x) ret scopes result scopes := by
  intro a
  obtain ⟨a', hrun, hfinds⟩ := h a
  refine ⟨a', ?_, hfinds⟩
  unfold Check.inScope
  rw [hrun]
  simp only [Scopes.leave_withVars_enter]

/-- What is checked inside of a function is accepted with its own type of results. -/
theorem returning {ty : Ty} (h : Accepts N ids es x (some ty) scopes result scopes') :
    Accepts N ids es (Check.returning ty x) ret scopes result scopes' := by
  intro a
  obtain ⟨a', hrun, hfinds⟩ := h a
  refine ⟨a', ?_, hfinds⟩
  unfold Check.returning
  rw [hrun]

end Accepts

/-! ### Expressions -/

/-- The scopes show the functions and variables of a derivation, all under their names. -/
structure Shows (scopes : Scopes Unit Unit) (Φ : Signatures) (Γ : Env) : Prop where
  chain : Chain scopes.scopes Φ scopes.current Γ
  named : Γ.Named
  javaNamed : Φ.JavaNamed

/-- An expression is accepted, and its type is recorded. -/
def Typed (N : Notes) (e : Expr) (ty : Ty) (ret : Option Ty) (scopes : Scopes Unit Unit) : Prop :=
  ∀ a, ∃ a', expression e ⟨scopes, a, ret⟩ = .ok ty ⟨scopes, a', ret⟩ ∧
    Finds N e.nodes e.parts a a' ∧ a'.types.find? e.id = some ty

/-- A type that was noted at a node is found there. -/
theorem find?_setType (a : Annotations) (id : NodeId) (ty : Ty) :
    (a.setType id ty).types.find? id = some ty := by
  rw [Annotations.setType, Table.find?_insert, if_pos rfl]

/-- A variable that the scopes hold is looked up. -/
theorem lookupVariable_eq {s : Checker} {name : String} {v : Variable Unit}
    (h : s.scopes.findVariable? name = some v) : lookupVariable name s = .ok v s := by
  rw [lookupVariable, h]

/-- A function that the scopes hold is looked up. -/
theorem lookupFunction_eq {s : Checker} {name : String} {arity : Nat} {r : Routine Unit}
    (h : s.scopes.findFunction? name arity = some r) : lookupFunction name arity s = .ok r s := by
  rw [lookupFunction, h]

/-- An access to a variable notes the variable and its type. -/
theorem variableType_eq {s : Checker} {name : String} {v : Variable Unit}
    (h : s.scopes.findVariable? name = some v) (id : NodeId) :
    variableType id name s = .ok v.ty
      { s with annotations := (s.annotations.bindVariable id v).setType id v.ty } := by
  rw [variableType, bind_eq (lookupVariable_eq h)]
  rfl

/-- The variable of a node is recorded before its type. -/
theorem binds_variable {a : Annotations} {id : NodeId} {name : String} {v : Variable Unit}
    (hname : v.name = name) :
    ∃ v', ((a.bindVariable id v).setType id v.ty).vars.find? id = some v' ∧ v'.name = name := by
  refine ⟨v, ?_, hname⟩
  rw [Annotations.setType, Annotations.bindVariable, Table.find?_insert, if_pos rfl]

/-- Elements of a list are arguments that all have the same type. -/
theorem elements_eq (ty : Ty) (es : List Expr) :
    elements ty es = arguments es (List.replicate es.length ty) := by
  induction es with
  | nil =>
    rw [elements, arguments]
    simp
  | cons e es ih => rw [elements, List.length_cons, List.replicate_succ, arguments, ih]

end Check

namespace Typing

open Check Annotations

variable {N : Notes} {Φ : Signatures} {Γ : Env} {ret : Option Ty} {scopes : Scopes Unit Unit}

mutual

/-- **A well-typed expression is accepted.** -/
theorem HasType.typed (e : Expr) {ty : Ty} (h : HasType N Φ Γ e ty) (hs : Shows scopes Φ Γ) :
    Typed N e ty ret scopes := by
  intro a
  cases e with
  | literal id value =>
    cases h with
    | literal hliteral hnote =>
      refine ⟨a.setType id ty, ?_, ?_, find?_setType a id ty⟩
      · rw [expression, hliteral.typeOfLiteral_eq]
        rfl
      · exact (Finds.refl N a).node (.setType a id ty) rfl rfl fun _ =>
          ⟨⟨ty, find?_setType a id ty, hnote⟩, trivial⟩
  | group id inner =>
    cases h with
    | group hbinary hinner hnote =>
      obtain ⟨a₁, hrun, hfinds, -⟩ := HasType.typed inner hinner hs a
      refine ⟨a₁.setType id ty, ?_, ?_, find?_setType a₁ id ty⟩
      · rw [expression, if_pos (isBinary_iff.2 hbinary)]
        exact bind_eq hrun (Check.typed id)
      · exact hfinds.node (.setType a₁ id ty) rfl rfl fun _ =>
          ⟨⟨ty, find?_setType a₁ id ty, hnote⟩, hbinary⟩
  | binary id op left right =>
    cases h with
    | @binary _ _ _ _ l r _ hleft hright hop hnote =>
      obtain ⟨a₁, hrun₁, hfinds₁, htype₁⟩ := HasType.typed left hleft hs a
      obtain ⟨a₂, hrun₂, hfinds₂, htype₂⟩ := HasType.typed right hright hs a₁
      refine ⟨a₂.setType id ty, ?_, ?_, find?_setType a₂ id ty⟩
      · rw [expression, bind_eq hrun₁, bind_eq hrun₂, hop.typeOfBinary_eq]
        rfl
      · refine (hfinds₁.trans hfinds₂).node (.setType a₂ id ty) (List.append_assoc ..).symm
          (List.append_assoc ..).symm fun hnodup => ?_
        -- neither the right operand nor the node itself has an id of the left operand
        obtain ⟨hoperands, -, hid⟩ := List.nodup_append'.1 hnodup
        obtain ⟨-, -, hdisjoint⟩ := List.nodup_append'.1 hoperands
        have hset := Touches.setType a₂ id ty (left.nodes ++ right.nodes) hid
        have hleft := hset left.id (List.mem_append_left _ left.id_mem_nodes)
        have hright := hset right.id (List.mem_append_right _ right.id_mem_nodes)
        have hkept := hfinds₂.touches left.nodes hdisjoint left.id left.id_mem_nodes
        exact ⟨⟨ty, find?_setType a₂ id ty, hnote⟩, l, r, ty, hleft.1.trans (hkept.1.trans htype₁),
          hright.1.trans htype₂, find?_setType a₂ id ty, hop⟩
  | access id name =>
    cases h with
    | @access _ _ v hlookup hnote =>
      have hfind := (hs.chain.findVariable? name).trans hlookup
      refine ⟨(a.bindVariable id v).setType id v.ty, ?_, ?_, find?_setType _ id v.ty⟩
      · rw [expression]
        exact variableType_eq hfind id
      · exact (Finds.refl N a).node (.twice (.bindVariable a id v) (.setType _ id v.ty)) rfl rfl
          fun _ =>
            ⟨⟨v.ty, find?_setType _ id v.ty, hnote⟩, binds_variable (hs.named.lookup hlookup)⟩
  | element id name offset =>
    cases h with
    | @element _ _ _ v hoffset hlookup hnote =>
      obtain ⟨a₁, hrun, hfinds, -⟩ := HasType.typed offset hoffset hs a
      have hfind := (hs.chain.findVariable? name).trans hlookup
      refine ⟨(a₁.bindVariable id v).setType id v.ty, ?_, ?_, find?_setType _ id v.ty⟩
      · rw [expression, bind_eq hrun, if_pos rfl]
        exact variableType_eq (s := ⟨scopes, a₁, ret⟩) hfind id
      · exact hfinds.node (.twice (.bindVariable a₁ id v) (.setType _ id v.ty)) rfl rfl fun _ =>
          ⟨⟨v.ty, find?_setType _ id v.ty, hnote⟩, binds_variable (hs.named.lookup hlookup)⟩
  | call id name args =>
    cases h with
    | @call _ _ _ r hfunction hargs hnote =>
      obtain ⟨a₁, hrun, hfinds⟩ := Fit.accepts args hargs hs a
      have hfind := (hs.chain.findFunction? name args.length).trans hfunction
      refine ⟨(a₁.bindFunction id r).setType id r.returnType, ?_, ?_, find?_setType _ id _⟩
      · rw [expression, bind_eq (lookupFunction_eq hfind), bind_eq hrun]
        rfl
      · refine hfinds.node (.twice (.bindFunction a₁ id r) (.setType _ id _)) rfl rfl fun _ =>
          ⟨⟨r.returnType, find?_setType _ id _, hnote⟩, r, ?_, hs.javaNamed.2 name _ r hfunction⟩
        rw [Annotations.setType, Annotations.bindFunction, Table.find?_insert, if_pos rfl]
  | list id es =>
    cases h with
    | list _ hes hnote =>
      obtain ⟨a₁, hrun, hfinds⟩ := Fit.accepts es hes hs a
      refine ⟨a₁.setType id .any, ?_, ?_, find?_setType a₁ id _⟩
      · rw [expression, elements_eq, bind_eq hrun]
        rfl
      · exact hfinds.node (.setType a₁ id .any) rfl rfl fun _ =>
          ⟨⟨.any, find?_setType a₁ id _, hnote⟩, trivial⟩

/-- Arguments that fit are accepted, from left to right. -/
theorem Fit.accepts (es : List Expr) {tys : List Ty} (h : Fit N Φ Γ es tys)
    (hs : Shows scopes Φ Γ) :
    Accepts N (Expr.nodesOfList es) (Expr.partsOfList es) (arguments es tys) ret scopes ()
      scopes := by
  cases es with
  | nil =>
    cases h
    rw [arguments]
    · exact .pure N ret () scopes
    · simp
  | cons e es =>
    cases h with
    | @cons _ _ target actual targets he hfits hrest =>
      intro a
      obtain ⟨a₁, hrun₁, hfinds₁, -⟩ := HasType.typed e he hs a
      obtain ⟨a₂, hrun₂, hfinds₂⟩ := Fit.accepts es hrest hs a₁
      refine ⟨a₂, ?_, hfinds₁.trans hfinds₂⟩
      rw [arguments, bind_eq hrun₁, requireFits_eq hfits]
      exact hrun₂

end

/-- An expression that has a type is accepted, with this type; induction is on the expression. -/
theorem HasType.accepts {e : Expr} {ty : Ty} (h : HasType N Φ Γ e ty) (hs : Shows scopes Φ Γ) :
    Accepts N e.nodes e.parts (expression e) ret scopes ty scopes := by
  intro a
  obtain ⟨a', hrun, hfinds, -⟩ := h.typed e hs a
  exact ⟨a', hrun, hfinds⟩

/-! ### Declarations -/

/-- A name of a type is resolved. -/
theorem typeNamed?_eq {name : String} {ty : Ty} (h : Ty.ofName? name = some ty) :
    typeNamed? (some name) = .ok (some ty) := by
  rw [typeNamed?, typeNamed, h]
  rfl

/-- A value that is there is accepted, with its type. -/
theorem HasType.accepts? {e : Expr} {ty : Ty} (h : HasType N Φ Γ e ty) (hs : Shows scopes Φ Γ) :
    Accepts N e.nodes e.parts (expression? (some e)) ret scopes (some ty) scopes := by
  intro a
  obtain ⟨a', hrun, hfinds⟩ := h.accepts hs a
  exact ⟨a', map_ok.2 ⟨ty, hrun, rfl⟩, hfinds⟩

/-- What the types and the value of a declaration come to. -/
theorem Declares.accepts {typeName : Option String} {value : Option Expr} {ty : Ty}
    (h : Declares N Φ Γ typeName value ty) (name : String) (hs : Shows scopes Φ Γ) :
    ∃ declared actual, typeNamed? typeName = .ok declared ∧
      Accepts N (Expr.nodesOfOption value) (Expr.partsOfOption value) (expression? value) ret
        scopes actual scopes ∧ declaredType name declared actual = .ok ty := by
  cases h with
  | both hname _ he hfits =>
    refine ⟨_, _, typeNamed?_eq hname, he.accepts? hs, ?_⟩
    rw [declaredType, requireFits_eq hfits]
    rfl
  | named hname _ => exact ⟨_, _, typeNamed?_eq hname, .pure N ret none scopes, rfl⟩
  | inferred he => exact ⟨_, _, rfl, he.accepts? hs, rfl⟩

end Typing

namespace Check

open Typing Annotations

variable {N : Notes} {Φ : Signatures} {Γ outer : Env} {frame : Locals} {ret : Option Ty}
  {scopes : Scopes Unit Unit}

/-- With other variables in its first frame, an environment is shown by the scopes with these
variables. -/
theorem Shows.withVars (h : Shows scopes Φ (frame :: outer)) {vars : Locals} (hvars : vars.Named) :
    Shows (scopes.withVars vars) Φ (vars :: outer) where
  chain := h.chain.withVars vars
  named := List.forall_mem_cons.2 ⟨hvars, (List.forall_mem_cons.1 h.named).2⟩
  javaNamed := h.javaNamed

/-- A new scope shows a new frame. -/
theorem Shows.enter (h : Shows scopes Φ Γ) :
    Shows (scopes.enter scopes.current) Φ (.empty :: Γ) where
  chain := h.chain.enter
  named := List.forall_mem_cons.2 ⟨.empty, h.named⟩
  javaNamed := h.javaNamed

/-- The current scope holds just what the first frame says. -/
theorem Shows.withVars_eq (h : Shows scopes Φ (frame :: outer)) :
    scopes.withVars frame = scopes := by
  obtain ⟨scope, hscope, rfl⟩ := h.chain.current_scope
  exact Scopes.withVars_self hscope

/-- A variable whose name is free in the frame is defined. -/
theorem defineVariable_eq (hs : Shows scopes Φ (frame :: outer)) {v : Variable Unit}
    (hfree : frame.find? v.name = none) (a : Annotations) :
    defineVariable v ⟨scopes, a, ret⟩ =
      .ok () ⟨scopes.withVars (frame.insert v.name v), a, ret⟩ := by
  rw [defineVariable, hs.chain.defineVariable v, hfree]

/-- A declaration whose name is free in the frame is accepted. -/
theorem declare_accepts (ret : Option Ty) (hs : Shows scopes Φ (frame :: outer)) {v : Variable Unit}
    (hfree : frame.find? v.name = none) (id : NodeId) :
    Accepts N [id] [] (declare id v) ret scopes () (scopes.withVars (frame.insert v.name v)) := by
  intro a
  refine ⟨a.bindVariable id v, ?_, .other (.bindVariable a id v)⟩
  rw [declare, bind_eq (defineVariable_eq hs hfree a)]
  rfl

/-- A declaration, as a statement or as a global. -/
theorem declaration_accepts (ret : Option Ty) (hs : Shows scopes Φ (frame :: outer)) (id : NodeId)
    {name : String} {typeName : Option String} {value : Option Expr} {ty : Ty} (mutable : Bool)
    (h : Declares N Φ (frame :: outer) typeName value ty) (hfree : frame.find? name = none) :
    Accepts N (Expr.nodesOfOption value ++ [id]) (Expr.partsOfOption value)
      (do
        let declared ← rule (typeNamed? typeName)
        let actual ← expression? value
        let ty ← rule (declaredType name declared actual)
        declare id ⟨name, ty, mutable, ()⟩) ret scopes ()
      (scopes.withVars (frame.insert name ⟨name, ty, mutable, ()⟩)) := by
  obtain ⟨declared, actual, hnamed, hvalue, hty⟩ := h.accepts name hs
  have hdeclare := declare_accepts (N := N) (v := ⟨name, ty, mutable, ()⟩) ret hs hfree id
  rw [← List.append_nil (Expr.partsOfOption value)]
  exact .rule hnamed (hvalue.bind (.rule hty hdeclare))

/-! ### Statements -/

/-- A condition of type `Boolean` is accepted. -/
theorem condition_accepts (hs : Shows scopes Φ Γ) (kind : Conditional) {e : Expr}
    (h : HasType N Φ Γ e .boolean) :
    Accepts N e.nodes e.parts (condition kind e) ret scopes () scopes :=
  (h.accepts hs).last fun _ => rfl

/-- That a type fits leaves the state as it is. -/
theorem requireFits_run {target actual : Ty} (h : Assignable target actual) (s : Checker) :
    rule (requireFits target actual) s = .ok () s := by
  rw [requireFits_eq h]
  rfl

/-- An assignment to a mutable variable of a value that fits. -/
theorem assignTo_accepts (ret : Option Ty) (hs : Shows scopes Φ Γ) {name : String}
    {receiver value : Expr} {v : Variable Unit} {target actual : Ty}
    (hreceiver : HasType N Φ Γ receiver target)
    (hlookup : Γ.lookup name = some v) (hmutable : v.mutable = true)
    (hvalue : HasType N Φ Γ value actual) (hfits : Assignable target actual) :
    Accepts N (receiver.nodes ++ value.nodes) (receiver.parts ++ value.parts)
      (assignTo name receiver value) ret scopes () scopes := by
  have hfind := (hs.chain.findVariable? name).trans hlookup
  refine (hreceiver.accepts hs).bind (.first (fun a => lookupVariable_eq hfind) ?_)
  exact .condition hmutable ((hvalue.accepts hs).last (requireFits_run hfits))

/-- An assignment to a variable or to an element. -/
theorem assignment_accepts (hs : Shows scopes Φ Γ) {name : String} {receiver value : Expr}
    {v : Variable Unit} {target actual : Ty} (hwrites : Writes receiver name)
    (hreceiver : HasType N Φ Γ receiver target) (hlookup : Γ.lookup name = some v)
    (hmutable : v.mutable = true) (hvalue : HasType N Φ Γ value actual)
    (hfits : Assignable target actual) :
    Accepts N (receiver.nodes ++ value.nodes) (receiver.parts ++ value.parts)
      (assignment receiver value) ret scopes () scopes := by
  have h := assignTo_accepts ret hs hreceiver hlookup hmutable hvalue hfits
  cases hwrites with
  | access => exact h
  | element => exact h

/-- A `RETURN` of a value that fits the function. -/
theorem returnValue_accepts (hs : Shows scopes Φ Γ) {value : Expr} {expected actual : Ty}
    (hvalue : HasType N Φ Γ value actual) (hfits : Assignable expected actual) :
    Accepts N value.nodes value.parts (returnValue value) (some expected) scopes () scopes :=
  (hvalue.accepts hs).last (requireFits_run hfits)

/-- The value of an arm that has the type of what is switched on. -/
theorem caseValue_accepts (hs : Shows scopes Φ Γ) {value : Expr} {ty : Ty} (isLast : Bool)
    (h : HasType N Φ Γ value ty) :
    Accepts N value.nodes value.parts (caseValue ty isLast (some value)) ret scopes () scopes := by
  refine (h.accepts hs).last fun s => ?_
  rw [if_pos rfl]
  rfl

end Check

namespace Typing

open Check

variable {N : Notes} {Φ : Signatures} {ret : Ty}

mutual

/-- **A well-typed statement is accepted.** -/
theorem Statement.accepts (st : Stmt) {outer : Env} {frame after : Locals}
    {scopes : Scopes Unit Unit}
    (h : Statement N Φ ret outer frame st after) (hs : Shows scopes Φ (frame :: outer)) :
    Accepts N st.nodes st.parts (statement st) (some ret) scopes () (scopes.withVars after) ∧
      after.Named := by
  have hframe := (List.forall_mem_cons.1 hs.named).1
  cases st with
  | expression e =>
    cases h with
    | expression he =>
      rw [hs.withVars_eq, statement]
      exact ⟨(he.accepts hs).last fun _ => rfl, hframe⟩
  | declaration id name typeName value =>
    cases h with
    | declaration hdeclares hfree _ =>
      rw [statement]
      exact ⟨declaration_accepts _ hs id true hdeclares hfree, hframe.insert ⟨name, _, true, ()⟩⟩
  | assignment receiver value =>
    cases h with
    | assignment hwrites hreceiver hlookup hmutable hvalue hfits =>
      rw [hs.withVars_eq, statement]
      exact ⟨assignment_accepts hs hwrites hreceiver hlookup hmutable hvalue hfits, hframe⟩
  | ifElse e thenBody elseBody =>
    cases h with
    | ifElse he hne hthen helse =>
      have hempty : ¬ thenBody.isEmpty = true := fun h => hne (List.isEmpty_iff.1 h)
      rw [hs.withVars_eq, statement, if_neg hempty]
      have hthen := Accepts.inScope (Block.accepts thenBody hthen hs.enter).1
      have helse := Accepts.inScope (Block.accepts elseBody helse hs.enter).1
      exact ⟨(condition_accepts hs .ifElse he).bind (hthen.bind helse), hframe⟩
  | switch e arms =>
    cases h with
    | switch he harms =>
      rw [hs.withVars_eq, statement]
      exact ⟨(he.accepts hs).bind (Arms.accepts arms harms hs), hframe⟩
  | whileDo e body =>
    cases h with
    | whileDo he hbody =>
      rw [hs.withVars_eq, statement]
      refine ⟨(condition_accepts hs .whileDo he).bind ?_, hframe⟩
      exact .inScope (Block.accepts body hbody hs.enter).1
  | returnWith value =>
    cases h with
    | returnWith hvalue hfits =>
      rw [hs.withVars_eq, statement]
      exact ⟨returnValue_accepts hs hvalue hfits, hframe⟩

/-- A block is accepted, and its frame afterwards is that of the derivation. -/
theorem Block.accepts (body : List Stmt) {outer : Env} {frame after : Locals}
    {scopes : Scopes Unit Unit}
    (h : Block N Φ ret outer frame body after) (hs : Shows scopes Φ (frame :: outer)) :
    Accepts N (Stmt.nodesOfList body) (Stmt.partsOfList body) (block body) (some ret) scopes ()
      (scopes.withVars after) ∧ after.Named := by
  cases body with
  | nil =>
    cases h
    rw [hs.withVars_eq, block]
    exact ⟨.pure N _ () scopes, (List.forall_mem_cons.1 hs.named).1⟩
  | cons first rest =>
    cases h with
    | @cons _ _ between _ _ _ hfirst hrest =>
      obtain ⟨hstatement, hbetween⟩ := Statement.accepts first hfirst hs
      obtain ⟨hblock, hafter⟩ := Block.accepts rest hrest (hs.withVars hbetween)
      rw [Scopes.withVars_withVars] at hblock
      rw [block]
      exact ⟨hstatement.bind hblock, hafter⟩

/-- Arms are accepted, each in a scope of its own. -/
theorem Arms.accepts (arms : List Case) {ty : Ty} {Γ : Env} {scopes : Scopes Unit Unit}
    (h : Arms N Φ ret Γ ty arms) (hs : Shows scopes Φ Γ) :
    Accepts N (Case.nodesOfList arms) (Case.partsOfList arms) (Check.cases ty arms) (some ret)
      scopes () scopes := by
  cases arms with
  | nil =>
    rw [Check.cases]
    exact .pure N _ () scopes
  | cons arm rest =>
    cases h with
    | case hvalue hbody hrest =>
      rw [Check.cases]
      have hbody := Accepts.inScope (Block.accepts _ hbody hs.enter).1
      exact (caseValue_accepts hs rest.isEmpty hvalue).bind
        (hbody.bind (Arms.accepts rest hrest hs))
    | default hbody =>
      rw [Check.cases]
      have hbody := Accepts.inScope (Block.accepts _ hbody hs.enter).1
      have hrest := Arms.accepts [] (.nil : Arms N Φ ret Γ ty []) hs
      exact (Accepts.pure N (some ret) () scopes).bind (hbody.bind hrest)

end

end Typing
end Scriptlet
