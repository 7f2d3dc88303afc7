import Scriptlet.Proofs.Arena
import Scriptlet.Proofs.Nodes
import Scriptlet.Proofs.Outcome

/-!
# Accepted expressions are well typed

Checking a part of a program changes the findings at the nodes of that part only
(`Grows`), and gives a derivation of the part.  The derivation agrees with any notes
that hold of the findings afterwards.  Findings at a node are overwritten if a later
node has the same id, so the notes must be `Notes.any` or the ids distinct: this is
what `Suits` says, together with the types that a part may name and whether lists may
stand anywhere in it.
-/

namespace Scriptlet

/-- Findings change at the given nodes only. -/
def Annotations.Grows (ids : List NodeId) (a a' : Annotations) : Prop :=
  ∀ id ∉ ids, a'.types.find? id = a.types.find? id ∧ a'.vars.find? id = a.vars.find? id

namespace Annotations.Grows

variable {a a' a'' : Annotations} {ids jds : List NodeId}

/-- Nothing has changed. -/
theorem refl (a : Annotations) : Grows [] a a := fun _ _ => ⟨rfl, rfl⟩

/-- Findings at the nodes of one part, and then of another. -/
theorem trans (h : Grows ids a a') (h' : Grows jds a' a'') : Grows (ids ++ jds) a a'' := by
  intro id hid
  rw [List.mem_append, not_or] at hid
  exact ⟨(h' id hid.2).1.trans (h id hid.1).1, (h' id hid.2).2.trans (h id hid.1).2⟩

/-- A type is noted at one node. -/
theorem setType (a : Annotations) (id : NodeId) (ty : Ty) : Grows [id] a (a.setType id ty) := by
  intro i hi
  refine ⟨?_, rfl⟩
  rw [Annotations.setType, Table.find?_insert, if_neg]
  rintro rfl
  exact hi (List.mem_singleton_self _)

/-- A variable is noted at one node. -/
theorem bindVariable (a : Annotations) (id : NodeId) (v : Variable Unit) :
    Grows [id] a (a.bindVariable id v) := by
  intro i hi
  refine ⟨rfl, ?_⟩
  rw [Annotations.bindVariable, Table.find?_insert, if_neg]
  rintro rfl
  exact hi (List.mem_singleton_self _)

/-- Findings at some nodes are findings at more. -/
theorem mono (h : Grows ids a a') (hids : ids ⊆ jds) : Grows jds a a' := fun id hid =>
  h id fun hmem => hid (hids hmem)

end Annotations.Grows

/-- Notes that agree with the findings at some nodes. -/
def Notes.Hold (N : Notes) (a : Annotations) (ids : List NodeId) : Prop :=
  ∀ id ∈ ids, (∀ ty, a.types.find? id = some ty → N.type id ty) ∧
    ∀ v, a.vars.find? id = some v → N.var id v

/-- A type that accepts itself alone. -/
def Ty.Concrete (ty : Ty) : Prop := ty ≠ .any ∧ ty ≠ .comparable

/-- Notes that a part of a program can be checked against: its nodes are distinct, and it is
plain or lists and types of all kinds are allowed; or nothing is noted. -/
def Notes.Suits (N : Notes) (ids : List NodeId) (plain : Bool) : Prop :=
  N = Notes.any ∨ ((∀ ty : Ty, ty.Concrete → N.named ty) ∧ ids.Nodup ∧
    (plain = true ∨ N.lists ∧ ∀ ty, N.named ty))

namespace Notes

variable {N : Notes} {a a' a'' : Annotations} {ids jds : List NodeId} {plain plain' : Bool}

/-- Notes that say nothing hold of any findings. -/
theorem hold_any (a : Annotations) (ids : List NodeId) : Notes.any.Hold a ids := fun _ _ =>
  ⟨fun _ _ => trivial, fun _ _ => trivial⟩

/-- Notes that suit two parts suit the first. -/
theorem Suits.left (h : N.Suits (ids ++ jds) (plain && plain')) : N.Suits ids plain := by
  rcases h with rfl | ⟨hnamed, hids, hplain⟩
  · exact .inl rfl
  · exact .inr ⟨hnamed, (List.nodup_append.1 hids).1,
      hplain.imp_left fun h => (Bool.and_eq_true_iff.1 h).1⟩

/-- Notes that suit two parts suit the second. -/
theorem Suits.right (h : N.Suits (ids ++ jds) (plain && plain')) : N.Suits jds plain' := by
  rcases h with rfl | ⟨hnamed, hids, hplain⟩
  · exact .inl rfl
  · exact .inr ⟨hnamed, (List.nodup_append.1 hids).2.1,
      hplain.imp_left fun h => (Bool.and_eq_true_iff.1 h).2⟩

/-- Notes that suit a list of nodes suit its first part. -/
theorem Suits.init (h : N.Suits (ids ++ jds) plain) : N.Suits ids plain := by
  rw [← Bool.and_true plain] at h
  exact h.left

/-- Only where lists are allowed need a part not be plain. -/
theorem Suits.lists (h : N.Suits ids false) : N.lists ∧ ∀ ty, N.named ty := by
  rcases h with rfl | ⟨-, -, hfalse | hlists⟩
  · exact ⟨trivial, fun _ => trivial⟩
  · cases hfalse
  · exact hlists

/-- Notes that suit parts with lists anywhere suit parts without them. -/
theorem Suits.of_false (h : N.Suits ids false) (plain : Bool) : N.Suits ids plain := by
  rcases h with rfl | ⟨hnamed, hids, hplain⟩
  · exact .inl rfl
  · exact .inr ⟨hnamed, hids, hplain.imp_left fun hfalse => nomatch hfalse⟩

/-- A plain name is that of a concrete type. -/
theorem Suits.named {name : String} {ty : Ty} (h : N.Suits ids (plainName name))
    (hname : Ty.ofName? name = some ty) : N.named ty := by
  rcases h with rfl | ⟨hnamed, -, hplain | ⟨-, hall⟩⟩
  · trivial
  · have hfound := List.find?_some hname
    obtain rfl : ty.name = name := of_decide_eq_true hfound
    refine hnamed ty ⟨?_, ?_⟩
    · rintro rfl
      exact absurd hplain (by decide)
    · rintro rfl
      exact absurd hplain (by decide)
  · exact hall ty

/-- What later steps note does not touch the nodes of a part. -/
theorem Hold.earlier (h : N.Hold a'' (ids ++ jds)) (hgrows : Annotations.Grows jds a' a'')
    (hN : N.Suits (ids ++ jds) plain) : N.Hold a' ids := by
  rcases hN with rfl | ⟨-, hnodup, -⟩
  · exact hold_any a' ids
  · intro id hid
    have hout : id ∉ jds := fun hmem => (List.nodup_append.1 hnodup).2.2 id hid id hmem rfl
    obtain ⟨htypes, hvars⟩ := hgrows id hout
    obtain ⟨hty, hv⟩ := h id (List.mem_append_left _ hid)
    rw [htypes] at hty
    rw [hvars] at hv
    exact ⟨hty, hv⟩

/-- Notes that hold at the nodes of two parts hold at those of the second. -/
theorem Hold.right (h : N.Hold a (ids ++ jds)) : N.Hold a jds := fun id hid =>
  h id (List.mem_append_right _ hid)

end Notes

/-- Every function is stored under its name and the number of its parameters. -/
def Table.Keyed (Φ : Signatures) : Prop :=
  ∀ name n r, Φ.find? (name, n) = some r → r.arity = n

namespace Check

open Typing

variable {s s₁ s₂ s' : Checker}

/-! ### Basic steps -/

variable {α β : Type}

/-- A rule of typing that is passed. -/
theorem rule_ok {x : Except CheckError α} {next : α → Check β} {b : β}
    (h : (rule x >>= next) s = .ok b s') : ∃ a, x = .ok a ∧ next a s = .ok b s' := by
  cases x with
  | ok a => exact ⟨a, rfl, h⟩
  | error e => cases h

/-- A step that goes on only under a condition. -/
theorem unless_ok {p : Prop} [Decidable p] {e : CheckError} {next : Check α}
    {other : β → Check α} {a : α}
    (h : (if p then next else fail e >>= other) s = .ok a s') : p ∧ next s = .ok a s' := by
  by_cases hp : p
  · rw [if_pos hp] at h
    exact ⟨hp, h⟩
  · rw [if_neg hp] at h
    cases h

/-- A lookup of a variable that is passed has found one. -/
theorem lookupVariable_ok {name : String} {next : Variable Unit → Check β} {b : β}
    (h : (lookupVariable name >>= next) s = .ok b s') :
    ∃ v, s.scopes.findVariable? name = some v ∧ next v s = .ok b s' := by
  obtain ⟨v, s₁, hv, h⟩ := bind_ok.1 h
  unfold lookupVariable at hv
  split at hv
  · cases hv
    exact ⟨v, ‹_›, h⟩
  · cases hv

/-- A lookup of a function that is passed has found one. -/
theorem lookupFunction_ok {name : String} {arity : Nat} {next : Routine Unit → Check β} {b : β}
    (h : (lookupFunction name arity >>= next) s = .ok b s') :
    ∃ r, s.scopes.findFunction? name arity = some r ∧ next r s = .ok b s' := by
  obtain ⟨r, s₁, hr, h⟩ := bind_ok.1 h
  unfold lookupFunction at hr
  split at hr
  · cases hr
    exact ⟨r, ‹_›, h⟩
  · cases hr

/-- A type that is accepted can be assigned. -/
theorem requireFits_ok {target actual : Ty} {u : Unit} (h : requireFits target actual = .ok u) :
    Assignable target actual := by
  unfold requireFits at h
  split at h
  · exact accepts_iff.1 ‹_›
  · cases h

/-! ### Steps that leave the scopes alone -/

/-- A step that changes findings at `ids` only, and what it shows about the part of the
program that it checks. -/
structure Gives (ids : List NodeId) (plain : Bool) (s s' : Checker)
    (P : Notes → Signatures → Env → Prop) : Prop where
  scopes : ∀ {Φ : Signatures} {Γ : Env}, Chain s.scopes.scopes Φ s.scopes.current Γ →
    s'.scopes = s.scopes
  returnType : s'.returnType = s.returnType
  grows : Annotations.Grows ids s.annotations s'.annotations
  derives : ∀ {N : Notes} {Φ : Signatures} {Γ : Env}, N.Suits ids plain →
    N.Hold s'.annotations ids → Φ.Keyed → Chain s.scopes.scopes Φ s.scopes.current Γ → P N Φ Γ

namespace Gives

variable {ids jds : List NodeId} {plain plain' : Bool} {P Q : Notes → Signatures → Env → Prop}

/-- Nothing is checked. -/
theorem refl (s : Checker) : Gives [] true s s fun _ _ _ => True :=
  ⟨fun _ => rfl, rfl, .refl _, fun _ _ _ _ => trivial⟩

/-- A step shows what follows from what it shows. -/
theorem imp (h : Gives ids plain s s' P)
    (hPQ : ∀ {N : Notes} {Φ : Signatures} {Γ : Env}, P N Φ Γ → Q N Φ Γ) :
    Gives ids plain s s' Q :=
  ⟨h.scopes, h.returnType, h.grows, fun hN hold hΦ hΓ => hPQ (h.derives hN hold hΦ hΓ)⟩

/-- The frames are as before. -/
theorem chain (h : Gives ids plain s s' P) {Φ : Signatures} {Γ : Env}
    (hΓ : Chain s.scopes.scopes Φ s.scopes.current Γ) :
    Chain s'.scopes.scopes Φ s'.scopes.current Γ := by
  rwa [h.scopes hΓ]

/-- One step after the other shows what both show. -/
theorem trans (h : Gives ids plain s s₁ P) (h' : Gives jds plain' s₁ s₂ Q) :
    Gives (ids ++ jds) (plain && plain') s s₂ fun N Φ Γ => P N Φ Γ ∧ Q N Φ Γ where
  scopes hΓ := (h'.scopes (h.chain hΓ)).trans (h.scopes hΓ)
  returnType := h'.returnType.trans h.returnType
  grows := h.grows.trans h'.grows
  derives hN hold hΦ hΓ :=
    ⟨h.derives hN.left (hold.earlier h'.grows hN) hΦ hΓ,
      h'.derives hN.right hold.right hΦ (h.chain hΓ)⟩

/-- What the scopes say is known as well. -/
theorem known {K : Signatures → Env → Prop} (h : Gives ids plain s s' P)
    (hK : ∀ {Φ : Signatures} {Γ : Env}, Φ.Keyed →
      Chain s.scopes.scopes Φ s.scopes.current Γ → K Φ Γ) :
    Gives ids plain s s' fun N Φ Γ => K Φ Γ ∧ P N Φ Γ :=
  ⟨h.scopes, h.returnType, h.grows, fun hN hold hΦ hΓ => ⟨hK hΦ hΓ, h.derives hN hold hΦ hΓ⟩⟩

/-- A type may be named if its name is plain. -/
theorem named {ty : Ty} (h : Gives ids plain s s' P)
    (hty : ∀ {N : Notes}, N.Suits [] plain' → N.named ty) :
    Gives ids (plain' && plain) s s' fun N Φ Γ => N.named ty ∧ P N Φ Γ where
  scopes := h.scopes
  returnType := h.returnType
  grows := h.grows
  derives hN hold hΦ hΓ := by
    have hN' : Notes.Suits _ ([] ++ ids) (plain' && plain) := hN
    exact ⟨hty hN'.left, h.derives hN'.right hold hΦ hΓ⟩

/-- A function is noted at a node; the derivation does not look at it. -/
theorem bindFunction (h : Gives ids plain s s' P) (id : NodeId) (r : Routine Unit) :
    Gives ids plain s { s' with annotations := s'.annotations.bindFunction id r } P :=
  ⟨h.scopes, h.returnType, h.grows, fun hN hold hΦ hΓ => h.derives hN hold hΦ hΓ⟩

/-- Noting the type of a node after its parts were checked. -/
theorem typed {id : NodeId} {ty ty' : Ty} (h : Gives ids plain s s₁ P)
    (ht : typed id ty s₁ = .ok ty' s₂) :
    ty' = ty ∧ Gives (ids ++ [id]) plain s s₂ fun N Φ Γ => P N Φ Γ ∧ N.type id ty := by
  cases ht
  refine ⟨rfl, h.scopes, h.returnType, h.grows.trans (.setType _ id ty), ?_⟩
  intro N Φ Γ hN hold hΦ hΓ
  refine ⟨h.derives hN.init (hold.earlier (.setType _ id ty) hN) hΦ hΓ, ?_⟩
  refine (hold id (List.mem_append_right _ (List.mem_singleton_self _))).1 ty ?_
  simp [Annotations.setType, Table.find?_insert]

end Gives

/-- An access that is accepted names a variable, whose type it has. -/
theorem variableType_ok {id : NodeId} {name : String} {ty : Ty}
    (h : variableType id name s = .ok ty s') :
    ∃ v, ty = v.ty ∧ Gives [id] true s s' fun N _ Γ => Γ.lookup name = some v ∧ N.type id v.ty := by
  obtain ⟨v, hfind, h⟩ := lookupVariable_ok h
  cases h
  refine ⟨v, rfl, fun _ => rfl, rfl, ?_, ?_⟩
  · exact ((Annotations.Grows.bindVariable _ id v).trans (.setType _ id v.ty)).mono (by simp)
  · intro N Φ Γ _ hold _ hΓ
    refine ⟨(hΓ.findVariable? name).symm.trans hfind, ?_⟩
    refine (hold id (List.mem_singleton_self _)).1 v.ty ?_
    simp [Annotations.setType, Table.find?_insert]

/-- A literal that is accepted has the type that was found. -/
theorem typeOfLiteral_ok {value : Literal} {ty : Ty} (h : typeOfLiteral value = .ok ty) :
    OfLiteral value ty := by
  cases value with
  | nil =>
    cases h
    exact .nil
  | boolean b =>
    cases h
    exact .boolean b
  | integer n =>
    rw [typeOfLiteral] at h
    split at h
    · rename_i hfits
      cases h
      obtain ⟨hlow, hhigh⟩ := of_decide_eq_true hfits
      exact .integer hlow hhigh
    · cases h
  | decimal d =>
    rw [typeOfLiteral] at h
    split at h
    · cases h
      exact .decimal ‹_›
    · cases h
  | character c =>
    cases h
    exact .character c
  | string text =>
    cases h
    exact .string text

/-- Arithmetic that is accepted is on two numbers of one type, or joins texts. -/
theorem typeOfArithmetic_ok {op : BinaryOp} {l r ty : Ty}
    (hop : op ∈ [.add, .subtract, .multiply, .divide]) (h : typeOfArithmetic op l r = .ok ty) :
    OfOperator op l r ty := by
  unfold typeOfArithmetic at h
  split at h
  · cases h
    exact .arithmetic hop (.inl rfl)
  · cases h
    exact .arithmetic hop (.inr rfl)
  · cases h

/-- A comparison that is accepted is of two values of one comparable type. -/
theorem typeOfComparison_ok {op : BinaryOp} {l r ty : Ty}
    (hop : op ∈ [.less, .greater, .equal, .notEqual])
    (h : (do
      requireFits .comparable l
      requireFits .comparable r
      if l = r then .ok .boolean else .error (.invalidOperands op l r) : Except CheckError Ty) =
        .ok ty) : OfOperator op l r ty := by
  cases hl : requireFits .comparable l with
  | error e =>
    rw [hl] at h
    cases h
  | ok u =>
    cases hr : requireFits .comparable r with
    | error e =>
      rw [hl, hr] at h
      cases h
    | ok u' =>
      rw [hl, hr] at h
      have hsame : (if l = r then .ok .boolean else .error (.invalidOperands op l r) :
        Except CheckError Ty) = .ok ty := h
      split at hsame
      · rename_i heq
        subst heq
        cases hsame
        exact .compare hop (requireFits_ok hl)
      · cases hsame

/-- An operation that is accepted has the type that was found. -/
theorem typeOfBinary_ok {op : BinaryOp} {l r ty : Ty} (h : typeOfBinary op l r = .ok ty) :
    OfOperator op l r ty := by
  cases op with
  | and | or =>
    rw [typeOfBinary] at h
    split at h
    · rename_i hlr
      obtain ⟨rfl, rfl⟩ := hlr
      cases h
      exact .logic (by decide)
    · cases h
  | less | greater | equal | notEqual => exact typeOfComparison_ok (by decide) h
  | add =>
    rw [typeOfBinary] at h
    split at h
    · cases h
      exact .concat ‹_›
    · exact typeOfArithmetic_ok (by decide) h
  | subtract | multiply | divide => exact typeOfArithmetic_ok (by decide) h
  | power =>
    rw [typeOfBinary] at h
    split at h
    · rename_i hlr
      obtain ⟨hl, rfl⟩ := hlr
      cases h
      exact .power hl
    · cases h

/-! ### Expressions -/

mutual

/-- **An expression that is accepted is well typed.** -/
theorem expression_gives (e : Expr) {s s' : Checker} {ty : Ty} (h : expression e s = .ok ty s') :
    Gives e.nodes e.plain s s' fun N Φ Γ => HasType N Φ Γ e ty := by
  cases e with
  | literal id value =>
    rw [expression] at h
    obtain ⟨ty', hty, h⟩ := rule_ok h
    obtain ⟨rfl, hg⟩ := (Gives.refl s).typed h
    exact hg.imp fun hn => .literal (typeOfLiteral_ok hty) hn.2
  | group id inner =>
    rw [expression] at h
    obtain ⟨hb, h⟩ := unless_ok h
    obtain ⟨ty', s₁, hinner, h⟩ := bind_ok.1 h
    obtain ⟨rfl, hg⟩ := (expression_gives inner hinner).typed h
    exact hg.imp fun hn => .group (isBinary_iff.1 hb) hn.1 hn.2
  | binary id op left right =>
    rw [expression] at h
    obtain ⟨l, s₁, hl, h⟩ := bind_ok.1 h
    obtain ⟨r, s₂, hr, h⟩ := bind_ok.1 h
    obtain ⟨ty', hty, h⟩ := rule_ok h
    obtain ⟨rfl, hg⟩ := (expression_gives right hr).typed h
    exact ((expression_gives left hl).trans hg).imp fun hn =>
      .binary hn.1 hn.2.1 (typeOfBinary_ok hty) hn.2.2
  | access id name =>
    rw [expression] at h
    obtain ⟨v, rfl, hg⟩ := variableType_ok h
    exact hg.imp fun hn => .access hn.1 hn.2
  | element id name offset =>
    rw [expression] at h
    obtain ⟨found, s₁, hoffset, h⟩ := bind_ok.1 h
    obtain ⟨rfl, h⟩ := unless_ok h
    obtain ⟨v, rfl, hg⟩ := variableType_ok h
    have hboth := (expression_gives offset hoffset).trans hg
    rw [Bool.and_true] at hboth
    exact hboth.imp fun hn => .element hn.1 hn.2.1 hn.2.2
  | call id name args =>
    rw [expression] at h
    obtain ⟨r, hfind, h⟩ := lookupFunction_ok h
    obtain ⟨_, s₁, hargs, h⟩ := bind_ok.1 h
    have hfits := ((arguments_gives args hargs).known fun {Φ Γ} hΦ hΓ =>
      -- the number of arguments is part of the key, so there are as many as parameters
      have hr : Φ.find? (name, args.length) = some r :=
        (hΓ.findFunction? name args.length).symm.trans hfind
      (⟨hr, (hΦ _ _ _ hr).symm⟩ : Φ.find? (name, args.length) = some r ∧ args.length = r.arity))
    obtain ⟨rfl, hg⟩ := (hfits.bindFunction id r).typed h
    exact hg.imp fun hn => .call hn.1.1.1 (hn.1.2 hn.1.1.2) hn.2
  | list id es =>
    rw [expression] at h
    obtain ⟨_, s₁, hes, h⟩ := bind_ok.1 h
    obtain ⟨rfl, hg⟩ := (elements_gives es hes).typed h
    refine ⟨hg.scopes, hg.returnType, hg.grows, fun hN hold hΦ hΓ => ?_⟩
    -- the expression is not plain, so lists are allowed
    obtain ⟨hes, hid⟩ := hg.derives (hN.of_false _) hold hΦ hΓ
    exact .list hN.lists.1 hes hid

/-- Arguments that are accepted fit the parameters, if there are as many. -/
theorem arguments_gives (es : List Expr) {tys : List Ty} {s s' : Checker} {u : Unit}
    (h : arguments es tys s = .ok u s') :
    Gives (Expr.nodesOfList es) (Expr.plainList es) s s' fun N Φ Γ =>
      es.length = tys.length → Fit N Φ Γ es tys := by
  cases es with
  | nil =>
    rw [arguments] at h
    · cases h
      refine (Gives.refl s).imp fun _ hlen => ?_
      rw [List.eq_nil_of_length_eq_zero hlen.symm]
      exact .nil
    · simp
  | cons e es =>
    cases tys with
    | nil =>
      rw [arguments] at h
      · cases h
        have hgrows := (Annotations.Grows.refl s.annotations).mono
          (List.nil_subset (Expr.nodesOfList (e :: es)))
        refine ⟨fun _ => rfl, rfl, hgrows, fun _ _ _ _ hlen => ?_⟩
        cases hlen
      · simp
    | cons ty tys =>
      rw [arguments] at h
      obtain ⟨actual, s₁, he, h⟩ := bind_ok.1 h
      obtain ⟨_, hfits, h⟩ := rule_ok h
      refine ((expression_gives e he).trans (arguments_gives es h)).imp fun hn hlen => ?_
      exact .cons hn.1 (requireFits_ok hfits) (hn.2 (Nat.succ.inj hlen))

/-- Elements that are accepted all have a type that can be assigned to that of the list. -/
theorem elements_gives (es : List Expr) {ty : Ty} {s s' : Checker} {u : Unit}
    (h : elements ty es s = .ok u s') :
    Gives (Expr.nodesOfList es) (Expr.plainList es) s s' fun N Φ Γ =>
      Fit N Φ Γ es (List.replicate es.length ty) := by
  cases es with
  | nil =>
    rw [elements] at h
    cases h
    exact (Gives.refl s).imp fun _ => .nil
  | cons e es =>
    rw [elements] at h
    obtain ⟨actual, s₁, he, h⟩ := bind_ok.1 h
    obtain ⟨_, hfits, h⟩ := rule_ok h
    refine ((expression_gives e he).trans (elements_gives es h)).imp fun hn => ?_
    exact .cons hn.1 (requireFits_ok hfits) hn.2

end

end Check
end Scriptlet
