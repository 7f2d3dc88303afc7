import Scriptlet.Evaluation.Operator
import Scriptlet.Proofs.ProgramTyped

/-!
# Values of a type

A value conforms to a type if it is `NIL`, is of that type, or is a list whose elements
are of that type: an uninitialised variable holds `NIL` whatever its type, and a list
has the type of its elements.  The elements of lists are in cells, so conformance is
relative to a type for each cell.

Operators respect conformance: for operands that conform to the types of a typing rule
the answer conforms to the type of the rule.  There need not be an answer, even if both
operands are of their types: `+` has none for a string and something else, and `^` has
none for a decimal.
-/

namespace Scriptlet

/-- The type that a value is of; a list is not of one type. -/
def Value.kind? : Value → Option Ty
  | .nil => some .nil
  | .boolean _ => some .boolean
  | .integer _ => some .integer
  | .decimal _ => some .decimal
  | .character _ => some .character
  | .string _ => some .string
  | .list _ => none

/-- `NIL` or a list, which may be found where any type is expected. -/
def Value.isNilOrList : Value → Bool
  | .nil => true
  | .list _ => true
  | _ => false

/-- A value that may stand where `ty` is expected; `cellType` are the types of the elements
of lists. -/
def Value.Conforms (cellType : CellId → Ty) (ty : Ty) (v : Value) : Prop :=
  v = .nil ∨ v.kind? = some ty ∨ ∃ cell, v = .list cell ∧ cellType cell = ty

namespace Value.Conforms

variable {cellType : CellId → Ty} {ty l r : Ty} {a b : Value}

/-- The value `NIL` conforms to every type. -/
theorem nil (cellType : CellId → Ty) (ty : Ty) : Conforms cellType ty .nil := .inl rfl

theorem of_kind {v : Value} (h : v.kind? = some ty) : Conforms cellType ty v := .inr (.inl h)

theorem list {cell : CellId} (h : cellType cell = ty) : Conforms cellType ty (.list cell) :=
  .inr (.inr ⟨cell, rfl, h⟩)

theorem isNilOrList_or_kind {v : Value} (h : Conforms cellType ty v) :
    v.isNilOrList = true ∨ v.kind? = some ty := by
  rcases h with rfl | h | ⟨cell, rfl, -⟩
  · exact .inl rfl
  · exact .inr h
  · exact .inl rfl

/-- A value other than `NIL` and lists has one type. -/
theorem kind_eq {v : Value} {kind : Ty} (h : Conforms cellType ty v) (hkind : v.kind? = some kind)
    (hnil : kind ≠ .nil) : ty = kind := by
  rcases h with rfl | h | ⟨cell, rfl, -⟩
  · cases hkind
    exact absurd rfl hnil
  · rw [h] at hkind
    exact Option.some.inj hkind
  · cases hkind

/-- A literal conforms to its type. -/
theorem ofLiteral {value : Literal} (h : Typing.OfLiteral value ty) :
    Conforms cellType ty (Object.ofLiteral value).value := by
  cases h <;> exact .of_kind rfl

/-- A concrete type accepts itself alone. -/
theorem assign {actual : Ty} {v : Value} (h : Conforms cellType actual v) (hty : ty.Concrete)
    (hfits : Typing.Assignable ty actual) : Conforms cellType ty v := by
  cases hfits with
  | same => exact h
  | any => exact absurd rfl hty.1
  | comparable => exact absurd rfl hty.2

end Value.Conforms

namespace Operator

variable {cellType : CellId → Ty} {ty l r : Ty} {a b : Value} {op : BinaryOp} {h : Heap}
  {o : Object}

theorem apply_comparison (hop : op ∈ [.less, .greater, .equal, .notEqual])
    (happly : apply h op a b = .ok o) : o.value.kind? = some .boolean := by
  cases op with
  | less | greater =>
    simp only [apply] at happly
    split at happly <;> cases happly
    rfl
  | equal | notEqual =>
    cases happly
    rfl
  | and | or | add | subtract | multiply | divide | power => exact absurd hop (by decide)

/-- The operands of a sum, difference, product or quotient are of one type, and it has
that type too. -/
theorem apply_arithmetic (hop : op ∈ [.add, .subtract, .multiply, .divide])
    (happly : apply h op a b = .ok o) :
    ∃ kind, a.kind? = some kind ∧ b.kind? = some kind ∧ o.value.kind? = some kind ∧
      (Typing.IsNumber kind ∨ kind = .string ∧ op = .add) := by
  simp only [List.mem_cons, List.not_mem_nil, or_false] at hop
  rcases hop with rfl | rfl | rfl | rfl <;> simp only [apply] at happly
  case inl =>
    split at happly <;> cases happly
    · exact ⟨.string, rfl, rfl, rfl, .inr ⟨rfl, rfl⟩⟩
    · exact ⟨.integer, rfl, rfl, rfl, .inl (.inl rfl)⟩
    · exact ⟨.decimal, rfl, rfl, rfl, .inl (.inr rfl)⟩
  case inr.inr.inr =>
    split at happly
    · unfold integerQuotient at happly
      split at happly <;> cases happly
      exact ⟨.integer, rfl, rfl, rfl, .inl (.inl rfl)⟩
    · unfold decimalQuotient at happly
      split at happly <;> cases happly
      exact ⟨.decimal, rfl, rfl, rfl, .inl (.inr rfl)⟩
    · cases happly
  all_goals
    split at happly <;> cases happly
    · exact ⟨.integer, rfl, rfl, rfl, .inl (.inl rfl)⟩
    · exact ⟨.decimal, rfl, rfl, rfl, .inl (.inr rfl)⟩

theorem apply_power (happly : apply h .power a b = .ok o) :
    a.kind? = some .integer ∧ o.value.kind? = some .integer := by
  simp only [apply] at happly
  split at happly
  · unfold power at happly
    split at happly <;> cases happly
    exact ⟨rfl, rfl⟩
  · cases happly

/-- **The answer of an operator conforms to the type of the typing rule.** -/
theorem apply_conforms (hop : op.level ≠ .logical) (hty : Typing.OfOperator op l r ty)
    (ha : a.Conforms cellType l) (hb : b.Conforms cellType r) (happly : apply h op a b = .ok o) :
    o.value.Conforms cellType ty := by
  cases hty with
  | logic hlogic =>
    rcases hlogic with rfl | rfl
    · exact absurd rfl hop
    · exact absurd rfl hop
  | compare hcompare => exact .of_kind (apply_comparison hcompare happly)
  | concat hstring =>
    obtain ⟨kind, hka, hkb, hko, hkind⟩ := apply_arithmetic (by decide) happly
    rcases hkind with hnumber | ⟨rfl, -⟩
    · have hnil : kind ≠ .nil := by
        rintro rfl
        rcases hnumber with h | h <;> cases h
      have hl := ha.kind_eq hka hnil
      have hr := hb.kind_eq hkb hnil
      subst hl
      subst hr
      rcases hnumber with rfl | rfl <;> rcases hstring with h | h <;> cases h
    · exact .of_kind hko
  | arithmetic harithmetic hnumber =>
    obtain ⟨kind, hka, hkb, hko, hkind⟩ := apply_arithmetic harithmetic happly
    have hnil : kind ≠ .nil := by
      rintro rfl
      rcases hkind with (h | h) | ⟨h, -⟩ <;> cases h
    rw [ha.kind_eq hka hnil]
    exact .of_kind hko
  | power hnumber =>
    obtain ⟨hka, hko⟩ := apply_power happly
    rw [ha.kind_eq hka (by decide)]
    exact .of_kind hko

/-- Values of one ordered type can be compared. -/
theorem less?_isSome (hty : Typing.Assignable .comparable ty) (ha : a.kind? = some ty)
    (hb : b.kind? = some ty) : (less? a b).isSome = true := by
  cases a with
  | list _ => cases ha
  | nil | boolean _ =>
    cases ha
    cases hty with
    | comparable hordered => cases hordered
  | integer _ | decimal _ | character _ | string _ =>
    cases ha
    cases b <;> cases hb
    rfl

/-- Two values of one comparable type can be compared. -/
theorem apply_comparison_ok (hop : op ∈ [.less, .greater, .equal, .notEqual])
    (hty : Typing.Assignable .comparable ty) (ha : a.kind? = some ty) (hb : b.kind? = some ty) :
    ∃ o, apply h op a b = .ok o := by
  cases op with
  | less =>
    obtain ⟨answer, hanswer⟩ := Option.isSome_iff_exists.1 (less?_isSome hty ha hb)
    exact ⟨.boolean answer, by simp only [apply, hanswer]⟩
  | greater =>
    obtain ⟨answer, hanswer⟩ := Option.isSome_iff_exists.1 (less?_isSome hty hb ha)
    exact ⟨.boolean answer, by simp only [apply, hanswer]⟩
  | equal | notEqual => exact ⟨_, rfl⟩
  | and | or | add | subtract | multiply | divide | power => exact absurd hop (by decide)

/-- On two numbers of one type the operands are never invalid. -/
theorem apply_number_valid (hop : op ∈ [.add, .subtract, .multiply, .divide])
    (hnumber : Typing.IsNumber ty) (ha : a.kind? = some ty) (hb : b.kind? = some ty)
    (x y : String) : apply h op a b ≠ .error (.invalidOperands op x y) := by
  intro happly
  simp only [List.mem_cons, List.not_mem_nil, or_false] at hop
  rcases hnumber with rfl | rfl
  · cases a <;> cases ha
    cases b <;> cases hb
    rcases hop with rfl | rfl | rfl | rfl
    · cases happly
    · cases happly
    · cases happly
    · cases integerQuotient_error happly
  · cases a <;> cases ha
    cases b <;> cases hb
    rcases hop with rfl | rfl | rfl | rfl
    · cases happly
    · cases happly
    · cases happly
    · cases decimalQuotient_error happly

/-- **Why operands that conform to the types of a typing rule may not suit**: one of them is
`NIL` or a list, exactly one of the operands of `+` is of type `String`, or the base of `^`
is a decimal. -/
theorem apply_invalid (hty : Typing.OfOperator op l r ty) (ha : a.Conforms cellType l)
    (hb : b.Conforms cellType r) {x y : String}
    (happly : apply h op a b = .error (.invalidOperands op x y)) :
    a.isNilOrList = true ∨ b.isNilOrList = true ∨ op = .add ∧ ¬(l = .string ↔ r = .string) ∨
      op = .power ∧ a.kind? = some .decimal := by
  rcases ha.isNilOrList_or_kind with ha | ha
  · exact .inl ha
  rcases hb.isNilOrList_or_kind with hb | hb
  · exact .inr (.inl hb)
  refine .inr (.inr ?_)
  cases hty with
  | logic hop =>
    cases a <;> cases ha
    cases b <;> cases hb
    rcases hop with rfl | rfl <;> cases happly
  | compare hop hordered =>
    obtain ⟨o, hok⟩ := apply_comparison_ok hop hordered ha hb
    rw [hok] at happly
    cases happly
  | concat hstring =>
    refine .inl ⟨rfl, fun hiff => ?_⟩
    obtain ⟨rfl, rfl⟩ : l = .string ∧ r = .string := by
      rcases hstring with hl | hr
      · exact ⟨hl, hiff.1 hl⟩
      · exact ⟨hiff.2 hr, hr⟩
    cases a <;> cases ha
    cases b <;> cases hb
    cases happly
  | arithmetic hop hnumber => exact absurd happly (apply_number_valid hop hnumber ha hb x y)
  | power hnumber =>
    rcases hnumber with rfl | rfl
    · cases a <;> cases ha
      cases b <;> cases hb
      cases power_error happly
    · exact .inr ⟨rfl, ha⟩

end Operator
end Scriptlet
