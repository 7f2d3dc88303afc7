import Scriptlet.Proofs.JavaText
import Scriptlet.Proofs.ProgramAccepted

/-!
# When Java keeps the structure of an expression

The language has `&&` and `||` on one level, Java has not, and the generated text has no
parentheses of its own.  So `TRUE || FALSE && FALSE`, which the language reads as
`(TRUE || FALSE) && FALSE`, is read by Java as `true || (false && false)`.  Apart from this
the two agree: the levels of the language are in the order of Java's, and comparisons, which
Java has on two levels, cannot be operands of comparisons because they are booleans.

The main result, `java_reads_back_iff`, says so for every expression of a program that is
read and accepted: its Java text is read back as its tree exactly if no `&&` in it has an
ungrouped `||` as its left operand.  Hyphens are the other difference: they may stand in
names of the language, but not of Java.
-/

namespace Scriptlet

/-- An `&&` whose left operand is an `||` without parentheses. -/
def Expr.isAndOverOr : Expr → Bool
  | .binary _ .and (.binary _ .or _ _) _ => true
  | _ => false

namespace Java

variable {a : Annotations}

/-! ### Proper trees -/

theorem leastPrecedence_le_precedence (a : Annotations) (e : Expr) :
    leastPrecedence e.rank ≤ (tree a e).precedence := by
  cases e with
  | literal id value =>
    obtain ⟨-, -, -, hprecedence⟩ := literalTree_atomic value
    rw [tree, hprecedence]
    exact leastPrecedence_le_seven _
  | binary id op left right =>
    rw [tree]
    split
    · exact leastPrecedence_le_seven _
    · exact leastPrecedence_le op
  | group | access | element | call | list => exact leastPrecedence_le_seven _

theorem of_comparison {op : BinaryOp} {l r ty : Ty} (h : Typing.OfOperator op l r ty)
    (hlevel : op.level = .comparison) : ty = .boolean ∧ Typing.Assignable .comparable l := by
  cases h with
  | logic hop => rcases hop with rfl | rfl <;> cases hlevel
  | compare _ haccepts => exact ⟨rfl, haccepts⟩
  | concat => cases hlevel
  | arithmetic hop =>
    simp only [List.mem_cons, List.not_mem_nil, or_false] at hop
    rcases hop with rfl | rfl | rfl | rfl <;> cases hlevel
  | power => cases hlevel

/-- A comparison is a boolean, and booleans cannot be compared. -/
theorem Clear.not_nested {id id' : NodeId} {op op' : BinaryOp} {left right right' : Expr}
    (h : Clear a (.binary id op (.binary id' op' left right') right))
    (hleft : Clear a (.binary id' op' left right')) :
    ¬ (op.level = .comparison ∧ op'.level = .comparison) := by
  rintro ⟨hlevel, hlevel'⟩
  obtain ⟨l, r, ty, hl, -, -, hop⟩ := h.binds
  obtain ⟨l', r', ty', -, -, hty', hop'⟩ := hleft.binds
  obtain rfl : l = ty' := Option.some.inj (hl.symm.trans hty')
  obtain ⟨rfl, -⟩ := of_comparison hop' hlevel'
  cases (of_comparison hop hlevel).2 with
  | comparable hordered => cases hordered

/-- On the levels of one expression Java and the language agree, but for `&&` over `||`. -/
theorem javaPrecedence_le_iff {op op' : BinaryOp} (hop : op ≠ .power) (hop' : op' ≠ .power)
    (hle : op.level.rank ≤ op'.level.rank)
    (hcomparison : ¬ (op.level = .comparison ∧ op'.level = .comparison)) :
    op.javaPrecedence ≤ op'.javaPrecedence ↔ ¬ (op = .and ∧ op' = .or) := by
  revert hop hop' hle hcomparison
  cases op <;> cases op' <;> decide

theorem isAndOverOr_binary (id id' : NodeId) (op op' : BinaryOp) (left right right' : Expr) :
    (Expr.binary id op (.binary id' op' left right') right).isAndOverOr = false ↔
      ¬ (op = .and ∧ op' = .or) := by
  cases op <;> cases op' <;> simp [Expr.isAndOverOr]

theorem isAndOverOr_other (id : NodeId) (op : BinaryOp) {left : Expr}
    (h : ¬ Typing.IsBinary left) (right : Expr) :
    (Expr.binary id op left right).isAndOverOr = false := by
  cases left with
  | binary id' op' left' right' => exact absurd (.intro id' op' left' right') h
  | _ => cases op <;> rfl

/-- When the left operand stays the left operand. -/
theorem Clear.left_iff {id : NodeId} {op : BinaryOp} {left right : Expr} (hop : op ≠ .power)
    (h : Clear a (.binary id op left right)) (hleft : Clear a left) :
    op.javaPrecedence ≤ (tree a left).precedence ↔
      (Expr.binary id op left right).isAndOverOr = false := by
  have hseven : op.javaPrecedence ≤ 7 := by cases op <;> decide
  have hprecedence := leastPrecedence_le_precedence a left
  cases left with
  | binary id' op' left' right' =>
    obtain ⟨hle, -⟩ := h.written.operands _ _ _ _ rfl
    rw [tree, isAndOverOr_binary]
    split
    · rename_i hpower
      exact iff_of_true hseven fun hor => by simp [hor.2] at hpower
    · exact javaPrecedence_le_iff hop ‹_› hle (h.not_nested hleft)
  | literal | group | access | element | call | list =>
    refine iff_of_true (Nat.le_trans hseven hprecedence) (isAndOverOr_other id op ?_ right)
    rintro ⟨⟩

theorem properList_trees {es : List Expr} (h : ∀ e ∈ es, (tree a e).Proper ↔
      ∀ part ∈ e.parts, part.isAndOverOr = false) :
    Tree.ProperList (trees a es) ↔ ∀ part ∈ Expr.partsOfList es, part.isAndOverOr = false := by
  induction es with
  | nil => exact iff_of_true trivial (List.forall_mem_nil _)
  | cons e es ih =>
    obtain ⟨he, hes⟩ := List.forall_mem_cons.1 h
    rw [trees, Tree.ProperList, Expr.partsOfList, List.forall_mem_append, he, ih hes]

/-- **The tree of an expression is proper exactly if it has no `&&` over an ungrouped `||`.** -/
theorem proper_tree_iff {e : Expr} (h : ∀ part ∈ e.parts, Clear a part) :
    (tree a e).Proper ↔ ∀ part ∈ e.parts, part.isAndOverOr = false := by
  refine Expr.induct_parts
    (P := fun e => (tree a e).Proper ↔ ∀ part ∈ e.parts, part.isAndOverOr = false)
    ?literal ?group ?binary ?access ?element ?call ?list e h
  case literal =>
    intro id value
    obtain ⟨-, hproper, -⟩ := literalTree_atomic value
    exact iff_of_true hproper (List.forall_mem_singleton.2 rfl)
  case group =>
    intro id inner _ hinner
    simp only [tree, Tree.Proper, Tree.ProperList, and_true, hinner, Expr.parts,
      List.forall_mem_append, List.forall_mem_singleton, Expr.isAndOverOr]
  case binary =>
    intro id op left right hclear hclearLeft _ hleft hright
    simp only [Expr.parts, List.forall_mem_append, List.forall_mem_singleton]
    rw [tree]
    split
    · rename_i hpower
      subst hpower
      simp only [Tree.Proper, Tree.ProperList, and_true, hleft, hright, Expr.isAndOverOr]
    · rename_i hop
      have hlt : op.javaPrecedence < (tree a right).precedence :=
        Nat.lt_of_lt_of_le (javaPrecedence_lt op (hclear.written.operands id op left right rfl).2)
          (leastPrecedence_le_precedence a right)
      rw [Tree.Proper, hleft, hright, hclear.left_iff hop hclearLeft]
      rw [and_iff_left hlt]
  case access => exact fun id name _ => iff_of_true trivial (List.forall_mem_singleton.2 rfl)
  case element =>
    intro id name offset _ hoffset
    simp only [tree, Tree.Proper, Tree.ProperList, and_true, hoffset, Expr.parts,
      List.forall_mem_append, List.forall_mem_singleton, Expr.isAndOverOr]
  case call =>
    intro id name args _ hargs
    simp only [tree, Tree.Proper, properList_trees hargs, Expr.parts, List.forall_mem_append,
      List.forall_mem_singleton, Expr.isAndOverOr, and_true]
  case list =>
    intro id es hes
    simp only [tree, Tree.Proper, properList_trees hes, Expr.parts, List.forall_mem_append,
      List.forall_mem_singleton, Expr.isAndOverOr, and_true]

/-! ### Names -/

theorem mem_words_bracket {head : Head} {items : List Tree} {w : String} :
    w ∈ (Tree.bracket head items).words ↔ w ∈ head.words ∨ ∃ t ∈ items, w ∈ t.words := by
  rw [Tree.words, List.mem_append, Tree.mem_wordsOfList]

theorem words_subset_bracket {es : List Expr} {e : Expr} (he : e ∈ es) (head : Head) :
    (tree a e).words ⊆ (Tree.bracket head (trees a es)).words := by
  intro w hw
  have hmem : tree a e ∈ trees a es := by
    rw [trees_eq_map]
    exact List.mem_map_of_mem he
  exact mem_words_bracket.2 (.inr ⟨_, hmem, hw⟩)

theorem words_subset_binary {id : NodeId} {op : BinaryOp} {left right e : Expr}
    (he : e ∈ [left, right]) :
    (tree a e).words ⊆ (tree a (.binary id op left right)).words := by
  rw [tree]
  split
  · exact words_subset_bracket he _
  · rcases List.mem_pair.1 he with rfl | rfl
    · exact List.subset_append_left _ _
    · exact List.subset_append_right _ _

/-- The words of the parts of an expression are words of the expression. -/
theorem words_part_subset {e part : Expr} (hpart : part ∈ e.parts) :
    (tree a part).words ⊆ (tree a e).words := by
  have hitems {es : List Expr} (hes : ∀ e ∈ es, part ∈ e.parts →
      (tree a part).words ⊆ (tree a e).words) (head : Head) (h : ∃ e ∈ es, part ∈ e.parts) :
      (tree a part).words ⊆ (Tree.bracket head (trees a es)).words := by
    obtain ⟨e, he, hpart⟩ := h
    exact List.Subset.trans (hes e he hpart) (words_subset_bracket he head)
  refine Expr.induct_parts (Q := fun _ => True)
    (P := fun e => part ∈ e.parts → (tree a part).words ⊆ (tree a e).words)
    ?literal ?group ?binary ?access ?element ?call ?list e (fun _ _ => trivial) hpart
  case literal =>
    intro id value hself
    rw [List.mem_singleton.1 hself]
    exact List.Subset.refl _
  case group =>
    intro id inner _ hinner h
    rcases List.mem_append.1 h with h | hself
    · exact hitems (List.forall_mem_singleton.2 hinner) _ ⟨inner, List.mem_singleton_self inner, h⟩
    · rw [List.mem_singleton.1 hself]
      exact List.Subset.refl _
  case binary =>
    intro id op left right _ _ _ hleft hright h
    rcases List.mem_append.1 h with h | h
    · exact List.Subset.trans (hleft h) (words_subset_binary (by simp))
    · rcases List.mem_append.1 h with h | hself
      · exact List.Subset.trans (hright h) (words_subset_binary (by simp))
      · rw [List.mem_singleton.1 hself]
        exact List.Subset.refl _
  case access =>
    intro id name _ hself
    rw [List.mem_singleton.1 hself]
    exact List.Subset.refl _
  case element =>
    intro id name offset _ hoffset h
    rcases List.mem_append.1 h with h | hself
    · exact hitems (List.forall_mem_singleton.2 hoffset) _
        ⟨offset, List.mem_singleton_self offset, h⟩
    · rw [List.mem_singleton.1 hself]
      exact List.Subset.refl _
  case call =>
    intro id name args _ hargs h
    rcases List.mem_append.1 h with h | hself
    · exact hitems hargs _ (Expr.mem_partsOfList.1 h)
    · rw [List.mem_singleton.1 hself]
      exact List.Subset.refl _
  case list =>
    intro id es hes h
    rcases List.mem_append.1 h with h | hself
    · exact hitems hes _ (Expr.mem_partsOfList.1 h)
    · rw [List.mem_singleton.1 hself]
      exact List.Subset.refl _

/-- The name of a call is written as it is, or it is `print`. -/
theorem mem_javaNameOf {name : String} (h : '-' ∈ name.toList) (arity : Nat) :
    '-' ∈ (javaNameOf name arity).toList := by
  unfold javaNameOf
  split
  · rename_i hprint
    obtain ⟨rfl, -⟩ := Prod.mk.inj hprint
    exact absurd h (by decide)
  · exact h

/-- A name with a hyphen is a word of the tree. -/
theorem exists_hyphenated (a : Annotations) {e part : Expr} (hpart : part ∈ e.parts)
    {name : String} (hname : part.name? = some name) (hhyphen : '-' ∈ name.toList) :
    ∃ w ∈ (tree a e).words, '-' ∈ w.toList := by
  suffices hword : ∃ w ∈ (tree a part).words, '-' ∈ w.toList by
    obtain ⟨w, hw, hhyphen⟩ := hword
    exact ⟨w, words_part_subset hpart hw, hhyphen⟩
  cases part with
  | access id name' =>
    cases hname
    exact ⟨name, List.mem_singleton_self name, hhyphen⟩
  | element id name' offset =>
    cases hname
    exact ⟨name, mem_words_bracket.2 (.inl (List.mem_singleton_self name)), hhyphen⟩
  | call id name' args =>
    cases hname
    exact ⟨_, mem_words_bracket.2 (.inl (List.mem_singleton_self _)), mem_javaNameOf hhyphen _⟩
  | literal | group | binary | list => cases hname

end Java

/-- In a program that was read and accepted every expression has what it needs for its tree. -/
theorem Java.clear_of_check {firstId next : NodeId} {text : String} {p : Source} {a : Annotations}
    (hread : Pipeline.sourceFrom firstId text = .ok (p, next)) (hcheck : p.check = .ok a) :
    ∀ e ∈ p.expressions, Java.Clear a e := by
  obtain ⟨-, hnodes⟩ := Pipeline.sourceFrom_ok hread
  obtain ⟨frame, Φ, htyped⟩ := Source.wellTyped_of_check hcheck
  obtain ⟨a', hcheck', hfinds⟩ := (htyped .any (.inl rfl) (Notes.hold_any a p.nodes)).check_eq
  obtain rfl : a = a' := Except.ok.inj (hcheck.symm.trans hcheck')
  intro e he
  exact ⟨Pipeline.sourceFrom_written hread e he, (hfinds.knows hnodes e he).binds⟩

/-- **Java reads the text of an expression as its tree exactly if no `&&` in it has an
ungrouped `||` as its left operand**, and no name in it has a hyphen where hyphens may not be
part of names.  With hyphens in names the text can be read in any case. -/
theorem java_reads_back_iff {firstId next : NodeId} {text : String} {p : Source}
    {a : Annotations} {e : Expr} (hread : Pipeline.sourceFrom firstId text = .ok (p, next))
    (hcheck : p.check = .ok a) (he : e ∈ p.expressions) :
    ∃ java, Java.expression a e = .ok java ∧ (Java.read true java).isSome ∧
      ∀ hyphens, Java.read hyphens java = some (Java.tree a e) ↔
        (∀ part ∈ e.parts, part.isAndOverOr = false) ∧
          (hyphens = true ∨
            ∀ part ∈ e.parts, ∀ name, part.name? = some name → '-' ∉ name.toList) := by
  have hclear : ∀ part ∈ e.parts, Java.Clear a part := fun part hpart =>
    Java.clear_of_check hread hcheck part (p.partsClosed e he hpart)
  have hlegible := (Java.legible_tree hclear).1
  have hproper := hlegible.regroup_eq_self_iff.trans (Java.proper_tree_iff hclear)
  have hreads {hyphens : Bool} (hnames : hyphens = true ∨
      ∀ part ∈ e.parts, ∀ name, part.name? = some name → '-' ∉ name.toList) :
      Java.read hyphens (.ofList (Java.tree a e).text) = some (Java.tree a e).regroup := by
    refine Java.read_text hlegible (Java.scannable_tree fun part hpart => ⟨hclear part hpart, ?_⟩)
    exact hnames.imp_right fun hnames => hnames part hpart
  refine ⟨_, Java.expression_eq_text hclear, ?_, fun hyphens => ⟨fun hback => ?_, ?_⟩⟩
  · rw [hreads (.inl rfl)]
    rfl
  · -- in Java a word of the tree has no hyphen
    have hnames : hyphens = true ∨
        ∀ part ∈ e.parts, ∀ name, part.name? = some name → '-' ∉ name.toList := by
      cases hyphens with
      | true => exact .inl rfl
      | false =>
        refine .inr fun part hpart name hname hhyphen => ?_
        obtain ⟨w, hw, hhyphen⟩ := Java.exists_hyphenated a hpart hname hhyphen
        exact Java.read_unhyphenated hback w hw hhyphen
    rw [hreads hnames] at hback
    exact ⟨hproper.1 (Option.some.inj hback), hnames⟩
  · rintro ⟨hand, hnames⟩
    rw [hreads hnames, hproper.2 hand]

/-- Operators of all levels, a cast, a negative number, and a name with a hyphen: read with
hyphens in names the text keeps its structure, read as Java does it has another. -/
theorem java_reads_back_iff_all_levels :
    ∃ p next a e, Pipeline.sourceFrom 0 "FUN main(): Integer DO LET a-b = 2;
        IF a-b - -1 > 2 ^ 3 * 4 && (TRUE || FALSE) DO RETURN 1; END RETURN 0; END" =
          .ok (p, next) ∧ p.check = .ok a ∧ e ∈ p.expressions ∧
      Java.expression a e = .ok "a-b - -1 > (int) Math.pow(2, 3) * 4 && (true || false)" ∧
        Java.read true "a-b - -1 > (int) Math.pow(2, 3) * 4 && (true || false)" =
            some (Java.tree a e) ∧
          Java.read false "a-b - -1 > (int) Math.pow(2, 3) * 4 && (true || false)" ≠
            some (Java.tree a e) := by
  obtain ⟨⟨p, next⟩, hread, hgood⟩ := exists_ok_of_any
    (fun ⟨p, _⟩ => p.check.toOption.any fun a => p.expressions.any fun e =>
      (Java.expression a e).toOption = some
          "a-b - -1 > (int) Math.pow(2, 3) * 4 && (true || false)" &&
        (e.parts.all (!·.isAndOverOr) && e.parts.any (·.name? = some "a-b")))
    (show (Pipeline.sourceFrom 0 "FUN main(): Integer DO LET a-b = 2;
        IF a-b - -1 > 2 ^ 3 * 4 && (TRUE || FALSE) DO RETURN 1; END RETURN 0; END").toOption.any
          _ = true by decide +kernel)
  obtain ⟨a, hcheck, hgood⟩ := exists_ok_of_any _ hgood
  obtain ⟨e, he, hgood⟩ := List.any_eq_true.1 hgood
  obtain ⟨htext, hgood⟩ := Bool.and_eq_true_iff.1 hgood
  obtain ⟨hand, hname⟩ := Bool.and_eq_true_iff.1 hgood
  obtain ⟨part, hpart, hname⟩ := List.any_eq_true.1 hname
  obtain ⟨java, hjava, -, hiff⟩ := java_reads_back_iff hread hcheck he
  obtain rfl : java = "a-b - -1 > (int) Math.pow(2, 3) * 4 && (true || false)" := by
    rw [hjava] at htext
    exact Option.some.inj (of_decide_eq_true htext)
  refine ⟨p, next, a, e, hread, hcheck, he, hjava, (hiff true).2 ⟨fun part hpart => ?_, .inl rfl⟩,
    fun hback => ?_⟩
  · simpa only [Bool.not_eq_true_eq_eq_false] using List.all_eq_true.1 hand part hpart
  · have hnames := ((hiff false).1 hback).2.resolve_left Bool.false_ne_true
    exact hnames part hpart "a-b" (of_decide_eq_true hname) (by decide)

/-- The condition `TRUE || FALSE && FALSE`. -/
def Expr.isTrueOrFalseAndFalse : Expr → Bool
  | .binary _ .and (.binary _ .or (.literal _ (.boolean true)) (.literal _ (.boolean false)))
      (.literal _ (.boolean false)) => true
  | _ => false

/-- The smallest such text: Java takes `&&` first. -/
theorem java_reads_or_and_otherwise :
    ∃ p next a e, Pipeline.sourceFrom 0
        "FUN main(): Integer DO IF TRUE || FALSE && FALSE DO RETURN 1; END RETURN 0; END" =
          .ok (p, next) ∧ p.check = .ok a ∧ e ∈ p.expressions ∧
      Java.expression a e = .ok "true || false && false" ∧
        Java.tree a e = .binary .and (.binary .or (.word "true") (.word "false")) (.word "false") ∧
          Java.read true "true || false && false" =
            some (.binary .or (.word "true") (.binary .and (.word "false") (.word "false"))) := by
  obtain ⟨⟨p, next⟩, hread, hgood⟩ := exists_ok_of_any
    (fun r => r.1.check.toOption.any fun _ => r.1.expressions.any Expr.isTrueOrFalseAndFalse)
    (show Option.any _ (Pipeline.sourceFrom 0
        "FUN main(): Integer DO IF TRUE || FALSE && FALSE DO RETURN 1; END RETURN 0; END").toOption
          = true by decide +kernel)
  obtain ⟨a, hcheck, hgood⟩ := exists_ok_of_any _ hgood
  obtain ⟨e, he, hmatch⟩ := List.any_eq_true.1 hgood
  unfold Expr.isTrueOrFalseAndFalse at hmatch
  split at hmatch
  · exact ⟨p, next, a, _, hread, hcheck, he, rfl, rfl, rfl⟩
  · cases hmatch

end Scriptlet
