import Scriptlet.Proofs.Visits

/-!
# Programs as forests of nodes

Statements and the arms of a `SWITCH` have no identity of their own.  What is left of a
program without them is a forest: below a node stand the nodes inside it, through whatever
statements, and they stand there from left to right.

| order | a node comes | used by |
| --- | --- | --- |
| `preorder` | before the nodes inside it | the writer of Java text |
| `postorder` | after the nodes inside it | the reader, which numbers nodes in this order |

If ids increase in postorder, every node has a greater id than the nodes inside it, and
siblings have increasing ids (`Ascending.of_postorder`).
-/

namespace Scriptlet

/-- A node and the trees of the nodes inside it. -/
inductive NodeTree where
  | mk (node : Node) (inner : List NodeTree)

namespace NodeTree

/-- The node at the top. -/
def node : NodeTree → Node
  | mk node _ => node

/-- The trees below the top. -/
def inner : NodeTree → List NodeTree
  | mk _ inner => inner

/-- The identity of the node at the top. -/
def id (t : NodeTree) : NodeId := t.node.id

mutual

/-- The nodes of a tree, each before the nodes inside it. -/
def preorder : NodeTree → List Node
  | mk node inner => node :: preorderOfList inner

/-- The nodes of a forest, each before the nodes inside it. -/
def preorderOfList : List NodeTree → List Node
  | [] => []
  | t :: forest => t.preorder ++ preorderOfList forest

end

mutual

/-- The nodes of a tree, each after the nodes inside it. -/
def postorder : NodeTree → List Node
  | mk node inner => postorderOfList inner ++ [node]

/-- The nodes of a forest, each after the nodes inside it. -/
def postorderOfList : List NodeTree → List Node
  | [] => []
  | t :: forest => t.postorder ++ postorderOfList forest

end

/-- A tree that stands in a forest, at the top or within another tree. -/
inductive Occurs : NodeTree → List NodeTree → Prop where
  | top {t : NodeTree} {forest : List NodeTree} : t ∈ forest → Occurs t forest
  | within {t u : NodeTree} {forest : List NodeTree} :
    u ∈ forest → Occurs t u.inner → Occurs t forest

/-! ### The two orders -/

/-- One forest after the other, in preorder. -/
@[simp] theorem preorderOfList_append (forest forest' : List NodeTree) :
    preorderOfList (forest ++ forest') = preorderOfList forest ++ preorderOfList forest' := by
  induction forest with
  | nil => rfl
  | cons t forest ih => rw [List.cons_append, preorderOfList, ih, preorderOfList, List.append_assoc]

/-- One forest after the other, in postorder. -/
@[simp] theorem postorderOfList_append (forest forest' : List NodeTree) :
    postorderOfList (forest ++ forest') = postorderOfList forest ++ postorderOfList forest' := by
  induction forest with
  | nil => rfl
  | cons t forest ih =>
    rw [List.cons_append, postorderOfList, ih, postorderOfList, List.append_assoc]

/-- The preorder of trees that are made one by one. -/
theorem preorderOfList_map {α : Type} (tree : α → NodeTree) (xs : List α) :
    preorderOfList (xs.map tree) = xs.flatMap fun x => (tree x).preorder := by
  induction xs with
  | nil => rfl
  | cons x xs ih => rw [List.map_cons, preorderOfList, ih, List.flatMap_cons]

/-- The postorder of trees that are made one by one. -/
theorem postorderOfList_map {α : Type} (tree : α → NodeTree) (xs : List α) :
    postorderOfList (xs.map tree) = xs.flatMap fun x => (tree x).postorder := by
  induction xs with
  | nil => rfl
  | cons x xs ih => rw [List.map_cons, postorderOfList, ih, List.flatMap_cons]

mutual

/-- Both orders have the same nodes. -/
theorem preorder_perm : (t : NodeTree) → t.preorder.Perm t.postorder
  | mk node inner =>
    ((preorderOfList_perm inner).cons node).trans (List.perm_append_singleton node _).symm

/-- **Both orders list the same nodes.** -/
theorem preorderOfList_perm : (forest : List NodeTree) →
    (preorderOfList forest).Perm (postorderOfList forest)
  | [] => .refl []
  | t :: forest => t.preorder_perm.append (preorderOfList_perm forest)

end

/-- Trees in another order have the same nodes. -/
theorem postorderOfList_perm {forest forest' : List NodeTree} (h : forest.Perm forest') :
    (postorderOfList forest).Perm (postorderOfList forest') := by
  have hflat : ∀ forest, postorderOfList forest = forest.flatMap postorder := fun forest => by
    rw [← forest.map_id, postorderOfList_map, List.map_id]
    rfl
  rw [hflat, hflat]
  exact h.flatMap_right _

/-- In postorder a node comes after those inside it. -/
theorem postorder_eq (t : NodeTree) : t.postorder = postorderOfList t.inner ++ [t.node] := by
  cases t with
  | mk node inner => rw [postorder, NodeTree.inner, NodeTree.node]

/-- A node is in its own tree. -/
theorem node_mem_postorder (t : NodeTree) : t.node ∈ t.postorder := by
  rw [postorder_eq]
  exact List.mem_append_right _ (List.mem_singleton_self _)

/-- Trees of a forest keep their order in it. -/
theorem postorder_sublist {t : NodeTree} {forest : List NodeTree} (h : t ∈ forest) :
    t.postorder.Sublist (postorderOfList forest) := by
  induction forest with
  | nil => cases h
  | cons u forest ih =>
    rcases List.mem_cons.1 h with rfl | h
    · exact List.sublist_append_left ..
    · exact (ih h).trans (List.sublist_append_right ..)

/-- A tree within a forest keeps its order there. -/
theorem Occurs.sublist {t : NodeTree} {forest : List NodeTree} (h : Occurs t forest) :
    t.postorder.Sublist (postorderOfList forest) := by
  induction h with
  | top h => exact postorder_sublist h
  | @within u forest hu _ ih =>
    have hinner : (postorderOfList u.inner).Sublist u.postorder := by
      rw [postorder_eq]
      exact List.sublist_append_left ..
    exact ih.trans (hinner.trans (postorder_sublist hu))

/-- The node of a tree that occurs in a forest is one of its nodes. -/
theorem Occurs.node_mem {t : NodeTree} {forest : List NodeTree} (h : Occurs t forest) :
    t.node ∈ postorderOfList forest :=
  h.sublist.subset t.node_mem_postorder

/-! ### Increasing ids -/

/-- Every node of a forest has a greater id than the nodes inside it, and siblings have
increasing ids, those at the top among them. -/
structure Ascending (forest : List NodeTree) : Prop where
  top : forest.Pairwise fun t u => t.id < u.id
  siblings : ∀ t, Occurs t forest → t.inner.Pairwise fun u v => u.id < v.id
  inside : ∀ t, Occurs t forest → ∀ u, Occurs u t.inner → u.id < t.id

/-- The top node of a tree is one of its nodes, so siblings are ordered as their trees are. -/
theorem pairwise_of_postorder {forest : List NodeTree}
    (h : (postorderOfList forest).Pairwise fun n n' => n.id < n'.id) :
    forest.Pairwise fun t u => t.id < u.id := by
  induction forest with
  | nil => exact .nil
  | cons t forest ih =>
    obtain ⟨-, hrest, hless⟩ := List.pairwise_append.1 h
    refine .cons (fun u hu => ?_) (ih hrest)
    exact hless _ t.node_mem_postorder _ (Occurs.top hu).node_mem

/-- **If ids increase in postorder, they increase along the tree.** -/
theorem Ascending.of_postorder {forest : List NodeTree}
    (h : (postorderOfList forest).Pairwise fun n n' => n.id < n'.id) : Ascending forest := by
  have hsplit : ∀ t, Occurs t forest →
      (postorderOfList t.inner).Pairwise (fun n n' => n.id < n'.id) ∧
        ∀ n ∈ postorderOfList t.inner, n.id < t.id := by
    intro t ht
    have htree := h.sublist ht.sublist
    rw [postorder_eq, List.pairwise_append] at htree
    exact ⟨htree.1, fun n hn => htree.2.2 n hn _ (List.mem_singleton_self _)⟩
  exact ⟨pairwise_of_postorder h, fun t ht => pairwise_of_postorder (hsplit t ht).1,
    fun t ht u hu => (hsplit t ht).2 _ hu.node_mem⟩

end NodeTree

/-! ### The forest of a program -/

mutual

/-- The tree of an expression. -/
def Expr.tree : Expr → NodeTree
  | .literal id value => .mk (.expression (.literal id value)) []
  | .group id inner => .mk (.expression (.group id inner)) [inner.tree]
  | .binary id op left right =>
    .mk (.expression (.binary id op left right)) [left.tree, right.tree]
  | .access id name => .mk (.expression (.access id name)) []
  | .element id name offset => .mk (.expression (.element id name offset)) [offset.tree]
  | .call id name args => .mk (.expression (.call id name args)) (Expr.treesOfList args)
  | .list id es => .mk (.expression (.list id es)) (Expr.treesOfList es)

/-- The trees of expressions, from left to right. -/
def Expr.treesOfList : List Expr → List NodeTree
  | [] => []
  | e :: es => e.tree :: Expr.treesOfList es

end

/-- The tree of an expression that may be absent. -/
def Expr.treesOfOption : Option Expr → List NodeTree
  | none => []
  | some e => [e.tree]

mutual

/-- The trees of the nodes of a statement. -/
def Stmt.trees : Stmt → List NodeTree
  | .expression e => [e.tree]
  | .declaration id name typeName value =>
    [.mk (.declaration id name typeName value) (Expr.treesOfOption value)]
  | .assignment receiver value => [receiver.tree, value.tree]
  | .ifElse condition thenBody elseBody =>
    condition.tree :: (Stmt.treesOfList thenBody ++ Stmt.treesOfList elseBody)
  | .switch condition arms => condition.tree :: Case.treesOfList arms
  | .whileDo condition body => condition.tree :: Stmt.treesOfList body
  | .returnWith value => [value.tree]

/-- The trees of the nodes of statements, from first to last. -/
def Stmt.treesOfList : List Stmt → List NodeTree
  | [] => []
  | first :: rest => first.trees ++ Stmt.treesOfList rest

/-- The trees of the nodes of the arms of a `SWITCH`. -/
def Case.treesOfList : List Case → List NodeTree
  | [] => []
  | .mk value body :: rest =>
    Expr.treesOfOption value ++ (Stmt.treesOfList body ++ Case.treesOfList rest)

end

/-- The tree of a global. -/
def GlobalDecl.tree (g : GlobalDecl) : NodeTree := .mk (.global g) (Expr.treesOfOption g.value)

/-- The tree of a function. -/
def FunctionDecl.tree (f : FunctionDecl) : NodeTree := .mk (.function f) (Stmt.treesOfList f.body)

/-- The trees of a program: those of its globals, then those of its functions. -/
def Source.trees (p : Source) : List NodeTree :=
  p.globals.map GlobalDecl.tree ++ p.functions.map FunctionDecl.tree

/-! ### Ids in postorder -/

open NodeTree

mutual

/-- The nodes of an expression are those of its tree in postorder. -/
theorem Expr.postorder_tree : (e : Expr) → e.tree.postorder.map Node.id = e.nodes
  | .literal _ _ | .access _ _ => rfl
  | .group _ operand => by
    simp [Expr.tree, postorder, postorderOfList, Expr.nodes, operand.postorder_tree, Node.id,
      Expr.id]
  | .binary _ _ left right => by
    simp [Expr.tree, postorder, postorderOfList, Expr.nodes, left.postorder_tree,
      right.postorder_tree, Node.id, Expr.id]
  | .element _ _ offset => by
    simp [Expr.tree, postorder, postorderOfList, Expr.nodes, offset.postorder_tree, Node.id,
      Expr.id]
  | .call _ _ args => by
    simp [Expr.tree, postorder, Expr.nodes, Expr.postorder_treesOfList args, Node.id, Expr.id]
  | .list _ es => by
    simp [Expr.tree, postorder, Expr.nodes, Expr.postorder_treesOfList es, Node.id, Expr.id]

/-- The nodes of expressions are those of their trees in postorder. -/
theorem Expr.postorder_treesOfList : (es : List Expr) →
    (postorderOfList (Expr.treesOfList es)).map Node.id = Expr.nodesOfList es
  | [] => rfl
  | e :: es => by
    rw [Expr.treesOfList, postorderOfList, List.map_append, e.postorder_tree,
      Expr.postorder_treesOfList es, Expr.nodesOfList]

end

/-- The nodes of a value are those of its tree, if it is there. -/
theorem Expr.postorder_treesOfOption (value : Option Expr) :
    (postorderOfList (Expr.treesOfOption value)).map Node.id = Expr.nodesOfOption value := by
  cases value with
  | none => rfl
  | some e => simp [Expr.treesOfOption, postorderOfList, Expr.nodesOfOption, e.postorder_tree]

mutual

/-- The nodes of a statement are those of its trees in postorder. -/
theorem Stmt.postorder_trees : (s : Stmt) → (postorderOfList s.trees).map Node.id = s.nodes
  | .expression e => by simp [Stmt.trees, postorderOfList, Stmt.nodes, e.postorder_tree]
  | .declaration _ _ _ value => by
    simp [Stmt.trees, postorder, postorderOfList, Stmt.nodes, Expr.postorder_treesOfOption value,
      Node.id]
  | .assignment receiver value => by
    simp [Stmt.trees, postorderOfList, Stmt.nodes, receiver.postorder_tree, value.postorder_tree]
  | .ifElse condition thenBody elseBody => by
    simp [Stmt.trees, postorderOfList, Stmt.nodes, condition.postorder_tree,
      Stmt.postorder_treesOfList thenBody, Stmt.postorder_treesOfList elseBody]
  | .switch condition arms => by
    simp [Stmt.trees, postorderOfList, Stmt.nodes, condition.postorder_tree,
      Case.postorder_treesOfList arms]
  | .whileDo condition body => by
    simp [Stmt.trees, postorderOfList, Stmt.nodes, condition.postorder_tree,
      Stmt.postorder_treesOfList body]
  | .returnWith value => by simp [Stmt.trees, postorderOfList, Stmt.nodes, value.postorder_tree]

/-- The nodes of a block are those of its trees in postorder. -/
theorem Stmt.postorder_treesOfList : (body : List Stmt) →
    (postorderOfList (Stmt.treesOfList body)).map Node.id = Stmt.nodesOfList body
  | [] => rfl
  | first :: rest => by
    rw [Stmt.treesOfList, postorderOfList_append, List.map_append, first.postorder_trees,
      Stmt.postorder_treesOfList rest, Stmt.nodesOfList]

/-- The nodes of arms are those of their trees in postorder. -/
theorem Case.postorder_treesOfList : (arms : List Case) →
    (postorderOfList (Case.treesOfList arms)).map Node.id = Case.nodesOfList arms
  | [] => rfl
  | .mk value body :: rest => by
    simp only [Case.treesOfList, postorderOfList_append, List.map_append, Case.nodesOfList,
      Expr.postorder_treesOfOption value, Stmt.postorder_treesOfList body,
      Case.postorder_treesOfList rest]

end

/-- The nodes of a global are those of its tree in postorder. -/
theorem GlobalDecl.postorder_tree (g : GlobalDecl) : g.tree.postorder.map Node.id = g.nodes := by
  rw [GlobalDecl.tree, postorder, List.map_append, Expr.postorder_treesOfOption, GlobalDecl.nodes]
  rfl

/-- The nodes of a function are those of its tree in postorder. -/
theorem FunctionDecl.postorder_tree (f : FunctionDecl) :
    f.tree.postorder.map Node.id = f.nodes := by
  rw [FunctionDecl.tree, postorder, List.map_append, Stmt.postorder_treesOfList, FunctionDecl.nodes]
  rfl

/-- **Postorder is the order of `nodes`.** -/
theorem Source.postorder_trees (p : Source) :
    (postorderOfList p.trees).map Node.id = p.nodes := by
  simp only [Source.trees, postorderOfList_append, postorderOfList_map, List.map_append,
    List.map_flatMap, GlobalDecl.postorder_tree, FunctionDecl.postorder_tree, Source.nodes]

end Scriptlet
