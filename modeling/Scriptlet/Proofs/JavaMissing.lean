import Scriptlet.Proofs.JavaNeeds
import Scriptlet.Proofs.NodeTree

/-!
# The first node that lacks its finding

The writer of Java asks for what checking recorded at a node before it goes on to the nodes
inside it, and takes those from left to right: it goes through the forest of the program in
preorder.  So what it needs is what the nodes need, in preorder (`Source.needs_eq`), and it
fails at the first node in preorder that lacks its finding, whatever was recorded elsewhere.

| node | finding | error without it |
| --- | --- | --- |
| a global, a local declaration, an access | a variable | `missingVariable` and its name |
| a function, a call | a function | `missingFunction` and its name |
| a power | a type | `missingType` |
-/

namespace Scriptlet

namespace Node

/-- Powers. -/
def isPower : Node → Bool
  | expression (.binary _ op _ _) => op = .power
  | _ => false

/-- The finding that the text of a node needs is there. -/
@[mk_iff annotated_iff_and]
structure Annotated (a : Annotations) (n : Node) : Prop where
  variableFound : n.isVariable = true → (a.vars.find? n.id).isSome
  functionFound : n.isFunction = true → (a.functions.find? n.id).isSome
  typeFound : n.isPower = true → (a.types.find? n.id).isSome

/-- What is said about a node that lacks its finding. -/
def missing : Node → JavaError
  | expression (.access _ name) | expression (.element _ name _) => .missingVariable name
  | declaration _ name _ _ => .missingVariable name
  | global g => .missingVariable g.name
  | expression (.call _ name _) => .missingFunction name
  | function f => .missingFunction f.name
  | _ => .missingType "power expression"

/-- What the text of a node needs, apart from the nodes inside it. -/
def needs : Node → List Need
  | expression (.access id name) | expression (.element id name _) => [.var id name]
  | declaration id name _ _ => [.var id name]
  | global g => [.var g.id g.name]
  | expression (.call id name _) => [.function id name]
  | function f => [.function f.id f.name]
  | expression (.binary id op _ _) => if op = .power then [.type id] else []
  | _ => []

/-- A node lacks nothing if all that it needs was recorded. -/
theorem annotated_iff {a : Annotations} {n : Node} :
    n.Annotated a ↔ ∀ need ∈ n.needs, need.isMet a = true := by
  rw [annotated_iff_and]
  cases n with
  | expression e =>
    cases e <;> simp [needs, isVariable, isFunction, isPower, Need.isMet, id, Expr.id]
  | _ => simp [needs, isVariable, isFunction, isPower, Need.isMet, id]

/-- Whatever a node needs, it is reported as its own finding. -/
theorem error_of_mem_needs {n : Node} {need : Need} (h : need ∈ n.needs) :
    need.error = n.missing := by
  cases n with
  | expression e => cases e <;> simp_all [needs, missing, Need.error]
  | _ => simp_all [needs, missing, Need.error]

end Node

/-! ### What a program needs is what its nodes need, in preorder -/

open NodeTree

mutual

/-- An expression needs what its nodes need, in preorder. -/
theorem Expr.needs_eq : (e : Expr) → e.needs = e.tree.preorder.flatMap Node.needs
  | .literal _ _ | .access _ _ => rfl
  | .group _ operand => by
    simp [Expr.needs, Expr.tree, preorder, preorderOfList, Node.needs, operand.needs_eq]
  | .binary _ _ left right => by
    simp [Expr.needs, Expr.tree, preorder, preorderOfList, Node.needs, left.needs_eq,
      right.needs_eq]
  | .element _ _ offset => by
    simp [Expr.needs, Expr.tree, preorder, preorderOfList, Node.needs, offset.needs_eq]
  | .call _ _ args => by
    simp [Expr.needs, Expr.tree, preorder, Node.needs, Expr.needsOfList_eq args]
  | .list _ es => by
    simp [Expr.needs, Expr.tree, preorder, Node.needs, Expr.needsOfList_eq es]

/-- Expressions need what their nodes need, in preorder. -/
theorem Expr.needsOfList_eq : (es : List Expr) →
    Expr.needsOfList es = (preorderOfList (Expr.treesOfList es)).flatMap Node.needs
  | [] => rfl
  | e :: es => by
    rw [Expr.needsOfList, Expr.treesOfList, preorderOfList, List.flatMap_append, e.needs_eq,
      Expr.needsOfList_eq es]

end

/-- A value needs what its nodes need, in preorder. -/
theorem Expr.needsOfOption_eq (value : Option Expr) :
    Expr.needsOfOption value = (preorderOfList (Expr.treesOfOption value)).flatMap Node.needs := by
  cases value with
  | none => rfl
  | some e => simp [Expr.needsOfOption, Expr.treesOfOption, preorderOfList, e.needs_eq]

mutual

/-- A statement needs what its nodes need, in preorder. -/
theorem Stmt.needs_eq : (s : Stmt) → s.needs = (preorderOfList s.trees).flatMap Node.needs
  | .expression e => by simp [Stmt.needs, Stmt.trees, preorderOfList, e.needs_eq]
  | .declaration _ _ _ value => by
    simp [Stmt.needs, Stmt.trees, preorder, preorderOfList, Node.needs,
      Expr.needsOfOption_eq value]
  | .assignment receiver value => by
    simp [Stmt.needs, Stmt.trees, preorderOfList, receiver.needs_eq, value.needs_eq]
  | .ifElse condition thenBody elseBody => by
    simp [Stmt.needs, Stmt.trees, preorderOfList, condition.needs_eq,
      Stmt.needsOfList_eq thenBody, Stmt.needsOfList_eq elseBody]
  | .switch condition arms => by
    simp [Stmt.needs, Stmt.trees, preorderOfList, condition.needs_eq, Case.needsOfList_eq arms]
  | .whileDo condition body => by
    simp [Stmt.needs, Stmt.trees, preorderOfList, condition.needs_eq, Stmt.needsOfList_eq body]
  | .returnWith value => by simp [Stmt.needs, Stmt.trees, preorderOfList, value.needs_eq]

/-- A block needs what its nodes need, in preorder. -/
theorem Stmt.needsOfList_eq : (body : List Stmt) →
    Stmt.needsOfList body = (preorderOfList (Stmt.treesOfList body)).flatMap Node.needs
  | [] => rfl
  | first :: rest => by
    rw [Stmt.needsOfList, Stmt.treesOfList, preorderOfList_append, List.flatMap_append,
      first.needs_eq, Stmt.needsOfList_eq rest]

/-- Arms need what their nodes need, in preorder. -/
theorem Case.needsOfList_eq : (arms : List Case) →
    Case.needsOfList arms = (preorderOfList (Case.treesOfList arms)).flatMap Node.needs
  | [] => rfl
  | .mk value body :: rest => by
    simp only [Case.needsOfList, Case.treesOfList, preorderOfList_append, List.flatMap_append,
      Expr.needsOfOption_eq value, Stmt.needsOfList_eq body, Case.needsOfList_eq rest]

end

/-- The nodes of a program, each before the nodes inside it: globals, then functions. -/
def Source.preorder (p : Source) : List Node := preorderOfList p.trees

/-- The preorder of a program has the same nodes as the program. -/
theorem Source.preorder_nodes (p : Source) : (p.preorder.map Node.id).Perm p.nodes := by
  rw [← p.postorder_trees]
  exact (preorderOfList_perm p.trees).map Node.id

/-- **What a program needs is what its nodes need, in preorder.** -/
theorem Source.needs_eq (p : Source) : p.needs = p.preorder.flatMap Node.needs := by
  have hglobal : GlobalDecl.needs = fun g => g.tree.preorder.flatMap Node.needs := by
    funext g
    simp [GlobalDecl.needs, GlobalDecl.tree, NodeTree.preorder, Node.needs,
      Expr.needsOfOption_eq g.value]
  have hfunction : FunctionDecl.needs = fun f => f.tree.preorder.flatMap Node.needs := by
    funext f
    simp [FunctionDecl.needs, FunctionDecl.tree, NodeTree.preorder, Node.needs,
      Stmt.needsOfList_eq f.body]
  simp only [Source.needs, Source.preorder, Source.trees, preorderOfList_append,
    preorderOfList_map, List.flatMap_append, List.flatMap_assoc, hglobal, hfunction]

/-! ### The first node without its finding -/

namespace Java

variable {α : Type} {a : Annotations} {x : Except JavaError α} {nodes : List Node}

/-- Nodes that have their findings are passed over. -/
theorem find?_needs_of_annotated (h : ∀ n ∈ nodes, n.Annotated a) :
    (nodes.flatMap Node.needs).find? (!·.isMet a) = none := by
  rw [List.find?_eq_none]
  intro need hneed
  obtain ⟨n, hn, hneed⟩ := List.mem_flatMap.1 hneed
  simp [Node.annotated_iff.1 (h n hn) need hneed]

/-- If no node lacks its finding there is an answer. -/
theorem Answers.exists_ok (hx : Answers a (nodes.flatMap Node.needs) x)
    (h : ∀ n ∈ nodes, n.Annotated a) : ∃ result, x = .ok result := by
  rwa [Answers, find?_needs_of_annotated h] at hx

/-- The error is that of the first node that lacks its finding. -/
theorem Answers.eq_error {before rest : List Node} {n : Node}
    (hx : Answers a ((before ++ n :: rest).flatMap Node.needs) x)
    (hbefore : ∀ m ∈ before, m.Annotated a) (hn : ¬ n.Annotated a) : x = .error n.missing := by
  have hunmet : ∃ need ∈ n.needs, (!need.isMet a) = true := by
    simpa [Node.annotated_iff] using hn
  obtain ⟨need, hfind⟩ := Option.isSome_iff_exists.1 (List.find?_isSome.2 hunmet)
  rw [List.flatMap_append, List.flatMap_cons, Answers, List.find?_append,
    find?_needs_of_annotated hbefore, Option.none_or, List.find?_append, hfind,
    Option.some_or] at hx
  rw [← Node.error_of_mem_needs (List.mem_of_find?_eq_some hfind)]
  exact hx

/-- Either every node has its finding, or there is a first one without it. -/
theorem annotated_or_first (a : Annotations) (nodes : List Node) :
    (∀ n ∈ nodes, n.Annotated a) ∨ ∃ before n rest, nodes = before ++ n :: rest ∧
      (∀ m ∈ before, m.Annotated a) ∧ ¬ n.Annotated a := by
  induction nodes with
  | nil => exact .inl (List.forall_mem_nil _)
  | cons n nodes ih =>
    by_cases hn : n.Annotated a
    · rcases ih with hall | ⟨before, m, rest, rfl, hbefore, hm⟩
      · exact .inl (List.forall_mem_cons.2 ⟨hn, hall⟩)
      · exact .inr ⟨n :: before, m, rest, rfl, List.forall_mem_cons.2 ⟨hn, hbefore⟩, hm⟩
    · exact .inr ⟨[], n, nodes, rfl, List.forall_mem_nil _, hn⟩

/-- **A program has a Java text if and only if every node has its finding**: globals,
declarations and accesses a variable, functions and calls a function, powers a type.
Otherwise the error is the one for the first node without it, where the nodes are taken in
preorder, which lists every node of the program once. -/
theorem program_fails_at_first_missing (a : Annotations) (p : Source) :
    ((∃ text, program a p = .ok text) ↔ ∀ n ∈ p.preorder, n.Annotated a) ∧
      (∀ e, program a p = .error e ↔ ∃ before n rest, p.preorder = before ++ n :: rest ∧
        (∀ m ∈ before, m.Annotated a) ∧ ¬ n.Annotated a ∧ n.missing = e) ∧
      (p.preorder.map Node.id).Perm p.nodes := by
  have hx := program_answers a p
  rw [p.needs_eq] at hx
  have hfirst : ∀ {before n rest}, p.preorder = before ++ n :: rest →
      (∀ m ∈ before, m.Annotated a) → ¬ n.Annotated a → program a p = .error n.missing := by
    intro before n rest hsplit hbefore hn
    rw [hsplit] at hx
    exact hx.eq_error hbefore hn
  refine ⟨⟨?_, hx.exists_ok⟩, fun e => ⟨?_, ?_⟩, p.preorder_nodes⟩
  · rintro ⟨text, htext⟩
    rcases annotated_or_first a p.preorder with hall | ⟨before, n, rest, hsplit, hbefore, hn⟩
    · exact hall
    · cases htext.symm.trans (hfirst hsplit hbefore hn)
  · intro he
    rcases annotated_or_first a p.preorder with hall | ⟨before, n, rest, hsplit, hbefore, hn⟩
    · obtain ⟨text, htext⟩ := hx.exists_ok hall
      cases htext.symm.trans he
    · have hmissing := (hfirst hsplit hbefore hn).symm.trans he
      exact ⟨before, n, rest, hsplit, hbefore, hn, Except.error.inj hmissing⟩
  · rintro ⟨before, n, rest, hsplit, hbefore, hn, rfl⟩
    exact hfirst hsplit hbefore hn

end Java
end Scriptlet
