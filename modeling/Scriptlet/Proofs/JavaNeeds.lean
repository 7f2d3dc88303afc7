import Scriptlet.Pipeline
import Scriptlet.Proofs.Findings
import Scriptlet.Proofs.NameSound

/-!
# What writing Java needs

`needs` lists what has to be recorded for a program to be written in Java, in the order in
which it is asked for: a node before what is inside it, and its parts from left to right.
The answer of the writer is determined by the first need that is not met
(`Java.Answers`), so there is a text exactly if all needs are met.

| node | needs |
| --- | --- |
| a global, a local declaration, an access | its variable |
| a function, a call | its function |
| a power | its type |

Every need belongs to a node that checking visits, so after a check that succeeds
nothing is missing.
-/

namespace Scriptlet

/-- Something that must be recorded for a node. -/
inductive Need where
  | type (id : NodeId)
  | var (id : NodeId) (name : String)
  | function (id : NodeId) (name : String)

namespace Need

/-- It is recorded. -/
def isMet (a : Annotations) : Need → Bool
  | type id => (a.types.find? id).isSome
  | var id _ => (a.vars.find? id).isSome
  | function id _ => (a.functions.find? id).isSome

/-- What is said if it is not recorded. -/
def error : Need → JavaError
  | type _ => .missingType "power expression"
  | var _ name => .missingVariable name
  | function _ name => .missingFunction name

end Need

mutual

/-- What the text of an expression needs. -/
def Expr.needs : Expr → List Need
  | .literal _ _ => []
  | .group _ inner => inner.needs
  | .binary id op left right =>
    (if op = .power then [.type id] else []) ++ (left.needs ++ right.needs)
  | .access id name => [.var id name]
  | .element id name offset => .var id name :: offset.needs
  | .call id name args => .function id name :: Expr.needsOfList args
  | .list _ es => Expr.needsOfList es

/-- What the texts of expressions need. -/
def Expr.needsOfList : List Expr → List Need
  | [] => []
  | e :: es => e.needs ++ Expr.needsOfList es

end

/-- What the text of a value that may be absent needs. -/
def Expr.needsOfOption : Option Expr → List Need
  | none => []
  | some e => e.needs

mutual

/-- What the lines of a statement need. -/
def Stmt.needs : Stmt → List Need
  | .expression e => e.needs
  | .declaration id name _ value => .var id name :: Expr.needsOfOption value
  | .assignment receiver value => receiver.needs ++ value.needs
  | .ifElse condition thenBody elseBody =>
    condition.needs ++ (Stmt.needsOfList thenBody ++ Stmt.needsOfList elseBody)
  | .switch condition arms => condition.needs ++ Case.needsOfList arms
  | .whileDo condition body => condition.needs ++ Stmt.needsOfList body
  | .returnWith value => value.needs

/-- What the lines of statements need. -/
def Stmt.needsOfList : List Stmt → List Need
  | [] => []
  | first :: rest => first.needs ++ Stmt.needsOfList rest

/-- What the lines of the arms of a `SWITCH` need. -/
def Case.needsOfList : List Case → List Need
  | [] => []
  | .mk value body :: rest =>
    Expr.needsOfOption value ++ (Stmt.needsOfList body ++ Case.needsOfList rest)

end

/-- What the field of a global needs. -/
def GlobalDecl.needs (g : GlobalDecl) : List Need := .var g.id g.name :: Expr.needsOfOption g.value

/-- What the method of a function needs. -/
def FunctionDecl.needs (f : FunctionDecl) : List Need :=
  .function f.id f.name :: Stmt.needsOfList f.body

/-- What the class of a program needs. -/
def Source.needs (p : Source) : List Need :=
  p.globals.flatMap GlobalDecl.needs ++ p.functions.flatMap FunctionDecl.needs

/-! ### The answer is decided by the first need that is not met -/

namespace Java

/-- There is a result if all needs are met, and otherwise the error of the first that is
not. -/
def Answers {α : Type} (a : Annotations) (needs : List Need) (x : Except JavaError α) : Prop :=
  match needs.find? (!·.isMet a) with
  | none => ∃ result, x = .ok result
  | some need => x = .error need.error

variable {α β : Type} {a : Annotations} {needs needs' : List Need}

namespace Answers

/-- Without needs there is an answer. -/
theorem ok (a : Annotations) (result : α) : Answers a [] (.ok result) := ⟨result, rfl⟩

/-- What a step needs is asked for before what the next one needs. -/
theorem bind {x : Except JavaError α} {next : α → Except JavaError β} (h : Answers a needs x)
    (hnext : ∀ result, Answers a needs' (next result)) :
    Answers a (needs ++ needs') (x >>= next) := by
  unfold Answers at h ⊢
  rw [List.find?_append]
  cases hfind : needs.find? (!·.isMet a) with
  | none =>
    rw [hfind] at h
    obtain ⟨result, rfl⟩ := h
    exact hnext result
  | some need =>
    rw [hfind] at h
    rw [h]
    rfl

/-- The last step needs nothing more. -/
theorem last {x : Except JavaError α} {next : α → Except JavaError β} (h : Answers a needs x)
    (hnext : ∀ result, ∃ result', next result = .ok result') : Answers a needs (x >>= next) := by
  have hbind : Answers a (needs ++ []) (x >>= next) := h.bind hnext
  rwa [List.append_nil] at hbind

/-- The answer is changed, and the needs are the same. -/
theorem map {x : Except JavaError α} {f : α → β} (h : Answers a needs x) :
    Answers a needs (do return f (← x)) := h.last fun result => ⟨f result, rfl⟩

/-- For each element of a list its needs are met, in their order. -/
theorem mapM {step : α → Except JavaError β} {needsOf : α → List Need}
    (h : ∀ x, Answers a (needsOf x) (step x)) (xs : List α) :
    Answers a (xs.flatMap needsOf) (xs.mapM step) := by
  induction xs with
  | nil => exact ok a []
  | cons x xs ih =>
    rw [List.flatMap_cons, List.mapM_cons]
    exact (h x).bind fun _ => ih.map

end Answers

/-- A variable is asked for at its node. -/
theorem variableOf_answers (a : Annotations) (id : NodeId) (name : String) :
    Answers a [.var id name] (variableOf a id name) := by
  cases hfind : a.vars.find? id <;>
    simp [Answers, variableOf, Need.isMet, Need.error, hfind]

/-- A function is asked for at its node. -/
theorem functionOf_answers (a : Annotations) (id : NodeId) (name : String) :
    Answers a [.function id name] (functionOf a id name) := by
  cases hfind : a.functions.find? id <;>
    simp [Answers, functionOf, Need.isMet, Need.error, hfind]

/-- The type of a power is asked for at its node. -/
theorem powerType_answers (a : Annotations) (id : NodeId) :
    Answers a [.type id] (powerType a id) := by
  cases hfind : a.types.find? id <;>
    simp [Answers, powerType, Need.isMet, Need.error, hfind]

mutual

/-- What an expression needs is asked for in the order of `needs`; induction is on the
expression. -/
theorem expression_answers (a : Annotations) : (e : Expr) → Answers a e.needs (expression a e)
  | .literal _ value => by
    rw [expression]
    exact .ok a _
  | .group _ inner => by
    rw [expression]
    exact (expression_answers a inner).map
  | .binary id op left right => by
    rw [expression, Expr.needs]
    have hoperands {f : String → String → String} := (expression_answers a left).bind fun l =>
      (expression_answers a right).map (f := f l)
    by_cases hop : op = .power
    · rw [if_pos hop, if_pos hop]
      exact (powerType_answers a id).bind fun ty => hoperands
    · rw [if_neg hop, if_neg hop]
      exact hoperands
  | .access id name => by
    rw [expression]
    exact (variableOf_answers a id name).map
  | .element id name offset => by
    rw [expression]
    exact (variableOf_answers a id name).bind fun _ => (expression_answers a offset).map
  | .call id name args => by
    rw [expression]
    exact (functionOf_answers a id name).bind fun _ => (expressions_answers a args).map
  | .list _ es => by
    rw [expression]
    exact (expressions_answers a es).map

/-- Expressions are written from left to right. -/
theorem expressions_answers (a : Annotations) : (es : List Expr) →
    Answers a (Expr.needsOfList es) (expressions a es)
  | [] => by
    rw [expressions]
    exact .ok a _
  | e :: es => by
    rw [expressions]
    exact (expression_answers a e).bind fun _ => (expressions_answers a es).map

end

/-- A value is written if it is there. -/
theorem initializer_answers (a : Annotations) (value : Option Expr) :
    Answers a (Expr.needsOfOption value) (initializer a value) := by
  cases value with
  | none => exact .ok a _
  | some e => exact (expression_answers a e).map

/-- A declaration asks for its variable, and then writes its value. -/
theorem declaration_answers (a : Annotations) (id : NodeId) (name : String)
    (value : Option Expr) :
    Answers a (.var id name :: Expr.needsOfOption value) (declaration a id name value) :=
  (variableOf_answers a id name).bind fun _ => (initializer_answers a value).map

mutual

/-- What a statement needs is asked for in the order of `needs`. -/
theorem statement_answers (a : Annotations) (depth : Nat) : (s : Stmt) →
    Answers a s.needs (statement a depth s)
  | .expression e => by
    rw [statement]
    exact (expression_answers a e).map
  | .declaration id name _ value => by
    rw [statement]
    exact (declaration_answers a id name value).map
  | .assignment receiver value => by
    rw [statement]
    exact (expression_answers a receiver).bind fun _ => (expression_answers a value).map
  | .ifElse condition thenBody elseBody => by
    rw [statement]
    exact (expression_answers a condition).bind fun _ =>
      (block_answers a (depth + 1) thenBody).bind fun _ =>
        (block_answers a (depth + 1) elseBody).map
  | .switch condition arms => by
    rw [statement]
    exact (expression_answers a condition).bind fun _ => (cases_answers a (depth + 1) arms).map
  | .whileDo condition body => by
    rw [statement]
    refine (expression_answers a condition).bind fun _ =>
      (block_answers a (depth + 1) body).last fun _ => ?_
    split <;> exact ⟨_, rfl⟩
  | .returnWith value => by
    rw [statement]
    exact (expression_answers a value).map

/-- Statements are written in their order. -/
theorem block_answers (a : Annotations) (depth : Nat) : (body : List Stmt) →
    Answers a (Stmt.needsOfList body) (block a depth body)
  | [] => by
    rw [block]
    exact .ok a _
  | first :: rest => by
    rw [block]
    exact (statement_answers a depth first).bind fun _ => (block_answers a depth rest).map

/-- Arms are written in their order. -/
theorem cases_answers (a : Annotations) (depth : Nat) : (arms : List Case) →
    Answers a (Case.needsOfList arms) (cases a depth arms)
  | [] => by
    rw [cases]
    exact .ok a _
  | .mk (some value) body :: rest => by
    rw [cases]
    exact (expression_answers a value).bind fun _ =>
      (block_answers a (depth + 1) body).bind fun _ => (cases_answers a depth rest).map
  | .mk none body :: rest => by
    rw [cases]
    exact (block_answers a (depth + 1) body).bind fun _ => (cases_answers a depth rest).map

end

/-- A global asks for its variable, and then writes its value. -/
theorem field_answers (a : Annotations) (g : GlobalDecl) : Answers a g.needs (field a g) :=
  (variableOf_answers a g.id g.name).bind fun _ => (initializer_answers a g.value).map

/-- A function asks for itself, and then writes its body. -/
theorem method_answers (a : Annotations) (f : FunctionDecl) : Answers a f.needs (method a f) := by
  refine (functionOf_answers a f.id f.name).bind fun _ =>
    (block_answers a 2 f.body).last fun _ => ?_
  split <;> exact ⟨_, rfl⟩

/-- **The first need that is not met decides** whether a program can be written in Java. -/
theorem program_answers (a : Annotations) (p : Source) : Answers a p.needs (program a p) := by
  have hclass : Answers a p.needs (classLines a p) :=
    (Answers.mapM (field_answers a) p.globals).bind fun _ =>
      (Answers.mapM (method_answers a) p.functions).map
  exact hclass.map

/-- If all needs are met there is a text. -/
theorem exists_program {p : Source} (h : ∀ need ∈ p.needs, need.isMet a = true) :
    ∃ text, program a p = .ok text := by
  have hanswers := program_answers a p
  have hnone : p.needs.find? (!·.isMet a) = none := by
    rw [List.find?_eq_none]
    intro need hneed
    simp [h need hneed]
  rwa [Answers, hnone] at hanswers

end Java

/-! ### After a check nothing is missing -/

/-- What is needed is recorded for a node of this kind. -/
def Need.Of (n : Node) : Need → Prop
  | .type id => n.isTyped = true ∧ n.id = id
  | .var id _ => n.isVariable = true ∧ n.id = id
  | .function id _ => n.isFunction = true ∧ n.id = id

/-- All that is needed belongs to nodes that are visited. -/
def Visited (needs : List Need) (visits : List Visit) : Prop :=
  ∀ need ∈ needs, ∃ v ∈ visits, need.Of v.node

namespace Visited

variable {needs needs' : List Need} {visits visits' : List Visit}

/-- Nothing is needed. -/
theorem nil (visits : List Visit) : Visited [] visits := fun _ hneed => nomatch hneed

/-- Needs of two parts belong to the visits of both. -/
theorem append (h : Visited needs visits) (h' : Visited needs' visits') :
    Visited (needs ++ needs') (visits ++ visits') := by
  intro need hneed
  rcases List.mem_append.1 hneed with hneed | hneed
  · obtain ⟨v, hv, hof⟩ := h need hneed
    exact ⟨v, List.mem_append_left _ hv, hof⟩
  · obtain ⟨v, hv, hof⟩ := h' need hneed
    exact ⟨v, List.mem_append_right _ hv, hof⟩

/-- A node that needs nothing itself. -/
theorem skip (h : Visited needs visits) (v : Visit) : Visited needs (visits ++ [v]) := by
  have happend := h.append (nil [v])
  rwa [List.append_nil] at happend

/-- A node is asked for before what is inside it, and visited after. -/
theorem node {need : Need} {v : Visit} (h : Visited needs visits) (hneed : need.Of v.node) :
    Visited (need :: needs) (visits ++ [v]) := by
  intro need' hneed'
  rcases List.mem_cons.1 hneed' with rfl | hneed'
  · exact ⟨v, List.mem_append_right _ (List.mem_singleton_self v), hneed⟩
  · exact h.skip v need' hneed'

end Visited

mutual

/-- Nodes of an expression that need something are visited. -/
theorem Expr.needs_visited (s : Checker) : (e : Expr) → Visited e.needs (e.visits s)
  | .literal _ _ => .nil _
  | .group _ inner => (inner.needs_visited s).skip _
  | .binary id op left right => by
    have hoperands := (left.needs_visited s).append
      (right.needs_visited (after (Check.expression left) s))
    rw [Expr.needs, Expr.visits, ← List.append_assoc (left.visits s)]
    split
    · exact hoperands.node ⟨rfl, rfl⟩
    · exact hoperands.skip _
  | .access id _ => (Visited.nil []).node ⟨rfl, rfl⟩
  | .element id _ offset => (offset.needs_visited s).node ⟨rfl, rfl⟩
  | .call id _ args => (Expr.needsOfList_visited s args).node ⟨rfl, rfl⟩
  | .list _ es => (Expr.needsOfList_visited s es).skip _

/-- Nodes of expressions that need something are visited. -/
theorem Expr.needsOfList_visited (s : Checker) : (es : List Expr) →
    Visited (Expr.needsOfList es) (Expr.visitsOfList es s)
  | [] => .nil _
  | e :: es => (e.needs_visited s).append (Expr.needsOfList_visited _ es)

end

/-- Nodes of a value that need something are visited, if it is there. -/
theorem Expr.needsOfOption_visited (s : Checker) (value : Option Expr) :
    Visited (Expr.needsOfOption value) (Expr.visitsOfOption value s) := by
  cases value with
  | none => exact .nil _
  | some e => exact e.needs_visited s

mutual

/-- Nodes of a statement that need something are visited. -/
theorem Stmt.needs_visited (s : Checker) : (st : Stmt) → Visited st.needs (st.visits s)
  | .expression e => e.needs_visited s
  | .declaration _ _ _ value =>
    (Expr.needsOfOption_visited s value).node ⟨rfl, rfl⟩
  | .assignment receiver value => (receiver.needs_visited s).append (value.needs_visited _)
  | .ifElse condition thenBody elseBody => (condition.needs_visited s).append
    ((Stmt.needsOfList_visited _ thenBody).append (Stmt.needsOfList_visited _ elseBody))
  | .switch condition arms =>
    (condition.needs_visited s).append (Case.needsOfList_visited _ arms)
  | .whileDo condition body =>
    (condition.needs_visited s).append (Stmt.needsOfList_visited _ body)
  | .returnWith value => value.needs_visited s

/-- Nodes of a block that need something are visited. -/
theorem Stmt.needsOfList_visited (s : Checker) : (body : List Stmt) →
    Visited (Stmt.needsOfList body) (Stmt.visitsOfList body s)
  | [] => .nil _
  | first :: rest => (first.needs_visited s).append (Stmt.needsOfList_visited _ rest)

/-- Nodes of arms that need something are visited. -/
theorem Case.needsOfList_visited (s : Checker) : (arms : List Case) →
    Visited (Case.needsOfList arms) (Case.visitsOfList arms s)
  | [] => .nil _
  | .mk value body :: rest => (Expr.needsOfOption_visited s value).append
    ((Stmt.needsOfList_visited _ body).append (Case.needsOfList_visited _ rest))

end

/-- A global is visited, and so are the nodes of its value. -/
theorem GlobalDecl.needs_visited (g : GlobalDecl) (s : Checker) :
    Visited g.needs (g.visits s) := by
  refine Visited.node ?_ ⟨rfl, rfl⟩
  split
  · rename_i id es hvalue
    rw [hvalue]
    exact (Expr.needsOfList_visited s es).skip _
  · exact Expr.needsOfOption_visited s g.value

/-- A function is visited, and so are the nodes of its body. -/
theorem FunctionDecl.needs_visited (f : FunctionDecl) (s : Checker) :
    Visited f.needs (f.visits s) := by
  have hnode : Visited [.function f.id f.name] [⟨.function f, s⟩] :=
    (Visited.nil []).node ⟨rfl, rfl⟩
  exact hnode.append (Stmt.needsOfList_visited _ f.body)

/-- A step for each element of a list visits what the elements need. -/
theorem visitsOfSteps_visited {α : Type} {step : α → Check Unit}
    {visits : α → Checker → List Visit} {needs : α → List Need}
    (h : ∀ x s, Visited (needs x) (visits x s)) (xs : List α) (s : Checker) :
    Visited (xs.flatMap needs) (visitsOfSteps step visits xs s) := by
  induction xs generalizing s with
  | nil => exact .nil _
  | cons x xs ih =>
    rw [List.flatMap_cons]
    exact (h x s).append (ih _)

/-- All that a program needs belongs to nodes that its check visits. -/
theorem Source.needs_visited (p : Source) : Visited p.needs p.visits :=
  (visitsOfSteps_visited GlobalDecl.needs_visited p.globals _).append
    (visitsOfSteps_visited FunctionDecl.needs_visited p.functions _)

/-- What is recorded for the nodes that are visited meets the needs there. -/
theorem Annotations.Records.isMet {visits : List Visit} {a a' : Annotations}
    (h : Records visits a a') {need : Need} {v : Visit} (hv : v ∈ visits)
    (hof : need.Of v.node) : need.isMet a' = true := by
  cases need with
  | type id => exact h.types.isSome_of_mem ((Visit.mem_ids _ _).2 ⟨v, hv, hof⟩)
  | var id name => exact h.vars.isSome_of_mem ((Visit.mem_ids _ _).2 ⟨v, hv, hof⟩)
  | function id name => exact h.functions.isSome_of_mem ((Visit.mem_ids _ _).2 ⟨v, hv, hof⟩)

/-- Every program that is accepted can be written in Java. -/
theorem Source.exists_java_of_check {p : Source} {a : Annotations} (h : p.check = .ok a) :
    ∃ text, Pipeline.java p = .ok text := by
  have hmet : ∀ need ∈ p.needs, need.isMet a = true := by
    intro need hneed
    obtain ⟨v, hv, hof⟩ := p.needs_visited need hneed
    exact (Source.records_of_check h).isMet hv hof
  obtain ⟨text, htext⟩ := Java.exists_program hmet
  refine ⟨text, ?_⟩
  simp only [Pipeline.java, Pipeline.annotations, h, Except.mapError, bind, Except.bind, htext]

/-- **Checking records exactly what is needed later.**  Let a program be accepted.  If its
nodes are distinct, then each of them is visited once; the types are those of its
expressions, the variables those of globals, declarations and accesses, and the functions
those of functions and calls, each in the order of the visits and with nothing besides; and
what is recorded for a node is what was found when it was visited.  Distinct or not, the
program can be written in Java. -/
theorem check_records_exactly {p : Source} {a : Annotations} (hcheck : p.check = .ok a) :
    (p.nodes.Nodup →
      (p.visits.map (·.node.id)).Perm p.nodes ∧
        a.types.keys = p.expressions.map Expr.id ∧
          a.vars.keys = Visit.ids Node.isVariable p.visits ∧
            a.functions.keys = Visit.ids Node.isFunction p.visits ∧
              a.typeCount = p.expressions.length ∧
                a.bindingCount = p.visits.countP (·.node.isVariable) +
                  p.visits.countP (·.node.isFunction) ∧
                    ∀ v ∈ p.visits, v.Recorded a) ∧
      ∃ text, Pipeline.java p = .ok text := by
  refine ⟨fun hnodes => ?_, Source.exists_java_of_check hcheck⟩
  have hrecords := Source.records_of_check hcheck
  have hcovers := p.visits_covers
  have hnodup : (p.visits.map (·.node.id)).Nodup := hcovers.nodes.nodup_iff.2 hnodes
  have hids : ∀ test, (Visit.ids test p.visits).Nodup := fun test =>
    hnodup.sublist (Visit.ids_sublist test p.visits)
  have hkeys : ∀ {α : Type} {t : Table NodeId α} {test : Node → Bool},
      Table.Stores (Visit.ids test p.visits) .empty t → t.keys = Visit.ids test p.visits :=
    fun h => h.keys_eq (hids _) (List.disjoint_nil_left _)
  have hsize : ∀ {α : Type} {t : Table NodeId α} {test : Node → Bool},
      t.keys = Visit.ids test p.visits → t.size = p.visits.countP (test ·.node) := by
    intro α t test h
    rw [← Table.keys_length, h, Visit.ids, List.length_map, List.countP_eq_length_filter]
  have htypes := (hkeys hrecords.types).trans hcovers.typed
  have hvars := hkeys hrecords.vars
  have hfunctions := hkeys hrecords.functions
  refine ⟨hcovers.nodes, htypes, hvars, hfunctions, ?_, ?_, hrecords.recorded hnodup⟩
  · rw [Annotations.typeCount, ← Table.keys_length, htypes, List.length_map]
  · rw [Annotations.bindingCount, hsize hvars, hsize hfunctions]

/-- A list as a global, a variable that hides it, and a power. -/
theorem check_records_exactly_hidden_list :
    ∃ p next, Pipeline.sourceFrom 0 "LIST xs: Integer = [1, 2];
        FUN f(n: Integer): Integer DO LET xs = xs[n] ^ 2; RETURN xs; END
        FUN main(): Integer DO RETURN f(0); END" = .ok (p, next) ∧ p.nodes.Nodup ∧
      ∃ a, p.check = .ok a ∧ a.typeCount = 10 ∧ a.bindingCount = 8 ∧
        a.types.keys = p.expressions.map Expr.id ∧ (∀ v ∈ p.visits, v.Recorded a) ∧
          ∃ text, Pipeline.java p = .ok text := by
  obtain ⟨⟨p, next⟩, hread, hgood⟩ := exists_ok_of_any
    (fun ⟨p, _⟩ => p.check.toOption.any fun a => decide p.nodes.Nodup &&
      decide (a.typeCount = 10 ∧ a.bindingCount = 8))
    (show (Pipeline.sourceFrom 0 "LIST xs: Integer = [1, 2];
        FUN f(n: Integer): Integer DO LET xs = xs[n] ^ 2; RETURN xs; END
        FUN main(): Integer DO RETURN f(0); END").toOption.any _ = true by decide +kernel)
  obtain ⟨a, hcheck, hgood⟩ := exists_ok_of_any _ hgood
  obtain ⟨hnodup, hcounts⟩ := Bool.and_eq_true_iff.1 hgood
  obtain ⟨htypeCount, hbindingCount⟩ := of_decide_eq_true hcounts
  obtain ⟨hdistinct, hjava⟩ := check_records_exactly hcheck
  obtain ⟨-, htypes, -, -, -, -, hrecorded⟩ := hdistinct (of_decide_eq_true hnodup)
  exact ⟨p, next, hread, of_decide_eq_true hnodup, a, hcheck, htypeCount, hbindingCount, htypes,
    hrecorded, hjava⟩

end Scriptlet
