import Scriptlet.Proofs.NodeTree
import Scriptlet.Proofs.Progress

/-!
# How a reader numbers nodes

A rule hands out consecutive numbers, and the nodes of what it reads have just these numbers,
in the order of `nodes`: inner nodes first, from left to right (`Rule.Numbers`).  This is
followed through all rules, for any tokens.  The nodes that a rule has read before it reads
on are an argument of `Numbers`, so a rule that reads its parts one after the other is a
chain of `bind`s.

A program keeps its globals and functions apart, and they may have been mixed; `Cursor.ReadsItems`
says in which order they were read.
-/

namespace Scriptlet

/-- On the way from `c` to `c'` the numbers `ids` were handed out, one after the other. -/
structure Cursor.HandsOut (c c' : Cursor) (ids : List NodeId) : Prop where
  consecutive : ids = List.range' c.nextId ids.length
  next : c'.nextId = c.nextId + ids.length

namespace Cursor.HandsOut

variable {c c' c'' : Cursor} {ids ids' : List NodeId}

/-- No number is handed out if the next one stays the same. -/
theorem none (h : c'.nextId = c.nextId) : c.HandsOut c' [] := ⟨rfl, h⟩

/-- Numbers that are handed out one after the other. -/
theorem trans (h : c.HandsOut c' ids) (h' : c'.HandsOut c'' ids') :
    c.HandsOut c'' (ids ++ ids') where
  consecutive := by
    rw [List.length_append, ← List.range'_append_1, ← h.consecutive, ← h.next, ← h'.consecutive]
  next := by rw [h'.next, h.next, List.length_append, Nat.add_assoc]

/-- The numbers reach from one counter to the other. -/
theorem eq_range' (h : c.HandsOut c' ids) : ids = List.range' c.nextId (c'.nextId - c.nextId) := by
  rw [h.next, Nat.add_sub_cancel_left]
  exact h.consecutive

/-- The numbers handed out are those from the first up to the next one. -/
theorem mem_iff (h : c.HandsOut c' ids) {id : NodeId} :
    id ∈ ids ↔ c.nextId ≤ id ∧ id < c'.nextId := by
  rw [h.consecutive, List.mem_range'_1, h.next]

/-- Numbers are handed out in increasing order, so no two are the same. -/
theorem pairwise_lt (h : c.HandsOut c' ids) : ids.Pairwise (· < ·) := by
  rw [h.consecutive]
  exact List.pairwise_lt_range'

end Cursor.HandsOut

namespace Rule

variable {α β : Type} {before : List NodeId}

/-- What the rule reads has the nodes `before`, and after them those that the rule numbers. -/
def Numbers (r : Rule α) (before : List NodeId) (nodes : α → List NodeId) : Prop :=
  ∀ c x c', r c = .ok x c' → ∃ ids, c.HandsOut c' ids ∧ nodes x = before ++ ids

namespace Numbers

variable {r : Rule α} {nodes : α → List NodeId}

/-- A result whose nodes have all been read. -/
theorem pure {a : α} (h : nodes a = before) : Numbers (pure a : Rule α) before nodes := by
  intro c x c' hr
  cases hr
  exact ⟨[], .none rfl, by rw [h, List.append_nil]⟩

/-- A rule that fails has no result to number. -/
theorem fail (fault : ParseFault) : Numbers (fail fault : Rule α) before nodes := by
  intro c x c' hr
  cases hr

/-- Nothing is numbered after a failure. -/
theorem failThen (fault : ParseFault) (f : β → Rule α) :
    Numbers (Rule.fail fault >>= f) before nodes := by
  intro c x c' hr
  cases hr

/-- The second rule goes on with the nodes that the first has read. -/
theorem bind {x : Rule α} {f : α → Rule β} {nodes' : β → List NodeId} (hx : Numbers x before nodes)
    (hf : ∀ a, Numbers (f a) (nodes a) nodes') : Numbers (x >>= f) before nodes' := by
  intro c y c'' hy
  obtain ⟨a, c', ha, hfa⟩ := bind_ok.1 hy
  obtain ⟨ids, hids, hnodes⟩ := hx c a c' ha
  obtain ⟨ids', hids', hnodes'⟩ := hf a c' y c'' hfa
  exact ⟨ids ++ ids', hids.trans hids', by rw [hnodes', hnodes, List.append_assoc]⟩

/-- A rule that is run after others. -/
theorem following (h : Numbers r [] nodes) (before : List NodeId) :
    Numbers r before fun x => before ++ nodes x := by
  intro c x c' hr
  obtain ⟨ids, hids, hnodes⟩ := h c x c' hr
  exact ⟨ids, hids, congrArg (before ++ ·) hnodes⟩

/-- A rule that numbers nothing. -/
theorem of_still (h : ∀ c x c', r c = .ok x c' → c'.nextId = c.nextId) :
    Numbers r before fun _ => before := fun c x c' hr =>
  ⟨[], .none (h c x c' hr), (List.append_nil _).symm⟩

/-- Both branches number what they read. -/
theorem ite {b : Prop} [Decidable b] {yes no : Rule α} (hyes : Numbers yes before nodes)
    (hno : Numbers no before nodes) : Numbers (if b then yes else no) before nodes := by
  split
  · exact hyes
  · exact hno

/-- The number that is handed out comes after those of the nodes before. -/
theorem freshId : Numbers freshId before fun id => before ++ [id] := by
  intro c x c' hr
  cases hr
  exact ⟨[c.nextId], ⟨rfl, rfl⟩, rfl⟩

/-- To look at the next token hands out no number. -/
theorem peek (literal : String) : Numbers (peek literal) before fun _ => before :=
  of_still fun _ _ _ hr => by cases hr; rfl

/-- To look for the end of a block hands out no number. -/
theorem peekBlockEnd : Numbers peekBlockEnd before fun _ => before :=
  of_still fun _ _ _ hr => by cases hr; rfl

/-- To ask for the end of the text hands out no number. -/
theorem atEnd : Numbers atEnd before fun _ => before :=
  of_still fun _ _ _ hr => by cases hr; rfl

/-- To count the tokens hands out no number. -/
theorem remaining : Numbers remaining before fun _ => before :=
  of_still fun _ _ _ hr => by cases hr; rfl

/-- To ask for a token hands out no number. -/
theorem accept (literal : String) : Numbers (accept literal) before fun _ => before := by
  refine of_still fun c x c' hr => ?_
  rcases accept_cases literal c with ⟨t, rest, -, -, h⟩ | ⟨-, h⟩
  all_goals
    cases h.symm.trans hr
    rfl

/-- To ask for an operator hands out no number; the node is made after both operands. -/
theorem operator? (level : Level) : Numbers (operator? level) before fun _ => before := by
  refine of_still fun c x c' hr => ?_
  rcases operator?_cases level c with h | ⟨op, t, rest, -, -, h⟩
  all_goals
    cases h.symm.trans hr
    rfl

/-- A name is no node. -/
theorem name (what : String) : Numbers (name what) before fun _ => before := by
  refine of_still fun c x c' hr => ?_
  unfold Rule.name at hr
  split at hr
  · cases hr
  · split at hr
    · cases hr
      rfl
    · cases hr

/-- Reading a token first changes no number. -/
theorem ifAccept {literal : String} {yes no : Rule α} (hyes : Numbers yes before nodes)
    (hno : Numbers no before nodes) :
    Numbers (do if ← Rule.accept literal then yes else no) before nodes :=
  (accept literal).bind fun _ => hyes.ite hno

/-- Looking at a token first changes no number. -/
theorem ifPeek {literal : String} {yes no : Rule α} (hyes : Numbers yes before nodes)
    (hno : Numbers no before nodes) :
    Numbers (do if ← Rule.peek literal then yes else no) before nodes :=
  (peek literal).bind fun _ => hyes.ite hno

/-- Asking for the end first changes no number. -/
theorem ifAtEnd {yes no : Rule α} (hyes : Numbers yes before nodes)
    (hno : Numbers no before nodes) :
    Numbers (do if ← Rule.atEnd then yes else no) before nodes :=
  atEnd.bind fun _ => hyes.ite hno

/-- A token that must be there is no node. -/
theorem expect (literal what : String) : Numbers (expect literal what) before fun _ => before :=
  ifAccept (pure rfl) (fail _)

/-- The token is no node, so the rule after it numbers all. -/
theorem expectThen {literal what : String} (h : Numbers r before nodes) :
    Numbers (do Rule.expect literal what; r) before nodes :=
  (expect literal what).bind fun _ => h

/-- The name is no node, so the rule after it numbers all. -/
theorem nameThen {what : String} {f : String → Rule α} (h : ∀ s, Numbers (f s) before nodes) :
    Numbers (Rule.name what >>= f) before nodes := (name what).bind h

/-- What is read last is put into a tree. -/
theorem thenPure {nodes' : β → List NodeId} {f : α → β} (h : Numbers r before nodes)
    (hf : ∀ a, nodes' (f a) = nodes a) :
    Numbers (r >>= fun a => Pure.pure (f a)) before nodes' := h.bind fun a => pure (hf a)

/-- A node gets its number last. -/
theorem node {nodes : α → List NodeId} {f : NodeId → α}
    (hf : ∀ id, nodes (f id) = before ++ [id]) :
    Numbers (Rule.freshId >>= fun id => Pure.pure (f id)) before nodes := freshId.thenPure hf

/-- A result that is changed without changing its nodes. -/
theorem map {nodes' : β → List NodeId} {f : α → β} (h : Numbers r before nodes)
    (hf : ∀ a, nodes' (f a) = nodes a) : Numbers (f <$> r) before nodes' := by
  rw [map_eq_bind]
  exact h.thenPure hf

end Numbers

/-! ### Expressions -/

/-- A literal is one node. -/
theorem literal_numbers (v : Literal) : Numbers (literal v) [] Expr.nodes := .node fun _ => rfl

section Inner

variable {inner : Rule Expr} (hinner : Numbers inner [] Expr.nodes)
include hinner

/-- Elements are numbered from left to right. -/
theorem commaSeparated_numbers (close what : String) (n : Nat) :
    Numbers (commaSeparated inner close what n) [] Expr.nodesOfList := by
  induction n with
  | zero => exact .fail _
  | succ n ih =>
    refine hinner.bind fun value => .ifAccept (.pure (List.append_nil _)) (.ifAccept ?_ ?_)
    · exact .ifPeek (.failThen _ _) ((ih.following value.nodes).thenPure fun _ => rfl)
    · exact .failThen _ _

/-- Elements are numbered from left to right; an empty list has none. -/
theorem separated_numbers (close what : String) :
    Numbers (separated inner close what) [] Expr.nodesOfList :=
  .ifAccept (.pure rfl) (Numbers.remaining.bind (commaSeparated_numbers hinner close what))

/-- After a name: arguments or an index are numbered before the node itself. -/
theorem nameTail_numbers (name : String) : Numbers (nameTail inner name) [] Expr.nodes := by
  refine .ifAccept ?_ (.ifAccept ?_ (.node fun _ => rfl))
  · exact (separated_numbers hinner _ _).bind fun _ => .node fun _ => rfl
  · exact hinner.bind fun _ => .expectThen (.node fun _ => rfl)

/-- A primary expression is numbered after its first token was read. -/
theorem primaryAfter_numbers (t : Token) : Numbers (primaryAfter inner t) [] Expr.nodes := by
  unfold primaryAfter
  split
  · exact nameTail_numbers hinner t.literal
  · split
    · exact literal_numbers _
    · intro c e c' hr
      cases hr

/-- Literals, variables, calls and elements. -/
theorem primaryByKind_numbers : Numbers (primaryByKind inner) [] Expr.nodes := by
  intro c e c' hr
  cases hrest : c.rest with
  | nil => cases (primaryByKind_nil inner hrest).symm.trans hr
  | cons t rest =>
    by_cases hkind : t.kind = .operator
    · cases (primaryByKind_operator inner hrest hkind).symm.trans hr
    · rw [primaryByKind_other inner hrest hkind] at hr
      obtain ⟨ids, hids, hnodes⟩ := primaryAfter_numbers hinner t _ e c' hr
      -- reading the token hands out no number
      exact ⟨ids, ⟨hids.consecutive, hids.next⟩, hnodes⟩

/-- Brackets are no node of their own. -/
theorem primaryOver_numbers : Numbers (primaryOver inner) [] Expr.nodes := by
  have hliteral : ∀ v, Numbers (literal v >>= fun e => pure e) [] Expr.nodes := fun v =>
    (literal_numbers v).thenPure fun _ => rfl
  refine .ifAccept (hliteral _) (.ifAccept (hliteral _) (.ifAccept (hliteral _) (.ifAccept ?_ ?_)))
  · exact hinner.bind fun _ => .expectThen (.node fun _ => rfl)
  · exact primaryByKind_numbers hinner

end Inner

/-- The operands of a chain that were read come before the others. -/
theorem chainTail_numbers {operand : Rule Expr} (h : Numbers operand [] Expr.nodes) (level : Level)
    (n : Nat) : ∀ left : Expr, Numbers (chainTail level operand n left) left.nodes Expr.nodes := by
  induction n with
  | zero => exact fun left => .pure rfl
  | succ n ih =>
    intro left
    refine (Numbers.operator? level).bind fun op => ?_
    cases op with
    | none => exact .pure rfl
    | some op =>
      refine (h.following left.nodes).bind fun right => Numbers.freshId.bind fun id => ?_
      rw [List.append_assoc]
      exact ih (.binary id op left right)

/-- The first operand is numbered before the others. -/
theorem chain_numbers {operand : Rule Expr} (h : Numbers operand [] Expr.nodes) (level : Level) :
    Numbers (chain level operand) [] Expr.nodes :=
  h.bind fun left => Numbers.remaining.bind fun n => chainTail_numbers h level n left

/-- All levels of operators, from a primary expression up. -/
theorem logicalOver_numbers {primary : Rule Expr} (h : Numbers primary [] Expr.nodes) :
    Numbers (logicalOver primary) [] Expr.nodes :=
  chain_numbers (chain_numbers (chain_numbers (chain_numbers h _) _) _) _

/-- Expressions to some depth of brackets. -/
theorem expressionWithin_numbers (n : Nat) : Numbers (expressionWithin n) [] Expr.nodes := by
  induction n with
  | zero => exact .fail _
  | succ n ih => exact logicalOver_numbers (primaryOver_numbers ih)

/-- The nodes of an expression have consecutive numbers, its parts first. -/
theorem expression_numbers : Numbers expression [] Expr.nodes :=
  Numbers.remaining.bind expressionWithin_numbers

/-! ### Statements -/

/-- A type is no node. -/
theorem typeAnnotation_numbers : Numbers typeAnnotation before fun _ => before :=
  .ifAccept ((Numbers.name _).map fun _ => rfl) (.pure rfl)

/-- A value that need not be there. -/
theorem initializer_numbers : Numbers initializer [] Expr.nodesOfOption :=
  .ifAccept (expression_numbers.map fun _ => rfl) (.pure rfl)

/-- A declaration is numbered after its value. -/
theorem declaration_numbers : Numbers declaration [] Stmt.nodes :=
  .expectThen (.nameThen fun _ => typeAnnotation_numbers.bind fun _ =>
    initializer_numbers.bind fun _ => .expectThen (.node fun _ => rfl))

/-- A `RETURN` has the nodes of its expression. -/
theorem returnStatement_numbers : Numbers returnStatement [] Stmt.nodes :=
  .expectThen (expression_numbers.bind fun _ => .expectThen (.pure rfl))

/-- An assignment has the nodes of both sides. -/
theorem expressionStatement_numbers : Numbers expressionStatement [] Stmt.nodes := by
  refine expression_numbers.bind fun receiver => .ifAccept ?_ (.expectThen (.pure rfl))
  exact (expression_numbers.following receiver.nodes).bind fun _ => .expectThen (.pure rfl)

/-- Statements are numbered in their order. -/
theorem blockWithin_numbers {statement : Rule Stmt} (h : Numbers statement [] Stmt.nodes)
    (n : Nat) : Numbers (blockWithin statement n) [] Stmt.nodesOfList := by
  induction n with
  | zero => exact .fail _
  | succ n ih =>
    refine Numbers.peekBlockEnd.bind fun _ => .ite (.pure rfl) (.ifAtEnd (.failThen _ _) ?_)
    exact h.bind fun first => (ih.following first.nodes).thenPure fun _ => rfl

/-- Statements are numbered in their order. -/
theorem blockOver_numbers {statement : Rule Stmt} (h : Numbers statement [] Stmt.nodes) :
    Numbers (blockOver statement) [] Stmt.nodesOfList :=
  Numbers.remaining.bind (blockWithin_numbers h)

section Block

variable {block : Rule (List Stmt)} (hblock : Numbers block [] Stmt.nodesOfList)
include hblock

/-- The condition first, then the branches. -/
theorem ifOver_numbers : Numbers (ifOver block) [] Stmt.nodes := by
  refine .expectThen (expression_numbers.bind fun condition => .expectThen ?_)
  refine (hblock.following condition.nodes).bind fun thenBody => ?_
  -- a branch that is left out is a block without nodes
  have hempty : Numbers (pure [] : Rule (List Stmt)) [] Stmt.nodesOfList := .pure rfl
  have hpure := hempty.following (condition.nodes ++ Stmt.nodesOfList thenBody)
  exact .ifAccept
    ((hblock.following _).bind fun _ => .expectThen (.pure (List.append_assoc ..).symm))
    (hpure.bind fun _ => .expectThen (.pure (List.append_assoc ..).symm))

/-- The condition first, then the body. -/
theorem whileOver_numbers : Numbers (whileOver block) [] Stmt.nodes :=
  .expectThen (expression_numbers.bind fun condition => .expectThen
    ((hblock.following condition.nodes).bind fun _ => .expectThen (.pure rfl)))

/-- The value of the arm first, if there is one, then its body. -/
theorem caseOver_numbers : Numbers (caseOver block) [] fun arm => Case.nodesOfList [arm] := by
  refine .ifAccept (expression_numbers.bind fun value => .expectThen ?_) (.expectThen ?_)
  · exact (hblock.following value.nodes).thenPure fun _ => by
      simp [Case.nodesOfList, Expr.nodesOfOption]
  · exact hblock.thenPure fun _ => by simp [Case.nodesOfList, Expr.nodesOfOption]

/-- Arms are numbered in their order. -/
theorem casesWithin_numbers (n : Nat) : Numbers (casesWithin block n) [] Case.nodesOfList := by
  have hcase := caseOver_numbers hblock
  induction n with
  | zero => exact hcase.thenPure fun _ => rfl
  | succ n ih =>
    refine .ifPeek (hcase.bind fun first => ?_) (hcase.thenPure fun _ => rfl)
    refine (ih.following _).thenPure fun _ => ?_
    cases first with
    | mk value body => simp [Case.nodesOfList]

/-- What is switched on first, then the arms. -/
theorem switchOver_numbers : Numbers (switchOver block) [] Stmt.nodes :=
  .expectThen (expression_numbers.bind fun condition => Numbers.remaining.bind fun n =>
    ((casesWithin_numbers hblock n).following condition.nodes).bind fun _ =>
      .expectThen (.pure rfl))

/-- Every statement, by its first word. -/
theorem statementOver_numbers : Numbers (statementOver block) [] Stmt.nodes :=
  .ifPeek declaration_numbers (.ifPeek (ifOver_numbers hblock) (.ifPeek
    (switchOver_numbers hblock) (.ifPeek (whileOver_numbers hblock) (.ifPeek
      returnStatement_numbers expressionStatement_numbers))))

end Block

/-- Statements to some depth of blocks. -/
theorem statementWithin_numbers (n : Nat) : Numbers (statementWithin n) [] Stmt.nodes := by
  induction n with
  | zero => exact .fail _
  | succ n ih => exact statementOver_numbers (blockOver_numbers ih)

/-- The nodes of a block have consecutive numbers. -/
theorem block_numbers : Numbers block [] Stmt.nodesOfList :=
  Numbers.remaining.bind fun n => blockOver_numbers (statementWithin_numbers n)

/-! ### Programs -/

/-- The elements, the list and the declaration, in this order. -/
theorem listGlobal_numbers : Numbers listGlobal [] GlobalDecl.nodes := by
  refine .nameThen fun _ => .expectThen (.nameThen fun _ => .expectThen (.expectThen ?_))
  exact (separated_numbers expression_numbers _ _).bind fun _ => Numbers.freshId.bind fun _ =>
    .node fun _ => rfl

/-- The value first, if there is one, then the declaration. -/
theorem mutableGlobal_numbers : Numbers mutableGlobal [] GlobalDecl.nodes :=
  .nameThen fun _ => typeAnnotation_numbers.bind fun _ => initializer_numbers.bind fun _ =>
    .node fun _ => rfl

/-- The value first, then the declaration. -/
theorem immutableGlobal_numbers : Numbers immutableGlobal [] GlobalDecl.nodes :=
  .nameThen fun _ => typeAnnotation_numbers.bind fun _ => .expectThen
    (expression_numbers.bind fun _ => .node fun _ => rfl)

/-- The nodes of a global have consecutive numbers. -/
theorem global_numbers : Numbers global [] GlobalDecl.nodes := by
  have hbody : Numbers globalBody [] GlobalDecl.nodes := .ifAccept listGlobal_numbers
    (.ifAccept mutableGlobal_numbers (.ifAccept immutableGlobal_numbers (.fail _)))
  exact hbody.bind fun _ => .expectThen (.pure rfl)

/-- Parameters are no nodes. -/
theorem parametersWithin_numbers (n : Nat) :
    Numbers (parametersWithin n) before fun _ => before := by
  induction n with
  | zero => exact .fail _
  | succ n ih =>
    refine .nameThen fun _ => .expectThen (.nameThen fun _ => .ifAccept (.pure rfl) ?_)
    exact .expectThen (ih.thenPure fun _ => rfl)

/-- The body first, then the declaration. -/
theorem function_numbers : Numbers function [] FunctionDecl.nodes := by
  have hend : ∀ (name : String) (parameters : List (String × String)), Numbers (do
      let returnTypeName ← typeAnnotation
      expect "DO" "DO"
      let body ← block
      expect "END" "END"
      return (⟨← freshId, name, parameters.map Prod.fst, parameters.map Prod.snd, returnTypeName,
        body⟩ : FunctionDecl)) [] FunctionDecl.nodes := fun _ _ =>
    typeAnnotation_numbers.bind fun _ => .expectThen (block_numbers.bind fun _ =>
      .expectThen (.node fun _ => rfl))
  refine .expectThen (.nameThen fun _ => .expectThen (.ifAccept ?_ ?_))
  · exact Numbers.bind (.pure rfl) fun _ => hend _ _
  · exact Numbers.remaining.bind fun n => (parametersWithin_numbers n).bind fun _ => hend _ _

end Rule

/-! ### Globals and functions in the order of the text -/

/-- A part of a program. -/
inductive Item where
  | global (decl : GlobalDecl)
  | function (decl : FunctionDecl)

/-- The tree of a part of a program. -/
def Item.tree : Item → NodeTree
  | .global g => g.tree
  | .function f => f.tree

/-- The program with these parts: a program keeps globals and functions apart. -/
def Source.ofItems : List Item → Source
  | [] => ⟨[], []⟩
  | .global g :: items => ⟨g :: (ofItems items).globals, (ofItems items).functions⟩
  | .function f :: items => ⟨(ofItems items).globals, f :: (ofItems items).functions⟩

/-- The parts of a program that are read one after the other between two cursors. -/
inductive Cursor.ReadsItems : Cursor → List Item → Cursor → Prop where
  | done (c : Cursor) : ReadsItems c [] c
  | global {c c' c'' : Cursor} {g : GlobalDecl} {items : List Item} :
    Rule.global c = .ok g c' → ReadsItems c' items c'' → ReadsItems c (.global g :: items) c''
  | function {c c' c'' : Cursor} {f : FunctionDecl} {items : List Item} :
    Rule.function c = .ok f c' → ReadsItems c' items c'' → ReadsItems c (.function f :: items) c''

/-- The trees of the parts are the trees of the program, in another order. -/
theorem Source.trees_ofItems (items : List Item) :
    (Source.ofItems items).trees.Perm (items.map Item.tree) := by
  induction items with
  | nil => exact .refl []
  | cons item items ih =>
    cases item with
    | global g => exact ih.cons g.tree
    | function f => exact List.perm_middle.trans (ih.cons f.tree)

/-- A program is made of the globals and functions that were read, in any order. -/
theorem Rule.sourceWithin_readsItems (n : Nat) : ∀ {c c' : Cursor} {p : Source},
    sourceWithin n c = .ok p c' → ∃ items, c.ReadsItems items c' ∧ p = .ofItems items := by
  induction n with
  | zero =>
    intro c c' p h
    cases h
    exact ⟨[], .done c, rfl⟩
  | succ n ih =>
    intro c c' p h
    obtain ⟨done, c₀, hdone, h⟩ := bind_ok.1 h
    cases hdone
    cases hd : c.isDone with
    | true =>
      rw [hd] at h
      cases h
      exact ⟨[], .done c, rfl⟩
    | false =>
      rw [hd] at h
      -- looking at the first word leaves the cursor where it is
      have h : (if (c.sees "LIST" || c.sees "VAR" || c.sees "VAL") = true then _ else _ : Rule _) c
        = _ := h
      split at h
      · obtain ⟨g, c₁, hg, h⟩ := bind_ok.1 h
        obtain ⟨p', c₂, hp', h⟩ := bind_ok.1 h
        cases h
        obtain ⟨items, hitems, rfl⟩ := ih hp'
        exact ⟨.global g :: items, .global hg hitems, rfl⟩
      · have h : (if c.sees "FUN" = true then _ else _ : Rule _) c = _ := h
        split at h
        · obtain ⟨f, c₁, hf, h⟩ := bind_ok.1 h
          obtain ⟨p', c₂, hp', h⟩ := bind_ok.1 h
          cases h
          obtain ⟨items, hitems, rfl⟩ := ih hp'
          exact ⟨.function f :: items, .function hf hitems, rfl⟩
        · cases h

/-- The parts of a program are numbered one after the other. -/
theorem Cursor.ReadsItems.handsOut {c c' : Cursor} {items : List Item} (h : c.ReadsItems items c') :
    c.HandsOut c' ((NodeTree.postorderOfList (items.map Item.tree)).map Node.id) := by
  have hpart : ∀ {c c' c'' : Cursor} {items : List Item} {t : NodeTree} {nodes : List NodeId},
      (∃ ids, c.HandsOut c' ids ∧ nodes = [] ++ ids) → t.postorder.map Node.id = nodes →
      c'.HandsOut c'' ((NodeTree.postorderOfList (items.map Item.tree)).map Node.id) →
      c.HandsOut c'' ((NodeTree.postorderOfList (t :: items.map Item.tree)).map Node.id) := by
    rintro c c' c'' items t nodes ⟨ids, hids, rfl⟩ hnodes hrest
    rw [NodeTree.postorderOfList, List.map_append, hnodes]
    exact hids.trans hrest
  induction h with
  | done c => exact .none rfl
  | @global c c' c'' g items hg _ ih =>
    exact hpart (Rule.global_numbers c g c' hg) g.postorder_tree ih
  | @function c c' c'' f items hf _ ih =>
    exact hpart (Rule.function_numbers c f c' hf) f.postorder_tree ih

/-- **The nodes of a program are numbered one after the other as they are finished.**  The
parts of the program, in the order in which they were read, form a forest; in postorder its ids
are `n`, `n + 1` and so on up to the counter that is left.  So the ids of the program are
distinct and are just those numbers, every node has a greater id than the nodes inside it, and
siblings have increasing ids. -/
theorem source_numbered_in_postorder {tokens : List Token} {n : NodeId} {p : Source} {c : Cursor}
    (h : Rule.source (.ofTokens tokens n) = .ok p c) :
    p.nodes.Nodup ∧ (∀ id, id ∈ p.nodes ↔ n ≤ id ∧ id < c.nextId) ∧
      ∃ items, (Cursor.ofTokens tokens n).ReadsItems items c ∧ p = .ofItems items ∧
        (NodeTree.postorderOfList (items.map Item.tree)).map Node.id =
          List.range' n (c.nextId - n) ∧
        NodeTree.Ascending (items.map Item.tree) := by
  obtain ⟨items, hreads, rfl⟩ := Rule.sourceWithin_readsItems tokens.length h
  have hids := hreads.handsOut
  have hperm : (Source.ofItems items).nodes.Perm
      ((NodeTree.postorderOfList (items.map Item.tree)).map Node.id) := by
    rw [← Source.postorder_trees]
    exact (NodeTree.postorderOfList_perm (Source.trees_ofItems items)).map Node.id
  refine ⟨?_, fun id => ?_, items, hreads, rfl, hids.eq_range', ?_⟩
  · exact hperm.nodup_iff.2 (hids.pairwise_lt.imp Nat.ne_of_lt)
  · exact hperm.mem_iff.trans hids.mem_iff
  · exact .of_postorder (List.pairwise_map.1 hids.pairwise_lt)

/-- A function, in whose value the product is inside the sum, and after it a global: the numbers
from 7 on go to the function first, although programs list their globals first. -/
theorem source_numbered_in_postorder_mixed :
    ∃ p c, Rule.source (.ofTokens [⟨.identifier, "FUN", 0⟩, ⟨.identifier, "f", 4⟩,
        ⟨.operator, "(", 5⟩, ⟨.operator, ")", 6⟩, ⟨.identifier, "DO", 8⟩,
        ⟨.identifier, "RETURN", 11⟩, ⟨.identifier, "x", 18⟩, ⟨.operator, "+", 19⟩,
        ⟨.identifier, "y", 20⟩, ⟨.operator, "*", 21⟩, ⟨.identifier, "z", 22⟩,
        ⟨.operator, ";", 23⟩, ⟨.identifier, "END", 25⟩, ⟨.identifier, "VAR", 29⟩,
        ⟨.identifier, "x", 33⟩, ⟨.operator, ";", 34⟩] 7) = .ok p c ∧
      p.nodes = [13, 7, 8, 9, 10, 11, 12] ∧ c.nextId = 14 ∧ p.nodes.Nodup ∧
      ∀ id, id ∈ p.nodes ↔ 7 ≤ id ∧ id < c.nextId := by
  refine ⟨⟨[⟨13, "x", none, true, none⟩], [⟨12, "f", [], [], none, [.returnWith (.binary 11 .add
    (.access 7 "x") (.binary 10 .multiply (.access 8 "y") (.access 9 "z")))]⟩]⟩, ⟨[], 35, 14⟩, ?_⟩
  refine (and_iff_left_of_imp fun h => ?_).2 rfl
  obtain ⟨hnodup, hids, -⟩ := source_numbered_in_postorder h
  exact ⟨rfl, rfl, hnodup, hids⟩

end Scriptlet
