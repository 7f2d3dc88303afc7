import Scriptlet.Parsing.Program
import Scriptlet.Proofs.Outcome

/-!
# Rules move forward

A rule reads some of the tokens in front of it, also if it fails, and goes to the position
after the last of them; it never goes back.  Every rule but those for blocks and programs
reads at least one token if it has a result.  This holds for any tokens, whether or not they
come from a text.
-/

namespace Scriptlet

/-- The position after some tokens, which is `stop` if there are none. -/
def stopAfter (stop : Nat) (ts : List Token) : Nat := (ts.getLast?.map Token.stop).getD stop

/-- The position after tokens and more tokens is that after the second lot, from the end of the
first. -/
theorem stopAfter_append (stop : Nat) (ts us : List Token) :
    stopAfter stop (ts ++ us) = stopAfter (stopAfter stop ts) us := by
  unfold stopAfter
  rw [List.getLast?_append]
  cases us.getLast? <;> rfl

namespace Rule

variable {α β : Type}

/-- To change a result is to read it and go on with the changed one. -/
theorem map_eq_bind (f : α → β) (r : Rule α) : f <$> r = r >>= fun a => pure (f a) := by
  funext c
  show EStateM.map f r c = EStateM.bind r _ c
  unfold EStateM.map EStateM.bind
  cases r c <;> rfl

/-- The token is there and is read, or it is not there. -/
theorem accept_cases (literal : String) (c : Cursor) :
    (∃ t rest, c.rest = t :: rest ∧ t.literal = literal ∧
      accept literal c = .ok true (c.past t rest)) ∨
    (c.sees literal = false ∧ accept literal c = .ok false c) := by
  unfold accept
  cases hrest : c.rest with
  | nil => exact .inr ⟨by simp [Cursor.sees, hrest], rfl⟩
  | cons t rest =>
    by_cases ht : t.literal = literal
    · exact .inl ⟨t, rest, rfl, ht, if_pos ht⟩
    · exact .inr ⟨by simp [Cursor.sees, hrest, ht], if_neg ht⟩

/-- A rule that first asks for a token: it goes on after the token, or without it. -/
theorem ifAccept_cases (literal : String) (yes no : Rule α) (c : Cursor) :
    (∃ t rest, c.rest = t :: rest ∧ t.literal = literal ∧
      (do if ← accept literal then yes else no : Rule α) c = yes (c.past t rest)) ∨
    (c.sees literal = false ∧ (do if ← accept literal then yes else no : Rule α) c = no c) := by
  rcases accept_cases literal c with ⟨t, rest, hrest, ht, h⟩ | ⟨hsees, h⟩
  · exact .inl ⟨t, rest, hrest, ht, bind_eq h _⟩
  · exact .inr ⟨hsees, bind_eq h _⟩

/-- The operator of a level that a token is. -/
def operatorOf (level : Level) (t : Token) : Option BinaryOp :=
  if t.kind = .operator then (BinaryOp.ofSymbol? t.literal).filter (·.level = level) else none

/-- An operator of the level is read if it is the next token, and otherwise nothing. -/
theorem operator?_cons {c : Cursor} {t : Token} {rest : List Token} (level : Level)
    (h : c.rest = t :: rest) :
    operator? level c = match operatorOf level t with
      | some op => .ok (some op) (c.past t rest)
      | none => .ok none c := by
  rw [operator?, h, operatorOf]
  by_cases hkind : t.kind = .operator
  · simp only [if_pos hkind]
    cases BinaryOp.ofSymbol? t.literal with
    | none => rfl
    | some op => by_cases hlevel : op.level = level <;> simp [Option.filter, hlevel]
  · simp only [if_neg hkind]

/-- An operator of the level stands in front, or none. -/
theorem operator?_cases (level : Level) (c : Cursor) :
    operator? level c = .ok none c ∨ ∃ op t rest, c.rest = t :: rest ∧
      operatorOf level t = some op ∧ operator? level c = .ok (some op) (c.past t rest) := by
  cases hrest : c.rest with
  | nil =>
    refine .inl ?_
    rw [operator?, hrest]
  | cons t rest =>
    have h := operator?_cons level hrest
    cases hop : operatorOf level t with
    | none =>
      rw [hop] at h
      exact .inl h
    | some op =>
      rw [hop] at h
      exact .inr ⟨op, t, rest, rfl, hop, h⟩

/-- A rule reads tokens in front of it, and at least `k` of them if it has a result. -/
def Advances (k : Nat) (r : Rule α) : Prop :=
  ∀ c, ∃ ts, c.rest = ts ++ (after r c).rest ∧ (after r c).stop = stopAfter c.stop ts ∧
    ∀ a d, r c = .ok a d → k ≤ ts.length

namespace Advances

variable {k l : Nat} {r : Rule α}

/-- What is left is a tail of what was there. -/
theorem suffix (h : Advances k r) (c : Cursor) : (after r c).rest <:+ c.rest := by
  obtain ⟨ts, hrest, -, -⟩ := h c
  exact ⟨ts, hrest.symm⟩

/-- A rule that reads many tokens reads fewer. -/
theorem mono (h : Advances k r) (hl : l ≤ k) : Advances l r := by
  intro c
  obtain ⟨ts, hrest, hstop, hk⟩ := h c
  exact ⟨ts, hrest, hstop, fun a d hr => Nat.le_trans hl (hk a d hr)⟩

/-- A rule never goes back. -/
theorem forward (h : Advances k r) : Advances 0 r := h.mono (Nat.zero_le k)

/-- A rule that reads nothing. -/
theorem of_still (h : ∀ c, (after r c).rest = c.rest ∧ (after r c).stop = c.stop) :
    Advances 0 r := fun c =>
  ⟨[], (h c).1.symm, (h c).2, fun _ _ _ => Nat.zero_le _⟩

/-- A rule that fails where it stands. -/
theorem of_fails (h : ∀ c, ∃ e, r c = .error e c) : Advances k r := by
  intro c
  obtain ⟨e, he⟩ := h c
  rw [after_eq_of_error he]
  refine ⟨[], rfl, rfl, fun a d hr => ?_⟩
  cases he.symm.trans hr

/-- A result reads nothing. -/
theorem pure (a : α) : Advances 0 (pure a : Rule α) := of_still fun _ => ⟨rfl, rfl⟩

/-- A rule that fails owes no tokens. -/
theorem fail (fault : ParseFault) : Advances k (fail fault : Rule α) := of_fails fun _ => ⟨_, rfl⟩

/-- Nothing is read after a failure. -/
theorem failThen (fault : ParseFault) (f : β → Rule α) : Advances k (Rule.fail fault >>= f) :=
  of_fails fun _ => ⟨_, rfl⟩

/-- To look at the next token does not read it. -/
theorem peek (literal : String) : Advances 0 (peek literal) := of_still fun _ => ⟨rfl, rfl⟩

/-- To look for the end of a block does not read it. -/
theorem peekBlockEnd : Advances 0 peekBlockEnd := of_still fun _ => ⟨rfl, rfl⟩

/-- To ask for the end of the text reads nothing. -/
theorem atEnd : Advances 0 atEnd := of_still fun _ => ⟨rfl, rfl⟩

/-- A number for a node costs no token. -/
theorem freshId : Advances 0 freshId := of_still fun _ => ⟨rfl, rfl⟩

/-- To count the tokens that are left reads none. -/
theorem remaining : Advances 0 remaining := of_still fun _ => ⟨rfl, rfl⟩

/-- One rule after the other reads what both read. -/
theorem bind {x : Rule α} {f : α → Rule β} (hx : Advances k x) (hf : ∀ a, Advances l (f a)) :
    Advances (k + l) (x >>= f) := by
  intro c
  obtain ⟨ts, hrest, hstop, hk⟩ := hx c
  cases hxc : x c with
  | ok a d =>
    rw [after_eq hxc] at hrest hstop
    obtain ⟨us, hrest', hstop', hl⟩ := hf a d
    rw [after_bind_ok hxc, bind_eq hxc]
    refine ⟨ts ++ us, ?_, ?_, fun b e hb => ?_⟩
    · rw [hrest, hrest', List.append_assoc]
    · rw [hstop', hstop, stopAfter_append]
    · rw [List.length_append]
      exact Nat.add_le_add (hk a d hxc) (hl b e hb)
  | error e d =>
    rw [after_eq_of_error hxc] at hrest hstop
    rw [after_bind_error hxc, bind_eq_error hxc]
    exact ⟨ts, hrest, hstop, nofun⟩

/-- The first step reads what is asked for. -/
theorem first {x : Rule α} {f : α → Rule β} (hx : Advances k x) (hf : ∀ a, Advances 0 (f a)) :
    Advances k (x >>= f) := hx.bind hf

/-- A later step reads what is asked for. -/
theorem later {x : Rule α} {f : α → Rule β} (hx : Advances 0 x) (hf : ∀ a, Advances k (f a)) :
    Advances k (x >>= f) := (hx.bind hf).mono (Nat.le_of_eq (Nat.zero_add k).symm)

/-- What is done with the result reads nothing. -/
theorem map (f : α → β) (h : Advances k r) : Advances k (f <$> r) := by
  rw [map_eq_bind]
  exact h.first fun a => pure (f a)

/-- Both branches read what is asked for. -/
theorem ite {b : Prop} [Decidable b] {yes no : Rule α} (hyes : Advances k yes)
    (hno : Advances k no) : Advances k (if b then yes else no) := by
  split
  · exact hyes
  · exact hno

/-- A token in front, and then what is read after it. -/
theorem past {c : Cursor} {t : Token} {rest : List Token} (hc : c.rest = t :: rest)
    (h : Advances k r) :
    ∃ ts, c.rest = ts ++ (after r (c.past t rest)).rest ∧
      (after r (c.past t rest)).stop = stopAfter c.stop ts ∧
        ∀ a d, r (c.past t rest) = .ok a d → k + 1 ≤ ts.length := by
  obtain ⟨ts, hrest, hstop, hk⟩ := h (c.past t rest)
  refine ⟨t :: ts, ?_, ?_, fun a d hr => Nat.succ_le_succ (hk a d hr)⟩
  · rw [hc, List.cons_append, ← hrest]
    rfl
  · rw [hstop, ← List.singleton_append, stopAfter_append]
    rfl

/-- If the token is there it counts as read, so that the rule after it owes one less. -/
theorem ifAccept {literal : String} {yes no : Rule α} (hyes : Advances (k - 1) yes)
    (hno : Advances k no) : Advances k (do if ← accept literal then yes else no) := by
  intro c
  rcases ifAccept_cases literal yes no c with ⟨t, rest, hrest, -, h⟩ | ⟨-, h⟩
  · rw [after, h, ← after]
    obtain ⟨ts, hts, hstop, hk⟩ := hyes.past hrest
    refine ⟨ts, hts, hstop, fun a d hr => ?_⟩
    have := hk a d hr
    omega
  · rw [after, h, ← after]
    exact hno c

/-- The token is not read, so both ways owe all. -/
theorem ifPeek {literal : String} {yes no : Rule α} (hyes : Advances k yes)
    (hno : Advances k no) : Advances k (do if ← Rule.peek literal then yes else no) :=
  (peek literal).later fun _ => hyes.ite hno

/-- At the end and before it, what is asked for is read. -/
theorem ifAtEnd {yes no : Rule α} (hyes : Advances k yes) (hno : Advances k no) :
    Advances k (do if ← Rule.atEnd then yes else no) := atEnd.later fun _ => hyes.ite hno

/-- A token that must be there is read, or the rule fails. -/
theorem expect (literal what : String) : Advances 1 (expect literal what) :=
  ifAccept (pure ()) (fail _)

/-- A name is one token. -/
theorem name (what : String) : Advances 1 (name what) := by
  intro c
  unfold after Rule.name
  cases hrest : c.rest with
  | nil => exact ⟨[], by simp [Rule.fail, hrest], rfl, nofun⟩
  | cons t rest =>
    by_cases hkind : t.kind = .identifier
    · simp only [if_pos hkind]
      exact ⟨[t], rfl, rfl, fun _ _ _ => Nat.le_refl 1⟩
    · simp only [if_neg hkind]
      exact ⟨[], by simp [Rule.fail, hrest], rfl, nofun⟩

/-- With or without an operator the rule goes forward. -/
theorem ifOperator {level : Level} {f : Option BinaryOp → Rule β} (hnone : Advances 0 (f none))
    (hsome : ∀ op, Advances 0 (f (some op))) : Advances 0 (operator? level >>= f) := by
  intro c
  rcases operator?_cases level c with h | ⟨op, t, rest, hrest, -, h⟩
  · rw [after_bind_ok h, bind_eq h]
    exact hnone c
  · rw [after_bind_ok h, bind_eq h]
    obtain ⟨ts, hts, hstop, -⟩ := (hsome op).past hrest
    exact ⟨ts, hts, hstop, fun _ _ _ => Nat.zero_le _⟩

end Advances

/-! ### Expressions -/

/-- The token of a literal was read before. -/
theorem literal_advances (v : Literal) : Advances 0 (literal v) :=
  Advances.freshId.first fun _ => .pure _

/-- A primary expression that is recognised by its first token, after that token. -/
def primaryAfter (inner : Rule Expr) (t : Token) : Rule Expr :=
  match t.kind with
  | .identifier => nameTail inner t.literal
  | _ =>
    match literalValue t with
    | .ok v => literal v
    | .error fault => failAt fault t.index

section Kinds

variable (inner : Rule Expr) {c : Cursor} {t : Token} {rest : List Token}

/-- At the end of the text an expression is missing. -/
theorem primaryByKind_nil (h : c.rest = []) :
    primaryByKind inner c = .error ⟨.expected "expression", c.stop⟩ c := by
  rw [primaryByKind, h]
  rfl

/-- No expression starts with an operator, and the error is at its place. -/
theorem primaryByKind_operator (h : c.rest = t :: rest) (hkind : t.kind = .operator) :
    primaryByKind inner c = .error ⟨.invalidExpression, t.index⟩ c := by
  rw [primaryByKind, h]
  simp only [hkind]
  rfl

/-- Any other token is read, and the rest depends on what it is. -/
theorem primaryByKind_other (h : c.rest = t :: rest) (hkind : t.kind ≠ .operator) :
    primaryByKind inner c = primaryAfter inner t (c.past t rest) := by
  rw [primaryByKind, h, primaryAfter]
  cases hcase : t.kind with
  | operator => exact absurd hcase hkind
  | identifier => simp only [hcase]
  | integer | decimal | character | string =>
    simp only [hcase]
    cases literalValue t <;> rfl

end Kinds

section Inner

variable {inner : Rule Expr} (hinner : Advances 1 inner)
include hinner

/-- A list that is not empty reads at least its first element. -/
theorem commaSeparated_advances (close what : String) (n : Nat) :
    Advances 1 (commaSeparated inner close what n) := by
  induction n with
  | zero => exact .fail _
  | succ n ih =>
    have hrest : ∀ value, Advances 0 (do
        return value :: (← commaSeparated inner close what n)) := fun value =>
      ih.forward.first fun _ => .pure _
    refine hinner.first fun value => .ifAccept (.pure _) ?_
    exact .ifAccept (.ifPeek (.failThen _ _) (hrest value)) (.failThen _ _)

/-- A list reads at least its closing bracket. -/
theorem separated_advances (close what : String) : Advances 1 (separated inner close what) :=
  .ifAccept (.pure _) (Advances.remaining.later (commaSeparated_advances hinner close what))

/-- After a name, arguments, an index or nothing. -/
theorem nameTail_advances (name : String) : Advances 0 (nameTail inner name) := by
  have hinner₀ : Advances 0 inner := hinner.forward
  have harguments := (separated_advances hinner ")" "')' after arguments").forward
  refine .ifAccept ?_ (.ifAccept ?_ (Advances.freshId.first fun _ => .pure _))
  · exact harguments.first fun _ => Advances.freshId.first fun _ => .pure _
  · refine hinner₀.first fun _ => ?_
    exact (Advances.expect _ _).forward.first fun _ =>
      Advances.freshId.first fun _ => .pure _

/-- After the first token of a primary expression. -/
theorem primaryAfter_advances (t : Token) : Advances 0 (primaryAfter inner t) := by
  unfold primaryAfter
  split
  · exact nameTail_advances hinner t.literal
  · split
    · exact literal_advances _
    · exact .of_fails fun c => ⟨_, rfl⟩

/-- A primary expression is at least its first token. -/
theorem primaryByKind_advances : Advances 1 (primaryByKind inner) := by
  intro c
  cases hrest : c.rest with
  | nil =>
    have h := primaryByKind_nil inner hrest
    rw [after_eq_of_error h, h]
    exact ⟨[], hrest.symm, rfl, nofun⟩
  | cons t rest =>
    by_cases hkind : t.kind = .operator
    · have h := primaryByKind_operator inner hrest hkind
      rw [after_eq_of_error h, h]
      exact ⟨[], hrest.symm, rfl, nofun⟩
    · have h := primaryByKind_other inner hrest hkind
      rw [after, h, ← after, ← hrest]
      exact (primaryAfter_advances hinner t).past hrest

/-- A primary expression is at least its first token, be that a bracket or a word. -/
theorem primaryOver_advances : Advances 1 (primaryOver inner) := by
  have hliteral : ∀ v, Advances 0 (do return ← literal v) := fun v =>
    (literal_advances v).first fun _ => .pure _
  refine .ifAccept (hliteral _) (.ifAccept (hliteral _) (.ifAccept (hliteral _) (.ifAccept ?_ ?_)))
  · refine hinner.forward.first fun _ => ?_
    exact (Advances.expect _ _).forward.first fun _ =>
      Advances.freshId.first fun _ => .pure _
  · exact primaryByKind_advances hinner

end Inner

/-- More operands of a chain, one operator after the other. -/
theorem chainTail_advances {operand : Rule Expr} (hoperand : Advances 1 operand) (level : Level)
    (n : Nat) : ∀ left, Advances 0 (chainTail level operand n left) := by
  induction n with
  | zero => exact fun left => .pure left
  | succ n ih =>
    intro left
    refine .ifOperator (.pure left) fun op => ?_
    exact hoperand.forward.first fun _ => Advances.freshId.first fun _ => ih _

/-- A chain is at least its first operand. -/
theorem chain_advances {operand : Rule Expr} (hoperand : Advances 1 operand) (level : Level) :
    Advances 1 (chain level operand) :=
  hoperand.first fun left => Advances.remaining.later fun n =>
    chainTail_advances hoperand level n left

/-- All levels of operators, from a primary expression up. -/
theorem logicalOver_advances {primary : Rule Expr} (h : Advances 1 primary) :
    Advances 1 (logicalOver primary) :=
  chain_advances (chain_advances (chain_advances (chain_advances h _) _) _) _

/-- An expression to some depth of brackets. -/
theorem expressionWithin_advances (n : Nat) : Advances 1 (expressionWithin n) := by
  induction n with
  | zero => exact .fail _
  | succ n ih => exact logicalOver_advances (primaryOver_advances ih)

/-- An expression is at least one token. -/
theorem expression_advances : Advances 1 expression :=
  Advances.remaining.later expressionWithin_advances

/-- A primary expression is at least one token. -/
theorem primary_advances : Advances 1 primary :=
  Advances.remaining.later fun n => primaryOver_advances (expressionWithin_advances n)

/-! ### Statements -/

/-- A type need not be there. -/
theorem typeAnnotation_advances : Advances 0 typeAnnotation :=
  .ifAccept ((Advances.name _).forward.map some) (.pure _)

/-- A value need not be there. -/
theorem initializer_advances : Advances 0 initializer :=
  .ifAccept (expression_advances.forward.map some) (.pure _)

/-- A token that must come, and then more. -/
theorem Advances.expectThen {literal what : String} {r : Rule α} (h : Advances 0 r) :
    Advances 0 (do Rule.expect literal what; r) :=
  (Advances.expect literal what).forward.first fun _ => h

/-- A name, and then more. -/
theorem Advances.nameThen {what : String} {f : String → Rule α} (h : ∀ s, Advances 0 (f s)) :
    Advances 0 (Rule.name what >>= f) := (Advances.name what).forward.first h

/-- An expression, and then more. -/
theorem Advances.expressionThen {f : Expr → Rule α} (h : ∀ e, Advances 0 (f e)) :
    Advances 0 (expression >>= f) := expression_advances.forward.first h

/-- A declaration is at least `LET`. -/
theorem declaration_advances : Advances 1 declaration := by
  refine (Advances.expect _ _).first fun _ => .nameThen fun _ => ?_
  refine typeAnnotation_advances.first fun _ => initializer_advances.first fun _ => ?_
  exact .expectThen (Advances.freshId.first fun _ => .pure _)

/-- A statement that returns is at least `RETURN`. -/
theorem returnStatement_advances : Advances 1 returnStatement :=
  (Advances.expect _ _).first fun _ => .expressionThen fun _ => .expectThen (.pure _)

/-- Expressions and assignments are at least one token. -/
theorem expressionStatement_advances : Advances 1 expressionStatement :=
  expression_advances.first fun _ =>
    .ifAccept (.expressionThen fun _ => .expectThen (.pure _)) (.expectThen (.pure _))

/-- Statements up to the end of a block, which may be there at once. -/
theorem blockWithin_advances {statement : Rule Stmt} (h : Advances 0 statement) (n : Nat) :
    Advances 0 (blockWithin statement n) := by
  induction n with
  | zero => exact .fail _
  | succ n ih =>
    have hrest : Advances 0 (do
        let first ← statement
        return first :: (← blockWithin statement n)) :=
      h.first fun _ => ih.first fun _ => .pure _
    exact Advances.peekBlockEnd.first fun _ => .ite (.pure _) (.ifAtEnd (.failThen _ _) hrest)

/-- A block may be empty. -/
theorem blockOver_advances {statement : Rule Stmt} (h : Advances 0 statement) :
    Advances 0 (blockOver statement) := Advances.remaining.first (blockWithin_advances h)

section Block

variable {block : Rule (List Stmt)} (hblock : Advances 0 block)
include hblock

/-- A conditional statement is at least `IF`. -/
theorem ifOver_advances : Advances 1 (ifOver block) := by
  have hend : ∀ condition thenBody elseBody, Advances 0 (do
      expect "END" "END to close IF"
      return Stmt.ifElse condition thenBody elseBody) := fun _ _ _ => .expectThen (.pure _)
  refine (Advances.expect _ _).first fun _ => .expressionThen fun _ => .expectThen ?_
  refine hblock.first fun _ => .ifAccept ?_ ((Advances.pure _).first fun _ => hend _ _ _)
  exact hblock.first fun _ => hend _ _ _

/-- A loop is at least `WHILE`. -/
theorem whileOver_advances : Advances 1 (whileOver block) :=
  (Advances.expect _ _).first fun _ => .expressionThen fun _ => .expectThen
    (hblock.first fun _ => .expectThen (.pure _))

/-- An arm is at least `CASE` or `DEFAULT`. -/
theorem caseOver_advances : Advances 1 (caseOver block) := by
  refine .ifAccept (.expressionThen fun _ => .expectThen (hblock.first fun _ => .pure _)) ?_
  exact (Advances.expect _ _).first fun _ => hblock.first fun _ => .pure _

/-- There is at least one arm. -/
theorem casesWithin_advances (n : Nat) : Advances 1 (casesWithin block n) := by
  have hone : Advances 1 (do return [← caseOver block]) :=
    (caseOver_advances hblock).first fun _ => .pure _
  induction n with
  | zero => exact hone
  | succ n ih =>
    refine .ifPeek ?_ hone
    exact (caseOver_advances hblock).first fun _ =>
      ih.forward.first fun _ => .pure _

/-- A choice between arms is at least `SWITCH`. -/
theorem switchOver_advances : Advances 1 (switchOver block) := by
  refine (Advances.expect _ _).first fun _ => .expressionThen fun _ => ?_
  refine Advances.remaining.first fun n => ?_
  exact (casesWithin_advances hblock n).forward.first fun _ => .expectThen (.pure _)

/-- Every statement is at least one token. -/
theorem statementOver_advances : Advances 1 (statementOver block) :=
  .ifPeek declaration_advances (.ifPeek (ifOver_advances hblock) (.ifPeek
    (switchOver_advances hblock) (.ifPeek (whileOver_advances hblock) (.ifPeek
      returnStatement_advances expressionStatement_advances))))

end Block

/-- A statement to some depth of blocks. -/
theorem statementWithin_advances (n : Nat) : Advances 1 (statementWithin n) := by
  induction n with
  | zero => exact .fail _
  | succ n ih => exact statementOver_advances (blockOver_advances ih.forward)

/-- A block may be empty. -/
theorem block_advances : Advances 0 block :=
  Advances.remaining.first fun n =>
    blockOver_advances (statementWithin_advances n).forward

/-! ### Programs -/

/-- After `LIST` comes at least the name of the list. -/
theorem listGlobal_advances : Advances 1 listGlobal := by
  have hitems := (separated_advances expression_advances "]" "']' to close list literal").forward
  refine (Advances.name _).first fun _ => .expectThen (.nameThen fun _ => .expectThen ?_)
  refine .expectThen (hitems.first fun _ => Advances.freshId.first fun _ => ?_)
  exact Advances.freshId.first fun _ => .pure _

/-- After `VAR` comes at least the name of the variable. -/
theorem mutableGlobal_advances : Advances 1 mutableGlobal :=
  (Advances.name _).first fun _ => typeAnnotation_advances.first fun _ =>
    initializer_advances.first fun _ => Advances.freshId.first fun _ => .pure _

/-- After `VAL` comes at least the name of the constant. -/
theorem immutableGlobal_advances : Advances 1 immutableGlobal :=
  (Advances.name _).first fun _ => typeAnnotation_advances.first fun _ => .expectThen
    (.expressionThen fun _ => Advances.freshId.first fun _ => .pure _)

/-- A global of any sort is at least `LIST`, `VAR` or `VAL`. -/
theorem globalBody_advances : Advances 1 globalBody :=
  .ifAccept listGlobal_advances.forward (.ifAccept mutableGlobal_advances.forward
    (.ifAccept immutableGlobal_advances.forward (.fail _)))

/-- A global is at least its first word. -/
theorem global_advances : Advances 1 global :=
  globalBody_advances.first fun _ => .expectThen (.pure _)

/-- Parameters are at least the bracket that closes them. -/
theorem parametersWithin_advances (n : Nat) : Advances 1 (parametersWithin n) := by
  induction n with
  | zero => exact .fail _
  | succ n ih =>
    refine (Advances.name _).first fun _ => .expectThen (.nameThen fun _ => ?_)
    refine .ifAccept (.pure _) ?_
    exact .expectThen (ih.forward.first fun _ => .pure _)

/-- A function is at least `FUN`. -/
theorem function_advances : Advances 1 function := by
  have hend : ∀ (name : String) (parameters : List (String × String)), Advances 0 (do
      let returnTypeName ← typeAnnotation
      expect "DO" "DO"
      let body ← block
      expect "END" "END"
      return (⟨← freshId, name, parameters.map Prod.fst, parameters.map Prod.snd, returnTypeName,
        body⟩ : FunctionDecl)) := fun _ _ =>
    typeAnnotation_advances.first fun _ => .expectThen (block_advances.first fun _ =>
      .expectThen (Advances.freshId.first fun _ => .pure _))
  refine (Advances.expect _ _).first fun _ => .nameThen fun _ => .expectThen ?_
  refine .ifAccept ((Advances.pure _).first fun _ => hend _ _) ?_
  refine Advances.remaining.first fun n => ?_
  exact (parametersWithin_advances n).forward.first fun _ => hend _ _

/-- A program may be empty. -/
theorem sourceWithin_advances (n : Nat) : Advances 0 (sourceWithin n) := by
  induction n with
  | zero => exact .pure _
  | succ n ih =>
    have hglobal := global_advances.forward
    have hfunction := function_advances.forward
    refine .ifAtEnd (.pure _) ?_
    refine (Advances.peek _).first fun _ => (Advances.peek _).first fun _ =>
      (Advances.peek _).first fun _ => .ite ?_ (.ifPeek ?_ (.fail _))
    · exact hglobal.first fun _ => ih.first fun _ => .pure _
    · exact hfunction.first fun _ => ih.first fun _ => .pure _

/-- **Reading a program moves forward**: what was read and what is left are the tokens that
were there, and the position is the one after the last token that was read. -/
theorem source_advances : Advances 0 source := Advances.remaining.first sourceWithin_advances

end Rule
end Scriptlet
