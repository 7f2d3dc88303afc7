import Scriptlet.Proofs.Descent

/-!
# The descent ends

The bounds of the rules are never used up: where `n` tokens are left, `n` rounds of a loop and
`n` levels of nesting are enough.  So the descent without bounds always answers, and with the
answer of the bounded rules (`Entry.descent_eq`).

With no token left, a rule that is out of bounds fails as the descent does, because there is
nothing to read for either of them (`FailsAtEnd`).
-/

namespace Scriptlet
namespace Descent

open Rule

variable {α : Type} {n : Nat}

/-! ### No token left -/

/-- With fewer tokens than one there is none. -/
theorem eq_nil_of_length_lt {c : Cursor} (hc : c.rest.length < 0 + 1) : c.rest = [] :=
  List.length_eq_zero_iff.1 (Nat.lt_one_iff.1 hc)

section End

variable {c : Cursor} (hc : c.rest = [])
include hc

/-- At the end there is no token to accept. -/
theorem accept_nil (w : String) : accept w c = .ok false c := by rw [accept, hc]

/-- At the end no token comes next. -/
theorem peek_nil (w : String) : peek w c = .ok false c := by
  rw [peek, Cursor.sees, hc]
  rfl

/-- With no token left, it is the end. -/
theorem atEnd_nil : atEnd c = .ok true c := by
  rw [atEnd, Cursor.isDone, hc]
  rfl

/-- The end of the text ends no block. -/
theorem peekBlockEnd_nil : peekBlockEnd c = .ok false c := by simp [peekBlockEnd, Cursor.sees, hc]

/-- At the end there is no operator. -/
theorem operator?_nil (level : Level) : operator? level c = .ok none c := by rw [operator?, hc]

/-- At the end a name is missing. -/
theorem name_nil (what : String) : name what c = .error ⟨.expected what, c.stop⟩ c := by
  rw [name, hc]
  rfl

end End

/-! ### Expressions -/

/-- With no token left there is no expression. -/
def FailsAtEnd (r : Rule Expr) : Prop :=
  ∀ c : Cursor, c.rest = [] → r c = .error ⟨.expected "expression", c.stop⟩ c

/-- At the end a primary expression is missing, whatever is read in brackets. -/
theorem primaryOver_failsAtEnd (inner : Rule Expr) : FailsAtEnd (primaryOver inner) := by
  intro c hc
  have hskip : ∀ w (yes no : Rule Expr), (do if ← accept w then yes else no) c = no c :=
    fun w _ _ => bind_eq (accept_nil hc w) _
  unfold primaryOver
  rw [hskip, hskip, hskip, hskip, primaryByKind_nil inner hc]

/-- At the end the first operand is missing. -/
theorem chain_failsAtEnd {operand : Rule Expr} (h : FailsAtEnd operand) (level : Level) :
    FailsAtEnd (Rule.chain level operand) := fun c hc => bind_eq_error (h c hc) _

/-- At the end an expression is missing, at any depth. -/
theorem expressionWithin_failsAtEnd (n : Nat) : FailsAtEnd (expressionWithin n) := by
  cases n with
  | zero => exact fun _ _ => rfl
  | succ n =>
    have hprimary := primaryOver_failsAtEnd (expressionWithin n)
    exact chain_failsAtEnd (chain_failsAtEnd (chain_failsAtEnd (chain_failsAtEnd hprimary _) _) _) _

section Inner

variable {inner : Rule Expr} (hadvances : Advances 1 inner) (hfails : FailsAtEnd inner)
include hadvances hfails

/-- Elements: a loop of `k` rounds is enough for `k` tokens. -/
theorem commaSeparated_agrees (h : Agrees n (chain · .logical) inner) (close what : String) :
    ∀ k < n, Agrees (k + 1) (commaSeparated · close what) (inner.commaSeparated close what k) := by
  intro k
  -- on the bound: a round reads an expression and a comma, two tokens for one round
  induction k with
  | zero =>
    intro hn c hc
    refine .of_succ ?_
    simp only [commaSeparated]
    exact bind_of_error (h c (by omega)) (hfails c (eq_nil_of_length_lt hc)) _
  | succ k ih =>
    intro hn
    refine .of_succ ?_
    simp only [commaSeparated]
    have hrest : ∀ value, Agrees k
        (fun depth => do return value :: (← commaSeparated depth close what))
        (do return value :: (← inner.commaSeparated close what k)) := fun value =>
      ((ih (by omega)).mono (Nat.le_succ k)).bind
        (commaSeparated_advances hadvances close what k).forward fun _ => .pure _
    refine (h.mono (by omega)).bind hadvances fun value => .ifAccept (.pure _) ?_
    exact .ifAccept (.ifPeek (.failThen _ _ _) (hrest value)) (.failThen _ _ _)

/-- A list of elements, which may be empty. -/
theorem separated_agrees (h : Agrees n (chain · .logical) inner) (close what : String) :
    Agrees n (separated · close what) (inner.separated close what) := by
  refine .of_succ ?_
  simp only [separated]
  exact .ifAccept (.pure _) (.remainingThen (commaSeparated_agrees hadvances hfails h close what))

/-- Arguments, an index or nothing, after a name. -/
theorem nameTail_agrees (h : Agrees n (chain · .logical) inner) (name : String) :
    Agrees n (nameTail · name) (inner.nameTail name) := by
  have h' := h.mono (Nat.sub_le n 1)
  refine .of_succ ?_
  simp only [nameTail]
  refine .ifAccept ?_ (.ifAccept ?_ (.freshThen fun _ => .pure _))
  · exact (separated_agrees hadvances hfails h' _ _).bind
      (separated_advances hadvances _ _).forward fun _ => .freshThen fun _ => .pure _
  · exact h'.bind hadvances.forward fun _ =>
      .expectThen (.freshThen fun _ => .pure _)

/-- A primary expression: in brackets there is one token less, so one level less is enough. -/
theorem primaryOver_agrees (h : Agrees (n - 1) (chain · .logical) inner) :
    Agrees n primary (primaryOver inner) := by
  have hliteral : ∀ v, Agrees (n - 1) (fun _ => liftM (literal v)) (do return ← literal v) :=
    fun v => .lift (literal v)
  refine .of_succ ?_
  simp only [primary]
  unfold primaryOver
  rw [primaryByKind_eq]
  refine .ifAccept (hliteral _) (.ifAccept (hliteral _) (.ifAccept (hliteral _) (.ifAccept ?_ ?_)))
  · exact h.bind hadvances.forward fun _ => .expectThen (.freshThen fun _ => .pure _)
  · refine (Agrees.lift _).bind primaryStart_advances fun start => ?_
    cases start with
    | inl name => exact nameTail_agrees hadvances hfails h name
    | inr value => exact .pure value

end Inner

section Operand

variable {level : Level} {r : Rule Expr} (h : Agrees n (operand · level) r)
  (hadvances : Advances 1 r)
include h hadvances

/-- More operands: a loop of `k` rounds is enough for `k` tokens. -/
theorem chainTail_agrees : ∀ k < n, ∀ left,
    Agrees (k + 1) (chainTail · level left) (Rule.chainTail level r k left) := by
  intro k
  induction k with
  | zero =>
    intro _ left c hc
    refine .of_succ ?_
    simp only [chainTail]
    have hnone := operator?_nil (eq_nil_of_length_lt hc) level
    exact bind_of_ok (answers_lift _ c) hnone (.of_eq fun _ => rfl)
  | succ k ih =>
    intro hn left
    refine .of_succ ?_
    simp only [chainTail]
    refine .ifOperator (.pure left) fun op => ?_
    exact (h.mono (by omega)).bind hadvances.forward fun _ => .freshThen fun _ => ih (by omega) _

/-- A chain of any level. -/
theorem chain_agrees : Agrees n (chain · level) (Rule.chain level r) := by
  refine .of_succ ?_
  simp only [chain]
  refine h.bind hadvances.forward fun left => .remainingThen fun k hk => ?_
  exact chainTail_agrees h hadvances k hk left

end Operand

section Levels

variable {r : Rule Expr} (h : Agrees n primary r) (hadvances : Advances 1 r)
include h hadvances

/-- Products. -/
theorem multiplicativeOver_agrees : Agrees n (chain · .multiplicative) (multiplicativeOver r) :=
  chain_agrees (.of_succ (by simpa only [operand] using h)) hadvances

/-- Sums. -/
theorem additiveOver_agrees : Agrees n (chain · .additive) (additiveOver r) :=
  chain_agrees (.of_succ (by simpa only [operand] using multiplicativeOver_agrees h hadvances))
    (chain_advances hadvances _)

/-- Comparisons. -/
theorem comparisonOver_agrees : Agrees n (chain · .comparison) (comparisonOver r) :=
  chain_agrees (.of_succ (by simpa only [operand] using additiveOver_agrees h hadvances))
    (chain_advances (chain_advances hadvances _) _)

/-- All levels of operators. -/
theorem logicalOver_agrees : Agrees n (chain · .logical) (logicalOver r) :=
  chain_agrees (.of_succ (by simpa only [operand] using comparisonOver_agrees h hadvances))
    (chain_advances (chain_advances (chain_advances hadvances _) _) _)

end Levels

/-- **Nesting fits into the bound**: with fewer than `n + 1` tokens, `n` levels are enough. -/
theorem expressionWithin_agrees (n : Nat) :
    Agrees (n + 1) (chain · .logical) (expressionWithin n) := by
  induction n with
  | zero =>
    -- no token is left: what is inside parentheses is never asked for, and may be any rule
    intro c hc
    have hc' := eq_nil_of_length_lt hc
    have hnone : Agrees (0 + 1 - 1) (chain · .logical) (expressionWithin 0) := nofun
    have hprimary := primaryOver_agrees (expressionWithin_advances 0)
      (expressionWithin_failsAtEnd 0) hnone
    have hadvances := primaryOver_advances (expressionWithin_advances 0)
    have hlogical := logicalOver_agrees hprimary hadvances c hc
    rwa [show logicalOver _ c = _ from expressionWithin_failsAtEnd 1 c hc',
      ← expressionWithin_failsAtEnd 0 c hc'] at hlogical
  | succ n ih =>
    have hprimary : Agrees (n + 1 + 1) primary (primaryOver (expressionWithin n)) :=
      primaryOver_agrees (expressionWithin_advances n) (expressionWithin_failsAtEnd n) ih
    exact logicalOver_agrees hprimary (primaryOver_advances (expressionWithin_advances n))

/-- Expressions: as many levels of brackets as there are tokens are enough. -/
theorem expression_agrees (n : Nat) : Agrees n expression Rule.expression :=
  .remainingThen fun k _ => expressionWithin_agrees k

/-- Primary expressions. -/
theorem primary_agrees (n : Nat) : Agrees n primary Rule.primary :=
  .remainingThen fun k _ => primaryOver_agrees (expressionWithin_advances k)
    (expressionWithin_failsAtEnd k) ((expressionWithin_agrees k).mono (by omega))

/-! ### Statements -/

/-- An expression reads a token, so that there is one less after it. -/
theorem expressionThen {f : Nat → Expr → Descent α} {g : Expr → Rule α}
    (h : ∀ e, Agrees (n - 1) (f · e) (g e)) :
    Agrees n (fun depth => expression depth >>= f depth) (Rule.expression >>= g) :=
  (expression_agrees n).bind expression_advances h

/-- A value that need not be there. -/
theorem initializer_agrees (n : Nat) : Agrees n initializer Rule.initializer :=
  .ifAccept (.map some (expression_agrees _) expression_advances.forward) (.pure _)

/-- Declarations. -/
theorem declaration_agrees (n : Nat) : Agrees n declaration Rule.declaration := by
  refine .expectThen (.nameThen fun _ => .stepThen typeAnnotation_advances fun _ => ?_)
  refine (initializer_agrees _).bind initializer_advances fun _ => ?_
  exact .expectThen (.freshThen fun _ => .pure _)

/-- Statements that return. -/
theorem returnStatement_agrees (n : Nat) : Agrees n returnStatement Rule.returnStatement :=
  .expectThen (expressionThen fun _ => .expectThen (.pure _))

/-- Assignments, and expressions that are statements. -/
theorem expressionStatement_agrees (n : Nat) :
    Agrees n expressionStatement Rule.expressionStatement :=
  expressionThen fun _ => .ifAccept (expressionThen fun _ => .expectThen (.pure _))
    (.expectThen (.pure _))

/-- With no token left there is no statement either. -/
theorem statementOver_nil (block : Rule (List Stmt)) {c : Cursor} (hc : c.rest = []) :
    statementOver block c = .error ⟨.expected "expression", c.stop⟩ c := by
  have hskip : ∀ w (yes no : Rule Stmt), (do if ← peek w then yes else no) c = no c :=
    fun w _ _ => bind_eq (peek_nil hc w) _
  have hexpression : Rule.expression c = .error ⟨.expected "expression", c.stop⟩ c :=
    expressionWithin_failsAtEnd c.rest.length c hc
  unfold statementOver
  rw [hskip, hskip, hskip, hskip, hskip]
  exact bind_eq_error hexpression _

/-- Statements of a block: a loop of `k` rounds is enough for `k` tokens. -/
theorem blockWithin_agrees {r : Rule Stmt} (h : Agrees n statement r) (hadvances : Advances 1 r) :
    ∀ k < n, Agrees (k + 1) block (blockWithin r k) := by
  intro k
  induction k with
  | zero =>
    intro _ c hc
    have hc' := eq_nil_of_length_lt hc
    refine .of_succ ?_
    simp only [block]
    refine bind_of_ok (answers_lift _ c) (peekBlockEnd_nil hc') ?_
    exact bind_of_ok (answers_lift _ c) (atEnd_nil hc') (.of_eq fun _ => rfl)
  | succ k ih =>
    intro hn
    refine .of_succ ?_
    simp only [block]
    have hrest : Agrees (k + 1 + 1)
        (fun depth => do let first ← statement depth; return first :: (← block depth))
        (do let first ← r; return first :: (← blockWithin r k)) :=
      (h.mono (by omega)).bind hadvances fun _ => (ih (by omega)).bind
        (blockWithin_advances hadvances.forward k) fun _ => .pure _
    refine .stepThen .peekBlockEnd fun _ => .ite (.pure _) (.stepThen Advances.atEnd fun _ => ?_)
    exact .ite (.failThen _ _ _) hrest

/-- Blocks. -/
theorem blockOver_agrees {r : Rule Stmt} (h : Agrees n statement r) (hadvances : Advances 1 r) :
    Agrees n block (blockOver r) := .remainingThen (blockWithin_agrees h hadvances)

section Block

variable {r : Rule (List Stmt)} (hadvances : Advances 0 r)
include hadvances

/-- The word `IF` was read, so one level less is enough for the branches. -/
theorem ifOver_agrees (h : Agrees (n - 1) block r) : Agrees n ifStatement (ifOver r) := by
  refine .of_succ ?_
  simp only [ifStatement]
  refine .expectThen (expressionThen fun _ => .expectThen ?_)
  refine (h.mono (by omega)).bind hadvances fun _ => .ifAccept ?_ ?_
  · exact (h.mono (by omega)).bind hadvances fun _ => .expectThen (.pure _)
  · exact (Agrees.pure _).bind (.pure _) fun _ => .expectThen (.pure _)

/-- The word `WHILE` was read, so one level less is enough for the body. -/
theorem whileOver_agrees (h : Agrees (n - 1) block r) : Agrees n whileStatement (whileOver r) := by
  refine .of_succ ?_
  simp only [whileStatement]
  refine .expectThen (expressionThen fun _ => .expectThen ?_)
  exact (h.mono (by omega)).bind hadvances fun _ => .expectThen (.pure _)

/-- The word of the arm was read, so one level less is enough for its body. -/
theorem caseOver_agrees (h : Agrees (n - 1) block r) : Agrees n caseArm (caseOver r) := by
  refine .of_succ ?_
  simp only [caseArm]
  refine .ifAccept (expressionThen fun _ => .expectThen ?_) (.expectThen ?_)
  · exact (h.mono (by omega)).bind hadvances fun _ => .pure _
  · exact h.bind hadvances fun _ => .pure _

/-- Arms: a loop of `k` rounds is enough for `k` tokens. -/
theorem casesWithin_agrees (h : Agrees n block r) :
    ∀ k < n, Agrees (k + 1) cases (casesWithin r k) := by
  have hcase := caseOver_agrees hadvances (h.mono (Nat.sub_le n 1))
  have hcaseAdvances := caseOver_advances hadvances
  have hlast : Agrees n (fun depth => do return [← caseArm depth]) (do return [← caseOver r]) :=
    hcase.bind hcaseAdvances.forward fun _ => .pure _
  intro k
  induction k with
  | zero =>
    intro hn c hc
    refine .of_succ ?_
    simp only [cases]
    exact bind_of_ok (answers_lift _ c) (peek_nil (eq_nil_of_length_lt hc) "CASE")
      (hlast c (by omega))
  | succ k ih =>
    intro hn
    refine .of_succ ?_
    simp only [cases]
    refine .ifPeek ?_ (hlast.mono (by omega))
    exact (hcase.mono (by omega)).bind hcaseAdvances fun _ => (ih (by omega)).bind
      (casesWithin_advances hadvances k).forward fun _ => .pure _

/-- The word `SWITCH` was read, so one level less is enough for the arms. -/
theorem switchOver_agrees (h : Agrees (n - 1) block r) :
    Agrees n switchStatement (switchOver r) := by
  have hcases : Agrees (n - 1 - 1) cases (do casesWithin r (← remaining)) :=
    .remainingThen fun k hk => casesWithin_agrees hadvances h k (by omega)
  have hadvances' : Advances 0 (do casesWithin r (← remaining)) :=
    Advances.remaining.first fun k => (casesWithin_advances hadvances k).forward
  refine .of_succ ?_
  simp only [switchStatement]
  refine .expectThen (expressionThen fun _ => ?_)
  exact hcases.bind hadvances' fun _ => .expectThen (.pure _)

/-- Every statement, by its first word. -/
theorem statementOver_agrees (h : Agrees (n - 1) block r) :
    Agrees n statement (statementOver r) := by
  refine .of_succ ?_
  simp only [statement]
  exact .ifPeek (declaration_agrees n) (.ifPeek (ifOver_agrees hadvances h) (.ifPeek
    (switchOver_agrees hadvances h) (.ifPeek (whileOver_agrees hadvances h) (.ifPeek
      (returnStatement_agrees n) (expressionStatement_agrees n)))))

end Block

/-- Statements to a depth of blocks that is no less than the number of tokens. -/
theorem statementWithin_agrees (n : Nat) : Agrees (n + 1) statement (statementWithin n) := by
  have hblock : ∀ n, Advances 0 (blockOver (statementWithin n)) := fun n =>
    blockOver_advances (statementWithin_advances n).forward
  induction n with
  | zero =>
    intro c hc
    have hnone : Agrees (0 + 1 - 1) block (blockOver (statementWithin 0)) := nofun
    have hstatement := statementOver_agrees (hblock 0) hnone c hc
    rwa [statementOver_nil _ (eq_nil_of_length_lt hc)] at hstatement
  | succ n ih =>
    have hinner := blockOver_agrees ih (statementWithin_advances n)
    exact statementOver_agrees (hblock n) hinner

/-- Statements: as many levels of blocks as there are tokens are enough. -/
theorem statement_agrees (n : Nat) : Agrees n statement Rule.statement :=
  .remainingThen fun k _ => statementWithin_agrees k

/-- Blocks of statements. -/
theorem block_agrees (n : Nat) : Agrees n block Rule.block :=
  .remainingThen fun k _ => blockOver_agrees (statementWithin_agrees k) (statementWithin_advances k)

/-! ### Programs -/

/-- Lists, after `LIST`. -/
theorem listGlobal_agrees (n : Nat) : Agrees n listGlobal Rule.listGlobal := by
  have hitems := separated_agrees expression_advances
    (fun c hc => expressionWithin_failsAtEnd c.rest.length c hc) (expression_agrees n)
      "]" "']' to close list literal"
  refine .nameThen fun _ => .expectThen (.nameThen fun _ => .expectThen (.expectThen ?_))
  refine (hitems.mono (by omega)).bind (separated_advances expression_advances _ _).forward ?_
  exact fun _ => .freshThen fun _ => .freshThen fun _ => .pure _

/-- Variables, after `VAR`. -/
theorem mutableGlobal_agrees (n : Nat) : Agrees n mutableGlobal Rule.mutableGlobal := by
  refine .nameThen fun _ => .stepThen typeAnnotation_advances fun _ => ?_
  exact (initializer_agrees _).bind initializer_advances fun _ => .freshThen fun _ => .pure _

/-- Constants, after `VAL`. -/
theorem immutableGlobal_agrees (n : Nat) : Agrees n immutableGlobal Rule.immutableGlobal := by
  refine .nameThen fun _ => .stepThen typeAnnotation_advances fun _ => ?_
  exact .expectThen (expressionThen fun _ => .freshThen fun _ => .pure _)

/-- Globals of any sort. -/
theorem global_agrees (n : Nat) : Agrees n global Rule.global := by
  have hbody : Agrees n globalBody Rule.globalBody :=
    .ifAccept (listGlobal_agrees _) (.ifAccept (mutableGlobal_agrees _) (.ifAccept
      (immutableGlobal_agrees _) (.lift _)))
  exact hbody.bind globalBody_advances.forward fun _ => .expectThen (.pure _)

/-- Parameters: a loop of `n` rounds is enough for `n` tokens. -/
theorem parametersWithin_agrees (n : Nat) : Agrees (n + 1) parameters (parametersWithin n) := by
  induction n with
  | zero =>
    intro c hc
    refine .of_succ ?_
    simp only [parameters]
    exact bind_of_error (answers_lift _ c) (name_nil (eq_nil_of_length_lt hc) _) _
  | succ n ih =>
    refine .of_succ ?_
    simp only [parameters]
    refine .nameThen fun _ => .expectThen (.nameThen fun _ => .ifAccept (.pure _) ?_)
    exact .expectThen ((ih.mono (by omega)).bind
      (parametersWithin_advances n).forward fun _ => .pure _)

/-- Functions. -/
theorem function_agrees (n : Nat) : Agrees n function Rule.function := by
  have hend : ∀ m (name : String) (parameters : List (String × String)), Agrees m
      (fun depth => do
        let returnTypeName ← typeAnnotation
        expect "DO" "DO"
        let body ← block depth
        expect "END" "END"
        return (⟨← freshId, name, parameters.map Prod.fst, parameters.map Prod.snd,
          returnTypeName, body⟩ : FunctionDecl))
      (do
        let returnTypeName ← typeAnnotation
        expect "DO" "DO"
        let body ← Rule.block
        expect "END" "END"
        return (⟨← freshId, name, parameters.map Prod.fst, parameters.map Prod.snd,
          returnTypeName, body⟩ : FunctionDecl)) := fun m _ _ =>
    .stepThen typeAnnotation_advances fun _ => .expectThen ((block_agrees _).bind block_advances
      fun _ => .expectThen (.freshThen fun _ => .pure _))
  have hparameters : ∀ m, Agrees m parameters (do parametersWithin (← remaining)) := fun m =>
    .remainingThen fun k _ => parametersWithin_agrees k
  refine .expectThen (.nameThen fun _ => .expectThen (.ifAccept ?_ ?_))
  · exact (Agrees.pure _).bind (.pure _) fun _ => hend _ _ _
  · exact (hparameters _).bind (Advances.remaining.first fun k =>
      (parametersWithin_advances k).forward) fun _ => hend _ _ _

/-- Globals and functions: a loop of `n` rounds is enough for `n` tokens. -/
theorem sourceWithin_agrees (n : Nat) : Agrees (n + 1) source (sourceWithin n) := by
  induction n with
  | zero =>
    intro c hc
    refine .of_succ ?_
    simp only [source]
    exact bind_of_ok (answers_lift _ c) (atEnd_nil (eq_nil_of_length_lt hc)) (.of_eq fun _ => rfl)
  | succ n ih =>
    refine .of_succ ?_
    simp only [source]
    refine .stepThen Advances.atEnd fun _ => .ite (.pure _) ?_
    refine .stepThen (.peek _) fun _ => .stepThen (.peek _) fun _ => .stepThen (.peek _) fun _ =>
      .ite ?_ (.ifPeek ?_ (.lift _))
    · exact (global_agrees _).bind global_advances fun _ =>
        ih.bind (sourceWithin_advances n) fun _ => .pure _
    · exact (function_agrees _).bind function_advances fun _ =>
        ih.bind (sourceWithin_advances n) fun _ => .pure _

/-- Programs. -/
theorem source_agrees (n : Nat) : Agrees n source Rule.source :=
  .remainingThen fun k _ => sourceWithin_agrees k

end Descent

namespace Entry

/-- The rule without bounds, cut off at a depth. -/
def descending : (entry : Entry) → Nat → Descent entry.Result
  | source => Descent.source
  | global => Descent.global
  | list => Descent.listGlobal
  | mutable => Descent.mutableGlobal
  | immutable => Descent.immutableGlobal
  | function => Descent.function
  | block => Descent.block
  | statement => Descent.statement
  | declaration => Descent.declaration
  | conditional => Descent.ifStatement
  | switch => Descent.switchStatement
  | arm => Descent.caseArm
  | loop => Descent.whileStatement
  | returning => Descent.returnStatement
  | expression => Descent.expression
  | logical => (Descent.chain · .logical)
  | comparison => (Descent.chain · .comparison)
  | additive => (Descent.chain · .additive)
  | multiplicative => (Descent.chain · .multiplicative)
  | primary => Descent.primary

/-- The rule without bounds. -/
noncomputable def descent (entry : Entry) : Descent entry.Result :=
  Descent.unbounded entry.descending

open Descent in
/-- Every entry of the reader, with the bounds that it starts with. -/
theorem agrees (n : Nat) : (entry : Entry) → Descent.Agrees n entry.descending entry.rule
  | source => source_agrees n
  | global => global_agrees n
  | list => listGlobal_agrees n
  | mutable => mutableGlobal_agrees n
  | immutable => immutableGlobal_agrees n
  | function => function_agrees n
  | block => block_agrees n
  | statement => statement_agrees n
  | declaration => declaration_agrees n
  | conditional => ifOver_agrees Rule.block_advances (block_agrees _)
  | switch => switchOver_agrees Rule.block_advances (block_agrees _)
  | arm => caseOver_agrees Rule.block_advances (block_agrees _)
  | loop => whileOver_agrees Rule.block_advances (block_agrees _)
  | returning => returnStatement_agrees n
  | expression => expression_agrees n
  | logical => logicalOver_agrees (primary_agrees n) Rule.primary_advances
  | comparison => comparisonOver_agrees (primary_agrees n) Rule.primary_advances
  | additive => additiveOver_agrees (primary_agrees n) Rule.primary_advances
  | multiplicative => multiplicativeOver_agrees (primary_agrees n) Rule.primary_advances
  | primary => primary_agrees n

/-- **The descent always ends**, and with the answer of the rule. -/
theorem descent_eq (entry : Entry) (c : Cursor) :
    entry.descent c = some (outcome entry.rule c, after entry.rule c) := by
  rw [← answered_eq]
  exact Descent.unbounded_eq (entry.agrees (c.rest.length + 1) c (Nat.lt_succ_self _))

end Entry
end Scriptlet
