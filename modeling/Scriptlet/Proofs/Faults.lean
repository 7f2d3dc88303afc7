import Scriptlet.Proofs.Progress

/-!
# Where errors come from

A rule fails because something else should come next, or because of a token that is there: it
denotes no literal, or is an operator where an expression should start.  In the first case the
error stands after the last token that was read, in the second case at the token
(`ParseError.Origin`).  This is followed through all rules, for any tokens (`Entry.locates`).
-/

namespace Scriptlet

/-- Faults of a token that is there, and not of one that is missing. -/
def ParseFault.OfToken : ParseFault → Prop
  | expected _ | trailingComma => False
  | invalidInteger | invalidDecimal | invalidCharacter | invalidExpression => True

/-- What an error on the way from the cursor `c` to the cursor `d` complains about. -/
inductive ParseError.Origin (e : ParseError) (c d : Cursor) : Prop where
  /-- Something else should come after the last token that was read. -/
  | missing : ¬ e.fault.OfToken → e.index = d.stop → Origin e c d
  /-- A token denotes no literal. -/
  | token {t : Token} : t ∈ c.rest → t.kind ≠ .identifier →
    Rule.literalValue t = .error e.fault → e.index = t.index → Origin e c d

/-- An error that comes from some of the tokens. -/
theorem ParseError.Origin.mono {e : ParseError} {c c' d : Cursor} (h : e.Origin c' d)
    (hrest : c'.rest ⊆ c.rest) : e.Origin c d := by
  cases h with
  | missing hfault hindex => exact .missing hfault hindex
  | token ht hkind hvalue hindex => exact .token (hrest ht) hkind hvalue hindex

namespace Rule

variable {α β : Type}

/-- The rule reads forward, and its errors come from the tokens in front of it. -/
structure Locates (r : Rule α) : Prop where
  forward : ∀ c, (after r c).rest ⊆ c.rest
  origin : ∀ {c e d}, r c = .error e d → e.Origin c d

namespace Locates

/-- A rule that never fails. -/
theorem of_ok {r : Rule α} (h : ∀ c, ∃ a d, r c = .ok a d ∧ d.rest ⊆ c.rest) : Locates r where
  forward c := by
    obtain ⟨a, d, hr, hrest⟩ := h c
    rwa [after_eq hr]
  origin := by
    intro c e d he
    obtain ⟨a, d', hr, -⟩ := h c
    cases hr.symm.trans he

/-- A result is no error. -/
theorem pure (a : α) : Locates (pure a : Rule α) := of_ok fun c => ⟨a, c, rfl, List.Subset.refl _⟩

/-- To look at the next token never fails. -/
theorem peek (literal : String) : Locates (peek literal) :=
  of_ok fun c => ⟨_, c, rfl, List.Subset.refl _⟩

/-- To look for the end of a block never fails. -/
theorem peekBlockEnd : Locates peekBlockEnd := of_ok fun c => ⟨_, c, rfl, List.Subset.refl _⟩

/-- To ask for the end of the text never fails. -/
theorem atEnd : Locates atEnd := of_ok fun c => ⟨_, c, rfl, List.Subset.refl _⟩

/-- There is always another number. -/
theorem freshId : Locates freshId := of_ok fun _ => ⟨_, _, rfl, List.Subset.refl _⟩

/-- To count the tokens that are left never fails. -/
theorem remaining : Locates remaining := of_ok fun c => ⟨_, c, rfl, List.Subset.refl _⟩

/-- To ask for a token never fails. -/
theorem accept (literal : String) : Locates (accept literal) := by
  refine of_ok fun c => ?_
  rcases accept_cases literal c with ⟨t, rest, hrest, -, h⟩ | ⟨-, h⟩
  · exact ⟨true, _, h, by rw [hrest]; exact List.subset_cons_self t rest⟩
  · exact ⟨false, c, h, List.Subset.refl _⟩

/-- To ask for an operator never fails. -/
theorem operator? (level : Level) : Locates (operator? level) := by
  refine of_ok fun c => ?_
  rcases operator?_cases level c with h | ⟨op, t, rest, hrest, -, h⟩
  · exact ⟨none, c, h, List.Subset.refl _⟩
  · exact ⟨some op, _, h, by rw [hrest]; exact List.subset_cons_self t rest⟩

/-- A fault that is not about a token stands after the last token that was read. -/
theorem fail {fault : ParseFault} (h : ¬ fault.OfToken) : Locates (fail fault : Rule α) where
  forward _ := List.Subset.refl _
  origin he := by
    cases he
    exact .missing h rfl

/-- An error of the second rule stands after what both have read, which the first has moved past. -/
theorem bind {x : Rule α} {f : α → Rule β} (hx : Locates x) (hf : ∀ a, Locates (f a)) :
    Locates (x >>= f) where
  forward c := by
    have hrest := hx.forward c
    cases hxc : x c with
    | ok a d =>
      rw [after_eq hxc] at hrest
      rw [after_bind_ok hxc]
      exact List.Subset.trans ((hf a).forward d) hrest
    | error e d =>
      rw [after_eq_of_error hxc] at hrest
      rwa [after_bind_error hxc]
  origin := by
    intro c e d he
    cases hxc : x c with
    | ok a d' =>
      rw [bind_eq hxc] at he
      have hrest := hx.forward c
      rw [after_eq hxc] at hrest
      exact ((hf a).origin he).mono hrest
    | error e' d' =>
      rw [bind_eq_error hxc] at he
      cases he
      exact hx.origin hxc

/-- The result is changed, and the error is not. -/
theorem map (f : α → β) {r : Rule α} (h : Locates r) : Locates (f <$> r) := by
  rw [map_eq_bind]
  exact h.bind fun a => pure (f a)

/-- The error is that of the branch that was taken. -/
theorem ite {b : Prop} [Decidable b] {yes no : Rule α} (hyes : Locates yes) (hno : Locates no) :
    Locates (if b then yes else no) := by
  split
  · exact hyes
  · exact hno

/-- A token that was read is in front of what the rule after it reads. -/
theorem ifAccept {literal : String} {yes no : Rule α} (hyes : Locates yes) (hno : Locates no) :
    Locates (do if ← Rule.accept literal then yes else no) :=
  (accept literal).bind fun _ => hyes.ite hno

/-- Looking at a token first moves nothing. -/
theorem ifPeek {literal : String} {yes no : Rule α} (hyes : Locates yes) (hno : Locates no) :
    Locates (do if ← Rule.peek literal then yes else no) :=
  (peek literal).bind fun _ => hyes.ite hno

/-- Asking for the end first moves nothing. -/
theorem ifAtEnd {yes no : Rule α} (hyes : Locates yes) (hno : Locates no) :
    Locates (do if ← Rule.atEnd then yes else no) := atEnd.bind fun _ => hyes.ite hno

/-- What is read last is put into a tree. -/
theorem thenPure {r : Rule α} {f : α → β} (h : Locates r) :
    Locates (r >>= fun a => Pure.pure (f a)) := h.bind fun _ => pure _

/-- A node is made of what was read, which cannot fail. -/
theorem thenNode {r : Rule α} {f : α → NodeId → β} (h : Locates r) :
    Locates (r >>= fun a => Rule.freshId >>= fun id => Pure.pure (f a id)) :=
  h.bind fun _ => freshId.thenPure

/-- The token that is missing should come next. -/
theorem expect (literal what : String) : Locates (expect literal what) :=
  ifAccept (pure ()) (fail id)

/-- The token is missing, or the rule after it fails. -/
theorem expectThen {literal what : String} {r : Rule α} (h : Locates r) :
    Locates (do Rule.expect literal what; r) := (expect literal what).bind fun _ => h

/-- The name that is missing should come next. -/
theorem name (what : String) : Locates (name what) := by
  have hcases : ∀ c, Rule.name what c = Rule.fail (.expected what) c ∨
      ∃ t rest, c.rest = t :: rest ∧ Rule.name what c = .ok t.literal (c.past t rest) := by
    intro c
    unfold Rule.name
    cases hrest : c.rest with
    | nil => exact .inl rfl
    | cons t rest =>
      by_cases hkind : t.kind = .identifier
      · exact .inr ⟨t, rest, rfl, if_pos hkind⟩
      · exact .inl (if_neg hkind)
  constructor
  · intro c
    rcases hcases c with h | ⟨t, rest, hrest, h⟩
    · rw [after, h]
      exact List.Subset.refl _
    · rw [after_eq h, hrest]
      exact List.subset_cons_self t rest
  · intro c e d he
    rcases hcases c with h | ⟨t, rest, hrest, h⟩
    · rw [h] at he
      cases he
      exact .missing id rfl
    · cases h.symm.trans he

/-- The name is missing, or the rule after it fails. -/
theorem nameThen {what : String} {f : String → Rule α} (h : ∀ s, Locates (f s)) :
    Locates (Rule.name what >>= f) := (name what).bind h

end Locates

/-! ### Expressions -/

/-- A literal is a value already. -/
theorem literal_locates (v : Literal) : Locates (literal v) := Locates.freshId.thenPure

section Inner

variable {inner : Rule Expr} (hinner : Locates inner)
include hinner

/-- An element fails, or a comma or bracket is missing. -/
theorem commaSeparated_locates (close what : String) (n : Nat) :
    Locates (commaSeparated inner close what n) := by
  induction n with
  | zero => exact .fail id
  | succ n ih =>
    refine hinner.bind fun value => .ifAccept (.pure _) (.ifAccept ?_ ?_)
    · exact .ifPeek ((Locates.fail id).bind fun _ => ih.thenPure) ih.thenPure
    · refine (Locates.fail id).bind fun _ => ?_
      exact .ifPeek ((Locates.fail id).bind fun _ => ih.thenPure) ih.thenPure

/-- An element fails, or a comma or bracket is missing; an empty list has no error. -/
theorem separated_locates (close what : String) : Locates (separated inner close what) :=
  .ifAccept (.pure _) (Locates.remaining.bind (commaSeparated_locates hinner close what))

/-- Arguments or an index fail. -/
theorem nameTail_locates (name : String) : Locates (nameTail inner name) := by
  refine .ifAccept (separated_locates hinner _ _).thenNode (.ifAccept ?_ Locates.freshId.thenPure)
  exact hinner.bind fun _ => .expectThen Locates.freshId.thenPure

/-- After its first token a primary expression goes on with tokens that were there. -/
theorem primaryAfter_forward (t : Token) (c : Cursor) :
    (after (primaryAfter inner t) c).rest ⊆ c.rest := by
  unfold primaryAfter
  split
  · exact (nameTail_locates hinner t.literal).forward c
  · split
    · exact (literal_locates _).forward c
    · exact List.Subset.refl _

/-- The error comes from arguments or an index, or the first token was no name and denotes no
literal. -/
theorem primaryAfter_origin {t : Token} {c d : Cursor} {e : ParseError}
    (he : primaryAfter inner t c = .error e d) :
    e.Origin c d ∨
      (t.kind ≠ .identifier ∧ literalValue t = .error e.fault ∧ e.index = t.index) := by
  by_cases hname : t.kind = .identifier
  · simp only [primaryAfter, hname] at he
    exact .inl ((nameTail_locates hinner t.literal).origin he)
  · refine .inr ⟨hname, ?_⟩
    simp only [primaryAfter] at he
    cases hvalue : literalValue t with
    | ok v =>
      rw [hvalue] at he
      cases he
    | error fault =>
      rw [hvalue] at he
      cases he
      exact ⟨rfl, rfl⟩

/-- Here errors at a token come up: an operator where an expression should start, and a literal
that denotes nothing. -/
theorem primaryByKind_locates : Locates (primaryByKind inner) where
  forward c := by
    cases hrest : c.rest with
    | nil => rw [after_eq_of_error (primaryByKind_nil inner hrest), hrest]; exact List.Subset.refl _
    | cons t rest =>
      by_cases hkind : t.kind = .operator
      · rw [after_eq_of_error (primaryByKind_operator inner hrest hkind), hrest]
        exact List.Subset.refl _
      · rw [after, primaryByKind_other inner hrest hkind, ← after]
        exact List.Subset.trans (primaryAfter_forward hinner t _) (List.subset_cons_self t rest)
  origin := by
    intro c e d he
    cases hrest : c.rest with
    | nil =>
      cases (primaryByKind_nil inner hrest).symm.trans he
      exact .missing id rfl
    | cons t rest =>
      have ht : t ∈ c.rest := hrest ▸ List.mem_cons_self
      by_cases hkind : t.kind = .operator
      · cases (primaryByKind_operator inner hrest hkind).symm.trans he
        exact .token ht (by rw [hkind]; decide) (by rw [literalValue, hkind]) rfl
      · rw [primaryByKind_other inner hrest hkind] at he
        rcases primaryAfter_origin hinner he with h | ⟨hname, hvalue, hindex⟩
        · exact h.mono (hrest ▸ List.subset_cons_self t rest)
        · exact .token ht hname hvalue hindex

/-- A primary expression fails at its brackets or because of its first token. -/
theorem primaryOver_locates : Locates (primaryOver inner) := by
  have hliteral : ∀ v, Locates (literal v >>= fun e => pure e) := fun v =>
    (literal_locates v).thenPure
  refine .ifAccept (hliteral _) (.ifAccept (hliteral _) (.ifAccept (hliteral _) (.ifAccept ?_ ?_)))
  · exact hinner.bind fun _ => .expectThen Locates.freshId.thenPure
  · exact primaryByKind_locates hinner

end Inner

/-- An operand fails; there is always an operator or none. -/
theorem chainTail_locates {operand : Rule Expr} (h : Locates operand) (level : Level) (n : Nat) :
    ∀ left, Locates (chainTail level operand n left) := by
  induction n with
  | zero => exact fun left => .pure left
  | succ n ih =>
    intro left
    refine (Locates.operator? level).bind fun op => ?_
    cases op with
    | none => exact .pure left
    | some op => exact h.bind fun _ => Locates.freshId.bind fun _ => ih _

/-- An operand fails. -/
theorem chain_locates {operand : Rule Expr} (h : Locates operand) (level : Level) :
    Locates (chain level operand) :=
  h.bind fun left => Locates.remaining.bind fun n => chainTail_locates h level n left

/-- Errors come from primary expressions, through all levels of operators. -/
theorem logicalOver_locates {primary : Rule Expr} (h : Locates primary) :
    Locates (logicalOver primary) :=
  chain_locates (chain_locates (chain_locates (chain_locates h _) _) _) _

/-- An expression to some depth of brackets. -/
theorem expressionWithin_locates (n : Nat) : Locates (expressionWithin n) := by
  induction n with
  | zero => exact .fail id
  | succ n ih => exact logicalOver_locates (primaryOver_locates ih)

/-- Errors of expressions. -/
theorem expression_locates : Locates expression := Locates.remaining.bind expressionWithin_locates

/-- Errors of primary expressions. -/
theorem primary_locates : Locates primary :=
  Locates.remaining.bind fun n => primaryOver_locates (expressionWithin_locates n)

/-! ### Statements -/

/-- After a colon a name must come. -/
theorem typeAnnotation_locates : Locates typeAnnotation :=
  .ifAccept ((Locates.name _).map some) (.pure _)

/-- After `=` an expression must come. -/
theorem initializer_locates : Locates initializer :=
  .ifAccept (expression_locates.map some) (.pure _)

/-- Errors of declarations: a word, the name, or a part. -/
theorem declaration_locates : Locates declaration :=
  .expectThen (.nameThen fun _ => typeAnnotation_locates.bind fun _ =>
    initializer_locates.bind fun _ => .expectThen Locates.freshId.thenPure)

/-- Errors of `RETURN`: a word, or the expression. -/
theorem returnStatement_locates : Locates returnStatement :=
  .expectThen (expression_locates.bind fun _ => .expectThen (.pure _))

/-- Errors of assignments and of expressions that are statements. -/
theorem expressionStatement_locates : Locates expressionStatement :=
  expression_locates.bind fun _ => .ifAccept
    (expression_locates.bind fun _ => .expectThen (.pure _)) (.expectThen (.pure _))

/-- A statement fails; the end of a block is not an error. -/
theorem blockWithin_locates {statement : Rule Stmt} (h : Locates statement) (n : Nat) :
    Locates (blockWithin statement n) := by
  induction n with
  | zero => exact .fail id
  | succ n ih =>
    have hrest := h.bind fun first => ih.thenPure (f := (first :: ·))
    refine Locates.peekBlockEnd.bind fun _ => .ite (.pure _) (.ifAtEnd ?_ hrest)
    exact (Locates.fail id).bind fun _ => hrest

/-- A statement of the block fails. -/
theorem blockOver_locates {statement : Rule Stmt} (h : Locates statement) :
    Locates (blockOver statement) := Locates.remaining.bind (blockWithin_locates h)

section Block

variable {block : Rule (List Stmt)} (hblock : Locates block)
include hblock

/-- Errors of `IF`: a word, the condition, or a branch. -/
theorem ifOver_locates : Locates (ifOver block) := by
  refine .expectThen (expression_locates.bind fun _ => .expectThen (hblock.bind fun _ => ?_))
  refine .ifAccept (hblock.bind fun _ => .expectThen (.pure _)) ?_
  exact (Locates.pure _).bind fun _ => .expectThen (.pure _)

/-- Errors of `WHILE`: a word, the condition, or the body. -/
theorem whileOver_locates : Locates (whileOver block) :=
  .expectThen (expression_locates.bind fun _ => .expectThen (hblock.bind fun _ =>
    .expectThen (.pure _)))

/-- Errors of an arm: a word, its value, or its body. -/
theorem caseOver_locates : Locates (caseOver block) :=
  .ifAccept (expression_locates.bind fun _ => .expectThen hblock.thenPure)
    (.expectThen hblock.thenPure)

/-- An arm fails. -/
theorem casesWithin_locates (n : Nat) : Locates (casesWithin block n) := by
  have hcase := caseOver_locates hblock
  induction n with
  | zero => exact hcase.thenPure
  | succ n ih => exact .ifPeek (hcase.bind fun _ => ih.thenPure) hcase.thenPure

/-- Errors of `SWITCH`: a word, what is switched on, or an arm. -/
theorem switchOver_locates : Locates (switchOver block) :=
  .expectThen (expression_locates.bind fun _ => Locates.remaining.bind fun n =>
    (casesWithin_locates hblock n).bind fun _ => .expectThen (.pure _))

/-- Every statement, by its first word. -/
theorem statementOver_locates : Locates (statementOver block) :=
  .ifPeek declaration_locates (.ifPeek (ifOver_locates hblock) (.ifPeek
    (switchOver_locates hblock) (.ifPeek (whileOver_locates hblock) (.ifPeek
      returnStatement_locates expressionStatement_locates))))

end Block

/-- A statement to some depth of blocks. -/
theorem statementWithin_locates (n : Nat) : Locates (statementWithin n) := by
  induction n with
  | zero => exact .fail id
  | succ n ih => exact statementOver_locates (blockOver_locates ih)

/-- Errors of statements. -/
theorem statement_locates : Locates statement := Locates.remaining.bind statementWithin_locates

/-- Errors of blocks. -/
theorem block_locates : Locates block :=
  Locates.remaining.bind fun n => blockOver_locates (statementWithin_locates n)

/-! ### Programs -/

/-- Errors of lists, after `LIST`. -/
theorem listGlobal_locates : Locates listGlobal := by
  refine .nameThen fun _ => .expectThen (.nameThen fun _ => .expectThen (.expectThen ?_))
  exact (separated_locates expression_locates _ _).bind fun _ => Locates.freshId.thenNode

/-- Errors of variables, after `VAR`. -/
theorem mutableGlobal_locates : Locates mutableGlobal :=
  .nameThen fun _ => typeAnnotation_locates.bind fun _ => initializer_locates.thenNode

/-- Errors of constants, after `VAL`. -/
theorem immutableGlobal_locates : Locates immutableGlobal :=
  .nameThen fun _ => typeAnnotation_locates.bind fun _ => .expectThen expression_locates.thenNode

/-- Errors of globals of any sort. -/
theorem global_locates : Locates global := by
  have hbody : Locates globalBody := .ifAccept listGlobal_locates
    (.ifAccept mutableGlobal_locates (.ifAccept immutableGlobal_locates (.fail id)))
  exact hbody.bind fun _ => .expectThen (.pure _)

/-- A name, a colon or a comma is missing. -/
theorem parametersWithin_locates (n : Nat) : Locates (parametersWithin n) := by
  induction n with
  | zero => exact .fail id
  | succ n ih =>
    refine .nameThen fun _ => .expectThen (.nameThen fun _ => .ifAccept (.pure _) ?_)
    exact .expectThen ih.thenPure

/-- Errors of functions: a word, the name, a parameter, or the body. -/
theorem function_locates : Locates function := by
  have hend : ∀ (name : String) (parameters : List (String × String)), Locates (do
      let returnTypeName ← typeAnnotation
      expect "DO" "DO"
      let body ← block
      expect "END" "END"
      return (⟨← freshId, name, parameters.map Prod.fst, parameters.map Prod.snd, returnTypeName,
        body⟩ : FunctionDecl)) := fun _ _ =>
    typeAnnotation_locates.bind fun _ => .expectThen (block_locates.bind fun _ =>
      .expectThen Locates.freshId.thenPure)
  refine .expectThen (.nameThen fun _ => .expectThen (.ifAccept ?_ ?_))
  · exact (Locates.pure _).bind fun _ => hend _ _
  · exact Locates.remaining.bind fun n => (parametersWithin_locates n).bind fun _ => hend _ _

/-- A global or function fails. -/
theorem sourceWithin_locates (n : Nat) : Locates (sourceWithin n) := by
  induction n with
  | zero => exact .pure _
  | succ n ih =>
    refine .ifAtEnd (.pure _) ((Locates.peek _).bind fun _ => (Locates.peek _).bind fun _ =>
      (Locates.peek _).bind fun _ => .ite ?_ (.ifPeek ?_ (.fail id)))
    · exact global_locates.bind fun _ => ih.thenPure
    · exact function_locates.bind fun _ => ih.thenPure

/-- Errors of programs. -/
theorem source_locates : Locates source := Locates.remaining.bind sourceWithin_locates

end Rule

/-! ### Rules that may be called -/

/-- The rules with which reading may start. -/
inductive Entry where
  | source | global | list | mutable | immutable | function
  | block | statement | declaration | conditional | switch | arm | loop | returning
  | expression | logical | comparison | additive | multiplicative | primary
  deriving DecidableEq, Repr

namespace Entry

/-- What a rule reads. -/
def Result : Entry → Type
  | source => Source
  | global | list | mutable | immutable => GlobalDecl
  | function => FunctionDecl
  | block => List Stmt
  | statement | declaration | conditional | switch | loop | returning => Stmt
  | arm => Case
  | expression | logical | comparison | additive | multiplicative | primary => Expr

/-- The rule itself. -/
def rule : (entry : Entry) → Rule entry.Result
  | source => Rule.source
  | global => Rule.global
  | list => Rule.listGlobal
  | mutable => Rule.mutableGlobal
  | immutable => Rule.immutableGlobal
  | function => Rule.function
  | block => Rule.block
  | statement => Rule.statement
  | declaration => Rule.declaration
  | conditional => Rule.ifStatement
  | switch => Rule.switchStatement
  | arm => Rule.caseArm
  | loop => Rule.whileStatement
  | returning => Rule.returnStatement
  | expression => Rule.expression
  | logical => Rule.logical
  | comparison => Rule.comparison
  | additive => Rule.additive
  | multiplicative => Rule.multiplicative
  | primary => Rule.primary

/-- **Every error comes from the tokens in front of the rule**, whichever rule it is. -/
theorem locates : (entry : Entry) → Rule.Locates entry.rule
  | source => Rule.source_locates
  | global => Rule.global_locates
  | list => Rule.listGlobal_locates
  | mutable => Rule.mutableGlobal_locates
  | immutable => Rule.immutableGlobal_locates
  | function => Rule.function_locates
  | block => Rule.block_locates
  | statement => Rule.statement_locates
  | declaration => Rule.declaration_locates
  | conditional => Rule.ifOver_locates Rule.block_locates
  | switch => Rule.switchOver_locates Rule.block_locates
  | arm => Rule.caseOver_locates Rule.block_locates
  | loop => Rule.whileOver_locates Rule.block_locates
  | returning => Rule.returnStatement_locates
  | expression => Rule.expression_locates
  | logical => Rule.logicalOver_locates Rule.primary_locates
  | comparison =>
    Rule.chain_locates (Rule.chain_locates (Rule.chain_locates Rule.primary_locates _) _) _
  | additive => Rule.chain_locates (Rule.chain_locates Rule.primary_locates _) _
  | multiplicative => Rule.chain_locates Rule.primary_locates _
  | primary => Rule.primary_locates

end Entry
end Scriptlet
