import Scriptlet.Proofs.Faults

/-!
# Recursive descent without bounds

The rules repeat and nest at most as often as there are tokens left.  Here they are again
without this bound: a `Descent` calls itself as the grammar does, whatever is left, and might
never answer.  It is given by what it answers when it is cut off where its calls nest deeper
than a given depth.  The depth has nothing to do with the tokens, and the descent itself is not
cut off (`unbounded`): it answers what is answered at every depth from some depth on.

`Agrees n` compares a descent with a rule where fewer than `n` tokens are left.  A token that
was read makes room for the next round (`Agrees.bind` and `Agrees.ifAccept`).
-/

namespace Scriptlet

/-- Reading that might never answer, which is `none`. -/
abbrev Descent := ExceptT ParseError (StateT Cursor Option)

/-- The answer of a rule and the cursor that it leaves behind. -/
def answered {α : Type} : EStateM.Result ParseError Cursor α → Except ParseError α × Cursor
  | .ok a c => (.ok a, c)
  | .error e c => (.error e, c)

/-- What a rule answers is its outcome and where it stops. -/
theorem answered_eq {α : Type} (r : Rule α) (c : Cursor) :
    answered (r c) = (outcome r c, after r c) := by
  unfold outcome after
  cases r c <;> rfl

instance : MonadLift Rule Descent where
  monadLift r := fun c => some (answered (r c))

namespace Rule

/-- The start of a primary expression that is recognised by the kind of its first token: a name,
or all of a literal. -/
def primaryStart : Rule (String ⊕ Expr) := fun c =>
  match c.rest with
  | [] => fail (.expected "expression") c
  | t :: rest =>
    match t.kind with
    | .identifier => .ok (.inl t.literal) (c.past t rest)
    | .operator => failAt .invalidExpression t.index c
    | _ =>
      match literalValue t with
      | .ok value => (Sum.inr <$> literal value) (c.past t rest)
      | .error fault => failAt fault t.index (c.past t rest)

/-- A primary expression that is told from its first token, with this token read first. -/
theorem primaryByKind_eq (inner : Rule Expr) :
    primaryByKind inner = (do
      match ← primaryStart with
      | .inl name => nameTail inner name
      | .inr value => return value) := by
  funext c
  show _ = EStateM.bind primaryStart _ c
  unfold EStateM.bind primaryByKind primaryStart
  cases hrest : c.rest with
  | nil => rfl
  | cons t rest =>
    cases hkind : t.kind with
    | identifier => simp only [hkind]
    | operator =>
      simp only [hkind]
      rfl
    | integer | decimal | character | string =>
      simp only [hkind]
      cases literalValue t <;> rfl

/-- The first token of a primary expression is read. -/
theorem primaryStart_advances : Advances 1 primaryStart := by
  intro c
  unfold after primaryStart
  cases hrest : c.rest with
  | nil =>
    refine ⟨[], by simp [fail, hrest], rfl, ?_⟩
    rintro _ _ ⟨⟩
  | cons t rest =>
    cases hkind : t.kind with
    | identifier =>
      simp only [hkind]
      exact ⟨[t], rfl, rfl, fun _ _ _ => Nat.le_refl 1⟩
    | operator =>
      simp only [hkind]
      refine ⟨[], hrest.symm, rfl, ?_⟩
      rintro _ _ ⟨⟩
    | integer | decimal | character | string =>
      simp only [hkind]
      cases literalValue t with
      | ok v => exact ⟨[t], rfl, rfl, fun _ _ _ => Nat.le_refl 1⟩
      | error fault =>
        refine ⟨[t], rfl, rfl, ?_⟩
        rintro _ _ ⟨⟩

end Rule

namespace Descent

open Rule

/-- The calls nest too deep. -/
def cutOff {α : Type} : Descent α := fun _ => none

mutual

/-- Operands joined by operators of one level, grouped to the left. -/
def chain : Nat → Level → Descent Expr
  | 0, _ => cutOff
  | depth + 1, level => do
    let left ← operand depth level
    chainTail depth level left

/-- Continues a chain after its first operands. -/
def chainTail : Nat → Level → (left : Expr) → Descent Expr
  | 0, _, _ => cutOff
  | depth + 1, level, left => do
    match ← operator? level with
    | none => return left
    | some op =>
      let right ← operand depth level
      let id ← freshId
      chainTail depth level (.binary id op left right)

/-- What stands between the operators of a level. -/
def operand : Nat → Level → Descent Expr
  | 0, _ => cutOff
  | depth + 1, .logical => chain depth .comparison
  | depth + 1, .comparison => chain depth .additive
  | depth + 1, .additive => chain depth .multiplicative
  | depth + 1, .multiplicative => primary depth

/-- A primary expression. -/
def primary : Nat → Descent Expr
  | 0 => cutOff
  | depth + 1 => do
    if ← accept "NIL" then return ← literal .nil
    if ← accept "TRUE" then return ← literal (.boolean true)
    if ← accept "FALSE" then return ← literal (.boolean false)
    if ← accept "(" then
      let value ← chain depth .logical
      expect ")" "closing parenthesis"
      return .group (← freshId) value
    match ← primaryStart with
    | .inl name => nameTail depth name
    | .inr value => return value

/-- What may follow a name. -/
def nameTail : Nat → (name : String) → Descent Expr
  | 0, _ => cutOff
  | depth + 1, name => do
    if ← accept "(" then
      let arguments ← separated depth ")" "')' after arguments"
      return .call (← freshId) name arguments
    if ← accept "[" then
      let offset ← chain depth .logical
      expect "]" "']' after list offset"
      return .element (← freshId) name offset
    return .access (← freshId) name

/-- Expressions with commas between them, up to and including `close`. -/
def separated : Nat → (close what : String) → Descent (List Expr)
  | 0, _, _ => cutOff
  | depth + 1, close, what => do
    if ← accept close then return []
    commaSeparated depth close what

/-- At least one expression, with commas between them, up to and including `close`. -/
def commaSeparated : Nat → (close what : String) → Descent (List Expr)
  | 0, _, _ => cutOff
  | depth + 1, close, what => do
    let value ← chain depth .logical
    if ← accept close then return [value]
    unless ← accept "," do fail (.expected what)
    if ← peek close then fail .trailingComma
    return value :: (← commaSeparated depth close what)

end

/-- An expression. -/
def expression (depth : Nat) : Descent Expr := chain depth .logical

/-- An optional value after an equals sign. -/
def initializer (depth : Nat) : Descent (Option Expr) := do
  if ← accept "=" then some <$> expression depth else pure none

/-- A local declaration. -/
def declaration (depth : Nat) : Descent Stmt := do
  expect "LET" "LET"
  let name ← name "variable name"
  let typeName ← typeAnnotation
  let value ← initializer depth
  expect ";" "';' after declaration"
  return .declaration (← freshId) name typeName value

/-- A `RETURN` statement. -/
def returnStatement (depth : Nat) : Descent Stmt := do
  expect "RETURN" "RETURN"
  let value ← expression depth
  expect ";" "';' after RETURN value"
  return .returnWith value

/-- An assignment, or an expression used as a statement. -/
def expressionStatement (depth : Nat) : Descent Stmt := do
  let receiver ← expression depth
  if ← accept "=" then
    let value ← expression depth
    expect ";" "';' after assignment"
    return .assignment receiver value
  expect ";" "';' after expression"
  return .expression receiver

mutual

/-- A statement. -/
def statement : Nat → Descent Stmt
  | 0 => cutOff
  | depth + 1 => do
    if ← peek "LET" then declaration depth
    else if ← peek "IF" then ifStatement depth
    else if ← peek "SWITCH" then switchStatement depth
    else if ← peek "WHILE" then whileStatement depth
    else if ← peek "RETURN" then returnStatement depth
    else expressionStatement depth

/-- The statements of a block. -/
def block : Nat → Descent (List Stmt)
  | 0 => cutOff
  | depth + 1 => do
    if ← peekBlockEnd then return []
    if ← atEnd then fail (.expected "END")
    let first ← statement depth
    return first :: (← block depth)

/-- A conditional statement. -/
def ifStatement : Nat → Descent Stmt
  | 0 => cutOff
  | depth + 1 => do
    expect "IF" "IF"
    let condition ← expression depth
    expect "DO" "DO after IF condition"
    let thenBody ← block depth
    let elseBody ← if ← accept "ELSE" then block depth else pure []
    expect "END" "END to close IF"
    return .ifElse condition thenBody elseBody

/-- A `SWITCH` statement. -/
def switchStatement : Nat → Descent Stmt
  | 0 => cutOff
  | depth + 1 => do
    expect "SWITCH" "SWITCH"
    let condition ← expression depth
    let cases ← cases depth
    expect "END" "END to close SWITCH"
    return .switch condition cases

/-- The arms of a `SWITCH`. -/
def cases : Nat → Descent (List Case)
  | 0 => cutOff
  | depth + 1 => do
    if ← peek "CASE" then
      let first ← caseArm depth
      return first :: (← cases depth)
    return [← caseArm depth]

/-- One arm of a `SWITCH`. -/
def caseArm : Nat → Descent Case
  | 0 => cutOff
  | depth + 1 => do
    if ← accept "CASE" then
      let value ← expression depth
      expect ":" "':' after CASE value"
      return .mk (some value) (← block depth)
    expect "DEFAULT" "DEFAULT in SWITCH"
    return .mk none (← block depth)

/-- A loop. -/
def whileStatement : Nat → Descent Stmt
  | 0 => cutOff
  | depth + 1 => do
    expect "WHILE" "WHILE"
    let condition ← expression depth
    expect "DO" "DO after WHILE condition"
    let body ← block depth
    expect "END" "END to close WHILE"
    return .whileDo condition body

end

/-- A list, after the word `LIST`. -/
def listGlobal (depth : Nat) : Descent GlobalDecl := do
  let name ← name "list name"
  expect ":" "':' after list name"
  let typeName ← Rule.name "list element type"
  expect "=" "'=' in list declaration"
  expect "[" "'[' to open list literal"
  let elements ← separated depth "]" "']' to close list literal"
  let listId ← freshId
  return ⟨← freshId, name, some typeName, true, some (.list listId elements)⟩

/-- A variable, after the word `VAR`. -/
def mutableGlobal (depth : Nat) : Descent GlobalDecl := do
  let name ← name "variable name"
  let typeName ← typeAnnotation
  let value ← initializer depth
  return ⟨← freshId, name, typeName, true, value⟩

/-- A constant, after the word `VAL`. -/
def immutableGlobal (depth : Nat) : Descent GlobalDecl := do
  let name ← name "value name"
  let typeName ← typeAnnotation
  expect "=" "'=' in immutable declaration"
  let value ← expression depth
  return ⟨← freshId, name, typeName, false, some value⟩

/-- A global without its semicolon. -/
def globalBody (depth : Nat) : Descent GlobalDecl := do
  if ← accept "LIST" then listGlobal depth
  else if ← accept "VAR" then mutableGlobal depth
  else if ← accept "VAL" then immutableGlobal depth
  else fail (.expected "LIST, VAL, or VAR")

/-- A global. -/
def global (depth : Nat) : Descent GlobalDecl := do
  let decl ← globalBody depth
  expect ";" "';' after global"
  return decl

/-- At least one parameter with its type, up to and including the closing parenthesis. -/
def parameters : Nat → Descent (List (String × String))
  | 0 => cutOff
  | depth + 1 => do
    let parameter ← name "parameter name"
    expect ":" "':' after parameter name"
    let typeName ← name "parameter type"
    if ← accept ")" then return [(parameter, typeName)]
    expect "," "',' or ')' in parameter list"
    return (parameter, typeName) :: (← parameters depth)

/-- A function. -/
def function (depth : Nat) : Descent FunctionDecl := do
  expect "FUN" "FUN"
  let name ← name "function name"
  expect "(" "'(' after function name"
  let parameters ← if ← accept ")" then pure [] else parameters depth
  let returnTypeName ← typeAnnotation
  expect "DO" "DO"
  let body ← block depth
  expect "END" "END"
  return ⟨← freshId, name, parameters.map Prod.fst, parameters.map Prod.snd, returnTypeName, body⟩

/-- A whole program. -/
def source : Nat → Descent Source
  | 0 => cutOff
  | depth + 1 => do
    if ← atEnd then return ⟨[], []⟩
    if (← peek "LIST") || (← peek "VAR") || (← peek "VAL") then
      let first ← global depth
      let source ← source depth
      return { source with globals := first :: source.globals }
    if ← peek "FUN" then
      let first ← function depth
      let source ← source depth
      return { source with functions := first :: source.functions }
    fail (.expected "LIST, VAL, VAR, or FUN")

/-! ### Answers -/

section Answers

variable {α : Type} {x : Nat → Descent α} {c : Cursor}

/-- What the descent answers at every depth from some depth on. -/
def Answers (x : Nat → Descent α) (c : Cursor) (answer : Except ParseError α × Cursor) : Prop :=
  ∃ depth, ∀ deeper, depth ≤ deeper → x deeper c = some answer

namespace Answers

variable {answer : Except ParseError α × Cursor}

/-- An answer at every depth is an answer. -/
theorem of_eq (h : ∀ depth, x depth c = some answer) : Answers x c answer :=
  ⟨0, fun depth _ => h depth⟩

/-- There is at most one answer. -/
theorem unique {answer' : Except ParseError α × Cursor} (h : Answers x c answer)
    (h' : Answers x c answer') : answer = answer' := by
  obtain ⟨k, hk⟩ := h
  obtain ⟨k', hk'⟩ := h'
  have hmax := hk _ (Nat.le_max_left k k')
  rw [hk' _ (Nat.le_max_right k k')] at hmax
  exact (Option.some.inj hmax).symm

/-- One call deeper. -/
theorem of_succ (h : Answers (fun depth => x (depth + 1)) c answer) : Answers x c answer := by
  obtain ⟨k, hk⟩ := h
  refine ⟨k + 1, fun depth hdepth => ?_⟩
  cases depth with
  | zero => cases hdepth
  | succ depth => exact hk depth (Nat.le_of_succ_le_succ hdepth)

end Answers

open Classical in
/-- The descent that is not cut off: `none` if there is no depth from which on it answers. -/
noncomputable def unbounded (x : Nat → Descent α) : Descent α := fun c =>
  if h : ∃ answer, Answers x c answer then some h.choose else none

/-- The descent that is not cut off answers what is answered from some depth on. -/
theorem unbounded_eq {answer : Except ParseError α × Cursor} (h : Answers x c answer) :
    unbounded x c = some answer := by
  have hex : ∃ answer, Answers x c answer := ⟨answer, h⟩
  rw [unbounded, dif_pos hex, hex.choose_spec.unique h]

end Answers

/-! ### Agreement -/

section Agreement

variable {α β : Type} {n m k : Nat}

/-- Where fewer than `n` tokens are left, the descent answers what the rule answers. -/
def Agrees (n : Nat) (x : Nat → Descent α) (r : Rule α) : Prop :=
  ∀ c : Cursor, c.rest.length < n → Answers x c (answered (r c))

section Step

variable {x : Nat → Descent α} {r : Rule α} {c d : Cursor} (hx : Answers x c (answered (r c)))
include hx

/-- If the first step answers with a result, the second answers for both. -/
theorem bind_of_ok {a : α} (hr : r c = .ok a d) {f : Nat → α → Descent β}
    {answer : Except ParseError β × Cursor} (hf : Answers (f · a) d answer) :
    Answers (fun depth => x depth >>= f depth) c answer := by
  rw [hr] at hx
  obtain ⟨k, hk⟩ := hx
  obtain ⟨k', hk'⟩ := hf
  refine ⟨max k k', fun depth hdepth => ?_⟩
  show (x depth c).bind _ = _
  rw [hk depth (Nat.le_trans (Nat.le_max_left k k') hdepth)]
  exact hk' depth (Nat.le_trans (Nat.le_max_right k k') hdepth)

/-- If the first step answers with an error, this is the answer. -/
theorem bind_of_error {e : ParseError} (hr : r c = .error e d) (f : Nat → α → Descent β) :
    Answers (fun depth => x depth >>= f depth) c (.error e, d) := by
  rw [hr] at hx
  obtain ⟨k, hk⟩ := hx
  refine ⟨k, fun depth hdepth => ?_⟩
  show (x depth c).bind _ = _
  rw [hk depth hdepth]
  rfl

end Step

/-- A step without recursion. -/
theorem answers_lift (r : Rule α) (c : Cursor) :
    Answers (fun _ => liftM r) c (answered (r c)) := .of_eq fun _ => rfl

namespace Agrees

variable {x : Nat → Descent α} {r : Rule α}

/-- With fewer tokens a descent agrees as well. -/
theorem mono (h : Agrees n x r) (hm : m ≤ n) : Agrees m x r :=
  fun c hc => h c (Nat.lt_of_lt_of_le hc hm)

/-- A descent that agrees one level deeper agrees. -/
theorem of_succ (h : Agrees n (fun depth => x (depth + 1)) r) : Agrees n x r :=
  fun c hc => (h c hc).of_succ

/-- A rule agrees with itself. -/
theorem lift (r : Rule α) : Agrees n (fun _ => liftM r) r := fun c _ => answers_lift r c

/-- A result agrees with itself. -/
theorem pure (a : α) : Agrees n (fun _ => pure a) (pure a : Rule α) :=
  fun _ _ => .of_eq fun _ => rfl

/-- **A step makes room for what follows it**, by the tokens that it reads. -/
theorem bind {f : Nat → α → Descent β} {g : α → Rule β} (hx : Agrees n x r)
    (hr : Advances k r) (hf : ∀ a, Agrees (n - k) (f · a) (g a)) :
    Agrees n (fun depth => x depth >>= f depth) (r >>= g) := by
  intro c hc
  obtain ⟨ts, hrest, -, hk⟩ := hr c
  have hlength := congrArg List.length hrest
  rw [List.length_append] at hlength
  cases hrc : r c with
  | ok a d =>
    rw [bind_eq hrc]
    rw [after_eq hrc] at hlength
    have := hk a d hrc
    exact bind_of_ok (hx c hc) hrc (hf a d (by omega))
  | error e d =>
    rw [bind_eq_error hrc]
    exact bind_of_error (hx c hc) hrc f

/-- A step without recursion that may read nothing. -/
theorem stepThen {f : Nat → α → Descent β} {g : α → Rule β} (hr : Advances 0 r)
    (hf : ∀ a, Agrees n (f · a) (g a)) :
    Agrees n (fun depth => liftM r >>= f depth) (r >>= g) := (lift r).bind hr hf

/-- A number for a node, and then the rest. -/
theorem freshThen {f : Nat → NodeId → Descent β} {g : NodeId → Rule β}
    (hf : ∀ a, Agrees n (f · a) (g a)) :
    Agrees n (fun depth => liftM freshId >>= f depth) (freshId >>= g) :=
  stepThen Advances.freshId hf

/-- A token that is there makes room for one more round. -/
theorem expectThen {w what : String} (h : Agrees (n - 1) x r) :
    Agrees n (fun depth => do expect w what; x depth) (do expect w what; r) :=
  (lift _).bind (Advances.expect w what) fun _ => h

/-- A name makes room for one more round. -/
theorem nameThen {what : String} {f : Nat → String → Descent α} {g : String → Rule α}
    (h : ∀ s, Agrees (n - 1) (f · s) (g s)) :
    Agrees n (fun depth => liftM (name what) >>= f depth) (name what >>= g) :=
  (lift _).bind (Advances.name what) h

/-- Nothing is called after a failure. -/
theorem failThen (fault : ParseFault) (f : Nat → α → Descent β) (g : α → Rule β) :
    Agrees n (fun depth => liftM (fail fault : Rule α) >>= f depth) (fail fault >>= g) :=
  fun _ _ => .of_eq fun _ => rfl

/-- The answer is changed in the same way. -/
theorem map (f : α → β) (hx : Agrees n x r) (hr : Advances 0 r) :
    Agrees n (fun depth => f <$> x depth) (f <$> r) := by
  simp only [map_eq_pure_bind]
  exact hx.bind hr fun a => pure (f a)

section Choice

variable {yes no : Nat → Descent α} {yes' no' : Rule α}

/-- Both take the same branch. -/
theorem ite {b : Prop} [Decidable b] (hyes : Agrees n yes yes') (hno : Agrees n no no') :
    Agrees n (fun depth => if b then yes depth else no depth) (if b then yes' else no') := by
  by_cases h : b
  · simpa only [if_pos h] using hyes
  · simpa only [if_neg h] using hno

/-- Both look at the same token, which is not read. -/
theorem ifPeek {w : String} (hyes : Agrees n yes yes') (hno : Agrees n no no') :
    Agrees n (fun depth => do if ← peek w then yes depth else no depth)
      (do if ← peek w then yes' else no') :=
  stepThen (Advances.peek w) fun _ => ite hyes hno

/-- **A token that was asked for makes room** for what follows it. -/
theorem ifAccept {w : String} (hyes : Agrees (n - 1) yes yes') (hno : Agrees n no no') :
    Agrees n (fun depth => do if ← accept w then yes depth else no depth)
      (do if ← accept w then yes' else no') := by
  intro c hc
  rcases accept_cases w c with ⟨t, rest, hrest, -, h⟩ | ⟨-, h⟩
  · rw [bind_eq h]
    refine bind_of_ok (answers_lift _ c) h (hyes _ ?_)
    rw [hrest, List.length_cons] at hc
    exact Nat.lt_sub_of_add_lt hc
  · rw [bind_eq h]
    exact bind_of_ok (answers_lift _ c) h (hno c hc)

end Choice

/-- An operator of the level makes room for its right operand. -/
theorem ifOperator {level : Level} {f : Nat → Option BinaryOp → Descent α}
    {g : Option BinaryOp → Rule α} (hnone : Agrees n (f · none) (g none))
    (hsome : ∀ op, Agrees (n - 1) (f · (some op)) (g (some op))) :
    Agrees n (fun depth => liftM (operator? level) >>= f depth) (operator? level >>= g) := by
  intro c hc
  rcases operator?_cases level c with h | ⟨op, t, rest, hrest, -, h⟩
  · rw [bind_eq h]
    exact bind_of_ok (answers_lift _ c) h (hnone c hc)
  · rw [bind_eq h]
    refine bind_of_ok (answers_lift _ c) h (hsome op _ ?_)
    rw [hrest, List.length_cons] at hc
    exact Nat.lt_sub_of_add_lt hc

/-- A rule with a bound: it is enough to compare it where just as many tokens are left. -/
theorem remainingThen {f : Nat → Rule α} (h : ∀ k < n, Agrees (k + 1) x (f k)) :
    Agrees n x (remaining >>= f) := fun c hc =>
  h c.rest.length hc c (Nat.lt_succ_self _)

end Agrees

end Agreement

end Descent
end Scriptlet
