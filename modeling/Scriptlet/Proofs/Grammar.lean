import Scriptlet.Proofs.Denotation

/-!
# The grammar

Which lists of tokens are programs, and which program each of them is.  A relation
`R ts x` says that all of `ts`, and nothing else, spells `x`.  Node ids are not part
of the grammar: every rule holds for any of them.

```text
source    = (global | function)*
global    = "LIST" name ":" type "=" "[" items ";"
          | "VAR" name (":" type)? ("=" expression)? ";"
          | "VAL" name (":" type)? "=" expression ";"
function  = "FUN" name "(" parameters (":" type)? "DO" block "END"
block     = statement*
statement = "LET" name (":" type)? ("=" expression)? ";"
          | "IF" expression "DO" block ("ELSE" block)? "END"
          | "SWITCH" expression ("CASE" expression ":" block)* "DEFAULT" block "END"
          | "WHILE" expression "DO" block "END"
          | "RETURN" expression ";"
          | expression ("=" expression)? ";"

expression = comparison (("&&" | "||") comparison)*
comparison = sum (("<" | ">" | "==" | "!=") sum)*
sum        = product (("+" | "-") product)*
product    = primary (("*" | "/" | "^") primary)*
```

Keywords are words like any other, and a name may be any word.  Two positions are
set apart from this: a statement that starts with a keyword of statements is no
expression, and one that starts with a word that ends blocks is no statement of a
block.  In an expression the words `NIL`, `TRUE` and `FALSE` are literals.

Expressions are built from four levels of operators, all associating to the left;
between the operators of a level stand operands of the next tighter level, and
between those of the tightest level primary expressions.
-/

namespace Scriptlet
namespace Grammar

/-- The tokens start with one of some words. -/
def StartsWith (words : List String) (ts : List Token) : Prop :=
  ∃ t rest, ts = t :: rest ∧ t.literal ∈ words

/-- Words that stand for literals in an expression. -/
def literalWords : List String := ["NIL", "TRUE", "FALSE"]

/-- Words that start a statement of their own form. -/
def statementWords : List String := ["LET", "IF", "SWITCH", "WHILE", "RETURN"]

/-- Words that end a block. -/
def blockEnds : List String := ["END", "ELSE", "CASE", "DEFAULT"]

/-- A word that stands for a variable or a function in an expression. -/
def IsVariable (t : Token) : Prop := t.kind = .identifier ∧ t.literal ∉ literalWords

/-- The operators of each level, by what is written for them. -/
inductive Joins : Level → String → BinaryOp → Prop where
  | and : Joins .logical "&&" .and
  | or : Joins .logical "||" .or
  | less : Joins .comparison "<" .less
  | greater : Joins .comparison ">" .greater
  | equal : Joins .comparison "==" .equal
  | notEqual : Joins .comparison "!=" .notEqual
  | add : Joins .additive "+" .add
  | subtract : Joins .additive "-" .subtract
  | multiply : Joins .multiplicative "*" .multiply
  | divide : Joins .multiplicative "/" .divide
  | power : Joins .multiplicative "^" .power

/-- The tables of levels and of symbols agree with the grammar. -/
theorem joins_iff {level : Level} {text : String} {op : BinaryOp} :
    Joins level text op ↔ op.level = level ∧ text = op.symbol := by
  constructor
  · intro h
    cases h <;> exact ⟨rfl, rfl⟩
  · rintro ⟨rfl, rfl⟩
    cases op with
    | and => exact .and
    | or => exact .or
    | less => exact .less
    | greater => exact .greater
    | equal => exact .equal
    | notEqual => exact .notEqual
    | add => exact .add
    | subtract => exact .subtract
    | multiply => exact .multiply
    | divide => exact .divide
    | power => exact .power

mutual

/-- What stands between the operators of a level. -/
inductive Operand : Level → List Token → Expr → Prop where
  | primary {ts : List Token} {e : Expr} : Primary ts e → Operand .multiplicative ts e
  | product {ts : List Token} {e : Expr} : Chain .multiplicative ts e → Operand .additive ts e
  | sum {ts : List Token} {e : Expr} : Chain .additive ts e → Operand .comparison ts e
  | comparison {ts : List Token} {e : Expr} : Chain .comparison ts e → Operand .logical ts e

/-- Operands joined by operators of a level. -/
inductive Chain : Level → List Token → Expr → Prop where
  | operand {level : Level} {ts : List Token} {e : Expr} : Operand level ts e → Chain level ts e
  | binary {level : Level} {ts us : List Token} {o : Token} {id : NodeId} {op : BinaryOp}
    {l r : Expr} :
    Chain level ts l → Joins level o.literal op → Operand level us r →
      Chain level (ts ++ o :: us) (.binary id op l r)

/-- Expressions without an operator at their top. -/
inductive Primary : List Token → Expr → Prop where
  | nil {t : Token} {id : NodeId} : t.literal = "NIL" → Primary [t] (.literal id .nil)
  | isTrue {t : Token} {id : NodeId} :
    t.literal = "TRUE" → Primary [t] (.literal id (.boolean true))
  | isFalse {t : Token} {id : NodeId} :
    t.literal = "FALSE" → Primary [t] (.literal id (.boolean false))
  | literal {t : Token} {id : NodeId} {v : Literal} : Denotes t v → Primary [t] (.literal id v)
  | group {l r : Token} {ts : List Token} {id : NodeId} {e : Expr} :
    l.literal = "(" → Chain .logical ts e → r.literal = ")" →
      Primary (l :: (ts ++ [r])) (.group id e)
  | access {t : Token} {id : NodeId} : IsVariable t → Primary [t] (.access id t.literal)
  | element {t l r : Token} {ts : List Token} {id : NodeId} {e : Expr} :
    IsVariable t → l.literal = "[" → Chain .logical ts e → r.literal = "]" →
      Primary (t :: l :: (ts ++ [r])) (.element id t.literal e)
  | call {t l : Token} {ts : List Token} {id : NodeId} {args : List Expr} :
    IsVariable t → l.literal = "(" → Items ")" ts args →
      Primary (t :: l :: ts) (.call id t.literal args)

/-- Expressions with commas between them, if there are any, and then `close`. -/
inductive Items : String → List Token → List Expr → Prop where
  | none {close : String} {t : Token} : t.literal = close → Items close [t] []
  | some {close : String} {ts : List Token} {es : List Expr} :
    Several close ts es → Items close ts es

/-- At least one expression, with commas between them, and then `close`. -/
inductive Several : String → List Token → List Expr → Prop where
  | last {close : String} {t : Token} {ts : List Token} {e : Expr} :
    Chain .logical ts e → t.literal = close → Several close (ts ++ [t]) [e]
  | more {close : String} {comma : Token} {ts us : List Token} {e : Expr} {es : List Expr} :
    Chain .logical ts e → comma.literal = "," → Several close us es →
      Several close (ts ++ comma :: us) (e :: es)

end

/-- An expression. -/
abbrev Expression : List Token → Expr → Prop := Chain .logical

theorem Primary.expression {ts : List Token} {e : Expr} (h : Primary ts e) : Expression ts e :=
  .operand (.comparison (.operand (.sum (.operand (.product (.operand (.primary h)))))))

/-- An optional type after a colon. -/
inductive Annotation : List Token → Option String → Prop where
  | none : Annotation [] none
  | some {colon t : Token} :
    colon.literal = ":" → t.kind = .identifier → Annotation [colon, t] (some t.literal)

/-- An optional value after an equals sign. -/
inductive Initializer : List Token → Option Expr → Prop where
  | none : Initializer [] none
  | some {equals : Token} {ts : List Token} {e : Expr} :
    equals.literal = "=" → Expression ts e → Initializer (equals :: ts) (some e)

mutual

/-- A statement. -/
inductive Statement : List Token → Stmt → Prop where
  | expression {ts : List Token} {semicolon : Token} {e : Expr} :
    ¬ StartsWith statementWords ts → Expression ts e → semicolon.literal = ";" →
      Statement (ts ++ [semicolon]) (.expression e)
  | assignment {ts us : List Token} {equals semicolon : Token} {receiver value : Expr} :
    ¬ StartsWith statementWords ts → Expression ts receiver → equals.literal = "=" →
      Expression us value → semicolon.literal = ";" →
        Statement (ts ++ equals :: (us ++ [semicolon])) (.assignment receiver value)
  | declaration {word name semicolon : Token} {ts us : List Token} {id : NodeId}
    {typeName : Option String} {value : Option Expr} :
    word.literal = "LET" → name.kind = .identifier → Annotation ts typeName →
      Initializer us value → semicolon.literal = ";" →
        Statement (word :: name :: (ts ++ (us ++ [semicolon])))
          (.declaration id name.literal typeName value)
  | ifThen {word doWord endWord : Token} {ts us : List Token} {condition : Expr}
    {thenBody : List Stmt} :
    word.literal = "IF" → Expression ts condition → doWord.literal = "DO" → Block us thenBody →
      endWord.literal = "END" →
        Statement (word :: (ts ++ doWord :: (us ++ [endWord]))) (.ifElse condition thenBody [])
  | ifElse {word doWord elseWord endWord : Token} {ts us vs : List Token} {condition : Expr}
    {thenBody elseBody : List Stmt} :
    word.literal = "IF" → Expression ts condition → doWord.literal = "DO" → Block us thenBody →
      elseWord.literal = "ELSE" → Block vs elseBody → endWord.literal = "END" →
        Statement (word :: (ts ++ doWord :: (us ++ elseWord :: (vs ++ [endWord]))))
          (.ifElse condition thenBody elseBody)
  | switch {word endWord : Token} {ts us : List Token} {condition : Expr} {arms : List Case} :
    word.literal = "SWITCH" → Expression ts condition → Cases us arms → endWord.literal = "END" →
      Statement (word :: (ts ++ (us ++ [endWord]))) (.switch condition arms)
  | whileDo {word doWord endWord : Token} {ts us : List Token} {condition : Expr}
    {body : List Stmt} :
    word.literal = "WHILE" → Expression ts condition → doWord.literal = "DO" → Block us body →
      endWord.literal = "END" →
        Statement (word :: (ts ++ doWord :: (us ++ [endWord]))) (.whileDo condition body)
  | returnWith {word semicolon : Token} {ts : List Token} {value : Expr} :
    word.literal = "RETURN" → Expression ts value → semicolon.literal = ";" →
      Statement (word :: (ts ++ [semicolon])) (.returnWith value)

/-- Statements up to a word that ends the block, which is not part of it. -/
inductive Block : List Token → List Stmt → Prop where
  | nil : Block [] []
  | cons {ts us : List Token} {s : Stmt} {rest : List Stmt} :
    ¬ StartsWith blockEnds ts → Statement ts s → Block us rest → Block (ts ++ us) (s :: rest)

/-- The arms of a `SWITCH`: any number of `CASE` arms and then a `DEFAULT` arm. -/
inductive Cases : List Token → List Case → Prop where
  | default {word : Token} {ts : List Token} {body : List Stmt} :
    word.literal = "DEFAULT" → Block ts body → Cases (word :: ts) [.mk none body]
  | case {word colon : Token} {ts us vs : List Token} {value : Expr} {body : List Stmt}
    {rest : List Case} :
    word.literal = "CASE" → Expression ts value → colon.literal = ":" → Block us body →
      Cases vs rest → Cases (word :: (ts ++ colon :: (us ++ vs))) (.mk (some value) body :: rest)

end

/-- A global with its semicolon. -/
inductive Global : List Token → GlobalDecl → Prop where
  | list {word name colon type equals bracket semicolon : Token} {ts : List Token}
    {listId id : NodeId} {es : List Expr} :
    word.literal = "LIST" → name.kind = .identifier → colon.literal = ":" →
      type.kind = .identifier → equals.literal = "=" → bracket.literal = "[" → Items "]" ts es →
        semicolon.literal = ";" →
          Global (word :: name :: colon :: type :: equals :: bracket :: (ts ++ [semicolon]))
            ⟨id, name.literal, some type.literal, true, some (.list listId es)⟩
  | var {word name semicolon : Token} {ts us : List Token} {id : NodeId}
    {typeName : Option String} {value : Option Expr} :
    word.literal = "VAR" → name.kind = .identifier → Annotation ts typeName →
      Initializer us value → semicolon.literal = ";" →
        Global (word :: name :: (ts ++ (us ++ [semicolon])))
          ⟨id, name.literal, typeName, true, value⟩
  | val {word name equals semicolon : Token} {ts us : List Token} {id : NodeId}
    {typeName : Option String} {value : Expr} :
    word.literal = "VAL" → name.kind = .identifier → Annotation ts typeName →
      equals.literal = "=" → Expression us value → semicolon.literal = ";" →
        Global (word :: name :: (ts ++ equals :: (us ++ [semicolon])))
          ⟨id, name.literal, typeName, false, some value⟩

/-- At least one parameter with its type, with commas between them, and then the
closing parenthesis. -/
inductive SeveralParameters : List Token → List (String × String) → Prop where
  | last {name colon type close : Token} :
    name.kind = .identifier → colon.literal = ":" → type.kind = .identifier →
      close.literal = ")" →
        SeveralParameters [name, colon, type, close] [(name.literal, type.literal)]
  | more {name colon type comma : Token} {ts : List Token} {ps : List (String × String)} :
    name.kind = .identifier → colon.literal = ":" → type.kind = .identifier →
      comma.literal = "," → SeveralParameters ts ps →
        SeveralParameters (name :: colon :: type :: comma :: ts)
          ((name.literal, type.literal) :: ps)

/-- Parameters, if there are any, and then the closing parenthesis. -/
inductive Parameters : List Token → List (String × String) → Prop where
  | none {close : Token} : close.literal = ")" → Parameters [close] []
  | some {ts : List Token} {ps : List (String × String)} :
    SeveralParameters ts ps → Parameters ts ps

/-- A function. -/
inductive Function : List Token → FunctionDecl → Prop where
  | mk {word name parenthesis doWord endWord : Token} {ts us vs : List Token} {id : NodeId}
    {parameters : List (String × String)} {typeName : Option String} {body : List Stmt} :
    word.literal = "FUN" → name.kind = .identifier → parenthesis.literal = "(" →
      Parameters ts parameters → Annotation us typeName → doWord.literal = "DO" → Block vs body →
        endWord.literal = "END" →
          Function (word :: name :: parenthesis :: (ts ++ (us ++ doWord :: (vs ++ [endWord]))))
            ⟨id, name.literal, parameters.map Prod.fst, parameters.map Prod.snd, typeName, body⟩

/-- A program: globals and functions, mixed; each are kept in their order. -/
inductive Program : List Token → Source → Prop where
  | nil : Program [] ⟨[], []⟩
  | global {ts us : List Token} {g : GlobalDecl} {p : Source} :
    Global ts g → Program us p → Program (ts ++ us) { p with globals := g :: p.globals }
  | function {ts us : List Token} {f : FunctionDecl} {p : Source} :
    Function ts f → Program us p → Program (ts ++ us) { p with functions := f :: p.functions }

theorem Cases.head {ts : List Token} {arms : List Case} (h : Cases ts arms) :
    ∃ t rest, ts = t :: rest ∧ (t.literal = "CASE" ∨ t.literal = "DEFAULT") := by
  cases h with
  | default hw => exact ⟨_, _, rfl, .inr hw⟩
  | case hw => exact ⟨_, _, rfl, .inl hw⟩

theorem Statement.ne_nil {ts : List Token} {s : Stmt} (h : Statement ts s) : ts ≠ [] := by
  cases h <;> simp

theorem Global.head {ts : List Token} {g : GlobalDecl} (h : Global ts g) :
    ∃ t rest, ts = t :: rest ∧ t.literal ∈ ["LIST", "VAR", "VAL"] := by
  cases h with
  | list hw => exact ⟨_, _, rfl, by simp [hw]⟩
  | var hw => exact ⟨_, _, rfl, by simp [hw]⟩
  | val hw => exact ⟨_, _, rfl, by simp [hw]⟩

theorem Function.head {ts : List Token} {f : FunctionDecl} (h : Function ts f) :
    ∃ t rest, ts = t :: rest ∧ t.literal = "FUN" := by
  obtain ⟨hw, -⟩ := h
  exact ⟨_, _, rfl, hw⟩

theorem Global.ne_nil {ts : List Token} {g : GlobalDecl} (h : Global ts g) : ts ≠ [] := by
  obtain ⟨t, rest, rfl, -⟩ := h.head
  exact List.cons_ne_nil t rest

theorem Function.ne_nil {ts : List Token} {f : FunctionDecl} (h : Function ts f) : ts ≠ [] := by
  obtain ⟨t, rest, rfl, -⟩ := h.head
  exact List.cons_ne_nil t rest

end Grammar
end Scriptlet
