import Scriptlet.Proofs.JavaScan
import Scriptlet.Proofs.Written

/-!
# The tree of an expression

`Java.tree` is the Java tree with the structure of an expression: groups are parentheses, a
power is a call of `Math.pow`, cast to `int` if it is an integer, and all other operators are
themselves.  The text that is generated for an expression is the text of this tree
(`expression_eq_text`).

In a program that was read and accepted, expressions have what they need for this
(`Clear`): names that are identifiers, operands of the right levels, and findings for every
node.  Their trees are then legible and can be scanned, so the text is read as the
regrouping of the tree.
-/

namespace Scriptlet

/-! ### Induction over the parts of an expression -/

/-- To prove something of an expression, it may be assumed of the expressions inside it; what
is known of all its parts is known in every case. -/
theorem Expr.induct_parts {P Q : Expr → Prop} (literal : ∀ id value, P (.literal id value))
    (group : ∀ id inner, Q (.group id inner) → P inner → P (.group id inner))
    (binary : ∀ id op left right, Q (.binary id op left right) → Q left → Q right → P left →
      P right → P (.binary id op left right))
    (access : ∀ id name, Q (.access id name) → P (.access id name))
    (element : ∀ id name offset, Q (.element id name offset) → P offset →
      P (.element id name offset))
    (call : ∀ id name args, Q (.call id name args) → (∀ e ∈ args, P e) → P (.call id name args))
    (list : ∀ id es, (∀ e ∈ es, P e) → P (.list id es)) :
    (e : Expr) → (∀ part ∈ e.parts, Q part) → P e
  | .literal id value, _ => literal id value
  | .group id inner, h => by
    obtain ⟨hinner, hself⟩ := List.forall_mem_append.1 h
    have ih := Expr.induct_parts literal group binary access element call list inner hinner
    exact group id inner (List.forall_mem_singleton.1 hself) ih
  | .binary id op left right, h => by
    obtain ⟨hleft, hrest⟩ := List.forall_mem_append.1 h
    obtain ⟨hright, hself⟩ := List.forall_mem_append.1 hrest
    have ihLeft := Expr.induct_parts literal group binary access element call list left hleft
    have ihRight := Expr.induct_parts literal group binary access element call list right hright
    exact binary id op left right (List.forall_mem_singleton.1 hself)
      (hleft left left.mem_parts_self) (hright right right.mem_parts_self) ihLeft ihRight
  | .access id name, h => access id name (List.forall_mem_singleton.1 h)
  | .element id name offset, h => by
    obtain ⟨hoffset, hself⟩ := List.forall_mem_append.1 h
    have ih := Expr.induct_parts literal group binary access element call list offset hoffset
    exact element id name offset (List.forall_mem_singleton.1 hself) ih
  | .call id name args, h => by
    obtain ⟨hargs, hself⟩ := List.forall_mem_append.1 h
    refine call id name args (List.forall_mem_singleton.1 hself) fun e he => ?_
    exact Expr.induct_parts literal group binary access element call list e
      fun part hpart => hargs part (mem_partsOfList.2 ⟨e, he, hpart⟩)
  | .list id es, h => by
    refine list id es fun e he => ?_
    exact Expr.induct_parts literal group binary access element call list e
      fun part hpart => (List.forall_mem_append.1 h).1 part (mem_partsOfList.2 ⟨e, he, hpart⟩)

namespace Java

/-! ### Trees -/

/-- The tree of a literal. -/
def literalTree : Literal → Tree
  | .nil => .word "null"
  | .boolean b => .word (if b then "true" else "false")
  | .integer n => .number (n < 0) (toString n.natAbs)
  | .decimal d =>
    if d.isZero then .number false "0"
    else .number (d.unscaled < 0)
      (.ofList (Decimal.magnitudeText (Decimal.digits d.unscaled.natAbs) d.scale))
  | .character c => .quoted (.ofList (Escape.encode Escape.singleQuote [c]))
  | .string s => .quoted (.ofList (Escape.encode Escape.doubleQuote s.toList))

mutual

/-- The tree of an expression. -/
def tree (a : Annotations) : Expr → Tree
  | .literal _ value => literalTree value
  | .group _ inner => .bracket .parens [tree a inner]
  | .binary id op left right =>
    if op = .power then
      .bracket (.call (a.types.find? id = some .integer) "Math.pow") [tree a left, tree a right]
    else .binary op (tree a left) (tree a right)
  | .access _ name => .word name
  | .element _ name offset => .bracket (.element name) [tree a offset]
  | .call _ name args => .bracket (.call false (javaNameOf name args.length)) (trees a args)
  | .list _ es => .bracket .array (trees a es)

/-- The trees of expressions. -/
def trees (a : Annotations) : List Expr → List Tree
  | [] => []
  | e :: es => tree a e :: trees a es

end

/-- Expressions have their trees one by one. -/
theorem trees_eq_map (a : Annotations) (es : List Expr) : trees a es = es.map (tree a) := by
  induction es with
  | nil => rfl
  | cons e es ih => rw [trees, ih, List.map_cons]

/-- What is known about an expression of a program that was read and accepted. -/
structure Clear (a : Annotations) (e : Expr) : Prop where
  written : e.Written
  binds : a.Binds e

/-! ### Generated text -/

/-- How an integer is written: a sign if it is negative, and its absolute value. -/
theorem toString_int (n : Int) :
    toString n = if n < 0 then "-" ++ toString n.natAbs else toString n.natAbs := by
  simp only [Int.toString_eq_repr, Int.repr_eq_if, Nat.toString_eq_repr]
  by_cases hneg : n < 0
  · have habs : (-n).toNat = n.natAbs := by omega
    rw [if_neg (by omega), if_pos hneg, habs]
  · have habs : n.toNat = n.natAbs := by omega
    rw [if_pos (by omega), if_neg hneg, habs]

/-- The text of a number with its sign. -/
theorem text_number (negative : Bool) (text : String) :
    String.ofList (Tree.number negative text).text = if negative then "-" ++ text else text := by
  cases negative with
  | false => exact String.ofList_toList
  | true => exact String.toList_inj.1 (by simp [Tree.text])

/-- The text of a literal is that of its tree; only a negative number is more than one piece. -/
theorem literal_eq_text (value : Literal) : literal value = .ofList (literalTree value).text := by
  cases value with
  | nil => rfl
  | boolean b => cases b <;> rfl
  | integer n => simp only [literal, literalTree, text_number, toString_int, decide_eq_true_eq]
  | decimal d =>
    simp only [literal, literalTree, Decimal.toText]
    split
    · rfl
    · simp only [text_number, decide_eq_true_eq]
  | character c => simp only [literal, literalTree, Tree.text, String.toList_ofList]
  | string s => simp only [literal, literalTree, Tree.text, String.toList_ofList]

/-- Texts with commas between them are the text of the list of trees. -/
theorem intercalate_texts (ts : List Tree) :
    ", ".intercalate (ts.map fun t => .ofList t.text) = .ofList (Tree.textOfList ts) := by
  induction ts with
  | nil => rfl
  | cons t ts ih =>
    cases ts with
    | nil => rfl
    | cons u ts =>
      rw [List.map_cons] at ih
      rw [List.map_cons, List.map_cons, String.intercalate_cons_cons, ih]
      exact String.toList_inj.1 (by simp [Tree.textOfList])

/-- If each expression is written as its tree, all of them are. -/
theorem expressions_eq {a : Annotations} {es : List Expr}
    (h : ∀ e ∈ es, expression a e = .ok (.ofList (tree a e).text)) :
    expressions a es = .ok ((trees a es).map fun t => .ofList t.text) := by
  induction es with
  | nil => rfl
  | cons e es ih =>
    obtain ⟨he, hes⟩ := List.forall_mem_cons.1 h
    rw [expressions, he, ih hes]
    rfl

/-- A variable that is recorded under its own name is written with this name. -/
theorem variableOf_eq {a : Annotations} {id : NodeId} {name : String}
    (h : ∃ v, a.vars.find? id = some v ∧ v.name = name) :
    ∃ v, variableOf a id name = .ok v ∧ v.javaName = name := by
  obtain ⟨v, hv, hname⟩ := h
  exact ⟨v, by rw [variableOf, hv], hname⟩

/-- The text of brackets and what they enclose. -/
theorem text_bracket (head : Head) (items : List Tree) :
    String.ofList (Tree.bracket head items).text = String.ofList head.text ++
      ", ".intercalate (items.map fun t => .ofList t.text) ++ .singleton head.closing.closing := by
  rw [intercalate_texts]
  exact String.toList_inj.1 (by simp [Tree.text])

/-- The text up to the index of an element. -/
theorem text_element (name : String) : String.ofList (Head.element name).text = name ++ "[" :=
  String.toList_inj.1 (by simp [Head.text])

/-- The text up to the arguments of a call, with its cast. -/
theorem text_call (cast : Bool) (name : String) :
    String.ofList (Head.call cast name).text = (if cast then "(int) " else "") ++ name ++ "(" := by
  cases cast <;> exact String.toList_inj.1 (by simp [Head.text])

/-- A power is written as a call of `Math.pow`. -/
theorem power_eq_text (ty : Ty) (left right : Tree) :
    power ty (.ofList left.text) (.ofList right.text) =
      .ofList (Tree.bracket (.call (ty = .integer) "Math.pow") [left, right]).text := by
  have hcall : ", ".intercalate [String.ofList left.text, String.ofList right.text] =
      String.ofList left.text ++ ", " ++ String.ofList right.text := String.intercalate_cons_cons
  rw [text_bracket, text_call, power, List.map_cons, List.map_singleton, hcall]
  by_cases hty : ty = .integer
  · rw [if_pos hty, decide_eq_true hty, if_pos rfl]
    exact String.toList_inj.1 (by simp [toString, Head.closing, Bracket.closing])
  · rw [if_neg hty, decide_eq_false hty, if_neg Bool.false_ne_true]
    exact String.toList_inj.1 (by simp [toString, Head.closing, Bracket.closing])

/-- **The text of an expression is the text of its tree.** -/
theorem expression_eq_text {a : Annotations} {e : Expr} (h : ∀ part ∈ e.parts, Clear a part) :
    expression a e = .ok (.ofList (tree a e).text) := by
  refine Expr.induct_parts (P := fun e => expression a e = .ok (.ofList (tree a e).text))
    ?literal ?group ?binary ?access ?element ?call ?list e h
  case literal =>
    intro id value
    rw [expression, tree, literal_eq_text]
  case group =>
    intro id inner _ hinner
    rw [expression, hinner, tree, text_bracket]
    rfl
  case binary =>
    intro id op left right hclear _ _ hleft hright
    obtain ⟨l, r, ty, -, -, hty, -⟩ := hclear.binds
    rw [expression, tree]
    by_cases hop : op = .power
    · rw [if_pos hop, if_pos hop, powerType, hty, hleft, hright]
      simp only [Option.some_inj]
      exact congrArg Except.ok (power_eq_text ty _ _)
    · rw [if_neg hop, if_neg hop, hleft, hright]
      show Except.ok (String.ofList (tree a left).text ++ " " ++ op.symbol ++ " " ++
        String.ofList (tree a right).text) = _
      exact congrArg Except.ok (String.toList_inj.1 (by simp [Tree.text]))
  case access =>
    intro id name hclear
    obtain ⟨v, hv, hname⟩ := variableOf_eq hclear.binds
    rw [expression, hv, tree, Tree.text, String.ofList_toList, ← hname]
    rfl
  case element =>
    intro id name offset hclear hoffset
    obtain ⟨v, hv, rfl⟩ := variableOf_eq hclear.binds
    rw [expression, hv, tree, hoffset, text_bracket, text_element]
    rfl
  case call =>
    intro id name args hclear hargs
    obtain ⟨r, hr, hname⟩ := hclear.binds
    rw [expression, functionOf, hr, expressions_eq hargs, tree, text_bracket, text_call, ← hname]
    rfl
  case list =>
    intro id es hes
    rw [expression, expressions_eq hes, tree, text_bracket]
    rfl

/-! ### Legible trees -/

/-- The least precedence of the operators of a rank. -/
def leastPrecedence : Nat → Nat
  | 0 => 1
  | 1 => 3
  | 2 => 5
  | 3 => 6
  | _ => 7

/-- At higher ranks operators bind at least as tightly. -/
theorem leastPrecedence_mono {m n : Nat} (h : m ≤ n) : leastPrecedence m ≤ leastPrecedence n := by
  refine monotone_nat_of_le_succ (fun k => ?_) h
  match k with
  | 0 | 1 | 2 | 3 => decide
  | _ + 4 => exact Nat.le_refl 7

/-- No rank asks for more than what an operand without operators has. -/
theorem leastPrecedence_le_seven (n : Nat) : leastPrecedence n ≤ 7 := by
  unfold leastPrecedence
  split <;> omega

/-- An operator binds at least as tightly as its rank asks for. -/
theorem leastPrecedence_le (op : BinaryOp) : leastPrecedence op.level.rank ≤ op.javaPrecedence := by
  cases op <;> decide

/-- The operators of tighter levels bind tighter in Java too. -/
theorem javaPrecedence_lt (op : BinaryOp) {n : Nat} (h : op.level.rank < n) :
    op.javaPrecedence < leastPrecedence n := by
  have hnext : op.javaPrecedence < leastPrecedence (op.level.rank + 1) := by cases op <;> decide
  exact Nat.lt_of_lt_of_le hnext (leastPrecedence_mono h)

/-- Literals are read as they are, wherever they stand. -/
theorem literalTree_atomic (value : Literal) :
    (literalTree value).Legible ∧ (literalTree value).Proper ∧
      (literalTree value).loosest = 7 ∧ (literalTree value).precedence = 7 := by
  cases value with
  | decimal d =>
    rw [literalTree]
    split <;> exact ⟨trivial, trivial, rfl, rfl⟩
  | _ => exact ⟨trivial, trivial, rfl, rfl⟩

/-- An operation is no word, so that in parentheses it is no cast. -/
theorem tree_ne_word {a : Annotations} {e : Expr} (h : Typing.IsBinary e) (w : String) :
    tree a e ≠ .word w := by
  obtain ⟨id, op, left, right⟩ := h
  rw [tree]
  split <;> exact nofun

/-- **The tree of an expression is legible**, and its operators bind as tightly as those of
the level of the expression. -/
theorem legible_tree {a : Annotations} {e : Expr} (h : ∀ part ∈ e.parts, Clear a part) :
    (tree a e).Legible ∧ leastPrecedence e.rank ≤ (tree a e).loosest := by
  have hlist {es : List Expr} (hes : ∀ e ∈ es, (tree a e).Legible ∧
      leastPrecedence e.rank ≤ (tree a e).loosest) : Tree.LegibleList (trees a es) := by
    rw [Tree.legibleList_iff, trees_eq_map, List.forall_mem_map]
    exact fun e he => (hes e he).1
  refine Expr.induct_parts
    (P := fun e => (tree a e).Legible ∧ leastPrecedence e.rank ≤ (tree a e).loosest)
    ?literal ?group ?binary ?access ?element ?call ?list e h
  case literal =>
    intro id value
    obtain ⟨hlegible, -, hloosest, -⟩ := literalTree_atomic value
    rw [tree, hloosest]
    exact ⟨hlegible, leastPrecedence_le_seven _⟩
  case group =>
    intro id inner hclear hinner
    have hne : [tree a inner] ≠ [.word "int"] := fun heq =>
      tree_ne_word hclear.binds "int" (List.singleton_inj.1 heq)
    exact ⟨⟨rfl, fun _ => hne, hinner.1, trivial⟩, leastPrecedence_le_seven _⟩
  case binary =>
    intro id op left right hclear _ _ hleft hright
    obtain ⟨hle, hlt⟩ := hclear.written.operands id op left right rfl
    rw [tree]
    split
    · exact ⟨⟨rfl, nofun, hleft.1, hright.1, trivial⟩, leastPrecedence_le_seven _⟩
    · have hop := leastPrecedence_le op
      have hlast := javaPrecedence_lt op hlt
      have hfirst := leastPrecedence_mono hle
      refine ⟨⟨hleft.1, hright.1, Nat.lt_of_lt_of_le hlast hright.2⟩, ?_⟩
      simp only [Tree.loosest, Expr.rank]
      omega
  case access => exact fun id name _ => ⟨trivial, leastPrecedence_le_seven _⟩
  case element =>
    intro id name offset _ hoffset
    exact ⟨⟨rfl, nofun, hoffset.1, trivial⟩, leastPrecedence_le_seven _⟩
  case call =>
    exact fun id name args _ hargs => ⟨⟨rfl, nofun, hlist hargs⟩, leastPrecedence_le_seven _⟩
  case list => exact fun id es hes => ⟨⟨rfl, nofun, hlist hes⟩, leastPrecedence_le_seven _⟩

/-! ### Numbers -/

/-- Digits are digits. -/
theorem isDigit_of_mem_digits {n : Nat} {c : Char} (h : c ∈ Decimal.digits n) : c.isDigit = true :=
  Nat.isDigit_of_mem_toDigits (by decide) (by decide) h

/-- How a natural number is written. -/
theorem toList_toString (n : Nat) : (toString n).toList = Decimal.digits n := Nat.toList_repr

/-- Digits, and dots after the first of them. -/
theorem isNumber_of_forall {c : Char} {rest : List Char} (hc : c.isDigit = true)
    (h : ∀ d ∈ rest, d.isDigit = true ∨ d = '.') : IsNumber (c :: rest) := by
  refine ⟨c, rest, rfl, hc, continues_of_forall [c] fun d hd => ?_⟩
  rcases h d hd with hd | hd
  · exact .inl (by simp [Char.isAlphanum, hd])
  · exact .inr hd

/-- Digits alone are a number. -/
theorem isNumber_digits {cs : List Char} (hne : cs ≠ []) (h : ∀ c ∈ cs, c.isDigit = true) :
    IsNumber cs := by
  cases cs with
  | nil => exact absurd rfl hne
  | cons c rest =>
    obtain ⟨hc, hrest⟩ := List.forall_mem_cons.1 h
    exact isNumber_of_forall hc fun d hd => .inl (hrest d hd)

/-- A number that is continued is a number. -/
theorem IsNumber.append {cs u : List Char} (h : IsNumber cs) (hu : Continues cs u) :
    IsNumber (cs ++ u) := by
  obtain ⟨c, rest, rfl, hc, hrest⟩ := h
  exact ⟨c, rest ++ u, rfl, hc, hrest.append hu⟩

/-- Digits continue any number. -/
theorem continues_digits (read : List Char) (n : Nat) : Continues read (toString n).toList := by
  rw [toList_toString]
  refine continues_of_forall read fun c hc => .inl ?_
  simp [Char.isAlphanum, isDigit_of_mem_digits hc]

/-- A sign continues a number after the mark of an exponent. -/
theorem isNumberTail_sign (read : List Char) {mark sign : Char}
    (hmark : Decimal.isPowerMark mark = true) (hsign : sign = '+' ∨ sign = '-') :
    isNumberTail (read ++ [mark]) sign = true := by
  rcases hsign with rfl | rfl <;> simp [isNumberTail, hmark]

/-- An exponent continues every number. -/
theorem continues_exponent (read : List Char) (n : Int) :
    Continues read ('E' :: (toString n).toList) := by
  refine ⟨rfl, ?_⟩
  rw [toString_int]
  split
  · rw [String.toList_append]
    exact ⟨isNumberTail_sign read rfl (.inr rfl), continues_digits _ _⟩
  · exact continues_digits _ _

/-- A positive exponent continues any number. -/
theorem continues_positive (read : List Char) {n : Int} (h : 0 ≤ n) :
    Continues read ("e+".toList ++ (toString n).toList) := by
  rw [toString_int, if_neg (by omega)]
  exact ⟨rfl, isNumberTail_sign read rfl (.inl rfl), continues_digits _ _⟩

/-- Zeros are digits. -/
theorem isDigit_of_mem_zeros (n : Nat) : ∀ c ∈ List.replicate n '0', c.isDigit = true := by
  intro c hc
  rw [List.eq_of_mem_replicate hc]
  rfl

/-- The text of a decimal without its sign is a number. -/
theorem isNumber_magnitudeText {x : List Char} (hne : x ≠ []) (hx : ∀ c ∈ x, c.isDigit = true)
    (s : Int) : IsNumber (Decimal.magnitudeText x s) := by
  unfold Decimal.magnitudeText
  dsimp only
  split_ifs with hscientific hlarge hwhole
  · match x, hne, hx with
    | [d], hne, hx => exact (isNumber_digits hne hx).append (continues_exponent _ _)
    | d :: e :: rest, _, hx =>
      obtain ⟨hd, hrest⟩ := List.forall_mem_cons.1 hx
      have hnumber : IsNumber (d :: '.' :: e :: rest) := by
        refine isNumber_of_forall hd (List.forall_mem_cons.2 ⟨.inr rfl, fun c hc => ?_⟩)
        exact .inl (hrest c hc)
      exact hnumber.append (continues_exponent _ _)
  · have hlimit : 0 ≤ Decimal.trailingZeroLimit := by decide
    rw [List.append_assoc]
    exact (isNumber_digits hne hx).append (continues_positive x (by omega))
  · refine isNumber_digits (List.append_ne_nil_of_left_ne_nil hne _) ?_
    exact List.forall_mem_append.2 ⟨hx, isDigit_of_mem_zeros _⟩
  · -- with leading zeros there is at least one digit before the dot
    generalize hpadded : List.replicate (s.toNat + 1 - x.length) '0' ++ x = padded
    have hdigits : ∀ c ∈ padded, c.isDigit = true := by
      rw [← hpadded]
      exact List.forall_mem_append.2 ⟨isDigit_of_mem_zeros _, hx⟩
    have hlength : s.toNat < padded.length := by
      rw [← hpadded, List.length_append, List.length_replicate]
      omega
    cases hwhole : padded.take (padded.length - s.toNat) with
    | nil =>
      have hzero := congrArg List.length hwhole
      rw [List.length_take, List.length_nil] at hzero
      omega
    | cons c rest =>
      have hc : ∀ d ∈ c :: rest, d.isDigit = true := fun d hd =>
        hdigits d (List.mem_of_mem_take (hwhole ▸ hd))
      obtain ⟨hc, hrest⟩ := List.forall_mem_cons.1 hc
      refine isNumber_of_forall hc (List.forall_mem_append.2 ⟨fun d hd => .inl (hrest d hd), ?_⟩)
      refine List.forall_mem_cons.2 ⟨.inr rfl, fun d hd => .inl ?_⟩
      exact hdigits d (List.mem_of_mem_drop hd)

/-! ### Texts that can be scanned -/

/-- An identifier is a word, if it has no hyphen or hyphens are allowed. -/
theorem isWord_of_isIdentifier {hyphens : Bool} {cs : List Char} (h : IsIdentifier cs)
    (hhyphens : hyphens = true ∨ '-' ∉ cs) : IsWord hyphens cs := by
  cases cs with
  | nil => exact h.elim
  | cons c rest =>
    refine ⟨c, rest, rfl, isAlpha_iff.2 h.1, fun d hd => ?_⟩
    simp only [isWordTail, Char.isAlphanum, Bool.or_eq_true, Bool.and_eq_true, decide_eq_true_eq,
      isAlpha_iff, isDigit_iff]
    rcases h.2 d hd with hletter | hdigit | hline | rfl
    · exact .inl (.inl (.inl (.inl hletter)))
    · exact .inl (.inl (.inl (.inr hdigit)))
    · exact .inl (.inl (.inr hline))
    · refine .inr ⟨hhyphens.resolve_right fun hnot => ?_, rfl⟩
      exact hnot (List.mem_cons_of_mem c hd)

/-- Letters alone are a word. -/
theorem isWord_of_letters (hyphens : Bool) {cs : List Char} (hne : cs ≠ [])
    (h : cs.all Char.isAlpha = true) : IsWord hyphens cs := by
  cases cs with
  | nil => exact absurd rfl hne
  | cons c rest =>
    obtain ⟨hc, hrest⟩ := List.forall_mem_cons.1 (List.all_eq_true.1 h)
    exact ⟨c, rest, rfl, hc, fun d hd => by simp [isWordTail, Char.isAlphanum, hrest d hd]⟩

/-- The name of a function in Java is a word if its own name is. -/
theorem isWord_javaNameOf {hyphens : Bool} {name : String} (h : IsIdentifier name.toList)
    (hhyphens : hyphens = true ∨ '-' ∉ name.toList) (arity : Nat) :
    IsWord hyphens (javaNameOf name arity).toList := by
  unfold javaNameOf
  split
  · refine ⟨'S', "ystem.out.println".toList, rfl, rfl, ?_⟩
    cases hyphens <;> exact List.all_iff_forall_prop.1 (by decide)
  · exact isWord_of_isIdentifier h hhyphens

/-- A literal can be scanned, be it a number, a word or quoted. -/
theorem scannable_literalTree (hyphens : Bool) (value : Literal) :
    (literalTree value).Scannable hyphens := by
  cases value with
  | nil => exact isWord_of_letters hyphens (by decide) rfl
  | boolean b => cases b <;> exact isWord_of_letters hyphens (by decide) rfl
  | integer n =>
    show IsNumber (toString n.natAbs).toList
    rw [toList_toString]
    exact isNumber_digits Nat.toDigits_ne_nil fun _ => isDigit_of_mem_digits
  | decimal d =>
    rw [literalTree]
    split
    · exact isNumber_digits (by decide) (List.all_eq_true.1 rfl)
    · show IsNumber (String.ofList _).toList
      rw [String.toList_ofList]
      exact isNumber_magnitudeText Nat.toDigits_ne_nil (fun _ => isDigit_of_mem_digits) _
  | character c =>
    refine ⟨Escape.singleQuote, [c], .inl rfl, ?_⟩
    rw [String.toList_ofList]
  | string s =>
    refine ⟨Escape.doubleQuote, s.toList, .inr rfl, ?_⟩
    rw [String.toList_ofList]

/-- A name of the expression itself may be written in Java. -/
def Nameable (hyphens : Bool) (e : Expr) : Prop :=
  hyphens = true ∨ ∀ name, e.name? = some name → '-' ∉ name.toList

/-- If hyphens are not allowed, no name has one. -/
theorem Nameable.resolve {hyphens : Bool} {e : Expr} (h : Nameable hyphens e) {name : String}
    (hname : e.name? = some name) : hyphens = true ∨ '-' ∉ name.toList := by
  rcases h with hhyphens | h
  · exact .inl hhyphens
  · exact .inr (h name hname)

/-- **The tree of an expression can be scanned**, if its names can. -/
theorem scannable_tree {a : Annotations} {hyphens : Bool} {e : Expr}
    (h : ∀ part ∈ e.parts, Clear a part ∧ Nameable hyphens part) :
    (tree a e).Scannable hyphens := by
  have hlist {es : List Expr} (hes : ∀ e ∈ es, (tree a e).Scannable hyphens) :
      Tree.ScannableList hyphens (trees a es) := by
    rw [Tree.scannableList_iff, trees_eq_map, List.forall_mem_map]
    exact hes
  refine Expr.induct_parts (P := fun e => (tree a e).Scannable hyphens)
    ?literal ?group ?binary ?access ?element ?call ?list e h
  case literal => exact fun id value => scannable_literalTree hyphens value
  case group => exact fun id inner _ hinner => ⟨nofun, hinner, trivial⟩
  case binary =>
    intro id op left right _ _ _ hleft hright
    rw [tree]
    split
    · have hpow : IsWord hyphens "Math.pow".toList := by
        refine ⟨'M', "ath.pow".toList, rfl, rfl, ?_⟩
        cases hyphens <;> exact List.all_iff_forall_prop.1 (by decide)
      exact ⟨List.forall_mem_singleton.2 hpow, hleft, hright, trivial⟩
    · exact ⟨‹_›, hleft, hright⟩
  case access =>
    rintro id name ⟨hclear, hname⟩
    exact isWord_of_isIdentifier (hclear.written.name name rfl) (hname.resolve rfl)
  case element =>
    rintro id name offset ⟨hclear, hname⟩ hoffset
    have hword := isWord_of_isIdentifier (hclear.written.name name rfl) (hname.resolve rfl)
    exact ⟨List.forall_mem_singleton.2 hword, hoffset, trivial⟩
  case call =>
    rintro id name args ⟨hclear, hname⟩ hargs
    have hword := isWord_javaNameOf (hclear.written.name name rfl) (hname.resolve rfl) args.length
    exact ⟨List.forall_mem_singleton.2 hword, hlist hargs⟩
  case list => exact fun id es hes => ⟨nofun, hlist hes⟩

end Java
end Scriptlet
