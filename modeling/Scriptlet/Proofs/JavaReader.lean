import Scriptlet.Tree
import Mathlib.Tactic.Common

/-!
# Reading Java expressions

How Java reads an expression that is written with the operators of the language.  The text
is a list of lexemes; the result is a tree whose operators bind as they do in Java:

| precedence | operators  |
|------------|------------|
| 1          | `\|\|`     |
| 2          | `&&`       |
| 3          | `==`, `!=` |
| 4          | `<`, `>`   |
| 5          | `+`, `-`   |
| 6          | `*`, `/`   |

Operators of one precedence associate to the left.  Names, literals, calls, elements of
arrays, array initializers and parenthesised expressions are operands; a call may be cast to
`int`.

The reader takes one lexeme after the other (`step`).  When an operator and its right operand
have been read, `attach` puts them where they belong in the tree of what stands to the left:
below all operators there that bind less tightly, and above the others.

Every tree has a text (`Tree.lexemes`), without parentheses of its own.  For the trees that
come from programs (`Tree.Legible`), `read_lexemes` says which tree the text is read as
(`Tree.regroup`), and `Tree.regroup_eq_self_iff` when this is the tree that was written.
-/

namespace Scriptlet

/-- How tightly an operator binds in Java. -/
def BinaryOp.javaPrecedence : BinaryOp → Nat
  | or => 1
  | and => 2
  | equal | notEqual => 3
  | less | greater => 4
  | add | subtract => 5
  | multiply | divide | power => 6

namespace Java

/-- The kinds of brackets. -/
inductive Bracket where
  | round
  | square
  | curly
  deriving DecidableEq

/-- What stands before and between brackets. -/
inductive Head where
  | parens
  | element (name : String)
  /-- A call, perhaps with a cast to `int` before it. -/
  | call (cast : Bool) (name : String)
  | array
  deriving DecidableEq

/-- A Java expression. -/
inductive Tree where
  /-- A name, or one of the literals `null`, `true` and `false`. -/
  | word (text : String)
  | number (negative : Bool) (text : String)
  /-- A character or string literal, with its quotes. -/
  | quoted (text : String)
  | bracket (head : Head) (items : List Tree)
  | binary (op : BinaryOp) (left right : Tree)

/-- The units of a text. -/
inductive Lexeme where
  | word (text : String)
  | number (text : String)
  | quoted (text : String)
  | operator (op : BinaryOp)
  | left (bracket : Bracket)
  | right (bracket : Bracket)
  | comma
  deriving DecidableEq

namespace Head

/-- The bracket that closes. -/
def closing : Head → Bracket
  | parens | call _ _ => .round
  | element _ => .square
  | array => .curly

/-- How many expressions may stand between the brackets. -/
def admits : Head → Nat → Bool
  | parens, n | element _, n => n = 1
  | call _ _, _ | array, _ => true

/-- The lexemes up to the opening bracket. -/
def opening : Head → List Lexeme
  | parens => [.left .round]
  | element name => [.word name, .left .square]
  | call false name => [.word name, .left .round]
  | call true name => [.left .round, .word "int", .right .round, .word name, .left .round]
  | array => [.left .curly]

/-- The name before the bracket. -/
def words : Head → List String
  | parens | array => []
  | element name | call _ name => [name]

end Head

/-! ### Trees -/

/-- The precedence of an operator at the top; operands bind tighter than all operators. -/
def Tree.precedence : Tree → Nat
  | binary op _ _ => op.javaPrecedence
  | _ => 7

/-- The least precedence of an operator outside of brackets. -/
def Tree.loosest : Tree → Nat
  | binary op left right => min op.javaPrecedence (min left.loosest right.loosest)
  | _ => 7

/-- An operator and its right operand, put to the right of a tree. -/
def attach (op : BinaryOp) (x : Tree) : Tree → Tree
  | .binary op' left right =>
    if op'.javaPrecedence < op.javaPrecedence then .binary op' left (attach op x right)
    else .binary op (.binary op' left right) x
  | .word text => .binary op (.word text) x
  | .number negative text => .binary op (.number negative text) x
  | .quoted text => .binary op (.quoted text) x
  | .bracket head items => .binary op (.bracket head items) x

namespace Tree

mutual

/-- The tree that the text of a tree is read as. -/
def regroup : Tree → Tree
  | word text => word text
  | number negative text => number negative text
  | quoted text => quoted text
  | bracket head items => bracket head (regroupList items)
  | binary op left right => attach op right.regroup left.regroup

/-- The trees that the texts of trees are read as. -/
def regroupList : List Tree → List Tree
  | [] => []
  | t :: ts => t.regroup :: regroupList ts

end

mutual

/-- Operators are nested as precedence and association to the left demand. -/
def Proper : Tree → Prop
  | word _ | number _ _ | quoted _ => True
  | bracket _ items => ProperList items
  | binary op left right => left.Proper ∧ right.Proper ∧
    op.javaPrecedence ≤ left.precedence ∧ op.javaPrecedence < right.precedence

/-- All trees are proper. -/
def ProperList : List Tree → Prop
  | [] => True
  | t :: ts => t.Proper ∧ ProperList ts

end

mutual

/-- The operators of a right operand all bind tighter than the operator before it, brackets
enclose as many expressions as they may, and no parentheses look like a cast. -/
def Legible : Tree → Prop
  | word _ | number _ _ | quoted _ => True
  | bracket head items =>
    head.admits items.length = true ∧ (head = .parens → items ≠ [word "int"]) ∧ LegibleList items
  | binary op left right =>
    left.Legible ∧ right.Legible ∧ op.javaPrecedence < right.loosest

/-- All trees are legible. -/
def LegibleList : List Tree → Prop
  | [] => True
  | t :: ts => t.Legible ∧ LegibleList ts

end

mutual

/-- The text of a tree. -/
def lexemes : Tree → List Lexeme
  | word text => [.word text]
  | number negative text =>
    if negative then [.operator .subtract, .number text] else [.number text]
  | quoted text => [.quoted text]
  | bracket head items => head.opening ++ (lexemesOfList items ++ [.right head.closing])
  | binary op left right => left.lexemes ++ .operator op :: right.lexemes

/-- The texts of trees, with commas between them. -/
def lexemesOfList : List Tree → List Lexeme
  | [] => []
  | [t] => t.lexemes
  | t :: u :: rest => t.lexemes ++ .comma :: lexemesOfList (u :: rest)

end

mutual

/-- The words of a tree, names before brackets included. -/
def words : Tree → List String
  | word text => [text]
  | number _ _ | quoted _ => []
  | bracket head items => head.words ++ wordsOfList items
  | binary _ left right => left.words ++ right.words

/-- The words of trees. -/
def wordsOfList : List Tree → List String
  | [] => []
  | t :: ts => t.words ++ wordsOfList ts

end

/-- Trees are legible if each of them is. -/
theorem legibleList_iff {ts : List Tree} : LegibleList ts ↔ ∀ t ∈ ts, t.Legible := by
  induction ts with
  | nil => exact ⟨fun _ => nofun, fun _ => trivial⟩
  | cons t ts ih => rw [LegibleList, ih, List.forall_mem_cons]

/-- The words of trees are those of each of them. -/
theorem mem_wordsOfList {ts : List Tree} {w : String} :
    w ∈ wordsOfList ts ↔ ∃ t ∈ ts, w ∈ t.words := by
  induction ts with
  | nil => exact ⟨nofun, fun ⟨_, ht, _⟩ => nomatch ht⟩
  | cons t ts ih => simp only [wordsOfList, List.mem_append, ih, List.mem_cons, exists_eq_or_imp]

/-! ### Attaching -/

/-- The new operator is at the top if it binds least tightly. -/
theorem precedence_attach (op : BinaryOp) (x t : Tree) :
    (attach op x t).precedence = min op.javaPrecedence t.precedence := by
  have hop : op.javaPrecedence ≤ 7 := by cases op <;> decide
  cases t with
  | binary op' left right =>
    rw [attach]
    split <;> simp only [precedence] <;> omega
  | _ =>
    simp only [attach, precedence]
    omega

/-- What is attached to a tree that binds as tightly takes the whole of it. -/
theorem attach_eq {op : BinaryOp} {x t : Tree} (h : op.javaPrecedence ≤ t.precedence) :
    attach op x t = .binary op t x := by
  cases t with
  | binary op' left right =>
    have hnot : ¬ op'.javaPrecedence < op.javaPrecedence := Nat.not_lt.2 h
    rw [attach, if_neg hnot]
  | _ => rfl

/-- What binds tighter than the operator that was attached last goes into its operand. -/
theorem attach_attach {op op' : BinaryOp} (h : op.javaPrecedence < op'.javaPrecedence)
    (x y : Tree) : (t : Tree) → attach op' y (attach op x t) = attach op (attach op' y x) t
  | .binary op₁ left right => by
    by_cases hlt : op₁.javaPrecedence < op.javaPrecedence
    · have ih := attach_attach h x y right
      simp only [attach, if_pos hlt, if_pos (Nat.lt_trans hlt h), ih]
    · simp only [attach, if_neg hlt, if_pos h]
  | .word _ | .number _ _ | .quoted _ | .bracket _ _ => by simp only [attach, if_pos h]

/-- An operator and its operand are put where the tree stays proper. -/
theorem Proper.attach {op : BinaryOp} {x : Tree} (hx : x.Proper)
    (h : op.javaPrecedence < x.precedence) : {t : Tree} → t.Proper → (attach op x t).Proper
  | .binary op' left right, ⟨hleft, hright, hle, hlt⟩ => by
    by_cases hop : op'.javaPrecedence < op.javaPrecedence
    · have hprecedence := precedence_attach op x right
      rw [Java.attach, if_pos hop]
      exact ⟨hleft, hx.attach h hright, hle, by omega⟩
    · rw [Java.attach, if_neg hop]
      exact ⟨⟨hleft, hright, hle, hlt⟩, hx, Nat.not_lt.1 hop, h⟩
  | .word _, ht | .number _ _, ht | .quoted _, ht | .bracket _ _, ht => by
    have hop : op.javaPrecedence ≤ 7 := by cases op <;> decide
    exact ⟨ht, hx, hop, h⟩

/-- No words are added but those of the operand. -/
theorem words_attach {op : BinaryOp} {x : Tree} {w : String} :
    {t : Tree} → w ∈ (attach op x t).words → w ∈ t.words ∨ w ∈ x.words
  | .binary op' left right, h => by
    have ih : w ∈ (attach op x right).words → w ∈ right.words ∨ w ∈ x.words := words_attach
    rw [attach] at h
    split at h
    · simp only [words, List.mem_append] at h ⊢
      tauto
    · simp only [words, List.mem_append] at h ⊢
      tauto
  | .word _, h | .number _ _, h | .quoted _, h | .bracket _ _, h => List.mem_append.1 h

/-! ### Regrouping -/

/-- Regrouped, a tree binds as its loosest operator does. -/
theorem Legible.precedence_regroup : {t : Tree} → t.Legible → t.regroup.precedence = t.loosest
  | .word _, _ | .number _ _, _ | .quoted _, _ | .bracket _ _, _ => by
    simp only [regroup, precedence, loosest]
  | .binary op left right, ⟨hleft, _, hlt⟩ => by
    have ih := hleft.precedence_regroup
    have hattach := precedence_attach op right.regroup left.regroup
    simp only [regroup, loosest]
    omega

mutual

/-- Regrouped, a tree is proper. -/
theorem Legible.proper_regroup : {t : Tree} → t.Legible → t.regroup.Proper
  | .word _, _ | .number _ _, _ | .quoted _, _ => by simp only [regroup, Proper]
  | .bracket _ _, ⟨_, _, hitems⟩ => by
    simpa only [regroup, Proper] using LegibleList.proper_regroup hitems
  | .binary op left right, ⟨hleft, hright, hlt⟩ => by
    have hprecedence := hright.precedence_regroup
    rw [regroup]
    exact hright.proper_regroup.attach (by omega) hleft.proper_regroup

/-- Regrouped, all trees are proper. -/
theorem LegibleList.proper_regroup : {ts : List Tree} → LegibleList ts → ProperList (regroupList ts)
  | [], _ => trivial
  | _ :: _, ⟨ht, hts⟩ => ⟨ht.proper_regroup, LegibleList.proper_regroup hts⟩

end

mutual

/-- A proper tree is not changed by regrouping. -/
theorem Proper.regroup_eq : {t : Tree} → t.Proper → t.regroup = t
  | .word _, _ | .number _ _, _ | .quoted _, _ => by simp only [regroup]
  | .bracket _ _, hitems => by rw [regroup, ProperList.regroup_eq hitems]
  | .binary op left right, ⟨hleft, hright, hle, _⟩ => by
    rw [regroup, hleft.regroup_eq, hright.regroup_eq, attach_eq hle]

/-- Proper trees are not changed by regrouping. -/
theorem ProperList.regroup_eq : {ts : List Tree} → ProperList ts → regroupList ts = ts
  | [], _ => rfl
  | _ :: _, ⟨ht, hts⟩ => by rw [regroupList, ht.regroup_eq, ProperList.regroup_eq hts]

end

/-- **A tree is read back from its text exactly if it is proper.** -/
theorem Legible.regroup_eq_self_iff {t : Tree} (h : t.Legible) : t.regroup = t ↔ t.Proper := by
  refine ⟨fun heq => ?_, Proper.regroup_eq⟩
  have hproper := h.proper_regroup
  rwa [heq] at hproper

end Tree

/-! ### The reader -/

/-- What stands before an operand: nothing, or an operator and what is to the left of it. -/
inductive Before where
  | nothing
  | operator (left : Tree) (op : BinaryOp)

/-- The expression up to an operand. -/
def Before.fill (x : Tree) : Before → Tree
  | nothing => x
  | operator left op => attach op x left

/-- Brackets that are open: the expressions between them so far, and what stands before. -/
structure Opened where
  head : Head
  items : List Tree
  before : Before

/-- Where an operand is expected: the open brackets around it, innermost first, and what
stands before it. -/
structure Place where
  outer : List Opened
  before : Before

/-- What is expected next. -/
inductive State where
  | operand (place : Place)
  /-- A number, after a minus sign. -/
  | negative (place : Place)
  /-- The name of a call, after a cast. -/
  | castCall (place : Place)
  /-- A bracket may follow the word, or what may follow an operand. -/
  | word (place : Place) (cast : Bool) (text : String)
  /-- An operator, a comma or a closing bracket, after an expression. -/
  | operator (outer : List Opened) (t : Tree)

namespace Place

/-- The place behind an opening bracket. -/
def enter (p : Place) (head : Head) : Place := ⟨⟨head, [], p.before⟩ :: p.outer, .nothing⟩

/-- An operand is put at its place. -/
def fill (p : Place) (x : Tree) : State := .operator p.outer (p.before.fill x)

/-- The place before an opening parenthesis, if the place is right behind it. -/
def beforeParens? : Place → Option Place
  | ⟨⟨.parens, [], before⟩ :: outer, .nothing⟩ => some ⟨outer, before⟩
  | _ => none

end Place

/-- The expressions between brackets are complete. -/
def close (o : Opened) (outer : List Opened) (items : List Tree) (b : Bracket) : Option State :=
  if o.head.closing = b ∧ o.head.admits items.length = true then
    some (Place.fill ⟨outer, o.before⟩ (.bracket o.head items))
  else none

/-- A lexeme after the expression `t`. -/
def afterTree (t : Tree) : List Opened → Lexeme → Option State
  | outer, .operator op => some (.operand ⟨outer, .operator t op⟩)
  | ⟨head, items, before⟩ :: outer, .comma =>
    some (.operand ⟨⟨head, items ++ [t], before⟩ :: outer, .nothing⟩)
  | o :: outer, .right b => close o outer (o.items ++ [t]) b
  | _, _ => none

/-- A lexeme after a word. -/
def afterWord (p : Place) (text : String) : (cast : Bool) → Lexeme → Option State
  | cast, .left .round => some (.operand (p.enter (.call cast text)))
  | false, .left .square => some (.operand (p.enter (.element text)))
  | false, l =>
    match p.beforeParens? with
    | some q =>
      if text = "int" ∧ l = .right .round then some (.castCall q)
      else afterTree (p.before.fill (.word text)) p.outer l
    | none => afterTree (p.before.fill (.word text)) p.outer l
  | true, _ => none

/-- One lexeme is read. -/
def step : State → Lexeme → Option State
  | .operand p, .word text => some (.word p false text)
  | .operand p, .number text => some (p.fill (.number false text))
  | .operand p, .quoted text => some (p.fill (.quoted text))
  | .operand p, .operator .subtract => some (.negative p)
  | .operand p, .left .round => some (.operand (p.enter .parens))
  | .operand p, .left .curly => some (.operand (p.enter .array))
  | .operand ⟨⟨head, [], before⟩ :: outer, .nothing⟩, .right b =>
    close ⟨head, [], before⟩ outer [] b
  | .negative p, .number text => some (p.fill (.number true text))
  | .castCall p, .word text => some (.word p true text)
  | .word p cast text, l => afterWord p text cast l
  | .operator outer t, l => afterTree t outer l
  | _, _ => none

/-- The expression, if it may end here. -/
def State.tree? : State → Option Tree
  | .operator [] t => some t
  | .word ⟨[], before⟩ false text => some (before.fill (.word text))
  | _ => none

/-- Reads the rest of an expression. -/
def readFrom : State → List Lexeme → Option Tree
  | s, [] => s.tree?
  | s, l :: rest => (step s l).bind fun s' => readFrom s' rest

/-- Reads an expression. -/
def readLexemes (ls : List Lexeme) : Option Tree := readFrom (.operand ⟨[], .nothing⟩) ls

/-! ### Reading the text of a tree -/

/-- What may follow an operand. -/
def Ends : List Lexeme → Prop
  | [] | .operator _ :: _ | .comma :: _ | .right _ :: _ => True
  | _ => False

/-- An operand whose operators are all at least this tight may stand here. -/
def Before.Admits (precedence : Nat) : Before → Prop
  | nothing => True
  | operator _ op => op.javaPrecedence < precedence

/-- What binds tightly enough is put below the operator that is still open. -/
theorem Before.fill_attach {before : Before} {op : BinaryOp}
    (h : before.Admits op.javaPrecedence) (x y : Tree) :
    attach op y (before.fill x) = before.fill (attach op y x) := by
  cases before with
  | nothing => rfl
  | operator left op₀ => exact Tree.attach_attach h x y left

/-- One lexeme is read, and the reader goes on. -/
theorem readFrom_cons {s s' : State} {l : Lexeme} (h : step s l = some s') (rest : List Lexeme) :
    readFrom s (l :: rest) = readFrom s' rest := by
  rw [readFrom, h, Option.bind_some]

/-- A word is an operand, unless a bracket follows or it is a cast. -/
theorem readFrom_word {p : Place} {text : String} {rest : List Lexeme} (hrest : Ends rest)
    (hcast : p.beforeParens?.isSome → text = "int" → rest.head? ≠ some (.right .round)) :
    readFrom (.word p false text) rest = readFrom (p.fill (.word text)) rest := by
  cases rest with
  | nil =>
    obtain ⟨outer, before⟩ := p
    cases outer <;> rfl
  | cons l rest =>
    have hnot : p.beforeParens?.isSome → ¬ (text = "int" ∧ l = .right .round) := by
      rintro hparens ⟨htext, rfl⟩
      exact hcast hparens htext rfl
    have hstep : step (.word p false text) l = step (p.fill (.word text)) l := by
      cases l with
      | word | number | quoted | left => exact hrest.elim
      | operator | comma | right =>
        simp only [step, Place.fill, afterWord]
        cases hparens : p.beforeParens? with
        | none => rfl
        | some q => exact if_neg (hnot (by rw [hparens]; rfl))
    rw [readFrom, readFrom, hstep]

/-- After an opening bracket its items are read, with the bracket open. -/
theorem readFrom_opening (p : Place) (head : Head) (rest : List Lexeme) :
    readFrom (.operand p) (head.opening ++ rest) = readFrom (.operand (p.enter head)) rest := by
  cases head with
  | parens => rfl
  | element name => rfl
  | call cast name => cases cast <;> rfl
  | array => rfl

/-- A cast stands first in parentheses: nothing was read there before it. -/
theorem Place.of_beforeParens? {p : Place} (h : p.beforeParens?.isSome) :
    p.before = .nothing ∧ ∀ o outer, p.outer = o :: outer → o.head = .parens ∧ o.items = [] := by
  unfold beforeParens? at h
  split at h
  · refine ⟨rfl, fun o outer ho => ?_⟩
    obtain ⟨rfl, -⟩ := List.cons.inj ho
    exact ⟨rfl, rfl⟩
  · cases h

mutual

/-- **Reading the text of a tree.** -/
theorem readFrom_lexemes : (t : Tree) → t.Legible → (p : Place) → (rest : List Lexeme) →
    p.before.Admits t.loosest → Ends rest →
      (p.beforeParens?.isSome → t = .word "int" → rest.head? ≠ some (.right .round)) →
        readFrom (.operand p) (t.lexemes ++ rest) = readFrom (p.fill t.regroup) rest
  | .word text, _, p, rest, _, hrest, hcast => by
    have hword : step (.operand p) (.word text) = some (.word p false text) := rfl
    simp only [Tree.lexemes, Tree.regroup, List.singleton_append]
    rw [readFrom_cons hword]
    refine readFrom_word hrest fun hparens htext => hcast hparens ?_
    rw [htext]
  | .number negative text, _, p, rest, _, _, _ => by cases negative <;> rfl
  | .quoted text, _, p, rest, _, _, _ => rfl
  | .bracket head items, ⟨hadmits, hparens, hitems⟩, p, rest, _, _, _ => by
    have hread := readFrom_items items hitems ⟨head, [], p.before⟩ p.outer rest hadmits
      (fun hhead _ => hparens hhead) fun _ => rfl
    simp only [Tree.lexemes, Tree.regroup, List.append_assoc, List.singleton_append]
    rw [readFrom_opening]
    exact hread
  | .binary op left right, ⟨hleft, hright, hlt⟩, p, rest, hbefore, hrest, _ => by
    have hop : p.before.Admits op.javaPrecedence ∧ p.before.Admits left.loosest := by
      cases hp : p.before with
      | nothing => exact ⟨trivial, trivial⟩
      | operator _ op₀ =>
        rw [hp] at hbefore
        simp only [Before.Admits, Tree.loosest] at hbefore ⊢
        omega
    -- the left operand is read at this place, the right one after it and the operator
    have hfirst := readFrom_lexemes left hleft p (.operator op :: (right.lexemes ++ rest)) hop.2
      trivial fun _ _ => nofun
    have hsecond := readFrom_lexemes right hright
      ⟨p.outer, .operator (p.before.fill left.regroup) op⟩ rest hlt hrest
      fun hparens => nomatch (Place.of_beforeParens? hparens).1
    simp only [Tree.lexemes, List.append_assoc, List.cons_append]
    rw [hfirst, Place.fill, readFrom_cons rfl, hsecond, Place.fill, Before.fill,
      Before.fill_attach hop.1, Tree.regroup, Place.fill]

/-- Items are read up to the closing bracket, and the bracket becomes an operand. -/
theorem readFrom_items : (items : List Tree) → Tree.LegibleList items → (o : Opened) →
    (outer : List Opened) → (rest : List Lexeme) →
      o.head.admits (o.items ++ items).length = true →
        (o.head = .parens → o.items = [] → items ≠ [.word "int"]) → (items = [] → o.items = []) →
          readFrom (.operand ⟨o :: outer, .nothing⟩)
              (Tree.lexemesOfList items ++ .right o.head.closing :: rest) =
            readFrom (Place.fill ⟨outer, o.before⟩
              (.bracket o.head (o.items ++ Tree.regroupList items))) rest
  | [], _, ⟨head, items, before⟩, outer, rest, hadmits, _, hitems => by
    obtain rfl : items = [] := hitems rfl
    have hclose : step (.operand ⟨⟨head, [], before⟩ :: outer, .nothing⟩) (.right head.closing) =
        some (Place.fill ⟨outer, before⟩ (.bracket head [])) := if_pos ⟨rfl, hadmits⟩
    exact readFrom_cons hclose rest
  | [t], ⟨ht, _⟩, o, outer, rest, hadmits, hcast, _ => by
    have hread := readFrom_lexemes t ht ⟨o :: outer, .nothing⟩ (.right o.head.closing :: rest)
      trivial trivial fun hparens hword => by
        obtain ⟨hhead, hitems⟩ := (Place.of_beforeParens? hparens).2 o outer rfl
        exact absurd (congrArg (fun t => [t]) hword) (hcast hhead hitems)
    have hlength : (o.items ++ [t]).length = (o.items ++ [t.regroup]).length := by simp
    have hclose : step (.operator (o :: outer) t.regroup) (.right o.head.closing) =
        some (Place.fill ⟨outer, o.before⟩ (.bracket o.head (o.items ++ [t.regroup]))) :=
      if_pos ⟨rfl, hlength ▸ hadmits⟩
    rw [Tree.lexemesOfList, hread]
    exact readFrom_cons hclose rest
  | t :: u :: us, ⟨ht, hus⟩, ⟨head, items, before⟩, outer, rest, hadmits, hcast, _ => by
    have hread := readFrom_lexemes t ht ⟨⟨head, items, before⟩ :: outer, .nothing⟩
      (.comma :: (Tree.lexemesOfList (u :: us) ++ .right head.closing :: rest)) trivial trivial
      fun _ _ => nofun
    have hrest := readFrom_items (u :: us) hus ⟨head, items ++ [t.regroup], before⟩ outer rest
      (by simpa using hadmits) (by simp) nofun
    have hcomma : step (.operator (⟨head, items, before⟩ :: outer) t.regroup) .comma =
        some (.operand ⟨⟨head, items ++ [t.regroup], before⟩ :: outer, .nothing⟩) := rfl
    rw [Tree.lexemesOfList, List.append_assoc, List.cons_append, hread]
    refine (readFrom_cons hcomma _).trans (hrest.trans ?_)
    rw [List.append_assoc]
    rfl

end

/-- **The text of a legible tree is read as its regrouping.** -/
theorem read_lexemes {t : Tree} (h : t.Legible) : readLexemes t.lexemes = some t.regroup := by
  have hread := readFrom_lexemes t h ⟨[], .nothing⟩ [] trivial trivial nofun
  rw [List.append_nil] at hread
  exact hread

/-! ### Words of what is read -/

/-- The words to the left of an operand. -/
def Before.words : Before → List String
  | nothing => []
  | operator left _ => left.words

/-- The words that belong to open brackets. -/
def Opened.words (o : Opened) : List String :=
  o.head.words ++ (Tree.wordsOfList o.items ++ o.before.words)

/-- The words to the left of a place. -/
def Place.words (p : Place) : List String := p.outer.flatMap Opened.words ++ p.before.words

/-- The words that were read. -/
def State.words : State → List String
  | operand p | negative p | castCall p => p.words
  | word p _ text => text :: p.words
  | operator outer t => outer.flatMap Opened.words ++ t.words

/-- Words of trees and one more tree. -/
theorem Tree.wordsOfList_append (ts : List Tree) (t : Tree) :
    wordsOfList (ts ++ [t]) = wordsOfList ts ++ t.words := by
  induction ts with
  | nil => exact List.append_nil t.words
  | cons u us ih => rw [List.cons_append, wordsOfList, wordsOfList, ih, List.append_assoc]

/-- Words of the place that is filled, and of what it is filled with. -/
theorem Place.words_fill {p : Place} {x : Tree} {w : String} (h : w ∈ (p.fill x).words) :
    w ∈ p.words ∨ w ∈ x.words := by
  obtain ⟨outer, before⟩ := p
  cases before with
  | nothing =>
    simp only [fill, Before.fill, State.words, words, List.mem_append] at h ⊢
    tauto
  | operator left op =>
    have hattach : w ∈ (attach op x left).words → w ∈ left.words ∨ w ∈ x.words := Tree.words_attach
    simp only [fill, Before.fill, State.words, words, Before.words, List.mem_append] at h ⊢
    tauto

/-- A literal adds no word. -/
theorem Place.words_fill_of_nil {p : Place} {x : Tree} (hx : x.words = []) {w : String}
    (h : w ∈ (p.fill x).words) : w ∈ p.words := by
  rcases words_fill h with hp | hw
  · exact hp
  · rw [hx] at hw
    cases hw

/-- A bracket that is closed adds no words. -/
theorem close_words {o : Opened} {outer : List Opened} {items : List Tree} {b : Bracket}
    {s : State} (h : close o outer items b = some s) {w : String} (hw : w ∈ s.words) :
    w ∈ outer.flatMap Opened.words ∨ w ∈ o.head.words ∨ w ∈ o.before.words ∨
      w ∈ Tree.wordsOfList items := by
  unfold close at h
  split at h
  · cases h
    have hfill := Place.words_fill hw
    simp only [Place.words, Tree.words, List.mem_append] at hfill
    tauto
  · cases h

/-- An operator, a comma or a bracket after a tree adds no words. -/
theorem afterTree_words {t : Tree} {outer : List Opened} {l : Lexeme} {s : State}
    (h : afterTree t outer l = some s) {w : String} (hw : w ∈ s.words) :
    w ∈ outer.flatMap Opened.words ∨ w ∈ t.words := by
  unfold afterTree at h
  split at h
  · cases h
    simpa only [State.words, Place.words, Before.words, List.mem_append] using hw
  · cases h
    simp only [State.words, Place.words, Before.words, List.flatMap_cons, Opened.words,
      Tree.wordsOfList_append, List.mem_append] at hw ⊢
    tauto
  · have hclose := close_words h hw
    simp only [List.flatMap_cons, Opened.words, Tree.wordsOfList_append, List.mem_append]
      at hclose ⊢
    tauto
  · cases h

/-- A bracket that is opened adds the words in front of it. -/
theorem Place.words_enter {p : Place} {head : Head} {w : String} :
    w ∈ (p.enter head).words ↔ w ∈ p.words ∨ w ∈ head.words := by
  simp only [words, enter, List.flatMap_cons, Opened.words, Tree.wordsOfList, Before.words,
    List.mem_append, List.not_mem_nil]
  tauto

/-- Taking parentheses back for a cast adds no words. -/
theorem Place.words_beforeParens? {p q : Place} (h : p.beforeParens? = some q) {w : String}
    (hw : w ∈ q.words) : w ∈ p.words := by
  unfold beforeParens? at h
  split at h
  · cases h
    exact words_enter.2 (.inl hw)
  · cases h

/-- After a word, the words are those from before and this one. -/
theorem afterWord_words {p : Place} {text : String} {cast : Bool} {l : Lexeme} {s : State}
    (h : afterWord p text cast l = some s) {w : String} (hw : w ∈ s.words) :
    w ∈ p.words ∨ w = text := by
  have hafter (h : afterTree (p.before.fill (.word text)) p.outer l = some s) :
      w ∈ p.words ∨ w = text := by
    have hfill : w ∈ (p.fill (.word text)).words := List.mem_append.2 (afterTree_words h hw)
    simpa only [Tree.words, List.mem_singleton] using Place.words_fill hfill
  unfold afterWord at h
  split at h
  · cases h
    simpa only [Head.words, List.mem_singleton] using Place.words_enter.1 hw
  · cases h
    simpa only [Head.words, List.mem_singleton] using Place.words_enter.1 hw
  · cases hparens : p.beforeParens? with
    | none =>
      rw [hparens] at h
      exact hafter h
    | some q =>
      rw [hparens] at h
      dsimp only at h
      split at h
      · cases h
        exact .inl (Place.words_beforeParens? hparens hw)
      · exact hafter h
  · cases h

/-- A step adds the word that it reads. -/
theorem step_words {s s' : State} {l : Lexeme} (h : step s l = some s') {w : String}
    (hw : w ∈ s'.words) : w ∈ s.words ∨ l = .word w := by
  unfold step at h
  split at h
  · cases h
    simpa only [State.words, List.mem_cons, Lexeme.word.injEq, or_comm, eq_comm] using hw
  · cases h
    exact .inl (Place.words_fill_of_nil rfl hw)
  · cases h
    exact .inl (Place.words_fill_of_nil rfl hw)
  · cases h
    exact .inl hw
  · cases h
    exact .inl ((Place.words_enter.1 hw).resolve_right nofun)
  · cases h
    exact .inl ((Place.words_enter.1 hw).resolve_right nofun)
  · refine .inl (Place.words_enter (p := ⟨_, _⟩).2 ?_)
    have hclose := close_words h hw
    simp only [Tree.wordsOfList, List.not_mem_nil, or_false] at hclose
    simp only [Place.words, List.mem_append]
    tauto
  · cases h
    exact .inl (Place.words_fill_of_nil rfl hw)
  · cases h
    simpa only [State.words, List.mem_cons, Lexeme.word.injEq, or_comm, eq_comm] using hw
  · rw [State.words, List.mem_cons]
    exact .inl (afterWord_words h hw).symm
  · exact .inl (List.mem_append.2 (afterTree_words h hw))
  · cases h

/-- **Every word of what is read stands in the text.** -/
theorem readFrom_words {ls : List Lexeme} {s : State} {t : Tree} (h : readFrom s ls = some t)
    {w : String} (hw : w ∈ t.words) : w ∈ s.words ∨ .word w ∈ ls := by
  induction ls generalizing s with
  | nil =>
    unfold readFrom State.tree? at h
    split at h
    · cases h
      exact .inl hw
    · cases h
      have hfill := Place.words_fill (p := ⟨[], _⟩) (x := .word _) hw
      simp only [State.words, Tree.words, List.mem_cons, List.not_mem_nil, or_false] at hfill ⊢
      exact hfill.symm
    · cases h
  | cons l rest ih =>
    obtain ⟨s', hstep, hread⟩ := Option.bind_eq_some_iff.1 h
    rcases ih hread with hs' | hrest
    · rcases step_words hstep hs' with hs | rfl
      · exact .inl hs
      · exact .inr List.mem_cons_self
    · exact .inr (List.mem_cons_of_mem l hrest)

end Java
end Scriptlet
