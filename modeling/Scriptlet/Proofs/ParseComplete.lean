import Mathlib.Tactic.Common
import Scriptlet.Proofs.ParseSound

/-!
# What is in the grammar is read

`Reads r ts follow P` says that rule `r`, before the tokens `ts` and then `follow`,
reads exactly `ts` and gives a result in `P`.  The grammar does not say how a rule
decides where to stop, so this needs a condition on `follow`: after an expression,
nothing may come that would continue it.

| after | may not come |
| --- | --- |
| a name | `(` or `[` |
| a chain of a level | these, or an operator of this level or a tighter one |
| a block | anything but a word that ends blocks |

Rules that count the tokens that are left get through with any bound that is not
less than the number of tokens they read.
-/

namespace Scriptlet

/-- The kind of a token that comes from a text is fixed by its literal. -/
theorem Token.Lexed.kind_eq {t : Token} (h : t.Lexed) {literal : String}
    (ht : t.literal = literal) : t.kind = kindOf literal.toList := by
  rw [← ht]
  exact h.kindOf_eq.symm

/-- A token that denotes a literal is no name and no operator. -/
theorem Denotes.kind_ne {t : Token} {v : Literal} (h : Denotes t v) :
    t.kind ≠ .identifier ∧ t.kind ≠ .operator := by
  cases h <;> simp [*]

/-- How tight a level of operators is. -/
def Level.rank : Level → Nat
  | .logical => 0
  | .comparison => 1
  | .additive => 2
  | .multiplicative => 3

namespace Grammar

/-! ### First tokens -/

/-- A token that can start an expression. -/
def CanStart (t : Token) : Prop :=
  t.literal ∈ "(" :: literalWords ∨ IsVariable t ∨ ∃ v, Denotes t v

/-- The tokens start with one that can start an expression. -/
def Starts (ts : List Token) : Prop := ∃ t rest, ts = t :: rest ∧ CanStart t

/-- How a primary expression can start. -/
theorem Primary.starts {ts : List Token} {e : Expr} (h : Primary ts e) : Starts ts := by
  cases h with
  | nil h => exact ⟨_, _, rfl, .inl (by simp [h, literalWords])⟩
  | isTrue h => exact ⟨_, _, rfl, .inl (by simp [h, literalWords])⟩
  | isFalse h => exact ⟨_, _, rfl, .inl (by simp [h, literalWords])⟩
  | literal h => exact ⟨_, _, rfl, .inr (.inr ⟨_, h⟩)⟩
  | group h => exact ⟨_, _, rfl, .inl (by simp [h])⟩
  | access h => exact ⟨_, _, rfl, .inr (.inl h)⟩
  | element h => exact ⟨_, _, rfl, .inr (.inl h)⟩
  | call h => exact ⟨_, _, rfl, .inr (.inl h)⟩

mutual

/-- An operand starts as a primary expression does. -/
theorem Operand.starts {level : Level} {ts : List Token} {e : Expr} :
    Operand level ts e → Starts ts
  | .primary h => h.starts
  | .product h => h.starts
  | .sum h => h.starts
  | .comparison h => h.starts

/-- A chain starts as its first operand does. -/
theorem Chain.starts {level : Level} {ts : List Token} {e : Expr} :
    Chain level ts e → Starts ts
  | .operand h => h.starts
  | .binary h _ _ => by
    obtain ⟨t, rest, rfl, ht⟩ := h.starts
    exact ⟨t, _, rfl, ht⟩

end

/-- Operands are added to a chain one by one. -/
theorem Chain.induct {level : Level} {motive : List Token → Expr → Prop}
    (operand : ∀ {ts e}, Operand level ts e → motive ts e)
    (binary : ∀ {ts us o id op l r}, Chain level ts l → motive ts l → Joins level o.literal op →
      Operand level us r → motive (ts ++ o :: us) (.binary id op l r))
    {ts : List Token} {e : Expr} : Chain level ts e → motive ts e
  | .operand h => operand h
  | .binary hl ho hr => binary hl (Chain.induct operand binary hl) ho hr

/-- The symbols that continue a name or a chain. -/
def continuations : List String := "(" :: "[" :: BinaryOp.all.map BinaryOp.symbol

/-- The tokens do not continue a name, and not a chain of rank `k` or tighter. -/
def Closed (k : Nat) (follow : List Token) : Prop :=
  ¬ StartsWith ["("] follow ∧ ¬ StartsWith ["["] follow ∧
    ∀ op : BinaryOp, StartsWith [op.symbol] follow → op.level.rank < k

/-- Only the first token counts. -/
theorem startsWith_cons {words : List String} {t : Token} {ts : List Token} :
    StartsWith words (t :: ts) ↔ t.literal ∈ words := by
  constructor
  · rintro ⟨_, _, h, ht⟩
    cases h
    exact ht
  · intro h
    exact ⟨t, ts, rfl, h⟩

/-- What comes after tokens that are not empty does not count. -/
theorem startsWith_append {words : List String} {ts us : List Token} (h : ts ≠ []) :
    StartsWith words (ts ++ us) ↔ StartsWith words ts := by
  obtain ⟨t, rest, rfl⟩ := List.exists_cons_of_ne_nil h
  rw [List.cons_append, startsWith_cons, startsWith_cons]

/-- A token with another literal does not start with one of the words. -/
theorem not_startsWith_cons {words : List String} {t : Token} {ts : List Token} {literal : String}
    (ht : t.literal = literal) (h : literal ∉ words) : ¬ StartsWith words (t :: ts) := by
  rw [startsWith_cons, ht]
  exact h

/-- What is no continuation closes expressions. -/
theorem closed_cons {t : Token} {ts : List Token} {literal : String} {k : Nat}
    (ht : t.literal = literal) (h : literal ∉ continuations) : Closed k (t :: ts) := by
  subst ht
  refine ⟨fun hs => h ?_, fun hs => h ?_, fun op hs => absurd ?_ h⟩
  · rw [List.mem_singleton.1 (startsWith_cons.1 hs)]
    exact List.mem_cons_self
  · rw [List.mem_singleton.1 (startsWith_cons.1 hs)]
    exact List.mem_cons_of_mem _ List.mem_cons_self
  · rw [List.mem_singleton.1 (startsWith_cons.1 hs)]
    cases op <;> decide

/-- An operator closes the chains that are tighter than it. -/
theorem closed_operator {o : Token} {op : BinaryOp} {ts : List Token} {k : Nat}
    (ho : o.literal = op.symbol) (hk : op.level.rank < k) : Closed k (o :: ts) := by
  refine ⟨fun hs => ?_, fun hs => ?_, fun op' hs => ?_⟩
  · have := List.mem_singleton.1 (startsWith_cons.1 hs)
    rw [ho] at this
    cases op <;> simp [BinaryOp.symbol] at this
  · have := List.mem_singleton.1 (startsWith_cons.1 hs)
    rw [ho] at this
    cases op <;> simp [BinaryOp.symbol] at this
  · have := List.mem_singleton.1 (startsWith_cons.1 hs)
    have hop : op = op' := by
      rw [← Option.some.injEq, ← BinaryOp.ofSymbol?_symbol, ← BinaryOp.ofSymbol?_symbol, ← ho, this]
    rwa [← hop]

/-- No expression starts with a closing bracket or another operator. -/
theorem Starts.not_startsWith {ts us : List Token} {literal : String} (h : Starts ts)
    (hts : ∀ t ∈ ts, t.Lexed) (hk : kindOf literal.toList = .operator) (hne : literal ≠ "(") :
    ¬ StartsWith [literal] (ts ++ us) := by
  obtain ⟨t, rest, rfl, ht⟩ := h
  rw [List.cons_append, startsWith_cons, List.mem_singleton]
  intro hl
  have hkind : t.kind = .operator := ((hts t List.mem_cons_self).kind_eq hl).trans hk
  rcases ht with ht | ⟨ht, -⟩ | ⟨v, hv⟩
  · rw [hl] at ht
    rcases List.mem_cons.1 ht with ht | ht
    · exact hne ht
    · have hid : ∀ w ∈ literalWords, kindOf w.toList = .identifier := by decide
      rw [hid literal ht] at hk
      cases hk
  · rw [hkind] at ht
    cases ht
  · exact hv.kind_ne.2 hkind

/-- Elements start as their first one does. -/
theorem Several.starts {close : String} {ts : List Token} {es : List Expr}
    (h : Several close ts es) : Starts ts := by
  cases h with
  | last h =>
    obtain ⟨t, rest, rfl, ht⟩ := h.starts
    exact ⟨t, _, rfl, ht⟩
  | more h =>
    obtain ⟨t, rest, rfl, ht⟩ := h.starts
    exact ⟨t, _, rfl, ht⟩

/-- A chain is not empty. -/
theorem Chain.ne_nil {level : Level} {ts : List Token} {e : Expr} (h : Chain level ts e) :
    ts ≠ [] := by
  obtain ⟨t, rest, rfl, -⟩ := h.starts
  exact List.cons_ne_nil t rest

end Grammar

namespace Rule

variable {α β : Type} {ts us follow : List Token} {t : Token}

/-- The cursor past `ts` is before tokens of a text if the one before `ts` is. -/
theorem lexed_of_append {c c' : Cursor} (hc : c.Lexed) (h : c.rest = ts ++ follow)
    (h' : c'.rest = follow) : c'.Lexed := by
  intro t ht
  refine hc t ?_
  rw [h, ← h']
  exact List.mem_append_right _ ht

/-- Before `ts` and then `follow`, the rule reads exactly `ts`, and its result is
in `P`. -/
def Reads (r : Rule α) (ts follow : List Token) (P : α → Prop) : Prop :=
  ∀ c : Cursor, c.Lexed → c.rest = ts ++ follow →
    ∃ x c', r c = .ok x c' ∧ c'.rest = follow ∧ P x

namespace Reads

/-- A result reads nothing. -/
theorem pure {a : α} {P : α → Prop} (h : P a) : Reads (pure a) [] follow P := by
  intro c _ hc
  exact ⟨a, c, rfl, hc, h⟩

/-- One rule after the other: what the second reads follows the first. -/
theorem bind {x : Rule α} {f : α → Rule β} {P : α → Prop} {Q : β → Prop}
    (hx : Reads x ts (us ++ follow) P) (hf : ∀ a, P a → Reads (f a) us follow Q) :
    Reads (x >>= f) (ts ++ us) follow Q := by
  intro c hc hrest
  rw [List.append_assoc] at hrest
  obtain ⟨a, c₁, ha, hrest₁, hP⟩ := hx c hc hrest
  obtain ⟨b, c₂, hb, hrest₂, hQ⟩ := hf a hP c₁ (lexed_of_append hc hrest hrest₁) hrest₁
  exact ⟨b, c₂, bind_ok.2 ⟨a, c₁, ha, hb⟩, hrest₂, hQ⟩

/-- A first rule that reads one token. -/
theorem cons {x : Rule α} {f : α → Rule β} {P : α → Prop} {Q : β → Prop}
    (hx : Reads x [t] (us ++ follow) P) (hf : ∀ a, P a → Reads (f a) us follow Q) :
    Reads (x >>= f) (t :: us) follow Q := bind hx hf

/-- A first rule that reads nothing. -/
theorem stay {x : Rule α} {f : α → Rule β} {P : α → Prop} {Q : β → Prop}
    (hx : Reads x [] (us ++ follow) P) (hf : ∀ a, P a → Reads (f a) us follow Q) :
    Reads (x >>= f) us follow Q := bind hx hf

/-- A first rule after which nothing is read. -/
theorem last {x : Rule α} {f : α → Rule β} {P : α → Prop} {Q : β → Prop}
    (hx : Reads x ts follow P) (hf : ∀ a, P a → Reads (f a) [] follow Q) :
    Reads (x >>= f) ts follow Q := by
  have h : Reads (x >>= f) (ts ++ []) follow Q := bind hx hf
  rwa [List.append_nil] at h

/-- The result is changed at the end. -/
theorem map {x : Rule α} {f : α → β} {P : α → Prop} {Q : β → Prop} (hx : Reads x ts follow P)
    (hf : ∀ a, P a → Q (f a)) : Reads (f <$> x) ts follow Q := by
  intro c hc hrest
  obtain ⟨a, c₁, ha, hrest₁, hP⟩ := hx c hc hrest
  exact ⟨f a, c₁, map_ok.2 ⟨a, ha, rfl⟩, hrest₁, hf a hP⟩

/-- The tokens that a rule is to read may be taken to come from a text. -/
theorem of_lexed {r : Rule α} {P : α → Prop}
    (h : (∀ t ∈ ts, t.Lexed) → Reads r ts follow P) : Reads r ts follow P := by
  intro c hc hrest
  have hts : ∀ t ∈ ts, t.Lexed := by
    intro t ht
    refine hc t ?_
    rw [hrest]
    exact List.mem_append_left _ ht
  exact h hts c hc hrest

/-- The token is there, and is read. -/
theorem accept {literal : String} (h : t.literal = literal) :
    Reads (Rule.accept literal) [t] follow (· = true) := by
  intro c _ hrest
  have hr : c.rest = t :: follow := hrest
  refine ⟨true, c.past t follow, ?_, rfl, rfl⟩
  rw [Rule.accept, hr]
  exact if_pos h

/-- The token is not there, and nothing is read. -/
theorem notAccept {literal : String} (h : ¬ Grammar.StartsWith [literal] follow) :
    Reads (Rule.accept literal) [] follow (· = false) := by
  intro c _ hrest
  have hr : c.rest = follow := hrest
  refine ⟨false, c, ?_, hr, rfl⟩
  unfold Rule.accept
  split
  · rfl
  · rename_i t rest ht
    refine if_neg fun hl => h ⟨t, rest, hr ▸ ht, ?_⟩
    rw [hl]
    exact List.mem_singleton_self _

/-- The token that must be there is read. -/
theorem expect {literal what : String} (h : t.literal = literal) :
    Reads (Rule.expect literal what) [t] follow (fun _ => True) := by
  refine last (accept h) ?_
  rintro _ rfl
  exact pure trivial

/-- The name is read. -/
theorem name {what : String} (h : t.kind = .identifier) :
    Reads (Rule.name what) [t] follow (· = t.literal) := by
  intro c _ hrest
  have hr : c.rest = t :: follow := hrest
  refine ⟨t.literal, c.past t follow, ?_, rfl, rfl⟩
  rw [Rule.name, hr]
  exact if_pos h

/-- A number for a node reads nothing. -/
theorem freshId : Reads Rule.freshId [] follow (fun _ => True) := by
  intro c _ hrest
  exact ⟨_, _, rfl, hrest, trivial⟩

/-- A rule over the number of tokens that are left. -/
theorem remaining {f : Nat → Rule α} {P : α → Prop}
    (hf : Reads (f (ts ++ follow).length) ts follow P) :
    Reads (Rule.remaining >>= f) ts follow P := by
  intro c hc hrest
  obtain ⟨x, c', hx, h⟩ := hf c hc hrest
  rw [← hrest] at hx
  exact ⟨x, c', hx, h⟩

/-- The rule goes on after the token. -/
theorem ifAccept {literal : String} {yes no : Rule α} {P : α → Prop} (h : t.literal = literal)
    (hyes : Reads yes ts follow P) :
    Reads (do if ← Rule.accept literal then yes else no) (t :: ts) follow P := by
  refine cons (accept h) ?_
  rintro _ rfl
  exact hyes

/-- The rule goes the other way, and nothing was read. -/
theorem ifNotAccept {literal : String} {yes no : Rule α} {P : α → Prop}
    (h : ¬ Grammar.StartsWith [literal] (ts ++ follow)) (hno : Reads no ts follow P) :
    Reads (do if ← Rule.accept literal then yes else no) ts follow P := by
  refine stay (notAccept h) ?_
  rintro _ rfl
  exact hno

/-- Whether the token comes next is found out without reading it. -/
theorem peek (literal : String) :
    Reads (Rule.peek literal) [] follow
      (· = true ↔ Grammar.StartsWith [literal] follow) := by
  intro c _ hrest
  have hr : c.rest = follow := hrest
  refine ⟨_, c, rfl, hr, ?_⟩
  subst hr
  cases h : c.rest with
  | nil => simp [Cursor.sees, h, Grammar.StartsWith]
  | cons t rest => simp [Cursor.sees, h, Grammar.StartsWith]

/-- The token comes next, and is left for the rule. -/
theorem ifPeek {literal : String} {yes no : Rule α} {P : α → Prop}
    (h : Grammar.StartsWith [literal] (ts ++ follow)) (hyes : Reads yes ts follow P) :
    Reads (do if ← Rule.peek literal then yes else no) ts follow P := by
  refine stay (peek literal) ?_
  intro b hb
  rw [hb.2 h]
  exact hyes

/-- The token does not come next. -/
theorem ifNotPeek {literal : String} {yes no : Rule α} {P : α → Prop}
    (h : ¬ Grammar.StartsWith [literal] (ts ++ follow)) (hno : Reads no ts follow P) :
    Reads (do if ← Rule.peek literal then yes else no) ts follow P := by
  refine stay (peek literal) ?_
  intro b hb
  rw [Bool.eq_false_iff.2 (mt hb.1 h)]
  exact hno

end Reads

/-! ### Expressions -/

open Grammar

/-- The rule reads everything that `spells` has of at most `n` tokens, before tokens
that continue no chain of rank `k`. -/
def Complete (r : Rule Expr) (spells : List Token → Expr → Prop) (n k : Nat) : Prop :=
  ∀ ⦃ts e follow⦄, spells ts e → ts.length ≤ n → Closed k follow →
    Reads r ts follow (·.unnumbered = e.unnumbered)

/-- A literal, up to its number. -/
theorem literal_reads (v : Literal) (id : NodeId) :
    Reads (literal v) [] follow (·.unnumbered = (Expr.literal id v).unnumbered) := by
  refine .last .freshId fun id' _ => .pure ?_
  rfl

section Inner

variable {inner : Rule Expr} {n : Nat} (hinner : Complete inner Expression n 0)
include hinner

/-- Elements are read up to the bracket: a comma or the bracket cannot continue an expression. -/
theorem commaSeparated_reads {close what : String} (hclose : close = ")" ∨ close = "]") (m : Nat) :
    ∀ {ts : List Token} {es : List Expr}, Several close ts es → ts.length ≤ n → ts.length ≤ m →
      Reads (commaSeparated inner close what m) ts follow
        (Expr.unnumberedList · = Expr.unnumberedList es) := by
  have hcont : close ∉ continuations ∧ kindOf close.toList = .operator ∧ close ≠ "(" := by
    rcases hclose with rfl | rfl <;> decide
  induction m with
  | zero =>
    intro ts es h _ hm
    cases h with
    | last => simp at hm
    | more => simp at hm
  | succ m ih =>
    intro ts es h hn hm
    cases h with
    | @last _ t ts e he ht =>
      rw [List.length_append, List.length_singleton] at hn hm
      refine .bind (hinner he (by omega) (closed_cons ht hcont.1)) fun e' he' => ?_
      refine .ifAccept ht (.pure ?_)
      simp only [Expr.unnumberedList, he']
    | @more _ comma ts us e es he hcomma hrest =>
      rw [List.length_append, List.length_cons] at hn hm
      refine .bind (hinner he (by omega) (closed_cons hcomma (by decide))) fun e' he' => ?_
      have hother : "," ∉ [close] := by rcases hclose with rfl | rfl <;> decide
      refine .ifNotAccept (not_startsWith_cons hcomma hother) ?_
      refine .ifAccept hcomma (.of_lexed fun hus => ?_)
      -- an expression follows the comma, so the closing bracket does not
      refine .ifNotPeek (hrest.starts.not_startsWith hus hcont.2.1 hcont.2.2) ?_
      refine .last (ih hrest (by omega) (by omega)) fun es' hes' => .pure ?_
      simp only [Expr.unnumberedList, he', hes']

/-- A list of elements is read up to its bracket. -/
theorem separated_reads {close what : String} (hclose : close = ")" ∨ close = "]")
    {es : List Expr} (h : Items close ts es) (hn : ts.length ≤ n) :
    Reads (separated inner close what) ts follow
      (Expr.unnumberedList · = Expr.unnumberedList es) := by
  have hcont : kindOf close.toList = .operator ∧ close ≠ "(" := by
    rcases hclose with rfl | rfl <;> decide
  cases h with
  | none ht => exact .ifAccept ht (.pure rfl)
  | some h =>
    refine .of_lexed fun hts => ?_
    refine .ifNotAccept (h.starts.not_startsWith hts hcont.1 hcont.2) (.remaining ?_)
    exact commaSeparated_reads hinner hclose _ h hn (by simp)

omit hinner in
/-- A primary expression that starts with no literal word and no parenthesis is
recognised by the kind of its first token. -/
theorem primaryOver_byKind {P : Expr → Prop} (ht : t.literal ∉ "(" :: literalWords)
    (h : Reads (primaryByKind inner) (t :: ts) follow P) :
    Reads (primaryOver inner) (t :: ts) follow P := by
  have hne : ∀ w ∈ "(" :: literalWords, ¬ StartsWith [w] (t :: ts ++ follow) := by
    intro w hw
    refine not_startsWith_cons rfl fun hmem => ht ?_
    rwa [List.mem_singleton.1 hmem]
  refine .ifNotAccept (hne _ (by decide)) (.ifNotAccept (hne _ (by decide)) ?_)
  exact .ifNotAccept (hne _ (by decide)) (.ifNotAccept (hne _ (by decide)) h)

omit hinner in
/-- A primary expression that starts with a name is no word, bracket or literal. -/
theorem primaryOver_name {P : Expr → Prop} (ht : IsVariable t)
    (h : Reads (nameTail inner t.literal) ts follow P) :
    Reads (primaryOver inner) (t :: ts) follow P := by
  refine .of_lexed fun hts => primaryOver_byKind ?_ ?_
  · intro hmem
    rcases List.mem_cons.1 hmem with hl | hmem
    · have hk := (hts t List.mem_cons_self).kind_eq hl
      rw [ht.1] at hk
      revert hk
      decide
    · exact ht.2 hmem
  · intro c hc hrest
    have hr : c.rest = t :: (ts ++ follow) := hrest
    have hnext := h (c.past t (ts ++ follow)) ((Spans.past hr).lexed hc) rfl
    unfold primaryByKind
    simp only [hr, ht.1]
    exact hnext

omit hinner in
/-- A token that denotes a literal is read as this literal. -/
theorem primaryOver_literal {v : Literal} (id : NodeId) (hv : Denotes t v) :
    Reads (primaryOver inner) [t] follow (·.unnumbered = (Expr.literal id v).unnumbered) := by
  refine .of_lexed fun hts => primaryOver_byKind ?_ ?_
  · intro hmem
    have hk := (hts t List.mem_cons_self).kind_eq rfl
    have hwords : ∀ w ∈ "(" :: literalWords,
        kindOf w.toList = .identifier ∨ kindOf w.toList = .operator := by decide
    rcases hwords _ hmem with hw | hw
    · exact hv.kind_ne.1 (hk.trans hw)
    · exact hv.kind_ne.2 (hk.trans hw)
  · intro c hc hrest
    have hr : c.rest = t :: follow := hrest
    have hreads : Reads (literal v) [] follow _ := literal_reads v id
    have hnext := hreads (c.past t follow) ((Spans.past hr).lexed hc) rfl
    unfold primaryByKind
    simp only [hr, hv.literalValue]
    split
    · exact absurd ‹_› hv.kind_ne.1
    · exact absurd ‹_› hv.kind_ne.2
    · exact hnext

/-- Primary expressions are read, if what they have in brackets is read. -/
theorem primaryOver_complete : Complete (primaryOver inner) Primary (n + 1) 4 := by
  intro ts e follow h hn hfollow
  cases h with
  | nil ht => exact .ifAccept ht (literal_reads _ _)
  | isTrue ht =>
    exact .ifNotAccept (not_startsWith_cons ht (by decide)) (.ifAccept ht (literal_reads _ _))
  | isFalse ht =>
    refine .ifNotAccept (not_startsWith_cons ht (by decide)) ?_
    exact .ifNotAccept (not_startsWith_cons ht (by decide)) (.ifAccept ht (literal_reads _ _))
  | literal hv => exact primaryOver_literal _ hv
  | @group l r ts id e hl he hr =>
    simp only [List.length_cons, List.length_append, List.length_nil] at hn
    refine .ifNotAccept (not_startsWith_cons hl (by decide)) ?_
    refine .ifNotAccept (not_startsWith_cons hl (by decide)) ?_
    refine .ifNotAccept (not_startsWith_cons hl (by decide)) (.ifAccept hl ?_)
    refine .bind (hinner he (by omega) (closed_cons hr (by decide))) fun e' he' => ?_
    refine .cons (.expect hr) fun _ _ => .last .freshId fun id' _ => .pure ?_
    simp only [Expr.unnumbered, he']
  | access ht =>
    refine primaryOver_name ht (.ifNotAccept hfollow.1 (.ifNotAccept hfollow.2.1 ?_))
    exact .last .freshId fun id _ => .pure rfl
  | @element t l r ts id e ht hl he hr =>
    simp only [List.length_cons, List.length_append, List.length_nil] at hn
    refine primaryOver_name ht ?_
    refine .ifNotAccept (not_startsWith_cons hl (by decide)) (.ifAccept hl ?_)
    refine .bind (hinner he (by omega) (closed_cons hr (by decide))) fun e' he' => ?_
    refine .cons (.expect hr) fun _ _ => .last .freshId fun id' _ => .pure ?_
    simp only [Expr.unnumbered, he']
  | @call t l ts id args ht hl hargs =>
    simp only [List.length_cons] at hn
    refine primaryOver_name ht (.ifAccept hl ?_)
    refine .last (separated_reads hinner (.inl rfl) hargs (by omega)) fun args' hargs' => ?_
    refine .last .freshId fun id' _ => .pure ?_
    simp only [Expr.unnumbered, hargs']

end Inner

/-- The operator is read at its own level. -/
theorem operator?_reads {level : Level} {op : BinaryOp} (hop : op.level = level)
    (ht : t.literal = op.symbol) :
    Reads (operator? level) [t] follow (· = some op) := by
  refine .of_lexed fun hts c _ hrest => ?_
  have hr : c.rest = t :: follow := hrest
  have hk : t.kind = .operator := by
    rw [(hts t List.mem_cons_self).kind_eq ht]
    cases op <;> decide
  refine ⟨some op, c.past t follow, ?_, rfl, rfl⟩
  simp only [operator?, hr, hk, ht, BinaryOp.ofSymbol?_symbol, if_true, hop]

/-- Nothing that could continue a chain comes next, so there is no operator of the level. -/
theorem operator?_closed {level : Level} (h : Closed level.rank follow) :
    Reads (operator? level) [] follow (· = none) := by
  intro c _ hrest
  have hr : c.rest = follow := hrest
  refine ⟨none, c, ?_, hr, rfl⟩
  unfold operator?
  split
  · rfl
  · rename_i t rest ht
    split
    · split
      · rename_i op hop
        refine if_neg fun hlevel => ?_
        have hlt := h.2.2 op ⟨t, rest, hr ▸ ht, by simp [eq_symbol_of_ofSymbol? hop]⟩
        rw [hlevel] at hlt
        exact Nat.lt_irrefl _ hlt
      · rfl
    · rfl

/-- After its last operand a chain ends, whatever the bound. -/
theorem chainTail_closed {level : Level} {operand : Rule Expr} {left : Expr} (m : Nat)
    (h : Closed level.rank follow) :
    Reads (chainTail level operand m left) [] follow (· = left) := by
  cases m with
  | zero => exact .pure rfl
  | succ m =>
    refine .stay (operator?_closed h) ?_
    rintro _ rfl
    exact .pure rfl

/-- Reading a chain gets past `ts`, which spell `left`, to the loop over operators,
with as much of its bound left as there are tokens. -/
def Reaches (level : Level) (operand : Rule Expr) (ts : List Token) (left : Expr) : Prop :=
  ∀ (follow : List Token) (c : Cursor), Closed (level.rank + 1) follow → c.Lexed →
    c.rest = ts ++ follow →
      ∃ left' c' m, chain level operand c = chainTail level operand m left' c' ∧ c'.Lexed ∧
        c'.rest = follow ∧ follow.length ≤ m ∧ left'.unnumbered = left.unnumbered

section Chain

variable {level : Level} {operand : Rule Expr} {n : Nat}
  (hoperand : Complete operand (Operand level) n (level.rank + 1))
include hoperand

/-- The first operand of a chain is reached. -/
theorem reaches_operand {e : Expr} (h : Operand level ts e) (hn : ts.length ≤ n) :
    Reaches level operand ts e := by
  intro follow c hfollow hc hrest
  obtain ⟨e', c', he', hrest', hsame⟩ := hoperand h hn hfollow c hc hrest
  refine ⟨e', c', c'.rest.length, ?_, lexed_of_append hc hrest hrest', hrest', ?_, hsame⟩
  · exact bind_eq he' _
  · rw [hrest']

/-- From a chain that is reached the next one is reached, over an operator and an operand. -/
theorem reaches_binary {o : Token} {id : NodeId} {op : BinaryOp} {l r : Expr}
    (hl : Reaches level operand ts l) (hjoins : Joins level o.literal op)
    (hr : Operand level us r) (hn : us.length ≤ n) :
    Reaches level operand (ts ++ o :: us) (.binary id op l r) := by
  intro follow c hfollow hc hrest
  obtain ⟨hop, ho⟩ := joins_iff.1 hjoins
  rw [List.append_assoc, List.cons_append] at hrest
  have hclosed : Closed (level.rank + 1) (o :: (us ++ follow)) :=
    closed_operator ho (by rw [hop]; exact Nat.lt_succ_self _)
  obtain ⟨l', c₁, m, hchain, hc₁, hrest₁, hm, hl'⟩ := hl _ c hclosed hc hrest
  rw [List.length_cons, List.length_append] at hm
  obtain ⟨m, rfl⟩ : ∃ k, m = k + 1 := ⟨m - 1, by omega⟩
  obtain ⟨_, c₂, hread, hrest₂, rfl⟩ := operator?_reads hop ho c₁ hc₁ hrest₁
  have hc₂ : c₂.Lexed := lexed_of_append hc₁ (show c₁.rest = [o] ++ _ from hrest₁) hrest₂
  obtain ⟨r', c₃, hright, hrest₃, hr'⟩ := hoperand hr hn hfollow c₂ hc₂ hrest₂
  refine ⟨.binary c₃.nextId op l' r', { c₃ with nextId := c₃.nextId + 1 }, m, ?_,
    lexed_of_append hc₂ hrest₂ hrest₃, hrest₃, by omega, ?_⟩
  · rw [hchain, chainTail, bind_eq hread]
    exact bind_eq hright _
  · simp only [Expr.unnumbered, hl', hr']

/-- Chains are read, if their operands are. -/
theorem chain_complete : Complete (chain level operand) (Chain level) n level.rank := by
  intro ts e follow h hn hfollow
  have hreaches : ts.length ≤ n → Reaches level operand ts e := by
    refine Chain.induct (motive := fun ts e => ts.length ≤ n → Reaches level operand ts e)
      (fun h hn => reaches_operand hoperand h hn) ?_ h
    intro ts us o id op l r _ ih hjoins hr hn
    rw [List.length_append, List.length_cons] at hn
    exact reaches_binary hoperand (ih (by omega)) hjoins hr (by omega)
  intro c hc hrest
  have hnext : Closed (level.rank + 1) follow :=
    ⟨hfollow.1, hfollow.2.1, fun op hop => Nat.lt_succ_of_lt (hfollow.2.2 op hop)⟩
  obtain ⟨e', c', m, hchain, hc', hrest', -, hsame⟩ := hreaches hn follow c hnext hc hrest
  obtain ⟨_, c'', htail, hrest'', rfl⟩ := chainTail_closed m hfollow c' hc' hrest'
  exact ⟨_, c'', hchain.trans htail, hrest'', hsame⟩

end Chain

/-- All levels of operators, from a primary expression up. -/
theorem logicalOver_complete {primary : Rule Expr} {n : Nat}
    (hprimary : Complete primary Primary n 4) :
    Complete (logicalOver primary) Expression n 0 := by
  have product : Complete (multiplicativeOver primary) (Chain .multiplicative) n 3 := by
    refine chain_complete fun ts e follow h => ?_
    cases h with
    | primary h => exact hprimary h
  have sum : Complete (additiveOver primary) (Chain .additive) n 2 := by
    refine chain_complete fun ts e follow h => ?_
    cases h with
    | product h => exact product h
  have comparison : Complete (comparisonOver primary) (Chain .comparison) n 1 := by
    refine chain_complete fun ts e follow h => ?_
    cases h with
    | sum h => exact sum h
  refine chain_complete fun ts e follow h => ?_
  cases h with
  | comparison h => exact comparison h

/-- Expressions are read to a depth of brackets that is no less than the number of tokens. -/
theorem expressionWithin_complete (n : Nat) : Complete (expressionWithin n) Expression n 0 := by
  induction n with
  | zero =>
    intro ts e follow h hn _
    exact absurd (List.eq_nil_of_length_eq_zero (Nat.le_zero.1 hn)) h.ne_nil
  | succ n ih => exact logicalOver_complete (primaryOver_complete ih)

/-- An expression is read in full if nothing comes after it that could continue it. -/
theorem expression_reads {e : Expr} (h : Expression ts e) (hfollow : Closed 0 follow) :
    Reads expression ts follow (·.unnumbered = e.unnumbered) :=
  .remaining (expressionWithin_complete _ h (by simp) hfollow)

end Rule
end Scriptlet
