import Mathlib.Tactic.Common
import Scriptlet.Parsing.Expression
import Scriptlet.Proofs.Grammar
import Scriptlet.Proofs.Nodes
import Scriptlet.Proofs.Outcome

/-!
# What a rule reads is in the grammar

`Spans c c' ts ids` describes the way from cursor `c` to cursor `c'`: the tokens
`ts` were read, and the nodes `ids` were numbered, one after the other.  Ways are
put together by `Spans.trans`.

A rule is `Sound` for a relation of the grammar if each of its results is spelled
by the tokens that it read and holds the nodes that it numbered.  The rules are
taken in the order in which they are built from each other, so a rule over an
`inner` rule is sound as soon as `inner` is.  This module ends with expressions.
-/

namespace Scriptlet

/-- What the tokens that are left were read from a text. -/
def Cursor.Lexed (c : Cursor) : Prop := ∀ t ∈ c.rest, t.Lexed

/-- From `c` to `c'` the tokens `ts` were read and the nodes `ids` were numbered. -/
structure Spans (c c' : Cursor) (ts : List Token) (ids : List NodeId) : Prop where
  reads : c.rest = ts ++ c'.rest
  numbers : ids = List.range' c.nextId ids.length
  next : c'.nextId = c.nextId + ids.length

namespace Spans

/-- Nothing is read. -/
theorem refl (c : Cursor) : Spans c c [] [] := ⟨rfl, rfl, rfl⟩

/-- One way after the other. -/
theorem trans {c c' c'' : Cursor} {ts us : List Token} {ids jds : List NodeId}
    (h : Spans c c' ts ids) (h' : Spans c' c'' us jds) :
    Spans c c'' (ts ++ us) (ids ++ jds) where
  reads := by rw [h.reads, h'.reads, List.append_assoc]
  numbers := by
    rw [List.length_append, ← List.range'_append_1, ← h.next, ← h.numbers, ← h'.numbers]
  next := by rw [h'.next, h.next, List.length_append, Nat.add_assoc]

/-- What is left of tokens from a text is from a text. -/
theorem lexed {c c' : Cursor} {ts : List Token} {ids : List NodeId} (h : Spans c c' ts ids)
    (hc : c.Lexed) : c'.Lexed := by
  intro t ht
  refine hc t ?_
  rw [h.reads]
  exact List.mem_append_right _ ht

/-- The tokens that were read and those that are left are all. -/
theorem length {c c' : Cursor} {ts : List Token} {ids : List NodeId} (h : Spans c c' ts ids) :
    c.rest.length = ts.length + c'.rest.length := by
  rw [h.reads, List.length_append]

/-- One token is read. -/
theorem past {c : Cursor} {t : Token} {rest : List Token} (h : c.rest = t :: rest) :
    Spans c (c.past t rest) [t] [] := ⟨h, rfl, rfl⟩

/-- One node is numbered. -/
theorem fresh (c : Cursor) : Spans c { c with nextId := c.nextId + 1 } [] [c.nextId] :=
  ⟨rfl, rfl, rfl⟩

end Spans

namespace Rule

/-! ### Results of the basic rules -/

variable {α : Type} {c c' : Cursor}

/-- A rule that first asks for a token: it goes on after the token, or without it. -/
theorem ifAccept_ok {literal : String} {yes no : Rule α} {a : α}
    (h : (do if ← accept literal then yes else no : Rule α) c = .ok a c') :
    (∃ t c₁, t.literal = literal ∧ Spans c c₁ [t] [] ∧ yes c₁ = .ok a c') ∨
      (c.sees literal = false ∧ no c = .ok a c') := by
  obtain ⟨b, c₁, hb, h⟩ := bind_ok.1 h
  unfold accept at hb
  split at hb
  · cases hb
    exact .inr ⟨by simp [Cursor.sees, *], h⟩
  · split at hb
    · cases hb
      exact .inl ⟨_, _, ‹_›, Spans.past ‹_›, h⟩
    · cases hb
      exact .inr ⟨by simp [Cursor.sees, *], h⟩

/-- A token that must be there was read. -/
theorem expect_ok {literal what : String} {u : Unit} (h : expect literal what c = .ok u c') :
    ∃ t, t.literal = literal ∧ Spans c c' [t] [] := by
  rcases ifAccept_ok h with ⟨t, c₁, ht, hs, h⟩ | ⟨-, h⟩
  · cases h
    exact ⟨t, ht, hs⟩
  · cases h

/-- A rule that asks for what comes next without reading it. -/
theorem ifPeek_ok {literal : String} {yes no : Rule α} {a : α}
    (h : (do if ← peek literal then yes else no : Rule α) c = .ok a c') :
    (c.sees literal = true ∧ yes c = .ok a c') ∨ (c.sees literal = false ∧ no c = .ok a c') := by
  obtain ⟨b, c₁, hb, h⟩ := bind_ok.1 h
  cases hb
  cases hs : c.sees literal with
  | true => exact .inl ⟨rfl, by simpa [hs] using h⟩
  | false => exact .inr ⟨rfl, by simpa [hs] using h⟩

/-- A name was read. -/
theorem name_ok {what name : String} (h : Rule.name what c = .ok name c') :
    ∃ t, t.kind = .identifier ∧ t.literal = name ∧ Spans c c' [t] [] := by
  unfold Rule.name at h
  split at h
  · cases h
  · split at h
    · cases h
      exact ⟨_, ‹_›, rfl, Spans.past ‹_›⟩
    · cases h

/-- A number was handed out. -/
theorem freshId_ok {id : NodeId} (h : freshId c = .ok id c') : Spans c c' [] [id] := by
  cases h
  exact Spans.fresh c

/-- The operator that a symbol stands for has this symbol. -/
theorem eq_symbol_of_ofSymbol? {s : String} {op : BinaryOp} (h : BinaryOp.ofSymbol? s = some op) :
    s = op.symbol := by
  have h' := List.find?_some h
  exact (of_decide_eq_true h').symm

/-- No operator was read, or one of the level. -/
theorem operator?_ok {level : Level} {o : Option BinaryOp} (h : operator? level c = .ok o c') :
    (o = none ∧ c' = c) ∨
      ∃ op t, o = some op ∧ Grammar.Joins level t.literal op ∧ Spans c c' [t] [] := by
  unfold operator? at h
  split at h
  · cases h
    exact .inl ⟨rfl, rfl⟩
  · split at h
    · split at h
      · split at h
        · cases h
          have hjoins := Grammar.joins_iff.2 ⟨‹_›, eq_symbol_of_ofSymbol? ‹_›⟩
          exact .inr ⟨_, _, rfl, hjoins, Spans.past ‹_›⟩
        · cases h
          exact .inl ⟨rfl, rfl⟩
      · cases h
        exact .inl ⟨rfl, rfl⟩
    · cases h
      exact .inl ⟨rfl, rfl⟩

/-! ### Expressions -/

/-- The results of a rule are spelled by the tokens that it read, and hold the nodes
that it numbered. -/
def Sound (r : Rule α) (spells : List Token → α → Prop) (nodes : α → List NodeId) : Prop :=
  ∀ c x c', c.Lexed → r c = .ok x c' → ∃ ts, Spans c c' ts (nodes x) ∧ spells ts x

open Grammar

/-- A literal is one node, and its token was read before. -/
theorem literal_ok {v : Literal} {e : Expr} (h : literal v c = .ok e c') :
    ∃ id, e = .literal id v ∧ Spans c c' [] [id] := by
  obtain ⟨id, c₁, hid, h⟩ := bind_ok.1 h
  obtain ⟨rfl, rfl⟩ := pure_ok.1 h
  exact ⟨id, rfl, freshId_ok hid⟩

section Inner

variable {inner : Rule Expr} (hinner : Sound inner Expression Expr.nodes)
include hinner

/-- Elements with commas between them, up to the bracket. -/
theorem commaSeparated_sound (close what : String) (n : Nat) :
    Sound (commaSeparated inner close what n) (Several close) Expr.nodesOfList := by
  induction n with
  | zero =>
    intro c es c' _ h
    cases h
  | succ n ih =>
    intro c es c' hc h
    obtain ⟨e, c₁, he, h⟩ := bind_ok.1 h
    obtain ⟨ts, hts, hte⟩ := hinner c e c₁ hc he
    rcases ifAccept_ok h with ⟨t, c₂, ht, hs, h⟩ | ⟨-, h⟩
    · obtain ⟨rfl, rfl⟩ := pure_ok.1 h
      refine ⟨ts ++ [t], ?_, .last hte ht⟩
      exact hts.trans hs
    · rcases ifAccept_ok h with ⟨t, c₂, ht, hs, h⟩ | ⟨-, h⟩
      · rcases ifPeek_ok h with ⟨-, h⟩ | ⟨-, h⟩
        · cases h
        · obtain ⟨rest, c₃, hrest, h⟩ := bind_ok.1 h
          obtain ⟨rfl, rfl⟩ := pure_ok.1 h
          obtain ⟨us, hus, hur⟩ := ih c₂ rest c₃ (hs.lexed (hts.lexed hc)) hrest
          exact ⟨ts ++ t :: us, hts.trans (hs.trans hus), .more hte ht hur⟩
      · cases h

/-- A list of elements, which may be empty. -/
theorem separated_sound (close what : String) :
    Sound (separated inner close what) (Items close) Expr.nodesOfList := by
  intro c es c' hc h
  rcases ifAccept_ok h with ⟨t, c₁, ht, hs, h⟩ | ⟨-, h⟩
  · obtain ⟨rfl, rfl⟩ := pure_ok.1 h
    exact ⟨[t], hs, .none ht⟩
  · obtain ⟨ts, hts, hes⟩ := commaSeparated_sound hinner close what _ c es c' hc h
    exact ⟨ts, hts, .some hes⟩

/-- A variable, a call or an element, after the name. -/
theorem nameTail_sound {t : Token} (ht : IsVariable t) :
    Sound (nameTail inner t.literal) (fun ts => Primary (t :: ts)) Expr.nodes := by
  intro c e c' hc h
  rcases ifAccept_ok h with ⟨l, c₁, hl, hs, h⟩ | ⟨-, h⟩
  · obtain ⟨args, c₂, hargs, h⟩ := bind_ok.1 h
    obtain ⟨id, c₃, hid, h⟩ := bind_ok.1 h
    obtain ⟨rfl, rfl⟩ := pure_ok.1 h
    obtain ⟨ts, hts, hes⟩ := separated_sound hinner _ _ c₁ args c₂ (hs.lexed hc) hargs
    refine ⟨l :: ts, ?_, .call ht hl hes⟩
    simpa [Expr.nodes] using hs.trans (hts.trans (freshId_ok hid))
  · rcases ifAccept_ok h with ⟨l, c₁, hl, hs, h⟩ | ⟨-, h⟩
    · obtain ⟨offset, c₂, hoffset, h⟩ := bind_ok.1 h
      obtain ⟨u, c₃, hu, h⟩ := bind_ok.1 h
      obtain ⟨id, c₄, hid, h⟩ := bind_ok.1 h
      obtain ⟨rfl, rfl⟩ := pure_ok.1 h
      obtain ⟨ts, hts, hes⟩ := hinner c₁ offset c₂ (hs.lexed hc) hoffset
      obtain ⟨r, hr, hsr⟩ := expect_ok hu
      refine ⟨l :: (ts ++ [r]), ?_, .element ht hl hes hr⟩
      simpa [Expr.nodes] using hs.trans (hts.trans (hsr.trans (freshId_ok hid)))
    · obtain ⟨id, c₁, hid, h⟩ := bind_ok.1 h
      obtain ⟨rfl, rfl⟩ := pure_ok.1 h
      exact ⟨[], freshId_ok hid, .access ht⟩

/-- A primary expression that starts with none of the words is a name or denotes a literal. -/
theorem primaryByKind_sound {c : Cursor} {e : Expr} {c' : Cursor} (hc : c.Lexed)
    (hwords : ∀ w ∈ literalWords, c.sees w = false) (h : primaryByKind inner c = .ok e c') :
    ∃ ts, Spans c c' ts e.nodes ∧ Primary ts e := by
  unfold primaryByKind at h
  split at h
  · cases h
  · rename_i t rest hrest
    have hs : Spans c (c.past t rest) [t] [] := Spans.past hrest
    have ht : t.Lexed := hc t (by rw [hrest]; exact List.mem_cons_self)
    split at h
    · rename_i hkind
      have hvar : IsVariable t := by
        refine ⟨hkind, fun hmem => ?_⟩
        have := hwords t.literal hmem
        simp [Cursor.sees, hrest] at this
      obtain ⟨ts, hts, hte⟩ := nameTail_sound hinner hvar _ e c' (hs.lexed hc) h
      exact ⟨t :: ts, hs.trans hts, hte⟩
    · cases h
    · split at h
      · rename_i v hv
        obtain ⟨id, rfl, hid⟩ := literal_ok h
        exact ⟨[t], hs.trans hid, .literal (denotes_of_literalValue ht hv)⟩
      · cases h

/-- Every result of the rule for primary expressions is spelled by what was read. -/
theorem primaryOver_sound : Sound (primaryOver inner) Primary Expr.nodes := by
  intro c e c' hc h
  rcases ifAccept_ok h with ⟨t, c₁, ht, hs, h⟩ | ⟨hnil, h⟩
  · obtain ⟨id, rfl, hid⟩ := literal_ok h
    exact ⟨[t], hs.trans hid, .nil ht⟩
  rcases ifAccept_ok h with ⟨t, c₁, ht, hs, h⟩ | ⟨htrue, h⟩
  · obtain ⟨id, rfl, hid⟩ := literal_ok h
    exact ⟨[t], hs.trans hid, .isTrue ht⟩
  rcases ifAccept_ok h with ⟨t, c₁, ht, hs, h⟩ | ⟨hfalse, h⟩
  · obtain ⟨id, rfl, hid⟩ := literal_ok h
    exact ⟨[t], hs.trans hid, .isFalse ht⟩
  rcases ifAccept_ok h with ⟨l, c₁, hl, hs, h⟩ | ⟨-, h⟩
  · obtain ⟨value, c₂, hvalue, h⟩ := bind_ok.1 h
    obtain ⟨u, c₃, hu, h⟩ := bind_ok.1 h
    obtain ⟨id, c₄, hid, h⟩ := bind_ok.1 h
    obtain ⟨rfl, rfl⟩ := pure_ok.1 h
    obtain ⟨ts, hts, hes⟩ := hinner c₁ value c₂ (hs.lexed hc) hvalue
    obtain ⟨r, hr, hsr⟩ := expect_ok hu
    refine ⟨l :: (ts ++ [r]), ?_, .group hl hes hr⟩
    simpa [Expr.nodes] using hs.trans (hts.trans (hsr.trans (freshId_ok hid)))
  · refine primaryByKind_sound hinner hc ?_ h
    simp [literalWords, hnil, htrue, hfalse]

end Inner

/-- Continuing a chain extends what its first operands were spelled by. -/
theorem chainTail_sound {level : Level} {operand : Rule Expr}
    (hoperand : Sound operand (Operand level) Expr.nodes) (n : Nat) :
    ∀ {left : Expr} {ts : List Token} {c : Cursor} {e : Expr} {c' : Cursor},
      Chain level ts left → c.Lexed → chainTail level operand n left c = .ok e c' →
        ∃ us ids, Spans c c' us ids ∧ e.nodes = left.nodes ++ ids ∧ Chain level (ts ++ us) e := by
  induction n with
  | zero =>
    intro left ts c e c' hleft _ h
    cases h
    exact ⟨[], [], Spans.refl c, by simp, by simpa using hleft⟩
  | succ n ih =>
    intro left ts c e c' hleft hc h
    obtain ⟨o, c₁, ho, htail⟩ := bind_ok.1 h
    rcases operator?_ok ho with ⟨rfl, rfl⟩ | ⟨op, t, rfl, hjoins, hs⟩
    · cases htail
      exact ⟨[], [], Spans.refl _, by simp, by simpa using hleft⟩
    · obtain ⟨right, c₂, hright, h⟩ := bind_ok.1 htail
      obtain ⟨id, c₃, hid, h⟩ := bind_ok.1 h
      obtain ⟨us, hus, hur⟩ := hoperand c₁ right c₂ (hs.lexed hc) hright
      have hsid := freshId_ok hid
      obtain ⟨vs, ids, hvs, hids, hvr⟩ :=
        ih (.binary hleft hjoins hur) (hsid.lexed (hus.lexed (hs.lexed hc))) h
      refine ⟨t :: (us ++ vs), right.nodes ++ (id :: ids), ?_, ?_, ?_⟩
      · simpa using hs.trans (hus.trans (hsid.trans hvs))
      · simpa [Expr.nodes] using hids
      · simpa using hvr

/-- A chain is spelled by its operands and the operators between them. -/
theorem chain_sound {level : Level} {operand : Rule Expr}
    (hoperand : Sound operand (Operand level) Expr.nodes) :
    Sound (chain level operand) (Chain level) Expr.nodes := by
  intro c e c' hc h
  obtain ⟨left, c₁, hleft, h⟩ := bind_ok.1 h
  obtain ⟨ts, hts, htl⟩ := hoperand c left c₁ hc hleft
  obtain ⟨us, ids, hus, hids, hue⟩ := chainTail_sound hoperand _ (.operand htl) (hts.lexed hc) h
  exact ⟨ts ++ us, hids ▸ hts.trans hus, hue⟩

/-- A rule is sound for any wider relation. -/
theorem Sound.mono {r : Rule α} {P Q : List Token → α → Prop} {nodes : α → List NodeId}
    (h : Sound r P nodes) (hPQ : ∀ {ts x}, P ts x → Q ts x) : Sound r Q nodes := by
  intro c x c' hc hr
  obtain ⟨ts, hts, hx⟩ := h c x c' hc hr
  exact ⟨ts, hts, hPQ hx⟩

/-- All levels of operators, from a primary expression up. -/
theorem logicalOver_sound {primary : Rule Expr} (h : Sound primary Primary Expr.nodes) :
    Sound (logicalOver primary) Expression Expr.nodes := by
  have product := chain_sound (h.mono Operand.primary)
  have sum := chain_sound (product.mono Operand.product)
  have comparison := chain_sound (sum.mono Operand.sum)
  exact chain_sound (comparison.mono Operand.comparison)

/-- Expressions to some depth of brackets. -/
theorem expressionWithin_sound (n : Nat) :
    Sound (expressionWithin n) Expression Expr.nodes := by
  induction n with
  | zero =>
    intro c e c' _ h
    cases h
  | succ n ih => exact logicalOver_sound (primaryOver_sound ih)

/-- Every expression that is read is spelled by the tokens that were read. -/
theorem expression_sound : Sound expression Expression Expr.nodes := fun c =>
  expressionWithin_sound c.rest.length c

end Rule
end Scriptlet
