import Scriptlet.Proofs.DescentEnds

/-!
# Calls of rules

Rules may be called one after the other on the same tokens, and also go on after a failure.
A call moves the cursor forward over some tokens, or leaves it where it is (`Cursor.At.call`), so
after any calls it stands before one of the tokens, or at their end (`Cursor.At.afterCalls`).
-/

namespace Scriptlet

/-- The cursor stands before token `i`, or at the end: what is left are the tokens from there on,
and the position is where the token before ends. -/
structure Cursor.At (tokens : List Token) (i : Nat) (c : Cursor) : Prop where
  inBounds : i ≤ tokens.length
  rest : c.rest = tokens.drop i
  start : i = 0 → c.stop = 0
  previous : ∀ k, i = k + 1 → ∃ t, tokens[k]? = some t ∧ c.stop = t.stop

/-- The cursor after calls of some rules, one after the other, however they ended. -/
def Cursor.afterCalls (c : Cursor) (calls : List Entry) : Cursor :=
  calls.foldl (fun c entry => after entry.rule c) c

/-- The tokens that a rule reads at least if it has a result. -/
def Entry.least : Entry → Nat
  | .source | .block => 0
  | _ => 1

theorem Entry.least_pos {entry : Entry} (hsource : entry ≠ .source) (hblock : entry ≠ .block) :
    0 < entry.least := by
  cases entry with
  | source => exact absurd rfl hsource
  | block => exact absurd rfl hblock
  | _ => exact Nat.one_pos

open Rule in
theorem Entry.advances : (entry : Entry) → Advances entry.least entry.rule
  | .source => source_advances
  | .global => global_advances
  | .list => listGlobal_advances
  | .mutable => mutableGlobal_advances
  | .immutable => immutableGlobal_advances
  | .function => function_advances
  | .block => block_advances
  | .statement => Advances.remaining.later statementWithin_advances
  | .declaration => declaration_advances
  | .conditional => ifOver_advances block_advances
  | .switch => switchOver_advances block_advances
  | .arm => caseOver_advances block_advances
  | .loop => whileOver_advances block_advances
  | .returning => returnStatement_advances
  | .expression => expression_advances
  | .logical => logicalOver_advances primary_advances
  | .comparison => chain_advances (chain_advances (chain_advances primary_advances _) _) _
  | .additive => chain_advances (chain_advances primary_advances _) _
  | .multiplicative => chain_advances primary_advances _
  | .primary => primary_advances

namespace Cursor.At

variable {tokens : List Token} {i : Nat} {c d : Cursor}

theorem ofTokens (tokens : List Token) (firstId : NodeId) :
    (Cursor.ofTokens tokens firstId).At tokens 0 :=
  ⟨Nat.zero_le _, rfl, fun _ => rfl, nofun⟩

/-- The cursor past the next token. -/
theorem next {t : Token} {rest : List Token} (h : c.At tokens i) (hc : c.rest = t :: rest)
    (hd : d.rest = rest) (hstop : d.stop = t.stop) : d.At tokens (i + 1) := by
  have hdrop : tokens.drop i = t :: rest := h.rest.symm.trans hc
  have ht : tokens[i]? = some t := by
    rw [← List.head?_drop, hdrop, List.head?_cons]
  refine ⟨(List.getElem?_eq_some_iff.1 ht).1, ?_, nofun, ?_⟩
  · rw [hd, ← List.tail_drop, hdrop, List.tail_cons]
  · rintro _ ⟨⟩
    exact ⟨t, ht, hstop⟩

/-- The cursor past some tokens. -/
theorem past (h : c.At tokens i) {ts : List Token} (hc : c.rest = ts ++ d.rest)
    (hstop : d.stop = stopAfter c.stop ts) : d.At tokens (i + ts.length) := by
  induction ts generalizing i c with
  | nil =>
    refine ⟨h.inBounds, hc.symm.trans h.rest, fun hi => hstop.trans (h.start hi), fun k hk => ?_⟩
    obtain ⟨t, ht, hprevious⟩ := h.previous k hk
    exact ⟨t, ht, hstop.trans hprevious⟩
  | cons t ts ih =>
    have hnext : (⟨ts ++ d.rest, t.stop, c.nextId⟩ : Cursor).At tokens (i + 1) := h.next hc rfl rfl
    rw [List.length_cons, Nat.add_comm ts.length, ← Nat.add_assoc]
    refine ih hnext rfl (hstop.trans ?_)
    rw [← List.singleton_append, stopAfter_append]
    rfl

/-- **A call moves forward**, and over enough tokens if it has a result. -/
theorem call (h : c.At tokens i) (entry : Entry) :
    ∃ j, i ≤ j ∧ (after entry.rule c).At tokens j ∧
      ∀ a d, entry.rule c = .ok a d → i + entry.least ≤ j := by
  obtain ⟨ts, hrest, hstop, hleast⟩ := entry.advances c
  refine ⟨i + ts.length, Nat.le_add_right _ _, h.past hrest hstop, fun a d hok => ?_⟩
  exact Nat.add_le_add_left (hleast a d hok) i

/-- **The cursor stays in bounds**, whatever is called. -/
theorem afterCalls (h : c.At tokens i) (calls : List Entry) :
    ∃ j, i ≤ j ∧ (c.afterCalls calls).At tokens j := by
  induction calls generalizing i c with
  | nil => exact ⟨i, Nat.le_refl i, h⟩
  | cons entry calls ih =>
    obtain ⟨j, hij, hcall, -⟩ := h.call entry
    obtain ⟨k, hjk, hcalls⟩ := ih hcall
    exact ⟨k, Nat.le_trans hij hjk, hcalls⟩

theorem mem (h : c.At tokens i) {t : Token} (ht : t ∈ c.rest) : t ∈ tokens :=
  List.mem_of_mem_drop (h.rest ▸ ht)

end Cursor.At

/-- **Every call ends, moves forward and stays in bounds.**  The tokens may be any, and so may be
the calls before, which may have failed.  The descent without bounds ends, with the answer of
the rule.  The cursor goes from token `i` to token `j` of the list, and over at least one token
if the rule has a result and is not the one for programs or for blocks.  An error names
the position where the last token that was read ends, or a token of the list. -/
theorem call_ends_in_bounds (tokens : List Token) (firstId : NodeId) (calls : List Entry)
    (entry : Entry) :
    let c := (Cursor.ofTokens tokens firstId).afterCalls calls
    entry.descent c = some (outcome entry.rule c, after entry.rule c) ∧
      ∃ i j, c.At tokens i ∧ (after entry.rule c).At tokens j ∧ i ≤ j ∧
        (∀ a d, entry.rule c = .ok a d → entry ≠ .source → entry ≠ .block → i < j) ∧
          ∀ e d, entry.rule c = .error e d →
            e.index = d.stop ∨ ∃ t ∈ tokens, e.index = t.index := by
  intro c
  obtain ⟨i, -, hc⟩ := (Cursor.At.ofTokens tokens firstId).afterCalls calls
  obtain ⟨j, hij, hcall, hleast⟩ := hc.call entry
  refine ⟨entry.descent_eq c, i, j, hc, hcall, hij, fun a d hok hsource hblock => ?_,
    fun e d herror => ?_⟩
  · have hpos := Entry.least_pos hsource hblock
    have hread := hleast a d hok
    omega
  · cases entry.locates.origin herror with
    | missing _ hindex => exact .inl hindex
    | token ht _ _ hindex => exact .inr ⟨_, hc.mem ht, hindex⟩

end Scriptlet
