import Scriptlet.Proofs.Progress

/-!
# One token ahead

A rule decides by the tokens that it has read and the one that comes next.  Take two lists of
tokens that agree up to some token `t`, and a rule that does not read `t` in the first list:
then the rule does the same in the second list, whatever comes after `t` there.

Rules that repeat count the tokens that are left, so they do not run with the same bound in the
two lists.  `Mimics key n m r r'` therefore compares two rules, for at most `n` and `m` tokens;
their results need not be the same, since nodes may be numbered differently, but have the same
`key`.
-/

namespace Scriptlet

/-- Two cursors before the same tokens up to and including `t`. -/
def Twins (t : Token) (z z' : List Token) (c c' : Cursor) : Prop :=
  ∃ u, c.rest = u ++ t :: z ∧ c'.rest = u ++ t :: z'

namespace Twins

variable {t : Token} {z z' : List Token} {c c' : Cursor}

/-- The next token is the same. -/
theorem head (h : Twins t z z' c c') :
    ∃ s rest rest', c.rest = s :: rest ∧ c'.rest = s :: rest' := by
  obtain ⟨u, hc, hc'⟩ := h
  cases u with
  | nil => exact ⟨t, z, z', hc, hc'⟩
  | cons s u => exact ⟨s, _, _, hc, hc'⟩

/-- The next token is the same in both lists. -/
theorem sees (h : Twins t z z' c c') (literal : String) : c'.sees literal = c.sees literal := by
  obtain ⟨s, rest, rest', hc, hc'⟩ := h.head
  rw [Cursor.sees, Cursor.sees, hc, hc']
  rfl

/-- A token before `t` is read in both. -/
theorem past {s : Token} {rest rest' : List Token} (h : Twins t z z' c c')
    (hc : c.rest = s :: rest) (hc' : c'.rest = s :: rest') (hleft : t :: z <:+ rest) :
    Twins t z z' (c.past s rest) (c'.past s rest') := by
  obtain ⟨u, hu, hu'⟩ := h
  rw [hc] at hu
  rw [hc'] at hu'
  cases u with
  | nil =>
    obtain ⟨-, rfl⟩ := List.cons.inj hu
    have hlength := hleft.length_le
    rw [List.length_cons] at hlength
    omega
  | cons s' u => exact ⟨u, (List.cons.inj hu).2, (List.cons.inj hu').2⟩

/-- As many tokens are read in both. -/
theorem length {d d' : Cursor} {k : Nat} (h : Twins t z z' c c') (hd : Twins t z z' d d')
    (hk : d.rest.length + k ≤ c.rest.length) : d'.rest.length + k ≤ c'.rest.length := by
  obtain ⟨u, hu, hu'⟩ := h
  obtain ⟨v, hv, hv'⟩ := hd
  simp only [hu, hu', hv, hv', List.length_append, List.length_cons] at hk ⊢
  omega

end Twins

namespace Rule

variable {α β κ κ' : Type} {key : α → κ} {key' : β → κ'} {n m k : Nat}

/-- The outcomes in the two lists: results of the same key before the same tokens, or errors. -/
def Matches (key : α → κ) (t : Token) (z z' : List Token) :
    EStateM.Result ParseError Cursor α → EStateM.Result ParseError Cursor α → Prop
  | .ok a d, .ok a' d' => key a = key a' ∧ Twins t z z' d d'
  | .error _ _, .error _ _ => True
  | _, _ => False

/-- The second rule does in the second list what the first one does in the first. -/
structure Mimics (key : α → κ) (n m : Nat) (r r' : Rule α) : Prop where
  advances : Advances 0 r
  twin : ∀ {t z z' c c'}, Twins t z z' c c' → c.rest.length ≤ n → c'.rest.length ≤ m →
    t :: z <:+ (after r c).rest → Matches key t z z' (r c) (r' c')

/-- As `Mimics`, for rules whose results decide nothing. -/
abbrev Follows (n m : Nat) (r r' : Rule α) : Prop := Mimics (fun _ => ()) n m r r'

namespace Mimics

variable {r r' : Rule α}

/-- What holds for many tokens holds for fewer. -/
theorem mono {n' m' : Nat} (h : Mimics key n m r r') (hn : n' ≤ n) (hm : m' ≤ m) :
    Mimics key n' m' r r' :=
  ⟨h.advances, fun htwins hc hc' => h.twin htwins (Nat.le_trans hc hn) (Nat.le_trans hc' hm)⟩

/-- Before `t` there is at least one token. -/
theorem of_zero (h : Advances 0 r) (hnm : n = 0 ∨ m = 0) : Mimics key n m r r' := by
  refine ⟨h, fun htwins hc hc' _ => ?_⟩
  obtain ⟨s, rest, rest', hs, hs'⟩ := htwins.head
  rw [hs, List.length_cons] at hc
  rw [hs', List.length_cons] at hc'
  omega

/-- Results with the same key, and nothing is read. -/
theorem pure {a a' : α} (h : key a = key a') : Mimics key n m (pure a : Rule α) (pure a') :=
  ⟨.pure a, fun htwins _ _ _ => ⟨h, htwins⟩⟩

/-- Both fail; the faults need not agree. -/
theorem fail (fault fault' : ParseFault) :
    Mimics key n m (fail fault : Rule α) (Rule.fail fault') := ⟨.fail fault, fun _ _ _ _ => trivial⟩

/-- Nothing is compared after a failure. -/
theorem failThen (fault fault' : ParseFault) (f f' : β → Rule α) :
    Mimics key n m (Rule.fail fault >>= f) (Rule.fail fault' >>= f') :=
  ⟨.failThen fault f, fun _ _ _ _ => trivial⟩

/-- Both look at the same token. -/
theorem peek (literal : String) : Mimics id n m (peek literal) (Rule.peek literal) :=
  ⟨.peek literal, fun htwins _ _ _ => ⟨(htwins.sees literal).symm, htwins⟩⟩

/-- Neither is at the end: `t` is still to come. -/
theorem atEnd : Mimics id n m atEnd Rule.atEnd := by
  refine ⟨.atEnd, fun htwins _ _ _ => ⟨?_, htwins⟩⟩
  obtain ⟨s, rest, rest', hs, hs'⟩ := htwins.head
  simp [Cursor.isDone, hs, hs']

/-- Numbers of nodes need not agree. -/
theorem freshId : Follows n m freshId Rule.freshId :=
  ⟨.freshId, fun ⟨u, hu, hu'⟩ _ _ _ => ⟨rfl, u, hu, hu'⟩⟩

/-- After the first rules have read `k` tokens, there are as many fewer for the second. -/
theorem bind {x x' : Rule α} {f f' : α → Rule β} (hx : Mimics key n m x x') (hk : Advances k x)
    (hf : ∀ a a', key a = key a' → Mimics key' (n - k) (m - k) (f a) (f' a')) :
    Mimics key' n m (x >>= f) (x' >>= f') := by
  refine ⟨hx.advances.first fun a => (hf a a rfl).advances,
    fun {t z z' c c'} htwins hn hm hleft => ?_⟩
  cases hxc : x c with
  | ok a d =>
    rw [after_bind_ok hxc] at hleft
    have hleft' := hleft.trans ((hf a a rfl).advances.suffix d)
    have hmatch := hx.twin htwins hn hm (by rwa [after_eq hxc])
    rw [hxc] at hmatch
    cases hxc' : x' c' with
    | ok a' d' =>
      rw [hxc'] at hmatch
      obtain ⟨hkey, htwins'⟩ := hmatch
      obtain ⟨ts, hrest, -, hlong⟩ := hk c
      have hlength : d.rest.length + k ≤ c.rest.length := by
        have := hlong a d hxc
        rw [hrest, after_eq hxc, List.length_append]
        omega
      have hlength' := htwins.length htwins' hlength
      rw [bind_eq hxc, bind_eq hxc']
      exact (hf a a' hkey).twin htwins' (by omega) (by omega) hleft
    | error e d' =>
      rw [hxc'] at hmatch
      exact hmatch.elim
  | error e d =>
    rw [after_bind_error hxc] at hleft
    have hmatch := hx.twin htwins hn hm (by rwa [after_eq_of_error hxc])
    rw [hxc] at hmatch
    cases hxc' : x' c' with
    | ok a' d' =>
      rw [hxc'] at hmatch
      exact hmatch.elim
    | error e' d' =>
      rw [bind_eq_error hxc, bind_eq_error hxc']
      trivial

/-- Two steps of which the first decides nothing. -/
theorem seq {x x' : Rule α} {f f' : α → Rule β} (hx : Follows n m x x')
    (hf : ∀ a a', Mimics key' n m (f a) (f' a')) : Mimics key' n m (x >>= f) (x' >>= f') :=
  hx.bind hx.advances fun a a' _ => hf a a'

/-- Results that are changed in the same way. -/
theorem map (f : α → β) (h : Follows n m r r') : Follows n m (f <$> r) (f <$> r') := by
  rw [map_eq_bind, map_eq_bind]
  exact h.seq fun _ _ => pure rfl

/-- Both take the same branch. -/
theorem ite {b b' : Bool} {yes yes' no no' : Rule α} (hb : b = b') (hyes : Mimics key n m yes yes')
    (hno : Mimics key n m no no') :
    Mimics key n m (if b then yes else no) (if b' then yes' else no') := by
  subst hb
  cases b with
  | false => exact hno
  | true => exact hyes

/-- The token is there in both lists or in none; if so, there is one token less. -/
theorem ifAccept {literal : String} {yes yes' no no' : Rule α}
    (hyes : Mimics key (n - 1) (m - 1) yes yes') (hno : Mimics key n m no no') :
    Mimics key n m (do if ← accept literal then yes else no)
      (do if ← accept literal then yes' else no') := by
  refine ⟨.ifAccept hyes.advances hno.advances, fun {t z z' c c'} htwins hn hm hleft => ?_⟩
  have hsees := htwins.sees literal
  rcases ifAccept_cases literal yes no c with ⟨s, rest, hs, hliteral, h⟩ | ⟨hnot, h⟩
  · rcases ifAccept_cases literal yes' no' c' with ⟨s', rest', hs', -, h'⟩ | ⟨hnot', h'⟩
    · obtain ⟨s₀, _, _, hs₀, hs₀'⟩ := htwins.head
      obtain ⟨rfl, -⟩ := List.cons.inj (hs.symm.trans hs₀)
      obtain ⟨rfl, -⟩ := List.cons.inj (hs'.symm.trans hs₀')
      rw [after, h, ← after] at hleft
      rw [h, h']
      rw [hs, List.length_cons] at hn
      rw [hs', List.length_cons] at hm
      have hpast := htwins.past hs hs' (hleft.trans (hyes.advances.suffix _))
      exact hyes.twin hpast (Nat.le_sub_of_add_le hn) (Nat.le_sub_of_add_le hm) hleft
    · rw [hsees, Cursor.sees, hs] at hnot'
      simp [hliteral] at hnot'
  · rcases ifAccept_cases literal yes' no' c' with ⟨s', rest', hs', hliteral', h'⟩ | ⟨-, h'⟩
    · rw [← hsees, Cursor.sees, hs'] at hnot
      simp [hliteral'] at hnot
    · rw [after, h, ← after] at hleft
      rw [h, h']
      exact hno.twin htwins hn hm hleft

/-- Both look at the same token and go the same way. -/
theorem ifPeek {literal : String} {yes yes' no no' : Rule α} (hyes : Mimics key n m yes yes')
    (hno : Mimics key n m no no') :
    Mimics key n m (do if ← Rule.peek literal then yes else no)
      (do if ← Rule.peek literal then yes' else no') :=
  (peek literal).bind (.peek literal) fun _ _ hb => .ite hb hyes hno

/-- Neither is at the end. -/
theorem ifAtEnd {yes yes' no no' : Rule α} (hyes : Mimics key n m yes yes')
    (hno : Mimics key n m no no') :
    Mimics key n m (do if ← Rule.atEnd then yes else no) (do if ← Rule.atEnd then yes' else no') :=
  atEnd.bind .atEnd fun _ _ hb => .ite hb hyes hno

/-- A bound that is the number of tokens left. -/
theorem remaining {f f' : Nat → Rule β}
    (h : ∀ k k', k ≤ n → k' ≤ m → Mimics key' k k' (f k) (f' k'))
    (hadvances : ∀ k, Advances 0 (f k)) :
    Mimics key' n m (remaining >>= f) (Rule.remaining >>= f') := by
  refine ⟨Advances.remaining.first hadvances, fun {t z z' c c'} htwins hn hm hleft => ?_⟩
  exact (h _ _ hn hm).twin htwins (Nat.le_refl _) (Nat.le_refl _) hleft

/-- The same token is read in both. -/
theorem expect (literal what : String) :
    Follows n m (expect literal what) (Rule.expect literal what) :=
  ifAccept (pure rfl) (fail _ _)

/-- A token that must come; there are fewer after it. -/
theorem expectThen {literal what : String} (h : Mimics key (n - 1) (m - 1) r r') :
    Mimics key n m (do Rule.expect literal what; r) (do Rule.expect literal what; r') :=
  (expect literal what).bind (.expect literal what) fun _ _ _ => h

/-- The same name is read in both. -/
theorem name (what : String) : Follows n m (name what) (Rule.name what) := by
  refine ⟨(Advances.name what).forward, fun {t z z' c c'} htwins _ _ hleft => ?_⟩
  obtain ⟨s, rest, rest', hs, hs'⟩ := htwins.head
  have hcases : ∀ {d rest}, d.rest = s :: rest → Rule.name what d =
      if s.kind = .identifier then .ok s.literal (d.past s rest)
      else .error ⟨.expected what, d.stop⟩ d := by
    intro d rest hd
    rw [Rule.name, hd]
    rfl
  rw [after, hcases hs] at hleft
  rw [hcases hs, hcases hs']
  by_cases hkind : s.kind = .identifier
  · rw [if_pos hkind] at hleft
    rw [if_pos hkind, if_pos hkind]
    exact ⟨rfl, htwins.past hs hs' hleft⟩
  · rw [if_neg hkind, if_neg hkind]
    trivial

/-- The same operator is read in both, or none. -/
theorem ifOperator {level : Level} {f f' : Option BinaryOp → Rule β}
    (hnone : Mimics key' n m (f none) (f' none))
    (hsome : ∀ op, Mimics key' (n - 1) (m - 1) (f (some op)) (f' (some op))) :
    Mimics key' n m (operator? level >>= f) (operator? level >>= f') := by
  refine ⟨.ifOperator hnone.advances fun op => (hsome op).advances,
    fun {t z z' c c'} htwins hn hm hleft => ?_⟩
  obtain ⟨s, rest, rest', hs, hs'⟩ := htwins.head
  have h := operator?_cons level hs
  have h' := operator?_cons level hs'
  cases hop : operatorOf level s with
  | none =>
    simp only [hop] at h h'
    rw [after_bind_ok h] at hleft
    rw [bind_eq h, bind_eq h']
    exact hnone.twin htwins hn hm hleft
  | some op =>
    simp only [hop] at h h'
    rw [after_bind_ok h] at hleft
    rw [bind_eq h, bind_eq h']
    rw [hs, List.length_cons] at hn
    rw [hs', List.length_cons] at hm
    have hpast := htwins.past hs hs' (hleft.trans ((hsome op).advances.suffix _))
    exact (hsome op).twin hpast (Nat.le_sub_of_add_le hn) (Nat.le_sub_of_add_le hm) hleft

end Mimics

/-! ### Expressions -/

/-- Literals are the same but for their numbers. -/
theorem literal_follows (v : Literal) : Follows n m (literal v) (literal v) :=
  Mimics.freshId.seq fun _ _ => .pure rfl

section Inner

variable {inner inner' : Rule Expr} (hadvances : Advances 1 inner) (h : Follows n m inner inner')
include hadvances h

/-- Elements, with two bounds that are both enough. -/
theorem commaSeparated_follows (close what : String) {k k' : Nat} (hk : k ≤ n) (hk' : k' ≤ m) :
    Follows k k' (commaSeparated inner close what k) (commaSeparated inner' close what k') := by
  have hadvances' := fun k =>
    (commaSeparated_advances hadvances close what k).forward
  induction k generalizing k' with
  | zero => exact .of_zero (hadvances' 0) (.inl rfl)
  | succ k ih =>
    cases k' with
    | zero => exact .of_zero (hadvances' _) (.inr rfl)
    | succ k' =>
      have hrest := ih (Nat.le_of_succ_le hk) (Nat.le_of_succ_le hk')
      refine (h.mono hk hk').seq fun value value' => .ifAccept (.pure rfl) ?_
      refine .ifAccept (.ifPeek (.failThen _ _ _ _) ?_) (.failThen _ _ _ _)
      exact hrest.seq fun _ _ => .pure rfl

/-- Elements, where the bounds are the numbers of tokens that are left. -/
theorem separated_follows (close what : String) :
    Follows n m (separated inner close what) (separated inner' close what) :=
  .ifAccept (.pure rfl) (.remaining
    (fun _ _ hk hk' => commaSeparated_follows hadvances h close what hk hk')
    fun k => (commaSeparated_advances hadvances close what k).forward)

/-- Arguments, an index or nothing, after the same name. -/
theorem nameTail_follows (name : String) :
    Follows n m (nameTail inner name) (nameTail inner' name) := by
  have hfewer := h.mono (Nat.sub_le n 1) (Nat.sub_le m 1)
  refine .ifAccept ?_ (.ifAccept ?_ (Mimics.freshId.seq fun _ _ => .pure rfl))
  · exact (separated_follows hadvances hfewer _ _).seq fun _ _ =>
      Mimics.freshId.seq fun _ _ => .pure rfl
  · refine hfewer.seq fun _ _ => .expectThen ?_
    exact Mimics.freshId.seq fun _ _ => .pure rfl

/-- A primary expression after its first token. -/
theorem primaryAfter_follows (t : Token) :
    Follows n m (primaryAfter inner t) (primaryAfter inner' t) := by
  unfold primaryAfter
  split
  · exact nameTail_follows hadvances h t.literal
  · split
    · exact literal_follows _
    · exact ⟨.of_fails fun c => ⟨_, rfl⟩, fun _ _ _ _ => trivial⟩

/-- A primary expression by the kind of its first token, which leaves one token less for
brackets. -/
theorem primaryByKind_follows :
    Follows (n + 1) (m + 1) (primaryByKind inner) (primaryByKind inner') := by
  refine ⟨(primaryByKind_advances hadvances).forward,
    fun {t z z' c c'} htwins hn hm hleft => ?_⟩
  obtain ⟨s, rest, rest', hs, hs'⟩ := htwins.head
  by_cases hkind : s.kind = .operator
  · rw [primaryByKind_operator inner hs hkind, primaryByKind_operator inner' hs' hkind]
    trivial
  · have hfirst := primaryByKind_other inner hs hkind
    rw [after, hfirst, ← after] at hleft
    rw [hfirst, primaryByKind_other inner' hs' hkind]
    rw [hs, List.length_cons] at hn
    rw [hs', List.length_cons] at hm
    have hafter := primaryAfter_follows hadvances h s
    have hpast := htwins.past hs hs' (hleft.trans (hafter.advances.suffix _))
    exact hafter.twin hpast (Nat.le_of_succ_le_succ hn) (Nat.le_of_succ_le_succ hm) hleft

/-- A primary expression, which leaves one token less for brackets. -/
theorem primaryOver_follows :
    Follows (n + 1) (m + 1) (primaryOver inner) (primaryOver inner') := by
  have hliteral : ∀ {n m : Nat} v, Follows n m (do return ← literal v) (do return ← literal v) :=
    fun v => (literal_follows v).seq fun _ _ => .pure rfl
  refine .ifAccept (hliteral _) (.ifAccept (hliteral _) (.ifAccept (hliteral _) (.ifAccept ?_ ?_)))
  · exact h.seq fun _ _ => .expectThen (Mimics.freshId.seq fun _ _ => .pure rfl)
  · exact primaryByKind_follows hadvances h

end Inner

/-- More operands, with two bounds that are both enough. -/
theorem chainTail_follows {operand operand' : Rule Expr} (hadvances : Advances 1 operand)
    (h : Follows n m operand operand') (level : Level) {k k' : Nat} (hk : k ≤ n) (hk' : k' ≤ m) :
    ∀ left left', Follows k k' (chainTail level operand k left)
      (chainTail level operand' k' left') := by
  have hadvances' := chainTail_advances hadvances level
  induction k generalizing k' with
  | zero => exact fun left _ => .of_zero (hadvances' 0 left) (.inl rfl)
  | succ k ih =>
    cases k' with
    | zero => exact fun left _ => .of_zero (hadvances' _ left) (.inr rfl)
    | succ k' =>
      intro left left'
      have hrest := ih (Nat.le_of_succ_le hk) (Nat.le_of_succ_le hk')
      refine .ifOperator (.pure rfl) fun op => ?_
      refine (h.mono (Nat.le_of_succ_le hk) (Nat.le_of_succ_le hk')).seq fun _ _ => ?_
      exact Mimics.freshId.seq fun _ _ => hrest _ _

/-- A chain, where the bounds are the numbers of tokens that are left. -/
theorem chain_follows {operand operand' : Rule Expr} (hadvances : Advances 1 operand)
    (h : Follows n m operand operand') (level : Level) :
    Follows n m (chain level operand) (chain level operand') :=
  h.seq fun left left' => .remaining
    (fun _ _ hk hk' => chainTail_follows hadvances h level hk hk' left left')
    fun k => chainTail_advances hadvances level k left

/-- All levels of operators, from a primary expression up. -/
theorem logicalOver_follows {primary primary' : Rule Expr} (hadvances : Advances 1 primary)
    (h : Follows n m primary primary') :
    Follows n m (logicalOver primary) (logicalOver primary') := by
  have product := chain_advances hadvances .multiplicative
  have sum := chain_advances product .additive
  have comparison := chain_advances sum .comparison
  exact chain_follows comparison (chain_follows sum (chain_follows product
    (chain_follows hadvances h _) _) _) _

/-- Expressions to two depths of brackets. -/
theorem expressionWithin_follows (n m : Nat) :
    Follows n m (expressionWithin n) (expressionWithin m) := by
  induction n generalizing m with
  | zero => exact .of_zero (expressionWithin_advances 0).forward (.inl rfl)
  | succ n ih =>
    cases m with
    | zero => exact .of_zero (expressionWithin_advances _).forward (.inr rfl)
    | succ m =>
      have hinner := expressionWithin_advances n
      exact logicalOver_follows (primaryOver_advances hinner) (primaryOver_follows hinner (ih m))

/-- An expression is the same in both. -/
theorem expression_follows : Follows n m expression expression :=
  .remaining (fun k k' _ _ => expressionWithin_follows k k') fun k =>
    (expressionWithin_advances k).forward

/-! ### Statements -/

/-- A type is the same in both. -/
theorem typeAnnotation_follows : Follows n m typeAnnotation typeAnnotation :=
  .ifAccept ((Mimics.name _).map some) (.pure rfl)

/-- A value is the same in both. -/
theorem initializer_follows : Follows n m initializer initializer :=
  .ifAccept (expression_follows.map some) (.pure rfl)

/-- A declaration is the same in both. -/
theorem declaration_follows : Follows n m declaration declaration := by
  refine .expectThen ((Mimics.name _).seq fun _ _ => typeAnnotation_follows.seq fun _ _ => ?_)
  refine initializer_follows.seq fun _ _ => .expectThen ?_
  exact Mimics.freshId.seq fun _ _ => .pure rfl

/-- A `RETURN` is the same in both. -/
theorem returnStatement_follows : Follows n m returnStatement returnStatement :=
  .expectThen (expression_follows.seq fun _ _ => .expectThen (.pure rfl))

/-- An assignment, or an expression, is the same in both. -/
theorem expressionStatement_follows : Follows n m expressionStatement expressionStatement :=
  expression_follows.seq fun _ _ => .ifAccept
    (expression_follows.seq fun _ _ => .expectThen (.pure rfl)) (.expectThen (.pure rfl))

/-- Statements, with two bounds that are both enough. -/
theorem blockWithin_follows {statement statement' : Rule Stmt} (hadvances : Advances 1 statement)
    (h : Follows n m statement statement') {k k' : Nat} (hk : k ≤ n) (hk' : k' ≤ m) :
    Follows k k' (blockWithin statement k) (blockWithin statement' k') := by
  have hadvances' := blockWithin_advances hadvances.forward
  have hpeek : ∀ {n m : Nat}, Mimics id n m peekBlockEnd peekBlockEnd := by
    refine fun {n m} => ⟨.of_still fun _ => ⟨rfl, rfl⟩, fun htwins _ _ _ => ⟨?_, htwins⟩⟩
    simp [htwins.sees]
  induction k generalizing k' with
  | zero => exact .of_zero (hadvances' 0) (.inl rfl)
  | succ k ih =>
    cases k' with
    | zero => exact .of_zero (hadvances' _) (.inr rfl)
    | succ k' =>
      have hrest := ih (Nat.le_of_succ_le hk) (Nat.le_of_succ_le hk')
      refine hpeek.bind (.of_still fun _ => ⟨rfl, rfl⟩) fun _ _ hb => .ite hb (.pure rfl) ?_
      refine .ifAtEnd (.failThen _ _ _ _) ?_
      -- a statement has at least one token, so the bounds go down with the tokens
      refine (h.mono hk hk').bind hadvances fun _ _ _ => ?_
      exact hrest.seq fun _ _ => .pure rfl

/-- A block, where the bounds are the numbers of tokens that are left. -/
theorem blockOver_follows {statement statement' : Rule Stmt} (hadvances : Advances 1 statement)
    (h : Follows n m statement statement') :
    Follows n m (blockOver statement) (blockOver statement') :=
  .remaining (fun _ _ hk hk' => blockWithin_follows hadvances h hk hk')
    (blockWithin_advances hadvances.forward)

section Block

variable {block block' : Rule (List Stmt)} (h : Follows n m block block')
include h

/-- An `IF`, whose branches have one token less. -/
theorem ifOver_follows : Follows (n + 1) (m + 1) (ifOver block) (ifOver block') := by
  have hfewer := h.mono (Nat.sub_le n 1) (Nat.sub_le m 1)
  have hfewest := hfewer.mono (Nat.sub_le (n - 1) 1) (Nat.sub_le (m - 1) 1)
  refine .expectThen (expression_follows.seq fun _ _ => .expectThen ?_)
  refine hfewer.seq fun _ _ => .ifAccept ?_
    ((Mimics.pure rfl).seq fun _ _ => .expectThen (.pure rfl))
  exact hfewest.seq fun _ _ => .expectThen (.pure rfl)

/-- A `WHILE`, whose body has one token less. -/
theorem whileOver_follows : Follows (n + 1) (m + 1) (whileOver block) (whileOver block') := by
  have hfewer := h.mono (Nat.sub_le n 1) (Nat.sub_le m 1)
  refine .expectThen (expression_follows.seq fun _ _ => .expectThen ?_)
  exact hfewer.seq fun _ _ => .expectThen (.pure rfl)

/-- An arm is the same in both. -/
theorem caseOver_follows : Follows n m (caseOver block) (caseOver block') := by
  have hfewer := h.mono (Nat.sub_le n 1) (Nat.sub_le m 1)
  have hfewest := hfewer.mono (Nat.sub_le (n - 1) 1) (Nat.sub_le (m - 1) 1)
  refine .ifAccept (expression_follows.seq fun _ _ => .expectThen ?_) (.expectThen ?_)
  · exact hfewest.seq fun _ _ => .pure rfl
  · exact hfewer.seq fun _ _ => .pure rfl

/-- Arms, with two bounds that are both enough. -/
theorem casesWithin_follows {k k' : Nat} (hk : k ≤ n) (hk' : k' ≤ m) :
    Follows k k' (casesWithin block k) (casesWithin block' k') := by
  have hadvances' := fun k => (casesWithin_advances h.advances k).forward
  induction k generalizing k' with
  | zero => exact .of_zero (hadvances' 0) (.inl rfl)
  | succ k ih =>
    cases k' with
    | zero => exact .of_zero (hadvances' _) (.inr rfl)
    | succ k' =>
      have hrest := ih (Nat.le_of_succ_le hk) (Nat.le_of_succ_le hk')
      have hcase := caseOver_follows (h.mono hk hk')
      refine .ifPeek ?_ (hcase.seq fun _ _ => .pure rfl)
      refine hcase.bind (caseOver_advances h.advances) fun _ _ _ => ?_
      exact hrest.seq fun _ _ => .pure rfl

/-- A `SWITCH`, whose arms have one token less. -/
theorem switchOver_follows : Follows (n + 1) (m + 1) (switchOver block) (switchOver block') := by
  refine .expectThen (expression_follows.seq fun _ _ => ?_)
  have hadvances' : ∀ k, Advances 0 (casesWithin block k) := fun k =>
    (casesWithin_advances h.advances k).forward
  refine .remaining (fun k k' hk hk' => ?_) fun k => (hadvances' k).first fun _ => ?_
  · exact (casesWithin_follows h hk hk').seq fun _ _ => .expectThen (.pure rfl)
  · exact .expectThen (.pure _)

/-- Every statement, by its first word. -/
theorem statementOver_follows :
    Follows (n + 1) (m + 1) (statementOver block) (statementOver block') :=
  .ifPeek declaration_follows (.ifPeek (ifOver_follows h) (.ifPeek (switchOver_follows h) (.ifPeek
    (whileOver_follows h) (.ifPeek returnStatement_follows expressionStatement_follows))))

end Block

/-- Statements to two depths of blocks. -/
theorem statementWithin_follows (n m : Nat) :
    Follows n m (statementWithin n) (statementWithin m) := by
  induction n generalizing m with
  | zero => exact .of_zero (statementWithin_advances 0).forward (.inl rfl)
  | succ n ih =>
    cases m with
    | zero => exact .of_zero (statementWithin_advances _).forward (.inr rfl)
    | succ m => exact statementOver_follows (blockOver_follows (statementWithin_advances n) (ih m))

/-- A block is the same in both. -/
theorem block_follows : Follows n m block block := by
  refine .remaining (fun k k' _ _ => ?_) fun k => ?_
  · exact blockOver_follows (statementWithin_advances k) (statementWithin_follows k k')
  · exact blockOver_advances (statementWithin_advances k).forward

/-! ### Programs -/

/-- A global is the same in both. -/
theorem global_follows : Follows n m global global := by
  have hlist : ∀ {n m : Nat}, Follows n m listGlobal listGlobal := by
    intro n m
    refine (Mimics.name _).seq fun _ _ => .expectThen ((Mimics.name _).seq fun _ _ => ?_)
    refine .expectThen (.expectThen ?_)
    refine (separated_follows expression_advances expression_follows _ _).seq fun _ _ => ?_
    exact Mimics.freshId.seq fun _ _ => Mimics.freshId.seq fun _ _ => .pure rfl
  have hmutable : ∀ {n m : Nat}, Follows n m mutableGlobal mutableGlobal :=
    (Mimics.name _).seq fun _ _ => typeAnnotation_follows.seq fun _ _ =>
      initializer_follows.seq fun _ _ => Mimics.freshId.seq fun _ _ => .pure rfl
  have himmutable : ∀ {n m : Nat}, Follows n m immutableGlobal immutableGlobal :=
    (Mimics.name _).seq fun _ _ => typeAnnotation_follows.seq fun _ _ => .expectThen
      (expression_follows.seq fun _ _ => Mimics.freshId.seq fun _ _ => .pure rfl)
  have hbody : Follows n m globalBody globalBody :=
    .ifAccept hlist (.ifAccept hmutable (.ifAccept himmutable (.fail _ _)))
  exact hbody.seq fun _ _ => .expectThen (.pure rfl)

/-- Parameters, with two bounds. -/
theorem parametersWithin_follows (n m : Nat) :
    Follows n m (parametersWithin n) (parametersWithin m) := by
  induction n generalizing m with
  | zero => exact .of_zero (parametersWithin_advances 0).forward (.inl rfl)
  | succ n ih =>
    cases m with
    | zero => exact .of_zero (parametersWithin_advances _).forward (.inr rfl)
    | succ m =>
      refine (Mimics.name _).bind (.name _) fun _ _ _ => .expectThen ?_
      refine (Mimics.name _).seq fun _ _ => .ifAccept (.pure rfl) (.expectThen ?_)
      have hfewer : n - 1 - 1 ≤ n ∧ m - 1 - 1 ≤ m := by omega
      exact ((ih m).mono hfewer.1 hfewer.2).seq fun _ _ => .pure rfl

/-- A function is the same in both. -/
theorem function_follows : Follows n m function function := by
  have hend : ∀ {n m : Nat} (name name' : String) (parameters parameters' : List (String × String)),
      Follows n m (do
        let returnTypeName ← typeAnnotation
        expect "DO" "DO"
        let body ← block
        expect "END" "END"
        return (⟨← freshId, name, parameters.map Prod.fst, parameters.map Prod.snd, returnTypeName,
          body⟩ : FunctionDecl)) (do
        let returnTypeName ← typeAnnotation
        expect "DO" "DO"
        let body ← block
        expect "END" "END"
        return (⟨← freshId, name', parameters'.map Prod.fst, parameters'.map Prod.snd,
          returnTypeName, body⟩ : FunctionDecl)) := fun _ _ _ _ =>
    typeAnnotation_follows.seq fun _ _ => .expectThen (block_follows.seq fun _ _ =>
      .expectThen (Mimics.freshId.seq fun _ _ => .pure rfl))
  refine .expectThen ((Mimics.name _).seq fun name name' => .expectThen ?_)
  refine .ifAccept ((Mimics.pure rfl).seq fun _ _ => hend _ _ _ _) ?_
  refine .remaining (fun k k' _ _ => ?_) fun k => ?_
  · exact (parametersWithin_follows k k').seq fun _ _ => hend _ _ _ _
  · exact (parametersWithin_advances k).forward.first fun parameters =>
      (hend name name parameters parameters : Follows 0 0 _ _).advances

/-- Globals and functions, with two bounds. -/
theorem sourceWithin_follows (n m : Nat) : Follows n m (sourceWithin n) (sourceWithin m) := by
  induction n generalizing m with
  | zero => exact .of_zero (sourceWithin_advances 0) (.inl rfl)
  | succ n ih =>
    cases m with
    | zero => exact .of_zero (sourceWithin_advances _) (.inr rfl)
    | succ m =>
      refine .ifAtEnd (.pure rfl) ?_
      refine (Mimics.peek _).bind (.peek _) fun b₁ b₁' h₁ => ?_
      refine (Mimics.peek _).bind (.peek _) fun b₂ b₂' h₂ => ?_
      refine (Mimics.peek _).bind (.peek _) fun b₃ b₃' h₃ => ?_
      have hglobal : (b₁ || b₂ || b₃) = (b₁' || b₂' || b₃') := by
        rw [show b₁ = b₁' from h₁, show b₂ = b₂' from h₂, show b₃ = b₃' from h₃]
      refine .ite hglobal ?_ (.ifPeek ?_ (.fail _ _))
      · exact global_follows.bind global_advances fun _ _ _ => (ih m).seq fun _ _ => .pure rfl
      · exact function_follows.bind function_advances fun _ _ _ => (ih m).seq fun _ _ => .pure rfl

/-- **Reading a program looks one token ahead**: if it fails before a token, it fails for every
list that agrees up to and including this token. -/
theorem source_fails_alike {ts us vs : List Token} {t : Token} {firstId : NodeId} {e : ParseError}
    {c : Cursor} (h : source (.ofTokens ts firstId) = .error e c) (hts : ts = us ++ c.rest)
    (hnext : c.rest = t :: vs) (firstId' : NodeId) (vs' : List Token) :
    ∃ e' c', source (.ofTokens (us ++ t :: vs') firstId') = .error e' c' := by
  have hsource : ∀ {n m : Nat}, Follows n m source source :=
    .remaining (fun k k' _ _ => sourceWithin_follows k k') sourceWithin_advances
  have htwins : Twins t vs vs' (.ofTokens ts firstId) (.ofTokens (us ++ t :: vs') firstId') :=
    ⟨us, by rw [Cursor.ofTokens, hts, hnext], rfl⟩
  have hrest : (after source (.ofTokens ts firstId)).rest = t :: vs := by
    rw [after_eq_of_error h, hnext]
  have hmatch := hsource.twin htwins (Nat.le_refl _) (Nat.le_refl _) ⟨[], hrest.symm⟩
  rw [h] at hmatch
  cases h' : source (.ofTokens (us ++ t :: vs') firstId') with
  | ok p c' =>
    rw [h'] at hmatch
    exact hmatch.elim
  | error e' c' => exact ⟨e', c', rfl⟩

end Rule
end Scriptlet
