import Scriptlet.Proofs.Cut
import Scriptlet.Proofs.ProgramComplete
import Scriptlet.Proofs.Progress

/-!
# What a failing rule has read can be completed

A rule that fails has read tokens that something in the grammar starts with: there is a text
that can be put after them.  `Viable r Q c` says this of rule `r` and relation `Q` at the cursor
`c`, and also which position the error names.

To complete what a rule has read, one completes what its failing step has read, and then puts
down something for each step that was still to come.  So `Viable` also says that something is
`Spelled` in the relation at all; the texts are joined by blanks.

Tokens are supposed to come from a text that is not too long: a decimal with `2 ^ 63` digits
after the dot is a token, but no literal, and it is found out after it was read.
-/

namespace Scriptlet

open Grammar

variable {α β : Type} {P Q : List Token → α → Prop}

/-! ### Spelling something -/

/-- Whether a word is made of letters, or is a single symbol. -/
def isFixed (w : String) : Bool :=
  match w.toList with
  | [] => false
  | c :: cs => (c :: cs).all Char.isAlpha || (cs.isEmpty && Lexer.isOperator c)

/-- Every word and sign of the grammar is a token. -/
theorem exists_lexeme_of_isFixed {w : String} (h : isFixed w = true) :
    ∃ kind, Lexeme kind w.toList := by
  unfold isFixed at h
  cases hw : w.toList with
  | nil =>
    rw [hw] at h
    cases h
  | cons c cs =>
    simp only [hw, Bool.or_eq_true, Bool.and_eq_true, List.all_eq_true, List.isEmpty_iff] at h
    rcases h with hletters | ⟨rfl, hsymbol⟩
    · refine ⟨.identifier, isAlpha_iff.1 (hletters c List.mem_cons_self), fun d hd => ?_⟩
      exact .inl (isAlpha_iff.1 (hletters d (List.mem_cons_of_mem c hd)))
    · exact ⟨.operator, .inl ⟨c, isOperator_iff.1 hsymbol, rfl⟩⟩

/-- Wherever a text may stand, there is one with tokens that spell something. -/
def Spelled (Q : List Token → α → Prop) : Prop := ∀ i, ∃ cs ts a, Munch i cs ts ∧ Q ts a

namespace Spelled

/-- Nothing at all is a text. -/
theorem empty {a : α} (h : Q [] a) : Spelled Q := fun _ => ⟨[], [], a, .nil, h⟩

/-- A relation that holds of more is spelled as well. -/
theorem imp {Q : List Token → β → Prop} (h : Spelled P)
    (hPQ : ∀ ts a, P ts a → ∃ b, Q ts b) : Spelled Q := by
  intro i
  obtain ⟨cs, ts, a, hcs, ha⟩ := h i
  obtain ⟨b, hb⟩ := hPQ ts a ha
  exact ⟨cs, ts, b, hcs, hb⟩

/-- A text for one part, and one for the rest that goes with it. -/
theorem bind {Q : List Token → β → Prop} (h : Spelled P)
    (hQ : ∀ ts a, P ts a → Spelled fun us b => Q (ts ++ us) b) : Spelled Q := by
  intro i
  obtain ⟨cs, ts, a, hcs, ha⟩ := h i
  obtain ⟨ds, us, b, hds, hb⟩ := hQ ts a ha (i + cs.length + 1)
  exact ⟨cs ++ ' ' :: ds, ts ++ us, b, hcs.append_blank hds, hb⟩

/-- A text that starts with a given token. -/
theorem tokenThen {kind : TokenKind} {w : List Char} (hw : Lexeme kind w)
    (h : ∀ t : Token, t.kind = kind → t.literal = String.ofList w →
      Spelled fun us a => Q (t :: us) a) : Spelled Q := by
  have htoken : Spelled fun ts (t : Token) =>
      (t.kind = kind ∧ t.literal = String.ofList w) ∧ ts = [t] := fun i =>
    ⟨w, _, _, hw.munch i, ⟨rfl, rfl⟩, rfl⟩
  refine htoken.bind ?_
  rintro _ t ⟨⟨hkind, hliteral⟩, rfl⟩
  exact h t hkind hliteral

/-- A text that starts with a word or sign of the grammar. -/
theorem wordThen {w : String} (hw : isFixed w = true)
    (h : ∀ t : Token, t.literal = w → Spelled fun us a => Q (t :: us) a) : Spelled Q := by
  obtain ⟨kind, hlexeme⟩ := exists_lexeme_of_isFixed hw
  exact tokenThen hlexeme fun t _ ht => h t (by rw [ht, String.ofList_toList])

/-- A text that starts with a name. -/
theorem nameThen (h : ∀ t : Token, t.kind = .identifier → Spelled fun us a => Q (t :: us) a) :
    Spelled Q :=
  tokenThen (show Lexeme .identifier ['x'] from ⟨by decide, nofun⟩) fun t ht _ => h t ht

end Spelled

/-! ### Where errors point -/

/-- An error names the position after the last token that was read.  Only an operator in place
of an expression is pointed at itself; it has not been read. -/
structure ParseError.Points (e : ParseError) (c : Cursor) : Prop where
  atNext : e.fault = .invalidExpression → ∃ t rest, c.rest = t :: rest ∧ e.index = t.index
  afterLast : e.fault ≠ .invalidExpression → e.index = c.stop

/-- The tokens that are left come from a text, and every decimal among them is a literal. -/
def Cursor.Readable (c : Cursor) : Prop := ∀ t ∈ c.rest, t.Lexed ∧ t.literal.length < 2 ^ 63

/-- Tokens that can be read come from a text. -/
theorem Cursor.Readable.lexed {c : Cursor} (h : c.Readable) : c.Lexed := fun t ht => (h t ht).1

/-- What is left of such tokens can be read too. -/
theorem Cursor.Readable.of_append {c d : Cursor} {ts : List Token} (h : c.Readable)
    (hc : c.rest = ts ++ d.rest) : d.Readable := fun t ht =>
  h t (hc ▸ List.mem_append_right ts ht)

namespace Rule

/-- If the rule fails, then what it has read can be completed to something in `Q`, and the error
points where it should. -/
structure Viable (r : Rule α) (Q : List Token → α → Prop) (c : Cursor) : Prop where
  spelled : Spelled Q
  failure : c.Readable → ∀ {e d}, r c = .error e d →
    ∃ u, c.rest = u ++ d.rest ∧ e.Points d ∧ Spelled fun vs a => Q (u ++ vs) a

/-- If the token is not there the rule goes the other way. -/
theorem ifAccept_eq_of_not_sees {w : String} {c : Cursor} (h : c.sees w = false)
    (yes no : Rule α) : (do if ← accept w then yes else no : Rule α) c = no c := by
  rcases ifAccept_cases w yes no c with ⟨t, rest, hrest, ht, -⟩ | ⟨-, heq⟩
  · simp [Cursor.sees, hrest, ht] at h
  · exact heq

namespace Viable

variable {c : Cursor} {r : Rule α}

/-- A rule that does the same here. -/
theorem of_eq {r' : Rule α} (h : Viable r' Q c) (heq : r c = r' c) : Viable r Q c :=
  ⟨h.spelled, fun hc _ _ he => h.failure hc (heq ▸ he)⟩

/-- A rule that reads nothing if it fails. -/
theorem of_still (h : Spelled Q) (hstill : ∀ e d, r c = .error e d → d = c ∧ e.Points c) :
    Viable r Q c where
  spelled := h
  failure _ e d he := by
    obtain ⟨rfl, hpoints⟩ := hstill e d he
    exact ⟨[], rfl, hpoints, h⟩

/-- What can be completed in a relation can be completed in a wider one. -/
theorem imp (h : Viable r P c) (hPQ : ∀ {ts a}, P ts a → Q ts a) : Viable r Q c where
  spelled := h.spelled.imp fun _ a ha => ⟨a, hPQ ha⟩
  failure hc e d he := by
    obtain ⟨u, hu, hpoints, hspelled⟩ := h.failure hc he
    exact ⟨u, hu, hpoints, hspelled.imp fun _ a ha => ⟨a, hPQ ha⟩⟩

/-- A result is no failure, and spells nothing. -/
theorem pure {a : α} (h : Q [] a) : Viable (pure a) Q c := of_still (.empty h) nofun

/-- Where a rule fails, anything that the relation spells can be put. -/
theorem fail {fault : ParseFault} (h : Spelled Q) (hfault : fault ≠ .invalidExpression) :
    Viable (fail fault) Q c := by
  refine of_still h fun e d he => ?_
  cases he
  exact ⟨rfl, fun hinvalid => absurd hinvalid hfault, fun _ => rfl⟩

/-- Where a rule fails, anything that the relation spells can be put for it and what comes after
it. -/
theorem failThen {fault : ParseFault} {f : β → Rule α} (h : Spelled Q)
    (hfault : fault ≠ .invalidExpression) : Viable (Rule.fail fault >>= f) Q c :=
  (fail h hfault).of_eq rfl

/-- A result is handed on. -/
theorem pureThen {a : β} {f : β → Rule α} (h : Viable (f a) Q c) :
    Viable (Pure.pure a >>= f) Q c := h.of_eq rfl

/-- The number of tokens that are left is known. -/
theorem remainingThen {f : Nat → Rule α} (h : Viable (f c.rest.length) Q c) :
    Viable (remaining >>= f) Q c := h.of_eq rfl

/-- It is known whether the token comes next. -/
theorem peekThen {w : String} {f : Bool → Rule α} (h : Viable (f (c.sees w)) Q c) :
    Viable (peek w >>= f) Q c := h.of_eq rfl

/-- A number for a node reads nothing. -/
theorem freshIdThen {f : NodeId → Rule α} (h : ∀ id d, Viable (f id) Q d) :
    Viable (freshId >>= f) Q c :=
  ⟨(h c.nextId c).spelled, fun hc _ _ he =>
    (h c.nextId ⟨c.rest, c.stop, c.nextId + 1⟩).failure hc he⟩

/-- **A step and what follows it**, if the results of the step are in the grammar. -/
theorem bindAt {x : Rule α} {f : α → Rule β} {Q : List Token → β → Prop} (hx : Viable x P c)
    (hok : c.Lexed → ∀ a d, x c = .ok a d → ∃ ts, c.rest = ts ++ d.rest ∧ P ts a)
    (hf : ∀ ts a, P ts a → ∀ d, Viable (f a) (fun us b => Q (ts ++ us) b) d) :
    Viable (x >>= f) Q c where
  spelled := hx.spelled.bind fun ts a ha => (hf ts a ha c).spelled
  failure hc e d he := by
    cases hxc : x c with
    | ok a c₁ =>
      rw [bind_eq hxc] at he
      obtain ⟨ts, hts, ha⟩ := hok hc.lexed a c₁ hxc
      obtain ⟨u, hu, hpoints, hspelled⟩ := (hf ts a ha c₁).failure (hc.of_append hts) he
      refine ⟨ts ++ u, by rw [hts, hu, List.append_assoc], hpoints, ?_⟩
      simpa only [List.append_assoc] using hspelled
    | error e' c₁ =>
      rw [bind_eq_error hxc] at he
      cases he
      obtain ⟨u, hu, hpoints, hspelled⟩ := hx.failure hc hxc
      refine ⟨u, hu, hpoints, hspelled.bind fun vs a ha => ?_⟩
      simpa only [List.append_assoc] using (hf (u ++ vs) a ha c).spelled

/-- If the first rule fails it is completed, and then something is put for the second; if not,
the second is completed after what the first has read. -/
theorem bind {x : Rule α} {f : α → Rule β} {Q : List Token → β → Prop} {nodes : α → List NodeId}
    (hx : Viable x P c) (hsound : Sound x P nodes)
    (hf : ∀ ts a, P ts a → ∀ d, Viable (f a) (fun us b => Q (ts ++ us) b) d) :
    Viable (x >>= f) Q c := by
  refine hx.bindAt (fun hc a d ha => ?_) hf
  obtain ⟨ts, hs, hP⟩ := hsound c a d hc ha
  exact ⟨ts, hs.reads, hP⟩

/-- After the last step nothing fails: it is enough that something can follow its results. -/
theorem lastOpen {x : Rule α} {g : α → β} {Q : List Token → β → Prop} (hx : Viable x P c)
    (hPQ : ∀ ts a, P ts a → Spelled fun us b => Q (ts ++ us) b) :
    Viable (x >>= fun a => Pure.pure (g a)) Q c where
  spelled := hx.spelled.bind hPQ
  failure hc e d he := by
    cases hxc : x c with
    | ok a c₁ =>
      rw [bind_eq hxc] at he
      cases he
    | error e' c₁ =>
      rw [bind_eq_error hxc] at he
      cases he
      obtain ⟨u, hu, hpoints, hspelled⟩ := hx.failure hc hxc
      refine ⟨u, hu, hpoints, hspelled.bind fun vs a ha => ?_⟩
      simpa only [List.append_assoc] using hPQ (u ++ vs) a ha

/-- A rule whose result is changed at the end. -/
theorem last {x : Rule α} {g : α → β} {Q : List Token → β → Prop} (hx : Viable x P c)
    (hPQ : ∀ ts a, P ts a → Q ts (g a)) : Viable (x >>= fun a => Pure.pure (g a)) Q c := by
  refine hx.lastOpen fun ts a ha => .empty (a := g a) ?_
  rw [List.append_nil]
  exact hPQ ts a ha

/-- A step that does not start with some words, and what follows it. -/
theorem guardThen {words : List String} {x : Rule α} {f : α → Rule β}
    {Q : List Token → β → Prop} {nodes : α → List NodeId} (hx : Viable x P c)
    (hsound : Sound x P nodes) (hwords : ∀ w ∈ words, c.sees w = false)
    (hspelled : Spelled fun ts a => ¬ StartsWith words ts ∧ P ts a)
    (hf : ∀ ts a, ¬ StartsWith words ts → P ts a →
      ∀ d, Viable (f a) (fun us b => Q (ts ++ us) b) d) : Viable (x >>= f) Q c := by
  have hguarded : Viable x (fun ts a => ¬ StartsWith words ts ∧ P ts a) c := by
    refine ⟨hspelled, fun hc e d he => ?_⟩
    obtain ⟨u, hu, hpoints, hopen⟩ := hx.failure hc he
    refine ⟨u, hu, hpoints, ?_⟩
    cases u with
    | nil => exact hspelled
    | cons t u =>
      refine hopen.imp fun vs a ha => ⟨a, fun hstart => ?_, ha⟩
      have hsees := hwords t.literal (startsWith_cons.1 hstart)
      simp [Cursor.sees, hu] at hsees
  refine hguarded.bindAt (fun hc a d ha => ?_) fun ts a ha => hf ts a ha.1 ha.2
  obtain ⟨ts, hs, hP⟩ := hsound c a d hc ha
  exact ⟨ts, hs.reads, not_startsWith hwords hs, hP⟩

/-- A token in front, and then what fails after it. -/
theorem past {t : Token} {rest : List Token} {e : ParseError} {d : Cursor}
    (h : Viable r (fun us a => Q (t :: us) a) (c.past t rest)) (hc : c.Readable)
    (hrest : c.rest = t :: rest) (he : r (c.past t rest) = .error e d) :
    ∃ u, c.rest = u ++ d.rest ∧ e.Points d ∧ Spelled fun vs a => Q (u ++ vs) a := by
  have hc' : (c.past t rest).Readable := hc.of_append (show c.rest = [t] ++ rest from hrest)
  obtain ⟨u, hu, hpoints, hspelled⟩ := h.failure hc' he
  refine ⟨t :: u, ?_, hpoints, hspelled⟩
  rw [hrest, List.cons_append, ← hu]
  rfl

/-- A rule that first asks for a token. -/
theorem ifAcceptAt {w : String} {yes no : Rule α} (hspelled : Spelled Q)
    (hyes : ∀ t, t.literal = w → ∀ d, Viable yes (fun us a => Q (t :: us) a) d)
    (hno : c.sees w = false → Viable no Q c) :
    Viable (do if ← accept w then yes else no) Q c := by
  refine ⟨hspelled, fun hc e d he => ?_⟩
  rcases ifAccept_cases w yes no c with ⟨t, rest, hrest, ht, heq⟩ | ⟨hsees, heq⟩
  · rw [heq] at he
    exact (hyes t ht _).past hc hrest he
  · rw [heq] at he
    exact (hno hsees).failure hc he

/-- The token is there, and stands in front of what is completed, or it is not. -/
theorem ifAccept {w : String} {yes no : Rule α}
    (hyes : ∀ t, t.literal = w → ∀ d, Viable yes (fun us a => Q (t :: us) a) d)
    (hno : Viable no Q c) : Viable (do if ← accept w then yes else no) Q c :=
  ifAcceptAt hno.spelled hyes fun _ => hno

/-- A rule that first asks a question and reads nothing for it. -/
theorem branch {x : Rule Bool} {b : Bool} {yes no : Rule α} (hx : x c = .ok b c)
    (hspelled : Spelled Q) (hyes : b = true → Viable yes Q c) (hno : b = false → Viable no Q c) :
    Viable (do if ← x then yes else no) Q c := by
  refine ⟨hspelled, fun hc e d he => ?_⟩
  rw [bind_eq hx] at he
  cases b with
  | true => exact (hyes rfl).failure hc he
  | false => exact (hno rfl).failure hc he

/-- A token that must be there is put where it is missing. -/
theorem expectThen {w what : String} (hw : isFixed w = true)
    (h : ∀ t, t.literal = w → ∀ d, Viable r (fun us a => Q (t :: us) a) d) :
    Viable (do expect w what; r) Q c := by
  have hexpect : Viable (expect w what) (fun ts _ => ∃ t, t.literal = w ∧ ts = [t]) c := by
    refine ifAccept (fun t ht d => pure ⟨t, ht, rfl⟩) (fail ?_ nofun)
    exact .wordThen hw fun t ht => .empty (a := ()) ⟨t, ht, rfl⟩
  refine hexpect.bindAt (fun _ u d hu => ?_) ?_
  · obtain ⟨t, ht, hs⟩ := expect_ok hu
    exact ⟨[t], hs.reads, t, ht, rfl⟩
  · rintro _ _ ⟨t, ht, rfl⟩
    exact h t ht

/-- A name is put where it is missing. -/
theorem nameThen {what : String} {f : String → Rule α}
    (h : ∀ t : Token, t.kind = .identifier → ∀ d,
      Viable (f t.literal) (fun us a => Q (t :: us) a) d) :
    Viable (name what >>= f) Q c := by
  have hname : Viable (name what)
      (fun ts s => ∃ t : Token, t.kind = .identifier ∧ t.literal = s ∧ ts = [t]) c := by
    refine of_still (.nameThen fun t ht => .empty ⟨t, ht, rfl, rfl⟩) fun e d he => ?_
    have hfails : name what c = Rule.fail (.expected what) c := by
      unfold name at he ⊢
      split at he
      · simp only [*]
      · split at he
        · cases he
        · simp only [*, if_false]
    rw [hfails] at he
    cases he
    exact ⟨rfl, nofun, fun _ => rfl⟩
  refine hname.bindAt (fun _ s d hs => ?_) ?_
  · obtain ⟨t, hkind, hliteral, hspans⟩ := name_ok hs
    exact ⟨[t], hspans.reads, t, hkind, hliteral, rfl⟩
  · rintro _ _ ⟨t, ht, rfl, rfl⟩
    exact h t ht

/-- The operator is there, and stands in front of what is completed, or it is not. -/
theorem ifOperator {level : Level} {f : Option BinaryOp → Rule α} (hnone : Viable (f none) Q c)
    (hsome : ∀ op (t : Token), Joins level t.literal op → ∀ d,
      Viable (f (some op)) (fun us a => Q (t :: us) a) d) : Viable (operator? level >>= f) Q c := by
  refine ⟨hnone.spelled, fun hc e d he => ?_⟩
  rcases operator?_cases level c with h | ⟨op, t, rest, hrest, -, h⟩
  · rw [bind_eq h] at he
    exact hnone.failure hc he
  · rw [bind_eq h] at he
    rcases operator?_ok h with ⟨hnone, -⟩ | ⟨op', t', hop, hjoins, hspans⟩
    · cases hnone
    · cases hop
      obtain rfl : t = t' := (List.cons.inj (hrest.symm.trans hspans.reads)).1
      exact (hsome op t hjoins _).past hc hrest he

end Viable

/-! ### Expressions -/

/-- The shortest expression: `NIL`. -/
theorem expression_of_nil {t : Token} (ht : t.literal = "NIL") :
    Expression [t] (.literal 0 .nil) :=
  Primary.expression (.nil ht)

/-- There is a primary expression. -/
theorem primary_spelled : Spelled Primary :=
  .wordThen rfl fun t ht => .empty (show Primary [t] (.literal 0 .nil) from .nil ht)

/-- There is an expression. -/
theorem expression_spelled : Spelled Expression :=
  .wordThen rfl fun _ ht => .empty (expression_of_nil ht)

/-- There is a list of elements, one `NIL`. -/
theorem several_spelled {close : String} (hclose : isFixed close = true) :
    Spelled (Several close) :=
  expression_spelled.bind fun _ _ he => .wordThen hclose fun _ ht => .empty (.last he ht)

section Inner

variable {inner : Rule Expr} (hsound : Sound inner Expression Expr.nodes)
  (hinner : ∀ c, Viable inner Expression c)
include hsound hinner

/-- An element is completed, or a comma or bracket is put. -/
theorem commaSeparated_viable {close : String} (hclose : isFixed close = true) (what : String)
    (n : Nat) : ∀ c, Viable (commaSeparated inner close what n) (Several close) c := by
  induction n with
  | zero => exact fun c => .fail (several_spelled hclose) nofun
  | succ n ih =>
    intro c
    refine (hinner c).bind hsound fun ts e he d => .ifAccept (fun t ht d => .pure (.last he ht)) ?_
    refine .ifAccept (fun comma hcomma d => ?_)
      (.failThen (.wordThen hclose fun t ht => .empty (.last he ht)) nofun)
    have hmore : Spelled fun us es => Several close (ts ++ comma :: us) es :=
      (several_spelled hclose).imp fun us es hes => ⟨e :: es, .more he hcomma hes⟩
    refine .branch rfl hmore (fun _ => .failThen hmore nofun) fun _ => ?_
    exact (ih d).last fun us es hes => .more he hcomma hes

/-- A list is completed by its bracket, or by an element. -/
theorem separated_viable {close : String} (hclose : isFixed close = true) (what : String)
    (c : Cursor) : Viable (separated inner close what) (Items close) c := by
  refine .ifAccept (fun t ht d => .pure (.none ht)) (.remainingThen ?_)
  exact (commaSeparated_viable hsound hinner hclose what _ c).imp .some

/-- Arguments or an index are completed after the name. -/
theorem nameTail_viable {t : Token} (ht : IsVariable t) (c : Cursor) :
    Viable (nameTail inner t.literal) (fun ts => Primary (t :: ts)) c := by
  refine .ifAccept (fun l hl d => ?_) (.ifAccept (fun l hl d => ?_) ?_)
  · refine (separated_viable hsound hinner rfl _ d).bind (separated_sound hsound _ _)
      fun ts args hargs d => .freshIdThen fun id d => .pure ?_
    rw [List.append_nil]
    exact .call ht hl hargs
  · refine (hinner d).bind hsound fun ts e he d => .expectThen rfl fun r hr d => ?_
    exact .freshIdThen fun id d => .pure (.element ht hl he hr)
  · exact .freshIdThen fun id d => .pure (.access ht)

/-- A primary expression that starts with none of the words: an error at an operator has read
nothing. -/
theorem primaryByKind_viable {c : Cursor} (hwords : ∀ w ∈ literalWords, c.sees w = false) :
    Viable (primaryByKind inner) Primary c := by
  refine ⟨primary_spelled, fun hc e d he => ?_⟩
  cases hrest : c.rest with
  | nil =>
    rw [primaryByKind_nil inner hrest] at he
    cases he
    exact ⟨[], hrest.symm, ⟨nofun, fun _ => rfl⟩, primary_spelled⟩
  | cons t rest =>
    by_cases hoperator : t.kind = .operator
    · rw [primaryByKind_operator inner hrest hoperator] at he
      cases he
      have hpoints : ParseError.Points ⟨.invalidExpression, t.index⟩ c :=
        ⟨fun _ => ⟨t, rest, hrest, rfl⟩, fun h => absurd rfl h⟩
      exact ⟨[], hrest.symm, hpoints, primary_spelled⟩
    · rw [primaryByKind_other inner hrest hoperator, primaryAfter] at he
      obtain ⟨hlexed, hshort⟩ := hc t (by rw [hrest]; exact List.mem_cons_self)
      rw [← hrest]
      by_cases hname : t.kind = .identifier
      · have hvariable : IsVariable t := by
          refine ⟨hname, fun hword => ?_⟩
          have hsees := hwords t.literal hword
          simp [Cursor.sees, hrest] at hsees
        simp only [hname] at he
        exact (nameTail_viable hsound hinner hvariable _).past hc hrest he
      · -- a literal token is a literal, and then nothing can fail
        obtain ⟨v, hv⟩ | ⟨-, hlong⟩ := hlexed.exists_denotes hname hoperator
        · simp only [hv.literalValue] at he
          cases he
        · omega

/-- A primary expression is completed: by `NIL` if nothing was read. -/
theorem primaryOver_viable (c : Cursor) : Viable (primaryOver inner) Primary c := by
  refine .ifAcceptAt primary_spelled (fun t ht d => .freshIdThen fun id d => .pure (.nil ht))
    fun hnil => ?_
  refine .ifAcceptAt primary_spelled (fun t ht d => .freshIdThen fun id d => .pure (.isTrue ht))
    fun htrue => ?_
  refine .ifAcceptAt primary_spelled (fun t ht d => .freshIdThen fun id d => .pure (.isFalse ht))
    fun hfalse => .ifAccept (fun l hl d => ?_) ?_
  · refine (hinner d).bind hsound fun ts e he d => .expectThen rfl fun r hr d => ?_
    exact .freshIdThen fun id d => .pure (.group hl he hr)
  · refine primaryByKind_viable hsound hinner ?_
    simp [literalWords, hnil, htrue, hfalse]

end Inner

section Operand

variable {level : Level} {operand : Rule Expr} (hsound : Sound operand (Operand level) Expr.nodes)
  (hoperand : ∀ c, Viable operand (Operand level) c)
include hsound hoperand

/-- A chain that has been read so far can be left as it is, or continued. -/
theorem chainTail_viable (n : Nat) : ∀ {left : Expr} {ts : List Token}, Chain level ts left → ∀ c,
    Viable (chainTail level operand n left) (fun us e => Chain level (ts ++ us) e) c := by
  induction n with
  | zero => exact fun hleft c => .pure (by rwa [List.append_nil])
  | succ n ih =>
    intro left ts hleft c
    refine .ifOperator (.pure (by rwa [List.append_nil])) ?_
    intro op t hjoins d
    refine (hoperand d).bind hsound fun us right hright d => .freshIdThen fun id d => ?_
    simpa using ih (.binary hleft hjoins hright) d

/-- A chain is completed by an operand. -/
theorem chain_viable (c : Cursor) : Viable (chain level operand) (Chain level) c :=
  (hoperand c).bind hsound fun _ _ hleft d =>
    .remainingThen (chainTail_viable hsound hoperand _ (.operand hleft) d)

end Operand

/-- All levels of operators, from a primary expression up. -/
theorem logicalOver_viable {primary : Rule Expr} (hsound : Sound primary Primary Expr.nodes)
    (hprimary : ∀ c, Viable primary Primary c) (c : Cursor) :
    Viable (logicalOver primary) Expression c := by
  have hprimary' := hsound.mono Operand.primary
  have hproduct' := (chain_sound hprimary').mono Operand.product
  have hsum' := (chain_sound hproduct').mono Operand.sum
  have hcomparison' := (chain_sound hsum').mono Operand.comparison
  have hproduct := chain_viable hprimary' fun c => (hprimary c).imp .primary
  have hsum := chain_viable hproduct' fun c => (hproduct c).imp .product
  have hcomparison := chain_viable hsum' fun c => (hsum c).imp .sum
  exact chain_viable hcomparison' (fun c => (hcomparison c).imp .comparison) c

/-- Expressions to some depth of brackets. -/
theorem expressionWithin_viable (n : Nat) : ∀ c, Viable (expressionWithin n) Expression c := by
  induction n with
  | zero => exact fun c => .fail expression_spelled nofun
  | succ n ih =>
    have hsound := expressionWithin_sound n
    exact logicalOver_viable (primaryOver_sound hsound) (primaryOver_viable hsound ih)

/-- An expression is completed. -/
theorem expression_viable (c : Cursor) : Viable expression Expression c :=
  .remainingThen (expressionWithin_viable _ c)

/-- An expression, and then more. -/
theorem Viable.expressionThen {f : Expr → Rule α} {c : Cursor}
    (h : ∀ ts e, Expression ts e → ∀ d, Viable (f e) (fun us a => Q (ts ++ us) a) d) :
    Viable (expression >>= f) Q c := (expression_viable c).bind expression_sound h

/-! ### Statements -/

/-- A type is completed by a name. -/
theorem typeAnnotation_viable (c : Cursor) : Viable typeAnnotation Annotation c := by
  refine .ifAccept (fun colon hcolon d => ?_) (.pure .none)
  rw [map_eq_bind]
  exact .nameThen fun t ht d => .pure (.some hcolon ht)

/-- A value is completed by an expression. -/
theorem initializer_viable (c : Cursor) : Viable initializer Initializer c := by
  refine .ifAccept (fun equals hequals d => ?_) (.pure .none)
  rw [map_eq_bind]
  exact (expression_viable d).last fun ts e he => .some hequals he

/-- A declaration is completed by its name, its value or the semicolon. -/
theorem declaration_viable (c : Cursor) : Viable declaration Statement c := by
  refine .expectThen rfl fun word hword d => .nameThen fun name hname d => ?_
  refine (typeAnnotation_viable d).bind typeAnnotation_sound fun ts typeName htype d => ?_
  refine (initializer_viable d).bind initializer_sound fun us value hvalue d => ?_
  refine .expectThen rfl fun semicolon hsemicolon d => .freshIdThen fun id d => ?_
  exact .pure (.declaration hword hname htype hvalue hsemicolon)

/-- A `RETURN` is completed by an expression or the semicolon. -/
theorem returnStatement_viable (c : Cursor) : Viable returnStatement Statement c :=
  .expectThen rfl fun _ hword _ => .expressionThen fun _ _ hvalue _ =>
    .expectThen rfl fun _ hsemicolon _ => .pure (.returnWith hword hvalue hsemicolon)

/-- A statement that starts with no word of its own is an assignment or an expression. -/
theorem expressionStatement_viable {c : Cursor}
    (hwords : ∀ w ∈ statementWords, c.sees w = false) :
    Viable expressionStatement Statement c := by
  have hspelled : Spelled fun ts e => ¬ StartsWith statementWords ts ∧ Expression ts e :=
    .wordThen rfl fun t ht =>
      .empty ⟨not_startsWith_cons ht (by decide), expression_of_nil ht⟩
  refine (expression_viable c).guardThen expression_sound hwords hspelled
    fun ts e hstart he d => .ifAccept (fun equals hequals d => ?_) ?_
  · exact .expressionThen fun us value hvalue d => .expectThen rfl fun semicolon hsemicolon d =>
      .pure (.assignment hstart he hequals hvalue hsemicolon)
  · exact .expectThen rfl fun semicolon hsemicolon d => .pure (.expression hstart he hsemicolon)

/-- A block is completed by completing a statement. -/
theorem blockWithin_viable {statement : Rule Stmt} (hsound : Sound statement Statement Stmt.nodes)
    (hstatement : ∀ c, Viable statement Statement c) (n : Nat) :
    ∀ c, Viable (blockWithin statement n) Block c := by
  have hempty : Spelled Block := .empty .nil
  have hspelled : Spelled fun ts s => ¬ StartsWith blockEnds ts ∧ Statement ts s := by
    refine .wordThen (w := "NIL") rfl fun t ht => .wordThen (w := ";") rfl
      fun semicolon hsemicolon => ?_
    have hstatement : Statement ([t] ++ [semicolon]) _ :=
      .expression (not_startsWith_cons ht (by decide)) (expression_of_nil ht) hsemicolon
    exact .empty ⟨not_startsWith_cons ht (by decide), hstatement⟩
  induction n with
  | zero => exact fun c => .fail hempty nofun
  | succ n ih =>
    intro c
    refine .branch rfl hempty (fun _ => .pure .nil) fun hends => ?_
    refine .branch rfl hempty (fun _ => .failThen hempty nofun) fun _ => ?_
    have hwords : ∀ w ∈ blockEnds, c.sees w = false := by
      simpa [blockEnds] using hends
    refine (hstatement c).guardThen hsound hwords hspelled fun ts s hstart hs d => ?_
    exact (ih d).last fun us rest hrest => .cons hstart hs hrest

/-- A block is completed by completing a statement. -/
theorem blockOver_viable {statement : Rule Stmt} (hsound : Sound statement Statement Stmt.nodes)
    (hstatement : ∀ c, Viable statement Statement c) (c : Cursor) :
    Viable (blockOver statement) Block c :=
  .remainingThen (blockWithin_viable hsound hstatement _ c)

section Block

variable {block : Rule (List Stmt)} (hsound : Sound block Block Stmt.nodesOfList)
  (hblock : ∀ c, Viable block Block c)
include hsound hblock

/-- An `IF` is completed by its condition, its words, or a statement of a branch. -/
theorem ifOver_viable (c : Cursor) : Viable (ifOver block) Statement c := by
  refine .expectThen rfl fun word hword d => .expressionThen fun ts condition hcondition d => ?_
  refine .expectThen rfl fun doWord hdo d => (hblock d).bind hsound fun us thenBody hthen d => ?_
  refine .ifAccept (fun elseWord helse d => ?_) (.pureThen ?_)
  · refine (hblock d).bind hsound fun vs elseBody hbody d => ?_
    exact .expectThen rfl fun endWord hend d =>
      .pure (.ifElse hword hcondition hdo hthen helse hbody hend)
  · exact .expectThen rfl fun endWord hend d => .pure (.ifThen hword hcondition hdo hthen hend)

/-- A `WHILE` is completed by its condition, its words, or a statement of the body. -/
theorem whileOver_viable (c : Cursor) : Viable (whileOver block) Statement c := by
  refine .expectThen rfl fun word hword d => .expressionThen fun ts condition hcondition d => ?_
  refine .expectThen rfl fun doWord hdo d => (hblock d).bind hsound fun us body hbody d => ?_
  exact .expectThen rfl fun endWord hend d => .pure (.whileDo hword hcondition hdo hbody hend)

omit hsound in
/-- After a `CASE` arm other arms may follow. -/
theorem caseArm_viable {c : Cursor} (hsees : c.sees "CASE" = true) :
    Viable (caseOver block)
      (fun ts arm => ∀ us rest, Cases us rest → Cases (ts ++ us) (arm :: rest)) c := by
  have harm : ∀ word : Token, word.literal = "CASE" → ∀ d, Viable (do
      let value ← expression
      expect ":" "':' after CASE value"
      return Case.mk (some value) (← block))
      (fun ts arm => ∀ us rest, Cases us rest → Cases (word :: ts ++ us) (arm :: rest)) d := by
    intro word hword d
    refine .expressionThen fun ts value hvalue d => .expectThen rfl fun colon hcolon d => ?_
    refine (hblock d).last fun us body hbody vs rest hrest => ?_
    simpa using Cases.case hword hvalue hcolon hbody hrest
  refine .ifAcceptAt (.wordThen rfl fun word hword => (harm word hword c).spelled) harm
    fun hno => ?_
  rw [hsees] at hno
  cases hno

omit hsound in
/-- One arm by itself: if it is a `CASE` arm, then the `DEFAULT` arm has not been read. -/
theorem lastArm_viable (c : Cursor) : Viable (do return [← caseOver block]) Cases c := by
  have hdefault : Spelled Cases := .wordThen rfl fun word hword => .empty (.default hword .nil)
  cases hsees : c.sees "CASE" with
  | true =>
    refine (caseArm_viable hblock hsees).lastOpen fun ts arm harm => ?_
    exact hdefault.imp fun us rest hrest => ⟨arm :: rest, harm us rest hrest⟩
  | false =>
    have harm : Viable (do
        expect "DEFAULT" "DEFAULT in SWITCH"
        return Case.mk none (← block)) (fun ts arm => Cases ts [arm]) c :=
      .expectThen rfl fun word hword d => (hblock d).last fun ts body hbody => .default hword hbody
    have hcase : Viable (caseOver block) (fun ts arm => Cases ts [arm]) c :=
      harm.of_eq (ifAccept_eq_of_not_sees hsees _ _)
    exact hcase.last fun ts arm h => h

/-- Arms are completed by an arm, and in the end by `DEFAULT`. -/
theorem casesWithin_viable (n : Nat) : ∀ c, Viable (casesWithin block n) Cases c := by
  induction n with
  | zero => exact lastArm_viable hblock
  | succ n ih =>
    intro c
    refine .branch rfl (lastArm_viable hblock c).spelled (fun hsees => ?_)
      fun _ => lastArm_viable hblock c
    refine (caseArm_viable hblock hsees).bindAt (fun hc arm d h => ?_) fun ts arm harm d =>
      (ih d).last harm
    obtain ⟨ts, -, hs, ⟨hno, -⟩ | ⟨-, hts⟩⟩ := caseOver_ok hsound hc h
    · rw [show c.sees "CASE" = true from hsees] at hno
      cases hno
    · exact ⟨ts, hs.reads, hts⟩

/-- A `SWITCH` is completed by what is switched on, an arm, or `END`. -/
theorem switchOver_viable (c : Cursor) : Viable (switchOver block) Statement c := by
  refine .expectThen rfl fun word hword d => .expressionThen fun ts condition hcondition d => ?_
  refine .remainingThen ((casesWithin_viable hsound hblock _ d).bindAt (fun hc arms d' h => ?_)
    fun us arms harms d => .expectThen rfl fun endWord hend d => ?_)
  · obtain ⟨us, hs, hus⟩ := casesWithin_sound hsound _ hc (Nat.le_refl _) h
    exact ⟨us, hs.reads, hus⟩
  · exact .pure (.switch hword hcondition harms hend)

/-- Every statement is completed as its first word asks. -/
theorem statementOver_viable (c : Cursor) : Viable (statementOver block) Statement c := by
  have hspelled := (returnStatement_viable c).spelled
  refine .branch rfl hspelled (fun _ => declaration_viable c) fun hlet => ?_
  refine .branch rfl hspelled (fun _ => ifOver_viable hsound hblock c) fun hif => ?_
  refine .branch rfl hspelled (fun _ => switchOver_viable hsound hblock c) fun hswitch => ?_
  refine .branch rfl hspelled (fun _ => whileOver_viable hsound hblock c) fun hwhile => ?_
  refine .branch rfl hspelled (fun _ => returnStatement_viable c) fun hreturn => ?_
  refine expressionStatement_viable ?_
  simp [statementWords, hlet, hif, hswitch, hwhile, hreturn]

end Block

/-- Statements to some depth of blocks. -/
theorem statementWithin_viable (n : Nat) : ∀ c, Viable (statementWithin n) Statement c := by
  induction n with
  | zero => exact fun c => .fail (returnStatement_viable c).spelled nofun
  | succ n ih =>
    have hsound := statementWithin_sound n
    exact statementOver_viable (blockOver_sound hsound) (blockOver_viable hsound ih)

/-- A block is completed. -/
theorem block_viable (c : Cursor) : Viable block Block c :=
  .remainingThen (blockOver_viable (statementWithin_sound _) (statementWithin_viable _) c)

/-! ### Programs -/

/-- The global lacks its semicolon. -/
theorem globalBody_viable (c : Cursor) : Viable globalBody (fun ts g =>
    ∀ semicolon : Token, semicolon.literal = ";" → Global (ts ++ [semicolon]) g) c := by
  have hval : ∀ word : Token, word.literal = "VAL" → ∀ d, Viable immutableGlobal (fun ts g =>
      ∀ semicolon : Token, semicolon.literal = ";" → Global (word :: ts ++ [semicolon]) g) d := by
    intro word hword d
    refine .nameThen fun name hname d => ?_
    refine (typeAnnotation_viable d).bind typeAnnotation_sound fun ts typeName htype d => ?_
    refine .expectThen rfl fun equals hequals d => .expressionThen fun us value hvalue d => ?_
    refine .freshIdThen fun id d => .pure fun semicolon hsemicolon => ?_
    simpa using Global.val hword hname htype hequals hvalue hsemicolon
  refine .ifAccept (fun word hword d => ?_) (.ifAccept (fun word hword d => ?_) (.ifAccept hval ?_))
  · refine .nameThen fun name hname d => .expectThen rfl fun colon hcolon d => ?_
    refine .nameThen fun type htype d => .expectThen rfl fun equals hequals d => ?_
    refine .expectThen rfl fun bracket hbracket d => ?_
    refine (separated_viable expression_sound expression_viable rfl _ d).bind
      (separated_sound expression_sound _ _) fun ts es hes d => ?_
    refine .freshIdThen fun listId d => .freshIdThen fun id d => ?_
    refine .pure fun semicolon hsemicolon => ?_
    simpa using Global.list hword hname hcolon htype hequals hbracket hes hsemicolon
  · refine .nameThen fun name hname d => ?_
    refine (typeAnnotation_viable d).bind typeAnnotation_sound fun ts typeName htype d => ?_
    refine (initializer_viable d).bind initializer_sound fun us value hvalue d => ?_
    refine .freshIdThen fun id d => .pure fun semicolon hsemicolon => ?_
    simpa using Global.var hword hname htype hvalue hsemicolon
  · exact .fail (.wordThen rfl fun word hword => (hval word hword c).spelled) nofun

/-- A global is completed by its name, its type, its value or the semicolon. -/
theorem global_viable (c : Cursor) : Viable global Global c := by
  refine (globalBody_viable c).bindAt (fun hc g d h => ?_) fun ts g hg d =>
    .expectThen rfl fun semicolon hsemicolon d => .pure (hg semicolon hsemicolon)
  obtain ⟨ts, hs, hg⟩ := globalBody_sound hc h
  exact ⟨ts, hs.reads, hg⟩

/-- Parameters are completed by a name, a type, or the bracket. -/
theorem parametersWithin_viable (n : Nat) :
    ∀ c, Viable (parametersWithin n) SeveralParameters c := by
  have hspelled : Spelled SeveralParameters :=
    .nameThen fun _ hname => .wordThen rfl fun _ hcolon => .nameThen fun _ htype =>
      .wordThen rfl fun _ hclose => .empty (.last hname hcolon htype hclose)
  induction n with
  | zero => exact fun c => .fail hspelled nofun
  | succ n ih =>
    intro c
    refine .nameThen fun name hname d => .expectThen rfl fun colon hcolon d => ?_
    refine .nameThen fun type htype d => .ifAccept (fun close hclose d => ?_) ?_
    · exact .pure (.last hname hcolon htype hclose)
    · exact .expectThen rfl fun comma hcomma d =>
        (ih d).last fun ts ps hps => .more hname hcolon htype hcomma hps

/-- A function is completed by its name, its parameters, its words or a statement. -/
theorem function_viable (c : Cursor) : Viable function Function c := by
  refine .expectThen rfl fun word hword d => .nameThen fun name hname d => ?_
  refine .expectThen rfl fun parenthesis hparenthesis d => ?_
  have htail : ∀ {ts : List Token} {parameters : List (String × String)},
      Parameters ts parameters → ∀ d, Viable (do
        let returnTypeName ← typeAnnotation
        expect "DO" "DO"
        let body ← block
        expect "END" "END"
        return (⟨← freshId, name.literal, parameters.map Prod.fst, parameters.map Prod.snd,
          returnTypeName, body⟩ : FunctionDecl))
        (fun us f => Function (word :: name :: parenthesis :: (ts ++ us)) f) d := by
    intro ts parameters hparameters d
    refine (typeAnnotation_viable d).bind typeAnnotation_sound fun us typeName htype d => ?_
    refine .expectThen rfl fun doWord hdo d => (block_viable d).bind block_sound
      fun vs body hbody d => .expectThen rfl fun endWord hend d => .freshIdThen fun id d => ?_
    exact .pure (.mk hword hname hparenthesis hparameters htype hdo hbody hend)
  refine .ifAccept (fun close hclose d => .pureThen (htail (.none hclose) d)) (.remainingThen ?_)
  exact (parametersWithin_viable _ d).bind (parametersWithin_sound _) fun ts ps hps d =>
    htail (.some hps) d

/-- A program is completed by completing a global or a function. -/
theorem sourceWithin_viable (n : Nat) : ∀ c, Viable (sourceWithin n) Program c := by
  have hempty : Spelled Program := .empty .nil
  induction n with
  | zero => exact fun c => .pure .nil
  | succ n ih =>
    intro c
    refine .branch rfl hempty (fun _ => .pure .nil) fun _ => .peekThen (.peekThen (.peekThen ?_))
    split
    · exact (global_viable c).bind global_sound fun ts g hg d =>
        (ih d).last fun us p hp => .global hg hp
    · refine .branch rfl hempty (fun _ => ?_) fun _ => .fail hempty nofun
      exact (function_viable c).bind function_sound fun ts f hf d =>
        (ih d).last fun us p hp => .function hf hp

/-- **What has been read of a program that cannot be read is the start of a program.** -/
theorem source_viable (c : Cursor) : Viable source Program c :=
  .remainingThen (sourceWithin_viable _ c)

end Rule
end Scriptlet
