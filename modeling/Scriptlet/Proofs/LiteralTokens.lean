import Scriptlet.Proofs.Faults
import Scriptlet.Proofs.LiteralText
import Scriptlet.Proofs.ParseFailure
import Scriptlet.Proofs.Parts

/-!
# Every literal of a text has a value

The tokens of a text are cut by one set of rules, and literals are turned into values by another.
The two fit together: a number or a quoted text that was cut from a text always denotes a value
(`Token.Lexed.exists_denotes`), so reading never complains about one, whichever rule it starts
with (`Entry.locates`).

And no literal is lost or changed on the way into the tree: in a program that is read, the
values in its expressions are those that the literal tokens denote, each as often as it is
written (`Grammar.Program.writes`).
-/

namespace Scriptlet

/-- Numbers and quoted text, but not words and operators. -/
def TokenKind.isLiteral : TokenKind → Bool
  | integer | decimal | character | string => true
  | identifier | operator => false

/-- The value of an expression that is written as a single literal token; `NIL`, `TRUE` and
`FALSE` are words. -/
def Expr.written? : Expr → Option Literal
  | .literal _ .nil | .literal _ (.boolean _) => none
  | .literal _ value => some value
  | _ => none

/-- The values of the literals in a program. -/
def Source.literals (p : Source) : List Literal := p.expressions.filterMap Expr.written?

/-- The literal tokens among `ts` denote the values of the literals among `es`, in this order. -/
def Writes (ts : List Token) (es : List Expr) : Prop :=
  List.Forall₂ Denotes (ts.filter (·.kind.isLiteral)) (es.filterMap Expr.written?)

/-- Only numbers and quoted texts denote literals. -/
theorem Denotes.isLiteral {t : Token} {v : Literal} (h : Denotes t v) :
    t.kind.isLiteral = true := by
  cases h with
  | integer hk | decimal hk | character hk | string hk => rw [hk]; rfl

namespace Writes

variable {ts us : List Token} {es fs : List Expr} {t : Token} {e : Expr} {w : String}

/-- No tokens, and no expressions. -/
theorem nil : Writes [] [] := List.Forall₂.nil

/-- Tokens of two parts, with the expressions of both. -/
theorem append (h : Writes ts es) (h' : Writes us fs) : Writes (ts ++ us) (es ++ fs) := by
  unfold Writes
  rw [List.filter_append, List.filterMap_append]
  exact List.rel_append h h'

/-- A token that is no literal, in front. -/
theorem other (h : Writes ts es) (ht : t.kind.isLiteral = false) : Writes (t :: ts) es := by
  unfold Writes
  rwa [List.filter_cons_of_neg (by rw [ht]; exact Bool.false_ne_true)]

/-- A name is no literal. -/
theorem name (h : Writes ts es) (ht : t.kind = .identifier) : Writes (t :: ts) es :=
  h.other (by rw [ht]; rfl)

/-- A word or an operator of the grammar, in front. -/
theorem fixed (h : Writes ts es) (ht : t.Lexed) (hw : t.literal = w)
    (hkind : (kindOf w.toList).isLiteral = false) : Writes (t :: ts) es :=
  h.other (by rw [ht.kind_eq hw, hkind])

/-- A word or an operator of the grammar, at the end. -/
theorem fixedEnd (h : Writes ts es) (ht : t.Lexed) (hw : t.literal = w)
    (hkind : (kindOf w.toList).isLiteral = false) : Writes (ts ++ [t]) es := by
  rw [← List.append_nil es]
  exact h.append (nil.fixed ht hw hkind)

/-- An expression that is no literal, around the others. -/
theorem node (h : Writes ts es) (he : e.written? = none) : Writes ts (es ++ [e]) := by
  unfold Writes
  rwa [List.filterMap_append, List.filterMap_cons_none he, List.filterMap_nil, List.append_nil]

/-- A literal token is the value of one expression. -/
theorem literal {v : Literal} (h : Denotes t v) (id : NodeId) : Writes [t] [.literal id v] := by
  have hv : (Expr.literal id v).written? = some v := by
    cases h <;> rfl
  have ht : [t].filter (·.kind.isLiteral) = [t] :=
    List.filter_eq_self.2 (List.forall_mem_singleton.2 h.isLiteral)
  unfold Writes
  rw [ht, List.filterMap_cons_some hv]
  exact .cons h .nil

end Writes

namespace Grammar

mutual

/-- Literals of an operand. -/
theorem Operand.writes {level : Level} {ts : List Token} {e : Expr} :
    Operand level ts e → (∀ t ∈ ts, t.Lexed) → Writes ts e.parts
  | .primary h, hts => h.writes hts
  | .product h, hts => h.writes hts
  | .sum h, hts => h.writes hts
  | .comparison h, hts => h.writes hts

/-- Literals of a chain are those of its operands. -/
theorem Chain.writes {level : Level} {ts : List Token} {e : Expr} :
    Chain level ts e → (∀ t ∈ ts, t.Lexed) → Writes ts e.parts
  | .operand h, hts => h.writes hts
  | @Chain.binary _ _ _ _ _ op _ _ hleft hjoins hright, hts => by
    simp only [List.forall_mem_append, List.forall_mem_cons] at hts
    obtain ⟨hts, ho', hus⟩ := hts
    exact (hleft.writes hts).append
      (((hright.writes hus).node rfl).fixed ho' (joins_iff.1 hjoins).2 (by cases op <;> decide))

/-- Literals of a primary expression; here the tokens of literals are read. -/
theorem Primary.writes {ts : List Token} {e : Expr} :
    Primary ts e → (∀ t ∈ ts, t.Lexed) → Writes ts e.parts
  | .nil ht, hts | .isTrue ht, hts | .isFalse ht, hts =>
    (Writes.nil.node rfl).fixed (List.forall_mem_singleton.1 hts) ht (by decide)
  | .literal h, _ => .literal h _
  | .group hl h hr, hts => by
    simp only [List.forall_mem_append, List.forall_mem_cons] at hts
    obtain ⟨hl', hts, hr', -⟩ := hts
    exact (((h.writes hts).fixedEnd hr' hr (by decide)).node rfl).fixed hl' hl (by decide)
  | .access ht, _ => (Writes.nil.node rfl).name ht.1
  | .element ht hl h hr, hts => by
    simp only [List.forall_mem_append, List.forall_mem_cons] at hts
    obtain ⟨-, hl', hts, hr', -⟩ := hts
    have hoffset := (h.writes hts).fixedEnd hr' hr (by decide)
    exact ((hoffset.fixed hl' hl (by decide)).name ht.1).node rfl
  | .call ht hl h, hts => by
    simp only [List.forall_mem_cons] at hts
    obtain ⟨-, hl', hts⟩ := hts
    exact (((h.writes (by decide) hts).node rfl).fixed hl' hl (by decide)).name ht.1

/-- Literals of the elements of a list. -/
theorem Items.writes {close : String} {ts : List Token} {es : List Expr} :
    Items close ts es → (kindOf close.toList).isLiteral = false → (∀ t ∈ ts, t.Lexed) →
      Writes ts (Expr.partsOfList es)
  | .none ht, hclose, hts =>
    Writes.nil.fixed (List.forall_mem_singleton.1 hts) ht hclose
  | .some h, hclose, hts => h.writes hclose hts

/-- Literals of the elements of a list that is not empty. -/
theorem Several.writes {close : String} {ts : List Token} {es : List Expr} :
    Several close ts es → (kindOf close.toList).isLiteral = false → (∀ t ∈ ts, t.Lexed) →
      Writes ts (Expr.partsOfList es)
  | .last h ht, hclose, hts => by
    simp only [List.forall_mem_append, List.forall_mem_singleton] at hts
    exact (h.writes hts.1).append (Writes.nil.fixed hts.2 ht hclose)
  | .more h ht hrest, hclose, hts => by
    simp only [List.forall_mem_append, List.forall_mem_cons] at hts
    obtain ⟨hts, hcomma', hus⟩ := hts
    exact (h.writes hts).append ((hrest.writes hclose hus).fixed hcomma' ht (by decide))

end

/-- A type has no literal. -/
theorem Annotation.writes {ts : List Token} {typeName : Option String}
    (h : Annotation ts typeName) (hts : ∀ t ∈ ts, t.Lexed) : Writes ts [] := by
  cases h with
  | none => exact .nil
  | some hcolon ht =>
    exact (Writes.nil.name ht).fixed (List.forall_mem_cons.1 hts).1 hcolon (by decide)

/-- Literals of a value that need not be there. -/
theorem Initializer.writes {ts : List Token} {value : Option Expr} (h : Initializer ts value)
    (hts : ∀ t ∈ ts, t.Lexed) : Writes ts (Expr.partsOfOption value) := by
  cases h with
  | none => exact .nil
  | some hequals h =>
    obtain ⟨ht, hts⟩ := List.forall_mem_cons.1 hts
    exact (h.writes hts).fixed ht hequals (by decide)

mutual

/-- Literals of a statement are those of its expressions. -/
theorem Statement.writes {ts : List Token} {s : Stmt} :
    Statement ts s → (∀ t ∈ ts, t.Lexed) → Writes ts s.parts
  | .expression _ h hsemicolon, hts => by
    simp only [List.forall_mem_append, List.forall_mem_singleton] at hts
    exact (h.writes hts.1).fixedEnd hts.2 hsemicolon (by decide)
  | .assignment _ h hequals hvalue hsemicolon, hts => by
    simp only [List.forall_mem_append, List.forall_mem_cons] at hts
    obtain ⟨hts, hequals', hus, hsemicolon', -⟩ := hts
    have hright := (hvalue.writes hus).fixedEnd hsemicolon' hsemicolon (by decide)
    exact (h.writes hts).append (hright.fixed hequals' hequals (by decide))
  | .declaration hword hname htype hvalue hsemicolon, hts => by
    simp only [List.forall_mem_append, List.forall_mem_cons] at hts
    obtain ⟨hword', -, hts, hus, hsemicolon', -⟩ := hts
    have hright := (hvalue.writes hus).fixedEnd hsemicolon' hsemicolon (by decide)
    exact (((htype.writes hts).append hright).name hname).fixed hword' hword (by decide)
  | .ifThen hword h hdo hthen hend, hts => by
    simp only [List.forall_mem_append, List.forall_mem_cons] at hts
    obtain ⟨hword', hts, hdo', hus, hend', -⟩ := hts
    have hbody := ((hthen.writes hus).append .nil).fixedEnd hend' hend (by decide)
    rw [List.append_nil] at hbody
    exact ((h.writes hts).append (hbody.fixed hdo' hdo (by decide))).fixed hword' hword (by decide)
  | .ifElse hword h hdo hthen helse helseBody hend, hts => by
    simp only [List.forall_mem_append, List.forall_mem_cons] at hts
    obtain ⟨hword', hts, hdo', hus, helse', hvs, hend', -⟩ := hts
    have hright := (helseBody.writes hvs).fixedEnd hend' hend (by decide)
    have hbody := (hthen.writes hus).append (hright.fixed helse' helse (by decide))
    exact ((h.writes hts).append (hbody.fixed hdo' hdo (by decide))).fixed hword' hword (by decide)
  | .switch hword h harms hend, hts => by
    simp only [List.forall_mem_append, List.forall_mem_cons] at hts
    obtain ⟨hword', hts, hus, hend', -⟩ := hts
    have hright := (harms.writes hus).fixedEnd hend' hend (by decide)
    exact ((h.writes hts).append hright).fixed hword' hword (by decide)
  | .whileDo hword h hdo hbody hend, hts => by
    simp only [List.forall_mem_append, List.forall_mem_cons] at hts
    obtain ⟨hword', hts, hdo', hus, hend', -⟩ := hts
    have hright := (hbody.writes hus).fixedEnd hend' hend (by decide)
    exact ((h.writes hts).append (hright.fixed hdo' hdo (by decide))).fixed hword' hword (by decide)
  | .returnWith hword h hsemicolon, hts => by
    simp only [List.forall_mem_append, List.forall_mem_cons] at hts
    obtain ⟨hword', hts, hsemicolon', -⟩ := hts
    have hvalue := (h.writes hts).fixedEnd hsemicolon' hsemicolon (by decide)
    exact hvalue.fixed hword' hword (by decide)

/-- Literals of a block are those of its statements. -/
theorem Block.writes {ts : List Token} {body : List Stmt} :
    Block ts body → (∀ t ∈ ts, t.Lexed) → Writes ts (Stmt.partsOfList body)
  | .nil, _ => .nil
  | .cons _ h hrest, hts => by
    obtain ⟨hts, hus⟩ := List.forall_mem_append.1 hts
    exact (h.writes hts).append (hrest.writes hus)

/-- Literals of arms are those of their values and bodies. -/
theorem Cases.writes {ts : List Token} {arms : List Case} :
    Cases ts arms → (∀ t ∈ ts, t.Lexed) → Writes ts (Case.partsOfList arms)
  | .default hword h, hts => by
    obtain ⟨hword', hts⟩ := List.forall_mem_cons.1 hts
    have hbody := ((h.writes hts).append .nil).fixed hword' hword (by decide)
    rwa [List.append_nil] at hbody
  | .case hword h hcolon hbody hrest, hts => by
    simp only [List.forall_mem_append, List.forall_mem_cons] at hts
    obtain ⟨hword', hts, hcolon', hus, hvs⟩ := hts
    have hright := (hbody.writes hus).append (hrest.writes hvs)
    have harm := (h.writes hts).append (hright.fixed hcolon' hcolon (by decide))
    exact harm.fixed hword' hword (by decide)

end

/-- Literals of a global are those of its value. -/
theorem Global.writes {ts : List Token} {g : GlobalDecl} (h : Global ts g)
    (hts : ∀ t ∈ ts, t.Lexed) : Writes ts g.parts := by
  cases h with
  | list hword hname hcolon htype hequals hbracket h hsemicolon =>
    simp only [List.forall_mem_append, List.forall_mem_cons] at hts
    obtain ⟨hword', -, hcolon', -, hequals', hbracket', hts, hsemicolon', -⟩ := hts
    have hitems := (h.writes (by decide) hts).fixedEnd hsemicolon' hsemicolon (by decide)
    have hvalue := (hitems.fixed hbracket' hbracket (by decide)).fixed hequals' hequals (by decide)
    have htyped := (hvalue.name htype).fixed hcolon' hcolon (by decide)
    exact ((htyped.name hname).fixed hword' hword (by decide)).node rfl
  | var hword hname htype hvalue hsemicolon =>
    simp only [List.forall_mem_append, List.forall_mem_cons] at hts
    obtain ⟨hword', -, hts, hus, hsemicolon', -⟩ := hts
    have hright := (hvalue.writes hus).fixedEnd hsemicolon' hsemicolon (by decide)
    exact (((htype.writes hts).append hright).name hname).fixed hword' hword (by decide)
  | val hword hname htype hequals h hsemicolon =>
    simp only [List.forall_mem_append, List.forall_mem_cons] at hts
    obtain ⟨hword', -, hts, hequals', hus, hsemicolon', -⟩ := hts
    have hright := (h.writes hus).fixedEnd hsemicolon' hsemicolon (by decide)
    have hvalue := hright.fixed hequals' hequals (by decide)
    exact (((htype.writes hts).append hvalue).name hname).fixed hword' hword (by decide)

/-- Parameters have no literals. -/
theorem SeveralParameters.writes {ts : List Token} {ps : List (String × String)}
    (h : SeveralParameters ts ps) (hts : ∀ t ∈ ts, t.Lexed) : Writes ts [] := by
  induction h with
  | last hname hcolon htype hclose =>
    simp only [List.forall_mem_cons] at hts
    obtain ⟨-, hcolon', -, hclose', -⟩ := hts
    have hright := (Writes.nil.fixed hclose' hclose (by decide)).name htype
    exact (hright.fixed hcolon' hcolon (by decide)).name hname
  | more hname hcolon htype hcomma _ ih =>
    simp only [List.forall_mem_cons] at hts
    obtain ⟨-, hcolon', -, hcomma', hts⟩ := hts
    have hright := ((ih hts).fixed hcomma' hcomma (by decide)).name htype
    exact (hright.fixed hcolon' hcolon (by decide)).name hname

/-- Parameters have no literals, and need not be there. -/
theorem Parameters.writes {ts : List Token} {ps : List (String × String)}
    (h : Parameters ts ps) (hts : ∀ t ∈ ts, t.Lexed) : Writes ts [] := by
  cases h with
  | none hclose =>
    exact Writes.nil.fixed (List.forall_mem_singleton.1 hts) hclose (by decide)
  | some h => exact h.writes hts

/-- Literals of a function are those of its body. -/
theorem Function.writes {ts : List Token} {f : FunctionDecl} (h : Function ts f)
    (hts : ∀ t ∈ ts, t.Lexed) : Writes ts f.parts := by
  cases h with
  | mk hword hname hopen hparameters htype hdo hbody hend =>
    simp only [List.forall_mem_append, List.forall_mem_cons] at hts
    obtain ⟨hword', -, hopen', hts, hus, hdo', hvs, hend', -⟩ := hts
    have hparameters' := hparameters.writes hts
    have hblock := ((hbody.writes hvs).fixedEnd hend' hend (by decide)).fixed hdo' hdo (by decide)
    have hright := hparameters'.append ((htype.writes hus).append hblock)
    exact ((hright.fixed hopen' hopen (by decide)).name hname).fixed hword' hword (by decide)

/-- **The literals of a program are those of its tokens.**  Globals and functions may be mixed in
the text and are listed apart in the program, so the order may change. -/
theorem Program.writes {ts : List Token} {p : Source} (h : Program ts p)
    (hts : ∀ t ∈ ts, t.Lexed) :
    ∃ vs, List.Forall₂ Denotes (ts.filter (·.kind.isLiteral)) vs ∧ vs.Perm p.literals := by
  induction h with
  | nil => exact ⟨[], .nil, .refl _⟩
  | @global ts us g p hg _ ih =>
    obtain ⟨hts, hus⟩ := List.forall_mem_append.1 hts
    obtain ⟨vs, hvs, hperm⟩ := ih hus
    refine ⟨g.parts.filterMap Expr.written? ++ vs, ?_, ?_⟩
    · rw [List.filter_append]
      exact List.rel_append (hg.writes hts) hvs
    · simp only [Source.literals, Source.expressions, List.flatMap_cons, List.append_assoc,
        List.filterMap_append] at hperm ⊢
      exact hperm.append_left _
  | @function ts us f p hf _ ih =>
    obtain ⟨hts, hus⟩ := List.forall_mem_append.1 hts
    obtain ⟨vs, hvs, hperm⟩ := ih hus
    refine ⟨f.parts.filterMap Expr.written? ++ vs, ?_, ?_⟩
    · rw [List.filter_append]
      exact List.rel_append (hf.writes hts) hvs
    · simp only [Source.literals, Source.expressions, List.flatMap_cons,
        List.filterMap_append] at hperm ⊢
      exact (hperm.append_left _).trans (List.perm_append_comm_assoc ..)

end Grammar

/-! ### No complaint about a literal -/

/-- A token of a text that denotes no literal is an operator, or a decimal that is too long. -/
theorem Token.Lexed.fault_cases {t : Token} {fault : ParseFault} (ht : t.Lexed)
    (hname : t.kind ≠ .identifier) (h : Rule.literalValue t = .error fault) :
    fault = .invalidExpression ∨ (fault = .invalidDecimal ∧ 2 ^ 63 ≤ t.literal.length) := by
  by_cases hoperator : t.kind = .operator
  · simp only [Rule.literalValue, hoperator] at h
    exact .inl (Except.error.inj h).symm
  · rcases ht.exists_denotes hname hoperator with ⟨v, hv⟩ | ⟨herror, hlength⟩
    · cases hv.literalValue.symm.trans h
    · exact .inr ⟨(Except.error.inj (herror.symm.trans h)).symm, hlength⟩

/-- A token is no longer than the text it comes from. -/
theorem Token.length_le_of_scan {text : String} {tokens : List Token}
    (h : Token.scan text = .ok tokens) {t : Token} (ht : t ∈ tokens) :
    t.literal.length ≤ text.length := by
  have htiles : Tiles 0 text.toList tokens := (Token.munch_of_scan h).tiles [] rfl
  have hstop := htiles.stop_le ht
  rw [String.length_toList] at hstop
  omega

/-- **Every literal of a text is read as the value that it denotes.**  An expression that starts
with a literal token has its value, whatever comes next; no rule complains about a literal,
wherever it starts to read; and the literals of a program that is read are those of the text.

No text that fits into memory has `2 ^ 63` characters, so the last complaint is not made
either: it would be about a decimal with as many digits after the dot. -/
theorem scanned_literals_convert {text : String} {tokens : List Token}
    (hscan : Token.scan text = .ok tokens) :
    (∀ t ∈ tokens, t.kind.isLiteral → text.length < 2 ^ 63 → ∃ v, Denotes t v ∧
      ∀ rest stop id,
        Rule.primary ⟨t :: rest, stop, id⟩ = .ok (.literal id v) ⟨rest, t.stop, id + 1⟩) ∧
    (∀ (entry : Entry) (c : Cursor), c.rest ⊆ tokens → ∀ e d, entry.rule c = .error e d →
      e.fault ≠ .invalidInteger ∧ e.fault ≠ .invalidCharacter ∧
        (e.fault = .invalidDecimal → 2 ^ 63 ≤ text.length)) ∧
    ∀ firstId p d, Rule.source (.ofTokens tokens firstId) = .ok p d →
      ∃ vs, List.Forall₂ Denotes (tokens.filter (·.kind.isLiteral)) vs ∧ vs.Perm p.literals := by
  have hlexed := Token.lexed_of_scan hscan
  refine ⟨fun t ht hliteral hlength => ?_, fun entry c hc e d he => ?_, fun firstId p d hp => ?_⟩
  · have hkinds : t.kind ≠ .identifier ∧ t.kind ≠ .operator := by
      constructor <;> (intro hk; rw [hk] at hliteral; cases hliteral)
    rcases (hlexed t ht).exists_denotes hkinds.1 hkinds.2 with ⟨v, hv⟩ | ⟨-, hlong⟩
    · exact ⟨v, hv, Rule.primary_denoted hv (hlexed t ht)⟩
    · have := Token.length_le_of_scan hscan ht
      omega
  · cases entry.locates.origin he with
    | missing hfault _ =>
      refine ⟨?_, ?_, ?_⟩ <;> (intro h; rw [h] at hfault; exact absurd trivial hfault)
    | @token t ht hname hvalue _ =>
      rcases (hlexed t (hc ht)).fault_cases hname hvalue with hfault | ⟨hfault, hlong⟩
      · rw [hfault]
        exact ⟨nofun, nofun, nofun⟩
      · rw [hfault]
        exact ⟨nofun, nofun, fun _ =>
          Nat.le_trans hlong (Token.length_le_of_scan hscan (hc ht))⟩
  · exact (Rule.source_sound hlexed hp).1.writes hlexed

/-- A negative integer, a decimal that keeps its last zero, and escape sequences in a character
and in a string. -/
theorem scanned_literals_convert_each_kind :
    ∃ tokens p d,
      Token.scan "VAL x = f(-7, 0.50, '\\n', \"a\\\"b\");" = .ok tokens ∧
        Rule.source (.ofTokens tokens 0) = .ok p d ∧
          p.literals = [.integer (-7), .decimal ⟨50, 2⟩, .character '\n', .string "a\"b"] ∧
            ∃ vs, List.Forall₂ Denotes (tokens.filter (·.kind.isLiteral)) vs ∧
              vs.Perm p.literals := by
  have hscan : Token.scan "VAL x = f(-7, 0.50, '\\n', \"a\\\"b\");" = .ok
      [⟨.identifier, "VAL", 0⟩, ⟨.identifier, "x", 4⟩, ⟨.operator, "=", 6⟩,
        ⟨.identifier, "f", 8⟩, ⟨.operator, "(", 9⟩, ⟨.integer, "-7", 10⟩, ⟨.operator, ",", 12⟩,
        ⟨.decimal, "0.50", 14⟩, ⟨.operator, ",", 18⟩, ⟨.character, "'\\n'", 20⟩,
        ⟨.operator, ",", 24⟩, ⟨.string, "\"a\\\"b\"", 26⟩, ⟨.operator, ")", 32⟩,
        ⟨.operator, ";", 33⟩] := by
    decide +kernel
  have hread : Rule.source (.ofTokens
      [⟨.identifier, "VAL", 0⟩, ⟨.identifier, "x", 4⟩, ⟨.operator, "=", 6⟩,
        ⟨.identifier, "f", 8⟩, ⟨.operator, "(", 9⟩, ⟨.integer, "-7", 10⟩, ⟨.operator, ",", 12⟩,
        ⟨.decimal, "0.50", 14⟩, ⟨.operator, ",", 18⟩, ⟨.character, "'\\n'", 20⟩,
        ⟨.operator, ",", 24⟩, ⟨.string, "\"a\\\"b\"", 26⟩, ⟨.operator, ")", 32⟩,
        ⟨.operator, ";", 33⟩] 0) = .ok
          ⟨[⟨5, "x", none, false, some (.call 4 "f" [.literal 0 (.integer (-7)),
            .literal 1 (.decimal ⟨50, 2⟩), .literal 2 (.character '\n'),
            .literal 3 (.string "a\"b")])⟩], []⟩ ⟨[], 34, 6⟩ := by
    rfl
  exact ⟨_, _, _, hscan, hread, rfl, (scanned_literals_convert hscan).2.2 0 _ _ hread⟩

end Scriptlet
