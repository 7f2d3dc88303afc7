import Scriptlet.Proofs.ParseComplete
import Scriptlet.Proofs.Parts
import Scriptlet.Proofs.Plain

/-!
# How expressions are written

In a program that was read from a text, the operands of an operator are nested as its level
demands: the left operand has no looser operator at its top, the right one only tighter ones.
Names are identifiers.  This is said of every expression of the program by itself
(`Expr.Written`), and follows from the grammar.
-/

namespace Scriptlet

/-- The rank of an operator at the top; other expressions bind tighter than all operators. -/
def Expr.rank : Expr → Nat
  | binary _ op _ _ => op.level.rank
  | _ => 4

/-- The name that an expression starts with. -/
def Expr.name? : Expr → Option String
  | access _ name | element _ name _ | call _ name _ => some name
  | _ => none

/-- Operands bind as tightly as they have to, and a name is an identifier. -/
structure Expr.Written (e : Expr) : Prop where
  operands : ∀ id op left right, e = .binary id op left right →
    op.level.rank ≤ left.rank ∧ op.level.rank < right.rank
  name : ∀ name, e.name? = some name → IsIdentifier name.toList

/-- All expressions are written so. -/
def AllWritten (es : List Expr) : Prop := ∀ e ∈ es, e.Written

namespace Grammar

/-! ### Expressions -/

/-- An expression that is no operation is written well if its name is an identifier. -/
theorem written_other {e : Expr} (hbinary : ∀ id op left right, e ≠ .binary id op left right)
    (hname : ∀ name, e.name? = some name → IsIdentifier name.toList) : e.Written :=
  ⟨fun id op left right h => absurd h (hbinary id op left right), hname⟩

/-- What starts with a name, and is no operator. -/
theorem IsVariable.written {t : Token} (h : IsVariable t) (ht : t.Lexed) {e : Expr}
    (hbinary : ∀ id op left right, e ≠ .binary id op left right)
    (hname : e.name? = some t.literal) : e.Written := by
  refine written_other hbinary fun name hsome => ?_
  obtain rfl : t.literal = name := Option.some.inj (hname.symm.trans hsome)
  rw [Token.Lexed, h.1] at ht
  exact ht

/-- One more expression that is written well. -/
theorem allWritten_snoc {es : List Expr} {e : Expr} (hes : AllWritten es) (he : e.Written) :
    AllWritten (es ++ [e]) :=
  List.forall_mem_append.2 ⟨hes, List.forall_mem_singleton.2 he⟩

mutual

/-- An operand has only tighter operators at its top. -/
theorem Operand.written {level : Level} {ts : List Token} {e : Expr} :
    Operand level ts e → (∀ t ∈ ts, t.Lexed) → level.rank < e.rank ∧ AllWritten e.parts
  | .primary h, hts => by
    obtain ⟨hrank, hwritten⟩ := h.written hts
    exact ⟨hrank ▸ by decide, hwritten⟩
  | .product h, hts => by
    obtain ⟨hrank, hwritten⟩ := h.written hts
    exact ⟨Nat.lt_of_lt_of_le (by decide) hrank, hwritten⟩
  | .sum h, hts => by
    obtain ⟨hrank, hwritten⟩ := h.written hts
    exact ⟨Nat.lt_of_lt_of_le (by decide) hrank, hwritten⟩
  | .comparison h, hts => by
    obtain ⟨hrank, hwritten⟩ := h.written hts
    exact ⟨Nat.lt_of_lt_of_le (by decide) hrank, hwritten⟩

/-- A chain has no looser operator at its top. -/
theorem Chain.written {level : Level} {ts : List Token} {e : Expr} :
    Chain level ts e → (∀ t ∈ ts, t.Lexed) → level.rank ≤ e.rank ∧ AllWritten e.parts
  | .operand h, hts => by
    obtain ⟨hrank, hwritten⟩ := h.written hts
    exact ⟨Nat.le_of_lt hrank, hwritten⟩
  | .binary hl hjoins hr, hts => by
    obtain ⟨hts, hus⟩ := List.forall_mem_append.1 hts
    obtain ⟨hleft, hwrittenLeft⟩ := hl.written hts
    obtain ⟨hright, hwrittenRight⟩ := hr.written (List.forall_mem_cons.1 hus).2
    have hrank := congrArg Level.rank (joins_iff.1 hjoins).1
    refine ⟨hrank.ge, List.forall_mem_append.2 ⟨hwrittenLeft, allWritten_snoc hwrittenRight ?_⟩⟩
    refine ⟨fun id op left right heq => ?_, nofun⟩
    cases heq
    rw [hrank]
    exact ⟨hleft, hright⟩

/-- A primary expression has no operator at its top. -/
theorem Primary.written {ts : List Token} {e : Expr} :
    Primary ts e → (∀ t ∈ ts, t.Lexed) → e.rank = 4 ∧ AllWritten e.parts
  | .nil _, _ | .isTrue _, _ | .isFalse _, _ | .literal _, _ =>
    ⟨rfl, List.forall_mem_singleton.2 (written_other nofun nofun)⟩
  | .group _ h _, hts => by
    have hinner := (List.forall_mem_append.1 (List.forall_mem_cons.1 hts).2).1
    exact ⟨rfl, allWritten_snoc (h.written hinner).2 (written_other nofun nofun)⟩
  | .access h, hts => by
    have ht := List.forall_mem_singleton.1 hts
    exact ⟨rfl, List.forall_mem_singleton.2 (h.written ht nofun rfl)⟩
  | .element h _ hoffset _, hts => by
    obtain ⟨ht, hrest⟩ := List.forall_mem_cons.1 hts
    have hinner := (List.forall_mem_append.1 (List.forall_mem_cons.1 hrest).2).1
    exact ⟨rfl, allWritten_snoc (hoffset.written hinner).2 (h.written ht nofun rfl)⟩
  | .call h _ hargs, hts => by
    obtain ⟨ht, hrest⟩ := List.forall_mem_cons.1 hts
    have hitems := hargs.written (List.forall_mem_cons.1 hrest).2
    exact ⟨rfl, allWritten_snoc hitems (h.written ht nofun rfl)⟩

/-- Elements are written well. -/
theorem Items.written {close : String} {ts : List Token} {es : List Expr} :
    Items close ts es → (∀ t ∈ ts, t.Lexed) → AllWritten (Expr.partsOfList es)
  | .none _, _ => nofun
  | .some h, hts => h.written hts

/-- Elements of a list that is not empty are written well. -/
theorem Several.written {close : String} {ts : List Token} {es : List Expr} :
    Several close ts es → (∀ t ∈ ts, t.Lexed) → AllWritten (Expr.partsOfList es)
  | .last h _, hts => by
    have he := (h.written (List.forall_mem_append.1 hts).1).2
    exact List.forall_mem_append.2 ⟨he, nofun⟩
  | .more h _ hrest, hts => by
    obtain ⟨hts, hus⟩ := List.forall_mem_append.1 hts
    exact List.forall_mem_append.2
      ⟨(h.written hts).2, hrest.written (List.forall_mem_cons.1 hus).2⟩

end

/-- A value is written well. -/
theorem Initializer.written {ts : List Token} {value : Option Expr} (h : Initializer ts value)
    (hts : ∀ t ∈ ts, t.Lexed) : AllWritten (Expr.partsOfOption value) := by
  cases h with
  | none => exact nofun
  | some _ h => exact (h.written (List.forall_mem_cons.1 hts).2).2

/-! ### Statements and programs -/

mutual

/-- Expressions of a statement are written well. -/
theorem Statement.written {ts : List Token} {s : Stmt} :
    Statement ts s → (∀ t ∈ ts, t.Lexed) → AllWritten s.parts
  | .expression _ h _, hts => (h.written (List.forall_mem_append.1 hts).1).2
  | .assignment _ h _ hvalue _, hts => by
    obtain ⟨hts, hrest⟩ := List.forall_mem_append.1 hts
    have hus := (List.forall_mem_append.1 (List.forall_mem_cons.1 hrest).2).1
    exact List.forall_mem_append.2 ⟨(h.written hts).2, (hvalue.written hus).2⟩
  | .declaration _ _ _ h _, hts => by
    simp only [List.forall_mem_cons, List.forall_mem_append] at hts
    exact h.written hts.2.2.2.1
  | .ifThen _ h _ hthen _, hts => by
    simp only [List.forall_mem_cons, List.forall_mem_append] at hts
    exact List.forall_mem_append.2 ⟨(h.written hts.2.1).2,
      List.forall_mem_append.2 ⟨hthen.written hts.2.2.2.1, nofun⟩⟩
  | .ifElse _ h _ hthen _ helse _, hts => by
    simp only [List.forall_mem_cons, List.forall_mem_append] at hts
    exact List.forall_mem_append.2 ⟨(h.written hts.2.1).2,
      List.forall_mem_append.2 ⟨hthen.written hts.2.2.2.1, helse.written hts.2.2.2.2.2.1⟩⟩
  | .switch _ h harms _, hts => by
    simp only [List.forall_mem_cons, List.forall_mem_append] at hts
    exact List.forall_mem_append.2 ⟨(h.written hts.2.1).2, harms.written hts.2.2.1⟩
  | .whileDo _ h _ hbody _, hts => by
    simp only [List.forall_mem_cons, List.forall_mem_append] at hts
    exact List.forall_mem_append.2 ⟨(h.written hts.2.1).2, hbody.written hts.2.2.2.1⟩
  | .returnWith _ h _, hts => by
    simp only [List.forall_mem_cons, List.forall_mem_append] at hts
    exact (h.written hts.2.1).2

/-- Expressions of a block are written well. -/
theorem Block.written {ts : List Token} {body : List Stmt} :
    Block ts body → (∀ t ∈ ts, t.Lexed) → AllWritten (Stmt.partsOfList body)
  | .nil, _ => nofun
  | .cons _ h hrest, hts => by
    obtain ⟨hts, hus⟩ := List.forall_mem_append.1 hts
    exact List.forall_mem_append.2 ⟨h.written hts, hrest.written hus⟩

/-- Expressions of arms are written well. -/
theorem Cases.written {ts : List Token} {arms : List Case} :
    Cases ts arms → (∀ t ∈ ts, t.Lexed) → AllWritten (Case.partsOfList arms)
  | .default _ h, hts => by
    have hbody := h.written (List.forall_mem_cons.1 hts).2
    exact List.forall_mem_append.2 ⟨nofun, List.forall_mem_append.2 ⟨hbody, nofun⟩⟩
  | .case _ hvalue _ h hrest, hts => by
    simp only [List.forall_mem_cons, List.forall_mem_append] at hts
    obtain ⟨-, hts, -, hus, hvs⟩ := hts
    exact List.forall_mem_append.2 ⟨(hvalue.written hts).2,
      List.forall_mem_append.2 ⟨h.written hus, hrest.written hvs⟩⟩

end

/-- Expressions of a global are written well. -/
theorem Global.written {ts : List Token} {g : GlobalDecl} (h : Global ts g)
    (hts : ∀ t ∈ ts, t.Lexed) : AllWritten g.parts := by
  cases h with
  | list _ _ _ _ _ _ h _ =>
    simp only [List.forall_mem_cons, List.forall_mem_append] at hts
    exact allWritten_snoc (h.written hts.2.2.2.2.2.2.1) (written_other nofun nofun)
  | var _ _ _ h _ =>
    simp only [List.forall_mem_cons, List.forall_mem_append] at hts
    exact h.written hts.2.2.2.1
  | val _ _ _ _ h _ =>
    simp only [List.forall_mem_cons, List.forall_mem_append] at hts
    exact (h.written hts.2.2.2.2.1).2

/-- Expressions of a function are written well. -/
theorem Function.written {ts : List Token} {f : FunctionDecl} (h : Function ts f)
    (hts : ∀ t ∈ ts, t.Lexed) : AllWritten f.parts := by
  cases h with
  | mk _ _ _ _ _ _ h _ =>
    simp only [List.forall_mem_cons, List.forall_mem_append] at hts
    exact h.written hts.2.2.2.2.2.2.1

/-- **The expressions of a program are written as the grammar demands.** -/
theorem Program.written {ts : List Token} {p : Source} (h : Program ts p)
    (hts : ∀ t ∈ ts, t.Lexed) : AllWritten p.expressions := by
  induction h with
  | nil => exact nofun
  | global hg _ ih =>
    obtain ⟨hts, hus⟩ := List.forall_mem_append.1 hts
    rw [Source.expressions, List.flatMap_cons, List.append_assoc]
    exact List.forall_mem_append.2 ⟨hg.written hts, ih hus⟩
  | function hf _ ih =>
    obtain ⟨hts, hus⟩ := List.forall_mem_append.1 hts
    obtain ⟨hglobals, hfunctions⟩ := List.forall_mem_append.1 (ih hus)
    rw [Source.expressions, List.flatMap_cons]
    exact List.forall_mem_append.2
      ⟨hglobals, List.forall_mem_append.2 ⟨hf.written hts, hfunctions⟩⟩

end Grammar

/-- Expressions of a program that was read are written well. -/
theorem Pipeline.sourceFrom_written {firstId next : NodeId} {text : String} {p : Source}
    (h : sourceFrom firstId text = .ok (p, next)) : AllWritten p.expressions := by
  obtain ⟨tokens, hlexed, hprogram, -⟩ := Pipeline.sourceFrom_lexed h
  exact hprogram.written hlexed

end Scriptlet
