import Scriptlet.Pipeline
import Scriptlet.Proofs.ProgramSound

/-!
# Programs that are read are plain

The grammar has lists only as values of globals that name the type of their elements,
so whether a program that is read is plain depends on its type names alone.  Its nodes
have different ids, because they are numbered one after the other.
-/

namespace Scriptlet
namespace Grammar

/-! ### Expressions -/

mutual

/-- An operand has no lists in it. -/
theorem Operand.plain {level : Level} {ts : List Token} {e : Expr} :
    Operand level ts e → e.plain = true
  | .primary h => h.plain
  | .product h => h.plain
  | .sum h => h.plain
  | .comparison h => h.plain

/-- A chain has no lists in it. -/
theorem Chain.plain {level : Level} {ts : List Token} {e : Expr} :
    Chain level ts e → e.plain = true
  | .operand h => h.plain
  | .binary hl _ hr => by simp only [Expr.plain, hl.plain, hr.plain, Bool.and_self]

/-- A primary expression is no list. -/
theorem Primary.plain {ts : List Token} {e : Expr} : Primary ts e → e.plain = true
  | .nil _ | .isTrue _ | .isFalse _ | .literal _ | .access _ => by simp only [Expr.plain]
  | .group _ h _ => by simpa only [Expr.plain] using h.plain
  | .element _ _ h _ => by simpa only [Expr.plain] using h.plain
  | .call _ _ h => by simpa only [Expr.plain] using h.plain

/-- Elements are no lists. -/
theorem Items.plain {close : String} {ts : List Token} {es : List Expr} :
    Items close ts es → Expr.plainList es = true
  | .none _ => by simp only [Expr.plainList]
  | .some h => h.plain

/-- Elements of a list that is not empty are no lists. -/
theorem Several.plain {close : String} {ts : List Token} {es : List Expr} :
    Several close ts es → Expr.plainList es = true
  | .last h _ => by simp only [Expr.plainList, h.plain, Bool.and_self]
  | .more h _ hrest => by simp only [Expr.plainList, h.plain, hrest.plain, Bool.and_self]

end

/-- The value of a declaration is no list. -/
theorem Initializer.plain {ts : List Token} {value : Option Expr} (h : Initializer ts value) :
    Expr.plainOption value = true := by
  cases h with
  | none => rfl
  | some _ h => exact h.plain

/-! ### Statements and programs -/

/-- A test of a value that need not be there. -/
theorem all_toList {α : Type} (x : Option α) (q : α → Bool) : x.toList.all q = x.all q := by
  cases x with
  | none => rfl
  | some a => exact Bool.and_true (q a)

mutual

/-- A statement is plain if the types that it names are. -/
theorem Statement.plain_eq {ts : List Token} {s : Stmt} :
    Statement ts s → s.plain = s.typeNames.all plainName
  | .expression _ h _ => by simp only [Stmt.plain, Stmt.typeNames, h.plain, List.all_nil]
  | .assignment _ h _ hvalue _ => by
    simp only [Stmt.plain, Stmt.typeNames, h.plain, hvalue.plain, List.all_nil, Bool.and_self]
  | .declaration _ _ _ h _ => by
    simp only [Stmt.plain, Stmt.typeNames, h.plain, all_toList, Bool.and_true]
  | .ifThen _ h _ hthen _ => by
    simp only [Stmt.plain, Stmt.plainList, Stmt.typeNames, Stmt.typeNamesOfList, h.plain,
      hthen.plain_eq, List.append_nil, Bool.and_true, Bool.true_and]
  | .ifElse _ h _ hthen _ helse _ => by
    simp only [Stmt.plain, Stmt.typeNames, h.plain, hthen.plain_eq, helse.plain_eq,
      List.all_append, Bool.true_and]
  | .switch _ h harms _ => by
    simp only [Stmt.plain, Stmt.typeNames, h.plain, harms.plain_eq, Bool.true_and]
  | .whileDo _ h _ hbody _ => by
    simp only [Stmt.plain, Stmt.typeNames, h.plain, hbody.plain_eq, Bool.true_and]
  | .returnWith _ h _ => by simp only [Stmt.plain, Stmt.typeNames, h.plain, List.all_nil]

/-- A block is plain if the types that it names are. -/
theorem Block.plain_eq {ts : List Token} {body : List Stmt} :
    Block ts body → Stmt.plainList body = (Stmt.typeNamesOfList body).all plainName
  | .nil => by simp only [Stmt.plainList, Stmt.typeNamesOfList, List.all_nil]
  | .cons _ h hrest => by
    simp only [Stmt.plainList, Stmt.typeNamesOfList, h.plain_eq, hrest.plain_eq, List.all_append]

/-- Arms are plain if the types that they name are. -/
theorem Cases.plain_eq {ts : List Token} {arms : List Case} :
    Cases ts arms → Case.plainList arms = (Case.typeNamesOfList arms).all plainName
  | .default _ h => by
    simp only [Case.plainList, Case.typeNamesOfList, Expr.plainOption, h.plain_eq,
      List.append_nil, Bool.and_true, Bool.true_and]
  | .case _ hvalue _ h hrest => by
    simp only [Case.plainList, Case.typeNamesOfList, Expr.plainOption, hvalue.plain,
      h.plain_eq, hrest.plain_eq, List.all_append, Bool.true_and]

end

/-- A global that is no list is plain if the type that it names is. -/
theorem plain_of_not_list {g : GlobalDecl} (h : Expr.plainOption g.value = true) :
    g.plain = g.typeName.toList.all plainName := by
  rw [all_toList]
  unfold GlobalDecl.plain
  split
  · rename_i hvalue
    rw [hvalue] at h
    cases h
  · rw [h, Bool.and_true]

/-- A global is plain if the type that it names is; a list names one. -/
theorem Global.plain_eq {ts : List Token} {g : GlobalDecl} (h : Global ts g) :
    g.plain = g.typeName.toList.all plainName := by
  cases h with
  | list _ _ _ _ _ _ h _ =>
    simp only [GlobalDecl.plain, h.plain, Option.any_some, Option.toList_some, List.all_cons,
      List.all_nil]
  | var _ _ _ h _ => exact plain_of_not_list h.plain
  | val _ _ _ _ h _ => exact plain_of_not_list h.plain

/-- A function is plain if the types that it names are. -/
theorem Function.plain_eq {ts : List Token} {f : FunctionDecl} (h : Function ts f) :
    f.plain = f.typeNames.all plainName := by
  cases h with
  | mk _ _ _ _ _ _ h _ =>
    simp only [FunctionDecl.plain, FunctionDecl.typeNames, h.plain_eq, List.all_append, all_toList,
      Bool.and_assoc]

/-- **A program that is read is plain if its type names are.** -/
theorem Program.plain_eq {ts : List Token} {p : Source} (h : Program ts p) :
    p.plain = p.typeNames.all plainName := by
  induction h with
  | nil => rfl
  | global hg _ ih =>
    rw [Source.plain, Source.typeNames, List.all_append] at ih ⊢
    rw [List.all_cons, List.flatMap_cons, List.all_append, hg.plain_eq, Bool.and_assoc,
      Bool.and_assoc, ih]
  | function hf _ ih =>
    rw [Source.plain, Source.typeNames, List.all_append] at ih ⊢
    rw [List.all_cons, List.flatMap_cons, List.all_append, hf.plain_eq, Bool.and_left_comm, ih,
      Bool.and_left_comm]

end Grammar

/-- The tokens of a text that denotes a program are lexemes and spell it, and its nodes
differ. -/
theorem Pipeline.sourceFrom_lexed {firstId next : NodeId} {text : String} {p : Source}
    (h : sourceFrom firstId text = .ok (p, next)) :
    ∃ tokens, (∀ t ∈ tokens, t.Lexed) ∧ Grammar.Program tokens p ∧ p.nodes.Nodup := by
  unfold sourceFrom tokens at h
  cases hscan : Token.scan text with
  | error e =>
    rw [hscan] at h
    cases h
  | ok tokens =>
    rw [hscan] at h
    dsimp only [Except.mapError, bind, Except.bind] at h
    split at h
    · rename_i q c hread
      cases h
      have hlexed := Token.lexed_of_scan hscan
      obtain ⟨hp, hnodes⟩ := Rule.source_sound hlexed hread
      exact ⟨tokens, hlexed, hp, hnodes.nodup_iff.2 List.nodup_range'⟩
    · cases h

/-- A program that was read is in the grammar, and its nodes are distinct. -/
theorem Pipeline.sourceFrom_ok {firstId next : NodeId} {text : String} {p : Source}
    (h : sourceFrom firstId text = .ok (p, next)) :
    (∃ tokens, Grammar.Program tokens p) ∧ p.nodes.Nodup := by
  obtain ⟨tokens, -, hprogram, hnodes⟩ := sourceFrom_lexed h
  exact ⟨⟨tokens, hprogram⟩, hnodes⟩

end Scriptlet
