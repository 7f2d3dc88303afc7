import Scriptlet.Proofs.Written

/-!
# How declarations are written

In a program that was read from a text, the names of functions, of their parameters and of
all variables that are declared in them are identifiers, and every parameter has a type
(`FunctionDecl.Written`).
-/

namespace Scriptlet

mutual

/-- The names of the variables declared in a statement, at any depth. -/
def Stmt.names : Stmt → List String
  | .declaration _ name _ _ => [name]
  | .ifElse _ thenBody elseBody => Stmt.namesOfList thenBody ++ Stmt.namesOfList elseBody
  | .switch _ arms => Case.namesOfList arms
  | .whileDo _ body => Stmt.namesOfList body
  | .expression _ | .assignment _ _ | .returnWith _ => []

/-- The names of the variables declared in statements, at any depth. -/
def Stmt.namesOfList : List Stmt → List String
  | [] => []
  | s :: rest => s.names ++ Stmt.namesOfList rest

/-- The names of the variables declared in the arms of a `SWITCH`, at any depth. -/
def Case.namesOfList : List Case → List String
  | [] => []
  | .mk _ body :: rest => Stmt.namesOfList body ++ Case.namesOfList rest

end

/-- All names are identifiers. -/
def AreIdentifiers (names : List String) : Prop := ∀ name ∈ names, IsIdentifier name.toList

/-- The names that a function introduces are identifiers, and its parameters have types. -/
structure FunctionDecl.Written (f : FunctionDecl) : Prop where
  name : IsIdentifier f.name.toList
  parameters : AreIdentifiers f.parameters
  typed : f.parameters.length = f.parameterTypeNames.length
  locals : AreIdentifiers (Stmt.namesOfList f.body)

namespace Grammar

theorem isIdentifier_of_kind {t : Token} (hkind : t.kind = .identifier) (ht : t.Lexed) :
    IsIdentifier t.literal.toList := by
  rw [Token.Lexed, hkind] at ht
  exact ht

mutual

theorem Statement.areIdentifiers {ts : List Token} {s : Stmt} :
    Statement ts s → (∀ t ∈ ts, t.Lexed) → AreIdentifiers s.names
  | .expression _ _ _, _ | .assignment _ _ _ _ _, _ | .returnWith _ _ _, _ => nofun
  | .declaration _ hname _ _ _, hts => by
    have ht := (List.forall_mem_cons.1 (List.forall_mem_cons.1 hts).2).1
    exact List.forall_mem_singleton.2 (isIdentifier_of_kind hname ht)
  | .ifThen _ _ _ hthen _, hts => by
    simp only [List.forall_mem_cons, List.forall_mem_append] at hts
    exact List.forall_mem_append.2 ⟨hthen.areIdentifiers hts.2.2.2.1, nofun⟩
  | .ifElse _ _ _ hthen _ helse _, hts => by
    simp only [List.forall_mem_cons, List.forall_mem_append] at hts
    exact List.forall_mem_append.2
      ⟨hthen.areIdentifiers hts.2.2.2.1, helse.areIdentifiers hts.2.2.2.2.2.1⟩
  | .switch _ _ harms _, hts => by
    simp only [List.forall_mem_cons, List.forall_mem_append] at hts
    exact harms.areIdentifiers hts.2.2.1
  | .whileDo _ _ _ hbody _, hts => by
    simp only [List.forall_mem_cons, List.forall_mem_append] at hts
    exact hbody.areIdentifiers hts.2.2.2.1

theorem Block.areIdentifiers {ts : List Token} {body : List Stmt} :
    Block ts body → (∀ t ∈ ts, t.Lexed) → AreIdentifiers (Stmt.namesOfList body)
  | .nil, _ => nofun
  | .cons _ h hrest, hts => by
    obtain ⟨hts, hus⟩ := List.forall_mem_append.1 hts
    exact List.forall_mem_append.2 ⟨h.areIdentifiers hts, hrest.areIdentifiers hus⟩

theorem Cases.areIdentifiers {ts : List Token} {arms : List Case} :
    Cases ts arms → (∀ t ∈ ts, t.Lexed) → AreIdentifiers (Case.namesOfList arms)
  | .default _ h, hts => by
    have hbody := h.areIdentifiers (List.forall_mem_cons.1 hts).2
    exact List.forall_mem_append.2 ⟨hbody, nofun⟩
  | .case _ _ _ h hrest, hts => by
    simp only [List.forall_mem_cons, List.forall_mem_append] at hts
    obtain ⟨-, -, -, hus, hvs⟩ := hts
    exact List.forall_mem_append.2 ⟨h.areIdentifiers hus, hrest.areIdentifiers hvs⟩

end

theorem SeveralParameters.areIdentifiers {ts : List Token} {ps : List (String × String)}
    (h : SeveralParameters ts ps) (hts : ∀ t ∈ ts, t.Lexed) :
    AreIdentifiers (ps.map Prod.fst) := by
  induction h with
  | last hname _ _ _ =>
    have ht := (List.forall_mem_cons.1 hts).1
    exact List.forall_mem_singleton.2 (isIdentifier_of_kind hname ht)
  | more hname _ _ _ _ ih =>
    simp only [List.forall_mem_cons] at hts
    obtain ⟨ht, -, -, -, hrest⟩ := hts
    exact List.forall_mem_cons.2 ⟨isIdentifier_of_kind hname ht, ih hrest⟩

theorem Function.declarations_written {ts : List Token} {f : FunctionDecl} (h : Function ts f)
    (hts : ∀ t ∈ ts, t.Lexed) : f.Written := by
  cases h with
  | mk _ hname _ hparameters _ _ hbody _ =>
    simp only [List.forall_mem_cons, List.forall_mem_append] at hts
    obtain ⟨-, ht, -, hparameterTokens, -, -, hbodyTokens, -⟩ := hts
    refine ⟨isIdentifier_of_kind hname ht, ?_, by simp, hbody.areIdentifiers hbodyTokens⟩
    cases hparameters with
    | none => exact nofun
    | some h => exact h.areIdentifiers hparameterTokens

theorem Program.declarations_written {ts : List Token} {p : Source} (h : Program ts p)
    (hts : ∀ t ∈ ts, t.Lexed) : ∀ f ∈ p.functions, f.Written := by
  induction h with
  | nil => exact nofun
  | global _ _ ih => exact ih (List.forall_mem_append.1 hts).2
  | function hf _ ih =>
    obtain ⟨hts, hus⟩ := List.forall_mem_append.1 hts
    exact List.forall_mem_cons.2 ⟨hf.declarations_written hts, ih hus⟩

end Grammar

theorem Pipeline.sourceFrom_declarations_written {firstId next : NodeId} {text : String}
    {p : Source} (h : sourceFrom firstId text = .ok (p, next)) :
    ∀ f ∈ p.functions, f.Written := by
  obtain ⟨tokens, hlexed, hprogram, -⟩ := Pipeline.sourceFrom_lexed h
  exact hprogram.declarations_written hlexed

end Scriptlet
