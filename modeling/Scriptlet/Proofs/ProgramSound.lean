import Scriptlet.Parsing.Program
import Scriptlet.Proofs.ParseSound

/-!
# Every program that is read is in the grammar

The rules for statements are sound if the rule for the blocks inside them is, and a
block is sound if its statements are.  Two rules count tokens and rely on the count:
the arms of a `SWITCH` and a whole program end where no token is left.
-/

namespace Scriptlet
namespace Rule

open Grammar

variable {α : Type} {c c' : Cursor}

/-! ### Statements -/

/-- A colon and a name, or nothing. -/
theorem typeAnnotation_sound : Sound typeAnnotation Annotation (fun _ => []) := by
  intro c typeName c' hc h
  rcases ifAccept_ok h with ⟨t, c₁, ht, hs, h⟩ | ⟨-, h⟩
  · obtain ⟨name, hname, rfl⟩ := map_ok.1 h
    obtain ⟨u, hu, rfl, hsu⟩ := name_ok hname
    exact ⟨[t, u], hs.trans hsu, .some ht hu⟩
  · cases h
    exact ⟨[], Spans.refl c, .none⟩

/-- The sign `=` and an expression, or nothing. -/
theorem initializer_sound : Sound initializer Initializer Expr.nodesOfOption := by
  intro c value c' hc h
  rcases ifAccept_ok h with ⟨t, c₁, ht, hs, h⟩ | ⟨-, h⟩
  · obtain ⟨e, he, rfl⟩ := map_ok.1 h
    obtain ⟨ts, hts, hte⟩ := expression_sound c₁ e c' (hs.lexed hc) he
    exact ⟨t :: ts, hs.trans hts, .some ht hte⟩
  · cases h
    exact ⟨[], Spans.refl c, .none⟩

/-- A declaration is spelled by what was read. -/
theorem declaration_sound : Sound declaration Statement Stmt.nodes := by
  intro c s c' hc h
  obtain ⟨_, c₁, hword, h⟩ := bind_ok.1 h
  obtain ⟨name, c₂, hname, h⟩ := bind_ok.1 h
  obtain ⟨typeName, c₃, htype, h⟩ := bind_ok.1 h
  obtain ⟨value, c₄, hvalue, h⟩ := bind_ok.1 h
  obtain ⟨_, c₅, hsemi, h⟩ := bind_ok.1 h
  obtain ⟨id, c₆, hid, h⟩ := bind_ok.1 h
  obtain ⟨rfl, rfl⟩ := pure_ok.1 h
  obtain ⟨word, hw, h₁⟩ := expect_ok hword
  obtain ⟨t, ht, rfl, h₂⟩ := name_ok hname
  obtain ⟨ts, h₃, hts⟩ := typeAnnotation_sound c₂ typeName c₃ (h₂.lexed (h₁.lexed hc)) htype
  obtain ⟨us, h₄, hus⟩ :=
    initializer_sound c₃ value c₄ (h₃.lexed (h₂.lexed (h₁.lexed hc))) hvalue
  obtain ⟨semi, hs, h₅⟩ := expect_ok hsemi
  refine ⟨_, ?_, .declaration hw ht hts hus hs⟩
  simpa [Stmt.nodes] using
    h₁.trans (h₂.trans (h₃.trans (h₄.trans (h₅.trans (freshId_ok hid)))))

/-- A `RETURN` is spelled by what was read. -/
theorem returnStatement_sound : Sound returnStatement Statement Stmt.nodes := by
  intro c s c' hc h
  obtain ⟨_, c₁, hword, h⟩ := bind_ok.1 h
  obtain ⟨value, c₂, hvalue, h⟩ := bind_ok.1 h
  obtain ⟨_, c₃, hsemi, h⟩ := bind_ok.1 h
  obtain ⟨rfl, rfl⟩ := pure_ok.1 h
  obtain ⟨word, hw, h₁⟩ := expect_ok hword
  obtain ⟨ts, h₂, hts⟩ := expression_sound c₁ value c₂ (h₁.lexed hc) hvalue
  obtain ⟨semi, hs, h₃⟩ := expect_ok hsemi
  refine ⟨_, ?_, .returnWith hw hts hs⟩
  simpa [Stmt.nodes] using h₁.trans (h₂.trans h₃)

/-- If none of the words came next, what was read does not start with one. -/
theorem not_startsWith {words : List String} {ts : List Token} {ids : List NodeId}
    (h : ∀ w ∈ words, c.sees w = false) (hs : Spans c c' ts ids) : ¬ StartsWith words ts := by
  rintro ⟨t, rest, rfl, ht⟩
  have hsees := h t.literal ht
  simp [Cursor.sees, hs.reads] at hsees

/-- A statement that starts with no word of its own is an assignment or an expression. -/
theorem expressionStatement_sound {s : Stmt} (hc : c.Lexed)
    (hwords : ∀ w ∈ statementWords, c.sees w = false) (h : expressionStatement c = .ok s c') :
    ∃ ts, Spans c c' ts s.nodes ∧ Statement ts s := by
  obtain ⟨receiver, c₁, hreceiver, h⟩ := bind_ok.1 h
  obtain ⟨ts, h₁, hts⟩ := expression_sound c receiver c₁ hc hreceiver
  have hstart := not_startsWith hwords h₁
  rcases ifAccept_ok h with ⟨equals, c₂, heq, h₂, h⟩ | ⟨-, h⟩
  · obtain ⟨value, c₃, hvalue, h⟩ := bind_ok.1 h
    obtain ⟨_, c₄, hsemi, h⟩ := bind_ok.1 h
    obtain ⟨rfl, rfl⟩ := pure_ok.1 h
    obtain ⟨us, h₃, hus⟩ := expression_sound c₂ value c₃ (h₂.lexed (h₁.lexed hc)) hvalue
    obtain ⟨semi, hs, h₄⟩ := expect_ok hsemi
    refine ⟨_, ?_, .assignment hstart hts heq hus hs⟩
    simpa [Stmt.nodes] using h₁.trans (h₂.trans (h₃.trans h₄))
  · obtain ⟨_, c₂, hsemi, h⟩ := bind_ok.1 h
    obtain ⟨rfl, rfl⟩ := pure_ok.1 h
    obtain ⟨semi, hs, h₂⟩ := expect_ok hsemi
    refine ⟨_, ?_, .expression hstart hts hs⟩
    simpa [Stmt.nodes] using h₁.trans h₂

/-- Statements up to a word that ends blocks. -/
theorem blockWithin_sound {statement : Rule Stmt}
    (hstatement : Sound statement Statement Stmt.nodes) (n : Nat) :
    Sound (blockWithin statement n) Block Stmt.nodesOfList := by
  induction n with
  | zero =>
    intro c body c' _ h
    cases h
  | succ n ih =>
    intro c body c' hc h
    obtain ⟨ends, c₁, hends, h⟩ := bind_ok.1 h
    cases hends
    cases hend : ["END", "ELSE", "CASE", "DEFAULT"].any c.sees with
    | true =>
      rw [hend] at h
      cases h
      exact ⟨[], Spans.refl c, .nil⟩
    | false =>
      rw [hend] at h
      obtain ⟨done, c₁, hdone, h⟩ := bind_ok.1 h
      cases hdone
      cases hd : c.isDone with
      | true =>
        rw [hd] at h
        cases h
      | false =>
        rw [hd] at h
        obtain ⟨first, c₁, hfirst, h⟩ := bind_ok.1 h
        obtain ⟨rest, c₂, hrest, h⟩ := bind_ok.1 h
        obtain ⟨rfl, rfl⟩ := pure_ok.1 h
        obtain ⟨ts, h₁, hts⟩ := hstatement c first c₁ hc hfirst
        obtain ⟨us, h₂, hus⟩ := ih c₁ rest c₂ (h₁.lexed hc) hrest
        have hwords : ∀ w ∈ blockEnds, c.sees w = false := by
          simpa [blockEnds] using hend
        exact ⟨ts ++ us, h₁.trans h₂, .cons (not_startsWith hwords h₁) hts hus⟩

/-- A block is spelled by its statements. -/
theorem blockOver_sound {statement : Rule Stmt}
    (hstatement : Sound statement Statement Stmt.nodes) :
    Sound (blockOver statement) Block Stmt.nodesOfList := fun c =>
  blockWithin_sound hstatement c.rest.length c

section Block

variable {block : Rule (List Stmt)} (hblock : Sound block Block Stmt.nodesOfList)
include hblock

/-- An `IF`, with or without `ELSE`. -/
theorem ifOver_sound : Sound (ifOver block) Statement Stmt.nodes := by
  intro c s c' hc h
  obtain ⟨_, c₁, hword, h⟩ := bind_ok.1 h
  obtain ⟨condition, c₂, hcondition, h⟩ := bind_ok.1 h
  obtain ⟨_, c₃, hdo, h⟩ := bind_ok.1 h
  obtain ⟨thenBody, c₄, hthen, h⟩ := bind_ok.1 h
  obtain ⟨word, hw, h₁⟩ := expect_ok hword
  obtain ⟨ts, h₂, hts⟩ := expression_sound c₁ condition c₂ (h₁.lexed hc) hcondition
  obtain ⟨doWord, hd, h₃⟩ := expect_ok hdo
  have hc₃ := h₃.lexed (h₂.lexed (h₁.lexed hc))
  obtain ⟨us, h₄, hus⟩ := hblock c₃ thenBody c₄ hc₃ hthen
  rcases ifAccept_ok h with ⟨elseWord, c₅, he, h₅, h⟩ | ⟨-, h⟩
  · obtain ⟨elseBody, c₆, helse, h⟩ := bind_ok.1 h
    obtain ⟨_, c₇, hend, h⟩ := bind_ok.1 h
    obtain ⟨rfl, rfl⟩ := pure_ok.1 h
    obtain ⟨vs, h₆, hvs⟩ := hblock c₅ elseBody c₆ (h₅.lexed (h₄.lexed hc₃)) helse
    obtain ⟨endWord, hn, h₇⟩ := expect_ok hend
    refine ⟨_, ?_, .ifElse hw hts hd hus he hvs hn⟩
    simpa [Stmt.nodes] using
      h₁.trans (h₂.trans (h₃.trans (h₄.trans (h₅.trans (h₆.trans h₇)))))
  · obtain ⟨elseBody, c₅, helse, h⟩ := bind_ok.1 h
    cases helse
    obtain ⟨_, c₅, hend, h⟩ := bind_ok.1 h
    obtain ⟨rfl, rfl⟩ := pure_ok.1 h
    obtain ⟨endWord, hn, h₅⟩ := expect_ok hend
    refine ⟨_, ?_, .ifThen hw hts hd hus hn⟩
    simpa [Stmt.nodes, Stmt.nodesOfList] using h₁.trans (h₂.trans (h₃.trans (h₄.trans h₅)))

/-- A `WHILE` is spelled by what was read. -/
theorem whileOver_sound : Sound (whileOver block) Statement Stmt.nodes := by
  intro c s c' hc h
  obtain ⟨_, c₁, hword, h⟩ := bind_ok.1 h
  obtain ⟨condition, c₂, hcondition, h⟩ := bind_ok.1 h
  obtain ⟨_, c₃, hdo, h⟩ := bind_ok.1 h
  obtain ⟨body, c₄, hbody, h⟩ := bind_ok.1 h
  obtain ⟨_, c₅, hend, h⟩ := bind_ok.1 h
  obtain ⟨rfl, rfl⟩ := pure_ok.1 h
  obtain ⟨word, hw, h₁⟩ := expect_ok hword
  obtain ⟨ts, h₂, hts⟩ := expression_sound c₁ condition c₂ (h₁.lexed hc) hcondition
  obtain ⟨doWord, hd, h₃⟩ := expect_ok hdo
  obtain ⟨us, h₄, hus⟩ := hblock c₃ body c₄ (h₃.lexed (h₂.lexed (h₁.lexed hc))) hbody
  obtain ⟨endWord, hn, h₅⟩ := expect_ok hend
  refine ⟨_, ?_, .whileDo hw hts hd hus hn⟩
  simpa [Stmt.nodes] using h₁.trans (h₂.trans (h₃.trans (h₄.trans h₅)))

/-- An arm is the `DEFAULT` arm, or one that other arms may follow. -/
theorem caseOver_ok {arm : Case} (hc : c.Lexed) (h : caseOver block c = .ok arm c') :
    ∃ ts, ts ≠ [] ∧ Spans c c' ts (Case.nodesOfList [arm]) ∧
      ((c.sees "CASE" = false ∧ Cases ts [arm]) ∨
        (c.sees "CASE" = true ∧ ∀ us rest, Cases us rest → Cases (ts ++ us) (arm :: rest))) := by
  rcases ifAccept_ok h with ⟨word, c₁, hw, h₁, h⟩ | ⟨hsees, h⟩
  · obtain ⟨value, c₂, hvalue, h⟩ := bind_ok.1 h
    obtain ⟨_, c₃, hcolon, h⟩ := bind_ok.1 h
    obtain ⟨body, c₄, hbody, h⟩ := bind_ok.1 h
    obtain ⟨rfl, rfl⟩ := pure_ok.1 h
    obtain ⟨ts, h₂, hts⟩ := expression_sound c₁ value c₂ (h₁.lexed hc) hvalue
    obtain ⟨colon, hco, h₃⟩ := expect_ok hcolon
    obtain ⟨us, h₄, hus⟩ := hblock c₃ body c₄ (h₃.lexed (h₂.lexed (h₁.lexed hc))) hbody
    refine ⟨word :: (ts ++ colon :: us), by simp, ?_, .inr ⟨?_, fun vs rest hvs => ?_⟩⟩
    · simpa [Case.nodesOfList, Expr.nodesOfOption] using h₁.trans (h₂.trans (h₃.trans h₄))
    · simp [Cursor.sees, h₁.reads, hw]
    · simpa using Cases.case hw hts hco hus hvs
  · obtain ⟨_, c₁, hword, h⟩ := bind_ok.1 h
    obtain ⟨body, c₂, hbody, h⟩ := bind_ok.1 h
    obtain ⟨rfl, rfl⟩ := pure_ok.1 h
    obtain ⟨word, hw, h₁⟩ := expect_ok hword
    obtain ⟨us, h₂, hus⟩ := hblock c₁ body c₂ (h₁.lexed hc) hbody
    refine ⟨word :: us, by simp, ?_, .inl ⟨hsees, .default hw hus⟩⟩
    simpa [Case.nodesOfList, Expr.nodesOfOption] using h₁.trans h₂

/-- The bound on the arms is met: each arm reads a token, so the arms end before it
does. -/
theorem casesWithin_sound (n : Nat) :
    ∀ {c : Cursor} {arms : List Case} {c' : Cursor}, c.Lexed → c.rest.length ≤ n →
      casesWithin block n c = .ok arms c' →
        ∃ ts, Spans c c' ts (Case.nodesOfList arms) ∧ Cases ts arms := by
  induction n with
  | zero =>
    intro c arms c' hc hn h
    obtain ⟨arm, c₁, harm, -⟩ := bind_ok.1 h
    obtain ⟨ts, hne, h₁, -⟩ := caseOver_ok hblock hc harm
    have hlen := h₁.length
    have := List.length_pos_iff.2 hne
    omega
  | succ n ih =>
    intro c arms c' hc hn h
    rcases ifPeek_ok h with ⟨hsees, h⟩ | ⟨hsees, h⟩
    · obtain ⟨arm, c₁, harm, h⟩ := bind_ok.1 h
      obtain ⟨rest, c₂, hrest, h⟩ := bind_ok.1 h
      obtain ⟨rfl, rfl⟩ := pure_ok.1 h
      obtain ⟨ts, hne, h₁, ⟨hno, -⟩ | ⟨-, hts⟩⟩ := caseOver_ok hblock hc harm
      · simp [hsees] at hno
      · have hlen := h₁.length
        have := List.length_pos_iff.2 hne
        obtain ⟨us, h₂, hus⟩ := ih (h₁.lexed hc) (by omega) hrest
        refine ⟨ts ++ us, ?_, hts us rest hus⟩
        obtain ⟨value, body⟩ := arm
        simpa [Case.nodesOfList] using h₁.trans h₂
    · obtain ⟨arm, c₁, harm, h⟩ := bind_ok.1 h
      obtain ⟨rfl, rfl⟩ := pure_ok.1 h
      obtain ⟨ts, -, h₁, ⟨-, hts⟩ | ⟨hyes, -⟩⟩ := caseOver_ok hblock hc harm
      · exact ⟨ts, h₁, hts⟩
      · simp [hsees] at hyes

/-- A `SWITCH` is spelled by what was read; its last arm is the first that does not start with
`CASE`. -/
theorem switchOver_sound : Sound (switchOver block) Statement Stmt.nodes := by
  intro c s c' hc h
  obtain ⟨_, c₁, hword, h⟩ := bind_ok.1 h
  obtain ⟨condition, c₂, hcondition, h⟩ := bind_ok.1 h
  have h : (casesWithin block c₂.rest.length >>= _) c₂ = _ := h
  obtain ⟨arms, c₃, harms, h⟩ := bind_ok.1 h
  obtain ⟨_, c₄, hend, h⟩ := bind_ok.1 h
  obtain ⟨rfl, rfl⟩ := pure_ok.1 h
  obtain ⟨word, hw, h₁⟩ := expect_ok hword
  obtain ⟨ts, h₂, hts⟩ := expression_sound c₁ condition c₂ (h₁.lexed hc) hcondition
  obtain ⟨us, h₃, hus⟩ :=
    casesWithin_sound hblock _ (h₂.lexed (h₁.lexed hc)) (Nat.le_refl _) harms
  obtain ⟨endWord, hn, h₄⟩ := expect_ok hend
  refine ⟨_, ?_, .switch hw hts hus hn⟩
  simpa [Stmt.nodes] using h₁.trans (h₂.trans (h₃.trans h₄))

/-- Every statement, by its first word. -/
theorem statementOver_sound : Sound (statementOver block) Statement Stmt.nodes := by
  intro c s c' hc h
  rcases ifPeek_ok h with ⟨-, h⟩ | ⟨hlet, h⟩
  · exact declaration_sound c s c' hc h
  rcases ifPeek_ok h with ⟨-, h⟩ | ⟨hif, h⟩
  · exact ifOver_sound hblock c s c' hc h
  rcases ifPeek_ok h with ⟨-, h⟩ | ⟨hswitch, h⟩
  · exact switchOver_sound hblock c s c' hc h
  rcases ifPeek_ok h with ⟨-, h⟩ | ⟨hwhile, h⟩
  · exact whileOver_sound hblock c s c' hc h
  rcases ifPeek_ok h with ⟨-, h⟩ | ⟨hreturn, h⟩
  · exact returnStatement_sound c s c' hc h
  · refine expressionStatement_sound hc ?_ h
    simp [statementWords, hlet, hif, hswitch, hwhile, hreturn]

end Block

/-- Statements to some depth of blocks. -/
theorem statementWithin_sound (n : Nat) : Sound (statementWithin n) Statement Stmt.nodes := by
  induction n with
  | zero =>
    intro c s c' _ h
    cases h
  | succ n ih => exact statementOver_sound (blockOver_sound ih)

/-- Every block that is read is spelled by what was read. -/
theorem block_sound : Sound block Block Stmt.nodesOfList := fun c =>
  blockOver_sound (statementWithin_sound c.rest.length) c

/-! ### Programs -/

/-- A list, which is a global with `LIST` before it and a semicolon after it. -/
theorem listGlobal_sound {word : Token} (hw : word.literal = "LIST") :
    ∀ {c : Cursor} {g : GlobalDecl} {c' : Cursor}, c.Lexed → listGlobal c = .ok g c' →
      ∃ ts, Spans c c' ts g.nodes ∧
        ∀ semi : Token, semi.literal = ";" → Global (word :: (ts ++ [semi])) g := by
  intro c g c' hc h
  obtain ⟨name, c₁, hname, h⟩ := bind_ok.1 h
  obtain ⟨_, c₂, hcolon, h⟩ := bind_ok.1 h
  obtain ⟨typeName, c₃, htype, h⟩ := bind_ok.1 h
  obtain ⟨_, c₄, hequals, h⟩ := bind_ok.1 h
  obtain ⟨_, c₅, hbracket, h⟩ := bind_ok.1 h
  obtain ⟨es, c₆, hes, h⟩ := bind_ok.1 h
  obtain ⟨listId, c₇, hlistId, h⟩ := bind_ok.1 h
  obtain ⟨id, c₈, hid, h⟩ := bind_ok.1 h
  obtain ⟨rfl, rfl⟩ := pure_ok.1 h
  obtain ⟨t, ht, rfl, h₁⟩ := name_ok hname
  obtain ⟨colon, hco, h₂⟩ := expect_ok hcolon
  obtain ⟨type, hty, rfl, h₃⟩ := name_ok htype
  obtain ⟨equals, heq, h₄⟩ := expect_ok hequals
  obtain ⟨bracket, hb, h₅⟩ := expect_ok hbracket
  have hc₅ := h₅.lexed (h₄.lexed (h₃.lexed (h₂.lexed (h₁.lexed hc))))
  obtain ⟨ts, h₆, hts⟩ := separated_sound expression_sound _ _ c₅ es c₆ hc₅ hes
  refine ⟨t :: colon :: type :: equals :: bracket :: ts, ?_, fun semi hs => ?_⟩
  · simpa [GlobalDecl.nodes, Expr.nodesOfOption, Expr.nodes] using
      h₁.trans (h₂.trans (h₃.trans (h₄.trans (h₅.trans (h₆.trans
        ((freshId_ok hlistId).trans (freshId_ok hid)))))))
  · exact .list hw ht hco hty heq hb hts hs

/-- A variable, which is a global with `VAR` before it and a semicolon after it. -/
theorem mutableGlobal_sound {word : Token} (hw : word.literal = "VAR") :
    ∀ {c : Cursor} {g : GlobalDecl} {c' : Cursor}, c.Lexed → mutableGlobal c = .ok g c' →
      ∃ ts, Spans c c' ts g.nodes ∧
        ∀ semi : Token, semi.literal = ";" → Global (word :: (ts ++ [semi])) g := by
  intro c g c' hc h
  obtain ⟨name, c₁, hname, h⟩ := bind_ok.1 h
  obtain ⟨typeName, c₂, htype, h⟩ := bind_ok.1 h
  obtain ⟨value, c₃, hvalue, h⟩ := bind_ok.1 h
  obtain ⟨id, c₄, hid, h⟩ := bind_ok.1 h
  obtain ⟨rfl, rfl⟩ := pure_ok.1 h
  obtain ⟨t, ht, rfl, h₁⟩ := name_ok hname
  obtain ⟨ts, h₂, hts⟩ := typeAnnotation_sound c₁ typeName c₂ (h₁.lexed hc) htype
  obtain ⟨us, h₃, hus⟩ := initializer_sound c₂ value c₃ (h₂.lexed (h₁.lexed hc)) hvalue
  refine ⟨t :: (ts ++ us), ?_, fun semi hs => ?_⟩
  · simpa [GlobalDecl.nodes] using h₁.trans (h₂.trans (h₃.trans (freshId_ok hid)))
  · simpa using Global.var hw ht hts hus hs

/-- A constant, which is a global with `VAL` before it and a semicolon after it. -/
theorem immutableGlobal_sound {word : Token} (hw : word.literal = "VAL") :
    ∀ {c : Cursor} {g : GlobalDecl} {c' : Cursor}, c.Lexed → immutableGlobal c = .ok g c' →
      ∃ ts, Spans c c' ts g.nodes ∧
        ∀ semi : Token, semi.literal = ";" → Global (word :: (ts ++ [semi])) g := by
  intro c g c' hc h
  obtain ⟨name, c₁, hname, h⟩ := bind_ok.1 h
  obtain ⟨typeName, c₂, htype, h⟩ := bind_ok.1 h
  obtain ⟨_, c₃, hequals, h⟩ := bind_ok.1 h
  obtain ⟨value, c₄, hvalue, h⟩ := bind_ok.1 h
  obtain ⟨id, c₅, hid, h⟩ := bind_ok.1 h
  obtain ⟨rfl, rfl⟩ := pure_ok.1 h
  obtain ⟨t, ht, rfl, h₁⟩ := name_ok hname
  obtain ⟨ts, h₂, hts⟩ := typeAnnotation_sound c₁ typeName c₂ (h₁.lexed hc) htype
  obtain ⟨equals, heq, h₃⟩ := expect_ok hequals
  obtain ⟨us, h₄, hus⟩ :=
    expression_sound c₃ value c₄ (h₃.lexed (h₂.lexed (h₁.lexed hc))) hvalue
  refine ⟨t :: (ts ++ equals :: us), ?_, fun semi hs => ?_⟩
  · simpa [GlobalDecl.nodes, Expr.nodesOfOption] using
      h₁.trans (h₂.trans (h₃.trans (h₄.trans (freshId_ok hid))))
  · simpa using Global.val hw ht hts heq hus hs

/-- A global of any sort, up to its semicolon. -/
theorem globalBody_sound {g : GlobalDecl} (hc : c.Lexed) (h : globalBody c = .ok g c') :
    ∃ ts, Spans c c' ts g.nodes ∧
      ∀ semi : Token, semi.literal = ";" → Global (ts ++ [semi]) g := by
  rcases ifAccept_ok h with ⟨word, c₁, hw, hs, h⟩ | ⟨-, h⟩
  · obtain ⟨ts, hts, hg⟩ := listGlobal_sound hw (hs.lexed hc) h
    exact ⟨word :: ts, hs.trans hts, hg⟩
  rcases ifAccept_ok h with ⟨word, c₁, hw, hs, h⟩ | ⟨-, h⟩
  · obtain ⟨ts, hts, hg⟩ := mutableGlobal_sound hw (hs.lexed hc) h
    exact ⟨word :: ts, hs.trans hts, hg⟩
  rcases ifAccept_ok h with ⟨word, c₁, hw, hs, h⟩ | ⟨-, h⟩
  · obtain ⟨ts, hts, hg⟩ := immutableGlobal_sound hw (hs.lexed hc) h
    exact ⟨word :: ts, hs.trans hts, hg⟩
  · cases h

/-- Every global that is read is spelled by what was read. -/
theorem global_sound : Sound global Global GlobalDecl.nodes := by
  intro c g c' hc h
  obtain ⟨decl, c₁, hdecl, h⟩ := bind_ok.1 h
  obtain ⟨_, c₂, hsemi, h⟩ := bind_ok.1 h
  obtain ⟨rfl, rfl⟩ := pure_ok.1 h
  obtain ⟨ts, h₁, hg⟩ := globalBody_sound hc hdecl
  obtain ⟨semi, hs, h₂⟩ := expect_ok hsemi
  refine ⟨ts ++ [semi], ?_, hg semi hs⟩
  simpa using h₁.trans h₂

/-- Parameters and their types, up to the bracket. -/
theorem parametersWithin_sound (n : Nat) :
    Sound (parametersWithin n) SeveralParameters (fun _ => []) := by
  induction n with
  | zero =>
    intro c ps c' _ h
    cases h
  | succ n ih =>
    intro c ps c' hc h
    obtain ⟨parameter, c₁, hparameter, h⟩ := bind_ok.1 h
    obtain ⟨_, c₂, hcolon, h⟩ := bind_ok.1 h
    obtain ⟨typeName, c₃, htype, h⟩ := bind_ok.1 h
    obtain ⟨t, ht, rfl, h₁⟩ := name_ok hparameter
    obtain ⟨colon, hco, h₂⟩ := expect_ok hcolon
    obtain ⟨type, hty, rfl, h₃⟩ := name_ok htype
    rcases ifAccept_ok h with ⟨close, c₄, hcl, h₄, h⟩ | ⟨-, h⟩
    · obtain ⟨rfl, rfl⟩ := pure_ok.1 h
      exact ⟨_, h₁.trans (h₂.trans (h₃.trans h₄)), .last ht hco hty hcl⟩
    · obtain ⟨_, c₄, hcomma, h⟩ := bind_ok.1 h
      obtain ⟨rest, c₅, hrest, h⟩ := bind_ok.1 h
      obtain ⟨rfl, rfl⟩ := pure_ok.1 h
      obtain ⟨comma, hcm, h₄⟩ := expect_ok hcomma
      have hc₄ := h₄.lexed (h₃.lexed (h₂.lexed (h₁.lexed hc)))
      obtain ⟨ts, h₅, hts⟩ := ih c₄ rest c₅ hc₄ hrest
      exact ⟨_, h₁.trans (h₂.trans (h₃.trans (h₄.trans h₅))), .more ht hco hty hcm hts⟩

/-- The parameters of a function, after its opening parenthesis; `tail` reads what
follows them. -/
theorem parameters_ok {tail : List (String × String) → Rule α} {x : α} (hc : c.Lexed)
    (h : (do if ← accept ")" then pure [] >>= tail
             else remaining >>= fun n => parametersWithin n >>= tail : Rule α) c = .ok x c') :
    ∃ ts ps c₁, Parameters ts ps ∧ Spans c c₁ ts [] ∧ tail ps c₁ = .ok x c' := by
  rcases ifAccept_ok h with ⟨close, c₁, hcl, hs, h⟩ | ⟨-, h⟩
  · exact ⟨[close], [], c₁, .none hcl, hs, h⟩
  · have h : (parametersWithin c.rest.length >>= tail) c = _ := h
    obtain ⟨ps, c₁, hps, h⟩ := bind_ok.1 h
    obtain ⟨ts, hts, hspells⟩ := parametersWithin_sound _ c ps c₁ hc hps
    exact ⟨ts, ps, c₁, .some hspells, hts, h⟩

/-- Every function that is read is spelled by what was read. -/
theorem function_sound : Sound function Function FunctionDecl.nodes := by
  intro c f c' hc h
  obtain ⟨_, c₁, hword, h⟩ := bind_ok.1 h
  obtain ⟨name, c₂, hname, h⟩ := bind_ok.1 h
  obtain ⟨_, c₃, hopen, h⟩ := bind_ok.1 h
  obtain ⟨word, hw, h₁⟩ := expect_ok hword
  obtain ⟨t, ht, rfl, h₂⟩ := name_ok hname
  obtain ⟨parenthesis, hp, h₃⟩ := expect_ok hopen
  have hc₃ := h₃.lexed (h₂.lexed (h₁.lexed hc))
  obtain ⟨ts, parameters, c₄, hts, h₄, h⟩ := parameters_ok hc₃ h
  obtain ⟨typeName, c₅, htype, h⟩ := bind_ok.1 h
  obtain ⟨_, c₆, hdo, h⟩ := bind_ok.1 h
  obtain ⟨body, c₇, hbody, h⟩ := bind_ok.1 h
  obtain ⟨_, c₈, hend, h⟩ := bind_ok.1 h
  obtain ⟨id, c₉, hid, h⟩ := bind_ok.1 h
  obtain ⟨rfl, rfl⟩ := pure_ok.1 h
  obtain ⟨us, h₅, hus⟩ := typeAnnotation_sound c₄ typeName c₅ (h₄.lexed hc₃) htype
  obtain ⟨doWord, hd, h₆⟩ := expect_ok hdo
  obtain ⟨vs, h₇, hvs⟩ := block_sound c₆ body c₇ (h₆.lexed (h₅.lexed (h₄.lexed hc₃))) hbody
  obtain ⟨endWord, hn, h₈⟩ := expect_ok hend
  refine ⟨_, ?_, .mk hw ht hp hts hus hd hvs hn⟩
  simpa [FunctionDecl.nodes] using
    h₁.trans (h₂.trans (h₃.trans (h₄.trans (h₅.trans (h₆.trans (h₇.trans
      (h₈.trans (freshId_ok hid))))))))

/-- A program is read to the end of the tokens.  Its nodes are numbered in the order
of the text, in which globals and functions may be mixed. -/
theorem sourceWithin_sound (n : Nat) :
    ∀ {c : Cursor} {p : Source} {c' : Cursor}, c.Lexed → c.rest.length ≤ n →
      sourceWithin n c = .ok p c' →
        c'.rest = [] ∧ ∃ ts ids, Spans c c' ts ids ∧ ids.Perm p.nodes ∧ Program ts p := by
  induction n with
  | zero =>
    intro c p c' _ hn h
    cases h
    exact ⟨List.eq_nil_of_length_eq_zero (by omega), [], [], Spans.refl c, .nil, .nil⟩
  | succ n ih =>
    intro c p c' hc hn h
    obtain ⟨done, c₁, hdone, h⟩ := bind_ok.1 h
    cases hdone
    cases hd : c.isDone with
    | true =>
      rw [hd] at h
      cases h
      exact ⟨List.isEmpty_iff.1 hd, [], [], Spans.refl c, .nil, .nil⟩
    | false =>
      rw [hd] at h
      have h : (if (c.sees "LIST" || c.sees "VAR" || c.sees "VAL") = true then _ else _ : Rule _) c
        = _ := h
      split at h
      · obtain ⟨first, c₁, hfirst, h⟩ := bind_ok.1 h
        obtain ⟨rest, c₂, hrest, h⟩ := bind_ok.1 h
        obtain ⟨rfl, rfl⟩ := pure_ok.1 h
        obtain ⟨ts, h₁, hts⟩ := global_sound c first c₁ hc hfirst
        have hlen := h₁.length
        have := List.length_pos_iff.2 hts.ne_nil
        obtain ⟨hnil, us, ids, h₂, hids, hus⟩ := ih (h₁.lexed hc) (by omega) hrest
        refine ⟨hnil, ts ++ us, first.nodes ++ ids, h₁.trans h₂, ?_, .global hts hus⟩
        simpa [Source.nodes] using hids.append_left first.nodes
      · rcases ifPeek_ok h with ⟨-, h⟩ | ⟨-, h⟩
        · obtain ⟨first, c₁, hfirst, h⟩ := bind_ok.1 h
          obtain ⟨rest, c₂, hrest, h⟩ := bind_ok.1 h
          obtain ⟨rfl, rfl⟩ := pure_ok.1 h
          obtain ⟨ts, h₁, hts⟩ := function_sound c first c₁ hc hfirst
          have hlen := h₁.length
          have := List.length_pos_iff.2 hts.ne_nil
          obtain ⟨hnil, us, ids, h₂, hids, hus⟩ := ih (h₁.lexed hc) (by omega) hrest
          refine ⟨hnil, ts ++ us, first.nodes ++ ids, h₁.trans h₂, ?_, .function hts hus⟩
          refine (hids.append_left first.nodes).trans ?_
          simpa [Source.nodes] using List.perm_append_comm_assoc ..
        · cases h

/-- **A program that is read is in the grammar**, with nodes numbered one after the
other. -/
theorem source_sound {tokens : List Token} {n : NodeId} {p : Source} {c : Cursor}
    (ht : ∀ t ∈ tokens, t.Lexed) (h : source (.ofTokens tokens n) = .ok p c) :
    Program tokens p ∧ p.nodes.Perm (List.range' n p.nodes.length) := by
  have hc : (Cursor.ofTokens tokens n).Lexed := ht
  obtain ⟨hnil, ts, ids, hts, hids, hp⟩ := sourceWithin_sound _ hc (Nat.le_refl _) h
  have hreads : tokens = ts := by simpa [hnil, Cursor.ofTokens] using hts.reads
  refine ⟨hreads ▸ hp, ?_⟩
  rw [← hids.length_eq]
  exact hids.symm.trans (.of_eq hts.numbers)

end Rule
end Scriptlet
