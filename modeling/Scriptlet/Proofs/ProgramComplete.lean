import Scriptlet.Proofs.ParseComplete
import Scriptlet.Proofs.ProgramSound

/-!
# The programs that are read are those of the grammar

Statements, globals and functions end with a token of their own, so they are read
whatever follows; a block is read up to a word that ends it, and a program up to the
end of the tokens.  Together with soundness this makes reading exact, and since a
rule has one result, no list of tokens spells two programs.
-/

namespace Scriptlet

open Grammar

namespace Rule

variable {ts us follow : List Token} {t : Token}

/-! ### Statements -/

/-- A type is read, or there is none if no colon comes next. -/
theorem typeAnnotation_reads {typeName : Option String} (h : Annotation ts typeName)
    (hfollow : ¬ StartsWith [":"] follow) : Reads typeAnnotation ts follow (· = typeName) := by
  cases h with
  | none => exact .ifNotAccept hfollow (.pure rfl)
  | some hcolon ht =>
    refine .ifAccept hcolon (.map (.name ht) ?_)
    rintro _ rfl
    rfl

/-- A value is read, or there is none if no `=` comes next. -/
theorem initializer_reads {value : Option Expr} (h : Initializer ts value)
    (hclosed : Closed 0 follow) (hfollow : ¬ StartsWith ["="] follow) :
    Reads initializer ts follow (·.map Expr.unnumbered = value.map Expr.unnumbered) := by
  cases h with
  | none => exact .ifNotAccept hfollow (.pure rfl)
  | some hequals he =>
    refine .ifAccept hequals (.map (expression_reads he hclosed) ?_)
    intro e' he'
    rw [Option.map_some, Option.map_some, he']

/-- After the type of a declaration no colon can come. -/
theorem Initializer.not_colon {value : Option Expr} (h : Initializer us value)
    (ht : t.literal = ";") : ¬ StartsWith [":"] (us ++ t :: follow) := by
  cases h with
  | none => exact not_startsWith_cons ht (by decide)
  | some hequals => exact not_startsWith_cons hequals (by decide)

/-- A declaration is read up to its semicolon. -/
theorem declaration_reads {word name semicolon : Token} {id : NodeId} {typeName : Option String}
    {value : Option Expr} (hw : word.literal = "LET") (hname : name.kind = .identifier)
    (hts : Annotation ts typeName) (hus : Initializer us value) (hs : semicolon.literal = ";") :
    Reads declaration (word :: name :: (ts ++ (us ++ [semicolon]))) follow
      (·.unnumbered = (Stmt.declaration id name.literal typeName value).unnumbered) := by
  refine .cons (.expect hw) fun _ _ => .cons (.name hname) ?_
  rintro _ rfl
  have hcolon : ¬ StartsWith [":"] (us ++ [semicolon] ++ follow) := by
    rw [List.append_assoc]
    exact Initializer.not_colon hus hs
  refine .bind (typeAnnotation_reads hts hcolon) ?_
  rintro _ rfl
  refine .bind (initializer_reads hus (closed_cons hs (by decide))
    (not_startsWith_cons hs (by decide))) fun value' hvalue' => ?_
  refine .cons (.expect hs) fun _ _ => .last .freshId fun id' _ => .pure ?_
  simp only [Stmt.unnumbered, hvalue']

/-- `block` reads the blocks of at most `n` tokens, up to a word that ends them. -/
def CompleteBlock (block : Rule (List Stmt)) (n : Nat) : Prop :=
  ∀ ⦃ts body follow⦄, Block ts body → ts.length ≤ n → StartsWith blockEnds follow →
    Reads block ts follow (Stmt.unnumberedList · = Stmt.unnumberedList body)

/-- `statement` reads the statements of at most `n` tokens, whatever follows. -/
def CompleteStatement (statement : Rule Stmt) (n : Nat) : Prop :=
  ∀ ⦃ts s follow⦄, Statement ts s → ts.length ≤ n →
    Reads statement ts follow (·.unnumbered = s.unnumbered)

/-- Tokens that start with one of the words. -/
theorem startsWith_of_mem {words : List String} {literal : String} (ht : t.literal = literal)
    (h : literal ∈ words) : StartsWith words (t :: ts) := startsWith_cons.2 (ht ▸ h)

section Block

variable {block : Rule (List Stmt)} {n : Nat} (hblock : CompleteBlock block n)
include hblock

/-- An `IF` without `ELSE` is read up to its `END`. -/
theorem ifOver_reads {word doWord endWord : Token} {condition : Expr} {thenBody : List Stmt}
    (hw : word.literal = "IF") (hts : Expression ts condition) (hd : doWord.literal = "DO")
    (hus : Block us thenBody) (hlen : us.length ≤ n) (he : endWord.literal = "END") :
    Reads (ifOver block) (word :: (ts ++ doWord :: (us ++ [endWord]))) follow
      (·.unnumbered = (Stmt.ifElse condition thenBody []).unnumbered) := by
  refine .cons (.expect hw) fun _ _ => ?_
  refine .bind (expression_reads hts (closed_cons hd (by decide))) fun condition' hcondition => ?_
  refine .cons (.expect hd) fun _ _ => ?_
  refine .bind (hblock hus hlen (startsWith_of_mem he (by decide))) fun body' hbody => ?_
  refine .ifNotAccept (not_startsWith_cons he (by decide)) (.stay (.pure rfl) ?_)
  rintro _ rfl
  refine .cons (.expect he) fun _ _ => .pure ?_
  simp only [Stmt.unnumbered, hcondition, hbody]

/-- An `IF` with `ELSE` is read up to its `END`. -/
theorem ifOver_reads_else {word doWord elseWord endWord : Token} {vs : List Token}
    {condition : Expr} {thenBody elseBody : List Stmt} (hw : word.literal = "IF")
    (hts : Expression ts condition) (hd : doWord.literal = "DO") (hus : Block us thenBody)
    (hulen : us.length ≤ n) (hl : elseWord.literal = "ELSE") (hvs : Block vs elseBody)
    (hvlen : vs.length ≤ n) (he : endWord.literal = "END") :
    Reads (ifOver block) (word :: (ts ++ doWord :: (us ++ elseWord :: (vs ++ [endWord])))) follow
      (·.unnumbered = (Stmt.ifElse condition thenBody elseBody).unnumbered) := by
  refine .cons (.expect hw) fun _ _ => ?_
  refine .bind (expression_reads hts (closed_cons hd (by decide))) fun condition' hcondition => ?_
  refine .cons (.expect hd) fun _ _ => ?_
  refine .bind (hblock hus hulen (startsWith_of_mem hl (by decide))) fun body' hbody => ?_
  refine .ifAccept hl ?_
  refine .bind (hblock hvs hvlen (startsWith_of_mem he (by decide))) fun body'' hbody' => ?_
  refine .cons (.expect he) fun _ _ => .pure ?_
  simp only [Stmt.unnumbered, hcondition, hbody, hbody']

/-- A `WHILE` is read up to its `END`. -/
theorem whileOver_reads {word doWord endWord : Token} {condition : Expr} {body : List Stmt}
    (hw : word.literal = "WHILE") (hts : Expression ts condition) (hd : doWord.literal = "DO")
    (hus : Block us body) (hlen : us.length ≤ n) (he : endWord.literal = "END") :
    Reads (whileOver block) (word :: (ts ++ doWord :: (us ++ [endWord]))) follow
      (·.unnumbered = (Stmt.whileDo condition body).unnumbered) := by
  refine .cons (.expect hw) fun _ _ => ?_
  refine .bind (expression_reads hts (closed_cons hd (by decide))) fun condition' hcondition => ?_
  refine .cons (.expect hd) fun _ _ => ?_
  refine .bind (hblock hus hlen (startsWith_of_mem he (by decide))) fun body' hbody => ?_
  refine .cons (.expect he) fun _ _ => .pure ?_
  simp only [Stmt.unnumbered, hcondition, hbody]

/-- An arm is read up to the word that ends its body. -/
theorem caseOver_reads {word colon : Token} {value : Expr} {body : List Stmt}
    (hw : word.literal = "CASE") (hts : Expression ts value) (hc : colon.literal = ":")
    (hus : Block us body) (hlen : us.length ≤ n) (hfollow : StartsWith blockEnds follow) :
    Reads (caseOver block) (word :: (ts ++ colon :: us)) follow
      (fun arm => Case.unnumberedList [arm] = Case.unnumberedList [.mk (some value) body]) := by
  refine .ifAccept hw ?_
  refine .bind (expression_reads hts (closed_cons hc (by decide))) fun value' hvalue => ?_
  refine .cons (.expect hc) fun _ _ => ?_
  refine .last (hblock hus hlen hfollow) fun body' hbody => .pure ?_
  simp only [Case.unnumberedList, Option.map_some, hvalue, hbody]

/-- The last arm is read up to the word that ends its body. -/
theorem caseOver_reads_default {word : Token} {body : List Stmt} (hw : word.literal = "DEFAULT")
    (hus : Block us body) (hlen : us.length ≤ n) (hfollow : StartsWith blockEnds follow) :
    Reads (caseOver block) (word :: us) follow
      (fun arm => Case.unnumberedList [arm] = Case.unnumberedList [.mk none body]) := by
  refine .ifNotAccept (not_startsWith_cons hw (by decide)) (.cons (.expect hw) fun _ _ => ?_)
  refine .last (hblock hus hlen hfollow) fun body' hbody => .pure ?_
  simp only [Case.unnumberedList, hbody]

/-- Arms are read up to the word that ends the body of the last one. -/
theorem casesWithin_reads (m : Nat) :
    ∀ {ts : List Token} {arms : List Case}, Cases ts arms → ts.length ≤ n → ts.length ≤ m →
      StartsWith blockEnds follow →
        Reads (casesWithin block m) ts follow
          (Case.unnumberedList · = Case.unnumberedList arms) := by
  induction m with
  | zero =>
    intro ts arms h _ hm _
    obtain ⟨t, rest, rfl, -⟩ := h.head
    simp at hm
  | succ m ih =>
    intro ts arms h hn hm hfollow
    cases h with
    | @default word us body hw hus =>
      rw [List.length_cons] at hn
      refine .ifNotPeek (not_startsWith_cons hw (by decide)) ?_
      exact .last (caseOver_reads_default hblock hw hus (by omega) hfollow) fun _ h => .pure h
    | @case word colon ts us vs value body rest hw hts hc hus hvs =>
      simp only [List.length_cons, List.length_append] at hn hm
      -- the next arm ends the block of this one
      have hends : StartsWith blockEnds (vs ++ follow) := by
        obtain ⟨t, rest, rfl, ht | ht⟩ := hvs.head
        · exact startsWith_of_mem ht (by decide)
        · exact startsWith_of_mem ht (by decide)
      have hsplit : word :: (ts ++ colon :: (us ++ vs)) = word :: (ts ++ colon :: us) ++ vs := by
        simp
      refine .ifPeek (startsWith_of_mem hw (by decide)) ?_
      rw [hsplit]
      refine .bind (caseOver_reads hblock hw hts hc hus (by omega) hends) fun arm harm => ?_
      refine .last (ih hvs (by omega) (by omega) hfollow) fun rest' hrest => .pure ?_
      obtain ⟨value', body'⟩ := arm
      simp only [Case.unnumberedList, List.cons.injEq, and_true] at harm
      simp only [Case.unnumberedList, harm, hrest]

/-- A `SWITCH` is read up to its `END`. -/
theorem switchOver_reads {word endWord : Token} {condition : Expr} {arms : List Case}
    (hw : word.literal = "SWITCH") (hts : Expression ts condition) (hus : Cases us arms)
    (hlen : us.length ≤ n) (he : endWord.literal = "END") :
    Reads (switchOver block) (word :: (ts ++ (us ++ [endWord]))) follow
      (·.unnumbered = (Stmt.switch condition arms).unnumbered) := by
  have hclosed : Closed 0 (us ++ [endWord] ++ follow) := by
    obtain ⟨t, rest, rfl, ht | ht⟩ := hus.head
    · exact closed_cons ht (by decide)
    · exact closed_cons ht (by decide)
  refine .cons (.expect hw) fun _ _ => ?_
  refine .bind (expression_reads hts hclosed) fun condition' hcondition => .remaining ?_
  have hends : StartsWith blockEnds ([endWord] ++ follow) := startsWith_of_mem he (by decide)
  refine .bind (casesWithin_reads hblock _ hus hlen (by simp) hends) fun arms' harms => ?_
  refine .cons (.expect he) fun _ _ => .pure ?_
  simp only [Stmt.unnumbered, hcondition, harms]

omit hblock in
/-- Statements that start with no word of their own are left to the rule for expressions. -/
theorem statementOver_other {P : Stmt → Prop} (hne : ts ≠ [])
    (hwords : ¬ StartsWith statementWords ts) (h : Reads expressionStatement (ts ++ us) follow P) :
    Reads (statementOver block) (ts ++ us) follow P := by
  have hpeek : ∀ w ∈ statementWords, ¬ StartsWith [w] (ts ++ us ++ follow) := by
    intro w hw hs
    rw [List.append_assoc, startsWith_append hne] at hs
    obtain ⟨t, rest, rfl, ht⟩ := hs
    exact hwords (startsWith_of_mem (List.mem_singleton.1 ht) hw)
  refine .ifNotPeek (hpeek _ (by decide)) (.ifNotPeek (hpeek _ (by decide)) ?_)
  refine .ifNotPeek (hpeek _ (by decide)) (.ifNotPeek (hpeek _ (by decide)) ?_)
  exact .ifNotPeek (hpeek _ (by decide)) h

/-- Statements are read, if the blocks in them are. -/
theorem statementOver_complete : CompleteStatement (statementOver block) (n + 1) := by
  intro ts s follow h hn
  cases h with
  | @expression ts semicolon e hwords he hs =>
    refine statementOver_other he.ne_nil hwords ?_
    refine .bind (expression_reads he (closed_cons hs (by decide))) fun e' he' => ?_
    refine .ifNotAccept (not_startsWith_cons hs (by decide)) ?_
    refine .cons (.expect hs) fun _ _ => .pure ?_
    simp only [Stmt.unnumbered, he']
  | @assignment ts us equals semicolon receiver value hwords hr hq hv hs =>
    refine statementOver_other hr.ne_nil hwords ?_
    refine .bind (expression_reads hr (closed_cons hq (by decide))) fun r' hr' => ?_
    refine .ifAccept hq ?_
    refine .bind (expression_reads hv (closed_cons hs (by decide))) fun v' hv' => ?_
    refine .cons (.expect hs) fun _ _ => .pure ?_
    simp only [Stmt.unnumbered, hr', hv']
  | declaration hw hname hts hus hs =>
    exact .ifPeek (startsWith_of_mem hw (by decide)) (declaration_reads hw hname hts hus hs)
  | @ifThen _ _ _ ts us _ _ hw hts hd hus he =>
    simp only [List.length_cons, List.length_append] at hn
    refine .ifNotPeek (not_startsWith_cons hw (by decide)) ?_
    refine .ifPeek (startsWith_of_mem hw (by decide)) ?_
    exact ifOver_reads hblock hw hts hd hus (by omega) he
  | @ifElse _ _ _ _ ts us vs _ _ _ hw hts hd hus hl hvs he =>
    simp only [List.length_cons, List.length_append] at hn
    refine .ifNotPeek (not_startsWith_cons hw (by decide)) ?_
    refine .ifPeek (startsWith_of_mem hw (by decide)) ?_
    exact ifOver_reads_else hblock hw hts hd hus (by omega) hl hvs (by omega) he
  | @switch _ _ ts us _ _ hw hts hus he =>
    simp only [List.length_cons, List.length_append] at hn
    refine .ifNotPeek (not_startsWith_cons hw (by decide)) ?_
    refine .ifNotPeek (not_startsWith_cons hw (by decide)) ?_
    refine .ifPeek (startsWith_of_mem hw (by decide)) ?_
    exact switchOver_reads hblock hw hts hus (by omega) he
  | @whileDo _ _ _ ts us _ _ hw hts hd hus he =>
    simp only [List.length_cons, List.length_append] at hn
    refine .ifNotPeek (not_startsWith_cons hw (by decide)) ?_
    refine .ifNotPeek (not_startsWith_cons hw (by decide)) ?_
    refine .ifNotPeek (not_startsWith_cons hw (by decide)) ?_
    refine .ifPeek (startsWith_of_mem hw (by decide)) ?_
    exact whileOver_reads hblock hw hts hd hus (by omega) he
  | returnWith hw hts hs =>
    refine .ifNotPeek (not_startsWith_cons hw (by decide)) ?_
    refine .ifNotPeek (not_startsWith_cons hw (by decide)) ?_
    refine .ifNotPeek (not_startsWith_cons hw (by decide)) ?_
    refine .ifNotPeek (not_startsWith_cons hw (by decide)) ?_
    refine .ifPeek (startsWith_of_mem hw (by decide)) (.cons (.expect hw) fun _ _ => ?_)
    refine .bind (expression_reads hts (closed_cons hs (by decide))) fun value' hvalue => ?_
    refine .cons (.expect hs) fun _ _ => .pure ?_
    simp only [Stmt.unnumbered, hvalue]

end Block

/-- The end of a block is seen without reading it. -/
theorem Reads.peekBlockEnd :
    Reads Rule.peekBlockEnd [] follow (· = true ↔ StartsWith blockEnds follow) := by
  intro c _ hrest
  have hr : c.rest = follow := hrest
  refine ⟨_, c, rfl, hr, ?_⟩
  subst hr
  cases h : c.rest with
  | nil => simp [Cursor.sees, h, StartsWith]
  | cons t rest => simp [Cursor.sees, h, startsWith_cons, blockEnds]

/-- The end of the tokens is seen. -/
theorem Reads.atEnd : Reads Rule.atEnd [] follow (· = true ↔ follow = []) := by
  intro c _ hrest
  have hr : c.rest = follow := hrest
  refine ⟨_, c, rfl, hr, ?_⟩
  subst hr
  exact List.isEmpty_iff

/-- Statements are read up to the word that ends their block. -/
theorem blockWithin_reads {statement : Rule Stmt} {n : Nat}
    (hstatement : CompleteStatement statement n) (m : Nat) :
    ∀ {ts : List Token} {body : List Stmt}, Block ts body → ts.length ≤ n → ts.length < m →
      StartsWith blockEnds follow →
        Reads (blockWithin statement m) ts follow
          (Stmt.unnumberedList · = Stmt.unnumberedList body) := by
  induction m with
  | zero =>
    intro ts body _ _ hm
    exact absurd hm (Nat.not_lt_zero _)
  | succ m ih =>
    intro ts body h hn hm hfollow
    cases h with
    | nil =>
      refine .stay .peekBlockEnd fun b hb => ?_
      rw [hb.2 hfollow]
      exact .pure rfl
    | @cons ts us s rest hends hs hrest =>
      have hpos := List.length_pos_iff.2 hs.ne_nil
      rw [List.length_append] at hn hm
      refine .stay .peekBlockEnd fun b hb => ?_
      rw [List.append_assoc, startsWith_append hs.ne_nil] at hb
      rw [Bool.eq_false_iff.2 (mt hb.1 hends)]
      refine .stay .atEnd fun b hb => ?_
      have hne : ts ++ us ++ follow ≠ [] := by simp [hs.ne_nil]
      rw [Bool.eq_false_iff.2 (mt hb.1 hne)]
      refine .bind (hstatement hs (by omega)) fun s' hs' => ?_
      refine .last (ih hrest (by omega) (by omega) hfollow) fun rest' hrest' => .pure ?_
      simp only [Stmt.unnumberedList, hs', hrest']

/-- Blocks are read, if their statements are. -/
theorem blockOver_complete {statement : Rule Stmt} {n : Nat}
    (hstatement : CompleteStatement statement n) : CompleteBlock (blockOver statement) n := by
  intro ts body follow h hn hfollow
  refine .remaining (blockWithin_reads hstatement _ h hn ?_ hfollow)
  obtain ⟨t, rest, rfl, -⟩ := hfollow
  simp only [List.length_append, List.length_cons]
  omega

/-- Statements are read to a depth of blocks that is no less than the number of tokens. -/
theorem statementWithin_complete (n : Nat) : CompleteStatement (statementWithin n) n := by
  induction n with
  | zero =>
    intro ts s follow h hn
    exact absurd (List.eq_nil_of_length_eq_zero (Nat.le_zero.1 hn)) h.ne_nil
  | succ n ih => exact statementOver_complete (blockOver_complete ih)

/-- A block is read up to the word that ends it. -/
theorem block_reads {body : List Stmt} (h : Block ts body) (hfollow : StartsWith blockEnds follow) :
    Reads block ts follow (Stmt.unnumberedList · = Stmt.unnumberedList body) :=
  .remaining (blockOver_complete (statementWithin_complete _) h (by simp) hfollow)

/-! ### Programs -/

/-- A global is read up to its semicolon. -/
theorem global_reads {g : GlobalDecl} (h : Global ts g) :
    Reads global ts follow (·.unnumbered = g.unnumbered) := by
  cases h with
  | @list word name colon type equals bracket semicolon ts _ _ es hw hname hc htype hq hb hts hs =>
    have hsplit : word :: name :: colon :: type :: equals :: bracket :: (ts ++ [semicolon]) =
        word :: name :: colon :: type :: equals :: bracket :: ts ++ [semicolon] := rfl
    rw [hsplit]
    refine .bind ?_ fun g' hg' => .cons (.expect hs) fun _ _ => .pure hg'
    refine .ifAccept hw (.cons (.name hname) ?_)
    rintro _ rfl
    refine .cons (.expect hc) fun _ _ => .cons (.name htype) ?_
    rintro _ rfl
    refine .cons (.expect hq) fun _ _ => .cons (.expect hb) fun _ _ => ?_
    have hexpression : Complete expression Expression ts.length 0 := fun _ _ _ he _ hclosed =>
      expression_reads he hclosed
    refine .last (separated_reads hexpression (.inr rfl) hts (Nat.le_refl _)) fun es' hes => ?_
    refine .last .freshId fun listId _ => .last .freshId fun id _ => .pure ?_
    simp only [GlobalDecl.unnumbered, Option.map_some, Expr.unnumbered, hes]
  | @var word name semicolon ts us _ typeName value hw hname hts hus hs =>
    have hsplit : word :: name :: (ts ++ (us ++ [semicolon])) =
        word :: name :: (ts ++ us) ++ [semicolon] := by simp
    rw [hsplit]
    refine .bind ?_ fun g' hg' => .cons (.expect hs) fun _ _ => .pure hg'
    refine .ifNotAccept (not_startsWith_cons hw (by decide)) (.ifAccept hw (.cons (.name hname) ?_))
    rintro _ rfl
    refine .bind (typeAnnotation_reads hts (Initializer.not_colon hus hs)) ?_
    rintro _ rfl
    refine .last (initializer_reads hus (closed_cons hs (by decide))
      (not_startsWith_cons hs (by decide))) fun value' hvalue => ?_
    refine .last .freshId fun id _ => .pure ?_
    simp only [GlobalDecl.unnumbered, hvalue]
  | @val word name equals semicolon ts us _ typeName value hw hname hts hq hus hs =>
    have hsplit : word :: name :: (ts ++ equals :: (us ++ [semicolon])) =
        word :: name :: (ts ++ equals :: us) ++ [semicolon] := by simp
    rw [hsplit]
    refine .bind ?_ fun g' hg' => .cons (.expect hs) fun _ _ => .pure hg'
    refine .ifNotAccept (not_startsWith_cons hw (by decide)) ?_
    refine .ifNotAccept (not_startsWith_cons hw (by decide)) (.ifAccept hw (.cons (.name hname) ?_))
    rintro _ rfl
    refine .bind (typeAnnotation_reads hts (not_startsWith_cons hq (by decide))) ?_
    rintro _ rfl
    refine .cons (.expect hq) fun _ _ => ?_
    refine .last (expression_reads hus (closed_cons hs (by decide))) fun value' hvalue => ?_
    refine .last .freshId fun id _ => .pure ?_
    simp only [GlobalDecl.unnumbered, Option.map_some, hvalue]

/-- Parameters are read up to the bracket. -/
theorem parametersWithin_reads (m : Nat) :
    ∀ {ts : List Token} {ps : List (String × String)}, SeveralParameters ts ps → ts.length ≤ m →
      Reads (parametersWithin m) ts follow (· = ps) := by
  induction m with
  | zero =>
    intro ts ps h hm
    cases h with
    | last => simp at hm
    | more => simp at hm
  | succ m ih =>
    intro ts ps h hm
    cases h with
    | last hname hc htype hclose =>
      refine .cons (.name hname) ?_
      rintro _ rfl
      refine .cons (.expect hc) fun _ _ => .cons (.name htype) ?_
      rintro _ rfl
      exact .ifAccept hclose (.pure rfl)
    | @more name colon type comma ts ps hname hc htype hcomma hts =>
      simp only [List.length_cons] at hm
      refine .cons (.name hname) ?_
      rintro _ rfl
      refine .cons (.expect hc) fun _ _ => .cons (.name htype) ?_
      rintro _ rfl
      refine .ifNotAccept (not_startsWith_cons hcomma (by decide)) ?_
      refine .cons (.expect hcomma) fun _ _ => .last (ih hts (by omega)) ?_
      rintro _ rfl
      exact .pure rfl

/-- A closing parenthesis is no name, so it ends parameters that have not begun. -/
theorem SeveralParameters.not_close {ps : List (String × String)} (h : SeveralParameters ts ps)
    (hts : ∀ t ∈ ts, t.Lexed) : ¬ StartsWith [")"] (ts ++ us) := by
  have hname : ∃ t rest, ts = t :: rest ∧ t.kind = .identifier := by
    cases h with
    | last hname => exact ⟨_, _, rfl, hname⟩
    | more hname => exact ⟨_, _, rfl, hname⟩
  obtain ⟨t, rest, rfl, ht⟩ := hname
  rw [List.cons_append, startsWith_cons, List.mem_singleton]
  intro hl
  rw [(hts t List.mem_cons_self).kind_eq hl] at ht
  revert ht
  decide

/-- Parameters are read, or there are none, and the rule goes on after the bracket. -/
theorem parameters_reads {α : Type} {tail : List (String × String) → Rule α} {P : α → Prop}
    {ps : List (String × String)} (h : Parameters ts ps) (htail : Reads (tail ps) us follow P) :
    Reads (do if ← accept ")" then pure [] >>= tail
              else remaining >>= fun n => parametersWithin n >>= tail) (ts ++ us) follow P := by
  cases h with
  | none hclose =>
    refine .ifAccept hclose (.stay (.pure rfl) ?_)
    rintro _ rfl
    exact htail
  | some h =>
    refine .of_lexed fun hlexed => .ifNotAccept ?_ (.remaining ?_)
    · rw [List.append_assoc]
      exact SeveralParameters.not_close h fun t ht => hlexed t (List.mem_append_left _ ht)
    · refine .bind (parametersWithin_reads _ h (by simp)) ?_
      rintro _ rfl
      exact htail

/-- A function is read up to its `END`. -/
theorem function_reads {f : FunctionDecl} (h : Function ts f) :
    Reads function ts follow (·.unnumbered = f.unnumbered) := by
  obtain ⟨hw, hname, hp, hts, hus, hd, hvs, he⟩ := h
  refine .cons (.expect hw) fun _ _ => .cons (.name hname) ?_
  rintro _ rfl
  refine .cons (.expect hp) fun _ _ => parameters_reads hts ?_
  refine .bind (typeAnnotation_reads hus (not_startsWith_cons hd (by decide))) ?_
  rintro _ rfl
  refine .cons (.expect hd) fun _ _ => ?_
  refine .bind (block_reads hvs (startsWith_of_mem he (by decide))) fun body' hbody => ?_
  refine .cons (.expect he) fun _ _ => .last .freshId fun id _ => .pure ?_
  simp only [FunctionDecl.unnumbered, hbody]

/-- With tokens left, the rule for programs looks for a global first. -/
theorem sourceWithin_next {m : Nat} {P : Source → Prop} {isGlobal : Bool} (hne : ts ≠ [])
    (hword : isGlobal = true ↔ StartsWith ["LIST", "VAR", "VAL"] ts)
    (h : Reads (if isGlobal then do
        let first ← global
        let source ← sourceWithin m
        return { source with globals := first :: source.globals }
      else do
        if ← peek "FUN" then
          let first ← function
          let source ← sourceWithin m
          return { source with functions := first :: source.functions }
        fail (.expected "LIST, VAL, VAR, or FUN")) ts [] P) :
    Reads (sourceWithin (m + 1)) ts [] P := by
  refine .stay .atEnd fun b hb => ?_
  rw [List.append_nil] at hb
  rw [Bool.eq_false_iff.2 (mt hb.1 hne)]
  refine .stay (.peek _) fun b₁ h₁ => .stay (.peek _) fun b₂ h₂ => .stay (.peek _) fun b₃ h₃ => ?_
  have hor : (b₁ || b₂ || b₃) = isGlobal := by
    rw [Bool.eq_iff_iff, hword, Bool.or_eq_true, Bool.or_eq_true, h₁, h₂, h₃, List.append_nil]
    obtain ⟨t, rest, rfl⟩ := List.exists_cons_of_ne_nil hne
    simp [startsWith_cons, or_assoc]
  rw [hor]
  exact h

/-- Globals and functions are read up to the end of the tokens. -/
theorem sourceWithin_reads (m : Nat) :
    ∀ {ts : List Token} {p : Source}, Program ts p → ts.length ≤ m →
      Reads (sourceWithin m) ts [] (·.unnumbered = p.unnumbered) := by
  induction m with
  | zero =>
    intro ts p h hm
    have hnil : ts = [] := List.eq_nil_of_length_eq_zero (Nat.le_zero.1 hm)
    cases h with
    | nil => exact .pure rfl
    | global h => exact absurd (List.append_eq_nil_iff.1 hnil).1 h.ne_nil
    | function h => exact absurd (List.append_eq_nil_iff.1 hnil).1 h.ne_nil
  | succ m ih =>
    intro ts p h hm
    cases h with
    | nil =>
      refine .stay .atEnd fun b hb => ?_
      rw [hb.2 rfl]
      exact .pure rfl
    | @global ts us g p hg hp =>
      have hpos := List.length_pos_iff.2 hg.ne_nil
      rw [List.length_append] at hm
      have hword : StartsWith ["LIST", "VAR", "VAL"] (ts ++ us) :=
        (startsWith_append hg.ne_nil).2 hg.head
      refine sourceWithin_next (by simp [hg.ne_nil]) (iff_of_true rfl hword) ?_
      refine .bind (global_reads hg) fun g' hg' => ?_
      refine .last (ih hp (by omega)) fun p' hp' => .pure ?_
      simp only [Source.unnumbered, Source.mk.injEq] at hp'
      simp only [Source.unnumbered, List.map_cons, hg', hp']
    | @function ts us f p hf hp =>
      have hpos := List.length_pos_iff.2 hf.ne_nil
      rw [List.length_append] at hm
      obtain ⟨t, rest, rfl, ht⟩ := hf.head
      have hword : ¬ StartsWith ["LIST", "VAR", "VAL"] (t :: rest ++ us) :=
        not_startsWith_cons ht (by decide)
      refine sourceWithin_next (by simp) (iff_of_false Bool.false_ne_true hword) ?_
      refine .ifPeek (startsWith_of_mem ht (by decide)) ?_
      refine .bind (function_reads hf) fun f' hf' => ?_
      refine .last (ih hp (by omega)) fun p' hp' => .pure ?_
      simp only [Source.unnumbered, Source.mk.injEq] at hp'
      simp only [Source.unnumbered, List.map_cons, hf', hp']

/-- A program is read up to the end of the tokens. -/
theorem source_reads {p : Source} (h : Program ts p) :
    Reads source ts [] (·.unnumbered = p.unnumbered) :=
  .remaining (sourceWithin_reads _ h (by simp))

end Rule

/-- The tokens spell a program that is `p` up to its numbering. -/
def Grammar.Derives (tokens : List Token) (p : Source) : Prop :=
  ∃ q, Program tokens q ∧ q.unnumbered = p.unnumbered

/-- **Reading accepts exactly the grammar.**  On the tokens of a text, whatever number
the nodes start from, a program is read if and only if the tokens spell it, up to
numbering; and the tokens spell no second program. -/
theorem source_reads_iff_derives {text : String} {tokens : List Token}
    (h : Token.scan text = .ok tokens) (firstId : NodeId) (p : Source) :
    ((∃ q c, Rule.source (.ofTokens tokens firstId) = .ok q c ∧ q.unnumbered = p.unnumbered) ↔
        Derives tokens p) ∧
      ∀ q, Derives tokens p → Derives tokens q → p.unnumbered = q.unnumbered := by
  have hlexed : ∀ t ∈ tokens, t.Lexed := Token.lexed_of_scan h
  have hread : ∀ {q : Source}, Derives tokens q → ∃ q' c,
      Rule.source (.ofTokens tokens firstId) = .ok q' c ∧ q'.unnumbered = q.unnumbered := by
    rintro q ⟨q', hq', hsame⟩
    obtain ⟨q'', c, hok, -, hsame'⟩ :=
      Rule.source_reads hq' (.ofTokens tokens firstId) hlexed (List.append_nil tokens).symm
    exact ⟨q'', c, hok, hsame'.trans hsame⟩
  refine ⟨⟨?_, hread⟩, ?_⟩
  · rintro ⟨q, c, hok, hsame⟩
    exact ⟨q, (Rule.source_sound hlexed hok).1, hsame⟩
  · intro q hp hq
    obtain ⟨p', c, hok, hp'⟩ := hread hp
    obtain ⟨q', c', hok', hq'⟩ := hread hq
    rw [hok, EStateM.Result.ok.injEq] at hok'
    rw [← hp', hok'.1, hq']

/-- The product in this program is grouped first, and the value of the global is read
although it comes after the function. -/
theorem source_reads_iff_derives_product :
    ∃ tokens, Token.scan "FUN f() DO RETURN 1 - 2 * x; END VAL x = f();" = .ok tokens ∧
      Derives tokens
        ⟨[⟨0, "x", none, false, some (.call 0 "f" [])⟩],
          [⟨0, "f", [], [], none, [.returnWith (.binary 0 .subtract (.literal 0 (.integer 1))
            (.binary 0 .multiply (.literal 0 (.integer 2)) (.access 0 "x")))]⟩]⟩ := by
  have hscan : Token.scan "FUN f() DO RETURN 1 - 2 * x; END VAL x = f();" = .ok
        [⟨.identifier, "FUN", 0⟩, ⟨.identifier, "f", 4⟩, ⟨.operator, "(", 5⟩, ⟨.operator, ")", 6⟩,
          ⟨.identifier, "DO", 8⟩, ⟨.identifier, "RETURN", 11⟩, ⟨.integer, "1", 18⟩,
          ⟨.operator, "-", 20⟩, ⟨.integer, "2", 22⟩, ⟨.operator, "*", 24⟩, ⟨.identifier, "x", 26⟩,
          ⟨.operator, ";", 27⟩, ⟨.identifier, "END", 29⟩, ⟨.identifier, "VAL", 33⟩,
          ⟨.identifier, "x", 37⟩, ⟨.operator, "=", 39⟩, ⟨.identifier, "f", 41⟩,
          ⟨.operator, "(", 42⟩, ⟨.operator, ")", 43⟩, ⟨.operator, ";", 44⟩] := by
    decide +kernel
  exact ⟨_, hscan, (source_reads_iff_derives hscan 0 _).1.1
    ⟨⟨[⟨7, "x", none, false, some (.call 6 "f" [])⟩],
      [⟨5, "f", [], [], none, [.returnWith (.binary 4 .subtract (.literal 0 (.integer 1))
        (.binary 3 .multiply (.literal 1 (.integer 2)) (.access 2 "x")))]⟩]⟩,
      ⟨[], 45, 8⟩, by rfl, by rfl⟩⟩

end Scriptlet
