import Scriptlet.Proofs.DeclaredNames
import Scriptlet.Proofs.JavaBlocks
import Scriptlet.Proofs.JavaNeeds
import Scriptlet.Proofs.JavaStructure

/-!
# When Java text declares a variable a second time

In the language a variable may have the name of a parameter or of a variable of a scope
around it, which it then hides, and every arm of a `SWITCH` is a scope of its own.  In Java a
variable may not be declared while one of the same name is in scope, and a `switch` is one
block.  The generated text has the names of the program and no braces around arms, so

* `LET x = 1; IF c DO LET x = 2; … END` and
* `SWITCH n CASE 1: LET x = 1; … CASE 2: LET x = 2; … DEFAULT … END`

are accepted and written as text that declares `x` twice.

The main result, `java_redeclares_hidden`, says that these are the only ways: in the text of
a method exactly those variables are declared a second time that hide another one, or that
have the name of a variable of an earlier arm (`FunctionDecl.hiding`).
-/

namespace Scriptlet

/-! ### Variables that hide others

Lists of variables have the latest first. -/

/-- The variables that a statement declares in its own scope. -/
def Stmt.locals : Stmt → List String
  | .declaration _ name _ _ => [name]
  | _ => []

/-- The variables that statements declare in their own scope. -/
def Stmt.localsOfList : List Stmt → List String
  | [] => []
  | s :: rest => Stmt.localsOfList rest ++ s.locals

mutual

/-- The variables declared in a statement that have the name of a variable of a scope around
their own.  There are variables `own` in the scope of the statement and `around` in the
scopes around it. -/
def Stmt.hiding (around own : List String) : Stmt → List String
  | .declaration _ name _ _ => if name ∈ around then [name] else []
  | .ifElse _ thenBody elseBody =>
    Stmt.hidingOfList (own ++ around) [] thenBody ++ Stmt.hidingOfList (own ++ around) [] elseBody
  | .switch _ arms => Case.hidingOfList (own ++ around) arms
  | .whileDo _ body => Stmt.hidingOfList (own ++ around) [] body
  | .expression _ | .assignment _ _ | .returnWith _ => []

/-- The same for statements one after the other. -/
def Stmt.hidingOfList (around : List String) : (own : List String) → List Stmt → List String
  | _, [] => []
  | own, s :: rest => s.hiding around own ++ Stmt.hidingOfList around (s.locals ++ own) rest

/-- The same for the arms of a `SWITCH`, to which the variables of earlier arms count as
variables around them. -/
def Case.hidingOfList : (around : List String) → List Case → List String
  | _, [] => []
  | around, .mk _ body :: rest =>
    Stmt.hidingOfList around [] body ++ Case.hidingOfList (Stmt.localsOfList body ++ around) rest

end

/-- The variables of a function that hide a parameter or another variable of it, or have the
name of a variable of an earlier arm of the same `SWITCH`. -/
def FunctionDecl.hiding (f : FunctionDecl) : List String :=
  Stmt.hidingOfList f.parameters.reverse [] f.body

namespace Java

variable {a : Annotations}

/-! ### Texts of single lines -/

/-- Every type is a word in Java. -/
theorem isWord_javaName (ty : Ty) : IsWord true ty.javaName.toList := by
  cases ty <;> exact isWord_of_letters true (by decide) rfl

/-- A type and a name declare a variable. -/
theorem declared?_javaName (ty : Ty) (name : String) :
    declared? [ty.javaName, name] = some name := by
  have hty : ty.javaName ∉ leading := by cases ty <;> decide
  exact if_neg hty

/-- A type and a name, and what follows. -/
theorem leads_typed (ty : Ty) {name : String} (hname : IsIdentifier name.toList)
    {blocks : List (List String)} {found : List String} {c : Char} (hc : Delimits c)
    {cs : List Char} {v' : Visible}
    (hrest : Leads (c :: cs) ⟨[ty.javaName, name], blocks, found⟩ v') :
    Leads (ty.javaName.toList ++ ' ' :: (name.toList ++ c :: cs)) ⟨[], blocks, found⟩ v' := by
  refine .of_isWord (isWord_javaName ty) (delimits_of_mem (by decide)) ?_
  refine .cons (leads_blank _) ?_
  exact .of_isWord (isWord_of_isIdentifier hname (.inl rfl)) hc hrest

/-- The keyword, condition and opening brace of a statement with a block. -/
theorem leads_condition {w : String} (hw : IsWord true w.toList) {t : Tree}
    (ht : t.Scannable true) (blocks : List (List String)) (found : List String) :
    Leads (w.toList ++ ' ' :: '(' :: (t.text ++ [')', ' ', '\x7b'])) ⟨[], blocks, found⟩
      ⟨[], [] :: blocks, found⟩ := by
  refine .of_isWord hw (delimits_of_mem (by decide)) ?_
  refine .cons (leads_blank _) (.cons (leads_lexeme rfl _) ?_)
  refine leads_expression ht .nil (delimits_of_mem (by decide)) fun words' hquiet => ?_
  have hclose : Visible.take ⟨words', blocks, found⟩ (.lexeme (.right .round)) =
      ⟨[], blocks, found⟩ := Visible.endWords_of_none hquiet
  refine .cons (leads_lexeme rfl _) (.cons (leads_blank _) ?_)
  rw [hclose]
  exact leads_lexeme (l := .left .curly) rfl _

/-- An expression up to a semicolon. -/
theorem leads_expression_semicolon {t : Tree} (ht : t.Scannable true) {words : List String}
    (hwords : Typeless words) (blocks : List (List String)) (found : List String) :
    Leads (t.text ++ [';']) ⟨words, blocks, found⟩ ⟨[], blocks, found⟩ := by
  refine leads_expression ht hwords (delimits_of_mem (by decide)) fun words' hquiet => ?_
  have hend : Visible.take ⟨words', blocks, found⟩ (.mark ';') = ⟨[], blocks, found⟩ :=
    Visible.endWords_of_none hquiet
  rw [← hend]
  exact leads_semicolon _

/-- An assignment declares nothing. -/
theorem leads_assignment {t u : Tree} (ht : t.Scannable true) (hu : u.Scannable true)
    (blocks : List (List String)) (found : List String) :
    Leads (t.text ++ ' ' :: '=' :: ' ' :: (u.text ++ [';'])) ⟨[], blocks, found⟩
      ⟨[], blocks, found⟩ := by
  refine leads_expression ht .nil (delimits_of_mem (by decide)) fun words' hquiet => ?_
  have hend : Visible.take ⟨words', blocks, found⟩ (.mark '=') = ⟨[], blocks, found⟩ :=
    Visible.endWords_of_none hquiet
  refine .cons (leads_blank _) ((leads_equals _).append ?_)
  rw [hend]
  exact leads_expression_semicolon hu .nil blocks found

/-- A `return` declares nothing. -/
theorem leads_return {t : Tree} (ht : t.Scannable true) (blocks : List (List String))
    (found : List String) :
    Leads ("return".toList ++ ' ' :: (t.text ++ [';'])) ⟨[], blocks, found⟩
      ⟨[], blocks, found⟩ := by
  have hword : IsWord true "return".toList := isWord_of_letters true (by decide) rfl
  refine .of_isWord hword (delimits_of_mem (by decide)) (.cons (leads_blank _) ?_)
  exact leads_expression_semicolon ht (.inr ⟨"return", by decide, rfl⟩) blocks found

/-- The head of an arm declares nothing. -/
theorem leads_case {t : Tree} (ht : t.Scannable true) (blocks : List (List String))
    (found : List String) :
    Leads ("case".toList ++ ' ' :: (t.text ++ [':'])) ⟨[], blocks, found⟩
      ⟨[], blocks, found⟩ := by
  have hword : IsWord true "case".toList := isWord_of_letters true (by decide) rfl
  refine .of_isWord hword (delimits_of_mem (by decide)) (.cons (leads_blank _) ?_)
  refine leads_expression ht (.inr ⟨"case", by decide, rfl⟩) (delimits_of_mem (by decide)) ?_
  exact fun _ _ => leads_colon _

/-- A declaration, with or without a value. -/
theorem leads_declaration (ty : Ty) {name : String} (hname : IsIdentifier name.toList)
    (blocks : List (List String)) (found : List String) :
    Leads (ty.javaName.toList ++ ' ' :: (name.toList ++ [';'])) ⟨[], blocks, found⟩
        (Visible.declare ⟨[], blocks, found⟩ name) ∧
      ∀ t : Tree, t.Scannable true →
        Leads (ty.javaName.toList ++ ' ' :: (name.toList ++ ' ' :: '=' :: ' ' :: (t.text ++ [';'])))
          ⟨[], blocks, found⟩ (Visible.declare ⟨[], blocks, found⟩ name) := by
  have hend : Visible.endWords ⟨[ty.javaName, name], blocks, found⟩ =
      Visible.declare ⟨[], blocks, found⟩ name := by
    rw [Visible.endWords, declared?_javaName]
    rfl
  refine ⟨leads_typed ty hname (delimits_of_mem (by decide)) ?_, fun t ht => ?_⟩
  · rw [← hend]
    exact leads_semicolon _
  · refine leads_typed ty hname (delimits_of_mem (by decide)) (.cons (leads_blank _) ?_)
    refine (leads_equals _).append ?_
    rw [show Visible.take _ (.mark '=') = _ from hend]
    exact leads_expression_semicolon ht .nil _ _

/-! ### Statements -/

/-- There are lines, and they take what the reader knows from the one to the other. -/
def Reads (x : Except JavaError (List Line)) (v v' : Visible) : Prop :=
  ∃ lines, x = .ok lines ∧ LeadsLines lines v v'

/-- The variables are declared in the scope. -/
def Known (frame : Locals) (own : List String) : Prop := ∀ x ∈ own, frame.find? x ≠ none

/-- At first a scope has no variables of its own. -/
theorem Known.nil {frame : Locals} : Known frame [] := fun _ h => nomatch h

/-- What is known about an expression of a program that was read and accepted: it has a text,
which can be scanned. -/
theorem readable_of_clear {e : Expr} (h : ∀ part ∈ e.parts, Clear a part) :
    expression a e = .ok (.ofList (tree a e).text) ∧ (tree a e).Scannable true :=
  ⟨expression_eq_text h, scannable_tree fun part hpart => ⟨h part hpart, .inl rfl⟩⟩

/-- A name that is new in its scope is declared a second time if it is declared around it. -/
theorem declare_eq {name : String} {own : List String} (h : name ∉ own) (earlier : List String)
    (blocks : List (List String)) (found : List String) :
    Visible.declare ⟨[], (own ++ earlier) :: blocks, found⟩ name =
      ⟨[], ([name] ++ (own ++ earlier)) :: blocks,
        found ++ if name ∈ earlier ++ blocks.flatten then [name] else []⟩ := by
  have hmem : name ∈ ((own ++ earlier) :: blocks).flatten ↔ name ∈ earlier ++ blocks.flatten := by
    simp [h]
  simp only [Visible.declare, hmem]
  split
  · rfl
  · rw [List.append_nil]
    rfl

/-- A statement adds the variables that it declares. -/
theorem Known.statement {Φ : Signatures} {ret : Ty} {outer : Env} {frame after : Locals}
    {s : Stmt} (h : Typing.Statement a.exactNotes Φ ret outer frame s after) {own : List String}
    (hown : Known frame own) : Known after (s.locals ++ own) := by
  cases h with
  | @declaration _ _ id name =>
    intro x hx
    rw [Table.find?_insert]
    split
    · exact Option.some_ne_none _
    · rename_i hne
      exact hown x ((List.mem_cons.1 hx).resolve_left (Ne.symm hne))
  | _ => exact hown

/-- Blocks inside of a block. -/
theorem flatten_blocks (own earlier : List String) (blocks : List (List String)) :
    ((own ++ earlier) :: blocks).flatten = own ++ (earlier ++ blocks.flatten) := by
  rw [List.flatten_cons, List.append_assoc]

/-- A declaration declares its variable, and once more if it is in scope already. -/
theorem declaration_reads {id : NodeId} {name : String} {ty : Ty} {value : Option Expr}
    (hvar : a.vars.find? id = some ⟨name, ty, true, ()⟩)
    (hparts : ∀ e ∈ Expr.partsOfOption value, Clear a e) (hname : IsIdentifier name.toList)
    (depth : Nat) (typeName : Option String) (blocks : List (List String)) (found : List String) :
    Reads (statement a depth (.declaration id name typeName value)) ⟨[], blocks, found⟩
      (Visible.declare ⟨[], blocks, found⟩ name) := by
  obtain ⟨hplain, hvalue⟩ := leads_declaration ty hname blocks found
  rw [statement, declaration, variableOf, hvar]
  cases value with
  | none =>
    refine ⟨_, rfl, .single _ ?_⟩
    simpa [toString, Variable.javaName] using hplain
  | some e =>
    obtain ⟨htext, hscannable⟩ := readable_of_clear hparts
    rw [initializer, htext]
    refine ⟨_, rfl, .single _ ?_⟩
    simpa [toString, Variable.javaName] using hvalue (tree a e) hscannable

/-- A closing brace takes the variables of its block with it. -/
theorem leads_closeBrace (own : List String) (blocks : List (List String)) (found : List String) :
    Leads ['\x7d'] ⟨[], own :: blocks, found⟩ ⟨[], blocks, found⟩ :=
  leads_lexeme (l := .right .curly) rfl _

/-- A closing brace on a line of its own. -/
theorem leadsLines_closing (depth : Nat) (own : List String) (blocks : List (List String))
    (found : List String) :
    LeadsLines [⟨depth, closeBrace⟩] ⟨[], own :: blocks, found⟩ ⟨[], blocks, found⟩ :=
  .single depth (leads_closeBrace own blocks found)

/-- The line between the two branches of an `if`. -/
theorem leadsLines_else (depth : Nat) (own : List String) (blocks : List (List String))
    (found : List String) :
    LeadsLines [⟨depth, s!"{closeBrace} else {openBrace}"⟩] ⟨[], own :: blocks, found⟩
      ⟨[], [] :: blocks, found⟩ := by
  refine .single _ ?_
  simp only [toString, closeBrace, openBrace, String.toList_append]
  rfl

/-- Between braces the lines of statements declare what the statements declare. -/
def ReadsInside (a : Annotations) (depth : Nat) (body : List Stmt) : Prop :=
  ∀ blocks found, Reads (block a depth body) ⟨[], [] :: blocks, found⟩
    ⟨[], Stmt.localsOfList body :: blocks, found ++ Stmt.hidingOfList blocks.flatten [] body⟩

/-- Each branch of an `if` is a block. -/
theorem ifElse_reads {condition : Expr} {thenBody elseBody : List Stmt} {depth : Nat}
    (hparts : ∀ e ∈ condition.parts, Clear a e) (hthen : ReadsInside a (depth + 1) thenBody)
    (helse : ReadsInside a (depth + 1) elseBody) (blocks : List (List String))
    (found : List String) :
    Reads (statement a depth (.ifElse condition thenBody elseBody)) ⟨[], blocks, found⟩
      ⟨[], blocks, found ++ (Stmt.hidingOfList blocks.flatten [] thenBody ++
        Stmt.hidingOfList blocks.flatten [] elseBody)⟩ := by
  obtain ⟨htext, hscannable⟩ := readable_of_clear hparts
  have hword : IsWord true "if".toList := isWord_of_letters true (by decide) rfl
  have hopening := leads_condition hword hscannable blocks found
  obtain ⟨thenLines, hthenLines, hthenLeads⟩ := hthen blocks found
  obtain ⟨elseLines, helseLines, helseLeads⟩ :=
    helse blocks (found ++ Stmt.hidingOfList blocks.flatten [] thenBody)
  have hline : Leads (s!"if ({String.ofList (tree a condition).text}) {openBrace}").toList
      ⟨[], blocks, found⟩ ⟨[], [] :: blocks, found⟩ := by
    simpa [toString, openBrace] using hopening
  have hfirst := LeadsLines.cons depth hline hthenLeads
  rw [statement, htext, hthenLines, helseLines, ← List.append_assoc found]
  cases elseBody with
  | nil =>
    cases helseLines
    rw [Stmt.hidingOfList, List.append_nil]
    refine ⟨_, rfl, ?_⟩
    exact ((hfirst.append (.nil _)).append (.nil _)).append (leadsLines_closing depth _ _ _)
  | cons s rest =>
    refine ⟨_, rfl, ?_⟩
    exact ((hfirst.append (leadsLines_else depth _ _ _)).append helseLeads).append
      (leadsLines_closing depth _ _ _)

/-- The body of a loop is a block. -/
theorem while_reads {condition : Expr} {body : List Stmt} {depth : Nat}
    (hparts : ∀ e ∈ condition.parts, Clear a e) (hbody : ReadsInside a (depth + 1) body)
    (blocks : List (List String)) (found : List String) :
    Reads (statement a depth (.whileDo condition body)) ⟨[], blocks, found⟩
      ⟨[], blocks, found ++ Stmt.hidingOfList blocks.flatten [] body⟩ := by
  obtain ⟨htext, hscannable⟩ := readable_of_clear hparts
  have hword : IsWord true "while".toList := isWord_of_letters true (by decide) rfl
  have hopening := leads_condition hword hscannable blocks found
  obtain ⟨lines, hlines, hleads⟩ := hbody blocks found
  rw [statement, htext, hlines]
  cases body with
  | nil =>
    rw [Stmt.hidingOfList, List.append_nil]
    refine ⟨_, rfl, .single _ ?_⟩
    have hclosed := hopening.append (leads_closeBrace [] blocks found)
    simpa [toString, openBrace, closeBrace] using hclosed
  | cons s rest =>
    refine ⟨_, rfl, .append (.cons depth ?_ hleads) (leadsLines_closing depth _ _ _)⟩
    simpa [toString, openBrace] using hopening

/-- All arms of a `switch` are one block. -/
theorem switch_reads {condition : Expr} {arms : List Case} {depth : Nat}
    (hparts : ∀ e ∈ condition.parts, Clear a e) {own found' : List String}
    {blocks : List (List String)} {found : List String}
    (harms : Reads (cases a (depth + 1) arms) ⟨[], [] :: blocks, found⟩
      ⟨[], own :: blocks, found'⟩) :
    Reads (statement a depth (.switch condition arms)) ⟨[], blocks, found⟩
      ⟨[], blocks, found'⟩ := by
  obtain ⟨htext, hscannable⟩ := readable_of_clear hparts
  have hword : IsWord true "switch".toList := isWord_of_letters true (by decide) rfl
  have hopening := leads_condition hword hscannable blocks found
  obtain ⟨lines, hlines, hleads⟩ := harms
  rw [statement, htext, hlines]
  refine ⟨_, rfl, .append (.cons depth ?_ hleads) (leadsLines_closing depth _ _ _)⟩
  simpa [toString, openBrace] using hopening

/-- Statements without blocks that are no declarations declare nothing. -/
theorem plain_reads {s : Stmt} (hparts : ∀ e ∈ s.parts, Clear a e)
    (hplain : (∃ e, s = .expression e) ∨ (∃ receiver value, s = .assignment receiver value) ∨
      ∃ value, s = .returnWith value) (depth : Nat) (blocks : List (List String))
    (found : List String) :
    Reads (statement a depth s) ⟨[], blocks, found⟩ ⟨[], blocks, found⟩ := by
  rcases hplain with ⟨e, rfl⟩ | ⟨receiver, value, rfl⟩ | ⟨value, rfl⟩
  · obtain ⟨htext, hscannable⟩ := readable_of_clear hparts
    rw [statement, htext]
    refine ⟨_, rfl, .single _ ?_⟩
    simpa [toString] using leads_expression_semicolon hscannable .nil blocks found
  · obtain ⟨hreceiver, hvalue⟩ := List.forall_mem_append.1 hparts
    obtain ⟨htext, hscannable⟩ := readable_of_clear hreceiver
    obtain ⟨htext', hscannable'⟩ := readable_of_clear hvalue
    rw [statement, htext, htext']
    refine ⟨_, rfl, .single _ ?_⟩
    simpa [toString] using leads_assignment hscannable hscannable' blocks found
  · obtain ⟨htext, hscannable⟩ := readable_of_clear hparts
    rw [statement, htext]
    refine ⟨_, rfl, .single _ ?_⟩
    simpa [toString] using leads_return hscannable blocks found

/-- An arm with a value: its body, a `break`, and then the arms after it. -/
theorem case_reads {value : Expr} {body : List Stmt} {rest : List Case} {depth : Nat}
    (hparts : ∀ e ∈ value.parts, Clear a e) {blocks blocks₁ : List (List String)}
    {found found₁ : List String} {v' : Visible}
    (hbody : Reads (block a (depth + 1) body) ⟨[], blocks, found⟩ ⟨[], blocks₁, found₁⟩)
    (hrest : Reads (cases a depth rest) ⟨[], blocks₁, found₁⟩ v') :
    Reads (cases a depth (.mk (some value) body :: rest)) ⟨[], blocks, found⟩ v' := by
  obtain ⟨htext, hscannable⟩ := readable_of_clear hparts
  obtain ⟨lines, hlines, hleads⟩ := hbody
  obtain ⟨more, hmore, hleads'⟩ := hrest
  have hbreak : Leads "break;".toList ⟨[], blocks₁, found₁⟩ ⟨[], blocks₁, found₁⟩ := rfl
  rw [cases, htext, hlines, hmore]
  refine ⟨_, rfl, .append (.cons depth ?_ hleads) (.cons (depth + 1) hbreak hleads')⟩
  simpa [toString] using leads_case hscannable blocks found

/-- The arm without a value is the last one. -/
theorem default_reads {body : List Stmt} {depth : Nat} {blocks : List (List String)}
    {found : List String} {v' : Visible}
    (hbody : Reads (block a (depth + 1) body) ⟨[], blocks, found⟩ v') :
    Reads (cases a depth [.mk none body]) ⟨[], blocks, found⟩ v' := by
  obtain ⟨lines, hlines, hleads⟩ := hbody
  have hdefault : Leads "default:".toList ⟨[], blocks, found⟩ ⟨[], blocks, found⟩ := rfl
  rw [cases, hlines]
  exact ⟨_, rfl, .append (.cons depth hdefault hleads) (.nil v')⟩

/-- A block in braces leaves the variables around it as they were. -/
theorem readsInside_of {depth : Nat} {body : List Stmt}
    (h : ∀ earlier blocks found,
      Reads (block a depth body) ⟨[], ([] ++ earlier) :: blocks, found⟩
        ⟨[], (Stmt.localsOfList body ++ ([] ++ earlier)) :: blocks,
          found ++ Stmt.hidingOfList (earlier ++ blocks.flatten) [] body⟩) :
    ReadsInside a depth body := by
  intro blocks found
  have hreads := h [] blocks found
  rwa [List.append_nil, List.append_nil, List.nil_append] at hreads

mutual

/-- **The lines of a statement declare what the statement declares.**  Besides the variables
of its scope, the block may have variables of earlier arms. -/
theorem statement_reads {Φ : Signatures} {ret : Ty} {outer : Env} {frame after : Locals}
    {s : Stmt} : Typing.Statement a.exactNotes Φ ret outer frame s after →
      (∀ e ∈ s.parts, Clear a e) → AreIdentifiers s.names → (depth : Nat) → {own : List String} →
        Known frame own → (earlier : List String) → (blocks : List (List String)) →
          (found : List String) →
            Reads (statement a depth s) ⟨[], (own ++ earlier) :: blocks, found⟩
              ⟨[], (s.locals ++ (own ++ earlier)) :: blocks,
                found ++ s.hiding (earlier ++ blocks.flatten) own⟩
  | .expression _, hparts, _, depth, own, _, earlier, blocks, found => by
    rw [Stmt.hiding, List.append_nil]
    exact plain_reads hparts (.inl ⟨_, rfl⟩) depth _ found
  | .assignment _ _ _ _ _ _, hparts, _, depth, own, _, earlier, blocks, found => by
    rw [Stmt.hiding, List.append_nil]
    exact plain_reads hparts (.inr (.inl ⟨_, _, rfl⟩)) depth _ found
  | .returnWith _ _, hparts, _, depth, own, _, earlier, blocks, found => by
    rw [Stmt.hiding, List.append_nil]
    exact plain_reads hparts (.inr (.inr ⟨_, rfl⟩)) depth _ found
  | @Typing.Statement.declaration _ _ _ _ _ _ name typeName _ _ _ hnew hvar, hparts, hnames, depth,
      own, hown, earlier, blocks, found => by
    -- checking lets a scope have one variable of a name, so the other one is outside of it
    have hfresh : name ∉ own := fun hmem => hown name hmem hnew
    have hname : IsIdentifier name.toList := hnames name (List.mem_singleton_self name)
    rw [Stmt.hiding, Stmt.locals, ← declare_eq hfresh]
    exact declaration_reads hvar hparts hname depth typeName _ found
  | .ifElse _ _ hthen helse, hparts, hnames, depth, own, _, earlier, blocks, found => by
    obtain ⟨hcondition, hbodies⟩ := List.forall_mem_append.1 hparts
    obtain ⟨hthenParts, helseParts⟩ := List.forall_mem_append.1 hbodies
    obtain ⟨hthenNames, helseNames⟩ := List.forall_mem_append.1 hnames
    have hthen := readsInside_of (block_reads hthen hthenParts hthenNames (depth + 1) .nil)
    have helse := readsInside_of (block_reads helse helseParts helseNames (depth + 1) .nil)
    rw [Stmt.hiding, ← flatten_blocks]
    exact ifElse_reads hcondition hthen helse _ found
  | .switch _ harms, hparts, hnames, depth, own, _, earlier, blocks, found => by
    obtain ⟨hcondition, harmParts⟩ := List.forall_mem_append.1 hparts
    obtain ⟨own', hcases⟩ := cases_reads harms harmParts hnames (depth + 1) []
      ((own ++ earlier) :: blocks) found
    rw [Stmt.hiding, ← flatten_blocks]
    exact switch_reads hcondition hcases
  | .whileDo _ hbody, hparts, hnames, depth, own, _, earlier, blocks, found => by
    obtain ⟨hcondition, hbodyParts⟩ := List.forall_mem_append.1 hparts
    have hinside := readsInside_of (block_reads hbody hbodyParts hnames (depth + 1) .nil)
    rw [Stmt.hiding, ← flatten_blocks]
    exact while_reads hcondition hinside _ found

/-- The lines of statements one after the other. -/
theorem block_reads {Φ : Signatures} {ret : Ty} {outer : Env} {frame after : Locals}
    {body : List Stmt} : Typing.Block a.exactNotes Φ ret outer frame body after →
      (∀ e ∈ Stmt.partsOfList body, Clear a e) → AreIdentifiers (Stmt.namesOfList body) →
        (depth : Nat) → {own : List String} → Known frame own → (earlier : List String) →
          (blocks : List (List String)) → (found : List String) →
            Reads (block a depth body) ⟨[], (own ++ earlier) :: blocks, found⟩
              ⟨[], (Stmt.localsOfList body ++ (own ++ earlier)) :: blocks,
                found ++ Stmt.hidingOfList (earlier ++ blocks.flatten) own body⟩
  | .nil, _, _, _, _, _, _, _, _ => by
    rw [Stmt.hidingOfList, List.append_nil]
    exact ⟨[], rfl, .nil _⟩
  | .cons hs hrest, hparts, hnames, depth, own, hown, earlier, blocks, found => by
    obtain ⟨hpartsFirst, hpartsRest⟩ := List.forall_mem_append.1 hparts
    obtain ⟨hnamesFirst, hnamesRest⟩ := List.forall_mem_append.1 hnames
    obtain ⟨lines, hlines, hleads⟩ :=
      statement_reads hs hpartsFirst hnamesFirst depth hown earlier blocks found
    obtain ⟨more, hmore, hleads'⟩ :=
      block_reads hrest hpartsRest hnamesRest depth (hown.statement hs) earlier blocks
        (found ++ Stmt.hiding (earlier ++ blocks.flatten) own _)
    rw [List.append_assoc] at hleads'
    rw [block, hlines, hmore, Stmt.hidingOfList, Stmt.localsOfList, List.append_assoc,
      ← List.append_assoc found]
    exact ⟨_, rfl, hleads.append hleads'⟩

/-- The lines of the arms of a `switch`, which are one block. -/
theorem cases_reads {Φ : Signatures} {ret ty : Ty} {Γ : Env} {arms : List Case} :
    Typing.Arms a.exactNotes Φ ret Γ ty arms → (∀ e ∈ Case.partsOfList arms, Clear a e) →
      AreIdentifiers (Case.namesOfList arms) → (depth : Nat) → (earlier : List String) →
        (blocks : List (List String)) → (found : List String) →
          ∃ own, Reads (cases a depth arms) ⟨[], earlier :: blocks, found⟩
            ⟨[], own :: blocks, found ++ Case.hidingOfList (earlier ++ blocks.flatten) arms⟩
  | .nil, _, _, _, earlier, _, _ => by
    rw [Case.hidingOfList, List.append_nil]
    exact ⟨earlier, [], rfl, .nil _⟩
  | .case _ hbody hrest, hparts, hnames, depth, earlier, blocks, found => by
    obtain ⟨hvalueParts, hmoreParts⟩ := List.forall_mem_append.1 hparts
    obtain ⟨hbodyParts, hrestParts⟩ := List.forall_mem_append.1 hmoreParts
    obtain ⟨hbodyNames, hrestNames⟩ := List.forall_mem_append.1 hnames
    -- the scope of the arm ends here, but in the text its variables stay in the block
    have hfirst := block_reads hbody hbodyParts hbodyNames (depth + 1) .nil earlier blocks found
    obtain ⟨own, hmore⟩ := cases_reads hrest hrestParts hrestNames depth _ blocks
      (found ++ Stmt.hidingOfList (earlier ++ blocks.flatten) [] _)
    refine ⟨own, ?_⟩
    rw [List.append_assoc, List.append_assoc] at hmore
    exact case_reads hvalueParts hfirst hmore
  | .default hbody, hparts, hnames, depth, earlier, blocks, found => by
    obtain ⟨hbodyParts, -⟩ := List.forall_mem_append.1 (List.forall_mem_append.1 hparts).2
    obtain ⟨hbodyNames, -⟩ := List.forall_mem_append.1 hnames
    have hreads := block_reads hbody hbodyParts hbodyNames (depth + 1) .nil earlier blocks found
    rw [Case.hidingOfList, Case.hidingOfList, List.append_nil]
    exact ⟨_, default_reads hreads⟩

end

/-! ### Methods -/

/-- A parameter with its type. -/
def parameter (p : String × Ty) : String := s!"{p.2.javaName} {p.1}"

/-- A parameter before the comma or parenthesis that ends it. -/
theorem leads_parameter (ty : Ty) {name : String} (hname : IsIdentifier name.toList)
    {own : List String} (hnew : name ∉ own) (found : List String) {c : Char}
    (hc : c = ',' ∨ c = ')') :
    Leads ((parameter (name, ty)).toList ++ [c]) ⟨[], [own], found⟩ ⟨[], [name :: own], found⟩ := by
  have hend : Visible.endWords ⟨[ty.javaName, name], [own], found⟩ =
      ⟨[], [name :: own], found⟩ := by
    rw [Visible.endWords, declared?_javaName]
    simp [Visible.declare, hnew]
  have hmark : Leads [c] ⟨[ty.javaName, name], [own], found⟩ ⟨[], [name :: own], found⟩ := by
    rw [← hend]
    rcases hc with rfl | rfl
    · exact leads_lexeme (l := .comma) rfl _
    · exact leads_lexeme (l := .right .round) rfl _
  have hdelimits : Delimits c := by
    rcases hc with rfl | rfl <;> exact delimits_of_mem (by decide)
  simpa [parameter, toString] using leads_typed ty hname hdelimits hmark

/-- Parameters are in scope after the list of them. -/
theorem leads_parameters (own found : List String) : (ps : List (String × Ty)) →
    AreIdentifiers (ps.map Prod.fst) → (ps.map Prod.fst).Nodup →
      (∀ name ∈ ps.map Prod.fst, name ∉ own) →
        Leads ((", ".intercalate (ps.map parameter)).toList ++ [')']) ⟨[], [own], found⟩
          ⟨[], [(ps.map Prod.fst).reverse ++ own], found⟩
  | [], _, _, _ => rfl
  | [(name, ty)], hnames, _, hnew => by
    have hname := hnames name (List.mem_singleton_self name)
    exact leads_parameter ty hname (hnew name (List.mem_singleton_self name)) found (.inr rfl)
  | (name, ty) :: q :: ps, hnames, hnodup, hnew => by
    obtain ⟨hname, hnames⟩ := List.forall_mem_cons.1 hnames
    obtain ⟨hfresh, hnodup⟩ := List.nodup_cons.1 hnodup
    obtain ⟨hnewFirst, hnewRest⟩ := List.forall_mem_cons.1 hnew
    have hfirst := leads_parameter ty hname hnewFirst found (.inl rfl)
    have hrest := leads_parameters (name :: own) found (q :: ps) hnames hnodup fun x hx hmem => by
      rcases List.mem_cons.1 hmem with rfl | hmem
      · exact hfresh hx
      · exact hnewRest x hx hmem
    have hboth := (hfirst.append (leads_blank _)).append hrest
    rw [List.map_cons, List.map_cons, String.intercalate_cons_cons, ← List.map_cons]
    simpa using hboth

/-- The line that a method begins with. -/
theorem leads_header (ret : Ty) {name : String} (hname : IsIdentifier name.toList)
    {parameterList : String} {own : List String}
    (hlist : Leads (parameterList.toList ++ [')']) ⟨[], [[]], []⟩ ⟨[], [own], []⟩) :
    Leads (s!"{ret.javaName} {name}({parameterList}) {openBrace}").toList ⟨[], [[]], []⟩
      ⟨[], [[], own], []⟩ := by
  have hopening : Leads [' ', '\x7b'] ⟨[], [own], []⟩ ⟨[], [[], own], []⟩ :=
    .cons (leads_blank _) (leads_lexeme (l := .left .curly) rfl _)
  have hheader := leads_typed ret hname (delimits_of_mem (c := '(') (by decide))
    (.cons (leads_lexeme rfl _) (hlist.append hopening))
  simpa [toString, openBrace] using hheader

/-- No two parameters have one name. -/
theorem nodup_parameters {frame after : Locals} {names : List String} {tys : List Ty}
    (h : Typing.Parameters frame names tys after) :
    ((names.zip tys).map Prod.fst).Nodup ∧
      ∀ x ∈ (names.zip tys).map Prod.fst, frame.find? x = none := by
  induction h with
  | noName => exact ⟨.nil, nofun⟩
  | noType =>
    rw [List.zip_nil_right]
    exact ⟨.nil, nofun⟩
  | @cons frame after name names ty tys hnew _ ih =>
    obtain ⟨hnodup, hfree⟩ := ih
    have hother : ∀ x ∈ (names.zip tys).map Prod.fst, name ≠ x ∧ frame.find? x = none := by
      intro x hx
      have hnone := hfree x hx
      rw [Table.find?_insert] at hnone
      split at hnone
      · cases hnone
      · exact ⟨‹_›, hnone⟩
    refine ⟨List.nodup_cons.2 ⟨fun hmem => (hother name hmem).1 rfl, hnodup⟩, ?_⟩
    exact List.forall_mem_cons.2 ⟨hnew, fun x hx => (hother x hx).2⟩

/-- **The lines of a method declare its parameters and what its body declares.** -/
theorem method_reads {f : FunctionDecl} {r : Routine Unit} {Φ : Signatures} {globals : Locals}
    (hr : a.functions.find? f.id = some r) (hsignature : Typing.Signature f r)
    (hbody : Typing.Body a.exactNotes Φ globals f r) (hwritten : f.Written)
    (hparts : ∀ e ∈ f.parts, Clear a e) :
    Reads (method a f) ⟨[], [[]], []⟩ ⟨[], [f.parameters.reverse], f.hiding⟩ := by
  obtain ⟨tys, ret, htys, -, rfl⟩ := hsignature
  obtain ⟨frame, after, hparameters, hblock⟩ := hbody
  have hzip : (f.parameters.zip tys).map Prod.fst = f.parameters := by
    refine List.map_fst_zip ?_
    rw [hwritten.typed, htys.length_eq]
  have hnames : AreIdentifiers ((f.parameters.zip tys).map Prod.fst) := by
    rw [hzip]
    exact hwritten.parameters
  have hlist := leads_parameters [] [] (f.parameters.zip tys) hnames
    (nodup_parameters hparameters).1 fun _ _ => List.not_mem_nil
  rw [hzip, List.append_nil] at hlist
  have hheader := leads_header ret hwritten.name hlist
  have hinside := readsInside_of (block_reads hblock hparts hwritten.locals 2 .nil)
  obtain ⟨lines, hlines, hleads⟩ := hinside [f.parameters.reverse] []
  have hhiding : f.hiding = Stmt.hidingOfList [f.parameters.reverse].flatten [] f.body := by
    rw [FunctionDecl.hiding, List.flatten_singleton]
  rw [method, functionOf, hr, hlines, hhiding]
  cases hempty : f.body with
  | nil =>
    rw [Stmt.hidingOfList]
    refine ⟨_, rfl, .single 1 ?_⟩
    rw [String.toList_append]
    exact hheader.append (leads_closeBrace [] [f.parameters.reverse] [])
  | cons s rest =>
    rw [hempty] at hleads
    exact ⟨_, rfl, .append (.cons 1 hheader hleads) (leadsLines_closing 1 _ _ _)⟩

/-! ### Methods in the text of a program -/

/-- Every element of a list that was gone through has a result. -/
theorem exists_of_mapM {ε α β : Type} {step : α → Except ε β} {xs : List α} {ys : List β}
    (h : xs.mapM step = .ok ys) {x : α} (hx : x ∈ xs) : ∃ y ∈ ys, step x = .ok y := by
  induction xs generalizing ys with
  | nil => cases hx
  | cons x' xs ih =>
    rw [List.mapM_cons] at h
    cases hfirst : step x' with
    | error e =>
      rw [hfirst] at h
      cases h
    | ok y =>
      cases hrest : xs.mapM step with
      | error e =>
        rw [hfirst, hrest] at h
        cases h
      | ok ys' =>
        rw [hfirst, hrest] at h
        cases h
        rcases List.mem_cons.1 hx with rfl | hx
        · exact ⟨y, List.mem_cons_self, hfirst⟩
        · obtain ⟨y', hy', hstep⟩ := ih hrest hx
          exact ⟨y', List.mem_cons_of_mem y hy', hstep⟩

/-- The text of a program has the text of each of its methods in it. -/
theorem program_eq {p : Source} {text : String} (h : program a p = .ok text) {f : FunctionDecl}
    (hf : f ∈ p.functions) {lines : List Line} (hmethod : method a f = .ok lines) :
    ∃ before after, text = before ++ render lines ++ after := by
  unfold program classLines at h
  cases hfields : p.globals.mapM (field a) with
  | error e =>
    rw [hfields] at h
    cases h
  | ok fields =>
    cases hmethods : p.functions.mapM (method a) with
    | error e =>
      rw [hfields, hmethods] at h
      cases h
    | ok methods =>
      rw [hfields, hmethods] at h
      cases h
      obtain ⟨lines', hmem, hlines'⟩ := exists_of_mapM hmethods hf
      obtain rfl : lines = lines' := Except.ok.inj (hmethod.symm.trans hlines')
      obtain ⟨earlier, later, rfl⟩ := List.append_of_mem hmem
      have hsplit (front back : List Line) :
          front ++ (earlier ++ lines :: later).flatMap (Line.blank :: ·) ++ back =
            (front ++ earlier.flatMap (Line.blank :: ·) ++ [Line.blank]) ++ lines ++
              (later.flatMap (Line.blank :: ·) ++ back) := by simp
      show ∃ before after,
        render (_ ++ (earlier ++ lines :: later).flatMap (Line.blank :: ·) ++ _) = _
      rw [hsplit, render_append, render_append]
      exact ⟨_, _, rfl⟩

end Java

/-- The text of a program that was accepted is written with its findings. -/
theorem Pipeline.program_of_java {p : Source} {a : Annotations} {text : String}
    (hcheck : p.check = .ok a) (h : Pipeline.java p = .ok text) : Java.program a p = .ok text := by
  have hmap : Pipeline.java p = (Java.program a p).mapError .generation := by
    rw [Pipeline.java, Pipeline.annotations, hcheck]
    rfl
  rw [hmap] at h
  cases hprogram : Java.program a p with
  | ok text' =>
    rw [hprogram] at h
    cases h
    rfl
  | error e =>
    rw [hprogram] at h
    cases h

/-! ### Programs that were read and accepted -/

/-- An accepted program with distinct nodes is well typed with exactly what was found. -/
theorem Source.exact_of_check {p : Source} {a : Annotations} (hnodes : p.nodes.Nodup)
    (hcheck : p.check = .ok a) : ∃ frame Φ, WellTyped a.exactNotes p frame Φ := by
  have hsuits : a.exactNotes.Suits p.nodes p.plain :=
    .inr ⟨fun _ _ => trivial, hnodes, .inr ⟨trivial, fun _ => trivial⟩⟩
  have hhold : a.exactNotes.Hold a p.nodes := fun _ _ => ⟨fun _ h => h, fun _ h => h⟩
  obtain ⟨frame, Φ, htyped⟩ := Source.wellTyped_of_check hcheck
  exact ⟨frame, Φ, htyped a.exactNotes hsuits hhold⟩

/-- Every function of a well-typed program has a body that is well typed. -/
theorem Typing.Functions.body_of_mem {N : Notes} {globals : Locals} {Φ Φ' : Signatures}
    {fs : List FunctionDecl} (h : Functions N globals Φ fs Φ') {f : FunctionDecl} (hf : f ∈ fs) :
    ∃ r Φ₁, Signature f r ∧ Body N Φ₁ globals f r := by
  induction h with
  | nil => cases hf
  | cons hsignature _ _ hbody _ ih =>
    rcases List.mem_cons.1 hf with rfl | hf
    · exact ⟨_, _, hsignature, hbody⟩
    · exact ih hf

/-- What one of several steps visits is visited in all of them. -/
theorem mem_visitsOfSteps {α : Type} (step : α → Check Unit) (visits : α → Checker → List Visit)
    {xs : List α} {x : α} (hx : x ∈ xs) (s : Checker) :
    ∃ s', visits x s' ⊆ visitsOfSteps step visits xs s := by
  induction xs generalizing s with
  | nil => cases hx
  | cons x' xs ih =>
    rcases List.mem_cons.1 hx with rfl | hx
    · exact ⟨s, List.subset_append_left _ _⟩
    · obtain ⟨s', hs'⟩ := ih hx (after (step x') s)
      exact ⟨s', List.Subset.trans hs' (List.subset_append_right _ _)⟩

/-- The function that is recorded for a function of an accepted program is its signature. -/
theorem Source.function_of_check {p : Source} {a : Annotations} (hnodes : p.nodes.Nodup)
    (hcheck : p.check = .ok a) {f : FunctionDecl} (hf : f ∈ p.functions) {r : Routine Unit}
    (hsignature : Typing.Signature f r) : a.functions.find? f.id = some r := by
  obtain ⟨s, hs⟩ := mem_visitsOfSteps Check.function FunctionDecl.visits hf
    (after (p.globals.forM Check.global) Check.start)
  have hvisit : ⟨.function f, s⟩ ∈ p.visits := List.mem_append_right _ (hs List.mem_cons_self)
  have hnodup : (p.visits.map (·.node.id)).Nodup := p.visits_covers.nodes.nodup_iff.2 hnodes
  obtain ⟨r', hr', hfind⟩ := (Source.records_of_check hcheck).recorded hnodup _ hvisit
  obtain rfl : r = r' := Except.ok.inj ((Check.signature_eq hsignature).symm.trans hr')
  exact hfind

/-- **In the text of a method exactly those variables are declared a second time that hide a
parameter or another variable of the function, or have the name of a variable of an earlier
arm.**  For every function of a program that is read and accepted there is a text, it is part
of the text of the program, and `FunctionDecl.hiding` lists what is declared in it where a
parameter or variable of the same name is in scope. -/
theorem java_redeclares_hidden {firstId next : NodeId} {text : String} {p : Source}
    {a : Annotations} {f : FunctionDecl}
    (hread : Pipeline.sourceFrom firstId text = .ok (p, next)) (hcheck : p.check = .ok a)
    (hf : f ∈ p.functions) :
    ∃ lines before after, Java.method a f = .ok lines ∧
      Pipeline.java p = .ok (before ++ Java.render lines ++ after) ∧
        Java.redeclared (Java.render lines) = f.hiding := by
  obtain ⟨-, hnodes⟩ := Pipeline.sourceFrom_ok hread
  obtain ⟨frame, Φ, htyped⟩ := Source.exact_of_check hnodes hcheck
  obtain ⟨r, Φ₁, hsignature, hbody⟩ := htyped.functions.body_of_mem hf
  have hr := Source.function_of_check hnodes hcheck hf hsignature
  have hwritten := Pipeline.sourceFrom_declarations_written hread f hf
  have hclear : ∀ e ∈ f.parts, Java.Clear a e := fun e he =>
    Java.clear_of_check hread hcheck e
      (List.mem_append_right _ (List.mem_flatMap.2 ⟨f, hf, he⟩))
  obtain ⟨lines, hlines, hleads⟩ := Java.method_reads hr hsignature hbody hwritten hclear
  obtain ⟨java, hjava⟩ := Source.exists_java_of_check hcheck
  obtain ⟨before, after, rfl⟩ :=
    Java.program_eq (Pipeline.program_of_java hcheck hjava) hf hlines
  refine ⟨lines, before, after, hlines, hjava, ?_⟩
  rw [Java.redeclared, hleads]

/-- A parameter and a variable that are hidden, and arms with variables of one name. -/
theorem java_redeclares_hidden_everywhere :
    ∃ p next a f lines before after, Pipeline.sourceFrom 0 "FUN f(n: Integer): Integer DO LET x = 1;
        WHILE n > x DO LET n = \"; x\"; END IF n > 1 DO LET y = 2; ELSE LET x = 3; END
        SWITCH n CASE 1: LET z = 1; DEFAULT LET z = 2; LET y = 3; END RETURN x; END
        FUN main(): Integer DO RETURN f(0); END" = .ok (p, next) ∧
      p.check = .ok a ∧ f ∈ p.functions ∧ f.hiding = ["n", "x", "z"] ∧
        Java.method a f = .ok lines ∧
          Pipeline.java p = .ok (before ++ Java.render lines ++ after) ∧
            Java.redeclared (Java.render lines) = ["n", "x", "z"] := by
  obtain ⟨⟨p, next⟩, hread, hgood⟩ := exists_ok_of_any
    (fun ⟨p, _⟩ => p.check.toOption.any fun _ => p.functions.any (·.hiding = ["n", "x", "z"]))
    (show (Pipeline.sourceFrom 0 "FUN f(n: Integer): Integer DO LET x = 1;
        WHILE n > x DO LET n = \"; x\"; END IF n > 1 DO LET y = 2; ELSE LET x = 3; END
        SWITCH n CASE 1: LET z = 1; DEFAULT LET z = 2; LET y = 3; END RETURN x; END
        FUN main(): Integer DO RETURN f(0); END").toOption.any _ = true by decide +kernel)
  obtain ⟨a, hcheck, hgood⟩ := exists_ok_of_any _ hgood
  obtain ⟨f, hf, hhiding⟩ := List.any_eq_true.1 hgood
  obtain ⟨lines, before, after, hlines, hjava, hredeclared⟩ :=
    java_redeclares_hidden hread hcheck hf
  have hnames := of_decide_eq_true hhiding
  exact ⟨p, next, a, f, lines, before, after, hread, hcheck, hf, hnames, hlines, hjava,
    hredeclared.trans hnames⟩

/-- Two arms declare `x`, and so the one block of their `switch` declares it twice. -/
theorem java_redeclares_in_arms :
    ∃ p next a f lines, Pipeline.sourceFrom 0 "FUN main(): Integer DO
        SWITCH 1 CASE 1: LET x = 1; DEFAULT LET x = 2; END RETURN 0; END" = .ok (p, next) ∧
      p.check = .ok a ∧ f ∈ p.functions ∧ Java.method a f = .ok lines ∧
        lines = [⟨1, "int main() \x7b"⟩, ⟨2, "switch (1) \x7b"⟩, ⟨3, "case 1:"⟩,
          ⟨4, "int x = 1;"⟩, ⟨4, "break;"⟩, ⟨3, "default:"⟩, ⟨4, "int x = 2;"⟩, ⟨2, "\x7d"⟩,
          ⟨2, "return 0;"⟩, ⟨1, "\x7d"⟩] ∧
          Java.redeclared (Java.render lines) = ["x"] := by
  obtain ⟨⟨p, next⟩, hread, hgood⟩ := exists_ok_of_any
    (fun ⟨p, _⟩ => p.check.toOption.any fun a => p.functions.any fun f =>
      (Java.method a f).toOption.any fun lines => decide (
        lines = [⟨1, "int main() \x7b"⟩, ⟨2, "switch (1) \x7b"⟩, ⟨3, "case 1:"⟩,
          ⟨4, "int x = 1;"⟩, ⟨4, "break;"⟩, ⟨3, "default:"⟩, ⟨4, "int x = 2;"⟩, ⟨2, "\x7d"⟩,
          ⟨2, "return 0;"⟩, ⟨1, "\x7d"⟩] ∧
          Java.redeclared (Java.render lines) = ["x"]))
    (show (Pipeline.sourceFrom 0 "FUN main(): Integer DO
        SWITCH 1 CASE 1: LET x = 1; DEFAULT LET x = 2; END RETURN 0; END").toOption.any _ = true
      by decide +kernel)
  obtain ⟨a, hcheck, hgood⟩ := exists_ok_of_any _ hgood
  obtain ⟨f, hf, hgood⟩ := List.any_eq_true.1 hgood
  obtain ⟨lines, hlines, hgood⟩ := exists_ok_of_any _ hgood
  exact ⟨p, next, a, f, lines, hread, hcheck, hf, hlines, of_decide_eq_true hgood⟩

end Scriptlet
