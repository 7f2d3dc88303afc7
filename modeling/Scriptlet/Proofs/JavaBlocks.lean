import Scriptlet.Java.Program
import Scriptlet.Proofs.JavaScan

/-!
# The variables in scope in Java text

A reader of the text of a method that keeps track of the variables in scope.  It takes one
character after the other (`Reader.feed`), puts them together to lexemes and other marks, and
knows of the structure of the text only this:

| text                                              | meaning                              |
|---------------------------------------------------|--------------------------------------|
| a type and a name before `=`, `;`, a comma or `)` | a variable or parameter is declared  |
| an opening brace                                  | a block begins                       |
| a closing brace                                   | the block ends, with its variables   |

A variable is in scope from its declaration to the end of the block that it is declared in.
Parameters are declared outside of the braces of the method, and the arms of a `switch` have
no braces of their own.  `redeclared` lists the variables that are declared where a variable
of the same name is in scope, which Java does not allow.  As in `JavaScan`, hyphens in names
are taken for part of them.

What a piece of text does to the reader is said by `Leads`.  Expressions declare nothing
(`leads_expression`).
-/

namespace Scriptlet
namespace Java

/-! ### Pieces of text -/

/-- A lexeme of expressions, or another character. -/
inductive Piece where
  | lexeme (l : Lexeme)
  | mark (c : Char)

/-- What was read, if it does not go on. -/
def Reading.pieces : Reading → List Piece
  | nothing => []
  | word read => [.lexeme (.word (.ofList read))]
  | number read => [.lexeme (.number (.ofList read))]
  | quoted _ read | escape _ read => [.lexeme (.quoted (.ofList read))]
  | double first => [.mark first]

/-- The pieces that end with or before a character, and what was read of the next one. -/
def pieceChar (r : Reading) (c : Char) : List Piece × Reading :=
  match scanChar true r c with
  | some (ls, r') => (ls.map .lexeme, r')
  | none =>
    match begin c with
    | some (ls, r') => (r.pieces ++ ls.map .lexeme, r')
    | none => (r.pieces ++ [.mark c], .nothing)

/-! ### Variables in scope -/

/-- Words that may stand before a name without being its type. -/
def leading : List String :=
  ["assert", "break", "case", "continue", "else", "new", "return", "throw"]

/-- The variable that words declare. -/
def declared? : List String → Option String
  | [type, name] => if type ∈ leading then none else some name
  | _ => none

/-- What the reader knows between two pieces. -/
structure Visible where
  /-- The words right before. -/
  words : List String
  /-- The variables declared in the open blocks, innermost first. -/
  blocks : List (List String)
  /-- The variables declared so far where one of the same name is in scope. -/
  redeclared : List String

namespace Visible

/-- A variable is declared in the innermost block. -/
def declare (v : Visible) (name : String) : Visible where
  words := []
  blocks := match v.blocks with
    | [] => [[name]]
    | own :: outer => (name :: own) :: outer
  redeclared := if name ∈ v.blocks.flatten then v.redeclared ++ [name] else v.redeclared

/-- The words right before end here; if they declare a variable it is in scope from now on. -/
def endWords (v : Visible) : Visible :=
  match declared? v.words with
  | some name => v.declare name
  | none => { v with words := [] }

/-- A piece is read. -/
def take (v : Visible) : Piece → Visible
  | .lexeme (.word w) => { v with words := v.words ++ [w] }
  | .lexeme .comma | .lexeme (.right .round) | .mark '=' | .mark ';' => v.endWords
  | .lexeme (.left .curly) => ⟨[], [] :: v.blocks, v.redeclared⟩
  | .lexeme (.right .curly) => ⟨[], v.blocks.tail, v.redeclared⟩
  | _ => { v with words := [] }

/-- Lexemes are read one after the other. -/
def takeAll (v : Visible) (ls : List Lexeme) : Visible := ls.foldl (fun v l => v.take (.lexeme l)) v

end Visible

/-- What the reader knows between two characters. -/
structure Reader where
  reading : Reading
  visible : Visible

/-- A character is read. -/
def Reader.feed (s : Reader) (c : Char) : Reader :=
  ⟨(pieceChar s.reading c).2, (pieceChar s.reading c).1.foldl Visible.take s.visible⟩

/-- **The variables that the text of a method declares a second time** while they are in
scope. -/
def redeclared (text : String) : List String :=
  (text.toList.foldl Reader.feed ⟨.nothing, [], [[]], []⟩).visible.redeclared

/-! ### What a text does to the reader -/

/-- Between two pieces, the text takes what the reader knows from the one to the other. -/
def Leads (cs : List Char) (v v' : Visible) : Prop :=
  cs.foldl Reader.feed ⟨.nothing, v⟩ = ⟨.nothing, v'⟩

/-- Characters that continue no word and no number. -/
def Delimits (c : Char) : Prop :=
  isWordTail true c = false ∧ ∀ read, isNumberTail read c = false

/-- Signs and blanks that end a word. -/
theorem delimits_of_mem {c : Char} (h : c ∈ [';', ':', ' ', '(', ')', ',']) : Delimits c := by
  have hplain : ∀ c ∈ [';', ':', ' ', '(', ')', ','],
      (isWordTail true c || c.isAlphanum || c = '.' || c = '+' || c = '-') = false :=
    List.all_iff_forall_prop.1 (by decide)
  have hc := hplain c h
  simp only [Bool.or_eq_false_iff, decide_eq_false_iff_not] at hc
  exact ⟨hc.1.1.1.1, fun read => by simp [isNumberTail, hc]⟩

section Pieces

variable {cs cs' : List Char} {v v₁ v' : Visible} {c : Char} {ls : List Lexeme}

/-- No text changes nothing. -/
theorem Leads.nil (v : Visible) : Leads [] v v := rfl

/-- One piece of text after the other. -/
theorem Leads.append (h : Leads cs v v₁) (h' : Leads cs' v₁ v') : Leads (cs ++ cs') v v' := by
  rw [Leads, List.foldl_append, h, h']

/-- One character, and then the rest. -/
theorem Leads.cons (h : Leads [c] v v₁) (h' : Leads cs v₁ v') : Leads (c :: cs) v v' := h.append h'

/-- A character that the scan accepts is fed to it, and the lexemes that it ends are taken. -/
theorem feed_eq {r r' : Reading} (h : scanChar true r c = some (ls, r')) (v : Visible) :
    Reader.feed ⟨r, v⟩ c = ⟨r', v.takeAll ls⟩ := by
  simp only [Reader.feed, pieceChar, h, List.foldl_map, Visible.takeAll]

/-- A lexeme ends before a character that does not continue it. -/
theorem feed_end {r : Reading} {l : Lexeme} (hpieces : r.pieces = [.lexeme l])
    (hend : scanChar true r c = (begin c).map fun (ls, r') => (l :: ls, r')) (v : Visible) :
    Reader.feed ⟨r, v⟩ c = Reader.feed ⟨.nothing, v.take (.lexeme l)⟩ c := by
  have hnothing : scanChar true .nothing c = begin c := rfl
  cases hbegin : begin c with
  | none =>
    rw [hbegin, Option.map_none] at hend
    rw [hbegin] at hnothing
    simp only [Reader.feed, pieceChar, hend, hnothing, hbegin, hpieces]
    rfl
  | some next =>
    rw [hbegin, Option.map_some] at hend
    rw [hbegin] at hnothing
    rw [feed_eq hend, feed_eq hnothing]
    rfl

/-- The lexemes of a text are read before a character that separates them from the rest. -/
theorem foldl_feed_of_scanFrom (hc : Delimits c) {r : Reading}
    (h : scanFrom true r cs = some ls) (v : Visible) :
    (cs.foldl Reader.feed ⟨r, v⟩).feed c = Reader.feed ⟨.nothing, v.takeAll ls⟩ c := by
  induction cs generalizing r v ls with
  | nil =>
    cases r with
    | nothing =>
      cases h
      rfl
    | word read =>
      cases h
      have hend : ¬ isWordTail true c = true := by simp [hc.1]
      exact feed_end (r := .word read) rfl (if_neg hend) v
    | number read =>
      cases h
      have hend : ¬ isNumberTail read c = true := by simp [hc.2]
      exact feed_end (r := .number read) rfl (if_neg hend) v
    | quoted | escape | double => cases h
  | cons d cs ih =>
    obtain ⟨⟨first, r'⟩, hchar, hrest⟩ := Option.bind_eq_some_iff.1 h
    obtain ⟨rest, hscan, rfl⟩ := Option.map_eq_some_iff.1 hrest
    rw [List.foldl_cons, feed_eq hchar, ih hscan]
    simp only [Visible.takeAll, List.foldl_append]

/-- A text of lexemes, and what follows. -/
theorem Leads.of_scanFrom (h : scanFrom true .nothing cs = some ls) (hc : Delimits c)
    (hrest : Leads (c :: cs') (v.takeAll ls) v') : Leads (cs ++ c :: cs') v v' := by
  rw [Leads, List.foldl_cons] at hrest
  rw [Leads, List.foldl_append, List.foldl_cons, foldl_feed_of_scanFrom hc h, hrest]

/-- A word is put after the words before it, once its end is seen. -/
theorem Leads.of_isWord {w : String} (h : IsWord true w.toList) (hc : Delimits c)
    (hrest : Leads (c :: cs') { v with words := v.words ++ [w] } v') :
    Leads (w.toList ++ c :: cs') v v' := by
  have hscan := h.scans.scan
  rw [String.ofList_toList] at hscan
  exact .of_scanFrom hscan hc hrest

/-- A lexeme of one character. -/
theorem leads_lexeme {l : Lexeme} (h : begin c = some ([l], .nothing)) (v : Visible) :
    Leads [c] v (v.take (.lexeme l)) :=
  feed_eq (r := .nothing) h v

/-- Blanks mean nothing. -/
theorem leads_blank (v : Visible) : Leads [' '] v v := rfl

/-- Ends of lines mean nothing. -/
theorem leads_newline (v : Visible) : Leads ['\n'] v v := rfl

/-- The sign of an assignment is told from `==` by the blank after it. -/
theorem leads_equals (v : Visible) : Leads ['=', ' '] v (v.take (.mark '=')) := rfl

/-- A semicolon. -/
theorem leads_semicolon (v : Visible) : Leads [';'] v (v.take (.mark ';')) := rfl

/-- A colon. -/
theorem leads_colon (v : Visible) : Leads [':'] v (v.take (.mark ':')) := rfl

end Pieces

/-! ### Expressions -/

/-- Another word after these declares nothing. -/
def Typeless (words : List String) : Prop := words = [] ∨ ∃ w ∈ leading, words = [w]

/-- No words are no type. -/
theorem Typeless.nil : Typeless [] := .inl rfl

/-- After words that are no type, a name declares nothing. -/
theorem Typeless.declared? {words : List String} (h : Typeless words) (w : String) :
    declared? (words ++ [w]) = none := by
  rcases h with rfl | ⟨first, hfirst, rfl⟩
  · rfl
  · exact if_pos hfirst

/-- Words that declare nothing are dropped. -/
theorem Visible.endWords_of_none {v : Visible} (h : declared? v.words = none) :
    v.endWords = { v with words := [] } := by
  rw [endWords, h]

/-- Lexemes are taken one after the other. -/
theorem Visible.takeAll_append (v : Visible) (ls ls' : List Lexeme) :
    v.takeAll (ls ++ ls') = (v.takeAll ls).takeAll ls' := List.foldl_append

/-- Up to its opening bracket an expression declares nothing. -/
theorem takeAll_opening (head : Head) (words : List String) (blocks : List (List String))
    (found : List String) :
    Visible.takeAll ⟨words, blocks, found⟩ head.opening =
      ⟨[], if head = .array then [] :: blocks else blocks, found⟩ := by
  cases head with
  | parens | element | array => rfl
  | call cast name => cases cast <;> rfl

/-- After a bracket closes, the blocks are those before it opened. -/
theorem take_closing (head : Head) {words : List String} (h : declared? words = none)
    (blocks : List (List String)) (found : List String) :
    Visible.take ⟨words, if head = .array then [] :: blocks else blocks, found⟩
      (.lexeme (.right head.closing)) = ⟨[], blocks, found⟩ := by
  cases head with
  | parens | call => exact Visible.endWords_of_none h
  | element | array => rfl

mutual

/-- **An expression declares nothing**, and neither do its last words. -/
theorem takeAll_lexemes (blocks : List (List String)) (found : List String) :
    (t : Tree) → {words : List String} → Typeless words → ∃ words', declared? words' = none ∧
      Visible.takeAll ⟨words, blocks, found⟩ t.lexemes = ⟨words', blocks, found⟩
  | .word text, words, h => ⟨words ++ [text], h.declared? text, rfl⟩
  | .number negative text, _, _ => ⟨[], rfl, by cases negative <;> rfl⟩
  | .quoted text, _, _ => ⟨[], rfl, rfl⟩
  | .bracket head items, _, _ => by
    obtain ⟨words', hquiet, hitems⟩ := takeAll_lexemesOfList
      (if head = .array then [] :: blocks else blocks) found items
    refine ⟨[], rfl, ?_⟩
    rw [Tree.lexemes, Visible.takeAll_append, takeAll_opening, Visible.takeAll_append,
      hitems]
    exact take_closing head hquiet blocks found
  | .binary op left right, _, h => by
    obtain ⟨words₁, -, hleft⟩ := takeAll_lexemes blocks found left h
    obtain ⟨words', hquiet, hright⟩ := takeAll_lexemes blocks found right .nil
    refine ⟨words', hquiet, ?_⟩
    rw [Tree.lexemes, Visible.takeAll_append, hleft]
    exact hright

/-- A list of trees declares nothing, and leaves words that declare nothing. -/
theorem takeAll_lexemesOfList (blocks : List (List String)) (found : List String) :
    (ts : List Tree) → ∃ words', declared? words' = none ∧
      Visible.takeAll ⟨[], blocks, found⟩ (Tree.lexemesOfList ts) = ⟨words', blocks, found⟩
  | [] => ⟨[], rfl, rfl⟩
  | [t] => takeAll_lexemes blocks found t .nil
  | t :: u :: rest => by
    obtain ⟨words₁, hquiet₁, hfirst⟩ := takeAll_lexemes blocks found t .nil
    obtain ⟨words', hquiet, hrest⟩ := takeAll_lexemesOfList blocks found (u :: rest)
    refine ⟨words', hquiet, ?_⟩
    have hcomma : Visible.take ⟨words₁, blocks, found⟩ (.lexeme .comma) = ⟨[], blocks, found⟩ :=
      Visible.endWords_of_none hquiet₁
    rw [Tree.lexemesOfList, Visible.takeAll_append, hfirst, Visible.takeAll, List.foldl_cons,
      hcomma]
    exact hrest

end

/-- The text of an expression, and what follows. -/
theorem leads_expression {t : Tree} (h : t.Scannable true) {words : List String}
    (hwords : Typeless words) {blocks : List (List String)} {found : List String} {c : Char}
    (hc : Delimits c) {cs : List Char} {v' : Visible}
    (hrest : ∀ words', declared? words' = none → Leads (c :: cs) ⟨words', blocks, found⟩ v') :
    Leads (t.text ++ c :: cs) ⟨words, blocks, found⟩ v' := by
  obtain ⟨words', hquiet, htake⟩ := takeAll_lexemes blocks found t hwords
  refine .of_scanFrom (h.scans t).scan hc ?_
  rw [htake]
  exact hrest words' hquiet

/-! ### Lines -/

/-- The text of lines. -/
def render (lines : List Line) : String := String.join (lines.map Line.render)

/-- The text of lines starts with that of the first. -/
theorem toList_render_cons (l : Line) (lines : List Line) :
    (render (l :: lines)).toList = l.render.toList ++ (render lines).toList := by
  simp [render]

/-- The text of lines and more lines. -/
theorem render_append (lines lines' : List Line) :
    render (lines ++ lines') = render lines ++ render lines' := by
  simp [render]

/-- Blanks are skipped. -/
theorem leads_indentation (n : Nat) (v : Visible) : Leads (List.replicate n ' ') v v := by
  induction n with
  | zero => exact .nil v
  | succ n ih => exact (leads_blank v).append ih

/-- Lines take what the reader knows from the one to the other. -/
def LeadsLines (lines : List Line) (v v' : Visible) : Prop := Leads (render lines).toList v v'

namespace LeadsLines

variable {lines lines' : List Line} {v v₁ v' : Visible}

/-- No lines change nothing. -/
theorem nil (v : Visible) : LeadsLines [] v v := rfl

/-- Indentation and the end of a line mean nothing. -/
theorem cons (depth : Nat) {text : String} (h : Leads text.toList v v₁)
    (hrest : LeadsLines lines v₁ v') : LeadsLines (⟨depth, text⟩ :: lines) v v' := by
  have hline : Leads (Line.render ⟨depth, text⟩).toList v v₁ := by
    rw [Line.render, String.toList_append, String.toList_append, String.toList_ofList]
    exact ((leads_indentation _ v).append h).append (leads_newline v₁)
  rw [LeadsLines, toList_render_cons]
  exact hline.append hrest

/-- A line does what its text does: its indentation means nothing. -/
theorem single (depth : Nat) {text : String} (h : Leads text.toList v v') :
    LeadsLines [⟨depth, text⟩] v v' := cons depth h (nil v')

/-- Lines, and then more lines. -/
theorem append (h : LeadsLines lines v v₁) (h' : LeadsLines lines' v₁ v') :
    LeadsLines (lines ++ lines') v v' := by
  rw [LeadsLines, render_append, String.toList_append]
  exact Leads.append h h'

end LeadsLines

end Java
end Scriptlet
