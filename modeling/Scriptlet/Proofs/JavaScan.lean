import Scriptlet.Java.Expression
import Scriptlet.Proofs.JavaReader
import Scriptlet.Proofs.Lexeme

/-!
# From Java text to lexemes

A text is split into lexemes character by character; what of a lexeme was read is the state
of the scan (`Reading`).  Words may contain dots, so that `System.out.println` is one word.
In Java they may not contain hyphens, but in the language they may; `hyphens` tells which of
the two is meant.  Operators that no expression of the language is written with are left out.

`Tree.text` is the text of a tree, with a blank around operators and after commas.  Scanning
it gives the lexemes of the tree (`Tree.Scannable.scans`), and so `read_text` carries
`read_lexemes` over to texts.
-/

namespace Scriptlet
namespace Java

/-! ### Scanning -/

/-- Characters of a word after its first letter. -/
def isWordTail (hyphens : Bool) (c : Char) : Bool :=
  c.isAlphanum || c = '_' || c = '.' || (hyphens && c = '-')

/-- Whether a character continues a number; a sign does so after the mark of an exponent. -/
def isNumberTail (read : List Char) (c : Char) : Bool :=
  c.isAlphanum || c = '.' || ((c = '+' || c = '-') && read.getLast?.any Decimal.isPowerMark)

/-- Lexemes of one character. -/
def single? : Char → Option Lexeme
  | '(' => some (.left .round)
  | ')' => some (.right .round)
  | '[' => some (.left .square)
  | ']' => some (.right .square)
  | '\x7b' => some (.left .curly)
  | '\x7d' => some (.right .curly)
  | ',' => some .comma
  | '<' => some (.operator .less)
  | '>' => some (.operator .greater)
  | '+' => some (.operator .add)
  | '-' => some (.operator .subtract)
  | '*' => some (.operator .multiply)
  | '/' => some (.operator .divide)
  | _ => none

/-- Operators of two characters. -/
def double? : Char → Char → Option BinaryOp
  | '&', '&' => some .and
  | '|', '|' => some .or
  | '=', '=' => some .equal
  | '!', '=' => some .notEqual
  | _, _ => none

/-- What of a lexeme was read. -/
inductive Reading where
  | nothing
  | word (read : List Char)
  | number (read : List Char)
  | quoted (quote : Char) (read : List Char)
  /-- A backslash between quotes comes last. -/
  | escape (quote : Char) (read : List Char)
  /-- The first character of an operator of two. -/
  | double (first : Char)

/-- The lexeme that a character is, if any, or what of a lexeme it is. -/
def begin (c : Char) : Option (List Lexeme × Reading) :=
  if Lexer.isBlank c then some ([], .nothing)
  else if c.isAlpha then some ([], .word [c])
  else if c.isDigit then some ([], .number [c])
  else if c = Escape.singleQuote ∨ c = Escape.doubleQuote then some ([], .quoted c [c])
  else if c = '&' ∨ c = '|' ∨ c = '=' ∨ c = '!' then some ([], .double c)
  else (single? c).map fun l => ([l], .nothing)

/-- The lexemes that end with or before a character, and what was read of the next one. -/
def scanChar (hyphens : Bool) : Reading → Char → Option (List Lexeme × Reading)
  | .nothing, c => begin c
  | .word read, c =>
    if isWordTail hyphens c then some ([], .word (read ++ [c]))
    else (begin c).map fun (ls, r) => (.word (.ofList read) :: ls, r)
  | .number read, c =>
    if isNumberTail read c then some ([], .number (read ++ [c]))
    else (begin c).map fun (ls, r) => (.number (.ofList read) :: ls, r)
  | .quoted quote read, c =>
    if c = Escape.backslash then some ([], .escape quote (read ++ [c]))
    else if c = quote then some ([.quoted (.ofList (read ++ [c]))], .nothing)
    else some ([], .quoted quote (read ++ [c]))
  | .escape quote read, c => some ([], .quoted quote (read ++ [c]))
  | .double first, c => (double? first c).map fun op => ([.operator op], .nothing)

/-- The lexeme that ends with the text. -/
def Reading.finish : Reading → Option (List Lexeme)
  | nothing => some []
  | word read => some [.word (.ofList read)]
  | number read => some [.number (.ofList read)]
  | quoted _ _ | escape _ _ | double _ => none

/-- The lexemes of the rest of a text. -/
def scanFrom (hyphens : Bool) : Reading → List Char → Option (List Lexeme)
  | r, [] => r.finish
  | r, c :: rest =>
    (scanChar hyphens r c).bind fun (ls, r') => (scanFrom hyphens r' rest).map (ls ++ ·)

/-- **Reads a Java expression.** -/
def read (hyphens : Bool) (text : String) : Option Tree :=
  (scanFrom hyphens .nothing text.toList).bind readLexemes

/-! ### Texts of trees -/

/-- The character of a closing bracket. -/
def Bracket.closing : Bracket → Char
  | round => ')'
  | square => ']'
  | curly => '\x7d'

/-- The text up to an opening bracket. -/
def Head.text : Head → List Char
  | parens => ['(']
  | element name => name.toList ++ ['[']
  | call false name => name.toList ++ ['(']
  | call true name => '(' :: ('i' :: 'n' :: 't' :: [')', ' '] ++ (name.toList ++ ['(']))
  | array => ['\x7b']

namespace Tree

mutual

/-- The text of a tree. -/
def text : Tree → List Char
  | word text => text.toList
  | number negative text => if negative then '-' :: text.toList else text.toList
  | quoted text => text.toList
  | bracket head items => head.text ++ (textOfList items ++ [head.closing.closing])
  | binary op left right => left.text ++ (' ' :: (op.symbol.toList ++ [' ']) ++ right.text)

/-- The texts of trees, with commas between them. -/
def textOfList : List Tree → List Char
  | [] => []
  | [t] => t.text
  | t :: u :: rest => t.text ++ ([',', ' '] ++ textOfList (u :: rest))

end

end Tree

/-! ### Pieces of text -/

/-- Blanks, brackets and commas. -/
def stops : List Char := [' ', '(', ')', '[', ']', '\x7b', '\x7d', ',']

/-- What may follow a word or number. -/
def Stops (rest : List Char) : Prop := ∀ c ∈ rest.head?, c ∈ stops

/-- Before any text the characters are scanned as these lexemes. -/
def Marks (hyphens : Bool) (cs : List Char) (ls : List Lexeme) : Prop :=
  ∀ rest, scanFrom hyphens .nothing (cs ++ rest) = (scanFrom hyphens .nothing rest).map (ls ++ ·)

/-- Before a text that starts with a blank, a bracket or a comma the characters are scanned as
these lexemes. -/
def Scans (hyphens : Bool) (cs : List Char) (ls : List Lexeme) : Prop :=
  ∀ rest, Stops rest →
    scanFrom hyphens .nothing (cs ++ rest) = (scanFrom hyphens .nothing rest).map (ls ++ ·)

section Pieces

variable {hyphens : Bool} {cs cs' : List Char} {ls ls' : List Lexeme}

/-- A text that starts with a blank, a bracket or a comma. -/
theorem Stops.cons {c : Char} (hc : c ∈ stops) (rest : List Char) : Stops (c :: rest) := by
  intro d hd
  obtain rfl : c = d := Option.some.inj hd
  exact hc

/-- What is scanned before any text is scanned before some. -/
theorem Marks.scans (h : Marks hyphens cs ls) : Scans hyphens cs ls := fun rest _ => h rest

/-- Lexemes are put in front one lot after the other. -/
theorem map_append_map (ls ls' : List Lexeme) (x : Option (List Lexeme)) :
    (x.map (ls' ++ ·)).map (ls ++ ·) = x.map (ls ++ ls' ++ ·) := by
  cases x with
  | none => rfl
  | some ks => exact congrArg some (List.append_assoc ls ls' ks).symm

/-- Pieces that can stand anywhere are put together. -/
theorem Marks.append (h : Marks hyphens cs ls) (h' : Marks hyphens cs' ls') :
    Marks hyphens (cs ++ cs') (ls ++ ls') := by
  intro rest
  rw [List.append_assoc, h, h', map_append_map]

/-- A piece that can stand anywhere may come before any other. -/
theorem Marks.before (h : Marks hyphens cs ls) (h' : Scans hyphens cs' ls') :
    Scans hyphens (cs ++ cs') (ls ++ ls') := by
  intro rest hrest
  rw [List.append_assoc, h, h' rest hrest, map_append_map]

/-- What follows a word or number is scanned by itself. -/
theorem Scans.before {c : Char} (h : Scans hyphens cs ls) (hc : c ∈ stops)
    (h' : Marks hyphens (c :: cs') ls') : Marks hyphens (cs ++ c :: cs') (ls ++ ls') := by
  intro rest
  rw [List.append_assoc, h (c :: cs' ++ rest) (.cons hc _), h', map_append_map]

/-- A piece that is the whole text. -/
theorem Scans.scan (h : Scans hyphens cs ls) : scanFrom hyphens .nothing cs = some ls := by
  have hscan := h [] nofun
  rwa [List.append_nil, scanFrom, Reading.finish, Option.map_some, List.append_nil] at hscan

/-- One character, and the scan goes on from what it leaves. -/
theorem scanFrom_cons {r r' : Reading} {c : Char} (h : scanChar hyphens r c = some (ls, r'))
    (rest : List Char) :
    scanFrom hyphens r (c :: rest) = (scanFrom hyphens r' rest).map (ls ++ ·) := by
  rw [scanFrom, h, Option.bind_some]

/-- A character that completes no lexeme. -/
theorem scanFrom_on {r r' : Reading} {c : Char} (h : scanChar hyphens r c = some ([], r'))
    (rest : List Char) : scanFrom hyphens r (c :: rest) = scanFrom hyphens r' rest :=
  (scanFrom_cons h rest).trans Option.map_id'

/-- A lexeme ends before a character that does not continue it. -/
theorem scanFrom_end {r : Reading} {l : Lexeme} (hfinish : r.finish = some [l])
    (hend : ∀ c ∈ stops, scanChar hyphens r c = (begin c).map fun (ls, r') => (l :: ls, r'))
    {rest : List Char} (hrest : Stops rest) :
    scanFrom hyphens r rest = (scanFrom hyphens .nothing rest).map ([l] ++ ·) := by
  cases rest with
  | nil => exact hfinish
  | cons c rest =>
    have hc : c ∈ stops := hrest c rfl
    rw [scanFrom, scanFrom, hend c hc, scanChar]
    cases begin c with
    | none => rfl
    | some next => exact (map_append_map [l] next.1 _).symm

/-! ### Words -/

/-- A letter and characters that continue a word. -/
def IsWord (hyphens : Bool) (cs : List Char) : Prop :=
  ∃ c rest, cs = c :: rest ∧ c.isAlpha = true ∧ ∀ d ∈ rest, isWordTail hyphens d = true

/-- Nothing that ends a word continues it. -/
theorem isWordTail_of_mem_stops (hyphens : Bool) : ∀ c ∈ stops, isWordTail hyphens c = false := by
  cases hyphens <;> exact List.all_iff_forall_prop.1 (by decide)

/-- Letters and digits are no blanks. -/
theorem not_isBlank_of_isAlphanum {c : Char} (h : c.isAlphanum = true) :
    Lexer.isBlank c = false := by
  by_contra hblank
  rw [Bool.not_eq_false, isBlank_iff] at hblank
  rcases hblank with rfl | rfl | rfl | rfl | rfl <;> exact absurd h (by decide)

/-- A letter begins a word. -/
theorem begin_letter {c : Char} (h : c.isAlpha = true) : begin c = some ([], .word [c]) := by
  have hblank : Lexer.isBlank c = false := not_isBlank_of_isAlphanum (by simp [Char.isAlphanum, h])
  rw [begin, hblank, if_neg Bool.false_ne_true, if_pos h]

/-- A word is read on as long as its characters last. -/
theorem scanFrom_word (w : List Char) (hw : ∀ d ∈ w, isWordTail hyphens d = true)
    (read rest : List Char) :
    scanFrom hyphens (.word read) (w ++ rest) = scanFrom hyphens (.word (read ++ w)) rest := by
  induction w generalizing read with
  | nil => rw [List.nil_append, List.append_nil]
  | cons d w ih =>
    obtain ⟨hd, hw⟩ := List.forall_mem_cons.1 hw
    have hscan : scanChar hyphens (.word read) d = some ([], .word (read ++ [d])) := if_pos hd
    rw [List.cons_append, scanFrom_on hscan, ih hw, List.append_assoc, List.singleton_append]

/-- A word is one lexeme. -/
theorem IsWord.scans (h : IsWord hyphens cs) : Scans hyphens cs [.word (.ofList cs)] := by
  obtain ⟨c, w, rfl, hc, hw⟩ := h
  intro rest hrest
  have hscan : scanChar hyphens .nothing c = some ([], .word [c]) := begin_letter hc
  rw [List.cons_append, scanFrom_on hscan, scanFrom_word w hw]
  refine scanFrom_end rfl (fun d hd => ?_) hrest
  have htail := isWordTail_of_mem_stops hyphens d hd
  exact if_neg (by rw [htail]; exact Bool.false_ne_true)

/-! ### Numbers -/

/-- The characters of the second list continue the number that is in the first. -/
def Continues : List Char → List Char → Prop
  | _, [] => True
  | read, c :: rest => isNumberTail read c = true ∧ Continues (read ++ [c]) rest

/-- A digit and characters that continue a number. -/
def IsNumber (cs : List Char) : Prop :=
  ∃ c rest, cs = c :: rest ∧ c.isDigit = true ∧ Continues [c] rest

/-- A number is continued, and then continued again. -/
theorem Continues.append : {read u v : List Char} → Continues read u → Continues (read ++ u) v →
    Continues read (u ++ v)
  | _, [], _, _, hv => by rwa [List.append_nil] at hv
  | read, c :: u, v, ⟨hc, hu⟩, hv => by
    refine ⟨hc, hu.append ?_⟩
    rwa [List.append_assoc, List.singleton_append]

/-- Digits, letters and dots continue every number. -/
theorem continues_of_forall (read : List Char) {u : List Char}
    (h : ∀ c ∈ u, c.isAlphanum = true ∨ c = '.') : Continues read u := by
  induction u generalizing read with
  | nil => trivial
  | cons c u ih =>
    obtain ⟨hc, hu⟩ := List.forall_mem_cons.1 h
    refine ⟨?_, ih _ hu⟩
    rcases hc with hc | rfl
    · simp [isNumberTail, hc]
    · rfl

/-- Nothing that ends a number continues it. -/
theorem isNumberTail_of_mem_stops (read : List Char) :
    ∀ c ∈ stops, isNumberTail read c = false := by
  have hplain : ∀ c ∈ stops, (c.isAlphanum || c = '.' || c = '+' || c = '-') = false :=
    List.all_iff_forall_prop.1 (by decide)
  intro c hc
  have h := hplain c hc
  simp only [Bool.or_eq_false_iff, decide_eq_false_iff_not] at h
  simp [isNumberTail, h]

/-- A digit begins a number. -/
theorem begin_digit {c : Char} (h : c.isDigit = true) : begin c = some ([], .number [c]) := by
  have hblank : Lexer.isBlank c = false := not_isBlank_of_isAlphanum (by simp [Char.isAlphanum, h])
  have hletter : ¬ c.isAlpha = true := by
    rw [isAlpha_iff]
    exact (isDigit_iff.1 h).not_letter
  rw [begin, hblank, if_neg Bool.false_ne_true, if_neg hletter, if_pos h]

/-- A number is read on as long as its characters last. -/
theorem scanFrom_number {u : List Char} {read : List Char} (hu : Continues read u)
    (rest : List Char) :
    scanFrom hyphens (.number read) (u ++ rest) = scanFrom hyphens (.number (read ++ u)) rest := by
  induction u generalizing read with
  | nil => rw [List.nil_append, List.append_nil]
  | cons d u ih =>
    have hscan : scanChar hyphens (.number read) d = some ([], .number (read ++ [d])) := if_pos hu.1
    rw [List.cons_append, scanFrom_on hscan, ih hu.2, List.append_assoc, List.singleton_append]

/-- A number is one lexeme. -/
theorem IsNumber.scans (h : IsNumber cs) : Scans hyphens cs [.number (.ofList cs)] := by
  obtain ⟨c, u, rfl, hc, hu⟩ := h
  intro rest hrest
  have hscan : scanChar hyphens .nothing c = some ([], .number [c]) := begin_digit hc
  rw [List.cons_append, scanFrom_on hscan, scanFrom_number hu]
  refine scanFrom_end rfl (fun d hd => ?_) hrest
  have htail := isNumberTail_of_mem_stops ([c] ++ u) d hd
  exact if_neg (by rw [htail]; exact Bool.false_ne_true)

/-! ### Quoted texts -/

/-- A character is written as it is, or with a backslash in front of another one. -/
theorem encodeChar_cases (quote c : Char) :
    (∃ d, Escape.encodeChar quote c = [Escape.backslash, d]) ∨
      (Escape.encodeChar quote c = [c] ∧ c ≠ Escape.backslash ∧ c ≠ quote) := by
  unfold Escape.encodeChar
  split_ifs with _ _ _ _ h
  · exact .inl ⟨_, rfl⟩
  · exact .inl ⟨_, rfl⟩
  · exact .inl ⟨_, rfl⟩
  · exact .inl ⟨_, rfl⟩
  · exact .inl ⟨_, rfl⟩
  · exact .inr ⟨rfl, not_or.1 h⟩

/-- The closing quote is not among the characters of the content. -/
theorem scanFrom_quoted (quote : Char) (content read rest : List Char) :
    scanFrom hyphens (.quoted quote read) (content.flatMap (Escape.encodeChar quote) ++ rest) =
      scanFrom hyphens (.quoted quote (read ++ content.flatMap (Escape.encodeChar quote)))
        rest := by
  induction content generalizing read with
  | nil => rw [List.flatMap_nil, List.nil_append, List.append_nil]
  | cons c content ih =>
    rw [List.flatMap_cons, List.append_assoc, ← List.append_assoc read]
    rcases encodeChar_cases quote c with ⟨d, hd⟩ | ⟨hplain, hbackslash, hc⟩
    · have hfirst : scanChar hyphens (.quoted quote read) Escape.backslash =
          some ([], .escape quote (read ++ [Escape.backslash])) := by rw [scanChar, if_pos rfl]
      have hsecond : scanChar hyphens (.escape quote (read ++ [Escape.backslash])) d =
          some ([], .quoted quote (read ++ [Escape.backslash] ++ [d])) := rfl
      rw [hd, List.cons_append, scanFrom_on hfirst, List.singleton_append, scanFrom_on hsecond, ih,
        List.append_assoc read]
      rfl
    · have hscan : scanChar hyphens (.quoted quote read) c =
          some ([], .quoted quote (read ++ [c])) := by
        rw [scanChar, if_neg hbackslash, if_neg hc]
      rw [hplain, List.singleton_append, scanFrom_on hscan, ih]

/-- The text of a character or string literal. -/
def IsQuoted (cs : List Char) : Prop :=
  ∃ quote content, (quote = Escape.singleQuote ∨ quote = Escape.doubleQuote) ∧
    cs = Escape.encode quote content

/-- A character or string literal is one lexeme, and ends at its quote. -/
theorem IsQuoted.marks (h : IsQuoted cs) : Marks hyphens cs [.quoted (.ofList cs)] := by
  obtain ⟨quote, content, hquote, rfl⟩ := h
  have hbegin : begin quote = some ([], .quoted quote [quote]) := by
    rcases hquote with rfl | rfl <;> rfl
  have hbackslash : quote ≠ Escape.backslash := by
    rcases hquote with rfl | rfl <;> decide
  intro rest
  have hopen : scanChar hyphens .nothing quote = some ([], .quoted quote [quote]) := hbegin
  have hclose (read : List Char) : scanChar hyphens (.quoted quote read) quote =
      some ([.quoted (.ofList (read ++ [quote]))], .nothing) := by
    rw [scanChar, if_neg hbackslash, if_pos rfl]
  rw [Escape.encode, List.cons_append, List.cons_append, scanFrom_on hopen, List.append_assoc,
    scanFrom_quoted]
  exact scanFrom_cons (hclose _) rest

/-! ### Symbols -/

/-- A sign of one character. -/
theorem marks_single {c : Char} {l : Lexeme} (h : begin c = some ([l], .nothing)) :
    Marks hyphens [c] [l] := by
  intro rest
  have hscan : scanChar hyphens .nothing c = some ([l], .nothing) := h
  rw [List.singleton_append, scanFrom_cons hscan]

/-- An operator of two characters. -/
theorem marks_double {c d : Char} {op : BinaryOp} (hc : begin c = some ([], .double c))
    (hop : double? c d = some op) : Marks hyphens [c, d] [.operator op] := by
  intro rest
  have hfirst : scanChar hyphens .nothing c = some ([], .double c) := hc
  have hsecond : scanChar hyphens (.double c) d = some ([.operator op], .nothing) := by
    rw [scanChar, hop, Option.map_some]
  rw [List.cons_append, scanFrom_on hfirst, List.singleton_append, scanFrom_cons hsecond]

/-- A blank is no lexeme. -/
theorem marks_blank : Marks hyphens [' '] [] := by
  intro rest
  have hscan : scanChar hyphens .nothing ' ' = some ([], .nothing) := rfl
  rw [List.singleton_append, scanFrom_on hscan]
  exact Option.map_id'.symm

/-- An operator with a blank before and after it. -/
theorem marks_operator {op : BinaryOp} (hop : op ≠ .power) :
    Marks hyphens (' ' :: (op.symbol.toList ++ [' '])) [.operator op] := by
  have hsymbol : Marks hyphens op.symbol.toList [.operator op] := by
    cases op with
    | power => exact absurd rfl hop
    | and | or | equal | notEqual => exact marks_double rfl rfl
    | less | greater | add | subtract | multiply | divide => exact marks_single rfl
  exact marks_blank.append (hsymbol.append marks_blank)

/-- A closing bracket. -/
theorem marks_closing (b : Bracket) : Marks hyphens [b.closing] [.right b] := by
  cases b <;> exact marks_single rfl

/-- Every closing bracket ends a word or number. -/
theorem closing_mem_stops (b : Bracket) : b.closing ∈ stops := by
  cases b <;> decide

/-- A comma, with the blank after it. -/
theorem marks_comma : Marks hyphens [',', ' '] [.comma] :=
  (marks_single rfl).append marks_blank

/-- The text up to an opening bracket. -/
theorem Head.marks {head : Head} (h : ∀ w ∈ head.words, IsWord hyphens w.toList) :
    Marks hyphens head.text head.opening := by
  have hword {name : String} (hname : name ∈ head.words) :
      Scans hyphens name.toList [.word name] := by
    have hscans := (h name hname).scans
    rwa [String.ofList_toList] at hscans
  have hround : Marks hyphens ['('] [.left .round] := marks_single rfl
  cases head with
  | parens => exact hround
  | array => exact marks_single rfl
  | element name => exact (hword List.mem_cons_self).before (by decide) (marks_single rfl)
  | call cast name =>
    have hname := (hword List.mem_cons_self).before (by decide) hround
    cases cast with
    | false => exact hname
    | true =>
      have hint : Scans hyphens ['i', 'n', 't'] [.word "int"] := by
        have hword : IsWord hyphens ['i', 'n', 't'] := by
          refine ⟨'i', ['n', 't'], rfl, rfl, ?_⟩
          cases hyphens <;> exact List.all_iff_forall_prop.1 (by decide)
        exact hword.scans
      have hclose : Marks hyphens [')', ' '] [.right .round] :=
        (marks_single rfl).append marks_blank
      exact hround.append ((hint.before (by decide) hclose).append hname)

end Pieces

/-! ### Scanning the text of a tree -/

namespace Tree

mutual

/-- Words, numbers and quoted texts are such, and no operator is a power. -/
def Scannable (hyphens : Bool) : Tree → Prop
  | word text => IsWord hyphens text.toList
  | number _ text => IsNumber text.toList
  | quoted text => IsQuoted text.toList
  | bracket head items =>
    (∀ w ∈ head.words, IsWord hyphens w.toList) ∧ ScannableList hyphens items
  | binary op left right => op ≠ .power ∧ left.Scannable hyphens ∧ right.Scannable hyphens

/-- All trees are scannable. -/
def ScannableList (hyphens : Bool) : List Tree → Prop
  | [] => True
  | t :: ts => t.Scannable hyphens ∧ ScannableList hyphens ts

end

variable {hyphens : Bool}

/-- Trees are scannable if each of them is. -/
theorem scannableList_iff {ts : List Tree} :
    ScannableList hyphens ts ↔ ∀ t ∈ ts, t.Scannable hyphens := by
  induction ts with
  | nil => exact ⟨fun _ => nofun, fun _ => trivial⟩
  | cons t ts ih => rw [ScannableList, ih, List.forall_mem_cons]

mutual

/-- **The text of a tree is scanned as its lexemes.** -/
theorem Scannable.scans : (t : Tree) → t.Scannable hyphens → Scans hyphens t.text t.lexemes
  | .word text, h => by
    have hscans := IsWord.scans h
    rwa [String.ofList_toList] at hscans
  | .number negative text, h => by
    have hscans : Scans hyphens _ _ := IsNumber.scans h
    rw [String.ofList_toList] at hscans
    cases negative with
    | false => exact hscans
    | true =>
      have hminus : Marks hyphens ['-'] [.operator .subtract] := marks_single rfl
      exact hminus.before hscans
  | .quoted text, h => by
    have hmarks : Marks hyphens _ _ := IsQuoted.marks h
    rw [String.ofList_toList] at hmarks
    exact hmarks.scans
  | .bracket head items, ⟨hhead, hitems⟩ => by
    rw [text, lexemes]
    exact ((Head.marks hhead).append (ScannableList.marks items hitems head.closing)).scans
  | .binary op left right, ⟨hop, hleft, hright⟩ => by
    have hoperator := (Scannable.scans left hleft).before (by decide) (marks_operator hop)
    have hscans := hoperator.before (Scannable.scans right hright)
    rw [text, lexemes]
    rwa [List.append_assoc, List.append_assoc] at hscans

/-- Trees with commas between them, up to the closing bracket. -/
theorem ScannableList.marks : (ts : List Tree) → ScannableList hyphens ts → (b : Bracket) →
    Marks hyphens (textOfList ts ++ [b.closing]) (lexemesOfList ts ++ [.right b])
  | [], _, b => marks_closing b
  | [t], ⟨ht, _⟩, b => (Scannable.scans t ht).before (closing_mem_stops b) (marks_closing b)
  | t :: u :: ts, ⟨ht, hts⟩, b => by
    have hcomma := (Scannable.scans t ht).before (by decide) marks_comma
    have hmarks := hcomma.append (ScannableList.marks (u :: ts) hts b)
    rw [textOfList, lexemesOfList]
    simpa only [List.append_assoc, List.cons_append, List.nil_append] using hmarks

end

end Tree

/-- **The text of a tree is read as its regrouping.** -/
theorem read_text {hyphens : Bool} {t : Tree} (hlegible : t.Legible)
    (hscannable : t.Scannable hyphens) :
    read hyphens (.ofList t.text) = some t.regroup := by
  rw [read, String.toList_ofList, (hscannable.scans t).scan, Option.bind_some,
    read_lexemes hlegible]

/-! ### Words of a text -/

/-- No hyphen was read in a word. -/
def Reading.Unhyphenated : Reading → Prop
  | word read => '-' ∉ read
  | _ => True

/-- No word has a hyphen. -/
def Unhyphenated (ls : List Lexeme) : Prop := ∀ w, .word w ∈ ls → '-' ∉ w.toList

/-- Words of two lists of lexemes. -/
theorem Unhyphenated.append {ls ls' : List Lexeme} (h : Unhyphenated ls) (h' : Unhyphenated ls') :
    Unhyphenated (ls ++ ls') := by
  intro w hw
  rcases List.mem_append.1 hw with hw | hw
  · exact h w hw
  · exact h' w hw

/-- Without lexemes there is no word. -/
theorem unhyphenated_nil : Unhyphenated [] := fun _ h => nomatch h

/-- A lexeme that is no word. -/
theorem unhyphenated_singleton {l : Lexeme} (h : ∀ w, l ≠ .word w) : Unhyphenated [l] := by
  intro w hw
  exact absurd (List.mem_singleton.1 hw).symm (h w)

/-- A word that has just begun is a letter. -/
theorem begin_unhyphenated {c : Char} {ls : List Lexeme} {r : Reading}
    (h : begin c = some (ls, r)) : Unhyphenated ls ∧ r.Unhyphenated := by
  unfold begin at h
  split_ifs at h with _ hletter
  · cases h
    exact ⟨unhyphenated_nil, trivial⟩
  · cases h
    refine ⟨unhyphenated_nil, fun hc => ?_⟩
    obtain rfl := List.mem_singleton.1 hc
    exact absurd hletter (by decide)
  · cases h
    exact ⟨unhyphenated_nil, trivial⟩
  · cases h
    exact ⟨unhyphenated_nil, trivial⟩
  · cases h
    exact ⟨unhyphenated_nil, trivial⟩
  · obtain ⟨l, hl, hpair⟩ := Option.map_eq_some_iff.1 h
    cases hpair
    refine ⟨unhyphenated_singleton fun w hw => ?_, trivial⟩
    subst hw
    unfold single? at hl
    split at hl <;> cases hl

/-- A lexeme that is complete before the next one begins. -/
theorem end_unhyphenated {c : Char} {l : Lexeme} {ls : List Lexeme} {r : Reading}
    (h : ((begin c).map fun (ls, r') => (l :: ls, r')) = some (ls, r)) (hl : Unhyphenated [l]) :
    Unhyphenated ls ∧ r.Unhyphenated := by
  obtain ⟨next, hbegin, hpair⟩ := Option.map_eq_some_iff.1 h
  cases hpair
  obtain ⟨hnext, hr⟩ := begin_unhyphenated hbegin
  exact ⟨hl.append hnext, hr⟩

/-- A character of Java text puts no hyphen into a word. -/
theorem scanChar_unhyphenated {r r' : Reading} {c : Char} {ls : List Lexeme}
    (h : scanChar false r c = some (ls, r')) (hr : r.Unhyphenated) :
    Unhyphenated ls ∧ r'.Unhyphenated := by
  cases r with
  | nothing => exact begin_unhyphenated h
  | word read =>
    rw [scanChar] at h
    split_ifs at h with htail
    · cases h
      refine ⟨unhyphenated_nil, fun hc => ?_⟩
      rcases List.mem_append.1 hc with hc | hc
      · exact hr hc
      · obtain rfl := List.mem_singleton.1 hc
        exact absurd htail (by decide)
    · refine end_unhyphenated h fun w hw => ?_
      obtain rfl := Lexeme.word.inj (List.mem_singleton.1 hw)
      rwa [String.toList_ofList]
  | number read =>
    rw [scanChar] at h
    split_ifs at h
    · cases h
      exact ⟨unhyphenated_nil, trivial⟩
    · exact end_unhyphenated h (unhyphenated_singleton nofun)
  | quoted quote read =>
    rw [scanChar] at h
    split_ifs at h
    · cases h
      exact ⟨unhyphenated_nil, trivial⟩
    · cases h
      exact ⟨unhyphenated_singleton nofun, trivial⟩
    · cases h
      exact ⟨unhyphenated_nil, trivial⟩
  | escape quote read =>
    cases h
    exact ⟨unhyphenated_nil, trivial⟩
  | double first =>
    obtain ⟨op, -, hpair⟩ := Option.map_eq_some_iff.1 h
    cases hpair
    exact ⟨unhyphenated_singleton nofun, trivial⟩

/-- No word of a Java text has a hyphen, whatever the text; induction is on its characters. -/
theorem scanFrom_unhyphenated {cs : List Char} {r : Reading} {ls : List Lexeme}
    (h : scanFrom false r cs = some ls) (hr : r.Unhyphenated) : Unhyphenated ls := by
  induction cs generalizing r ls with
  | nil =>
    cases r with
    | nothing =>
      cases h
      exact unhyphenated_nil
    | word read =>
      cases h
      intro w hw
      obtain rfl := Lexeme.word.inj (List.mem_singleton.1 hw)
      rwa [String.toList_ofList]
    | number read =>
      cases h
      exact unhyphenated_singleton nofun
    | quoted | escape | double => cases h
  | cons c cs ih =>
    obtain ⟨⟨done, r'⟩, hchar, hrest⟩ := Option.bind_eq_some_iff.1 h
    obtain ⟨ls', hscan, rfl⟩ := Option.map_eq_some_iff.1 hrest
    obtain ⟨hdone, hr'⟩ := scanChar_unhyphenated hchar hr
    exact hdone.append (ih hscan hr')

/-- **Java has no words with hyphens.** -/
theorem read_unhyphenated {text : String} {t : Tree} (h : read false text = some t) :
    ∀ w ∈ t.words, '-' ∉ w.toList := by
  obtain ⟨ls, hscan, hread⟩ := Option.bind_eq_some_iff.1 h
  intro w hw
  rcases readFrom_words hread hw with hstart | hls
  · cases hstart
  · exact scanFrom_unhyphenated hscan trivial w hls

end Java
end Scriptlet
