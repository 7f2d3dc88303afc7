import Scriptlet.Token.Lexer
import Mathlib.Data.Bool.AllAny
import Mathlib.Tactic.Common

/-!
# Lexemes

What the text of a token may be, kind by kind and without regard to how it is
found:

| kind         | lexemes                                                            |
|--------------|--------------------------------------------------------------------|
| `identifier` | a letter, then letters, digits, `_` and `-`                        |
| `integer`    | perhaps `-`, then `0` or digits that do not start with `0`         |
| `decimal`    | an integer, a dot and at least one digit                           |
| `character`  | one plain character or escape sequence between single quotes       |
| `string`     | plain characters and escape sequences between double quotes        |
| `operator`   | `<=`, `>=`, `==`, `!=`, `&&`, `\|\|`, or one character of `symbols` |

A character is plain between quotes if it is neither the quote nor a backslash
and does not end the line.  The lexeme that a text starts with is the longest
one (`Longest`); the first characters of the kinds are so far apart that the
kind of a lexeme can be read off it (`kind_unique`).
-/

namespace Scriptlet

/-- The letters `A` to `Z` and `a` to `z`. -/
def IsLetter (c : Char) : Prop := ('A' ≤ c ∧ c ≤ 'Z') ∨ ('a' ≤ c ∧ c ≤ 'z')

/-- The digits `0` to `9`. -/
def IsDigit (c : Char) : Prop := '0' ≤ c ∧ c ≤ '9'

instance (c : Char) : Decidable (IsLetter c) := inferInstanceAs (Decidable (_ ∨ _))

instance (c : Char) : Decidable (IsDigit c) := inferInstanceAs (Decidable (_ ∧ _))

/-- Space, tab, carriage return, line feed and backspace. -/
def IsBlank (c : Char) : Prop :=
  c = ' ' ∨ c = '\t' ∨ c = '\r' ∨ c = '\n' ∨ c = Escape.backspace

/-- A letter, then letters, digits, `_` and `-`. -/
def IsIdentifier : List Char → Prop
  | [] => False
  | c :: rest => IsLetter c ∧ ∀ d ∈ rest, IsLetter d ∨ IsDigit d ∨ d = '_' ∨ d = '-'

/-- `0`, or digits that do not start with `0`. -/
def IsWhole : List Char → Prop
  | [] => False
  | d :: rest => (d = '0' ∧ rest = []) ∨ (d ≠ '0' ∧ ∀ e ∈ d :: rest, IsDigit e)

/-- A whole number, a dot and at least one digit. -/
def IsFractional (cs : List Char) : Prop :=
  ∃ whole fraction, cs = whole ++ '.' :: fraction ∧ IsWhole whole ∧ fraction ≠ [] ∧
    ∀ d ∈ fraction, IsDigit d

/-- What `P` describes, perhaps with a minus sign before it. -/
def Signed (P : List Char → Prop) (cs : List Char) : Prop :=
  P cs ∨ ∃ rest, cs = '-' :: rest ∧ P rest

/-- Characters that stand for themselves between two `quote` characters. -/
def IsPlain (quote c : Char) : Prop :=
  c ≠ quote ∧ c ≠ '\n' ∧ c ≠ '\r' ∧ c ≠ Escape.backslash

/-- Characters that form an escape sequence with a backslash before them. -/
def IsEscape (c : Char) : Prop :=
  c ∈ ['b', 'n', 'r', 't', Escape.singleQuote, Escape.doubleQuote, Escape.backslash]

/-- Plain characters and escape sequences, in any number. -/
inductive Content (quote : Char) : List Char → Prop where
  | nil : Content quote []
  | plain {c : Char} {rest : List Char} :
    IsPlain quote c → Content quote rest → Content quote (c :: rest)
  | escape {e : Char} {rest : List Char} :
    IsEscape e → Content quote rest → Content quote (Escape.backslash :: e :: rest)

/-- One plain character or one escape sequence. -/
def IsSingle (quote : Char) (cs : List Char) : Prop :=
  (∃ c, cs = [c] ∧ IsPlain quote c) ∨ ∃ e, cs = [Escape.backslash, e] ∧ IsEscape e

/-- What `P` describes, between two `quote` characters. -/
def Quoted (quote : Char) (P : List Char → Prop) (cs : List Char) : Prop :=
  ∃ body, cs = quote :: (body ++ [quote]) ∧ P body

/-- The operators of one character. -/
def symbols : List Char :=
  ['!', '@', '#', '$', '%', '^', '&', '*', '(', ')', '-', '=', '+', ';', ':', '[', ']', ',', '/',
    '<', '>', '.']

/-- The operators of two characters. -/
def doubleSymbols : List (List Char) :=
  [['<', '='], ['>', '='], ['=', '='], ['!', '='], ['&', '&'], ['|', '|']]

/-- An operator. -/
def IsOperator (cs : List Char) : Prop := (∃ c ∈ symbols, cs = [c]) ∨ cs ∈ doubleSymbols

/-- The texts that tokens of a kind may have. -/
def Lexeme : TokenKind → List Char → Prop
  | .identifier => IsIdentifier
  | .integer => Signed IsWhole
  | .decimal => Signed IsFractional
  | .character => Quoted Escape.singleQuote (IsSingle Escape.singleQuote)
  | .string => Quoted Escape.doubleQuote (Content Escape.doubleQuote)
  | .operator => IsOperator

/-- `w` is the longest lexeme of any kind that `cs` starts with, and it is one of
kind `kind`. -/
structure Longest (kind : TokenKind) (w cs : List Char) : Prop where
  isPrefix : w <+: cs
  lexeme : Lexeme kind w
  longest : ∀ kind' w', w' <+: cs → Lexeme kind' w' → w'.length ≤ w.length

/-! ### Classes of characters -/

/-- Letters are what the lexer takes for letters. -/
theorem isAlpha_iff {c : Char} : c.isAlpha = true ↔ IsLetter c := by
  have hupper : c.isUpper = true ↔ 'A' ≤ c ∧ c ≤ 'Z' := decide_eq_true_iff
  have hlower : c.isLower = true ↔ 'a' ≤ c ∧ c ≤ 'z' :=
    Bool.and_eq_true_iff.trans (and_congr decide_eq_true_iff decide_eq_true_iff)
  exact Bool.or_eq_true_iff.trans (or_congr hupper hlower)

/-- Digits are what the lexer takes for digits. -/
theorem isDigit_iff {c : Char} : c.isDigit = true ↔ IsDigit c := by
  simp only [Char.isDigit, IsDigit, Char.le_def, Bool.and_eq_true, decide_eq_true_eq, ge_iff_le]

/-- Blanks are what the lexer takes for blanks. -/
theorem isBlank_iff {c : Char} : Lexer.isBlank c = true ↔ IsBlank c := by
  simp [Lexer.isBlank, IsBlank, or_assoc]

/-- How the lexer goes on with a name. -/
theorem isNameTail_iff {c : Char} :
    Lexer.isNameTail c = true ↔ IsLetter c ∨ IsDigit c ∨ c = '_' ∨ c = '-' := by
  simp [Lexer.isNameTail, Char.isAlphanum, isAlpha_iff, isDigit_iff, or_assoc]

/-- What the lexer allows after a backslash. -/
theorem isTarget_iff {c : Char} : Escape.isTarget c = true ↔ IsEscape c := by
  simp [Escape.isTarget, IsEscape, or_assoc]

/-- What the lexer takes as it is between quotes. -/
theorem isPlain_iff {quote c : Char} :
    IsPlain quote c ↔ c ≠ quote ∧ Lexer.endsLine c = false ∧ c ≠ Escape.backslash := by
  simp [IsPlain, Lexer.endsLine, and_assoc]

/-- Operators of one character are what the lexer takes for such. -/
theorem isOperator_iff {c : Char} : Lexer.isOperator c = true ↔ c ∈ symbols := by
  simp [Lexer.isOperator, symbols]

/-- Operators of two characters are what the lexer takes for such. -/
theorem isOperatorPair_iff {c d : Char} :
    Lexer.isOperatorPair c d = true ↔ [c, d] ∈ doubleSymbols := by
  simp [Lexer.isOperatorPair, doubleSymbols, or_and_right, or_assoc, or_left_comm]

/-- No character is a digit and a letter. -/
theorem IsDigit.not_letter {c : Char} (h : IsDigit c) : ¬ IsLetter c := by
  obtain ⟨_, h₉⟩ := h
  rintro (⟨hA, _⟩ | ⟨ha, _⟩)
  · exact absurd (Char.le_trans hA h₉) (by decide)
  · exact absurd (Char.le_trans ha h₉) (by decide)

/-- A digit is none of the other characters. -/
theorem IsDigit.ne {c d : Char} (h : IsDigit c) (hd : ¬ IsDigit d) : c ≠ d := fun e => hd (e ▸ h)

-- these are decided along the list, and not for all characters one after the other
/-- No operator starts with a digit. -/
theorem not_isDigit_of_mem_symbols : ∀ c ∈ symbols, ¬ IsDigit c :=
  List.all_iff_forall_prop.1 (by decide)

/-- No operator starts with a letter. -/
theorem not_isLetter_of_mem_symbols : ∀ c ∈ symbols, ¬ IsLetter c :=
  List.all_iff_forall_prop.1 (by decide)

/-- No operator starts with a quote. -/
theorem not_isQuote_of_mem_symbols :
    ∀ c ∈ symbols, c ≠ Escape.singleQuote ∧ c ≠ Escape.doubleQuote :=
  List.all_iff_forall_prop.1 (by decide)

/-! ### Quoted text -/

/-- One character or escape sequence is content of a literal. -/
theorem IsSingle.content {quote : Char} {cs : List Char} (h : IsSingle quote cs) :
    Content quote cs := by
  rcases h with ⟨c, rfl, hc⟩ | ⟨e, rfl, he⟩
  · exact .plain hc .nil
  · exact .escape he .nil

/-- The text between two quotes ends at the first quote that is not part of an
escape sequence. -/
theorem Content.unique {quote : Char} (hq : quote ≠ Escape.backslash) {u v r s : List Char}
    (hu : Content quote u) (hv : Content quote v) (h : u ++ quote :: r = v ++ quote :: s) :
    u = v := by
  induction hu generalizing v with
  | nil =>
    cases hv with
    | nil => rfl
    | plain hc _ => exact absurd (List.cons.inj h).1.symm hc.1
    | escape _ _ => exact absurd (List.cons.inj h).1 hq
  | plain hc _ ih =>
    cases hv with
    | nil => exact absurd (List.cons.inj h).1 hc.1
    | plain _ hv =>
      obtain ⟨rfl, hrest⟩ := List.cons.inj h
      rw [ih hv hrest]
    | escape _ _ => exact absurd (List.cons.inj h).1 hc.2.2.2
  | escape _ _ ih =>
    cases hv with
    | nil => exact absurd (List.cons.inj h).1.symm hq
    | plain hc _ => exact absurd (List.cons.inj h).1.symm hc.2.2.2
    | escape _ hv =>
      obtain ⟨rfl, hrest⟩ := List.cons.inj (List.cons.inj h).2
      rw [ih hv hrest]

/-- What text before a closing quote can start with. -/
theorem Content.cases_cons {quote c : Char} {cs body rest : List Char}
    (h : c :: cs = body ++ quote :: rest) (hbody : Content quote body) (hc : c ≠ quote) :
    (IsPlain quote c ∧ ∃ body', Content quote body' ∧ cs = body' ++ quote :: rest) ∨
      (c = Escape.backslash ∧ ∃ e body', IsEscape e ∧ Content quote body' ∧
        cs = e :: (body' ++ quote :: rest)) := by
  cases hbody with
  | nil => exact absurd (List.cons.inj h).1 hc
  | plain hp hbody' =>
    obtain ⟨rfl, hcs⟩ := List.cons.inj h
    exact .inl ⟨hp, _, hbody', hcs⟩
  | escape he hbody' =>
    obtain ⟨rfl, hcs⟩ := List.cons.inj h
    exact .inr ⟨rfl, _, _, he, hbody', hcs⟩

/-- A text starts with one character or escape sequence in one way only. -/
theorem IsSingle.unique {quote : Char} {u v r s : List Char} (hu : IsSingle quote u)
    (hv : IsSingle quote v) (h : u ++ r = v ++ s) : u = v := by
  rcases hu with ⟨c, rfl, hc⟩ | ⟨e, rfl, _⟩ <;> rcases hv with ⟨c', rfl, hc'⟩ | ⟨e', rfl, _⟩
  · rw [(List.cons.inj h).1]
  · exact absurd (List.cons.inj h).1 hc.2.2.2
  · exact absurd (List.cons.inj h).1.symm hc'.2.2.2
  · rw [(List.cons.inj (List.cons.inj h).2).1]

/-! ### The kind of a lexeme -/

/-- A whole number is made of digits. -/
theorem IsWhole.digits {cs : List Char} (h : IsWhole cs) : cs ≠ [] ∧ ∀ d ∈ cs, IsDigit d := by
  cases cs with
  | nil => exact h.elim
  | cons d rest =>
    refine ⟨List.cons_ne_nil d rest, ?_⟩
    rcases h with ⟨rfl, rfl⟩ | ⟨_, h⟩
    · intro d hd
      rw [List.mem_singleton.1 hd]
      decide
    · exact h

/-- A number with a fraction starts with a digit and has a dot. -/
theorem IsFractional.head {cs : List Char} (h : IsFractional cs) :
    ∃ d rest, cs = d :: rest ∧ IsDigit d ∧ '.' ∈ cs := by
  obtain ⟨whole, fraction, rfl, hw, _, _⟩ := h
  obtain ⟨hne, hd⟩ := hw.digits
  cases whole with
  | nil => exact absurd rfl hne
  | cons d rest => exact ⟨d, _, rfl, hd d (by simp), by simp⟩

/-- The kind that a lexeme can only have, read off its first characters and, for
numbers, off the presence of a dot. -/
def kindOf (w : List Char) : TokenKind :=
  match w with
  | [] => .operator
  | c :: rest =>
    if IsLetter c then .identifier
    else if c = Escape.singleQuote then .character
    else if c = Escape.doubleQuote then .string
    else if IsDigit c ∨ (c = '-' ∧ rest ≠ []) then if '.' ∈ w then .decimal else .integer
    else .operator

/-- A number is told from its first characters, and decimals by their dot. -/
theorem kindOf_number {c : Char} {rest : List Char} (h : IsDigit c ∨ (c = '-' ∧ rest ≠ [])) :
    kindOf (c :: rest) = if '.' ∈ c :: rest then .decimal else .integer := by
  have hc : ¬ IsLetter c ∧ c ≠ Escape.singleQuote ∧ c ≠ Escape.doubleQuote := by
    rcases h with h | ⟨rfl, _⟩
    · exact ⟨h.not_letter, h.ne (by decide), h.ne (by decide)⟩
    · decide
  simp only [kindOf, hc.1, hc.2.1, hc.2.2, h, if_true, if_false]

/-- A whole number is an integer, with and without a sign. -/
theorem kindOf_whole {cs : List Char} (h : IsWhole cs) :
    kindOf cs = .integer ∧ kindOf ('-' :: cs) = .integer := by
  obtain ⟨hne, hd⟩ := h.digits
  have hdot : '.' ∉ cs := fun hm => absurd (hd _ hm) (by decide)
  constructor
  · obtain ⟨d, rest, rfl⟩ := List.exists_cons_of_ne_nil hne
    rw [kindOf_number (.inl (hd d (by simp))), if_neg hdot]
  · rw [kindOf_number (.inr ⟨rfl, hne⟩), if_neg (by simpa using hdot)]

/-- A number with a fraction is a decimal, with and without a sign. -/
theorem kindOf_fractional {cs : List Char} (h : IsFractional cs) :
    kindOf cs = .decimal ∧ kindOf ('-' :: cs) = .decimal := by
  obtain ⟨d, rest, rfl, hd, hdot⟩ := h.head
  constructor
  · rw [kindOf_number (.inl hd), if_pos hdot]
  · rw [kindOf_number (.inr ⟨rfl, by simp⟩), if_pos (List.mem_cons_of_mem _ hdot)]

/-- An operator is told from its first character; a minus sign alone is one. -/
theorem kindOf_operator {cs : List Char} (h : IsOperator cs) : kindOf cs = .operator := by
  rcases h with ⟨c, hc, rfl⟩ | h
  · have hq := not_isQuote_of_mem_symbols c hc
    simp [kindOf, not_isLetter_of_mem_symbols c hc, not_isDigit_of_mem_symbols c hc, hq.1, hq.2]
  · revert h cs
    decide

/-- The kind of a lexeme can be read off it. -/
theorem Lexeme.kindOf_eq {kind : TokenKind} {w : List Char} (h : Lexeme kind w) :
    kindOf w = kind := by
  cases kind with
  | identifier =>
    cases w with
    | nil => exact h.elim
    | cons c rest => exact if_pos h.1
  | integer =>
    rcases h with h | ⟨rest, rfl, h⟩
    · exact (kindOf_whole h).1
    · exact (kindOf_whole h).2
  | decimal =>
    rcases h with h | ⟨rest, rfl, h⟩
    · exact (kindOf_fractional h).1
    · exact (kindOf_fractional h).2
  | character =>
    obtain ⟨body, rfl, _⟩ := h
    rfl
  | string =>
    obtain ⟨body, rfl, _⟩ := h
    rfl
  | operator => exact kindOf_operator h

/-- **A lexeme has one kind.** -/
theorem Lexeme.kind_unique {kind kind' : TokenKind} {w : List Char} (h : Lexeme kind w)
    (h' : Lexeme kind' w) : kind = kind' :=
  h.kindOf_eq.symm.trans h'.kindOf_eq

/-- No lexeme is empty. -/
theorem Lexeme.ne_nil {kind : TokenKind} {w : List Char} (h : Lexeme kind w) : w ≠ [] := by
  rintro rfl
  have hk : kind = .operator := h.kindOf_eq.symm
  subst hk
  rcases h with ⟨_, _, h⟩ | h
  · cases h
  · revert h
    decide

/-- **A text starts with one longest lexeme.** -/
theorem Longest.unique {kind kind' : TokenKind} {w w' cs : List Char} (h : Longest kind w cs)
    (h' : Longest kind' w' cs) : kind = kind' ∧ w = w' := by
  have hlen : w.length = w'.length :=
    Nat.le_antisymm (h'.longest _ _ h.isPrefix h.lexeme) (h.longest _ _ h'.isPrefix h'.lexeme)
  have hw : w = w' :=
    (List.prefix_of_prefix_length_le h.isPrefix h'.isPrefix (Nat.le_of_eq hlen)).eq_of_length hlen
  subst hw
  exact ⟨h.lexeme.kind_unique h'.lexeme, rfl⟩

end Scriptlet
