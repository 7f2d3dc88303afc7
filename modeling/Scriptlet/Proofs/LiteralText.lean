import Scriptlet.Proofs.Cut
import Scriptlet.Proofs.JavaText
import Scriptlet.Proofs.ProgramAccepted
import Scriptlet.Proofs.ProgramComplete

/-!
# Literals read back

The Java text of a string, a character or an integer is also a literal of the
language, and denotes what it was written for.  Three tables meet here: the one by
which characters are escaped, the one by which the lexer admits escape sequences, and
the one by which they are replaced.  They agree character by character
(`escaped_cases`), so they agree on every text.

An integer is written without leading zeros, as the lexer wants it.  So a program
that returns an integer literal runs to that integer, however large it is; checking
accepts it exactly for 32 bits (`literal_text_round_trips`).
-/

namespace Scriptlet

open Escape Grammar

/-- The Java text of a literal is a single token of a kind, and this token is read as
that literal. -/
structure Literal.ReadsBack (v : Literal) (kind : TokenKind) : Prop where
  scans : Token.scan (Java.literal v) = .ok [⟨kind, Java.literal v, 0⟩]
  reads : ∀ firstId, Rule.primary (.ofTokens [⟨kind, Java.literal v, 0⟩] firstId) =
    .ok (.literal firstId v) ⟨[], (Java.literal v).length, firstId + 1⟩

/-- A program that returns the literal `k`. -/
def answerText (k : Int) : String :=
  "FUN main(): Integer DO RETURN " ++ Java.literal (.integer k) ++ "; END"

/-! ### One token -/

/-- A text that is one lexeme is scanned as this token. -/
theorem Token.scan_lexeme {kind : TokenKind} {text : String} (h : Lexeme kind text.toList) :
    Token.scan text = .ok [⟨kind, text, 0⟩] := by
  have hmunch := h.munch 0
  rw [String.ofList_toList] at hmunch
  exact scan_of_munch hmunch

/-- A token of a text that denotes a literal is no word and no bracket. -/
theorem Denotes.not_mem_words {t : Token} {v : Literal} (hv : Denotes t v) (ht : t.Lexed) :
    t.literal ∉ "(" :: literalWords := by
  intro hmem
  have hkind := ht.kind_eq rfl
  have hwords : ∀ w ∈ "(" :: literalWords,
      kindOf w.toList = .identifier ∨ kindOf w.toList = .operator := by decide
  rcases hwords _ hmem with hw | hw
  · exact hv.kind_ne.1 (hkind.trans hw)
  · exact hv.kind_ne.2 (hkind.trans hw)

namespace Rule

/-- A literal token is read as the literal it denotes. -/
theorem primary_denoted {t : Token} {v : Literal} (hv : Denotes t v) (ht : t.Lexed)
    (rest : List Token) (stop : Nat) (id : NodeId) :
    primary ⟨t :: rest, stop, id⟩ = .ok (.literal id v) ⟨rest, t.stop, id + 1⟩ := by
  have hskip : ∀ w ∈ "(" :: literalWords, ∀ yes no : Rule Expr,
      (do if ← accept w then yes else no) ⟨t :: rest, stop, id⟩ = no ⟨t :: rest, stop, id⟩ := by
    intro w hw yes no
    have hne : t.literal ≠ w := by
      rintro rfl
      exact hv.not_mem_words ht hw
    have haccept : accept w ⟨t :: rest, stop, id⟩ = .ok false ⟨t :: rest, stop, id⟩ := if_neg hne
    rw [bind_eq haccept]
    rfl
  have hkind : ∀ inner, primaryByKind inner ⟨t :: rest, stop, id⟩ =
      .ok (.literal id v) ⟨rest, t.stop, id + 1⟩ := by
    intro inner
    simp only [primaryByKind, hv.literalValue]
    split
    · exact absurd ‹_› hv.kind_ne.1
    · exact absurd ‹_› hv.kind_ne.2
    · rfl
  show primaryOver (expressionWithin (rest.length + 1)) ⟨t :: rest, stop, id⟩ = _
  unfold primaryOver
  rw [hskip _ (by decide), hskip _ (by decide), hskip _ (by decide), hskip _ (by decide), hkind]

end Rule

/-- A literal is read back if its text is a lexeme that denotes it. -/
theorem Literal.readsBack {v : Literal} {kind : TokenKind}
    (hlexeme : Lexeme kind (Java.literal v).toList) (hv : Denotes ⟨kind, Java.literal v, 0⟩ v) :
    v.ReadsBack kind := by
  refine ⟨Token.scan_lexeme hlexeme, fun firstId => ?_⟩
  have hprimary := Rule.primary_denoted hv hlexeme [] 0 firstId
  rwa [Token.stop, Nat.zero_add] at hprimary

/-! ### Quoted text -/

/-- What stands for a character in the table may be escaped. -/
theorem isEscape_of_mem_escapes {e c : Char} (h : (e, c) ∈ escapes) : IsEscape e := by
  have hall : ∀ p ∈ escapes, p.1 ∈ ['b', 'n', 'r', 't', singleQuote, doubleQuote, backslash] := by
    decide
  exact hall _ h

/-- A character is written plainly or as the escape sequence that names it. -/
theorem escaped_cases {quote : Char} (hquote : quote = singleQuote ∨ quote = doubleQuote)
    (c : Char) :
    (encodeChar quote c = [c] ∧ IsPlain quote c) ∨
      ∃ e, encodeChar quote c = [backslash, e] ∧ (e, c) ∈ escapes := by
  unfold encodeChar
  split_ifs with hb hn hr ht hself
  · exact .inr ⟨_, rfl, by rw [hb]; decide⟩
  · exact .inr ⟨_, rfl, by rw [hn]; decide⟩
  · exact .inr ⟨_, rfl, by rw [hr]; decide⟩
  · exact .inr ⟨_, rfl, by rw [ht]; decide⟩
  · refine .inr ⟨c, rfl, ?_⟩
    rcases hself with rfl | rfl
    · decide
    · rcases hquote with rfl | rfl <;> decide
  · exact .inl ⟨rfl, (not_or.1 hself).2, hn, hr, (not_or.1 hself).1⟩

section Encoded

variable {quote : Char} (hquote : quote = singleQuote ∨ quote = doubleQuote)
include hquote

/-- A character as it is written is one character or escape sequence. -/
theorem isSingle_encodeChar (c : Char) : IsSingle quote (encodeChar quote c) := by
  rcases escaped_cases hquote c with ⟨h, hc⟩ | ⟨e, h, he⟩
  · exact .inl ⟨c, h, hc⟩
  · exact .inr ⟨e, h, isEscape_of_mem_escapes he⟩

/-- A text as it is written is the content of a literal. -/
theorem content_flatMap_encodeChar (cs : List Char) :
    Content quote (cs.flatMap (encodeChar quote)) := by
  induction cs with
  | nil => exact .nil
  | cons c cs ih =>
    rw [List.flatMap_cons]
    rcases escaped_cases hquote c with ⟨h, hc⟩ | ⟨e, h, he⟩
    · rw [h]
      exact .plain hc ih
    · rw [h]
      exact .escape (isEscape_of_mem_escapes he) ih

/-- **Escaping is undone by replacing escape sequences.** -/
theorem unescaped_flatMap_encodeChar (cs : List Char) :
    Unescaped (cs.flatMap (encodeChar quote)) cs := by
  induction cs with
  | nil => exact .nil
  | cons c cs ih =>
    rw [List.flatMap_cons]
    rcases escaped_cases hquote c with ⟨h, hc⟩ | ⟨e, h, he⟩
    · rw [h]
      exact .plain hc.2.2.2 ih
    · rw [h]
      exact .escape he ih

end Encoded

/-- A string literal is read back, whatever it contains. -/
theorem Literal.string_readsBack (s : String) : (Literal.string s).ReadsBack .string := by
  have htext : (Java.literal (.string s)).toList =
      doubleQuote :: (s.toList.flatMap (encodeChar doubleQuote) ++ [doubleQuote]) :=
    String.toList_ofList
  refine readsBack ?_ ?_
  · rw [htext]
    exact ⟨_, rfl, content_flatMap_encodeChar (.inr rfl) s.toList⟩
  · have hdenotes := Denotes.string (t := ⟨.string, Java.literal (.string s), 0⟩) rfl htext
      (unescaped_flatMap_encodeChar (.inr rfl) s.toList)
    rwa [String.ofList_toList] at hdenotes

/-- A character literal is read back, whatever it is. -/
theorem Literal.character_readsBack (c : Char) :
    (Literal.character c).ReadsBack .character := by
  have hone : [c].flatMap (encodeChar singleQuote) = encodeChar singleQuote c := by simp
  have htext : (Java.literal (.character c)).toList =
      singleQuote :: (encodeChar singleQuote c ++ [singleQuote]) := by
    rw [← hone]
    exact String.toList_ofList
  refine readsBack ?_ (.character rfl htext ?_)
  · rw [htext]
    exact ⟨_, rfl, isSingle_encodeChar (.inl rfl) c⟩
  · have hbody := unescaped_flatMap_encodeChar (.inl rfl) [c]
    rwa [hone] at hbody

/-! ### Integers -/

/-- The digits of a number start with `0` only for zero. -/
theorem isWhole_digits (n : Nat) : IsWhole (Decimal.digits n) := by
  have hdigit : ∀ n, ∀ c ∈ Decimal.digits n, IsDigit c := fun n c hc =>
    isDigit_iff.1 (Java.isDigit_of_mem_digits hc)
  -- the first digit is that of the number without its last digit
  have hhead : ∀ n, 0 < n → (Decimal.digits n).head? ≠ some '0' := by
    intro n
    induction n using Nat.strongRecOn with
    | ind n ih =>
      intro hpos
      rw [Decimal.digits, Nat.toDigits_eq_if (by decide)]
      split
      · simp [Nat.digitChar_eq_zero]
        omega
      · rw [List.head?_append_of_ne_nil _ Nat.toDigits_ne_nil]
        exact ih (n / 10) (by omega) (by omega)
  rcases Nat.eq_zero_or_pos n with rfl | hpos
  · exact .inl ⟨rfl, rfl⟩
  · have hn := hhead n hpos
    have hd := hdigit n
    cases hcs : Decimal.digits n with
    | nil => exact absurd hcs Nat.toDigits_ne_nil
    | cons d rest =>
      rw [hcs] at hn hd
      exact .inr ⟨fun h => hn (by rw [h]; rfl), hd⟩

/-- The digits of a number are a numeral for it. -/
theorem numeral_digits (n : Nat) : numeral (Decimal.digits n) = n := by
  rw [← natOfDigits_eq_numeral, natOfDigits, Decimal.digits]
  exact Nat.ofDigitChars_ten_toDigits

/-- An integer is written as its sign and the digits of its absolute value. -/
theorem toList_toString_int (k : Int) :
    ∃ sign s, (toString k).toList = sign ++ Decimal.digits k.natAbs ∧ IsSign sign s ∧
      k = s * k.natAbs := by
  rw [Java.toString_int]
  split
  · refine ⟨['-'], -1, ?_, .minus, by omega⟩
    rw [String.toList_append, Java.toList_toString]
    rfl
  · exact ⟨[], 1, Java.toList_toString _, .plus, by omega⟩

/-- The text of an integer is a lexeme: it has no leading zeros. -/
theorem Literal.integer_lexeme (k : Int) :
    Lexeme .integer (Java.literal (.integer k)).toList := by
  obtain ⟨sign, s, htext, hsign, -⟩ := toList_toString_int k
  have hwhole := isWhole_digits k.natAbs
  show Signed IsWhole (toString k).toList
  rw [htext]
  cases hsign with
  | plus => exact .inl hwhole
  | minus => exact .inr ⟨_, rfl, hwhole⟩

/-- The text of an integer denotes it. -/
theorem Literal.integer_denoted (k : Int) (index : Nat) :
    Denotes ⟨.integer, Java.literal (.integer k), index⟩ (.integer k) := by
  obtain ⟨sign, s, htext, hsign, hk⟩ := toList_toString_int k
  have hwhole := (isWhole_digits k.natAbs).digits
  have hdenotes := Denotes.integer (t := ⟨.integer, Java.literal (.integer k), index⟩) rfl htext
    hsign hwhole.1 hwhole.2
  rwa [numeral_digits, ← hk] at hdenotes

/-! ### A program that returns a literal -/

/-- The program with text `answerText k`, whatever the numbers of its nodes. -/
def answer (literalId id : NodeId) (k : Int) : Source :=
  ⟨[], [⟨id, "main", [], [], some "Integer", [.returnWith (.literal literalId (.integer k))]⟩]⟩

/-- The tokens of `answerText k` before the literal. -/
def answerStart : List Token :=
  [⟨.identifier, "FUN", 0⟩, ⟨.identifier, "main", 4⟩, ⟨.operator, "(", 8⟩, ⟨.operator, ")", 9⟩,
    ⟨.operator, ":", 10⟩, ⟨.identifier, "Integer", 12⟩, ⟨.identifier, "DO", 20⟩,
    ⟨.identifier, "RETURN", 23⟩]

/-- The tokens of `answerText k`. -/
def answerTokens (k : Int) : List Token :=
  let text := Java.literal (.integer k)
  answerStart ++ [⟨.integer, text, 30⟩, ⟨.operator, ";", 30 + text.length⟩,
    ⟨.identifier, "END", 32 + text.length⟩]

/-- The tokens of the program that returns an integer. -/
theorem scan_answerText (k : Int) : Token.scan (answerText k) = .ok (answerTokens k) := by
  have hstart : Munch 0 "FUN main(): Integer DO RETURN".toList answerStart :=
    Token.munch_of_scan (by decide +kernel)
  have hlength : "FUN main(): Integer DO RETURN".toList.length = 29 := by decide
  have hstop : Munch 0 "; END".toList [⟨.operator, ";", 0⟩, ⟨.identifier, "END", 2⟩] :=
    Token.munch_of_scan (by decide +kernel)
  rw [show "; END".toList = ';' :: " END".toList by decide] at hstop
  have hnumber := (Literal.integer_lexeme k).munch 30
  have hmoved := hstop.moved (30 + (Java.literal (.integer k)).toList.length)
  rw [Nat.zero_add] at hmoved
  have hrest := hnumber.append separates_semicolon hmoved
  have hmunch := hstart.append_blank (by rwa [Nat.zero_add, hlength])
  have hjoin : ∀ {a b c : String} {cs ds : List Char}, a.toList = cs ++ [' '] →
      c.toList = ';' :: ds → (a ++ b ++ c).toList = cs ++ ' ' :: (b.toList ++ ';' :: ds) := by
    intro a b c cs ds ha hc
    simp [ha, hc]
  have htext : (answerText k).toList = "FUN main(): Integer DO RETURN".toList ++
      ' ' :: ((Java.literal (.integer k)).toList ++ ';' :: " END".toList) :=
    hjoin (by decide) (by decide)
  have htokens : answerTokens k = answerStart ++
      ([⟨.integer, String.ofList (Java.literal (.integer k)).toList, 30⟩] ++
        [⟨.operator, ";", 0⟩, ⟨.identifier, "END", 2⟩].map
          (Token.moved (30 + (Java.literal (.integer k)).toList.length))) := by
    simp only [answerTokens, Token.moved, String.ofList_toList, String.length_toList, List.map_cons,
      List.map_nil, List.cons_append, List.nil_append, Nat.zero_add, ← Nat.add_assoc]
  refine Token.scan_of_munch ?_
  rw [htext, htokens]
  exact hmunch

/-- These tokens are in the grammar. -/
theorem program_answerTokens (k : Int) : Program (answerTokens k) (answer 0 0 k) := by
  have hvalue : Expression [⟨.integer, Java.literal (.integer k), 30⟩] (.literal 0 (.integer k)) :=
    Primary.expression (.literal (Literal.integer_denoted k 30))
  have hreturn : Statement (⟨.identifier, "RETURN", 23⟩ ::
      ([⟨.integer, Java.literal (.integer k), 30⟩] ++
        [⟨.operator, ";", 30 + (Java.literal (.integer k)).length⟩]))
      (.returnWith (.literal 0 (.integer k))) := .returnWith rfl hvalue rfl
  have hbody := Block.cons (not_startsWith_cons rfl (by decide)) hreturn .nil
  have hparameters : Parameters [⟨.operator, ")", 9⟩] [] := .none rfl
  have htype : Annotation [⟨.operator, ":", 10⟩, ⟨.identifier, "Integer", 12⟩] (some "Integer") :=
    .some rfl rfl
  have hfunction : Function (⟨.identifier, "FUN", 0⟩ :: ⟨.identifier, "main", 4⟩ ::
      ⟨.operator, "(", 8⟩ :: ([⟨.operator, ")", 9⟩] ++
        ([⟨.operator, ":", 10⟩, ⟨.identifier, "Integer", 12⟩] ++ ⟨.identifier, "DO", 20⟩ :: (_ ++
          [⟨.identifier, "END", 32 + (Java.literal (.integer k)).length⟩]))))
      ⟨0, "main", [], [], some "Integer", [.returnWith (.literal 0 (.integer k))]⟩ :=
    .mk rfl rfl rfl hparameters htype rfl hbody rfl
  exact .function hfunction .nil

/-- A program that is the same but for its numbers is that program with other numbers. -/
theorem eq_answer {p : Source} {k : Int} (h : p.unnumbered = answer 0 0 k) :
    ∃ literalId id, p = answer literalId id k := by
  obtain ⟨globals, functions⟩ := p
  simp only [Source.unnumbered, answer, Source.mk.injEq, List.map_eq_nil_iff,
    List.map_eq_singleton_iff] at h
  obtain ⟨rfl, ⟨id, name, parameters, parameterTypeNames, returnTypeName, body⟩, rfl, hf⟩ := h
  simp only [FunctionDecl.unnumbered, FunctionDecl.mk.injEq, true_and] at hf
  obtain ⟨rfl, rfl, rfl, rfl, hbody⟩ := hf
  rcases body with _ | ⟨s, _ | ⟨s', rest⟩⟩
  · cases hbody
  · obtain ⟨hs, -⟩ := List.cons.inj hbody
    cases s <;> simp only [Stmt.unnumbered, reduceCtorEq, Stmt.returnWith.injEq] at hs
    rename_i value
    cases value <;> simp only [Expr.unnumbered, reduceCtorEq, Expr.literal.injEq, true_and] at hs
    rename_i literalId v
    exact ⟨literalId, id, by rw [answer, hs]⟩
  · simp [Stmt.unnumberedList] at hbody

/-- It runs to the integer, however large that is. -/
theorem run_answer (fuel : Nat) (limit : Option Nat) (literalId id : NodeId) (k : Int) :
    (Pipeline.run (fuel + 4) limit (answer literalId id k)).1 = .ok (.integer k) := rfl

/-- It is accepted exactly for 32 bits. -/
theorem check_answer (literalId id : NodeId) (k : Int) :
    (∃ a, (answer literalId id k).check = .ok a) ↔ -2 ^ 31 ≤ k ∧ k ≤ 2 ^ 31 - 1 := by
  constructor
  · rintro ⟨a, hcheck⟩
    obtain ⟨frame, Φ, htyped⟩ := Source.wellTyped_of_check hcheck
    have hfunctions := (htyped .any (.inl rfl) (Notes.hold_any a _)).functions
    cases hfunctions with
    | cons _ _ _ hbody _ =>
      obtain ⟨_, _, _, hblock⟩ := hbody
      cases hblock with
      | cons hreturn _ =>
        cases hreturn with
        | returnWith hvalue _ =>
          cases hvalue with
          | literal hliteral _ =>
            cases hliteral with
            | integer hlow hhigh => exact ⟨hlow, by omega⟩
  · rintro ⟨hlow, hhigh⟩
    have hliteral : Typing.OfLiteral (.integer k) .integer := .integer hlow (by omega)
    have htyped : WellTyped .any (answer literalId id k) .empty
        (Typing.builtins.insert ("main", 0) (.named "main" [] .integer ())) := by
      refine ⟨.nil, .cons ⟨[], .integer, .nil, rfl, rfl⟩ (fun _ _ => trivial) rfl ?_ .nil, ?_⟩
      · exact ⟨.empty, _, .noName, .cons (.returnWith (.literal hliteral trivial) (.same _)) .nil⟩
      · exact ⟨_, rfl, rfl⟩
    obtain ⟨a, hcheck, -⟩ := htyped.check_eq
    exact ⟨a, hcheck⟩

/-- The text is read as this program, whatever number its nodes start with. -/
theorem sourceFrom_answerText (firstId : NodeId) (k : Int) :
    ∃ literalId id next,
      Pipeline.sourceFrom firstId (answerText k) = .ok (answer literalId id k, next) := by
  have hscan := scan_answerText k
  obtain ⟨p, c, hread, -, hp⟩ := Rule.source_reads (program_answerTokens k)
    (.ofTokens (answerTokens k) firstId) (Token.lexed_of_scan hscan) (List.append_nil _).symm
  obtain ⟨literalId, id, rfl⟩ := eq_answer hp
  refine ⟨literalId, id, c.nextId, ?_⟩
  have htokens : Pipeline.tokens (answerText k) = .ok (answerTokens k) := by
    rw [Pipeline.tokens, hscan]
    rfl
  simp only [Pipeline.sourceFrom, htokens, bind, Except.bind, hread]

/-- **Literals read back.**  The Java text of every string, character and integer is one
token, which is read as the same literal.  And a program that returns an integer
literal is read and runs to this integer, whatever its size and the limit of the output;
checking accepts it if and only if the integer has 32 bits. -/
theorem literal_text_round_trips (s : String) (c : Char) (k : Int) (firstId : NodeId) :
    (Literal.string s).ReadsBack .string ∧ (Literal.character c).ReadsBack .character ∧
      (Literal.integer k).ReadsBack .integer ∧
        ∃ p next, Pipeline.sourceFrom firstId (answerText k) = .ok (p, next) ∧
          (∀ fuel limit, (Pipeline.run (fuel + 4) limit p).1 = .ok (.integer k)) ∧
            ((∃ a, p.check = .ok a) ↔ -2 ^ 31 ≤ k ∧ k ≤ 2 ^ 31 - 1) := by
  have hinteger := Literal.readsBack (Literal.integer_lexeme k) (Literal.integer_denoted k 0)
  obtain ⟨literalId, id, next, hsource⟩ := sourceFrom_answerText firstId k
  refine ⟨Literal.string_readsBack s, Literal.character_readsBack c, hinteger, _, next, hsource, ?_⟩
  exact ⟨fun fuel limit => run_answer fuel limit literalId id k, check_answer literalId id k⟩

end Scriptlet
