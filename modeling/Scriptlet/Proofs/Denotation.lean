import Scriptlet.Parsing.Expression
import Scriptlet.Proofs.Munch
import Mathlib.Data.List.Induction
import Mathlib.Data.List.TakeWhile
import Mathlib.Data.Nat.Digits.Defs

/-!
# What literal tokens denote

`Denotes t v` says which value a token stands for, by reading its text from the
definition of the notation: digits by their place, a decimal as its digits without
the dot and the number of digits after it, quoted text with every escape sequence
replaced by the character it names.  The scale of a decimal has to fit into 64
bits.

The parser computes exactly this for tokens that the lexer makes
(`literalValue_iff_denotes`).
-/

namespace Scriptlet

/-- A token whose text is a lexeme of its kind, as the lexer makes them. -/
def Token.Lexed (t : Token) : Prop := Lexeme t.kind t.literal.toList

/-- Tokens that are cut off one after the other are lexemes. -/
theorem Munch.lexed {i : Nat} {cs : List Char} {tokens : List Token} (h : Munch i cs tokens) :
    ∀ t ∈ tokens, t.Lexed := by
  induction h with
  | nil => simp
  | blank _ _ ih => exact ih
  | token _ hlongest _ ih =>
    intro t ht
    rcases List.mem_cons.1 ht with rfl | ht
    · simpa [Token.Lexed] using hlongest.lexeme
    · exact ih t ht

/-- Tokens of a text are lexemes. -/
theorem Token.lexed_of_scan {text : String} {tokens : List Token}
    (h : Token.scan text = .ok tokens) : ∀ t ∈ tokens, t.Lexed := by
  have hspec := Lexer.lexFrom_spec 0 text.toList
  rw [show Lexer.lexFrom 0 text.toList = .ok tokens from h] at hspec
  exact hspec.lexed

/-- The number written with the digits `ds`, the last of which counts ones. -/
def numeral (ds : List Char) : Nat := Nat.ofDigits 10 (ds.map digitValue).reverse

/-- A sign as it is written, and the factor it stands for. -/
inductive IsSign : List Char → Int → Prop where
  | plus : IsSign [] 1
  | minus : IsSign ['-'] (-1)

/-- Escape sequences and the characters they name. -/
def escapes : List (Char × Char) :=
  [('b', Escape.backspace), ('n', '\n'), ('r', '\r'), ('t', '\t'),
    (Escape.singleQuote, Escape.singleQuote), (Escape.doubleQuote, Escape.doubleQuote),
    (Escape.backslash, Escape.backslash)]

/-- The second text is the first with escape sequences replaced. -/
inductive Unescaped : List Char → List Char → Prop where
  | nil : Unescaped [] []
  | plain {c : Char} {raw text : List Char} :
    c ≠ Escape.backslash → Unescaped raw text → Unescaped (c :: raw) (c :: text)
  | escape {e c : Char} {raw text : List Char} :
    (e, c) ∈ escapes → Unescaped raw text → Unescaped (Escape.backslash :: e :: raw) (c :: text)

/-- The value that a literal token stands for. -/
inductive Denotes (t : Token) : Literal → Prop where
  | integer {sign ds : List Char} {s : Int} :
    t.kind = .integer → t.literal.toList = sign ++ ds → IsSign sign s → ds ≠ [] →
      (∀ d ∈ ds, IsDigit d) → Denotes t (.integer (s * numeral ds))
  | decimal {sign whole fraction : List Char} {s : Int} :
    t.kind = .decimal → t.literal.toList = sign ++ (whole ++ '.' :: fraction) → IsSign sign s →
      whole ≠ [] → (∀ d ∈ whole ++ fraction, IsDigit d) → fraction.length < 2 ^ 63 →
        Denotes t (.decimal ⟨s * numeral (whole ++ fraction), fraction.length⟩)
  | character {body : List Char} {c : Char} :
    t.kind = .character → t.literal.toList = Escape.singleQuote :: (body ++ [Escape.singleQuote]) →
      Unescaped body [c] → Denotes t (.character c)
  | string {body text : List Char} :
    t.kind = .string → t.literal.toList = Escape.doubleQuote :: (body ++ [Escape.doubleQuote]) →
      Unescaped body text → Denotes t (.string (String.ofList text))

/-! ### Digits -/

/-- Digits are read by their place. -/
theorem natOfDigits_eq_numeral (ds : List Char) : natOfDigits ds = numeral ds := by
  unfold natOfDigits numeral
  induction ds using List.reverseRecOn with
  | nil => rfl
  | append_singleton ds d ih =>
    rw [List.foldl_append, ih]
    simp [Nat.ofDigits_cons, Nat.add_comm]

/-- Digits alone, without marks between them, are read as the number they stand for. -/
theorem groupedNat?_digits {ds : List Char} (hne : ds ≠ []) (hds : ∀ d ∈ ds, IsDigit d) :
    groupedNat? ds = some (numeral ds) := by
  obtain ⟨d, rest, rfl⟩ := List.exists_cons_of_ne_nil hne
  have hall : (rest.all fun d => d.isDigit || d = groupMark) = true := by
    rw [List.all_eq_true]
    intro e he
    simp [isDigit_iff.2 (hds e (List.mem_cons_of_mem d he))]
  have hmark : rest.filter (· ≠ groupMark) = rest := by
    rw [List.filter_eq_self]
    intro e he
    simpa using (hds e (List.mem_cons_of_mem d he)).ne (d := groupMark) (by decide)
  rw [groupedNat?, if_pos ⟨isDigit_iff.2 (hds d (by simp)), hall⟩, hmark, natOfDigits_eq_numeral]

/-- A sign and digits are read as an integer. -/
theorem signedInt?_digits {sign ds : List Char} {s : Int} (hs : IsSign sign s) (hne : ds ≠ [])
    (hds : ∀ d ∈ ds, IsDigit d) : signedInt? (sign ++ ds) = some (s * numeral ds) := by
  have hsplit : splitSign (sign ++ ds) = (s, ds) := by
    cases hs with
    | minus => rfl
    | plus =>
      obtain ⟨d, rest, rfl⟩ := List.exists_cons_of_ne_nil hne
      have hd := hds d (by simp)
      rw [List.nil_append, splitSign]
      · exact fun cs h => hd.ne (d := '-') (by decide) (List.cons.inj h).1
      · exact fun cs h => hd.ne (d := '+') (by decide) (List.cons.inj h).1
  rw [signedInt?, hsplit]
  simp [groupedNat?_digits hne hds]

/-- What may have a sign is a sign, which may be empty, and the rest. -/
theorem Signed.exists_sign {P : List Char → Prop} {cs : List Char} (h : Signed P cs) :
    ∃ sign ds s, cs = sign ++ ds ∧ IsSign sign s ∧ P ds := by
  rcases h with h | ⟨rest, rfl, h⟩
  · exact ⟨[], cs, 1, rfl, .plus, h⟩
  · exact ⟨['-'], rest, -1, rfl, .minus, h⟩

/-- A decimal is read without its dot, and scaled by the digits after it. -/
theorem ofText?_decimal {text : String} {sign whole fraction : List Char} {s : Int}
    (htext : text.toList = sign ++ (whole ++ '.' :: fraction)) (hs : IsSign sign s)
    (hne : whole ≠ []) (hds : ∀ d ∈ whole ++ fraction, IsDigit d) :
    Decimal.ofText? text = if Decimal.isScale fraction.length then
      some ⟨s * numeral (whole ++ fraction), fraction.length⟩ else none := by
  have hsign : ∀ c ∈ sign, c = '-' := by
    cases hs <;> simp
  have hmarks : ∀ c ∈ text.toList, (!Decimal.isPowerMark c) = true := by
    have hdigit : ∀ c, IsDigit c → (!Decimal.isPowerMark c) = true := fun c hc => by
      simp [Decimal.isPowerMark, hc.ne (d := 'e') (by decide), hc.ne (d := 'E') (by decide)]
    intro c hc
    rw [htext, List.mem_append, List.mem_append, List.mem_cons] at hc
    rcases hc with hc | hc | rfl | hc
    · rw [hsign c hc]
      rfl
    · exact hdigit c (hds c (List.mem_append_left _ hc))
    · rfl
    · exact hdigit c (hds c (List.mem_append_right _ hc))
  have hdot : ∀ c ∈ sign ++ whole, decide (c ≠ '.') = true := by
    intro c hc
    rcases List.mem_append.1 hc with hc | hc
    · rw [hsign c hc]
      rfl
    · simpa using (hds c (List.mem_append_left _ hc)).ne (d := '.') (by decide)
  have hplaces : fraction.filter (· ≠ groupMark) = fraction := by
    rw [List.filter_eq_self]
    intro c hc
    simpa using (hds c (List.mem_append_right _ hc)).ne (d := groupMark) (by decide)
  have hbase : text.toList.takeWhile (!Decimal.isPowerMark ·) =
      sign ++ whole ++ '.' :: fraction := by
    rw [List.takeWhile_eq_self_iff.2 hmarks, htext, List.append_assoc]
  have hpower : text.toList.dropWhile (!Decimal.isPowerMark ·) = [] :=
    List.dropWhile_eq_nil_iff.2 hmarks
  have hwhole : (sign ++ whole ++ '.' :: fraction).takeWhile (· ≠ '.') = sign ++ whole := by
    rw [List.takeWhile_append_of_pos hdot, List.takeWhile_cons_of_neg (by simp), List.append_nil]
  have hrest : (sign ++ whole ++ '.' :: fraction).dropWhile (· ≠ '.') = '.' :: fraction := by
    rw [List.dropWhile_append_of_pos hdot, List.dropWhile_cons_of_neg (by simp)]
  have hint := signedInt?_digits hs (List.append_ne_nil_of_left_ne_nil hne fraction) hds
  rw [← List.append_assoc] at hint
  -- Rewritten step by step: `simp` would have to compare two instances of `isScale` by evaluation.
  dsimp only [Decimal.ofText?]
  rw [hbase, hpower, hwhole, hrest, show Decimal.power? [] = some 0 from rfl, Option.bind_eq_bind,
    Option.bind_some, List.drop_one, List.tail_cons, hint, Option.bind_some, hplaces, Int.sub_zero]

/-! ### Quoted text -/

/-- Every escape sequence names a character. -/
theorem IsEscape.exists_named {e : Char} (h : IsEscape e) : ∃ c, (e, c) ∈ escapes := by
  have hall : ∀ e ∈ ['b', 'n', 'r', 't', Escape.singleQuote, Escape.doubleQuote,
      Escape.backslash], e ∈ escapes.map Prod.fst := List.all_iff_forall_prop.1 (by decide)
  obtain ⟨⟨_, c⟩, hp, rfl⟩ := List.mem_map.1 (hall e h)
  exact ⟨c, hp⟩

/-- It is replaced by the character that it names. -/
theorem target?_of_mem_escapes : ∀ p ∈ escapes, Escape.target? p.1 = some p.2 := by decide

/-- Quoted text is read with its escape sequences replaced. -/
theorem Unescaped.decode {raw text : List Char} (h : Unescaped raw text) :
    Escape.decode raw = text := by
  induction h with
  | nil => rfl
  | @plain c raw text hc h ih =>
    cases raw with
    | nil => cases h; rfl
    | cons d raw => rw [Escape.decode, if_neg hc, ih]
  | escape he _ ih =>
    rw [Escape.decode, if_pos rfl, target?_of_mem_escapes _ he, ih]
    rfl

/-- The content of a literal stands for some text. -/
theorem Content.exists_unescaped {quote : Char} {body : List Char} (h : Content quote body) :
    ∃ text, Unescaped body text := by
  induction h with
  | nil => exact ⟨[], .nil⟩
  | plain hc _ ih =>
    obtain ⟨text, h⟩ := ih
    exact ⟨_, .plain hc.2.2.2 h⟩
  | escape he _ ih =>
    obtain ⟨text, h⟩ := ih
    obtain ⟨c, hc⟩ := IsEscape.exists_named he
    exact ⟨_, .escape hc h⟩

/-- One character or escape sequence stands for one character. -/
theorem IsSingle.exists_unescaped {quote : Char} {body : List Char} (h : IsSingle quote body) :
    ∃ c, Unescaped body [c] := by
  rcases h with ⟨c, rfl, hc⟩ | ⟨e, rfl, he⟩
  · exact ⟨c, .plain hc.2.2.2 .nil⟩
  · obtain ⟨c, hc⟩ := IsEscape.exists_named he
    exact ⟨c, .escape hc .nil⟩

/-- Between the quotes stands the content. -/
theorem unquote_quoted (quote : Char) (body : List Char) :
    Escape.unquote (quote :: (body ++ [quote])) = body := by
  rw [Escape.unquote, List.tail_cons, List.dropLast_concat]

/-! ### The parser computes what is denoted -/

/-- How large a scale may be. -/
theorem isScale_length (n : Nat) : Decimal.isScale n = true ↔ n < 2 ^ 63 := by
  simp only [Decimal.isScale, decide_eq_true_eq]
  omega

/-- A token is read as the value that it denotes. -/
theorem Denotes.literalValue {t : Token} {v : Literal} (h : Denotes t v) :
    Rule.literalValue t = .ok v := by
  cases h with
  | integer hk htext hs hne hds =>
    simp only [Rule.literalValue, hk, integerOfText?, htext, signedInt?_digits hs hne hds]
  | decimal hk htext hs hne hds hscale =>
    simp only [Rule.literalValue, hk, ofText?_decimal htext hs hne hds,
      if_pos ((isScale_length _).2 hscale)]
  | character hk htext hbody =>
    simp only [Rule.literalValue, hk, htext, unquote_quoted, hbody.decode]
  | string hk htext hbody =>
    simp only [Rule.literalValue, hk, htext, unquote_quoted, hbody.decode]

/-- A literal token of a text denotes a value, unless it is a decimal that is too long. -/
theorem Token.Lexed.exists_denotes {t : Token} (ht : t.Lexed) (hname : t.kind ≠ .identifier)
    (hoperator : t.kind ≠ .operator) :
    (∃ v, Denotes t v) ∨
      (Rule.literalValue t = .error .invalidDecimal ∧ 2 ^ 63 ≤ t.literal.length) := by
  unfold Token.Lexed at ht
  cases hk : t.kind with
  | identifier => exact absurd hk hname
  | operator => exact absurd hk hoperator
  | integer =>
    rw [hk] at ht
    obtain ⟨sign, ds, s, htext, hs, hds⟩ := Signed.exists_sign ht
    exact .inl ⟨_, .integer hk htext hs hds.digits.1 hds.digits.2⟩
  | decimal =>
    rw [hk] at ht
    obtain ⟨sign, ds, s, htext, hs, whole, fraction, rfl, hwhole, _, hfraction⟩ :=
      Signed.exists_sign ht
    have hds : ∀ d ∈ whole ++ fraction, IsDigit d := by
      intro d hd
      rcases List.mem_append.1 hd with hd | hd
      · exact hwhole.digits.2 d hd
      · exact hfraction d hd
    by_cases hscale : fraction.length < 2 ^ 63
    · exact .inl ⟨_, .decimal hk htext hs hwhole.digits.1 hds hscale⟩
    · refine .inr ⟨?_, ?_⟩
      · simp only [Rule.literalValue, hk, ofText?_decimal htext hs hwhole.digits.1 hds,
          if_neg (mt (isScale_length _).1 hscale)]
      · rw [← String.length_toList, htext]
        simp only [List.length_append, List.length_cons]
        omega
  | character =>
    rw [hk] at ht
    obtain ⟨body, htext, hbody⟩ := ht
    obtain ⟨c, hc⟩ := hbody.exists_unescaped
    exact .inl ⟨_, .character hk htext hc⟩
  | string =>
    rw [hk] at ht
    obtain ⟨body, htext, hbody⟩ := ht
    obtain ⟨text, htext'⟩ := hbody.exists_unescaped
    exact .inl ⟨_, .string hk htext htext'⟩

/-- What a token of a text is read as, it denotes. -/
theorem denotes_of_literalValue {t : Token} {v : Literal} (ht : t.Lexed)
    (h : Rule.literalValue t = .ok v) : Denotes t v := by
  have hname : t.kind ≠ .identifier := fun hk => by simp [Rule.literalValue, hk] at h
  have hoperator : t.kind ≠ .operator := fun hk => by simp [Rule.literalValue, hk] at h
  rcases ht.exists_denotes hname hoperator with ⟨v', h'⟩ | ⟨herror, -⟩
  · -- the parser computes what the token denotes
    rw [h'.literalValue] at h
    obtain rfl := Except.ok.inj h
    exact h'
  · cases herror.symm.trans h

/-- **The parser reads literal tokens as they are meant.** -/
theorem literalValue_iff_denotes {t : Token} {v : Literal} (ht : t.Lexed) :
    Rule.literalValue t = .ok v ↔ Denotes t v :=
  ⟨denotes_of_literalValue ht, Denotes.literalValue⟩

end Scriptlet
