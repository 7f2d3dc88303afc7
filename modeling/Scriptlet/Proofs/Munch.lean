import Scriptlet.Proofs.TokenTail

/-!
# The lexer is maximal munch

`Munch i cs tokens` says how a text is to be split, without any reader: blanks are
skipped, and at any other character the longest lexeme is cut off.  `Stuck` says
that this leads to a character at which no lexeme starts.  The lexer finds the
split if there is one, and fails exactly if it gets stuck (`scan_maximal_munch`).

A split loses nothing (`Tiles`): tokens come in order and do not overlap, each is
the piece of text between its two positions, and what lies between them is blank.
-/

namespace Scriptlet

/-- The text `cs`, which starts at position `i`, splits into `tokens`. -/
inductive Munch : Nat → List Char → List Token → Prop where
  | nil {i : Nat} : Munch i [] []
  | blank {i : Nat} {c : Char} {rest : List Char} {tokens : List Token} :
    IsBlank c → Munch (i + 1) rest tokens → Munch i (c :: rest) tokens
  | token {i : Nat} {c : Char} {w rest : List Char} {kind : TokenKind} {tokens : List Token} :
    ¬ IsBlank c → Longest kind (c :: w) (c :: (w ++ rest)) →
      Munch (i + 1 + w.length) rest tokens →
        Munch i (c :: (w ++ rest)) (⟨kind, String.ofList (c :: w), i⟩ :: tokens)

/-- Splitting the text `cs`, which starts at position `i`, leads to position
`start`, where there is neither a blank nor a lexeme. -/
inductive Stuck : Nat → List Char → Nat → Prop where
  | here {i : Nat} {c : Char} {rest : List Char} :
    ¬ IsBlank c → (∀ kind w, w <+: c :: rest → ¬ Lexeme kind w) → Stuck i (c :: rest) i
  | blank {i start : Nat} {c : Char} {rest : List Char} :
    IsBlank c → Stuck (i + 1) rest start → Stuck i (c :: rest) start
  | token {i start : Nat} {c : Char} {w rest : List Char} {kind : TokenKind} :
    ¬ IsBlank c → Longest kind (c :: w) (c :: (w ++ rest)) →
      Stuck (i + 1 + w.length) rest start → Stuck i (c :: (w ++ rest)) start

/-- `tokens` are pieces of `text` in order, from position `i` on, and only blanks
lie outside them. -/
structure Tiles (i : Nat) (text : List Char) (tokens : List Token) : Prop where
  start : ∀ t ∈ tokens, i ≤ t.index
  ordered : tokens.Pairwise fun t u => t.stop ≤ u.index
  pieces : ∀ t ∈ tokens, t.literal ≠ "" ∧ t.stop ≤ text.length ∧
    t.literal.toList = (text.drop t.index).take (t.stop - t.index)
  blanks : ∀ j c, i ≤ j → text[j]? = some c →
    (∀ t ∈ tokens, ¬ (t.index ≤ j ∧ j < t.stop)) → IsBlank c

namespace Lexer

/-- What is read at a character is what the text is split at. -/
theorem tokenTail_of_longest {i : Nat} {c : Char} {w rest : List Char} {kind : TokenKind}
    (h : Longest kind (c :: w) (c :: (w ++ rest))) :
    tokenTail i c (w ++ rest) = .ok (kind, w.length) := by
  have hspec := tokenTail_spec i c (w ++ rest)
  cases htail : tokenTail i c (w ++ rest) with
  | error e =>
    rw [htail] at hspec
    exact absurd h.lexeme (hspec.2.2 kind _ h.isPrefix)
  | ok result =>
    obtain ⟨kind', n⟩ := result
    rw [htail] at hspec
    obtain ⟨hkind, hw⟩ := hspec.2.unique h
    have hlen : n = w.length := by
      rw [← (List.cons.inj hw).2, List.length_take, Nat.min_eq_left hspec.1]
    rw [hkind, hlen]

/-- What is read at a character splits off the text there. -/
theorem exists_longest_of_tokenTail {i n : Nat} {c : Char} {rest : List Char} {kind : TokenKind}
    (h : tokenTail i c rest = .ok (kind, n)) :
    ∃ w s, rest = w ++ s ∧ n = w.length ∧ Longest kind (c :: w) (c :: (w ++ s)) := by
  have hspec := tokenTail_spec i c rest
  rw [h] at hspec
  obtain ⟨hn, hlongest⟩ := hspec
  refine ⟨rest.take n, rest.drop n, (List.take_append_drop n rest).symm, ?_, ?_⟩
  · rw [List.length_take, Nat.min_eq_left hn]
  · rwa [List.take_append_drop]

/-- What splitting a text that starts at position `i` should answer: the tokens, or
an error between the place where it gets stuck and the end of the text. -/
def Splits (i : Nat) (cs : List Char) : Except LexError (List Token) → Prop
  | .ok tokens => Munch i cs tokens
  | .error e => ∃ start, Stuck i cs start ∧ start ≤ e.index ∧ e.index ≤ i + cs.length

/-- The lexer splits a text, or stops where no lexeme starts. -/
theorem lexFrom_spec (i : Nat) (cs : List Char) : Splits i cs (lexFrom i cs) := by
  fun_induction lexFrom i cs with
  | case1 => exact .nil
  | case2 i c rest hc ih =>
    cases hrest : lexFrom (i + 1) rest with
    | ok tokens =>
      rw [hrest] at ih
      exact .blank (isBlank_iff.1 hc) ih
    | error e =>
      rw [hrest] at ih
      obtain ⟨start, hstuck, hlow, hhigh⟩ := ih
      exact ⟨start, .blank (isBlank_iff.1 hc) hstuck, hlow, by rw [List.length_cons]; omega⟩
  | case3 i c rest hc e htail =>
    have hspec := tokenTail_spec i c rest
    rw [htail] at hspec
    obtain ⟨hlow, hhigh, hno⟩ := hspec
    exact ⟨i, .here (isBlank_iff.not.1 hc) hno, hlow, by rw [List.length_cons]; omega⟩
  | case4 i c rest hc kind n htail e hrest ih =>
    obtain ⟨w, s, rfl, rfl, hlongest⟩ := exists_longest_of_tokenTail htail
    rw [hrest, List.drop_left] at ih
    obtain ⟨start, hstuck, hlow, hhigh⟩ := ih
    refine ⟨start, .token (isBlank_iff.not.1 hc) hlongest hstuck, hlow, ?_⟩
    rw [List.length_cons, List.length_append]
    omega
  | case5 i c rest hc kind n htail tokens hrest ih =>
    obtain ⟨w, s, rfl, rfl, hlongest⟩ := exists_longest_of_tokenTail htail
    rw [hrest, List.drop_left] at ih
    rw [List.take_left]
    exact .token (isBlank_iff.not.1 hc) hlongest ih

theorem lexFrom_blank {i : Nat} {c : Char} {rest : List Char} (hc : IsBlank c) :
    lexFrom i (c :: rest) = lexFrom (i + 1) rest := by
  rw [lexFrom, if_pos (isBlank_iff.2 hc)]

theorem lexFrom_token {i : Nat} {c : Char} {w rest : List Char} {kind : TokenKind}
    (hc : ¬ IsBlank c) (h : Longest kind (c :: w) (c :: (w ++ rest))) :
    lexFrom i (c :: (w ++ rest)) = (lexFrom (i + 1 + w.length) rest).map fun tokens =>
      ⟨kind, String.ofList (c :: w), i⟩ :: tokens := by
  rw [lexFrom, if_neg (isBlank_iff.not.2 hc), tokenTail_of_longest h]
  simp only [List.drop_left, List.take_left]
  cases lexFrom (i + 1 + w.length) rest <;> rfl

/-- If a text can be cut into longest lexemes, the lexer finds them. -/
theorem lexFrom_of_munch {i : Nat} {cs : List Char} {tokens : List Token}
    (h : Munch i cs tokens) : lexFrom i cs = .ok tokens := by
  induction h with
  | nil => rw [lexFrom]
  | blank hc _ ih => rw [lexFrom_blank hc, ih]
  | token hc hlongest _ ih =>
    rw [lexFrom_token hc hlongest, ih]
    rfl

/-- If a text gets stuck, the lexer fails. -/
theorem lexFrom_of_stuck {i start : Nat} {cs : List Char} (h : Stuck i cs start) :
    ∃ e, lexFrom i cs = .error e := by
  induction h with
  | @here i c rest hc hno =>
    cases htail : tokenTail i c rest with
    | error e => exact ⟨e, by rw [lexFrom, if_neg (isBlank_iff.not.2 hc), htail]⟩
    | ok result =>
      obtain ⟨w, s, rfl, _, hlongest⟩ := exists_longest_of_tokenTail htail
      exact absurd hlongest.lexeme (hno _ _ hlongest.isPrefix)
  | blank hc _ ih =>
    obtain ⟨e, he⟩ := ih
    exact ⟨e, by rw [lexFrom_blank hc, he]⟩
  | token hc hlongest _ ih =>
    obtain ⟨e, he⟩ := ih
    exact ⟨e, by rw [lexFrom_token hc hlongest, he]; rfl⟩

end Lexer

/-! ### Nothing is lost -/

/-- The token cut out of `before ++ w ++ rest` at `w`. -/
theorem piece_of_append (kind : TokenKind) (before w rest : List Char) (hw : w ≠ []) :
    let t : Token := ⟨kind, String.ofList w, before.length⟩
    t.stop = before.length + w.length ∧ t.literal ≠ "" ∧
      t.literal.toList = ((before ++ (w ++ rest)).drop t.index).take (t.stop - t.index) := by
  have hstop :
      (⟨kind, String.ofList w, before.length⟩ : Token).stop = before.length + w.length := by
    simp [Token.stop]
  refine ⟨hstop, ?_, ?_⟩
  · intro h
    exact hw (by simpa using congrArg String.toList h)
  · rw [hstop, List.drop_left, Nat.add_sub_cancel_left, List.take_left, String.toList_ofList]

/-- **A split loses nothing**, whatever text was split off before. -/
theorem Munch.tiles {i : Nat} {cs : List Char} {tokens : List Token} (h : Munch i cs tokens)
    (before : List Char) (hi : before.length = i) : Tiles i (before ++ cs) tokens := by
  induction h generalizing before with
  | nil =>
    refine ⟨fun t ht => absurd ht (by simp), .nil, fun t ht => absurd ht (by simp), ?_⟩
    intro j c hj hc
    rw [List.append_nil, List.getElem?_eq_none (by omega)] at hc
    cases hc
  | @blank i c rest tokens hc _ ih =>
    -- the blank joins the text before
    have ih := ih (before ++ [c]) (by simp [hi])
    rw [List.append_assoc, List.singleton_append] at ih
    refine ⟨fun t ht => Nat.le_of_succ_le (ih.start t ht), ih.ordered, ih.pieces, ?_⟩
    intro j d hj hd hout
    rcases Nat.eq_or_lt_of_le hj with rfl | hj
    · rw [← hi, List.getElem?_append_right (Nat.le_refl _), Nat.sub_self] at hd
      obtain rfl := Option.some.inj hd
      exact hc
    · exact ih.blanks j d hj hd hout
  | @token i c w rest kind tokens hc _ _ ih =>
    have ih := ih (before ++ c :: w) (by simp [hi]; omega)
    rw [List.append_assoc, List.cons_append] at ih
    subst hi
    obtain ⟨hstop, hne, hliteral⟩ := piece_of_append kind before (c :: w) rest (by simp)
    rw [List.length_cons] at hstop
    refine ⟨?_, ?_, ?_, ?_⟩
    · intro t ht
      rcases List.mem_cons.1 ht with rfl | ht
      · exact Nat.le_refl _
      · have := ih.start t ht
        omega
    · refine List.pairwise_cons.2 ⟨fun u hu => ?_, ih.ordered⟩
      have := ih.start u hu
      omega
    · intro t ht
      rcases List.mem_cons.1 ht with rfl | ht
      · refine ⟨hne, ?_, hliteral⟩
        rw [hstop]
        simp only [List.length_append, List.length_cons]
        omega
      · exact ih.pieces t ht
    · intro j d hj hd hout
      have hafter := hout _ (List.mem_cons_self ..)
      refine ih.blanks j d ?_ hd fun t ht => hout t (List.mem_cons_of_mem _ ht)
      rw [hstop] at hafter
      simp only at hafter
      omega

/-- **The lexer is exactly maximal munch.**  It finds the tokens of a text if and
only if these are its longest lexemes in order, with blanks skipped; it fails if
and only if that leads to a character at which no lexeme starts.  The tokens cover
all of the text but blanks, and an error points between the place where no lexeme
starts and the end of the text. -/
theorem scan_maximal_munch (text : String) :
    (∀ tokens, Token.scan text = .ok tokens ↔ Munch 0 text.toList tokens) ∧
      ((∃ e, Token.scan text = .error e) ↔ ∃ start, Stuck 0 text.toList start) ∧
        (∀ tokens, Token.scan text = .ok tokens → Tiles 0 text.toList tokens) ∧
          ∀ e, Token.scan text = .error e →
            ∃ start, Stuck 0 text.toList start ∧ start ≤ e.index ∧ e.index ≤ text.length := by
  have hspec := Lexer.lexFrom_spec 0 text.toList
  have hok : ∀ tokens, Token.scan text = .ok tokens → Munch 0 text.toList tokens := by
    intro tokens h
    rwa [show Lexer.lexFrom 0 text.toList = .ok tokens from h] at hspec
  have herror : ∀ e, Token.scan text = .error e →
      ∃ start, Stuck 0 text.toList start ∧ start ≤ e.index ∧ e.index ≤ text.length := by
    intro e h
    rw [show Lexer.lexFrom 0 text.toList = .error e from h] at hspec
    obtain ⟨start, hstuck, hlow, hhigh⟩ := hspec
    rw [Nat.zero_add, String.length_toList] at hhigh
    exact ⟨start, hstuck, hlow, hhigh⟩
  refine ⟨fun tokens => ⟨hok tokens, Lexer.lexFrom_of_munch⟩, ⟨?_, ?_⟩, ?_, herror⟩
  · rintro ⟨e, h⟩
    obtain ⟨start, hstuck, _⟩ := herror e h
    exact ⟨start, hstuck⟩
  · rintro ⟨start, h⟩
    exact Lexer.lexFrom_of_stuck h
  · intro tokens h
    exact (hok tokens h).tiles [] rfl

/-- The theorem at `x<=-0.5`, where two characters could each start a shorter
token, and at `a |`, where the bar starts none. -/
theorem scan_maximal_munch_signed_and_bar :
    Tiles 0 "x<=-0.5".toList
        [⟨.identifier, "x", 0⟩, ⟨.operator, "<=", 1⟩, ⟨.decimal, "-0.5", 3⟩] ∧
      ∃ start, Stuck 0 "a |".toList start ∧ start ≤ 2 ∧ 2 ≤ "a |".length :=
  ⟨(scan_maximal_munch "x<=-0.5").2.2.1 _ (by decide +kernel),
    (scan_maximal_munch "a |").2.2.2 (.unexpectedCharacter '|' 2) (by decide +kernel)⟩

end Scriptlet
