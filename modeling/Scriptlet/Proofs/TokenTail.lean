import Scriptlet.Proofs.Lexeme

/-!
# Readers take the longest lexeme

Each reader of the lexer is compared with the lexemes it is meant for.  Numbers
and names end where their characters do; quoted text ends at the first quote that
no escape sequence covers, so there is at most one candidate.  Together: what
`tokenTail` takes is a lexeme and no lexeme that the text starts with is longer,
and where it fails the text starts with no lexeme at all and the error points into
the text (`tokenTail_spec`).
-/

namespace Scriptlet
namespace Lexer

/-! ### Runs of characters -/

/-- Characters of one sort that a text starts with are some of the longest run of this sort. -/
theorem length_le_takeWhile {p : Char → Bool} {w cs : List Char} (h : w <+: cs)
    (hw : ∀ c ∈ w, p c = true) : w.length ≤ (cs.takeWhile p).length := by
  obtain ⟨rest, rfl⟩ := h
  rw [List.takeWhile_append_of_pos hw, List.length_append]
  omega

/-- As many characters as the longest run has are the run. -/
theorem take_length_takeWhile (p : Char → Bool) (cs : List Char) :
    cs.take (cs.takeWhile p).length = cs.takeWhile p :=
  List.prefix_iff_eq_take.1 (List.takeWhile_prefix p) |>.symm

/-- Characters of a run are of its sort. -/
theorem of_mem_takeWhile {p : Char → Bool} {cs : List Char} {c : Char}
    (h : c ∈ cs.takeWhile p) : p c = true :=
  List.all_eq_true.1 List.all_takeWhile c h

/-- A run followed by a character outside it is as long as it can be. -/
theorem length_takeWhile_eq {p : Char → Bool} {w rest : List Char} {c : Char}
    (hw : ∀ d ∈ w, p d = true) (hc : p c = false) :
    ((w ++ c :: rest).takeWhile p).length = w.length := by
  rw [List.takeWhile_append_of_pos hw, List.takeWhile_cons_of_neg (by simp [hc]), List.append_nil]

/-! ### Numbers -/

/-- How many further digits belong to the whole part of a number that starts
with `d`. -/
def wholeTail (d : Char) (rest : List Char) : Nat := if d = '0' then 0 else digits rest

/-- What is taken for a whole number is one. -/
theorem isWhole_take (d : Char) (rest : List Char) (hd : IsDigit d) :
    IsWhole (d :: rest.take (wholeTail d rest)) := by
  unfold wholeTail
  split_ifs with h
  · exact .inl ⟨h, rfl⟩
  · refine .inr ⟨h, fun e he => ?_⟩
    rw [digits, take_length_takeWhile] at he
    rcases List.mem_cons.1 he with rfl | he
    · exact hd
    · exact isDigit_iff.1 (of_mem_takeWhile he)

/-- What is taken for a whole number is in the text. -/
theorem wholeTail_le (d : Char) (rest : List Char) : wholeTail d rest ≤ rest.length := by
  unfold wholeTail digits
  split_ifs
  · omega
  · exact (List.takeWhile_prefix _).length_le

/-- No whole number that the text starts with is longer. -/
theorem isWhole_length_le {d : Char} {w rest : List Char} (h : d :: w <+: d :: rest)
    (hw : IsWhole (d :: w)) : w.length ≤ wholeTail d rest := by
  unfold wholeTail
  rcases hw with ⟨_, rfl⟩ | ⟨hd, hw⟩
  · simp
  · rw [if_neg hd]
    refine length_le_takeWhile (List.cons_prefix_cons.1 h).2 fun c hc => ?_
    exact isDigit_iff.2 (hw c (List.mem_cons_of_mem d hc))

/-- Before a dot the whole part has its full length. -/
theorem wholeTail_dot {d : Char} {w rest : List Char} (hw : IsWhole (d :: w)) :
    wholeTail d (w ++ '.' :: rest) = w.length := by
  unfold wholeTail
  rcases hw with ⟨rfl, rfl⟩ | ⟨hd, hw⟩
  · rfl
  · rw [if_neg hd, digits]
    exact length_takeWhile_eq (fun c hc => isDigit_iff.2 (hw c (List.mem_cons_of_mem d hc))) rfl

/-- A number with a fraction has its dot where the whole part ends. -/
theorem isFractional_at_dot {d : Char} {w rest : List Char} (h : w <+: d :: rest)
    (hw : IsFractional w) :
    ∃ f r, rest.drop (wholeTail d rest) = '.' :: f :: r ∧ IsDigit f ∧
      w.length ≤ wholeTail d rest + 3 + digits r := by
  obtain ⟨whole, fraction, rfl, hwhole, hne, hdigits⟩ := hw
  obtain ⟨c, u, rfl⟩ := List.exists_cons_of_ne_nil hwhole.digits.1
  obtain ⟨f, v, rfl⟩ := List.exists_cons_of_ne_nil hne
  obtain ⟨rfl, s, hs⟩ := List.cons_prefix_cons.1 h
  have hrest : rest = u ++ '.' :: f :: (v ++ s) := by simpa using hs.symm
  have hlen : wholeTail c rest = u.length := hrest ▸ wholeTail_dot hwhole
  refine ⟨f, v ++ s, by rw [hlen, hrest, List.drop_left], hdigits f (by simp), ?_⟩
  have hv : v.length ≤ digits (v ++ s) :=
    length_le_takeWhile (List.prefix_append v s) fun e he =>
      isDigit_iff.2 (hdigits e (List.mem_cons_of_mem f he))
  rw [hlen]
  simp only [List.length_append, List.length_cons]
  omega

/-- The numbers without a sign, by kind. -/
def Unsigned : TokenKind → List Char → Prop
  | .integer => IsWhole
  | .decimal => IsFractional
  | _ => fun _ => False

/-- No number is longer: it is whole, or goes on with a dot and digits. -/
theorem Unsigned.length_le {kind : TokenKind} {d : Char} {w rest : List Char}
    (hw : Unsigned kind w) (h : w <+: d :: rest) :
    w.length ≤ wholeTail d rest + 1 ∨
      ∃ f r, rest.drop (wholeTail d rest) = '.' :: f :: r ∧ IsDigit f ∧
        w.length ≤ wholeTail d rest + 3 + digits r := by
  cases kind with
  | integer =>
    obtain ⟨c, u, rfl⟩ := List.exists_cons_of_ne_nil (IsWhole.digits hw).1
    obtain ⟨rfl, _⟩ := List.cons_prefix_cons.1 h
    exact .inl (Nat.succ_le_succ (isWhole_length_le h hw))
  | decimal => exact .inr (isFractional_at_dot h hw)
  | _ => exact hw.elim

/-- A dot and a digit after the whole number make a decimal. -/
theorem numberTail_decimal {d f : Char} {rest r : List Char}
    (h : rest.drop (wholeTail d rest) = '.' :: f :: r) (hf : IsDigit f) :
    numberTail d rest = (.decimal, wholeTail d rest + 2 + digits r) := by
  unfold wholeTail at h ⊢
  simp only [numberTail, h, isDigit_iff.2 hf, and_self, if_true]

/-- Without a dot and a digit there is an integer. -/
theorem numberTail_integer {d : Char} {rest : List Char}
    (h : ∀ f r, rest.drop (wholeTail d rest) = '.' :: f :: r → ¬ IsDigit f) :
    numberTail d rest = (.integer, wholeTail d rest) := by
  unfold wholeTail at h ⊢
  simp only [numberTail]
  split
  · rename_i dot f r hdrop
    rw [if_neg]
    rintro ⟨rfl, hf⟩
    exact h f r hdrop (isDigit_iff.1 hf)
  · rfl

/-- **The longest number is taken.** -/
theorem numberTail_spec (d : Char) (rest : List Char) (hd : IsDigit d) :
    (numberTail d rest).2 ≤ rest.length ∧
      Unsigned (numberTail d rest).1 (d :: rest.take (numberTail d rest).2) ∧
        ∀ kind w, Unsigned kind w → w <+: d :: rest → w.length ≤ (numberTail d rest).2 + 1 := by
  have hwhole := isWhole_take d rest hd
  have hle := wholeTail_le d rest
  by_cases hdot : ∃ f r, rest.drop (wholeTail d rest) = '.' :: f :: r ∧ IsDigit f
  · obtain ⟨f, r, hdrop, hf⟩ := hdot
    rw [numberTail_decimal hdrop hf]
    have hrest : rest = rest.take (wholeTail d rest) ++ '.' :: f :: r := by
      rw [← hdrop, List.take_append_drop]
    have hr : digits r ≤ r.length := (List.takeWhile_prefix _).length_le
    have hlen : rest.length = wholeTail d rest + (r.length + 2) := by
      conv_lhs => rw [hrest]
      simp [hle]
    refine ⟨by simp only; omega, ?_, fun kind w hw h => ?_⟩
    · refine ⟨d :: rest.take (wholeTail d rest), f :: r.takeWhile Char.isDigit, ?_, hwhole,
        List.cons_ne_nil _ _, fun e he => ?_⟩
      · rw [Nat.add_assoc, List.take_add, hdrop, Nat.add_comm 2]
        simp [digits, take_length_takeWhile]
      · rcases List.mem_cons.1 he with rfl | he
        · exact hf
        · exact isDigit_iff.1 (of_mem_takeWhile he)
    · rcases hw.length_le h with h | ⟨f', r', hdrop', _, h⟩
      · simp only
        omega
      · rw [hdrop] at hdrop'
        obtain ⟨rfl, rfl⟩ : f = f' ∧ r = r' := by simpa using hdrop'
        simp only
        omega
  · have hno : ∀ f r, rest.drop (wholeTail d rest) = '.' :: f :: r → ¬ IsDigit f :=
      fun f r hdrop hf => hdot ⟨f, r, hdrop, hf⟩
    rw [numberTail_integer hno]
    refine ⟨hle, hwhole, fun kind w hw h => ?_⟩
    rcases hw.length_le h with h | ⟨f, r, hdrop, hf, _⟩
    · exact h
    · exact absurd hf (hno f r hdrop)

/-! ### Quoted text -/

/-- What a reader of quoted text, started at position `i` after the opening quote,
should answer: how many characters there are up to and including the closing
quote, with something that `P` describes before it; or an error inside the text,
if there is nothing of the kind. -/
def Closes (quote : Char) (P : List Char → Prop) (i : Nat) (cs : List Char) :
    Except LexError Nat → Prop
  | .ok n => ∃ body rest, cs = body ++ quote :: rest ∧ n = body.length + 1 ∧ P body
  | .error e => i ≤ e.index ∧ e.index ≤ i + cs.length ∧
      ∀ body rest, cs = body ++ quote :: rest → ¬ P body

/-- The quote closes a character literal. -/
theorem closeCharacter_quote (i : Nat) (rest : List Char) :
    closeCharacter i (Escape.singleQuote :: rest) = .ok () := rfl

/-- Anything but the quote does not. -/
theorem closeCharacter_error {i : Nat} {cs : List Char}
    (h : ∀ rest, cs ≠ Escape.singleQuote :: rest) :
    closeCharacter i cs = .error (.unterminatedCharacter i) := by
  cases cs with
  | nil => rfl
  | cons c rest => exact if_neg fun hc => h rest (by rw [hc])

/-- The closing quote after the single character or escape sequence `body`. -/
theorem closes_after {i : Nat} {body cs : List Char}
    (hbody : IsSingle Escape.singleQuote body) :
    Closes Escape.singleQuote (IsSingle Escape.singleQuote) i (body ++ cs)
      ((closeCharacter (i + body.length) cs).map fun _ => body.length + 1) := by
  by_cases h : ∃ rest, cs = Escape.singleQuote :: rest
  · obtain ⟨rest, rfl⟩ := h
    rw [closeCharacter_quote]
    exact ⟨body, rest, rfl, rfl, hbody⟩
  · rw [closeCharacter_error fun rest hrest => h ⟨rest, hrest⟩]
    refine ⟨Nat.le_add_right _ _, by simp [LexError.index], fun body' rest heq hbody' => ?_⟩
    refine h ⟨rest, ?_⟩
    obtain rfl := hbody.unique hbody' heq
    exact List.append_cancel_left heq

/-- A character literal is one character or escape sequence up to the quote, or there is none. -/
theorem characterTail_spec (i : Nat) (cs : List Char) :
    Closes Escape.singleQuote (IsSingle Escape.singleQuote) i cs (characterTail i cs) := by
  fun_cases characterTail i cs with
  | case1 => exact ⟨Nat.le_refl _, Nat.le_refl _, fun body rest h => by simp at h⟩
  | case2 e rest he => exact closes_after (.inr ⟨e, rfl, isTarget_iff.1 he⟩)
  | case3 e rest he =>
    refine ⟨Nat.le_succ i, by simp [LexError.index], fun body r h hbody => ?_⟩
    rcases hbody.content.cases_cons h (by decide) with ⟨hp, _⟩ | ⟨_, e', _, he', _, hr⟩
    · exact hp.2.2.2 rfl
    · exact he (isTarget_iff.2 ((List.cons.inj hr).1 ▸ he'))
  | case4 =>
    refine ⟨Nat.le_succ i, by simp [LexError.index], fun body r h hbody => ?_⟩
    rcases hbody.content.cases_cons h (by decide) with ⟨hp, _⟩ | ⟨_, e', _, _, _, hr⟩
    · exact hp.2.2.2 rfl
    · cases hr
  | case5 c rest hc hq =>
    refine ⟨Nat.le_refl i, Nat.le_add_right _ _, fun body r h hbody => ?_⟩
    rcases hbody with ⟨c', rfl, hp⟩ | ⟨e, rfl, _⟩
    · obtain ⟨hne, hline, _⟩ := isPlain_iff.1 hp
      obtain rfl := (List.cons.inj h).1
      rcases hq with hq | hq
      · exact hne hq
      · exact absurd hq (by simp [hline])
    · exact hc (List.cons.inj h).1
  | case6 c rest hc hq =>
    rw [not_or] at hq
    exact closes_after (.inl ⟨c, rfl, isPlain_iff.2 ⟨hq.1, by simpa using hq.2, hc⟩⟩)

/-- A plain character before text that closes. -/
theorem Closes.plain {i : Nat} {c : Char} {cs : List Char} {r : Except LexError Nat}
    (hc : IsPlain Escape.doubleQuote c)
    (h : Closes Escape.doubleQuote (Content Escape.doubleQuote) (i + 1) cs r) :
    Closes Escape.doubleQuote (Content Escape.doubleQuote) i (c :: cs) (r.map (· + 1)) := by
  cases r with
  | ok n =>
    obtain ⟨body, rest, rfl, rfl, hbody⟩ := h
    exact ⟨c :: body, rest, rfl, rfl, .plain hc hbody⟩
  | error e =>
    obtain ⟨hlow, hhigh, hno⟩ := h
    refine ⟨by omega, by rw [List.length_cons]; omega, fun body rest heq hbody => ?_⟩
    rcases hbody.cases_cons heq hc.1 with ⟨_, body', hbody', hcs⟩ | ⟨hb, _⟩
    · exact hno body' rest hcs hbody'
    · exact hc.2.2.2 hb

/-- An escape sequence before text that closes. -/
theorem Closes.escape {i : Nat} {e : Char} {cs : List Char} {r : Except LexError Nat}
    (he : IsEscape e)
    (h : Closes Escape.doubleQuote (Content Escape.doubleQuote) (i + 2) cs r) :
    Closes Escape.doubleQuote (Content Escape.doubleQuote) i (Escape.backslash :: e :: cs)
      (r.map (· + 2)) := by
  cases r with
  | ok n =>
    obtain ⟨body, rest, rfl, rfl, hbody⟩ := h
    exact ⟨Escape.backslash :: e :: body, rest, rfl, rfl, .escape he hbody⟩
  | error err =>
    obtain ⟨hlow, hhigh, hno⟩ := h
    refine ⟨by omega, by simp only [List.length_cons]; omega, fun body rest heq hbody => ?_⟩
    rcases hbody.cases_cons heq (by decide) with ⟨hp, _⟩ | ⟨_, _, body', _, hbody', hcs⟩
    · exact hp.2.2.2 rfl
    · exact hno body' rest (List.cons.inj hcs).2 hbody'

/-- A character that no text before a closing quote starts with. -/
theorem closes_error {i : Nat} {c : Char} {cs : List Char} {e : LexError}
    (hlow : i ≤ e.index) (hhigh : e.index ≤ i + 1) (hq : c ≠ Escape.doubleQuote)
    (hp : ¬ IsPlain Escape.doubleQuote c)
    (he : c = Escape.backslash → ∀ d rest, cs = d :: rest → ¬ IsEscape d) :
    Closes Escape.doubleQuote (Content Escape.doubleQuote) i (c :: cs) (.error e) := by
  refine ⟨hlow, by rw [List.length_cons]; omega, fun body rest heq hbody => ?_⟩
  rcases hbody.cases_cons heq hq with ⟨hp', _⟩ | ⟨hb, d, _, hd, _, hcs⟩
  · exact hp hp'
  · exact he hb d _ hcs hd

/-- A string literal is its content up to the quote, or there is none. -/
theorem stringTail_spec (i : Nat) (cs : List Char) :
    Closes Escape.doubleQuote (Content Escape.doubleQuote) i cs (stringTail i cs) := by
  have hend (j : Nat) : Closes Escape.doubleQuote (Content Escape.doubleQuote) j []
      (.error (.unterminatedString j)) :=
    ⟨Nat.le_refl _, Nat.le_refl _, fun body rest h => by simp at h⟩
  have hline {c : Char} (h : endsLine c = true) : ¬ IsPlain Escape.doubleQuote c := fun hp => by
    rw [(isPlain_iff.1 hp).2.1] at h
    cases h
  fun_induction stringTail i cs with
  | case1 i => exact hend i
  | case2 => exact ⟨[], [], rfl, rfl, .nil⟩
  | case3 =>
    exact closes_error (Nat.le_succ _) (Nat.le_refl _) (by decide) (fun hp => hp.2.2.2 rfl)
      fun _ d rest h => by cases h
  | case4 i c hq hb hl =>
    exact closes_error (Nat.le_refl _) (Nat.le_succ _) hq (hline hl) fun h => absurd h hb
  | case5 i c hq hb hl => exact (hend (i + 1)).plain (isPlain_iff.2 ⟨hq, by simpa using hl, hb⟩)
  | case6 i d rest => exact ⟨[], d :: rest, rfl, rfl, .nil⟩
  | case7 i d rest hd _ ih => exact ih.escape (isTarget_iff.1 hd)
  | case8 i d rest hd =>
    refine closes_error (Nat.le_succ _) (Nat.le_refl _) (by decide) (fun hp => hp.2.2.2 rfl) ?_
    intro _ d' rest' h hd'
    exact hd (isTarget_iff.2 ((List.cons.inj h).1 ▸ hd'))
  | case9 i c d rest hq hb hl =>
    exact closes_error (Nat.le_refl _) (Nat.le_succ _) hq (hline hl) fun h => absurd h hb
  | case10 i c d rest hq hb hl ih => exact ih.plain (isPlain_iff.2 ⟨hq, by simpa using hl, hb⟩)

/-! ### One token -/

/-- What reading a token that starts with `c` at position `i` should answer: the
longest lexeme, or an error inside the text if there is no lexeme. -/
def TokenTail (i : Nat) (c : Char) (rest : List Char) : Except LexError (TokenKind × Nat) → Prop
  | .ok (kind, n) => n ≤ rest.length ∧ Longest kind (c :: rest.take n) (c :: rest)
  | .error e => i ≤ e.index ∧ e.index ≤ i + 1 + rest.length ∧
      ∀ kind w, w <+: c :: rest → ¬ Lexeme kind w

/-- What is taken is a lexeme, and none that the text starts with is longer. -/
theorem tokenTail_ok {i n : Nat} {c : Char} {rest : List Char} {kind : TokenKind}
    (hn : n ≤ rest.length) (hlexeme : Lexeme kind (c :: rest.take n))
    (hmax : ∀ kind' u, u <+: rest → Lexeme kind' (c :: u) → u.length ≤ n) :
    TokenTail i c rest (.ok (kind, n)) := by
  refine ⟨hn, ⟨List.cons_prefix_cons.2 ⟨rfl, List.take_prefix n rest⟩, hlexeme, ?_⟩⟩
  intro kind' w hw hlexeme'
  obtain ⟨c', u, rfl⟩ := List.exists_cons_of_ne_nil hlexeme'.ne_nil
  obtain ⟨rfl, hu⟩ := List.cons_prefix_cons.1 hw
  rw [List.length_cons, List.length_cons, List.length_take, Nat.min_eq_left hn]
  exact Nat.succ_le_succ (hmax kind' u hu hlexeme')

/-- The text starts with no lexeme, and the error points into the text. -/
theorem tokenTail_error {i : Nat} {c : Char} {rest : List Char} {e : LexError}
    (hlow : i ≤ e.index) (hhigh : e.index ≤ i + 1 + rest.length)
    (hno : ∀ kind u, u <+: rest → ¬ Lexeme kind (c :: u)) : TokenTail i c rest (.error e) := by
  refine ⟨hlow, hhigh, fun kind w hw hlexeme => ?_⟩
  obtain ⟨c', u, rfl⟩ := List.exists_cons_of_ne_nil hlexeme.ne_nil
  obtain ⟨rfl, hu⟩ := List.cons_prefix_cons.1 hw
  exact hno kind u hu hlexeme

/-- A name is taken to its end. -/
theorem identifier_spec {i : Nat} {c : Char} (rest : List Char) (hc : IsLetter c) :
    TokenTail i c rest (.ok (.identifier, (rest.takeWhile isNameTail).length)) := by
  refine tokenTail_ok (List.takeWhile_sublist _).length_le ⟨hc, fun d hd => ?_⟩ ?_
  · rw [take_length_takeWhile] at hd
    exact isNameTail_iff.1 (of_mem_takeWhile hd)
  · intro kind u hu hlexeme
    have hkind : kind = .identifier := hlexeme.kindOf_eq.symm.trans (if_pos hc)
    subst hkind
    exact length_le_takeWhile hu fun d hd => isNameTail_iff.2 (hlexeme.2 d hd)

/-- A number is a lexeme, with and without a sign. -/
theorem Unsigned.lexeme {kind : TokenKind} {w : List Char} (h : Unsigned kind w) :
    Lexeme kind w ∧ Lexeme kind ('-' :: w) := by
  cases kind with
  | integer => exact ⟨.inl h, .inr ⟨w, rfl, h⟩⟩
  | decimal => exact ⟨.inl h, .inr ⟨w, rfl, h⟩⟩
  | _ => exact h.elim

/-- A number without a sign starts with a digit. -/
theorem Unsigned.head {kind : TokenKind} {c : Char} {w : List Char} (h : Unsigned kind (c :: w)) :
    IsDigit c := by
  cases kind with
  | integer => exact (show IsWhole (c :: w) from h).digits.2 c (by simp)
  | decimal =>
    obtain ⟨d, r, hdr, hd, _⟩ := IsFractional.head h
    rwa [(List.cons.inj hdr).1]
  | _ => exact h.elim

/-- A lexeme that starts like a number is one, with or without its sign. -/
theorem unsigned_of_lexeme {kind : TokenKind} {c : Char} {u : List Char} (h : Lexeme kind (c :: u))
    (hc : IsDigit c ∨ (c = '-' ∧ u ≠ [])) :
    Unsigned kind (c :: u) ∨ (c = '-' ∧ Unsigned kind u) := by
  have hsigned (P : List Char → Prop) (hP : Signed P (c :: u)) :
      P (c :: u) ∨ (c = '-' ∧ P u) := by
    rcases hP with hP | ⟨r, hr, hP⟩
    · exact .inl hP
    · obtain ⟨rfl, rfl⟩ := List.cons.inj hr
      exact .inr ⟨rfl, hP⟩
  have hkind := h.kindOf_eq
  rw [kindOf_number hc] at hkind
  split_ifs at hkind
  · subst hkind
    exact hsigned _ h
  · subst hkind
    exact hsigned _ h

/-- A number is taken to its end. -/
theorem number_spec {i : Nat} {c : Char} (rest : List Char) (hc : IsDigit c) :
    TokenTail i c rest (.ok (numberTail c rest)) := by
  obtain ⟨hn, hlexeme, hmax⟩ := numberTail_spec c rest hc
  refine tokenTail_ok hn hlexeme.lexeme.1 fun kind u hu hlexeme' => ?_
  rcases unsigned_of_lexeme hlexeme' (.inl hc) with h | ⟨rfl, _⟩
  · exact Nat.le_of_succ_le_succ (hmax kind _ h (List.cons_prefix_cons.2 ⟨rfl, hu⟩))
  · exact absurd hc (by decide)

/-- A sign and a number are taken to the end of the number. -/
theorem negative_spec {i : Nat} {d : Char} (rest : List Char) (hd : IsDigit d) :
    TokenTail i '-' (d :: rest) (.ok ((numberTail d rest).1, (numberTail d rest).2 + 1)) := by
  obtain ⟨hn, hlexeme, hmax⟩ := numberTail_spec d rest hd
  refine tokenTail_ok (Nat.succ_le_succ hn) hlexeme.lexeme.2 fun kind u hu hlexeme' => ?_
  by_cases hne : u = []
  · simp [hne]
  · rcases unsigned_of_lexeme hlexeme' (.inr ⟨rfl, hne⟩) with h | ⟨_, h⟩
    · exact absurd h.head (by decide)
    · exact hmax kind u h hu

/-- A reader of quoted text that answers as it should reads the whole token. -/
theorem quoted_spec {quote : Char} {P : List Char → Prop} {kind : TokenKind} {i : Nat}
    {rest : List Char} {r : Except LexError Nat} (hq : quote ≠ Escape.backslash)
    (hkind : Lexeme kind = Quoted quote P)
    (hstart : ∀ u, kindOf (quote :: u) = kind) (hP : ∀ body, P body → Content quote body)
    (h : Closes quote P (i + 1) rest r) :
    TokenTail i quote rest (r.map (Prod.mk kind)) := by
  -- The only lexemes that start with the quote are quoted texts.
  have hquoted : ∀ kind' u, Lexeme kind' (quote :: u) → ∃ body, u = body ++ [quote] ∧ P body := by
    intro kind' u hlexeme
    obtain rfl := (hstart u).symm.trans hlexeme.kindOf_eq
    rw [hkind] at hlexeme
    obtain ⟨body, hbody, hp⟩ := hlexeme
    exact ⟨body, (List.cons.inj hbody).2, hp⟩
  cases r with
  | ok n =>
    obtain ⟨body, s, rfl, rfl, hbody⟩ := h
    have htake : (body ++ quote :: s).take (body.length + 1) = body ++ [quote] := by
      rw [← List.singleton_append, ← List.append_assoc]
      exact List.take_left' (by simp)
    refine tokenTail_ok (by simp) ?_ fun kind' u hu hlexeme => ?_
    · rw [htake, hkind]
      exact ⟨body, rfl, hbody⟩
    · obtain ⟨body', rfl, hbody'⟩ := hquoted kind' u hlexeme
      obtain ⟨s', hs'⟩ := hu
      have heq : body' = body :=
        (hP _ hbody').unique hq (hP _ hbody) (by simpa using hs')
      simp [heq]
  | error e =>
    obtain ⟨hlow, hhigh, hno⟩ := h
    refine tokenTail_error (by omega) hhigh fun kind' u hu hlexeme => ?_
    obtain ⟨body, rfl, hbody⟩ := hquoted kind' u hlexeme
    obtain ⟨s, rfl⟩ := hu
    exact hno body s (by simp) hbody

/-- An operator is one character, or a pair. -/
theorem isOperator_cons {c : Char} {u : List Char} (h : IsOperator (c :: u)) :
    (u = [] ∧ c ∈ symbols) ∨ ∃ d, u = [d] ∧ isOperatorPair c d = true := by
  rcases h with ⟨c', hc', h⟩ | h
  · obtain ⟨rfl, rfl⟩ := List.cons.inj h
    exact .inl ⟨rfl, hc'⟩
  · have hlen : (c :: u).length = 2 := by
      revert h
      generalize c :: u = w
      revert w
      decide
    obtain ⟨d, rfl⟩ := List.length_eq_one_iff.1 (Nat.succ.inj hlen)
    exact .inr ⟨d, rfl, isOperatorPair_iff.2 h⟩

/-- Of two operators the longer one is taken; if there is none, the character is unexpected. -/
theorem operator_spec {i : Nat} {c : Char} {rest : List Char}
    (honly : ∀ kind u, u <+: rest → Lexeme kind (c :: u) → kind = .operator) :
    TokenTail i c rest (match operatorTail? c rest with
      | some n => .ok (.operator, n)
      | none => .error (.unexpectedCharacter c i)) := by
  have hcons : ∀ kind u, u <+: rest → Lexeme kind (c :: u) →
      (u = [] ∧ c ∈ symbols) ∨ ∃ d, u = [d] ∧ isOperatorPair c d = true := by
    intro kind u hu hlexeme
    obtain rfl := honly kind u hu hlexeme
    exact isOperator_cons hlexeme
  unfold operatorTail?
  split_ifs with hpair hone
  · cases rest with
    | nil => simp at hpair
    | cons d r =>
      refine tokenTail_ok (by simp) (.inr (isOperatorPair_iff.1 (by simpa using hpair))) ?_
      intro kind u hu hlexeme
      rcases hcons kind u hu hlexeme with ⟨rfl, _⟩ | ⟨d, rfl, _⟩ <;> simp
  · refine tokenTail_ok (Nat.zero_le _) (.inl ⟨c, isOperator_iff.1 hone, by simp⟩) ?_
    intro kind u hu hlexeme
    rcases hcons kind u hu hlexeme with ⟨rfl, _⟩ | ⟨d, rfl, hd⟩
    · simp
    · obtain ⟨s, rfl⟩ := hu
      exact absurd hd (by simpa using hpair)
  · refine tokenTail_error (Nat.le_refl _) (Nat.le_add_right_of_le (Nat.le_succ _)) ?_
    intro kind u hu hlexeme
    rcases hcons kind u hu hlexeme with ⟨rfl, hc⟩ | ⟨d, rfl, hd⟩
    · exact hone (isOperator_iff.2 hc)
    · obtain ⟨s, rfl⟩ := hu
      exact hpair (by simpa using hd)

/-- **At every character the longest lexeme is taken.** -/
theorem tokenTail_spec (i : Nat) (c : Char) (rest : List Char) :
    TokenTail i c rest (tokenTail i c rest) := by
  unfold tokenTail
  split_ifs with hletter hdigit hsingle hdouble
  · exact identifier_spec rest (isAlpha_iff.1 hletter)
  · exact number_spec rest (isDigit_iff.1 hdigit)
  · subst hsingle
    exact quoted_spec (by decide) rfl (fun _ => rfl) (fun _ => IsSingle.content)
      (characterTail_spec (i + 1) rest)
  · subst hdouble
    exact quoted_spec (by decide) rfl (fun _ => rfl) (fun _ => id) (stringTail_spec (i + 1) rest)
  · by_cases hminus : c = '-' ∧ ∃ d r, rest = d :: r ∧ IsDigit d
    · obtain ⟨rfl, d, r, rfl, hd⟩ := hminus
      simp only [negativeTail?, isDigit_iff.2 hd, and_self, if_true]
      exact negative_spec r hd
    · have hnone : negativeTail? c rest = none := by
        cases rest with
        | nil => rfl
        | cons d r =>
          exact if_neg fun h => hminus ⟨h.1, d, r, rfl, isDigit_iff.1 h.2⟩
      rw [hnone]
      refine operator_spec fun kind u hu hlexeme => ?_
      have hnumber : ¬ (IsDigit c ∨ (c = '-' ∧ u ≠ [])) := by
        rintro (h | ⟨rfl, hne⟩)
        · exact hdigit (isDigit_iff.2 h)
        · obtain ⟨d, r, rfl⟩ := List.exists_cons_of_ne_nil hne
          rcases unsigned_of_lexeme hlexeme (.inr ⟨rfl, hne⟩) with h | ⟨_, h⟩
          · exact absurd h.head (by decide)
          · obtain ⟨s, rfl⟩ := hu
            exact hminus ⟨rfl, d, r ++ s, rfl, h.head⟩
      rw [← hlexeme.kindOf_eq]
      simp only [kindOf, isAlpha_iff.not.1 hletter, hsingle, hdouble, hnumber, if_false]

end Lexer
end Scriptlet
