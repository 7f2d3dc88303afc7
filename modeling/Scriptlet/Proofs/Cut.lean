import Scriptlet.Proofs.Denotation

/-!
# Texts side by side

A character separates if no token runs across it outside quotes, as none does
across a blank or a semicolon (`separates_of`).  A text whose tokens are known keeps
them when a separating character and anything else is put after it
(`Munch.append`), for the only lexemes that contain such a character and more are
quoted, and a quoted lexeme ends at its closing quote whatever follows.

A text can also be cut after any of its tokens (`Munch.cut`), and moved to another
position (`Munch.moved`).
-/

namespace Scriptlet

/-- The token `d` characters further on. -/
def Token.moved (d : Nat) (t : Token) : Token := { t with index := t.index + d }

/-- A character that stands alone wherever it stands outside quotes. -/
def Separates (b : Char) : Prop :=
  ∀ kind w, Lexeme kind w → kind ≠ .character → kind ≠ .string → b ∈ w → w = [b]

/-! ### Separating characters -/

theorem IsWhole.not_mem {b : Char} {cs : List Char} (h : IsWhole cs) (hb : ¬ IsDigit b) :
    b ∉ cs := fun hm => hb (h.digits.2 b hm)

theorem IsFractional.not_mem {b : Char} {cs : List Char} (h : IsFractional cs)
    (hb : ¬ IsDigit b) (hdot : b ≠ '.') : b ∉ cs := by
  obtain ⟨whole, fraction, rfl, hwhole, _, hfraction⟩ := h
  intro hm
  rcases List.mem_append.1 hm with hm | hm
  · exact hwhole.not_mem hb hm
  · rcases List.mem_cons.1 hm with rfl | hm
    · exact hdot rfl
    · exact hb (hfraction b hm)

theorem Signed.not_mem {P : List Char → Prop} {b : Char} {cs : List Char} (h : Signed P cs)
    (hP : ∀ ds, P ds → b ∉ ds) (hminus : b ≠ '-') : b ∉ cs := by
  rcases h with h | ⟨rest, rfl, h⟩
  · exact hP cs h
  · intro hm
    rcases List.mem_cons.1 hm with rfl | hm
    · exact hminus rfl
    · exact hP rest h hm

/-- A character separates if it can be no part of a name, of a number or of an
operator of two characters. -/
theorem separates_of {b : Char} (hletter : ¬ IsLetter b) (hdigit : ¬ IsDigit b)
    (hinner : b ≠ '_' ∧ b ≠ '-' ∧ b ≠ '.') (hdouble : ∀ w ∈ doubleSymbols, b ∉ w) :
    Separates b := by
  obtain ⟨hunderscore, hminus, hdot⟩ := hinner
  intro kind w h hchar hstring hm
  cases kind with
  | identifier =>
    cases w with
    | nil => exact absurd hm (by simp)
    | cons c rest =>
      rcases List.mem_cons.1 hm with rfl | hm
      · exact absurd h.1 hletter
      · have := h.2 b hm
        simp_all
  | integer => exact absurd hm (h.not_mem (fun _ hds => hds.not_mem hdigit) hminus)
  | decimal => exact absurd hm (h.not_mem (fun _ hds => hds.not_mem hdigit hdot) hminus)
  | character => exact absurd rfl hchar
  | string => exact absurd rfl hstring
  | operator =>
    rcases h with ⟨c, _, rfl⟩ | h
    · rw [List.mem_singleton.1 hm]
    · exact absurd hm (hdouble w h)

theorem IsBlank.separates {b : Char} (h : IsBlank b) : Separates b := by
  rcases h with rfl | rfl | rfl | rfl | rfl <;> exact separates_of (by decide) (by decide)
    (by decide) (by decide)

theorem separates_semicolon : Separates ';' :=
  separates_of (by decide) (by decide) (by decide) (by decide)

theorem Lexeme.not_isBlank_head {kind : TokenKind} {c : Char} {w : List Char}
    (h : Lexeme kind (c :: w)) : ¬ IsBlank c := by
  intro hc
  have hkind : kindOf (c :: w) = .operator := by
    rcases hc with rfl | rfl | rfl | rfl | rfl <;> rfl
  obtain rfl : kind = .operator := by rw [← h.kindOf_eq, hkind]
  rcases h with ⟨d, hd, hw⟩ | h
  · obtain ⟨rfl, -⟩ := List.cons.inj hw
    revert hd
    rcases hc with rfl | rfl | rfl | rfl | rfl <;> decide
  · have hall : ∀ v ∈ doubleSymbols, v.head?.any Lexer.isBlank = false := by decide
    have hblank : Lexer.isBlank c = false := hall _ h
    simp [isBlank_iff.2 hc] at hblank

/-! ### Longest lexemes in longer texts -/

/-- A lexeme that starts with a quote goes on to its closing quote. -/
theorem Lexeme.quoted {kind : TokenKind} {quote : Char} {w : List Char}
    (hq : quote = Escape.singleQuote ∨ quote = Escape.doubleQuote)
    (h : Lexeme kind (quote :: w)) : Quoted quote (Content quote) (quote :: w) := by
  rcases hq with rfl | rfl
  · obtain rfl : kind = .character := h.kindOf_eq.symm
    obtain ⟨body, hw, hbody⟩ := h
    exact ⟨body, hw, hbody.content⟩
  · obtain rfl : kind = .string := h.kindOf_eq.symm
    exact h

/-- A text starts with one quoted piece at most: it ends at the first quote that is not escaped. -/
theorem Quoted.unique {quote : Char} (hq : quote ≠ Escape.backslash) {u v r s : List Char}
    (hu : Quoted quote (Content quote) u) (hv : Quoted quote (Content quote) v)
    (h : u ++ r = v ++ s) : u = v := by
  obtain ⟨body, rfl, hbody⟩ := hu
  obtain ⟨body', rfl, hbody'⟩ := hv
  simp only [List.cons_append, List.append_assoc, List.nil_append] at h
  rw [hbody.unique hq hbody' (List.cons.inj h).2]

/-- A lexeme that holds a separating character and more is quoted. -/
theorem Separates.quoted {b : Char} (hb : Separates b) {kind : TokenKind} {w : List Char}
    (h : Lexeme kind w) (hm : b ∈ w) (hmore : w ≠ [b]) :
    ∃ quote, (quote = Escape.singleQuote ∨ quote = Escape.doubleQuote) ∧
      Quoted quote (Content quote) w := by
  by_cases hchar : kind = .character
  · subst hchar
    obtain ⟨body, hw, hbody⟩ := h
    exact ⟨_, .inl rfl, body, hw, hbody.content⟩
  · by_cases hstring : kind = .string
    · subst hstring
      exact ⟨_, .inr rfl, h⟩
    · exact absurd (hb kind w h hchar hstring hm) hmore

/-- **What a text starts with does not depend on what comes after a separating
character.** -/
theorem Longest.append {kind : TokenKind} {w cs : List Char} (h : Longest kind w cs) {b : Char}
    (hb : Separates b) (more : List Char) : Longest kind w (cs ++ b :: more) := by
  refine ⟨h.isPrefix.trans (List.prefix_append cs _), h.lexeme, ?_⟩
  intro kind' w' hstart hlexeme
  rcases Nat.lt_or_ge cs.length w'.length with hlen | hlen
  swap
  · refine h.longest kind' w' ?_ hlexeme
    exact List.prefix_of_prefix_length_le hstart (List.prefix_append cs _) hlen
  -- a lexeme that ends after the separating character is quoted, so `w` ends where it does
  have hmid : cs ++ [b] <+: w' := by
    refine List.prefix_of_prefix_length_le ⟨more, by simp⟩ hstart ?_
    rw [List.length_append]
    exact hlen
  have hmem : b ∈ w' := hmid.subset (by simp)
  have hmore : w' ≠ [b] := by
    intro hw'
    have hcs := hmid.length_le
    have hw := h.isPrefix.length_le
    have hpos := List.length_pos_iff.2 h.lexeme.ne_nil
    rw [hw', List.length_append] at hcs
    simp only [List.length_singleton] at hcs
    omega
  obtain ⟨quote, hquote, hw'⟩ := hb.quoted hlexeme hmem hmore
  obtain ⟨r, hr⟩ := h.isPrefix.trans ((List.prefix_append cs [b]).trans hmid)
  obtain ⟨c, u, rfl⟩ := List.exists_cons_of_ne_nil h.lexeme.ne_nil
  obtain rfl : c = quote := by
    obtain ⟨body, rfl, -⟩ := hw'
    exact (List.cons.inj hr).1
  have hbackslash : c ≠ Escape.backslash := by
    rcases hquote with rfl | rfl <;> decide
  have heq := (h.lexeme.quoted hquote).unique hbackslash hw' (hr.trans (List.append_nil _).symm)
  exact Nat.le_of_eq (congrArg List.length heq.symm)

/-- Less text after the longest lexeme leaves it the longest. -/
theorem Longest.cut {kind : TokenKind} {w rest rest' : List Char}
    (h : Longest kind w (w ++ (rest ++ rest'))) : Longest kind w (w ++ rest) := by
  refine ⟨List.prefix_append w rest, h.lexeme, fun kind' w' hstart hlexeme => ?_⟩
  refine h.longest kind' w' (hstart.trans ?_) hlexeme
  rw [← List.append_assoc]
  exact List.prefix_append _ _

/-- A lexeme is the longest one that it starts with itself. -/
theorem Lexeme.longest {kind : TokenKind} {w : List Char} (h : Lexeme kind w) : Longest kind w w :=
  ⟨List.prefix_rfl, h, fun _ _ hstart _ => hstart.length_le⟩

/-! ### Tokens in longer texts -/

/-- **Texts side by side.**  The tokens of a text that ends before a separating
character are followed by those of the rest. -/
theorem Munch.append {i : Nat} {cs : List Char} {tokens : List Token} (h : Munch i cs tokens)
    {b : Char} (hb : Separates b) {more : List Char} {tokens' : List Token}
    (hmore : Munch (i + cs.length) (b :: more) tokens') :
    Munch i (cs ++ b :: more) (tokens ++ tokens') := by
  induction h with
  | nil => exact hmore
  | blank hc _ ih =>
    refine .blank hc (ih ?_)
    rwa [Nat.add_assoc, Nat.add_comm 1]
  | @token i c w rest kind tokens hc hlongest _ ih =>
    have hlongest' := hlongest.append hb more
    rw [List.cons_append, List.append_assoc] at hlongest' ⊢
    refine .token hc hlongest' (ih ?_)
    rw [List.length_cons, List.length_append] at hmore
    rwa [show i + 1 + w.length + rest.length = i + (w.length + rest.length + 1) by omega]

/-- A text has the same tokens at another position, moved along. -/
theorem Munch.moved {i : Nat} {cs : List Char} {tokens : List Token} (h : Munch i cs tokens)
    (d : Nat) : Munch (i + d) cs (tokens.map (Token.moved d)) := by
  induction h with
  | nil => exact .nil
  | @blank i _ _ _ hc _ ih =>
    refine .blank hc ?_
    rwa [Nat.add_right_comm]
  | @token i _ w _ _ _ hc hlongest _ ih =>
    refine .token hc hlongest ?_
    rwa [show i + d + 1 + w.length = i + 1 + w.length + d by omega]

/-- Texts with a blank between them have the tokens of both. -/
theorem Munch.append_blank {i : Nat} {cs ds : List Char} {tokens tokens' : List Token}
    (h : Munch i cs tokens) (h' : Munch (i + cs.length + 1) ds tokens') :
    Munch i (cs ++ ' ' :: ds) (tokens ++ tokens') := by
  have hblank : IsBlank ' ' := .inl rfl
  exact h.append hblank.separates (.blank hblank h')

/-- **A text can be cut after any of its tokens.** -/
theorem Munch.cut {i : Nat} {cs : List Char} {before after : List Token}
    (h : Munch i cs (before ++ after)) : ∃ text, text <+: cs ∧ Munch i text before := by
  generalize htokens : before ++ after = tokens at h
  induction h generalizing before with
  | nil =>
    obtain ⟨rfl, -⟩ := List.append_eq_nil_iff.1 htokens
    exact ⟨[], List.prefix_rfl, .nil⟩
  | @blank i c rest tokens hc _ ih =>
    obtain ⟨text, hstart, htext⟩ := ih htokens
    exact ⟨c :: text, (List.prefix_cons_inj c).2 hstart, .blank hc htext⟩
  | @token i c w rest kind tokens hc hlongest _ ih =>
    cases before with
    | nil => exact ⟨[], List.nil_prefix, .nil⟩
    | cons t before =>
      obtain ⟨rfl, htail⟩ := List.cons.inj htokens
      obtain ⟨text, ⟨rest, rfl⟩, htext⟩ := ih htail
      refine ⟨c :: (w ++ text), ⟨rest, by simp⟩, .token hc ?_ htext⟩
      exact Longest.cut (w := c :: w) hlongest

/-- A lexeme by itself is one token. -/
theorem Lexeme.munch {kind : TokenKind} {w : List Char} (h : Lexeme kind w) (i : Nat) :
    Munch i w [⟨kind, String.ofList w, i⟩] := by
  obtain ⟨c, w, rfl⟩ := List.exists_cons_of_ne_nil h.ne_nil
  have hlongest : Longest kind (c :: w) (c :: (w ++ [])) := by
    rw [List.append_nil]
    exact h.longest
  have hmunch := Munch.token (i := i) h.not_isBlank_head hlongest .nil
  rwa [List.append_nil] at hmunch

theorem Token.scan_of_munch {text : String} {tokens : List Token}
    (h : Munch 0 text.toList tokens) : Token.scan text = .ok tokens :=
  Lexer.lexFrom_of_munch h

theorem Token.munch_of_scan {text : String} {tokens : List Token}
    (h : Token.scan text = .ok tokens) : Munch 0 text.toList tokens := by
  have hspec := Lexer.lexFrom_spec 0 text.toList
  rwa [show Lexer.lexFrom 0 text.toList = .ok tokens from h] at hspec

end Scriptlet
