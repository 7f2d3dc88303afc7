import Scriptlet.Proofs.Cut

/-!
# Blanks between texts

Where a text is cut into tokens, blanks are a boundary: what comes before them is read as if
the text ended there, and what comes after them as if it began there (`lexFrom_append`).  The
position at which a text begins has no influence on how it is read, only on the positions of
its tokens or of its error (`lexFrom_moved`).

Together, the tokens of two texts with blanks between them are those of the first and then
those of the second, moved; and the tokens of a text can be written again with any blanks
between them (`scan_append_blanks`).
-/

namespace Scriptlet

/-- The error `d` characters further on. -/
def LexError.moved (d : Nat) : LexError → LexError
  | invalidCharacter i => invalidCharacter (i + d)
  | unterminatedCharacter i => unterminatedCharacter (i + d)
  | unterminatedString i => unterminatedString (i + d)
  | invalidEscape i => invalidEscape (i + d)
  | unexpectedCharacter c i => unexpectedCharacter c (i + d)

/-- The kind and the text of a token. -/
def Token.shape (t : Token) : TokenKind × String := (t.kind, t.literal)

/-- Some words in order, with blanks between them. -/
inductive Spaced : List String → String → Prop where
  | nil : Spaced [] ""
  | one (word : String) : Spaced [word] word
  | cons {word next blanks text : String} {rest : List String} :
    blanks ≠ "" → (∀ c ∈ blanks.toList, IsBlank c) → Spaced (next :: rest) text →
      Spaced (word :: next :: rest) (word ++ blanks ++ text)

namespace Lexer

/-! ### Reading at another position -/

/-- What reading answers `d` characters further on: tokens and errors are moved along. -/
def movedBy (d : Nat) : Except LexError (List Token) → Except LexError (List Token)
  | .ok tokens => .ok (tokens.map (Token.moved d))
  | .error e => .error (e.moved d)

/-- Moving the error of a step commutes with what is done to its result. -/
theorem map_mapError {α β : Type} (f : α → β) (g : LexError → LexError) (r : Except LexError α) :
    (r.mapError g).map f = (r.map f).mapError g := by
  cases r <;> rfl

theorem closeCharacter_moved (i d : Nat) (cs : List Char) :
    closeCharacter (i + d) cs = (closeCharacter i cs).mapError (LexError.moved d) := by
  fun_cases closeCharacter i cs with
  | case1 => rfl
  | case2 c rest hc =>
    rw [closeCharacter, if_neg hc]
    rfl
  | case3 => rfl

theorem characterTail_moved (i d : Nat) (cs : List Char) :
    characterTail (i + d) cs = (characterTail i cs).mapError (LexError.moved d) := by
  fun_cases characterTail i cs with
  | case1 => rfl
  | case2 e rest he =>
    rw [characterTail, if_pos rfl]
    simp only [if_pos he]
    rw [Nat.add_right_comm, closeCharacter_moved, map_mapError]
  | case3 e rest he =>
    rw [characterTail, if_pos rfl]
    simp only [if_neg he]
    rw [Nat.add_right_comm]
    rfl
  | case4 =>
    rw [characterTail, if_pos rfl, Nat.add_right_comm]
    rfl
  | case5 c rest hc hq =>
    rw [characterTail.eq_def]
    simp only [if_neg hc, if_pos hq]
    rfl
  | case6 c rest hc hq =>
    rw [characterTail.eq_def]
    simp only [if_neg hc, if_neg hq]
    rw [Nat.add_right_comm, closeCharacter_moved, map_mapError]

theorem stringTail_moved (i d : Nat) (cs : List Char) :
    stringTail (i + d) cs = (stringTail i cs).mapError (LexError.moved d) := by
  fun_induction stringTail i cs with
  | case1 i => rfl
  | case2 => rfl
  | case3 i =>
    rw [stringTail, if_neg (by decide), if_pos rfl, Nat.add_right_comm]
    rfl
  | case4 i c hq hb hl =>
    rw [stringTail, if_neg hq, if_neg hb, if_pos hl]
    rfl
  | case5 i c hq hb hl =>
    rw [stringTail, if_neg hq, if_neg hb, if_neg hl, Nat.add_right_comm]
    rfl
  | case6 i e rest =>
    rw [stringTail, if_pos rfl]
    rfl
  | case7 i e rest he hne ih =>
    rw [stringTail, if_neg (by decide), if_pos rfl, if_pos he, Nat.add_right_comm, ih, map_mapError]
  | case8 i e rest he =>
    rw [stringTail, if_neg (by decide), if_pos rfl, if_neg he, Nat.add_right_comm]
    rfl
  | case9 i c e rest hq hb hl =>
    rw [stringTail, if_neg hq, if_neg hb, if_pos hl]
    rfl
  | case10 i c e rest hq hb hl ih =>
    rw [stringTail, if_neg hq, if_neg hb, if_neg hl, Nat.add_right_comm, ih, map_mapError]

/-- A token that stands further on in the text is the same, and its error is further on. -/
theorem tokenTail_moved (i d : Nat) (c : Char) (rest : List Char) :
    tokenTail (i + d) c rest = (tokenTail i c rest).mapError (LexError.moved d) := by
  unfold tokenTail
  split_ifs
  · rfl
  · rfl
  · rw [Nat.add_right_comm, characterTail_moved, map_mapError]
  · rw [Nat.add_right_comm, stringTail_moved, map_mapError]
  · cases negativeTail? c rest with
    | some number => rfl
    | none => cases operatorTail? c rest <;> rfl

/-- **Where a text begins has no influence on how it is read.** -/
theorem lexFrom_moved (i d : Nat) (cs : List Char) :
    lexFrom (i + d) cs = movedBy d (lexFrom i cs) := by
  fun_induction lexFrom i cs with
  | case1 i => rw [lexFrom]; rfl
  | case2 i c rest hc ih => rw [lexFrom, if_pos hc, Nat.add_right_comm, ih]
  | case3 i c rest hc e htail =>
    rw [lexFrom, if_neg hc, tokenTail_moved, htail]
    rfl
  | case4 i c rest hc kind n htail e hrest ih =>
    rw [hrest, Nat.add_right_comm, Nat.add_right_comm i] at ih
    rw [lexFrom, if_neg hc, tokenTail_moved, htail]
    simp only [Except.mapError, ih]
    rfl
  | case5 i c rest hc kind n htail tokens hrest ih =>
    rw [hrest, Nat.add_right_comm, Nat.add_right_comm i] at ih
    rw [lexFrom, if_neg hc, tokenTail_moved, htail]
    simp only [Except.mapError, ih]
    rfl

/-! ### Blanks -/

/-- Blanks in front of a text move it on. -/
theorem lexFrom_blanks {blanks : List Char} (h : ∀ c ∈ blanks, IsBlank c) (i : Nat)
    (rest : List Char) : lexFrom i (blanks ++ rest) = lexFrom (i + blanks.length) rest := by
  induction blanks generalizing i with
  | nil => rfl
  | cons c blanks ih =>
    rw [List.forall_mem_cons] at h
    rw [List.cons_append, lexFrom_blank h.1, ih h.2, List.length_cons]
    congr 1
    omega

/-- **A text that ends before a separating character** is read by itself, and reading goes on
after it. -/
theorem lexFrom_append {i : Nat} {cs : List Char} {tokens : List Token} (h : Munch i cs tokens)
    {b : Char} (hb : Separates b) (more : List Char) :
    lexFrom i (cs ++ b :: more) =
      (lexFrom (i + cs.length) (b :: more)).map fun tokens' => tokens ++ tokens' := by
  induction h with
  | nil =>
    rw [List.nil_append, List.length_nil, Nat.add_zero]
    cases lexFrom _ (b :: more) <;> rfl
  | blank hc _ ih =>
    rw [List.cons_append, lexFrom_blank hc, ih, List.length_cons]
    congr 2
    omega
  | @token i c w rest kind tokens hc hlongest _ ih =>
    have hlongest' := hlongest.append hb more
    rw [List.cons_append, List.append_assoc] at hlongest' ⊢
    rw [lexFrom_token hc hlongest', ih]
    have hlength : i + 1 + w.length + rest.length = i + (c :: (w ++ rest)).length := by
      rw [List.length_cons, List.length_append]
      omega
    rw [hlength]
    cases lexFrom _ (b :: more) <;> rfl

end Lexer

/-- What is read after blanks stands as it does by itself, further on. -/
theorem scan_append {a : String} {ts : List Token} (ha : Token.scan a = .ok ts) {w : String}
    (hne : w ≠ "") (hw : ∀ c ∈ w.toList, IsBlank c) (b : String) :
    Token.scan (a ++ w ++ b) = match Token.scan b with
      | .ok us => .ok (ts ++ us.map (Token.moved (a.length + w.length)))
      | .error e => .error (e.moved (a.length + w.length)) := by
  obtain ⟨c, blanks, hcons⟩ : ∃ c blanks, w.toList = c :: blanks :=
    List.exists_cons_of_ne_nil fun h => hne (String.toList_eq_nil_iff.1 h)
  have hc : IsBlank c := hw c (by rw [hcons]; exact List.mem_cons_self)
  have hlength : a.toList.length + w.toList.length = a.length + w.length := by
    rw [String.length_toList, String.length_toList]
  have hmoved := Lexer.lexFrom_moved 0 (a.length + w.length) b.toList
  rw [Nat.zero_add] at hmoved
  calc Token.scan (a ++ w ++ b)
      = Lexer.lexFrom 0 (a.toList ++ c :: (blanks ++ b.toList)) := by
        rw [Token.scan, String.toList_append, String.toList_append, hcons, List.append_assoc,
          List.cons_append]
    _ = (Lexer.lexFrom (0 + a.toList.length) (w.toList ++ b.toList)).map (ts ++ ·) := by
        rw [Lexer.lexFrom_append (Token.munch_of_scan ha) hc.separates, hcons, List.cons_append]
    _ = (Lexer.movedBy (a.length + w.length) (Token.scan b)).map (ts ++ ·) := by
        rw [Lexer.lexFrom_blanks hw, Nat.zero_add, hlength, hmoved, Token.scan]
    _ = _ := by cases Token.scan b <;> rfl

/-- **Tokens can be written with any blanks between them.** -/
theorem Spaced.exists_scan {words : List String} {text : String} (h : Spaced words text) :
    ∀ {ts : List Token}, (∀ t ∈ ts, t.Lexed) → ts.map Token.literal = words →
      ∃ us, Token.scan text = .ok us ∧ us.map Token.shape = ts.map Token.shape := by
  have hone : ∀ {t : Token}, t.Lexed → Token.scan t.literal = .ok [⟨t.kind, t.literal, 0⟩] := by
    intro t ht
    have hmunch := Lexeme.munch ht 0
    rw [String.ofList_toList] at hmunch
    exact Token.scan_of_munch hmunch
  induction h with
  | nil =>
    intro ts _ hwords
    rw [List.map_eq_nil_iff.1 hwords]
    exact ⟨[], Token.scan_of_munch .nil, rfl⟩
  | one word =>
    intro ts hts hwords
    obtain ⟨t, rfl, rfl⟩ := List.map_eq_singleton_iff.1 hwords
    exact ⟨_, hone (hts t (by simp)), rfl⟩
  | cons hne hblanks _ ih =>
    intro ts hts hwords
    obtain ⟨t, ts, rfl, rfl, hrest⟩ := List.map_eq_cons_iff.1 hwords
    rw [List.forall_mem_cons] at hts
    obtain ⟨us, hscan, hshape⟩ := ih hts.2 hrest
    refine ⟨_, by rw [scan_append (hone hts.1) hne hblanks, hscan], ?_⟩
    rw [List.map_append, List.map_map, List.map_cons, List.map_cons, ← hshape]
    rfl

/-- **Reading is compositional at blanks.**  Whatever follows a text after at least one blank, the
tokens of the text come first, and then what follows is read as it is by itself: its tokens,
or its error, only further on.  So the tokens of a text are read back, with their kinds, from
their words with any blanks between them. -/
theorem scan_append_blanks {a : String} {ts : List Token} (ha : Token.scan a = .ok ts) :
    (∀ w b : String, w ≠ "" → (∀ c ∈ w.toList, IsBlank c) →
      Token.scan (a ++ w ++ b) = match Token.scan b with
        | .ok us => .ok (ts ++ us.map (Token.moved (a.length + w.length)))
        | .error e => .error (e.moved (a.length + w.length))) ∧
      ∀ text, Spaced (ts.map Token.literal) text →
        ∃ us, Token.scan text = .ok us ∧ us.map Token.shape = ts.map Token.shape :=
  ⟨fun _ b hne hw => scan_append ha hne hw b, fun _ h =>
    h.exists_scan (Token.lexed_of_scan ha) rfl⟩

/-- With a blank after `1.`, what follows it is no longer its fraction, and the lone bar is reported
where it stands in the whole text.  The three integers of `01-2` are still read with a line
feed and a tab between them. -/
theorem scan_append_blanks_dot_and_sign :
    Token.scan ("1." ++ "\n" ++ "5 |") = .error (.unexpectedCharacter '|' 5) ∧
      ∃ us, Token.scan "0\n1\t-2" = .ok us ∧
        us.map Token.shape = [(.integer, "0"), (.integer, "1"), (.integer, "-2")] := by
  have hblank : ∀ w : String, w = "\n" ∨ w = "\t" → ∀ c ∈ w.toList, IsBlank c := by
    rintro w (rfl | rfl) c hc
    · rw [List.mem_singleton.1 hc]
      exact .inr (.inr (.inr (.inl rfl)))
    · rw [List.mem_singleton.1 hc]
      exact .inr (.inl rfl)
  constructor
  · have hdot : Token.scan "1." = .ok [⟨.integer, "1", 0⟩, ⟨.operator, ".", 1⟩] := by
      decide +kernel
    rw [(scan_append_blanks hdot).1 "\n" "5 |" (by decide) (hblank _ (.inl rfl)),
      show Token.scan "5 |" = .error (.unexpectedCharacter '|' 2) by decide +kernel]
    rfl
  · have hsigns : Token.scan "01-2" =
        .ok [⟨.integer, "0", 0⟩, ⟨.integer, "1", 1⟩, ⟨.integer, "-2", 2⟩] := by
      decide +kernel
    refine (scan_append_blanks hsigns).2 "0\n1\t-2" ?_
    have hlast : Spaced ["1", "-2"] ("1" ++ "\t" ++ "-2") :=
      .cons (by decide) (hblank _ (.inr rfl)) (.one "-2")
    have hall : Spaced ["0", "1", "-2"] ("0" ++ "\n" ++ ("1" ++ "\t" ++ "-2")) :=
      .cons (by decide) (hblank _ (.inl rfl)) hlast
    exact hall

end Scriptlet
