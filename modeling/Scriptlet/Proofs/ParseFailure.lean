import Scriptlet.Proofs.Lookahead
import Scriptlet.Proofs.Viable

/-!
# Where reading a program breaks off

If the tokens of a text are no program, reading fails at the earliest point at which this can be
known.  The tokens that were read are the first tokens of a program (`Viable`), and with the next
token they no longer are (`Lookahead`).  The error names this point: it stands after the last
token that was read or, if an operator stands where an expression should start, at the operator.
-/

namespace Scriptlet

open Grammar

/-- The tokens that were read can be completed to those of a program, but no program has these
tokens and then the first token that is left. -/
structure Breaks (read left : List Token) : Prop where
  completed : ∃ text more, Token.scan text = .ok (read ++ more) ∧
    ∀ firstId, ∃ p c, Rule.source (.ofTokens (read ++ more) firstId) = .ok p c
  dead : ∀ t rest, left = t :: rest → ∀ more firstId p c,
    Rule.source (.ofTokens (read ++ t :: more) firstId) ≠ .ok p c

/-! ### Tokens of a text -/

theorem Tiles.stop_le {i : Nat} {cs : List Char} {tokens : List Token} (h : Tiles i cs tokens)
    {t : Token} (ht : t ∈ tokens) : t.index + t.literal.length ≤ cs.length := (h.pieces t ht).2.1

theorem Tiles.stopAfter_le {i : Nat} {cs : List Char} {read left : List Token}
    (h : Tiles i cs (read ++ left)) : stopAfter 0 read ≤ cs.length := by
  unfold stopAfter
  cases hlast : read.getLast? with
  | none => exact Nat.zero_le _
  | some t => exact h.stop_le (List.mem_append_left left (List.mem_of_getLast? hlast))

/-- The tokens that were read end a text of their own, and what completes them can be put after
it. -/
theorem Munch.exists_scan {cs : List Char} {read left : List Token}
    (h : Munch 0 cs (read ++ left)) {α : Type} {Q : List Token → α → Prop}
    (hspelled : Spelled fun more a => Q (read ++ more) a) :
    ∃ text more a, Token.scan text = .ok (read ++ more) ∧ Q (read ++ more) a := by
  obtain ⟨start, -, hstart⟩ := h.cut
  obtain ⟨ds, more, a, hds, ha⟩ := hspelled (0 + start.length + 1)
  have hmunch := hstart.append_blank hds
  refine ⟨String.ofList (start ++ ' ' :: ds), more, a, Token.scan_of_munch ?_, ha⟩
  rwa [String.toList_ofList]

/-- **A parse error stands at the first token that cannot be continued.**  If the tokens of a text
are no program, then what was read of them is the start of a program, and with the next token it
is not.  The error stands after the last token that was read, or at the next one if that is an
operator where an expression should start; so it never lies outside the text.

The bound on the text is that of memory; a longer one could hold a decimal that is no literal. -/
theorem source_breaks_at_first_dead_token {text : String} {tokens : List Token} {firstId : NodeId}
    {e : ParseError} {c : Cursor} (hscan : Token.scan text = .ok tokens)
    (hlength : text.length < 2 ^ 63)
    (h : Rule.source (.ofTokens tokens firstId) = .error e c) :
    ∃ read, tokens = read ++ c.rest ∧ Breaks read c.rest ∧
      (e.fault ≠ .invalidExpression → e.index = stopAfter 0 read) ∧
        (e.fault = .invalidExpression → ∃ t rest, c.rest = t :: rest ∧ e.index = t.index) ∧
          e.index ≤ text.length := by
  have hmunch := Token.munch_of_scan hscan
  have htiles : Tiles 0 text.toList tokens := hmunch.tiles [] rfl
  have hreadable : (Cursor.ofTokens tokens firstId).Readable := by
    intro t ht
    have hstop := htiles.stop_le ht
    rw [String.length_toList] at hstop
    exact ⟨hmunch.lexed t ht, by omega⟩
  obtain ⟨read, htokens, hpoints, hspelled⟩ :=
    (Rule.source_viable (.ofTokens tokens firstId)).failure hreadable h
  have htokens : tokens = read ++ c.rest := htokens
  -- the position is the one after what was read, which is the same tokens
  have hstop : c.stop = stopAfter 0 read := by
    obtain ⟨ts, hrest, hstop, -⟩ := Rule.source_advances (.ofTokens tokens firstId)
    rw [after_eq_of_error h] at hrest hstop
    obtain rfl : ts = read := List.append_cancel_right (hrest.symm.trans htokens)
    exact hstop
  subst htokens
  refine ⟨read, rfl, ⟨?_, ?_⟩, fun hfault => (hpoints.afterLast hfault).trans hstop,
    hpoints.atNext, ?_⟩
  · obtain ⟨text', more, p, hscan', hp⟩ := hmunch.exists_scan hspelled
    refine ⟨text', more, hscan', fun firstId' => ?_⟩
    obtain ⟨q, d, hq, -, -⟩ := Rule.source_reads hp (.ofTokens (read ++ more) firstId')
      (Token.lexed_of_scan hscan') (List.append_nil _).symm
    exact ⟨q, d, hq⟩
  · intro t rest hnext more firstId' p d hok
    obtain ⟨e', d', herror⟩ := Rule.source_fails_alike h rfl hnext firstId' more
    cases herror.symm.trans hok
  · rw [← String.length_toList]
    by_cases hfault : e.fault = .invalidExpression
    · obtain ⟨t, rest, hnext, hindex⟩ := hpoints.atNext hfault
      have ht : t ∈ read ++ c.rest := by
        rw [hnext]
        exact List.mem_append_right read List.mem_cons_self
      have hstop := htiles.stop_le ht
      omega
    · rw [hpoints.afterLast hfault, hstop]
      exact htiles.stopAfter_le

/-- A list of arguments may not end with a comma: up to the comma these are the tokens of a
program, and with the parenthesis no more. -/
theorem source_breaks_at_first_dead_token_comma :
    ∃ read left c, Token.scan "VAL x = f(1,);" = .ok (read ++ left) ∧
      Rule.source (.ofTokens (read ++ left) 0) = .error ⟨.trailingComma, 12⟩ c ∧
        read.map Token.literal = ["VAL", "x", "=", "f", "(", "1", ","] ∧ Breaks read left ∧
          12 = stopAfter 0 read := by
  have hscan : Token.scan "VAL x = f(1,);" = .ok
      [⟨.identifier, "VAL", 0⟩, ⟨.identifier, "x", 4⟩, ⟨.operator, "=", 6⟩,
        ⟨.identifier, "f", 8⟩, ⟨.operator, "(", 9⟩, ⟨.integer, "1", 10⟩, ⟨.operator, ",", 11⟩,
        ⟨.operator, ")", 12⟩, ⟨.operator, ";", 13⟩] := by
    decide +kernel
  have hfails : Rule.source (.ofTokens
      [⟨.identifier, "VAL", 0⟩, ⟨.identifier, "x", 4⟩, ⟨.operator, "=", 6⟩,
        ⟨.identifier, "f", 8⟩, ⟨.operator, "(", 9⟩, ⟨.integer, "1", 10⟩, ⟨.operator, ",", 11⟩,
        ⟨.operator, ")", 12⟩, ⟨.operator, ";", 13⟩] 0) = .error ⟨.trailingComma, 12⟩
          ⟨[⟨.operator, ")", 12⟩, ⟨.operator, ";", 13⟩], 12, 1⟩ := by
    rfl
  obtain ⟨read, htokens, hbreaks, hindex, -⟩ :=
    source_breaks_at_first_dead_token hscan (by decide) hfails
  obtain rfl := List.append_cancel_right
    (show [_, _, _, _, _, _, _] ++ [_, _] = read ++ [_, _] from htokens)
  exact ⟨_, _, _, hscan, hfails, rfl, hbreaks, hindex (by decide)⟩

end Scriptlet
