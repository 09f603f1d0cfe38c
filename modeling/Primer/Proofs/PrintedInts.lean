import Mathlib
import Primer.Machine.Eval
import Primer.Proofs.ReadEnds
import Primer.Proofs.Spelling

/-!
# Printed integers are read back

An integer is printed as its digits, behind a minus if it is negative. The digits are a number token
and have to fit sixty-four signed bits by themselves, for the minus is an operator. So what is
printed for an integer is read as an expression with its value, unless it is the least one, whose
digits are beyond the greatest.
-/

namespace Primer

/-! ## Digits -/

namespace Decimal

variable {k : Nat}

theorem isDigit_repr (k : Nat) : ∀ c ∈ k.repr.toList, c.isDigit := fun _ hc =>
  Nat.isDigit_of_mem_toDigits (by decide) (by decide) (Nat.toList_repr ▸ hc)

theorem exists_repr (k : Nat) :
    ∃ c cs, k.repr.toList = c :: cs ∧ c.isDigit ∧ ∀ x ∈ cs, x.isDigit := by
  obtain ⟨c, cs, h⟩ := List.exists_cons_of_ne_nil (Nat.toList_repr ▸ Nat.toDigits_ne_nil)
  exact ⟨c, cs, h, List.forall_mem_cons.1 (h ▸ isDigit_repr k)⟩

/-- The digits of a natural in range are read as it. -/
theorem readInt?_repr (h : k < 2 ^ 63) : readInt? k.repr = some (Int64.ofNat k) := by
  obtain ⟨c, cs, hcs, hc, -⟩ := exists_repr k
  have hsign : takeSign k.repr.toList = (false, k.repr.toList) := by
    rw [hcs]
    unfold takeSign
    split <;> simp_all
  have hread : readNat? k.repr.toList = some k := by
    have hvalue : natOf k.repr.toList = k := Nat.toList_repr ▸ Nat.ofDigitChars_ten_toDigits
    unfold readNat?
    rw [hvalue, List.all_eq_true.2 (isDigit_repr k), hcs]
    rfl
  have hsigned : readSigned? k.repr.toList = some (k : Int) := by
    simp only [readSigned?, hsign, hread]
    rfl
  have hrange : Int64.minValue.toInt ≤ (k : Int) ∧ (k : Int) ≤ Int64.maxValue.toInt := by
    rw [Int64.toInt_minValue, Int64.toInt_maxValue]
    omega
  rw [readInt?, hsigned, Option.bind_some, if_pos (by simpa using hrange), Int64.ofInt_eq_ofNat]

end Decimal

/-! ## Tokens -/

namespace Token

/-- The digits of a natural are one token. -/
theorem readFrom_repr (k : Nat) (p : Position) : ∃ q,
    readFrom p k.repr.toList = .ok [⟨.number, k.repr, ⟨p, q⟩⟩, eof q] := by
  obtain ⟨c, cs, hcs, hc, hdigits⟩ := Decimal.exists_repr k
  have hvalue : String.ofList (c :: cs) = k.repr := by rw [← hcs, String.ofList_toList]
  have hread : Piece.read c (cs ++ []) =
      .ok (.token cs.length .number (String.ofList (c :: cs))) :=
    Piece.read_lexeme (.whole hc hdigits) (by simp)
  refine ⟨p.after (c :: cs), ?_⟩
  rw [hcs, ← List.append_nil cs, readFrom_of_ok hread rfl, readFrom_nil, hvalue, List.append_nil]
  rfl

/-- A minus in front of them is a token of its own. -/
theorem readFrom_dash (k : Nat) (p : Position) : ∃ q r,
    readFrom p ('-' :: k.repr.toList) =
      .ok [⟨.dash, "-", ⟨p, q⟩⟩, ⟨.number, k.repr, ⟨q, r⟩⟩, eof r] := by
  obtain ⟨c, cs, hcs, hc, -⟩ := Decimal.exists_repr k
  have hne : c ≠ '-' := by
    rintro rfl
    cases hc
  have hmark : Piece.mark? ('-' :: c :: cs) = some (.token 0 .dash "-") := by
    simp [Piece.mark?, TokenKind.marks, hne.symm]
    rfl
  have hread : Piece.read '-' ([] ++ k.repr.toList) = .ok (.token 0 .dash "-") := by
    rw [hcs, List.nil_append, Piece.read_mark ⟨rfl, rfl, rfl, by decide, by decide⟩ (by simp),
      hmark]
    rfl
  obtain ⟨r, hr⟩ := readFrom_repr k (p.after ['-'])
  refine ⟨p.after ['-'], r, ?_⟩
  rw [← List.nil_append k.repr.toList, readFrom_of_ok hread rfl, hr]
  rfl

end Token

/-! ## Expressions -/

/-- An expression is read from its tokens up to the end of the text. -/
theorem Parse.expr_whole {tokens : List Token} {p : Position} {e : Expr} (hs : Spells tokens e)
    (hcorrect : e.correct = true) : ∃ e' c,
      Parse.expr .lowest (Cursor.ofTokens (tokens ++ [Token.eof p])) = .done e' c ∧
        c.kind = .eof ∧ e'.bare = e.bare := by
  have hrest := Cursor.rest_ofTokens_eof tokens p
  have hlength := congrArg List.length hrest
  simp only [Cursor.rest, List.length_cons, List.length_append] at hlength
  have hfuel : 4 * tokens.length ≤ (Cursor.ofTokens (tokens ++ [Token.eof p])).fuel := by
    unfold Cursor.fuel
    omega
  have hend : ∀ t ∈ [Token.eof p].head?, t.kind.power.rank ≤ Power.lowest.rank := by
    rintro t ⟨⟩
    exact Nat.le_refl _
  have hgets := (Grammar.completes_of_spells hs hcorrect).whole hs (p := .lowest) (by decide)
    Expr.withstands_lowest hend ⟨hrest, ⟨tokens, _, hrest, rfl⟩⟩ hfuel
  unfold Parse.Gets at hgets
  split at hgets
  · rename_i e' c he'
    have hcurrent : c.current = Token.eof p := (List.cons.inj hgets.2.rest).1
    exact ⟨e', c, he', by rw [Cursor.kind, hcurrent]; rfl, hgets.1⟩
  · exact hgets.elim

namespace Expr

variable {k : Nat} {n : Int64} {e : Expr} {fuel : Nat} {m : Machine}

theorem spells_digits (h : k < 2 ^ 63) (span : Span) :
    Spells [⟨.number, k.repr, span⟩] (.int default (Int64.ofNat k)) := by
  have hpoint : k.repr.toList.contains '.' = false := by
    refine Bool.eq_false_iff.2 fun hc => ?_
    cases Decimal.isDigit_repr k '.' (List.contains_iff_mem.1 hc)
  have hread : Grammar.ofToken ⟨.number, k.repr, span⟩ = .ok (.int span (Int64.ofNat k)) := by
    simp only [Grammar.ofToken, hpoint, Bool.false_eq_true, ↓reduceIte, Decimal.readInt?_repr h]
  exact .token hread rfl

theorem eval_digits (h : e.bare = .int default n) :
    (Eval.expr (fuel + 1) e : Eval Value) m = .done (.int n) m := by
  cases e <;> cases h
  rfl

theorem eval_negated (h : e.bare = .negate default (.int default n)) :
    (Eval.expr (fuel + 2) e : Eval Value) m = .done (.int (-n)) m := by
  cases e <;> try cases h
  rename_i span operand
  have hoperand : operand.bare = .int default n := (negate.inj h).2
  have hvalue : (Eval.expr (fuel + 1) operand : Eval Value) m = .done (.int n) m :=
    eval_digits hoperand
  rw [Eval.expr]
  change (Eval.expr (fuel + 1) operand >>= _ : Eval Value) m = _
  rw [Effect.bind_apply, hvalue]
  rfl

end Expr

/-! ## Integers -/

/-- A text is read as one expression, which has a value on every machine. -/
def ReadsTo (text : String) (v : Value) : Prop := ∃ tokens e c, Token.read text = .ok tokens ∧
  Parse.expr .lowest (Cursor.ofTokens tokens) = .done e c ∧ c.kind = .eof ∧
  ∀ fuel m, (Eval.expr (fuel + 2) e : Eval Value) m = .done v m

theorem readsTo_digits {k : Nat} (h : k < 2 ^ 63) : ReadsTo k.repr (.int (Int64.ofNat k)) := by
  obtain ⟨q, hread⟩ := Token.readFrom_repr k .start
  obtain ⟨e, c, hparse, hc, he⟩ := Parse.expr_whole (p := q) (Expr.spells_digits h ⟨.start, q⟩) rfl
  exact ⟨_, e, c, hread, hparse, hc, fun _ _ => Expr.eval_digits he⟩

theorem readsTo_negated {k : Nat} (h : k < 2 ^ 63) :
    ReadsTo ("-" ++ k.repr) (.int (-Int64.ofNat k)) := by
  obtain ⟨q, r, hread⟩ := Token.readFrom_dash k .start
  have hspells : Spells [⟨.dash, "-", ⟨.start, q⟩⟩, ⟨.number, k.repr, ⟨q, r⟩⟩]
      (.negate default (.int default (Int64.ofNat k))) :=
    .negate rfl (Expr.spells_digits h ⟨q, r⟩)
  obtain ⟨e, c, hparse, hc, he⟩ := Parse.expr_whole (p := r) hspells rfl
  refine ⟨_, e, c, ?_, hparse, hc, fun _ _ => Expr.eval_negated he⟩
  rw [Token.read, String.toList_append]
  exact hread

/-- How an integer is printed: as digits in range, or as a minus and such digits. -/
theorem text_cases {n : Int64} (hn : n ≠ Int64.minValue) : ∃ k < 2 ^ 63,
    n = Int64.ofNat k ∧ toString n.toInt = k.repr ∨
      n = -Int64.ofNat k ∧ toString n.toInt = "-" ++ k.repr := by
  have hlt := n.toInt_lt
  have hle := n.le_toInt
  -- Without the sign the digits have to be in range, which those of the least integer are not.
  have hne : n.toInt ≠ -2 ^ 63 := fun h =>
    hn (Int64.toInt_inj.1 (h.trans Int64.toInt_minValue.symm))
  have hof := Int64.ofInt_toInt n
  cases hi : n.toInt with
  | ofNat k =>
    rw [hi] at hlt hof
    exact ⟨k, by simpa using hlt, .inl ⟨hof.symm, rfl⟩⟩
  | negSucc k =>
    rw [hi] at hle hne hof
    refine ⟨k + 1, by omega, .inr ⟨?_, rfl⟩⟩
    rw [← hof, Int.negSucc_eq, Int64.ofInt_neg]
    rfl

theorem Store.text_int (s : Store) (n : Int64) : s.text (.int n) = toString n.toInt := by
  unfold text
  cases s.cells.size <;> rfl

theorem Builtin.toString_int (s : Store) (n : Int64) :
    Builtin.toString.call s [.int n] = .ok (.string (ToString.toString n.toInt)) := by
  rw [← Store.text_int s n]
  rfl

theorem Eval.print_value {fuel : Nat} {e : Expr} {span : Span} {m t : Machine} {v : Value}
    (h : (Eval.expr fuel e : Eval Value) m = .done v t) :
    (Eval.stmt (fuel + 2) (.print span e) : Eval Unit) m =
      .done () (t.print (t.store.text v)) := by
  have hprint : (Eval.perform (fuel + 1) (.print span e) : Eval Unit) m =
      .done () (t.print (t.store.text v)) := by
    rw [Eval.perform]
    change (Eval.expr fuel e >>= _ : Eval Unit) m = _
    rw [Effect.bind_apply, h]
    rfl
  rw [Eval.stmt]
  change (Effect.attempt (Eval.perform (fuel + 1) (.print span e)) >>= _ : Eval Unit) m = _
  rw [Effect.bind_apply, Effect.attempt, hprint]
  rfl

/-- What `toString` gives for an integer and what is printed for it is the same text whatever else
is stored. Unless the integer is the least one, that text is read as one expression, whose value is
the integer again. -/
theorem printed_int_read {n : Int64} (hn : n ≠ Int64.minValue) : ∃ text,
    (∀ s, Builtin.toString.call s [.int n] = .ok (.string text)) ∧
      (∀ fuel span e m t, (Eval.expr fuel e : Eval Value) m = .done (.int n) t →
        (Eval.stmt (fuel + 2) (.print span e) : Eval Unit) m = .done () (t.print text)) ∧
      ReadsTo text (.int n) := by
  refine ⟨toString n.toInt, fun s => Builtin.toString_int s n, fun fuel span e m t h => ?_, ?_⟩
  · rw [Eval.print_value h, Store.text_int]
  · obtain ⟨k, hk, ⟨hvalue, htext⟩ | ⟨hvalue, htext⟩⟩ := text_cases hn
    · rw [htext, hvalue]
      exact readsTo_digits hk
    · rw [htext, hvalue]
      exact readsTo_negated hk

/-- The integer above the least one. -/
theorem printed_int_read_lowest : ∃ text,
    (∀ s, Builtin.toString.call s [.int (-9223372036854775807)] = .ok (.string text)) ∧
      text = "-9223372036854775807" ∧ ReadsTo text (.int (-9223372036854775807)) := by
  obtain ⟨text, hcall, -, hreads⟩ := printed_int_read (n := -9223372036854775807) (by decide)
  have htext : toString (Int64.toInt (-9223372036854775807)) = "-9223372036854775807" := by
    decide +kernel
  cases (hcall {}).symm.trans (Builtin.toString_int {} _)
  exact ⟨_, hcall, htext, hreads⟩

/-- What is printed for the least integer is not read as an expression: its digits are refused. -/
theorem printed_int_unread :
    Builtin.toString.call {} [.int Int64.minValue] = .ok (.string "-9223372036854775808") ∧
      ¬ ReadsTo "-9223372036854775808" (.int Int64.minValue) := by
  have htext : toString Int64.minValue.toInt = "-9223372036854775808" := by decide +kernel
  refine ⟨htext ▸ Builtin.toString_int {} _, ?_⟩
  rintro ⟨tokens, e, c, hread, hparse, -⟩
  have htokens : Token.read "-9223372036854775808" = .ok [⟨.dash, "-", ⟨⟨1, 1⟩, ⟨1, 2⟩⟩⟩,
      ⟨.number, "9223372036854775808", ⟨⟨1, 2⟩, ⟨1, 21⟩⟩⟩, ⟨.eof, "EOF", ⟨⟨1, 21⟩, ⟨1, 21⟩⟩⟩] := by
    decide +kernel
  obtain rfl := Except.ok.inj (hread.symm.trans htokens)
  cases hparse

end Primer
