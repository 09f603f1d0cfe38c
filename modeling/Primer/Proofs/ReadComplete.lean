import Primer.Proofs.ReadSound

/-!
# What is written can be read

If the operators of an expression bind as their levels say, its tokens are read back as that
expression, up to the places in it, where nothing follows that would extend it. A reader comes from
the head of an expression to the whole of it along the left operands, and its fuel lasts.
-/

namespace Primer

namespace Cursor

/-- A place is before tokens that end in the end of the text. -/
structure Before (c : Cursor) (ts : List Token) : Prop where
  rest : c.rest = ts
  closed : c.Closed

variable {c : Cursor} {t : Token} {ts : List Token} {k : TokenKind}

theorem Before.take (h : c.Before (t :: ts)) (hk : t.kind = k) (hne : k ≠ .eof) :
    c.current = t ∧ c.kind = k ∧ c.next.Before ts := by
  obtain rfl : c.current = t := (List.cons.inj h.rest).1
  have hpass := h.closed.next hk hne
  refine ⟨rfl, hk, ?_, hpass.closed⟩
  exact (List.cons.inj (hpass.rest.symm.trans h.rest)).2

/-- The next token is the first one after the place. -/
theorem Before.kind (h : c.Before ts) {P : TokenKind → Prop} (hP : ∀ t ∈ ts.head?, P t.kind) :
    P c.kind := by
  have hr := h.rest
  refine hP c.current ?_
  rw [← hr]
  rfl

end Cursor

namespace Parse

variable {α β : Type} {c : Cursor} {Q R : α → Cursor → Prop}

/-- A reader gives something from a place on, as `Q` says. -/
def Gets (x : Parse α) (c : Cursor) (Q : α → Cursor → Prop) : Prop :=
  match x c with
  | .done a c' => Q a c'
  | _ => False

theorem Gets.imp {x : Parse α} (h : Gets x c Q) (hQ : ∀ a c', Q a c' → R a c') : Gets x c R := by
  unfold Gets at *
  split at h
  · exact hQ _ _ h
  · exact h.elim

theorem gets_bind {x : Parse α} {f : α → Parse β} {Q : β → Cursor → Prop} :
    Gets (x >>= f) c Q ↔ Gets x c fun a c' => Gets (f a) c' Q := by
  unfold Gets
  rw [Effect.bind_apply]
  cases x c <;> exact Iff.rfl

theorem gets_pure {a : α} : Gets (pure a) c Q ↔ Q a c := Iff.rfl

theorem gets_kind {Q : TokenKind → Cursor → Prop} : Gets kind c Q ↔ Q c.kind c := Iff.rfl

theorem gets_position {Q : Position → Cursor → Prop} : Gets position c Q ↔ Q c.position c := Iff.rfl

theorem gets_spanFrom {p : Position} {Q : Span → Cursor → Prop} :
    Gets (spanFrom p) c Q ↔ Q (c.spanFrom p) c := Iff.rfl

theorem gets_advance {Q : Token → Cursor → Prop} : Gets advance c Q ↔ Q c.current c.next := Iff.rfl

theorem gets_expect {k : TokenKind} {Q : Token → Cursor → Prop} :
    Gets (expect k) c Q ↔ c.kind = k ∧ Q c.current c.next := by
  unfold Gets expect
  split_ifs <;> simp [*]

theorem gets_expectDetailed {k : TokenKind} {message : String} {Q : Token → Cursor → Prop} :
    Gets (expectDetailed k message) c Q ↔ c.kind = k ∧ Q c.current c.next := by
  unfold Gets expectDetailed
  split_ifs <;> simp [*]

theorem gets_ofExcept {p : Position} {r : Except Fault α} {a : α} (hr : r = .ok a) :
    Gets (Effect.ofExcept p r) c Q ↔ Q a c := by
  rw [hr]
  exact Iff.rfl

theorem gets_ofOption {p : Position} {fault : Fault} {r : Option α} {a : α} (hr : r = some a) :
    Gets (Effect.ofOption p fault r) c Q ↔ Q a c := by
  rw [hr]
  exact Iff.rfl

end Parse

namespace Grammar

open Parse

variable {c : Cursor} {rest : List Token} {n : Nat}

/-! ## Types -/

/-- Brackets after a type are taken where a type can have them. -/
theorem arrays_gets {Q : Ty → Cursor → Prop} {ty ty' : Ty} {a z : Token}
    (hty : (∃ b, ty = .scalar b ∧ ty' = .vector b) ∨ ∃ b, ty = .vector b ∧ ty' = .matrix b)
    (ha : a.kind = .openBracket) (hz : z.kind = .closeBracket) (hc : c.Before (a :: z :: rest))
    (hQ : ∀ c', c'.Before rest → Gets (arrays n ty') c' Q) : Gets (arrays (n + 1) ty) c Q := by
  obtain ⟨rfl, hk, h₁⟩ := hc.take ha (by simp)
  obtain ⟨rfl, hk', h₂⟩ := h₁.take hz (by simp)
  simp only [arrays, gets_bind, gets_kind, hk, ↓reduceIte, gets_advance, gets_expect, hk', true_and]
  obtain ⟨b, rfl, rfl⟩ | ⟨b, rfl, rfl⟩ := hty
  · exact hQ _ h₂
  · exact hQ _ h₂

theorem arrays_stops {Q : Ty → Cursor → Prop} {ty : Ty} {t : Token} {k : TokenKind}
    (hc : c.Before (t :: rest)) (ht : t.kind = k) (hk : k ≠ .openBracket) (hn : 0 < n)
    (hQ : Q ty c) : Gets (arrays n ty) c Q := by
  obtain ⟨m, rfl⟩ : ∃ m, n = m + 1 := ⟨n - 1, by omega⟩
  have hkind : c.kind ≠ .openBracket := hc.kind (P := (· ≠ .openBracket)) (by simpa [ht] using hk)
  simp only [arrays, gets_bind, gets_kind, hkind, ↓reduceIte, gets_pure]
  exact hQ

/-- A reader of types comes to where only brackets can follow. -/
theorem type_gets {ts : List Token} {ty : Ty} (h : ty.Spells ts) :
    ∀ {Q : Ty → Cursor → Prop} {rest : List Token} {c : Cursor} {n : Nat},
    c.Before (ts ++ rest) → 2 * ts.length ≤ n →
    (∀ c' n', c'.Before rest → n ≤ n' + ts.length → Gets (arrays n' ty) c' Q) →
    Gets (type n) c Q := by
  induction h with
  | word ht h =>
    intro Q rest c n hc hn hQ
    simp only [List.length_singleton] at hn hQ
    obtain ⟨m, rfl⟩ : ∃ m, n = m + 1 := ⟨n - 1, by omega⟩
    obtain ⟨rfl, hk, hnext⟩ := hc.take ht (by simp)
    simp only [type, gets_bind, gets_kind, hk, gets_advance, gets_ofOption h]
    exact hQ _ _ hnext (by omega)
  | @list t a ts z b ht ha h hz ih =>
    intro Q rest c n hc hn hQ
    simp only [List.length_cons, List.length_append, List.length_nil] at hn hQ
    simp only [List.cons_append, List.append_assoc, List.nil_append] at hc
    obtain ⟨m, rfl⟩ : ∃ m, n = m + 1 := ⟨n - 1, by omega⟩
    obtain ⟨rfl, hk, h₁⟩ := hc.take ht (by simp)
    obtain ⟨rfl, hk', h₂⟩ := h₁.take ha (by simp)
    simp only [type, gets_bind, gets_kind, hk, gets_advance, gets_expect, hk', true_and]
    refine ih h₂ (by omega) fun c' n' hc' hn' => ?_
    refine arrays_stops hc' hz (by simp) (by omega) ?_
    obtain ⟨rfl, hk'', h₃⟩ := hc'.take hz (by simp)
    refine ⟨hk'', ?_⟩
    exact (gets_ofOption rfl).2 (hQ _ _ h₃ (by omega))
  | vector h ha hz ih =>
    intro Q rest c n hc hn hQ
    simp only [List.length_cons, List.length_append, List.length_nil] at hn hQ
    rw [List.append_assoc] at hc
    refine ih hc (by omega) fun c' n' hc' hn' => ?_
    obtain ⟨m, rfl⟩ : ∃ m, n' = m + 1 := ⟨n' - 1, by omega⟩
    exact arrays_gets (.inl ⟨_, rfl, rfl⟩) ha hz hc' fun c'' hc'' => hQ c'' m hc'' (by omega)
  | matrix h ha hz ih =>
    intro Q rest c n hc hn hQ
    simp only [List.length_cons, List.length_append, List.length_nil] at hn hQ
    rw [List.append_assoc] at hc
    refine ih hc (by omega) fun c' n' hc' hn' => ?_
    obtain ⟨m, rfl⟩ : ∃ m, n' = m + 1 := ⟨n' - 1, by omega⟩
    exact arrays_gets (.inr ⟨_, rfl, rfl⟩) ha hz hc' fun c'' hc'' => hQ c'' m hc'' (by omega)

theorem type_gets_whole {Q : Ty → Cursor → Prop} {ts : List Token} {ty : Ty} {t : Token}
    {k : TokenKind} (h : ty.Spells ts) (hc : c.Before (ts ++ t :: rest)) (hn : 2 * ts.length ≤ n)
    (ht : t.kind = k) (hk : k ≠ .openBracket) (hQ : ∀ c', c'.Before (t :: rest) → Q ty c') :
    Gets (type n) c Q := by
  have hpos : 0 < ts.length := by
    cases h <;> simp
  exact type_gets h hc hn fun c' n' hc' hn' => arrays_stops hc' ht hk (by omega) (hQ c' hc')

/-! ## Expressions -/

theorem gets_tail {Q : Expr → Cursor → Prop} {p : Power} {e : Expr}
    (hk : p.rank < c.kind.power.rank)
    (h : Gets (extension n e) c fun e' c' => Gets (tail n p e') c' Q) :
    Gets (tail (n + 1) p e) c Q := by
  have hlooser : p.looser c.kind.power = true := decide_eq_true hk
  simp only [tail, gets_bind, gets_kind, hlooser, ↓reduceIte]
  exact h

theorem gets_tail_stop {Q : Expr → Cursor → Prop} {p : Power} {e : Expr} (hn : 0 < n)
    (hk : c.kind.power.rank ≤ p.rank) (h : Q e c) : Gets (tail n p e) c Q := by
  obtain ⟨m, rfl⟩ : ∃ m, n = m + 1 := ⟨n - 1, by omega⟩
  have hlooser : p.looser c.kind.power = false := decide_eq_false (by omega)
  simp only [tail, gets_bind, gets_kind, hlooser, Bool.false_eq_true, ↓reduceIte, gets_pure]
  exact h

theorem correct_of_binary? {e l r : Expr} {op : BinaryOp} (h : e.binary? = some (op, l, r)) :
    e.correct = (op.admits l r && l.correct && r.correct) := by
  cases e <;> cases h <;> rfl

theorem bare_build {e l r l' r' : Expr} {op : BinaryOp} (h : e.binary? = some (op, l, r))
    (hl : l'.bare = l.bare) (hr : r'.bare = r.bare) : (op.build l' r').bare = e.bare := by
  cases e <;> cases h <;> simp [BinaryOp.build, Expr.bare, hl, hr]

theorem length_pos_of_spells {ts : List Token} {e : Expr} (h : Spells ts e) : 0 < ts.length := by
  cases h <;> simp only [List.length_append, List.length_cons] <;> omega

theorem ne_nil_of_spellsAll {closing : TokenKind} {ts : List Token} {es : List Expr}
    (h : SpellsAll closing ts es) : ts ≠ [] := by
  cases h <;> simp

theorem opensType_of_spells {ts : List Token} {ty : Ty} (h : ty.Spells ts) :
    ∃ t us, ts = t :: us ∧ t.kind.opensType = true := by
  induction h with
  | word ht => exact ⟨_, _, rfl, by rw [ht]; rfl⟩
  | list ht => exact ⟨_, _, rfl, by rw [ht]; rfl⟩
  | vector _ _ _ ih =>
    obtain ⟨t, us, rfl, ht⟩ := ih
    exact ⟨t, _, rfl, ht⟩
  | matrix _ _ _ ih =>
    obtain ⟨t, us, rfl, ht⟩ := ih
    exact ⟨t, _, rfl, ht⟩

theorem opensExpr_of_ofToken {t : Token} {e : Expr} (h : ofToken t = .ok e) :
    t.kind.opensExpr = true := by
  unfold ofToken at h
  split at h <;> simp_all [TokenKind.opensExpr]

theorem opensExpr_of_spells : ∀ {ts : List Token} {e : Expr}, Spells ts e →
    ∃ t us, ts = t :: us ∧ t.kind.opensExpr = true
  | _, _, .token h _ => ⟨_, _, rfl, opensExpr_of_ofToken h⟩
  | _, _, .binary _ h _ _ => by
    obtain ⟨t, us, rfl, ht⟩ := opensExpr_of_spells h
    exact ⟨t, _, rfl, ht⟩
  | _, _, .negate ht _ => ⟨_, _, rfl, by rw [ht]; rfl⟩
  | _, _, .not ht _ => ⟨_, _, rfl, by rw [ht]; rfl⟩
  | _, _, .cast ha _ _ _ => ⟨_, _, rfl, by rw [ha]; rfl⟩
  | _, _, .group ha _ _ => ⟨_, _, rfl, by rw [ha]; rfl⟩
  | _, _, .call ht _ _ => ⟨_, _, rfl, by rw [ht]; rfl⟩
  | _, _, .method h _ _ _ _ => by
    obtain ⟨t, us, rfl, ht⟩ := opensExpr_of_spells h
    exact ⟨t, _, rfl, ht⟩
  | _, _, .index h _ _ _ _ => by
    obtain ⟨t, us, rfl, ht⟩ := opensExpr_of_spells h
    exact ⟨t, _, rfl, ht⟩
  | _, _, .cell h _ _ _ _ _ _ _ => by
    obtain ⟨t, us, rfl, ht⟩ := opensExpr_of_spells h
    exact ⟨t, _, rfl, ht⟩
  | _, _, .vector ha _ _ => ⟨_, _, rfl, by rw [ha]; rfl⟩
  | _, _, .matrix ha _ _ => ⟨_, _, rfl, by rw [ha]; rfl⟩
  | _, _, .newList hw _ _ _ => ⟨_, _, rfl, by rw [hw]; rfl⟩
  | _, _, .newListOf hw _ _ _ _ _ _ => ⟨_, _, rfl, by rw [hw]; rfl⟩

theorem indexed_of_plain {e i : Expr} {span : Span} (h : e.isElement = false) :
    indexed e i span = .ok (.index span e i) := by
  cases e <;> first | rfl | cases h

/-- A reader in a context comes to an expression with what may extend it still ahead. -/
def Completes (ts : List Token) (e : Expr) : Prop :=
  ∀ ⦃p : Power⦄ ⦃c : Cursor⦄ ⦃rest : List Token⦄ ⦃n : Nat⦄ ⦃Q : Expr → Cursor → Prop⦄,
    p.rank ≤ Power.unary.rank → e.Withstands p →
    (∀ t ∈ rest.head?, t.kind.power.rank ≤ e.edge.rank) → c.Before (ts ++ rest) →
    4 * ts.length ≤ n →
    (∀ e' c' n', e'.bare = e.bare → c'.Before rest → n ≤ n' + ts.length →
      Gets (tail n' p e') c' Q) → Gets (expr n p) c Q

/-- A reader of expressions up to what closes them gives them all. -/
def CompletesAll (closing : TokenKind) (ts : List Token) (es : List Expr) : Prop :=
  ∀ ⦃c : Cursor⦄ ⦃rest : List Token⦄ ⦃n : Nat⦄,
    closing = .closeParen ∨ closing = .closeBracket → c.Before (ts ++ rest) → 4 * ts.length ≤ n →
    Gets (arguments n closing) c fun es' c' => Expr.bareAll es' = Expr.bareAll es ∧ c'.Before rest

/-- Where the next token does not belong to the context, the expression is the whole of what is
read. -/
theorem Completes.whole {ts : List Token} {e : Expr} (h : Completes ts e) (hs : Spells ts e)
    {p : Power} (hp : p.rank ≤ Power.unary.rank) (hw : e.Withstands p)
    (hk : ∀ t ∈ rest.head?, t.kind.power.rank ≤ p.rank) (hc : c.Before (ts ++ rest))
    (hn : 4 * ts.length ≤ n) :
    Gets (expr n p) c fun e' c' => e'.bare = e.bare ∧ c'.Before rest := by
  have hpos := length_pos_of_spells hs
  refine h hp hw (fun t ht => Nat.le_trans (hk t ht) (hw.le_edge hp)) hc hn ?_
  intro e' c' n' he' hc' hn'
  exact gets_tail_stop (by omega) (hc'.kind (P := (·.power.rank ≤ p.rank)) hk) ⟨he', hc'⟩

/-- A reader of heads gives an expression. -/
def HeadCompletes (ts : List Token) (e : Expr) : Prop :=
  ∀ ⦃c : Cursor⦄ ⦃rest : List Token⦄ ⦃n : Nat⦄,
    (∀ t ∈ rest.head?, t.kind.power.rank ≤ e.edge.rank) → c.Before (ts ++ rest) →
    4 * ts.length ≤ n + 1 → Gets (head n) c fun e' c' => e'.bare = e.bare ∧ c'.Before rest

theorem HeadCompletes.completes {ts : List Token} {e : Expr} (h : HeadCompletes ts e)
    (hs : Spells ts e) : Completes ts e := by
  intro p c rest n Q hp hw hk hc hn hQ
  have hpos := length_pos_of_spells hs
  obtain ⟨m, rfl⟩ : ∃ m, n = m + 1 := ⟨n - 1, by omega⟩
  simp only [expr, gets_bind]
  refine (h hk hc hn).imp ?_
  rintro e' c' ⟨he', hc'⟩
  exact hQ e' c' m he' hc' (by omega)

theorem token_completes {t : Token} {e e' : Expr} (h : ofToken t = .ok e')
    (he : e'.bare = e.bare) : HeadCompletes [t] e := by
  intro c rest n hk hc hn
  simp only [List.length_singleton] at hn
  obtain ⟨m, rfl⟩ : ∃ m, n = m + 1 := ⟨n - 1, by omega⟩
  have hne : t.kind ≠ .eof := fun hk => by simp [ofToken, hk] at h
  obtain ⟨rfl, hkind, hnext⟩ := hc.take rfl hne
  have hprimary : Gets primary c fun e' c' => e'.bare = e.bare ∧ c'.Before rest := by
    simp only [primary, gets_bind, gets_advance, gets_ofExcept h]
    exact ⟨he, hnext⟩
  simp only [head, gets_bind, gets_kind]
  split
  case h_7 hk | h_8 hk | h_9 hk | h_10 hk | h_11 hk =>
    have hk : c.current.kind = _ := hk
    simp [ofToken, hk] at h
  case h_12 =>
    unfold ofToken at h
    unfold Cursor.kind at *
    split at h <;> simp_all
  all_goals exact hprimary

/-- Where a token follows that binds nothing, an expression is read as a whole. -/
theorem Completes.lowest {ts : List Token} {e : Expr} (h : Completes ts e) (hs : Spells ts e)
    {t : Token} {k : TokenKind} (ht : t.kind = k) (hk : k.power = .lowest)
    (hc : c.Before (ts ++ t :: rest)) (hn : 4 * ts.length ≤ n) :
    Gets (expr n .lowest) c fun e' c' => e'.bare = e.bare ∧ c'.Before (t :: rest) := by
  refine h.whole hs (by decide) Expr.withstands_lowest (fun u hu => ?_) hc hn
  obtain rfl : t = u := Option.some.inj hu
  exact Nat.le_of_eq (by rw [ht, hk])

/-- A mark is read with its operand. -/
theorem Completes.marked {ts : List Token} {e : Expr} (h : Completes ts e) (hs : Spells ts e)
    (hk : ∀ t ∈ rest.head?, t.kind.power.rank ≤ Power.unary.rank)
    (hordered : (!e.power.looser .unary) = true) (hc : c.Before (ts ++ rest))
    (hn : 4 * ts.length ≤ n) :
    Gets (expr n .unary) c fun e' c' => e'.bare = e.bare ∧ c'.Before rest := by
  refine h.whole hs (Nat.le_refl _) (Expr.withstands_unary.2 ?_) hk hc hn
  simpa [Power.looser] using hordered

theorem mark_completes {t : Token} {ts : List Token} {e e' : Expr} {span : Span}
    (hm : t.kind = .dash ∧ e' = .negate span e ∨ t.kind = .not ∧ e' = .not span e)
    (h : Completes ts e) (hs : Spells ts e) (hordered : (!e.power.looser .unary) = true) :
    HeadCompletes (t :: ts) e' := by
  intro c rest n hk hc hn
  simp only [List.length_cons] at hn
  obtain ⟨m, rfl⟩ : ∃ m, n = m + 1 := ⟨n - 1, by omega⟩
  obtain ⟨ht, rfl⟩ | ⟨ht, rfl⟩ := hm
  all_goals
    obtain ⟨rfl, hkind, hnext⟩ := hc.take ht (by simp)
    simp only [head, gets_bind, gets_kind, hkind, gets_advance, gets_pure]
    refine (h.marked hs hk hordered hnext (by omega)).imp ?_
    rintro e' c' ⟨he', hc'⟩
    exact ⟨by simp only [Expr.bare, he'], hc'⟩

theorem cast_completes {a z : Token} {ts us : List Token} {ty : Ty} {e : Expr} {span : Span}
    (ha : a.kind = .openParen) (ht : ty.Spells ts) (hz : z.kind = .closeParen)
    (h : Completes us e) (hs : Spells us e) (hordered : (!e.power.looser .unary) = true) :
    HeadCompletes (a :: (ts ++ z :: us)) (.cast span ty e) := by
  intro c rest n hk hc hn
  simp only [List.length_cons, List.length_append] at hn
  simp only [List.cons_append, List.append_assoc] at hc
  obtain ⟨m, rfl⟩ : ∃ m, n = m + 2 := ⟨n - 2, by omega⟩
  obtain ⟨rfl, hkind, h₁⟩ := hc.take ha (by simp)
  have htype : c.next.kind.opensType = true := by
    obtain ⟨t, ts, rfl, hopens⟩ := opensType_of_spells ht
    exact h₁.kind (P := (·.opensType = true)) (by simpa using hopens)
  simp only [head, parenthesised, gets_bind, gets_kind, hkind, gets_advance, htype, ↓reduceIte,
    gets_expect, gets_pure]
  refine type_gets_whole ht h₁ (by omega) hz (by simp) fun c' hc' => ?_
  obtain ⟨rfl, hkind', h₂⟩ := hc'.take hz (by simp)
  refine ⟨hkind', (h.marked hs hk hordered h₂ (by omega)).imp ?_⟩
  rintro e' c'' ⟨he', hc''⟩
  exact ⟨by simp only [Expr.bare, he'], hc''⟩

theorem group_completes {a z : Token} {ts : List Token} {e : Expr} {span : Span}
    (ha : a.kind = .openParen) (h : Completes ts e) (hs : Spells ts e) (hz : z.kind = .closeParen) :
    HeadCompletes (a :: (ts ++ [z])) (.group span e) := by
  intro c rest n hk hc hn
  simp only [List.length_cons, List.length_append, List.length_nil] at hn
  simp only [List.cons_append, List.append_assoc, List.nil_append] at hc
  obtain ⟨m, rfl⟩ : ∃ m, n = m + 2 := ⟨n - 2, by omega⟩
  obtain ⟨rfl, hkind, h₁⟩ := hc.take ha (by simp)
  have htype : c.next.kind.opensType = false := by
    obtain ⟨t, ts, rfl, ht⟩ := opensExpr_of_spells hs
    have hopens : c.next.kind.opensExpr = true :=
      h₁.kind (P := (·.opensExpr = true)) (by simpa using ht)
    revert hopens
    cases c.next.kind <;> decide
  simp only [head, parenthesised, gets_bind, gets_kind, hkind, gets_advance, htype,
    Bool.false_eq_true, ↓reduceIte, gets_expect, gets_spanFrom, gets_pure]
  refine (h.lowest hs hz rfl h₁ (by omega)).imp ?_
  rintro e' c' ⟨he', hc'⟩
  obtain ⟨rfl, hkind', h₂⟩ := hc'.take hz (by simp)
  exact ⟨hkind', by simp only [Expr.bare, he'], h₂⟩

theorem bracket_completes {a : Token} {ts : List Token} {es : List Expr} {e : Expr} {span : Span}
    (ha : a.kind = .openBracket)
    (he : (∀ t ∈ ts.head?, t.kind ≠ .openBracket) ∧ e = .vector span es ∨
      (∀ t ∈ ts.head?, t.kind = .openBracket) ∧ e = .matrix span es)
    (h : CompletesAll .closeBracket ts es) (hs : SpellsAll .closeBracket ts es) :
    HeadCompletes (a :: ts) e := by
  intro c rest n hk hc hn
  simp only [List.length_cons] at hn
  obtain ⟨m, rfl⟩ : ∃ m, n = m + 1 := ⟨n - 1, by omega⟩
  obtain ⟨rfl, hkind, h₁⟩ := hc.take ha (by simp)
  have hfirst : c.next.current ∈ ts.head? := by
    have hr := h₁.rest
    cases ts with
    | nil => exact absurd rfl (ne_nil_of_spellsAll hs)
    | cons t ts => exact congrArg some (List.cons.inj hr).1.symm
  simp only [head, gets_bind, gets_kind, hkind, gets_advance, gets_spanFrom, gets_pure]
  refine (h (.inr rfl) h₁ (by omega)).imp ?_
  rintro es' c' ⟨hes', hc'⟩
  obtain ⟨hn, rfl⟩ | ⟨hn, rfl⟩ := he
  · have hrows : c.next.kind ≠ .openBracket := hn _ hfirst
    simp only [hrows, ↓reduceIte]
    exact ⟨by simp only [Expr.bare, hes'], hc'⟩
  · have hrows : c.next.kind = .openBracket := hn _ hfirst
    simp only [hrows, ↓reduceIte]
    exact ⟨by simp only [Expr.bare, hes'], hc'⟩

theorem newList_completes {w l a z : Token} {span : Span} (hw : w.kind = .newWord)
    (hl : l.kind = .listWord) (ha : a.kind = .openParen) (hz : z.kind = .closeParen) :
    HeadCompletes [w, l, a, z] (.newList span none) := by
  intro c rest n hk hc hn
  simp only [List.length_cons, List.length_nil] at hn
  obtain ⟨m, rfl⟩ : ∃ m, n = m + 1 := ⟨n - 1, by omega⟩
  obtain ⟨rfl, hk₁, h₁⟩ := hc.take hw (by simp)
  obtain ⟨rfl, hk₂, h₂⟩ := h₁.take hl (by simp)
  obtain ⟨rfl, hk₃, h₃⟩ := h₂.take ha (by simp)
  obtain ⟨rfl, hk₄, h₄⟩ := h₃.take hz (by simp)
  simp only [head, newList, listBase, gets_bind, gets_kind, gets_advance, gets_expectDetailed,
    gets_expect, gets_spanFrom, gets_pure, hk₁, hk₂, hk₃, hk₄, reduceCtorEq, ↓reduceIte]
  exact ⟨trivial, trivial, trivial, rfl, h₄⟩

theorem newListOf_completes {w l x y a z : Token} {ts : List Token} {b : Scalar} {span : Span}
    (hw : w.kind = .newWord) (hl : l.kind = .listWord) (hx : x.kind = .less)
    (h : Ty.Spells ts (.scalar b)) (hy : y.kind = .greater) (ha : a.kind = .openParen)
    (hz : z.kind = .closeParen) :
    HeadCompletes (w :: l :: x :: (ts ++ [y, a, z])) (.newList span (some b)) := by
  intro c rest n hk hc hn
  simp only [List.length_cons, List.length_append, List.length_nil] at hn
  simp only [List.cons_append, List.append_assoc, List.nil_append] at hc
  obtain ⟨m, rfl⟩ : ∃ m, n = m + 1 := ⟨n - 1, by omega⟩
  obtain ⟨rfl, hk₁, h₁⟩ := hc.take hw (by simp)
  obtain ⟨rfl, hk₂, h₂⟩ := h₁.take hl (by simp)
  obtain ⟨rfl, hk₃, h₃⟩ := h₂.take hx (by simp)
  simp only [head, newList, listBase, gets_bind, gets_kind, gets_advance, gets_expectDetailed,
    gets_expect, gets_position, gets_spanFrom, gets_pure, hk₁, hk₂, hk₃, ↓reduceIte, true_and]
  refine type_gets_whole h h₃ (by omega) hy (by simp) fun c' hc' => ?_
  obtain ⟨rfl, hk₄, h₄⟩ := hc'.take hy (by simp)
  obtain ⟨rfl, hk₅, h₅⟩ := h₄.take ha (by simp)
  obtain ⟨rfl, hk₆, h₆⟩ := h₅.take hz (by simp)
  exact ⟨hk₄, (gets_ofOption rfl).2 ⟨hk₅, hk₆, rfl, h₆⟩⟩

theorem binary_completes {e l r : Expr} {op : BinaryOp} {ts us : List Token} {t : Token}
    (he : e.binary? = some (op, l, r)) (hcorrect : e.correct = true) (ht : t.kind.binary? = some op)
    (hl : Completes ts l) (hr : Completes us r) (hus : Spells us r) :
    Completes (ts ++ t :: us) e := by
  intro p c rest n Q hp hw hk hc hn hQ
  have hpos := length_pos_of_spells hus
  have hop := op.power_lt
  have hpop := hw op l r he
  rw [correct_of_binary? he, Bool.and_eq_true, Bool.and_eq_true, BinaryOp.admits_iff] at hcorrect
  obtain ⟨⟨⟨hleft, hright⟩, -⟩, -⟩ := hcorrect
  simp only [List.length_append, List.length_cons] at hn hQ
  simp only [List.append_assoc, List.cons_append] at hc
  have hlw : l.Withstands p := by
    refine (Expr.withstands_iff (by omega)).2 ?_
    split_ifs at hleft <;> omega
  refine hl hp hlw ?_ hc (by omega) fun l' c' n' hl' hc' hn' => ?_
  · intro u hu
    obtain rfl : t = u := Option.some.inj hu
    rw [TokenKind.power_of_binary? ht]
    exact Expr.power_le_edge.2 hleft
  obtain ⟨m, rfl⟩ : ∃ m, n' = m + 2 := ⟨n' - 2, by omega⟩
  have hne : t.kind ≠ .eof := fun h => by
    rw [h] at ht
    cases ht
  obtain ⟨rfl, hkind, h₁⟩ := hc'.take rfl hne
  refine gets_tail (by rw [hkind, TokenKind.power_of_binary? ht]; exact hpop) ?_
  simp only [extension, gets_bind, gets_kind, hkind, ht, gets_advance]
  rw [(Expr.power_of_binary? he).2] at hk
  have hlt : op.rightPower.rank < Power.unary.rank := by
    rw [op.rightPower_eq]
    split_ifs <;> omega
  refine (hr.whole hus (Nat.le_of_lt hlt) ((Expr.withstands_iff hlt).2 hright) hk h₁
    (by omega)).imp ?_
  rintro r' c'' ⟨hr', hc''⟩
  exact hQ _ c'' (m + 1) (bare_build he hl' hr') hc'' (by omega)

/-! ## Calls, methods and elements -/

/-- What can be called, indexed or asked is taken whole in every context. -/
theorem Completes.target {ts : List Token} {e : Expr} (h : Completes ts e)
    (htight : Power.unary.looser e.power = true) {p : Power} {Q : Expr → Cursor → Prop}
    (hp : p.rank ≤ Power.unary.rank) (hc : c.Before (ts ++ rest)) (hn : 4 * ts.length ≤ n)
    (hQ : ∀ e' c' n', e'.bare = e.bare → c'.Before rest → n ≤ n' + ts.length →
      Gets (tail n' p e') c' Q) : Gets (expr n p) c Q := by
  have hpower : Power.unary.rank < e.power.rank := of_decide_eq_true htight
  have hplain : e.binary? = none := by
    cases hb : e.binary? with
    | none => rfl
    | some b =>
      obtain ⟨op, l, r⟩ := b
      have hlt := op.power_lt
      rw [(Expr.power_of_binary? hb).1] at hpower
      omega
  refine h hp (Expr.withstands_of_plain hplain) (fun t _ => ?_) hc hn hQ
  have hedge : e.edge = .primary := by
    rw [← (Expr.power_of_plain hplain).1] at hpower
    unfold Expr.edge at hpower ⊢
    rw [hplain] at hpower ⊢
    dsimp only at hpower ⊢
    split_ifs at hpower ⊢
    · exact absurd hpower (Nat.lt_irrefl _)
    · rfl
  rw [hedge]
  exact Nat.le_of_lt t.kind.power_lt

/-- An index in brackets extends what stands before it. -/
theorem index_extends {p : Power} {Q : Expr → Cursor → Prop} {e i : Expr} {a z : Token}
    {us : List Token} (hp : p.rank ≤ Power.unary.rank) (ha : a.kind = .openBracket)
    (hi : Completes us i) (hs : Spells us i) (hz : z.kind = .closeBracket)
    (hc : c.Before (a :: (us ++ z :: rest))) (hn : 4 * us.length ≤ n)
    (hQ : ∀ i' span c', i'.bare = i.bare → c'.Before rest →
      ∃ e', indexed e i' span = .ok e' ∧ Gets (tail (n + 1) p e') c' Q) :
    Gets (tail (n + 2) p e) c Q := by
  obtain ⟨rfl, hkind, h₁⟩ := hc.take ha (by simp)
  refine gets_tail ?_ ?_
  · rw [hkind]
    exact Nat.lt_of_le_of_lt hp (by decide)
  simp only [extension, gets_bind, gets_kind, hkind, TokenKind.binary?, gets_advance, gets_expect,
    gets_spanFrom]
  refine (hi.lowest hs hz rfl h₁ hn).imp ?_
  rintro i' c' ⟨hi', hc'⟩
  obtain ⟨rfl, hkind', h₂⟩ := hc'.take hz (by simp)
  obtain ⟨e', he', htail⟩ := hQ i' (c'.next.spanFrom e.span.start) c'.next hi' h₂
  exact ⟨hkind', (gets_ofExcept he').2 htail⟩

theorem index_completes {ts us : List Token} {e i : Expr} {a z : Token} {span : Span}
    (h : Completes ts e) (he : e.isElement = false) (ha : a.kind = .openBracket)
    (hi : Completes us i) (hs : Spells us i) (hz : z.kind = .closeBracket)
    (htight : Power.unary.looser e.power = true) :
    Completes (ts ++ a :: (us ++ [z])) (.index span e i) := by
  intro p c rest n Q hp hw hk hc hn hQ
  simp only [List.length_append, List.length_cons, List.length_nil] at hn hQ
  simp only [List.append_assoc, List.cons_append, List.nil_append] at hc
  refine h.target htight hp hc (by omega) fun e' c' n' he' hc' hn' => ?_
  obtain ⟨m, rfl⟩ : ∃ m, n' = m + 2 := ⟨n' - 2, by omega⟩
  refine index_extends hp ha hi hs hz hc' (by omega) fun i' span' c'' hi' hc'' => ?_
  refine ⟨.index span' e' i', indexed_of_plain ?_, hQ _ _ _ ?_ hc'' (by omega)⟩
  · rw [← Expr.isElement_bare, he', Expr.isElement_bare, he]
  · simp only [Expr.bare, he', hi']

theorem cell_completes {ts us vs : List Token} {e i j : Expr} {a z b y : Token} {span : Span}
    (h : Completes ts e) (he : e.isElement = false) (ha : a.kind = .openBracket)
    (hi : Completes us i) (hs : Spells us i) (hz : z.kind = .closeBracket)
    (hb : b.kind = .openBracket) (hj : Completes vs j) (hs' : Spells vs j)
    (hy : y.kind = .closeBracket) (htight : Power.unary.looser e.power = true) :
    Completes (ts ++ a :: (us ++ [z]) ++ b :: (vs ++ [y])) (.cell span e i j) := by
  intro p c rest n Q hp hw hk hc hn hQ
  simp only [List.length_append, List.length_cons, List.length_nil] at hn hQ
  simp only [List.append_assoc, List.cons_append, List.nil_append] at hc
  refine h.target htight hp hc (by omega) fun e' c' n' he' hc' hn' => ?_
  obtain ⟨m, rfl⟩ : ∃ m, n' = m + 3 := ⟨n' - 3, by omega⟩
  refine index_extends hp ha hi hs hz hc' (by omega) fun i' span₁ c₁ hi' hc₁ => ?_
  refine ⟨.index span₁ e' i', indexed_of_plain ?_, ?_⟩
  · rw [← Expr.isElement_bare, he', Expr.isElement_bare, he]
  refine index_extends hp hb hj hs' hy hc₁ (by omega) fun j' span₂ c₂ hj' hc₂ => ?_
  refine ⟨.cell span₂ e' i' j', rfl, hQ _ _ _ ?_ hc₂ (by omega)⟩
  simp only [Expr.bare, he', hi', hj']

theorem method_completes {ts us : List Token} {e : Expr} {es : List Expr} {d t a : Token}
    {span : Span} (h : Completes ts e) (hd : d.kind = .dot) (ht : t.kind = .identifier)
    (ha : a.kind = .openParen) (hes : CompletesAll .closeParen us es)
    (htight : Power.unary.looser e.power = true) :
    Completes (ts ++ d :: t :: a :: us) (.method span e t.value es) := by
  intro p c rest n Q hp hw hk hc hn hQ
  simp only [List.length_append, List.length_cons] at hn hQ
  simp only [List.append_assoc, List.cons_append] at hc
  refine h.target htight hp hc (by omega) fun e' c' n' he' hc' hn' => ?_
  obtain ⟨m, rfl⟩ : ∃ m, n' = m + 2 := ⟨n' - 2, by omega⟩
  obtain ⟨rfl, hk₁, h₁⟩ := hc'.take hd (by simp)
  obtain ⟨rfl, hk₂, h₂⟩ := h₁.take ht (by simp)
  obtain ⟨rfl, hk₃, h₃⟩ := h₂.take ha (by simp)
  refine gets_tail ?_ ?_
  · rw [hk₁]
    exact Nat.lt_of_le_of_lt hp (by decide)
  simp only [extension, gets_bind, gets_kind, hk₁, TokenKind.binary?, gets_advance,
    gets_expectDetailed, gets_expect, hk₂, hk₃, true_and, gets_spanFrom, gets_pure]
  refine (hes (.inl rfl) h₃ (by omega)).imp ?_
  rintro es' c'' ⟨hes', hc''⟩
  exact hQ _ _ _ (by simp only [Expr.bare, he', hes']) hc'' (by omega)

theorem call_completes {us : List Token} {es : List Expr} {t a : Token} {span : Span}
    (ht : t.kind = .identifier) (ha : a.kind = .openParen)
    (hes : CompletesAll .closeParen us es) :
    Completes (t :: a :: us) (.call span t.value es) := by
  intro p c rest n Q hp hw hk hc hn hQ
  simp only [List.length_cons] at hn hQ
  obtain ⟨m, rfl⟩ : ∃ m, n = m + 3 := ⟨n - 3, by omega⟩
  obtain ⟨rfl, hk₁, h₁⟩ := hc.take ht (by simp)
  obtain ⟨rfl, hk₂, h₂⟩ := h₁.take ha (by simp)
  have hname : ofToken c.current = .ok (.name c.current.span c.current.value) := by
    unfold ofToken
    rw [ht]
  simp only [expr, head, primary, gets_bind, gets_kind, hk₁, gets_advance]
  refine (gets_ofExcept hname).2 (gets_tail ?_ ?_)
  · rw [hk₂]
    exact Nat.lt_of_le_of_lt hp (by decide)
  simp only [extension, gets_bind, gets_kind, hk₂, TokenKind.binary?, gets_advance, gets_spanFrom,
    gets_pure]
  refine (hes (.inl rfl) h₂ (by omega)).imp ?_
  rintro es' c'' ⟨hes', hc''⟩
  exact hQ _ _ _ (by simp only [Expr.bare, hes']) hc'' (by omega)

/-! ## Every expression -/

/-- Reading an argument, up to the token after it. -/
theorem Completes.argument {closing : TokenKind} {ts : List Token} {e : Expr} {t : Token}
    (h : Completes ts e) (hs : Spells ts e)
    (hcl : closing = .closeParen ∨ closing = .closeBracket)
    (ht : t.kind = closing ∨ t.kind = .comma) (hc : c.Before (ts ++ t :: rest))
    (hn : 4 * ts.length ≤ n) {Q : List Expr → Cursor → Prop}
    (hQ : ∀ e' c', e'.bare = e.bare → c'.Before (t :: rest) → Gets (do
      if (← kind) = closing then
        let _ ← advance
        return [e']
      else
        let _ ← expect .comma
        let rest ← arguments n closing
        return e' :: rest) c' Q) : Gets (arguments (n + 1) closing) c Q := by
  have hfirst : c.kind ≠ closing := by
    obtain ⟨u, us, rfl, hu⟩ := opensExpr_of_spells hs
    have hopens : c.kind.opensExpr = true := hc.kind (P := (·.opensExpr = true)) (by simpa using hu)
    rintro hk
    rw [hk] at hopens
    rcases hcl with rfl | rfl <;> cases hopens
  have hpower : t.kind.power = .lowest := by
    rcases ht with ht | ht <;> rw [ht]
    · rcases hcl with rfl | rfl <;> rfl
    · rfl
  simp only [arguments, gets_bind, gets_kind, hfirst, ↓reduceIte]
  refine (h.lowest hs rfl hpower hc hn).imp ?_
  rintro e' c' ⟨he', hc'⟩
  exact hQ e' c' he' hc'

mutual

theorem completes_of_spells : ∀ {ts : List Token} {e : Expr}, Spells ts e → e.correct = true →
    Completes ts e
  | _, _, .token h he, _ => (token_completes h he).completes (.token h he)
  | _, e, .binary he hl ht hr, hc => by
    have hc' := hc
    rw [correct_of_binary? he, Bool.and_eq_true, Bool.and_eq_true] at hc'
    exact binary_completes he hc ht (completes_of_spells hl hc'.1.2)
      (completes_of_spells hr hc'.2) hr
  | _, _, .negate ht h, hc => by
    simp only [Expr.correct, Expr.ordered, Bool.and_eq_true] at hc
    exact (mark_completes (.inl ⟨ht, rfl⟩) (completes_of_spells h hc.2) h hc.1).completes
      (.negate ht h)
  | _, _, .not ht h, hc => by
    simp only [Expr.correct, Expr.ordered, Bool.and_eq_true] at hc
    exact (mark_completes (.inr ⟨ht, rfl⟩) (completes_of_spells h hc.2) h hc.1).completes
      (.not ht h)
  | _, _, .cast ha ht hz h, hc => by
    simp only [Expr.correct, Expr.ordered, Bool.and_eq_true] at hc
    exact (cast_completes ha ht hz (completes_of_spells h hc.2) h hc.1).completes
      (.cast ha ht hz h)
  | _, _, .group ha h hz, hc =>
    (group_completes ha (completes_of_spells h hc) h hz).completes (.group ha h hz)
  | _, _, .call ht ha hes, hc => call_completes ht ha (completesAll_of_spells hes hc)
  | _, _, .method h hd ht ha hes, hc => by
    simp only [Expr.correct, Expr.ordered, Bool.and_eq_true] at hc
    exact method_completes (completes_of_spells h hc.1.2) hd ht ha
      (completesAll_of_spells hes hc.2) hc.1.1
  | _, _, .index h he ha hi hz, hc => by
    simp only [Expr.correct, Expr.ordered, Bool.and_eq_true] at hc
    exact index_completes (completes_of_spells h hc.1.2) he ha (completes_of_spells hi hc.2) hi hz
      hc.1.1
  | _, _, .cell h he ha hi hz hb hj hy, hc => by
    simp only [Expr.correct, Expr.ordered, Bool.and_eq_true] at hc
    exact cell_completes (completes_of_spells h hc.1.1.2) he ha (completes_of_spells hi hc.1.2) hi
      hz hb (completes_of_spells hj hc.2) hj hy hc.1.1.1
  | _, _, .vector ha hn hes, hc =>
    (bracket_completes ha (.inl ⟨hn, rfl⟩) (completesAll_of_spells hes hc) hes).completes
      (.vector ha hn hes)
  | _, _, .matrix ha hn hes, hc =>
    (bracket_completes ha (.inr ⟨hn, rfl⟩) (completesAll_of_spells hes hc) hes).completes
      (.matrix ha hn hes)
  | _, _, .newList hw hl ha hz, _ =>
    (newList_completes hw hl ha hz).completes (.newList hw hl ha hz)
  | _, _, .newListOf hw hl hx h hy ha hz, _ =>
    (newListOf_completes hw hl hx h hy ha hz).completes (.newListOf hw hl hx h hy ha hz)

theorem completesAll_of_spells : ∀ {closing : TokenKind} {ts : List Token} {es : List Expr},
    SpellsAll closing ts es → Expr.allCorrect es = true → CompletesAll closing ts es
  | _, _, _, .nil ht, _ => by
    intro c rest n hcl hc hn
    simp only [List.length_singleton] at hn
    obtain ⟨m, rfl⟩ : ∃ m, n = m + 1 := ⟨n - 1, by omega⟩
    obtain ⟨rfl, hk, hnext⟩ := hc.take ht (by rcases hcl with rfl | rfl <;> simp)
    simp only [arguments, gets_bind, gets_kind, hk, ↓reduceIte, gets_advance, gets_pure]
    exact ⟨trivial, hnext⟩
  | _, _, _, .last h ht, hcorrect => by
    intro c rest n hcl hc hn
    simp only [Expr.allCorrect, Bool.and_eq_true] at hcorrect
    simp only [List.length_append, List.length_cons, List.length_nil] at hn
    simp only [List.append_assoc, List.cons_append, List.nil_append] at hc
    obtain ⟨m, rfl⟩ : ∃ m, n = m + 1 := ⟨n - 1, by omega⟩
    refine (completes_of_spells h hcorrect.1).argument h hcl (.inl ht) hc (by omega) ?_
    intro e' c' he' hc'
    obtain ⟨rfl, hk, hnext⟩ := hc'.take ht (by rcases hcl with rfl | rfl <;> simp)
    simp only [gets_bind, gets_kind, hk, ↓reduceIte, gets_advance, gets_pure, Expr.bareAll, he']
    exact ⟨trivial, hnext⟩
  | closing, _, _, .cons h ht hes, hcorrect => by
    intro c rest n hcl hc hn
    simp only [Expr.allCorrect, Bool.and_eq_true] at hcorrect
    simp only [List.length_append, List.length_cons] at hn
    simp only [List.append_assoc, List.cons_append] at hc
    obtain ⟨m, rfl⟩ : ∃ m, n = m + 1 := ⟨n - 1, by omega⟩
    refine (completes_of_spells h hcorrect.1).argument h hcl (.inr ht) hc (by omega) ?_
    intro e' c' he' hc'
    obtain ⟨rfl, hk, hnext⟩ := hc'.take ht (by simp)
    have hne : TokenKind.comma ≠ closing := by rcases hcl with rfl | rfl <;> simp
    simp only [gets_bind, gets_kind, hk, hne, ↓reduceIte, gets_expect, true_and, gets_pure]
    refine (completesAll_of_spells hes hcorrect.2 hcl hnext (by omega)).imp ?_
    rintro es' c'' ⟨hes', hc''⟩
    exact ⟨by simp only [Expr.bareAll, he', hes'], hc''⟩

end

end Grammar

theorem Cursor.closed_of_rest {c : Cursor} {tokens : List Token}
    (h : c.rest = Cursor.closed tokens) : c.Closed := by
  unfold Cursor.closed at h
  split at h
  · exact ⟨[], _, h, rfl⟩
  · rename_i t ht
    split_ifs at h with hk
    · obtain ⟨ts, rfl⟩ := List.getLast?_eq_some_iff.1 ht
      exact ⟨ts, t, h, hk⟩
    · exact ⟨tokens, _, h, rfl⟩

/-- The tokens an expression is read from spell it, and its operators bind as their levels say; and
every such expression is read from its tokens, up to the places in it, where nothing follows that
would extend it. -/
theorem Parse.expr_exact {c : Cursor} {tokens : List Token}
    (hc : c.rest = Cursor.closed tokens) :
    (∀ e c', Parse.expr .lowest c = .done e c' → ∃ ts, c.rest = ts ++ c'.rest ∧ Spells ts e ∧
      e.correct = true ∧ c'.kind.extendsExpr = false) ∧
    ∀ e ts rest, c.rest = ts ++ rest → (∀ t ∈ rest.head?, t.kind.extendsExpr = false) →
      Spells ts e → e.correct = true →
      ∃ e' c', Parse.expr .lowest c = .done e' c' ∧ c'.rest = rest ∧ e'.bare = e.bare := by
  have hclosed := Cursor.closed_of_rest hc
  have hlowest : ∀ k : TokenKind, k.extendsExpr = false ↔ k.power.rank ≤ Power.lowest.rank := by
    intro k
    cases k <;> decide
  refine ⟨fun e c' he => ?_, fun e ts rest hr hrest hs hcorrect => ?_⟩
  · obtain ⟨⟨ts, hts⟩, -, hk⟩ := (Grammar.sound c.fuel).expr hclosed e c' he
    exact ⟨ts, hts.passes.rest, hts.spells, hts.correct, (hlowest _).2 hk⟩
  · have hlength : ts.length ≤ c.following.length + 1 := by
      have := congrArg List.length hr
      simp only [Cursor.rest, List.length_cons, List.length_append] at this
      omega
    have hfuel : 4 * ts.length ≤ c.fuel := by
      unfold Cursor.fuel
      omega
    have hgets := (Grammar.completes_of_spells hs hcorrect).whole hs (by decide)
      Expr.withstands_lowest (fun t ht => (hlowest _).1 (hrest t ht)) ⟨hr, hclosed⟩ hfuel
    unfold Gets at hgets
    split at hgets
    · rename_i e' c' he'
      exact ⟨e', c', he', hgets.2.rest, hgets.1⟩
    · exact hgets.elim

/-- Powers nest to the right. -/
theorem Parse.expr_exact_power :
    let name (n : String) : Token := ⟨.identifier, n, default⟩
    let power : Token := ⟨.starStar, "**", default⟩
    ∃ e c', Parse.expr .lowest (Cursor.ofTokens [name "a", power, name "b", power, name "c"]) =
      .done e c' ∧ e.bare = .arithmetic default .power (.name default "a")
        (.arithmetic default .power (.name default "b") (.name default "c")) := by
  intro name power
  have hname : ∀ n, Spells [name n] (.name default n) := fun n => .token rfl rfl
  obtain ⟨e, c', he, -, hbare⟩ := (Parse.expr_exact (c := Cursor.ofTokens
    [name "a", power, name "b", power, name "c"]) (show _ = Cursor.closed
    [name "a", power, name "b", power, name "c"] from rfl)).2
    (.arithmetic default .power (.name default "a")
      (.arithmetic default .power (.name default "b") (.name default "c")))
    [name "a", power, name "b", power, name "c"] [Token.eof default] rfl (by decide)
    (.binary rfl (hname "a") rfl (.binary rfl (hname "b") rfl (hname "c"))) (by decide)
  exact ⟨e, c', he, hbare⟩

end Primer
