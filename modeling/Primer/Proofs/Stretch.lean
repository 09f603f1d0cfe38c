import Primer.Proofs.Partition

/-!
# Stretches of the source

Places are in the order of the characters. The tokens of a source lie one behind the other, so a
span from the first to the last of some tokens holds the spans of those between, and spans of tokens
that follow each other do not overlap.
-/

namespace Primer

namespace Position

instance : LinearOrder Position :=
  LinearOrder.lift' (fun p => toLex (p.line, p.column)) fun ⟨_, _⟩ ⟨_, _⟩ h => by
    simpa using h

theorem lt_iff {p q : Position} :
    p < q ↔ p.line < q.line ∨ p.line = q.line ∧ p.column < q.column :=
  Prod.Lex.toLex_lt_toLex

theorem lt_next (p : Position) (c : Char) : p < p.next c := by
  unfold next
  rw [lt_iff]
  split_ifs <;> simp

theorem le_after (p : Position) (cs : List Char) : p ≤ p.after cs := by
  induction cs generalizing p with
  | nil => exact le_refl p
  | cons c cs ih => exact le_trans (p.lt_next c).le (ih (p.next c))

theorem lt_after (p : Position) {cs : List Char} (h : cs ≠ []) : p < p.after cs := by
  cases cs with
  | nil => exact absurd rfl h
  | cons c cs => exact lt_of_lt_of_le (p.lt_next c) (le_after _ cs)

theorem behind_append (before text : List Char) :
    behind (before ++ text) = (behind before).after text := by
  rw [← after_start, ← after_start, after_append]

end Position

/-- A span from the first of some tokens to the last. -/
structure Span.Covers (s : Span) (ts : List Token) : Prop where
  start : ts.head?.map (·.span.start) = some s.start
  stop : ts.getLast?.map (·.span.stop) = some s.stop

/-- Tokens that lie one behind the other. -/
structure Ordered (ts : List Token) : Prop where
  proper : ∀ t ∈ ts, t.span.start < t.span.stop
  apart : ts.Pairwise fun t u => t.span.stop ≤ u.span.start

namespace Ordered

variable {ts us : List Token}

theorem sublist (h : Ordered ts) (hs : us.Sublist ts) : Ordered us :=
  ⟨fun t ht => h.proper t (hs.subset ht), h.apart.sublist hs⟩

theorem snoc {t : Token} (h : Ordered ts) (ht : t.span.start < t.span.stop)
    (hts : ∀ u ∈ ts, u.span.stop ≤ t.span.start) : Ordered (ts ++ [t]) := by
  refine ⟨List.forall_mem_append.2 ⟨h.proper, by simpa using ht⟩, ?_⟩
  rw [List.pairwise_append]
  exact ⟨h.apart, List.pairwise_singleton _ _, by simpa using hts⟩

end Ordered

namespace Span.Covers

variable {s u : Span} {ts us : List Token}

theorem single (t : Token) : t.span.Covers [t] := ⟨rfl, rfl⟩

theorem append (hs : s.Covers ts) (hu : u.Covers us) :
    Span.Covers ⟨s.start, u.stop⟩ (ts ++ us) := by
  obtain ⟨hstart, -⟩ := hs
  obtain ⟨-, hstop⟩ := hu
  simp only [Option.map_eq_some_iff] at hstart hstop
  obtain ⟨t, ht, hts⟩ := hstart
  obtain ⟨v, hv, hvs⟩ := hstop
  exact ⟨by simp [List.head?_append, ht, hts], by simp [List.getLast?_append, hv, hvs]⟩

theorem first (h : s.Covers ts) : ∃ t us, ts = t :: us ∧ t.span.start = s.start := by
  cases ts with
  | nil => cases h.start
  | cons t us => exact ⟨t, us, rfl, Option.some.inj h.start⟩

theorem last (h : s.Covers ts) : ∃ us t, ts = us ++ [t] ∧ t.span.stop = s.stop := by
  obtain ⟨t, ht, hstop⟩ := Option.map_eq_some_iff.1 h.stop
  obtain ⟨us, rfl⟩ := List.getLast?_eq_some_iff.1 ht
  exact ⟨us, t, rfl, hstop⟩

theorem start_le (h : s.Covers ts) (ho : Ordered ts) : ∀ t ∈ ts, s.start ≤ t.span.start := by
  obtain ⟨u, us, rfl, hs⟩ := h.first
  have hu := ho.proper u (by simp)
  rw [← hs]
  rintro t (_ | ⟨_, ht⟩)
  · exact le_refl _
  · exact le_trans hu.le ((List.pairwise_cons.1 ho.apart).1 t ht)

theorem le_stop (h : s.Covers ts) (ho : Ordered ts) : ∀ t ∈ ts, t.span.stop ≤ s.stop := by
  obtain ⟨us, u, rfl, hs⟩ := h.last
  have hu := ho.proper u (by simp)
  rw [← hs]
  intro t ht
  rcases List.mem_append.1 ht with ht | ht
  · exact le_trans ((List.pairwise_append.1 ho.apart).2.2 t ht u (by simp)) hu.le
  · rw [List.mem_singleton.1 ht]

theorem lt (h : s.Covers ts) (ho : Ordered ts) : s.start < s.stop := by
  obtain ⟨t, us, rfl, hs⟩ := h.first
  exact hs ▸ lt_of_lt_of_le (ho.proper t (by simp)) (h.le_stop ho t (by simp))

/-- What some of the tokens cover lies inside what all of them cover. -/
theorem inside (h : s.Covers ts) (hu : u.Covers us) (hsub : us ⊆ ts) (ho : Ordered ts) :
    s.start ≤ u.start ∧ u.stop ≤ s.stop := by
  obtain ⟨t, vs, hfirst, ht⟩ := hu.first
  obtain ⟨vs', t', hlast, ht'⟩ := hu.last
  exact ⟨ht ▸ h.start_le ho t (hsub (by simp [hfirst])),
    ht' ▸ h.le_stop ho t' (hsub (by simp [hlast]))⟩

/-- What tokens cover ends before what later ones cover. -/
theorem apart (hs : s.Covers ts) (hu : u.Covers us) (ho : Ordered (ts ++ us)) :
    s.stop ≤ u.start := by
  obtain ⟨ts, t, rfl, ht⟩ := hs.last
  obtain ⟨v, us, rfl, hv⟩ := hu.first
  rw [← ht, ← hv]
  exact (List.pairwise_append.1 ho.apart).2.2 t (by simp) v (by simp)

end Span.Covers

theorem Lexeme.ne_nil {text : List Char} {kind : TokenKind} {value : String}
    (h : Lexeme text kind value) : text ≠ [] := by
  cases h with
  | mark hm =>
    have hall : ∀ m ∈ TokenKind.marks, m.1.toList ≠ [] := by decide
    exact hall _ hm
  | _ => simp

/-- The tokens of a text that is cut into pieces lie one behind the other. -/
theorem Cut.ordered {source before after : List Char} {tokens : List Token}
    (h : Cut source before after tokens) :
    Ordered tokens ∧ ∀ t ∈ tokens, t.span.stop ≤ .behind before := by
  induction h with
  | start => exact ⟨⟨by simp, .nil⟩, by simp⟩
  | gap _ _ _ _ ih =>
    obtain ⟨ho, hbefore⟩ := ih
    rw [Position.behind_append]
    exact ⟨ho, fun t ht => le_trans (hbefore t ht) (Position.le_after _ _)⟩
  | token _ _ hl _ ih =>
    obtain ⟨ho, hbefore⟩ := ih
    rw [Position.behind_append]
    refine ⟨ho.snoc (Position.lt_after _ hl.ne_nil) hbefore, ?_⟩
    intro t ht
    rcases List.mem_append.1 ht with ht | ht
    · exact le_trans (hbefore t ht) (Position.le_after _ _)
    · rw [List.mem_singleton.1 ht]

end Primer
