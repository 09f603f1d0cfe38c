import Primer.Proofs.Respect

/-!
# Fuel

Fuel only decides whether a computation ends: one that has ended ends in the same way with more
(`respected_lasts`). So what a family of computations comes to does not depend on the fuel
(`Eval.Comes`), and a sequence comes to what its parts come to (`Eval.comes_bind`).
-/

namespace Primer

namespace Eval

variable {α β : Type}

/-- A computation that ends as another one does, if that ends. -/
def Lasts (x y : Eval α) : Prop := ∀ m, x m = .exhausted ∨ y m = x m

section Rules

variable {x y : Eval α} {m : Machine}

theorem Lasts.refl (x : Eval α) : Lasts x x := fun _ => .inr rfl

theorem lasts_exhausted (y : Eval α) : Lasts Runs.exhausted y := fun _ => .inl rfl

theorem Lasts.bind {k k' : α → Eval β} (hx : Lasts x y) (hk : ∀ a, Lasts (k a) (k' a)) :
    Lasts (x >>= k) (y >>= k') := fun m => by
  rw [Effect.bind_apply, Effect.bind_apply]
  rcases hx m with h | h
  · exact .inl (by rw [h])
  · rw [h]
    cases x m with
    | done a t => exact hk a t
    | failed => exact .inr rfl
    | exhausted => exact .inl rfl

theorem Lasts.attempt (hx : Lasts x y) : Lasts (Runs.attempt x) (Runs.attempt y) := fun m => by
  simp only [Runs.attempt, Effect.attempt]
  rcases hx m with h | h
  · exact .inl (by rw [h])
  · exact .inr (by rw [h])

theorem Lasts.between (hx : Lasts x y) (enter leave : Machine → Machine) :
    Lasts (between enter leave x) (between enter leave y) :=
  (Lasts.refl _).bind fun _ => hx.attempt.bind fun _ => .refl _

theorem Lasts.guarded {x y : Eval Unit} (hx : Lasts x y) : Lasts (guarded x) (guarded y) :=
  hx.attempt.bind fun _ => .refl _

theorem Lasts.declareWith {x y : Eval Value} (hx : Lasts x y) (name : String) (ty : Ty)
    (p : Position) : Lasts (declareWith name ty p x) (declareWith name ty p y) :=
  hx.attempt.bind fun _ => .refl _

end Rules

end Eval

namespace Watched

open Eval

/-- With more fuel every part of the evaluator ends as it does with less. -/
theorem respected_lasts :
    Respected .same True fun _ x y => ∀ callers, Lasts (run callers x) y where
  pure a _ := by
    rw [run_pure]
    exact .refl _
  bind hx hk callers := by
    rw [run_bind]
    exact (hx callers).bind fun a => hk a callers
  exhausted _ _ := by
    rw [run_exhausted]
    exact lasts_exhausted _
  within hx := hx
  look hg _ := by
    rw [run_look]
    exact fun m => .inr (by simp only [Runs.look, (hg m m rfl).eq])
  step _ _ := by
    rw [run_step]
    exact .refl _
  valueOf _ _ _ := by
    rw [run_look]
    exact .refl _
  typeOf _ _ _ := by
    rw [run_look]
    exact .refl _
  function hsome hnone callers := by
    rw [run_bind, run_read]
    refine (Lasts.refl _).bind fun
      | none => hnone callers
      | some g => ?_
    exact (congrArg some (respellFunction_same g)) ▸ hsome g callers
  declare _ _ _ _ _ _ := by
    rw [run_declare]
    exact .refl _
  declareWith name ty p hx callers := by
    rw [run_declareWith, run_bind]
    refine ((hx callers).bind fun v => ?_).declareWith name ty p
    rw [run_ofExcept]
    exact .refl _
  assign _ _ _ _ := by
    rw [assign, run_bind, run_look]
    exact (Lasts.refl _).bind fun _ => by
      rw [run_update]
      exact .refl _
  inScope hx callers := by
    rw [inScope, run_between]
    exact (hx callers).between _ _
  inLabelled hlabel hx callers := by
    rw [inLabelled, run_between, hlabel rfl]
    exact (hx callers).between _ _
  inConstruct _ hx callers := by
    rw [inConstruct, run_between]
    exact (hx callers).between _ _
  inCall name p hx callers m := by
    rw [run_inCall, inCall_apply]
    by_cases hm : m.mayCall = true
    · rw [if_pos hm, if_pos hm, Respelling.same_apply]
      exact (hx _ _).imp (fun h => by rw [h]; rfl) fun h => by rw [h]
    · rw [if_neg hm, if_neg hm]
      exact .inr rfl
  conclude g _ := by
    rw [run_conclude, respellFunction_same]
    exact .refl _
  guarded hx callers := by
    rw [run_guarded]
    exact (hx callers).guarded
  note hd _ := by
    rw [run_update, hd.eq]
    exact .refl _

end Watched

namespace Eval

variable {α β : Type}

/-- A family of computations, one for each amount of fuel, in which a computation that ends ends in
the same way with more. -/
def Steady (x : Nat → Eval α) : Prop := ∀ n n', n ≤ n' → Lasts (x n) (x n')

/-- What a family of computations comes to with enough fuel. -/
def Comes (x : Nat → Eval α) (m : Machine) (o : Outcome Machine α) : Prop :=
  o ≠ .exhausted ∧ ∃ n, x n m = o

section Families

variable {x y : Nat → Eval α} {k : Nat → α → Eval β} {m : Machine}

theorem bind_done {x : Eval α} {k : α → Eval β} {a : α} {t : Machine} (h : x m = .done a t) :
    (x >>= k) m = k a t := by
  rw [Effect.bind_apply, h]

theorem bind_failed {x : Eval α} {k : α → Eval β} {d : Diagnostic} {t : Machine}
    (h : x m = .failed d t) : (x >>= k) m = .failed d t := by
  rw [Effect.bind_apply, h]

theorem bind_exhausted {x : Eval α} {k : α → Eval β} (h : x m = .exhausted) :
    (x >>= k) m = .exhausted := by
  rw [Effect.bind_apply, h]

theorem steady_const (x : Eval α) : Steady fun _ => x := fun _ _ _ => .refl x

theorem Steady.bind (hx : Steady x) (hk : ∀ a, Steady (k · a)) :
    Steady fun n => x n >>= k n := fun n n' h => (hx n n' h).bind fun a => hk a n n' h

theorem Comes.mono (hx : Steady x) {o : Outcome Machine α} {n n' : Nat} (hn : n ≤ n')
    (h : x n m = o) (ho : o ≠ .exhausted) : x n' m = o :=
  ((hx n n' hn m).resolve_left fun he => ho (h.symm.trans he)).trans h

/-- One unit of fuel more makes no difference. -/
theorem comes_succ (hx : Steady x) {o : Outcome Machine α} :
    Comes (fun n => x (n + 1)) m o ↔ Comes x m o := by
  constructor
  · rintro ⟨ho, n, h⟩
    exact ⟨ho, n + 1, h⟩
  · rintro ⟨ho, n, h⟩
    exact ⟨ho, n, Comes.mono hx n.le_succ h ho⟩

/-- A sequence comes to what its second part comes to after the first, or fails as the first. -/
theorem comes_bind (hx : Steady x) (hk : ∀ a, Steady (k · a)) {o : Outcome Machine β} :
    Comes (fun n => x n >>= k n) m o ↔
      (∃ a t, Comes x m (.done a t) ∧ Comes (k · a) t o) ∨
        ∃ d t, Comes x m (.failed d t) ∧ o = .failed d t := by
  constructor
  · rintro ⟨ho, n, h⟩
    rcases hr : x n m with ⟨a, t⟩ | ⟨d, t⟩ | _
    · exact .inl ⟨a, t, ⟨nofun, n, hr⟩, ho, n, (bind_done hr).symm.trans h⟩
    · exact .inr ⟨d, t, ⟨nofun, n, hr⟩, h.symm.trans (bind_failed hr)⟩
    · exact absurd (h.symm.trans (bind_exhausted hr)) ho
  · rintro (⟨a, t, ⟨hd, n, h⟩, ho, n', h'⟩ | ⟨d, t, ⟨-, n, h⟩, rfl⟩)
    · have hx := Comes.mono hx (n.le_max_left n') h hd
      have hk := Comes.mono (hk a) (n.le_max_right n') h' ho
      exact ⟨ho, max n n', (bind_done hx).trans hk⟩
    · exact ⟨nofun, n, bind_failed h⟩

/-- What a sequence comes to is settled by what its second part comes to after the first. -/
theorem comes_bind_congr {k' : Nat → α → Eval β} (hx : Steady x) (hk : ∀ a, Steady (k · a))
    (hk' : ∀ a, Steady (k' · a)) {o : Outcome Machine β}
    (h : ∀ a t, Comes x m (.done a t) → (Comes (k · a) t o ↔ Comes (k' · a) t o)) :
    Comes (fun n => x n >>= k n) m o ↔ Comes (fun n => x n >>= k' n) m o := by
  rw [comes_bind hx hk, comes_bind hx hk']
  exact or_congr_left (exists_congr fun a => exists_congr fun t => and_congr_right (h a t))

theorem steady_ite (hx : Steady x) (hy : Steady y) (g : Machine → Bool) :
    Steady fun n => (do if ← read g then x n else y n) :=
  (steady_const (read g)).bind fun b => by
    cases b
    · exact hy
    · exact hx

/-- A choice comes to what the part it takes comes to. -/
theorem comes_ite {g : Machine → Bool} {o : Outcome Machine α} :
    Comes (fun n => (do if ← read g then x n else y n)) m o ↔
      if g m then Comes x m o else Comes y m o := by
  change Comes (fun n m => (if g m then x n else y n : Eval α) m) m o ↔ _
  cases h : g m <;> simp only [Comes, h, Bool.false_eq_true, ↓reduceIte]

theorem steady_expr (e : Expr) : Steady fun n => expr n e := fun _ _ h => by
  have hr := (Watched.respected_lasts.related h (.inl trivial)).expr e []
  rw [e.respell_same, (Watched.unwatched _).expr] at hr
  exact hr

theorem steady_stmt (s : Stmt) : Steady fun n => stmt n s := fun _ _ h => by
  have hr := (Watched.respected_lasts.related h (.inl trivial)).stmt s []
  rw [s.respell_same, (Watched.unwatched _).stmt] at hr
  exact hr

theorem steady_stmts (ss : List Stmt) : Steady fun n => stmts n ss := fun _ _ h => by
  have hr := (Watched.respected_lasts.related h (.inl trivial)).stmts ss []
  rw [show Stmt.respell .same = id from funext Stmt.respell_same, List.map_id,
    (Watched.unwatched _).stmts] at hr
  exact hr

theorem steady_switch (v : Value) (cases : List Case) (fallback : Option (List Stmt))
    (found : Bool) : Steady fun n => switch n v cases fallback found := fun _ _ h => by
  have hr := (Watched.respected_lasts.related h (.inl trivial)).switch v cases fallback found []
  rw [show respellCase .same = id from funext respellCase_same,
    show Stmt.respell .same = id from funext Stmt.respell_same,
    show List.map (id : Stmt → Stmt) = id from funext List.map_id,
    List.map_id, Option.map_id_fun, (Watched.unwatched _).switch] at hr
  exact hr

/-! ## Statements in order -/

/-- What is left out while a jump or a failure is on its way. -/
theorem comes_unless {x : Nat → Eval Unit} {o : Outcome Machine Unit} :
    Comes (fun n => (do if ← read Machine.pending then return () else x n)) m o ↔
      if m.pending then o = .done () m else Comes x m o := by
  rw [comes_ite]
  split
  · exact ⟨fun ⟨_, _, h⟩ => h.symm, fun h => ⟨h ▸ nofun, 0, h.symm⟩⟩
  · rfl

theorem comes_stmts_nil {t : Machine} :
    Comes (fun n => stmts n []) m (.done () t) ↔ t = m := by
  rw [← comes_succ (steady_stmts [])]
  exact ⟨fun ⟨_, _, h⟩ => by cases h; rfl, fun h => ⟨nofun, 0, by rw [h]; rfl⟩⟩

theorem comes_stmts_cons (s : Stmt) (ss : List Stmt) {o : Outcome Machine Unit} :
    Comes (fun n => stmts n (s :: ss)) m o ↔ ∃ t, Comes (fun n => stmt n s) m (.done () t) ∧
      if t.pending then o = .done () t else Comes (fun n => stmts n ss) t o := by
  rw [← comes_succ (steady_stmts _)]
  change Comes (fun n => stmt n s >>= fun _ => do
    if ← read Machine.pending then return () else stmts n ss) m o ↔ _
  rw [comes_bind (steady_stmt s) fun _ => steady_ite (steady_const _) (steady_stmts ss) _]
  simp only [comes_unless]
  constructor
  · rintro (⟨_, t, h, ht⟩ | ⟨d, t, ⟨-, n, h⟩, -⟩)
    · exact ⟨t, h, ht⟩
    · exact absurd h (stmt_ne_failed n s m t d)
  · rintro ⟨t, h, ht⟩
    exact .inl ⟨(), t, h, ht⟩

/-- Statements after others run if these have left nothing pending. -/
theorem comes_stmts_append (ss' : List Stmt) {o : Outcome Machine Unit} : ∀ (ss : List Stmt)
    {m : Machine}, m.pending = false → (Comes (fun n => stmts n (ss ++ ss')) m o ↔
      ∃ t, Comes (fun n => stmts n ss) m (.done () t) ∧
        if t.pending then o = .done () t else Comes (fun n => stmts n ss') t o)
  | [], m, hm => by simp [comes_stmts_nil, hm]
  | s :: ss, m, hm => by
    simp only [List.cons_append, comes_stmts_cons]
    constructor
    · rintro ⟨u, hu, h⟩
      split at h
      · rename_i hp
        exact ⟨u, ⟨u, hu, by rw [if_pos hp]⟩, by rwa [if_pos hp]⟩
      · rename_i hp
        obtain ⟨t, ht, h⟩ := (comes_stmts_append ss' ss (Bool.eq_false_iff.2 hp)).1 h
        exact ⟨t, ⟨u, hu, by rwa [if_neg hp]⟩, h⟩
    · rintro ⟨t, ⟨u, hu, ht⟩, h⟩
      refine ⟨u, hu, ?_⟩
      split at ht
      · rename_i hp
        cases ht
        rwa [if_pos hp] at h ⊢
      · rename_i hp
        rw [if_neg hp]
        exact (comes_stmts_append ss' ss (Bool.eq_false_iff.2 hp)).2 ⟨t, ht, h⟩

end Families

end Eval

end Primer
