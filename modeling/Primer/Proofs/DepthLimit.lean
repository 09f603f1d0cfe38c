import Primer.Proofs.Delivery
import Primer.Proofs.Invariant
import Primer.Session

/-!
# The limit of calls that may run at once

The limit is looked at where a call begins and nowhere else. So no more calls run than it says
(`depth_kept`), and a run in which no call was refused is the run under every greater limit
(`raises`). A refused call fails, and a failure is delivered, so the report shows whether there was
one.
-/

namespace Primer

/-! ## The depth of calls -/

/-- Under a limit no more calls run than it says. -/
def Watched.Bounded (n : Nat) (m : Machine) : Prop := m.limit = n ∧ m.depth ≤ n

theorem Machine.invariant_bounded (n : Nat) : Invariant (Watched.Bounded n) where
  core _ h := h
  failure _ h := h
  note _ h := h
  introduce _ _ _ _ _ h := h
  replace _ _ _ h := h
  enterScope h := h
  leaveScope h := h
  enterLabelled _ h := h
  leaveLabelled h := h
  enterCall _ hm h := ⟨h.1, h.1 ▸ of_decide_eq_true hm⟩
  leaveCall _ h := ⟨h.1, (Nat.sub_le ..).trans h.2⟩

/-! ## A greater limit -/

/-- A call failed because too many calls were running. -/
def Diagnostic.Refuses (d : Diagnostic) : Prop := ∃ n, d.fault = .callDepthExceeded n

/-- A job failed because too many calls were running. -/
def Event.Refuses (e : Event) : Prop := ∃ j d m, e = .fails j d m ∧ d.Refuses

def Machine.raise (l : Nat) (m : Machine) : Machine := { m with limit := l }

/-- How a computation ends under a greater limit, if its failure is not that too many calls were
running. -/
inductive Outcome.Raised (l : Nat) {α : Type} : Outcome Machine α → Outcome Machine α → Prop
  | done {a t} (ht : t.limit ≤ l) : Raised l (.done a t) (.done a (t.raise l))
  | failed {d t} (ht : t.limit ≤ l) : Raised l (.failed d t) (.failed d (t.raise l))
  | refused {d t o} (hd : d.Refuses) : Raised l (.failed d t) o
  | exhausted {o} : Raised l .exhausted o

namespace Watched

open Eval

variable {α β : Type} {l : Nat} {callers : List Caller} {m t : Machine}

/-- If no job fails because too many calls are running, a computation goes on in the same way under
a greater limit. -/
def Raises (l : Nat) (x : Watched α) (y : Eval α) : Prop :=
  ∀ callers m, m.limit ≤ l → (∀ e ∈ (x callers m).events, ¬ e.Refuses) →
    (run callers x m).Raised l (y (m.raise l))

/-- A computation notes that it fails because too many calls are running. -/
def Shows (x : Watched α) : Prop := ∀ callers m d t, run callers x m = .failed d t → d.Refuses →
  ∃ e ∈ (x callers m).events, e.Refuses

theorem Shows.not_refuses {x : Watched α} {d : Diagnostic} (hx : Shows x)
    (h : run callers x m = .failed d t) (hno : ∀ e ∈ (x callers m).events, ¬ e.Refuses) :
    ¬ d.Refuses := fun hd =>
  have ⟨e, he, hre⟩ := hx callers m d t h hd
  hno e he hre

theorem shows_within {j : Job} {x : Watched j.Result} : Shows (Runs.within j x) :=
  fun _ _ _ _ h hd => ⟨_, fails_within h, _, _, _, rfl, hd⟩

theorem shows_exhausted : Shows (Runs.exhausted : Watched α) := fun _ _ _ _ h => by cases h

theorem shows_perform (n : Nat) (s : Stmt) : Shows (perform n s) := by
  cases n with
  | zero => exact shows_exhausted
  | succ n =>
    simp only [Eval.perform]
    exact shows_within (j := .stmt s)

theorem shows_exprFor (n : Nat) (e : Expr) (ty : Ty) : Shows (exprFor n e ty) := by
  cases n with
  | zero => exact shows_exhausted
  | succ n =>
    simp only [Eval.exprFor]
    exact shows_within (j := .exprFor e ty)

theorem Shows.convert {x : Watched Value} (hx : Shows x) (p : Position) (ty : Ty) (name : String) :
    Shows (x >>= fun v => Eval.ofExcept p (v.convert ty name)) := fun callers m d t h hd => by
  rw [run_bind, Effect.bind_apply] at h
  cases hr : run callers x m with
  | done v u =>
    simp only [hr, run_ofExcept] at h
    obtain ⟨_, hd⟩ := hd
    simp only [Value.convert] at h
    split at h <;> cases h
    cases hd
  | failed d' u =>
    rw [hr] at h
    cases h
    obtain ⟨e, he, hre⟩ := hx _ _ _ _ hr hd
    exact ⟨e, events_bind he, hre⟩
  | exhausted =>
    rw [hr] at h
    cases h

section Rules

variable {x : Watched α} {y : Eval α}

theorem raises_look {g g' : Machine → Except Diagnostic α} (hg : ∀ m, g' (m.raise l) = g m) :
    Raises l (Runs.look g) (Runs.look g') := fun callers m hm _ => by
  rw [run_look]
  simp only [Runs.look, hg m]
  cases g m with
  | ok a => exact .done hm
  | error d => exact .failed hm

theorem raises_step {g : Machine → α × Machine}
    (hg : ∀ m, g (m.raise l) = ((g m).1, (g m).2.raise l) ∧ (g m).2.limit = m.limit) :
    Raises l (Runs.step g) (Runs.step g) := fun callers m hm _ => by
  rw [run_step]
  simp only [Runs.step, Effect.step, (hg m).1]
  exact .done ((hg m).2.trans_le hm)

theorem raises_update {g : Machine → Machine}
    (hg : ∀ m, g (m.raise l) = (g m).raise l ∧ (g m).limit = m.limit) :
    Raises l (update g) (update g) :=
  raises_step fun m => ⟨by rw [(hg m).1], (hg m).2⟩

theorem raises_pure (a : α) : Raises l (pure a) (pure a) := fun _ _ hm _ => .done hm

theorem raises_fail (d : Diagnostic) : Raises l (fail d : Watched α) (fail d) :=
  raises_look fun _ => rfl

theorem raises_read {g : Machine → α} (hg : ∀ m, g (m.raise l) = g m) :
    Raises l (read g) (read g) :=
  raises_look fun m => by rw [hg m]

theorem raises_ofExcept (p : Position) (r : Except Fault α) :
    Raises l (Eval.ofExcept p r) (Eval.ofExcept p r) := by
  cases r with
  | ok a => exact raises_pure a
  | error => exact raises_fail _

theorem Raises.bind {k : α → Watched β} {k' : α → Eval β} (hx : Raises l x y)
    (hk : ∀ a, Raises l (k a) (k' a)) : Raises l (x >>= k) (y >>= k') := fun callers m hm hno => by
  have h := hx callers m hm fun e he => hno e (events_bind he)
  rw [run_bind, Effect.bind_apply, Effect.bind_apply]
  generalize hr : run callers x m = r, y (m.raise l) = r' at h
  cases h with
  | done ht => exact hk _ callers _ ht fun e he => hno e (events_bind_next hr he)
  | failed ht => exact .failed ht
  | refused hd => exact .refused hd
  | exhausted => exact .exhausted

theorem raised_onState {r r' : Outcome Machine α} {g : Machine → Machine} (h : r.Raised l r')
    (hg : ∀ m, g (m.raise l) = (g m).raise l ∧ (g m).limit = m.limit) :
    (r.onState g).Raised l (r'.onState g) := by
  cases h with
  | done ht =>
    simp only [Outcome.onState, (hg _).1]
    exact .done ((hg _).2.trans_le ht)
  | failed ht =>
    simp only [Outcome.onState, (hg _).1]
    exact .failed ((hg _).2.trans_le ht)
  | refused hd => exact .refused hd
  | exhausted => exact .exhausted

theorem Raises.between {enter leave : Machine → Machine} (hx : Raises l x y)
    (henter : ∀ m, enter (m.raise l) = (enter m).raise l ∧ (enter m).limit = m.limit)
    (hleave : ∀ m, leave (m.raise l) = (leave m).raise l ∧ (leave m).limit = m.limit) :
    Raises l (between enter leave x) (between enter leave y) := fun callers m hm hno => by
  have h := hx callers (enter m) ((henter m).2.trans_le hm) fun e he => hno e (events_between he)
  rw [run_between, between_apply, between_apply, (henter m).1]
  exact raised_onState h hleave

theorem Raises.within {j : Job} {x : Watched j.Result} {y : Eval j.Result} (hx : Raises l x y) :
    Raises l (Runs.within j x) y := fun callers m hm hno =>
  hx callers m hm fun e he => hno e (events_within he)

/-- Where a call may run it may run under a greater limit, and where it may not it is refused. -/
theorem Raises.inCall {name : String} {p : Position} (hx : Raises l x y) :
    Raises l (inCall name p x) (inCall name p y) := fun callers m hm hno => by
  rw [run_inCall, inCall_apply]
  by_cases hc : m.mayCall = true
  · have hraised : (m.raise l).mayCall = true :=
      decide_eq_true ((of_decide_eq_true hc : m.depth < m.limit).trans_le hm)
    have h := hx ((m.enterCall name).1 :: callers) (m.enterCall name).2 hm fun e he =>
      hno e (events_inCall hc he)
    rw [if_pos hc, if_pos hraised]
    exact raised_onState h fun _ => ⟨rfl, rfl⟩
  · rw [if_neg hc]
    exact .refused ⟨_, rfl⟩

theorem raised_declare (hm : m.limit ≤ l) (name : String) (ty : Ty) (category : Category)
    (p : Position) (value : Option Value) :
    ((declare name ty category p value : Eval Unit) m).Raised l
      ((declare name ty category p value : Eval Unit) (m.raise l)) := by
  unfold declare
  rw [Effect.bind_apply, Effect.bind_apply]
  simp only [Runs.look, Machine.raise]
  cases m.scopes.checkFree name p with
  | ok => exact .done hm
  | error d => exact .failed hm

theorem Raises.declareWith {x : Watched Value} {y : Eval Value} (name : String) (ty : Ty)
    (p : Position) (hx : Raises l x y) (hshows : Shows x) :
    Raises l (declareWith name ty p x) (declareWith name ty p y) := fun callers m hm hno => by
  have hno : ∀ e ∈ (x callers m).events, ¬ e.Refuses := fun e he =>
    hno e (events_bind (x := Runs.attempt x) he)
  have h := hx callers m hm hno
  rw [run_declareWith, declareWith_apply, declareWith_apply]
  generalize hr : run callers x m = r, y (m.raise l) = r' at h
  cases h with
  | done ht => exact raised_declare ht ..
  | @failed d t ht =>
    have h := raised_declare ht name ty (.ofTy ty) p none
    simp only [Effect.bind_apply]
    generalize (declare name ty (.ofTy ty) p none : Eval Unit) t = r,
      (declare name ty (.ofTy ty) p none : Eval Unit) (t.raise l) = r' at h
    cases h with
    | done hu => exact .failed hu
    | failed hu => exact .failed hu
    | refused hd => exact .refused hd
    | exhausted => exact .exhausted
  -- Where the name is taken, another failure would replace this one.
  | refused hd => exact absurd hd (hshows.not_refuses hr hno)
  | exhausted => exact .exhausted

theorem Raises.guarded {x : Watched Unit} {y : Eval Unit} (hx : Raises l x y) (hshows : Shows x) :
    Raises l (guarded x) (guarded y) := fun callers m hm hno => by
  have hno : ∀ e ∈ (x callers m).events, ¬ e.Refuses := fun e he =>
    hno e (events_bind (x := Runs.attempt x) he)
  have h := hx callers m hm hno
  rw [run_guarded, guarded_apply, guarded_apply]
  generalize hr : run callers x m = r, y (m.raise l) = r' at h
  cases h with
  | done ht => exact .done ht
  | @failed d t ht =>
    have hraise : (if (t.raise l).inCall then (t.raise l).fail d else (t.raise l).note d) =
        (if t.inCall then t.fail d else t.note d).raise l := by
      rw [show (t.raise l).inCall = t.inCall from rfl]
      cases t.inCall <;> rfl
    simp only [hraise]
    refine .done ?_
    cases t.inCall <;> exact ht
  | refused hd => exact absurd hd (hshows.not_refuses hr hno)
  | exhausted => exact .exhausted

theorem concluded_raise (g : Function) (m : Machine) : concluded g (m.raise l) =
    ((concluded g m).1, (concluded g m).2.raise l) ∧ (concluded g m).2.limit = m.limit := by
  obtain ⟨_, _, _, _, _, signal, _, _, _, _, _⟩ := m
  rcases signal with _ | _ | _ | _ | _ <;> exact ⟨rfl, rfl⟩

theorem raises_conclude (g : Function) : Raises l (conclude g) (conclude g) :=
    fun callers m hm _ => by
  obtain ⟨hraise, hlimit⟩ := concluded_raise (l := l) g m
  rw [run_conclude, conclude_apply, conclude_apply, hraise,
    show (m.raise l).failure = m.failure from rfl]
  cases m.failure with
  | none => exact .done (hlimit.trans_le hm)
  | some d => exact .failed hm

/-- Only a refused call tells a limit from a greater one. -/
theorem respected_raises (l : Nat) : Respected .same True fun _ x y => Raises l x y where
  pure := raises_pure
  bind hx hk := hx.bind hk
  exhausted _ := fun _ _ _ _ => .exhausted
  within hx := hx.within
  look hg := raises_look fun m => (hg m (m.raise l) rfl).eq
  step {α g} hg := raises_step fun m => by
    have hcore : (m.raise l).core = m.core := rfl
    refine ⟨Prod.ext (hg.value hcore) ?_, by rw [hg.frame m]; rfl⟩
    rw [hg.frame (m.raise l), hg.core hcore, hg.frame m]
    rfl
  valueOf _ _ := raises_look fun _ => rfl
  typeOf _ _ := raises_look fun _ => rfl
  function {_ name _ _} hsome hnone :=
    (raises_read (g := (·.function? name)) fun _ => rfl).bind fun
      | none => hnone
      | some g => (congrArg some (respellFunction_same g)) ▸ hsome g
  declare _ _ _ _ _ := fun _ _ hm _ => by
    rw [run_declare]
    exact raised_declare hm ..
  declareWith {n e _} name ty p hx := (hx.bind fun v => by
    rw [Respelling.same_apply]
    exact raises_ofExcept _ _).declareWith name ty p ((shows_exprFor n e ty).convert p ty name)
  assign name v p := (raises_look (g := (·.fit name v p)) fun _ => rfl).bind fun r =>
    raises_update (g := (·.replace name r.1 r.2)) fun _ => ⟨rfl, rfl⟩
  inScope hx := hx.between (fun _ => ⟨rfl, rfl⟩) fun _ => ⟨rfl, rfl⟩
  inLabelled hlabel hx := by
    rw [hlabel rfl]
    exact hx.between (fun _ => ⟨rfl, rfl⟩) fun _ => ⟨rfl, rfl⟩
  inConstruct _ hx := hx.between (fun _ => ⟨rfl, rfl⟩) fun _ => ⟨rfl, rfl⟩
  inCall _ _ hx := hx.inCall
  conclude g := by
    rw [respellFunction_same]
    exact raises_conclude g
  guarded {n s _} hx := hx.guarded (shows_perform n s)
  note hd := by
    rw [hd.eq]
    exact raises_update fun _ => ⟨rfl, rfl⟩

end Rules

end Watched

namespace Eval

/-- Statements at top level keep their failures to themselves. -/
theorem topLevel_ne_failed : ∀ (n : Nat) (ss : List Stmt) (m t : Machine) (d : Diagnostic),
    (topLevel n ss : Eval Unit) m ≠ .failed d t
  | 0, _, _, _, _ => by rintro ⟨⟩
  | _ + 1, [], _, _, _ => by rintro ⟨⟩
  | n + 1, s :: ss, m, t, d => by
    have hrest := topLevel_ne_failed n ss
    cases hs : s.function? with
    | some g =>
      rw [topLevel_function hs]
      exact hrest m t d
    | none =>
      rw [topLevel_cons hs, Effect.bind_apply]
      cases hr : (stmt n s : Eval Unit) m with
      | done _ u =>
        simp only [step_bind]
        generalize u.takeSignal.1 = g
        cases g with
        | none => exact hrest _ _ _
        | some => rintro ⟨⟩
      | failed => exact absurd hr (stmt_ne_failed n s _ _ _)
      | exhausted => rintro ⟨⟩

end Eval

/-! ## Refused calls are reported -/

theorem Event.Moves.report_grows {e : Event} {a b : Phase} (h : e.Moves a b) :
    ∀ d ∈ e.source.report.toList, d ∈ e.target.report.toList := by
  have hpush : ∀ {m : Machine} {d' : Diagnostic}, ∀ d ∈ m.report.toList,
      d ∈ (m.note d').report.toList := fun d hd => by
    simp only [Machine.note, Report.push, Report.toList, Array.toList_push]
    exact List.mem_append_left _ hd
  cases h with
  | rests _ hr | acts hr => exact fun d hd => hr ▸ hd
  | reports | stops | notes => exact hpush
  | passes h =>
    cases e with
    | steps => exact fun d hd => h.2.1 ▸ hd
    | _ => exact fun _ hd => hd
  | _ => exact fun _ hd => hd

theorem Passage.report_grows {a b : Phase} {es : List Event} {m t : Machine}
    (h : Passage a es b) (hpath : Path m es t) : ∀ d ∈ m.report.toList, d ∈ t.report.toList := by
  induction hpath generalizing a with
  | nil => exact fun _ hd => hd
  | cons _ ih =>
    obtain ⟨_, hm, h⟩ := h.head
    exact fun d hd => ih h d (hm.report_grows d hd)

theorem Path.tail {e : Event} {m t : Machine} {es : List Event} (h : Path m (e :: es) t) :
    Path e.target es t := by
  cases h with
  | cons h => exact h

namespace Program

variable {p : Program}

/-- A failure is in the report at the end. -/
theorem fails_reported (hclean : p.analyze.report.isEmpty = true) (hproper : p.Proper)
    {fuel limit : Nat} {j : Job} {d : Diagnostic} {m : Machine}
    (h : .fails j d m ∈ p.history fuel limit) : d ∈ (p.record fuel limit).last.report.toList := by
  obtain ⟨before, after, heq⟩ := List.append_of_mem h
  have hpassage := p.history_passage hclean hproper fuel limit
  have hpath := (p.record fuel limit).path
  rw [← history, heq] at hpath
  rw [heq] at hpassage
  obtain ⟨-, es, s, callers, t, rest, hsplit, -⟩ := hpassage.reported hpath
  rw [hsplit, ← List.append_assoc] at hpassage hpath
  obtain ⟨_, -, hpassage⟩ := hpassage.split
  obtain ⟨_, -, hpassage⟩ := hpassage.head
  obtain ⟨_, -, hpassage⟩ := hpassage.head
  refine hpassage.report_grows hpath.after.tail d ?_
  simp [Event.target, Machine.note, Report.push, Report.toList]

theorem loaded_raise (p : Program) (n l : Nat) : p.loaded l = (p.loaded n).raise l := by
  have hregister : ∀ (m : Machine) (f : Function),
      (m.raise l).register f = (m.register f).raise l := fun m f => by
    simp only [Machine.register, Machine.register?]
    rw [show (m.raise l).functions = m.functions from rfl]
    cases m.functions.has f.name <;> rfl
  change p.functions.foldl Machine.register ((Machine.fresh n).raise l) = _
  exact List.foldl_hom (Machine.raise l) hregister

theorem loaded_limit (p : Program) (n : Nat) : (p.loaded n).limit = n := by
  rw [p.loaded_eq n]
  rfl

/-- In every run, at every moment, no more calls run than the limit says. -/
theorem depth_kept (p : Program) (fuel n : Nat) : (p.record fuel n).last.depth ≤ n ∧
    ∀ e ∈ p.history fuel n, e.source.depth ≤ n ∧ e.target.depth ≤ n := by
  have hloaded : Watched.Bounded n (p.loaded n) := by
    rw [p.loaded_eq n]
    exact ⟨rfl, n.zero_le⟩
  obtain ⟨hlast, hevents⟩ := (Machine.invariant_bounded n).history hloaded fuel
  exact ⟨hlast.2, fun e he => ⟨(hevents e he).1.2, (hevents e he).2.2⟩⟩

/-- A run in which no call is refused is the run under every greater limit. -/
theorem execute_raise {p : Program} (hclean : p.analyze.report.isEmpty = true) (hproper : p.Proper)
    {fuel n l : Nat} {t : Machine} (hle : n ≤ l) (h : p.execute fuel n = some t)
    (hno : ∀ d ∈ t.report.toList, ¬ d.Refuses) : p.execute fuel l = some (t.raise l) := by
  have hlast : (p.record fuel n).last = t := by
    rw [p.execute_eq] at h
    obtain ⟨_, -, rfl⟩ := Option.map_eq_some_iff.1 h
    rfl
  have hevents : ∀ e ∈ p.history fuel n, ¬ e.Refuses := by
    rintro _ he ⟨j, d, m, rfl, hd⟩
    exact hno d (hlast ▸ fails_reported hclean hproper he) hd
  have hraise := (Watched.respected_raises l).topLevel fuel p.body [] (p.loaded n)
    ((p.loaded_limit n).trans_le hle) hevents
  rw [show Stmt.respell .same = id from funext Stmt.respell_same, List.map_id,
    Watched.run_topLevel, ← loaded_raise] at hraise
  unfold execute at h ⊢
  generalize hr : (Eval.topLevel fuel p.body : Eval Unit) (p.loaded n) = r,
    (Eval.topLevel fuel p.body : Eval Unit) (p.loaded l) = r' at h hraise ⊢
  cases hraise with
  | done => cases h; rfl
  | failed => cases h; rfl
  | refused => exact absurd hr (Eval.topLevel_ne_failed _ _ _ _ _)
  | exhausted => cases h

end Program

namespace Session

/-- The limit of calls only ever refuses. In every run, at every moment, no more calls run than it
says, and a source that runs without a refused call runs in the same way under every greater
limit. -/
theorem limit_refuses (n : Nat) :
    (∀ (p : Program) (fuel : Nat), (p.record fuel n).last.depth ≤ n ∧
      ∀ e ∈ p.history fuel n, e.source.depth ≤ n ∧ e.target.depth ≤ n) ∧
    ∀ (source : String) (fuel l : Nat) (s : Session), n ≤ l → run fuel n source = some s →
      s.ran = true → (∀ d ∈ s.report.toList, ∀ k, d.fault ≠ .callDepthExceeded k) →
      run fuel l source = some s := by
  refine ⟨fun p fuel => p.depth_kept fuel n, fun source fuel l s hle h hran hno => ?_⟩
  unfold run at h ⊢
  cases hp : Program.ofSource source with
  | error d => simpa only [hp] using h
  | ok p =>
    simp only [hp] at h ⊢
    split at h
    · rename_i hclean
      obtain ⟨t, ht, rfl⟩ := Option.map_eq_some_iff.1 h
      have hraise := Program.execute_raise hclean (Program.proper_of_ofSource hp) hle ht
        fun d hd hcall => hcall.elim (hno d hd)
      rw [if_pos hclean, hraise]
      rfl
    · rw [if_neg ‹_›]
      exact h

/-- A function that calls itself once, under a limit that just lets it. -/
theorem limit_refuses_recursive :
    let source := "void f(int n) \x7b if (n > 0) \x7b f(n - 1); \x7d \x7d start f(1);"
    ∃ s, run 20 2 source = some s ∧ s.ran = true ∧ run 20 9 source = some s := by
  intro source
  have hrun : (run 20 2 source).any (fun s => s.ran && s.report.toList.isEmpty) = true := by
    decide +kernel
  obtain ⟨s, hs, hclean⟩ := (Option.any_eq_true ..).1 hrun
  obtain ⟨hran, hreport⟩ := Bool.and_eq_true_iff.1 hclean
  refine ⟨s, hs, hran, (limit_refuses 2).2 source 20 9 s (by decide) hs hran fun d hd => ?_⟩
  rw [List.isEmpty_iff.1 hreport] at hd
  cases hd

end Session

end Primer
