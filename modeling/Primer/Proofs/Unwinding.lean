import Primer.Proofs.Watch

/-!
# A failure on its way

Between the place where a failure comes up and the statement at top level that reports it, the
notes of a run only leave what was entered (`Event.Unwinds`). Which notes may follow is told by a
small automaton (`Event.Moves`): its phase is what the machine alone does not show, that a failure
is on its way, or that a report has to come next. A history that leads back to rest delivers every
failure (`Passage.delivered`), and what calls report on the way are jumps that nothing took
(`Passage.unconsumed`).
-/

namespace Primer

open Machine (unconsumed)

/-! ## Steps that assign nothing -/

/-- What a step does to the variables if it assigns none: frames are opened, left, set aside by a
call and put back, and a name is declared where it is free. -/
inductive Scopes.Shifts (callers : List Caller) (s : Scopes Symbol) : Scopes Symbol → Prop
  | same {t} (hg : t.globals = s.globals) (hf : t.frames = s.frames) : Shifts callers s t
  | opened {t} (hg : t.globals = s.globals) (hf : t.frames = [] :: s.frames) : Shifts callers s t
  | left {t} (hg : t.globals = s.globals) (hf : t.frames = s.frames.tail) : Shifts callers s t
  | called {t caller} (hc : caller ∈ callers.head?) (hs : caller.detached.frames = s.frames)
    (hg : t.globals = s.globals) (hf : t.frames = [[]]) : Shifts callers s t
  | returned {t caller} (hc : caller ∈ callers.head?) (hg : t.globals = s.globals)
    (hf : t.frames = caller.detached.frames) : Shifts callers s t
  | declared {name symbol} (h : s.declaredHere name = false) : Shifts callers s (s.add name symbol)

/-- A step prints nothing, assigns to no variable and changes no container. -/
structure Machine.Rests (callers : List Caller) (m t : Machine) : Prop where
  output : t.output = m.output
  scopes : m.scopes.Shifts callers t.scopes
  store : ∀ i < m.store.cells.size, t.store.cells[i]? = m.store.cells[i]?

namespace Machine

variable {callers : List Caller} {m : Machine}

theorem rests_of_eq {t : Machine} (ho : t.output = m.output) (hs : t.scopes = m.scopes)
    (hc : t.store = m.store) : m.Rests callers t :=
  ⟨ho, .same (by rw [hs]) (by rw [hs]), fun _ _ => by rw [hc]⟩

theorem rests_note {d : Diagnostic} : m.Rests callers (m.note d) := rests_of_eq rfl rfl rfl

theorem rests_enterCall {name : String} :
    m.Rests ((m.enterCall name).1 :: callers) (m.enterCall name).2 :=
  ⟨rfl, .called rfl rfl rfl rfl, fun _ _ => rfl⟩

theorem rests_leaveCall {caller : Caller} : m.Rests (caller :: callers) (m.leaveCall caller) :=
  ⟨rfl, .returned rfl rfl rfl, fun _ _ => rfl⟩

end Machine

/-- A statement stands in the header of a loop. -/
inductive Stmt.HeaderOf (s : Stmt) : Stmt → Prop
  | first {span test next body} : HeaderOf s (.forLoop span (some s) test next body)
  | next {span first test body} : HeaderOf s (.forLoop span first test (some s) body)

/-- What is noted while a failure is on its way, the failing jobs apart. A statement that ends
leaves the failure to the call it runs in. -/
def Event.Passes (d : Diagnostic) : Event → Prop
  | .steps callers m t => m.Rests callers t ∧ t.report = m.report ∧ t.depth ≤ m.depth
  | .enters j _ => j = .failCall d
  | .gives (.stmt _) _ t => t.failure = some d ∧ 0 < t.depth
  | .gives (.failCall _) _ t => t.failure = some d ∧ 0 < t.depth
  | _ => False

/-- What is noted while a failure is on its way to a statement. No statement outside the calls
fails before, but in the header of a loop. -/
def Event.Unwinds (d : Diagnostic) (s : Stmt) (e : Event) : Prop :=
  e.Passes d ∨ ∃ j t, e = .fails j d t ∧
    ∀ s', j = .stmt s' → t.depth = 0 → Relation.TransGen Stmt.HeaderOf s' s

/-! ## Phases -/

/-- How a run stands to its failures and reports. -/
inductive Phase where
  /-- Since the last job was noted, nothing has been assigned. -/
  | calm
  /-- Since the last job was noted, something may have been assigned. -/
  | acted
  /-- A call has reported a jump that nothing took, and ends. -/
  | ending (m : Machine)
  /-- A failure is on its way, from a statement outside the calls if one has failed last. -/
  | failing (d : Diagnostic) (last : Option Stmt)
  /-- A failure has reached its statement, and is reported next. -/
  | arriving (d : Diagnostic) (m : Machine)

/-- The notes that may come in a phase, with the phase they lead to. -/
inductive Event.Moves : Event → Phase → Phase → Prop
  | enters {j m} : Moves (.enters j m) .calm .calm
  | gives {j v m a} (ha : a = .calm ∨ a = .acted) : Moves (.gives j v m) a .calm
  | rests {callers m t} (h : m.Rests callers t) (hr : t.report = m.report) :
    Moves (.steps callers m t) .calm .calm
  | acts {callers m t} (hr : t.report = m.report) : Moves (.steps callers m t) .calm .acted
  | reports {callers m g o} :
    Moves (.steps callers m (m.note (unconsumed g o))) .calm (.ending (m.note (unconsumed g o)))
  | ends {caller callers m} :
    Moves (.steps (caller :: callers) m (m.leaveCall caller)) (.ending m) .calm
  | stops {callers m g o} (hm : m.depth = 0) :
    Moves (.steps callers m (m.note (unconsumed g o))) .calm .calm
  | fails {j d m a} (ha : a = .calm ∨ a = .failing d none)
    (hj : ∀ s, j = .stmt s → 0 < m.depth) : Moves (.fails j d m) a (.failing d none)
  | failsTop {s d m a b} (hm : m.depth = 0)
    (ha : a = .calm ∨ ∃ last, a = .failing d last ∧ ∀ s' ∈ last, s'.HeaderOf s)
    (hb : b = .failing d (some s) ∨ b = .arriving d m) : Moves (.fails (.stmt s) d m) a b
  | passes {e d last} (h : e.Passes d) : Moves e (.failing d last) (.failing d last)
  | notes {callers d m} (hm : m.depth = 0) :
    Moves (.steps callers m (m.note d)) (.arriving d m) .calm

namespace Event.Moves

variable {e : Event} {d : Diagnostic} {last : Option Stmt} {m : Machine} {b : Phase}

/-- What can come while a failure is on its way. -/
theorem of_failing (h : e.Moves (.failing d last) b) :
    e.Passes d ∧ b = .failing d last ∨
      (∃ j m, e = .fails j d m ∧ (∀ s, j = .stmt s → 0 < m.depth) ∧ last = none ∧
        b = .failing d none) ∨
      ∃ s m, e = .fails (.stmt s) d m ∧ m.depth = 0 ∧ (∀ s' ∈ last, s'.HeaderOf s) ∧
        (b = .failing d (some s) ∨ b = .arriving d m) := by
  cases h with
  | passes h => exact .inl ⟨h, rfl⟩
  | gives ha => simp at ha
  | fails ha hj =>
    obtain ha | ha := ha <;> cases ha
    exact .inr (.inl ⟨_, _, rfl, hj, rfl, rfl⟩)
  | failsTop hm ha hb =>
    obtain ha | ⟨_, ha, hlast⟩ := ha <;> cases ha
    exact .inr (.inr ⟨_, _, rfl, hm, hlast, hb⟩)

/-- A failure that comes up is as one that is on its way. -/
theorem on_way {a : Phase} {j : Job} (h : (Event.fails j d m).Moves a b) :
    a ≠ .acted ∧ ∃ last, (Event.fails j d m).Moves (.failing d last) b := by
  cases h with
  | fails ha hj => exact ⟨by rintro rfl; simp at ha, none, .fails (.inr rfl) hj⟩
  | failsTop hm ha hb =>
    obtain rfl | ⟨last, rfl, hlast⟩ := ha
    · exact ⟨by simp, none, .failsTop hm (.inr ⟨none, rfl, by simp⟩) hb⟩
    · exact ⟨by simp, last, .failsTop hm (.inr ⟨last, rfl, hlast⟩) hb⟩
  | passes h => exact h.elim

/-- A step in a call that reports something. -/
theorem of_report {a : Phase} {callers : List Caller} {t : Machine}
    (h : (Event.steps callers m t).Moves a b) (hm : 0 < m.depth) (hr : t.report ≠ m.report) :
    ∃ g o, t = m.note (unconsumed g o) ∧ b = .ending t := by
  cases h with
  | rests _ h | acts h => exact absurd h hr
  | reports => exact ⟨_, _, rfl, rfl⟩
  | ends => exact absurd rfl hr
  | stops h | notes h => omega
  | passes h => exact absurd h.2.1 hr

/-- What is added to the report in calls, and where they begin and end. -/
theorem report {a : Phase} (h : e.Moves a b) (he : 0 < e.source.depth ∨ 0 < e.target.depth) :
    e.target.report = e.source.report ∨
      ∃ g o, e.target.report = e.source.report.push (unconsumed g o) := by
  cases h with
  | rests _ hr => exact .inl hr
  | acts hr => exact .inl hr
  | reports => exact .inr ⟨_, _, rfl⟩
  | passes h =>
    cases e with
    | steps => exact .inl h.2.1
    | _ => exact .inl rfl
  | stops hm | notes hm => simp [Event.source, Event.target, Machine.note, hm] at he
  | _ => exact .inl rfl

end Event.Moves

/-- Notes that lead from one phase to another. -/
inductive Passage : Phase → List Event → Phase → Prop
  | nil {a : Phase} : Passage a [] a
  | cons {a b c : Phase} {e : Event} {es : List Event} (h : e.Moves a b) (h' : Passage b es c) :
    Passage a (e :: es) c

namespace Passage

variable {a b c : Phase} {es es' : List Event} {e : Event} {d : Diagnostic} {m t : Machine}

theorem single (h : e.Moves a b) : Passage a [e] b := .cons h .nil

theorem append (h : Passage a es b) (h' : Passage b es' c) : Passage a (es ++ es') c := by
  induction h with
  | nil => exact h'
  | cons h _ ih => exact .cons h (ih h')

theorem split : ∀ {es : List Event} {a : Phase}, Passage a (es ++ es') c →
    ∃ b, Passage a es b ∧ Passage b es' c
  | [], a, h => ⟨a, .nil, h⟩
  | _ :: _, _, .cons h h' =>
    have ⟨b, hb, hc⟩ := split h'
    ⟨b, .cons h hb, hc⟩

theorem head (h : Passage a (e :: es) c) : ∃ b, e.Moves a b ∧ Passage b es c := by
  cases h with
  | cons h h' => exact ⟨_, h, h'⟩

/-- What has arrived is reported. -/
theorem noted (h : Passage (.arriving d m) es .calm) :
    ∃ callers rest, es = .steps callers m (m.note d) :: rest := by
  cases h with
  | cons h _ =>
    cases h with
    | notes => exact ⟨_, _, rfl⟩
    | gives ha => simp at ha
    | fails ha => simp at ha
    | failsTop _ ha => simp at ha

/-- A call that has reported a jump ends. -/
theorem ended (h : Passage (.ending m) es .calm) :
    ∃ caller callers rest, es = .steps (caller :: callers) m (m.leaveCall caller) :: rest := by
  cases h with
  | cons h _ =>
    cases h with
    | ends => exact ⟨_, _, _, rfl⟩
    | gives ha => simp at ha
    | fails ha => simp at ha
    | failsTop _ ha => simp at ha

/-- A failure is delivered: a statement outside the calls fails with it and it is reported, and
before that all is unwound. -/
theorem delivered {last : Option Stmt} (h : Passage (.failing d last) es .calm) :
    ∃ es' s callers t rest,
      es = es' ++ .fails (.stmt s) d t :: .steps callers t (t.note d) :: rest ∧
      t.depth = 0 ∧ (∀ e ∈ es', e.Unwinds d s) ∧
      ∀ s' ∈ last, Relation.TransGen Stmt.HeaderOf s' s := by
  induction es generalizing last with
  | nil => cases h
  | cons e es ih =>
    obtain ⟨b, hm, h⟩ := h.head
    rcases hm.of_failing with ⟨he, rfl⟩ | ⟨j, u, rfl, hj, rfl, rfl⟩ |
      ⟨s', u, rfl, hu, hheader, rfl | rfl⟩
    · obtain ⟨es', s, callers, t, rest, rfl, ht, hes, hlast⟩ := ih h
      exact ⟨e :: es', s, callers, t, rest, rfl, ht,
        List.forall_mem_cons.2 ⟨.inl he, hes⟩, hlast⟩
    · obtain ⟨es', s, callers, t, rest, rfl, ht, hes, -⟩ := ih h
      refine ⟨_ :: es', s, callers, t, rest, rfl, ht,
        List.forall_mem_cons.2 ⟨.inr ⟨j, u, rfl, fun s' hs hd => ?_⟩, hes⟩, by simp⟩
      have := hj s' hs
      omega
    · obtain ⟨es', s, callers, t, rest, rfl, ht, hes, hlast⟩ := ih h
      have hs := hlast s' rfl
      refine ⟨_ :: es', s, callers, t, rest, rfl, ht,
        List.forall_mem_cons.2 ⟨.inr ⟨_, u, rfl, ?_⟩, hes⟩, fun r hr => .head (hheader r hr) hs⟩
      rintro _ ⟨⟩ -
      exact hs
    · obtain ⟨callers, rest, rfl⟩ := h.noted
      exact ⟨[], s', callers, u, rest, rfl, hu, by simp, fun r hr => .single (hheader r hr)⟩

/-- Where a failure can come up, nothing has been assigned since the last job was noted. -/
theorem rests (h : Passage a es b) (hb : b ≠ .acted)
    (hes : ∀ e ∈ es, ∃ callers m t, e = .steps callers m t) :
    ∀ callers m t, .steps callers m t ∈ es → m.Rests callers t := by
  induction h with
  | nil => simp
  | @cons a a' b e es hm h ih =>
    obtain ⟨⟨callers, m, t, rfl⟩, hrest⟩ := List.forall_mem_cons.1 hes
    have hfirst : m.Rests callers t := by
      cases hm with
      | rests hrests => exact hrests
      | acts =>
        -- Only the end of the job leads on from here, and no job is noted.
        cases h with
        | nil => exact absurd rfl hb
        | cons h' _ =>
          obtain ⟨_, _, _, rfl⟩ := hrest _ List.mem_cons_self
          cases h'
      | ends => exact Machine.rests_leaveCall
      | passes hpasses => exact hpasses.1
      | reports | stops | notes => exact Machine.rests_note
    rintro callers' m' t' hin
    rcases List.mem_cons.1 hin with hin | hin
    · cases hin
      exact hfirst
    · exact ih hb hrest _ _ _ hin

/-- What is reported in calls is jumps that nothing took. -/
theorem unconsumed (h : Passage a es b) (hpath : Path m es t)
    (hes : ∀ e ∈ es, 0 < e.source.depth ∨ 0 < e.target.depth) :
    ∃ ds, t.report = m.report.append ds ∧ ∀ d ∈ ds, ∃ g o, d = Machine.unconsumed g o := by
  induction hpath generalizing a with
  | nil => exact ⟨[], by simp [Report.append], by simp⟩
  | @cons e es t hpath ih =>
    obtain ⟨a', hm, h⟩ := h.head
    obtain ⟨he, hes⟩ := List.forall_mem_cons.1 hes
    obtain ⟨ds, hds, hall⟩ := ih h hes
    rcases hm.report he with hr | ⟨g, o, hr⟩
    · exact ⟨ds, by rw [hds, hr], hall⟩
    · refine ⟨Machine.unconsumed g o :: ds, ?_, List.forall_mem_cons.2 ⟨⟨g, o, rfl⟩, hall⟩⟩
      rw [hds, hr]
      simp [Report.append, Report.push]

end Passage

theorem Event.Unwinds.report {e : Event} {d : Diagnostic} {s : Stmt} (h : e.Unwinds d s) :
    e.target.report = e.source.report := by
  rcases h with h | ⟨j, t, rfl, -⟩
  · cases e with
    | steps => exact h.2.1
    | _ => rfl
  · rfl

namespace Path

variable {es es' : List Event} {e : Event} {m t u : Machine}

theorem split : ∀ {es : List Event} {m : Machine}, Path m (es ++ es') u →
    ∃ t, Path m es t ∧ Path t es' u
  | [], m, h => ⟨m, .nil, h⟩
  | _ :: _, _, .cons h =>
    have ⟨t, ht, hu⟩ := split h
    ⟨t, .cons ht, hu⟩

theorem source_eq (h : Path m (e :: es) t) : e.source = m := by
  cases h with
  | cons => rfl

/-- While a failure is on its way, nothing is reported. -/
theorem report_eq {d : Diagnostic} {s : Stmt} (h : Path m es t)
    (hes : ∀ e ∈ es, e.Unwinds d s) : t.report = m.report := by
  induction h with
  | nil => rfl
  | cons _ ih =>
    obtain ⟨he, hes⟩ := List.forall_mem_cons.1 hes
    exact (ih hes).trans he.report

end Path

/-! ## Histories -/

/-- Since the last job was noted, nothing has been assigned. -/
def Rested (before : List Event) : Prop :=
  ∀ es es', before = es ++ es' → (∀ e ∈ es', ∃ callers m t, e = .steps callers m t) →
    ∀ callers m t, .steps callers m t ∈ es' → m.Rests callers t

/-- All that is noted up to a statement outside the calls unwinds, and the statement fails with the
failure and reports it. There the report has grown, since the first of the calls that are left was
entered, by jumps that nothing took and last by the failure. -/
def Reported (before : List Event) (d : Diagnostic) (after : List Event) : Prop :=
  ∃ es s callers t rest, after = es ++ .fails (.stmt s) d t :: .steps callers t (t.note d) :: rest ∧
    t.depth = 0 ∧ (∀ e ∈ es, e.Unwinds d s) ∧
    ∀ es' callers m₀ m₁ es'', before = es' ++ .steps callers m₀ m₁ :: es'' →
      m₀.depth = 0 → 0 < m₁.depth → (∀ e ∈ es'', 0 < e.source.depth) →
      ∃ ds, (t.note d).report = m₀.report.append (ds ++ [d]) ∧
        ∀ u ∈ ds, ∃ g o, u = unconsumed g o

/-- A history that ends with nothing on its way reports every failure. -/
theorem Passage.reported {before after : List Event} {j : Job} {d : Diagnostic} {m t u : Machine}
    (h : Passage .calm (before ++ .fails j d m :: after) .calm)
    (hpath : Path t (before ++ .fails j d m :: after) u) :
    Rested before ∧ Reported before d (.fails j d m :: after) := by
  obtain ⟨a, hbefore, hafter⟩ := h.split
  obtain ⟨b, hmoves, hrest⟩ := hafter.head
  obtain ⟨ha, last, hway⟩ := hmoves.on_way
  obtain ⟨es, s, callers, v, rest, hsplit, hv, hes, -⟩ := (Passage.cons hway hrest).delivered
  refine ⟨?_, es, s, callers, v, rest, hsplit, hv, hes, ?_⟩
  · rintro es es' rfl hsteps
    obtain ⟨_, -, hes'⟩ := hbefore.split
    exact hes'.rests ha hsteps
  · rintro es' callers' m₀ m₁ es'' rfl - hm₁ hdepth
    obtain ⟨_, -, hcalls⟩ := hbefore.split
    obtain ⟨w, hbefore, hafter⟩ := hpath.split
    obtain ⟨_, -, hcallsPath⟩ := hbefore.split
    rw [hsplit] at hafter
    obtain ⟨_, hesPath, hlast⟩ := hafter.split
    obtain rfl := hlast.source_eq
    obtain rfl := hcallsPath.source_eq
    obtain ⟨ds, hds, hall⟩ := hcalls.unconsumed hcallsPath
      (List.forall_mem_cons.2 ⟨.inr hm₁, fun e he => .inl (hdepth e he)⟩)
    have hreport : v.report = w.report := hesPath.report_eq hes
    exact ⟨ds, by simp [Machine.note, hreport, hds, Report.append, Report.push, Event.source], hall⟩

end Primer
