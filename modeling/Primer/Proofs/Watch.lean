import Mathlib
import Primer.Machine.Execution

/-!
# Watching a run

A watched run notes every step of the machine, every job it enters and what came of it. The notes
stay when the fuel runs out, so they also tell what a run does that never ends.
-/

namespace Primer

/-- What a watched run notes. -/
inductive Event where
  /-- The machine changed, while the calls that have not ended have set their callers aside. -/
  | steps (callers : List Caller) (before after : Machine)
  | enters (job : Job) (m : Machine)
  | gives (job : Job) (result : job.Result) (m : Machine)
  | fails (job : Job) (d : Diagnostic) (m : Machine)

namespace Event

/-- The machine before what is noted. -/
def source : Event → Machine
  | steps _ m _ => m
  | enters _ m => m
  | gives _ _ m => m
  | fails _ _ m => m

/-- The machine after what is noted. -/
def target : Event → Machine
  | steps _ _ t => t
  | enters _ m => m
  | gives _ _ m => m
  | fails _ _ m => m

end Event

/-- Notes that lead from one machine to another, each from where the one before ended. -/
inductive Path : Machine → List Event → Machine → Prop
  | nil {m : Machine} : Path m [] m
  | cons {e : Event} {es : List Event} {t : Machine} (h : Path e.target es t) :
    Path e.source (e :: es) t

namespace Path

variable {m t u : Machine} {es es' : List Event}

theorem single (e : Event) : Path e.source [e] e.target := .cons .nil

theorem append (h : Path m es t) (h' : Path t es' u) : Path m (es ++ es') u := by
  induction h with
  | nil => exact h'
  | cons _ ih => exact .cons (ih h')

/-- The notes after one of them lead on from where it ended. -/
theorem after {e : Event} : ∀ {m : Machine} {es : List Event}, Path m (es ++ e :: es') u →
    Path e.target es' u
  | _, [], .cons h => h
  | _, _ :: es, .cons h => after h

end Path

/-- What is noted of a run, the machine it has come to, and what it gave, unless it is not over. -/
structure Record (m : Machine) (α : Type) where
  events : List Event
  last : Machine
  result : Option (Except Diagnostic α)
  path : Path m events last

/-- A computation that runs a program and notes what happens, given the callers set aside. -/
def Watched (α : Type) := List Caller → (m : Machine) → Record m α

namespace Watched

variable {α β : Type}

instance : Monad Watched where
  pure a := fun _ m => ⟨[], m, some (.ok a), .nil⟩
  bind x f := fun callers m =>
    let r := x callers m
    match r.result with
    | some (.ok a) =>
      let q := f a callers r.last
      ⟨r.events ++ q.events, q.last, q.result, r.path.append q.path⟩
    | some (.error d) => ⟨r.events, r.last, some (.error d), r.path⟩
    | none => ⟨r.events, r.last, none, r.path⟩

/-- The last note of a job that is over. -/
def closing (job : Job) (m : Machine) : Option (Except Diagnostic job.Result) → List Event
  | some (.ok a) => [.gives job a m]
  | some (.error d) => [.fails job d m]
  | none => []

theorem closing_path (job : Job) (m : Machine) (r : Option (Except Diagnostic job.Result)) :
    Path m (closing job m r) m := by
  rcases r with _ | _ | _
  · exact .nil
  · exact .single (.fails ..)
  · exact .single (.gives ..)

instance : Runs Watched where
  exhausted := fun _ m => ⟨[], m, none, .nil⟩
  look f := fun _ m => ⟨[], m, some (f m), .nil⟩
  step f := fun callers m =>
    ⟨[.steps callers m (f m).2], (f m).2, some (.ok (f m).1), .single (.steps ..)⟩
  attempt x := fun callers m =>
    let r := x callers m
    ⟨r.events, r.last, r.result.map .ok, r.path⟩
  within job x := fun callers m =>
    let r := x callers m
    ⟨.enters job m :: (r.events ++ closing job r.last r.result), r.last, r.result,
      .cons (e := .enters job m) (r.path.append (closing_path ..))⟩
  aside caller x := fun callers => x (caller :: callers)

/-- A watched computation keeps to what `E` says of its notes, and ends as `Q` says or fails as
`F` says. -/
def Meets (E : Event → Prop) (x : Watched α) (callers : List Caller) (m : Machine)
    (Q : α → Machine → Prop) (F : Diagnostic → Machine → Prop) : Prop :=
  (∀ e ∈ (x callers m).events, E e) ∧
    match (x callers m).result with
    | some (.ok a) => Q a (x callers m).last
    | some (.error d) => F d (x callers m).last
    | none => True

section Rules

variable {E E' : Event → Prop} {callers : List Caller} {m : Machine} {x : Watched α}
  {Q Q' : α → Machine → Prop} {F F' : Diagnostic → Machine → Prop}

theorem Meets.mono (h : Meets E x callers m Q F) (hE : ∀ e, E e → E' e)
    (hQ : ∀ a t, Q a t → Q' a t) (hF : ∀ d t, F d t → F' d t) :
    Meets E' x callers m Q' F' := by
  obtain ⟨he, ho⟩ := h
  refine ⟨fun e h => hE e (he e h), ?_⟩
  split at ho
  · exact hQ _ _ ho
  · exact hF _ _ ho
  · trivial

theorem Meets.imp (h : Meets E x callers m Q F) (hQ : ∀ a t, Q a t → Q' a t)
    (hF : ∀ d t, F d t → F' d t) : Meets E x callers m Q' F' :=
  h.mono (fun _ h => h) hQ hF

theorem Meets.and (h : Meets E x callers m Q F) (h' : Meets E' x callers m Q' F') :
    Meets (fun e => E e ∧ E' e) x callers m (fun a t => Q a t ∧ Q' a t)
      (fun d t => F d t ∧ F' d t) := by
  refine ⟨fun e he => ⟨h.1 e he, h'.1 e he⟩, ?_⟩
  have ho := h.2
  have ho' := h'.2
  split at ho <;> simp_all

theorem meets_pure {a : α} (h : Q a m) : Meets E (pure a) callers m Q F :=
  ⟨by simp [pure], h⟩

theorem meets_exhausted : Meets E (Runs.exhausted : Watched α) callers m Q F :=
  ⟨by simp [Runs.exhausted], trivial⟩

theorem Meets.bind {f : α → Watched β} {Q : β → Machine → Prop} {R : α → Machine → Prop}
    (hx : Meets E x callers m R F) (hf : ∀ a t, R a t → Meets E (f a) callers t Q F) :
    Meets E (x >>= f) callers m Q F := by
  obtain ⟨he, ho⟩ := hx
  simp only [Meets, Bind.bind]
  split at ho <;> simp only
  · obtain ⟨hfe, hfo⟩ := hf _ _ ho
    refine ⟨fun e h => ?_, hfo⟩
    rcases List.mem_append.1 h with h | h
    · exact he e h
    · exact hfe e h
  · exact ⟨he, ho⟩
  · exact ⟨he, trivial⟩

theorem meets_look {f : Machine → Except Diagnostic α} (hok : ∀ a, f m = .ok a → Q a m)
    (herr : ∀ d, f m = .error d → F d m) : Meets E (Runs.look f) callers m Q F := by
  simp only [Meets, Runs.look]
  rcases h : f m with d | a
  · exact ⟨by simp, herr d h⟩
  · exact ⟨by simp, hok a h⟩

theorem meets_step {f : Machine → α × Machine} (hE : E (.steps callers m (f m).2))
    (hQ : Q (f m).1 (f m).2) : Meets E (Runs.step f) callers m Q F :=
  ⟨by simpa [Runs.step] using hE, hQ⟩

theorem meets_attempt {Q : Except Diagnostic α → Machine → Prop}
    (h : Meets E x callers m (fun a t => Q (.ok a) t) (fun d t => Q (.error d) t)) :
    Meets E (Runs.attempt x) callers m Q F := by
  obtain ⟨he, ho⟩ := h
  simp only [Meets, Runs.attempt]
  split at ho <;> rename_i hr <;> simp only [hr] <;> exact ⟨he, ho⟩

theorem meets_within {j : Job} {x : Watched j.Result} {Q : j.Result → Machine → Prop}
    (hE : E (.enters j m)) (h : Meets E x callers m (fun a t => E (.gives j a t) ∧ Q a t)
      (fun d t => E (.fails j d t) ∧ F d t)) : Meets E (Runs.within j x) callers m Q F := by
  obtain ⟨he, ho⟩ := h
  simp only [Meets, Runs.within]
  split at ho <;> rename_i hr <;> simp only [hr, closing]
  · exact ⟨by simpa using ⟨hE, fun e h => h.elim (he e) (· ▸ ho.1)⟩, ho.2⟩
  · exact ⟨by simpa using ⟨hE, fun e h => h.elim (he e) (· ▸ ho.1)⟩, ho.2⟩
  · exact ⟨by simpa using ⟨hE, he⟩, trivial⟩

theorem meets_aside {caller : Caller} (h : Meets E x (caller :: callers) m Q F) :
    Meets E (Runs.aside caller x) callers m Q F := h

theorem meets_fail {d : Diagnostic} (h : F d m) :
    Meets E (Eval.fail d : Watched α) callers m Q F :=
  meets_look (by simp) (by simpa using h)

theorem meets_read {f : Machine → α} (h : Q (f m) m) : Meets E (Eval.read f) callers m Q F :=
  meets_look (by simpa using h) (by simp)

theorem meets_update {f : Machine → Machine} {Q : Unit → Machine → Prop}
    (hE : E (.steps callers m (f m))) (hQ : Q () (f m)) :
    Meets E (Eval.update f) callers m Q F :=
  meets_step hE hQ

theorem meets_ofResult {r : Except Diagnostic α} (hok : ∀ a, r = .ok a → Q a m)
    (herr : ∀ d, r = .error d → F d m) : Meets E (Eval.ofResult r) callers m Q F := by
  cases r with
  | ok a => exact meets_pure (hok a rfl)
  | error d => exact meets_fail (herr d rfl)

theorem meets_ofExcept {p : Position} {r : Except Fault α} (hok : ∀ a, r = .ok a → Q a m)
    (herr : ∀ f, r = .error f → F ⟨f, p⟩ m) : Meets E (Eval.ofExcept p r) callers m Q F := by
  cases r with
  | ok a => exact meets_pure (hok a rfl)
  | error f => exact meets_fail (herr f rfl)

theorem meets_ofOption {p : Position} {fault : Fault} {r : Option α}
    (hok : ∀ a, r = some a → Q a m) (herr : r = none → F ⟨fault, p⟩ m) :
    Meets E (Eval.ofOption p fault r) callers m Q F := by
  cases r with
  | some a => exact meets_pure (hok a rfl)
  | none => exact meets_fail (herr rfl)

theorem meets_ask {p : Position} {f : Store → Except Fault α}
    (hok : ∀ a, f m.store = .ok a → Q a m)
    (herr : ∀ fault, f m.store = .error fault → F ⟨fault, p⟩ m) :
    Meets E (Eval.ask p f) callers m Q F := by
  refine meets_look (fun a h => ?_) fun d h => ?_ <;> split at h <;> cases h
  · exact hok _ ‹_›
  · exact herr _ ‹_›

theorem meets_onStore {f : Store → α × Store}
    (hE : E (.steps callers m { m with store := (f m.store).2 }))
    (hQ : Q (f m.store).1 { m with store := (f m.store).2 }) :
    Meets E (Eval.onStore f) callers m Q F :=
  meets_step hE hQ

theorem meets_edit {p : Position} {f : Store → Except Fault (α × Edit)}
    (hok : ∀ a e, f m.store = .ok (a, e) →
      E (.steps callers m { m with store := e.apply m.store }) ∧
        Q a { m with store := e.apply m.store })
    (herr : ∀ fault, f m.store = .error fault → F ⟨fault, p⟩ m) :
    Meets E (Eval.edit p f) callers m Q F := by
  refine Meets.bind (R := fun r t => t = m ∧ f m.store = .ok r)
    (meets_ask (fun a h => ⟨rfl, h⟩) herr) ?_
  rintro ⟨a, e⟩ t ⟨rfl, h⟩
  obtain ⟨hE, hQ⟩ := hok a e h
  exact Meets.bind (R := fun _ u => Q a u) (meets_update hE hQ) fun _ _ hu => meets_pure hu

/-- A free name is declared, and one that is taken is refused. -/
theorem meets_declare {name : String} {ty : Ty} {category : Category} {p : Position}
    {value : Option Value} {Q : Unit → Machine → Prop}
    (hfree : m.scopes.declaredHere name = false →
      E (.steps callers m (m.introduce name ty category p value)) ∧
        Q () (m.introduce name ty category p value))
    (htaken : m.scopes.declaredHere name = true → F ⟨.duplicateDeclaration name, p⟩ m) :
    Meets E (Eval.declare name ty category p value) callers m Q F := by
  refine Meets.bind (R := fun _ t => t = m ∧ m.scopes.declaredHere name = false)
    (meets_look (fun _ h => ?_) fun d h => ?_) ?_
  · simp only [Scopes.checkFree] at h
    split at h
    · cases h
    · exact ⟨rfl, Bool.eq_false_iff.2 ‹_›⟩
  · simp only [Scopes.checkFree] at h
    split at h <;> cases h
    exact htaken ‹_›
  · rintro _ t ⟨rfl, h⟩
    exact meets_update (hfree h).1 (hfree h).2

/-- What holds where an attempt has ended: `Q` of its value or `F` of its failure. -/
def Attempted (Q : α → Machine → Prop) (F : Diagnostic → Machine → Prop) :
    Except Diagnostic α → Machine → Prop
  | .ok a => Q a
  | .error d => F d

theorem meets_between {enter leave : Machine → Machine} (hE : E (.steps callers m (enter m)))
    (hx : Meets E x callers (enter m)
      (fun a t => E (.steps callers t (leave t)) ∧ Q a (leave t))
      (fun d t => E (.steps callers t (leave t)) ∧ F d (leave t))) :
    Meets E (Eval.between enter leave x) callers m Q F := by
  refine Meets.bind (R := fun _ t => t = enter m) (meets_update hE rfl) ?_
  rintro _ t rfl
  refine Meets.bind (R := Attempted (fun a t => E (.steps callers t (leave t)) ∧ Q a (leave t))
    fun d t => E (.steps callers t (leave t)) ∧ F d (leave t)) (meets_attempt hx) ?_
  rintro (d | a) t ⟨hs, hr⟩
  · refine Meets.bind (R := fun _ u => u = leave t) (meets_update hs rfl) ?_
    rintro _ u rfl
    exact meets_fail hr
  · refine Meets.bind (R := fun _ u => u = leave t) (meets_update hs rfl) ?_
    rintro _ u rfl
    exact meets_pure hr

theorem meets_inCall {name : String} {p : Position}
    (hfull : m.mayCall = false → F ⟨.callDepthExceeded m.limit, p⟩ m)
    (hE : m.mayCall = true → E (.steps ((m.enterCall name).1 :: callers) m (m.enterCall name).2))
    (hx : m.mayCall = true → Meets E x ((m.enterCall name).1 :: callers) (m.enterCall name).2
      (fun a t =>
        E (.steps ((m.enterCall name).1 :: callers) t (t.leaveCall (m.enterCall name).1)) ∧
        Q a (t.leaveCall (m.enterCall name).1))
      (fun d t =>
        E (.steps ((m.enterCall name).1 :: callers) t (t.leaveCall (m.enterCall name).1)) ∧
        F d (t.leaveCall (m.enterCall name).1))) :
    Meets E (Eval.inCall name p x) callers m Q F := by
  refine Meets.bind (R := fun c t => t = m ∧ m.mayCall = true ∧ c = (m.enterCall name).1)
    (meets_look (fun c h => ?_) fun d h => ?_) ?_
  · split at h <;> cases h
    exact ⟨rfl, ‹_›, rfl⟩
  · split at h <;> cases h
    exact hfull (Bool.eq_false_iff.2 ‹_›)
  · rintro c t ⟨rfl, hm, rfl⟩
    exact meets_aside (meets_between (hE hm) (hx hm))

/-- A failure that reaches a statement is kept for the running call, or reported. -/
theorem meets_guarded {x : Watched Unit} {Q : Unit → Machine → Prop}
    (hx : Meets E x callers m Q fun d t =>
      (t.inCall = true → E (.enters (.failCall d) t) ∧ E (.steps callers t (t.fail d)) ∧
        E (.gives (.failCall d) () (t.fail d)) ∧ Q () (t.fail d)) ∧
      (t.inCall = false → E (.steps callers t (t.note d)) ∧ Q () (t.note d))) :
    Meets E (Eval.guarded x) callers m Q F := by
  refine Meets.bind (R := Attempted Q fun d t =>
    (t.inCall = true → E (.enters (.failCall d) t) ∧ E (.steps callers t (t.fail d)) ∧
      E (.gives (.failCall d) () (t.fail d)) ∧ Q () (t.fail d)) ∧
    (t.inCall = false → E (.steps callers t (t.note d)) ∧ Q () (t.note d)))
    (meets_attempt hx) ?_
  rintro (d | _) t h
  · refine Meets.bind (R := fun b u => u = t ∧ b = t.inCall) (meets_read ⟨rfl, rfl⟩) ?_
    rintro b u ⟨rfl, rfl⟩
    split
    · obtain ⟨hen, hst, hgi, hq⟩ := h.1 ‹_›
      exact meets_within hen (meets_update hst ⟨hgi, hq⟩)
    · obtain ⟨hst, hq⟩ := h.2 (Bool.eq_false_iff.2 ‹_›)
      exact meets_update hst hq
  · exact meets_pure h

end Rules

end Watched

end Primer
