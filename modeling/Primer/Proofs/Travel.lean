import Primer.Proofs.Signals
import Primer.Proofs.Balance
import Primer.Proofs.Unwinding

/-!
# Where computations leave a failure

Every computation leads from one phase to another (`Travels`). The computation of a value leads
from calm to calm, or fails with its failure on the way (`Computes`); a statement may also leave a
failure to the call it runs in (`Works`). All rests on names being declared where they are free, for
a variable whose value fails is declared with its default before the failure goes on, and that must
not fail as well.
-/

namespace Primer

/-- Statements are those of the grammar, and names are declared where they are free. -/
def Event.Legal : Event → Prop
  | .enters (.stmt s) m => s.Proper ∧
    ∀ span name ty value, s = .declare span name ty value → m.scopes.declaredHere name = false
  | _ => True

/-- A step rests, and changes nothing that matters for failures either. -/
structure Machine.Idles (callers : List Caller) (m t : Machine) : Prop extends
    m.Rests callers t where
  report : t.report = m.report
  failure : t.failure = m.failure
  depth : t.depth = m.depth

namespace Phase

/-- Nothing is on its way. -/
def Idle (b : Phase) (t : Machine) : Prop := b = .calm ∧ t.failure = none

/-- Nothing is on its way, but something may have been assigned. -/
def Acted (b : Phase) (t : Machine) : Prop := (b = .calm ∨ b = .acted) ∧ t.failure = none

/-- At most the failure of the running call is on its way. -/
def Awaits (b : Phase) (t : Machine) : Prop :=
  b.Idle t ∨ ∃ d, b = .failing d none ∧ t.failure = some d ∧ 0 < t.depth

/-- A call has come to its end. -/
def Ended (b : Phase) (t : Machine) : Prop := (b = .calm ∨ b = .ending t) ∧ t.failure = none

/-- A failure has come up, in a statement of a kind if one outside the calls has failed last. -/
def Carries (b : Phase) (d : Diagnostic) (H : Stmt → Prop) (t : Machine) : Prop :=
  (b = .calm ∨ ∃ last, b = .failing d last ∧ ∀ s ∈ last, H s ∧ t.depth = 0) ∧ t.failure = none

/-- Where a run is when a statement has failed, which outside the calls is reported or goes on. -/
def failed (s : Stmt) (reported : Bool) (d : Diagnostic) (t : Machine) : Phase :=
  if 0 < t.depth then .failing d none
  else if reported then .arriving d t
  else .failing d (some s)

section

variable {s : Stmt} {d : Diagnostic} {t : Machine}

theorem failed_in_call {reported : Bool} (h : 0 < t.depth) :
    failed s reported d t = .failing d none := if_pos h

theorem failed_reported (h : t.depth = 0) : failed s true d t = .arriving d t := by
  simp [failed, h]

theorem failed_handed (h : t.depth = 0) : failed s false d t = .failing d (some s) := by
  simp [failed, h]

end

variable {a b : Phase} {d : Diagnostic} {H : Stmt → Prop} {callers : List Caller} {m t : Machine}

theorem Awaits.idle (h : b.Awaits t) (hf : t.failure = none) : b.Idle t := by
  rcases h with h | ⟨d, -, hd, -⟩
  · exact h
  · rw [hf] at hd
    cases hd

theorem Awaits.moves (hb : b.Awaits m) (h : m.Idles callers t) :
    (Event.steps callers m t).Moves b b ∧ b.Awaits t := by
  obtain ⟨rfl, hf⟩ | ⟨d, rfl, hf, hd⟩ := hb
  · exact ⟨.rests h.toRests h.report, .inl ⟨rfl, h.failure.trans hf⟩⟩
  · exact ⟨.passes ⟨h.toRests, h.report, h.depth.le⟩,
      .inr ⟨d, rfl, h.failure.trans hf, h.depth ▸ hd⟩⟩

theorem Carries.moves (hb : b.Carries d H m) (h : m.Idles callers t) :
    (Event.steps callers m t).Moves b b ∧ b.Carries d H t := by
  obtain ⟨rfl | ⟨last, rfl, hlast⟩, hf⟩ := hb
  · exact ⟨.rests h.toRests h.report, .inl rfl, h.failure.trans hf⟩
  · exact ⟨.passes ⟨h.toRests, h.report, h.depth.le⟩,
      .inr ⟨last, rfl, fun s hs => ⟨(hlast s hs).1, h.depth.trans (hlast s hs).2⟩⟩,
      h.failure.trans hf⟩

theorem Carries.imp {H' : Stmt → Prop} (hb : b.Carries d H t) (h : ∀ s, H s → H' s) :
    b.Carries d H' t := by
  obtain ⟨rfl | ⟨last, rfl, hlast⟩, hf⟩ := hb
  · exact ⟨.inl rfl, hf⟩
  · exact ⟨.inr ⟨last, rfl, fun s hs => ⟨h s (hlast s hs).1, (hlast s hs).2⟩⟩, hf⟩

theorem Carries.calm_or_failing (hb : b.Carries d (fun _ => False) t) :
    b = .calm ∨ b = .failing d none := by
  obtain ⟨rfl | ⟨last, rfl, hlast⟩, -⟩ := hb
  · exact .inl rfl
  · cases last with
    | none => exact .inr rfl
    | some s => exact (hlast s rfl).1.elim

end Phase

namespace Machine

variable {callers : List Caller} {m : Machine}

theorem idles_enterScope : m.Idles callers m.enterScope :=
  ⟨⟨rfl, .opened rfl rfl, fun _ _ => rfl⟩, rfl, rfl, rfl⟩

theorem idles_leaveScope : m.Idles callers m.leaveScope :=
  ⟨⟨rfl, .left rfl rfl, fun _ _ => rfl⟩, rfl, rfl, rfl⟩

theorem idles_enterLabelled {label : String} : m.Idles callers (m.enterLabelled label) :=
  ⟨⟨rfl, .opened rfl rfl, fun _ _ => rfl⟩, rfl, rfl, rfl⟩

theorem idles_leaveLabelled : m.Idles callers m.leaveLabelled :=
  ⟨⟨rfl, .left rfl rfl, fun _ _ => rfl⟩, rfl, rfl, rfl⟩

theorem idles_enterConstruct {k : Construct} : m.Idles callers (m.enterConstruct k) :=
  ⟨rests_of_eq rfl rfl rfl, rfl, rfl, rfl⟩

theorem idles_leaveConstruct : m.Idles callers m.leaveConstruct :=
  ⟨rests_of_eq rfl rfl rfl, rfl, rfl, rfl⟩

theorem idles_signal {g : Option Signal} : m.Idles callers { m with signal := g } :=
  ⟨rests_of_eq rfl rfl rfl, rfl, rfl, rfl⟩

theorem exists_consume (m : Machine) (g : Signal) :
    ∃ g', (m.consume g).2 = { m with signal := g' } := by
  unfold consume
  repeat' split
  · exact ⟨none, rfl⟩
  · exact ⟨m.signal, rfl⟩
  · exact ⟨m.signal, rfl⟩

theorem idles_consume {g : Signal} : m.Idles callers (m.consume g).2 := by
  obtain ⟨g', hg⟩ := exists_consume m g
  exact hg ▸ idles_signal

theorem exists_continueLooping (m : Machine) :
    ∃ g, m.continueLooping.2 = { m with signal := g } := by
  obtain ⟨g, hg⟩ := exists_consume m .breakLoop
  unfold continueLooping
  split <;> rename_i t h <;> rw [h] at hg
  · exact ⟨g, hg⟩
  · obtain rfl : t = { m with signal := g } := hg
    exact exists_consume { m with signal := g } .continueLoop

theorem idles_continueLooping : m.Idles callers m.continueLooping.2 := by
  obtain ⟨g, hg⟩ := exists_continueLooping m
  exact hg ▸ idles_signal

/-- A loop goes on only if no failure is on its way. -/
theorem failure_continueLooping (h : m.continueLooping.1 = true) :
    m.continueLooping.2.failure = none := by
  unfold continueLooping at h ⊢
  split at h
  · cases h
  · exact (clean_of_pending (by simpa using h)).failure

theorem idles_takeReturn : m.Idles callers m.takeReturn.2 := by
  unfold takeReturn
  split
  · exact idles_signal
  · exact idles_signal (g := m.signal)

/-- A default leaves what is stored as it is. -/
theorem default_cells (s : Store) (ty : Ty) :
    ∀ i < s.cells.size, (s.default ty).2.cells[i]? = s.cells[i]? := by
  intro i hi
  unfold Store.default
  split <;> simp [Store.alloc, Array.getElem?_push, Nat.ne_of_lt hi]

theorem idles_introduce {name : String} {ty : Ty} {category : Category} {o : Position}
    {value : Option Value} (h : m.scopes.declaredHere name = false) :
    m.Idles callers (m.introduce name ty category o value) := by
  refine ⟨⟨rfl, .declared h, ?_⟩, rfl, rfl, rfl⟩
  cases value with
  | none => exact default_cells m.store ty
  | some v => exact fun _ _ => rfl

end Machine

namespace Watched

open Eval Machine

/-- The notes of a computation lead from a phase to one at which it ends as `Q` says or fails as `F`
says, provided all of them are legal. -/
def Travels {α : Type} (a : Phase) (x : Watched α) (callers : List Caller) (m : Machine)
    (Q : α → Phase → Machine → Prop) (F : Diagnostic → Phase → Machine → Prop) : Prop :=
  (∀ e ∈ (x callers m).events, e.Legal) → ∃ b, Passage a (x callers m).events b ∧
    match (x callers m).result with
    | some (.ok v) => Q v b (x callers m).last
    | some (.error d) => F d b (x callers m).last
    | none => b = .calm

/-! ## Rules -/

section Rules

variable {α β : Type} {a b : Phase} {callers : List Caller} {m : Machine} {x : Watched α}
  {Q Q' : α → Phase → Machine → Prop} {F F' : Diagnostic → Phase → Machine → Prop}

theorem Travels.imp (h : Travels a x callers m Q F) (hQ : ∀ v b t, Q v b t → Q' v b t)
    (hF : ∀ d b t, F d b t → F' d b t) : Travels a x callers m Q' F' := by
  intro hlegal
  obtain ⟨b, hp, ho⟩ := h hlegal
  refine ⟨b, hp, ?_⟩
  split at ho
  · exact hQ _ _ _ ho
  · exact hF _ _ _ ho
  · exact ho

/-- What is known of the end without the phases. -/
theorem Travels.and {E : Event → Prop} {R : α → Machine → Prop} {G : Diagnostic → Machine → Prop}
    (h : Travels a x callers m Q F) (h' : Meets E x callers m R G) :
    Travels a x callers m (fun v b t => Q v b t ∧ R v t) (fun d b t => F d b t ∧ G d t) := by
  intro hlegal
  obtain ⟨b, hp, ho⟩ := h hlegal
  refine ⟨b, hp, ?_⟩
  have ho' := h'.2
  split at ho <;> simp_all

theorem travels_pure {v : α} (h : Q v a m) : Travels a (pure v) callers m Q F :=
  fun _ => ⟨a, .nil, h⟩

theorem travels_exhausted : Travels .calm (Runs.exhausted : Watched α) callers m Q F :=
  fun _ => ⟨.calm, .nil, rfl⟩

theorem Travels.bind {f : α → Watched β} {Q : β → Phase → Machine → Prop}
    {R : α → Phase → Machine → Prop} (hx : Travels a x callers m R F)
    (hf : ∀ v b t, R v b t → Travels b (f v) callers t Q F) :
    Travels a (x >>= f) callers m Q F := by
  intro hlegal
  simp only [Bind.bind] at hlegal ⊢
  have hx' : ∀ e ∈ (x callers m).events, e.Legal := by
    intro e he
    refine hlegal e ?_
    split <;> simp [he]
  obtain ⟨b, hp, ho⟩ := hx hx'
  split at ho <;> rename_i hr <;> simp only [hr] at hlegal ⊢
  · obtain ⟨c, hp', ho'⟩ := hf _ _ _ ho fun e he => hlegal e (List.mem_append_right _ he)
    exact ⟨c, hp.append hp', ho'⟩
  · exact ⟨b, hp, ho⟩
  · exact ⟨b, hp, ho⟩

theorem travels_look {f : Machine → Except Diagnostic α} (hok : ∀ v, f m = .ok v → Q v a m)
    (herr : ∀ d, f m = .error d → F d a m) : Travels a (Runs.look f) callers m Q F := by
  intro _
  refine ⟨a, .nil, ?_⟩
  simp only [Runs.look]
  rcases h : f m with d | v
  · exact herr d h
  · exact hok v h

theorem travels_step {f : Machine → α × Machine} (hm : (Event.steps callers m (f m).2).Moves a b)
    (hQ : Q (f m).1 b (f m).2) : Travels a (Runs.step f) callers m Q F :=
  fun _ => ⟨b, .single hm, hQ⟩

theorem travels_update {f : Machine → Machine} {Q : Unit → Phase → Machine → Prop}
    (hm : (Event.steps callers m (f m)).Moves a b) (hQ : Q () b (f m)) :
    Travels a (update f) callers m Q F :=
  travels_step hm hQ

/-- What holds where an attempt has ended: `Q` of its value or `F` of its failure. -/
def Tried (Q : α → Phase → Machine → Prop) (F : Diagnostic → Phase → Machine → Prop) :
    Except Diagnostic α → Phase → Machine → Prop
  | .ok v => Q v
  | .error d => F d

theorem travels_attempt {Q : Except Diagnostic α → Phase → Machine → Prop}
    (h : Travels a x callers m (fun v => Q (.ok v)) (fun d => Q (.error d))) :
    Travels a (Runs.attempt x) callers m Q F := by
  intro hlegal
  obtain ⟨b, hp, ho⟩ := h hlegal
  refine ⟨b, hp, ?_⟩
  simp only [Runs.attempt]
  split at ho <;> rename_i hr <;> simp only [hr] <;> exact ho

theorem travels_within {j : Job} {x : Watched j.Result} {Q : j.Result → Phase → Machine → Prop}
    (he : (Event.enters j m).Moves a b) (hx : (Event.enters j m).Legal → Travels b x callers m
      (fun v c t => ∃ c', (Event.gives j v t).Moves c c' ∧ Q v c' t)
      (fun d c t => ∃ c', (Event.fails j d t).Moves c c' ∧ F d c' t)) :
    Travels a (Runs.within j x) callers m Q F := by
  intro hlegal
  simp only [Runs.within] at hlegal ⊢
  obtain ⟨hj, hlegal⟩ := List.forall_mem_cons.1 hlegal
  obtain ⟨c, hp, ho⟩ := hx hj fun e he => hlegal e (List.mem_append_left _ he)
  split at ho <;> rename_i hr <;> simp only [hr, closing]
  · obtain ⟨c', hm, hQ⟩ := ho
    exact ⟨c', .cons he (hp.append (.single hm)), hQ⟩
  · obtain ⟨c', hm, hF⟩ := ho
    exact ⟨c', .cons he (hp.append (.single hm)), hF⟩
  · exact ⟨c, .cons he (by simpa using hp), ho⟩

theorem travels_fail {d : Diagnostic} (h : F d a m) :
    Travels a (Eval.fail d : Watched α) callers m Q F :=
  travels_look (by simp) (by simpa using h)

theorem travels_read {f : Machine → α} (h : Q (f m) a m) :
    Travels a (Eval.read f) callers m Q F :=
  travels_look (by simpa using h) (by simp)

theorem travels_between {enter leave : Machine → Machine}
    (he : (Event.steps callers m (enter m)).Moves a b)
    (hx : Travels b x callers (enter m)
      (fun v c t => ∃ c', (Event.steps callers t (leave t)).Moves c c' ∧ Q v c' (leave t))
      (fun d c t => ∃ c', (Event.steps callers t (leave t)).Moves c c' ∧ F d c' (leave t))) :
    Travels a (Eval.between enter leave x) callers m Q F := by
  refine Travels.bind (R := fun _ c t => c = b ∧ t = enter m) (travels_update he ⟨rfl, rfl⟩) ?_
  rintro _ _ _ ⟨rfl, rfl⟩
  refine Travels.bind (R := Tried
    (fun v c t => ∃ c', (Event.steps callers t (leave t)).Moves c c' ∧ Q v c' (leave t))
    fun d c t => ∃ c', (Event.steps callers t (leave t)).Moves c c' ∧ F d c' (leave t))
    (travels_attempt hx) ?_
  rintro (d | v) c t ⟨c', hm, hr⟩
  · refine Travels.bind (R := fun _ b u => b = c' ∧ u = leave t) (travels_update hm ⟨rfl, rfl⟩) ?_
    rintro _ _ _ ⟨rfl, rfl⟩
    exact travels_fail hr
  · refine Travels.bind (R := fun _ b u => b = c' ∧ u = leave t) (travels_update hm ⟨rfl, rfl⟩) ?_
    rintro _ _ _ ⟨rfl, rfl⟩
    exact travels_pure hr

end Rules

/-! ## Parts of the evaluator -/

section Settles

variable {α β : Type} {H H' : Stmt → Prop} {Q Q' : Phase → Machine → Prop} {x : Watched α}

/-- A computation that begins with nothing on its way ends as `Q` says, or with its failure on the
way. -/
def Settles (H : Stmt → Prop) (Q : Phase → Machine → Prop) (x : Watched α) : Prop :=
  ∀ callers m, m.failure = none →
    Travels .calm x callers m (fun _ => Q) fun d b t => b.Carries d H t

/-- A computation that leaves nothing on its way unless it fails. -/
def Computes (x : Watched α) : Prop := Settles (fun _ => False) Phase.Idle x

/-- A computation that leaves at most the failure of the running call on its way. -/
def Works (x : Watched α) : Prop := Settles (fun _ => False) Phase.Awaits x

theorem Settles.imp (hx : Settles H Q x) (hH : ∀ s, H s → H' s) (hQ : ∀ b t, Q b t → Q' b t) :
    Settles H' Q' x := fun callers m hm =>
  (hx callers m hm).imp (fun _ => hQ) fun _ _ _ h => h.imp hH

theorem Settles.weaken (hx : Settles (fun _ => False) Q x) : Settles H Q x :=
  hx.imp (fun _ h => h.elim) fun _ _ h => h

theorem Computes.settles (hx : Computes x) : Settles H Phase.Idle x := Settles.weaken hx

theorem Settles.acted (hx : Settles H Phase.Idle x) : Settles H Phase.Acted x :=
  hx.imp (fun _ h => h) fun _ _ h => ⟨.inl h.1, h.2⟩

theorem Settles.awaits (hx : Settles H Phase.Idle x) : Settles H Phase.Awaits x :=
  hx.imp (fun _ h => h) fun _ _ h => .inl h

theorem Settles.bind {f : α → Watched β} (hx : Settles H Phase.Idle x)
    (hf : ∀ v, Settles H Q (f v)) : Settles H Q (x >>= f) := fun callers m hm =>
  (hx callers m hm).bind fun v _ t ⟨hb, ht⟩ => hb ▸ hf v callers t ht

/-- What follows a statement has to heed the failure it may have left to the call. -/
theorem Settles.andThen {f : α → Watched β} (hx : Settles H Phase.Awaits x)
    (hf : ∀ v callers b t, b.Awaits t →
      Travels b (f v) callers t (fun _ => Q) fun d b t => b.Carries d H t) :
    Settles H Q (x >>= f) := fun callers m hm =>
  (hx callers m hm).bind fun v b t ht => hf v callers b t ht

theorem Settles.map {f : α → β} (hx : Settles H Phase.Acted x) :
    Settles H Phase.Acted (x >>= fun v => pure (f v)) := fun callers m hm =>
  (hx callers m hm).bind fun _ _ _ ht => travels_pure ht

theorem settles_exhausted : Settles H Q (Runs.exhausted : Watched α) := fun _ _ _ =>
  travels_exhausted

theorem settles_fail {d : Diagnostic} : Settles H Q (fail d : Watched α) := fun _ _ hm =>
  travels_fail ⟨.inl rfl, hm⟩

theorem settles_pure {v : α} : Settles H Phase.Idle (pure v : Watched α) := fun _ _ hm =>
  travels_pure ⟨rfl, hm⟩

theorem settles_look {f : Machine → Except Diagnostic α} :
    Settles H Phase.Idle (Runs.look f : Watched α) := fun _ _ hm =>
  travels_look (fun _ _ => ⟨rfl, hm⟩) fun _ _ => ⟨.inl rfl, hm⟩

theorem settles_read {f : Machine → α} : Settles H Phase.Idle (read f : Watched α) := settles_look

theorem settles_ask {p : Position} {f : Store → Except Fault α} :
    Settles H Phase.Idle (ask p f : Watched α) := settles_look

theorem settles_ofResult {r : Except Diagnostic α} :
    Settles H Phase.Idle (ofResult r : Watched α) := by
  cases r with
  | ok v => exact settles_pure
  | error d => exact settles_fail

theorem settles_ofExcept {p : Position} {r : Except Fault α} :
    Settles H Phase.Idle (Eval.ofExcept p r : Watched α) := by
  cases r with
  | ok v => exact settles_pure
  | error f => exact settles_fail

theorem settles_ofOption {p : Position} {fault : Fault} {r : Option α} :
    Settles H Phase.Idle (ofOption p fault r : Watched α) := by
  cases r with
  | some v => exact settles_pure
  | none => exact settles_fail

/-- A step that may assign something, but neither reports nor fails. -/
theorem settles_step {f : Machine → α × Machine}
    (hf : ∀ m, (f m).2.report = m.report ∧ (f m).2.failure = m.failure) :
    Settles H Phase.Acted (Runs.step f) := fun _ m hm =>
  travels_step (.acts (hf m).1) ⟨.inr rfl, (hf m).2.trans hm⟩

theorem settles_onStore {f : Store → α × Store} : Settles H Phase.Acted (onStore f : Watched α) :=
  settles_step fun _ => ⟨rfl, rfl⟩

theorem settles_edit {p : Position} {f : Store → Except Fault (α × Edit)} :
    Settles H Phase.Acted (edit p f : Watched α) :=
  settles_ask.bind fun _ => Settles.map (settles_step fun _ => ⟨rfl, rfl⟩)

theorem settles_assign {name : String} {v : Value} {p : Position} :
    Settles H Phase.Acted (assign name v p) :=
  settles_look.bind fun _ => settles_step fun _ => ⟨rfl, rfl⟩

theorem settles_write {c v : Value} {i : Int64} {j : Option Int64} {owner : String}
    {p : Position} : Settles H Phase.Acted (write c i j v owner p) := settles_edit

theorem settles_declare {name : String} {ty : Ty} {category : Category} {p : Position}
    {value : Option Value} : Settles H Phase.Idle (declare name ty category p value) := by
  intro callers m hm
  refine Travels.bind (R := fun _ b t => b = .calm ∧ t = m ∧ m.scopes.declaredHere name = false)
    (travels_look (fun _ h => ⟨rfl, rfl, ?_⟩) fun _ _ => ⟨.inl rfl, hm⟩) ?_
  · unfold Scopes.checkFree at h
    split at h
    · cases h
    · exact Bool.eq_false_iff.2 ‹_›
  · rintro _ _ t ⟨rfl, rfl, hfree⟩
    have hidles : t.Idles callers (t.introduce name ty category p value) := idles_introduce hfree
    exact travels_update (.rests hidles.toRests hidles.report) ⟨rfl, hidles.failure.trans hm⟩

theorem settles_declareParameters : ∀ (qs : List Parameter) (vs : List Value),
    Settles H Phase.Idle (declareParameters qs vs)
  | [], _ => settles_pure
  | _ :: _, [] => settles_pure
  | _ :: qs, _ :: vs => settles_declare.bind fun _ => settles_declareParameters qs vs

theorem Settles.between {enter leave : Machine → Machine} (hx : Settles H Phase.Awaits x)
    (he : ∀ callers (m : Machine), m.Idles callers (enter m))
    (hl : ∀ callers (m : Machine), m.Idles callers (leave m)) :
    Settles H Phase.Awaits (between enter leave x) := by
  intro callers m hm
  have hidles := he callers m
  refine travels_between (.rests hidles.toRests hidles.report) ?_
  refine (hx callers _ (hidles.failure.trans hm)).imp (fun _ b t hb => ?_) fun d b t hb => ?_
  · exact ⟨b, hb.moves (hl callers t)⟩
  · exact ⟨b, hb.moves (hl callers t)⟩

theorem Settles.inScope (hx : Settles H Phase.Awaits x) : Settles H Phase.Awaits (inScope x) :=
  hx.between (fun _ _ => idles_enterScope) fun _ _ => idles_leaveScope

theorem Settles.inLabelled {label : String} (hx : Settles H Phase.Awaits x) :
    Settles H Phase.Awaits (inLabelled label x) :=
  hx.between (fun _ _ => idles_enterLabelled) fun _ _ => idles_leaveLabelled

theorem Settles.inConstruct {k : Construct} (hx : Settles H Phase.Awaits x) :
    Settles H Phase.Awaits (inConstruct k x) :=
  hx.between (fun _ _ => idles_enterConstruct) fun _ _ => idles_leaveConstruct

end Settles

/-- A step that idles leaves what is on its way as it is. -/
theorem travels_idles {α : Type} {b : Phase} {callers : List Caller} {m : Machine}
    {f : Machine → α × Machine} {F : Diagnostic → Phase → Machine → Prop} (h : b.Awaits m)
    (hf : m.Idles callers (f m).2) : Travels b (Runs.step f) callers m
      (fun v c t => c.Awaits t ∧ v = (f m).1 ∧ t = (f m).2) F :=
  travels_step (h.moves hf).1 ⟨(h.moves hf).2, rfl, rfl⟩

/-- What comes after a statement is left out while a failure is on its way. -/
theorem travels_unlessPending {H : Stmt → Prop} {b : Phase} {callers : List Caller} {m : Machine}
    {x : Watched Unit} (h : b.Awaits m) (hx : Settles H Phase.Awaits x) :
    Travels b (do if ← read Machine.pending then return () else x) callers m
      (fun _ => Phase.Awaits) fun d b t => b.Carries d H t := by
  refine Travels.bind (R := fun k c t => k = m.pending ∧ c = b ∧ t = m)
    (travels_read ⟨rfl, rfl, rfl⟩) ?_
  rintro _ _ t ⟨rfl, rfl, rfl⟩
  split
  · exact travels_pure h
  · have ht := (clean_of_pending (Bool.eq_false_iff.2 ‹_›)).failure
    obtain ⟨rfl, -⟩ := h.idle ht
    exact hx callers t ht

/-- One round of a loop, and what comes after it. -/
theorem Settles.round {H : Stmt → Prop} {x y : Watched Unit} (hx : Settles H Phase.Awaits x)
    (hy : Settles H Phase.Awaits y) : Settles H Phase.Awaits (do
      x
      if ← Runs.step Machine.continueLooping then y else return ()) :=
  hx.andThen fun _ callers b t h => by
    refine Travels.bind (travels_idles h idles_continueLooping) ?_
    rintro k c u ⟨hc, rfl, rfl⟩
    split
    · have hu := failure_continueLooping ‹_›
      obtain ⟨rfl, -⟩ := hc.idle hu
      exact hy callers _ hu
    · exact travels_pure hc

/-! ### Calls -/

/-- A job that is no statement. -/
theorem Settles.within {j : Job} {x : Watched j.Result} (hj : ∀ s, j ≠ .stmt s)
    (hx : Settles (fun _ => False) Phase.Acted x) : Computes (Runs.within j x) := by
  intro callers m hm
  refine travels_within .enters fun _ => (hx callers m hm).imp (fun v b t hb => ?_)
    fun d b t hb => ?_
  · exact ⟨.calm, .gives hb.1, rfl, hb.2⟩
  · exact ⟨_, .fails hb.calm_or_failing fun s hs => absurd hs (hj s),
      .inr ⟨none, rfl, by simp⟩, hb.2⟩

theorem Settles.inCall {α : Type} {name : String} {p : Position} {x : Watched α}
    (hx : Settles (fun _ => False) Phase.Ended x) : Computes (inCall name p x) := by
  intro callers m hm
  refine Travels.bind (R := fun c b t => b = .calm ∧ t = m ∧ c = (m.enterCall name).1)
    (travels_look (fun c h => ?_) fun _ _ => ⟨.inl rfl, hm⟩) ?_
  · split at h <;> cases h
    exact ⟨rfl, rfl, rfl⟩
  · rintro _ _ t ⟨rfl, rfl, rfl⟩
    have henter : (Event.steps ((t.enterCall name).1 :: callers) t (t.enterCall name).2).Moves
        .calm .calm := .rests rests_enterCall rfl
    refine travels_between henter ?_
    refine (hx _ (t.enterCall name).2 hm).imp (fun _ b u hb => ?_) fun d b u hb => ?_
    · obtain ⟨rfl | rfl, hu⟩ := hb
      · exact ⟨.calm, .rests rests_leaveCall rfl, rfl, hu⟩
      · exact ⟨.calm, .ends, rfl, hu⟩
    · obtain rfl | rfl := hb.calm_or_failing
      · exact ⟨.calm, .rests rests_leaveCall rfl, .inl rfl, hb.2⟩
      · exact ⟨_, .passes ⟨rests_leaveCall, rfl, Nat.sub_le _ _⟩,
          .inr ⟨none, rfl, by simp⟩, hb.2⟩

theorem travels_conclude {f : Function} {b : Phase} {callers : List Caller} {m : Machine}
    (h : b.Awaits m) : Travels b (conclude f) callers m (fun _ => Phase.Ended)
      fun d b t => b.Carries d (fun _ => False) t := by
  have hrests : m.Rests callers m.takeFailure.2 := rests_of_eq rfl rfl rfl
  obtain ⟨rfl, hm⟩ | ⟨d, rfl, hm, -⟩ := h
  · refine Travels.bind (R := fun r b t => r = none ∧ b.Idle t)
      (travels_step (.rests hrests rfl) ⟨hm, rfl, rfl⟩) ?_
    rintro _ _ t ⟨rfl, rfl, ht⟩
    have htake : t.Idles callers t.takeReturn.2 := idles_takeReturn
    refine Travels.bind (R := fun _ => Phase.Idle)
      (travels_step (.rests htake.toRests htake.report) ⟨rfl, htake.failure.trans ht⟩) ?_
    rintro _ _ t ⟨rfl, ht⟩
    have htake : t.Idles callers t.takeSignal.2 := idles_signal
    refine Travels.bind (R := fun _ => Phase.Idle)
      (travels_step (.rests htake.toRests htake.report) ⟨rfl, ht⟩) ?_
    rintro g _ t ⟨rfl, ht⟩
    cases g with
    | none => exact travels_pure ⟨.inl rfl, ht⟩
    | some g =>
      refine Travels.bind (R := fun _ => Phase.Ended) (travels_update .reports ⟨.inr rfl, ht⟩) ?_
      exact fun _ _ _ hu => travels_pure hu
  · refine Travels.bind (R := fun r b t => r = some d ∧ b = .failing d none ∧ t.failure = none)
      (travels_step (.passes ⟨hrests, rfl, le_rfl⟩) ⟨hm, rfl, rfl⟩) ?_
    rintro _ _ t ⟨rfl, rfl, ht⟩
    exact travels_fail ⟨.inr ⟨none, rfl, by simp⟩, ht⟩

/-! ### Statements -/

/-- A statement that is carried out ends with at most the failure of the running call on its way,
and with none if it can stand in a header. If it fails, it hands its failure on. -/
def Performs (s : Stmt) (x : Watched Unit) : Prop :=
  ∀ callers m reported, m.failure = none → Travels .calm x callers m
    (fun _ b t => b.Awaits t ∧ (s.isFirst = true → t.failure = none))
    fun d b t => b = .failed s reported d t ∧ t.failure = none

/-- What the work of a statement comes to, before the statement is over. -/
def Over (s : Stmt) (b : Phase) (t : Machine) : Prop :=
  b.Awaits t ∧ (s.isFirst = true → t.failure = none) ∨ b.Acted t

theorem performs_within {s : Stmt} {x : Watched Unit}
    (hx : ∀ callers m, m.failure = none → (Event.enters (.stmt s) m).Legal →
      Travels .calm x callers m (fun _ => Over s) fun d b t => b.Carries d (·.HeaderOf s) t) :
    Performs s (Runs.within (.stmt s) x) := by
  intro callers m reported hm
  refine travels_within .enters fun hlegal => (hx callers m hm hlegal).imp (fun _ b t hb => ?_)
    fun d b t hb => ?_
  · rcases hb with ⟨⟨rfl, ht⟩ | ⟨d, rfl, ht, hd⟩, hfirst⟩ | ⟨hb, ht⟩
    · exact ⟨.calm, .gives (.inl rfl), .inl ⟨rfl, ht⟩, hfirst⟩
    · exact ⟨_, .passes ⟨ht, hd⟩, .inr ⟨d, rfl, ht, hd⟩, hfirst⟩
    · exact ⟨.calm, .gives hb, .inl ⟨rfl, ht⟩, fun _ => ht⟩
  · refine ⟨_, ?_, rfl, hb.2⟩
    rcases Nat.eq_zero_or_pos t.depth with hd | hd
    · refine .failsTop hd ?_ ?_
      · obtain ⟨hb | ⟨last, hb, hlast⟩, -⟩ := hb
        · exact .inl hb
        · exact .inr ⟨last, hb, fun s hs => (hlast s hs).1⟩
      · cases reported
        · exact .inl (Phase.failed_handed hd)
        · exact .inr (Phase.failed_reported hd)
    · rw [Phase.failed_in_call hd]
      refine .fails ?_ fun _ _ => hd
      obtain ⟨rfl | ⟨_ | s', rfl, hlast⟩, -⟩ := hb
      · exact .inl rfl
      · exact .inr rfl
      · have := (hlast s' rfl).2
        omega

theorem performs_of_settles {s : Stmt} {x : Watched Unit} {Q : Phase → Machine → Prop}
    (hx : Settles (fun _ => False) Q x) (hQ : ∀ b t, Q b t → Over s b t) :
    Performs s (Runs.within (.stmt s) x) :=
  performs_within fun callers m hm _ =>
    (hx callers m hm).imp (fun _ => hQ) fun _ _ _ h => h.imp fun _ h => h.elim

theorem Settles.performs {s : Stmt} {x : Watched Unit}
    (hx : Settles (fun _ => False) Phase.Acted x) : Performs s (Runs.within (.stmt s) x) :=
  performs_of_settles hx fun _ _ => .inr

theorem Works.performs {s : Stmt} {x : Watched Unit} (hx : Works x) (hs : s.isFirst = false) :
    Performs s (Runs.within (.stmt s) x) :=
  performs_of_settles hx fun _ _ h => .inl ⟨h, by simp [hs]⟩

theorem Performs.guarded {s : Stmt} {x : Watched Unit} (hx : Performs s x) :
    Settles (fun _ => False) Phase.Awaits (guarded x) := by
  intro callers m hm
  refine Travels.bind (R := Tried (fun _ => Phase.Awaits)
    fun d b t => b = .failed s true d t ∧ t.failure = none)
    (travels_attempt ((hx callers m true hm).imp (fun _ _ _ h => h.1) fun _ _ _ h => h)) ?_
  rintro (d | v) b t h
  · obtain ⟨rfl, ht⟩ := h
    refine Travels.bind (R := fun k b u => k = t.inCall ∧ b = .failed s true d t ∧ u = t)
      (travels_read ⟨rfl, rfl, rfl⟩) ?_
    rintro _ _ u ⟨rfl, rfl, rfl⟩
    rcases Nat.eq_zero_or_pos u.depth with hd | hd
    · rw [Phase.failed_reported hd, if_neg (by simp [Machine.inCall, hd])]
      exact travels_update (.notes hd) (.inl ⟨rfl, ht⟩)
    · rw [Phase.failed_in_call hd, if_pos (by simpa [Machine.inCall] using hd)]
      have hrests : u.Rests callers (u.fail d) := rests_of_eq rfl rfl rfl
      refine travels_within (j := .failCall d) (.passes rfl) fun _ =>
        travels_update (.passes ⟨hrests, rfl, le_rfl⟩) ?_
      exact ⟨_, .passes ⟨rfl, hd⟩, .inr ⟨d, rfl, rfl, hd⟩⟩
  · exact travels_pure h

/-- A statement in the header of a loop hands its failure to the loop. -/
theorem Performs.header {s : Stmt} {x : Watched Unit} {H : Stmt → Prop} (hx : Performs s x)
    (hs : H s) (hfirst : s.isFirst = true) : Settles H Phase.Idle x := by
  intro callers m hm
  refine (hx callers m false hm).imp (fun _ b t hb => hb.1.idle (hb.2 hfirst)) ?_
  rintro d _ t ⟨rfl, ht⟩
  refine ⟨.inr ?_, ht⟩
  rcases Nat.eq_zero_or_pos t.depth with hd | hd
  · refine ⟨some s, Phase.failed_handed hd, ?_⟩
    rintro _ ⟨⟩
    exact ⟨hs, hd⟩
  · exact ⟨none, Phase.failed_in_call hd, by simp⟩

/-- A variable whose value fails is declared with its default, and the failure goes on. -/
theorem Computes.declareWith {name : String} {ty : Ty} {p : Position} {x : Watched Value}
    (hx : Computes x) (hstays : Stays x) {callers : List Caller} {m : Machine}
    (hm : m.failure = none) (hfree : m.scopes.declaredHere name = false) :
    Travels .calm (declareWith name ty p x) callers m (fun _ => Phase.Idle)
      fun d b t => b.Carries d (fun _ => False) t := by
  refine Travels.bind (R := Tried (fun _ b t => t.scopes.declaredHere name = false ∧ b.Idle t)
    fun d b t => t.scopes.declaredHere name = false ∧ b.Carries d (fun _ => False) t)
    (travels_attempt ?_) ?_
  · have hkeeps : ∀ t : Machine, m.Keeps t → t.scopes.declaredHere name = false := fun t ht => by
      rw [← Scopes.declaredHere_map _ Symbol.toDeclaration] at hfree ⊢
      exact (congrArg (Scopes.declaredHere · name) (congrArg Names.scopes ht.names)).trans hfree
    exact ((hx callers m hm).and (hstays m callers m (.refl m))).imp
      (fun _ _ t h => ⟨hkeeps t h.2, h.1⟩) fun _ _ t h => ⟨hkeeps t h.2, h.1⟩
  · rintro (d | v) b t ⟨hfree, h⟩
    · have hidles : t.Idles callers (t.introduce name ty (.ofTy ty) p none) :=
        idles_introduce hfree
      have hcheck : t.scopes.checkFree name p = .ok () := by simp [Scopes.checkFree, hfree]
      obtain ⟨hmoves, hcarries⟩ := h.moves hidles
      refine Travels.bind (R := fun _ c u => c.Carries d (fun _ => False) u) ?_ fun _ _ _ h =>
        travels_fail h
      refine Travels.bind (R := fun _ c u => c = b ∧ u = t) (travels_look (fun _ _ => ⟨rfl, rfl⟩)
        fun d h => by simp [hcheck] at h) ?_
      rintro _ _ _ ⟨rfl, rfl⟩
      exact travels_update hmoves hcarries
    · obtain ⟨rfl, ht⟩ := h
      exact settles_declare callers t ht

end Watched

end Primer
