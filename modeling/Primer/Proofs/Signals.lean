import Primer.Proofs.History
import Primer.Proofs.Preserves
import Primer.Proofs.Proper

/-!
# Jumps and failures on their way

A jump is on its way to the nearest construct that owns it, a failure to the running call, and
never both at once. Nothing runs before they arrive: every expression, statement and call is
entered with nothing pending, and a value is given with nothing pending. The steps of a run pass a
jump on from construct to construct until its owner takes it (`Delivered`).
-/

namespace Primer

/-- Whether a construct takes a jump. -/
def Signal.ownedBy : Signal → Construct → Bool
  | breakLoop, .loop => true
  | continueLoop, .loop => true
  | breakSwitch, .switch => true
  | _, _ => false

namespace Machine

/-- Nothing is pending. -/
structure Clean (m : Machine) : Prop where
  signal : m.signal = none
  failure : m.failure = none

/-- What may be pending after a statement: not a jump and a failure, a failure only in a call, and
the `break` of a switch only in a switch. -/
structure Settled (m : Machine) : Prop where
  single : m.signal = none ∨ m.failure = none
  inCall : m.failure ≠ none → 0 < m.depth
  inSwitch : m.signal = some .breakSwitch → m.constructs.head? = some .switch

/-- No jump but a `return` is pending. -/
def OnlyReturns (m : Machine) : Prop := m.signal = none ∨ ∃ v, m.signal = some (.giveBack v)

/-- What a step does to what is pending. A failure stays until no construct is left. A jump stays
while constructs that do not own it are left, and is taken by its owner or where none is left.
Both come up only where nothing is pending. -/
structure Passes (m t : Machine) : Prop where
  single : t.signal = none ∨ t.failure = none
  failure : ∀ d, m.failure = some d → t.failure = some d ∨ t.failure = none ∧ m.constructs = []
  signal : ∀ g, m.signal = some g →
    t.signal = some g ∧ (t.constructs = m.constructs ∨
        ∃ c, m.constructs = c :: t.constructs ∧ g.ownedBy c = false) ∨
      t.signal = none ∧ t.constructs = m.constructs ∧
        ∀ c ∈ m.constructs.head?, g.ownedBy c = true
  fails : ∀ d, t.failure = some d → m.failure = some d ∨ m.Clean
  jumps : ∀ g, t.signal = some g → m.signal = some g ∨ m.Clean

end Machine

/-- What a statement leaves pending if it does not fail. -/
def Stmt.Leaves : Stmt → Machine → Prop
  | .whileLoop .., m => m.OnlyReturns
  | .doLoop .., m => m.OnlyReturns
  | .forLoop .., m => m.OnlyReturns
  | .switch .., m => m.signal ≠ some .breakSwitch
  | .breakOut _, m => ∃ g, m.signal = some g ∧ ∀ c ∈ m.constructs.head?, g.ownedBy c = true
  | .continueOn _, m => m.signal = some .continueLoop
  | .giveBack .., m => ∃ v, m.signal = some (.giveBack v)
  | .block _, _ => True
  | .branch .., _ => True
  | _, m => m.Clean

/-- What the notes of a run say about what is pending. -/
def Event.Disciplined : Event → Prop
  | .steps _ m t => m.Passes t
  | .enters _ m => m.Clean
  | .gives (.stmt s) _ m => s.Leaves m ∧ m.Settled
  | .gives (.failCall d) _ m => m.signal = none ∧ m.failure = some d
  | .gives _ _ m => m.Clean
  | .fails _ _ m => m.Clean

/-- What becomes of a pending jump under some constructs: until the first of them that owns it
takes it, or there is none left, nothing is entered and statements only end. -/
inductive Delivered (g : Signal) : List Construct → List Event → Prop
  | cut {cs : List Construct} : Delivered g cs []
  | kept {cs : List Construct} {es : List Event} {callers : List Caller} {m t : Machine}
    (hs : t.signal = some g) (hc : t.constructs = cs) (h : Delivered g cs es) :
    Delivered g cs (.steps callers m t :: es)
  | left {c : Construct} {cs : List Construct} {es : List Event} {callers : List Caller}
    {m t : Machine} (ho : g.ownedBy c = false) (hs : t.signal = some g) (hc : t.constructs = cs)
    (h : Delivered g cs es) : Delivered g (c :: cs) (.steps callers m t :: es)
  | taken {cs : List Construct} {es : List Event} {callers : List Caller} {m t : Machine}
    (ho : ∀ c ∈ cs.head?, g.ownedBy c = true) (hs : t.signal = none) (hc : t.constructs = cs) :
    Delivered g cs (.steps callers m t :: es)
  | over {cs : List Construct} {es : List Event} {s : Stmt} {m : Machine}
    (h : Delivered g cs es) : Delivered g cs (.gives (.stmt s) () m :: es)

namespace Machine

variable {m t : Machine}

theorem Clean.passes (hm : m.Clean) (ht : t.signal = none ∨ t.failure = none) : m.Passes t where
  single := ht
  failure d h := by simp [hm.failure] at h
  signal g h := by simp [hm.signal] at h
  fails _ _ := .inr hm
  jumps _ _ := .inr hm

theorem Clean.settled (hm : m.Clean) : m.Settled where
  single := .inl hm.signal
  inCall h := absurd hm.failure h
  inSwitch h := by simp [hm.signal] at h

theorem clean_of_pending (h : m.pending = false) : m.Clean := by
  simp only [pending, Bool.or_eq_false_iff, Option.isSome_eq_false_iff, Option.isNone_iff_eq_none]
    at h
  exact ⟨h.1, h.2⟩

/-- A step that only changes what is not pending. -/
theorem Settled.passes (hm : m.Settled) (hs : t.signal = m.signal) (hf : t.failure = m.failure)
    (hc : t.constructs = m.constructs) : m.Passes t where
  single := hs ▸ hf ▸ hm.single
  failure _ h := .inl (hf.trans h)
  signal _ h := .inl ⟨hs.trans h, .inl hc⟩
  fails _ h := .inl (hf.symm.trans h)
  jumps _ h := .inl (hs.symm.trans h)

/-- A construct is left by what it does not own. -/
theorem Settled.passes_leave (hm : m.Settled) {c : Construct} {cs : List Construct}
    (hcs : m.constructs = c :: cs) (ho : ∀ g, m.signal = some g → g.ownedBy c = false) :
    m.Passes m.leaveConstruct where
  single := hm.single
  failure _ h := .inl h
  signal g h := .inl ⟨h, .inr ⟨c, by simp [leaveConstruct, hcs], ho g h⟩⟩
  fails _ h := .inl h
  jumps _ h := .inl h

/-- What is pending where no construct is left can be taken. -/
theorem Settled.passes_take (hm : m.Settled) (hc : m.constructs = [])
    (hs : t.signal = m.signal ∨ t.signal = none) (hf : t.failure = m.failure ∨ t.failure = none)
    (hcs : t.constructs = m.constructs) : m.Passes t where
  single := by
    have := hm.single
    grind
  failure d h := by grind
  signal g h := by
    rcases hs with hs | hs
    · exact .inl ⟨hs.trans h, .inl hcs⟩
    · exact .inr ⟨hs, hcs, by simp [hc]⟩
  fails d h := by grind
  jumps g h := by grind

end Machine

/-- A pending jump is delivered, if the notes of the run keep to the discipline. -/
theorem Path.delivered {m u : Machine} {es : List Event} (h : Path m es u)
    (hd : ∀ e ∈ es, e.Disciplined) {g : Signal} (hg : m.signal = some g) :
    Delivered g m.constructs es := by
  induction h with
  | nil => exact .cut
  | @cons e es u h ih =>
    have he := hd e List.mem_cons_self
    have ih := ih fun e h => hd e (List.mem_cons_of_mem _ h)
    match e, he with
    | .steps callers m t, he =>
      rcases he.signal g hg with ⟨hs, hc | ⟨c, hc, ho⟩⟩ | ⟨hs, hc, ho⟩
      · exact .kept hs hc (hc ▸ ih hs)
      · exact (show m.constructs = _ from hc) ▸ .left ho hs rfl (ih hs)
      · exact .taken ho hs hc
    | .enters job m, he => exact absurd hg (by simp [Event.source, he.signal])
    | .gives (.stmt s) () m, _ => exact .over (ih hg)
    | .gives (.failCall d) _ m, he => exact absurd hg (by simp [Event.source, he.1])
    | .gives (.expr e) _ m, he => exact absurd hg (by simp [Event.source, he.signal])
    | .gives (.exprFor e t) _ m, he => exact absurd hg (by simp [Event.source, he.signal])
    | .gives (.call f es p) _ m, he => exact absurd hg (by simp [Event.source, he.signal])
    | .fails job d m, he => exact absurd hg (by simp [Event.source, he.signal])

/-- Where a run stands: the functions it knows, the calls and the constructs around it. -/
structure Place where
  functions : Frame Function
  depth : Nat
  constructs : List Construct

namespace Place

/-- Inside one construct more. -/
def inside (p : Place) (c : Construct) : Place := { p with constructs := c :: p.constructs }

/-- All functions a run knows are proper. -/
def Proper (p : Place) : Prop := ∀ name f, p.functions.find? name = some f → Function.Proper f

end Place

namespace Machine

def place (m : Machine) : Place := ⟨m.functions, m.depth, m.constructs⟩

/-- A machine at a place with nothing pending. -/
structure Ready (p : Place) (m : Machine) : Prop extends m.Clean where
  place : m.place = p

/-- A machine at a place after a statement. -/
structure After (p : Place) (m : Machine) : Prop extends m.Settled where
  place : m.place = p

variable {p : Place} {m t : Machine}

theorem Ready.after (h : m.Ready p) : m.After p := ⟨h.toClean.settled, h.place⟩

theorem Ready.constructs (h : m.Ready p) : m.constructs = p.constructs :=
  congrArg Place.constructs h.place

theorem After.constructs (h : m.After p) : m.constructs = p.constructs :=
  congrArg Place.constructs h.place

/-- A step from a machine with nothing pending to another one. -/
theorem Ready.passes (hm : m.Ready p) {q : Place} (ht : t.Ready q) : m.Passes t :=
  hm.toClean.passes (.inl ht.signal)

theorem ready_introduce (h : m.Ready p) {name : String} {ty : Ty} {category : Category}
    {q : Position} {value : Option Value} : (m.introduce name ty category q value).Ready p :=
  ⟨⟨h.signal, h.failure⟩, h.place⟩

theorem ready_enterCall (h : m.Ready p) (name : String) :
    (m.enterCall name).2.Ready ⟨p.functions, p.depth + 1, []⟩ :=
  ⟨⟨h.signal, h.failure⟩, by rw [← h.place]; rfl⟩

theorem ready_leaveCall (h : m.Ready p) {name : String}
    (ht : t.Ready ⟨p.functions, p.depth + 1, []⟩) :
    (t.leaveCall (m.enterCall name).1).Ready p := by
  refine ⟨⟨ht.signal, ht.failure⟩, ?_⟩
  have := ht.place
  simp only [Machine.place, Place.mk.injEq] at this
  rw [← h.place]
  simp only [Machine.place, leaveCall, leaveLabelled, enterCall, Place.mk.injEq]
  have hp := h.place
  subst hp
  simp [this.1, this.2.1, Machine.place]

/-- `break` and `continue` come up where nothing is pending, `break` for the nearest construct. -/
theorem after_requestBreak (h : m.Ready p) :
    m.requestBreak.After p ∧ ∃ g, m.requestBreak.signal = some g ∧
      ∀ c ∈ m.requestBreak.constructs.head?, g.ownedBy c = true := by
  refine ⟨⟨⟨.inr h.failure, fun hf => absurd h.failure hf, fun hs => ?_⟩, h.place⟩, _, rfl, ?_⟩
  · simp only [requestBreak, Option.some.injEq] at hs ⊢
    split at hs
    · assumption
    · cases hs
  · rintro (_ | _) hc <;> simp_all [requestBreak, Signal.ownedBy]

theorem after_request (h : m.Ready p) {g : Signal} (hg : g ≠ .breakSwitch) :
    Machine.After p { m with signal := some g } :=
  ⟨⟨.inr h.failure, fun hf => absurd h.failure hf, fun hs => by simp_all⟩, h.place⟩

/-- What a switch does with what one of its cases leaves pending. -/
theorem consume_breakSwitch (h : m.After p) (hp : p.constructs.head? = some .switch) :
    m.Passes (m.consume .breakSwitch).2 ∧ (m.consume .breakSwitch).2.After p ∧
      (m.consume .breakSwitch).2.signal ≠ some .breakSwitch := by
  have hs := h.single
  simp only [consume]
  split
  · rename_i g hg
    have hf : m.failure = none := by simpa [hg] using hs
    cases g <;> simp only [Signal.same, Bool.false_eq_true, ↓reduceIte]
    case breakSwitch =>
      refine ⟨⟨.inl rfl, fun d hd => by simp [hf] at hd, fun g hg' => .inr ⟨rfl, rfl, ?_⟩,
        fun d hd => .inl hd, fun g hg' => by simp at hg'⟩,
        ⟨⟨.inl rfl, fun hn => absurd hf hn, fun hb => by simp at hb⟩, h.place⟩, by simp⟩
      rw [h.constructs, hp]
      simp_all [Signal.ownedBy]
    all_goals exact ⟨h.toSettled.passes rfl rfl rfl, h, by simp [hg]⟩
  · rename_i hg
    exact ⟨h.toSettled.passes rfl rfl rfl, h, by simp [hg]⟩

/-- What a loop does with what its body leaves pending. It goes on only if nothing is. -/
theorem continueLooping_spec (h : m.After p) (hp : p.constructs.head? = some .loop) :
    m.Passes m.continueLooping.2 ∧ m.continueLooping.2.After p ∧
      m.continueLooping.2.OnlyReturns ∧
      (m.continueLooping.1 = true → m.continueLooping.2.Clean) := by
  have hs := h.single
  have hsw : m.signal ≠ some .breakSwitch := fun hb => by
    have := h.inSwitch hb
    simp [h.constructs, hp] at this
  rcases hg : m.signal with _ | g
  · have hc : m.continueLooping = (!m.pending, m) := by simp [continueLooping, consume, hg]
    rw [hc]
    exact ⟨h.toSettled.passes rfl rfl rfl, h, .inl hg,
      fun hb => clean_of_pending (by simpa using hb)⟩
  · have hf : m.failure = none := by simpa [hg] using hs
    have htaken : ∀ g', m.signal = some g' → g'.ownedBy .loop = true →
        m.Passes { m with signal := none } ∧ Machine.After p { m with signal := none } := by
      intro g' hg' ho
      refine ⟨⟨.inl rfl, fun d hd => by simp [hf] at hd, fun g hg => .inr ⟨rfl, rfl, ?_⟩,
        fun d hd => .inl hd, fun g hg => by simp at hg⟩,
        ⟨.inl rfl, fun hn => absurd hf hn, fun hb => by simp at hb⟩, h.place⟩
      rw [h.constructs, hp]
      simp_all
    cases g with
    | breakSwitch => exact absurd hg hsw
    | breakLoop =>
      obtain ⟨hpass, hafter⟩ := htaken _ hg rfl
      have hc : m.continueLooping = (false, { m with signal := none }) := by
        simp [continueLooping, consume, hg, Signal.same]
      rw [hc]
      exact ⟨hpass, hafter, .inl rfl, by simp⟩
    | continueLoop =>
      obtain ⟨hpass, hafter⟩ := htaken _ hg rfl
      have hc : m.continueLooping =
          (!Machine.pending { m with signal := none }, { m with signal := none }) := by
        simp [continueLooping, consume, hg, Signal.same]
      rw [hc]
      exact ⟨hpass, hafter, .inl rfl, fun _ => ⟨rfl, hf⟩⟩
    | giveBack v =>
      have hc : m.continueLooping = (!m.pending, m) := by
        simp [continueLooping, consume, hg, Signal.same]
      rw [hc]
      exact ⟨h.toSettled.passes rfl rfl rfl, h, .inr ⟨v, hg⟩,
        fun hb => clean_of_pending (by simpa using hb)⟩

end Machine

namespace Watched

open Eval Machine

variable {α β : Type} {p q : Place} {n : Nat} {Q Q' : Machine → Prop}

/-- A statement that begins at a place with nothing pending and ends at that place. -/
def Ends (p : Place) (x : Watched Unit) (Q : Machine → Prop) : Prop :=
  ∀ callers m, m.Ready p → Meets Event.Disciplined x callers m (fun _ t => t.After p ∧ Q t)
    (fun _ => Ready p)

theorem stable_ready : Stable Event.Disciplined (Ready p) where
  store _ h := ⟨⟨h.signal, h.failure⟩, h.place⟩
  steps _ h := h.toClean.passes (.inl h.signal)
  expr _ h := ⟨h.toClean, fun _ => h.toClean, fun _ => h.toClean⟩
  exprFor _ _ h := ⟨h.toClean, fun _ => h.toClean, fun _ => h.toClean⟩

theorem preserves_update {f : Machine → Machine} (hf : ∀ m, m.Ready p → (f m).Ready p) :
    Preserves Event.Disciplined (Ready p) (update f) := fun _ _ h =>
  meets_update (h.passes (hf _ h)) (hf _ h)

theorem preserves_note {d : Diagnostic} :
    Preserves Event.Disciplined (Ready p) (update (·.note d)) :=
  preserves_update fun _ h => ⟨⟨h.signal, h.failure⟩, h.place⟩

theorem preserves_declare {name : String} {ty : Ty} {category : Category} {o : Position}
    {value : Option Value} :
    Preserves Event.Disciplined (Ready p) (declare name ty category o value) :=
  preserves_look.bind fun _ => preserves_update fun _ h => ready_introduce h

theorem preserves_assign {name : String} {v : Value} {o : Position} :
    Preserves Event.Disciplined (Ready p) (assign name v o) :=
  preserves_look.bind fun _ => preserves_update fun _ h => ⟨⟨h.signal, h.failure⟩, h.place⟩

theorem preserves_declareParameters : ∀ (qs : List Parameter) (vs : List Value),
    Preserves Event.Disciplined (Ready p) (declareParameters qs vs)
  | [], _ => preserves_pure
  | _ :: _, [] => preserves_pure
  | _ :: qs, _ :: vs => preserves_declare.bind fun _ => preserves_declareParameters qs vs

theorem preserves_declareWith {name : String} {ty : Ty} {o : Position} {x : Watched Value}
    (hx : Preserves Event.Disciplined (Ready p) x) :
    Preserves Event.Disciplined (Ready p) (declareWith name ty o x) := by
  refine Preserves.bind (fun callers m h => meets_attempt (hx callers m h)) ?_
  rintro (d | v)
  · exact preserves_declare.bind fun _ => preserves_fail
  · exact preserves_declare

theorem Preserves.ends {x : Watched Unit} (hx : Preserves Event.Disciplined (Ready p) x) :
    Ends p x Clean := fun callers m h =>
  (hx callers m h).imp (fun _ _ h => ⟨h.after, h.toClean⟩) fun _ _ h => h

theorem Preserves.bindEnds {x : Watched α} {f : α → Watched Unit}
    (hx : Preserves Event.Disciplined (Ready p) x) (hf : ∀ a, Ends p (f a) Q) :
    Ends p (x >>= f) Q := fun callers m h =>
  (hx callers m h).bind fun a t ht => hf a callers t ht

theorem ends_exhausted : Ends p (Runs.exhausted : Watched Unit) Q := fun _ _ _ => meets_exhausted

theorem ends_return (h : ∀ t, t.Clean → Q t) : Ends p (pure () : Watched Unit) Q := fun _ _ ht =>
  meets_pure ⟨ht.after, h _ ht.toClean⟩

theorem Ends.between {enter leave : Machine → Machine} {x : Watched Unit} (hx : Ends q x Q)
    (he : ∀ m, m.Ready p → (enter m).Ready q)
    (hl : ∀ t, t.After q → Q t → t.Passes (leave t) ∧ (leave t).After p ∧ Q' (leave t))
    (hr : ∀ t, t.Ready q → (leave t).Ready p) : Ends p (between enter leave x) Q' := by
  intro callers m h
  refine meets_between (h.passes (he m h)) ((hx callers _ (he m h)).imp ?_ ?_)
  · rintro _ t ⟨ht, hQ⟩
    exact hl t ht hQ
  · exact fun _ t ht => ⟨ht.passes (hr t ht), hr t ht⟩

theorem Ends.inScope {x : Watched Unit} (hx : Ends p x fun _ => True) :
    Ends p (inScope x) fun _ => True :=
  Ends.between hx (fun _ h => ⟨⟨h.signal, h.failure⟩, h.place⟩)
    (fun _ h _ => ⟨h.toSettled.passes rfl rfl rfl,
      ⟨⟨h.single, h.inCall, h.inSwitch⟩, h.place⟩, trivial⟩)
    fun _ h => ⟨⟨h.signal, h.failure⟩, h.place⟩

theorem Ends.inLabelled {x : Watched Unit} {label : String} (hx : Ends p x Q)
    (hQ : ∀ t, Q t → Q t.leaveLabelled) : Ends p (inLabelled label x) Q :=
  Ends.between hx (fun _ h => ⟨⟨h.signal, h.failure⟩, h.place⟩)
    (fun t h ht => ⟨h.toSettled.passes rfl rfl rfl,
      ⟨⟨h.single, h.inCall, h.inSwitch⟩, h.place⟩, hQ t ht⟩)
    fun _ h => ⟨⟨h.signal, h.failure⟩, h.place⟩

/-- A construct is left by what it does not own, which is no `break` of a switch. -/
theorem Ends.inConstruct {x : Watched Unit} {c : Construct} (hx : Ends (p.inside c) x Q)
    (ho : ∀ t, Q t → ∀ g, t.signal = some g → g.ownedBy c = false ∧ g ≠ .breakSwitch)
    (hQ : ∀ t, Q t → Q t.leaveConstruct) : Ends p (inConstruct c x) Q := by
  have hplace : ∀ t : Machine, t.place = p.inside c → t.leaveConstruct.place = p := by
    rintro t ht
    simp only [Machine.place, Place.inside, Place.mk.injEq] at ht
    simp [Machine.place, leaveConstruct, ht]
  refine Ends.between hx (fun m h => ⟨⟨h.signal, h.failure⟩, ?_⟩) (fun t h ht => ?_)
    fun t h => ⟨⟨h.signal, h.failure⟩, hplace t h.place⟩
  · rw [← h.place]
    rfl
  · refine ⟨h.toSettled.passes_leave h.constructs fun g hg => (ho t ht g hg).1,
      ⟨⟨h.single, h.inCall, fun hs => ?_⟩, hplace t h.place⟩, hQ t ht⟩
    exact absurd rfl (ho t ht _ hs).2

theorem Ends.withinStmt {s : Stmt} {x : Watched Unit} (hx : Ends p x s.Leaves) :
    Ends p (Runs.within (.stmt s) x) s.Leaves := fun callers m h =>
  meets_within (j := .stmt s) h.toClean <| (hx callers m h).imp
    (fun _ _ ht => ⟨⟨ht.2, ht.1.toSettled⟩, ht⟩) fun _ _ ht => ⟨ht.toClean, ht⟩

/-- A failure that a call keeps is the only thing pending. -/
theorem Ends.guarded {x : Watched Unit} (hx : Ends p x Q) :
    Ends p (guarded x) fun _ => True := by
  intro callers m h
  refine meets_guarded ((hx callers m h).imp (fun _ _ ht => ⟨ht.1, trivial⟩) fun d t ht => ?_)
  refine ⟨fun hc => ⟨ht.toClean, ht.toClean.passes (.inl ht.signal), ⟨ht.signal, rfl⟩, ?_⟩,
    fun _ => ?_⟩
  · refine ⟨⟨⟨.inl ht.signal, fun _ => ?_, fun hs => ?_⟩, ht.place⟩, trivial⟩
    · change 0 < t.depth
      simpa [Machine.inCall] using hc
    · simp [Machine.fail, ht.signal] at hs
  · have hn : (t.note d).Ready p := ⟨⟨ht.signal, ht.failure⟩, ht.place⟩
    exact ⟨ht.passes hn, hn.after, trivial⟩

/-- The value a call gives back, taken from what its body leaves pending. -/
theorem conclude_meets {f : Function} {callers : List Caller} {m : Machine} (h : m.After p)
    (hp : p.constructs = []) :
    Meets Event.Disciplined (conclude f) callers m (fun _ => Ready p) (fun _ => Ready p) := by
  have hc := h.constructs.trans hp
  refine Meets.bind (R := fun r t => r = m.failure ∧ t = { m with failure := none })
    (meets_step (h.toSettled.passes_take hc (.inl rfl) (.inr rfl) rfl) ⟨rfl, rfl⟩) ?_
  rintro r t ⟨rfl, rfl⟩
  have hs : Machine.After p { m with failure := none } :=
    ⟨⟨.inr rfl, fun hn => absurd rfl hn, h.inSwitch⟩, h.place⟩
  split
  · rename_i d hd
    have hsig : m.signal = none := by simpa [hd] using h.single
    exact meets_fail ⟨⟨hsig, rfl⟩, h.place⟩
  · refine Meets.bind (R := fun _ t => t.After p ∧ t.failure = none) (meets_step ?_ ?_)
      fun v t ht => Meets.bind (R := fun _ t => t.Ready p) (meets_step ?_ ?_) fun g t ht => ?_
    · refine hs.toSettled.passes_take hc ?_ (.inl ?_) ?_ <;>
        simp only [takeReturn] <;> split <;> simp
    · simp only [takeReturn]
      split
      · exact ⟨⟨⟨.inl rfl, hs.inCall, by simp⟩, h.place⟩, rfl⟩
      · exact ⟨hs, rfl⟩
    · exact ht.1.toSettled.passes_take (ht.1.constructs.trans hp) (.inr rfl) (.inl rfl) rfl
    · exact ⟨⟨rfl, ht.2⟩, ht.1.place⟩
    · split
      · exact Meets.bind (preserves_note _ _ ht) fun _ _ h => meets_pure h
      · exact meets_pure ht

/-- A loop does not own what its rounds leave pending. -/
theorem onlyReturns_unowned (t : Machine) (h : t.OnlyReturns) (g : Signal)
    (hg : t.signal = some g) : g.ownedBy .loop = false ∧ g ≠ .breakSwitch := by
  rcases h with h | ⟨v, h⟩ <;> rw [h] at hg <;> cases hg
  exact ⟨rfl, by simp⟩

/-- Every part of the evaluator keeps to the discipline. -/
structure Disciplined (n : Nat) : Prop where
  values : ∀ {p}, p.Proper → Evaluates Event.Disciplined (Ready p) n
  call : ∀ {p}, p.Proper → ∀ f es o, Preserves Event.Disciplined (Ready p) (call n f es o)
  stmt : ∀ {p s}, p.Proper → s.Proper → Ends p (stmt n s) fun _ => True
  stmts : ∀ {p ss}, p.Proper → (∀ s ∈ ss, s.Proper) → Ends p (stmts n ss) fun _ => True
  block : ∀ {p} {b : Block}, p.Proper → (∀ s ∈ b.body, s.Proper) →
    Ends p (block n b) fun _ => True
  perform : ∀ {p s}, p.Proper → s.Proper → Ends p (perform n s) s.Leaves
  header : ∀ {p s}, p.Proper → (∀ s' ∈ s, s'.isFirst = true) → (∀ s' ∈ s, s'.Proper) →
    Preserves Event.Disciplined (Ready p) (header n s)
  switch : ∀ {p v} {cs : List Case} {d : Option (List Stmt)} {b}, p.Proper →
    p.constructs.head? = some .switch → (∀ c ∈ cs, ∀ s ∈ c.body, s.Proper) →
    (∀ body ∈ d, ∀ s ∈ body, s.Proper) →
    Ends p (switch n v cs d b) (·.signal ≠ some .breakSwitch)
  whileLoop : ∀ {p e} {b : Block}, p.Proper → p.constructs.head? = some .loop →
    (∀ s ∈ b.body, s.Proper) → Ends p (whileLoop n e b) OnlyReturns
  doLoop : ∀ {p e} {b : Block}, p.Proper → p.constructs.head? = some .loop →
    (∀ s ∈ b.body, s.Proper) → Ends p (doLoop n b e) OnlyReturns
  forLoop : ∀ {p e s} {b : Block}, p.Proper → p.constructs.head? = some .loop →
    (∀ s' ∈ s, s'.isFirst = true) → (∀ s' ∈ s, s'.Proper) → (∀ s ∈ b.body, s.Proper) →
    Ends p (forLoop n e s b) OnlyReturns

theorem disciplined_zero : Disciplined 0 where
  values _ := .zero
  call _ _ _ _ := preserves_exhausted
  stmt _ _ := ends_exhausted
  stmts _ _ := ends_exhausted
  block _ _ := ends_exhausted
  perform _ _ := ends_exhausted
  header _ _ _ := preserves_exhausted
  switch _ _ _ _ := ends_exhausted
  whileLoop _ _ _ := ends_exhausted
  doLoop _ _ _ := ends_exhausted
  forLoop _ _ _ _ _ := ends_exhausted

namespace Disciplined

variable (ih : Disciplined n)
include ih

theorem call_succ (hp : p.Proper) (f : String) (es : List Expr) (o : Position) :
    Preserves Event.Disciplined (Ready p) (Eval.call (n + 1) f es o) := by
  intro callers m h
  rw [Eval.call]
  refine meets_within (j := .call f es o) h.toClean ?_
  suffices hb : Meets Event.Disciplined _ callers m (fun _ => Ready p) (fun _ => Ready p) from
    hb.imp (fun _ _ ht => ⟨ht.toClean, ht⟩) fun _ _ ht => ⟨ht.toClean, ht⟩
  refine Meets.bind (R := fun r t => t.Ready p ∧ r = p.functions.find? f)
    (meets_read ⟨h, by rw [← h.place]; rfl⟩) ?_
  rintro _ t ⟨ht, rfl⟩
  refine Meets.bind (R := fun g t => t.Ready p ∧ g.Proper)
    (meets_ofOption (fun g hg => ⟨ht, hp f g hg⟩) fun _ => ht) ?_
  rintro g t ⟨ht, hg⟩
  refine (preserves_ofExcept.bind fun _ => ((ih.values hp).exprs es).bind fun vs =>
    preserves_ofResult.bind fun bound => Preserves.bind (fun callers m hm => ?_) fun _ =>
    preserves_ofExcept) callers t ht
  have hm' := ready_enterCall hm g.name
  refine meets_inCall (fun _ => hm) (fun _ => hm.passes hm') fun _ => ?_
  have hbody : ∀ callers t, t.Ready ⟨p.functions, p.depth + 1, []⟩ →
      Meets Event.Disciplined (do
        declareParameters g.parameters bound
        Eval.stmts n g.body.body
        conclude g) callers t (fun _ => Ready ⟨p.functions, p.depth + 1, []⟩)
        (fun _ => Ready ⟨p.functions, p.depth + 1, []⟩) := fun callers t ht =>
    (preserves_declareParameters _ _ callers t ht).bind fun _ t ht =>
      (ih.stmts (p := ⟨p.functions, p.depth + 1, []⟩) hp hg.2.2 callers t ht).bind
        fun _ t ht => conclude_meets ht.1 rfl
  exact (hbody _ _ hm').imp
    (fun _ t ht => ⟨ht.passes (ready_leaveCall hm ht), ready_leaveCall hm ht⟩)
    fun _ t ht => ⟨ht.passes (ready_leaveCall hm ht), ready_leaveCall hm ht⟩

theorem stmts_succ (hp : p.Proper) : ∀ {ss : List Stmt}, (∀ s ∈ ss, s.Proper) →
    Ends p (Eval.stmts (n + 1) ss) fun _ => True
  | [], _ => ends_return fun _ _ => trivial
  | s :: ss, h => by
    intro callers m hm
    refine (ih.stmt hp (h s List.mem_cons_self) callers m hm).bind fun _ t ht => ?_
    refine Meets.bind (R := fun b u => u = t ∧ b = t.pending) (meets_read ⟨rfl, rfl⟩) ?_
    rintro b u ⟨rfl, rfl⟩
    split
    · exact meets_pure ht
    · exact ih.stmts hp (fun s hs => h s (List.mem_cons_of_mem _ hs)) callers _
        ⟨clean_of_pending (Bool.eq_false_iff.2 ‹_›), ht.1.place⟩

theorem perform_succ (hp : p.Proper) {s : Stmt} (hs : s.Proper) :
    Ends p (Eval.perform (n + 1) s) s.Leaves := by
  simp only [Eval.perform]
  refine Ends.withinStmt ?_
  have hv := ih.values hp
  cases hs with
  | @declare _ name ty value _ =>
    cases value with
    | none => exact preserves_declare.ends
    | some e =>
      exact (preserves_declareWith ((hv.exprFor e ty).bind fun _ => preserves_ofExcept)).ends
  | @assign _ name value =>
    exact (preserves_look.bind fun _ => (hv.exprFor value _).bind fun _ => preserves_assign).ends
  | @assignIndex _ target index column value =>
    exact ((hv.expr target).bind fun _ => (hv.indexOf index).bind fun _ =>
      (hv.indexOf? column).bind fun _ => (hv.expr value).bind fun _ => stable_ready.edit).ends
  | @step _ target up h =>
    cases target <;> simp only [Expr.isTarget, Bool.false_eq_true] at h
    case name =>
      exact (preserves_look.bind fun _ => preserves_ofExcept.bind fun _ => preserves_assign).ends
    case index _ target index =>
      exact ((hv.expr target).bind fun _ => (hv.indexOf index).bind fun _ =>
        preserves_ask.bind fun _ => preserves_ofExcept.bind fun _ => stable_ready.edit).ends
    case cell _ target index column =>
      exact ((hv.expr target).bind fun _ => (hv.indexOf index).bind fun _ =>
        (hv.indexOf column).bind fun _ => preserves_ask.bind fun _ => preserves_ask.bind fun _ =>
        preserves_ofExcept.bind fun _ => stable_ready.edit).ends
  | block h => exact ih.block hp h
  | branch h _ h' =>
    refine (hv.condition _ _).bindEnds fun b => ?_
    split
    · exact ih.block hp h
    · split
      · exact ih.stmt hp (h' _ rfl)
      · exact ends_return fun _ _ => trivial
  | switch h h' =>
    refine (hv.expr _).bindEnds fun v => Ends.inLabelled (Ends.inConstruct
      (ih.switch (p := p.inside .switch) hp rfl h h') (fun t ht g hg => ?_) fun _ h => h)
      fun _ h => h
    cases g
    case breakSwitch => exact absurd hg ht
    all_goals exact ⟨rfl, by simp⟩
  | whileLoop h =>
    exact Ends.inLabelled (Ends.inConstruct (ih.whileLoop (p := p.inside .loop) hp rfl h)
      onlyReturns_unowned fun _ h => h) fun _ h => h
  | doLoop h =>
    exact Ends.inLabelled (Ends.inConstruct (ih.doLoop (p := p.inside .loop) hp rfl h)
      onlyReturns_unowned fun _ h => h) fun _ h => h
  | forLoop hf hf' hn hn' h =>
    exact Ends.inLabelled ((ih.header hp hf hf').bindEnds fun _ => Ends.inConstruct
      (ih.forLoop (p := p.inside .loop) hp rfl (fun s hs => Stmt.isFirst_of_isSimple (hn s hs))
        hn' h) onlyReturns_unowned fun _ h => h) fun _ h => h
  | breakOut =>
    intro callers m h
    obtain ⟨ha, hg⟩ := after_requestBreak h
    exact meets_update (h.toClean.passes (.inr h.failure)) ⟨ha, hg⟩
  | continueOn =>
    intro callers m h
    exact meets_update (h.toClean.passes (.inr h.failure)) ⟨after_request h (by simp), rfl⟩
  | print =>
    exact ((hv.expr _).bind fun v => preserves_update (f := fun m => m.print (m.store.text v))
      fun _ h => ⟨⟨h.signal, h.failure⟩, h.place⟩).ends
  | function => exact preserves_pure.ends
  | @giveBack _ value =>
    have hreturn : ∀ v, Ends p (update (·.requestReturn v)) fun t =>
        ∃ v, t.signal = some (.giveBack v) := fun v callers m h =>
      meets_update (h.toClean.passes (.inr h.failure)) ⟨after_request h (by simp), v, rfl⟩
    cases value with
    | none => exact hreturn .void
    | some e => exact (hv.expr e).bindEnds hreturn
  | start => exact ((ih.call hp _ _ _).bind fun _ => preserves_pure).ends
  | expression => exact ((hv.expr _).bind fun _ => preserves_pure).ends

theorem header_succ (hp : p.Proper) : ∀ {s : Option Stmt}, (∀ s' ∈ s, s'.isFirst = true) →
    (∀ s' ∈ s, s'.Proper) → Preserves Event.Disciplined (Ready p) (Eval.header (n + 1) s)
  | none, _, _ => preserves_pure
  | some s, hf, hs => by
    intro callers m hm
    refine (ih.perform hp (hs s rfl) callers m hm).imp (fun _ t ht => ?_) fun _ _ h => h
    -- Nothing that can stand in a header leaves anything pending.
    have hc : t.Clean := by
      have := hf s rfl
      have := ht.2
      cases s <;> simp_all [Stmt.isFirst, Stmt.isSimple, Stmt.Leaves]
    exact ⟨hc, ht.1.place⟩

theorem switch_succ (hp : p.Proper) (hs : p.constructs.head? = some .switch) {v : Value} :
    ∀ {cs : List Case} {d : Option (List Stmt)} {b : Bool}, (∀ c ∈ cs, ∀ s ∈ c.body, s.Proper) →
      (∀ body ∈ d, ∀ s ∈ body, s.Proper) →
      Ends p (Eval.switch (n + 1) v cs d b) (·.signal ≠ some .breakSwitch)
  | [], none, _, _, _ => ends_return fun _ h => by simp [h.signal]
  | [], some body, _, _, hd => by
    intro callers m hm
    refine (ih.stmts hp (hd body rfl) callers m hm).bind fun _ t ht => ?_
    obtain ⟨hpass, hafter, hn⟩ := consume_breakSwitch ht.1 hs
    exact Meets.bind (R := fun _ u => u.After p ∧ u.signal ≠ some .breakSwitch)
      (meets_step hpass ⟨hafter, hn⟩) fun _ _ h => meets_pure h
  | c :: rest, d, false, hc, hd => by
    simp only [Eval.switch]
    refine ((ih.values hp).expr c.value).bindEnds fun w => preserves_read.bindEnds fun b => ?_
    split
    · exact ih.switch hp hs hc hd
    · exact ih.switch hp hs (fun c h => hc c (List.mem_cons_of_mem _ h)) hd
  | c :: rest, d, true, hc, hd => by
    intro callers m hm
    simp only [Eval.switch]
    refine (ih.stmts hp (hc c List.mem_cons_self) callers m hm).bind fun _ t ht => ?_
    obtain ⟨hpass, hafter, hn⟩ := consume_breakSwitch ht.1 hs
    refine Meets.bind (R := fun _ u => u.After p ∧ u.signal ≠ some .breakSwitch)
      (meets_step hpass ⟨hafter, hn⟩) fun b u hu => ?_
    split
    · exact meets_pure hu
    · refine Meets.bind (R := fun b w => w = u ∧ b = u.pending) (meets_read ⟨rfl, rfl⟩) ?_
      rintro b u ⟨rfl, rfl⟩
      split
      · exact meets_pure hu
      · exact ih.switch hp hs (fun c h => hc c (List.mem_cons_of_mem _ h)) hd callers _
          ⟨clean_of_pending (Bool.eq_false_iff.2 ‹_›), hu.1.place⟩

/-- One round of a loop: its body, and what comes after if nothing is left pending. -/
theorem round (hp : p.Proper) (hl : p.constructs.head? = some .loop) {b : Block}
    (hb : ∀ s ∈ b.body, s.Proper) {x : Watched Unit} (hx : Ends p x OnlyReturns) :
    Ends p (do
      Eval.block n b
      if ← Runs.step Machine.continueLooping then x else return ()) OnlyReturns := by
  intro callers m hm
  refine (ih.block hp hb callers m hm).bind fun _ t ht => ?_
  obtain ⟨hpass, hafter, hret, hclean⟩ := continueLooping_spec ht.1 hl
  refine Meets.bind (R := fun b u => u.After p ∧ u.OnlyReturns ∧ (b = true → u.Clean))
    (meets_step hpass ⟨hafter, hret, hclean⟩) ?_
  rintro b u ⟨hu, hr, hc⟩
  split
  · exact hx callers u ⟨hc ‹_›, hu.place⟩
  · exact meets_pure ⟨hu, hr⟩

theorem whileLoop_succ (hp : p.Proper) (hl : p.constructs.head? = some .loop) {e : Expr}
    {b : Block} (hb : ∀ s ∈ b.body, s.Proper) :
    Ends p (Eval.whileLoop (n + 1) e b) OnlyReturns := by
  refine ((ih.values hp).condition e _).bindEnds fun c => ?_
  split
  · exact ih.round hp hl hb (ih.whileLoop hp hl hb)
  · exact ends_return fun _ h => .inl h.signal

theorem doLoop_succ (hp : p.Proper) (hl : p.constructs.head? = some .loop) {e : Expr}
    {b : Block} (hb : ∀ s ∈ b.body, s.Proper) :
    Ends p (Eval.doLoop (n + 1) b e) OnlyReturns := by
  refine ih.round hp hl hb (((ih.values hp).condition e _).bindEnds fun c => ?_)
  split
  · exact ih.doLoop hp hl hb
  · exact ends_return fun _ h => .inl h.signal

theorem forLoop_succ (hp : p.Proper) (hl : p.constructs.head? = some .loop) {e : Option Expr}
    {s : Option Stmt} {b : Block} (hf : ∀ s' ∈ s, s'.isFirst = true) (hs : ∀ s' ∈ s, s'.Proper)
    (hb : ∀ s ∈ b.body, s.Proper) : Ends p (Eval.forLoop (n + 1) e s b) OnlyReturns := by
  refine ((ih.values hp).goesOn e).bindEnds fun c => ?_
  split
  · exact ih.round hp hl hb ((ih.header hp hf hs).bindEnds fun _ => ih.forLoop hp hl hf hs hb)
  · exact ends_return fun _ h => .inl h.signal

end Disciplined

theorem disciplined (n : Nat) : Disciplined n := by
  induction n with
  | zero => exact disciplined_zero
  | succ n ih =>
    exact {
      values := fun hp => .succ stable_ready (ih.values hp) (ih.call hp)
      call := fun hp => ih.call_succ hp
      stmt := fun hp hs => (ih.perform hp hs).guarded
      stmts := fun hp hs => ih.stmts_succ hp hs
      block := fun hp hb => (ih.stmts hp hb).inScope
      perform := fun hp hs => ih.perform_succ hp hs
      header := fun hp hf hs => ih.header_succ hp hf hs
      switch := fun hp hs hc hd => ih.switch_succ hp hs hc hd
      whileLoop := fun hp hl hb => ih.whileLoop_succ hp hl hb
      doLoop := fun hp hl hb => ih.doLoop_succ hp hl hb
      forLoop := fun hp hl hf hs hb => ih.forLoop_succ hp hl hf hs hb }

theorem topLevel_preserves (hp : p.Proper) (hd : p.depth = 0) (hc : p.constructs = []) :
    ∀ {n : Nat} {ss : List Stmt}, (∀ s ∈ ss, s.Proper) →
      Preserves Event.Disciplined (Ready p) (topLevel n ss)
  | 0, _, _ => preserves_exhausted
  | _ + 1, [], _ => preserves_pure
  | n + 1, s :: ss, h => by
    have hrest := topLevel_preserves hp hd hc (n := n) fun s hs => h s (List.mem_cons_of_mem _ hs)
    cases s
    case function => exact hrest
    all_goals
      intro callers m hm
      refine ((disciplined n).stmt hp (h _ List.mem_cons_self) callers m hm).bind fun _ t ht => ?_
      have ht := ht.1
      have hf : t.failure = none := Decidable.by_contra fun hf => by
        have := ht.inCall hf
        have hdepth : t.depth = p.depth := congrArg Place.depth ht.place
        omega
      refine Meets.bind (R := fun _ u => u.Ready p)
        (meets_step (ht.toSettled.passes_take (ht.constructs.trans hc) (.inr rfl) (.inl rfl) rfl)
          ⟨⟨rfl, hf⟩, ht.place⟩) fun g u hu => ?_
      split
      · exact preserves_note callers u hu
      · exact hrest callers u hu

end Watched

/-- Before the first statement nothing is pending. -/
theorem Program.ready_loaded {p : Program} (h : p.Proper) (limit : Nat) :
    ∃ q : Place, q.Proper ∧ q.depth = 0 ∧ q.constructs = [] ∧ (p.loaded limit).Ready q := by
  refine ⟨⟨(p.loaded limit).functions, 0, []⟩, fun name f hf => ?_, rfl, rfl, ?_⟩
  · exact h.function (p.mem_of_function_loaded hf)
  · rw [p.loaded_eq limit]
    exact ⟨⟨rfl, rfl⟩, rfl⟩

/-- In every run of a program that was read, what is pending keeps to the discipline, every jump is
delivered to the nearest construct that owns it, and nothing is pending at the end. -/
theorem Program.signals_delivered {tokens : List Token} {p : Program}
    (h : Program.ofTokens tokens = .ok p) (fuel limit : Nat) :
    (∀ e ∈ p.history fuel limit, e.Disciplined) ∧
      (∀ es callers m t rest g, p.history fuel limit = es ++ .steps callers m t :: rest →
        t.signal = some g → Delivered g t.constructs rest) ∧
      ∀ m, p.execute fuel limit = some m → m.Clean := by
  have hp := proper_of_ofTokens h
  obtain ⟨q, hq, hd, hc, hm⟩ := p.ready_loaded hp limit
  obtain ⟨he, ho⟩ := Watched.topLevel_preserves hq hd hc hp [] _ hm
  refine ⟨he, fun es callers m t rest g hes hg => ?_, fun m hm => ?_⟩
  · have hpath := (p.record fuel limit).path
    rw [← Program.history, hes] at hpath
    refine hpath.after.delivered (fun e hin => he e ?_) hg
    rw [← Program.record, ← Program.history, hes]
    exact List.mem_append_right _ (List.mem_cons_of_mem _ hin)
  · rw [Program.execute_eq] at hm
    obtain ⟨r, hr, rfl⟩ := Option.map_eq_some_iff.1 hm
    rw [← Program.record, hr] at ho
    cases r <;> exact ho.toClean

/-- A `continue` in a switch in a loop, in a run that its fuel ends. -/
theorem Program.signals_delivered_continue :
    let p := Program.mk [.whileLoop default (.bool default true)
      ⟨[.switch default (.bool default true) [] (some [.continueOn default])], default⟩]
    (∀ e ∈ p.history 20 1, e.Disciplined) ∧
      ∀ es callers m t rest g, p.history 20 1 = es ++ .steps callers m t :: rest →
        t.signal = some g → Delivered g t.constructs rest :=
  have h := Program.signals_delivered (show Program.ofTokens
    [⟨.whileWord, "while", default⟩, ⟨.openParen, "(", default⟩, ⟨.trueWord, "true", default⟩,
      ⟨.closeParen, ")", default⟩, ⟨.openCurly, "\x7b", default⟩,
      ⟨.switchWord, "switch", default⟩, ⟨.openParen, "(", default⟩, ⟨.trueWord, "true", default⟩,
      ⟨.closeParen, ")", default⟩, ⟨.openCurly, "\x7b", default⟩,
      ⟨.defaultWord, "default", default⟩, ⟨.colon, ":", default⟩,
      ⟨.continueWord, "continue", default⟩, ⟨.semicolon, ";", default⟩,
      ⟨.closeCurly, "\x7d", default⟩, ⟨.closeCurly, "\x7d", default⟩] = .ok _ from rfl) 20 1
  ⟨h.1, h.2.1⟩

end Primer
