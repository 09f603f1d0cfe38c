import Primer.Proofs.History
import Primer.Proofs.Proper
import Primer.Proofs.StoreTyping

/-!
# Types of what a running program holds

Whatever a program does, checked or not, every symbol holds a value of its declared type and the
store keeps to a layout, in the scopes of the running call and in those its callers have set aside
(`Program.store_typed`). Parts of the evaluator are specified from a layout on: they may extend it,
and what they give fits the layout they end with.
-/

namespace Primer

theorem Except.map_eq_ok {ε α β : Type} {f : α → β} {r : Except ε α} {b : β}
    (h : r.map f = .ok b) : ∃ a, r = .ok a ∧ f a = b := by
  cases r with
  | error e => cases h
  | ok a => exact ⟨a, rfl, by simpa [Except.map] using h⟩

/-! ## Scopes -/

/-- All entries of a frame have a property. -/
def Frame.All {β : Type} (P : β → Prop) (frame : Frame β) : Prop := ∀ e ∈ frame, P e.2

/-- All entries of all frames have a property. -/
structure Scopes.All {β : Type} (P : β → Prop) (s : Scopes β) : Prop where
  globals : s.globals.All P
  frames : ∀ frame ∈ s.frames, frame.All P

namespace Frame.All

variable {β : Type} {P : β → Prop} {frame : Frame β} {key : String} {b : β} {f : β → β}

theorem lookup (h : frame.All P) (hb : frame.lookup key = some b) : P b := by
  induction frame with
  | nil => simp at hb
  | cons e frame ih =>
    rw [List.lookup_cons] at hb
    split at hb
    · cases hb
      exact h e List.mem_cons_self
    · exact ih (fun e he => h e (List.mem_cons_of_mem _ he)) hb

theorem change (h : frame.All P) (hf : ∀ b, frame.lookup key = some b → P (f b)) :
    Frame.All P (Frame.change key f frame) := by
  induction frame with
  | nil => exact h
  | cons e frame ih =>
    obtain ⟨k, c⟩ := e
    simp only [Frame.change]
    split
    · rename_i hk
      refine List.forall_mem_cons.2 ⟨hf c ?_, fun e he => h e (List.mem_cons_of_mem _ he)⟩
      simp [List.lookup_cons, hk]
    · rename_i hk
      refine List.forall_mem_cons.2 ⟨h _ List.mem_cons_self,
        ih (fun e he => h e (List.mem_cons_of_mem _ he)) fun b hb => hf b ?_⟩
      simpa [List.lookup_cons, hk] using hb

end Frame.All

namespace Scopes.All

variable {β : Type} {P Q : β → Prop} {s : Scopes β} {name : String} {b : β} {f : β → β}

theorem imp (h : s.All P) (hPQ : ∀ b, P b → Q b) : s.All Q :=
  ⟨fun e he => hPQ _ (h.globals e he), fun frame hf e he => hPQ _ (h.frames frame hf e he)⟩

theorem findIn {key : String} {globals : Frame β} (hg : globals.All P) :
    ∀ {frames : List (Frame β)}, (∀ frame ∈ frames, frame.All P) →
      Scopes.findIn key frames globals = some b → P b
  | [], _, hb => hg.lookup hb
  | frame :: frames, h, hb => by
    obtain ⟨hframe, hframes⟩ := List.forall_mem_cons.1 h
    simp only [Scopes.findIn] at hb
    split at hb
    · cases hb
      exact hframe.lookup ‹_›
    · exact findIn hg hframes hb

theorem get? (h : s.All P) (hb : s.get? name = some b) : P b := findIn h.globals h.frames hb

theorem lookup {p : Position} (h : s.All P) (hb : s.lookup name p = .ok b) : P b := by
  simp only [Scopes.lookup] at hb
  split at hb <;> cases hb
  exact h.get? ‹_›

theorem add (h : s.All P) (hb : P b) : (s.add name b).All P := by
  obtain ⟨globals, _ | ⟨frame, frames⟩, labels⟩ := s
  · exact ⟨List.forall_mem_cons.2 ⟨hb, h.globals⟩, h.frames⟩
  · obtain ⟨hframe, hframes⟩ := List.forall_mem_cons.1 h.frames
    exact ⟨h.globals, List.forall_mem_cons.2 ⟨List.forall_mem_cons.2 ⟨hb, hframe⟩, hframes⟩⟩

theorem changeFirst {key : String} : ∀ {frames frames' : List (Frame β)} {globals : Frame β},
    (∀ frame ∈ frames, frame.All P) → (∀ b, Scopes.findIn key frames globals = some b → P (f b)) →
    Scopes.changeFirst key f frames = some frames' → ∀ frame ∈ frames', frame.All P
  | frame :: frames, frames', globals, h, hf, hc => by
    obtain ⟨hframe, hframes⟩ := List.forall_mem_cons.1 h
    simp only [Scopes.changeFirst] at hc
    split at hc
    · cases hc
      refine List.forall_mem_cons.2 ⟨hframe.change fun b hb => hf b ?_, hframes⟩
      simp [Scopes.findIn, hb]
    · rename_i hnone
      obtain ⟨rest, hrest, rfl⟩ := Option.map_eq_some_iff.1 hc
      have hf : ∀ b, Scopes.findIn key frames globals = some b → P (f b) := fun b hb =>
        hf b (by rw [Scopes.findIn, Option.not_isSome_iff_eq_none.1 hnone, hb])
      exact List.forall_mem_cons.2 ⟨hframe, changeFirst hframes hf hrest⟩

theorem changeFirst_none {key : String} : ∀ {frames : List (Frame β)} {globals : Frame β},
    Scopes.changeFirst key f frames = none →
      Scopes.findIn key frames globals = globals.lookup key
  | [], _, _ => rfl
  | frame :: frames, globals, hc => by
    simp only [Scopes.changeFirst] at hc
    split at hc
    · cases hc
    · rename_i hnone
      rw [Scopes.findIn, Option.not_isSome_iff_eq_none.1 hnone]
      exact changeFirst_none (Option.map_eq_none_iff.1 hc)

/-- A change of the symbol a name stands for. -/
theorem change (h : s.All P) (hf : ∀ b, s.get? name = some b → P (f b)) :
    (s.change name f).All P := by
  simp only [Scopes.change]
  split
  · exact ⟨h.globals, changeFirst h.frames hf ‹_›⟩
  · refine ⟨h.globals.change fun b hb => hf b ?_, h.frames⟩
    rw [Scopes.get?, changeFirst_none ‹_›, hb]

theorem push (h : s.All P) : s.push.All P :=
  ⟨h.globals, List.forall_mem_cons.2 ⟨fun _ he => by simp at he, h.frames⟩⟩

theorem pop (h : s.All P) : s.pop.All P :=
  ⟨h.globals, fun frame hf => h.frames frame (List.mem_of_mem_tail hf)⟩

end Scopes.All

/-! ## Machines -/

/-- A symbol holds a value of its type. -/
structure Symbol.Typed (L : Layout) (s : Symbol) : Prop where
  ty : s.value.ty = s.ty
  fits : s.value.Fits L

/-- Everything a machine holds is of the type it should be. -/
structure Machine.Typed (L : Layout) (m : Machine) : Prop where
  store : m.store.Typed L
  scopes : m.scopes.All (Symbol.Typed L)
  signal : ∀ v, m.signal = some (.giveBack v) → v.Fits L

/-- The symbols a call has set aside are typed. -/
def Caller.Typed (L : Layout) (c : Caller) : Prop :=
  ∀ frame ∈ c.detached.frames, frame.All (Symbol.Typed L)

/-- What a job gives fits a layout. -/
def Job.Fits (L : Layout) : (job : Job) → job.Result → Prop
  | .expr _, v => v.Fits L
  | .exprFor _ _, v => v.Fits L
  | .call _ _ _, v => v.Fits L
  | .stmt _, _ => True
  | .failCall _, _ => True

/-- What the notes of a run say about types: the machine, what the calls have set aside and the
value given keep to a layout. -/
def Event.Typed (L : Layout) : Event → Prop
  | .steps callers _ t => t.Typed L ∧ ∀ c ∈ callers, c.Typed L
  | .enters _ m => m.Typed L
  | .gives job v m => m.Typed L ∧ job.Fits L v
  | .fails _ _ m => m.Typed L

theorem Symbol.Typed.mono {L L' : Layout} {s : Symbol} (h : s.Typed L) (hL : L <+: L') :
    s.Typed L' :=
  ⟨h.ty, h.fits.mono hL⟩

theorem Caller.Typed.mono {L L' : Layout} {c : Caller} (h : c.Typed L) (hL : L <+: L') :
    c.Typed L' :=
  fun frame hf e he => (h frame hf e he).mono hL

namespace Machine

variable {L L' : Layout} {m : Machine} {fs : Frame Function} {callers : List Caller}

/-- A machine and the callers set aside, all typed, with the functions it knows. -/
structure Sound (fs : Frame Function) (callers : List Caller) (L : Layout) (m : Machine) : Prop
    extends m.Typed L where
  callers : ∀ c ∈ callers, c.Typed L
  functions : m.functions = fs

theorem Sound.stored (h : m.Sound fs callers L) {s : Store} (hL : L <+: L') (hs : s.Typed L') :
    Machine.Sound fs callers L' { m with store := s } where
  store := hs
  scopes := h.scopes.imp fun _ hs => hs.mono hL
  signal v hv := (h.signal v hv).mono hL
  callers c hc := (h.callers c hc).mono hL
  functions := h.functions

theorem Sound.rescoped (h : m.Sound fs callers L) {s : Scopes Symbol}
    (hs : s.All (Symbol.Typed L)) : Machine.Sound fs callers L { m with scopes := s } :=
  ⟨⟨h.store, hs, h.signal⟩, h.callers, h.functions⟩

theorem Sound.introduce (h : m.Sound fs callers L) {name : String} {ty : Ty}
    {category : Category} {p : Position} {value : Option Value} (ht : ty ≠ .error)
    (hv : ∀ v ∈ value, v.ty = ty ∧ v.Fits L) :
    ∃ L', L <+: L' ∧ (m.introduce name ty category p value).Sound fs callers L' := by
  cases value with
  | none =>
    obtain ⟨L', hL, hs, hty, hfits⟩ := h.store.default ht
    have h' := h.stored hL hs
    exact ⟨L', hL, ⟨h'.store, h'.scopes.add ⟨hty, hfits⟩, h'.signal⟩, h'.callers, h'.functions⟩
  | some v =>
    obtain ⟨hty, hfits⟩ := hv v rfl
    exact ⟨L, List.prefix_rfl, ⟨h.store, h.scopes.add ⟨hty, hfits⟩, h.signal⟩, h.callers,
      h.functions⟩

theorem Sound.replace (h : m.Sound fs callers L) {name : String} {v w : Value} {p : Position}
    {row : Option Nat} (hv : v.Fits L) (hw : m.fit name v p = .ok (w, row)) :
    (m.replace name w row).Sound fs callers L := by
  refine ⟨⟨h.store, h.scopes.change fun b hb => ?_, h.signal⟩, h.callers, h.functions⟩
  simp only [fit, Scopes.lookup, hb] at hw
  split at hw <;> cases hw
  have hc := Value.convert_ok ‹_›
  exact ⟨Value.coerce?_ty hc, Value.coerce?_fits hc hv⟩

theorem Sound.enterCall (h : m.Sound fs callers L) (name : String) :
    (m.enterCall name).2.Sound fs ((m.enterCall name).1 :: callers) L :=
  ⟨⟨h.store, ⟨h.scopes.globals, by simp [Machine.enterCall, enterLabelled, Scopes.detach,
      Scopes.pushLabel, Scopes.push, Frame.All]⟩, h.signal⟩,
    List.forall_mem_cons.2 ⟨h.scopes.frames, h.callers⟩, h.functions⟩

theorem Sound.leaveCall {c : Caller} (h : m.Sound fs (c :: callers) L) :
    (m.leaveCall c).Sound fs callers L :=
  have hc := List.forall_mem_cons.1 h.callers
  ⟨⟨h.store, ⟨h.scopes.globals, hc.1⟩, h.signal⟩, hc.2, h.functions⟩

end Machine

namespace Watched

open Eval Machine

variable {α β : Type} {fs : Frame Function} {callers : List Caller} {L L' : Layout}
  {P Q : Layout → α → Prop} {x : Watched α}

/-- From a layout on, a computation keeps everything typed and gives what `P` says for the layout
it ends with. -/
def Yields (fs : Frame Function) (callers : List Caller) (L : Layout) (x : Watched α)
    (P : Layout → α → Prop) : Prop :=
  ∀ m, m.Sound fs callers L → Meets (fun e => ∃ L, e.Typed L) x callers m
    (fun a t => ∃ L', L <+: L' ∧ t.Sound fs callers L' ∧ P L' a)
    (fun _ t => ∃ L', L <+: L' ∧ t.Sound fs callers L')

theorem Yields.bind {f : α → Watched β} {Q : Layout → β → Prop} (hx : Yields fs callers L x P)
    (hf : ∀ L' a, L <+: L' → P L' a → Yields fs callers L' (f a) Q) :
    Yields fs callers L (x >>= f) Q := by
  intro m hm
  refine Meets.bind ((hx m hm).imp (fun _ _ h => h) fun _ _ h => h) ?_
  rintro a t ⟨L', hL, ht, ha⟩
  refine (hf L' a hL ha t ht).imp ?_ ?_
  · rintro b u ⟨M, hM, hu, hb⟩
    exact ⟨M, hL.trans hM, hu, hb⟩
  · rintro d u ⟨M, hM, hu⟩
    exact ⟨M, hL.trans hM, hu⟩

theorem yields_pure {a : α} (h : P L a) : Yields fs callers L (pure a) P := fun _ hm =>
  meets_pure ⟨L, List.prefix_rfl, hm, h⟩

theorem yields_exhausted : Yields fs callers L (Runs.exhausted : Watched α) P := fun _ _ =>
  meets_exhausted

theorem yields_look {f : Machine → Except Diagnostic α}
    (h : ∀ m a, m.Sound fs callers L → f m = .ok a → P L a) :
    Yields fs callers L (Runs.look f) P := fun m hm =>
  meets_look (fun a ha => ⟨L, List.prefix_rfl, hm, h m a hm ha⟩)
    fun _ _ => ⟨L, List.prefix_rfl, hm⟩

theorem yields_read {f : Machine → α} (h : ∀ m, m.Sound fs callers L → P L (f m)) :
    Yields fs callers L (read f) P :=
  yields_look fun m a hm ha => by
    cases ha
    exact h m hm

theorem yields_fail {d : Diagnostic} : Yields fs callers L (fail d : Watched α) P :=
  yields_look fun _ _ _ h => by cases h

theorem yields_ofExcept {p : Position} {r : Except Fault α} (h : ∀ a, r = .ok a → P L a) :
    Yields fs callers L (Eval.ofExcept p r) P := fun _ hm =>
  meets_ofExcept (fun a ha => ⟨L, List.prefix_rfl, hm, h a ha⟩) fun _ _ => ⟨L, List.prefix_rfl, hm⟩

theorem yields_ofResult {r : Except Diagnostic α} (h : ∀ a, r = .ok a → P L a) :
    Yields fs callers L (ofResult r) P := fun _ hm =>
  meets_ofResult (fun a ha => ⟨L, List.prefix_rfl, hm, h a ha⟩) fun _ _ => ⟨L, List.prefix_rfl, hm⟩

theorem yields_ofOption {p : Position} {fault : Fault} {r : Option α}
    (h : ∀ a, r = some a → P L a) : Yields fs callers L (ofOption p fault r) P := fun _ hm =>
  meets_ofOption (fun a ha => ⟨L, List.prefix_rfl, hm, h a ha⟩) fun _ => ⟨L, List.prefix_rfl, hm⟩

theorem yields_ask {p : Position} {f : Store → Except Fault α}
    (h : ∀ s a, s.Typed L → f s = .ok a → P L a) : Yields fs callers L (ask p f) P := fun m hm =>
  meets_ask (fun a ha => ⟨L, List.prefix_rfl, hm, h m.store a hm.store ha⟩)
    fun _ _ => ⟨L, List.prefix_rfl, hm⟩

theorem yields_step {f : Machine → α × Machine} (h : ∀ m, m.Sound fs callers L →
      ∃ L', L <+: L' ∧ (f m).2.Sound fs callers L' ∧ P L' (f m).1) :
    Yields fs callers L (Runs.step f) P := fun m hm => by
  obtain ⟨L', hL, ht, ha⟩ := h m hm
  exact meets_step ⟨L', ht.toTyped, ht.callers⟩ ⟨L', hL, ht, ha⟩

theorem yields_update {f : Machine → Machine} {P : Layout → Unit → Prop}
    (h : ∀ m, m.Sound fs callers L → ∃ L', L <+: L' ∧ (f m).Sound fs callers L' ∧ P L' ()) :
    Yields fs callers L (update f) P :=
  yields_step h

theorem yields_onStore {f : Store → α × Store}
    (h : ∀ s, s.Typed L → ∃ L', L <+: L' ∧ (f s).2.Typed L' ∧ P L' (f s).1) :
    Yields fs callers L (onStore f) P :=
  yields_step fun m hm => by
    obtain ⟨L', hL, hs, ha⟩ := h m.store hm.store
    exact ⟨L', hL, hm.stored hL hs, ha⟩

theorem yields_edit {p : Position} {f : Store → Except Fault (α × Edit)}
    (h : ∀ s a e, s.Typed L → f s = .ok (a, e) → P L a ∧ e.Fits L) :
    Yields fs callers L (edit p f) P := by
  intro m hm
  refine meets_edit (fun a e he => ?_) fun _ _ => ⟨L, List.prefix_rfl, hm⟩
  obtain ⟨ha, hfits⟩ := h m.store a e hm.store he
  have ht := hm.stored List.prefix_rfl (hm.store.edit hfits)
  exact ⟨⟨L, ht.toTyped, ht.callers⟩, L, List.prefix_rfl, ht, ha⟩

theorem Yields.attempt (hx : Yields fs callers L x P) :
    Yields fs callers L (Runs.attempt x) fun L r => ∀ a, r = .ok a → P L a := fun m hm =>
  meets_attempt <| (hx m hm).imp
    (fun a _ ⟨L', hL, ht, ha⟩ => ⟨L', hL, ht, fun b hb => by cases hb; exact ha⟩)
    fun _ _ ⟨L', hL, ht⟩ => ⟨L', hL, ht, fun b hb => by cases hb⟩

theorem Yields.within {j : Job} {x : Watched j.Result} {P : Layout → j.Result → Prop}
    (hx : Yields fs callers L x P) (hP : ∀ L a, P L a → j.Fits L a) :
    Yields fs callers L (Runs.within j x) P := fun m hm =>
  meets_within ⟨L, hm.toTyped⟩ <| (hx m hm).imp
    (fun a _ ⟨L', hL, ht, ha⟩ => ⟨⟨L', ht.toTyped, hP L' a ha⟩, L', hL, ht, ha⟩)
    fun _ _ ⟨L', hL, ht⟩ => ⟨⟨L', ht.toTyped⟩, L', hL, ht⟩

/-- Between two changes that keep everything typed. -/
theorem Yields.between {enter leave : Machine → Machine} (hx : Yields fs callers L x P)
    (he : ∀ m, m.Sound fs callers L → (enter m).Sound fs callers L)
    (hl : ∀ L t, t.Sound fs callers L → (leave t).Sound fs callers L) :
    Yields fs callers L (between enter leave x) P := by
  intro m hm
  have hem := he m hm
  refine meets_between ⟨L, hem.toTyped, hem.callers⟩
    ((hx _ hem).imp ?_ ?_)
  · rintro a t ⟨L', hL, ht, ha⟩
    have hlt := hl L' t ht
    exact ⟨⟨L', hlt.toTyped, hlt.callers⟩, L', hL, hlt, ha⟩
  · rintro d t ⟨L', hL, ht⟩
    have hlt := hl L' t ht
    exact ⟨⟨L', hlt.toTyped, hlt.callers⟩, L', hL, hlt⟩

theorem Yields.inScope (hx : Yields fs callers L x P) : Yields fs callers L (inScope x) P :=
  hx.between (fun _ h => h.rescoped h.scopes.push) fun _ _ h => h.rescoped h.scopes.pop

theorem Yields.inLabelled {label : String} (hx : Yields fs callers L x P) :
    Yields fs callers L (inLabelled label x) P :=
  hx.between
    (fun m h => h.rescoped (s := (m.scopes.pushLabel label).push) (Scopes.All.push
      ⟨h.scopes.globals, h.scopes.frames⟩))
    fun _ t h => h.rescoped (s := t.scopes.pop.popLabel)
      ⟨h.scopes.pop.globals, h.scopes.pop.frames⟩

theorem Yields.inConstruct {c : Construct} (hx : Yields fs callers L x P) :
    Yields fs callers L (inConstruct c x) P :=
  hx.between (fun _ h => ⟨⟨h.store, h.scopes, h.signal⟩, h.callers, h.functions⟩)
    fun _ _ h => ⟨⟨h.store, h.scopes, h.signal⟩, h.callers, h.functions⟩

/-- The body of a call runs while the caller is set aside. -/
theorem yields_inCall {name : String} {p : Position}
    (hx : ∀ c, Yields fs (c :: callers) L x P) : Yields fs callers L (inCall name p x) P := by
  intro m hm
  have hem := hm.enterCall name
  refine meets_inCall (fun _ => ⟨L, List.prefix_rfl, hm⟩)
    (fun _ => ⟨L, hem.toTyped, hem.callers⟩) fun _ =>
    (hx _ _ hem).imp ?_ ?_
  · rintro a t ⟨L', hL, ht, ha⟩
    exact ⟨⟨L', ht.leaveCall.toTyped, ht.callers⟩, L', hL, ht.leaveCall, ha⟩
  · rintro d t ⟨L', hL, ht⟩
    exact ⟨⟨L', ht.leaveCall.toTyped, ht.callers⟩, L', hL, ht.leaveCall⟩

theorem Yields.guarded {x : Watched Unit} {P : Layout → Unit → Prop}
    (hx : Yields fs callers L x P) : Yields fs callers L (guarded x) fun _ _ => True := by
  intro m hm
  refine meets_guarded ((hx m hm).imp (fun _ _ ⟨L', hL, ht, _⟩ => ⟨L', hL, ht, trivial⟩) ?_)
  rintro d t ⟨L', hL, ht⟩
  have hfail : (t.fail d).Sound fs callers L' :=
    ⟨⟨ht.store, ht.scopes, ht.signal⟩, ht.callers, ht.functions⟩
  have hnote : (t.note d).Sound fs callers L' :=
    ⟨⟨ht.store, ht.scopes, ht.signal⟩, ht.callers, ht.functions⟩
  refine ⟨fun _ => ⟨⟨L', ht.toTyped⟩, ⟨L', hfail.toTyped, hfail.callers⟩,
    ⟨L', hfail.toTyped, trivial⟩, L', hL, hfail, trivial⟩, fun _ => ?_⟩
  exact ⟨⟨L', hnote.toTyped, hnote.callers⟩, L', hL, hnote, trivial⟩

/-- Nothing is said of what a computation gives. -/
abbrev Anything (_ : Layout) (_ : α) : Prop := True

theorem yields_declare {name : String} {ty : Ty} {category : Category} {p : Position}
    {value : Option Value} (ht : ty ≠ .error) (hv : ∀ v ∈ value, v.ty = ty ∧ v.Fits L) :
    Yields fs callers L (declare name ty category p value) Anything :=
  Yields.bind (yields_look (P := Anything) fun _ _ _ _ => trivial) fun L' _ hL _ =>
    yields_update fun m hm => by
      obtain ⟨M, hM, h⟩ := hm.introduce ht fun v h => ⟨(hv v h).1, (hv v h).2.mono hL⟩
      exact ⟨M, hM, h, trivial⟩

theorem yields_assign {name : String} {v : Value} {p : Position} (hv : v.Fits L) :
    Yields fs callers L (assign name v p) Anything := by
  intro m hm
  refine Meets.bind (R := fun r t => t = m ∧ m.fit name v p = .ok r)
    (meets_look (fun a ha => ⟨rfl, ha⟩) fun _ _ => ⟨L, List.prefix_rfl, hm⟩) ?_
  rintro ⟨w, row⟩ t ⟨rfl, hw⟩
  have ht := hm.replace hv hw
  exact meets_update ⟨L, ht.toTyped, ht.callers⟩
    ⟨L, List.prefix_rfl, ht, trivial⟩

theorem yields_write {c v : Value} {i : Int64} {j : Option Int64} {owner : String} {p : Position}
    (hc : c.Fits L) (hv : v.Fits L) : Yields fs callers L (write c i j v owner p) Anything := by
  refine yields_edit fun s a e hs he => ⟨trivial, ?_⟩
  simp only [Functor.map, Except.map] at he
  split at he <;> cases he
  exact Store.write_fits hs hc hv ‹_›

theorem Yields.declareWith {name : String} {ty : Ty} {p : Position} {x : Watched Value}
    (ht : ty ≠ .error) (hx : Yields fs callers L x fun L v => v.ty = ty ∧ v.Fits L) :
    Yields fs callers L (declareWith name ty p x) Anything := by
  refine hx.attempt.bind fun L' r hL hr => ?_
  rcases r with d | v
  · exact (yields_declare ht (by simp)).bind fun _ _ _ _ => yields_fail
  · exact yields_declare ht fun u hu => by
      cases hu
      exact hr v rfl

theorem yields_declareParameters : ∀ {qs : List Parameter} {vs : List Value} {L : Layout},
    (∀ q ∈ qs, q.ty ≠ .error) → (∀ r ∈ qs.zip vs, r.2.ty = r.1.ty ∧ r.2.Fits L) →
    Yields fs callers L (declareParameters qs vs) Anything
  | [], _, _, _, _ => yields_pure trivial
  | _ :: _, [], _, _, _ => yields_pure trivial
  | q :: qs, v :: vs, L, hq, hv => by
    obtain ⟨hqt, hqs⟩ := List.forall_mem_cons.1 hq
    obtain ⟨hv, hvs⟩ := List.forall_mem_cons.1 hv
    refine (yields_declare hqt fun u hu => by cases hu; exact hv).bind fun L' _ hL _ => ?_
    exact yields_declareParameters hqs fun r hr => ⟨(hvs r hr).1, (hvs r hr).2.mono hL⟩

/-- Arguments are bound as values of the types of the parameters. -/
theorem convertArguments_ok {f : Function} : ∀ {i : Nat} {qs : List Parameter}
    {vs : List (Value × Position)} {ws : List Value}, convertArguments f i qs vs = .ok ws →
    (∀ r ∈ vs, r.1.Fits L) → ∀ r ∈ qs.zip ws, r.2.ty = r.1.ty ∧ r.2.Fits L
  | _, [], _, _, _, _ => by simp
  | _, _ :: _, [], _, h, _ => by
    cases h
    simp
  | i, q :: qs, (v, p) :: vs, ws, h, hvs => by
    simp only [convertArguments] at h
    split at h
    · rename_i w hw
      simp only [Functor.map, Except.map] at h
      split at h <;> cases h
      obtain ⟨hv, hvs⟩ := List.forall_mem_cons.1 hvs
      exact List.forall_mem_cons.2 ⟨⟨Value.coerce?_ty hw, Value.coerce?_fits hw hv⟩,
        convertArguments_ok ‹_› hvs⟩
    · cases h

theorem yields_conclude {f : Function} :
    Yields fs callers L (conclude f) fun L v => v.Fits L := by
  refine Yields.bind (P := Anything) (yields_step fun m hm => ⟨L, List.prefix_rfl,
    ⟨⟨hm.store, hm.scopes, hm.signal⟩, hm.callers, hm.functions⟩, trivial⟩) fun L r _ _ => ?_
  cases r with
  | some d => exact yields_fail
  | none =>
    refine Yields.bind (P := fun L v => ∀ u ∈ v, Value.Fits L u) (yields_step fun m hm => ?_)
      fun L v _ hv => Yields.bind (P := Anything) (yields_step fun m hm => ⟨L, List.prefix_rfl,
        ⟨⟨hm.store, hm.scopes, fun v h => by cases h⟩, hm.callers, hm.functions⟩, trivial⟩)
        fun M g hM _ => ?_
    · simp only [takeReturn]
      split
      · exact ⟨L, List.prefix_rfl, ⟨⟨hm.store, hm.scopes, fun v h => by cases h⟩, hm.callers,
          hm.functions⟩, fun u hu => by cases hu; exact hm.signal _ ‹_›⟩
      · exact ⟨L, List.prefix_rfl, hm, by simp⟩
    · have hret : ∀ {M}, L <+: M →
          Yields fs callers M (pure (v.getD .void)) fun L v => v.Fits L := fun hM => by
        cases v with
        | none => exact yields_pure (Value.fits_of_plain rfl)
        | some v => exact yields_pure ((hv v rfl).mono hM)
      cases g with
      | none => exact hret hM
      | some g =>
        exact Yields.bind (P := Anything) (yields_update fun m hm => ⟨M, List.prefix_rfl,
          ⟨⟨hm.store, hm.scopes, hm.signal⟩, hm.callers, hm.functions⟩, trivial⟩)
          fun _ _ hM' _ => hret (hM.trans hM')

theorem sound_consume {m : Machine} (h : m.Sound fs callers L) (g : Signal) :
    (m.consume g).2.Sound fs callers L := by
  simp only [consume]
  split
  · split
    · exact ⟨⟨h.store, h.scopes, fun v hv => by cases hv⟩, h.callers, h.functions⟩
    · exact h
  · exact h

theorem yields_consume {g : Signal} :
    Yields fs callers L (Runs.step (·.consume g)) Anything :=
  yields_step fun _ hm => ⟨L, List.prefix_rfl, sound_consume hm g, trivial⟩

theorem yields_continueLooping :
    Yields fs callers L (Runs.step Machine.continueLooping) Anything := by
  refine yields_step fun m hm => ⟨L, List.prefix_rfl, ?_, trivial⟩
  have hb := sound_consume hm .breakLoop
  simp only [continueLooping]
  split <;> rename_i h <;> rw [h] at hb
  · exact hb
  · exact sound_consume hb .continueLoop

/-- `new List` over a scalar. -/
theorem newList_yields {b : Scalar} : Yields fs callers L (do
    let q ← onStore (·.alloc b #[])
    return Value.list q) fun L v => v.Fits L := by
  refine Yields.bind (P := fun L q => (Value.list q).Fits L) (yields_onStore fun s hs => ?_)
    fun _ _ _ h => yields_pure h
  exact hs.new b #[] (.list _) rfl (by simp)

/-- Every part of the evaluator keeps everything typed. -/
structure YieldsAll (fs : Frame Function) (n : Nat) : Prop where
  expr : ∀ {callers L} e, Yields fs callers L (expr n e) fun L v => v.Fits L
  exprs : ∀ {callers L} es, Yields fs callers L (exprs n es) fun L vs => ∀ v ∈ vs, v.Fits L
  exprFor : ∀ {callers L} e t, Yields fs callers L (exprFor n e t) fun L v => v.Fits L
  indexOf : ∀ {callers L} e, Yields fs callers L (indexOf n e) Anything
  indexOf? : ∀ {callers L} e, Yields fs callers L (indexOf? n e) Anything
  condition : ∀ {callers L} e c, Yields fs callers L (condition n e c) Anything
  goesOn : ∀ {callers L} e, Yields fs callers L (goesOn n e) Anything
  call : ∀ {callers L} f es p, Yields fs callers L (call n f es p) fun L v => v.Fits L
  stmt : ∀ {callers L s}, s.Proper → Yields fs callers L (stmt n s) Anything
  stmts : ∀ {callers L} {ss : List Stmt}, (∀ s ∈ ss, s.Proper) →
    Yields fs callers L (stmts n ss) Anything
  block : ∀ {callers L} {b : Block}, (∀ s ∈ b.body, s.Proper) →
    Yields fs callers L (block n b) Anything
  perform : ∀ {callers L s}, s.Proper → Yields fs callers L (perform n s) Anything
  header : ∀ {callers L s}, (∀ s' ∈ s, s'.Proper) → Yields fs callers L (header n s) Anything
  switch : ∀ {callers L v} {cs : List Case} {d : Option (List Stmt)} {b},
    (∀ c ∈ cs, ∀ s ∈ c.body, s.Proper) → (∀ body ∈ d, ∀ s ∈ body, s.Proper) →
    Yields fs callers L (switch n v cs d b) Anything
  whileLoop : ∀ {callers L e} {b : Block}, (∀ s ∈ b.body, s.Proper) →
    Yields fs callers L (whileLoop n e b) Anything
  doLoop : ∀ {callers L e} {b : Block}, (∀ s ∈ b.body, s.Proper) →
    Yields fs callers L (doLoop n b e) Anything
  forLoop : ∀ {callers L e s} {b : Block}, (∀ s' ∈ s, s'.Proper) → (∀ s ∈ b.body, s.Proper) →
    Yields fs callers L (forLoop n e s b) Anything

theorem yieldsAll_zero : YieldsAll fs 0 where
  expr _ := yields_exhausted
  exprs _ := yields_exhausted
  exprFor _ _ := yields_exhausted
  indexOf _ := yields_exhausted
  indexOf? _ := yields_exhausted
  condition _ _ := yields_exhausted
  goesOn _ := yields_exhausted
  call _ _ _ := yields_exhausted
  stmt _ := yields_exhausted
  stmts _ := yields_exhausted
  block _ := yields_exhausted
  perform _ := yields_exhausted
  header _ := yields_exhausted
  switch _ _ := yields_exhausted
  whileLoop _ := yields_exhausted
  doLoop _ := yields_exhausted
  forLoop _ _ := yields_exhausted

namespace YieldsAll

variable {n : Nat} (ih : YieldsAll fs n)
include ih

theorem expr_succ (e : Expr) :
    Yields fs callers L (Eval.expr (n + 1) e) fun L v => v.Fits L := by
  rw [Eval.expr]
  refine Yields.within (j := .expr e) ?_ fun _ _ h => h
  have hplain : ∀ {L : Layout} {v : Value}, v.sequence? = none →
      Yields fs callers L (pure v) fun L v => v.Fits L := fun hv =>
    yields_pure (Value.fits_of_plain hv)
  cases e with
  | int | double | bool | char | string => exact hplain rfl
  | name =>
    refine yields_look fun m v hm hv => ?_
    obtain ⟨b, hb, rfl⟩ := Except.map_eq_ok hv
    exact (hm.scopes.lookup hb).fits
  | arithmetic _ op left right =>
    exact (ih.expr left).bind fun _ _ _ _ => (ih.expr right).bind fun _ _ _ _ =>
      yields_ask fun _ _ _ h => Value.fits_of_plain (Store.arithmetic_plain h)
  | negate _ operand =>
    exact (ih.expr operand).bind fun _ _ _ _ => yields_ofExcept fun _ h =>
      Value.fits_of_plain (Value.negate_plain h)
  | not _ operand =>
    exact (ih.expr operand).bind fun _ _ _ _ => yields_ofExcept fun _ h =>
      Value.fits_of_plain (Value.not_plain h)
  | cast _ _ operand =>
    exact (ih.expr operand).bind fun _ _ _ hv => yields_ofExcept fun _ h =>
      Value.cast_fits h hv
  | relational _ op left right =>
    exact (ih.expr left).bind fun _ _ _ _ => (ih.expr right).bind fun _ _ _ _ =>
      (yields_ask (P := Anything) fun _ _ _ _ => trivial).bind fun _ _ _ _ => hplain rfl
  | logical _ op left right =>
    refine (ih.expr left).bind fun _ _ _ _ =>
      (yields_ofExcept (P := Anything) fun _ _ => trivial).bind fun _ a _ _ => ?_
    cases op <;> cases a <;> first
      | exact hplain rfl
      | exact (ih.expr right).bind fun _ _ _ _ =>
          (yields_ofExcept (P := Anything) fun _ _ => trivial).bind fun _ _ _ _ => hplain rfl
  | group _ inner => exact ih.expr inner
  | call _ name arguments =>
    dsimp only
    split
    · exact (ih.exprs arguments).bind fun _ _ _ _ => yields_ask fun _ _ _ h =>
        Value.fits_of_plain (Builtin.call_plain h)
    · exact ih.call name arguments _
  | method _ receiver name arguments =>
    refine (ih.expr receiver).bind fun _ r _ hr => (ih.exprs arguments).bind fun _ vs hL hvs => ?_
    split
    · exact yields_edit fun s a e hs h => Method.call_fits hs (hr.mono hL) hvs h
    · exact yields_fail
  | index _ target index =>
    exact (ih.expr target).bind fun _ _ _ hc => (ih.indexOf index).bind fun _ _ hL _ =>
      yields_ask fun _ _ hs h => (Store.element_takes hs (hc.mono hL) h).fits
  | cell _ target index column =>
    exact (ih.expr target).bind fun _ _ _ hc => (ih.indexOf index).bind fun _ _ hL _ =>
      (yields_ask (P := fun L v => Value.Fits L v) fun _ _ hs h =>
        (Store.element_takes hs (hc.mono hL) h).fits).bind fun _ _ _ hr =>
      (ih.indexOf column).bind fun _ _ hL _ => yields_ask fun _ _ hs h =>
        (Store.cell_takes hs (hr.mono hL) h).fits
  | vector _ items =>
    exact (ih.exprs items).bind fun _ vs _ _ =>
      (yields_ofExcept fun _ h => (Value.commonBase_ok h).2).bind fun _ b _ hb =>
      yields_onStore fun _ hs => hs.vector hb
  | matrix _ rows =>
    refine (ih.exprs rows).bind fun _ vs _ hvs => (yields_ofExcept (P := fun L b =>
      ∀ v ∈ vs, v.Fits L ∧ ∃ q, v = .vector q ∧ q.base.Widens b) fun _ h v hv =>
        ⟨hvs v hv, (Value.commonRowBase_ok h).2 v hv⟩).bind fun _ b _ hb =>
      yields_onStore fun _ hs => hs.matrix hb
  | newList _ base =>
    cases base with
    | none => exact yields_fail
    | some b => exact newList_yields

theorem exprFor_succ (e : Expr) (t : Ty) :
    Yields fs callers L (Eval.exprFor (n + 1) e t) fun L v => v.Fits L := by
  simp only [Eval.exprFor]
  refine Yields.within (j := .exprFor e t) ?_ fun _ _ h => h
  split
  · exact newList_yields
  · exact yields_fail
  · exact ih.expr e

theorem indexOf_succ (e : Expr) : Yields fs callers L (Eval.indexOf (n + 1) e) Anything :=
  (ih.expr e).bind fun _ v _ _ => by
    cases v <;> first | exact yields_pure trivial | exact yields_fail

theorem condition_succ (e : Expr) (c : String) :
    Yields fs callers L (Eval.condition (n + 1) e c) Anything :=
  (ih.expr e).bind fun _ v _ _ => by
    cases v <;> first | exact yields_pure trivial | exact yields_fail

theorem call_succ (hfs : ∀ name f, fs.find? name = some f → Function.Proper f) (f : String)
    (es : List Expr) (p : Position) :
    Yields fs callers L (Eval.call (n + 1) f es p) fun L v => v.Fits L := by
  rw [Eval.call]
  refine Yields.within (j := .call f es p) ?_ fun _ _ h => h
  refine Yields.bind (P := fun _ r => r = fs.find? f)
    (yields_read fun m hm => by rw [← hm.functions]; rfl) fun _ r _ hr => ?_
  refine Yields.bind (P := fun _ g => Function.Proper g)
    (yields_ofOption fun g hg => hfs f g (hr ▸ hg)) fun _ g _ hg => ?_
  refine Yields.bind (P := Anything) (yields_ofExcept fun _ _ => trivial) fun _ _ _ _ => ?_
  refine (ih.exprs es).bind fun _ vs _ hvs => ?_
  refine Yields.bind (P := fun L ws => ∀ r ∈ g.parameters.zip ws, r.2.ty = r.1.ty ∧ r.2.Fits L)
    (yields_ofResult fun ws h => convertArguments_ok h fun r hr =>
      hvs _ (List.of_mem_zip hr).1) fun _ ws _ hws => ?_
  refine Yields.bind (P := fun L v => v.Fits L) (yields_inCall fun c => ?_) fun _ v _ hv =>
    yields_ofExcept fun w hw => ?_
  · exact (yields_declareParameters (fun q hq => (hg.2.1 q hq).2) hws).bind fun _ _ _ _ =>
      (ih.stmts hg.2.2).bind fun _ _ _ _ => yields_conclude
  · simp only [callResult] at hw
    split at hw
    · cases hw
      exact Value.fits_of_plain rfl
    · exact Value.coerce?_fits (Value.convert_ok hw) hv

theorem stmts_succ : ∀ {ss : List Stmt}, (∀ s ∈ ss, s.Proper) →
    Yields fs callers L (Eval.stmts (n + 1) ss) Anything
  | [], _ => yields_pure trivial
  | s :: ss, h => by
    obtain ⟨hs, hss⟩ := List.forall_mem_cons.1 h
    refine (ih.stmt hs).bind fun _ _ _ _ =>
      (yields_read (P := Anything) fun _ _ => trivial).bind fun _ b _ _ => ?_
    split
    · exact yields_pure trivial
    · exact ih.stmts hss

theorem perform_succ {s : Stmt} (hs : s.Proper) :
    Yields fs callers L (Eval.perform (n + 1) s) Anything := by
  simp only [Eval.perform]
  refine Yields.within (j := .stmt s) (P := Anything) ?_ fun _ _ _ => trivial
  have hlook : ∀ {L} {f : Machine → Except Diagnostic Ty},
      Yields fs callers L (Runs.look f) Anything := yields_look fun _ _ _ _ => trivial
  cases hs with
  | @declare _ name ty value h =>
    cases value with
    | none => exact yields_declare h.2 (by simp)
    | some e =>
      refine Yields.declareWith h.2 ((ih.exprFor e ty).bind fun _ v _ hv =>
        yields_ofExcept fun w hw => ?_)
      have hw := Value.convert_ok hw
      exact ⟨Value.coerce?_ty hw, Value.coerce?_fits hw hv⟩
  | @assign _ name value =>
    exact hlook.bind fun _ t _ _ => (ih.exprFor value t).bind fun _ _ _ hv => yields_assign hv
  | @assignIndex _ target index column value =>
    exact (ih.expr target).bind fun _ _ _ hc => (ih.indexOf index).bind fun _ _ h₁ _ =>
      (ih.indexOf? column).bind fun _ _ h₂ _ => (ih.expr value).bind fun _ _ h₃ hv =>
      yields_write (hc.mono ((h₁.trans h₂).trans h₃)) hv
  | @step _ target up h =>
    cases target <;> simp only [Expr.isTarget, Bool.false_eq_true] at h
    case name =>
      exact (yields_look (P := Anything) fun _ _ _ _ => trivial).bind fun _ v _ _ =>
        (yields_ofExcept fun _ h => Value.fits_of_plain (Value.step_plain h)).bind
          fun _ _ _ hw => yields_assign hw
    case index _ target index =>
      exact (ih.expr target).bind fun _ _ _ hc => (ih.indexOf index).bind fun _ _ h₁ _ =>
        (yields_ask (P := Anything) fun _ _ _ _ => trivial).bind fun _ v h₂ _ =>
        (yields_ofExcept fun _ h => Value.fits_of_plain (Value.step_plain h)).bind
          fun _ _ h₃ hw => yields_write (hc.mono ((h₁.trans h₂).trans h₃)) hw
    case cell _ target index column =>
      exact (ih.expr target).bind fun _ _ _ hc => (ih.indexOf index).bind fun _ _ h₁ _ =>
        (ih.indexOf column).bind fun _ _ h₂ _ =>
        (yields_ask (P := Anything) fun _ _ _ _ => trivial).bind fun _ _ h₃ _ =>
        (yields_ask (P := Anything) fun _ _ _ _ => trivial).bind fun _ v h₄ _ =>
        (yields_ofExcept fun _ h => Value.fits_of_plain (Value.step_plain h)).bind
          fun _ _ h₅ hw =>
            yields_write (hc.mono ((((h₁.trans h₂).trans h₃).trans h₄).trans h₅)) hw
  | block h => exact ih.block h
  | branch h _ h' =>
    refine (ih.condition _ _).bind fun _ b _ _ => ?_
    split
    · exact ih.block h
    · split
      · exact ih.stmt (h' _ rfl)
      · exact yields_pure trivial
  | switch h h' =>
    exact (ih.expr _).bind fun _ _ _ _ => ((ih.switch h h').inConstruct).inLabelled
  | whileLoop h => exact ((ih.whileLoop h).inConstruct).inLabelled
  | doLoop h => exact ((ih.doLoop h).inConstruct).inLabelled
  | forLoop _ hf _ hn h =>
    exact ((ih.header hf).bind fun _ _ _ _ => (ih.forLoop hn h).inConstruct).inLabelled
  | breakOut =>
    exact yields_update fun m hm => ⟨L, List.prefix_rfl, ⟨⟨hm.store, hm.scopes, fun v hv => by
      simp only [requestBreak] at hv; split at hv <;> cases hv⟩, hm.callers, hm.functions⟩,
      trivial⟩
  | continueOn =>
    exact yields_update fun m hm => ⟨L, List.prefix_rfl, ⟨⟨hm.store, hm.scopes, fun v hv => by
      cases hv⟩, hm.callers, hm.functions⟩, trivial⟩
  | print =>
    exact (ih.expr _).bind fun L' _ _ _ => yields_update fun m hm => ⟨L', List.prefix_rfl,
      ⟨⟨hm.store, hm.scopes, hm.signal⟩, hm.callers, hm.functions⟩, trivial⟩
  | function => exact yields_pure trivial
  | @giveBack _ value =>
    have hreturn : ∀ {L v}, Value.Fits L v →
        Yields fs callers L (update (·.requestReturn v)) Anything := fun {L v} hv =>
      yields_update fun m hm => ⟨L, List.prefix_rfl, ⟨⟨hm.store, hm.scopes, fun u hu => by
        cases hu; exact hv⟩, hm.callers, hm.functions⟩, trivial⟩
    cases value with
    | none => exact hreturn (Value.fits_of_plain rfl)
    | some e => exact (ih.expr e).bind fun _ _ _ hv => hreturn hv
  | start => exact (ih.call _ _ _).bind fun _ _ _ _ => yields_pure trivial
  | expression => exact (ih.expr _).bind fun _ _ _ _ => yields_pure trivial

theorem switch_succ {v : Value} : ∀ {cs : List Case} {d : Option (List Stmt)} {b : Bool},
    (∀ c ∈ cs, ∀ s ∈ c.body, s.Proper) → (∀ body ∈ d, ∀ s ∈ body, s.Proper) →
    Yields fs callers L (Eval.switch (n + 1) v cs d b) Anything
  | [], none, _, _, _ => yields_pure trivial
  | [], some body, _, _, hd =>
    (ih.stmts (hd body rfl)).bind fun _ _ _ _ => yields_consume.bind fun _ _ _ _ =>
      yields_pure trivial
  | c :: rest, d, false, hc, hd => by
    simp only [Eval.switch]
    refine (ih.expr c.value).bind fun _ _ _ _ =>
      (yields_read (P := Anything) fun _ _ => trivial).bind fun _ b _ _ => ?_
    split
    · exact ih.switch hc hd
    · exact ih.switch (fun c h => hc c (List.mem_cons_of_mem _ h)) hd
  | c :: rest, d, true, hc, hd => by
    simp only [Eval.switch]
    refine (ih.stmts (hc c List.mem_cons_self)).bind fun _ _ _ _ =>
      yields_consume.bind fun _ b _ _ => ?_
    split
    · exact yields_pure trivial
    · refine (yields_read (P := Anything) fun _ _ => trivial).bind fun _ b _ _ => ?_
      split
      · exact yields_pure trivial
      · exact ih.switch (fun c h => hc c (List.mem_cons_of_mem _ h)) hd

theorem whileLoop_succ {e : Expr} {b : Block} (hb : ∀ s ∈ b.body, s.Proper) :
    Yields fs callers L (Eval.whileLoop (n + 1) e b) Anything := by
  refine (ih.condition e _).bind fun _ c _ _ => ?_
  split
  · refine (ih.block hb).bind fun _ _ _ _ => yields_continueLooping.bind fun _ c _ _ => ?_
    split
    · exact ih.whileLoop hb
    · exact yields_pure trivial
  · exact yields_pure trivial

theorem doLoop_succ {e : Expr} {b : Block} (hb : ∀ s ∈ b.body, s.Proper) :
    Yields fs callers L (Eval.doLoop (n + 1) b e) Anything := by
  refine (ih.block hb).bind fun _ _ _ _ => yields_continueLooping.bind fun _ c _ _ => ?_
  split
  · refine (ih.condition e _).bind fun _ c _ _ => ?_
    split
    · exact ih.doLoop hb
    · exact yields_pure trivial
  · exact yields_pure trivial

theorem forLoop_succ {e : Option Expr} {s : Option Stmt} {b : Block} (hs : ∀ s' ∈ s, s'.Proper)
    (hb : ∀ s ∈ b.body, s.Proper) : Yields fs callers L (Eval.forLoop (n + 1) e s b) Anything := by
  refine (ih.goesOn e).bind fun _ c _ _ => ?_
  split
  · refine (ih.block hb).bind fun _ _ _ _ => yields_continueLooping.bind fun _ c _ _ => ?_
    split
    · exact (ih.header hs).bind fun _ _ _ _ => ih.forLoop hs hb
    · exact yields_pure trivial
  · exact yields_pure trivial

end YieldsAll

theorem yieldsAll (hfs : ∀ name f, fs.find? name = some f → Function.Proper f) (n : Nat) :
    YieldsAll fs n := by
  induction n with
  | zero => exact yieldsAll_zero
  | succ n ih =>
    exact {
      expr := ih.expr_succ
      exprs := fun es => by
        cases es with
        | nil => exact yields_pure (by simp)
        | cons e es =>
          exact (ih.expr e).bind fun _ _ _ hv => (ih.exprs es).bind fun _ _ hL hvs =>
            yields_pure (List.forall_mem_cons.2 ⟨hv.mono hL, hvs⟩)
      exprFor := ih.exprFor_succ
      indexOf := ih.indexOf_succ
      indexOf? := fun e => by
        cases e with
        | none => exact yields_pure trivial
        | some e => exact (ih.indexOf e).bind fun _ _ _ _ => yields_pure trivial
      condition := ih.condition_succ
      goesOn := fun e => by
        cases e with
        | none => exact yields_pure trivial
        | some e => exact ih.condition e _
      call := ih.call_succ hfs
      stmt := fun hs => (ih.perform hs).guarded
      stmts := ih.stmts_succ
      block := fun hb => (ih.stmts hb).inScope
      perform := ih.perform_succ
      header := fun {_ _ s} hs => by
        cases s with
        | none => exact yields_pure trivial
        | some s => exact ih.perform (hs s rfl)
      switch := ih.switch_succ
      whileLoop := ih.whileLoop_succ
      doLoop := ih.doLoop_succ
      forLoop := ih.forLoop_succ }

theorem yields_topLevel (hfs : ∀ name f, fs.find? name = some f → Function.Proper f) :
    ∀ {n : Nat} {L : Layout} {ss : List Stmt}, (∀ s ∈ ss, s.Proper) →
      Yields fs callers L (topLevel n ss) Anything
  | 0, _, _, _ => yields_exhausted
  | _ + 1, _, [], _ => yields_pure trivial
  | n + 1, L, s :: ss, h => by
    obtain ⟨hs, hss⟩ := List.forall_mem_cons.1 h
    have hrest := fun {L} => yields_topLevel hfs (n := n) (L := L) hss
    cases s
    case function => exact hrest
    all_goals
      refine ((yieldsAll hfs n).stmt hs).bind fun L _ _ _ => Yields.bind (P := Anything)
        (yields_step fun m hm => ⟨L, List.prefix_rfl, ⟨⟨hm.store, hm.scopes, fun v hv => by
          cases hv⟩, hm.callers, hm.functions⟩, trivial⟩) fun L g _ _ => ?_
      cases g with
      | none => exact hrest
      | some g =>
        exact yields_update fun m hm => ⟨L, List.prefix_rfl, ⟨⟨hm.store, hm.scopes, hm.signal⟩,
          hm.callers, hm.functions⟩, trivial⟩

end Watched

/-- A value does not reach itself through the store, every way down from it ends, and its text and
its equality with other values do not depend on how deep one looks. -/
structure Store.Grounded (s : Store) (v : Value) : Prop where
  acyclic : ¬ Relation.TransGen s.Holds v v
  accessible : Acc (fun w v => s.Holds v w) v
  text : ∀ n, s.cells.size ≤ n → s.textTo n v = s.text v
  equal : ∀ w n, s.cells.size ≤ n → s.equalTo n v w = s.equal v w

theorem Store.Typed.grounded {L : Layout} {s : Store} (h : s.Typed L) {v : Value}
    (hv : v.Fits L) : s.Grounded v :=
  ⟨h.acyclic hv, h.accessible hv, fun _ hn => h.text_eq hv hn, fun _ _ hn => h.equal_eq hv hn⟩

theorem Event.Typed.target {L : Layout} {e : Event} (h : e.Typed L) : e.target.Typed L := by
  cases e with
  | steps => exact h.1
  | enters => exact h
  | gives => exact h.1
  | fails => exact h

/-- Before the first statement there is nothing to be typed. -/
theorem Program.sound_loaded (p : Program) (limit : Nat) :
    (p.loaded limit).Sound (p.loaded limit).functions [] [] := by
  rw [p.loaded_eq limit]
  exact ⟨⟨⟨rfl, by simp⟩, ⟨by simp [Machine.fresh, Frame.All], by simp [Machine.fresh]⟩,
    by simp [Machine.fresh]⟩, by simp, rfl⟩

/-- In every run of a program that was read, every symbol of the running call and of the calls that
wait holds a value of its type, every container holds items of its type, and no value reaches
itself through the store. -/
theorem Program.store_typed {tokens : List Token} {p : Program}
    (h : Program.ofTokens tokens = .ok p) (fuel limit : Nat) :
    (p.loaded limit).Typed [] ∧ ∀ e ∈ p.history fuel limit,
      ∃ L, e.Typed L ∧ ∀ v, v.Fits L → e.target.store.Grounded v := by
  have hp := proper_of_ofTokens h
  have hl := p.sound_loaded limit
  have hfs : ∀ name f, (p.loaded limit).functions.find? name = some f → Function.Proper f :=
    fun _ _ hf => hp.function (p.mem_of_function_loaded hf)
  obtain ⟨he, -⟩ := Watched.yields_topLevel hfs hp _ hl
  refine ⟨hl.toTyped, fun e hin => ?_⟩
  obtain ⟨L, hL⟩ := he e hin
  exact ⟨L, hL, fun v hv => hL.target.store.grounded hv⟩

/-- A matrix literal with a row that has to be copied. -/
theorem Program.store_typed_matrix :
    let p := Program.mk [.expression default (.matrix default
      [.vector default [.int default 1], .vector default [.double default 2.5]])]
    ∀ e ∈ p.history 20 1, ∃ L, e.Typed L ∧ ∀ v, v.Fits L → e.target.store.Grounded v :=
  (Program.store_typed (show Program.ofTokens
    [⟨.openBracket, "[", default⟩, ⟨.openBracket, "[", default⟩, ⟨.number, "1", default⟩,
      ⟨.closeBracket, "]", default⟩, ⟨.comma, ",", default⟩, ⟨.openBracket, "[", default⟩,
      ⟨.number, "2.5", default⟩, ⟨.closeBracket, "]", default⟩, ⟨.closeBracket, "]", default⟩,
      ⟨.semicolon, ";", default⟩] = .ok _ from rfl) 20 1).2

end Primer
