import Primer.Proofs.Respect

/-!
# Runs of a program in two spellings

A machine is the twin of another if the same names hold the same values in it and what has been
reported matches (`Machine.Matches`). What is listed, and the labels of the scopes, may differ.
Twins stay twins through every part of the evaluator (`respected_twins`).
-/

namespace Primer

open Eval (concluded inCall_apply between_apply guarded_apply declareWith_apply conclude_apply)

/-! ## Scopes -/

/-- Frames with the same names, and related entries. -/
abbrev Frame.Matches {β : Type} (S : β → β → Prop) : Frame β → Frame β → Prop :=
  List.Forall₂ fun a b => b.1 = a.1 ∧ S a.2 b.2

/-- Scopes with the same names, and related entries. -/
structure Scopes.Matches {β : Type} (S : β → β → Prop) (s s' : Scopes β) : Prop where
  globals : s.globals.Matches S s'.globals
  frames : s.frames.Forall₂ (Frame.Matches S) s'.frames

section Scopes

variable {β : Type} {S : β → β → Prop} {f : Respelling}

namespace Frame.Matches

variable {fr fr' : Frame β}

theorem lookup (h : fr.Matches S fr') (key : String) :
    Option.Rel S (fr.lookup key) (fr'.lookup key) := by
  induction h with
  | nil => exact .none
  | @cons a b _ _ hab _ ih =>
    obtain ⟨k, x⟩ := a
    obtain ⟨k', y⟩ := b
    obtain ⟨rfl, hxy⟩ := hab
    simp only [List.lookup_cons]
    split
    · exact .some hxy
    · exact ih

theorem add (h : fr.Matches S fr') (name : String) {a b : β} (hab : S a b) :
    (fr.add name a).Matches S (fr'.add (f name) b) := by
  simp only [Frame.add, f.fold_apply]
  exact .cons ⟨rfl, hab⟩ h

theorem change (h : fr.Matches S fr') (key : String) {g g' : β → β}
    (hg : ∀ a b, S a b → S (g a) (g' b)) : (fr.change key g).Matches S (fr'.change key g') := by
  induction h with
  | nil => exact .nil
  | @cons a b _ _ hab h ih =>
    obtain ⟨k, x⟩ := a
    obtain ⟨k', y⟩ := b
    obtain ⟨rfl, hxy⟩ := hab
    simp only [Frame.change]
    split
    · exact .cons ⟨rfl, hg x y hxy⟩ h
    · exact .cons ⟨rfl, hxy⟩ ih

end Frame.Matches

theorem isSome_of_rel {o o' : Option β} (h : Option.Rel S o o') : o'.isSome = o.isSome := by
  cases h <;> rfl

namespace Scopes.Matches

variable {s s' : Scopes β}

theorem get? (h : s.Matches S s') (name : String) :
    Option.Rel S (s.get? name) (s'.get? (f name)) := by
  have hfind : ∀ {frames frames' : List (Frame β)} (key : String),
      frames.Forall₂ (Frame.Matches S) frames' →
      Option.Rel S (Scopes.findIn key frames s.globals) (Scopes.findIn key frames' s'.globals) := by
    intro frames frames' key hframes
    induction hframes with
    | nil => exact h.globals.lookup key
    | @cons a b _ _ hab _ ih =>
      have hrel := Frame.Matches.lookup hab key
      simp only [Scopes.findIn]
      generalize List.lookup key a = o, List.lookup key b = o' at hrel
      cases hrel with
      | some hxy => exact .some hxy
      | none => exact ih
  simp only [Scopes.get?, f.fold_apply]
  exact hfind _ h.frames

theorem innermost (h : s.Matches S s') : s.innermost.Matches S s'.innermost := by
  obtain ⟨_, _, _⟩ := s
  obtain ⟨_, _, _⟩ := s'
  obtain ⟨hg, hf⟩ := h
  cases hf with
  | nil => exact hg
  | cons h _ => exact h

theorem declaredHere (h : s.Matches S s') (name : String) :
    s'.declaredHere (f name) = s.declaredHere name := by
  simp only [Scopes.declaredHere, Frame.has, Frame.find?, f.fold_apply]
  exact isSome_of_rel (h.innermost.lookup _)

theorem atGlobal (h : s.Matches S s') : s'.atGlobal = s.atGlobal := by
  obtain ⟨_, _, _⟩ := s
  obtain ⟨_, _, _⟩ := s'
  obtain ⟨-, hf⟩ := h
  cases hf <;> rfl

theorem checkFree (h : s.Matches S s') (name : String) (p : Position) :
    Concurs (Diagnostic.Matches f) (s.checkFree name p) (s'.checkFree (f name) p) := by
  simp only [Scopes.checkFree, h.declaredHere]
  split
  · exact .error ⟨⟨rfl, rfl, by rintro rfl; rfl⟩, rfl⟩
  · exact .ok ()

theorem push (h : s.Matches S s') : s.push.Matches S s'.push := ⟨h.globals, .cons .nil h.frames⟩

theorem pop (h : s.Matches S s') : s.pop.Matches S s'.pop := by
  obtain ⟨_, _, _⟩ := s
  obtain ⟨_, _, _⟩ := s'
  obtain ⟨hg, hf⟩ := h
  refine ⟨hg, ?_⟩
  cases hf with
  | nil => exact .nil
  | cons _ h => exact h

theorem add (h : s.Matches S s') (name : String) {a b : β} (hab : S a b) :
    (s.add name a).Matches S (s'.add (f name) b) := by
  obtain ⟨_, _, _⟩ := s
  obtain ⟨_, _, _⟩ := s'
  obtain ⟨hg, hf⟩ := h
  cases hf with
  | nil => exact ⟨Frame.Matches.add hg name hab, .nil⟩
  | cons h hf => exact ⟨hg, .cons (Frame.Matches.add h name hab) hf⟩

theorem changeFirst (key : String) {g g' : β → β} (hg : ∀ a b, S a b → S (g a) (g' b))
    {frames frames' : List (Frame β)} (h : frames.Forall₂ (Frame.Matches S) frames') :
    Option.Rel (List.Forall₂ (Frame.Matches S)) (Scopes.changeFirst key g frames)
      (Scopes.changeFirst key g' frames') := by
  induction h with
  | nil => exact .none
  | @cons a b _ _ hab hrest ih =>
    simp only [Scopes.changeFirst, isSome_of_rel (Frame.Matches.lookup hab key)]
    split
    · exact .some (.cons (Frame.Matches.change hab key hg) hrest)
    · generalize Scopes.changeFirst key g _ = o, Scopes.changeFirst key g' _ = o' at ih
      cases ih with
      | none => exact .none
      | some h => exact .some (.cons hab h)

theorem change (h : s.Matches S s') (name : String) {g g' : β → β}
    (hg : ∀ a b, S a b → S (g a) (g' b)) : (s.change name g).Matches S (s'.change (f name) g') := by
  have hfirst := changeFirst (Text.fold name) hg h.frames
  simp only [Scopes.change, f.fold_apply]
  generalize Scopes.changeFirst _ g s.frames = o, Scopes.changeFirst _ g' s'.frames = o' at hfirst
  cases hfirst with
  | none => exact ⟨Frame.Matches.change h.globals _ hg, h.frames⟩
  | some hframes => exact ⟨h.globals, hframes⟩

end Scopes.Matches

end Scopes

/-! ## Machines -/

/-- The symbol of the same name in another spelling, with the same value. -/
structure Symbol.Matches (f : Respelling) (s s' : Symbol) : Prop where
  name : s'.name = f s.name
  ty : s'.ty = s.ty
  value : s'.value = s.value

/-- A machine on a program respelled. -/
structure Machine.Matches (f : Respelling) (m m' : Machine) : Prop where
  scopes : m.scopes.Matches (Symbol.Matches f) m'.scopes
  core : m.core = m'.core
  report : m.report.toList.Forall₂ (Diagnostic.Matches f) m'.report.toList
  functions : ∀ name, m'.function? (f name) = (m.function? name).map (respellFunction f)
  failure : Option.Rel (Diagnostic.Matches f) m.failure m'.failure
  depth : m'.depth = m.depth
  limit : m'.limit = m.limit

namespace Machine.Matches

variable {f : Respelling} {m m' : Machine}

theorem valueOf (h : m.Matches f m') (name : String) (p : Position) :
    Concurs (Diagnostic.Matches f) (m.valueOf name p) (m'.valueOf (f name) p) := by
  have hrel := h.scopes.get? (f := f) name
  simp only [Machine.valueOf, Scopes.lookup]
  generalize m.scopes.get? name = o, m'.scopes.get? (f name) = o' at hrel
  cases hrel with
  | none => exact .error ⟨⟨rfl, rfl, by rintro rfl; rfl⟩, rfl⟩
  | some hs =>
    simp only [Except.map, hs.value]
    exact .ok _

theorem typeOf (h : m.Matches f m') (name : String) (p : Position) :
    Concurs (Diagnostic.Matches f) (m.typeOf name p) (m'.typeOf (f name) p) := by
  have hrel := h.scopes.get? (f := f) name
  simp only [Machine.typeOf, Scopes.lookup]
  generalize m.scopes.get? name = o, m'.scopes.get? (f name) = o' at hrel
  cases hrel with
  | none => exact .error ⟨⟨rfl, rfl, by rintro rfl; rfl⟩, rfl⟩
  | some hs =>
    simp only [Except.map, hs.ty]
    exact .ok _

theorem withCore (h : m.Matches f m') (c : Core) : (m.withCore c).Matches f (m'.withCore c) where
  scopes := h.scopes
  core := by
    have hf : m.failure.isSome = m'.failure.isSome := congrArg Core.failed h.core
    simp only [Machine.core, Machine.withCore, hf]
  report := h.report
  functions := h.functions
  failure := h.failure
  depth := h.depth
  limit := h.limit

theorem note (h : m.Matches f m') {d d' : Diagnostic} (hd : d.Matches f d') :
    (m.note d).Matches f (m'.note d') :=
  { h with
    report := by
      simp only [Machine.note, Report.push, Report.toList, Array.toList_push]
      exact List.rel_append h.report (.cons hd .nil) }

theorem fail (h : m.Matches f m') {d d' : Diagnostic} (hd : d.Matches f d') :
    (m.fail d).Matches f (m'.fail d') :=
  { h with
    core := by
      obtain ⟨hs, hg, hc, ho, -⟩ := core_eq_iff.1 h.core
      exact core_eq_iff.2 ⟨hs, hg, hc, ho, rfl⟩
    failure := .some hd }

theorem withScopes (h : m.Matches f m') {s s' : Scopes Symbol}
    (hs : s.Matches (Symbol.Matches f) s') :
    Machine.Matches f { m with scopes := s } { m' with scopes := s' } :=
  { h with scopes := hs }

theorem introduce (h : m.Matches f m') (name : String) (ty : Ty) (category : Category)
    (p : Position) (value : Option Value) : (m.introduce name ty category p value).Matches f
      (m'.introduce (f name) ty category p value) := by
  obtain ⟨hs, hg, hc, ho, hf⟩ := core_eq_iff.1 h.core
  simp only [Machine.introduce, ← hs]
  generalize initial m.store ty value = r
  obtain ⟨v, holdsDefault, store⟩ := r
  exact {
    scopes := h.scopes.add name ⟨rfl, rfl, rfl⟩
    core := core_eq_iff.2 ⟨rfl, hg, hc, ho, hf⟩
    report := h.report
    functions := h.functions
    failure := h.failure
    depth := h.depth
    limit := h.limit }

theorem replace (h : m.Matches f m') (name : String) (v : Value) (row row' : Option Nat) :
    (m.replace name v row).Matches f (m'.replace (f name) v row') where
  scopes := h.scopes.change name fun _ _ hab => ⟨hab.name, hab.ty, rfl⟩
  core := h.core
  report := h.report
  functions := h.functions
  failure := h.failure
  depth := h.depth
  limit := h.limit

/-- A value fits both symbols of a name, whatever their rows, or neither. -/
theorem fit (h : m.Matches f m') (name : String) (v : Value) (p : Position) :
    (∃ w row row', m.fit name v p = .ok (w, row) ∧ m'.fit (f name) v p = .ok (w, row')) ∨
      ∃ d d', m.fit name v p = .error d ∧ m'.fit (f name) v p = .error d' ∧ d.Matches f d' := by
  have hrel := h.scopes.get? (f := f) name
  simp only [Machine.fit, Scopes.lookup]
  generalize m.scopes.get? name = o, m'.scopes.get? (f name) = o' at hrel
  cases hrel with
  | none => exact .inr ⟨_, _, rfl, rfl, ⟨⟨rfl, rfl, by rintro rfl; rfl⟩, rfl⟩⟩
  | @some a b hs =>
    have hconvert : Concurs (Fault.Matches f) (v.convert a.ty a.name) (v.convert b.ty b.name) := by
      rw [hs.ty, hs.name]
      exact concurs_convert (by rintro rfl; rfl) a.ty v
    simp only
    generalize v.convert a.ty a.name = r, v.convert b.ty b.name = r' at hconvert
    cases hconvert with
    | ok w => exact .inl ⟨w, _, _, rfl, rfl⟩
    | error hf => exact .inr ⟨_, _, rfl, rfl, hf.at p⟩

theorem enterCall (h : m.Matches f m') (name : String) :
    (m.enterCall name).2.Matches f (m'.enterCall (f name)).2 where
  scopes := ⟨h.scopes.globals, .cons .nil .nil⟩
  core := by
    obtain ⟨hs, hg, -, ho, hf⟩ := core_eq_iff.1 h.core
    exact core_eq_iff.2 ⟨hs, hg, rfl, ho, hf⟩
  report := h.report
  functions := h.functions
  failure := h.failure
  depth := congrArg (· + 1) h.depth
  limit := h.limit

/-- Calls that have set matching callers aside end in matching machines. -/
theorem leaveCall {t t' : Machine} (h : m.Matches f m') (ht : t.Matches f t') (name : String) :
    (t.leaveCall (m.enterCall name).1).Matches f (t'.leaveCall (m'.enterCall (f name)).1) where
  scopes := ⟨ht.scopes.globals, h.scopes.frames⟩
  core := by
    obtain ⟨hs, hg, -, ho, hf⟩ := core_eq_iff.1 ht.core
    exact core_eq_iff.2 ⟨hs, hg, (core_eq_iff.1 h.core).2.2.1, ho, hf⟩
  report := ht.report
  functions := ht.functions
  failure := ht.failure
  depth := congrArg (· - 1) ht.depth
  limit := ht.limit

theorem mayCall (h : m.Matches f m') : m'.mayCall = m.mayCall := by
  simp only [Machine.mayCall, h.depth, h.limit]

theorem inCall (h : m.Matches f m') : m'.inCall = m.inCall := by
  simp only [Machine.inCall, h.depth]

theorem concluded (h : m.Matches f m') (g : Function) :
    (Eval.concluded (respellFunction f g) m').1 = (Eval.concluded g m).1 ∧
      (Eval.concluded g m).2.Matches f (Eval.concluded (respellFunction f g) m').2 := by
  obtain ⟨hs, hg, hc, ho, -⟩ := core_eq_iff.1 h.core
  have hsettled : Machine.Matches f { m with failure := none, signal := none }
      { m' with failure := none, signal := none } :=
    { h with
      core := core_eq_iff.2 ⟨hs, rfl, hc, ho, rfl⟩
      failure := .none }
  simp only [Eval.concluded, ← hg, respellFunction_span]
  rcases m.signal with _ | _ | _ | _ | v
  · exact ⟨rfl, hsettled⟩
  · exact ⟨rfl, hsettled.note (.refl _)⟩
  · exact ⟨rfl, hsettled.note (.refl _)⟩
  · exact ⟨rfl, hsettled.note (.refl _)⟩
  · exact ⟨rfl, hsettled⟩

end Machine.Matches

/-! ## Runs -/

/-- How a computation ends on machines that match: in the same way, except that with `slack`
anything may come where the fuel ran out. -/
inductive Outcome.Twins (f : Respelling) (slack : Prop) {α : Type} :
    Outcome Machine α → Outcome Machine α → Prop
  | done {a t t'} (h : t.Matches f t') : Twins f slack (.done a t) (.done a t')
  | failed {d d' t t'} (hd : d.Matches f d') (h : t.Matches f t') :
    Twins f slack (.failed d t) (.failed d' t')
  | exhausted {o} (h : slack ∨ o = .exhausted) : Twins f slack .exhausted o

namespace Watched

open Eval

/-- Computations that go the same way on machines that match. -/
def Twins (f : Respelling) (slack : Prop) {α : Type} (x : Watched α) (y : Eval α) : Prop :=
  ∀ callers m m', m.Matches f m' → (run callers x m).Twins f slack (y m')

section Rules

variable {f : Respelling} {slack : Prop} {α β : Type} {x : Watched α} {y : Eval α}

theorem Twins.bind {k : α → Watched β} {k' : α → Eval β} (hx : Twins f slack x y)
    (hk : ∀ a, Twins f slack (k a) (k' a)) : Twins f slack (x >>= k) (y >>= k') :=
    fun callers m m' hm => by
  have h := hx callers m m' hm
  rw [run_bind, Effect.bind_apply, Effect.bind_apply]
  generalize run callers x m = r, y m' = r' at h
  cases h with
  | done h => exact hk _ callers _ _ h
  | failed hd h => exact .failed hd h
  | exhausted h => exact .exhausted (h.imp id fun h => by rw [h])

theorem twins_look {g g' : Machine → Except Diagnostic α}
    (hg : ∀ m m', m.Matches f m' → Concurs (Diagnostic.Matches f) (g m) (g' m')) :
    Twins f slack (Runs.look g) (Runs.look g') := fun callers m m' hm => by
  have h := hg m m' hm
  rw [run_look]
  simp only [Runs.look]
  generalize g m = r, g' m' = r' at h
  cases h with
  | ok a => exact .done hm
  | error hd => exact .failed hd hm

theorem twins_update {g g' : Machine → Machine}
    (hg : ∀ m m', m.Matches f m' → (g m).Matches f (g' m')) :
    Twins f slack (update g) (update g') := fun _ m m' hm => .done (hg m m' hm)

theorem twins_step {g : Machine → α × Machine} (hg : Machine.Local g) :
    Twins f slack (Runs.step g) (Runs.step g) := fun callers m m' hm => by
  have h := hm.withCore (g m).2.core
  rw [← hg.frame m, hg.core hm.core, ← hg.frame m'] at h
  rw [run_step]
  simp only [Runs.step, Effect.step, hg.value hm.core]
  exact .done h

theorem onState_twins {r r' : Outcome Machine α} {g g' : Machine → Machine}
    (h : r.Twins f slack r') (hg : ∀ t t', t.Matches f t' → (g t).Matches f (g' t')) :
    (r.onState g).Twins f slack (r'.onState g') := by
  cases h with
  | done h => exact .done (hg _ _ h)
  | failed hd h => exact .failed hd (hg _ _ h)
  | exhausted h => exact .exhausted (h.imp id fun h => by rw [h]; rfl)

theorem Twins.between {enter enter' leave leave' : Machine → Machine}
    (henter : ∀ m m', m.Matches f m' → (enter m).Matches f (enter' m'))
    (hleave : ∀ t t', t.Matches f t' → (leave t).Matches f (leave' t')) (hx : Twins f slack x y) :
    Twins f slack (between enter leave x) (between enter' leave' y) := fun callers m m' hm => by
  rw [run_between, between_apply, between_apply]
  exact onState_twins (hx callers _ _ (henter m m' hm)) hleave

theorem Twins.inCall (name : String) (p : Position) (hx : Twins f slack x y) :
    Twins f slack (inCall name p x) (inCall (f name) p y) := fun callers m m' hm => by
  rw [run_inCall, inCall_apply, hm.mayCall]
  split
  · exact onState_twins (hx _ _ _ (hm.enterCall name)) fun _ _ ht => hm.leaveCall ht name
  · rw [hm.limit]
    exact .failed (.refl _) hm

theorem twins_declare (name : String) (ty : Ty) (category : Category) (p : Position)
    (value : Option Value) :
    Twins f slack (declare name ty category p value) (declare (f name) ty category p value) :=
  (twins_look fun _ _ hm => hm.scopes.checkFree name p).bind fun _ =>
    twins_update fun _ _ hm => hm.introduce name ty category p value

theorem Twins.declareWith {x : Watched Value} {y : Eval Value} (name : String) (ty : Ty)
    (p : Position) (hx : Twins f slack x y) :
    Twins f slack (declareWith name ty p x) (declareWith (f name) ty p y) := by
  intro callers m m' hm
  have h := hx callers m m' hm
  have hdeclare : ∀ value {t t'}, t.Matches f t' → Outcome.Twins f slack
      ((declare name ty (.ofTy ty) p value : Eval Unit) t)
      ((declare (f name) ty (.ofTy ty) p value : Eval Unit) t') := fun value t t' ht => by
    rw [← run_declare []]
    exact twins_declare name ty (.ofTy ty) p value [] t t' ht
  rw [run_declareWith, declareWith_apply, declareWith_apply]
  generalize run callers x m = r, y m' = r' at h
  cases h with
  | done ht => exact hdeclare _ ht
  | @failed d d' t t' hd ht =>
    have h := hdeclare none ht
    simp only [Effect.bind_apply]
    generalize (Eval.declare name ty (.ofTy ty) p none : Eval Unit) t = r,
      (Eval.declare (f name) ty (.ofTy ty) p none : Eval Unit) t' = r' at h
    cases h with
    | done hu => exact .failed hd hu
    | failed he hu => exact .failed he hu
    | exhausted h => exact .exhausted (h.imp id fun h => by rw [h])
  | exhausted h => exact .exhausted (h.imp id fun h => by rw [h])

theorem twins_assign (name : String) (v : Value) (p : Position) :
    Twins f slack (assign name v p) (assign (f name) v p) := fun callers m m' hm => by
  have hrun : run callers (assign name v p) = assign name v p := by simp [assign]
  rw [hrun]
  unfold assign
  rw [Effect.bind_apply, Effect.bind_apply]
  simp only [Runs.look]
  rcases hm.fit name v p with ⟨w, row, row', h, h'⟩ | ⟨d, d', h, h', hd⟩
  · rw [h, h']
    exact .done (hm.replace name w row row')
  · rw [h, h']
    exact .failed hd hm

theorem Twins.guarded {x : Watched Unit} {y : Eval Unit} (hx : Twins f slack x y) :
    Twins f slack (guarded x) (guarded y) := fun callers m m' hm => by
  have h := hx callers m m' hm
  rw [run_guarded, guarded_apply, guarded_apply]
  generalize run callers x m = r, y m' = r' at h
  cases h with
  | done h => exact .done h
  | failed hd h =>
    refine .done ?_
    rw [h.inCall]
    split
    · exact h.fail hd
    · exact h.note hd
  | exhausted h => exact .exhausted (h.imp id fun h => by rw [h])

theorem twins_conclude (g : Function) :
    Twins f slack (conclude g) (conclude (respellFunction f g)) := fun callers m m' hm => by
  obtain ⟨hvalue, hmatch⟩ := hm.concluded g
  have hcleared : Machine.Matches f { m with failure := none } { m' with failure := none } :=
    { hm with
      core := by
        obtain ⟨hs, hg, hc, ho, -⟩ := Machine.core_eq_iff.1 hm.core
        exact Machine.core_eq_iff.2 ⟨hs, hg, hc, ho, rfl⟩
      failure := .none }
  have hfailure := hm.failure
  rw [run_conclude, conclude_apply, conclude_apply, hvalue]
  generalize m.failure = d, m'.failure = d' at hfailure
  cases hfailure with
  | none => exact .done hmatch
  | some hd => exact .failed hd hcleared

/-- Machines that match stay so through every part of the evaluator. -/
theorem respected_twins (f : Respelling) (slack : Prop) :
    Respected f slack fun _ x y => Twins f slack x y where
  pure _ := fun _ _ _ hm => .done hm
  bind hx hk := hx.bind hk
  exhausted hy := fun _ _ _ _ => .exhausted (hy.imp id fun hy => by rw [hy]; rfl)
  within h := h
  look hg := twins_look fun m m' hm => hg m m' hm.core
  step hg := twins_step hg
  valueOf name p := twins_look fun _ _ hm => hm.valueOf name p
  typeOf name p := twins_look fun _ _ hm => hm.typeOf name p
  function {_ name _ _} hsome hnone := fun callers m m' hm => by
    rw [run_bind, run_read, Effect.bind_apply, Effect.bind_apply]
    have hf := hm.functions name
    simp only [Eval.read, Runs.look, hf]
    cases m.function? name with
    | none => exact hnone callers m m' hm
    | some g => exact hsome g callers m m' hm
  declare := twins_declare
  declareWith {n e y} name ty p hx := (hx.bind fun v => by
    have hconvert : Concurs (Fault.Matches f) (v.convert ty name) (v.convert ty (f name)) :=
      concurs_convert (by rintro rfl; rfl) ty v
    generalize v.convert ty name = r, v.convert ty (f name) = r' at hconvert
    intro callers m m' hm
    rw [run_ofExcept]
    cases hconvert with
    | ok w => exact .done hm
    | error hf => exact .failed (hf.at p) hm).declareWith name ty p
  assign := twins_assign
  inScope hx := hx.between (fun _ _ hm => hm.withScopes hm.scopes.push)
    fun _ _ hm => hm.withScopes hm.scopes.pop
  inLabelled _ hx := hx.between
    (fun _ _ hm => hm.withScopes ⟨hm.scopes.globals, .cons .nil hm.scopes.frames⟩)
    fun _ _ hm => hm.withScopes ⟨hm.scopes.pop.globals, hm.scopes.pop.frames⟩
  inConstruct c hx := hx.between
    (fun m m' hm => by
      have h := hm.withCore (m.enterConstruct c).core
      have hc : (m.enterConstruct c).core = (m'.enterConstruct c).core :=
        (Machine.local_enterConstruct c).core hm.core
      rwa [← (Machine.local_enterConstruct c).frame m, hc,
        ← (Machine.local_enterConstruct c).frame m'] at h)
    fun m m' hm => by
      have h := hm.withCore m.leaveConstruct.core
      have hc : m.leaveConstruct.core = m'.leaveConstruct.core :=
        Machine.local_leaveConstruct.core hm.core
      rwa [← Machine.local_leaveConstruct.frame m, hc, ← Machine.local_leaveConstruct.frame m'] at h
  inCall name p hx := hx.inCall name p
  conclude := twins_conclude
  guarded hx := hx.guarded
  note hd := twins_update fun _ _ hm => hm.note hd

end Rules

end Watched

end Primer
