import Primer.Checker.Infer
import Primer.Proofs.Preserves
import Primer.Proofs.Proper

/-!
# Scopes that are entered are left

The declarations a machine can see form the names a check would see (`Machine.names`). A value
leaves them as they are, and so does every statement that declares nothing in its own scope
(`Stays`); any other statement adds to the innermost frame and changes nothing else (`Extends`).
-/

namespace Primer

/-! ## Scopes -/

/-- A frame with every entry changed. -/
def Frame.map {β γ : Type} (f : β → γ) (frame : Frame β) : Frame γ :=
  List.map (fun e => (e.1, f e.2)) frame

/-- Every declaration of a frame is found in another one. -/
def Frame.Within {β : Type} (inner outer : Frame β) : Prop :=
  ∀ key b, inner.lookup key = some b → outer.lookup key = some b

namespace Scopes

variable {β γ : Type}

/-- The scopes with every entry changed. -/
def map (f : β → γ) (s : Scopes β) : Scopes γ :=
  ⟨s.globals.map f, s.frames.map (Frame.map f), s.labels⟩

/-- The scopes with more entries in the innermost frame. -/
def extend (s : Scopes β) (added : Frame β) : Scopes β :=
  match s.frames with
  | [] => { s with globals := added ++ s.globals }
  | frame :: rest => { s with frames := (added ++ frame) :: rest }

variable (s : Scopes β) (f : β → γ)

theorem add_eq_extend (name : String) (b : β) : s.add name b = s.extend [(Text.fold name, b)] := by
  obtain ⟨globals, _ | ⟨frame, frames⟩, labels⟩ := s <;> rfl

@[simp] theorem extend_nil : s.extend [] = s := by
  obtain ⟨globals, _ | ⟨frame, frames⟩, labels⟩ := s <;> rfl

theorem extend_extend (a b : Frame β) : (s.extend a).extend b = s.extend (b ++ a) := by
  obtain ⟨globals, _ | ⟨frame, frames⟩, labels⟩ := s <;> simp [extend]

@[simp] theorem pop_extend_push (added : Frame β) : (s.push.extend added).pop = s := rfl

@[simp] theorem leave_extend_enter (label : String) (added : Frame β) :
    (((s.pushLabel label).push.extend added).pop).popLabel = s := rfl

theorem map_add (name : String) (b : β) : (s.add name b).map f = (s.map f).add name (f b) := by
  obtain ⟨globals, _ | ⟨frame, frames⟩, labels⟩ := s <;> rfl

theorem map_pop : s.pop.map f = (s.map f).pop := by
  simp [pop, map, List.map_tail]

theorem map_popLabel : s.popLabel.map f = (s.map f).popLabel := rfl

theorem map_change_frame {key : String} {g : β → β} (hg : ∀ b, f (g b) = f b) :
    ∀ frame : Frame β, (Frame.change key g frame).map f = frame.map f
  | [] => rfl
  | (k, b) :: frame => by
    simp only [Frame.change]
    split
    · simp [Frame.map, hg]
    · exact congrArg ((k, f b) :: ·) (map_change_frame hg frame)

theorem map_changeFirst {key : String} {g : β → β} (hg : ∀ b, f (g b) = f b) :
    ∀ {frames frames' : List (Frame β)}, changeFirst key g frames = some frames' →
      frames'.map (Frame.map f) = frames.map (Frame.map f)
  | frame :: frames, frames', h => by
    simp only [changeFirst] at h
    split at h
    · cases h
      simp [map_change_frame f hg]
    · obtain ⟨rest, hrest, rfl⟩ := Option.map_eq_some_iff.1 h
      simp [map_changeFirst hg hrest]

/-- A change that keeps what is looked at is not seen. -/
theorem map_change {name : String} {g : β → β} (hg : ∀ b, f (g b) = f b) :
    (s.change name g).map f = s.map f := by
  simp only [change]
  split
  · simp only [map, map_changeFirst f hg ‹_›]
  · simp only [map, map_change_frame f hg]

theorem lookup_map_frame {key : String} : ∀ frame : Frame β,
    (frame.map f).lookup key = (frame.lookup key).map f
  | [] => rfl
  | (k, b) :: frame => by
    simp only [Frame.map, List.map_cons, List.lookup_cons]
    split
    · rfl
    · exact lookup_map_frame frame

theorem get?_map (name : String) : (s.map f).get? name = (s.get? name).map f := by
  obtain ⟨globals, frames, labels⟩ := s
  simp only [get?, map]
  induction frames with
  | nil => exact lookup_map_frame f globals
  | cons frame frames ih =>
    simp only [List.map_cons, findIn, lookup_map_frame]
    cases frame.lookup (Text.fold name) with
    | none => exact ih
    | some b => rfl

theorem within_add_frame {frame : Frame β} {name : String} {b : β} (h : frame.has name = false) :
    frame.Within (frame.add name b) := by
  intro key d hd
  change (List.lookup (Text.fold name) frame).isSome = false at h
  simp only [Frame.add, List.lookup_cons]
  split
  · rename_i hk
    rw [← eq_of_beq hk, hd] at h
    cases h
  · exact hd

theorem innermost_within_add {name : String} {b : β} (h : s.declaredHere name = false) :
    s.innermost.Within (s.add name b).innermost := by
  obtain ⟨globals, _ | ⟨frame, frames⟩, labels⟩ := s <;> exact within_add_frame h

theorem declaredHere_map (name : String) : (s.map f).declaredHere name = s.declaredHere name := by
  obtain ⟨globals, _ | ⟨frame, frames⟩, labels⟩ := s <;>
    simp [map, declaredHere, innermost, Frame.has, Frame.find?, lookup_map_frame]

end Scopes

/-! ## Machines -/

/-- The declarations a machine can see. -/
def Machine.names (m : Machine) : Names := ⟨m.scopes.map Symbol.toDeclaration, m.functions⟩

/-- Nothing but values, the output and what is pending or reported has changed. -/
structure Machine.Keeps (m t : Machine) : Prop where
  names : t.names = m.names
  constructs : t.constructs = m.constructs
  depth : t.depth = m.depth
  limit : t.limit = m.limit

/-- The innermost frame may have gained declarations. -/
structure Machine.Grows (m t : Machine) : Prop where
  scopes : ∃ added, t.names.scopes = m.names.scopes.extend added
  innermost : m.names.scopes.innermost.Within t.names.scopes.innermost
  functions : t.functions = m.functions
  constructs : t.constructs = m.constructs
  depth : t.depth = m.depth
  limit : t.limit = m.limit

namespace Machine

variable {m t u : Machine}

theorem Keeps.refl (m : Machine) : m.Keeps m := ⟨rfl, rfl, rfl, rfl⟩

theorem Keeps.trans (h : m.Keeps t) (h' : t.Keeps u) : m.Keeps u :=
  ⟨h'.names.trans h.names, h'.constructs.trans h.constructs, h'.depth.trans h.depth,
    h'.limit.trans h.limit⟩

theorem Keeps.grows (h : m.Keeps t) : m.Grows t :=
  ⟨⟨[], by rw [h.names, Scopes.extend_nil]⟩, fun _ _ hd => by rwa [h.names],
    congrArg Names.functions h.names, h.constructs, h.depth, h.limit⟩

theorem Grows.trans (h : m.Grows t) (h' : t.Grows u) : m.Grows u := by
  obtain ⟨a, ha⟩ := h.scopes
  obtain ⟨b, hb⟩ := h'.scopes
  exact ⟨⟨b ++ a, by rw [hb, ha, Scopes.extend_extend]⟩,
    fun k d hd => h'.innermost k d (h.innermost k d hd), h'.functions.trans h.functions,
    h'.constructs.trans h.constructs, h'.depth.trans h.depth, h'.limit.trans h.limit⟩

theorem names_introduce {name : String} {ty : Ty} {category : Category} {p : Position}
    {value : Option Value} : (m.introduce name ty category p value).names.scopes =
      m.names.scopes.add name ⟨name, ty, category, p, m.scopes.path⟩ :=
  Scopes.map_add ..

theorem grows_introduce {name : String} {ty : Ty} {category : Category} {p : Position}
    {value : Option Value} (h : m.scopes.declaredHere name = false) :
    m.Grows (m.introduce name ty category p value) := by
  refine ⟨⟨_, names_introduce.trans (Scopes.add_eq_extend ..)⟩, ?_, rfl, rfl, rfl, rfl⟩
  rw [names_introduce]
  exact Scopes.innermost_within_add _ ((Scopes.declaredHere_map ..).trans h)

theorem keeps_replace {name : String} {v : Value} {row : Option Nat} :
    m.Keeps (m.replace name v row) :=
  ⟨congrArg (Names.mk · m.functions) (Scopes.map_change _ _ fun _ => rfl), rfl, rfl, rfl⟩

theorem keeps_leaveScope (h : m.enterScope.Grows t) : m.Keeps t.leaveScope := by
  obtain ⟨added, ha⟩ := h.scopes
  refine ⟨?_, h.constructs, h.depth, h.limit⟩
  have hs : t.scopes.pop.map Symbol.toDeclaration = m.scopes.map Symbol.toDeclaration := by
    rw [Scopes.map_pop]
    exact (congrArg Scopes.pop ha).trans (Scopes.pop_extend_push m.names.scopes added)
  simp only [names, leaveScope, hs]
  exact congrArg _ h.functions

theorem keeps_leaveLabelled {label : String} (h : (m.enterLabelled label).Grows t) :
    m.Keeps t.leaveLabelled := by
  obtain ⟨added, ha⟩ := h.scopes
  refine ⟨?_, h.constructs, h.depth, h.limit⟩
  have hs : t.scopes.pop.popLabel.map Symbol.toDeclaration =
      m.scopes.map Symbol.toDeclaration := by
    rw [Scopes.map_popLabel, Scopes.map_pop]
    exact (congrArg (fun s => s.pop.popLabel) ha).trans
      (Scopes.leave_extend_enter m.names.scopes label added)
  simp only [names, leaveLabelled, hs]
  exact congrArg _ h.functions

theorem grows_leaveConstruct {c : Construct} (h : (m.enterConstruct c).Grows t) :
    m.Grows t.leaveConstruct :=
  ⟨h.scopes, h.innermost, h.functions, by simp [leaveConstruct, h.constructs, enterConstruct],
    h.depth, h.limit⟩

theorem keeps_leaveCall {name : String} (h : (m.enterCall name).2.Grows t) :
    m.Keeps (t.leaveCall (m.enterCall name).1) := by
  obtain ⟨added, ha⟩ := h.scopes
  have hg : t.scopes.globals.map Symbol.toDeclaration =
      m.scopes.globals.map Symbol.toDeclaration := congrArg Scopes.globals ha
  refine ⟨?_, rfl, ?_, h.limit⟩
  · simp only [names, leaveCall, leaveLabelled, enterCall, Scopes.reattach, Scopes.detach,
      Scopes.map, Scopes.pop, Scopes.popLabel, hg]
    exact congrArg _ h.functions
  · have : t.depth = m.depth + 1 := h.depth
    simp [leaveCall, leaveLabelled, this]

end Machine

/-! ## The evaluator -/

/-- Whether a statement can declare a name in the scope it stands in. -/
def Stmt.declares : Stmt → Bool
  | .declare .. => true
  | .branch _ _ _ (some s) => s.declares
  | _ => false

namespace Watched

open Eval Machine

variable {α β : Type} {x : Watched α}

/-- A computation that leaves the scopes as they are, however it ends. -/
def Stays (x : Watched α) : Prop := ∀ m : Machine, Preserves (fun _ => True) m.Keeps x

/-- A computation that at most adds to the innermost frame, however it ends. -/
def Extends (x : Watched α) : Prop := ∀ m : Machine, Preserves (fun _ => True) m.Grows x

theorem Stays.extends (hx : Stays x) : Extends x := fun _ callers t ht =>
  (hx t callers t (.refl t)).imp (fun _ _ hu => ht.trans hu.grows) fun _ _ hu => ht.trans hu.grows

theorem Stays.bind {f : α → Watched β} (hx : Stays x) (hf : ∀ a, Stays (f a)) : Stays (x >>= f) :=
  fun m => (hx m).bind fun a => hf a m

theorem Extends.bind {f : α → Watched β} (hx : Extends x) (hf : ∀ a, Extends (f a)) :
    Extends (x >>= f) :=
  fun m => (hx m).bind fun a => hf a m

theorem stable_keeps {m : Machine} : Stable (fun _ => True) m.Keeps where
  store _ h := ⟨h.names, h.constructs, h.depth, h.limit⟩
  steps _ _ := trivial
  expr _ _ := ⟨trivial, fun _ => trivial, fun _ => trivial⟩
  exprFor _ _ _ := ⟨trivial, fun _ => trivial, fun _ => trivial⟩

theorem stays_step {f : Machine → α × Machine} (hf : ∀ m : Machine, m.Keeps (f m).2) :
    Stays (Runs.step f) := fun _ _ t ht =>
  meets_step trivial (ht.trans (hf t))

theorem stays_update {f : Machine → Machine} (hf : ∀ m : Machine, m.Keeps (f m)) :
    Stays (update f) :=
  stays_step hf

theorem stays_note {d : Diagnostic} : Stays (update (·.note d)) :=
  stays_update fun _ => ⟨rfl, rfl, rfl, rfl⟩

theorem stays_exhausted : Stays (Runs.exhausted : Watched α) := fun _ => preserves_exhausted

theorem stays_pure {a : α} : Stays (pure a : Watched α) := fun _ => preserves_pure

theorem stays_look {f : Machine → Except Diagnostic α} : Stays (Runs.look f : Watched α) :=
  fun _ => preserves_look

theorem stays_ofExcept {p : Position} {r : Except Fault α} :
    Stays (Eval.ofExcept p r : Watched α) :=
  fun _ => preserves_ofExcept

theorem stays_within {j : Job} {x : Watched j.Result} (hx : Stays x) :
    Stays (Runs.within j x) := fun m callers t ht =>
  meets_within trivial ((hx m callers t ht).imp (fun _ _ h => ⟨trivial, h⟩)
    fun _ _ h => ⟨trivial, h⟩)

theorem extends_within {j : Job} {x : Watched j.Result} (hx : Extends x) :
    Extends (Runs.within j x) := fun m callers t ht =>
  meets_within trivial ((hx m callers t ht).imp (fun _ _ h => ⟨trivial, h⟩)
    fun _ _ h => ⟨trivial, h⟩)

theorem extends_declare {name : String} {ty : Ty} {category : Category} {p : Position}
    {value : Option Value} : Extends (declare name ty category p value) := by
  intro m callers t ht
  exact meets_declare (fun hfree => ⟨trivial, ht.trans (grows_introduce hfree)⟩) fun _ => ht

theorem Stays.declareWith {name : String} {ty : Ty} {p : Position} {x : Watched Value}
    (hx : Stays x) : Extends (declareWith name ty p x) := by
  refine Extends.bind (fun m callers t ht => meets_attempt (hx.extends m callers t ht)) ?_
  rintro (d | v)
  · exact extends_declare.bind fun _ => stays_look.extends
  · exact extends_declare

theorem extends_declareParameters : ∀ (qs : List Parameter) (vs : List Value),
    Extends (declareParameters qs vs)
  | [], _ => stays_pure.extends
  | _ :: _, [] => stays_pure.extends
  | _ :: qs, _ :: vs => extends_declare.bind fun _ => extends_declareParameters qs vs

theorem stays_assign {name : String} {v : Value} {p : Position} : Stays (assign name v p) :=
  Stays.bind stays_look fun _ => stays_update fun _ => keeps_replace

theorem stays_write {c v : Value} {i : Int64} {j : Option Int64} {owner : String}
    {p : Position} : Stays (write c i j v owner p) := fun _ => stable_keeps.edit

/-- What is entered is left. -/
theorem Extends.between {enter leave : Machine → Machine} (hx : Extends x)
    (hl : ∀ m t, (enter m).Grows t → m.Keeps (leave t)) : Stays (between enter leave x) :=
  fun _ callers t ht => meets_between trivial <|
    (hx (enter t) callers (enter t) (Keeps.refl _).grows).imp
      (fun _ u hu => ⟨trivial, ht.trans (hl t u hu)⟩)
      fun _ u hu => ⟨trivial, ht.trans (hl t u hu)⟩

theorem Extends.inScope (hx : Extends x) : Stays (inScope x) :=
  hx.between fun _ _ h => keeps_leaveScope h

theorem Extends.inLabelled {label : String} (hx : Extends x) : Stays (inLabelled label x) :=
  hx.between fun _ _ h => keeps_leaveLabelled h

theorem Extends.inConstruct {c : Construct} (hx : Extends x) : Extends (inConstruct c x) :=
  fun _ callers t ht => meets_between trivial <|
    (hx (t.enterConstruct c) callers _ (Keeps.refl _).grows).imp
      (fun _ _ hu => ⟨trivial, ht.trans (grows_leaveConstruct hu)⟩)
      fun _ _ hu => ⟨trivial, ht.trans (grows_leaveConstruct hu)⟩

theorem Extends.inCall {name : String} {p : Position} (hx : Extends x) : Stays (inCall name p x) :=
  fun _ _ _ ht => meets_inCall (fun _ => ht) (fun _ => trivial) fun _ =>
    (hx _ _ _ (Keeps.refl _).grows).imp (fun _ _ hu => ⟨trivial, ht.trans (keeps_leaveCall hu)⟩)
      fun _ _ hu => ⟨trivial, ht.trans (keeps_leaveCall hu)⟩

theorem Stays.guarded {x : Watched Unit} (hx : Stays x) : Stays (guarded x) :=
  fun m callers t ht => meets_guarded <| (hx m callers t ht).imp (fun _ _ h => h) fun d u hu =>
    have hk : u.Keeps (u.fail d) ∧ u.Keeps (u.note d) := ⟨⟨rfl, rfl, rfl, rfl⟩, rfl, rfl, rfl, rfl⟩
    ⟨fun _ => ⟨trivial, trivial, trivial, hu.trans hk.1⟩, fun _ => ⟨trivial, hu.trans hk.2⟩⟩

theorem Extends.guarded {x : Watched Unit} (hx : Extends x) : Extends (guarded x) :=
  fun m callers t ht => meets_guarded <| (hx m callers t ht).imp (fun _ _ h => h) fun d u hu =>
    have hk : u.Keeps (u.fail d) ∧ u.Keeps (u.note d) := ⟨⟨rfl, rfl, rfl, rfl⟩, rfl, rfl, rfl, rfl⟩
    ⟨fun _ => ⟨trivial, trivial, trivial, hu.trans hk.1.grows⟩,
      fun _ => ⟨trivial, hu.trans hk.2.grows⟩⟩

theorem keeps_consume (m : Machine) (g : Signal) : m.Keeps (m.consume g).2 := by
  simp only [consume]
  repeat' split
  all_goals exact ⟨rfl, rfl, rfl, rfl⟩

theorem stays_continueLooping : Stays (Runs.step Machine.continueLooping) :=
  stays_step fun m => by
    have hb := keeps_consume m .breakLoop
    simp only [continueLooping]
    split <;> rename_i h <;> rw [h] at hb
    · exact hb
    · exact hb.trans (keeps_consume _ .continueLoop)

theorem stays_conclude {f : Function} : Stays (conclude f) := by
  refine Stays.bind (stays_step fun m => ⟨rfl, rfl, rfl, rfl⟩) fun r => ?_
  cases r with
  | some d => exact stays_look
  | none =>
    refine Stays.bind (stays_step fun m => ?_) fun v =>
      Stays.bind (stays_step fun m => ⟨rfl, rfl, rfl, rfl⟩) fun g => ?_
    · simp only [takeReturn]
      split <;> exact ⟨rfl, rfl, rfl, rfl⟩
    · cases g with
      | none => exact stays_pure
      | some g => exact stays_note.bind fun _ => stays_pure

/-- Every part of the evaluator leaves what it enters. -/
structure Balanced (n : Nat) : Prop where
  values : ∀ m : Machine, Evaluates (fun _ => True) m.Keeps n
  call : ∀ f es p, Stays (call n f es p)
  stmt : ∀ s, Extends (stmt n s)
  stmts : ∀ ss, Extends (stmts n ss)
  block : ∀ b, Stays (block n b)
  perform : ∀ s, Extends (perform n s)
  header : ∀ s, Extends (header n s)
  switch : ∀ v cs d b, Extends (switch n v cs d b)
  whileLoop : ∀ e b, Extends (whileLoop n e b)
  doLoop : ∀ b e, Extends (doLoop n b e)
  forLoop : ∀ e s b, Extends (forLoop n e s b)
  /-- A statement that declares nothing in its scope leaves it as it is. -/
  stmtStays : ∀ s : Stmt, s.declares = false → Stays (Eval.stmt n s)
  performStays : ∀ s : Stmt, s.declares = false → Stays (Eval.perform n s)

theorem balanced_zero : Balanced 0 where
  values _ := .zero
  call _ _ _ := stays_exhausted
  stmt _ := stays_exhausted.extends
  stmts _ := stays_exhausted.extends
  block _ := stays_exhausted
  perform _ := stays_exhausted.extends
  header _ := stays_exhausted.extends
  switch _ _ _ _ := stays_exhausted.extends
  whileLoop _ _ := stays_exhausted.extends
  doLoop _ _ := stays_exhausted.extends
  forLoop _ _ _ := stays_exhausted.extends
  stmtStays _ _ := stays_exhausted
  performStays _ _ := stays_exhausted

namespace Balanced

variable {n : Nat} (ih : Balanced n)
include ih

theorem expr (e : Expr) : Stays (Eval.expr n e) := fun m => (ih.values m).expr e

theorem condition (e : Expr) (c : String) : Stays (Eval.condition n e c) := fun m =>
  (ih.values m).condition e c

theorem call_succ (f : String) (es : List Expr) (p : Position) :
    Stays (Eval.call (n + 1) f es p) := by
  rw [Eval.call]
  refine stays_within (j := .call f es p) (Stays.bind stays_look fun f? =>
    Stays.bind (fun _ => preserves_ofOption) fun g => Stays.bind stays_ofExcept fun _ =>
    Stays.bind (fun m => (ih.values m).exprs es) fun vs =>
    Stays.bind (fun _ => preserves_ofResult) fun bound =>
    Stays.bind (Extends.inCall ?_) fun _ => stays_ofExcept)
  exact (extends_declareParameters _ _).bind fun _ => (ih.stmts _).bind fun _ =>
    stays_conclude.extends

theorem stmts_succ : ∀ ss, Extends (Eval.stmts (n + 1) ss)
  | [] => stays_pure.extends
  | s :: ss => (ih.stmt s).bind fun _ => stays_look.extends.bind fun b => by
    split
    · exact stays_pure.extends
    · exact ih.stmts ss

/-- The statements that open a scope, jump, or only compute leave the scopes as they are. -/
theorem performStays_succ (s : Stmt) (hs : s.declares = false) :
    Stays (Eval.perform (n + 1) s) := by
  simp only [Eval.perform]
  refine stays_within (j := .stmt s) ?_
  cases s with
  | declare => cases hs
  | assign _ name value =>
    exact Stays.bind stays_look fun t => Stays.bind (fun m => (ih.values m).exprFor value t)
      fun _ => stays_assign
  | assignIndex _ target index column value =>
    exact (ih.expr target).bind fun _ => Stays.bind (fun m => (ih.values m).indexOf index) fun _ =>
      Stays.bind (fun m => (ih.values m).indexOf? column) fun _ => (ih.expr value).bind fun _ =>
      stays_write
  | step _ target up =>
    cases target with
    | name =>
      exact Stays.bind stays_look fun _ => Stays.bind stays_ofExcept fun _ => stays_assign
    | index _ target index =>
      exact (ih.expr target).bind fun _ => Stays.bind (fun m => (ih.values m).indexOf index)
        fun _ => Stays.bind stays_look fun _ => Stays.bind stays_ofExcept fun _ => stays_write
    | cell _ target index column =>
      exact (ih.expr target).bind fun _ => Stays.bind (fun m => (ih.values m).indexOf index)
        fun _ => Stays.bind (fun m => (ih.values m).indexOf column) fun _ =>
        Stays.bind stays_look fun _ => Stays.bind stays_look fun _ =>
        Stays.bind stays_ofExcept fun _ => stays_write
    | _ => exact stays_look
  | block b => exact ih.block b
  | branch _ test body otherwise =>
    refine (ih.condition test _).bind fun b => ?_
    split
    · exact ih.block body
    · cases otherwise with
      | none => exact stays_pure
      | some s => exact ih.stmtStays s hs
  | switch _ scrutinee cases fallback =>
    exact (ih.expr scrutinee).bind fun _ => ((ih.switch _ _ _ _).inConstruct).inLabelled
  | whileLoop _ test body => exact ((ih.whileLoop test body).inConstruct).inLabelled
  | doLoop _ body test => exact ((ih.doLoop body test).inConstruct).inLabelled
  | forLoop _ first test next body =>
    exact ((ih.header first).bind fun _ => (ih.forLoop test next body).inConstruct).inLabelled
  | breakOut | continueOn => exact stays_update fun _ => ⟨rfl, rfl, rfl, rfl⟩
  | print _ value =>
    exact (ih.expr value).bind fun v =>
      stays_update (f := fun m => m.print (m.store.text v)) fun _ => ⟨rfl, rfl, rfl, rfl⟩
  | function => exact stays_pure
  | giveBack _ value =>
    have hreturn : ∀ v, Stays (update (·.requestReturn v)) := fun _ =>
      stays_update fun _ => ⟨rfl, rfl, rfl, rfl⟩
    cases value with
    | none => exact hreturn .void
    | some e => exact (ih.expr e).bind hreturn
  | start _ name arguments => exact (ih.call name arguments _).bind fun _ => stays_pure
  | expression _ value => exact (ih.expr value).bind fun _ => stays_pure

theorem perform_succ (s : Stmt) : Extends (Eval.perform (n + 1) s) := by
  cases hs : s.declares
  · exact (ih.performStays_succ s hs).extends
  simp only [Eval.perform]
  refine extends_within (j := .stmt s) ?_
  cases s with
  | declare _ name ty value =>
    cases value with
    | none => exact extends_declare
    | some e =>
      exact Stays.declareWith (Stays.bind (fun m => (ih.values m).exprFor e ty) fun _ =>
        stays_ofExcept)
  | branch _ test body otherwise =>
    refine (ih.condition test _).extends.bind fun b => ?_
    split
    · exact (ih.block body).extends
    · cases otherwise with
      | none => exact stays_pure.extends
      | some s => exact ih.stmt s
  | _ => cases hs

theorem switch_succ (v : Value) : ∀ cs d b, Extends (Eval.switch (n + 1) v cs d b)
  | [], none, _ => stays_pure.extends
  | [], some body, _ => (ih.stmts body).bind fun _ =>
    (stays_step fun m => keeps_consume m _).extends.bind fun _ => stays_pure.extends
  | c :: rest, d, false => by
    simp only [Eval.switch]
    refine (ih.expr c.value).extends.bind fun w => stays_look.extends.bind fun b => ?_
    split <;> exact ih.switch _ _ _ _
  | c :: rest, d, true => by
    simp only [Eval.switch]
    refine (ih.stmts c.body).bind fun _ =>
      (stays_step fun m => keeps_consume m _).extends.bind fun b => ?_
    split
    · exact stays_pure.extends
    · refine stays_look.extends.bind fun b => ?_
      split
      · exact stays_pure.extends
      · exact ih.switch _ _ _ _

/-- One round of a loop, and what comes after it. -/
theorem round (b : Block) {x : Watched Unit} (hx : Extends x) : Extends (do
    Eval.block n b
    if ← Runs.step Machine.continueLooping then x else return ()) :=
  (ih.block b).extends.bind fun _ => stays_continueLooping.extends.bind fun c => by
    split
    · exact hx
    · exact stays_pure.extends

theorem whileLoop_succ (e : Expr) (b : Block) : Extends (Eval.whileLoop (n + 1) e b) :=
  (ih.condition e _).extends.bind fun c => by
    split
    · exact ih.round b (ih.whileLoop e b)
    · exact stays_pure.extends

theorem doLoop_succ (b : Block) (e : Expr) : Extends (Eval.doLoop (n + 1) b e) :=
  ih.round b <| (ih.condition e _).extends.bind fun c => by
    split
    · exact ih.doLoop b e
    · exact stays_pure.extends

theorem forLoop_succ (e : Option Expr) (s : Option Stmt) (b : Block) :
    Extends (Eval.forLoop (n + 1) e s b) :=
  Extends.bind (Stays.extends fun m => (ih.values m).goesOn e) fun c => by
    split
    · exact ih.round b ((ih.header s).bind fun _ => ih.forLoop e s b)
    · exact stays_pure.extends

end Balanced

theorem balanced (n : Nat) : Balanced n := by
  induction n with
  | zero => exact balanced_zero
  | succ n ih =>
    exact {
      values := fun m => .succ stable_keeps (ih.values m) fun f es p => ih.call f es p m
      call := ih.call_succ
      stmt := fun s => (ih.perform s).guarded
      stmts := ih.stmts_succ
      block := fun b => (ih.stmts b.body).inScope
      perform := ih.perform_succ
      header := fun s => by
        cases s with
        | none => exact stays_pure.extends
        | some s => exact ih.perform s
      switch := ih.switch_succ
      whileLoop := ih.whileLoop_succ
      doLoop := ih.doLoop_succ
      forLoop := ih.forLoop_succ
      stmtStays := fun s hs => (ih.performStays s hs).guarded
      performStays := ih.performStays_succ }

/-- Statements that declare nothing in their scope leave it as it is. -/
theorem stmts_stays : ∀ (n : Nat) {ss : List Stmt}, (∀ s ∈ ss, s.declares = false) →
    Stays (stmts n ss)
  | 0, _, _ => stays_exhausted
  | _ + 1, [], _ => stays_pure
  | n + 1, s :: ss, h => by
    obtain ⟨hs, hss⟩ := List.forall_mem_cons.1 h
    refine ((balanced n).stmtStays s hs).bind fun _ => Stays.bind stays_look fun b => ?_
    split
    · exact stays_pure
    · exact stmts_stays n hss

end Watched

end Primer
