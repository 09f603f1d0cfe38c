import Primer.Proofs.Accords
import Primer.Proofs.Signals
import Primer.Proofs.TypedRun
import Primer.Proofs.Walk

/-!
# What a check knows about a machine

Where a check and a run meet, they see the same names (`Machine.Agrees`): the scopes of the running
call are those that were open in the check, and the globals that were declared there still are. A
call brings the machine to where the body of the function was checked.
-/

namespace Primer

theorem Scopes.findIn_within {β : Type} {globals globals' : Frame β} (h : globals.Within globals')
    {key : String} {b : β} : ∀ {frames : List (Frame β)},
      Scopes.findIn key frames globals = some b → Scopes.findIn key frames globals' = some b
  | [], hb => h key b hb
  | frame :: frames, hb => by
    simp only [Scopes.findIn] at hb ⊢
    split at hb
    · exact hb
    · exact findIn_within h hb

namespace Machine

/-- A machine sees the names of a check; in a call it may see more globals. -/
structure Agrees (N : Names) (m : Machine) : Prop where
  functions : m.functions = N.functions
  frames : m.names.scopes.frames = N.scopes.frames
  labels : m.scopes.labels = N.scopes.labels
  globals : N.scopes.globals.Within m.names.scopes.globals
  top : N.scopes.frames = [] → m.names.scopes.globals = N.scopes.globals

section Agrees

variable {N : Names} {m t : Machine} {name : String} {d : Declaration}

theorem Agrees.keeps (h : m.Agrees N) (hk : m.Keeps t) : t.Agrees N := by
  have hn := hk.names
  refine ⟨(congrArg Names.functions hn).trans h.functions, ?_, ?_, ?_, ?_⟩
  · rw [hn]
    exact h.frames
  · exact (congrArg (·.scopes.labels) hn).trans h.labels
  · rw [hn]
    exact h.globals
  · rw [hn]
    exact h.top

/-- The name a check found stands for a symbol of that declaration. -/
theorem Agrees.symbol (h : m.Agrees N) (hd : N.scopes.get? name = some d) :
    ∃ s, m.scopes.get? name = some s ∧ s.toDeclaration = d := by
  have hm : m.names.scopes.get? name = some d := by
    rw [Scopes.get?, h.frames]
    exact Scopes.findIn_within h.globals hd
  rw [names, Scopes.get?_map] at hm
  exact Option.map_eq_some_iff.1 hm

theorem Agrees.enterScope (h : m.Agrees N) :
    m.enterScope.Agrees { N with scopes := N.scopes.push } :=
  ⟨h.functions, congrArg ([] :: ·) h.frames, h.labels, h.globals, fun h => by cases h⟩

theorem Agrees.enterLabelled (h : m.Agrees N) (label : String) :
    (m.enterLabelled label).Agrees { N with scopes := (N.scopes.pushLabel label).push } :=
  ⟨h.functions, congrArg ([] :: ·) h.frames, congrArg (label :: ·) h.labels, h.globals,
    fun h => by cases h⟩

/-- What a check could declare the machine can. -/
theorem Agrees.free (h : m.Agrees N) (hn : N.scopes.declaredHere name = false) :
    m.scopes.declaredHere name = false := by
  have hm : m.names.scopes.declaredHere name = m.scopes.declaredHere name :=
    Scopes.declaredHere_map ..
  rw [← hm, ← hn]
  simp only [Scopes.declaredHere, Scopes.innermost, h.frames]
  rcases hf : N.scopes.frames with _ | ⟨frame, frames⟩
  · simp [h.top hf]
  · rfl

theorem Agrees.introduce (h : m.Agrees N) {ty : Ty} {category : Category} {p : Position}
    {value : Option Value} : (m.introduce name ty category p value).Agrees
      { N with scopes := N.scopes.add name ⟨name, ty, category, p, N.scopes.path⟩ } := by
  have hpath : m.scopes.path = N.scopes.path := by
    simp only [Scopes.path, h.labels]
  have hn : (m.introduce name ty category p value).names.scopes =
      m.names.scopes.add name ⟨name, ty, category, p, N.scopes.path⟩ := by
    rw [← hpath]
    exact names_introduce
  have hlabels : (m.introduce name ty category p value).scopes.labels = m.scopes.labels :=
    (congrArg Scopes.labels hn).trans (by simp only [Scopes.add]; split <;> rfl)
  rcases hf : N.scopes.frames with _ | ⟨frame, frames⟩
  · have hm := h.frames.trans hf
    have hg := h.top hf
    refine ⟨h.functions, ?_, hlabels.trans ?_, ?_, ?_⟩
    all_goals simp [hn, Scopes.add, hf, hm, hg, h.labels, Frame.Within]
  · have hm := h.frames.trans hf
    refine ⟨h.functions, ?_, hlabels.trans ?_, ?_, ?_⟩
    all_goals simp [hn, Scopes.add, hf, hm, h.labels, h.globals]

/-- A call brings the machine to where the check opened the function. -/
theorem Agrees.enterCall (h : m.Agrees N) {c : Checker} (hframes : c.scopes.frames = [])
    (hlabels : c.scopes.labels = []) (hf : c.functions = N.functions)
    (hg : c.scopes.globals.Within N.scopes.globals) :
    (m.enterCall name).2.Agrees (c.enterLabelled (Label.ofFunction name)).toNames := by
  refine ⟨h.functions.trans hf.symm, ?_, ?_, fun k d hd => h.globals k d (hg k d hd), ?_⟩
  · simp [Machine.enterCall, Machine.enterLabelled, Checker.enterLabelled, Machine.names,
      Scopes.map, Scopes.detach, Scopes.push, Scopes.pushLabel, hframes, Frame.map]
  · simp [Machine.enterCall, Machine.enterLabelled, Checker.enterLabelled, Scopes.detach,
      Scopes.push, Scopes.pushLabel, hlabels]
  · exact fun h => by cases h

end Agrees

/-- Everything reported is a residual fault. -/
def Quiet (p : Program) (m : Machine) : Prop := ∀ d ∈ m.report.toList, d.fault.Residual p

/-- What is pending is a residual fault or a value the running function returns. -/
structure Tame (p : Program) (current : Option Function) (m : Machine) : Prop where
  failure : ∀ d, m.failure = some d → d.fault.Residual p
  returns : ∀ v, m.signal = some (.giveBack v) →
    ∃ f, current = some f ∧ (f.isProcedure = true ∨ f.returns.assignable v.ty = true)

/-- A machine before something is evaluated that was checked under names. -/
structure Stands (p : Program) (N : Names) (callers : List Caller) (L : Layout) (m : Machine) :
    Prop where
  sound : m.Sound p.table callers L
  agrees : m.Agrees N
  clean : m.Clean
  quiet : m.Quiet p

/-- A machine after a statement that was checked in a function, under the names checked next. -/
structure Over (p : Program) (N : Names) (current : Option Function) (callers : List Caller)
    (L : Layout) (m : Machine) : Prop where
  sound : m.Sound p.table callers L
  agrees : m.Agrees N
  tame : m.Tame p current
  quiet : m.Quiet p

section Stands

variable {p : Program} {N : Names} {current : Option Function} {callers : List Caller}
  {L L' : Layout} {m : Machine} {d : Diagnostic}

theorem Quiet.note (h : m.Quiet p) (hd : d.fault.Residual p) : (m.note d).Quiet p := by
  intro d' hd'
  simp only [Machine.note, Report.push, Report.toList, Array.toList_push, List.mem_append,
    List.mem_singleton] at hd'
  rcases hd' with hd' | rfl
  · exact h d' hd'
  · exact hd

theorem Clean.tame (h : m.Clean) : m.Tame p current :=
  ⟨fun d hd => by simp [h.failure] at hd, fun v hv => by simp [h.signal] at hv⟩

theorem Stands.over (h : m.Stands p N callers L) : m.Over p N current callers L :=
  ⟨h.sound, h.agrees, h.clean.tame, h.quiet⟩

theorem Over.stands (h : m.Over p N current callers L) (hm : m.Clean) : m.Stands p N callers L :=
  ⟨h.sound, h.agrees, hm, h.quiet⟩

/-- The symbol of a name that was found has a value of the type that was found. -/
theorem Stands.symbol (h : m.Stands p N callers L) {name : String} {o : Position}
    (hn : (N.lookup name o).notes = []) : ∃ s, m.scopes.lookup name o = .ok s ∧
      s.ty = (N.lookup name o).value ∧ s.value.ty = s.ty := by
  simp only [Names.lookup, Scopes.lookup] at hn ⊢
  rcases hd : N.scopes.get? name with _ | d
  · simp [hd] at hn
  · obtain ⟨s, hs, rfl⟩ := h.agrees.symbol hd
    exact ⟨s, by simp [hs], rfl, (h.sound.scopes.get? hs).ty⟩

end Stands

end Machine

/-- What the notes of a run say about a check: every expression gives a value of the type it was
inferred to have, and nothing fails with another than a residual fault. -/
def Event.Checked (p : Program) : Event → Prop
  | .steps _ _ t => t.Quiet p
  | .enters _ _ => True
  | .gives (.expr e) v m => ∃ N, p.Infers N e ∧ m.Agrees N ∧ N.infer e = ⟨v.ty, []⟩
  | .gives (.exprFor e t) v m => ∃ N, p.InfersFor N e t ∧ m.Agrees N ∧ N.inferFor e t = ⟨v.ty, []⟩
  | .gives _ _ _ => True
  | .fails _ d _ => d.fault.Residual p

/-- A program that was read and that checking has no complaint about, where no switch declares a
name for its cases and no `start` names a built-in function. -/
structure Program.Accepted (p : Program) : Prop where
  proper : p.Proper
  clean : p.analyze.report.isEmpty = true
  cases : p.everywhere Stmt.declaresInNoCase = true
  starts : p.everywhere Stmt.startsNoBuiltin = true

/-- A function that is made known without a complaint has a new name. -/
theorem Checker.register_silent {c : Checker} {f : Function} (h : (c.register f).Silent) :
    c.Silent ∧ c.functions.has f.name = false ∧
      (c.register f).functions = c.functions.add f.name f := by
  simp only [register] at h ⊢
  split at h
  · exact absurd h silent_note
  · split at h
    · exact absurd h silent_note
    · rename_i hb hf
      exact ⟨h, by simpa using hf, by simp [hb, hf]⟩

theorem Checker.registers_silent : ∀ {fs : List Function} {c : Checker},
    (fs.foldl register c).Silent → c.Silent
  | [], _, h => h
  | _ :: _, _, h => (register_silent (registers_silent h)).1

/-- If checking has no complaint about the functions, running has none and knows the same. -/
theorem Machine.register_agrees : ∀ {fs : List Function} {c : Checker} {m : Machine},
    m.functions = c.functions → (fs.foldl Checker.register c).Silent →
      (fs.foldl Machine.register m).functions = (fs.foldl Checker.register c).functions ∧
        (fs.foldl Machine.register m).report = m.report
  | [], _, _, hm, _ => ⟨hm, rfl⟩
  | f :: fs, c, m, hm, h => by
    obtain ⟨-, hnew, hadd⟩ := Checker.register_silent (Checker.registers_silent h)
    have hr : (m.register f).functions = (c.register f).functions ∧
        (m.register f).report = m.report := by
      simp [Machine.register, Machine.register?, hm, hnew, hadd]
    obtain ⟨hf, hrep⟩ := register_agrees hr.1 h
    exact ⟨hf, hrep.trans hr.2⟩

namespace Program

variable {p : Program}

theorem mem_of_table {name : String} {f : Function} (h : p.table.find? name = some f) :
    f ∈ p.functions := by
  have hfold : ∀ (fs : List Function) (c : Checker),
      (∀ f ∈ fs, f ∈ p.functions) → (∀ name f, c.functions.find? name = some f → f ∈ p.functions) →
      ∀ name f, (fs.foldl Checker.register c).functions.find? name = some f →
        f ∈ p.functions := by
    intro fs
    induction fs with
    | nil => exact fun _ _ hc => hc
    | cons g fs ih =>
      intro c hfs hc
      obtain ⟨hg, hfs⟩ := List.forall_mem_cons.1 hfs
      refine ih _ hfs fun name f hf => ?_
      simp only [Checker.register] at hf
      split at hf
      · exact hc name f hf
      · split at hf
        · exact hc name f hf
        · rw [Frame.find?_add] at hf
          split at hf
          · cases hf
            exact hg
          · exact hc name f hf
  exact hfold p.functions {} (fun _ h => h) (by simp [Frame.find?]) name f h

theorem Accepted.function (hp : p.Accepted) {name : String} {f : Function}
    (h : p.table.find? name = some f) : f.Proper := hp.proper.function (mem_of_table h)

theorem Accepted.place (hp : p.Accepted) {m : Machine} (hm : m.functions = p.table) :
    m.place.Proper := by
  intro name f hf
  rw [Machine.place, hm] at hf
  exact hp.function hf

theorem Accepted.walks (hp : p.Accepted) {ss : List Stmt} {c : Checker} (h : p.Walks ss c) :
    ∀ s ∈ ss, s.Proper ∧ s.declaresInNoCase = true ∧ s.startsNoBuiltin = true := by
  have hproper := h.all (fun s hs => hs.inner) hp.proper
  exact fun s hs => ⟨hproper s hs, h.everywhere hp.cases s hs, h.everywhere hp.starts s hs⟩

/-- All names and functions a machine sees have types. -/
theorem Accepted.typed (hp : p.Accepted) {N : Names} {callers : List Caller} {L : Layout}
    {m : Machine} (hm : m.Stands p N callers L) : N.Typed := by
  refine ⟨fun name o hn => ?_, fun name f hf => ?_⟩
  · obtain ⟨s, -, hty, hv⟩ := hm.symbol hn
    rw [← hty, ← hv]
    exact s.value.ty_ne_error
  · rw [← hm.agrees.functions, hm.sound.functions] at hf
    exact (hp.function hf).1

/-- Before the first statement nothing is reported, and the machine sees what the check saw. -/
theorem agrees_loaded (hclean : p.analyze.report.isEmpty = true) (limit : Nat) :
    (p.loaded limit).report = {} ∧
      (p.loaded limit).Agrees (p.functions.foldl Checker.register {}).toNames := by
  have hsilent := (Checker.topLevel_follows _ _ _).silent (Reaches.first.silent hclean)
  obtain ⟨hf, hr⟩ := Machine.register_agrees (m := Machine.fresh limit) rfl hsilent
  have hf : (p.loaded limit).functions = p.table := hf
  have hs := Checker.registers_scopes p.functions {}
  refine ⟨hr, hf, ?_, ?_, ?_, ?_⟩ <;> rw [hs, p.loaded_eq limit]
  · rfl
  · rfl
  · exact fun _ _ h => by cases h
  · exact fun _ => rfl

/-- Before the first statement the machine stands where the check stands. -/
theorem Accepted.stands_loaded (hp : p.Accepted) (limit : Nat) : (p.loaded limit).Stands p
    (p.functions.foldl Checker.register {}).toNames [] [] := by
  obtain ⟨hr, hagrees⟩ := agrees_loaded hp.clean limit
  have hs := p.sound_loaded limit
  rw [hagrees.functions] at hs
  refine ⟨hs, hagrees, ?_, ?_⟩
  · rw [p.loaded_eq limit]
    exact ⟨rfl, rfl⟩
  · intro d hd
    simp [hr, Report.toList] at hd

end Program

end Primer
