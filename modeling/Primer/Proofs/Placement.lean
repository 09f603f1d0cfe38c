import Primer.Proofs.CheckedTwins
import Primer.Proofs.Walk

/-!
# Where functions are declared

All functions are known before the first statement runs, and a check of a function changes nothing
but what has been reported and how many entries were met. So functions of different names may stand
anywhere among the other statements of a program, in any order.
-/

namespace Primer

/-- The form of its name in which a function is found. -/
def FunctionOf.key {σ : Type} (f : FunctionOf σ) : String := Text.fold f.name

/-- The complaint about a function that has the name of a built-in one. -/
def FunctionOf.reserved? {σ : Type} (f : FunctionOf σ) : Option Diagnostic :=
  (Builtin.ofName? f.name).map fun _ => ⟨.reservedFunctionName f.name, f.span.start⟩

/-- The statements that declare no function. -/
def Stmt.steps (ss : List Stmt) : List Stmt := ss.filter fun s => s.function?.isNone

section Steps

variable {s : Stmt} {ss : List Stmt}

theorem Stmt.steps_function {g : Function} (hs : s.function? = some g) :
    steps (s :: ss) = steps ss := by
  simp [steps, hs]

theorem Stmt.steps_step (hs : s.function? = none) : steps (s :: ss) = s :: steps ss := by
  simp [steps, hs]

end Steps

namespace Program

/-- No two functions of a program have the same name. -/
def Distinct (p : Program) : Prop := (p.functions.map FunctionOf.key).Nodup

/-- A run of a program ends with an output and a report. -/
def Yields (p : Program) (limit : Nat) (output : Array String) (report : Report) : Prop :=
  ∃ fuel m, p.execute fuel limit = some m ∧ m.output = output ∧ m.report = report

end Program

/-! ## Known functions -/

namespace Frame

theorem find?_perm {β : Type} {fr fr' : Frame β} (h : fr.Perm fr')
    (hd : (List.map Prod.fst fr).Nodup) (name : String) : fr'.find? name = fr.find? name := by
  simp only [find?]
  induction h with
  | nil => rfl
  | cons a _ ih =>
    obtain ⟨k, x⟩ := a
    simp only [List.lookup_cons, ih (List.nodup_cons.1 hd).2]
  | swap a b _ =>
    obtain ⟨k, x⟩ := a
    obtain ⟨l, y⟩ := b
    have hne : k ≠ l := fun h => (List.nodup_cons.1 hd).1 (by simp [h])
    simp only [List.lookup_cons]
    by_cases hk : (Text.fold name == k) = true
    · have hl : (Text.fold name == l) = false := by
        rw [LawfulBEq.eq_of_beq hk]
        exact beq_false_of_ne hne
      simp only [hk, hl]
    · simp only [hk]
  | trans h _ ih ih' => exact (ih' ((h.map _).nodup_iff.1 hd)).trans (ih hd)

/-- Functions under their names, the last one first. -/
def ofFunctions (fs : List Function) : Frame Function := (fs.map fun f => (f.key, f)).reverse

theorem ofFunctions_append (fs : List Function) (f : Function) :
    ofFunctions (fs ++ [f]) = (ofFunctions fs).add f.name f := by
  simp [ofFunctions, add, FunctionOf.key]

theorem ofFunctions_free {fs : List Function} {name : String}
    (h : ∀ f ∈ fs, f.key ≠ Text.fold name) : (ofFunctions fs).has name = false := by
  have hnone : (ofFunctions fs).lookup (Text.fold name) = none := by
    rw [List.lookup_eq_none_iff]
    intro e he
    simp only [ofFunctions, List.mem_reverse, List.mem_map] at he
    obtain ⟨f, hf, rfl⟩ := he
    exact bne_iff_ne.2 (h f hf).symm
  simp only [has, find?, hnone, Option.isSome_none]

theorem find?_ofFunctions_perm {fs gs : List Function} (h : fs.Perm gs)
    (hd : (fs.map FunctionOf.key).Nodup) (name : String) :
    (ofFunctions gs).find? name = (ofFunctions fs).find? name := by
  refine find?_perm ?_ ?_ name
  · exact (List.reverse_perm _).trans ((h.map _).trans (List.reverse_perm _).symm)
  · simpa [ofFunctions, Function.comp_def] using List.nodup_reverse.2 hd

end Frame

section Registered

variable {fs : List Function} {g : Function} {gs : List Function}

theorem not_taken (hd : ((fs ++ g :: gs).map FunctionOf.key).Nodup) :
    ∀ f ∈ fs, f.key ≠ Text.fold g.name := fun f hf => by
  rw [List.map_append, List.nodup_append] at hd
  exact hd.2.2 f.key (List.mem_map_of_mem hf) g.key (by simp)

theorem Machine.registers_eq : ∀ (gs fs : List Function) (m : Machine),
    m.functions = .ofFunctions fs → ((fs ++ gs).map FunctionOf.key).Nodup →
    ∃ listing, gs.foldl register m = { m with listing, functions := .ofFunctions (fs ++ gs) }
  | [], fs, m, hm, _ => ⟨m.listing, by rw [List.append_nil, ← hm]; rfl⟩
  | g :: gs, fs, m, hm, hd => by
    have hfree : m.functions.has g.name = false := hm ▸ Frame.ofFunctions_free (not_taken hd)
    have hstep : (m.register g).functions = .ofFunctions (fs ++ [g]) := by
      simp [register, register?, hfree, Frame.ofFunctions_append, ← hm]
    obtain ⟨listing, heq⟩ := registers_eq gs (fs ++ [g]) (m.register g) hstep (by simpa using hd)
    refine ⟨listing, ?_⟩
    rw [List.foldl_cons, heq]
    simp [register, register?, hfree]

theorem Checker.registers_eq : ∀ (gs fs : List Function) (c : Checker),
    c.functions = .ofFunctions (fs.filter fun f => f.reserved?.isNone) →
    ((fs ++ gs).map FunctionOf.key).Nodup →
    ∃ listing, gs.foldl register c = { c with
      listing
      functions := .ofFunctions ((fs ++ gs).filter fun f => f.reserved?.isNone)
      report := c.report.append (gs.filterMap FunctionOf.reserved?) }
  | [], fs, c, hc, _ => ⟨c.listing, by rw [List.append_nil, ← hc]; simp [Report.append]⟩
  | g :: gs, fs, c, hc, hd => by
    have hfree : c.functions.has g.name = false := hc ▸ Frame.ofFunctions_free fun f hf =>
      not_taken hd f (List.mem_of_mem_filter hf)
    have hrest : ((fs ++ [g] ++ gs).map FunctionOf.key).Nodup := by simpa using hd
    cases hb : Builtin.ofName? g.name with
    | some b =>
      have hr : g.reserved? = some ⟨.reservedFunctionName g.name, g.span.start⟩ := by
        simp [FunctionOf.reserved?, hb]
      have hstep : c.register g = c.note (.reservedFunctionName g.name) g.span.start := by
        simp [register, hb]
      obtain ⟨listing, heq⟩ := registers_eq gs (fs ++ [g]) (c.register g)
        (by simp [hstep, note, hc, hr]) hrest
      refine ⟨listing, ?_⟩
      rw [List.foldl_cons, heq, hstep]
      simp [note, hr, Report.push, Report.append]
    | none =>
      have hr : g.reserved? = none := by simp [FunctionOf.reserved?, hb]
      obtain ⟨listing, heq⟩ := registers_eq gs (fs ++ [g]) (c.register g)
        (by simp [register, hb, hfree, hr, Frame.ofFunctions_append, ← hc]) hrest
      refine ⟨listing, ?_⟩
      rw [List.foldl_cons, heq]
      simp [register, hb, hfree, hr]

end Registered

/-! ## Runs -/

theorem Frame.matches_refl {β : Type} {S : β → β → Prop} (hS : ∀ b, S b b) (fr : Frame β) :
    fr.Matches S fr :=
  List.forall₂_same.2 fun b _ => ⟨rfl, hS b.2⟩

theorem respell_same_map (o : Option Function) : o.map (respellFunction .same) = o := by
  rw [funext respellFunction_same]
  exact Option.map_id_apply ..

theorem Report.eq_of_matches {ds ds' : List Diagnostic}
    (h : ds.Forall₂ (Diagnostic.Matches .same) ds') : ds' = ds := by
  induction h with
  | nil => rfl
  | cons h _ ih => rw [h.eq, ih]

/-- A run of statements goes as the run of the same statements among other declarations of
functions, with fuel for these. -/
theorem Respected.topLevel_moved {R : ∀ α, Watched α → Eval α → Prop}
    (h : Respected .same True R) (ss' : List Stmt) : ∀ {n n' : Nat} {ss : List Stmt},
    Stmt.steps ss = Stmt.steps ss' → n + ss'.length < n' →
      R Unit (Eval.topLevel n ss) (Eval.topLevel n' ss') := by
  induction ss' with
  | nil =>
    intro n n' ss hsteps hlt
    obtain ⟨n', rfl⟩ := Nat.exists_eq_succ_of_ne_zero (Nat.ne_zero_of_lt hlt)
    induction ss generalizing n with
    | nil =>
      cases n with
      | zero => exact h.exhausted (.inl trivial)
      | succ n => exact h.pure ()
    | cons s ss ih =>
      cases n with
      | zero => exact h.exhausted (.inl trivial)
      | succ n =>
        cases hs : s.function? with
        | none =>
          rw [Stmt.steps_step hs] at hsteps
          cases hsteps
        | some g =>
          rw [Eval.topLevel_function hs]
          exact ih (Stmt.steps_function hs ▸ hsteps) (Nat.lt_of_succ_lt hlt)
  | cons s' ss' ih =>
    intro n n' ss hsteps hlt
    obtain ⟨n', rfl⟩ := Nat.exists_eq_succ_of_ne_zero (Nat.ne_zero_of_lt hlt)
    have hrest : n + ss'.length < n' := Nat.lt_of_succ_lt_succ hlt
    cases hs' : s'.function? with
    | some g =>
      rw [Eval.topLevel_function hs']
      exact ih (hsteps.trans (Stmt.steps_function hs')) hrest
    | none =>
      rw [Stmt.steps_step hs'] at hsteps
      induction ss generalizing n with
      | nil => cases hsteps
      | cons s ss ihs =>
        cases n with
        | zero => exact h.exhausted (.inl trivial)
        | succ n =>
          have hless : n + ss'.length < n' := by omega
          cases hs : s.function? with
          | some g =>
            rw [Eval.topLevel_function hs]
            exact ihs (Stmt.steps_function hs ▸ hsteps) (by omega) hless
          | none =>
            rw [Stmt.steps_step hs] at hsteps
            obtain ⟨rfl, htail⟩ := List.cons.inj hsteps
            have hhead := (h.related (show n ≤ n' by omega) (.inl trivial)).stmt s
            rw [Stmt.respell_same] at hhead
            rw [Eval.topLevel_cons hs, Eval.topLevel_cons hs]
            refine h.bind hhead fun _ => h.bind (h.step Machine.local_takeSignal) fun g => ?_
            cases g with
            | none => exact ih htail hless
            | some g => exact h.note (.refl _)

namespace Program

variable {p q : Program}

theorem functions_perm (h : p.body.Perm q.body) : p.functions.Perm q.functions :=
  h.filterMap _

theorem Distinct.of_perm (hd : p.Distinct) (h : p.body.Perm q.body) : q.Distinct :=
  ((functions_perm h).map _).nodup_iff.1 hd

theorem loaded_matches (h : p.body.Perm q.body) (hd : p.Distinct) (limit : Nat) :
    (p.loaded limit).Matches .same (q.loaded limit) := by
  obtain ⟨listing, hp⟩ := Machine.registers_eq p.functions [] (Machine.fresh limit) rfl hd
  obtain ⟨listing', hq⟩ := Machine.registers_eq q.functions [] (Machine.fresh limit) rfl
    (hd.of_perm h)
  rw [loaded, loaded, hp, hq]
  exact {
    scopes := ⟨.nil, .nil⟩
    core := rfl
    report := .nil
    functions := fun name => by
      rw [respell_same_map]
      exact Frame.find?_ofFunctions_perm (functions_perm h) hd name
    failure := .none
    depth := rfl
    limit := rfl }

theorem Yields.moved (h : p.body.Perm q.body) (hsteps : Stmt.steps p.body = Stmt.steps q.body)
    (hd : p.Distinct) {limit : Nat} {output : Array String} {report : Report}
    (hp : p.Yields limit output report) : q.Yields limit output report := by
  obtain ⟨fuel, m, hm, rfl, rfl⟩ := hp
  refine ⟨fuel + q.body.length + 1, ?_⟩
  have htwins := (Watched.respected_twins .same True).topLevel_moved q.body hsteps
    (Nat.lt_succ_self (fuel + q.body.length)) [] _ _ (loaded_matches h hd limit)
  rw [Watched.run_topLevel] at htwins
  have hend : ∀ {t : Machine}, m.Matches .same t → t.output = m.output ∧ t.report = m.report :=
    fun {t} ht => by
      obtain ⟨-, -, -, ho, -⟩ := Machine.core_eq_iff.1 ht.core
      exact ⟨ho.symm, congrArg Report.mk (Array.toList_inj.1 (Report.eq_of_matches ht.report))⟩
  unfold execute at hm ⊢
  generalize (Eval.topLevel fuel p.body : Eval Unit) (p.loaded limit) = r,
    (Eval.topLevel (fuel + q.body.length + 1) q.body : Eval Unit) (q.loaded limit) = r' at hm htwins
  cases htwins with
  | done ht =>
    cases hm
    exact ⟨_, rfl, hend ht⟩
  | failed _ ht =>
    cases hm
    exact ⟨_, rfl, hend ht⟩
  | exhausted => cases hm

end Program

/-! ## Checks -/

namespace Checker

/-- Two checks see the same names and are in the same function. -/
structure Sees (c c' : Checker) : Prop extends Names.Matches .same c.toNames c'.toNames where
  current : c'.current = c.current
  returnFound : c'.returnFound = c.returnFound

/-- Two checks see the same and have reported the same, though in another order. -/
structure Alike (c c' : Checker) : Prop extends c.Sees c' where
  report : c.report.toList.Perm c'.report.toList
  entries : c'.entries = c.entries

variable {b b' c c' : Checker}

theorem Sees.refl (c : Checker) : c.Sees c where
  scopes := ⟨Frame.matches_refl (fun _ => ⟨rfl, rfl⟩) _,
    List.forall₂_same.2 fun _ _ => Frame.matches_refl (fun _ => ⟨rfl, rfl⟩) _⟩
  functions _ := (respell_same_map _).symm
  current := rfl
  returnFound := rfl

theorem Sees.begins (h : c.Sees c') : Matches .same c c' c c' :=
  { h with
    current := h.current.trans (respell_same_map _).symm
    report := ⟨[], [], (List.append_nil _).symm, (List.append_nil _).symm, .nil⟩
    entries := ⟨0, rfl, rfl⟩ }

theorem Matches.sees (h : Matches .same b b' c c') : c.Sees c' :=
  { h with current := h.current.trans (respell_same_map _) }

/-- Checks that see the same report the same. -/
theorem Matches.report_eq (h : Matches .same b b' c c') : ∃ ds,
    c.report.toList = b.report.toList ++ ds ∧ c'.report.toList = b'.report.toList ++ ds := by
  obtain ⟨ds, ds', hds, hds', hsame⟩ := h.report
  exact ⟨ds, hds, Report.eq_of_matches hsame ▸ hds'⟩

theorem Alike.stmt (h : c.Alike c') (s : Stmt) : (stmt s c).Alike (stmt s c') := by
  have hm := stmt_matches s h.begins
  rw [s.respell_same] at hm
  obtain ⟨ds, hds, hds'⟩ := hm.report_eq
  obtain ⟨k, hk, hk'⟩ := hm.entries
  exact { hm.sees with
    report := by
      rw [hds, hds']
      exact h.report.append_right ds
    entries := by rw [hk, hk', h.entries] }

theorem functions_returnFound : ∀ (fs : List Function) (c : Checker),
    (fs.foldl function c).returnFound = c.returnFound
  | [], _ => rfl
  | _ :: fs, _ => functions_returnFound fs _

theorem Sees.foldl (h : c.Sees c') (fs gs : List Function) :
    (fs.foldl function c).Sees (gs.foldl function c') := by
  have hf := functions_keeps fs c
  have hg := functions_keeps gs c'
  exact {
    toMatches := by
      rw [hf.names, hg.names]
      exact h.toMatches
    current := by rw [hf.current, hg.current, h.current]
    returnFound := by rw [functions_returnFound, functions_returnFound, h.returnFound] }

/-- What a check of a function adds depends only on what is seen. -/
theorem function_adds (c : Checker) (g : Function) : ∃ ds k, ∀ c', c.Sees c' →
    (c'.function g).report.toList = c'.report.toList ++ ds ∧
      (c'.function g).entries = c'.entries + k := by
  obtain ⟨ds, hds, -⟩ := (function_matches (Sees.refl c).begins g).report_eq
  obtain ⟨k, hk, -⟩ := (function_matches (Sees.refl c).begins g).entries
  refine ⟨ds, k, fun c' h => ?_⟩
  have hm := function_matches h.begins g
  rw [respellFunction_same] at hm
  obtain ⟨es, hes, hes'⟩ := hm.report_eq
  obtain ⟨l, hl, hl'⟩ := hm.entries
  obtain rfl : es = ds := List.append_cancel_left (hes.symm.trans hds)
  exact ⟨hes', by omega⟩

theorem functions_add (c : Checker) :
    ∃ (notes : Function → List Diagnostic) (starts : Function → Nat),
    ∀ (fs : List Function) (c' : Checker), c.Sees c' →
      (fs.foldl function c').report.toList = c'.report.toList ++ fs.flatMap notes ∧
        (fs.foldl function c').entries = c'.entries + (fs.map starts).sum := by
  choose notes starts hadd using function_adds c
  refine ⟨notes, starts, fun fs => ?_⟩
  induction fs with
  | nil => exact fun c' _ => ⟨(List.append_nil _).symm, rfl⟩
  | cons f fs ih =>
    intro c' h
    obtain ⟨hr, he⟩ := hadd f c' h
    obtain ⟨hrs, hes⟩ := ih (c'.function f) (h.foldl [] [f])
    rw [List.foldl_cons, hrs, hes, hr, he]
    exact ⟨by rw [List.flatMap_cons, List.append_assoc],
      by rw [List.map_cons, List.sum_cons]; omega⟩

/-- The bodies of functions may be checked in any order. -/
theorem Alike.foldl (h : c.Alike c') {fs gs : List Function} (hp : fs.Perm gs) :
    (fs.foldl function c).Alike (gs.foldl function c') := by
  obtain ⟨notes, starts, hadd⟩ := functions_add c
  obtain ⟨hr, he⟩ := hadd fs c (.refl c)
  obtain ⟨hr', he'⟩ := hadd gs c' h.toSees
  exact { h.toSees.foldl fs gs with
    report := by
      rw [hr, hr']
      exact h.report.append (hp.flatMap_right notes)
    entries := by rw [he, he', h.entries, (hp.map starts).sum_eq] }

/-- A check that is in no scope and in no function. -/
def AtTop (c : Checker) : Prop := c.scopes.atGlobal = true ∧ c.current = none

theorem AtTop.stmt (h : c.AtTop) (s : Stmt) : (stmt s c).AtTop := by
  have hg := stmt_grows s c
  obtain ⟨added, ha⟩ := hg.scopes
  refine ⟨?_, hg.current.trans h.2⟩
  obtain ⟨h, -⟩ := h
  rw [ha]
  generalize c.scopes = s at h
  obtain ⟨globals, _ | ⟨frame, frames⟩, labels⟩ := s
  · rfl
  · cases h

theorem AtTop.functions (h : c.AtTop) (fs : List Function) : (fs.foldl function c).AtTop := by
  have hf := functions_keeps fs c
  refine ⟨?_, hf.current.trans h.2⟩
  rw [congrArg Names.scopes hf.names]
  exact h.1

/-- Declarations of functions are passed over at top level. -/
theorem topLevel_steps : ∀ (ss : List Stmt) (fs : List Function) (c : Checker), c.AtTop →
    topLevel fs ss c = topLevel fs (Stmt.steps ss) c
  | [], _, _, _ => rfl
  | s :: ss, fs, c, hc => by
    cases hs : s.function? with
    | some g =>
      rw [Stmt.steps_function hs, ← topLevel_steps ss fs c hc]
      cases s <;> cases hs
      simp [topLevel, Stmt.callsFunction, Checker.stmt, hc.1, hc.2]
    | none =>
      simp only [Stmt.steps_step hs, topLevel]
      split
      · exact topLevel_steps ss _ _ ((hc.functions fs).stmt s)
      · exact topLevel_steps ss _ _ (hc.stmt s)

theorem Alike.topLevel : ∀ (ss : List Stmt) {fs gs : List Function} {c c' : Checker}, fs.Perm gs →
    c.Alike c' → (topLevel fs ss c).Alike (topLevel gs ss c')
  | [], _, _, _, _, hp, h => h.foldl hp
  | s :: ss, fs, gs, c, c', hp, h => by
    simp only [Checker.topLevel]
    split
    · exact topLevel ss .nil ((h.foldl hp).stmt s)
    · exact topLevel ss hp (h.stmt s)

theorem Alike.entryPoint (h : c.Alike c') (n : Nat) :
    (c.entryPoint n).report.toList.Perm (c'.entryPoint n).report.toList := by
  have hnote : ∀ d p, (c.note d p).report.toList.Perm (c'.note d p).report.toList := fun d p => by
    simp only [note, Report.push, Report.toList, Array.toList_push]
    exact h.report.append_right _
  simp only [Checker.entryPoint, h.entries]
  split
  · split
    · exact h.report
    · exact hnote _ _
  · exact h.report
  · exact hnote _ _

end Checker

namespace Program

variable {p q : Program}

theorem registered_alike (h : p.body.Perm q.body) (hd : p.Distinct) :
    (p.functions.foldl Checker.register {}).Alike (q.functions.foldl Checker.register {}) := by
  obtain ⟨listing, hp⟩ := Checker.registers_eq p.functions [] {} rfl hd
  obtain ⟨listing', hq⟩ := Checker.registers_eq q.functions [] {} rfl (hd.of_perm h)
  have hperm := functions_perm h
  rw [hp, hq]
  exact {
    scopes := ⟨.nil, .nil⟩
    functions := fun name => by
      rw [respell_same_map]
      exact Frame.find?_ofFunctions_perm (hperm.filter _)
        (hd.sublist (List.filter_sublist.map _)) name
    current := rfl
    returnFound := rfl
    report := by
      simp only [Report.append, Report.toList, Array.toList_append]
      exact (hperm.filterMap _).append_left _
    entries := rfl }

theorem registered_atTop (hd : p.Distinct) : (p.functions.foldl Checker.register {}).AtTop := by
  obtain ⟨listing, hp⟩ := Checker.registers_eq p.functions [] {} rfl hd
  rw [hp]
  exact ⟨rfl, rfl⟩

/-- Where functions of different names are declared, and in which order, changes neither what a
program prints and reports nor, but for the order, what checking it reports. -/
theorem placement {p q : Program} (h : p.body.Perm q.body)
    (hsteps : Stmt.steps p.body = Stmt.steps q.body) (hd : p.Distinct) :
    (∀ limit output report, p.Yields limit output report ↔ q.Yields limit output report) ∧
      p.analyze.report.toList.Perm q.analyze.report.toList := by
  refine ⟨fun _ _ _ => ⟨.moved h hsteps hd, .moved h.symm hsteps.symm (hd.of_perm h)⟩, ?_⟩
  have hperm := functions_perm h
  have htop := Checker.Alike.topLevel (Stmt.steps p.body) hperm (registered_alike h hd)
  rw [← Checker.topLevel_steps p.body _ _ (registered_atTop hd), hsteps,
    ← Checker.topLevel_steps q.body _ _ (registered_atTop (hd.of_perm h))] at htop
  simp only [analyze, hperm.length_eq]
  exact htop.entryPoint _

/-- A function before and after the call of it. -/
theorem placement_hoisted :
    let f : Function := ⟨"f", [], .void, ⟨[.print default (.int default 1)], default⟩, default⟩
    let before : Program := ⟨[.function f, .start default "f" []]⟩
    let after : Program := ⟨[.start default "f" [], .function f]⟩
    before.body.Perm after.body ∧ Stmt.steps before.body = Stmt.steps after.body ∧
      before.Distinct ∧ before.Yields 1 #["1"] {} ∧ after.Yields 1 #["1"] {} := by
  intro f before after
  have hperm : before.body.Perm after.body := .swap ..
  have hsteps : Stmt.steps before.body = Stmt.steps after.body := rfl
  have hdistinct : before.Distinct := List.nodup_singleton _
  have hbefore : before.Yields 1 #["1"] {} := by
    have hrun : (before.execute 9 1).any (fun m => m.output == #["1"] && m.report.isEmpty) = true :=
      by decide +kernel
    obtain ⟨m, hm, hend⟩ := (Option.any_eq_true ..).1 hrun
    obtain ⟨ho, hr⟩ := Bool.and_eq_true_iff.1 hend
    exact ⟨9, m, hm, LawfulBEq.eq_of_beq ho, congrArg Report.mk (Array.isEmpty_iff.1 hr)⟩
  exact ⟨hperm, hsteps, hdistinct, hbefore,
    ((placement hperm hsteps hdistinct).1 1 #["1"] {}).1 hbefore⟩

end Program

end Primer
