import Primer.Proofs.GlobalRows

/-!
# Scopes under any operations

Frames and labels are entered and left, names are declared and set, parts are set aside and put
back, in any order, also where nothing is there to be left (`Scopes.Op`). The global frame lies
under all others and loses no declaration (`Scopes.Rests`), and a global changes only where it is
set (`globals_find?_run`). No frame holds two symbols of one name (`Frame.Keyed`), so a search gives
the one symbol that the innermost frame has of a name. A part that is put back is as it was set
aside, over the globals as they are by then (`run_reattach`).
-/

namespace Primer

/-! ## Frames -/

namespace Frame

variable {frame t : Frame Symbol} {name : String} {b : Symbol}

/-- A symbol of a name stands in a frame. -/
def Holds (frame : Frame Symbol) (name : String) (b : Symbol) : Prop :=
  (∃ key, (key, b) ∈ frame) ∧ b.key = Text.fold name

/-- Symbols stand under their own keys, and no two under the same. -/
structure Keyed (frame : Frame Symbol) : Prop where
  own : ∀ e ∈ frame, e.1 = e.2.key
  nodup : (List.map Prod.fst frame).Nodup

/-- Where no key stands twice, an entry is found under its key. -/
theorem lookup_eq_some_iff_mem {β : Type} {key : String} {b : β} : ∀ {frame : Frame β},
    (List.map Prod.fst frame).Nodup → (frame.lookup key = some b ↔ (key, b) ∈ frame)
  | [], _ => by simp
  | (k, c) :: frame, h => by
    rw [List.map_cons, List.nodup_cons] at h
    by_cases hk : key = k
    · subst hk
      have hb : (key, b) ∉ frame := fun hb => h.1 (List.mem_map.2 ⟨_, hb, rfl⟩)
      simp [hb, eq_comm]
    · simp [List.lookup_cons, beq_false_of_ne hk, hk, lookup_eq_some_iff_mem h.2]

theorem keyed_nil : Keyed [] := ⟨by simp, by simp⟩

theorem Keyed.find?_iff (h : frame.Keyed) : frame.find? name = some b ↔ frame.Holds name b := by
  rw [find?, lookup_eq_some_iff_mem h.nodup]
  constructor
  · exact fun hb => ⟨⟨_, hb⟩, (h.own _ hb).symm⟩
  · rintro ⟨⟨key, hb⟩, hname⟩
    rwa [← hname, ← h.own _ hb]

theorem Keyed.find?_eq_none_iff (h : frame.Keyed) :
    frame.find? name = none ↔ ∀ b, ¬ frame.Holds name b := by
  simp only [Option.eq_none_iff_forall_ne_some, ne_eq, h.find?_iff]

theorem Keyed.add (h : frame.Keyed) (hfree : frame.has b.name = false) :
    (frame.add b.name b).Keyed := by
  refine ⟨List.forall_mem_cons.2 ⟨rfl, h.own⟩, List.nodup_cons.2 ⟨fun hin => ?_, h.nodup⟩⟩
  obtain ⟨⟨key, c⟩, hc, hkey⟩ := List.mem_map.1 hin
  obtain rfl : key = Text.fold b.name := hkey
  rw [has, find?, (lookup_eq_some_iff_mem h.nodup).2 hc] at hfree
  cases hfree

/-- The values of the symbols do not matter. -/
theorem Keyed.of_map (h : frame.Keyed)
    (ht : t.map Symbol.toDeclaration = frame.map Symbol.toDeclaration) : t.Keyed := by
  have hkeys : List.map Prod.fst t = List.map Prod.fst frame := by
    simpa [Frame.map, Function.comp_def] using congrArg (List.map Prod.fst) ht
  refine ⟨fun e he => ?_, hkeys ▸ h.nodup⟩
  have hin : (e.1, e.2.toDeclaration) ∈ frame.map Symbol.toDeclaration :=
    ht ▸ List.mem_map_of_mem he
  obtain ⟨c, hc, hce⟩ := List.mem_map.1 hin
  obtain ⟨hkey, hd⟩ := Prod.mk.inj hce
  rw [← hkey, h.own c hc, hd]

end Frame

/-! ## Scopes -/

namespace Scopes

variable {s t : Scopes Symbol} {name : String} {b : Symbol}

/-- The innermost of the frames that hold a symbol of a name holds this one. -/
def Finds (s : Scopes Symbol) (name : String) (b : Symbol) : Prop :=
  ∃ inner frame outer, s.all = inner ++ frame :: outer ∧
    (∀ f ∈ inner, ∀ c, ¬ f.Holds name c) ∧ frame.Holds name b

/-- Later scopes have a frame under all others, with what was declared in the global frame before,
and a label before all others, the global one. -/
structure Rests (s t : Scopes Symbol) : Prop where
  bottom : ∃ above frame, t.all = above ++ [frame] ∧ t.depth = above.length + 1 ∧
    s.globals.map Symbol.toDeclaration <:+ frame.map Symbol.toDeclaration
  first : ∃ inner, t.path = "> ".intercalate (globalLabel :: inner) ∧
    t.label = (globalLabel :: inner).getLast (List.cons_ne_nil _ _)

theorem rests_of_suffix
    (h : s.globals.map Symbol.toDeclaration <:+ t.globals.map Symbol.toDeclaration) :
    s.Rests t := by
  refine ⟨⟨t.frames, t.globals, rfl, rfl, h⟩, t.labels.reverse, rfl, ?_⟩
  rcases hl : t.labels with _ | ⟨label, labels⟩ <;> simp [Scopes.label, hl]

/-- No frame holds two symbols of one name. -/
structure Keyed (s : Scopes Symbol) : Prop where
  globals : s.globals.Keyed
  frames : ∀ frame ∈ s.frames, frame.Keyed

theorem Keyed.all (h : s.Keyed) : ∀ frame ∈ s.all, frame.Keyed := by
  intro frame hf
  rcases List.mem_append.1 hf with hf | hf
  · exact h.frames frame hf
  · exact List.mem_singleton.1 hf ▸ h.globals

theorem Keyed.push (h : s.Keyed) : s.push.Keyed :=
  ⟨h.globals, List.forall_mem_cons.2 ⟨Frame.keyed_nil, h.frames⟩⟩

theorem Keyed.pop (h : s.Keyed) : s.pop.Keyed :=
  ⟨h.globals, fun frame hf => h.frames frame (List.mem_of_mem_tail hf)⟩

theorem Keyed.add (h : s.Keyed) (hfree : s.declaredHere b.name = false) :
    (s.add b.name b).Keyed := by
  obtain ⟨globals, _ | ⟨frame, frames⟩, labels⟩ := s
  · exact ⟨h.globals.add hfree, h.frames⟩
  · obtain ⟨hframe, hframes⟩ := List.forall_mem_cons.1 h.frames
    exact ⟨h.globals, List.forall_mem_cons.2 ⟨hframe.add hfree, hframes⟩⟩

theorem Keyed.of_map (h : s.Keyed) (ht : t.map Symbol.toDeclaration = s.map Symbol.toDeclaration) :
    t.Keyed := by
  refine ⟨h.globals.of_map (congrArg Scopes.globals ht), fun frame hf => ?_⟩
  have hin : frame.map Symbol.toDeclaration ∈ (s.map Symbol.toDeclaration).frames :=
    ht ▸ List.mem_map_of_mem hf
  obtain ⟨frame', hf', hmap⟩ := List.mem_map.1 hin
  exact (h.frames frame' hf').of_map hmap.symm

/-- A search goes through the frames from the innermost outwards. -/
theorem get?_eq_findSome? {β : Type} (s : Scopes β) (name : String) :
    s.get? name = s.all.findSome? (·.find? name) := by
  obtain ⟨globals, frames, labels⟩ := s
  induction frames with
  | nil =>
    cases hl : globals.lookup (Text.fold name) <;> simp [get?, findIn, all, Frame.find?, hl]
  | cons frame frames ih =>
    simp only [get?, findIn, all, List.cons_append, List.findSome?_cons, Frame.find?] at ih ⊢
    cases frame.lookup (Text.fold name) with
    | none => exact ih
    | some b => rfl

theorem Keyed.get?_iff (h : s.Keyed) : s.get? name = some b ↔ s.Finds name b := by
  rw [get?_eq_findSome?, List.findSome?_eq_some_iff]
  refine exists_congr fun inner => exists_congr fun frame => exists_congr fun outer =>
    and_congr_right fun hall => ?_
  have hkeyed : ∀ f ∈ inner ++ frame :: outer, f.Keyed := hall ▸ h.all
  have hframe : frame.Keyed := hkeyed frame (by simp)
  rw [hframe.find?_iff, and_comm]
  refine and_congr_left fun _ => forall₂_congr fun f hf => ?_
  exact (hkeyed f (List.mem_append_left _ hf)).find?_eq_none_iff

theorem Keyed.innermost (h : s.Keyed) : s.innermost.Keyed := by
  rcases hf : s.frames with _ | ⟨frame, frames⟩
  · simpa [Scopes.innermost, hf] using h.globals
  · simpa [Scopes.innermost, hf] using h.frames frame (by simp [hf])

/-- A new value changes no declaration. -/
theorem map_set (s : Scopes Symbol) (name : String) (v : Value) :
    (s.change name fun b => { b with value := v, holdsDefault := false }).map Symbol.toDeclaration =
      s.map Symbol.toDeclaration :=
  map_change _ _ fun _ => rfl

/-! ## Operations -/

/-- An operation on scopes. -/
inductive Op where
  | push
  | pop
  | pushLabel (label : String)
  | popLabel
  | declare (symbol : Symbol)
  | set (name : String) (value : Value) (position : Position)
  | detach
  /-- Puts back what the detachment of this number set aside. -/
  | reattach (number : Nat)

/-- Scopes and what is set aside of them. -/
structure State where
  scopes : Scopes Symbol := {}
  /-- What each detachment set aside, in order, until it is put back. -/
  parts : List (Option (Detached Symbol)) := []

namespace State

/-- What an operation complains about, and the state it leaves. What was put back cannot be put back
again. -/
def apply (s : State) : Op → Option Diagnostic × State
  | .push => (none, { s with scopes := s.scopes.push })
  | .pop => (none, { s with scopes := s.scopes.pop })
  | .pushLabel label => (none, { s with scopes := s.scopes.pushLabel label })
  | .popLabel => (none, { s with scopes := s.scopes.popLabel })
  | .declare b =>
    match s.scopes.declare b.toDeclaration b with
    | .ok scopes => (none, { s with scopes })
    | .error d => (some d, s)
  | .set name v p =>
    match s.scopes.lookup name p with
    | .ok _ =>
      let scopes := s.scopes.change name fun b => { b with value := v, holdsDefault := false }
      (none, { s with scopes })
    | .error d => (some d, s)
  | .detach => (none, ⟨s.scopes.detach.2, s.parts ++ [some s.scopes.detach.1]⟩)
  | .reattach k =>
    match s.parts[k]? with
    | some (some d) => (none, ⟨s.scopes.reattach d, s.parts.set k none⟩)
    | _ => (none, s)

/-- The state after an operation. -/
def next (s : State) (op : Op) : State := (s.apply op).2

/-- No frame holds two symbols of one name, be it set aside or not. -/
structure Keyed (s : State) : Prop where
  scopes : s.scopes.Keyed
  parts : ∀ d, some d ∈ s.parts → ∀ frame ∈ d.frames, frame.Keyed

variable {s : State}

/-- A name that the innermost frame has is refused. -/
theorem apply_declare (s : State) (b : Symbol) : s.apply (.declare b) =
    if s.scopes.declaredHere b.name then
      (some ⟨.duplicateDeclaration b.name, b.position⟩, s)
    else (none, { s with scopes := s.scopes.add b.name b }) := by
  unfold apply declare checkFree
  by_cases hb : s.scopes.declaredHere b.name <;> simp only [hb] <;> rfl

/-- A name that no frame has cannot be set. -/
theorem apply_set (s : State) (name : String) (v : Value) (p : Position) :
    s.apply (.set name v p) = if (s.scopes.get? name).isSome then
      (none, { s with scopes :=
        s.scopes.change name fun b => { b with value := v, holdsDefault := false } })
    else (some ⟨.undeclaredIdentifier name, p⟩, s) := by
  cases hb : s.scopes.get? name <;> simp [apply, lookup, hb]

theorem next_reattach {k : Nat} {d : Detached Symbol} (h : s.parts[k]? = some (some d)) :
    s.next (.reattach k) = ⟨s.scopes.reattach d, s.parts.set k none⟩ := by
  simp [next, apply, h]

/-- A part is put back, or there is none of the number. -/
theorem next_reattach_cases (s : State) (k : Nat) :
    (∃ d, s.parts[k]? = some (some d) ∧
      s.next (.reattach k) = ⟨s.scopes.reattach d, s.parts.set k none⟩) ∨
    s.next (.reattach k) = s := by
  rcases h : s.parts[k]? with _ | _ | d
  · exact .inr (by simp [next, apply, h])
  · exact .inr (by simp [next, apply, h])
  · exact .inl ⟨d, rfl, next_reattach h⟩

theorem keyed_next (h : s.Keyed) (op : Op) : (s.next op).Keyed := by
  cases op with
  | push => exact ⟨h.scopes.push, h.parts⟩
  | pop => exact ⟨h.scopes.pop, h.parts⟩
  | pushLabel label => exact ⟨⟨h.scopes.globals, h.scopes.frames⟩, h.parts⟩
  | popLabel => exact ⟨⟨h.scopes.globals, h.scopes.frames⟩, h.parts⟩
  | declare b =>
    rw [next, apply_declare]
    split
    · exact h
    · exact ⟨h.scopes.add (Bool.eq_false_of_not_eq_true ‹_›), h.parts⟩
  | set name v p =>
    rw [next, apply_set]
    split
    · exact ⟨h.scopes.of_map (map_set s.scopes name v), h.parts⟩
    · exact h
  | detach =>
    refine ⟨⟨h.scopes.globals, fun _ hf => absurd hf List.not_mem_nil⟩, fun d hd => ?_⟩
    rcases List.mem_append.1 hd with hd | hd
    · exact h.parts d hd
    · cases List.mem_singleton.1 hd
      exact h.scopes.frames
  | reattach k =>
    obtain ⟨d, hd, hs⟩ | hs := next_reattach_cases s k <;> rw [hs]
    · refine ⟨⟨h.scopes.globals, h.parts d (List.mem_of_getElem? hd)⟩, fun d' hd' => ?_⟩
      rcases List.mem_or_eq_of_mem_set hd' with hd' | hd'
      · exact h.parts d' hd'
      · cases hd'
    · exact h

/-- No operation takes a declaration out of the global frame. -/
theorem globals_next (s : State) (op : Op) : s.scopes.globals.map Symbol.toDeclaration <:+
    (s.next op).scopes.globals.map Symbol.toDeclaration := by
  cases op with
  | declare b =>
    rw [next, apply_declare]
    split
    · exact List.suffix_rfl
    · -- Where a block is open the name goes to its frame.
      unfold add
      split
      · exact List.suffix_cons _ _
      · exact List.suffix_rfl
  | set name v p =>
    rw [next, apply_set]
    split
    · exact ⟨[], (congrArg Scopes.globals (map_set s.scopes name v)).symm⟩
    · exact List.suffix_rfl
  | reattach k =>
    obtain ⟨d, -, hs⟩ | hs := next_reattach_cases s k
    · rw [hs]
      exact List.suffix_rfl
    · rw [hs]
  | _ => exact List.suffix_rfl

/-- A global is as it is until it is set. -/
theorem globals_find?_next {op : Op} {name : String} {b : Symbol}
    (h : s.scopes.globals.find? name = some b)
    (hop : ∀ key v p, op = .set key v p → Text.fold key ≠ Text.fold name) :
    (s.next op).scopes.globals.find? name = some b := by
  cases op with
  | declare c =>
    rw [next, apply_declare]
    split
    · exact h
    · rename_i hfree
      unfold add
      split
      · rename_i hframes
        -- The name was free among the globals, so it is not the one that was found there.
        have hne : Text.fold name ≠ Text.fold c.name := by
          intro he
          apply hfree
          rw [declaredHere, Scopes.innermost, hframes, Frame.has, Frame.find?, ← he]
          exact Option.isSome_of_eq_some h
        rw [Frame.find?_add, beq_false_of_ne hne]
        exact h
      · exact h
  | set key v p =>
    rw [next, apply_set]
    split
    · unfold change
      dsimp only
      split
      · exact h
      · rw [Frame.find?, Frame.lookup_change, if_neg (hop key v p rfl).symm]
        exact h
    · exact h
  | reattach k =>
    obtain ⟨d, -, hs⟩ | hs := next_reattach_cases s k <;> rw [hs] <;> exact h
  | _ => exact h

theorem parts_next_detach (s : State) :
    (s.next .detach).parts[s.parts.length]? = some (some s.scopes.detach.1) := by
  simp [next, apply]

/-- What is set aside stays aside until it is put back. -/
theorem parts_next {op : Op} {k : Nat} {d : Detached Symbol} (h : s.parts[k]? = some (some d))
    (hop : op ≠ .reattach k) : (s.next op).parts[k]? = some (some d) := by
  cases op with
  | declare b =>
    rw [next, apply_declare]
    split <;> exact h
  | set name v p =>
    rw [next, apply_set]
    split <;> exact h
  | detach =>
    have hk : k < s.parts.length := (List.getElem?_eq_some_iff.1 h).1
    exact (List.getElem?_append_left hk).trans h
  | reattach j =>
    have hj : j ≠ k := fun hj => hop (hj ▸ rfl)
    obtain ⟨d', -, hs⟩ | hs := next_reattach_cases s j <;> rw [hs]
    · exact (List.getElem?_set_ne hj).trans h
    · exact h
  | _ => exact h

theorem next_declare_of_complaint {b : Symbol} {d : Diagnostic}
    (h : (s.apply (.declare b)).1 = some d) : s.next (.declare b) = s := by
  rw [next, apply_declare]
  rw [apply_declare] at h
  split at h
  · rw [if_pos ‹_›]
  · cases h

/-- A declaration is refused where the innermost frame holds a symbol of the name. -/
theorem apply_declare_iff (h : s.Keyed) (b : Symbol) (d : Diagnostic) :
    (s.apply (.declare b)).1 = some d ↔
      d = ⟨.duplicateDeclaration b.name, b.position⟩ ∧ ∃ c, s.scopes.innermost.Holds b.name c := by
  have hheld : s.scopes.declaredHere b.name = true ↔ ∃ c, s.scopes.innermost.Holds b.name c := by
    simp only [declaredHere, Frame.has, Option.isSome_iff_exists, h.scopes.innermost.find?_iff]
  rw [← hheld, apply_declare]
  by_cases hb : s.scopes.declaredHere b.name <;> simp [hb, eq_comm]

end State

/-! ## Runs -/

/-- The state of new scopes after operations, from the first on. -/
def run (ops : List Op) : State := ops.foldl State.next {}

theorem run_append (ops more : List Op) : run (ops ++ more) = more.foldl State.next (run ops) :=
  List.foldl_append ..

theorem run_keyed (ops : List Op) : (run ops).Keyed := by
  induction ops using List.reverseRecOn with
  | nil => exact ⟨⟨Frame.keyed_nil, by simp [run]⟩, by simp [run]⟩
  | append_singleton ops op ih =>
    rw [run_append]
    exact State.keyed_next ih op

theorem globals_run (ops more : List Op) :
    (run ops).scopes.globals.map Symbol.toDeclaration <:+
      (run (ops ++ more)).scopes.globals.map Symbol.toDeclaration := by
  rw [run_append]
  induction more using List.reverseRecOn with
  | nil => exact List.suffix_rfl
  | append_singleton more op ih =>
    rw [List.foldl_append]
    exact ih.trans (State.globals_next _ op)

theorem globals_find?_run {name : String} {b : Symbol} : ∀ {ops : List Op} {s : State},
    s.scopes.globals.find? name = some b →
      (∀ key v p, .set key v p ∈ ops → Text.fold key ≠ Text.fold name) →
      (ops.foldl State.next s).scopes.globals.find? name = some b
  | [], _, h, _ => h
  | op :: ops, s, h, hops => by
    have hs : (s.next op).scopes.globals.find? name = some b :=
      State.globals_find?_next h fun key v p hop => hops key v p (hop ▸ List.mem_cons_self)
    exact globals_find?_run (s := s.next op) hs fun key v p hin =>
      hops key v p (List.mem_cons_of_mem _ hin)

theorem parts_run {k : Nat} {d : Detached Symbol} : ∀ {ops : List Op} {s : State},
    s.parts[k]? = some (some d) → .reattach k ∉ ops →
      (ops.foldl State.next s).parts[k]? = some (some d)
  | [], _, h, _ => h
  | op :: ops, s, h, hops => by
    rw [List.mem_cons, not_or] at hops
    exact parts_run (s := s.next op) (State.parts_next h (Ne.symm hops.1)) hops.2

/-- A part that is put back is as it was set aside, and the globals stay as they are, whatever was
done in between. -/
theorem run_reattach (ops : List Op) {between : List Op}
    (h : .reattach (run ops).parts.length ∉ between) :
    (run (ops ++ .detach :: between ++ [.reattach (run ops).parts.length])).scopes =
      { (run ops).scopes with globals := (run (ops ++ .detach :: between)).scopes.globals } := by
  have hpart := parts_run (run ops).parts_next_detach h
  rw [run_append (ops ++ .detach :: between), run_append ops]
  exact congrArg State.scopes (State.next_reattach hpart)

/-- Of new scopes after any operations: whatever is done next, the global frame lies under all
others and has lost none of its declarations, and the first label is the global one. A declaration
is refused where the innermost frame has the name, and then nothing changes. A search gives the
symbol that the innermost frame has of those that hold one of the name. Once a part was set aside
and anything else was done, nested detachments and all, putting back this part brings back its
frames and labels and leaves the globals as they have become; and of these each is as it was last
declared or set. -/
theorem run_lawful (ops : List Op) :
    (∀ more, (run ops).scopes.Rests (run (ops ++ more)).scopes) ∧
      (∀ b d, ((run ops).apply (.declare b)).1 = some d ↔
        d = ⟨.duplicateDeclaration b.name, b.position⟩ ∧
          ∃ c, (run ops).scopes.innermost.Holds b.name c) ∧
      (∀ b d, ((run ops).apply (.declare b)).1 = some d → run (ops ++ [.declare b]) = run ops) ∧
      (∀ name b, (run ops).scopes.get? name = some b ↔ (run ops).scopes.Finds name b) ∧
      (∀ between, .reattach (run ops).parts.length ∉ between →
        (run (ops ++ .detach :: between ++ [.reattach (run ops).parts.length])).scopes =
          { (run ops).scopes with globals := (run (ops ++ .detach :: between)).scopes.globals }) ∧
      ∀ more name b, (run ops).scopes.globals.find? name = some b →
        (∀ key v p, .set key v p ∈ more → Text.fold key ≠ Text.fold name) →
        (run (ops ++ more)).scopes.globals.find? name = some b := by
  have hkeyed := run_keyed ops
  refine ⟨fun more => rests_of_suffix (globals_run ops more), State.apply_declare_iff hkeyed,
    fun b d hd => ?_, fun _ _ => hkeyed.scopes.get?_iff, fun _ hb => run_reattach ops hb,
    fun more name b hb hmore => ?_⟩
  · rw [run_append]
    exact State.next_declare_of_complaint hd
  · rw [run_append]
    exact globals_find?_run hb hmore

/-- A call made in a call declares a global, and does not leave the labels and frames it entered. -/
theorem run_lawful_nested :
    let caller : List Op := [.pushLabel "func(main)", .push]
    let total : Symbol := ⟨⟨"Total", .int, .plain, ⟨1, 1⟩, globalLabel⟩, .int 7, false, none⟩
    let enter : List Op := [.pushLabel "func(f)", .push, .detach, .declare total]
    let leave : List Op := [.pop, .reattach 1, .pop]
    (.reattach 0 ∉ enter ++ leave ∧
      (run (caller ++ .detach :: (enter ++ leave) ++ [.reattach 0])).scopes =
        ⟨[(total.key, total)], [[]], ["func(main)"]⟩) ∧
    (run (caller ++ .detach :: enter)).scopes.globals.find? total.name = some total ∧
      (∀ key v p, .set key v p ∈ leave → Text.fold key ≠ Text.fold total.name) ∧
      (run (caller ++ .detach :: enter ++ leave)).scopes.globals.find? total.name = some total := by
  intro caller total enter leave
  have hcaller : run caller = ⟨⟨[], [[]], ["func(main)"]⟩, []⟩ := rfl
  have hentered : (run (caller ++ .detach :: enter)).scopes.globals = [(total.key, total)] := rfl
  have hleft : (run (caller ++ .detach :: (enter ++ leave))).scopes.globals =
      [(total.key, total)] := rfl
  have hafter := (run_lawful caller).2.2.2.2.1 (enter ++ leave)
  rw [hleft, hcaller] at hafter
  have hown : .reattach 0 ∉ enter ++ leave := by simp [enter, leave]
  have htotal :
      (run (caller ++ .detach :: enter)).scopes.globals.find? total.name = some total := by
    rw [hentered, Frame.find?]
    exact List.lookup_cons_self
  have hset : ∀ key v p, .set key v p ∈ leave → Text.fold key ≠ Text.fold total.name := by
    simp [leave]
  exact ⟨⟨hown, hafter hown⟩, htotal, hset,
    (run_lawful (caller ++ .detach :: enter)).2.2.2.2.2 leave total.name total htotal hset⟩

end Scopes

end Primer
