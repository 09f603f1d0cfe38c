import Primer.Proofs.Bracketing
import Primer.Proofs.Declared
import Primer.Proofs.Recording
import Primer.Proofs.Respect

/-!
# The rows of the globals

A symbol is written where it lives and in its row, and it finds its row again by name, scope and
category. Blocks and branches open a scope without a label, so outside every loop, switch and call
what they declare goes by the keys of the globals (`Machine.Covers`). A global that nothing covers
has its row at the end of a run as it should be, whatever else ran (`Program.globals_listed`).
-/

namespace Primer

/-! ## Keys of rows -/

namespace Listing

/-- A symbol points to the row of its key. -/
def Rows (l : Listing) (s : Symbol) : Prop := ∃ i, s.row = some i ∧ l.keys[i]? = some s.rowKey

/-- A row says of a symbol what is the case. -/
structure Tells (r : Row) (s : Symbol) : Prop where
  rowKey : r.rowKey = s.rowKey
  ty : r.ty = s.ty
  value : r.value = some s.value
  holdsDefault : r.holdsDefault = s.holdsDefault

/-- A symbol points to a row that says what is the case. -/
def Shows (l : Listing) (s : Symbol) : Prop :=
  ∃ i r, s.row = some i ∧ l.rows[i]? = some r ∧ Tells r s

variable {l : Listing} {s : Symbol} {row : Row} {i j : Nat} {k : RowKey} {v : Value}

/-- What is recorded is shown. -/
theorem tells_record (l : Listing) (s : Symbol) : ∃ r,
    (l.record (Row.ofSymbol s)).2.rows[(l.record (Row.ofSymbol s)).1]? = some r ∧ Tells r s := by
  cases h : l.index? (Row.ofSymbol s).rowKey with
  | some i =>
    have hk := index?_some.1 h
    rw [getElem?_keys] at hk
    obtain ⟨r, hr, hk⟩ := Option.map_eq_some_iff.1 hk
    rw [record_some h]
    exact ⟨(Row.ofSymbol s).refresh r, by simp [Listing.modify, Array.getElem?_modify, hr], hk,
      rfl, rfl, rfl⟩
  | none =>
    rw [record_none h]
    exact ⟨Row.ofSymbol s, by simp [push, size], rfl, rfl, rfl, rfl⟩

theorem rows_of_shows (h : l.Shows s) : l.Rows s := by
  obtain ⟨i, r, hi, hr, hs⟩ := h
  exact ⟨i, hi, by rw [getElem?_keys, hr]; exact congrArg some hs.rowKey⟩

theorem Rows.mono {l' : Listing} (h : l.Rows s) (hl : l.keys <+: l'.keys) : l'.Rows s := by
  obtain ⟨i, hi, hk⟩ := h
  obtain ⟨added, hl⟩ := hl
  exact ⟨i, hi, by rw [← hl, List.getElem?_append_left (List.getElem?_eq_some_iff.1 hk).1, hk]⟩

/-- A row that is not its own can change without harm. -/
theorem Shows.modify {f : Row → Row} (hf : ∀ r, (f r).rowKey = r.rowKey) (h : l.Shows s)
    (hj : l.keys[j]? = some k) (hne : k ≠ s.rowKey) : (l.modify j f hf).Shows s := by
  obtain ⟨i, r, hi, hr, hs⟩ := h
  refine ⟨i, r, hi, ?_, hs⟩
  have hij : j ≠ i := by
    rintro rfl
    rw [getElem?_keys, hr] at hj
    exact hne (Option.some.inj hj ▸ hs.rowKey)
  rwa [Listing.modify, Array.getElem?_modify, if_neg hij]

theorem Shows.setValue (h : l.Shows s) (hj : l.keys[j]? = some k) (hne : k ≠ s.rowKey) :
    (l.setValue j v).Shows s :=
  Shows.modify (Row.rowKey_assign v) h hj hne

theorem Shows.record (h : l.Shows s) (hne : row.rowKey ≠ s.rowKey) : (l.record row).2.Shows s := by
  cases hi : l.index? row.rowKey with
  | some i =>
    rw [record_some hi]
    exact Shows.modify row.rowKey_refresh h (index?_some.1 hi) hne
  | none =>
    obtain ⟨i, r, hrow, hr, hs⟩ := h
    rw [record_none hi]
    have hlt : i < l.rows.size := (Array.getElem?_eq_some_iff.1 hr).1
    exact ⟨i, r, hrow, by simp [push, Array.getElem?_push, hlt.ne, hr], hs⟩

/-- A value that is stored in a symbol and in its row is shown. -/
theorem Shows.replace (h : l.Shows s) (hi : s.row = some i) (v : Value) :
    (l.setValue i v).Shows { s with value := v, holdsDefault := false } := by
  obtain ⟨j, r, hj, hr, hs⟩ := h
  obtain rfl : i = j := Option.some.inj (hi.symm.trans hj)
  exact ⟨i, r.assign v, hi, by simp [Listing.setValue, Listing.modify, Array.getElem?_modify, hr],
    hs.rowKey, hs.ty, rfl, rfl⟩

end Listing

/-! ## Machines -/

theorem Frame.lookup_change {β : Type} (f : β → β) (key k : String) : ∀ frame : Frame β,
    (frame.change key f).lookup k =
      if k = key then (frame.lookup key).map f else frame.lookup k
  | [] => by simp [change]
  | (k', b) :: frame => by
    simp only [change]
    split
    · rename_i hk
      obtain rfl := LawfulBEq.eq_of_beq hk
      by_cases hkey : k = key
      · subst hkey
        simp
      · simp [List.lookup_cons, hkey, beq_false_of_ne hkey]
    · rename_i hk
      by_cases hkey : k = key
      · subst hkey
        simp [List.lookup_cons, hk, lookup_change f k k frame]
      · simp only [List.lookup_cons, lookup_change f key k frame, if_neg hkey]

theorem Frame.all_nil {β : Type} {P : β → Prop} : Frame.All P [] := fun _ he =>
  absurd he List.not_mem_nil

/-- Where a frame is changed, it is the one that has the entry of the name. -/
theorem Scopes.changeFirst_some {β : Type} {f : β → β} {key : String} {b : β} {globals : Frame β} :
    ∀ {frames frames' : List (Frame β)}, changeFirst key f frames = some frames' →
      findIn key frames globals = some b →
      frames'.length = frames.length ∧ ∃ frame ∈ frames, frame.lookup key = some b
  | frame :: frames, frames', hc, hb => by
    simp only [changeFirst] at hc
    simp only [findIn] at hb
    cases hl : List.lookup key frame with
    | some b' =>
      simp only [hl, Option.isSome_some, if_true, Option.some.injEq] at hc hb
      obtain rfl := hb
      exact ⟨by rw [← hc]; rfl, frame, List.mem_cons_self, hl⟩
    | none =>
      simp only [hl, Option.isSome_none, Bool.false_eq_true, if_false] at hc hb
      obtain ⟨rest, hrest, rfl⟩ := Option.map_eq_some_iff.1 hc
      obtain ⟨hlength, frame', hin, hframe⟩ := changeFirst_some hrest hb
      exact ⟨congrArg (· + 1) hlength, frame', List.mem_cons_of_mem _ hin, hframe⟩

theorem Scopes.path_of_bare {β : Type} {s : Scopes β} (h : s.labels = []) :
    s.path = globalLabel := by
  rw [path, h]
  exact String.intercalate_singleton

theorem Scopes.path_of_labelled {β : Type} {s : Scopes β} (h : s.labels ≠ []) :
    s.path ≠ globalLabel := by
  obtain ⟨label, labels, hl⟩ := List.exists_cons_of_ne_nil (List.reverse_ne_nil_iff.2 h)
  intro hp
  rw [path, hl, String.intercalate_cons_cons] at hp
  have hlength := congrArg String.length hp
  simp only [String.length_append, globalLabel] at hlength
  exact absurd hlength (by simp +arith)

namespace Machine

/-- Outside every loop, switch and call, a block holds a symbol of a name and category. -/
def Covers (key : String) (category : Category) (m : Machine) : Prop :=
  m.scopes.labels = [] ∧
    ∃ frame ∈ m.scopes.frames, ∃ e ∈ frame, e.2.key = key ∧ e.2.category = category

instance (key : String) (category : Category) (m : Machine) : Decidable (m.Covers key category) :=
  inferInstanceAs (Decidable (_ ∧ _))

/-- The key of the row of a global. -/
abbrev globalKey (key : String) (category : Category) : RowKey :=
  ⟨key, Scopes.globalLabel, category⟩

/-- All symbols have rows, and the global of a name and category, which no other symbol shares its
row with, is shown. -/
structure Shows (key : String) (category : Category) (m : Machine) : Prop where
  rows : m.scopes.All m.listing.Rows
  globals : ∀ k s, m.scopes.globals.lookup k = some s → s.key = k ∧ s.scope = Scopes.globalLabel
  bare : m.scopes.frames = [] → m.scopes.labels = []
  alone : ∀ frame ∈ m.scopes.frames, frame.All (·.rowKey ≠ globalKey key category)
  shown : ∀ s, m.scopes.globals.lookup key = some s → s.category = category → m.listing.Shows s

/-- What a computation does to a machine on which a global is shown. -/
structure Becomes (key : String) (category : Category) (m t : Machine) : Prop where
  shows : t.Shows key category
  labels : t.scopes.labels = m.scopes.labels
  frames : t.scopes.frames.length = m.scopes.frames.length
  keys : m.listing.keys <+: t.listing.keys

variable {key : String} {category : Category} {m t u : Machine}

theorem Becomes.refl (h : m.Shows key category) : m.Becomes key category m :=
  ⟨h, rfl, rfl, List.prefix_rfl⟩

theorem Becomes.trans (h : m.Becomes key category t) (h' : t.Becomes key category u) :
    m.Becomes key category u :=
  ⟨h'.shows, h'.labels.trans h.labels, h'.frames.trans h.frames, h.keys.trans h'.keys⟩

/-- Only the frames above the global one have changed. -/
theorem Shows.rescoped (h : m.Shows key category) (hl : t.listing = m.listing)
    (hg : t.scopes.globals = m.scopes.globals)
    (hf : ∀ frame ∈ t.scopes.frames, frame.All m.listing.Rows ∧
      frame.All (·.rowKey ≠ globalKey key category))
    (hb : t.scopes.frames = [] → t.scopes.labels = []) : t.Shows key category where
  rows := ⟨by rw [hl, hg]; exact h.rows.globals,
    fun frame hin => by rw [hl]; exact (hf frame hin).1⟩
  globals := hg ▸ h.globals
  bare := hb
  alone frame hin := (hf frame hin).2
  shown := by rw [hl, hg]; exact h.shown

theorem Shows.frames (h : m.Shows key category) : ∀ frame ∈ m.scopes.frames,
    frame.All m.listing.Rows ∧ frame.All (·.rowKey ≠ globalKey key category) :=
  fun frame hin => ⟨h.rows.frames frame hin, h.alone frame hin⟩

theorem Shows.entered (h : m.Shows key category) {frames : List (Frame Symbol)}
    {labels : List String} (hf : ∀ frame ∈ frames, frame ∈ m.scopes.frames) :
    Machine.Shows key category
      { m with scopes := { m.scopes with frames := [] :: frames, labels } } :=
  h.rescoped rfl rfl (List.forall_mem_cons.2 ⟨⟨Frame.all_nil, Frame.all_nil⟩,
    fun frame hin => h.frames frame (hf frame hin)⟩) fun hf => absurd hf (List.cons_ne_nil _ _)

/-- The scopes under the innermost one are those before it was entered. -/
theorem Shows.left (h : m.Shows key category) (ht : t.Shows key category)
    (hkeys : m.listing.keys <+: t.listing.keys)
    (hframes : t.scopes.frames.length = m.scopes.frames.length + 1) {labels : List String}
    (hlabels : labels = m.scopes.labels) : m.Becomes key category
      { t with scopes := { t.scopes with frames := t.scopes.frames.tail, labels } } := by
  have hlength : t.scopes.frames.tail.length = m.scopes.frames.length := by
    rw [List.length_tail, hframes, Nat.add_sub_cancel]
  refine ⟨ht.rescoped rfl rfl (fun frame hin => ht.frames frame (List.mem_of_mem_tail hin))
    fun hf => ?_, hlabels, hlength, hkeys⟩
  exact hlabels.trans (h.bare (List.length_eq_zero_iff.1 (hlength ▸ List.length_eq_zero_iff.2 hf)))

theorem Shows.same (h : m.Shows key category) (hs : t.scopes = m.scopes)
    (hl : t.listing = m.listing) : m.Becomes key category t :=
  ⟨h.rescoped hl (by rw [hs]) (by rw [hs]; exact h.frames) (by rw [hs]; exact h.bare),
    by rw [hs], by rw [hs], by rw [hl]⟩

theorem Shows.enterScope (h : m.Shows key category) : m.enterScope.Shows key category :=
  h.entered fun _ hin => hin

theorem Shows.enterLabelled (h : m.Shows key category) (label : String) :
    (m.enterLabelled label).Shows key category :=
  h.entered fun _ hin => hin

theorem Shows.enterCall (h : m.Shows key category) (name : String) :
    (m.enterCall name).2.Shows key category :=
  h.rescoped rfl rfl (fun frame hin => by
    rw [List.mem_singleton.1 hin]
    exact ⟨Frame.all_nil, Frame.all_nil⟩) fun hf => absurd hf (List.cons_ne_nil _ _)

theorem Becomes.leaveScope (h : m.Shows key category) (ht : m.enterScope.Becomes key category t) :
    m.Becomes key category t.leaveScope :=
  h.left ht.shows ht.keys ht.frames ht.labels

theorem Becomes.leaveLabelled (h : m.Shows key category) {label : String}
    (ht : (m.enterLabelled label).Becomes key category t) :
    m.Becomes key category t.leaveLabelled :=
  h.left ht.shows ht.keys ht.frames (congrArg List.tail ht.labels)

/-- The caller gets its scopes back, and their symbols still have their rows. -/
theorem Becomes.leaveCall (h : m.Shows key category) {name : String}
    (ht : (m.enterCall name).2.Becomes key category t) :
    m.Becomes key category (t.leaveCall (m.enterCall name).1) := by
  refine ⟨ht.shows.rescoped rfl rfl (fun frame hin => ?_) h.bare, rfl, rfl, ht.keys⟩
  obtain ⟨hrows, halone⟩ := h.frames frame hin
  exact ⟨fun e he => (hrows e he).mono ht.keys, halone⟩

/-- The key of a global that is shown. -/
theorem Shows.rowKey_eq (h : m.Shows key category) {k : String} {s : Symbol}
    (hs : m.scopes.globals.lookup k = some s) : s.rowKey = globalKey k s.category := by
  obtain ⟨hkey, hscope⟩ := h.globals k s hs
  simp only [Declaration.rowKey, hkey, hscope]

/-- A symbol that is added to the global frame is the global of its name from then on. -/
theorem Shows.addGlobal (h : m.Shows key category) {s : Symbol} (hs : t.listing.Shows s)
    (hscope : s.scope = Scopes.globalLabel)
    (hrows : t.scopes.All t.listing.Rows)
    (ht : t.scopes = { m.scopes with globals := m.scopes.globals.add s.name s })
    (hshown : ∀ s', m.scopes.globals.lookup key = some s' → s'.category = category →
      s.rowKey ≠ globalKey key category → t.listing.Shows s') : t.Shows key category := by
  have hlookup : ∀ {k s'}, t.scopes.globals.lookup k = some s' →
      k = s.key ∧ s' = s ∨ k ≠ s.key ∧ m.scopes.globals.lookup k = some s' := by
    intro k s' hs'
    rw [ht, Frame.add, List.lookup_cons] at hs'
    split at hs'
    · exact .inl ⟨LawfulBEq.eq_of_beq ‹_›, (Option.some.inj hs').symm⟩
    · exact .inr ⟨ne_of_beq_false ‹_›, hs'⟩
  refine ⟨hrows, fun k s' hs' => ?_, ?_, ?_, fun s' hs' hcat => ?_⟩
  · rcases hlookup hs' with ⟨rfl, rfl⟩ | ⟨-, hs'⟩
    · exact ⟨rfl, hscope⟩
    · exact h.globals k s' hs'
  · rw [ht]
    exact h.bare
  · rw [ht]
    exact h.alone
  · rcases hlookup hs' with ⟨-, rfl⟩ | ⟨hne, hs'⟩
    · exact hs
    · exact hshown s' hs' hcat fun heq => hne (congrArg RowKey.name heq).symm

/-- A change to a frame above the global one, or to a row, leaves a global shown whose row it does
not take. -/
theorem Shows.changeFrames (h : m.Shows key category) {frames : List (Frame Symbol)}
    (ht : t.scopes = { m.scopes with frames }) (hrows : t.scopes.All t.listing.Rows)
    (hframes : frames.length = m.scopes.frames.length)
    (halone : ∀ frame ∈ frames, frame.All (·.rowKey ≠ globalKey key category))
    (hshown : ∀ s', m.scopes.globals.lookup key = some s' → s'.category = category →
      t.listing.Shows s') : t.Shows key category := by
  refine ⟨hrows, ?_, ?_, ?_, ?_⟩ <;> rw [ht]
  · exact h.globals
  · exact fun hf => h.bare (List.length_eq_zero_iff.1 (hframes ▸ List.length_eq_zero_iff.2 hf))
  · exact halone
  · exact hshown

/-- A symbol that is added to the innermost frame and shown leaves the globals shown that it does
not cover. -/
theorem Shows.add (h : m.Shows key category) {s : Symbol} (hscope : s.scope = m.scopes.path)
    (hs : t.listing.Shows s) (hkeys : m.listing.keys <+: t.listing.keys)
    (hrest : ∀ s', m.listing.Shows s' → s.rowKey ≠ s'.rowKey → t.listing.Shows s')
    (ht : t.scopes = m.scopes.add s.name s) (hc : ¬ t.Covers key category) :
    m.Becomes key category t := by
  have hshown : ∀ s', m.scopes.globals.lookup key = some s' → s'.category = category →
      s.rowKey ≠ globalKey key category → t.listing.Shows s' := fun s' hs' hcat hne =>
    hrest s' (h.shown s' hs' hcat) (by rwa [h.rowKey_eq hs', hcat])
  have hrows : t.scopes.All t.listing.Rows :=
    ht ▸ (h.rows.imp fun _ hr => hr.mono hkeys).add (Listing.rows_of_shows hs)
  cases hf : m.scopes.frames with
  | nil =>
    have hadd : t.scopes = { m.scopes with globals := m.scopes.globals.add s.name s } := by
      simp only [ht, Scopes.add, hf]
    have hglobal : s.scope = Scopes.globalLabel := hscope.trans (Scopes.path_of_bare (h.bare hf))
    exact ⟨h.addGlobal hs hglobal hrows hadd hshown, by rw [hadd], by rw [hadd], hkeys⟩
  | cons frame frames =>
    have hadd : t.scopes = { m.scopes with frames := frame.add s.name s :: frames } := by
      rw [ht, Scopes.add, hf]
    have hne : s.rowKey ≠ globalKey key category := fun heq => by
      have hbare : m.scopes.labels = [] := by
        by_contra hlabels
        exact Scopes.path_of_labelled hlabels (hscope.symm.trans (congrArg RowKey.scope heq))
      refine hc ⟨by rw [hadd]; exact hbare, frame.add s.name s, ?_, _, List.mem_cons_self,
        congrArg RowKey.name heq, congrArg RowKey.category heq⟩
      rw [hadd]
      exact List.mem_cons_self
    have halone := h.alone
    rw [hf] at halone
    obtain ⟨hframe, hframes⟩ := List.forall_mem_cons.1 halone
    refine ⟨h.changeFrames hadd hrows (by rw [hf]; rfl)
      (List.forall_mem_cons.2 ⟨List.forall_mem_cons.2 ⟨hne, hframe⟩, hframes⟩)
      fun s' hs' hcat => hshown s' hs' hcat hne, by rw [hadd], by rw [hadd, hf]; rfl, hkeys⟩

theorem Shows.introduce (h : m.Shows key category) {name : String} {ty : Ty} {c : Category}
    {p : Position} {value : Option Value}
    (hc : ¬ (m.introduce name ty c p value).Covers key category) :
    m.Becomes key category (m.introduce name ty c p value) := by
  let unlisted : Symbol :=
    ⟨⟨name, ty, c, p, m.scopes.path⟩, (initial m.store ty value).1,
      (initial m.store ty value).2.1, none⟩
  let recorded := m.listing.record (Row.ofSymbol unlisted)
  obtain ⟨r, hr, htells⟩ := Listing.tells_record m.listing unlisted
  have hkeys := Listing.keys_record m.listing (Row.ofSymbol unlisted)
  exact h.add (s := { unlisted with row := some recorded.1 }) rfl
    ⟨_, r, rfl, hr, ⟨htells.rowKey, htells.ty, htells.value, htells.holdsDefault⟩⟩ hkeys
    (fun _ hs hne => hs.record hne) rfl hc

/-- A global that takes a value keeps its name and its scope. -/
theorem Shows.changeGlobal (h : m.Shows key category) {k : String} {s : Symbol}
    {g : Symbol → Symbol} (hs : m.scopes.globals.lookup k = some s) (hkey : (g s).key = s.key)
    (hscope : (g s).scope = s.scope) (hrows : t.scopes.All t.listing.Rows)
    (ht : t.scopes = { m.scopes with globals := m.scopes.globals.change k g })
    (hown : k = key → (g s).category = category → t.listing.Shows (g s))
    (hrest : ∀ s', k ≠ key → m.scopes.globals.lookup key = some s' → s'.category = category →
      t.listing.Shows s') : t.Shows key category := by
  have hlookup : ∀ {k' s'}, t.scopes.globals.lookup k' = some s' →
      k' = k ∧ s' = g s ∨ k' ≠ k ∧ m.scopes.globals.lookup k' = some s' := by
    intro k' s' hs'
    rw [ht, Frame.lookup_change] at hs'
    split at hs'
    · rw [hs] at hs'
      exact .inl ⟨‹_›, (Option.some.inj hs').symm⟩
    · exact .inr ⟨‹_›, hs'⟩
  refine ⟨hrows, fun k' s' hs' => ?_, ?_, ?_, fun s' hs' hcat => ?_⟩
  · rcases hlookup hs' with ⟨rfl, rfl⟩ | ⟨-, hs'⟩
    · obtain ⟨hk, hglobal⟩ := h.globals _ s hs
      exact ⟨hkey.trans hk, hscope.trans hglobal⟩
    · exact h.globals k' s' hs'
  · rw [ht]
    exact h.bare
  · rw [ht]
    exact h.alone
  · rcases hlookup hs' with ⟨hk, rfl⟩ | ⟨hk, hs'⟩
    · exact hown hk.symm hcat
    · exact hrest s' (Ne.symm hk) hs' hcat

/-- The symbol that an assignment changes, with its row. -/
theorem exists_symbol_of_fit {name : String} {v w : Value} {p : Position} {row : Option Nat}
    (hfit : m.fit name v p = .ok (w, row)) : ∃ s, m.scopes.get? name = some s ∧ row = s.row := by
  simp only [Machine.fit, Scopes.lookup] at hfit
  cases hs : m.scopes.get? name with
  | none => rw [hs] at hfit; cases hfit
  | some s =>
    rw [hs] at hfit
    refine ⟨s, rfl, ?_⟩
    simp only at hfit
    split at hfit <;> cases hfit
    rfl

/-- An assignment is shown in the row of the symbol that takes it and in no other. -/
theorem Shows.replace (h : m.Shows key category) {name : String} {v w : Value} {p : Position}
    {row : Option Nat} (hfit : m.fit name v p = .ok (w, row)) :
    m.Becomes key category (m.replace name w row) := by
  obtain ⟨s, hs, hrow⟩ := exists_symbol_of_fit hfit
  obtain ⟨i, hi, hk⟩ := h.rows.get? hs
  obtain rfl : row = some i := hrow.trans hi
  let written : Symbol → Symbol := fun s => { s with value := w, holdsDefault := false }
  have hkeys : (m.listing.setValue i w).keys = m.listing.keys := Listing.keys_setValue ..
  have hmono : ∀ s, m.listing.Rows s → (m.listing.setValue i w).Rows s := fun s hr =>
    hr.mono (hkeys ▸ List.prefix_rfl)
  have hrows : (m.replace name w (some i)).scopes.All (m.listing.setValue i w).Rows :=
    (h.rows.imp hmono).change fun s hs => hmono s (h.rows.get? hs)
  have hrest : ∀ s', m.scopes.globals.lookup key = some s' → s'.category = category →
      s.rowKey ≠ globalKey key category → (m.listing.setValue i w).Shows s' :=
    fun s' hs' hcat hne => (h.shown s' hs' hcat).setValue hk (by rwa [h.rowKey_eq hs', hcat])
  have hscopes : (m.replace name w (some i)).scopes = m.scopes.change name written := rfl
  simp only [Scopes.change] at hscopes
  split at hscopes
  · rename_i frames hframes
    obtain ⟨hlength, frame, hin, hframe⟩ := Scopes.changeFirst_some hframes hs
    have hne : s.rowKey ≠ globalKey key category := (h.alone frame hin).lookup hframe
    have hwritten : ∀ s', m.scopes.get? name = some s' →
        (written s').rowKey ≠ globalKey key category := fun s' hs' =>
      Option.some.inj (hs.symm.trans hs') ▸ hne
    have halone : ∀ frame ∈ frames, frame.All (·.rowKey ≠ globalKey key category) :=
      Scopes.All.changeFirst h.alone hwritten hframes
    exact ⟨h.changeFrames hscopes hrows hlength halone
      fun s' hs' hcat => hrest s' hs' hcat hne, by rw [hscopes], by rw [hscopes, hlength],
      hkeys ▸ List.prefix_rfl⟩
  · rename_i hnone
    have hglobal : m.scopes.globals.lookup (Text.fold name) = some s := by
      rw [← Scopes.All.changeFirst_none hnone]
      exact hs
    have hname : (written s).key = s.key := rfl
    have hscope : (written s).scope = s.scope := rfl
    refine ⟨h.changeGlobal hglobal hname hscope hrows hscopes (fun hkey hcat => ?_)
      (fun s' hkey hs' hcat => hrest s' hs' hcat fun heq => hkey ?_), by rw [hscopes],
      by rw [hscopes], hkeys ▸ List.prefix_rfl⟩
    · exact (h.shown s (hkey ▸ hglobal) hcat).replace hi w
    · rw [h.rowKey_eq hglobal] at heq
      exact congrArg RowKey.name heq

end Machine

/-! ## Runs -/

namespace Watched

open Eval

/-- A computation keeps the global of a name and category shown, unless a block covers it. -/
def KeepsShown (key : String) (category : Category) {α : Type} (x : Watched α) : Prop :=
  ∀ callers m, m.Shows key category →
    (∀ e ∈ (x callers m).events, ¬ e.target.Covers key category) →
    (run callers x m).Leaves (m.Becomes key category)

variable {key : String} {category : Category} {α β : Type} {x : Watched α}

theorem keepsShown_look {g : Machine → Except Diagnostic α} :
    KeepsShown key category (Runs.look g) := fun callers m hm _ => by
  rw [run_look]
  simp only [Runs.look]
  cases g m <;> exact .refl hm

theorem keepsShown_pure {a : α} : KeepsShown key category (pure a : Watched α) :=
  fun _ _ hm _ => .refl hm

theorem keepsShown_ofExcept {p : Position} {r : Except Fault α} :
    KeepsShown key category (Eval.ofExcept p r) := by
  cases r with
  | ok => exact keepsShown_pure
  | error => exact keepsShown_look

theorem keepsShown_step {g : Machine → α × Machine}
    (hg : ∀ m, (g m).2.scopes = m.scopes ∧ (g m).2.listing = m.listing) :
    KeepsShown key category (Runs.step g) := fun _ m hm _ => hm.same (hg m).1 (hg m).2

theorem KeepsShown.bind {k : α → Watched β} (hx : KeepsShown key category x)
    (hk : ∀ a, KeepsShown key category (k a)) : KeepsShown key category (x >>= k) :=
    fun callers m hm hno => by
  have h := hx callers m hm fun e he => hno e (events_bind he)
  rw [run_bind, Effect.bind_apply]
  cases hr : run callers x m with
  | done a t =>
    rw [hr] at h
    exact (hk a callers t h.shows fun e he => hno e (events_bind_next hr he)).imp
      fun _ hu => h.trans hu
  | failed =>
    rw [hr] at h
    exact h
  | exhausted => trivial

theorem leaves_onState {r : Outcome Machine α} {P Q : Machine → Prop} {g : Machine → Machine}
    (h : r.Leaves P) (hg : ∀ t, P t → Q (g t)) : (r.onState g).Leaves Q := by
  cases r with
  | done => exact hg _ h
  | failed => exact hg _ h
  | exhausted => trivial

theorem KeepsShown.between {enter leave : Machine → Machine} (hx : KeepsShown key category x)
    (henter : ∀ m, m.Shows key category → (enter m).Shows key category)
    (hleave : ∀ m t, m.Shows key category → (enter m).Becomes key category t →
      m.Becomes key category (leave t)) : KeepsShown key category (between enter leave x) :=
    fun callers m hm hno => by
  rw [run_between, between_apply]
  exact leaves_onState (hx callers _ (henter m hm) fun e he => hno e (events_between he))
    fun t ht => hleave m t hm ht

theorem KeepsShown.inCall (hx : KeepsShown key category x) (name : String) (p : Position) :
    KeepsShown key category (inCall name p x) := fun callers m hm hno => by
  rw [run_inCall]
  by_cases hc : m.mayCall = true
  · rw [if_pos hc]
    exact leaves_onState (hx _ _ (hm.enterCall name) fun e he => hno e (events_inCall hc he))
      fun t ht => ht.leaveCall hm
  · rw [if_neg hc]
    exact .refl hm

theorem KeepsShown.attempt (hx : KeepsShown key category x) :
    KeepsShown key category (Runs.attempt x) := fun callers m hm hno => by
  have h := hx callers m hm hno
  rw [run_attempt]
  simp only [Runs.attempt, Effect.attempt]
  generalize run callers x m = r at h
  cases r <;> exact h

theorem KeepsShown.within {j : Job} {x : Watched j.Result} (hx : KeepsShown key category x) :
    KeepsShown key category (Runs.within j x) := fun callers m hm hno =>
  hx callers m hm fun e he => hno e (events_within he)

theorem keepsShown_declare {name : String} {ty : Ty} {c : Category} {p : Position}
    {value : Option Value} : KeepsShown key category (declare name ty c p value) :=
  keepsShown_look.bind fun _ _ _ hm hno => hm.introduce (hno _ (List.mem_singleton_self _))

theorem keepsShown_assign {name : String} {v : Value} {p : Position} :
    KeepsShown key category (assign name v p) := fun callers m hm _ => by
  have hrun : run callers (assign name v p) = assign name v p := by simp [assign]
  rw [hrun]
  unfold assign
  rw [Effect.bind_apply]
  simp only [Runs.look]
  cases hfit : m.fit name v p with
  | error => exact .refl hm
  | ok r => exact hm.replace hfit

theorem keepsShown_conclude (g : Function) : KeepsShown key category (conclude g) := by
  refine (keepsShown_step fun _ => ⟨rfl, rfl⟩).bind fun d => ?_
  cases d with
  | some => exact keepsShown_look
  | none =>
    refine (keepsShown_step fun m => ?_).bind fun _ =>
      (keepsShown_step fun _ => ⟨rfl, rfl⟩).bind fun s => ?_
    · simp only [Machine.takeReturn]
      split <;> exact ⟨rfl, rfl⟩
    · cases s with
      | none => exact keepsShown_pure
      | some =>
        exact (keepsShown_step (g := fun m => ((), m.note _)) fun _ => ⟨rfl, rfl⟩).bind
          fun _ => keepsShown_pure

/-- No part of the evaluator loses a global from the listing that no block covers. -/
theorem respected_keepsShown (key : String) (category : Category) :
    Respected .same True fun _ x _ => KeepsShown key category x where
  pure _ := keepsShown_pure
  bind hx hk := hx.bind hk
  exhausted _ := fun _ _ _ _ => trivial
  within hx := hx.within
  look _ := keepsShown_look
  step hg := keepsShown_step fun m => by
    rw [hg.frame m]
    exact ⟨rfl, rfl⟩
  valueOf _ _ := keepsShown_look
  typeOf _ _ := keepsShown_look
  function hsome hnone := keepsShown_look.bind fun g => by
    cases g with
    | none => exact hnone
    | some g => exact hsome g
  declare _ _ _ _ _ := keepsShown_declare
  declareWith _ _ _ hx := (hx.bind fun _ => keepsShown_ofExcept).attempt.bind fun r => by
    cases r with
    | ok => exact keepsShown_declare
    | error => exact keepsShown_declare.bind fun _ => keepsShown_look
  assign _ _ _ := keepsShown_assign
  inScope hx := hx.between (fun _ hm => hm.enterScope) fun _ _ hm ht => ht.leaveScope hm
  inLabelled _ hx :=
    hx.between (fun _ hm => hm.enterLabelled _) fun _ _ hm ht => ht.leaveLabelled hm
  inConstruct c hx := hx.between (fun m hm => (hm.same (t := m.enterConstruct c) rfl rfl).shows)
    fun m t hm ht => ((hm.same (t := m.enterConstruct c) rfl rfl).trans ht).trans
      (ht.shows.same (t := t.leaveConstruct) rfl rfl)
  inCall name p hx := hx.inCall name p
  conclude := keepsShown_conclude
  guarded hx := hx.attempt.bind fun r => by
    cases r with
    | ok => exact keepsShown_pure
    | error d =>
      refine keepsShown_look.bind fun b => ?_
      cases b
      · exact keepsShown_step fun _ => ⟨rfl, rfl⟩
      · exact KeepsShown.within (j := .failCall d) (keepsShown_step fun _ => ⟨rfl, rfl⟩)
  note _ := keepsShown_step fun _ => ⟨rfl, rfl⟩

end Watched

namespace Program

variable {p : Program}

theorem shows_loaded (p : Program) (limit : Nat) (key : String) (category : Category) :
    (p.loaded limit).Shows key category := by
  have hscopes : (p.loaded limit).scopes = {} := by rw [p.loaded_eq limit]; rfl
  refine ⟨?_, ?_, ?_, ?_, ?_⟩ <;> rw [hscopes]
  · exact ⟨Frame.all_nil, fun _ hin => absurd hin List.not_mem_nil⟩
  · exact fun _ _ hs => absurd hs (Option.some_ne_none _).symm
  · exact fun _ => rfl
  · exact fun _ hin => absurd hin List.not_mem_nil
  · exact fun _ hs => absurd hs (Option.some_ne_none _).symm

/-- At the end of a run a global points to the row with its type, its value and whether that is
only its default, if no block outside the loops, switches and calls has held a symbol of its name
and category. -/
theorem globals_listed {fuel limit : Nat} {m : Machine} (h : p.execute fuel limit = some m)
    {name : String} {s : Symbol} (hs : m.scopes.globals.find? name = some s)
    (hfree : ∀ e ∈ p.history fuel limit, ¬ e.target.Covers s.key s.category) :
    ∃ i r, s.row = some i ∧ m.listing.rows[i]? = some r ∧ r.rowKey = s.rowKey ∧ r.ty = s.ty ∧
      r.value = some s.value ∧ r.holdsDefault = s.holdsDefault := by
  have hleaves := (Watched.respected_keepsShown s.key s.category).topLevel fuel p.body [] _
    (p.shows_loaded limit _ _) hfree
  rw [Watched.run_topLevel] at hleaves
  have hshows : m.Shows s.key s.category := by
    unfold execute at h
    generalize (Eval.topLevel fuel p.body : Eval Unit) (p.loaded limit) = r at h hleaves
    cases r <;> cases h <;> exact hleaves.shows
  have hkey : s.key = Text.fold name := (hshows.globals _ s hs).1
  obtain ⟨i, r, hi, hr, htells⟩ := hshows.shown s (hkey ▸ hs) rfl
  exact ⟨i, r, hi, hr, htells.rowKey, htells.ty, htells.value, htells.holdsDefault⟩

/-- A global beside a loop that declares its name. -/
theorem globals_listed_looped :
    let source := "var x: int = 1; do \x7b var x: string = \"a\"; \x7d while (x < 1); x = 2;"
    ∃ p m s i r, ofSource source = .ok p ∧ p.execute 20 9 = some m ∧
      m.scopes.globals.find? "x" = some s ∧ s.row = some i ∧ m.listing.rows[i]? = some r ∧
      r.ty = .int ∧ r.value = some s.value := by
  intro source
  have hrun : (match ofSource source with
    | .ok p => (p.execute 20 9).any fun m => (m.scopes.globals.find? "x").any fun s =>
        s.ty = .int ∧ ∀ e ∈ p.history 20 9, ¬ e.target.Covers s.key s.category
    | .error _ => false) = true := by decide +kernel
  split at hrun
  · rename_i p hp
    obtain ⟨m, hm, hrun⟩ := (Option.any_eq_true ..).1 hrun
    obtain ⟨s, hs, hrun⟩ := (Option.any_eq_true ..).1 hrun
    obtain ⟨hty, hfree⟩ := of_decide_eq_true hrun
    obtain ⟨i, r, hi, hr, -, hrty, hv, -⟩ := globals_listed hm hs hfree
    exact ⟨p, m, s, i, r, hp, hm, hs, hi, hr, hrty.trans hty, hv⟩
  · cases hrun

/-- A block that declares the name of a global takes the row of the global. -/
theorem globals_unlisted_covered :
    let source := "var x: int = 1; \x7b var x: string = \"a\"; \x7d"
    ∃ p m s, ofSource source = .ok p ∧ p.analyze.report.isEmpty = true ∧
      p.execute 20 9 = some m ∧ m.scopes.globals.find? "x" = some s ∧
      ¬ ∃ i r, s.row = some i ∧ m.listing.rows[i]? = some r ∧ r.ty = s.ty ∧
        r.value = some s.value ∧ r.holdsDefault = s.holdsDefault := by
  intro source
  have hrun : (match ofSource source with
    | .ok p => p.analyze.report.isEmpty && (p.execute 20 9).any fun m =>
        (m.scopes.globals.find? "x").any fun s =>
          s.row.all fun i => m.listing.rows[i]?.all fun r => r.ty ≠ s.ty
    | .error _ => false) = true := by decide +kernel
  split at hrun
  · rename_i p hp
    obtain ⟨hclean, hrun⟩ := Bool.and_eq_true_iff.1 hrun
    obtain ⟨m, hm, hrun⟩ := (Option.any_eq_true ..).1 hrun
    obtain ⟨s, hs, hrun⟩ := (Option.any_eq_true ..).1 hrun
    refine ⟨p, m, s, hp, hclean, hm, hs, ?_⟩
    rintro ⟨i, r, hi, hr, hty, -⟩
    rw [hi, Option.all_some, hr, Option.all_some] at hrun
    exact of_decide_eq_true hrun hty
  · cases hrun

end Program

end Primer
