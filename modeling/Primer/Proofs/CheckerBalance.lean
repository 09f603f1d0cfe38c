import Primer.Checker.Analysis
import Primer.Proofs.Balance

/-!
# What a check changes

A check adds declarations to the innermost frame under new names and adds to the report, and leaves
every scope it enters. So what was visible stays visible, and a check that ends without a complaint
has had none all along.
-/

namespace Primer

theorem Scopes.within_add {β : Type} {s : Scopes β} {name : String} {b : β}
    (h : s.declaredHere name = false) : s.globals.Within (s.add name b).globals := by
  obtain ⟨globals, _ | ⟨frame, frames⟩, labels⟩ := s
  · exact Scopes.within_add_frame h
  · exact fun _ _ hd => hd

namespace Checker

/-- Nothing has been reported. -/
def Silent (c : Checker) : Prop := c.report.isEmpty = true

/-- Nothing but the listing, the report and the tallies has changed. -/
structure Keeps (c c' : Checker) : Prop where
  names : c'.toNames = c.toNames
  current : c'.current = c.current
  silent : c'.Silent → c.Silent

/-- The innermost frame may have gained declarations under new names. -/
structure Grows (c c' : Checker) : Prop where
  scopes : ∃ added, c'.scopes = c.scopes.extend added
  innermost : c.scopes.innermost.Within c'.scopes.innermost
  functions : c'.functions = c.functions
  globals : c.scopes.globals.Within c'.scopes.globals
  current : c'.current = c.current
  silent : c'.Silent → c.Silent

variable {α : Type} {c c' c'' : Checker}

theorem silent_note {fault : Fault} {p : Position} : ¬ (c.note fault p).Silent := by
  simp [Silent, note, Report.push, Report.isEmpty]

theorem silent_observe {j : Judged α} : (c.observe j).Silent ↔ c.Silent ∧ j.notes = [] := by
  simp [Silent, observe, judge, Report.append, Report.isEmpty]

theorem Keeps.refl (c : Checker) : c.Keeps c := ⟨rfl, rfl, fun h => h⟩

theorem Keeps.trans (h : c.Keeps c') (h' : c'.Keeps c'') : c.Keeps c'' :=
  ⟨h'.names.trans h.names, h'.current.trans h.current, fun hs => h.silent (h'.silent hs)⟩

theorem Keeps.grows (h : c.Keeps c') : c.Grows c' :=
  ⟨⟨[], by simp [h.names]⟩, fun _ _ hb => by simpa [h.names] using hb, by simp [h.names],
    fun _ _ hb => by simpa [h.names] using hb, h.current, h.silent⟩

theorem Grows.trans (h : c.Grows c') (h' : c'.Grows c'') : c.Grows c'' := by
  obtain ⟨a, ha⟩ := h.scopes
  obtain ⟨b, hb⟩ := h'.scopes
  exact ⟨⟨b ++ a, by rw [hb, ha, Scopes.extend_extend]⟩,
    fun k d hd => h'.innermost k d (h.innermost k d hd), h'.functions.trans h.functions,
    fun k d hd => h'.globals k d (h.globals k d hd), h'.current.trans h.current,
    fun hs => h.silent (h'.silent hs)⟩

theorem keeps_observe {j : Judged α} : c.Keeps (c.observe j) :=
  ⟨rfl, rfl, fun h => (silent_observe.1 h).1⟩

theorem keeps_goesOn : ∀ test : Option Expr, c.Keeps (c.goesOn test)
  | none => .refl c
  | some _ => keeps_observe

theorem keeps_note {fault : Fault} {p : Position} : c.Keeps (c.note fault p) :=
  ⟨rfl, rfl, fun h => absurd h silent_note⟩

theorem keeps_returned {t : Option Ty} {p : Position} : c.Keeps (c.returned t p) := by
  simp only [returned]
  split
  · exact keeps_note
  · split
    · exact keeps_note
    · split
      · exact ⟨rfl, rfl, fun h => h⟩
      · exact ⟨rfl, rfl, fun h => absurd h silent_note⟩
  · split
    · exact .refl c
    · exact keeps_note

section Declare

variable {name : String} {ty : Ty} {category : Category} {p : Position}

theorem declare_of_free (h : c.scopes.declaredHere name = false) :
    c.declare name ty category p = { c with
      scopes := c.scopes.add name ⟨name, ty, category, p, c.scopes.path⟩
      listing := (c.listing.record ⟨⟨name, ty, category, p, c.scopes.path⟩, none, true⟩).2 } := by
  simp [declare, Scopes.declare, Scopes.checkFree, h, bind, Except.bind, pure, Except.pure]

theorem declare_of_taken (h : c.scopes.declaredHere name = true) :
    c.declare name ty category p = c.note (.duplicateDeclaration name) p := by
  simp [declare, Scopes.declare, Scopes.checkFree, h, bind, Except.bind, note]

/-- What is declared without a complaint was free. -/
theorem free_of_silent (hs : (c.declare name ty category p).Silent) :
    c.scopes.declaredHere name = false := by
  cases h : c.scopes.declaredHere name with
  | false => rfl
  | true =>
    rw [declare_of_taken h] at hs
    exact absurd hs silent_note

/-- A declaration adds at most one entry, under a name the innermost frame does not have. -/
theorem grows_declare : c.Grows (c.declare name ty category p) := by
  cases h : c.scopes.declaredHere name
  · rw [declare_of_free h]
    exact ⟨⟨_, Scopes.add_eq_extend ..⟩, Scopes.innermost_within_add _ h, rfl,
      Scopes.within_add h, rfl, fun hs => hs⟩
  · rw [declare_of_taken h]
    exact keeps_note.grows

end Declare

theorem keeps_leaveScope (h : c.enterScope.Grows c') : c.Keeps c'.leaveScope := by
  obtain ⟨added, ha⟩ := h.scopes
  refine ⟨?_, h.current, h.silent⟩
  have hs : c'.scopes.pop = c.scopes := (congrArg Scopes.pop ha).trans (Scopes.pop_extend_push ..)
  simp only [leaveScope, hs, h.functions, enterScope]

theorem keeps_leaveLabelled {label : String} (h : (c.enterLabelled label).Grows c') :
    c.Keeps c'.leaveLabelled := by
  obtain ⟨added, ha⟩ := h.scopes
  refine ⟨?_, h.current, h.silent⟩
  have hs : c'.scopes.pop.popLabel = c.scopes :=
    (congrArg (fun s => s.pop.popLabel) ha).trans (Scopes.leave_extend_enter ..)
  simp only [leaveLabelled, hs, h.functions, enterLabelled]

mutual

/-- A statement that declares nothing in its scope leaves it as it is. -/
theorem stmt_keeps : ∀ (s : Stmt) (c : Checker), s.declares = false → c.Keeps (stmt s c)
  | .declare .., _, h => by cases h
  | .assign .., _, _ => keeps_observe
  | .assignIndex .., _, _ => keeps_observe
  | .step .., _, _ => keeps_observe
  | .block b, c, _ => block_keeps b c
  | .branch _ test body none, c, _ => keeps_observe.trans (block_keeps body _)
  | .branch _ test body (some s), c, h =>
    (keeps_observe.trans (block_keeps body _)).trans (stmt_keeps s _ h)
  | .switch _ e cs d, c, _ =>
    (keeps_observe (j := c.infer e)).trans
      (keeps_leaveLabelled ((cases_grows _ cs _).trans (default_grows d _)))
  | .whileLoop _ test body, c, _ =>
    keeps_leaveLabelled (keeps_observe.trans (block_keeps body _)).grows
  | .doLoop _ body test, c, _ =>
    keeps_leaveLabelled ((block_keeps body _).trans keeps_observe).grows
  | .forLoop _ first test next body, c, _ =>
    keeps_leaveLabelled (((optional_grows first _).trans ((keeps_goesOn test).grows.trans
      (optional_grows next _))).trans (block_keeps body _).grows)
  | .breakOut _, c, _ => .refl c
  | .continueOn _, c, _ => .refl c
  | .print .., _, _ => keeps_observe
  | .function f, c, _ => by
    simp only [stmt]
    split
    · exact .refl c
    · exact keeps_note
  | .giveBack _ none, _, _ => keeps_returned
  | .giveBack _ (some e), c, _ => (keeps_observe (j := c.infer e)).trans keeps_returned
  | .start _ name arguments, c, _ =>
    (Keeps.mk rfl rfl fun h => h : c.Keeps { c with entries := c.entries + 1 }).trans keeps_observe
  | .expression .., _, _ => keeps_observe

theorem stmt_grows : ∀ (s : Stmt) (c : Checker), c.Grows (stmt s c)
  | .declare _ _ _ none, _ => grows_declare
  | .declare _ _ _ (some e), _ => keeps_observe.grows.trans grows_declare
  | .branch _ test body (some s), c =>
    (keeps_observe.trans (block_keeps body _)).grows.trans (stmt_grows s _)
  | .branch _ test body none, c => (stmt_keeps (.branch _ test body none) c rfl).grows
  | .assign .., c => (stmt_keeps _ c rfl).grows
  | .assignIndex .., c => (stmt_keeps _ c rfl).grows
  | .step .., c => (stmt_keeps _ c rfl).grows
  | .block b, c => (block_keeps b c).grows
  | .switch _ e cs d, c => (stmt_keeps (.switch _ e cs d) c rfl).grows
  | .whileLoop _ test body, c => (stmt_keeps (.whileLoop _ test body) c rfl).grows
  | .doLoop _ body test, c => (stmt_keeps (.doLoop _ body test) c rfl).grows
  | .forLoop _ first test next body, c =>
    (stmt_keeps (.forLoop _ first test next body) c rfl).grows
  | .breakOut _, c => (Keeps.refl c).grows
  | .continueOn _, c => (Keeps.refl c).grows
  | .print .., c => (stmt_keeps _ c rfl).grows
  | .function f, c => (stmt_keeps (.function f) c rfl).grows
  | .giveBack _ value, c => (stmt_keeps (.giveBack _ value) c rfl).grows
  | .start .., c => (stmt_keeps _ c rfl).grows
  | .expression .., c => (stmt_keeps _ c rfl).grows

theorem stmts_grows : ∀ (ss : List Stmt) (c : Checker), c.Grows (stmts ss c)
  | [], c => (Keeps.refl c).grows
  | s :: ss, c => (stmt_grows s c).trans (stmts_grows ss _)

theorem block_keeps : ∀ (b : BlockOf Stmt) (c : Checker), c.Keeps (block b c)
  | ⟨body, _⟩, _ => keeps_leaveScope (stmts_grows body _)

theorem optional_grows : ∀ (s : Option Stmt) (c : Checker), c.Grows (optional s c)
  | none, c => (Keeps.refl c).grows
  | some s, c => stmt_grows s c

theorem cases_grows (t : Ty) : ∀ (cs : List (CaseOf Stmt)) (c : Checker), c.Grows (cases t cs c)
  | [], c => (Keeps.refl c).grows
  | k :: cs, c => (case_grows t k c).trans (cases_grows t cs _)

theorem case_grows (t : Ty) : ∀ (k : CaseOf Stmt) (c : Checker), c.Grows (case t k c)
  | ⟨_, body, _⟩, _ => keeps_observe.grows.trans (stmts_grows body _)

theorem default_grows : ∀ (d : Option (List Stmt)) (c : Checker), c.Grows (default d c)
  | none, c => (Keeps.refl c).grows
  | some body, c => stmts_grows body c

end

end Checker

end Primer
