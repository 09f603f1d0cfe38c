import Primer.Proofs.CheckerBalance
import Primer.Proofs.PlainJudgements
import Primer.Proofs.Prelude

/-!
# What a check counts

The `start` statements are counted, and a `return` with a value is noted, while statements are
walked through. The walk meets every statement that stands outside nested functions once
(`Checker.stmt_tallies`), so the counts are those of the text, and what is reported on their account
can be read off it (`Program.counts_reported`).
-/

namespace Primer

/-! ## Statements of the text -/

mutual

/-- A statement and those that stand inside it, but not in a function it declares. -/
def Stmt.spread : Stmt → List Stmt
  | .block b => .block b :: spreadBlock b
  | .branch span test body otherwise =>
    .branch span test body otherwise :: (spreadBlock body ++ spreadOptional otherwise)
  | .switch span scrutinee cases fallback =>
    .switch span scrutinee cases fallback :: (spreadCases cases ++ spreadDefault fallback)
  | .whileLoop span test body => .whileLoop span test body :: spreadBlock body
  | .doLoop span body test => .doLoop span body test :: spreadBlock body
  | .forLoop span first test next body =>
    .forLoop span first test next body ::
      (spreadOptional first ++ spreadOptional next ++ spreadBlock body)
  | .declare span name ty value => [.declare span name ty value]
  | .assign span name value => [.assign span name value]
  | .assignIndex span target index column value => [.assignIndex span target index column value]
  | .step span target up => [.step span target up]
  | .breakOut span => [.breakOut span]
  | .continueOn span => [.continueOn span]
  | .print span value => [.print span value]
  | .function f => [.function f]
  | .giveBack span value => [.giveBack span value]
  | .start span name arguments => [.start span name arguments]
  | .expression span value => [.expression span value]

def spreadStmts : List Stmt → List Stmt
  | [] => []
  | s :: rest => s.spread ++ spreadStmts rest

def spreadBlock : BlockOf Stmt → List Stmt
  | ⟨body, _⟩ => spreadStmts body

def spreadOptional : Option Stmt → List Stmt
  | none => []
  | some s => s.spread

def spreadCases : List (CaseOf Stmt) → List Stmt
  | [] => []
  | c :: rest => spreadCase c ++ spreadCases rest

def spreadCase : CaseOf Stmt → List Stmt
  | ⟨_, body, _⟩ => spreadStmts body

def spreadDefault : Option (List Stmt) → List Stmt
  | none => []
  | some body => spreadStmts body

end

theorem spreadBlock_eq (b : BlockOf Stmt) : spreadBlock b = spreadStmts b.body := by
  cases b
  rfl

theorem spreadStmts_append : ∀ ss ss' : List Stmt,
    spreadStmts (ss ++ ss') = spreadStmts ss ++ spreadStmts ss'
  | [], _ => rfl
  | s :: ss, ss' => by
    simp only [List.cons_append, spreadStmts, spreadStmts_append ss ss', List.append_assoc]

def Stmt.isStart : Stmt → Bool
  | .start .. => true
  | _ => false

/-- Whether a statement is a `return` with a value. -/
def Stmt.givesValue : Stmt → Bool
  | .giveBack _ (some _) => true
  | _ => false

/-- Whether a function owes a value and its body has no `return` with one. -/
def FunctionOf.lacksReturn (f : Function) : Bool :=
  !f.isProcedure && !(spreadBlock f.body).any Stmt.givesValue

/-- The complaint about a function without a `return` with a value. -/
def FunctionOf.complaint (f : Function) : Diagnostic := ⟨.missingReturn f.name, f.span.start⟩

/-- The number of `start` statements at top level and in the functions declared there, those in
functions nested deeper apart. -/
def Program.starts (p : Program) : Nat :=
  (spreadStmts p.body ++ p.functions.flatMap (spreadBlock ·.body)).countP Stmt.isStart

/-! ## The walk -/

namespace Checker

/-- The complaints that come of counting. -/
def counted (c : Checker) : List Diagnostic := c.report.toList.filter (·.fault.counts)

/-- A walk from one state to another meets some statements, once each. -/
structure Tallies (c c' : Checker) (ss : List Stmt) : Prop where
  entries : c'.entries = c.entries + ss.countP Stmt.isStart
  found : c'.returnFound =
    (c.returnFound || (c.current.any (!·.isProcedure) && ss.any Stmt.givesValue))
  current : c'.current = c.current
  counted : c'.counted = c.counted

section Rules

variable {α : Type} {c c' c'' : Checker} {ss ss' : List Stmt}

theorem Tallies.refl (c : Checker) : c.Tallies c [] where
  entries := rfl
  found := by simp
  current := rfl
  counted := rfl

theorem Tallies.trans (h : c.Tallies c' ss) (h' : c'.Tallies c'' ss') :
    c.Tallies c'' (ss ++ ss') where
  entries := by rw [h'.entries, h.entries, List.countP_append, Nat.add_assoc]
  found := by
    rw [h'.found, h.found, h.current, List.any_append, Bool.and_or_distrib_left, Bool.or_assoc]
  current := h'.current.trans h.current
  counted := h'.counted.trans h.counted

theorem Tallies.andThen (h : c.Tallies c' ss) (h' : c'.Tallies c'' []) : c.Tallies c'' ss :=
  List.append_nil ss ▸ h.trans h'

theorem Tallies.labelled {label : String} (h : (c.enterLabelled label).Tallies c' ss) :
    c.Tallies c'.leaveLabelled ss := ⟨h.entries, h.found, h.current, h.counted⟩

/-- A statement that is not counted is met before those inside it. -/
theorem Tallies.under {s : Stmt} (h : c.Tallies c' ss) (hs : s.isStart = false)
    (hv : s.givesValue = false) : c.Tallies c' (s :: ss) where
  entries := by rw [h.entries, List.countP_cons_of_neg (by simp [hs])]
  found := by rw [h.found, List.any_cons, hv, Bool.false_or]
  current := h.current
  counted := h.counted

theorem counted_note {fault : Fault} (p : Position) (h : fault.counts = true) :
    (c.note fault p).counted = c.counted ++ [⟨fault, p⟩] := by
  simp [Checker.counted, note, Report.push, Report.toList, h]

theorem counted_observe {j : Judged α} (h : j.Plain) : (c.observe j).counted = c.counted := by
  have hnotes : j.notes.filter (·.fault.counts) = [] :=
    List.filter_eq_nil_iff.2 fun d hd => by simp [h.notes d hd]
  simp [Checker.counted, observe, judge, Report.append, Report.toList, hnotes]

theorem tallies_observe {j : Judged α} (h : j.Plain) : c.Tallies (c.observe j) [] where
  entries := rfl
  found := by simp [observe, judge]
  current := rfl
  counted := counted_observe h

theorem tallies_note {fault : Fault} {p : Position} (h : fault.counts = false) :
    c.Tallies (c.note fault p) [] where
  entries := rfl
  found := by simp [note]
  current := rfl
  counted := by simp [Checker.counted, note, Report.push, Report.toList, h]

theorem tallies_declare {name : String} {ty : Ty} {category : Category} {p : Position} :
    c.Tallies (c.declare name ty category p) [] := by
  cases h : c.scopes.declaredHere name
  · rw [declare_of_free h]
    exact ⟨rfl, by simp, rfl, rfl⟩
  · rw [declare_of_taken h]
    exact tallies_note rfl

theorem tallies_goesOn : ∀ test : Option Expr, c.Tallies (c.goesOn test) []
  | none => .refl c
  | some _ => tallies_observe condition_plain

/-- A `return` with a value counts where a value is owed. -/
theorem tallies_returned (span : Span) (value : Option Expr) {received : Option Ty}
    (h : received.isSome = value.isSome) (p : Position) :
    c.Tallies (c.returned received p) [.giveBack span value] := by
  have hnote : ∀ {fault : Fault}, fault.counts = false →
      (c.current.any (!·.isProcedure) && value.isSome) = false →
        c.Tallies (c.note fault p) [.giveBack span value] := fun hf hv => by
    have hn := tallies_note (c := c) (p := p) hf
    refine ⟨rfl, ?_, rfl, hn.counted⟩
    cases value <;> simp_all [Stmt.givesValue, note]
  simp only [returned]
  split
  · exact hnote rfl (by simp [*])
  · rename_i f t hc
    have hv : value.isSome = true := h.symm
    obtain ⟨e, rfl⟩ := Option.isSome_iff_exists.1 hv
    by_cases hp : f.isProcedure = true
    · rw [if_pos hp]
      exact hnote rfl (by simp [hc, hp])
    · rw [if_neg hp]
      have hfound : c.Tallies { c with returnFound := true } [.giveBack span (some e)] :=
        ⟨rfl, by simp [hc, hp, Stmt.givesValue], rfl, rfl⟩
      split
      · exact hfound
      · exact hfound.andThen (tallies_note rfl)
  · have hv : value.isSome = false := h.symm
    split
    · exact ⟨rfl, by cases value <;> simp_all [Stmt.givesValue], rfl, rfl⟩
    · exact hnote rfl (by simp [hv])

end Rules

mutual

/-- Checking a statement meets the statements that stand in it, once each. -/
theorem stmt_tallies : ∀ (s : Stmt) (c : Checker), c.Tallies (stmt s c) s.spread
  | .declare _ _ _ none, _ => tallies_declare.under rfl rfl
  | .declare _ _ _ (some e), c =>
    ((tallies_observe initial_plain).trans tallies_declare).under rfl rfl
  | .assign .., c => (tallies_observe assignment_plain).under rfl rfl
  | .assignIndex .., c => (tallies_observe indexAssignment_plain).under rfl rfl
  | .step .., c => (tallies_observe stepTarget_plain).under rfl rfl
  | .block b, c => (block_tallies b c).under rfl rfl
  | .branch _ test body otherwise, c =>
    ((tallies_observe condition_plain).trans
      ((block_tallies body _).trans (optional_tallies otherwise _))).under rfl rfl
  | .switch _ e cs d, c =>
    ((tallies_observe (c.infer_plain e)).trans
      ((cases_tallies _ cs _).trans (default_tallies d _)).labelled).under rfl rfl
  | .whileLoop _ test body, c =>
    ((tallies_observe condition_plain).trans (block_tallies body _)).labelled.under rfl rfl
  | .doLoop _ body test, c =>
    ((block_tallies body _).andThen (tallies_observe condition_plain)).labelled.under rfl rfl
  | .forLoop _ first test next body, c =>
    ((((optional_tallies first _).andThen (tallies_goesOn test)).trans
      (optional_tallies next _)).trans (block_tallies body _)).labelled.under rfl rfl
  | .breakOut _, c | .continueOn _, c => (Tallies.refl c).under rfl rfl
  | .print .., c => (tallies_observe (c.infer_plain _)).under rfl rfl
  | .function f, c => by
    refine Tallies.under ?_ rfl rfl
    simp only [stmt]
    split
    · exact .refl c
    · exact tallies_note rfl
  | .giveBack span none, c => tallies_returned span none rfl _
  | .giveBack span (some e), c =>
    (tallies_observe (c.infer_plain e)).trans (tallies_returned span (some e) rfl _)
  | .start span name arguments, c => by
    have h : c.Tallies { c with entries := c.entries + 1 } [.start span name arguments] :=
      ⟨rfl, by simp [Stmt.givesValue], rfl, rfl⟩
    exact h.andThen (tallies_observe inferCall_plain)
  | .expression .., c => (tallies_observe (c.infer_plain _)).under rfl rfl

theorem stmts_tallies : ∀ (ss : List Stmt) (c : Checker), c.Tallies (stmts ss c) (spreadStmts ss)
  | [], c => .refl c
  | s :: ss, c => (stmt_tallies s c).trans (stmts_tallies ss _)

theorem block_tallies : ∀ (b : BlockOf Stmt) (c : Checker), c.Tallies (block b c) (spreadBlock b)
  | ⟨body, _⟩, c =>
    have h := stmts_tallies body c.enterScope
    ⟨h.entries, h.found, h.current, h.counted⟩

theorem optional_tallies : ∀ (s : Option Stmt) (c : Checker),
    c.Tallies (optional s c) (spreadOptional s)
  | none, c => .refl c
  | some s, c => stmt_tallies s c

theorem cases_tallies (t : Ty) : ∀ (cs : List (CaseOf Stmt)) (c : Checker),
    c.Tallies (cases t cs c) (spreadCases cs)
  | [], c => .refl c
  | k :: cs, c => (case_tallies t k c).trans (cases_tallies t cs _)

theorem case_tallies (t : Ty) : ∀ (k : CaseOf Stmt) (c : Checker),
    c.Tallies (case t k c) (spreadCase k)
  | ⟨_, body, _⟩, _ => (tallies_observe caseValue_plain).trans (stmts_tallies body _)

theorem default_tallies : ∀ (d : Option (List Stmt)) (c : Checker),
    c.Tallies (default d c) (spreadDefault d)
  | none, c => .refl c
  | some body, c => stmts_tallies body c

end

/-! ## Functions and programs -/

variable {c : Checker}

theorem parameters_tallies (f : Function) : ∀ (qs : List Parameter) (c : Checker),
    c.Tallies (qs.foldl (parameter f) c) []
  | [], c => .refl c
  | q :: qs, c => by
    have hq : c.Tallies (parameter f c q) [] := by
      unfold parameter
      split
      · exact tallies_note rfl
      · exact tallies_declare
    exact hq.trans (parameters_tallies f qs _)

/-- Checking bodies, from one state to another, meets their statements once each and complains about
every function that lacks a `return` with a value. -/
structure TalliesBodies (c c' : Checker) (fs : List Function) : Prop where
  entries : c'.entries = c.entries + (fs.flatMap (spreadBlock ·.body)).countP Stmt.isStart
  counted : c'.counted =
    c.counted ++ (fs.filter FunctionOf.lacksReturn).map FunctionOf.complaint

theorem function_tallies (f : Function) : c.TalliesBodies (c.function f) [f] := by
  have h := (parameters_tallies f f.parameters
    { c.enterLabelled (Label.ofFunction f.name) with
      current := some f, returnFound := false }).trans
      (stmts_tallies f.body.body (c.enterFunction f))
  rw [List.nil_append, ← spreadBlock_eq] at h
  have hlacks : (f.isProcedure || (stmts f.body.body (c.enterFunction f)).returnFound) =
      !f.lacksReturn := by
    rw [h.found]
    cases hp : f.isProcedure <;> simp [FunctionOf.lacksReturn, hp]
  simp only [function, hlacks]
  have hentries : (stmts f.body.body (c.enterFunction f)).entries =
      c.entries + ([f].flatMap (spreadBlock ·.body)).countP Stmt.isStart := by
    rw [h.entries, List.flatMap_singleton]
    rfl
  have hcounted : (stmts f.body.body (c.enterFunction f)).counted = c.counted := h.counted
  cases hf : f.lacksReturn
  · exact ⟨hentries, hcounted.trans (by simp [hf])⟩
  · refine ⟨hentries, ?_⟩
    rw [List.filter_cons_of_pos hf, List.filter_nil, ← hcounted]
    exact counted_note _ rfl

theorem functions_tallies : ∀ (fs : List Function) (c : Checker),
    c.TalliesBodies (fs.foldl function c) fs
  | [], c => ⟨rfl, by simp⟩
  | f :: fs, c => by
    have hf := function_tallies (c := c) f
    have hfs := functions_tallies fs (c.function f)
    refine ⟨?_, ?_⟩
    · rw [List.foldl_cons, hfs.entries, hf.entries]
      simp [List.countP_append, Nat.add_assoc]
    · rw [List.foldl_cons, hfs.counted, hf.counted, List.append_assoc, ← List.map_append,
        ← List.filter_append]
      rfl

theorem registers_tallies : ∀ (fs : List Function) (c : Checker),
    c.Tallies (fs.foldl register c) []
  | [], c => .refl c
  | f :: fs, c => by
    have hf : c.Tallies (c.register f) [] := by
      unfold register
      split
      · exact tallies_note rfl
      · split
        · exact tallies_note rfl
        · exact ⟨rfl, by simp, rfl, rfl⟩
    exact hf.trans (registers_tallies fs _)

theorem entryPoint_counted (n : Nat) : (c.entryPoint n).counted = c.counted ++
    if c.entries = 0 then if n = 0 then [] else [⟨.missingEntryPoint, .whole⟩]
    else if c.entries = 1 then [] else [⟨.multipleEntryPoints c.entries, .whole⟩] := by
  unfold entryPoint
  split
  · split
    · simp [*]
    · exact counted_note _ rfl
  · rename_i he
    simp [he]
  · rename_i h0 h1
    rw [if_neg h0, if_neg h1]
    exact counted_note _ rfl

end Checker

namespace Program

variable (p : Program)

theorem checked_entries : p.checked.entries = p.starts := by
  have h := Checker.registers_tallies p.functions {}
  have ho := Checker.stmts_tallies p.opening (p.functions.foldl Checker.register {})
  have hf := Checker.functions_tallies p.functions p.prelude
  have hr := Checker.stmts_tallies p.remainder (p.functions.foldl Checker.function p.prelude)
  have hbody : (spreadStmts p.body).countP Stmt.isStart =
      (spreadStmts p.opening).countP Stmt.isStart +
        (spreadStmts p.remainder).countP Stmt.isStart := by
    rw [← List.countP_append, ← spreadStmts_append, ← p.body_eq]
  rw [checked, hr.entries, hf.entries, prelude, ho.entries, h.entries, starts, List.countP_append,
    hbody]
  simp
  omega

theorem checked_counted :
    p.checked.counted = (p.functions.filter FunctionOf.lacksReturn).map FunctionOf.complaint := by
  have h := Checker.registers_tallies p.functions {}
  have ho := Checker.stmts_tallies p.opening (p.functions.foldl Checker.register {})
  have hf := Checker.functions_tallies p.functions p.prelude
  have hr := Checker.stmts_tallies p.remainder (p.functions.foldl Checker.function p.prelude)
  rw [checked, hr.counted, hf.counted, prelude, ho.counted, h.counted]
  rfl

/-- The complaint about the number of `start` statements, if there is one. -/
def entryComplaint : List Diagnostic :=
  if p.starts = 0 then if p.functions.length = 0 then [] else [⟨.missingEntryPoint, .whole⟩]
  else if p.starts = 1 then [] else [⟨.multipleEntryPoints p.starts, .whole⟩]

/-- A check looks at all statements and at the body of every function once. What it reports on
account of counting is one complaint for each function that owes a value and has no `return` with
one, and the complaint about the number of `start` statements, both as they stand in the text. -/
theorem counts_reported :
    (∃ before after, p.body = before ++ after ∧
      let c := (Checker.stmts after (p.functions.foldl Checker.function (Checker.stmts before
        (p.functions.foldl Checker.register {})))).entryPoint p.functions.length
      p.analyze = ⟨c.listing, c.report⟩) ∧
    p.analyze.report.toList.filter (·.fault.counts) =
      (p.functions.filter FunctionOf.lacksReturn).map FunctionOf.complaint ++
        p.entryComplaint := by
  refine ⟨⟨p.opening, p.remainder, p.body_eq, p.analyze_eq⟩, ?_⟩
  rw [analyze_eq]
  change (p.checked.entryPoint p.functions.length).counted = _
  rw [Checker.entryPoint_counted, p.checked_counted, p.checked_entries, entryComplaint]

end Program

end Primer
