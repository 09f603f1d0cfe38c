import Primer.Proofs.CheckerBalance
import Primer.Proofs.Inference

/-!
# What a check walks through

The checks that checking a program makes, as relations: the statement lists it checks with the
state it checks them in (`Walks`), the function bodies it opens (`Opens`), and the expressions it
infers with the names it infers them under (`Infers`, `InfersFor`). If checking a program reports
nothing, none of these reports anything, and where a function can be called the bodies of all
functions have been checked, under names that are still visible (`Callable`).
-/

namespace Primer

/-! ## Statements inside statements -/

mutual

/-- Whether a statement and all statements inside it have a property. -/
def Stmt.everywhere (P : Stmt → Bool) : Stmt → Bool
  | .block b => P (.block b) && blockEverywhere P b
  | .branch span test body otherwise =>
    P (.branch span test body otherwise) && blockEverywhere P body &&
      optionalEverywhere P otherwise
  | .switch span e cs d =>
    P (.switch span e cs d) && casesEverywhere P cs && defaultEverywhere P d
  | .whileLoop span test body => P (.whileLoop span test body) && blockEverywhere P body
  | .doLoop span body test => P (.doLoop span body test) && blockEverywhere P body
  | .forLoop span first test next body =>
    P (.forLoop span first test next body) && optionalEverywhere P first &&
      optionalEverywhere P next && blockEverywhere P body
  | .function f => P (.function f) && functionEverywhere P f
  | .declare span name ty value => P (.declare span name ty value)
  | .assign span name value => P (.assign span name value)
  | .assignIndex span target index column value => P (.assignIndex span target index column value)
  | .step span target up => P (.step span target up)
  | .breakOut span => P (.breakOut span)
  | .continueOn span => P (.continueOn span)
  | .print span value => P (.print span value)
  | .giveBack span value => P (.giveBack span value)
  | .start span name arguments => P (.start span name arguments)
  | .expression span value => P (.expression span value)

def stmtsEverywhere (P : Stmt → Bool) : List Stmt → Bool
  | [] => true
  | s :: ss => s.everywhere P && stmtsEverywhere P ss

def blockEverywhere (P : Stmt → Bool) : BlockOf Stmt → Bool
  | ⟨body, _⟩ => stmtsEverywhere P body

def optionalEverywhere (P : Stmt → Bool) : Option Stmt → Bool
  | none => true
  | some s => s.everywhere P

def casesEverywhere (P : Stmt → Bool) : List (CaseOf Stmt) → Bool
  | [] => true
  | k :: cs => caseEverywhere P k && casesEverywhere P cs

def caseEverywhere (P : Stmt → Bool) : CaseOf Stmt → Bool
  | ⟨_, body, _⟩ => stmtsEverywhere P body

def defaultEverywhere (P : Stmt → Bool) : Option (List Stmt) → Bool
  | none => true
  | some body => stmtsEverywhere P body

def functionEverywhere (P : Stmt → Bool) : FunctionOf Stmt → Bool
  | ⟨_, _, _, body, _⟩ => blockEverywhere P body

end

/-- Whether all statements of a program have a property. -/
def Program.everywhere (P : Stmt → Bool) (p : Program) : Bool := stmtsEverywhere P p.body

/-- Whether no case or default of a switch declares a name in the scope of the switch. -/
def Stmt.declaresInNoCase : Stmt → Bool
  | .switch _ _ cs d =>
    cs.all (·.body.all fun s => !s.declares) && (d.getD []).all fun s => !s.declares
  | _ => true

/-- Whether a `start` does not name a built-in function. -/
def Stmt.startsNoBuiltin : Stmt → Bool
  | .start _ name _ => (Builtin.ofName? name).isNone
  | _ => true

/-- The statements directly inside a statement. -/
def Stmt.inner : Stmt → List Stmt
  | .block b => b.body
  | .branch _ _ body otherwise => body.body ++ otherwise.toList
  | .switch _ _ cs d => cs.flatMap (·.body) ++ d.getD []
  | .whileLoop _ _ body => body.body
  | .doLoop _ body _ => body.body
  | .forLoop _ first _ next body => first.toList ++ next.toList ++ body.body
  | .function f => f.body.body
  | _ => []

/-- What stands inside a statement the grammar lets through is let through as well. -/
theorem Stmt.Proper.inner {s : Stmt} (h : s.Proper) : ∀ s' ∈ s.inner, s'.Proper := by
  cases h with
  | @switch _ _ _ d h h' =>
    intro s hs
    rcases List.mem_append.1 hs with hs | hs
    · obtain ⟨k, hk, hs⟩ := List.mem_flatMap.1 hs
      exact h k hk s hs
    · cases d with
      | none => cases hs
      | some body => exact h' body rfl s hs
  | _ =>
    simp only [Stmt.inner, List.mem_append, List.not_mem_nil]
    grind

/-- An alternative has a scope of its own. -/
theorem Stmt.Proper.declares_alternative {s : Stmt} (h : s.Proper)
    (ha : s.isAlternative = true) : s.declares = false := by
  induction h with
  | @branch _ _ _ otherwise _ halt _ _ ih =>
    cases otherwise with
    | none => rfl
    | some s => exact ih s rfl (halt s rfl)
  | block => rfl
  | _ => cases ha

section Everywhere

variable {P : Stmt → Bool}

theorem stmtsEverywhere_iff : ∀ {ss : List Stmt},
    stmtsEverywhere P ss = true ↔ ∀ s ∈ ss, s.everywhere P = true
  | [] => by simp [stmtsEverywhere]
  | s :: ss => by simp [stmtsEverywhere, stmtsEverywhere_iff]

theorem blockEverywhere_iff {b : BlockOf Stmt} :
    blockEverywhere P b = true ↔ ∀ s ∈ b.body, s.everywhere P = true := by
  cases b
  simp [blockEverywhere, stmtsEverywhere_iff]

theorem casesEverywhere_iff : ∀ {cs : List (CaseOf Stmt)},
    casesEverywhere P cs = true ↔ ∀ k ∈ cs, ∀ s ∈ k.body, s.everywhere P = true
  | [] => by simp [casesEverywhere]
  | ⟨_, body, _⟩ :: cs => by
    simp [casesEverywhere, caseEverywhere, stmtsEverywhere_iff, casesEverywhere_iff]

theorem optionalEverywhere_iff : ∀ {s : Option Stmt},
    optionalEverywhere P s = true ↔ ∀ s' ∈ s.toList, s'.everywhere P = true
  | none => by simp [optionalEverywhere]
  | some s => by simp [optionalEverywhere]

theorem defaultEverywhere_iff : ∀ {d : Option (List Stmt)},
    defaultEverywhere P d = true ↔ ∀ s ∈ d.getD [], s.everywhere P = true
  | none => by simp [defaultEverywhere]
  | some body => by simp [defaultEverywhere, stmtsEverywhere_iff]

theorem functionEverywhere_iff {f : FunctionOf Stmt} :
    functionEverywhere P f = true ↔ ∀ s ∈ f.body.body, s.everywhere P = true := by
  cases f
  simp [functionEverywhere, blockEverywhere_iff]

theorem Stmt.everywhere_iff {s : Stmt} :
    s.everywhere P = true ↔ P s = true ∧ ∀ s' ∈ s.inner, s'.everywhere P = true := by
  cases s <;> simp only [everywhere, inner, Bool.and_eq_true, blockEverywhere_iff,
    functionEverywhere_iff, casesEverywhere_iff, optionalEverywhere_iff, defaultEverywhere_iff,
    List.mem_append, List.mem_flatMap, List.not_mem_nil] <;> grind

end Everywhere

/-! ## What a check visits -/

namespace Checker

/-- The bodies of cases, with the states they are checked in. -/
def caseBodies (t : Ty) : List (CaseOf Stmt) → Checker → List (List Stmt × Checker)
  | [], _ => []
  | k :: cs, c => (k.body, c.observe (caseValue c.toNames t k.value)) ::
    caseBodies t cs (case t k c)

/-- The values of cases, with the names they are inferred under. -/
def caseValues (t : Ty) : List (CaseOf Stmt) → Checker → List (Names × Expr)
  | [], _ => []
  | k :: cs, c => (c.toNames, k.value) :: caseValues t cs (case t k c)

/-- The statements directly inside a statement, with the states they are checked in. -/
def bodies (c : Checker) : Stmt → List (List Stmt × Checker)
  | .block b => [(b.body, c.enterScope)]
  | .branch _ test body otherwise =>
    let c := c.observe (condition c.toNames test "if")
    [(body.body, c.enterScope), (otherwise.toList, block body c)]
  | .switch _ scrutinee cs d =>
    let (t, c) := c.judge (c.infer scrutinee)
    let c := c.enterLabelled (Label.ofSwitch scrutinee)
    (d.getD [], cases t cs c) :: caseBodies t cs c
  | .whileLoop _ test body =>
    let c := c.enterLabelled (Label.ofWhile test)
    [(body.body, (c.observe (condition c.toNames test "while")).enterScope)]
  | .doLoop _ body test => [(body.body, (c.enterLabelled (Label.ofDo test)).enterScope)]
  | .forLoop _ first test next body =>
    let c := c.enterLabelled (Label.ofFor test)
    let c' := (optional first c).goesOn test
    [(first.toList, c), (next.toList, c'), (body.body, (optional next c').enterScope)]
  | _ => []

/-- The expressions of a statement that stand for a slot, with the types of the slots. -/
def slots (c : Checker) : Stmt → List (Expr × Ty)
  | .declare _ _ ty (some e) => [(e, ty)]
  | .assign span name e => [(e, (c.lookup name span.start).value)]
  | _ => []

/-- The other expressions of a statement, with the names they are inferred under. -/
def roots (c : Checker) : Stmt → List (Names × Expr)
  | .assignIndex _ target index column value =>
    (target :: index :: value :: column.toList).map (c.toNames, ·)
  | .step _ target _ => [(c.toNames, target)]
  | .branch _ test _ _ => [(c.toNames, test)]
  | .switch _ scrutinee cs _ =>
    let (t, c') := c.judge (c.infer scrutinee)
    (c.toNames, scrutinee) :: caseValues t cs (c'.enterLabelled (Label.ofSwitch scrutinee))
  | .whileLoop _ test _ => [((c.enterLabelled (Label.ofWhile test)).toNames, test)]
  | .doLoop _ body test => [((block body (c.enterLabelled (Label.ofDo test))).toNames, test)]
  | .forLoop _ first test _ _ =>
    test.toList.map ((optional first (c.enterLabelled (Label.ofFor test))).toNames, ·)
  | .print _ value => [(c.toNames, value)]
  | .giveBack _ value => value.toList.map (c.toNames, ·)
  | .start _ _ arguments => arguments.map (c.toNames, ·)
  | .expression _ value => [(c.toNames, value)]
  | _ => []

/-- The state in which a top-level statement is checked. -/
def before (c : Checker) (pending : List Function) (s : Stmt) : Checker :=
  if s.callsFunction then pending.foldl function c else c

/-- The functions that are not checked yet after a top-level statement. -/
def remaining (pending : List Function) (s : Stmt) : List Function :=
  if s.callsFunction then [] else pending

theorem topLevel_cons (pending : List Function) (s : Stmt) (rest : List Stmt) (c : Checker) :
    topLevel pending (s :: rest) c =
      topLevel (remaining pending s) rest (stmt s (c.before pending s)) := by
  simp only [topLevel, remaining, before]
  split <;> rfl

/-! ## What is visible, and what has been reported, on the way -/

/-- What was visible globally still is, and nothing that was reported is gone. -/
structure Follows (c c' : Checker) : Prop where
  functions : c'.functions = c.functions
  globals : c.scopes.globals.Within c'.scopes.globals
  current : c'.current = c.current
  silent : c'.Silent → c.Silent

section Follows

variable {α : Type} {c c' c'' : Checker}

theorem Follows.trans (h : c.Follows c') (h' : c'.Follows c'') : c.Follows c'' :=
  ⟨h'.functions.trans h.functions, fun k d hd => h'.globals k d (h.globals k d hd),
    h'.current.trans h.current, fun hs => h.silent (h'.silent hs)⟩

theorem Grows.follows (h : c.Grows c') : c.Follows c' :=
  ⟨h.functions, h.globals, h.current, h.silent⟩

theorem Keeps.follows (h : c.Keeps c') : c.Follows c' := h.grows.follows

theorem follows_refl : c.Follows c := (Keeps.refl c).follows

theorem follows_enterScope : c.Follows c.enterScope := ⟨rfl, fun _ _ h => h, rfl, fun h => h⟩

theorem follows_leaveScope : c.Follows c.leaveScope := ⟨rfl, fun _ _ h => h, rfl, fun h => h⟩

theorem follows_enterLabelled {label : String} : c.Follows (c.enterLabelled label) :=
  ⟨rfl, fun _ _ h => h, rfl, fun h => h⟩

theorem follows_leaveLabelled : c.Follows c.leaveLabelled :=
  ⟨rfl, fun _ _ h => h, rfl, fun h => h⟩

theorem follows_observe {j : Judged α} : c.Follows (c.observe j) := keeps_observe.follows

end Follows

theorem stmts_toList (s : Option Stmt) (c : Checker) : stmts s.toList c = optional s c := by
  cases s <;> rfl

theorem stmts_getD (d : Option (List Stmt)) (c : Checker) :
    stmts (d.getD []) c = default d c := by
  cases d <;> rfl

theorem block_eq (b : BlockOf Stmt) (c : Checker) :
    block b c = (stmts b.body c.enterScope).leaveScope := by
  cases b
  rfl

theorem case_eq (t : Ty) (k : CaseOf Stmt) (c : Checker) :
    case t k c = stmts k.body (c.observe (caseValue c.toNames t k.value)) := by
  cases k
  rfl

/-- What holds from a state to those that a check goes through behind it, if the statements checked
on the way have a property. -/
structure Along (P : Stmt → Prop) (R : Checker → Checker → Prop) : Prop where
  refl : ∀ {c}, R c c
  trans : ∀ {c c' c''}, R c c' → R c' c'' → R c c''
  observe : ∀ {α : Type} {c} {j : Judged α}, R c (c.observe j)
  enterScope : ∀ {c}, R c c.enterScope
  leaveScope : ∀ {c}, R c c.leaveScope
  enterLabelled : ∀ {c label}, R c (c.enterLabelled label)
  stmt : ∀ {s c}, P s → R c (stmt s c)

namespace Along

variable {P : Stmt → Prop} {R : Checker → Checker → Prop} (h : Along P R) {t : Ty}
  {c c' : Checker} {s : Stmt} {N : Names} {e : Expr}
include h

theorem goesOn : ∀ {test : Option Expr}, R c (c.goesOn test)
  | none => h.refl
  | some _ => h.observe

theorem stmts : ∀ {ss : List Stmt} {c : Checker}, (∀ s ∈ ss, P s) → R c (stmts ss c)
  | [], _, _ => h.refl
  | _ :: _, _, hss => h.trans (h.stmt (hss _ List.mem_cons_self))
    (stmts fun s hs => hss s (List.mem_cons_of_mem _ hs))

theorem block {b : BlockOf Stmt} (hb : ∀ s ∈ b.body, P s) : R c (block b c) := by
  rw [block_eq]
  exact h.trans h.enterScope (h.trans (h.stmts hb) h.leaveScope)

theorem optional {s : Option Stmt} (hs : ∀ s' ∈ s.toList, P s') : R c (optional s c) := by
  rw [← stmts_toList]
  exact h.stmts hs

theorem case {k : CaseOf Stmt} (hk : ∀ s ∈ k.body, P s) : R c (case t k c) := by
  rw [case_eq]
  exact h.trans h.observe (h.stmts hk)

theorem cases : ∀ {cs : List (CaseOf Stmt)} {c : Checker}, (∀ k ∈ cs, ∀ s ∈ k.body, P s) →
    R c (cases t cs c)
  | [], _, _ => h.refl
  | _ :: _, _, hcs => h.trans (h.case (hcs _ List.mem_cons_self))
    (cases fun k hk => hcs k (List.mem_cons_of_mem _ hk))

theorem caseBodies {body : List Stmt} : ∀ {cs : List (CaseOf Stmt)} {c : Checker},
    (∀ k ∈ cs, ∀ s ∈ k.body, P s) → (body, c') ∈ caseBodies t cs c → R c c'
  | k :: cs, c, hcs, hb => by
    obtain ⟨hk, hcs⟩ := List.forall_mem_cons.1 hcs
    rcases List.mem_cons.1 hb with hb | hb
    · cases hb
      exact h.observe
    · exact h.trans (h.case hk) (caseBodies hcs hb)

theorem caseValues : ∀ {cs : List (CaseOf Stmt)} {c : Checker},
    (∀ k ∈ cs, ∀ s ∈ k.body, P s) → (N, e) ∈ caseValues t cs c → ∃ c', R c c' ∧ c'.toNames = N
  | k :: cs, c, hcs, hv => by
    obtain ⟨hk, hcs⟩ := List.forall_mem_cons.1 hcs
    rcases List.mem_cons.1 hv with hv | hv
    · cases hv
      exact ⟨c, h.refl, rfl⟩
    · obtain ⟨c', hc, hN⟩ := caseValues hcs hv
      exact ⟨c', h.trans (h.case hk) hc, hN⟩

/-- It holds to where the statements inside a statement are checked. -/
theorem bodies {body : List Stmt} (hs : ∀ s' ∈ s.inner, P s') (hb : (body, c') ∈ c.bodies s) :
    R c c' := by
  cases s <;> simp only [Checker.bodies, List.mem_cons, Prod.mk.injEq, List.not_mem_nil,
    or_false] at hb <;> simp only [Stmt.inner, List.mem_append, List.mem_flatMap] at hs
  case block =>
    obtain ⟨rfl, rfl⟩ := hb
    exact h.enterScope
  case branch =>
    rcases hb with ⟨rfl, rfl⟩ | ⟨rfl, rfl⟩
    · exact h.trans h.observe h.enterScope
    · exact h.trans h.observe (h.block fun s hin => hs s (.inl hin))
  case switch _ scrutinee cs d =>
    have hin : R c ((c.observe (c.infer scrutinee)).enterLabelled (Label.ofSwitch scrutinee)) :=
      h.trans h.observe h.enterLabelled
    have hcs : ∀ k ∈ cs, ∀ s ∈ k.body, P s := fun k hk s hin => hs s (.inl ⟨k, hk, hin⟩)
    rcases hb with ⟨rfl, rfl⟩ | hb
    · exact h.trans hin (h.cases hcs)
    · exact h.trans hin (h.caseBodies hcs hb)
  case whileLoop =>
    obtain ⟨rfl, rfl⟩ := hb
    exact h.trans h.enterLabelled (h.trans h.observe h.enterScope)
  case doLoop =>
    obtain ⟨rfl, rfl⟩ := hb
    exact h.trans h.enterLabelled h.enterScope
  case forLoop _ first test next body =>
    have hfirst : R c ((Checker.optional first (c.enterLabelled (Label.ofFor test))).goesOn test) :=
      h.trans h.enterLabelled (h.trans (h.optional fun s hin => hs s (.inl (.inl hin))) h.goesOn)
    rcases hb with ⟨rfl, rfl⟩ | ⟨rfl, rfl⟩ | ⟨rfl, rfl⟩
    · exact h.enterLabelled
    · exact hfirst
    · exact h.trans hfirst
        (h.trans (h.optional fun s hin => hs s (.inl (.inr hin))) h.enterScope)

/-- It holds to where the expressions of a statement are inferred. -/
theorem roots (hs : ∀ s' ∈ s.inner, P s') (hr : (N, e) ∈ c.roots s) :
    ∃ c', R c c' ∧ c'.toNames = N := by
  cases s <;> simp only [Checker.roots, List.mem_cons, List.mem_map, Prod.mk.injEq,
    List.not_mem_nil, or_false] at hr <;>
    simp only [Stmt.inner, List.mem_append, List.mem_flatMap] at hs
  case switch =>
    rcases hr with ⟨rfl, rfl⟩ | hr
    · exact ⟨c, h.refl, rfl⟩
    · obtain ⟨c', hc, hN⟩ := h.caseValues (fun k hk s hin => hs s (.inl ⟨k, hk, hin⟩)) hr
      exact ⟨c', h.trans (h.trans h.observe h.enterLabelled) hc, hN⟩
  case whileLoop => exact ⟨_, h.enterLabelled, hr.1.symm⟩
  case doLoop => exact ⟨_, h.trans h.enterLabelled (h.block hs), hr.1.symm⟩
  case forLoop =>
    obtain ⟨e', -, rfl, rfl⟩ := hr
    exact ⟨_, h.trans h.enterLabelled (h.optional fun s hin => hs s (.inl (.inl hin))), rfl⟩
  case assignIndex | giveBack | start =>
    obtain ⟨e', -, rfl, rfl⟩ := hr
    exact ⟨c, h.refl, rfl⟩
  all_goals exact ⟨c, h.refl, hr.1.symm⟩

end Along

theorem along_follows : Along (fun _ => True) Follows where
  refl := follows_refl
  trans := Follows.trans
  observe := follows_observe
  enterScope := follows_enterScope
  leaveScope := follows_leaveScope
  enterLabelled := follows_enterLabelled
  stmt _ := (stmt_grows _ _).follows

theorem caseBodies_follows {t : Ty} {body : List Stmt} {c' : Checker} :
    ∀ {cs : List (CaseOf Stmt)} {c : Checker}, (body, c') ∈ caseBodies t cs c →
      (stmts body c').Follows (cases t cs c)
  | k :: cs, c, h => by
    rcases List.mem_cons.1 h with h | h
    · cases h
      rw [← case_eq]
      exact (cases_grows t cs _).follows
    · have hrest := caseBodies_follows h
      exact hrest

/-- What is checked inside a statement is checked between its beginning and its end. -/
theorem bodies_follows {s : Stmt} {c c' : Checker} {body : List Stmt}
    (h : (body, c') ∈ c.bodies s) : c.Follows c' ∧ (stmts body c').Follows (stmt s c) := by
  refine ⟨along_follows.bodies (fun _ _ => trivial) h, ?_⟩
  have hblock : ∀ {b : BlockOf Stmt} {c : Checker},
      (stmts b.body c.enterScope).Follows (block b c) := fun {b c} => by
    rw [block_eq]
    exact follows_leaveScope
  cases s <;> simp only [bodies, List.mem_cons, Prod.mk.injEq, List.not_mem_nil, or_false] at h
  case block b =>
    obtain ⟨rfl, rfl⟩ := h
    exact hblock
  case branch _ test body otherwise =>
    rcases h with ⟨rfl, rfl⟩ | ⟨rfl, rfl⟩
    · exact hblock.trans (optional_grows otherwise _).follows
    · rw [stmts_toList]
      exact follows_refl
  case switch _ e cs d =>
    rcases h with ⟨rfl, rfl⟩ | h
    · rw [stmts_getD]
      exact follows_leaveLabelled
    · exact ((caseBodies_follows h).trans (default_grows d _).follows).trans follows_leaveLabelled
  case whileLoop _ test body =>
    obtain ⟨rfl, rfl⟩ := h
    exact hblock.trans follows_leaveLabelled
  case doLoop _ body test =>
    obtain ⟨rfl, rfl⟩ := h
    exact (hblock.trans follows_observe).trans follows_leaveLabelled
  case forLoop _ first test next body =>
    rcases h with ⟨rfl, rfl⟩ | ⟨rfl, rfl⟩ | ⟨rfl, rfl⟩
    · rw [stmts_toList]
      exact ((keeps_goesOn test).follows.trans ((optional_grows next _).follows.trans
        (block_keeps body _).follows)).trans follows_leaveLabelled
    · rw [stmts_toList]
      exact (block_keeps body _).follows.trans follows_leaveLabelled
    · exact hblock.trans follows_leaveLabelled

theorem stmts_keeps : ∀ {ss : List Stmt} (c : Checker), (∀ s ∈ ss, s.declares = false) →
    c.Keeps (stmts ss c)
  | [], c, _ => .refl c
  | s :: _, c, h => by
    obtain ⟨hs, hss⟩ := List.forall_mem_cons.1 h
    exact (stmt_keeps s c hs).trans (stmts_keeps _ hss)

theorem optional_keeps : ∀ {s : Option Stmt} (c : Checker), (∀ s' ∈ s, s'.isSimple = true) →
    c.Keeps (optional s c)
  | none, c, _ => .refl c
  | some s, c, h => stmt_keeps s c (by
    have hs := h s rfl
    cases s <;> first | rfl | cases hs)

theorem case_keeps {t : Ty} {k : CaseOf Stmt} (c : Checker)
    (h : ∀ s ∈ k.body, s.declares = false) : c.Keeps (case t k c) := by
  rw [case_eq]
  exact keeps_observe.trans (stmts_keeps _ h)

/-- Cases that declare nothing are all checked under the names of the switch. -/
theorem cases_visits {t : Ty} : ∀ {cs : List (CaseOf Stmt)} {c : Checker},
    (∀ k ∈ cs, ∀ s ∈ k.body, s.declares = false) →
    (∀ k ∈ cs, (c.toNames, k.value) ∈ caseValues t cs c ∧
      ∃ c', (k.body, c') ∈ caseBodies t cs c ∧ c'.toNames = c.toNames ∧ c'.current = c.current) ∧
      c.Keeps (cases t cs c)
  | [], c, _ => ⟨by simp, .refl c⟩
  | k :: cs, c, h => by
    obtain ⟨hk, hcs⟩ := List.forall_mem_cons.1 h
    have hcase := case_keeps (t := t) c hk
    obtain ⟨hall, hkeeps⟩ := cases_visits (t := t) (c := case t k c) hcs
    refine ⟨List.forall_mem_cons.2 ⟨⟨List.mem_cons_self, _, List.mem_cons_self, rfl, rfl⟩,
      fun k' hk' => ?_⟩, hcase.trans hkeeps⟩
    obtain ⟨hvalue, c', hb, hN, hcur⟩ := hall k' hk'
    rw [hcase.names] at hvalue hN
    exact ⟨List.mem_cons_of_mem _ hvalue, c', List.mem_cons_of_mem _ hb, hN,
      hcur.trans hcase.current⟩

/-- Every case of a switch is checked in a state that knows the same functions, and the same names
if no case declares one. -/
theorem cases_reached {t : Ty} {cs : List (CaseOf Stmt)} {c : Checker} : ∀ k ∈ cs, ∃ c' : Checker,
    (c'.toNames, k.value) ∈ caseValues t cs c ∧
      (k.body, c'.observe (caseValue c'.toNames t k.value)) ∈ caseBodies t cs c ∧
      c'.functions = c.functions ∧
      ((∀ k ∈ cs, ∀ s ∈ k.body, s.declares = false) → c'.toNames = c.toNames) := by
  induction cs generalizing c with
  | nil => exact fun k hk => absurd hk List.not_mem_nil
  | cons k cs ih =>
    refine List.forall_mem_cons.2
      ⟨⟨c, List.mem_cons_self, List.mem_cons_self, rfl, fun _ => rfl⟩, fun k' hk' => ?_⟩
    obtain ⟨c', hvalue, hbody, hf, hN⟩ := ih (c := case t k c) k' hk'
    refine ⟨c', List.mem_cons_of_mem _ hvalue, List.mem_cons_of_mem _ hbody,
      hf.trans (case_grows t k c).functions, fun hd => ?_⟩
    obtain ⟨hk, hcs⟩ := List.forall_mem_cons.1 hd
    exact (hN hcs).trans (case_keeps c hk).names

theorem caseValues_notes {t : Ty} {N : Names} {e : Expr} :
    ∀ {cs : List (CaseOf Stmt)} {c : Checker}, (N, e) ∈ caseValues t cs c →
      (cases t cs c).Silent → (N.infer e).notes = []
  | k :: cs, c, h, hs => by
    rcases List.mem_cons.1 h with h | h
    · cases h
      have hs := (cases_grows t cs _).silent hs
      rw [case_eq] at hs
      have hs := (silent_observe.1 ((stmts_grows _ _).silent hs)).2
      exact (List.append_eq_nil_iff.1 hs).1
    · exact caseValues_notes h hs

theorem notes_condition {N : Names} {e : Expr} {construct : String}
    (h : (condition N e construct).notes = []) : (N.infer e).notes = [] :=
  (List.append_eq_nil_iff.1 h).1

/-- The expressions of a statement are inferred behind its beginning. -/
theorem roots_follows {s : Stmt} {c : Checker} {N : Names} {e : Expr} (h : (N, e) ∈ c.roots s) :
    ∃ c', c.Follows c' ∧ c'.toNames = N :=
  along_follows.roots (fun _ _ => trivial) h

/-- A statement without a complaint has no expression with one. -/
theorem roots_notes {s : Stmt} {c : Checker} {N : Names} {e : Expr} (h : (N, e) ∈ c.roots s)
    (hs : (stmt s c).Silent) : (N.infer e).notes = [] := by
  cases s <;> simp only [roots, List.mem_cons, List.mem_map, Prod.mk.injEq, List.not_mem_nil,
    or_false] at h <;> simp only [stmt] at hs
  case assignIndex _ target index column value =>
    obtain ⟨e', he, rfl, rfl⟩ := h
    have hj := (silent_observe.1 hs).2
    simp only [indexAssignment, Judged.notes_bind, List.append_eq_nil_iff] at hj
    have hc := List.forall_mem_cons.1 (Names.inferElement_notes hj.2.1)
    rcases he with rfl | rfl | rfl | he
    · exact hj.1
    · exact hc.1
    · exact hj.2.2.1
    · exact hc.2 _ he
  case switch _ scrutinee cs d =>
    have hd := (default_grows d _).silent hs
    rcases h with ⟨rfl, rfl⟩ | h
    · have hj := follows_enterLabelled.silent ((cases_grows _ cs _).silent hd)
      exact (silent_observe.1 hj).2
    · exact caseValues_notes h hd
  case step =>
    obtain ⟨rfl, rfl⟩ := h
    exact (List.append_eq_nil_iff.1 (silent_observe.1 hs).2).1
  case branch _ test body otherwise =>
    obtain ⟨rfl, rfl⟩ := h
    have hj := (block_keeps body _).silent ((optional_grows otherwise _).silent hs)
    exact notes_condition (silent_observe.1 hj).2
  case whileLoop _ test body =>
    obtain ⟨rfl, rfl⟩ := h
    exact notes_condition (silent_observe.1 ((block_keeps body _).silent hs)).2
  case doLoop =>
    obtain ⟨rfl, rfl⟩ := h
    exact notes_condition (silent_observe.1 hs).2
  case forLoop _ first test next body =>
    obtain ⟨e', he, rfl, rfl⟩ := h
    have hj := (optional_grows next _).silent ((block_keeps body _).silent hs)
    cases test with
    | none => simp at he
    | some e =>
      obtain rfl := List.mem_singleton.1 he
      exact notes_condition (silent_observe.1 hj).2
  case giveBack _ value =>
    obtain ⟨e', he, rfl, rfl⟩ := h
    cases value with
    | none => simp at he
    | some e =>
      obtain rfl := List.mem_singleton.1 he
      exact (silent_observe.1 (keeps_returned.silent hs)).2
  case start _ name arguments =>
    obtain ⟨e', he, rfl, rfl⟩ := h
    exact (Names.inferCall_calls (silent_observe.1 hs).2).arguments e' he
  all_goals
    obtain ⟨rfl, rfl⟩ := h
    exact (silent_observe.1 hs).2

theorem slots_notes {s : Stmt} {c : Checker} {e : Expr} {t : Ty} (h : (e, t) ∈ c.slots s)
    (hs : (stmt s c).Silent) : (c.inferFor e t).notes = [] := by
  cases s <;> simp only [slots, List.mem_cons, List.not_mem_nil, or_false] at h
  case declare _ name ty value =>
    cases value with
    | none => simp at h
    | some e =>
      simp only [List.mem_singleton, Prod.mk.injEq] at h
      have hj := (silent_observe.1 (grows_declare.silent hs)).2
      exact h.1 ▸ h.2 ▸ (List.append_eq_nil_iff.1 hj).1
  case assign span name value =>
    cases h
    have hj := (silent_observe.1 hs).2
    simp only [assignment, Judged.notes_bind, List.append_eq_nil_iff] at hj
    have hj := hj.2
    split at hj
    · exact Names.notes_inferFor ‹_› (List.append_eq_nil_iff.1 hj).1
    · exact (List.append_eq_nil_iff.1 hj).1

/-! ## Functions -/

theorem grows_parameter {f : Function} {c : Checker} {q : Parameter} :
    c.Grows (c.parameter f q) := by
  simp only [parameter]
  split
  · exact keeps_note.grows
  · exact grows_declare

theorem grows_parameters {f : Function} : ∀ (qs : List Parameter) (c : Checker),
    c.Grows (qs.foldl (parameter f) c)
  | [], c => (Keeps.refl c).grows
  | _ :: qs, _ => grows_parameter.trans (grows_parameters qs _)

/-- The state before the parameters of a function are declared. -/
theorem enterFunction_eq (c : Checker) (f : Function) : c.enterFunction f =
    f.parameters.foldl (parameter f) (enterLabelled
      { c with current := some f, returnFound := false } (Label.ofFunction f.name)) := rfl

theorem enterFunction_visible (c : Checker) (f : Function) :
    (c.enterFunction f).functions = c.functions ∧
      c.scopes.globals.Within (c.enterFunction f).scopes.globals := by
  rw [enterFunction_eq]
  have h := grows_parameters (f := f) f.parameters (enterLabelled
    { c with current := some f, returnFound := false } (Label.ofFunction f.name))
  exact ⟨h.functions, h.globals⟩

theorem enterFunction_current (c : Checker) (f : Function) :
    (c.enterFunction f).current = some f := by
  rw [enterFunction_eq]
  exact (grows_parameters f.parameters _).current

/-- The check of a function leaves the names as they are, and has no complaint if its end has
none. -/
theorem function_keeps (c : Checker) (f : Function) :
    c.Keeps (c.function f) ∧ ((c.function f).Silent →
      (stmts f.body.body (c.enterFunction f)).Silent) := by
  let c' : Checker := { c with current := some f, returnFound := false }
  let inner := stmts f.body.body (c.enterFunction f)
  let inner' := if f.isProcedure || inner.returnFound then inner
    else inner.note (.missingReturn f.name) f.span.start
  have hi : inner.Keeps inner' := by
    dsimp only [inner']
    split
    · exact .refl inner
    · exact keeps_note
  have hg : (c'.enterLabelled (Label.ofFunction f.name)).Grows inner' :=
    ((grows_parameters f.parameters _).trans (stmts_grows _ _)).trans hi.grows
  have hk := keeps_leaveLabelled hg
  exact ⟨⟨hk.names, rfl, hk.silent⟩, hi.silent⟩

theorem functions_keeps : ∀ (fs : List Function) (c : Checker), c.Keeps (fs.foldl function c)
  | [], c => .refl c
  | f :: fs, c => (function_keeps c f).1.trans (functions_keeps fs _)

theorem registers_scopes : ∀ (fs : List Function) (c : Checker),
    (fs.foldl register c).scopes = c.scopes
  | [], _ => rfl
  | f :: fs, c => by
    refine (registers_scopes fs _).trans ?_
    simp only [register]
    split
    · rfl
    · split <;> rfl

theorem keeps_before (c : Checker) (pending : List Function) (s : Stmt) :
    c.Keeps (c.before pending s) := by
  simp only [before]
  split
  · exact functions_keeps pending c
  · exact .refl c

theorem topLevel_follows : ∀ (ss : List Stmt) (pending : List Function) (c : Checker),
    c.Follows (topLevel pending ss c)
  | [], pending, c => (functions_keeps pending c).follows
  | s :: ss, pending, c => by
    rw [topLevel_cons]
    exact (keeps_before c pending s).follows.trans
      ((stmt_grows s _).follows.trans (topLevel_follows ss _ _))

end Checker

namespace Program

/-- Checking a program comes to a list of top-level statements in a state, with functions that are
not checked yet. -/
inductive Reaches (p : Program) : List Function → List Stmt → Checker → Prop
  | first : Reaches p p.functions p.body (p.functions.foldl Checker.register {})
  | next {pending s rest c} (h : Reaches p pending (s :: rest) c) :
    Reaches p (Checker.remaining pending s) rest (Checker.stmt s (c.before pending s))

/-- Checking a program opens a function in a state: at the end, or before a statement that can run
one. -/
inductive Opens (p : Program) (f : Function) : Checker → Prop
  | mk {before after ss c} (h : Reaches p (before ++ f :: after) ss c)
    (hs : ∀ s ∈ ss.head?, s.callsFunction = true) : Opens p f (before.foldl Checker.function c)

/-- Checking a program checks a list of statements from a state on. -/
inductive Walks (p : Program) : List Stmt → Checker → Prop
  | top {pending s rest c} (h : Reaches p pending (s :: rest) c) : Walks p [s] (c.before pending s)
  | body {f c} (h : Opens p f c) : Walks p f.body.body (c.enterFunction f)
  | next {s ss c} (h : Walks p (s :: ss) c) : Walks p ss (Checker.stmt s c)
  | inside {s ss c body c'} (h : Walks p (s :: ss) c) (hb : (body, c') ∈ c.bodies s) :
    Walks p body c'

/-- Checking a program infers the type of an expression for a slot of a type. -/
inductive InfersFor (p : Program) : Names → Expr → Ty → Prop
  | slot {s ss c e t} (h : Walks p (s :: ss) c) (he : (e, t) ∈ c.slots s) :
    InfersFor p c.toNames e t

/-- Checking a program infers the type of an expression under names. -/
inductive Infers (p : Program) : Names → Expr → Prop
  | slot {N e t} (h : InfersFor p N e t) (he : e.isUntyped = false) : Infers p N e
  | root {s ss c N e} (h : Walks p (s :: ss) c) (he : (N, e) ∈ c.roots s) : Infers p N e
  | part {N e e'} (h : Infers p N e) (he : e' ∈ e.parts) : Infers p N e'

/-- The functions that expressions of a program can name. -/
def table (p : Program) : Frame Function := (p.functions.foldl Checker.register {}).functions

/-- All functions have been opened at top level, under names that are still visible. -/
def Callable (p : Program) (N : Names) : Prop :=
  ∀ f ∈ p.functions, ∃ c, Opens p f c ∧ c.scopes.frames = [] ∧ c.scopes.labels = [] ∧
    c.functions = N.functions ∧ c.scopes.globals.Within N.scopes.globals

section

variable {p : Program} {pending : List Function} {ss : List Stmt} {s : Stmt} {c c' : Checker}
  {f : Function} {N N' : Names} {e : Expr} {t : Ty}

theorem Callable.mono (h : p.Callable N) (hf : N'.functions = N.functions)
    (hg : N.scopes.globals.Within N'.scopes.globals) : p.Callable N' := by
  intro f hin
  obtain ⟨c, hc, hfr, hl, hfs, hw⟩ := h f hin
  exact ⟨c, hc, hfr, hl, hfs.trans hf.symm, fun k d hd => hg k d (hw k d hd)⟩

theorem Callable.follows (h : p.Callable c.toNames) (hc : c.Follows c') : p.Callable c'.toNames :=
  h.mono hc.functions hc.globals

/-- At top level no scope is open. -/
theorem Reaches.atTop (h : p.Reaches pending ss c) :
    c.scopes.frames = [] ∧ c.scopes.labels = [] := by
  induction h with
  | first =>
    rw [Checker.registers_scopes]
    exact ⟨rfl, rfl⟩
  | @next pending s rest c h ih =>
    obtain ⟨added, ha⟩ := (Checker.stmt_grows s (c.before pending s)).scopes
    rw [(Checker.keeps_before c pending s).names] at ha
    rw [ha]
    simp [Scopes.extend, ih]

theorem Opens.atTop (h : p.Opens f c) : c.scopes.frames = [] ∧ c.scopes.labels = [] := by
  obtain ⟨hr, -⟩ := h
  rw [(Checker.functions_keeps _ _).names]
  exact hr.atTop

/-- Where all functions are checked they are opened under the names visible there. -/
theorem Reaches.callable_of_all (h : p.Reaches p.functions ss c)
    (hs : ∀ s ∈ ss.head?, s.callsFunction = true) : p.Callable c.toNames := by
  intro f hf
  obtain ⟨before, after, hsplit⟩ := List.append_of_mem hf
  rw [hsplit] at h
  refine ⟨_, .mk h hs, ?_⟩
  rw [(Checker.functions_keeps before c).names]
  exact ⟨h.atTop.1, h.atTop.2, rfl, fun _ _ hd => hd⟩

/-- Either no function has been checked or all have been. -/
theorem Reaches.opened (h : p.Reaches pending ss c) :
    pending = p.functions ∨ pending = [] ∧ p.Callable c.toNames := by
  induction h with
  | first => exact .inl rfl
  | @next pending s rest c h ih =>
    have hf := (Checker.keeps_before c pending s).follows.trans (Checker.stmt_grows s _).follows
    simp only [Checker.remaining]
    split
    · refine .inr ⟨rfl, ?_⟩
      rcases ih with rfl | ⟨-, ih⟩
      · exact (h.callable_of_all (by simpa)).follows hf
      · exact ih.follows hf
    · exact ih.imp id fun ih => ⟨ih.1, ih.2.follows hf⟩

theorem Reaches.callable (h : p.Reaches pending ss c)
    (hs : ∀ s ∈ ss.head?, s.callsFunction = true) : p.Callable c.toNames := by
  rcases h.opened with rfl | ⟨-, hc⟩
  · exact h.callable_of_all hs
  · exact hc

theorem Opens.callable (h : p.Opens f c) : p.Callable c.toNames := by
  obtain ⟨hr, hs⟩ := h
  exact (hr.callable hs).follows (Checker.functions_keeps _ _).follows

theorem Opens.mem (h : p.Opens f c) : f ∈ p.functions := by
  obtain ⟨hr, -⟩ := h
  rcases hr.opened with h | ⟨h, -⟩
  · exact h ▸ by simp
  · simp at h

/-- Checking a program opens every function. -/
theorem exists_opens (hf : f ∈ p.functions) : ∃ c, p.Opens f c := by
  have hreach : ∀ {pending ss c}, p.Reaches pending ss c →
      ∃ pending c', p.Reaches pending [] c' := by
    intro pending ss
    induction ss generalizing pending with
    | nil => exact fun h => ⟨_, _, h⟩
    | cons s ss ih => exact fun h => ih h.next
  obtain ⟨pending, c, h⟩ := hreach .first
  obtain ⟨c, hc, -⟩ := h.callable (by simp) f hf
  exact ⟨c, hc⟩

/-! ## Statements that are checked -/

theorem bodies_callsFunction {body : List Stmt} (h : (body, c') ∈ c.bodies s)
    (hb : stmtsCallFunction body = true) : s.callsFunction = true := by
  have hblock : ∀ {b : BlockOf Stmt}, stmtsCallFunction b.body = true →
      blockCallsFunction b = true := fun {b} h => by
    cases b
    exact h
  have hoptional : ∀ {s : Option Stmt}, stmtsCallFunction s.toList = true →
      optionalCallsFunction s = true := fun {s} h => by
    cases s <;> simp_all [stmtsCallFunction, optionalCallsFunction]
  have hcases : ∀ {t : Ty} {cs : List (CaseOf Stmt)} {c : Checker},
      (body, c') ∈ Checker.caseBodies t cs c → casesCallFunction cs = true := fun {t cs} => by
    induction cs with
    | nil => simp [Checker.caseBodies]
    | cons k cs ih =>
      intro c h
      simp only [casesCallFunction, Bool.or_eq_true]
      rcases List.mem_cons.1 h with h | h
      · cases h
        obtain ⟨value, body, span⟩ := k
        exact .inl (by simp [caseCallsFunction, show stmtsCallFunction body = true from hb])
      · exact .inr (ih h)
  cases s <;> simp only [Checker.bodies, List.mem_cons, Prod.mk.injEq, List.not_mem_nil,
    or_false] at h <;> simp only [Stmt.callsFunction, Bool.or_eq_true]
  case block => exact hblock (h.1 ▸ hb)
  case branch =>
    rcases h with ⟨rfl, -⟩ | ⟨rfl, -⟩
    · exact .inl (.inr (hblock hb))
    · exact .inr (hoptional hb)
  case switch _ _ cs d =>
    rcases h with ⟨rfl, -⟩ | h
    · refine .inr ?_
      cases d <;> simp_all [stmtsCallFunction, defaultCallsFunction]
    · exact .inl (.inr (hcases h))
  case whileLoop => exact .inr (hblock (h.1 ▸ hb))
  case doLoop => exact .inr (hblock (h.1 ▸ hb))
  case forLoop =>
    rcases h with ⟨rfl, -⟩ | ⟨rfl, -⟩ | ⟨rfl, -⟩
    · exact .inl (.inl (.inl (hoptional hb)))
    · exact .inl (.inr (hoptional hb))
    · exact .inr (hblock hb)

/-- Where statements are checked that can run a function, all functions have been opened. -/
theorem Walks.callable (h : p.Walks ss c) (hs : stmtsCallFunction ss = true) :
    p.Callable c.toNames := by
  induction h with
  | top h =>
    simp only [stmtsCallFunction, Bool.or_false] at hs
    exact (h.callable (by simpa)).follows (Checker.keeps_before ..).follows
  | body h =>
    obtain ⟨hf, hg⟩ := Checker.enterFunction_visible _ _
    exact h.callable.mono hf hg
  | next h ih =>
    exact (ih (by simp [stmtsCallFunction, hs])).follows (Checker.stmt_grows _ _).follows
  | inside h hb ih =>
    refine (ih ?_).follows (Checker.bodies_follows hb).1
    simp [stmtsCallFunction, bodies_callsFunction hb hs]

theorem Reaches.functions (h : p.Reaches pending ss c) : c.functions = p.table := by
  induction h with
  | first => rfl
  | @next pending s rest c h ih =>
    rw [(Checker.stmt_grows s _).functions, (Checker.keeps_before c pending s).names]
    exact ih

/-- All checks know the same functions. -/
theorem Walks.functions (h : p.Walks ss c) : c.functions = p.table := by
  induction h with
  | top h =>
    rw [(Checker.keeps_before _ _ _).names]
    exact h.functions
  | body h =>
    obtain ⟨hr, -⟩ := h
    rw [(Checker.enterFunction_visible _ _).1, (Checker.functions_keeps _ _).names]
    exact hr.functions
  | next h ih => exact (Checker.stmt_grows _ _).functions.trans ih
  | inside h hb ih => exact (Checker.bodies_follows hb).1.functions.trans ih

theorem bodies_inner {body : List Stmt} (h : (body, c') ∈ c.bodies s) :
    ∀ s' ∈ body, s' ∈ s.inner := by
  have hcases : ∀ {t : Ty} {cs : List (CaseOf Stmt)} {c : Checker},
      (body, c') ∈ Checker.caseBodies t cs c → ∃ k ∈ cs, k.body = body := fun {t cs} => by
    induction cs with
    | nil => simp [Checker.caseBodies]
    | cons k cs ih =>
      intro c h
      rcases List.mem_cons.1 h with h | h
      · cases h
        exact ⟨k, List.mem_cons_self, rfl⟩
      · obtain ⟨k, hk, hb⟩ := ih h
        exact ⟨k, List.mem_cons_of_mem _ hk, hb⟩
  cases s <;> simp only [Checker.bodies, List.mem_cons, Prod.mk.injEq, List.not_mem_nil,
    or_false] at h <;> simp only [Stmt.inner, List.mem_append, List.mem_flatMap]
  case switch =>
    rcases h with ⟨rfl, -⟩ | h
    · exact fun s hs => .inr hs
    · obtain ⟨k, hk, rfl⟩ := hcases h
      exact fun s hs => .inl ⟨k, hk, hs⟩
  all_goals grind

/-- What holds of the statements of a program and goes over to the statements inside them holds of
all statements that are checked. -/
theorem Walks.all {P : Stmt → Prop} (hin : ∀ s, P s → ∀ s' ∈ s.inner, P s')
    (hp : ∀ s ∈ p.body, P s) (h : p.Walks ss c) : ∀ s ∈ ss, P s := by
  have hreach : ∀ {pending ss c}, p.Reaches pending ss c → ∀ s ∈ ss, P s := by
    intro pending ss c h
    induction h with
    | first => exact hp
    | next h ih => exact fun s hs => ih s (List.mem_cons_of_mem _ hs)
  induction h with
  | top h => exact fun s hs => hreach h s (by simp_all)
  | body h =>
    obtain ⟨s, hs, hf⟩ := List.mem_filterMap.1 h.mem
    cases s <;> simp only [Stmt.function?, Option.some.injEq, reduceCtorEq] at hf
    subst hf
    exact hin _ (hp _ hs)
  | next h ih => exact fun s hs => ih s (List.mem_cons_of_mem _ hs)
  | inside h hb ih => exact fun s hs => hin _ (ih _ List.mem_cons_self) s (bodies_inner hb s hs)

/-- What holds of all statements of a program holds of those that are checked. -/
theorem Walks.everywhere {P : Stmt → Bool} (hp : p.everywhere P = true) (h : p.Walks ss c) :
    ∀ s ∈ ss, P s = true := fun s hs =>
  (Stmt.everywhere_iff.1 (h.all (fun _ hs => (Stmt.everywhere_iff.1 hs).2)
    (stmtsEverywhere_iff.1 hp) s hs)).1

/-! ## Expressions that are inferred -/

theorem slots_callsFunction (h : (e, t) ∈ c.slots s) (he : e.callsFunction = true) :
    s.callsFunction = true := by
  cases s <;> simp only [Checker.slots, List.mem_cons, List.not_mem_nil, or_false] at h
  case declare _ _ _ value =>
    cases value with
    | none => simp at h
    | some e =>
      simp only [List.mem_singleton, Prod.mk.injEq] at h
      simp [Stmt.callsFunction, ← h.1, he]
  case assign =>
    cases h
    exact he

theorem roots_callsFunction (h : (N, e) ∈ c.roots s) (he : e.callsFunction = true) :
    s.callsFunction = true := by
  have hcases : ∀ {t : Ty} {cs : List (CaseOf Stmt)} {c : Checker},
      (N, e) ∈ Checker.caseValues t cs c → casesCallFunction cs = true := fun {t cs} => by
    induction cs with
    | nil => simp [Checker.caseValues]
    | cons k cs ih =>
      intro c h
      simp only [casesCallFunction, Bool.or_eq_true]
      rcases List.mem_cons.1 h with h | h
      · cases h
        obtain ⟨value, body, span⟩ := k
        exact .inl (by simp [caseCallsFunction, show value.callsFunction = true from he])
      · exact .inr (ih h)
  cases s <;> simp only [Checker.roots, List.mem_cons, List.mem_map, Prod.mk.injEq,
    List.not_mem_nil, or_false, Option.mem_toList] at h <;>
    simp only [Stmt.callsFunction, Bool.or_eq_true, Option.any_eq_true_iff_get]
  case switch =>
    rcases h with ⟨-, rfl⟩ | h
    · exact .inl (.inl he)
    · exact .inl (.inr (hcases h))
  case assignIndex | forLoop | giveBack =>
    obtain ⟨e', h, -, rfl⟩ := h
    grind
  all_goals simp_all

theorem InfersFor.callable (h : p.InfersFor N e t) (he : e.callsFunction = true) :
    p.Callable N := by
  obtain ⟨h, hs⟩ := h
  exact h.callable (by simp [stmtsCallFunction, slots_callsFunction hs he])

/-- Where an expression is inferred that can run a function, all functions have been opened. -/
theorem Infers.callable (h : p.Infers N e) (he : e.callsFunction = true) : p.Callable N := by
  induction h with
  | slot h => exact h.callable he
  | root h hr =>
    obtain ⟨c', hc, rfl⟩ := Checker.roots_follows hr
    exact (h.callable (by simp [stmtsCallFunction, roots_callsFunction hr he])).follows hc
  | part h hp ih => exact ih (Expr.callsFunction_of_parts hp he)

theorem Infers.functions (h : p.Infers N e) : N.functions = p.table := by
  induction h with
  | slot h =>
    obtain ⟨h, -⟩ := h
    exact h.functions
  | root h hr =>
    obtain ⟨c', hc, rfl⟩ := Checker.roots_follows hr
    exact hc.functions.trans h.functions
  | part _ _ ih => exact ih

/-! ## Checks without complaints -/

variable (hp : p.analyze.report.isEmpty = true)
include hp

theorem Reaches.silent (h : p.Reaches pending ss c) :
    (Checker.topLevel pending ss c).Silent := by
  induction h with
  | first =>
    have hentry : ∀ {c : Checker} {n : Nat}, (c.entryPoint n).Silent → c.Silent := by
      intro c n h
      simp only [Checker.entryPoint] at h
      split at h
      · split at h
        · exact h
        · exact absurd h Checker.silent_note
      · exact h
      · exact absurd h Checker.silent_note
    exact hentry hp
  | next h ih => rwa [Checker.topLevel_cons] at ih

theorem Opens.silent (h : p.Opens f c) :
    (Checker.stmts f.body.body (c.enterFunction f)).Silent := by
  obtain ⟨hr, hs⟩ := h
  rename_i before after ss c
  have hall : ((before ++ f :: after).foldl Checker.function c).Silent := by
    have ht := hr.silent hp
    cases ss with
    | nil => exact ht
    | cons s rest =>
      rw [Checker.topLevel_cons, Checker.before, if_pos (by simpa using hs)] at ht
      exact (Checker.stmt_grows s _).silent ((Checker.topLevel_follows _ _ _).silent ht)
  rw [List.foldl_append] at hall
  exact (Checker.function_keeps _ f).2 ((Checker.functions_keeps after _).silent hall)

/-- If checking a program has no complaint, no check of statements on the way has one. -/
theorem Walks.silent (h : p.Walks ss c) : (Checker.stmts ss c).Silent := by
  induction h with
  | top h =>
    have ht := h.silent hp
    rw [Checker.topLevel_cons] at ht
    exact (Checker.topLevel_follows _ _ _).silent ht
  | body h => exact h.silent hp
  | next h ih => exact ih
  | inside h hb ih =>
    exact (Checker.bodies_follows hb).2.silent ((Checker.stmts_grows _ _).silent ih)

theorem Walks.silentHead (h : p.Walks (s :: ss) c) : (Checker.stmt s c).Silent := by
  have hs := h.silent hp
  exact (Checker.stmts_grows ss _).silent hs

theorem InfersFor.silent (h : p.InfersFor N e t) : (N.inferFor e t).notes = [] := by
  obtain ⟨h, hs⟩ := h
  exact Checker.slots_notes hs (h.silentHead hp)

/-- If checking a program has no complaint, no expression brings one. -/
theorem Infers.silent (h : p.Infers N e) : (N.infer e).notes = [] := by
  induction h with
  | slot h he => rw [← Names.inferFor_eq he]; exact h.silent hp
  | root h hr => exact Checker.roots_notes hr (h.silentHead hp)
  | part h he ih => exact Names.infer_parts ih he

end

end Program

end Primer
