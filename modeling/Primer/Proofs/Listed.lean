import Primer.Proofs.Declared

/-!
# A run lists nothing that a check does not list

A check never takes a row away, so what is listed when a statement has been checked is listed at
the end. A check without a complaint has listed every declaration it came to, and every declaration
of a run is one of these (`Program.rows_checked`).
-/

namespace Primer

namespace Checker

/-- No row has been taken away. -/
def ListsMore (c c' : Checker) : Prop := ∀ k, c.listing.Has k → c'.listing.Has k

section

variable {α : Type} {c c' c'' : Checker} {k : RowKey}

theorem ListsMore.trans (h : c.ListsMore c') (h' : c'.ListsMore c'') : c.ListsMore c'' :=
  fun k hk => h' k (h k hk)

theorem listsMore_of_eq (h : c'.listing = c.listing) : c.ListsMore c' := fun k hk => by rwa [h]

theorem listsMore_declare {name : String} {ty : Ty} {category : Category} {o : Position} :
    c.ListsMore (c.declare name ty category o) := by
  cases h : c.scopes.declaredHere name with
  | false =>
    rw [declare_of_free h]
    exact fun k hk => Listing.has_record.2 (.inr hk)
  | true =>
    rw [declare_of_taken h]
    exact listsMore_of_eq rfl

theorem listing_returned {t : Option Ty} {o : Position} :
    (c.returned t o).listing = c.listing := by
  unfold returned
  repeat' split
  all_goals rfl

theorem listing_goesOn (test : Option Expr) : (c.goesOn test).listing = c.listing := by
  cases test <;> rfl

end

mutual

theorem stmt_lists : ∀ (s : Stmt) (c : Checker), c.ListsMore (stmt s c)
  | .declare _ _ _ none, _ => listsMore_declare
  | .declare _ _ _ (some e), c => fun k hk => listsMore_declare (c := c.observe _) k hk
  | .assign .., _ => listsMore_of_eq rfl
  | .assignIndex .., _ => listsMore_of_eq rfl
  | .step .., _ => listsMore_of_eq rfl
  | .block b, c => block_lists b c
  | .branch _ test body otherwise, c =>
    fun k hk => optional_lists otherwise _ k <|
      block_lists body (c.observe (condition c.toNames test "if")) k hk
  | .switch _ e cs d, c =>
    fun k hk => default_lists d _ k <| cases_lists (c.infer e).value cs
      ((c.observe (c.infer e)).enterLabelled (Label.ofSwitch e)) k hk
  | .whileLoop _ test body, c =>
    fun k hk => block_lists body ((c.enterLabelled (Label.ofWhile test)).observe _) k hk
  | .doLoop _ body test, c => fun k hk => block_lists body (c.enterLabelled (Label.ofDo test)) k hk
  | .forLoop _ first test next body, c =>
    fun k hk => block_lists body _ k <| optional_lists next _ k <|
      listsMore_of_eq (listing_goesOn test) k <|
      optional_lists first (c.enterLabelled (Label.ofFor test)) k hk
  | .breakOut _, _ => listsMore_of_eq rfl
  | .continueOn _, _ => listsMore_of_eq rfl
  | .print .., _ => listsMore_of_eq rfl
  | .function f, c => by
    simp only [stmt]
    split <;> exact listsMore_of_eq rfl
  | .giveBack _ none, _ => listsMore_of_eq listing_returned
  | .giveBack _ (some e), c => listsMore_of_eq (listing_returned (c := c.observe (c.infer e)))
  | .start .., _ => listsMore_of_eq rfl
  | .expression .., _ => listsMore_of_eq rfl

theorem stmts_lists : ∀ (ss : List Stmt) (c : Checker), c.ListsMore (stmts ss c)
  | [], _ => listsMore_of_eq rfl
  | s :: ss, c => (stmt_lists s c).trans (stmts_lists ss _)

theorem block_lists : ∀ (b : BlockOf Stmt) (c : Checker), c.ListsMore (block b c)
  | ⟨body, _⟩, c => (stmts_lists body c.enterScope).trans (listsMore_of_eq rfl)

theorem optional_lists : ∀ (s : Option Stmt) (c : Checker), c.ListsMore (optional s c)
  | none, _ => listsMore_of_eq rfl
  | some s, c => stmt_lists s c

theorem cases_lists (t : Ty) : ∀ (cs : List (CaseOf Stmt)) (c : Checker),
    c.ListsMore (cases t cs c)
  | [], _ => listsMore_of_eq rfl
  | k :: cs, c => (case_lists t k c).trans (cases_lists t cs _)

theorem case_lists (t : Ty) : ∀ (k : CaseOf Stmt) (c : Checker), c.ListsMore (case t k c)
  | ⟨_, body, _⟩, c => fun k hk => stmts_lists body (c.observe _) k hk

theorem default_lists : ∀ (d : Option (List Stmt)) (c : Checker), c.ListsMore (default d c)
  | none, _ => listsMore_of_eq rfl
  | some body, c => stmts_lists body c

end

/-! ## What stands inside -/

theorem caseBodies_lists {t : Ty} {body : List Stmt} {c' : Checker} :
    ∀ {cs : List (CaseOf Stmt)} {c : Checker}, (body, c') ∈ caseBodies t cs c →
      (stmts body c').ListsMore (cases t cs c)
  | k :: cs, c, h => by
    rcases List.mem_cons.1 h with h | h
    · cases h
      rw [← case_eq]
      exact cases_lists t cs _
    · exact caseBodies_lists (c := case t k c) h

/-- What is listed inside a statement is listed when the statement has been checked. -/
theorem bodies_lists {s : Stmt} {c c' : Checker} {body : List Stmt} (h : (body, c') ∈ c.bodies s) :
    (stmts body c').ListsMore (stmt s c) := by
  have hblock : ∀ {b : BlockOf Stmt} {c : Checker},
      (stmts b.body c.enterScope).ListsMore (block b c) := fun {b c} => by
    rw [block_eq]
    exact listsMore_of_eq rfl
  cases s <;> simp only [bodies, List.mem_cons, Prod.mk.injEq, List.not_mem_nil, or_false] at h
  case block b =>
    obtain ⟨rfl, rfl⟩ := h
    exact hblock
  case branch _ test body otherwise =>
    rcases h with ⟨rfl, rfl⟩ | ⟨rfl, rfl⟩
    · exact hblock.trans (optional_lists otherwise _)
    · rw [stmts_toList]
      exact listsMore_of_eq rfl
  case switch _ e cs d =>
    rcases h with ⟨rfl, rfl⟩ | h
    · rw [stmts_getD]
      exact listsMore_of_eq rfl
    · exact (caseBodies_lists h).trans (default_lists d _)
  case whileLoop =>
    obtain ⟨rfl, rfl⟩ := h
    exact hblock
  case doLoop =>
    obtain ⟨rfl, rfl⟩ := h
    exact hblock
  case forLoop _ first test next body =>
    rcases h with ⟨rfl, rfl⟩ | ⟨rfl, rfl⟩ | ⟨rfl, rfl⟩
    · rw [stmts_toList]
      exact (listsMore_of_eq (listing_goesOn test)).trans
        ((optional_lists next _).trans (block_lists body _))
    · rw [stmts_toList]
      exact block_lists body _
    · exact hblock

theorem parameters_lists {f : Function} : ∀ (qs : List Parameter) (c : Checker),
    c.ListsMore (qs.foldl (parameter f) c)
  | [], _ => listsMore_of_eq rfl
  | q :: qs, c => by
    refine ListsMore.trans ?_ (parameters_lists qs _)
    unfold parameter
    split
    · exact listsMore_of_eq rfl
    · exact listsMore_declare

/-- What is listed in the body of a function is listed when the function has been checked. -/
theorem function_lists (c : Checker) (f : Function) : c.ListsMore (c.function f) ∧
    (stmts f.body.body (c.enterFunction f)).ListsMore (c.function f) := by
  have hinner : (stmts f.body.body (c.enterFunction f)).ListsMore (c.function f) := by
    unfold function
    dsimp only
    split <;> exact listsMore_of_eq rfl
  have henter : c.ListsMore (c.enterFunction f) := by
    rw [enterFunction_eq]
    intro k hk
    exact parameters_lists f.parameters _ k hk
  exact ⟨(henter.trans (stmts_lists _ _)).trans hinner, hinner⟩

theorem functions_lists : ∀ (fs : List Function) (c : Checker), c.ListsMore (fs.foldl function c)
  | [], _ => listsMore_of_eq rfl
  | f :: fs, c => (function_lists c f).1.trans (functions_lists fs _)

theorem before_lists (c : Checker) (pending : List Function) (s : Stmt) :
    c.ListsMore (c.before pending s) := by
  unfold before
  split
  · exact functions_lists pending c
  · exact listsMore_of_eq rfl

theorem topLevel_lists : ∀ (ss : List Stmt) (pending : List Function) (c : Checker),
    c.ListsMore (topLevel pending ss c)
  | [], pending, c => functions_lists pending c
  | s :: ss, pending, c => by
    rw [topLevel_cons]
    exact (before_lists c pending s).trans ((stmt_lists s _).trans (topLevel_lists ss _ _))

theorem listing_register {c : Checker} {f : Function} (h : (c.register f).Silent)
    (hc : c.scopes = {}) : (c.register f).listing =
      (c.listing.record (Row.ofFunction f Scopes.globalLabel)).2 := by
  unfold register at h ⊢
  split at h
  · exact absurd h silent_note
  · split at h
    · exact absurd h silent_note
    · rw [if_neg (by assumption), if_neg (by assumption), hc]
      rfl

/-- Making functions known without a complaint lists them all. -/
theorem registers_listed : ∀ (fs : List Function) (c : Checker), c.scopes = {} →
    (fs.foldl register c).Silent → c.ListsMore (fs.foldl register c) ∧ ∀ f ∈ fs,
      (fs.foldl register c).listing.Has (Row.ofFunction f Scopes.globalLabel).rowKey
  | [], _, _, _ => ⟨listsMore_of_eq rfl, fun _ h => absurd h List.not_mem_nil⟩
  | f :: fs, c, hc, hs => by
    have heq := listing_register (registers_silent hs) hc
    have hscopes : (c.register f).scopes = {} := (registers_scopes [f] c).trans hc
    obtain ⟨hmore, hrest⟩ := registers_listed fs _ hscopes hs
    have hself : ∀ k, (k = (Row.ofFunction f Scopes.globalLabel).rowKey ∨ c.listing.Has k) →
        (fs.foldl register (c.register f)).listing.Has k := fun k hk =>
      hmore k (by rw [heq]; exact Listing.has_record.2 hk)
    refine ⟨fun k hk => hself k (.inr hk), fun g hg => ?_⟩
    rcases List.mem_cons.1 hg with rfl | hg
    · exact hself _ (.inl rfl)
    · exact hrest g hg

end Checker

theorem Event.Accounted.accounts {p : Program} {e : Event} (h : e.Accounted p) :
    p.Accounts e.target := by
  unfold Event.Accounted at h
  split at h
  · obtain ⟨_, _, -, hm⟩ := h
    exact hm.accounts
  · exact h

namespace Program

variable {p : Program} {pending : List Function} {ss : List Stmt} {c : Checker} {f : Function}
  {k : RowKey}

theorem Reaches.lists (h : p.Reaches pending ss c)
    (hk : (Checker.topLevel pending ss c).listing.Has k) : p.analyze.listing.Has k := by
  induction h with
  | first =>
    have hentry : ∀ (c : Checker) (n : Nat), (c.entryPoint n).listing = c.listing := by
      intro c n
      unfold Checker.entryPoint
      repeat' split
      all_goals rfl
    unfold analyze
    dsimp only
    rwa [hentry]
  | next h ih => exact ih (by rwa [Checker.topLevel_cons])

theorem Opens.lists (h : p.Opens f c)
    (hk : (Checker.stmts f.body.body (c.enterFunction f)).listing.Has k) :
    p.analyze.listing.Has k := by
  obtain ⟨hr, hs⟩ := h
  rename_i before after ss c
  have hall : ((before ++ f :: after).foldl Checker.function c).listing.Has k := by
    rw [List.foldl_append]
    exact Checker.functions_lists after _ k ((Checker.function_lists _ f).2 k hk)
  refine hr.lists ?_
  cases ss with
  | nil => exact hall
  | cons s rest =>
    rw [Checker.topLevel_cons, Checker.before, if_pos (by simpa using hs)]
    exact Checker.topLevel_lists _ _ _ k (Checker.stmt_lists s _ k hall)

/-- What is listed when statements have been checked is listed at the end. -/
theorem Walks.lists (h : p.Walks ss c) (hk : (Checker.stmts ss c).listing.Has k) :
    p.analyze.listing.Has k := by
  induction h with
  | top h =>
    refine h.lists ?_
    rw [Checker.topLevel_cons]
    exact Checker.topLevel_lists _ _ _ k hk
  | body h => exact h.lists hk
  | next h ih => exact ih hk
  | @inside s ss c body c' h hb ih =>
    exact ih (Checker.stmts_lists ss _ k (Checker.bodies_lists hb k hk))

section Clean

variable (hclean : p.analyze.report.isEmpty = true)
include hclean

theorem Declares.listed {d : Declaration} (h : p.Declares d) : p.analyze.listing.Has d.rowKey := by
  have hdeclare : ∀ {c : Checker} {name ty category o}, (c.declare name ty category o).Silent →
      (c.declare name ty category o).listing.Has
        (Declaration.rowKey ⟨name, ty, category, o, c.scopes.path⟩) := by
    intro c name ty category o hs
    rw [Checker.declare_of_free (Checker.free_of_silent hs)]
    exact Listing.has_record.2 (.inl rfl)
  cases h with
  | @stmt span name ty value ss c h =>
    refine h.lists (Checker.stmts_lists ss _ _ ?_)
    have hs := h.silentHead hclean
    cases value with
    | none => exact hdeclare hs
    | some e => exact hdeclare (c := c.observe _) hs
  | @parameter f c q h hq =>
    have hparams : (c.enterFunction f).Silent :=
      (Checker.stmts_grows f.body.body _).silent (h.silent hclean)
    have hall : ∀ (qs : List Parameter) (c : Checker), q ∈ qs →
        (qs.foldl (Checker.parameter f) c).Silent →
        (qs.foldl (Checker.parameter f) c).listing.Has
          (Declaration.rowKey ⟨q.name, q.ty, .parameter, q.position, c.scopes.path⟩) := by
      intro qs
      induction qs with
      | nil => exact fun _ h => absurd h List.not_mem_nil
      | cons q' qs ih =>
        intro c hq hs
        have hfirst : (Checker.parameter f c q').Silent := (Checker.grows_parameters qs _).silent hs
        have heq := Course.Tracks.parameter_eq hfirst
        rw [List.foldl_cons, heq] at hs ⊢
        rw [heq] at hfirst
        rcases List.mem_cons.1 hq with rfl | hq
        · exact Checker.parameters_lists qs _ _ (hdeclare hfirst)
        · have hpath : (c.declare q'.name q'.ty .parameter q'.position).scopes.path =
              c.scopes.path := Scopes.path_eq Checker.grows_declare.precedes.labels
          exact hpath ▸ ih _ hq hs
    exact h.lists (Checker.stmts_lists _ _ _ (hall f.parameters _ hq hparams))

theorem function_listed (hf : f ∈ p.functions) :
    p.analyze.listing.Has (Row.ofFunction f Scopes.globalLabel).rowKey := by
  have hsilent := (Checker.topLevel_follows _ _ _).silent (Reaches.first.silent hclean)
  obtain ⟨-, hall⟩ := Checker.registers_listed p.functions {} rfl hsilent
  exact Reaches.first.lists (Checker.topLevel_lists _ _ _ _ (hall f hf))

/-- The check lists every key a run can list. -/
theorem Keys.listed (h : p.Keys k) : p.analyze.listing.Has k := by
  rcases h with ⟨f, hf, rfl⟩ | ⟨d, hd, rfl⟩
  · exact function_listed hclean hf
  · exact hd.listed hclean

end Clean

/-- All that a run holds was declared as checking the program declared it, and every row it lists
has the key of a row that the check lists. -/
theorem rows_checked {tokens : List Token} {p : Program} (h : Program.ofTokens tokens = .ok p)
    (hclean : p.analyze.report.isEmpty = true) (fuel limit : Nat) :
    (∀ e ∈ p.history fuel limit,
      (e.target.scopes.All fun s => p.Declares s.toDeclaration) ∧
      ∀ r ∈ e.target.listing.rows, ∃ a ∈ p.analyze.listing.rows, a.rowKey = r.rowKey) ∧
    (∀ d, p.Declares d → ∃ a ∈ p.analyze.listing.rows, a.rowKey = d.rowKey) ∧
    ∀ m, p.execute fuel limit = some m →
      ∀ r ∈ m.listing.rows, ∃ a ∈ p.analyze.listing.rows, a.rowKey = r.rowKey := by
  obtain ⟨he, ho⟩ := topLevel_accounts hclean (proper_of_ofTokens h) (n := fuel) .first
    (stands_loaded hclean limit)
  have hrows : ∀ m : Machine, p.Accounts m →
      ∀ r ∈ m.listing.rows, ∃ a ∈ p.analyze.listing.rows, a.rowKey = r.rowKey :=
    fun m hm r hr => (hm.rows _ ⟨r, hr, rfl⟩).listed hclean
  refine ⟨fun e hin => ?_, fun d hd => hd.listed hclean, fun m hm => ?_⟩
  · have haccounts := (he e hin).accounts
    exact ⟨haccounts.symbols, hrows _ haccounts⟩
  · rw [Program.execute_eq] at hm
    obtain ⟨r, hr, rfl⟩ := Option.map_eq_some_iff.1 hm
    rw [← Program.record, hr] at ho
    cases r <;> exact hrows _ ho

/-- A function that calls itself from a declaration in its loop. -/
theorem rows_checked_recursive :
    let n : Expr := .name default "n"
    let less : Expr := .arithmetic default .subtract n (.int default 1)
    let f : Function := ⟨"f", [⟨"n", .int, default⟩], .int,
      ⟨[.whileLoop default (.relational default .greater n (.int default 0))
          ⟨[.declare default "k" .int (some (.call default "f" [less])),
            .giveBack default (some (.name default "k"))], default⟩,
        .giveBack default (some n)], default⟩, default⟩
    let p := Program.mk [.function f, .start default "f" [.int default 1]]
    ∀ m, p.execute 40 2 = some m →
      ∀ r ∈ m.listing.rows, ∃ a ∈ p.analyze.listing.rows, a.rowKey = r.rowKey :=
  (rows_checked (show Program.ofTokens
    [⟨.typeWord, "int", default⟩, ⟨.identifier, "f", default⟩, ⟨.openParen, "(", default⟩,
      ⟨.typeWord, "int", default⟩, ⟨.identifier, "n", default⟩, ⟨.closeParen, ")", default⟩,
      ⟨.openCurly, "\x7b", default⟩, ⟨.whileWord, "while", default⟩, ⟨.openParen, "(", default⟩,
      ⟨.identifier, "n", default⟩, ⟨.greater, ">", default⟩, ⟨.number, "0", default⟩,
      ⟨.closeParen, ")", default⟩, ⟨.openCurly, "\x7b", default⟩, ⟨.varWord, "var", default⟩,
      ⟨.identifier, "k", default⟩, ⟨.colon, ":", default⟩, ⟨.typeWord, "int", default⟩,
      ⟨.assignment, "=", default⟩, ⟨.identifier, "f", default⟩, ⟨.openParen, "(", default⟩,
      ⟨.identifier, "n", default⟩, ⟨.dash, "-", default⟩, ⟨.number, "1", default⟩,
      ⟨.closeParen, ")", default⟩, ⟨.semicolon, ";", default⟩,
      ⟨.returnWord, "return", default⟩, ⟨.identifier, "k", default⟩, ⟨.semicolon, ";", default⟩,
      ⟨.closeCurly, "\x7d", default⟩, ⟨.returnWord, "return", default⟩,
      ⟨.identifier, "n", default⟩, ⟨.semicolon, ";", default⟩, ⟨.closeCurly, "\x7d", default⟩,
      ⟨.startWord, "start", default⟩, ⟨.identifier, "f", default⟩, ⟨.openParen, "(", default⟩,
      ⟨.number, "1", default⟩, ⟨.closeParen, ")", default⟩, ⟨.semicolon, ";", default⟩]
      = .ok _ from rfl) rfl 40 2).2.2

end Program

end Primer
