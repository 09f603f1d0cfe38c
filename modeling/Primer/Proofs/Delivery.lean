import Primer.Proofs.Declared
import Primer.Proofs.Travel

/-!
# Failures are delivered

No part of the evaluator loses a failure, reports it twice or goes on in spite of it. In every run
of a program that checking has no complaint about, each failure is followed by notes that only
unwind, up to a statement outside the calls that fails with it and reports it
(`Program.errors_delivered`).
-/

namespace Primer

namespace Watched

open Eval Machine

/-- Every part of the evaluator hands its failures on. -/
structure Delivers (n : Nat) : Prop where
  expr : ∀ e, Computes (expr n e)
  exprs : ∀ es, Computes (exprs n es)
  exprFor : ∀ e t, Computes (exprFor n e t)
  indexOf : ∀ e, Computes (indexOf n e)
  indexOf? : ∀ e, Computes (indexOf? n e)
  condition : ∀ e c, Computes (condition n e c)
  goesOn : ∀ e, Computes (goesOn n e)
  call : ∀ f es o, Computes (call n f es o)
  stmt : ∀ s, Works (stmt n s)
  stmts : ∀ ss, Works (stmts n ss)
  block : ∀ b, Works (block n b)
  perform : ∀ s, Performs s (perform n s)
  header : ∀ {H : Stmt → Prop} {s}, (∀ s' ∈ s, H s' ∧ s'.isFirst = true) →
    Settles H Phase.Idle (header n s)
  switch : ∀ v cs d b, Works (switch n v cs d b)
  whileLoop : ∀ e b, Works (whileLoop n e b)
  doLoop : ∀ b e, Works (doLoop n b e)
  forLoop : ∀ {H : Stmt → Prop} {e s b}, (∀ s' ∈ s, H s' ∧ s'.isFirst = true) →
    Settles H Phase.Awaits (forLoop n e s b)

theorem delivers_zero : Delivers 0 where
  expr _ := settles_exhausted
  exprs _ := settles_exhausted
  exprFor _ _ := settles_exhausted
  indexOf _ := settles_exhausted
  indexOf? _ := settles_exhausted
  condition _ _ := settles_exhausted
  goesOn _ := settles_exhausted
  call _ _ _ := settles_exhausted
  stmt _ := settles_exhausted
  stmts _ := settles_exhausted
  block _ := settles_exhausted
  perform _ := fun _ _ _ _ => travels_exhausted
  header _ := settles_exhausted
  switch _ _ _ _ := settles_exhausted
  whileLoop _ _ := settles_exhausted
  doLoop _ _ := settles_exhausted
  forLoop _ := settles_exhausted

namespace Delivers

variable {n : Nat} (ih : Delivers n)
include ih

/-! ### Computes -/

theorem expr_succ (e : Expr) : Computes (Eval.expr (n + 1) e) := by
  rw [Eval.expr]
  refine Settles.within (j := .expr e) (by simp) ?_
  cases e with
  | int | double | bool | char | string => exact settles_pure.acted
  | name => exact settles_look.acted
  | arithmetic _ _ left right =>
    exact (ih.expr left).bind fun _ => (ih.expr right).bind fun _ => settles_ask.acted
  | negate _ operand | not _ operand | cast _ _ operand =>
    exact (ih.expr operand).bind fun _ => settles_ofExcept.acted
  | relational _ _ left right =>
    exact (ih.expr left).bind fun _ => (ih.expr right).bind fun _ =>
      settles_ask.bind fun _ => settles_pure.acted
  | logical _ op left right =>
    refine (ih.expr left).bind fun _ => settles_ofExcept.bind fun a => ?_
    cases op <;> cases a <;> first
      | exact settles_pure.acted
      | exact (ih.expr right).bind fun _ => settles_ofExcept.bind fun _ => settles_pure.acted
  | group _ inner => exact (ih.expr inner).acted
  | call _ name arguments =>
    dsimp only
    split
    · exact (ih.exprs arguments).bind fun _ => settles_ask.acted
    · exact (ih.call name arguments _).acted
  | method _ receiver name arguments =>
    refine (ih.expr receiver).bind fun _ => (ih.exprs arguments).bind fun _ => ?_
    split
    · exact settles_edit
    · exact settles_fail
  | index _ target index =>
    exact (ih.expr target).bind fun _ => (ih.indexOf index).bind fun _ => settles_ask.acted
  | cell _ target index column =>
    exact (ih.expr target).bind fun _ => (ih.indexOf index).bind fun _ =>
      settles_ask.bind fun _ => (ih.indexOf column).bind fun _ => settles_ask.acted
  | vector _ items | matrix _ items =>
    exact (ih.exprs items).bind fun _ => settles_ofExcept.bind fun _ => settles_onStore
  | newList _ base =>
    cases base with
    | none => exact settles_fail
    | some => exact settles_onStore.map

theorem exprs_succ (es : List Expr) : Computes (Eval.exprs (n + 1) es) := by
  cases es with
  | nil => exact settles_pure
  | cons e es => exact (ih.expr e).bind fun _ => (ih.exprs es).bind fun _ => settles_pure

theorem exprFor_succ (e : Expr) (t : Ty) : Computes (Eval.exprFor (n + 1) e t) := by
  simp only [Eval.exprFor]
  refine Settles.within (j := .exprFor e t) (by simp) ?_
  split
  · exact settles_onStore.map
  · exact settles_fail
  · exact (ih.expr e).acted

theorem indexOf_succ (e : Expr) : Computes (Eval.indexOf (n + 1) e) :=
  (ih.expr e).bind fun v => by
    cases v <;> first | exact settles_pure | exact settles_fail

theorem indexOf?_succ : ∀ e, Computes (Eval.indexOf? (n + 1) e)
  | none => settles_pure
  | some e => (ih.indexOf e).bind fun _ => settles_pure

theorem condition_succ (e : Expr) (construct : String) :
    Computes (Eval.condition (n + 1) e construct) :=
  (ih.expr e).bind fun v => by
    cases v <;> first | exact settles_pure | exact settles_fail

theorem goesOn_succ : ∀ e, Computes (Eval.goesOn (n + 1) e)
  | none => settles_pure
  | some e => ih.condition e _

theorem call_succ (f : String) (es : List Expr) (o : Position) :
    Computes (Eval.call (n + 1) f es o) := by
  rw [Eval.call]
  refine Settles.within (j := .call f es o) (by simp) (Settles.acted
    (settles_read.bind fun _ => settles_ofOption.bind fun g => settles_ofExcept.bind fun _ =>
      (ih.exprs es).bind fun _ => settles_ofResult.bind fun bound =>
      Settles.bind (Settles.inCall ?_) fun _ => settles_ofExcept))
  exact (settles_declareParameters _ _).bind fun _ =>
    (ih.stmts _).andThen fun _ _ _ _ h => travels_conclude h

/-! ### Statements -/

theorem stmts_succ : ∀ ss, Works (Eval.stmts (n + 1) ss)
  | [] => settles_pure.awaits
  | s :: ss => (ih.stmt s).andThen fun _ _ _ _ h =>
    travels_unlessPending h (ih.stmts ss)

theorem switch_succ (v : Value) : ∀ cs d b, Works (Eval.switch (n + 1) v cs d b)
  | [], none, _ => settles_pure.awaits
  | [], some body, _ => (ih.stmts body).andThen fun _ _ _ _ h =>
    (travels_idles h idles_consume).bind fun _ _ _ h => travels_pure h.1
  | k :: cs, d, false => by
    rw [Eval.switch]
    refine (ih.expr k.value).bind fun w => settles_read.bind fun b => ?_
    split <;> exact ih.switch _ _ _ _
  | k :: cs, d, true => by
    rw [Eval.switch]
    refine (ih.stmts k.body).andThen fun _ _ _ _ h =>
      (travels_idles h idles_consume).bind fun b _ _ h => ?_
    split
    · exact travels_pure h.1
    · exact travels_unlessPending h.1 (ih.switch v cs d true)

theorem whileLoop_succ (e : Expr) (b : Block) : Works (Eval.whileLoop (n + 1) e b) :=
  (ih.condition e _).bind fun k => by
    split
    · exact Settles.round (ih.block b) (ih.whileLoop e b)
    · exact settles_pure.awaits

theorem doLoop_succ (b : Block) (e : Expr) : Works (Eval.doLoop (n + 1) b e) :=
  Settles.round (ih.block b) <| (ih.condition e _).bind fun k => by
    split
    · exact ih.doLoop b e
    · exact settles_pure.awaits

theorem forLoop_succ {H : Stmt → Prop} {e : Option Expr} {s : Option Stmt} {b : Block}
    (hs : ∀ s' ∈ s, H s' ∧ s'.isFirst = true) :
    Settles H Phase.Awaits (Eval.forLoop (n + 1) e s b) :=
  (ih.goesOn e).settles.bind fun k => by
    split
    · exact Settles.round (ih.block b).weaken ((ih.header hs).bind fun _ => ih.forLoop hs)
    · exact settles_pure.awaits

theorem header_succ {H : Stmt → Prop} : ∀ {s}, (∀ s' ∈ s, H s' ∧ s'.isFirst = true) →
    Settles H Phase.Idle (Eval.header (n + 1) s)
  | none, _ => settles_pure
  | some s, hs => (ih.perform s).header (hs s rfl).1 (hs s rfl).2

/-! ### Single statements -/

theorem declare_perform (span : Span) (name : String) (ty : Ty) (value : Option Expr) :
    Performs (.declare span name ty value)
      (Eval.perform (n + 1) (.declare span name ty value)) := by
  rw [Eval.perform]
  cases value with
  | none => exact settles_declare.acted.performs
  | some e =>
    have hvalue : Computes (do
        let v ← Eval.exprFor n e ty
        Eval.ofExcept span.start (v.convert ty name)) :=
      (ih.exprFor e ty).bind fun _ => settles_ofExcept
    have hstays : Stays (do
        let v ← Eval.exprFor n e ty
        Eval.ofExcept span.start (v.convert ty name)) :=
      Stays.bind (fun m => ((balanced n).values m).exprFor e ty) fun _ => stays_ofExcept
    refine performs_within fun callers m hm hlegal => ?_
    exact (hvalue.declareWith hstays hm (hlegal.2 _ _ _ _ rfl)).imp
      (fun _ _ _ h => .inr ⟨.inl h.1, h.2⟩) fun _ _ _ h => h.imp fun _ h => h.elim

theorem forLoop_perform (span : Span) (first : Option Stmt) (test : Option Expr)
    (next : Option Stmt) (body : Block) : Performs (.forLoop span first test next body)
      (Eval.perform (n + 1) (.forLoop span first test next body)) := by
  rw [Eval.perform]
  refine performs_within fun callers m hm hlegal => ?_
  cases hlegal.1 with
  | forLoop hfirst _ hnext _ _ =>
    have hloop : Settles (·.HeaderOf (.forLoop span first test next body)) Phase.Awaits
        (inLabelled (Label.ofFor test) do
          Eval.header n first
          inConstruct .loop (Eval.forLoop n test next body)) := by
      refine Settles.inLabelled ((ih.header fun s hs => ⟨?_, hfirst s hs⟩).bind fun _ =>
        Settles.inConstruct (ih.forLoop fun s hs => ⟨?_, Stmt.isFirst_of_isSimple (hnext s hs)⟩))
      · cases hs
        exact .first
      · cases hs
        exact .next
    exact (hloop callers m hm).imp (fun _ _ _ h => .inl ⟨h, by simp [Stmt.isFirst, Stmt.isSimple]⟩)
      fun _ _ _ h => h

theorem perform_succ (s : Stmt) : Performs s (Eval.perform (n + 1) s) := by
  cases s with
  | declare => exact ih.declare_perform _ _ _ _
  | forLoop => exact ih.forLoop_perform _ _ _ _ _
  | assign _ name value =>
    exact Settles.performs (settles_look.bind fun t => (ih.exprFor value t).bind fun _ =>
      settles_assign)
  | assignIndex _ target index column value =>
    exact Settles.performs ((ih.expr target).bind fun _ => (ih.indexOf index).bind fun _ =>
      (ih.indexOf? column).bind fun _ => (ih.expr value).bind fun _ => settles_write)
  | step _ target up =>
    rw [Eval.perform]
    cases target with
    | name =>
      exact Settles.performs (settles_look.bind fun _ => settles_ofExcept.bind fun _ =>
        settles_assign)
    | index _ target index =>
      exact Settles.performs ((ih.expr target).bind fun _ => (ih.indexOf index).bind fun _ =>
        settles_ask.bind fun _ => settles_ofExcept.bind fun _ => settles_write)
    | cell _ target index column =>
      exact Settles.performs ((ih.expr target).bind fun _ => (ih.indexOf index).bind fun _ =>
        (ih.indexOf column).bind fun _ => settles_ask.bind fun _ => settles_ask.bind fun _ =>
        settles_ofExcept.bind fun _ => settles_write)
    | _ => exact Settles.performs settles_fail
  | block b => exact Works.performs (ih.block b) rfl
  | branch _ test body otherwise =>
    refine Works.performs ((ih.condition test _).bind fun k => ?_) rfl
    split
    · exact ih.block body
    · cases otherwise with
      | none => exact settles_pure.awaits
      | some s => exact ih.stmt s
  | switch _ scrutinee cs d =>
    exact Works.performs ((ih.expr scrutinee).bind fun v =>
      Settles.inLabelled (Settles.inConstruct (ih.switch v cs d false))) rfl
  | whileLoop _ test body =>
    exact Works.performs (Settles.inLabelled (Settles.inConstruct (ih.whileLoop test body))) rfl
  | doLoop _ body test =>
    exact Works.performs (Settles.inLabelled (Settles.inConstruct (ih.doLoop body test))) rfl
  | breakOut | continueOn => exact Settles.performs (settles_step fun _ => ⟨rfl, rfl⟩)
  | print _ value =>
    exact Settles.performs ((ih.expr value).bind fun _ => settles_step fun _ => ⟨rfl, rfl⟩)
  | function => exact settles_pure.acted.performs
  | giveBack _ value =>
    have hreturn : ∀ v, Settles (fun _ => False) Phase.Acted (update (·.requestReturn v)) :=
      fun _ => settles_step fun _ => ⟨rfl, rfl⟩
    cases value with
    | none => exact (hreturn .void).performs
    | some e => exact Settles.performs ((ih.expr e).bind hreturn)
  | start _ name arguments =>
    exact Settles.performs ((ih.call name arguments _).bind fun _ => settles_pure.acted)
  | expression _ value =>
    exact Settles.performs ((ih.expr value).bind fun _ => settles_pure.acted)

end Delivers

theorem delivers (n : Nat) : Delivers n := by
  induction n with
  | zero => exact delivers_zero
  | succ n ih =>
    exact {
      expr := ih.expr_succ
      exprs := ih.exprs_succ
      exprFor := ih.exprFor_succ
      indexOf := ih.indexOf_succ
      indexOf? := ih.indexOf?_succ
      condition := ih.condition_succ
      goesOn := ih.goesOn_succ
      call := ih.call_succ
      stmt := fun s => (ih.perform s).guarded
      stmts := ih.stmts_succ
      block := fun b => Settles.inScope (ih.stmts b.body)
      perform := ih.perform_succ
      header := ih.header_succ
      switch := ih.switch_succ
      whileLoop := ih.whileLoop_succ
      doLoop := ih.doLoop_succ
      forLoop := ih.forLoop_succ }

/-- A statement does not fail, for its failure is reported or left to the call. -/
theorem stmt_ends (n : Nat) (s : Stmt) (callers : List Caller) (m : Machine) :
    Meets (fun _ => True) (stmt n s) callers m (fun _ t => t.depth = m.depth) fun _ _ => False := by
  have hdepth := (balanced n).stmt s m callers m (Keeps.refl m).grows
  suffices hok : Meets (fun _ => True) (stmt n s) callers m (fun _ _ => True) fun _ _ => False from
    (hok.and hdepth).mono (fun _ _ => trivial) (fun _ _ h => h.2.depth) fun _ _ h => h.1
  cases n with
  | zero => exact meets_exhausted
  | succ n =>
    refine meets_guarded ⟨fun _ _ => trivial, ?_⟩
    split
    · trivial
    · exact ⟨fun _ => ⟨trivial, trivial, trivial, trivial⟩, fun _ => ⟨trivial, trivial⟩⟩
    · trivial

/-- At top level nothing is on its way between the statements. -/
theorem topLevel_travels : ∀ (n : Nat) (ss : List Stmt) (m : Machine), m.failure = none →
    m.depth = 0 → Travels .calm (topLevel n ss) [] m (fun _ b _ => b = .calm) fun _ _ _ => False
  | 0, _, _, _, _ => travels_exhausted
  | _ + 1, [], _, _, _ => travels_pure rfl
  | n + 1, s :: ss, m, hm, hd => by
    have hrest := topLevel_travels n ss
    have hstmt : Travels .calm (stmt n s) [] m (fun _ b t => b.Idle t ∧ t.depth = 0)
        fun _ _ _ => False := by
      refine (((delivers n).stmt s [] m hm).and (stmt_ends n s [] m)).imp
        (fun _ b t ⟨hb, ht⟩ => ?_) fun _ _ _ h => h.2
      have ht := ht.trans hd
      rcases hb with hb | ⟨_, _, _, hpos⟩
      · exact ⟨hb, ht⟩
      · omega
    cases s
    case function => exact hrest m hm hd
    all_goals
      refine hstmt.bind fun _ _ t ⟨⟨hb, ht⟩, hdt⟩ => ?_
      subst hb
      refine Travels.bind (R := fun _ b u => b = .calm ∧ u.failure = none ∧ u.depth = 0)
        (travels_step (.rests idles_signal.toRests rfl) ⟨rfl, ht, hdt⟩) ?_
      rintro g _ u ⟨rfl, hu, hdu⟩
      cases g with
      | none => exact hrest u hu hdu
      | some g => exact travels_update (.stops hdu) rfl

end Watched

theorem Event.Accounted.legal {p : Program} (hclean : p.analyze.report.isEmpty = true)
    (hproper : p.Proper) {e : Event} (h : e.Accounted p) : e.Legal := by
  unfold Event.Legal
  split
  · obtain ⟨ss, c, hwalks, hstands⟩ := h
    refine ⟨hwalks.all (fun _ hs => hs.inner) hproper _ List.mem_cons_self, ?_⟩
    rintro span name ty value rfl
    exact hstands.declares_free hclean hwalks
  · trivial

namespace Program

variable {p : Program}

/-- A run begins and ends with nothing on its way. -/
theorem history_passage (hclean : p.analyze.report.isEmpty = true) (hproper : p.Proper)
    (fuel limit : Nat) : Passage .calm (p.history fuel limit) .calm := by
  have haccounts := (topLevel_accounts hclean hproper (n := fuel) .first
    (stands_loaded hclean limit)).1
  have hloaded : (p.loaded limit).failure = none ∧ (p.loaded limit).depth = 0 := by
    rw [p.loaded_eq limit]
    exact ⟨rfl, rfl⟩
  obtain ⟨b, hp, ho⟩ := Watched.topLevel_travels fuel p.body _ hloaded.1 hloaded.2
    fun e he => Event.Accounted.legal hclean hproper (haccounts e he)
  have hb : b = .calm := by
    split at ho
    · exact ho
    · exact ho.elim
    · exact ho
  exact hb ▸ hp

/-- In every run of a program that checking has no complaint about, a failure is delivered once, and
nothing is assigned from where it can have come up until it is reported. A call that reports a jump
that nothing took ends at once. -/
theorem errors_delivered {tokens : List Token} {p : Program} (h : Program.ofTokens tokens = .ok p)
    (hclean : p.analyze.report.isEmpty = true) (fuel limit : Nat) :
    (∀ before j d m after, p.history fuel limit = before ++ .fails j d m :: after →
      Rested before ∧ Reported before d (.fails j d m :: after)) ∧
    ∀ before callers m t after, p.history fuel limit = before ++ .steps callers m t :: after →
      0 < m.depth → t.report ≠ m.report →
      ∃ g o caller outer rest, t = m.note (Machine.unconsumed g o) ∧
        after = .steps (caller :: outer) t (t.leaveCall caller) :: rest := by
  have hpassage := history_passage hclean (proper_of_ofTokens h) fuel limit
  refine ⟨fun before j d m after heq => ?_, fun before callers m t after heq hm hr => ?_⟩
  · have hpath := (p.record fuel limit).path
    rw [← Program.history, heq] at hpath
    rw [heq] at hpassage
    exact hpassage.reported hpath
  · rw [heq] at hpassage
    obtain ⟨a, -, hafter⟩ := hpassage.split
    obtain ⟨b, hmoves, hrest⟩ := hafter.head
    obtain ⟨g, o, ht, rfl⟩ := hmoves.of_report hm hr
    obtain ⟨caller, outer, rest, rfl⟩ := hrest.ended
    exact ⟨g, o, caller, outer, rest, ht, rfl⟩

/-- A function that calls itself as a statement of its loop and fails in the inner call. -/
theorem errors_delivered_inner :
    let n : Expr := .name default "n"
    let f : Function := ⟨"f", [⟨"n", .int, default⟩], .int,
      ⟨[.whileLoop default (.relational default .greater n (.int default 0))
          ⟨[.step default n false, .expression default (.call default "f" [n])], default⟩,
        .giveBack default (some (.arithmetic default .modulo (.int default 1) n))], default⟩,
      default⟩
    let p := Program.mk [.function f, .start default "f" [.int default 1]]
    ∀ before j d m after, p.history 40 2 = before ++ .fails j d m :: after →
      Rested before ∧ Reported before d (.fails j d m :: after) :=
  (errors_delivered (show Program.ofTokens
    [⟨.typeWord, "int", default⟩, ⟨.identifier, "f", default⟩, ⟨.openParen, "(", default⟩,
      ⟨.typeWord, "int", default⟩, ⟨.identifier, "n", default⟩, ⟨.closeParen, ")", default⟩,
      ⟨.openCurly, "\x7b", default⟩, ⟨.whileWord, "while", default⟩, ⟨.openParen, "(", default⟩,
      ⟨.identifier, "n", default⟩, ⟨.greater, ">", default⟩, ⟨.number, "0", default⟩,
      ⟨.closeParen, ")", default⟩, ⟨.openCurly, "\x7b", default⟩, ⟨.identifier, "n", default⟩,
      ⟨.minusMinus, "--", default⟩, ⟨.semicolon, ";", default⟩, ⟨.identifier, "f", default⟩,
      ⟨.openParen, "(", default⟩, ⟨.identifier, "n", default⟩, ⟨.closeParen, ")", default⟩,
      ⟨.semicolon, ";", default⟩, ⟨.closeCurly, "\x7d", default⟩,
      ⟨.returnWord, "return", default⟩, ⟨.number, "1", default⟩, ⟨.percent, "%", default⟩,
      ⟨.identifier, "n", default⟩, ⟨.semicolon, ";", default⟩, ⟨.closeCurly, "\x7d", default⟩,
      ⟨.startWord, "start", default⟩, ⟨.identifier, "f", default⟩, ⟨.openParen, "(", default⟩,
      ⟨.number, "1", default⟩, ⟨.closeParen, ")", default⟩, ⟨.semicolon, ";", default⟩]
      = .ok _ from rfl) rfl 40 2).1

end Program

end Primer
