import Primer.Proofs.Agreement
import Primer.Proofs.CallFree
import Primer.Proofs.Invariant
import Primer.Proofs.Prelude

/-!
# What a call finds

Function bodies are checked against the globals of the prelude. In a run of a program that checking
has no complaint about, the statements of the prelude begin no call and leave the globals that the
check had there (`Watched.topLevel_findsGlobals`). A global that is declared stays declared, so
every call finds them.
-/

namespace Primer

/-- A call begins or has begun. -/
def Event.Enters (e : Event) : Prop := 0 < e.target.depth ∨ e.Calls

theorem Event.Apart.not_enters {e : Event} (h : e.Apart 0) : ¬ e.Enters := by
  rintro (hd | hc)
  · exact absurd h.target hd.ne'
  · exact h.calls hc

theorem Event.steps_not_enters {callers : List Caller} {m t : Machine} (h : t.depth = 0) :
    ¬ (Event.steps callers m t).Enters := by
  rintro (hd | ⟨_, _, _, _, ⟨⟩⟩)
  exact absurd h hd.ne'

/-- Declared globals stay declared. -/
theorem Machine.invariant_globals (globals : Frame Declaration) :
    Invariant fun m => globals.Within m.names.scopes.globals where
  core _ h := h
  failure _ h := h
  note _ h := h
  introduce {m name} ty category p _ hfree h := fun k d hd => by
    rw [names_introduce]
    exact Scopes.within_add ((Scopes.declaredHere_map ..).trans hfree) k d (h k d hd)
  replace _ _ _ h := by
    rw [keeps_replace.names]
    exact h
  enterScope h := h
  leaveScope h := h
  enterLabelled _ h := h
  leaveLabelled h := h
  enterCall _ _ h := h
  leaveCall _ h := h

/-- The check up to the first statement that can enter a function. -/
abbrev Checker.opened (ss : List Stmt) (c : Checker) : Checker :=
  stmts (ss.takeWhile (!·.callsFunction)) c

namespace Watched

open Eval
open Checker (opened)

variable {n : Nat} {callers : List Caller} {c : Checker} {m : Machine}

/-! ## Statements without calls -/

/-- What the check could declare is declared. -/
theorem declare_agrees {name : String} {ty : Ty} {category : Category} {p : Position}
    {value : Option Value} {F : Diagnostic → Machine → Prop} (hm : m.Agrees c.toNames)
    (hs : (c.declare name ty category p).Silent) :
    Meets (fun _ => True) (declare name ty category p value) callers m
      (fun _ t => t.Agrees (c.declare name ty category p).toNames) F := by
  have hfree := Checker.free_of_silent hs
  rw [Checker.declare_of_free hfree]
  refine meets_declare (fun _ => ⟨trivial, hm.introduce⟩) fun htaken => ?_
  cases (hm.free hfree).symm.trans htaken

theorem declareWith_agrees {name : String} {ty : Ty} {p : Position} {x : Watched Value}
    (hx : Stays x) (hm : m.Agrees c.toNames) (hs : (c.declare name ty (.ofTy ty) p).Silent) :
    Meets (fun _ => True) (declareWith name ty p x) callers m
      (fun _ t => t.Agrees (c.declare name ty (.ofTy ty) p).toNames)
      fun _ t => t.Agrees (c.declare name ty (.ofTy ty) p).toNames := by
  refine Meets.bind (R := fun _ t => t.Agrees c.toNames) (meets_attempt ?_) fun r t ht => ?_
  · exact (hx m callers m (.refl m)).imp (fun _ _ => hm.keeps) fun _ _ => hm.keeps
  · cases r with
    | ok v => exact declare_agrees ht hs
    | error => exact (declare_agrees ht hs).bind fun _ _ h => meets_fail h

theorem perform_agrees {span : Span} {name : String} {ty : Ty} {value : Option Expr}
    (hm : m.Agrees c.toNames) (hs : (Checker.stmt (.declare span name ty value) c).Silent) :
    Meets (fun _ => True) (perform n (.declare span name ty value)) callers m
      (fun _ t => t.Agrees (Checker.stmt (.declare span name ty value) c).toNames)
      fun _ t => t.Agrees (Checker.stmt (.declare span name ty value) c).toNames := by
  cases n with
  | zero => exact meets_exhausted
  | succ n =>
    simp only [Eval.perform]
    refine meets_within (j := .stmt _) trivial (Meets.imp ?_ (fun _ _ h => ⟨trivial, h⟩)
      fun _ _ h => ⟨trivial, h⟩)
    cases value with
    | none => exact declare_agrees hm hs
    | some e =>
      have hx : Stays (do
          let v ← Eval.exprFor n e ty
          Eval.ofExcept span.start (v.convert ty name)) :=
        Stays.bind (fun m => ((balanced n).values m).exprFor e ty) fun _ => stays_ofExcept
      exact declareWith_agrees hx hm hs

/-- A statement at top level leaves the names that its check leaves. -/
theorem stmt_agrees {s : Stmt} (hproper : s.Proper) (hm : m.Agrees c.toNames)
    (hs : (Checker.stmt s c).Silent) : Meets (fun _ => True) (stmt n s) callers m
      (fun _ t => t.Agrees (Checker.stmt s c).toNames)
      fun _ t => t.Agrees (Checker.stmt s c).toNames := by
  cases hd : s.declares
  · rw [(Checker.stmt_keeps s c hd).names]
    exact ((balanced n).stmtStays s hd m callers m (.refl m)).imp (fun _ _ => hm.keeps)
      fun _ _ => hm.keeps
  · cases s with
    | declare span name ty value =>
      cases n with
      | zero => exact meets_exhausted
      | succ n =>
        rw [Eval.stmt]
        refine meets_guarded ((perform_agrees hm hs).imp (fun _ _ h => h) fun d t ht => ?_)
        exact ⟨fun _ => ⟨trivial, trivial, trivial, ht.keeps ⟨rfl, rfl, rfl, rfl⟩⟩,
          fun _ => ⟨trivial, ht.keeps ⟨rfl, rfl, rfl, rfl⟩⟩⟩
    | branch => cases (hproper.declares_alternative rfl).symm.trans hd
    | _ => cases hd

/-- A statement at top level that cannot enter a function begins no call. -/
theorem stmt_enters {s : Stmt} (hcalls : s.callsFunction = false) (hproper : s.Proper)
    (hs : (Checker.stmt s c).Silent) (hm : m.Agrees c.toNames) (hd : m.depth = 0) :
    Meets (fun e => ¬ e.Enters) (stmt n s) callers m
      (fun _ t => t.depth = 0 ∧ t.Agrees (Checker.stmt s c).toNames)
      fun _ t => t.depth = 0 ∧ t.Agrees (Checker.stmt s c).toNames :=
  ((((callFree n).stmt s hcalls).apart 0 callers m hd).and (stmt_agrees hproper hm hs)).mono
    (fun _ h => h.1.not_enters) (fun _ _ h => h) fun _ _ h => h

/-! ## Top level -/

/-- A call finds all globals that are given. -/
def FindsGlobals (globals : Frame Declaration) (e : Event) : Prop :=
  e.Enters → globals.Within e.target.names.scopes.globals

theorem findsGlobals_of_not {globals : Frame Declaration} {e : Event} (h : ¬ e.Enters) :
    FindsGlobals globals e := fun he => absurd he h

/-- A run that follows the check begins no call before the first statement that can enter a
function, and from then on has the globals that the check had there. -/
theorem topLevel_findsGlobals (n : Nat) (callers : List Caller) {ss : List Stmt}
    (hproper : ∀ s ∈ ss, s.Proper) (hs : (opened ss c).Silent) (hm : m.Agrees c.toNames)
    (hd : m.depth = 0) :
    Meets (FindsGlobals (opened ss c).scopes.globals) (topLevel n ss) callers m
      (fun _ _ => True) fun _ _ => True := by
  induction n generalizing ss c m with
  | zero => exact meets_exhausted
  | succ n ih =>
    cases ss with
    | nil => exact meets_pure trivial
    | cons s ss =>
      obtain ⟨hproper, hrest⟩ := List.forall_mem_cons.1 hproper
      cases hcalls : s.callsFunction with
      | false =>
        have hopened : opened (s :: ss) c = opened ss (Checker.stmt s c) := by
          simp [opened, hcalls, Checker.stmts]
        rw [hopened] at hs ⊢
        have hstmt : (Checker.stmt s c).Silent := (Checker.stmts_grows _ _).silent hs
        cases hf : s.function? with
        | some g =>
          have hdeclares : s.declares = false := by cases s <;> first | rfl | cases hf
          rw [topLevel_function hf]
          refine ih hrest hs ?_ hd
          rw [(Checker.stmt_keeps s c hdeclares).names]
          exact hm
        | none =>
          rw [topLevel_cons hf]
          refine Meets.bind (R := fun _ t => t.depth = 0 ∧ t.Agrees (Checker.stmt s c).toNames)
            ((stmt_enters hcalls hproper hstmt hm hd).mono (fun _ h => findsGlobals_of_not h)
              (fun _ _ h => h) fun _ _ _ => trivial) ?_
          rintro _ t ⟨hdt, ht⟩
          refine Meets.bind (R := fun _ u => u.depth = 0 ∧ u.Agrees (Checker.stmt s c).toNames)
            (meets_step (findsGlobals_of_not (Event.steps_not_enters hdt))
              ⟨hdt, ht.keeps ⟨rfl, rfl, rfl, rfl⟩⟩) ?_
          rintro g u ⟨hdu, hu⟩
          cases g with
          | some => exact meets_update (findsGlobals_of_not (Event.steps_not_enters hdu)) trivial
          | none => exact ih hrest hs hu hdu
      | true =>
        -- From here on calls may begin, and nothing undoes what has been declared.
        have hopened : opened (s :: ss) c = c := by simp [opened, hcalls, Checker.stmts]
        have hkept := (Machine.invariant_globals c.scopes.globals).respected.topLevel (n + 1)
          (s :: ss) callers m hm.globals
        rw [hopened]
        exact hkept.mono (fun _ h _ => h.2) (fun _ _ _ => trivial) fun _ _ _ => trivial

end Watched

namespace Program

variable {p : Program} {pending : List Function} {ss : List Stmt} {c : Checker} {f : Function}

/-- While functions are pending the check is on its way through the prelude. -/
theorem Reaches.prelude (h : p.Reaches pending ss c) :
    pending = [] ∨ Checker.opened ss c = p.prelude := by
  induction h with
  | first => exact .inr rfl
  | @next pending s rest c h ih =>
    cases hs : s.callsFunction
    · simpa [Checker.remaining, Checker.before, Checker.opened, Checker.stmts, hs] using ih
    · simp [Checker.remaining, hs]

/-- All bodies are checked under the names of the prelude. -/
theorem Opens.names (h : p.Opens f c) : c.toNames = p.prelude.toNames := by
  obtain ⟨hr, hs⟩ := h
  rename_i before after ss c
  rcases hr.prelude with h | h
  · simp at h
  · rw [(Checker.functions_keeps before c).names, ← h]
    cases ss with
    | nil => rfl
    | cons s ss => simp [Checker.opened, Checker.stmts, hs s rfl]

theorem prelude_silent (hclean : p.analyze.report.isEmpty = true) : p.prelude.Silent := by
  have h := Reaches.first.silent hclean
  rw [Checker.topLevel_eq] at h
  exact (Checker.functions_keeps _ _).silent ((Checker.stmts_grows _ _).silent h)

/-- Statements that `callsFunction` clears begin no call, whatever machine they run on, and do the
same whatever functions are known. So in every run of a program that was read and that checking has
no complaint about, every call finds each global that was visible where the bodies were checked. -/
theorem globals_precede_calls :
    (∀ s : Stmt, s.callsFunction = false →
      ∀ (fuel : Nat) (callers : List Caller) (m : Machine),
        (∀ e ∈ ((Eval.stmt fuel s : Watched Unit) callers m).events,
          ¬ e.Calls ∧ e.source.depth = m.depth ∧ e.target.depth = m.depth) ∧
        ∀ fs, (Eval.stmt fuel s : Eval Unit) (m.knowing fs) =
          ((Eval.stmt fuel s : Eval Unit) m).onState (.knowing fs)) ∧
    ∀ (tokens : List Token) (p : Program), ofTokens tokens = .ok p →
      p.analyze.report.isEmpty = true →
      ∀ (fuel limit : Nat), ∀ e ∈ p.history fuel limit, e.Enters →
        ∀ f c, p.Opens f c → ∀ name d, c.scopes.get? name = some d →
          ∃ s, e.target.scopes.globals.find? name = some s ∧ s.toDeclaration = d := by
  refine ⟨fun s hs fuel callers m => ?_, fun tokens p h hclean fuel limit e he henters f c hc
    name d hd => ?_⟩
  · have hfree := (Watched.callFree fuel).stmt s hs
    refine ⟨fun e he => ?_, fun fs => ?_⟩
    · have happ := (hfree.apart m.depth callers m rfl).1 e he
      exact ⟨happ.calls, happ.source, happ.target⟩
    · simpa only [(Watched.unwatched fuel).stmt] using hfree.blind callers m fs
  · have hdepth : (p.loaded limit).depth = 0 := by
      rw [p.loaded_eq limit]
      rfl
    have hrun := Watched.topLevel_findsGlobals fuel [] (proper_of_ofTokens h)
      (prelude_silent hclean) (agrees_loaded hclean limit).2 hdepth
    have hwithin := hrun.1 e he henters
    have hglobal : p.prelude.scopes.globals.lookup (Text.fold name) = some d := by
      rw [← hd, Scopes.get?, hc.atTop.1]
      exact congrArg (fun N : Names => N.scopes.globals.lookup (Text.fold name)) hc.names.symm
    have hfound := hwithin _ d hglobal
    rw [Machine.names, Scopes.map, Scopes.lookup_map_frame] at hfound
    exact Option.map_eq_some_iff.1 hfound

/-- A function that changes a global and is started after its declaration. -/
theorem globals_precede_calls_started :
    let g : Expr := .name default "g"
    let s : Stmt := .declare default "g" .int (some (.int default 1))
    let f : Function := ⟨"f", [], .void, ⟨[.assign default "g"
      (.arithmetic default .add g (.int default 1))], default⟩, default⟩
    let p := Program.mk [s, .function f, .start default "f" []]
    (∀ fs, (Eval.stmt 9 s : Eval Unit) ((Machine.fresh 2).knowing fs) =
      ((Eval.stmt 9 s : Eval Unit) (Machine.fresh 2)).onState (.knowing fs)) ∧
    ∃ e ∈ p.history 20 2, 0 < e.target.depth ∧ ∃ s, e.target.scopes.globals.find? "g" = some s ∧
      s.toDeclaration = ⟨"g", .int, .plain, default, "Global"⟩ := by
  intro g s f p
  have hread : ofTokens [⟨.varWord, "var", default⟩, ⟨.identifier, "g", default⟩,
      ⟨.colon, ":", default⟩, ⟨.typeWord, "int", default⟩, ⟨.assignment, "=", default⟩,
      ⟨.number, "1", default⟩, ⟨.semicolon, ";", default⟩, ⟨.typeWord, "void", default⟩,
      ⟨.identifier, "f", default⟩, ⟨.openParen, "(", default⟩, ⟨.closeParen, ")", default⟩,
      ⟨.openCurly, "\x7b", default⟩, ⟨.identifier, "g", default⟩, ⟨.assignment, "=", default⟩,
      ⟨.identifier, "g", default⟩, ⟨.plus, "+", default⟩, ⟨.number, "1", default⟩,
      ⟨.semicolon, ";", default⟩, ⟨.closeCurly, "\x7d", default⟩, ⟨.startWord, "start", default⟩,
      ⟨.identifier, "f", default⟩, ⟨.openParen, "(", default⟩, ⟨.closeParen, ")", default⟩,
      ⟨.semicolon, ";", default⟩] = .ok p := rfl
  have hclean : p.analyze.report.isEmpty = true := by decide +kernel
  have hvisible : p.prelude.scopes.get? "g" = some ⟨"g", .int, .plain, default, "Global"⟩ := by
    decide +kernel
  have hcall : (p.history 20 2).any (fun e => decide (0 < e.target.depth)) = true := by
    decide +kernel
  obtain ⟨c, hc⟩ := exists_opens (p := p) (f := f) List.mem_cons_self
  obtain ⟨e, he, hdepth⟩ := List.any_eq_true.1 hcall
  have hdepth := of_decide_eq_true hdepth
  have hchecked : c.scopes.get? "g" = some ⟨"g", .int, .plain, default, "Global"⟩ :=
    (congrArg (fun N : Names => N.scopes.get? "g") hc.names).trans hvisible
  exact ⟨(globals_precede_calls.1 s rfl 9 [] (Machine.fresh 2)).2, e, he, hdepth,
    globals_precede_calls.2 _ p hread hclean 20 2 e he (.inl hdepth) f c hc "g" _ hchecked⟩

end Program

end Primer
