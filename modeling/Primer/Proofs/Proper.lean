import Mathlib
import Primer.Grammar.Statement

/-!
# What the grammar lets through

Not every tree of statements can be written down. Variables have types that values have, the header
of a `for` holds no jump, `++` and `--` change what can be assigned, and `else` goes on with a block
or another `if`. Every program that is read has these properties (`proper_of_ofTokens`).
-/

namespace Primer

/-- Whether a variable can have a type. -/
def Ty.Storable (t : Ty) : Prop := t ≠ .void ∧ t ≠ .error

namespace Stmt

/-- What stands as a simple statement: an assignment, a step or an expression. -/
def isSimple : Stmt → Bool
  | assign .. => true
  | assignIndex .. => true
  | step .. => true
  | expression .. => true
  | _ => false

/-- What can stand first in the header of a `for`. -/
def isFirst : Stmt → Bool
  | declare .. => true
  | s => s.isSimple

theorem isFirst_of_isSimple {s : Stmt} (h : s.isSimple = true) : s.isFirst = true := by
  cases s <;> first | rfl | exact h

/-- What can follow `else`. -/
def isAlternative : Stmt → Bool
  | block .. => true
  | branch .. => true
  | _ => false

/-- A statement the grammar lets through, with all that stands inside it. -/
inductive Proper : Stmt → Prop
  | declare {span name ty value} (h : ty.Storable) : Proper (.declare span name ty value)
  | assign {span name value} : Proper (.assign span name value)
  | assignIndex {span target index column value} :
    Proper (.assignIndex span target index column value)
  | step {span target up} (h : target.isTarget = true) : Proper (.step span target up)
  | block {b} (h : ∀ s ∈ b.body, Proper s) : Proper (.block b)
  | branch {span test body otherwise} (h : ∀ s ∈ body.body, Proper s)
    (ha : ∀ s ∈ otherwise, s.isAlternative = true) (h' : ∀ s ∈ otherwise, Proper s) :
    Proper (.branch span test body otherwise)
  | switch {span scrutinee cases fallback} (h : ∀ c ∈ cases, ∀ s ∈ c.body, Proper s)
    (h' : ∀ body ∈ fallback, ∀ s ∈ body, Proper s) : Proper (.switch span scrutinee cases fallback)
  | whileLoop {span test body} (h : ∀ s ∈ body.body, Proper s) :
    Proper (.whileLoop span test body)
  | doLoop {span body test} (h : ∀ s ∈ body.body, Proper s) : Proper (.doLoop span body test)
  | forLoop {span first test next body} (hf : ∀ s ∈ first, s.isFirst = true)
    (hf' : ∀ s ∈ first, Proper s) (hn : ∀ s ∈ next, s.isSimple = true)
    (hn' : ∀ s ∈ next, Proper s) (h : ∀ s ∈ body.body, Proper s) :
    Proper (.forLoop span first test next body)
  | breakOut {span} : Proper (.breakOut span)
  | continueOn {span} : Proper (.continueOn span)
  | print {span value} : Proper (.print span value)
  | function {f} (hr : f.returns ≠ .error) (hp : ∀ q ∈ f.parameters, q.ty.Storable)
    (h : ∀ s ∈ f.body.body, Proper s) : Proper (.function f)
  | giveBack {span value} : Proper (.giveBack span value)
  | start {span name arguments} : Proper (.start span name arguments)
  | expression {span value} : Proper (.expression span value)

end Stmt

/-- A function whose types and body the grammar lets through. -/
def Function.Proper (f : Function) : Prop :=
  f.returns ≠ .error ∧ (∀ q ∈ f.parameters, q.ty.Storable) ∧ ∀ s ∈ f.body.body, s.Proper

/-- A program the grammar lets through. -/
def Program.Proper (p : Program) : Prop := ∀ s ∈ p.body, s.Proper

theorem Program.Proper.function {p : Program} (h : p.Proper) {f : Function}
    (hf : f ∈ p.functions) : f.Proper := by
  obtain ⟨s, hs, hsf⟩ := List.mem_filterMap.1 hf
  cases s <;> simp only [Stmt.function?, Option.some.injEq, reduceCtorEq] at hsf
  subst hsf
  cases h _ hs with
  | function hr hp hb => exact ⟨hr, hp, hb⟩

/-- Every value a computation ends with has a property. -/
def Effect.Gives {σ α : Type} (x : Effect σ α) (P : α → Prop) : Prop :=
  ∀ s a t, x s = .done a t → P a

namespace Effect

variable {σ α β : Type} {P : α → Prop} {Q : β → Prop} {x : Effect σ α} {f : α → Effect σ β}

theorem gives_pure {a : α} (h : P a) : Gives (pure a : Effect σ α) P := by
  rintro s b t hb
  simp only [pure_apply, Outcome.done.injEq] at hb
  exact hb.1 ▸ h

theorem Gives.bind (hx : Gives x P) (hf : ∀ a, P a → Gives (f a) Q) : Gives (x >>= f) Q := by
  intro s b t h
  rw [bind_apply] at h
  cases hs : x s <;> simp only [hs, reduceCtorEq] at h
  exact hf _ (hx _ _ _ hs) _ _ _ h

theorem Gives.imp {P' : α → Prop} (hx : Gives x P) (h : ∀ a, P a → P' a) : Gives x P' :=
  fun s a t hs => h a (hx s a t hs)

/-- What a computation gives does not matter for what follows. -/
theorem gives_bind (hf : ∀ a, Gives (f a) Q) : Gives (x >>= f) Q :=
  Gives.bind (P := fun _ => True) (fun _ _ _ _ => trivial) fun a _ => hf a

theorem gives_exhausted : Gives (exhausted : Effect σ α) P := by
  intro s a t h
  simp [exhausted] at h

theorem gives_fail {d : Diagnostic} : Gives (fail d : Effect σ α) P := by
  intro s a t h
  simp [fail] at h

theorem gives_ofOption {p : Position} {fault : Fault} {o : Option α} (h : ∀ a ∈ o, P a) :
    Gives (ofOption p fault o : Effect σ α) P := by
  cases o with
  | none => exact gives_fail
  | some a => exact gives_pure (h a rfl)

end Effect

open Effect

theorem Parse.gives_unexpectedDetailed {α : Type} {P : α → Prop} {message : String} :
    Gives (Parse.unexpectedDetailed message : Parse α) P := by
  intro s a t h
  simp [Parse.unexpectedDetailed] at h

theorem Ty.ofName?_ne_error {name : String} {t : Ty} (h : Ty.ofName? name = some t) :
    t ≠ .error := by
  rintro rfl
  simp only [Ty.ofName?] at h
  split at h
  · simp at h
  · split at h
    · simp at h
    · split at h
      · simp at h
      · split at h <;> simp at h

namespace Grammar

theorem arrays_gives : ∀ {n : Nat} {left : Ty}, left ≠ .error → Gives (arrays n left) (· ≠ .error)
  | 0, _, _ => gives_exhausted
  | n + 1, left, h => by
    refine gives_bind fun k => ?_
    dsimp only
    split
    · refine gives_bind fun _ => gives_bind fun _ => ?_
      split
      · exact arrays_gives (by simp)
      · exact arrays_gives (by simp)
      · exact gives_fail
    · exact gives_pure h

theorem type_gives : ∀ {n : Nat}, Gives (type n) (· ≠ .error)
  | 0 => gives_exhausted
  | n + 1 => by
    refine gives_bind fun k => ?_
    split
    · refine gives_bind fun token => Gives.bind
        (gives_ofOption fun _ h => Ty.ofName?_ne_error h) fun ty h => arrays_gives h
    · exact gives_bind fun _ => gives_bind fun _ => gives_bind fun _ => gives_bind fun _ =>
        gives_bind fun _ => arrays_gives (by simp)
    · exact Parse.gives_unexpectedDetailed

theorem valueType_gives {n : Nat} : Gives (valueType n) Ty.Storable := by
  refine gives_bind fun p => Gives.bind type_gives fun ty h => ?_
  split
  · exact gives_fail
  · exact gives_pure ⟨‹_›, h⟩

theorem assignment_isSimple (span : Span) (target value : Expr) :
    (assignment span target value).isSimple = true ∧ (assignment span target value).Proper := by
  cases target <;> exact ⟨rfl, by constructor⟩

theorem simple_gives {n : Nat} : Gives (simple n) fun s => s.isSimple = true ∧ s.Proper := by
  refine gives_bind fun start => gives_bind fun target => gives_bind fun k => ?_
  split
  · split
    · exact gives_bind fun _ => gives_bind fun _ => gives_bind fun _ =>
        gives_pure (assignment_isSimple ..)
    · exact Parse.gives_unexpectedDetailed
  · split
    · exact gives_bind fun _ => gives_bind fun _ => gives_pure ⟨rfl, .step ‹_›⟩
    · exact Parse.gives_unexpectedDetailed
  · split
    · exact gives_bind fun _ => gives_bind fun _ => gives_pure ⟨rfl, .step ‹_›⟩
    · exact Parse.gives_unexpectedDetailed
  · exact gives_bind fun _ => gives_pure ⟨rfl, .expression⟩

theorem declaration_gives {n : Nat} :
    Gives (declaration n) fun s => s.isFirst = true ∧ s.Proper := by
  refine gives_bind fun _ => gives_bind fun _ => gives_bind fun _ =>
    Gives.bind valueType_gives fun ty h => gives_bind fun k => ?_
  split
  · exact gives_bind fun _ => gives_bind fun _ => gives_bind fun _ =>
      gives_pure ⟨rfl, .declare h⟩
  · exact gives_bind fun _ => gives_pure ⟨rfl, .declare h⟩

theorem forFirst_gives {n : Nat} :
    Gives (forFirst n) fun o => ∀ s ∈ o, s.isFirst = true ∧ s.Proper := by
  refine gives_bind fun k => ?_
  split
  · exact gives_pure (by simp)
  · exact Gives.bind declaration_gives fun s h => gives_pure (by simpa using h)
  · exact Gives.bind simple_gives fun s h =>
      gives_pure (by simpa using ⟨Stmt.isFirst_of_isSimple h.1, h.2⟩)

theorem forNext_gives {n : Nat} :
    Gives (forNext n) fun o => ∀ s ∈ o, s.isSimple = true ∧ s.Proper := by
  refine gives_bind fun k => ?_
  split
  · exact gives_pure (by simp)
  · exact Gives.bind simple_gives fun s h => gives_pure (by simpa using h)

theorem parameters_gives : ∀ {n : Nat}, Gives (parameters n) fun qs => ∀ q ∈ qs, q.ty.Storable
  | 0 => gives_exhausted
  | n + 1 => by
    refine gives_bind fun k => ?_
    split
    · exact gives_bind fun _ => gives_pure (by simp)
    · refine gives_bind fun p => Gives.bind valueType_gives fun ty h => gives_bind fun name =>
        gives_bind fun k => ?_
      split
      · exact gives_bind fun _ => gives_pure (by simpa using h)
      · exact gives_bind fun _ => Gives.bind parameters_gives fun rest hr =>
          gives_pure (by simpa using ⟨h, hr⟩)

mutual

theorem stmt_gives : ∀ {n : Nat}, Gives (stmt n) Stmt.Proper
  | 0 => gives_exhausted
  | n + 1 => by
    refine gives_bind fun k => ?_
    split
    · exact Gives.bind declaration_gives fun s h => gives_bind fun _ => gives_pure h.2
    · exact Gives.bind function_gives fun f h => gives_pure (.function h.1 h.2.1 h.2.2)
    · exact Gives.bind function_gives fun f h => gives_pure (.function h.1 h.2.1 h.2.2)
    · exact branch_gives.imp fun _ h => h.2
    · exact switch_gives
    · exact gives_bind fun _ => gives_bind fun _ => Gives.bind block_gives fun b h =>
        gives_bind fun _ => gives_pure (.whileLoop h)
    · exact gives_bind fun _ => Gives.bind block_gives fun b h => gives_bind fun _ =>
        gives_bind fun _ => gives_bind fun _ => gives_bind fun _ => gives_pure (.doLoop h)
    · exact gives_bind fun _ => gives_bind fun _ => Gives.bind forFirst_gives fun first hf =>
        gives_bind fun _ => gives_bind fun _ => gives_bind fun _ =>
        Gives.bind forNext_gives fun next hn => gives_bind fun _ =>
        Gives.bind block_gives fun b h => gives_bind fun _ => gives_pure
          (.forLoop (fun s hs => (hf s hs).1) (fun s hs => (hf s hs).2)
            (fun s hs => (hn s hs).1) (fun s hs => (hn s hs).2) h)
    · exact Gives.bind block_gives fun b h => gives_pure (.block h)
    · exact gives_bind fun _ => gives_bind fun _ => gives_bind fun _ => gives_pure .breakOut
    · exact gives_bind fun _ => gives_bind fun _ => gives_bind fun _ => gives_pure .continueOn
    · refine gives_bind fun _ => gives_bind fun k => ?_
      split
      · exact gives_bind fun _ => gives_bind fun _ => gives_pure .giveBack
      · exact gives_bind fun _ => gives_bind fun _ => gives_bind fun _ => gives_pure .giveBack
    · exact gives_bind fun _ => gives_bind fun _ => gives_bind fun _ => gives_bind fun _ =>
        gives_bind fun _ => gives_bind fun _ => gives_pure .start
    · exact gives_bind fun _ => gives_bind fun _ => gives_bind fun _ => gives_bind fun _ =>
        gives_pure .print
    · exact Gives.bind simple_gives fun s h => gives_bind fun _ => gives_pure h.2

theorem stmts_gives : ∀ {n : Nat} {ends : TokenKind → Bool},
    Gives (stmts n ends) fun ss => ∀ s ∈ ss, s.Proper
  | 0, _ => gives_exhausted
  | n + 1, ends => by
    refine gives_bind fun k => ?_
    split
    · exact gives_pure (by simp)
    · exact Gives.bind stmt_gives fun s h => Gives.bind stmts_gives fun ss hs =>
        gives_pure (by simpa using ⟨h, hs⟩)

theorem block_gives : ∀ {n : Nat}, Gives (block n) fun b => ∀ s ∈ b.body, s.Proper
  | 0 => gives_exhausted
  | _ + 1 => gives_bind fun _ => Gives.bind stmts_gives fun _ h => gives_bind fun _ =>
      gives_bind fun _ => gives_pure h

theorem branch_gives : ∀ {n : Nat}, Gives (branch n) fun s => s.isAlternative = true ∧ s.Proper
  | 0 => gives_exhausted
  | n + 1 => by
    refine gives_bind fun _ => gives_bind fun _ => Gives.bind block_gives fun b h =>
      gives_bind fun k => ?_
    split
    · refine gives_bind fun _ => gives_bind fun k => ?_
      split
      · exact Gives.bind branch_gives fun s hs => gives_bind fun _ => gives_pure
          ⟨rfl, .branch h (by simpa using hs.1) (by simpa using hs.2)⟩
      · exact Gives.bind block_gives fun b hb => gives_bind fun _ => gives_pure
          ⟨rfl, .branch h (by simp [Stmt.isAlternative]) (by simpa using .block hb)⟩
    · exact gives_bind fun _ => gives_pure ⟨rfl, .branch h (by simp) (by simp)⟩

theorem switch_gives : ∀ {n : Nat}, Gives (switch n) Stmt.Proper
  | 0 => gives_exhausted
  | _ + 1 => gives_bind fun _ => gives_bind fun _ => gives_bind fun _ =>
      Gives.bind cases_gives fun _ h => Gives.bind fallback_gives fun _ h' =>
      gives_bind fun _ => gives_bind fun _ => gives_pure (.switch h h')

theorem cases_gives : ∀ {n : Nat}, Gives (cases n) fun cs => ∀ c ∈ cs, ∀ s ∈ c.body, s.Proper
  | 0 => gives_exhausted
  | n + 1 => by
    refine gives_bind fun k => ?_
    dsimp only
    split
    · exact gives_bind fun _ => gives_bind fun _ => gives_bind fun _ =>
        Gives.bind stmts_gives fun body h => gives_bind fun _ =>
        Gives.bind cases_gives fun cs hs => gives_pure (by simpa using ⟨h, hs⟩)
    · exact gives_pure (by simp)

theorem fallback_gives : ∀ {n : Nat},
    Gives (fallback n) fun o => ∀ body ∈ o, ∀ s ∈ body, s.Proper
  | 0 => gives_exhausted
  | n + 1 => by
    refine gives_bind fun k => ?_
    split
    · exact gives_bind fun _ => gives_bind fun _ => Gives.bind stmts_gives fun body h =>
        gives_pure (by simpa using h)
    · exact gives_pure (by simp)

theorem function_gives : ∀ {n : Nat}, Gives (function n) Function.Proper
  | 0 => gives_exhausted
  | _ + 1 => gives_bind fun _ => Gives.bind type_gives fun _ hr => gives_bind fun _ =>
      gives_bind fun _ => Gives.bind parameters_gives fun _ hp =>
      Gives.bind block_gives fun _ h => gives_bind fun _ => gives_pure ⟨hr, hp, h⟩

end

end Grammar

/-- Every program that is read is proper. -/
theorem Program.proper_of_ofTokens {tokens : List Token} {p : Program}
    (h : Program.ofTokens tokens = .ok p) : p.Proper := by
  simp only [ofTokens] at h
  split at h <;> cases h
  rename_i hp
  exact (Gives.bind Grammar.stmts_gives fun _ h => gives_pure h :
    Gives (Program.mk <$> _) Program.Proper) _ _ _ hp

theorem Program.proper_of_ofSource {source : String} {p : Program} (h : ofSource source = .ok p) :
    p.Proper := by
  unfold ofSource at h
  split at h
  · exact proper_of_ofTokens h
  · cases h

end Primer
