import Primer.Diagnostic

/-!
# Results with diagnostics

What a check finds, with the diagnostics it gives on the way, in order.
-/

namespace Primer

/-- A result and the diagnostics on the way to it. -/
structure Judged (α : Type) where
  value : α
  notes : List Diagnostic := []
deriving Repr

namespace Judged

variable {α β : Type}

instance : Monad Judged where
  pure a := ⟨a, []⟩
  bind x f :=
    let y := f x.value
    ⟨y.value, x.notes ++ y.notes⟩

/-- A diagnostic. -/
def note (d : Diagnostic) : Judged Unit := ⟨(), [d]⟩

/-- A result that comes with a diagnostic. -/
def reject (fault : Fault) (p : Position) (a : α) : Judged α := ⟨a, [⟨fault, p⟩]⟩

@[simp] theorem value_pure (a : α) : (pure a : Judged α).value = a := rfl

@[simp] theorem notes_pure (a : α) : (pure a : Judged α).notes = [] := rfl

@[simp] theorem value_bind (x : Judged α) (f : α → Judged β) :
    (x >>= f).value = (f x.value).value := rfl

@[simp] theorem notes_bind (x : Judged α) (f : α → Judged β) :
    (x >>= f).notes = x.notes ++ (f x.value).notes := rfl

end Judged

end Primer
