import Primer.Diagnostic
import Primer.Symbol

/-!
# Scopes

A stack of frames, searched from the innermost outwards, with a global frame that always stays. The
labels name the constructs that were entered. A call sets everything above the global frame aside.
-/

namespace Primer

/-- Entries by folded name, the latest first. -/
abbrev Frame (β : Type) := List (String × β)

namespace Frame

variable {β : Type}

/-- The entry of a name. -/
def find? (frame : Frame β) (name : String) : Option β := frame.lookup (Text.fold name)

/-- Whether a name has an entry. -/
def has (frame : Frame β) (name : String) : Bool := (frame.find? name).isSome

/-- The frame with one entry more. -/
def add (frame : Frame β) (name : String) (entry : β) : Frame β :=
  (Text.fold name, entry) :: frame

theorem find?_add (frame : Frame β) (name key : String) (entry : β) :
    (frame.add name entry).find? key =
      if Text.fold key == Text.fold name then some entry else frame.find? key := by
  simp only [find?, add, List.lookup_cons]
  split <;> simp_all

/-- The frame with the entry of a folded name changed. -/
def change (key : String) (f : β → β) : Frame β → Frame β
  | [] => []
  | (k, b) :: rest => if key == k then (k, f b) :: rest else (k, b) :: change key f rest

end Frame

/-- Frames and labels, the global ones apart and the others innermost first. -/
structure Scopes (β : Type) where
  globals : Frame β := []
  frames : List (Frame β) := []
  labels : List String := []

/-- What a call sets aside. -/
structure Detached (β : Type) where
  frames : List (Frame β)
  labels : List String

namespace Scopes

variable {β : Type}

/-- The label of the global frame. -/
def globalLabel : String := "Global"

def push (s : Scopes β) : Scopes β := { s with frames := [] :: s.frames }

/-- Leaves the innermost frame, unless it is the global one. -/
def pop (s : Scopes β) : Scopes β := { s with frames := s.frames.tail }

def pushLabel (s : Scopes β) (label : String) : Scopes β :=
  { s with labels := label :: s.labels }

/-- Leaves the innermost label, unless it is the global one. -/
def popLabel (s : Scopes β) : Scopes β := { s with labels := s.labels.tail }

def depth (s : Scopes β) : Nat := s.frames.length + 1

def atGlobal (s : Scopes β) : Bool := s.frames.isEmpty

def label (s : Scopes β) : String := s.labels.head?.getD globalLabel

/-- The labels from the global one inwards. -/
def path (s : Scopes β) : String := "> ".intercalate (globalLabel :: s.labels.reverse)

/-- The innermost frame. -/
def innermost (s : Scopes β) : Frame β := s.frames.head?.getD s.globals

/-- Whether the innermost frame has a name. -/
def declaredHere (s : Scopes β) (name : String) : Bool := s.innermost.has name

/-- The entry of a folded name in the first of the frames that has one. -/
def findIn (key : String) : List (Frame β) → Frame β → Option β
  | [], globals => globals.lookup key
  | frame :: rest, globals =>
    match frame.lookup key with
    | some b => some b
    | none => findIn key rest globals

/-- The entry of a name in the innermost frame that has one. -/
def get? (s : Scopes β) (name : String) : Option β := findIn (Text.fold name) s.frames s.globals

/-- The entry of a name. -/
def lookup (s : Scopes β) (name : String) (p : Position) : Except Diagnostic β :=
  match s.get? name with
  | some b => .ok b
  | none => .error ⟨.undeclaredIdentifier name, p⟩

/-- The scopes with one entry more in the innermost frame. -/
def add (s : Scopes β) (name : String) (entry : β) : Scopes β :=
  match s.frames with
  | [] => { s with globals := s.globals.add name entry }
  | frame :: rest => { s with frames := frame.add name entry :: rest }

/-- Refuses a name that the innermost frame has. -/
def checkFree (s : Scopes β) (name : String) (p : Position) : Except Diagnostic Unit :=
  if s.declaredHere name then .error ⟨.duplicateDeclaration name, p⟩ else .ok ()

/-- Declares a name in the innermost frame, which must not have it. -/
def declare (s : Scopes β) (d : Declaration) (entry : β) : Except Diagnostic (Scopes β) := do
  s.checkFree d.name d.position
  return s.add d.name entry

/-- Frames with the entry of a folded name changed in the first that has it. -/
def changeFirst (key : String) (f : β → β) : List (Frame β) → Option (List (Frame β))
  | [] => none
  | frame :: rest =>
    if (frame.lookup key).isSome then some (frame.change key f :: rest)
    else (changeFirst key f rest).map (frame :: ·)

/-- The scopes with the entry of a name changed in the innermost frame that has one. -/
def change (s : Scopes β) (name : String) (f : β → β) : Scopes β :=
  let key := Text.fold name
  match changeFirst key f s.frames with
  | some frames => { s with frames }
  | none => { s with globals := s.globals.change key f }

/-- Sets aside everything above the global frame. -/
def detach (s : Scopes β) : Detached β × Scopes β :=
  (⟨s.frames, s.labels⟩, { s with frames := [], labels := [] })

/-- Puts back what was set aside, over the global frame as it is now. -/
def reattach (s : Scopes β) (d : Detached β) : Scopes β :=
  { s with frames := d.frames, labels := d.labels }

@[simp] theorem pop_push (s : Scopes β) : s.push.pop = s := rfl

@[simp] theorem popLabel_pushLabel (s : Scopes β) (label : String) :
    (s.pushLabel label).popLabel = s := rfl

@[simp] theorem reattach_detach (s : Scopes β) : s.detach.2.reattach s.detach.1 = s := rfl

end Scopes

end Primer
