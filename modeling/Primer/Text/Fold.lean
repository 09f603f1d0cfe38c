import Primer.Text.Cased

/-!
# Names without case

Names and reserved words are the same if they differ only in the case of their letters, plain ones
or others.
-/

namespace Primer.Text

/-- A name in small letters, the form in which names are compared. -/
def fold (s : String) : String := String.ofList (lower endsWord s.toList)

/-- A capital sigma has a small form of its own at the end of a word. -/
example : fold "ΣΟΦΌΣ" = "σοφός" := by decide +kernel

end Primer.Text
