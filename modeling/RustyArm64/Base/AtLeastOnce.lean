import Mathlib.Data.Nat.Notation

/-! Executions that are repeated from their start until one of them completes.
An execution makes the calls that it reads off the world it finds. A crash
leaves the world as the calls before it have left it. -/
namespace AtLeastOnce

variable {World Call View : Type*} (apply : World → Call → World) (calls : World → List Call)

/-- The world after an execution that crashes when it has made `k` of its calls. -/
def crash (world : World) (k : Nat) : World := ((calls world).take k).foldl apply world

def complete (world : World) : World := (calls world).foldl apply world

theorem crash_of_length_le {world : World} {k : Nat} (h : (calls world).length ≤ k) :
    crash apply calls world k = complete apply calls world := by
  rw [crash, List.take_of_length_le h, complete]

section Observed

variable {apply calls} (observe : World → View)
  (hCrash : ∀ world k,
    observe (complete apply calls (crash apply calls world k)) =
      observe (complete apply calls world))

include hCrash in
/-- If one crash before a complete execution cannot be observed behind it, then
no number of crashes can. -/
theorem complete_after_crashes (crashes : List Nat) (world : World) :
    observe (complete apply calls (crashes.foldl (crash apply calls) world)) =
      observe (complete apply calls world) := by
  induction crashes generalizing world with
  | nil => rfl
  | cons k rest ih => rw [List.foldl_cons, ih, hCrash]

end Observed

end AtLeastOnce
