import Mathlib.Data.List.DropRight
import Mathlib.Data.List.TakeWhile

/-!
# Runs of characters

A run is the longest start of a text whose characters all pass a test. It is found again in any text
that goes on with a character that does not pass, or ends (`Stops`). The same holds from the end.
-/

namespace BundlePlan.Text

variable {p : Char → Bool} {run rest s : List Char}

/-- The text is empty or starts with a character that does not pass. -/
def Stops (p : Char → Bool) (s : List Char) : Prop := ∀ c ∈ s.head?, p c = false

theorem stops_nil : Stops p [] := nofun

theorem stops_cons {c : Char} (hc : p c = false) (s : List Char) : Stops p (c :: s) := by
  intro d hd
  obtain rfl := Option.some.inj hd
  exact hc

theorem Stops.takeWhile (h : Stops p s) : s.takeWhile p = [] := by
  cases s with
  | nil => rfl
  | cons c s => exact List.takeWhile_cons_of_neg (by simp [h c rfl])

theorem Stops.dropWhile (h : Stops p s) : s.dropWhile p = s := by
  cases s with
  | nil => rfl
  | cons c s => exact List.dropWhile_cons_of_neg (by simp [h c rfl])

theorem takeWhile_run (hrun : ∀ c ∈ run, p c = true) (hrest : Stops p rest) :
    (run ++ rest).takeWhile p = run := by
  rw [List.takeWhile_append_of_pos hrun, hrest.takeWhile, List.append_nil]

theorem dropWhile_run (hrun : ∀ c ∈ run, p c = true) (hrest : Stops p rest) :
    (run ++ rest).dropWhile p = rest := by
  rw [List.dropWhile_append_of_pos hrun, hrest.dropWhile]

theorem rtakeWhile_run (hrun : ∀ c ∈ run, p c = true) (hs : Stops p s.reverse) :
    (s ++ run).rtakeWhile p = run := by
  rw [List.rtakeWhile, List.reverse_append,
    takeWhile_run (fun c hc => hrun c (List.mem_reverse.1 hc)) hs, List.reverse_reverse]

theorem rdropWhile_run (hrun : ∀ c ∈ run, p c = true) (hs : Stops p s.reverse) :
    (s ++ run).rdropWhile p = s := by
  rw [List.rdropWhile, List.reverse_append,
    dropWhile_run (fun c hc => hrun c (List.mem_reverse.1 hc)) hs, List.reverse_reverse]

end BundlePlan.Text
