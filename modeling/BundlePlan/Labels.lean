import BundlePlan.Text.Blank
import BundlePlan.Text.Split

/-!
# Labels and node selectors

`Labels` is a finite map from label keys to label values. It is kept as a list in strictly
increasing order of keys, so two maps with the same entries are equal. `Labels.ofSelector` reads
a node selector of the form `key=value,key2=value2`.
-/

namespace BundlePlan

/-- Whether each key in a list of entries is smaller than all keys after it. -/
def KeysIncrease (entries : List (String × String)) : Prop :=
  entries.Pairwise fun a b => a.1 < b.1

/-- A finite map from keys to values. -/
structure Labels where
  /-- The entries in the order of their keys. -/
  entries : List (String × String)
  /-- No key occurs twice, and the keys are in order. -/
  keysIncrease : KeysIncrease entries := by exact List.Pairwise.nil

namespace Labels

/-- The map without entries. -/
def empty : Labels where
  entries := []

/-- The entries with the value of one key set. -/
def setEntry (key value : String) : List (String × String) → List (String × String)
  | [] => [(key, value)]
  | entry :: rest =>
    if key < entry.1 then (key, value) :: entry :: rest
    else if key = entry.1 then (key, value) :: rest
    else entry :: setEntry key value rest

theorem mem_setEntry {key value : String} {entries : List (String × String)}
    {e : String × String} (h : e ∈ setEntry key value entries) :
    e = (key, value) ∨ e ∈ entries := by
  induction entries with
  | nil => simpa [setEntry] using h
  | cons entry rest ih =>
    simp only [setEntry] at h
    split at h
    · simpa using h
    · split at h
      · rcases List.mem_cons.1 h with h | h
        · exact Or.inl h
        · exact Or.inr (List.mem_cons_of_mem _ h)
      · rcases List.mem_cons.1 h with h | h
        · exact Or.inr (h ▸ List.mem_cons_self)
        · exact (ih h).imp id (List.mem_cons_of_mem _)

theorem keysIncrease_setEntry (key value : String) {entries : List (String × String)}
    (h : KeysIncrease entries) : KeysIncrease (setEntry key value entries) := by
  induction entries with
  | nil => exact List.pairwise_singleton _ _
  | cons entry rest ih =>
    obtain ⟨hentry, hrest⟩ := List.pairwise_cons.1 h
    simp only [setEntry]
    split
    · rename_i hlt
      refine List.pairwise_cons.2 ⟨?_, h⟩
      intro e he
      rcases List.mem_cons.1 he with rfl | he
      · exact hlt
      · exact String.lt_trans hlt (hentry e he)
    · split
      · rename_i heq
        exact List.pairwise_cons.2 ⟨fun e he => heq ▸ hentry e he, hrest⟩
      · rename_i hlt hne
        refine List.pairwise_cons.2 ⟨?_, ih hrest⟩
        intro e he
        rcases mem_setEntry he with rfl | he
        · rcases String.le_total key entry.1 with hle | hle
          · exact absurd (String.le_antisymm hle (String.not_lt.1 hlt)) hne
          · exact String.not_le.1 fun h => hne (String.le_antisymm h hle)
        · exact hentry e he

/-- The map in which `key` has `value` and all other keys have what they had. -/
def insert (labels : Labels) (key value : String) : Labels where
  entries := setEntry key value labels.entries
  keysIncrease := keysIncrease_setEntry key value labels.keysIncrease

/-- The map with the given entries, in which the last value of a key counts. -/
def ofList (entries : List (String × String)) : Labels :=
  entries.foldl (fun labels (key, value) => labels.insert key value) empty

/-- Whether there are no entries. -/
def isEmpty (labels : Labels) : Bool := labels.entries.isEmpty

/-- The entry that one part of a selector gives; a part without an equals sign gives none. -/
def selectorEntry? (part : List Char) : Option (String × String) :=
  (Text.cutFirst '=' (Text.trim part)).map fun (key, value) =>
    (String.ofList (Text.trim key), String.ofList (Text.trim value))

/-- The labels that a node selector asks for. -/
def ofSelector (selector : String) : Labels :=
  ofList ((Text.pieces ',' selector.toList).filterMap selectorEntry?)

end Labels

end BundlePlan
