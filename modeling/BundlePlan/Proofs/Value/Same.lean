import BundlePlan.Value.Basic

/-!
# Values up to the order of entries

The order in which the entries of a mapping stand carries no meaning. `Value.Same` relates two
values that differ in this order only, at any depth, and putting the keys in order changes nothing
but it. The amount of text in a value, `textLength`, does not depend on it either.
-/

namespace BundlePlan.Value

/-- Two values that differ in the order of the entries of mappings only. -/
inductive Same : Value → Value → Prop
  | refl (v : Value) : Same v v
  | symm {v w : Value} (h : Same v w) : Same w v
  | trans {u v w : Value} (h : Same u v) (h' : Same v w) : Same u w
  | item (before after : List Value) {v w : Value} (h : Same v w) :
      Same (list (before ++ v :: after)) (list (before ++ w :: after))
  | entry (before after : List (String × Value)) (key : String) {v w : Value} (h : Same v w) :
      Same (mapping (before ++ (key, v) :: after)) (mapping (before ++ (key, w) :: after))
  | order {entries entries' : List (String × Value)} (h : entries.Perm entries') :
      Same (mapping entries) (mapping entries')

theorem perm_insertByKey (entry : String × Value) (entries : List (String × Value)) :
    (insertByKey entry entries).Perm (entry :: entries) := by
  induction entries with
  | nil => exact List.Perm.refl _
  | cons other rest ih =>
    rw [insertByKey]
    split
    · exact (ih.cons other).trans (List.Perm.swap entry other rest)
    · exact List.Perm.refl _

mutual

/-- Putting the keys in order gives the same value. -/
theorem same_sortKeys : ∀ v : Value, Same v v.sortKeys
  | null => .refl _
  | bool _ => .refl _
  | int _ => .refl _
  | text _ => .refl _
  | list items => by
    rw [sortKeys]
    exact same_sortItems [] items
  | mapping entries => by
    rw [sortKeys]
    exact same_sortEntries [] entries

theorem same_sortItems (before : List Value) : ∀ items : List Value,
    Same (list (before ++ items)) (list (before ++ sortItems items))
  | [] => .refl _
  | item :: items => by
    have hitem := Same.item before items (same_sortKeys item)
    have hitems := same_sortItems (before ++ [item.sortKeys]) items
    rw [List.append_assoc, List.append_assoc] at hitems
    rw [sortItems]
    exact hitem.trans hitems

theorem same_sortEntries (before : List (String × Value)) : ∀ entries : List (String × Value),
    Same (mapping (before ++ entries)) (mapping (before ++ sortEntries entries))
  | [] => .refl _
  | (key, value) :: entries => by
    have hentry := Same.entry before entries key (same_sortKeys value)
    have hentries := same_sortEntries (before ++ [(key, value.sortKeys)]) entries
    rw [List.append_assoc, List.append_assoc] at hentries
    have horder := (perm_insertByKey (key, value.sortKeys) (sortEntries entries)).symm
    rw [sortEntries]
    exact (hentry.trans hentries).trans (.order (horder.append_left before))

end

/-! ### The amount of text -/

mutual

/-- The number of characters in the texts and the keys of a value. -/
def textLength : Value → Nat
  | null => 0
  | bool _ => 0
  | int _ => 0
  | text s => s.toList.length
  | list items => itemsLength items
  | mapping entries => entriesLength entries

/-- `textLength` of the items of a list. -/
def itemsLength : List Value → Nat
  | [] => 0
  | item :: items => item.textLength + itemsLength items

/-- `textLength` of the entries of a mapping. -/
def entriesLength : List (String × Value) → Nat
  | [] => 0
  | (key, value) :: entries => key.toList.length + value.textLength + entriesLength entries

end

theorem itemsLength_append (items items' : List Value) :
    itemsLength (items ++ items') = itemsLength items + itemsLength items' := by
  induction items with
  | nil => simp [itemsLength]
  | cons item items ih => simp only [List.cons_append, itemsLength, ih, Nat.add_assoc]

theorem entriesLength_append (entries entries' : List (String × Value)) :
    entriesLength (entries ++ entries') = entriesLength entries + entriesLength entries' := by
  induction entries with
  | nil => simp [entriesLength]
  | cons entry entries ih => simp only [List.cons_append, entriesLength, ih, Nat.add_assoc]

theorem entriesLength_perm {entries entries' : List (String × Value)} (h : entries.Perm entries') :
    entriesLength entries = entriesLength entries' := by
  induction h with
  | nil => rfl
  | cons entry _ ih => simp only [entriesLength, ih]
  | swap entry entry' entries => simp only [entriesLength]; omega
  | trans _ _ ih ih' => exact ih.trans ih'

theorem Same.textLength_eq {v w : Value} (h : Same v w) : v.textLength = w.textLength := by
  induction h with
  | refl => rfl
  | symm _ ih => exact ih.symm
  | trans _ _ ih ih' => exact ih.trans ih'
  | item before after _ ih => simp only [textLength, itemsLength_append, itemsLength, ih]
  | entry before after key _ ih => simp only [textLength, entriesLength_append, entriesLength, ih]
  | order h => simp only [textLength, entriesLength_perm h]

end BundlePlan.Value
