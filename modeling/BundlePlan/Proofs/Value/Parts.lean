import BundlePlan.Proofs.Value.Same
import Mathlib.Data.List.Sort

/-!
# The parts of values

`PartOf u v` says that `u` occurs in `v`, at any depth. With it a property of all mappings in a
value is stated at once: that no key occurs twice (`DistinctKeys`), as in any value that comes from
outside, and that the keys are in order (`InOrder`).

Putting the keys in order does so in every part. Without repeated keys there is one order only, so
that two values that differ in the order of entries become the same value (`Same.sortKeys_eq`).
-/

namespace BundlePlan.Value

/-- The first value occurs in the second. -/
inductive PartOf : Value → Value → Prop
  | self (v : Value) : PartOf v v
  | item {u v : Value} {items : List Value} (hv : v ∈ items) (h : PartOf u v) :
    PartOf u (list items)
  | entry {u v : Value} {key : String} {entries : List (String × Value)}
      (hv : (key, v) ∈ entries) (h : PartOf u v) : PartOf u (mapping entries)

/-- No mapping in the value has a key twice. -/
def DistinctKeys (v : Value) : Prop :=
  ∀ entries, PartOf (mapping entries) v → (entries.map Prod.fst).Nodup

/-- Every mapping in the value has its keys in strictly increasing order. -/
def InOrder (v : Value) : Prop :=
  ∀ entries, PartOf (mapping entries) v → entries.Pairwise fun a b => a.1 < b.1

/-- The text is a key of some mapping in the value. -/
def HasKey (v : Value) (key : String) : Prop :=
  ∃ entries, PartOf (mapping entries) v ∧ ∃ w, (key, w) ∈ entries

/-- The text occurs in the value, by itself or as a key. -/
def HasText (v : Value) (s : String) : Prop := PartOf (text s) v ∨ v.HasKey s

section

variable {u v w : Value} {items : List Value} {entries entries' : List (String × Value)}

theorem distinctKeys_list : (list items).DistinctKeys ↔ ∀ v ∈ items, v.DistinctKeys := by
  constructor
  · exact fun h v hv entries hpart => h entries (.item hv hpart)
  · intro h entries hpart
    cases hpart with
    | item hv hpart => exact h _ hv entries hpart

theorem distinctKeys_mapping :
    (mapping entries).DistinctKeys
      ↔ (entries.map Prod.fst).Nodup ∧ ∀ e ∈ entries, e.2.DistinctKeys := by
  constructor
  · exact fun h => ⟨h entries (.self _), fun e he entries hpart => h entries (.entry he hpart)⟩
  · intro h entries' hpart
    cases hpart with
    | self => exact h.1
    | entry hv hpart => exact h.2 _ hv entries' hpart

theorem distinctKeys_text (s : String) : (text s).DistinctKeys := by
  intro entries hpart
  cases hpart

/-! ### Keys in order -/

theorem sortItems_eq (items : List Value) : sortItems items = items.map sortKeys := by
  induction items with
  | nil => rfl
  | cons item items ih => rw [sortItems, ih, List.map_cons]

/-- An entry with the keys of its value in order. -/
def sortEntry (e : String × Value) : String × Value := (e.1, e.2.sortKeys)

theorem perm_sortEntries (entries : List (String × Value)) :
    (sortEntries entries).Perm (entries.map sortEntry) := by
  induction entries with
  | nil => exact List.Perm.refl _
  | cons e entries ih =>
    rw [sortEntries, List.map_cons]
    exact (perm_insertByKey _ _).trans (ih.cons _)

theorem map_fst_sortEntry (entries : List (String × Value)) :
    (entries.map sortEntry).map Prod.fst = entries.map Prod.fst := by
  rw [List.map_map]
  rfl

theorem pairwise_insertByKey {e : String × Value} (h : entries.Pairwise fun a b => a.1 < b.1)
    (hne : ∀ e' ∈ entries, e'.1 ≠ e.1) :
    (insertByKey e entries).Pairwise fun a b => a.1 < b.1 := by
  induction entries with
  | nil => exact List.pairwise_singleton _ _
  | cons other rest ih =>
    obtain ⟨hother, hrest⟩ := List.pairwise_cons.1 h
    obtain ⟨hfirst, hne⟩ := List.forall_mem_cons.1 hne
    rw [insertByKey]
    split
    · rename_i hlt
      refine List.pairwise_cons.2 ⟨fun e' he' => ?_, ih hrest hne⟩
      rcases List.mem_cons.1 ((perm_insertByKey e rest).mem_iff.1 he') with rfl | he'
      · exact hlt
      · exact hother e' he'
    · rename_i hnot
      have hlt : e.1 < other.1 := String.not_le.1 fun hle =>
        hfirst (String.le_antisymm hle (String.not_lt.1 hnot))
      refine List.pairwise_cons.2 ⟨List.forall_mem_cons.2 ⟨hlt, fun e' he' => ?_⟩, h⟩
      exact String.lt_trans hlt (hother e' he')

/-- Keys that do not repeat are put in strictly increasing order. -/
theorem pairwise_sortEntries (h : (entries.map Prod.fst).Nodup) :
    (sortEntries entries).Pairwise fun a b => a.1 < b.1 := by
  induction entries with
  | nil => exact List.Pairwise.nil
  | cons e entries ih =>
    rw [List.map_cons, List.nodup_cons] at h
    refine pairwise_insertByKey (ih h.2) fun e' he' heq => h.1 ?_
    rw [← map_fst_sortEntry, ← heq]
    exact List.mem_map_of_mem ((perm_sortEntries entries).mem_iff.1 he')

/-- Entries in strictly increasing order are told by which they are. -/
theorem eq_of_perm_of_pairwise (h : entries.Perm entries')
    (hlt : entries.Pairwise fun a b => a.1 < b.1)
    (hlt' : entries'.Pairwise fun a b => a.1 < b.1) : entries = entries' := by
  refine h.eq_of_pairwise (fun a b _ _ hab hba => ?_) hlt hlt'
  exact absurd (String.lt_trans hab hba) (String.lt_irrefl a.1)

/-- The order in which entries were given does not matter. -/
theorem sortEntries_eq_of_perm (hkeys : (entries.map Prod.fst).Nodup)
    (h : (entries.map sortEntry).Perm (entries'.map sortEntry)) :
    sortEntries entries = sortEntries entries' := by
  have hkeys' : (entries'.map Prod.fst).Nodup := by
    rw [← map_fst_sortEntry] at hkeys ⊢
    exact (h.map Prod.fst).nodup_iff.1 hkeys
  have hperm := ((perm_sortEntries entries).trans h).trans (perm_sortEntries entries').symm
  exact eq_of_perm_of_pairwise hperm (pairwise_sortEntries hkeys) (pairwise_sortEntries hkeys')

/-- Values that differ in the order of entries only become the same value. -/
theorem Same.sortKeys_eq (h : Same v w) :
    (v.DistinctKeys ↔ w.DistinctKeys) ∧ (v.DistinctKeys → v.sortKeys = w.sortKeys) := by
  induction h with
  | refl v => exact ⟨Iff.rfl, fun _ => rfl⟩
  | symm _ ih => exact ⟨ih.1.symm, fun hw => (ih.2 (ih.1.2 hw)).symm⟩
  | trans _ _ ih ih' =>
    exact ⟨ih.1.trans ih'.1, fun hu => (ih.2 hu).trans (ih'.2 (ih.1.1 hu))⟩
  | item before after _ ih =>
    simp only [distinctKeys_list, List.forall_mem_append, List.forall_mem_cons, ih.1, true_and]
    intro hitems
    simp only [sortKeys, sortItems_eq, List.map_append, List.map_cons, ih.2 (ih.1.2 hitems.2.1)]
  | @entry before after key v w _ ih =>
    have hdistinct : (mapping (before ++ (key, v) :: after)).DistinctKeys
        ↔ (mapping (before ++ (key, w) :: after)).DistinctKeys := by
      simp only [distinctKeys_mapping, List.map_append, List.map_cons, List.forall_mem_append,
        List.forall_mem_cons, ih.1]
    refine ⟨hdistinct, fun hentries => ?_⟩
    obtain ⟨hkeys, hparts⟩ := distinctKeys_mapping.1 hentries
    have hsame : sortEntry (key, v) = sortEntry (key, w) :=
      congrArg (Prod.mk key) (ih.2 (hparts (key, v) (by simp)))
    have hperm : ((before ++ (key, v) :: after).map sortEntry).Perm
        ((before ++ (key, w) :: after).map sortEntry) := by
      rw [List.map_append, List.map_append, List.map_cons, List.map_cons, hsame]
    rw [sortKeys, sortKeys, sortEntries_eq_of_perm hkeys hperm]
  | order h =>
    have hdistinct : ∀ {es es' : List (String × Value)}, es.Perm es' →
        (mapping es).DistinctKeys → (mapping es').DistinctKeys := by
      intro es es' h hes
      rw [distinctKeys_mapping] at hes ⊢
      exact ⟨(h.map Prod.fst).nodup_iff.1 hes.1, fun e he => hes.2 e (h.mem_iff.2 he)⟩
    refine ⟨⟨hdistinct h, hdistinct h.symm⟩, fun hentries => ?_⟩
    rw [sortKeys, sortKeys,
      sortEntries_eq_of_perm (distinctKeys_mapping.1 hentries).1 (h.map sortEntry)]

/-! ### Parts of a value in order -/

theorem mem_sortEntries {e : String × Value} (he : e ∈ entries) :
    sortEntry e ∈ sortEntries entries :=
  (perm_sortEntries entries).mem_iff.2 (List.mem_map_of_mem he)

/-- What occurs in a value occurs in it with its keys in order afterwards. -/
theorem PartOf.sortKeys (h : PartOf u v) : PartOf u.sortKeys v.sortKeys := by
  induction h with
  | self => exact .self _
  | item hv _ ih =>
    rw [Value.sortKeys, sortItems_eq]
    exact .item (List.mem_map_of_mem hv) ih
  | entry hv _ ih =>
    rw [Value.sortKeys]
    exact .entry (mem_sortEntries hv) ih

/-- Nothing else does. -/
theorem PartOf.of_sortKeys (h : PartOf w v.sortKeys) : ∃ u, PartOf u v ∧ w = u.sortKeys := by
  generalize hx : v.sortKeys = x at h
  induction h generalizing v with
  | self => exact ⟨v, .self v, hx.symm⟩
  | item hv _ ih =>
    cases v with
    | list items =>
      rw [Value.sortKeys, sortItems_eq] at hx
      obtain rfl := list.inj hx
      obtain ⟨item, hitem, rfl⟩ := List.mem_map.1 hv
      obtain ⟨u, hu, rfl⟩ := ih rfl
      exact ⟨u, .item hitem hu, rfl⟩
    | _ => exact absurd hx (by simp [Value.sortKeys])
  | entry hv _ ih =>
    cases v with
    | mapping entries =>
      rw [Value.sortKeys] at hx
      obtain rfl := mapping.inj hx
      obtain ⟨e, he, heq⟩ := List.mem_map.1 ((perm_sortEntries entries).mem_iff.1 hv)
      obtain ⟨-, rfl⟩ := Prod.mk.inj heq
      obtain ⟨u, hu, rfl⟩ := ih rfl
      exact ⟨u, .entry he hu, rfl⟩
    | _ => exact absurd hx (by simp [Value.sortKeys])

/-- The keys of every mapping are in order afterwards. -/
theorem inOrder_sortKeys (h : v.DistinctKeys) : v.sortKeys.InOrder := by
  intro entries hpart
  obtain ⟨u, hu, heq⟩ := hpart.of_sortKeys
  cases u with
  | mapping entries' =>
    rw [Value.sortKeys] at heq
    rw [mapping.inj heq]
    exact pairwise_sortEntries (h entries' hu)
  | _ => exact absurd heq (by simp [Value.sortKeys])

end

end BundlePlan.Value
