import BundlePlan.Manifest.Reading
import BundlePlan.Proofs.Yaml.RoundTrip

/-!
# Fields that are read back

What stands under a short key is found under it again, with the value that is read of it. A text
near the left edge is never folded twice, so that the resource which a value describes is read of
its document, whatever else the value holds.
-/

namespace BundlePlan

namespace Value

theorem lookup_insertByKey (key : String) (entry : String × Value)
    (entries : List (String × Value)) :
    (insertByKey entry entries).lookup key = (entry :: entries).lookup key := by
  induction entries with
  | nil => rfl
  | cons other rest ih =>
    rw [insertByKey]
    split
    · rename_i hlt
      rw [List.lookup_cons, ih, List.lookup_cons, List.lookup_cons, List.lookup_cons]
      cases hother : key == other.1 with
      | false => rfl
      | true =>
        -- the keys differ, so that the entry is not the one that is found
        obtain rfl := beq_iff_eq.1 hother
        have hentry : (other.1 == entry.1) = false :=
          beq_eq_false_iff_ne.2 fun heq => String.lt_irrefl _ (heq ▸ hlt)
        rw [hentry]
    · rfl

theorem lookup_sortEntries (key : String) (entries : List (String × Value)) :
    (sortEntries entries).lookup key = (entries.lookup key).map sortKeys := by
  induction entries with
  | nil => rfl
  | cons entry entries ih =>
    obtain ⟨key', value⟩ := entry
    rw [sortEntries, lookup_insertByKey, List.lookup_cons, List.lookup_cons, ih]
    cases key == key' <;> rfl

/-- What stands under a key does not depend on the order of keys. -/
theorem field?_sortKeys (key : String) (v : Value) :
    v.sortKeys.field? key = (v.field? key).map sortKeys := by
  cases v with
  | mapping entries => exact lookup_sortEntries key entries
  | _ => rfl

theorem text?_sortKeys (v : Value) : v.sortKeys.text? = v.text? := by
  cases v <;> rfl

end Value

namespace Yaml

/-- A short key is read of itself only. -/
theorem ofList_keyBack_eq_iff (i : Nat) {key : String} (hkey : isSimpleKey key.toList = true)
    (key' : String) : String.ofList (keyBack i key') = key ↔ key' = key := by
  constructor
  · intro h
    have hback : keyBack i key' = key.toList := by rw [← h, String.toList_ofList]
    unfold keyBack at hback
    split at hback
    · exact String.toList_inj.1 hback
    · rename_i hlong
      have hnot := isSimpleKey_textBack (i + 2) (Bool.eq_false_iff.2 hlong)
      rw [hback, hkey] at hnot
      exact absurd hnot (by decide)
  · rintro rfl
    rw [keyBack, if_pos hkey, String.ofList_toList]

theorem lookup_entriesBack (i : Nat) {key : String} (hkey : isSimpleKey key.toList = true)
    (entries : List (String × Value)) :
    (entriesBack i entries).lookup key = (entries.lookup key).map (valueBack (.afterKey i)) := by
  induction entries with
  | nil => rfl
  | cons entry entries ih =>
    obtain ⟨key', value⟩ := entry
    have hsame := ofList_keyBack_eq_iff i hkey key'
    rw [entriesBack, List.lookup_cons, List.lookup_cons, ih]
    by_cases h : key' = key
    · rw [h] at hsame ⊢
      rw [hsame.2 rfl, beq_self_eq_true, Place.ofValue, if_pos hkey]
      rfl
    · rw [beq_eq_false_iff_ne.2 (Ne.symm h), beq_eq_false_iff_ne.2 fun heq => h (hsame.1 heq.symm)]

/-- What is read under a short key is the value that was written under it. -/
theorem field?_valueBack (p : Place) {key : String} (hkey : isSimpleKey key.toList = true)
    (v : Value) :
    (valueBack p v).field? key = (v.field? key).map (valueBack (.afterKey p.mapping)) := by
  cases v with
  | mapping entries => exact lookup_entriesBack p.mapping hkey entries
  | _ => rfl

/-- A text is not folded twice where its lines start within the width of a line. -/
theorem text?_valueBack {p : Place} (hp : p.text < lineWidth) (v : Value) :
    (valueBack p v).text? = v.text? := by
  cases v with
  | text s =>
    have hmisfolds : misfolds p.text s.toList = false := by
      rw [misfolds, decide_eq_false (Nat.not_le.2 hp), Bool.and_false, Bool.false_and]
    rw [valueBack, (textBack_eq_iff _ _).2 hmisfolds, String.ofList_toList]
  | _ => rfl

/-- A text under a short key is read back from near the left edge. -/
theorem text?_field?_read {p : Place} (hp : p.mapping + 2 < lineWidth) {key : String}
    (hkey : isSimpleKey key.toList = true) (v : Value) :
    ((valueBack p v.sortKeys).field? key).bind Value.text? = (v.field? key).bind Value.text? := by
  rw [field?_valueBack p hkey, Value.field?_sortKeys, Option.map_map, Option.bind_map]
  refine congrArg _ (funext fun w => ?_)
  rw [Function.comp_apply, Function.comp_apply, text?_valueBack hp, Value.text?_sortKeys]

/-- The resource that a value describes is read of its document. -/
theorem resource?_read_document (v : Value) :
    (read (document v)).bind Value.resource? = v.resource? := by
  have hkind : ((valueBack .root v.sortKeys).field? "kind").bind Value.text?
      = (v.field? "kind").bind Value.text? := text?_field?_read (by decide) (by decide) v
  have hname : ((((valueBack .root v.sortKeys).field? "metadata").bind
      (Value.field? "name")).bind Value.text?)
        = ((v.field? "metadata").bind (Value.field? "name")).bind Value.text? := by
    rw [field?_valueBack .root (by decide), Value.field?_sortKeys, Option.map_map, Option.bind_map,
      Option.bind_assoc, Option.bind_assoc]
    exact congrArg _ (funext fun w =>
      text?_field?_read (p := .afterKey Place.root.mapping) (by decide) (by decide) w)
  rw [read_document, Option.bind_some, Value.resource?, Value.resource?, hkind, hname]

end Yaml

end BundlePlan
