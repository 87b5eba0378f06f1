import BundlePlan.Labels
import BundlePlan.Proofs.Text.Trimmed
import Mathlib.Data.List.Induction
import Mathlib.Data.List.Sort

/-!
# Selectors read back

The map of a list of pairs holds the last pair of each key (`mem_ofList`), so the order of pairs
with distinct keys does not matter (`ofList_perm`).

`Written pairs elements` says that the elements, put between commas, write the pairs: each pair
is an element of its own with blanks around its key and around its value, and elements without an
equals sign may stand anywhere. Reading elements and writing pairs are inverse to each other
(`written_iff`), so a selector is read as the map of the pairs that it writes.
-/

namespace BundlePlan.Labels

open Text

variable {key value : String} {entries pairs pairs' : List (String × String)}
  {e : String × String} {elements : List (List Char)}

/-! ### The map of a list of pairs -/

/-- The pair occurs, and no later pair has its key. -/
def LastOfKey (pairs : List (String × String)) (e : String × String) : Prop :=
  ∃ before after, pairs = before ++ e :: after ∧ ∀ e' ∈ after, e'.1 ≠ e.1

theorem not_lastOfKey_nil : ¬LastOfKey [] e := by
  intro h
  obtain ⟨before, after, h, -⟩ := h
  simp at h

theorem lastOfKey_concat :
    LastOfKey (pairs ++ [(key, value)]) e ↔ e = (key, value) ∨ LastOfKey pairs e ∧ e.1 ≠ key := by
  constructor
  · intro h
    obtain ⟨before, after, h, hafter⟩ := h
    rcases List.eq_nil_or_concat after with rfl | ⟨after, last, rfl⟩
    · obtain ⟨-, hlast⟩ := List.append_inj' h rfl
      exact Or.inl (List.cons.inj hlast).1.symm
    · rw [List.concat_eq_append] at h hafter
      rw [← List.cons_append, ← List.append_assoc] at h
      obtain ⟨rfl, hlast⟩ := List.append_inj' h rfl
      obtain rfl := (List.cons.inj hlast).1
      refine Or.inr ⟨⟨before, after, rfl, fun e' he' => hafter e' ?_⟩, ?_⟩
      · exact List.mem_append_left _ he'
      · exact (hafter (key, value) (by simp)).symm
  · intro h
    obtain rfl | ⟨⟨before, after, rfl, hafter⟩, hne⟩ := h
    · exact ⟨pairs, [], rfl, nofun⟩
    · refine ⟨before, after ++ [(key, value)], by simp, fun e' he' => ?_⟩
      rcases List.mem_append.1 he' with he' | he'
      · exact hafter e' he'
      · obtain rfl := List.mem_singleton.1 he'
        exact hne.symm

/-- When no key occurs twice, every pair is the last of its key. -/
theorem lastOfKey_iff_mem (h : (pairs.map Prod.fst).Nodup) : LastOfKey pairs e ↔ e ∈ pairs := by
  constructor
  · intro h
    obtain ⟨before, after, rfl, -⟩ := h
    simp
  · intro he
    obtain ⟨before, after, rfl⟩ := List.append_of_mem he
    refine ⟨before, after, rfl, fun e' he' heq => ?_⟩
    rw [List.map_append, List.map_cons] at h
    have hcons := (List.nodup_append.1 h).2.1
    exact (List.nodup_cons.1 hcons).1 (heq ▸ List.mem_map_of_mem he')

/-- A key before the first one is before all of them. -/
theorem lt_of_lt_head {entry : String × String} (h : KeysIncrease (entry :: entries))
    (hlt : key < entry.1) : ∀ e ∈ entry :: entries, key < e.1 := by
  intro e he
  cases List.mem_cons.1 he with
  | inl heq => exact heq ▸ hlt
  | inr he => exact String.lt_trans hlt ((List.pairwise_cons.1 h).1 e he)

/-- Setting a key takes away what it had and keeps all other keys. -/
theorem mem_setEntry_iff (h : KeysIncrease entries) :
    e ∈ setEntry key value entries ↔ e = (key, value) ∨ e ∈ entries ∧ e.1 ≠ key := by
  induction entries with
  | nil => simp [setEntry]
  | cons entry rest ih =>
    obtain ⟨hentry, hrest⟩ := List.pairwise_cons.1 h
    rw [setEntry]
    by_cases hlt : key < entry.1
    · -- no entry has the key
      have hne : e ∈ entry :: rest → e.1 ≠ key := fun he =>
        (String.ne_of_lt (lt_of_lt_head h hlt e he)).symm
      rw [if_pos hlt, List.mem_cons, and_iff_left_of_imp hne]
    · rw [if_neg hlt]
      by_cases heq : key = entry.1
      · -- the first entry has it, and no other one
        subst heq
        have hne : e ∈ rest → e.1 ≠ entry.1 := fun he => (String.ne_of_lt (hentry e he)).symm
        have hfirst : ¬(e = entry ∧ e.1 ≠ entry.1) := fun he => he.2 (congrArg Prod.fst he.1)
        rw [if_pos rfl, List.mem_cons, List.mem_cons, or_and_right, and_iff_left_of_imp hne,
          or_iff_right hfirst]
      · have hfirst : e = entry → e.1 ≠ key := by
          intro he
          exact he ▸ Ne.symm heq
        rw [if_neg heq, List.mem_cons, List.mem_cons, ih hrest, or_left_comm, or_and_right,
          and_iff_left_of_imp hfirst]

theorem ofList_concat (pairs : List (String × String)) (key value : String) :
    ofList (pairs ++ [(key, value)]) = (ofList pairs).insert key value :=
  List.foldl_concat ..

/-- Each key has the value of its last pair, and there are no other keys. -/
theorem mem_ofList : e ∈ (ofList pairs).entries ↔ LastOfKey pairs e := by
  induction pairs using List.reverseRecOn with
  | nil => exact iff_of_false List.not_mem_nil not_lastOfKey_nil
  | append_singleton pairs pair ih =>
    obtain ⟨key, value⟩ := pair
    rw [ofList_concat, lastOfKey_concat, ← ih]
    exact mem_setEntry_iff (ofList pairs).keysIncrease

/-- Two maps with the same entries are equal. -/
theorem eq_of_mem_iff {labels labels' : Labels}
    (h : ∀ e, e ∈ labels.entries ↔ e ∈ labels'.entries) : labels = labels' := by
  have hirrefl : Std.Irrefl fun a b : String × String => a.1 < b.1 :=
    ⟨fun e => String.lt_irrefl e.1⟩
  have hantisymm : Std.Antisymm fun a b : String × String => a.1 < b.1 :=
    ⟨fun a b hab hba => absurd (String.lt_trans hab hba) (String.lt_irrefl a.1)⟩
  obtain ⟨entries, hentries⟩ := labels
  obtain ⟨entries', hentries'⟩ := labels'
  obtain rfl : entries = entries' := hentries.eq_of_mem_iff hentries' h
  rfl

/-- The order of pairs with distinct keys does not matter. -/
theorem ofList_perm (hnodup : (pairs.map Prod.fst).Nodup) (h : pairs'.Perm pairs) :
    ofList pairs' = ofList pairs := by
  have hnodup' : (pairs'.map Prod.fst).Nodup := (h.map Prod.fst).nodup_iff.2 hnodup
  refine eq_of_mem_iff fun e => ?_
  rw [mem_ofList, mem_ofList, lastOfKey_iff_mem hnodup, lastOfKey_iff_mem hnodup', h.mem_iff]

/-! ### Pairs and their elements -/

/-- The text with blanks before it and after it. -/
def Padded (s text : List Char) : Prop :=
  ∃ before after, AllBlank before ∧ AllBlank after ∧ text = before ++ s ++ after

/-- A text that can be a key or a value of a selector: it has no comma, and no blanks at its
ends. -/
structure Writable (s : String) : Prop where
  comma : ',' ∉ s.toList
  tight : Tight s.toList

/-- The elements, which stand between commas, write the pairs in their order. -/
inductive Written : List (String × String) → List (List Char) → Prop
  | nil : Written [] []
  | pair {key value : String} {left right : List Char} {pairs : List (String × String)}
      {elements : List (List Char)} (hkey : Writable key)
      (hequals : '=' ∉ key.toList) (hvalue : Writable value) (hleft : Padded key.toList left)
      (hright : Padded value.toList right) (h : Written pairs elements) :
      Written ((key, value) :: pairs) ((left ++ '=' :: right) :: elements)
  | other {text : List Char} {pairs : List (String × String)} {elements : List (List Char)}
      (hcomma : ',' ∉ text) (hequals : '=' ∉ text) (h : Written pairs elements) :
      Written pairs (text :: elements)

theorem Padded.trim_eq {s text : List Char} (h : Padded s text) (hs : Tight s) :
    trim text = s := by
  obtain ⟨before, after, hbefore, hafter, rfl⟩ := h
  exact trim_padded hbefore hs hafter

theorem Padded.not_mem {s text : List Char} {c : Char} (h : Padded s text)
    (hc : isBlank c = false) (hs : c ∉ s) : c ∉ text := by
  obtain ⟨before, after, hbefore, hafter, rfl⟩ := h
  have hblank : ∀ {b : List Char}, AllBlank b → c ∉ b := by
    intro b hb hmem
    exact Bool.false_ne_true (hc.symm.trans (hb c hmem))
  simp only [List.mem_append, not_or]
  exact ⟨⟨hblank hbefore, hs⟩, hblank hafter⟩

theorem padded_trim (text : List Char) : Padded (trim text) text := by
  obtain ⟨before, hbefore, hstart⟩ := exists_trimStart text
  obtain ⟨after, hafter, hend⟩ := exists_trimEnd (trimStart text)
  refine ⟨before, after, hbefore, hafter, ?_⟩
  rw [trim, List.append_assoc, ← hend, ← hstart]

theorem writable_trim {text : List Char} (h : ',' ∉ text) :
    Writable (String.ofList (trim text)) where
  comma := by
    rw [String.toList_ofList]
    exact fun hmem => h (mem_of_mem_trim hmem)
  tight := by
    rw [String.toList_ofList]
    exact tight_trim text

/-! ### Elements read -/

theorem selectorEntry?_of_not_mem {text : List Char} (h : '=' ∉ text) :
    selectorEntry? text = none := by
  unfold selectorEntry?
  rw [cutFirst_of_not_mem fun hmem => h (mem_of_mem_trim hmem)]
  rfl

/-- The pair is cut at the first equals sign, and blanks around both sides do not matter. -/
theorem selectorEntry?_append_cons {left : List Char} (h : '=' ∉ left) (right : List Char) :
    selectorEntry? (left ++ '=' :: right)
      = some (String.ofList (trim left), String.ofList (trim right)) := by
  have hstart : '=' ∉ trimStart left := fun hmem => h ((List.dropWhile_sublist _).subset hmem)
  unfold selectorEntry?
  rw [trim_append_cons rfl, cutFirst_append_cons hstart, Option.map_some]
  dsimp only
  rw [trim_trimStart, trim_trimEnd]

/-- A written pair is read back. -/
theorem selectorEntry?_padded {left right : List Char} (hkey : Writable key)
    (hequals : '=' ∉ key.toList) (hvalue : Writable value) (hleft : Padded key.toList left)
    (hright : Padded value.toList right) :
    selectorEntry? (left ++ '=' :: right) = some (key, value) := by
  rw [selectorEntry?_append_cons (hleft.not_mem rfl hequals), hleft.trim_eq hkey.tight,
    hright.trim_eq hvalue.tight, String.ofList_toList, String.ofList_toList]

theorem Written.filterMap_eq (h : Written pairs elements) :
    elements.filterMap selectorEntry? = pairs := by
  induction h with
  | nil => rfl
  | pair hkey hequals hvalue hleft hright _ ih =>
    have hread := selectorEntry?_padded hkey hequals hvalue hleft hright
    rw [List.filterMap_cons_some hread, ih]
  | other _ hequals _ ih => rw [List.filterMap_cons_none (selectorEntry?_of_not_mem hequals), ih]

/-- Commas stand between the elements only. -/
theorem Written.comma_not_mem (h : Written pairs elements) : ∀ text ∈ elements, ',' ∉ text := by
  induction h with
  | nil => exact nofun
  | other hcomma _ _ ih => exact List.forall_mem_cons.2 ⟨hcomma, ih⟩
  | pair hkey _ hvalue hleft hright _ ih =>
    refine List.forall_mem_cons.2 ⟨?_, ih⟩
    have hequals : ',' ≠ '=' := by decide
    simp only [List.mem_append, List.mem_cons, not_or]
    exact ⟨hleft.not_mem rfl hkey.comma, hequals, hright.not_mem rfl hvalue.comma⟩

/-- Elements without commas write what is read from them. -/
theorem written_filterMap (h : ∀ text ∈ elements, ',' ∉ text) :
    Written (elements.filterMap selectorEntry?) elements := by
  induction elements with
  | nil => exact .nil
  | cons text elements ih =>
    obtain ⟨htext, helements⟩ := List.forall_mem_cons.1 h
    by_cases hequals : '=' ∈ text
    · obtain ⟨left, right, rfl, hleft⟩ := List.eq_append_cons_of_mem hequals
      simp only [List.mem_append, List.mem_cons, not_or] at htext
      rw [List.filterMap_cons_some (selectorEntry?_append_cons hleft right)]
      refine .pair (writable_trim htext.1) ?_ (writable_trim htext.2.2) ?_ ?_ (ih helements)
      · rw [String.toList_ofList]
        exact fun hmem => hleft (mem_of_mem_trim hmem)
      · rw [String.toList_ofList]
        exact padded_trim left
      · rw [String.toList_ofList]
        exact padded_trim right
    · rw [List.filterMap_cons_none (selectorEntry?_of_not_mem hequals)]
      exact .other htext hequals (ih helements)

/-- Elements without commas write exactly the pairs that are read from them. -/
theorem written_iff :
    Written pairs elements ↔
      elements.filterMap selectorEntry? = pairs ∧ ∀ text ∈ elements, ',' ∉ text := by
  constructor
  · intro h
    exact ⟨h.filterMap_eq, h.comma_not_mem⟩
  · intro h
    exact h.1 ▸ written_filterMap h.2

/-! ### Selectors read -/

/-- A selector is read as the map of the pairs that it writes. -/
theorem ofSelector_of_written (h : Written pairs elements) :
    ofSelector (String.ofList (joined ',' elements)) = ofList pairs := by
  rw [ofSelector, String.toList_ofList]
  by_cases hempty : elements = []
  · -- no elements leave one empty piece, which is not a pair
    have hpairs := h.filterMap_eq
    subst hempty hpairs
    rfl
  · rw [pieces_joined hempty h.comma_not_mem, h.filterMap_eq]

/-- Reading undoes writing: the map of a selector holds the last pair of each key and nothing else,
however the pairs are written, and the order of pairs with distinct keys does not matter. -/
theorem ofSelector_undoes_writing (h : Written pairs elements) :
    (∀ e, e ∈ (ofSelector (String.ofList (joined ',' elements))).entries ↔ LastOfKey pairs e) ∧
    ∀ pairs' elements', (pairs.map Prod.fst).Nodup → pairs'.Perm pairs →
      Written pairs' elements' →
      ofSelector (String.ofList (joined ',' elements'))
        = ofSelector (String.ofList (joined ',' elements)) := by
  rw [ofSelector_of_written h]
  refine ⟨fun e => mem_ofList, fun pairs' elements' hnodup hperm h' => ?_⟩
  rw [ofSelector_of_written h', ofList_perm hnodup hperm]

/-- Blanks of several kinds around keys and values, an equals sign in a value and an element that is
no pair; the pairs may come in another order without them. -/
theorem ofSelector_undoes_writing_of_blanks :
    (("b", "1=2") ∈ (ofSelector "\t b =\u00a01=2 ,junk,a=").entries ↔
      LastOfKey [("b", "1=2"), ("a", "")] ("b", "1=2")) ∧
    ofSelector "a=,b=1=2" = ofSelector "\t b =\u00a01=2 ,junk,a=" := by
  have h := @ofSelector_undoes_writing [("b", "1=2"), ("a", "")]
    ["\t b =\u00a01=2 ".toList, "junk".toList, "a=".toList] (written_iff.2 ⟨by decide, by decide⟩)
  exact ⟨h.1 ("b", "1=2"), h.2 [("a", ""), ("b", "1=2")] ["a=".toList, "b=1=2".toList] (by decide)
    (.swap ..) (written_iff.2 ⟨by decide, by decide⟩)⟩

/-- A later pair of a key takes the place of an earlier one. -/
example : (ofSelector "a=1, b = x ,,a=2").entries = [("a", "2"), ("b", "x")] := by decide

end BundlePlan.Labels
