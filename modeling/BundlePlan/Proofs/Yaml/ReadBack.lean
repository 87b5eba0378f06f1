import BundlePlan.Proofs.Value.Same
import BundlePlan.Proofs.Yaml.Tree
import BundlePlan.Proofs.Yaml.Types

/-!
# The values that are read back

The value that is read of a node is the one that was written, except for texts that are folded
twice: `valueBack`. These are among the texts whose lines may be folded at all, `foldableTexts`,
each with the column at which its lines after the first start. A text that is folded twice is read
as a longer one, so that the amount of text tells whether there was any. The node determines the
value in either case.
-/

namespace BundlePlan.Yaml

open Value (textLength itemsLength entriesLength)

/-! ### Values of nodes -/

mutual

/-- The value that is read of a value at a place. -/
def valueBack (p : Place) : Value → Value
  | .null => .null
  | .bool b => .bool b
  | .int n => .int n
  | .text s => .text (String.ofList (textBack p.text s.toList))
  | .list items => .list (itemsBack p.list items)
  | .mapping entries => .mapping (entriesBack p.mapping entries)

/-- `valueBack` on the items of a list at column `i`. -/
def itemsBack (i : Nat) : List Value → List Value
  | [] => []
  | item :: items => valueBack (.afterMark i) item :: itemsBack i items

/-- `valueBack` on the entries of a mapping at column `i`. -/
def entriesBack (i : Nat) : List (String × Value) → List (String × Value)
  | [] => []
  | (key, value) :: entries =>
    (String.ofList (keyBack i key), valueBack (.ofValue i key) value) :: entriesBack i entries

end

theorem key?_keyBack (i : Nat) (key : String) :
    Scalar.key? ⟨Style.ofText key.toList, keyBack i key⟩
      = some (String.ofList (keyBack i key)) := by
  have hkey : ∃ indent, keyBack i key = textBack indent key.toList := by
    unfold keyBack
    split
    · exact ⟨0, by rw [textBack, misfolds]; simp [lineWidth]⟩
    · exact ⟨i + 2, rfl⟩
  obtain ⟨indent, hkey⟩ := hkey
  rw [Scalar.key?, hkey, value?_textScalar]

mutual

/-- The node of a value has a value. -/
theorem value?_represent (p : Place) : ∀ v : Value, (represent p v).value? = some (valueBack p v)
  | .null => rfl
  | .bool b => by cases b <;> rfl
  | .int n => plainValue?_word (v := .int n) rfl
  | .text s => value?_textScalar p.text s.toList
  | .list items => by
    rw [represent, Node.value?, itemValues?_representItems p.list items]
    rfl
  | .mapping entries => by
    rw [represent, Node.value?, entryValues?_representEntries p.mapping entries]
    rfl

theorem itemValues?_representItems (i : Nat) : ∀ items : List Value,
    Node.itemValues? (representItems i items) = some (itemsBack i items)
  | [] => rfl
  | item :: items => by
    rw [representItems, Node.itemValues?, value?_represent _ item,
      itemValues?_representItems i items]
    rfl

theorem entryValues?_representEntries (i : Nat) : ∀ entries : List (String × Value),
    Node.entryValues? (representEntries i entries) = some (entriesBack i entries)
  | [] => rfl
  | (key, value) :: entries => by
    rw [representEntries, Node.entryValues?, key?_keyBack, value?_represent _ value,
      entryValues?_representEntries i entries]
    rfl

end

/-! ### Texts that can be folded -/

mutual

/-- The texts of a value at a place whose lines may be folded, each with the column of its lines
after the first. The short keys are not among them. -/
def foldableTexts (p : Place) : Value → List (Nat × List Char)
  | .null => []
  | .bool _ => []
  | .int _ => []
  | .text s => [(p.text, s.toList)]
  | .list items => itemTexts p.list items
  | .mapping entries => entryTexts p.mapping entries

/-- `foldableTexts` of the items of a list at column `i`. -/
def itemTexts (i : Nat) : List Value → List (Nat × List Char)
  | [] => []
  | item :: items => foldableTexts (.afterMark i) item ++ itemTexts i items

/-- `foldableTexts` of the entries of a mapping at column `i`. -/
def entryTexts (i : Nat) : List (String × Value) → List (Nat × List Char)
  | [] => []
  | (key, value) :: entries =>
    (if isSimpleKey key.toList then [] else [(i + 2, key.toList)])
      ++ foldableTexts (.ofValue i key) value ++ entryTexts i entries

end

/-- No text of these is folded twice. -/
def Unharmed (texts : List (Nat × List Char)) : Prop :=
  ∀ t ∈ texts, misfolds t.1 t.2 = false

instance (texts : List (Nat × List Char)) : Decidable (Unharmed texts) :=
  inferInstanceAs (Decidable (∀ t ∈ texts, misfolds t.1 t.2 = false))

theorem unharmed_append (texts texts' : List (Nat × List Char)) :
    Unharmed (texts ++ texts') ↔ Unharmed texts ∧ Unharmed texts' :=
  List.forall_mem_append

theorem unharmed_singleton (indent : Nat) (s : List Char) :
    Unharmed [(indent, s)] ↔ textBack indent s = s := by
  rw [textBack_eq_iff]
  exact List.forall_mem_singleton

theorem unharmed_key (i : Nat) (key : String) :
    Unharmed (if isSimpleKey key.toList then [] else [(i + 2, key.toList)])
      ↔ keyBack i key = key.toList := by
  unfold keyBack
  split
  · exact ⟨fun _ => rfl, fun _ t ht => absurd ht List.not_mem_nil⟩
  · exact unharmed_singleton _ _

theorem length_le_textBack (indent : Nat) (s : List Char) :
    s.length ≤ (textBack indent s).length := by
  unfold textBack
  split
  · exact length_le_foldedTwice true s
  · exact Nat.le_refl _

theorem textBack_eq_of_length {indent : Nat} {s : List Char}
    (h : (textBack indent s).length ≤ s.length) : textBack indent s = s := by
  unfold textBack at h ⊢
  split
  · rename_i hmisfolds
    rw [if_pos hmisfolds] at h
    -- a second fold adds two characters
    have hlt := length_lt_foldedTwice (Bool.and_eq_true_iff.1 hmisfolds).2
    exact absurd h (Nat.not_le.2 hlt)
  · rfl

theorem length_le_keyBack (i : Nat) (key : String) :
    key.toList.length ≤ (keyBack i key).length := by
  unfold keyBack
  split
  · exact Nat.le_refl _
  · exact length_le_textBack _ _

theorem keyBack_eq_of_length {i : Nat} {key : String}
    (h : (keyBack i key).length ≤ key.toList.length) : keyBack i key = key.toList := by
  unfold keyBack at h ⊢
  split
  · rfl
  · rename_i hkey
    rw [if_neg hkey] at h
    exact textBack_eq_of_length h

mutual

/-- A value without texts that are folded twice is read back. -/
theorem valueBack_of_unharmed (p : Place) : ∀ v : Value, Unharmed (foldableTexts p v) →
    valueBack p v = v
  | .null, _ => rfl
  | .bool _, _ => rfl
  | .int _, _ => rfl
  | .text s, h => by
    rw [valueBack, (unharmed_singleton p.text s.toList).1 h, String.ofList_toList]
  | .list items, h => by
    rw [valueBack, itemsBack_of_unharmed p.list items h]
  | .mapping entries, h => by
    rw [valueBack, entriesBack_of_unharmed p.mapping entries h]

theorem itemsBack_of_unharmed (i : Nat) : ∀ items : List Value, Unharmed (itemTexts i items) →
    itemsBack i items = items
  | [], _ => rfl
  | item :: items, h => by
    obtain ⟨hitem, hitems⟩ := (unharmed_append _ _).1 h
    rw [itemsBack, valueBack_of_unharmed _ item hitem, itemsBack_of_unharmed i items hitems]

theorem entriesBack_of_unharmed (i : Nat) : ∀ entries : List (String × Value),
    Unharmed (entryTexts i entries) → entriesBack i entries = entries
  | [], _ => rfl
  | (key, value) :: entries, h => by
    obtain ⟨hentry, hentries⟩ := (unharmed_append _ _).1 h
    obtain ⟨hkey, hvalue⟩ := (unharmed_append _ _).1 hentry
    rw [entriesBack, (unharmed_key i key).1 hkey, String.ofList_toList,
      valueBack_of_unharmed _ value hvalue, entriesBack_of_unharmed i entries hentries]

end

mutual

/-- Nothing of the text of a value is lost. -/
theorem textLength_le_valueBack (p : Place) : ∀ v : Value, textLength v ≤ textLength (valueBack p v)
  | .null => Nat.le_refl _
  | .bool _ => Nat.le_refl _
  | .int _ => Nat.le_refl _
  | .text s => by
    rw [valueBack, textLength, textLength, String.toList_ofList]
    exact length_le_textBack _ _
  | .list items => itemsLength_le_itemsBack p.list items
  | .mapping entries => entriesLength_le_entriesBack p.mapping entries

theorem itemsLength_le_itemsBack (i : Nat) : ∀ items : List Value,
    itemsLength items ≤ itemsLength (itemsBack i items)
  | [] => Nat.le_refl _
  | item :: items =>
    Nat.add_le_add (textLength_le_valueBack _ item) (itemsLength_le_itemsBack i items)

theorem entriesLength_le_entriesBack (i : Nat) : ∀ entries : List (String × Value),
    entriesLength entries ≤ entriesLength (entriesBack i entries)
  | [] => Nat.le_refl _
  | (key, value) :: entries => by
    have hkey := length_le_keyBack i key
    have hvalue := textLength_le_valueBack (.ofValue i key) value
    have hentries := entriesLength_le_entriesBack i entries
    simp only [entriesBack, entriesLength, String.toList_ofList]
    omega

end

mutual

/-- A value that is read back with no more text than it has holds no text that is folded twice. -/
theorem unharmed_of_textLength_le (p : Place) : ∀ v : Value,
    textLength (valueBack p v) ≤ textLength v → Unharmed (foldableTexts p v)
  | .null, _ => fun _ ht => absurd ht List.not_mem_nil
  | .bool _, _ => fun _ ht => absurd ht List.not_mem_nil
  | .int _, _ => fun _ ht => absurd ht List.not_mem_nil
  | .text s, h => by
    rw [valueBack, textLength, textLength, String.toList_ofList] at h
    exact (unharmed_singleton _ _).2 (textBack_eq_of_length h)
  | .list items, h => unharmed_of_itemsLength_le p.list items h
  | .mapping entries, h => unharmed_of_entriesLength_le p.mapping entries h

theorem unharmed_of_itemsLength_le (i : Nat) : ∀ items : List Value,
    itemsLength (itemsBack i items) ≤ itemsLength items → Unharmed (itemTexts i items)
  | [], _ => fun _ ht => absurd ht List.not_mem_nil
  | item :: items, h => by
    have hitem := textLength_le_valueBack (.afterMark i) item
    have hitems := itemsLength_le_itemsBack i items
    simp only [itemsBack, itemsLength] at h
    exact (unharmed_append _ _).2 ⟨unharmed_of_textLength_le _ item (by omega),
      unharmed_of_itemsLength_le i items (by omega)⟩

theorem unharmed_of_entriesLength_le (i : Nat) : ∀ entries : List (String × Value),
    entriesLength (entriesBack i entries) ≤ entriesLength entries → Unharmed (entryTexts i entries)
  | [], _ => fun _ ht => absurd ht List.not_mem_nil
  | (key, value) :: entries, h => by
    have hkey := length_le_keyBack i key
    have hvalue := textLength_le_valueBack (.ofValue i key) value
    have hentries := entriesLength_le_entriesBack i entries
    simp only [entriesBack, entriesLength, String.toList_ofList] at h
    have hkey' : keyBack i key = key.toList := keyBack_eq_of_length (by omega)
    exact (unharmed_append _ _).2 ⟨(unharmed_append _ _).2 ⟨(unharmed_key i key).2 hkey',
      unharmed_of_textLength_le _ value (by omega)⟩,
      unharmed_of_entriesLength_le i entries (by omega)⟩

end

/-! ### The order of entries -/

theorem mem_entryTexts_cons {i : Nat} {t : Nat × List Char} (entry : String × Value)
    (entries : List (String × Value)) :
    t ∈ entryTexts i (entry :: entries) ↔ t ∈ entryTexts i [entry] ∨ t ∈ entryTexts i entries := by
  simp only [entryTexts, List.append_nil, List.mem_append]

theorem mem_entryTexts_insertByKey {i : Nat} {t : Nat × List Char} (entry : String × Value)
    (entries : List (String × Value)) :
    t ∈ entryTexts i (Value.insertByKey entry entries) ↔ t ∈ entryTexts i (entry :: entries) := by
  induction entries with
  | nil => exact Iff.rfl
  | cons other rest ih =>
    rw [Value.insertByKey]
    split
    · rw [mem_entryTexts_cons other, ih, mem_entryTexts_cons entry rest,
        mem_entryTexts_cons entry (other :: rest), mem_entryTexts_cons other rest]
      exact or_left_comm
    · exact Iff.rfl

mutual

theorem mem_foldableTexts_sortKeys {t : Nat × List Char} (p : Place) : ∀ v : Value,
    t ∈ foldableTexts p v.sortKeys ↔ t ∈ foldableTexts p v
  | .null => Iff.rfl
  | .bool _ => Iff.rfl
  | .int _ => Iff.rfl
  | .text _ => Iff.rfl
  | .list items => by
    rw [Value.sortKeys, foldableTexts, foldableTexts, mem_itemTexts_sortItems p.list items]
  | .mapping entries => by
    rw [Value.sortKeys, foldableTexts, foldableTexts, mem_entryTexts_sortEntries p.mapping entries]

theorem mem_itemTexts_sortItems {t : Nat × List Char} (i : Nat) : ∀ items : List Value,
    t ∈ itemTexts i (Value.sortItems items) ↔ t ∈ itemTexts i items
  | [] => Iff.rfl
  | item :: items => by
    rw [Value.sortItems, itemTexts, itemTexts, List.mem_append, List.mem_append,
      mem_foldableTexts_sortKeys _ item, mem_itemTexts_sortItems i items]

theorem mem_entryTexts_sortEntries {t : Nat × List Char} (i : Nat) :
    ∀ entries : List (String × Value),
      t ∈ entryTexts i (Value.sortEntries entries) ↔ t ∈ entryTexts i entries
  | [] => Iff.rfl
  | (key, value) :: entries => by
    rw [Value.sortEntries, mem_entryTexts_insertByKey, entryTexts, entryTexts, List.mem_append,
      List.mem_append, List.mem_append, List.mem_append, mem_foldableTexts_sortKeys _ value,
      mem_entryTexts_sortEntries i entries]

end

theorem unharmed_sortKeys (p : Place) (v : Value) :
    Unharmed (foldableTexts p v.sortKeys) ↔ Unharmed (foldableTexts p v) := by
  unfold Unharmed
  simp only [mem_foldableTexts_sortKeys]

/-! ### Different values, different nodes -/

theorem mem_foldedTwice {c : Char} {isFirst : Bool} {s : List Char} (h : c ∈ s) :
    c ∈ foldedTwice isFirst s := by
  induction s generalizing isFirst with
  | nil => exact absurd h List.not_mem_nil
  | cons d s ih =>
    rw [foldedTwice]
    rcases List.mem_cons.1 h with rfl | h
    · exact List.mem_cons_self
    · exact List.mem_cons_of_mem d (List.mem_append_right _ (ih h))

theorem mem_textBack {c : Char} {indent : Nat} {s : List Char} (h : c ∈ s) :
    c ∈ textBack indent s := by
  unfold textBack
  split
  · exact mem_foldedTwice h
  · exact h

/-- A key that takes an entry with indicators is not read as a short one. -/
theorem isSimpleKey_textBack {s : List Char} (indent : Nat) (h : isSimpleKey s = false) :
    isSimpleKey (textBack indent s) = false := by
  rw [Bool.eq_false_iff]
  intro hback
  refine Bool.eq_false_iff.1 h ?_
  simp only [isSimpleKey, Bool.and_eq_true, Bool.not_eq_true', List.any_eq_false,
    decide_eq_true_eq] at hback ⊢
  obtain ⟨⟨hne, hbreak⟩, hlength⟩ := hback
  have hlength' := length_le_textBack indent s
  refine ⟨⟨?_, fun c hc => hbreak c (mem_textBack hc)⟩, by omega⟩
  cases s with
  | nil => exact absurd hne (by simp [textBack, foldedTwice])
  | cons c s => rfl

theorem keyBack_injective {i : Nat} {key key' : String}
    (hstyle : Style.ofText key.toList = Style.ofText key'.toList)
    (h : keyBack i key = keyBack i key') : key = key' := by
  refine String.toList_inj.1 ?_
  unfold keyBack at h
  -- a short key is read as itself, and what is read of any other key is not short
  cases hkey : isSimpleKey key.toList <;> cases hkey' : isSimpleKey key'.toList
  · rw [hkey, hkey'] at h
    exact textBack_injective hstyle h
  · rw [hkey, hkey', if_neg (by decide), if_pos rfl] at h
    have hback := isSimpleKey_textBack (i + 2) hkey
    rw [h, hkey'] at hback
    exact absurd hback (by decide)
  · rw [hkey, hkey', if_pos rfl, if_neg (by decide)] at h
    have hback := isSimpleKey_textBack (i + 2) hkey'
    rw [← h, hkey] at hback
    exact absurd hback (by decide)
  · rw [hkey, hkey'] at h
    exact h

theorem valueBack_eq_of_represent {p : Place} {u v : Value} (h : represent p u = represent p v) :
    valueBack p u = valueBack p v := by
  have hvalue := congrArg Node.value? h
  rw [value?_represent, value?_represent] at hvalue
  exact Option.some.inj hvalue

mutual

/-- The node of a value determines the value. Its type is told by the value of the node, and a text
by the style of the scalar as well. -/
theorem represent_injective (p : Place) : ∀ {u v : Value}, represent p u = represent p v → u = v
  | .null, v, h => by
    have hback := valueBack_eq_of_represent h
    cases v with
    | null => rfl
    | _ => exact absurd hback (by simp [valueBack])
  | .bool b, v, h => by
    have hback := valueBack_eq_of_represent h
    cases v with
    | bool b' => exact hback
    | _ => exact absurd hback (by simp [valueBack])
  | .int n, v, h => by
    have hback := valueBack_eq_of_represent h
    cases v with
    | int n' => exact hback
    | _ => exact absurd hback (by simp [valueBack])
  | .text s, v, h => by
    have hback := valueBack_eq_of_represent h
    cases v with
    | text s' =>
      rw [represent, represent, Node.scalar.injEq, Scalar.mk.injEq] at h
      rw [String.toList_inj.1 (textBack_injective h.1 h.2)]
    | _ => exact absurd hback (by simp [valueBack])
  | .list items, v, h => by
    have hback := valueBack_eq_of_represent h
    cases v with
    | list items' =>
      rw [represent, represent, Node.list.injEq] at h
      rw [representItems_injective p.list h]
    | _ => exact absurd hback (by simp [valueBack])
  | .mapping entries, v, h => by
    have hback := valueBack_eq_of_represent h
    cases v with
    | mapping entries' =>
      rw [represent, represent, Node.mapping.injEq] at h
      rw [representEntries_injective p.mapping h]
    | _ => exact absurd hback (by simp [valueBack])

theorem representItems_injective (i : Nat) : ∀ {items items' : List Value},
    representItems i items = representItems i items' → items = items'
  | [], [], _ => rfl
  | [], _ :: _, h => absurd h (by simp [representItems])
  | _ :: _, [], h => absurd h (by simp [representItems])
  | item :: items, item' :: items', h => by
    rw [representItems, representItems, List.cons.injEq] at h
    rw [represent_injective _ h.1, representItems_injective i h.2]

theorem representEntries_injective (i : Nat) : ∀ {entries entries' : List (String × Value)},
    representEntries i entries = representEntries i entries' → entries = entries'
  | [], [], _ => rfl
  | [], _ :: _, h => absurd h (by simp [representEntries])
  | _ :: _, [], h => absurd h (by simp [representEntries])
  | (key, value) :: entries, (key', value') :: entries', h => by
    rw [representEntries, representEntries, List.cons.injEq, Prod.mk.injEq, Scalar.mk.injEq] at h
    obtain ⟨⟨⟨hstyle, hkey⟩, hvalue⟩, hentries⟩ := h
    obtain rfl := keyBack_injective hstyle hkey
    rw [represent_injective _ hvalue, representEntries_injective i hentries]

end

end BundlePlan.Yaml
