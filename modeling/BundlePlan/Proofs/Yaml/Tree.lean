import BundlePlan.Proofs.Yaml.Leaf

/-!
# The nodes of values

The node that a value is read as, `represent`, has the shape of the value, the keys in their
order, and every text with its style. It depends on where the value stands in one way only: how
far the lines of a text are indented decides whether it can be folded twice.

A value starts with a character that is not white space, by which the readers of blocks know its
column.
-/

namespace BundlePlan.Yaml

/-! ### Nodes -/

/-- The columns at which the parts of a value start. -/
structure Place where
  /-- The column of the lines of a text after its first. -/
  text : Nat
  /-- The column of the items of a list. -/
  list : Nat
  /-- The column of the entries of a mapping. -/
  mapping : Nat

namespace Place

/-- Of a whole document. -/
def root : Place := ⟨2, 0, 0⟩

/-- After an indicator in the block at column `i`. -/
def afterMark (i : Nat) : Place := ⟨i + 2, i + 2, i + 2⟩

/-- After the colon of a key in the block at column `i`. -/
def afterKey (i : Nat) : Place := ⟨i + 2, i, i + 2⟩

/-- Of the value of a key in the block at column `i`. -/
def ofValue (i : Nat) (key : String) : Place :=
  if isSimpleKey key.toList then afterKey i else afterMark i

end Place

/-- What is read of a key in the block at column `i`. -/
def keyBack (i : Nat) (key : String) : List Char :=
  if isSimpleKey key.toList then key.toList else textBack (i + 2) key.toList

mutual

/-- The node that a value at a place is read as. -/
def represent (p : Place) : Value → Node
  | .null => .scalar ⟨.plain, word .null⟩
  | .bool b => .scalar ⟨.plain, word (.bool b)⟩
  | .int n => .scalar ⟨.plain, word (.int n)⟩
  | .text s => .scalar ⟨Style.ofText s.toList, textBack p.text s.toList⟩
  | .list items => .list (representItems p.list items)
  | .mapping entries => .mapping (representEntries p.mapping entries)

/-- The nodes of the items of a list at column `i`. -/
def representItems (i : Nat) : List Value → List Node
  | [] => []
  | item :: items => represent (.afterMark i) item :: representItems i items

/-- The keys and nodes of the entries of a mapping at column `i`. -/
def representEntries (i : Nat) : List (String × Value) → List (Scalar × Node)
  | [] => []
  | (key, value) :: entries =>
    (⟨Style.ofText key.toList, keyBack i key⟩, represent (.ofValue i key) value)
      :: representEntries i entries

end

theorem represent_leaf (p : Place) {v : Value} (h : isLeaf v = true) :
    represent p v = leafNode p.text v := by
  cases v with
  | list items => cases items with
    | nil => simp [represent, representItems, leafNode]
    | cons _ _ => exact absurd h Bool.false_ne_true
  | mapping entries => cases entries with
    | nil => simp [represent, representEntries, leafNode]
    | cons _ _ => exact absurd h Bool.false_ne_true
  | _ => simp [represent, leafNode]

/-! ### Starts of values -/

/-- The text starts with a character that is not white space. -/
def StartsWord (t : List Char) : Prop := ∃ c u, t = c :: u ∧ c ≠ ' ' ∧ c ≠ '\n'

theorem StartsWord.append {t : List Char} (h : StartsWord t) (u : List Char) :
    StartsWord (t ++ u) := by
  obtain ⟨c, t, rfl, hc⟩ := h
  exact ⟨c, t ++ u, rfl, hc⟩

theorem startsWord_cons {c : Char} (t : List Char) (h : c ≠ ' ' ∧ c ≠ '\n') : StartsWord (c :: t) :=
  ⟨c, t, rfl, h⟩

theorem PlainSafe.startsWord {s : List Char} (hs : PlainSafe s) (m : Margin) :
    StartsWord (plain m s) := by
  cases s with
  | nil => exact absurd rfl hs.nonempty
  | cons c s =>
    have hspace : c ≠ ' ' := fun h => hs.head (congrArg some h)
    have hbreak : c ≠ '\n' := fun h => hs.noBreak (h ▸ List.mem_cons_self)
    rw [plain, plainFrom_cons_of_ne _ _ _ _ hspace]
    exact startsWord_cons _ ⟨hspace, hbreak⟩

theorem startsWord_textScalar (m : Margin) (s : List Char) : StartsWord (textScalar m s) := by
  by_cases hstyle : Style.ofText s = .plain
  · rw [textScalar, hstyle]
    exact (plainSafe_of_style hstyle).startsWord m
  · obtain ⟨q, t, hq, htext⟩ := textScalar_eq_quote m hstyle
    rw [htext]
    rcases hq with rfl | rfl <;> exact startsWord_cons t (by decide)

theorem startsWord_leafText (m : Margin) (v : Value) : StartsWord (leafText m v) := by
  by_cases hword : isPlainWord v = true
  · rw [leafText_eq_plain m hword]
    exact (plainSafe_word hword).startsWord m
  · cases v with
    | text s => exact startsWord_textScalar m s.toList
    | list _ => exact startsWord_cons _ (by decide)
    | mapping _ => exact startsWord_cons _ (by decide)
    | _ => exact absurd rfl hword

theorem startsWord_entryText (i : Nat) (key : String) (value : Value) :
    StartsWord (entryText i key value) := by
  unfold entryText
  split
  · rw [simpleKeyText, List.append_assoc]
    exact (startsWord_textScalar _ _).append _
  · exact startsWord_cons _ (by decide)

theorem startsWord_listItems (i : Nat) (v : Value) (vs : List Value) :
    StartsWord (listItems i (v :: vs)) := by
  cases vs with
  | nil => rw [listItems_singleton]; exact startsWord_cons _ (by decide)
  | cons w vs => rw [listItems_cons]; exact startsWord_cons _ (by decide)

theorem startsWord_mappingEntries (i : Nat) (e : String × Value) (es : List (String × Value)) :
    StartsWord (mappingEntries i (e :: es)) := by
  have h := startsWord_entryText i e.1 e.2
  cases es with
  | nil => rwa [mappingEntries_singleton]
  | cons e' es => rw [mappingEntries_cons]; exact h.append _

theorem noMark_dash_entryText (i : Nat) (key : String) (value : Value) (rest : List Char) :
    afterMark? '-' (entryText i key value ++ rest) = none := by
  unfold entryText
  split
  · rw [List.append_assoc]
    exact (noMark_simpleKeyText i key.toList _).dash
  · exact afterMark?_of_ne _ (by decide)

theorem noMark_dash_mappingEntries (i : Nat) (e : String × Value) (es : List (String × Value))
    (rest : List Char) : afterMark? '-' (mappingEntries i (e :: es) ++ rest) = none := by
  cases es with
  | nil => rw [mappingEntries_singleton]; exact noMark_dash_entryText i e.1 e.2 rest
  | cons e' es =>
    rw [mappingEntries_cons, List.append_assoc]
    exact noMark_dash_entryText i e.1 e.2 _

/-- What follows an indicator or a colon starts with white space. -/
theorem endsWord_afterIndicator (i : Nat) (v : Value) (rest : List Char) :
    endsWord (afterIndicator i v ++ rest) = true := by
  cases v with
  | list items => cases items <;> rfl
  | mapping entries => cases entries <;> rfl
  | _ => rfl

theorem endsWord_afterKey (i column : Nat) (v : Value) (rest : List Char) :
    endsWord (afterKey i column v ++ rest) = true := by
  cases v with
  | list items => cases items <;> rfl
  | mapping entries => cases entries <;> rfl
  | _ => rfl

theorem StartsWord.nextText_line {t : List Char} (h : StartsWord t) (j : Nat) :
    nextText 0 (breakLine j ++ t) = (j, t) := by
  obtain ⟨c, u, rfl, hspace, hbreak⟩ := h
  exact nextText_breakLine 0 j u hspace hbreak

theorem StartsWord.endsBlock_line {t : List Char} (h : StartsWord t) {j least : Nat}
    (hj : j < least) :
    EndsBlock least (breakLine j ++ t) := by
  obtain ⟨c, u, rfl, hspace, hbreak⟩ := h
  exact .line j c u hj hspace hbreak

end BundlePlan.Yaml
