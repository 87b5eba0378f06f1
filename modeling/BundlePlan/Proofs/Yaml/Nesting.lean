import BundlePlan.Proofs.Yaml.Tree

/-!
# Reading blocks back

Every reader of blocks is taken through one entry by a lemma of its own. The induction over values
puts these together: a block is read as what `represent` says, up to what follows it. The length
of the text pays for the fuel.
-/

namespace BundlePlan.Yaml

/-! ### Readers that succeed -/

section

variable {node : NodeReader} {items : ListReader} {i : Nat} {rest : List Char} {n : Node}

theorem readAfterMark_of_startsWord {t : List Char} (ht : StartsWord t)
    (h : node (i + 1) (i + 2) t = some (n, rest)) :
    readAfterMark node i (' ' :: t) = some (n, rest) := by
  obtain ⟨c, u, rfl, hspace, hbreak⟩ := ht
  have hnext : nextText (i + 1) (' ' :: c :: u) = (i + 2, c :: u) :=
    nextText_spaces (i + 1) 1 u hspace hbreak
  rw [readAfterMark, hnext]
  simp only
  rw [if_neg (by simp), h]

/-- A list that is the value of a key stands in the column of the key. -/
theorem readAfterColon_list {t : List Char} (ht : StartsWord t)
    (hdash : (afterMark? '-' t).isSome = true) {nodes : List Node}
    (h : items i t = some (nodes, rest)) :
    readAfterColon node items i (breakLine i ++ t) = some (.list nodes, rest) := by
  rw [readAfterColon, if_pos (show endsLine (breakLine i ++ t) = true from rfl), ht.nextText_line]
  simp only
  rw [hdash, beq_self_eq_true, if_pos (by decide), h]
  rfl

/-- Any other block that is the value of a key is indented. -/
theorem readAfterColon_block {t : List Char} (ht : StartsWord t)
    (hdash : afterMark? '-' t = none) (h : node (i + 1) (i + 2) t = some (n, rest)) :
    readAfterColon node items i (breakLine (i + 2) ++ t) = some (n, rest) := by
  rw [readAfterColon, if_pos (show endsLine (breakLine (i + 2) ++ t) = true from rfl),
    ht.nextText_line]
  obtain ⟨c, u, rfl, -, -⟩ := ht
  simp only
  rw [hdash, if_neg (by simp), if_neg (by simp), h]

theorem readAfterColon_leaf {t : List Char} (ht : StartsWord t)
    (h : readLeaf (i + 1) t = some (n, rest)) :
    readAfterColon node items i (' ' :: t) = some (n, rest) := by
  obtain ⟨c, u, rfl, hspace, hbreak⟩ := ht
  have hdrop : (' ' :: c :: u).dropWhile (· == ' ') = c :: u := by
    rw [List.dropWhile_cons_of_pos (by decide), List.dropWhile_cons_of_neg (by simpa using hspace)]
  have hends : endsLine (' ' :: c :: u) = false := by
    rw [endsLine, hdrop]
    exact beq_eq_false_iff_ne.2 hbreak
  rw [readAfterColon, if_neg (by rw [hends]; decide), hdrop, h]

/-- The value of a short key is read after its colon. -/
theorem readEntry_simple {key : String} (hkey : isSimpleKey key.toList = true) {t : List Char}
    (ht : endsWord t = true) (h : readAfterColon node items i t = some (n, rest)) :
    readEntry node items i (simpleKeyText i key.toList ++ t)
      = some ((⟨Style.ofText key.toList, key.toList⟩, n), rest) := by
  rw [readEntry, (noMark_simpleKeyText i key.toList t).question]
  simp only
  rw [readKey?_simpleKeyText i hkey ht, Option.bind_some, h]
  rfl

/-- Any other key and its value are read after their indicators. -/
theorem readEntry_complex {key : Scalar} {s t : List Char} (hs : endsWord s = true)
    (ht : endsWord t = true)
    (hkey : readAfterMark node i s = some (.scalar key, breakLine i ++ ':' :: t))
    (hvalue : readAfterMark node i t = some (n, rest)) :
    readEntry node items i ('?' :: s) = some ((key, n), rest) := by
  have hnext := (startsWord_cons (c := ':') t (by decide)).nextText_line i
  rw [readEntry, afterMark?, if_pos ⟨rfl, hs⟩]
  simp only
  rw [readMarkedEntry, hkey]
  simp only
  rw [hnext]
  simp only
  rw [if_pos trivial, afterMark?, if_pos ⟨rfl, ht⟩, Option.bind_some, hvalue]
  rfl

end

/-- No item of a list at column `i` comes next. -/
def EndsList (i : Nat) (rest : List Char) : Prop :=
  ((afterMark? '-' (nextText 0 rest).2).isSome && (nextText 0 rest).1 == i) = false

/-- No entry of a mapping at column `i` comes next. -/
def EndsMapping (i : Nat) (rest : List Char) : Prop :=
  (!(nextText 0 rest).2.isEmpty && (nextText 0 rest).1 == i) = false

theorem EndsBlock.endsMapping {i : Nat} {rest : List Char} (h : EndsBlock i rest) :
    EndsMapping i rest := by
  rcases h.nextText 0 with h | h
  · rw [EndsMapping, h]
    rfl
  · rw [EndsMapping, beq_eq_false_iff_ne.2 (Nat.ne_of_lt h), Bool.and_false]

theorem EndsBlock.endsList {i : Nat} {rest : List Char} (h : EndsBlock i rest) :
    EndsList i rest := by
  rcases h.nextText 0 with h | h
  · rw [EndsList, h]
    rfl
  · rw [EndsList, beq_eq_false_iff_ne.2 (Nat.ne_of_lt h), Bool.and_false]

section

variable {fuel i : Nat} {rest : List Char} {n : Node}

theorem readItems_last {t : List Char} (ht : endsWord t = true)
    (hitem : readAfterMark (readNode fuel) i t = some (n, rest)) (hrest : EndsList i rest) :
    readItems (fuel + 1) i ('-' :: t) = some ([n], rest) := by
  rw [readItems, afterMark?, if_pos ⟨rfl, ht⟩, Option.bind_some, hitem, Option.bind_some]
  simp only
  rw [hrest, if_neg (by decide)]

theorem readItems_cons {t u : List Char} (ht : endsWord t = true) (hu : endsWord u = true)
    (hitem : readAfterMark (readNode fuel) i t = some (n, breakLine i ++ '-' :: u))
    {nodes : List Node} (hitems : readItems fuel i ('-' :: u) = some (nodes, rest)) :
    readItems (fuel + 1) i ('-' :: t) = some (n :: nodes, rest) := by
  have hnext := (startsWord_cons (c := '-') u (by decide)).nextText_line i
  have hdash : afterMark? '-' ('-' :: u) = some u := if_pos ⟨rfl, hu⟩
  rw [readItems, afterMark?, if_pos ⟨rfl, ht⟩, Option.bind_some, hitem, Option.bind_some]
  simp only
  rw [hnext]
  simp only
  rw [hdash, beq_self_eq_true, Option.isSome_some, Bool.and_self, if_pos rfl, hitems]
  rfl

theorem readEntries_last {t : List Char} {entry : Scalar × Node}
    (hentry : readEntry (readNode fuel) (readItems fuel) i t = some (entry, rest))
    (hrest : EndsMapping i rest) : readEntries (fuel + 1) i t = some ([entry], rest) := by
  rw [readEntries, hentry, Option.bind_some]
  simp only
  rw [hrest, if_neg (by decide)]

theorem readEntries_cons {t u : List Char} {entry : Scalar × Node} (hu : StartsWord u)
    (hentry : readEntry (readNode fuel) (readItems fuel) i t = some (entry, breakLine i ++ u))
    {entries : List (Scalar × Node)} (hentries : readEntries fuel i u = some (entries, rest)) :
    readEntries (fuel + 1) i t = some (entry :: entries, rest) := by
  rw [readEntries, hentry, Option.bind_some]
  simp only
  rw [hu.nextText_line]
  obtain ⟨c, u, rfl, -, -⟩ := hu
  simp only
  rw [beq_self_eq_true, List.isEmpty_cons, Bool.not_false, Bool.and_self, if_pos rfl, hentries]
  rfl

end

/-! ### Blocks -/

theorem readNode_list {fuel least i : Nat} {t rest : List Char} (ht : endsWord t = true)
    {nodes : List Node} (h : readItems fuel i ('-' :: t) = some (nodes, rest)) :
    readNode (fuel + 1) least i ('-' :: t) = some (.list nodes, rest) := by
  have hdash : afterMark? '-' ('-' :: t) = some t := if_pos ⟨rfl, ht⟩
  rw [readNode, hdash, Option.isSome_some, if_pos rfl, h]
  rfl

/-- An entry starts with a question mark or with a key. -/
theorem entry_isSome (i : Nat) (key : String) (value : Value) (rest : List Char) :
    ((afterMark? '?' (entryText i key value ++ rest)).isSome
      || (readKey? (entryText i key value ++ rest)).isSome) = true := by
  cases hkey : isSimpleKey key.toList with
  | true =>
    rw [entryText_simple i hkey, List.append_assoc,
      readKey?_simpleKeyText i hkey (endsWord_afterKey _ _ _ _), Option.isSome_some, Bool.or_true]
  | false =>
    rw [entryText_complex i hkey, List.cons_append, List.append_assoc, afterMark?,
      if_pos ⟨rfl, endsWord_afterIndicator _ _ _⟩]
    rfl

theorem readNode_mapping {fuel least i : Nat} {e : String × Value} {es : List (String × Value)}
    {rest : List Char} {entries : List (Scalar × Node)}
    (h : readEntries fuel i (mappingEntries i (e :: es) ++ rest) = some (entries, rest)) :
    readNode (fuel + 1) least i (mappingEntries i (e :: es) ++ rest)
      = some (.mapping entries, rest) := by
  have hentry : ∃ u, mappingEntries i (e :: es) ++ rest = entryText i e.1 e.2 ++ u := by
    cases es with
    | nil => exact ⟨rest, by rw [mappingEntries_singleton]⟩
    | cons e' es => exact ⟨_, by rw [mappingEntries_cons, List.append_assoc]⟩
  obtain ⟨u, hu⟩ := hentry
  rw [readNode, noMark_dash_mappingEntries, if_neg (by decide), h, hu, entry_isSome, if_pos rfl]
  rfl

/-- A leaf after an indicator is read to its end. -/
theorem readAfterMark_leaf {fuel i : Nat} {v : Value} (hv : isLeaf v = true) {rest : List Char}
    (hfuel : (afterIndicator i v).length ≤ fuel) (hrest : EndsBlock (i + 1) rest) :
    readAfterMark (readNode fuel) i (afterIndicator i v ++ rest)
      = some (represent (.afterMark i) v, rest) := by
  have hcolumn : ColumnOk (markMargin i) (i + 3) := fun _ => Nat.le_succ (i + 2)
  obtain ⟨fuel, rfl⟩ : ∃ f, fuel = f + 1 := by
    rw [afterIndicator_leaf i hv] at hfuel
    exact Nat.exists_eq_add_one.2 (Nat.lt_of_lt_of_le (Nat.succ_pos _) hfuel)
  rw [afterIndicator_leaf i hv, represent_leaf _ hv, List.cons_append]
  exact readAfterMark_of_startsWord ((startsWord_leafText _ v).append rest)
    (readNode_leafText (Nat.le_succ (i + 1)) rfl hcolumn v hrest fuel (i + 2))

/-- An entry is read when its value is. -/
theorem readEntry_entryText {fuel i : Nat} {key : String} {value : Value} {rest : List Char}
    (hcolon : ∀ column, (afterKey i column value).length ≤ fuel → i ≤ column →
      readAfterColon (readNode fuel) (readItems fuel) i (afterKey i column value ++ rest)
        = some (represent (.afterKey i) value, rest))
    (hmark : (afterIndicator i value).length ≤ fuel →
      readAfterMark (readNode fuel) i (afterIndicator i value ++ rest)
        = some (represent (.afterMark i) value, rest))
    (hfuel : (entryText i key value).length ≤ fuel + 1) :
    readEntry (readNode fuel) (readItems fuel) i (entryText i key value ++ rest)
      = some ((⟨Style.ofText key.toList, keyBack i key⟩, represent (.ofValue i key) value),
        rest) := by
  unfold keyBack Place.ofValue
  cases hkey : isSimpleKey key.toList with
  | true =>
    have hlength : (simpleKeyText i key.toList).length ≠ 0 := by simp [simpleKeyText]
    rw [entryText_simple i hkey] at hfuel ⊢
    rw [List.length_append] at hfuel
    rw [List.append_assoc]
    exact readEntry_simple hkey (endsWord_afterKey _ _ _ _)
      (hcolon _ (by omega) (Nat.le_add_right i _))
  | false =>
    rw [entryText_complex i hkey] at hfuel ⊢
    simp only [List.length_cons, List.length_append] at hfuel
    -- the key is read as any other leaf, up to the colon on a line of its own
    have hcolon : EndsBlock (i + 1) (breakLine i ++ ':' :: (afterIndicator i value ++ rest)) :=
      .line i ':' _ (Nat.lt_succ_self i) (by decide) (by decide)
    have htext := readAfterMark_leaf (v := .text key) rfl (show _ ≤ fuel by omega) hcolon
    rw [represent] at htext
    rw [List.cons_append, List.append_assoc, List.append_assoc, List.cons_append]
    exact readEntry_complex (endsWord_afterIndicator _ _ _) (endsWord_afterIndicator _ _ _) htext
      (hmark (by omega))

/-- A leaf after a key is read to its end. -/
theorem readAfterColon_leafText (node : NodeReader) (items : ListReader) (i : Nat) {column : Nat}
    (hle : i ≤ column) {v : Value} (hv : isLeaf v = true) {rest : List Char}
    (hrest : EndsBlock (i + 1) rest) :
    readAfterColon node items i (afterKey i column v ++ rest)
      = some (represent (.afterKey i) v, rest) := by
  have hcolumn : ColumnOk (keyMargin i column) (column + 2) := fun _ => Nat.add_le_add_right hle 2
  rw [afterKey_leaf i column hv, represent_leaf _ hv, List.cons_append]
  refine readAfterColon_leaf ((startsWord_leafText _ v).append rest) ?_
  rw [readLeaf,
    readInline_leafText (m := keyMargin i column) (Nat.le_succ (i + 1)) rfl hcolumn v hrest]
  simp [Option.filter, hrest.endsLine, Place.afterKey, keyMargin]

theorem length_entryText_pos (i : Nat) (key : String) (value : Value) :
    0 < (entryText i key value).length := by
  obtain ⟨c, u, h, -⟩ := startsWord_entryText i key value
  rw [h]
  exact Nat.succ_pos _

theorem endsList_entry (i : Nat) (e : String × Value) (es : List (String × Value))
    (rest : List Char) : EndsList i (breakLine i ++ (mappingEntries i (e :: es) ++ rest)) := by
  rw [EndsList, ((startsWord_mappingEntries i e es).append rest).nextText_line,
    noMark_dash_mappingEntries]
  rfl

/-- A list starts with the indicator of its first item. -/
theorem listItems_eq_dash (i : Nat) (v : Value) (vs : List Value) (rest : List Char) :
    ∃ t, endsWord t = true ∧ listItems i (v :: vs) ++ rest = '-' :: t := by
  cases vs with
  | nil =>
    refine ⟨_, endsWord_afterIndicator i v rest, ?_⟩
    rw [listItems_singleton, List.cons_append]
  | cons w vs =>
    refine ⟨_, endsWord_afterIndicator i v (breakLine i ++ listItems i (w :: vs) ++ rest), ?_⟩
    rw [listItems_cons, List.append_assoc, List.cons_append]

/-! ### Values -/

mutual

/-- A value after an indicator is read to its end. -/
theorem readAfterMark_afterIndicator (i : Nat) : ∀ (v : Value) (fuel : Nat) (rest : List Char),
    (afterIndicator i v).length ≤ fuel → EndsBlock (i + 1) rest →
    readAfterMark (readNode fuel) i (afterIndicator i v ++ rest)
      = some (represent (.afterMark i) v, rest)
  | .null, _, _, hfuel, hrest => readAfterMark_leaf rfl hfuel hrest
  | .bool _, _, _, hfuel, hrest => readAfterMark_leaf rfl hfuel hrest
  | .int _, _, _, hfuel, hrest => readAfterMark_leaf rfl hfuel hrest
  | .text _, _, _, hfuel, hrest => readAfterMark_leaf rfl hfuel hrest
  | .list [], _, _, hfuel, hrest => readAfterMark_leaf rfl hfuel hrest
  | .mapping [], _, _, hfuel, hrest => readAfterMark_leaf rfl hfuel hrest
  | .list (v :: vs), fuel, rest, hfuel, hrest => by
    rw [afterIndicator_list] at hfuel ⊢
    obtain ⟨fuel, rfl⟩ := Nat.exists_eq_add_one.2 (Nat.lt_of_lt_of_le (Nat.succ_pos _) hfuel)
    have hitems := readItems_listItems (i + 2) (v :: vs) (List.cons_ne_nil v vs) fuel rest
      (Nat.le_of_succ_le_succ hfuel) (hrest.mono (by omega)) (hrest.mono (by omega)).endsList
    obtain ⟨t, ht, hdash⟩ := listItems_eq_dash (i + 2) v vs rest
    rw [List.cons_append]
    refine readAfterMark_of_startsWord ((startsWord_listItems (i + 2) v vs).append rest) ?_
    rw [hdash] at hitems ⊢
    rw [represent]
    exact readNode_list ht hitems
  | .mapping (e :: es), fuel, rest, hfuel, hrest => by
    rw [afterIndicator_mapping] at hfuel ⊢
    obtain ⟨fuel, rfl⟩ := Nat.exists_eq_add_one.2 (Nat.lt_of_lt_of_le (Nat.succ_pos _) hfuel)
    have hentries := readEntries_mappingEntries (i + 2) (e :: es) (List.cons_ne_nil e es) fuel rest
      (Nat.le_of_succ_le_succ hfuel) (hrest.mono (by omega))
    rw [List.cons_append, represent]
    exact readAfterMark_of_startsWord ((startsWord_mappingEntries (i + 2) e es).append rest)
      (readNode_mapping hentries)

/-- The value of a short key is read to its end. -/
theorem readAfterColon_afterKey (i : Nat) : ∀ (v : Value) (fuel column : Nat) (rest : List Char),
    (afterKey i column v).length ≤ fuel → i ≤ column → EndsBlock (i + 1) rest → EndsList i rest →
    readAfterColon (readNode fuel) (readItems fuel) i (afterKey i column v ++ rest)
      = some (represent (.afterKey i) v, rest)
  | .null, _, _, _, _, hle, hrest, _ => readAfterColon_leafText _ _ i hle rfl hrest
  | .bool _, _, _, _, _, hle, hrest, _ => readAfterColon_leafText _ _ i hle rfl hrest
  | .int _, _, _, _, _, hle, hrest, _ => readAfterColon_leafText _ _ i hle rfl hrest
  | .text _, _, _, _, _, hle, hrest, _ => readAfterColon_leafText _ _ i hle rfl hrest
  | .list [], _, _, _, _, hle, hrest, _ => readAfterColon_leafText _ _ i hle rfl hrest
  | .mapping [], _, _, _, _, hle, hrest, _ => readAfterColon_leafText _ _ i hle rfl hrest
  | .list (v :: vs), fuel, column, rest, hfuel, _, hrest, hlist => by
    rw [afterKey_list, List.length_append] at hfuel
    -- the list stands in the column of its key, where only a dash tells it from the next entry
    have hitems := readItems_listItems i (v :: vs) (List.cons_ne_nil v vs) fuel rest (by omega)
      hrest hlist
    obtain ⟨t, ht, hdash⟩ := listItems_eq_dash i v vs rest
    have hsome : (afterMark? '-' (listItems i (v :: vs) ++ rest)).isSome = true := by
      rw [hdash, afterMark?, if_pos ⟨rfl, ht⟩, Option.isSome_some]
    rw [afterKey_list, List.append_assoc, represent]
    exact readAfterColon_list ((startsWord_listItems i v vs).append rest) hsome hitems
  | .mapping (e :: es), fuel, column, rest, hfuel, _, hrest, _ => by
    rw [afterKey_mapping, List.length_append, breakLine, List.length_cons] at hfuel
    obtain ⟨fuel, rfl⟩ := Nat.exists_eq_add_one_of_ne_zero (show fuel ≠ 0 by omega)
    have hentries := readEntries_mappingEntries (i + 2) (e :: es) (List.cons_ne_nil e es) fuel rest
      (by omega) (hrest.mono (by omega))
    rw [afterKey_mapping, List.append_assoc, represent]
    exact readAfterColon_block ((startsWord_mappingEntries (i + 2) e es).append rest)
      (noMark_dash_mappingEntries _ _ _ _) (readNode_mapping hentries)

/-- A list is read to its end. -/
theorem readItems_listItems (i : Nat) : ∀ (vs : List Value), vs ≠ [] → ∀ (fuel : Nat)
    (rest : List Char), (listItems i vs).length ≤ fuel → EndsBlock (i + 1) rest → EndsList i rest →
    readItems fuel i (listItems i vs ++ rest) = some (representItems i vs, rest)
  | [], h, _, _, _, _, _ => absurd rfl h
  | [v], _, fuel, rest, hfuel, hrest, hlist => by
    rw [listItems_singleton] at hfuel ⊢
    obtain ⟨fuel, rfl⟩ := Nat.exists_eq_add_one.2 (Nat.lt_of_lt_of_le (Nat.succ_pos _) hfuel)
    have hitem := readAfterMark_afterIndicator i v fuel rest (Nat.le_of_succ_le_succ hfuel) hrest
    rw [List.cons_append, representItems, representItems]
    exact readItems_last (endsWord_afterIndicator i v rest) hitem hlist
  | v :: w :: vs, _, fuel, rest, hfuel, hrest, hlist => by
    rw [listItems_cons, List.cons_append, List.length_cons, List.length_append,
      List.length_append] at hfuel
    obtain ⟨fuel, rfl⟩ := Nat.exists_eq_add_one_of_ne_zero (show fuel ≠ 0 by omega)
    -- the next item ends this one because its dash is left of where the item goes on
    have hnext := (startsWord_listItems i w vs).append rest
    have hitem := readAfterMark_afterIndicator i v fuel _ (by omega)
      (hnext.endsBlock_line (Nat.lt_succ_self i))
    have hitems := readItems_listItems i (w :: vs) (List.cons_ne_nil w vs) fuel rest (by omega)
      hrest hlist
    obtain ⟨u, hu, hdash⟩ := listItems_eq_dash i w vs rest
    rw [listItems_cons, List.append_assoc, List.append_assoc, List.cons_append, representItems]
    rw [hdash] at hitem hitems ⊢
    exact readItems_cons (endsWord_afterIndicator _ _ _) hu hitem hitems

/-- A mapping is read to its end. -/
theorem readEntries_mappingEntries (i : Nat) : ∀ (es : List (String × Value)), es ≠ [] →
    ∀ (fuel : Nat) (rest : List Char), (mappingEntries i es).length ≤ fuel → EndsBlock i rest →
    readEntries fuel i (mappingEntries i es ++ rest) = some (representEntries i es, rest)
  | [], h, _, _, _, _ => absurd rfl h
  | [(key, value)], _, fuel, rest, hfuel, hrest => by
    have hpos := length_entryText_pos i key value
    rw [mappingEntries_singleton] at hfuel ⊢
    obtain ⟨fuel, rfl⟩ := Nat.exists_eq_add_one_of_ne_zero (show fuel ≠ 0 by omega)
    have hrest' := hrest.mono (Nat.le_succ i)
    have hentry := readEntry_entryText
      (fun column h hle =>
        readAfterColon_afterKey i value fuel column rest h hle hrest' hrest.endsList)
      (fun h => readAfterMark_afterIndicator i value fuel rest h hrest') hfuel
    rw [representEntries, representEntries]
    exact readEntries_last hentry hrest.endsMapping
  | (key, value) :: e :: es, _, fuel, rest, hfuel, hrest => by
    have hpos := length_entryText_pos i key value
    rw [mappingEntries_cons, List.length_append, List.length_append, breakLine,
      List.length_cons] at hfuel
    obtain ⟨fuel, rfl⟩ := Nat.exists_eq_add_one_of_ne_zero (show fuel ≠ 0 by omega)
    have hlength : (entryText i key value).length ≤ fuel + 1 := by omega
    have hnext := (startsWord_mappingEntries i e es).append rest
    have hrest' := hnext.endsBlock_line (Nat.lt_succ_self i)
    have hentry := readEntry_entryText
      (fun column h hle =>
        readAfterColon_afterKey i value fuel column _ h hle hrest' (endsList_entry i e es rest))
      (fun h => readAfterMark_afterIndicator i value fuel _ h hrest') hlength
    have hentries :=
      readEntries_mappingEntries i (e :: es) (List.cons_ne_nil e es) fuel rest (by omega) hrest
    rw [mappingEntries_cons, List.append_assoc, List.append_assoc, representEntries]
    exact readEntries_cons hnext hentry hentries

end

end BundlePlan.Yaml
