import BundlePlan.Proofs.Yaml.Nesting
import BundlePlan.Proofs.Yaml.ReadBack

/-!
# Reading documents back

A document is always read, as the node of its value: its lines are those of the value, none of
them is a marker, and an open document ends with the one that is. So what is read is known
(`read_document`), it is the value that was written unless a text in it is folded twice, and no
two values are written as one document.
-/

namespace BundlePlan.Yaml

open Text (pieces joined)

/-! ### Markers -/

theorem isMarker_eq_false {line : List Char} (h : ∀ marker ∈ lineMarkers, ¬marker <+: line) :
    isMarker line = false := by
  have hne : ∀ marker ∈ lineMarkers, marker.length = 3 → line.take 3 ≠ marker :=
    fun marker hm _ heq => h marker hm (heq ▸ List.take_prefix 3 line)
  have hdash := hne ['-', '-', '-'] (by decide) rfl
  have hdots := hne ['.', '.', '.'] (by decide) rfl
  rw [isMarker, hasDocumentMarker, beq_eq_false_iff_ne.2 hdash, beq_eq_false_iff_ne.2 hdots]
  rfl

/-- What is left of a document without its last marker. -/
theorem readTree_documentText (v : Value) :
    readTree (documentText v ++ ['\n'])
      = readBody (bodyText v ++ if isOpen v then [] else ['\n']) := by
  have hall : (documentText v ++ ['\n']).all isReadable = true := by
    rw [documentText_eq, List.all_append, List.all_append,
      List.all_eq_true.2 (isReadable_bodyText v)]
    cases isOpen v <;> decide
  have hlines : ∀ line ∈ pieces '\n' (bodyText v), (!isMarker line) = true := by
    intro line hline
    rw [isMarker_eq_false (marker_not_prefix_of_mem_pieces v line hline)]
    rfl
  have hjoined : joined '\n' (pieces '\n' (bodyText v) ++ [[]]) = bodyText v ++ ['\n'] := by
    have hpieces := Text.pieces_append_cons '\n' (bodyText v) []
    rw [Text.pieces_nil] at hpieces
    rw [← hpieces, Text.joined_pieces]
  rw [readTree, hall, pieces_documentText, List.takeWhile_append_of_pos hlines,
    List.dropWhile_append_of_pos hlines]
  -- an open document ends with a marker, which is all that is cut off; a closed one has none
  cases isOpen v with
  | true =>
    have htake : [['.', '.', '.'], []].takeWhile (fun line => !isMarker line) = [] := by decide
    have hdrop : [['.', '.', '.'], []].dropWhile (fun line => !isMarker line)
        = [['.', '.', '.'], []] := by decide
    simp only [if_true, htake, hdrop, List.append_nil, Text.joined_pieces]
    exact if_pos (by decide)
  | false =>
    have htake : [[]].takeWhile (fun line => !isMarker line) = [[]] := by decide
    have hdrop : [[]].dropWhile (fun line => !isMarker line) = [] := by decide
    simp only [Bool.false_eq_true, if_false, htake, hdrop, hjoined]
    exact if_pos (by decide)

/-! ### Bodies -/

theorem startsWord_bodyText (v : Value) : StartsWord (bodyText v) := by
  unfold bodyText
  split
  · exact startsWord_listItems 0 _ _
  · exact startsWord_mappingEntries 0 _ _
  · exact startsWord_leafText _ _

/-- A value that is a whole document is read to its end. -/
theorem readNode_bodyText (v : Value) {rest : List Char} (hrest : EndsBlock 0 rest)
    (hopen : isOpen v = false → rest ≠ []) :
    readNode (bodyText v ++ rest).length 0 0 (bodyText v ++ rest)
      = some (represent .root v, rest) := by
  -- the length of the text is fuel enough, also for the readers of items and entries
  obtain ⟨fuel, hfuel⟩ : ∃ fuel, (bodyText v ++ rest).length = fuel + 1 := by
    obtain ⟨c, u, h, -⟩ := startsWord_bodyText v
    rw [h]
    exact ⟨_, rfl⟩
  have hlength : isOpen v = false → (bodyText v).length ≤ fuel := by
    intro h
    have hpos := List.length_pos_iff.2 (hopen h)
    rw [List.length_append] at hfuel
    omega
  -- a block is read by its reader, anything else as a leaf
  rw [hfuel]
  unfold bodyText at hlength ⊢
  split
  · rename_i item items
    obtain ⟨t, ht, hdash⟩ := listItems_eq_dash 0 item items rest
    have hitems := readItems_listItems 0 (item :: items) (List.cons_ne_nil _ _) fuel rest
      (hlength rfl) (hrest.mono (Nat.zero_le 1)) hrest.endsList
    rw [hdash] at hitems ⊢
    exact readNode_list ht hitems
  · rename_i entry entries
    exact readNode_mapping (readEntries_mappingEntries 0 (entry :: entries) (List.cons_ne_nil _ _)
      fuel rest (hlength rfl) hrest)
  · rename_i hlist hmapping
    have hleaf : isLeaf v = true := by
      unfold isLeaf
      split
      · exact absurd rfl (hlist _ _)
      · exact absurd rfl (hmapping _ _)
      · rfl
    have hcolumn : ColumnOk rootMargin 1 := fun h => absurd h (by decide)
    rw [represent_leaf _ hleaf]
    exact readNode_leafText (Nat.zero_le 2) rfl hcolumn v hrest fuel 0

theorem readTree_document (v : Value) :
    readTree (document v).toList = some (represent .root v.sortKeys) := by
  rw [document, String.toList_ofList, readTree_documentText]
  generalize v.sortKeys = v
  have hrest : EndsBlock 0 (if isOpen v then [] else ['\n']) := by
    cases isOpen v
    · exact .newline
    · exact .nil
  have hread := readNode_bodyText v hrest fun h => by rw [h]; decide
  have hnext : (nextText 0 (if isOpen v then [] else ['\n'])).2.isEmpty = true := by
    cases isOpen v <;> rfl
  obtain ⟨c, u, hbody, hspace, hbreak⟩ := startsWord_bodyText v
  rw [hbody] at hread ⊢
  rw [readBody, List.cons_append, nextText, if_neg hspace, if_neg hbreak]
  simp only
  rw [List.cons_append] at hread
  rw [if_neg (by simp), hread, Option.bind_some]
  simp only
  rw [hnext, if_pos rfl]

/-! ### Values -/

/-- What is read of a document: the value that was written, with its keys in order, and with
backslashes and spaces in the texts that are folded twice. -/
theorem read_document (v : Value) : read (document v) = some (valueBack .root v.sortKeys) := by
  rw [read, readTree_document, Option.bind_some, value?_represent]

/-- The document of a value is read as the value, up to the order of entries, exactly if no text in
it is folded twice. -/
theorem same_valueBack_iff (v : Value) :
    (valueBack .root v.sortKeys).Same v ↔ Unharmed (foldableTexts .root v) := by
  rw [← unharmed_sortKeys]
  have hsorted := Value.same_sortKeys v
  constructor
  · intro h
    have hlength := (h.trans hsorted).textLength_eq
    exact unharmed_of_textLength_le .root v.sortKeys (Nat.le_of_eq hlength)
  · intro h
    rw [valueBack_of_unharmed .root v.sortKeys h]
    exact hsorted.symm

/-- No two values are written as one document. -/
theorem sortKeys_eq_of_document_eq {u v : Value} (h : document u = document v) :
    u.sortKeys = v.sortKeys := by
  have htree := congrArg (fun s => readTree s.toList) h
  simp only [readTree_document] at htree
  exact represent_injective .root (Option.some.inj htree)

/-- Every document is read, as the value that was written unless a text in it is folded twice; two
values with one document differ in the order of entries at most. -/
theorem document_read_back (v : Value) :
    ∃ w, read (document v) = some w ∧ (w.Same v ↔ Unharmed (foldableTexts .root v)) ∧
      ∀ u, document u = document v → u.Same v := by
  refine ⟨_, read_document v, same_valueBack_iff v, fun u h => ?_⟩
  have hsorted := Value.same_sortKeys u
  rw [sortKeys_eq_of_document_eq h] at hsorted
  exact hsorted.trans (Value.same_sortKeys v).symm

/-- A value under a key under a key, and so on. -/
def underKeys : Nat → Value → Value
  | 0, v => v
  | depth + 1, v => .mapping [("k", underKeys depth v)]

/-- Forty keys deep, a text with an escaped character before a space is read back with one more
backslash. -/
theorem document_not_read_back :
    ¬∃ w, read (document (underKeys 40 (.text "aé bc"))) = some w ∧
      w.Same (underKeys 40 (.text "aé bc")) := by
  rintro ⟨w, hread, hsame⟩
  rw [read_document] at hread
  obtain rfl := Option.some.inj hread
  exact absurd ((same_valueBack_iff _).1 hsame) (by decide)

end BundlePlan.Yaml
