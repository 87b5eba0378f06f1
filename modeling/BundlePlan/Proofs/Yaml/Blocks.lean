import BundlePlan.Yaml.Document

/-!
# Blocks and their lines

What a document consists of, in equations that later modules use instead of the definitions: a
value is a leaf, which is written on from where it stands, or a block, whose entries start on
lines of their own.

`Closed` collects what makes a property of texts hold of every block, so that the induction over
values is done once. A line of a block starts with an indicator or a key, none of which looks like
a document marker or a fence: this is `SafeStart`.
-/

namespace BundlePlan.Yaml

/-! ### Leaves -/

/-- Whether a value is written without a block. -/
def isLeaf : Value → Bool
  | .list (_ :: _) => false
  | .mapping (_ :: _) => false
  | _ => true

/-- A value that is written without a block. -/
def leafText (m : Margin) : Value → List Char
  | .null => "null".toList
  | .bool b => boolText b
  | .int n => plain m (Value.intText n)
  | .text s => textScalar m s.toList
  | .list _ => ['[', ']']
  | .mapping _ => ['\x7b', '\x7d']

/-- The margin of a leaf after an indicator in the block at column `i`. -/
def markMargin (i : Nat) : Margin := ⟨i + 2, i + 2, true⟩

/-- The margin of a leaf after a key in the block at column `i`, where the colon ends at
`column`. -/
def keyMargin (i column : Nat) : Margin := ⟨i + 2, column + 1, true⟩

/-- The margin of a leaf that is a whole document. -/
def rootMargin : Margin := ⟨2, 0, true⟩

theorem afterIndicator_leaf (i : Nat) {v : Value} (h : isLeaf v = true) :
    afterIndicator i v = ' ' :: leafText (markMargin i) v := by
  cases v with
  | list items => cases items with
    | nil => rfl
    | cons _ _ => exact absurd h (by simp [isLeaf])
  | mapping entries => cases entries with
    | nil => rfl
    | cons _ _ => exact absurd h (by simp [isLeaf])
  | _ => rfl

theorem afterKey_leaf (i column : Nat) {v : Value} (h : isLeaf v = true) :
    afterKey i column v = ' ' :: leafText (keyMargin i column) v := by
  cases v with
  | list items => cases items with
    | nil => rfl
    | cons _ _ => exact absurd h (by simp [isLeaf])
  | mapping entries => cases entries with
    | nil => rfl
    | cons _ _ => exact absurd h (by simp [isLeaf])
  | _ => rfl

theorem afterIndicator_list (i : Nat) (v : Value) (vs : List Value) :
    afterIndicator i (.list (v :: vs)) = ' ' :: listItems (i + 2) (v :: vs) := by
  simp only [afterIndicator]

theorem afterIndicator_mapping (i : Nat) (e : String × Value) (es : List (String × Value)) :
    afterIndicator i (.mapping (e :: es)) = ' ' :: mappingEntries (i + 2) (e :: es) := by
  simp only [afterIndicator]

theorem afterKey_list (i column : Nat) (v : Value) (vs : List Value) :
    afterKey i column (.list (v :: vs)) = breakLine i ++ listItems i (v :: vs) := by
  simp only [afterKey]

theorem afterKey_mapping (i column : Nat) (e : String × Value) (es : List (String × Value)) :
    afterKey i column (.mapping (e :: es))
      = breakLine (i + 2) ++ mappingEntries (i + 2) (e :: es) := by
  simp only [afterKey]

/-! ### Entries -/

/-- An entry of a mapping at column `i`. -/
def entryText (i : Nat) (key : String) (value : Value) : List Char :=
  if isSimpleKey key.toList then
    simpleKeyText i key.toList ++ afterKey i (i + (simpleKeyText i key.toList).length) value
  else '?' :: afterIndicator i (.text key) ++ breakLine i ++ ':' :: afterIndicator i value

theorem entryText_simple (i : Nat) {key : String} (h : isSimpleKey key.toList = true)
    (value : Value) :
    entryText i key value = simpleKeyText i key.toList
      ++ afterKey i (i + (simpleKeyText i key.toList).length) value :=
  if_pos h

theorem entryText_complex (i : Nat) {key : String} (h : isSimpleKey key.toList = false)
    (value : Value) :
    entryText i key value = '?' :: (afterIndicator i (.text key)
      ++ (breakLine i ++ ':' :: afterIndicator i value)) := by
  rw [entryText, h, if_neg (by decide), List.append_assoc, List.cons_append]

theorem listItems_singleton (i : Nat) (v : Value) :
    listItems i [v] = '-' :: afterIndicator i v := by
  simp [listItems]

theorem listItems_cons (i : Nat) (v w : Value) (vs : List Value) :
    listItems i (v :: w :: vs)
      = '-' :: afterIndicator i v ++ (breakLine i ++ listItems i (w :: vs)) := by
  rw [listItems]

theorem mappingEntries_head (i : Nat) (key : String) (value : Value) :
    (if isSimpleKey key.toList then
      simpleKeyText i key.toList ++ afterKey i (i + (simpleKeyText i key.toList).length) value
    else complexKeyText i key.toList ++ afterIndicator i value) = entryText i key value := by
  unfold entryText
  split
  · rfl
  · simp [complexKeyText, afterIndicator]

theorem mappingEntries_singleton (i : Nat) (key : String) (value : Value) :
    mappingEntries i [(key, value)] = entryText i key value := by
  rw [mappingEntries, mappingEntries_head, List.append_nil]

theorem mappingEntries_cons (i : Nat) (key : String) (value : Value) (e : String × Value)
    (es : List (String × Value)) :
    mappingEntries i ((key, value) :: e :: es)
      = entryText i key value ++ (breakLine i ++ mappingEntries i (e :: es)) := by
  rw [mappingEntries, mappingEntries_head]

/-! ### Starts of lines -/

/-- What marks the limits of documents and of the fence around them. -/
def lineMarkers : List (List Char) := [['-', '-', '-'], ['.', '.', '.'], ['\x60', '\x60', '\x60']]

/-- No text that starts like this starts with a marker. -/
def SafeStart (s : List Char) : Prop := ∀ marker ∈ lineMarkers, ∀ t, ¬marker <+: s ++ t

theorem SafeStart.append {s : List Char} (h : SafeStart s) (t : List Char) :
    SafeStart (s ++ t) := by
  intro marker hmarker u
  rw [List.append_assoc]
  exact h marker hmarker (t ++ u)

/-- A first character that no marker starts with. -/
theorem safeStart_cons {c : Char} (s : List Char)
    (h : ∀ marker ∈ lineMarkers, marker.head? ≠ some c) :
    SafeStart (c :: s) := by
  intro marker hmarker t hstarts
  have hc := h marker hmarker
  cases marker with
  | nil => simp [lineMarkers] at hmarker
  | cons d marker =>
    rw [List.cons_append, List.cons_prefix_cons] at hstarts
    exact hc (congrArg some hstarts.1)

/-- Two first characters that differ. -/
theorem safeStart_cons_cons {c d : Char} (s : List Char) (h : c ≠ d) : SafeStart (c :: d :: s) := by
  have hall : ∀ marker ∈ lineMarkers, ∃ e u, marker = e :: e :: u := by
    simp [lineMarkers]
  intro marker hmarker t hstarts
  obtain ⟨e, u, rfl⟩ := hall marker hmarker
  simp only [List.cons_append, List.cons_prefix_cons] at hstarts
  exact h (hstarts.1.symm.trans hstarts.2.1)

/-- A text that starts with no marker, and then a character that is in none. -/
theorem safeStart_append_cons {s : List Char} {c : Char} (t : List Char)
    (hs : ∀ marker ∈ lineMarkers, ¬marker <+: s) (hc : ∀ marker ∈ lineMarkers, c ∉ marker) :
    SafeStart (s ++ c :: t) := by
  intro marker hmarker u hstarts
  have hsplit : s ++ [c] <+: s ++ c :: t ++ u := ⟨t ++ u, by simp⟩
  -- the marker ends before the character or has it in it
  rcases List.prefix_or_prefix_of_prefix hstarts hsplit with h | h
  · rcases List.prefix_concat_iff.1 h with rfl | h
    · exact hc _ hmarker (by simp)
    · exact hs marker hmarker h
  · exact hc marker hmarker (h.subset (by simp))

theorem safeStart_afterIndicator (c : Char) (i : Nat) (v : Value) (h : c ≠ ' ') :
    SafeStart (c :: afterIndicator i v) := by
  obtain ⟨t, ht⟩ : ∃ t, afterIndicator i v = ' ' :: t := by
    cases v with
    | list items => cases items <;> exact ⟨_, rfl⟩
    | mapping entries => cases entries <;> exact ⟨_, rfl⟩
    | _ => exact ⟨_, rfl⟩
  rw [ht]
  exact safeStart_cons_cons t h

/-- What a plain scalar starts with, its text starts with, up to the first space. -/
theorem prefix_of_prefix_plainFrom {m : Margin} {x s : List Char} (afterSpace : Bool)
    (column : Nat) (h : x <+: plainFrom m afterSpace column s) (hspace : ' ' ∉ x)
    (hbreak : '\n' ∉ x) : x <+: s := by
  induction x generalizing afterSpace column s with
  | nil => exact List.nil_prefix
  | cons c x ih =>
    simp only [List.mem_cons, not_or] at hspace hbreak
    cases s with
    | nil => simp [plainFrom] at h
    | cons d s =>
      rw [plainFrom] at h
      split at h
      · rename_i hd
        subst hd
        split at h
        · rw [breakLine, List.cons_append, List.cons_prefix_cons] at h
          exact absurd h.1.symm hbreak.1
        · rw [List.cons_prefix_cons] at h
          exact absurd h.1.symm hspace.1
      · rw [List.cons_prefix_cons] at h ⊢
        exact ⟨h.1, ih _ _ h.2 hspace.2 hbreak.2⟩

theorem marker_not_prefix_of_allowsPlain {s : List Char} (h : allowsPlain s = true) :
    ∀ marker ∈ lineMarkers, ¬marker <+: s := by
  simp only [allowsPlain, Bool.and_eq_true, Bool.not_eq_true'] at h
  obtain ⟨⟨⟨⟨-, hmarker⟩, hlead⟩, -⟩, -⟩ := h
  rintro marker hmem ⟨t, rfl⟩
  simp only [lineMarkers, List.mem_cons, List.not_mem_nil, or_false] at hmem
  rcases hmem with rfl | rfl | rfl
  · exact absurd hmarker (show ¬_ = _ from nofun)
  · exact absurd hmarker (show ¬_ = _ from nofun)
  · exact absurd hlead (show ¬_ = _ from nofun)

theorem allowsPlain_of_style {s : List Char} (h : Style.ofText s = .plain) :
    allowsPlain s = true := by
  unfold Style.ofText at h
  split at h
  · exact absurd h (by decide)
  · split at h
    · rename_i hplain
      exact (Bool.and_eq_true_iff.1 hplain).1
    · exact absurd h (by decide)

theorem marker_chars : ∀ marker ∈ lineMarkers, ' ' ∉ marker ∧ '\n' ∉ marker ∧ ':' ∉ marker := by
  decide

theorem safeStart_textScalar (m : Margin) (s : List Char) {c : Char} (t : List Char)
    (hc : ∀ marker ∈ lineMarkers, c ∉ marker) : SafeStart (textScalar m s ++ c :: t) := by
  unfold textScalar
  split
  · rename_i hstyle
    refine safeStart_append_cons t (fun marker hmarker h => ?_) hc
    obtain ⟨hspace, hbreak, -⟩ := marker_chars marker hmarker
    exact marker_not_prefix_of_allowsPlain (allowsPlain_of_style hstyle) marker hmarker
      (prefix_of_prefix_plainFrom _ _ h hspace hbreak)
  · exact safeStart_cons _ (by decide)
  · exact safeStart_cons _ (by decide)

theorem safeStart_entryText (i : Nat) (key : String) (value : Value) :
    SafeStart (entryText i key value) := by
  unfold entryText
  split
  · rw [simpleKeyText, List.append_assoc]
    exact safeStart_textScalar _ _ _ fun marker hmarker => (marker_chars marker hmarker).2.2
  · exact safeStart_cons _ (by decide)

theorem safeStart_listItems (i : Nat) (v : Value) (vs : List Value) :
    SafeStart (listItems i (v :: vs)) := by
  have h := safeStart_afterIndicator '-' i v (by decide)
  cases vs with
  | nil => rwa [listItems_singleton]
  | cons w vs => rw [listItems_cons]; exact h.append _

theorem safeStart_mappingEntries (i : Nat) (e : String × Value) (es : List (String × Value)) :
    SafeStart (mappingEntries i (e :: es)) := by
  have h := safeStart_entryText i e.1 e.2
  cases es with
  | nil => rwa [mappingEntries_singleton]
  | cons e' es => rw [mappingEntries_cons]; exact h.append _

/-! ### Properties of blocks -/

/-- What makes a property hold of every block: it holds of the parts of a line and is kept where
lines are put together. -/
structure Closed (Q : List Char → Prop) : Prop where
  append : ∀ {a b}, Q a → Q b → Q (a ++ b)
  mark : ∀ c ∈ [' ', '-', '?', ':'], Q [c]
  leaf : ∀ i column v, Q (leafText ⟨i + 2, column, true⟩ v)
  key : ∀ i s, isSimpleKey s = true → Q (simpleKeyText i s)
  line : ∀ i {t}, SafeStart t → Q t → Q (breakLine i ++ t)

namespace Closed

variable {Q : List Char → Prop}

theorem cons (hQ : Closed Q) {c : Char} {t : List Char} (hc : c ∈ [' ', '-', '?', ':'])
    (ht : Q t) : Q (c :: t) :=
  hQ.append (hQ.mark c hc) ht

/-- An entry whose value has the property wherever it is written. -/
theorem entry (hQ : Closed Q) (i : Nat) (key : String) {value : Value}
    (hkey : ∀ column, Q (afterKey i column value)) (hmark : Q (afterIndicator i value)) :
    Q (entryText i key value) := by
  unfold entryText
  split
  · rename_i hsimple
    exact hQ.append (hQ.key i key.toList hsimple) (hkey _)
  · -- a long key is written like a text after an indicator
    have htext : Q (afterIndicator i (.text key)) :=
      hQ.cons (by decide) (hQ.leaf i (i + 2) (.text key))
    have hvalue : Q (':' :: afterIndicator i value) := hQ.cons (by decide) hmark
    have hline := hQ.line i (safeStart_cons _ (by decide)) hvalue
    have hquestion : Q ('?' :: afterIndicator i (.text key)) := hQ.cons (by decide) htext
    rw [List.append_assoc]
    exact hQ.append hquestion hline

mutual

theorem afterIndicator (hQ : Closed Q) (i : Nat) : ∀ v, Q (afterIndicator i v)
  | .list (v :: vs) => hQ.cons (by decide) (hQ.listItems (i + 2) (v :: vs) (List.cons_ne_nil v vs))
  | .mapping (e :: es) =>
    hQ.cons (by decide) (hQ.mappingEntries (i + 2) (e :: es) (List.cons_ne_nil e es))
  | .null => hQ.cons (by decide) (hQ.leaf i (i + 2) .null)
  | .bool b => hQ.cons (by decide) (hQ.leaf i (i + 2) (.bool b))
  | .int n => hQ.cons (by decide) (hQ.leaf i (i + 2) (.int n))
  | .text s => hQ.cons (by decide) (hQ.leaf i (i + 2) (.text s))
  | .list [] => hQ.cons (by decide) (hQ.leaf i (i + 2) (.list []))
  | .mapping [] => hQ.cons (by decide) (hQ.leaf i (i + 2) (.mapping []))

theorem afterKey (hQ : Closed Q) (i column : Nat) : ∀ v, Q (afterKey i column v)
  | .list (v :: vs) =>
    hQ.line i (safeStart_listItems i v vs) (hQ.listItems i (v :: vs) (List.cons_ne_nil v vs))
  | .mapping (e :: es) =>
    hQ.line (i + 2) (safeStart_mappingEntries (i + 2) e es)
      (hQ.mappingEntries (i + 2) (e :: es) (List.cons_ne_nil e es))
  | .null => hQ.cons (by decide) (hQ.leaf i (column + 1) .null)
  | .bool b => hQ.cons (by decide) (hQ.leaf i (column + 1) (.bool b))
  | .int n => hQ.cons (by decide) (hQ.leaf i (column + 1) (.int n))
  | .text s => hQ.cons (by decide) (hQ.leaf i (column + 1) (.text s))
  | .list [] => hQ.cons (by decide) (hQ.leaf i (column + 1) (.list []))
  | .mapping [] => hQ.cons (by decide) (hQ.leaf i (column + 1) (.mapping []))

theorem listItems (hQ : Closed Q) (i : Nat) : ∀ vs, vs ≠ [] → Q (listItems i vs)
  | [], h => absurd rfl h
  | [v], _ => by
    rw [listItems_singleton]
    exact hQ.cons (by decide) (hQ.afterIndicator i v)
  | v :: w :: vs, _ => by
    rw [listItems_cons]
    exact hQ.append (hQ.cons (by decide) (hQ.afterIndicator i v))
      (hQ.line i (safeStart_listItems i w vs) (hQ.listItems i (w :: vs) (List.cons_ne_nil w vs)))

theorem mappingEntries (hQ : Closed Q) (i : Nat) : ∀ es, es ≠ [] → Q (mappingEntries i es)
  | [], h => absurd rfl h
  | [(key, value)], _ => by
    rw [mappingEntries_singleton]
    exact hQ.entry i key (fun column => hQ.afterKey i column value) (hQ.afterIndicator i value)
  | (key, value) :: e :: es, _ => by
    rw [mappingEntries_cons]
    exact hQ.append
      (hQ.entry i key (fun column => hQ.afterKey i column value) (hQ.afterIndicator i value))
      (hQ.line i (safeStart_mappingEntries i e es)
        (hQ.mappingEntries i (e :: es) (List.cons_ne_nil e es)))

end

end Closed

end BundlePlan.Yaml
