import BundlePlan.Manifest.Resource
import BundlePlan.Proofs.Value.Parts
import BundlePlan.Proofs.Yaml.Blocks
import BundlePlan.Proofs.Yaml.Characters

/-!
# How long a key gets

A reader gives a key up if the colon does not come within `readerLimit` characters. Which keys are
written before their colon is decided by how many characters they have, but each of these takes up
to ten in double quotes. So what is written is measured here: a key on one line has a fixed text
(`lineScalar`), whose length is known from its characters (`doubleLength`), and this text stands in
the document before the colon.
-/

namespace BundlePlan.Yaml

/-- How far a reader looks for the colon of a key. -/
def readerLimit : Nat := 1024

/-! ### Scalars on one line -/

/-- A character in single quotes. -/
def singleChar (c : Char) : List Char := if c = '\'' then ['\'', '\''] else [c]

/-- A character in double quotes. -/
def doubleChar (c : Char) : List Char := (escape? c).getD [c]

/-- A text as a scalar whose lines are not folded. -/
def lineScalar (s : List Char) : List Char :=
  match Style.ofText s with
  | .plain => s
  | .single => '\'' :: (s.flatMap singleChar ++ ['\''])
  | .double => '"' :: (s.flatMap doubleChar ++ ['"'])

section

variable {m : Margin} (hfolds : m.folds = false)

include hfolds

theorem plainFrom_unfolded (s : List Char) (afterSpace : Bool) (column : Nat) :
    plainFrom m afterSpace column s = s := by
  induction s generalizing afterSpace column with
  | nil => rfl
  | cons c s ih =>
    simp only [plainFrom, hfolds, Bool.false_and, Bool.false_eq_true, if_false, ih, ite_self]

theorem singleFrom_unfolded {s : List Char} (hs : '\n' ∉ s) (previous : Char) (column : Nat) :
    singleFrom m previous column s = s.flatMap singleChar := by
  induction s generalizing previous column with
  | nil => rfl
  | cons c s ih =>
    obtain ⟨hc, hs⟩ := not_or.1 (List.mem_cons.not.1 hs)
    rw [singleFrom, List.flatMap_cons, hfolds, if_neg (Ne.symm hc), ih hs, ih hs, ih hs]
    unfold singleChar
    by_cases hspace : c = ' '
    · subst hspace
      rfl
    · rw [if_neg hspace]
      split <;> rfl

theorem doubleFrom_unfolded (s : List Char) (isFirst afterEscape : Bool) (column : Nat) :
    doubleFrom m isFirst afterEscape column s = s.flatMap doubleChar := by
  induction s generalizing isFirst afterEscape column with
  | nil => rfl
  | cons c s ih =>
    rw [doubleFrom, List.flatMap_cons, doubleChar]
    simp only [hfolds, Bool.false_and, Bool.false_eq_true, if_false, ih]
    cases escape? c <;> rfl

theorem textScalar_unfolded {s : List Char} (hs : '\n' ∉ s) : textScalar m s = lineScalar s := by
  unfold textScalar lineScalar
  cases Style.ofText s with
  | plain => exact plainFrom_unfolded hfolds s true m.column
  | single =>
    have hinside := singleFrom_unfolded hfolds hs ' ' (m.column + 1)
    exact congrArg (fun t => '\'' :: (t ++ ['\''])) hinside
  | double =>
    have hinside := doubleFrom_unfolded hfolds s true false (m.column + 1)
    exact congrArg (fun t => '"' :: (t ++ ['"'])) hinside

end

theorem simpleKeyText_eq (i : Nat) {key : List Char} (h : isSimpleKey key = true) :
    simpleKeyText i key = lineScalar key ++ [':'] := by
  rw [simpleKeyText, textScalar_unfolded rfl (newline_not_mem_of_isSimpleKey h)]

/-! ### Lengths -/

/-- How many characters a character takes in double quotes: two for an escape of one letter, one if
it stands for itself, and two more than the digits of its number otherwise. -/
def doubleWidth (c : Char) : Nat :=
  if (shortEscapes.lookup c).isSome then 2
  else if isPlainAscii c then 1
  else if c.toNat < 0x100 then 4
  else if c.toNat < 0x10000 then 6
  else 10

/-- How many characters a text takes in double quotes. -/
def doubleLength : List Char → Nat
  | [] => 0
  | c :: s => doubleWidth c + doubleLength s

theorem length_doubleChar (c : Char) : (doubleChar c).length = doubleWidth c := by
  unfold doubleChar escape? doubleWidth
  cases hshort : shortEscapes.lookup c with
  | some letter => rfl
  | none =>
    by_cases hplain : isPlainAscii c = true
    · simp [hplain]
    · simp only [hplain, Text.numberedEscape, Option.isSome_none, Bool.false_eq_true, if_false,
        Option.getD_some]
      split
      · simp [Text.length_hexDigits]
      · split <;> simp [Text.length_hexDigits]

theorem length_flatMap_doubleChar (s : List Char) :
    (s.flatMap doubleChar).length = doubleLength s := by
  induction s with
  | nil => rfl
  | cons c s ih => rw [List.flatMap_cons, List.length_append, length_doubleChar, ih, doubleLength]

theorem doubleLength_replicate (n : Nat) (c : Char) :
    doubleLength (List.replicate n c) = n * doubleWidth c := by
  induction n with
  | zero => exact (Nat.zero_mul _).symm
  | succ n ih => rw [List.replicate_succ, doubleLength, ih, Nat.succ_mul, Nat.add_comm]

theorem length_flatMap_singleChar (s : List Char) :
    (s.flatMap singleChar).length ≤ 2 * s.length := by
  induction s with
  | nil => exact Nat.le_refl 0
  | cons c s ih =>
    have hc : (singleChar c).length ≤ 2 := by
      unfold singleChar
      split <;> simp
    rw [List.flatMap_cons, List.length_append, List.length_cons]
    omega

/-- A printable character stands for itself or has an escape of one letter. -/
theorem doubleWidth_of_isPlainAscii {c : Char} (h : isPlainAscii c = true) : doubleWidth c ≤ 2 := by
  unfold doubleWidth
  rw [if_pos h]
  split <;> decide

/-- Only characters beyond the first 65,536 take more than six. -/
theorem doubleWidth_le (c : Char) : doubleWidth c ≤ 6 + if 0x10000 ≤ c.toNat then 4 else 0 := by
  unfold doubleWidth
  repeat' split
  all_goals omega

theorem doubleLength_le (s : List Char) :
    doubleLength s ≤ 6 * s.length + 4 * s.countP (0x10000 ≤ ·.toNat) := by
  induction s with
  | nil => exact Nat.le_refl 0
  | cons c s ih =>
    have hc := doubleWidth_le c
    rw [doubleLength, List.length_cons, List.countP_cons]
    by_cases hbeyond : 0x10000 ≤ c.toNat
    · rw [if_pos hbeyond] at hc
      rw [if_pos (decide_eq_true hbeyond)]
      omega
    · rw [if_neg hbeyond] at hc
      omega

theorem doubleLength_of_isPlainAscii {s : List Char} (h : ∀ c ∈ s, isPlainAscii c = true) :
    doubleLength s ≤ 2 * s.length := by
  induction s with
  | nil => exact Nat.le_refl 0
  | cons c s ih =>
    obtain ⟨hc, hs⟩ := List.forall_mem_cons.1 h
    have hwidth := doubleWidth_of_isPlainAscii hc
    have hrest := ih hs
    rw [doubleLength, List.length_cons]
    omega

theorem length_of_isSimpleKey {key : List Char} (h : isSimpleKey key = true) :
    key.length ≤ simpleKeyLimit := by
  rw [isSimpleKey, Bool.and_eq_true, decide_eq_true_eq] at h
  exact h.2

/-- A short key is short enough for a reader exactly if its characters, in double quotes, are. -/
theorem length_lineScalar_le_iff {key : List Char} (h : isSimpleKey key = true) :
    (lineScalar key).length ≤ readerLimit ↔ doubleLength key + 2 ≤ readerLimit := by
  have hlength := length_of_isSimpleKey h
  rw [simpleKeyLimit] at hlength
  rw [readerLimit]
  by_cases hstyle : Style.ofText key = .double
  · rw [lineScalar, hstyle, List.length_cons, List.length_append, length_flatMap_doubleChar]
    exact Iff.rfl
  · -- the other styles have no characters that take more than two, in either kind of quotes
    have hplain : ∀ c ∈ key, isPlainAscii c = true := by
      intro c hc
      rcases plain_of_needsEscapes (needsEscapes_eq_false hstyle) c hc with rfl | hplain
      · exact absurd hc (newline_not_mem_of_isSimpleKey h)
      · exact hplain
    have hdouble := doubleLength_of_isPlainAscii hplain
    have hsingle := length_flatMap_singleChar key
    have hline : (lineScalar key).length ≤ 2 * key.length + 2 := by
      unfold lineScalar
      split
      · omega
      · rw [List.length_cons, List.length_append, List.length_singleton]
        omega
      · contradiction
    exact iff_of_true (by omega) (by omega)

/-- It is if no more than seventy-two of its characters are beyond the first 65,536. -/
theorem length_lineScalar_le_of_few {key : List Char} (h : isSimpleKey key = true)
    (hfew : key.countP (0x10000 ≤ ·.toNat) ≤ 72) : (lineScalar key).length ≤ readerLimit := by
  have hlength := length_of_isSimpleKey h
  have hdouble := doubleLength_le key
  rw [simpleKeyLimit] at hlength
  rw [length_lineScalar_le_iff h, readerLimit]
  omega

/-! ### Keys in documents -/

/-- The text is one that the value can be written as. -/
def Writes (v : Value) (t : List Char) : Prop :=
  (∃ i, t = afterIndicator i v) ∨ (∃ i column, t = afterKey i column v) ∨ t = documentText v

theorem exists_listItems {items : List Value} {t : List Char} (h : Writes (.list items) t)
    (hne : items ≠ []) : ∃ i, listItems i items <:+: t := by
  obtain ⟨item, items, rfl⟩ := List.exists_cons_of_ne_nil hne
  rcases h with ⟨i, rfl⟩ | ⟨i, column, rfl⟩ | rfl
  · rw [afterIndicator_list]
    exact ⟨i + 2, (List.suffix_cons _ _).isInfix⟩
  · rw [afterKey_list]
    exact ⟨i, (List.suffix_append _ _).isInfix⟩
  · exact ⟨0, List.infix_rfl⟩

theorem exists_mappingEntries {entries : List (String × Value)} {t : List Char}
    (h : Writes (.mapping entries) t) (hne : entries ≠ []) :
    ∃ i, mappingEntries i entries <:+: t := by
  obtain ⟨e, entries, rfl⟩ := List.exists_cons_of_ne_nil hne
  rcases h with ⟨i, rfl⟩ | ⟨i, column, rfl⟩ | rfl
  · rw [afterIndicator_mapping]
    exact ⟨i + 2, (List.suffix_cons _ _).isInfix⟩
  · rw [afterKey_mapping]
    exact ⟨i + 2, (List.suffix_append _ _).isInfix⟩
  · exact ⟨0, List.infix_rfl⟩

theorem item_infix_listItems (i : Nat) {v : Value} {items : List Value} (h : v ∈ items) :
    afterIndicator i v <:+: listItems i items := by
  induction items with
  | nil => exact absurd h List.not_mem_nil
  | cons item items ih =>
    rcases List.mem_cons.1 h with rfl | h
    · cases items with
      | nil =>
        rw [listItems_singleton]
        exact (List.suffix_cons _ _).isInfix
      | cons other items =>
        rw [listItems_cons]
        exact (List.suffix_cons _ _).isInfix.trans (List.prefix_append _ _).isInfix
    · cases items with
      | nil => exact absurd h List.not_mem_nil
      | cons other items =>
        rw [listItems_cons, ← List.append_assoc]
        exact (ih h).trans (List.suffix_append _ _).isInfix

theorem entry_infix_mappingEntries (i : Nat) {key : String} {v : Value}
    {entries : List (String × Value)} (h : (key, v) ∈ entries) :
    entryText i key v <:+: mappingEntries i entries := by
  induction entries with
  | nil => exact absurd h List.not_mem_nil
  | cons e entries ih =>
    rcases List.mem_cons.1 h with rfl | h
    · cases entries with
      | nil => exact ⟨[], [], by rw [mappingEntries_singleton, List.nil_append, List.append_nil]⟩
      | cons other entries =>
        rw [mappingEntries_cons]
        exact (List.prefix_append _ _).isInfix
    · cases entries with
      | nil => exact absurd h List.not_mem_nil
      | cons other entries =>
        rw [mappingEntries_cons, ← List.append_assoc]
        exact (ih h).trans (List.suffix_append _ _).isInfix

theorem writes_entryText (i : Nat) (key : String) (v : Value) :
    ∃ t, Writes v t ∧ t <:+: entryText i key v := by
  cases hkey : isSimpleKey key.toList with
  | true =>
    rw [entryText_simple i hkey]
    exact ⟨_, Or.inr (Or.inl ⟨_, _, rfl⟩), (List.suffix_append _ _).isInfix⟩
  | false =>
    rw [entryText_complex i hkey]
    refine ⟨_, Or.inl ⟨i, rfl⟩, List.IsSuffix.isInfix ?_⟩
    simp only [← List.append_assoc, ← List.cons_append]
    exact (List.suffix_cons _ _).trans (List.suffix_append _ _)

/-- The text of a value has in it texts of its parts. -/
theorem exists_infix_of_partOf {u v : Value} {t : List Char} (h : Value.PartOf u v)
    (ht : Writes v t) : ∃ t', Writes u t' ∧ t' <:+: t := by
  induction h generalizing t with
  | self => exact ⟨t, ht, List.infix_rfl⟩
  | item hv _ ih =>
    obtain ⟨i, hitems⟩ := exists_listItems ht (List.ne_nil_of_mem hv)
    obtain ⟨t', ht', hinfix⟩ := ih (Or.inl ⟨i, rfl⟩)
    exact ⟨t', ht', hinfix.trans ((item_infix_listItems i hv).trans hitems)⟩
  | entry hv _ ih =>
    obtain ⟨i, hentries⟩ := exists_mappingEntries ht (List.ne_nil_of_mem hv)
    obtain ⟨t'', hvalue, hentry⟩ := writes_entryText i _ _
    obtain ⟨t', ht', hinfix⟩ := ih hvalue
    exact ⟨t', ht', hinfix.trans (hentry.trans ((entry_infix_mappingEntries i hv).trans hentries))⟩

/-- Every entry of every mapping stands in the document. -/
theorem entry_infix_document {v w : Value} {entries : List (String × Value)} {key : String}
    (h : Value.PartOf (.mapping entries) v) (he : (key, w) ∈ entries) :
    ∃ i, entryText i key w.sortKeys <:+: (document v).toList := by
  have hentries := h.sortKeys
  rw [Value.sortKeys] at hentries
  have he' := Value.mem_sortEntries he
  obtain ⟨t, ht, hinfix⟩ := exists_infix_of_partOf hentries (Or.inr (Or.inr rfl))
  obtain ⟨i, hi⟩ := exists_mappingEntries ht (List.ne_nil_of_mem he')
  rw [document, String.toList_ofList]
  exact ⟨i, ((entry_infix_mappingEntries i he').trans (hi.trans hinfix)).trans
    (List.prefix_append _ _).isInfix⟩

/-- A short key stands before its colon, and it is short enough for a reader exactly if its
characters are in double quotes, as they are if no more than seventy-two of them are beyond the
first 65,536. Any other key stands behind a question mark. -/
theorem simple_key_length_iff {v w : Value} {entries : List (String × Value)} {key : String}
    (h : Value.PartOf (.mapping entries) v) (he : (key, w) ∈ entries) :
    (isSimpleKey key.toList = true →
        (∃ i column, lineScalar key.toList ++ ':' :: afterKey i column w.sortKeys
          <:+: (document v).toList) ∧
        ((lineScalar key.toList).length ≤ readerLimit
          ↔ doubleLength key.toList + 2 ≤ readerLimit) ∧
        (key.toList.countP (0x10000 ≤ ·.toNat) ≤ 72 →
          (lineScalar key.toList).length ≤ readerLimit)) ∧
      (isSimpleKey key.toList = false →
        ∃ i, '?' :: (afterIndicator i (.text key)
          ++ (breakLine i ++ ':' :: afterIndicator i w.sortKeys)) <:+: (document v).toList) := by
  obtain ⟨i, hentry⟩ := entry_infix_document h he
  refine ⟨fun hkey => ⟨?_, length_lineScalar_le_iff hkey, length_lineScalar_le_of_few hkey⟩,
    fun hkey => ?_⟩
  · rw [entryText_simple i hkey, simpleKeyText_eq i hkey, List.append_assoc] at hentry
    exact ⟨i, _, hentry⟩
  · rw [entryText_complex i hkey] at hentry
    exact ⟨i, hentry⟩

/-- The key of a node selector, with its colon behind it. -/
theorem simple_key_length_of_selector :
    (lineScalar "disktype".toList).length ≤ readerLimit ∧ ∃ i column,
      lineScalar "disktype".toList ++ ':' :: afterKey i column (.text "ssd") <:+:
        (document (.mapping [("nodeSelector", .mapping [("disktype", .text "ssd")])])).toList := by
  have hselector : ("nodeSelector", Value.mapping [("disktype", .text "ssd")])
      ∈ [("nodeSelector", Value.mapping [("disktype", .text "ssd")])] := List.mem_cons_self
  obtain ⟨hcolon, -, hshort⟩ := (simple_key_length_iff
    (.entry hselector (.self (.mapping [("disktype", .text "ssd")]))) List.mem_cons_self).1
    (by decide +kernel)
  exact ⟨hshort (by decide +kernel), hcolon⟩

/-- A hundred and three characters from beyond the first 65,536. -/
def faces : String := String.ofList (List.replicate 103 '😀')

/-- The key of a node selector can be too long for a reader. -/
theorem simple_key_too_long :
    ¬∀ (v : Value) (key : String), v.HasKey key → isSimpleKey key.toList = true →
      (lineScalar key.toList).length ≤ readerLimit := by
  intro h
  have hkey : (Labels.toValue ⟨[(faces, "x")], List.pairwise_singleton _ _⟩).HasKey faces :=
    ⟨[(faces, .text "x")], .self _, .text "x", List.mem_cons_self⟩
  have hchars : faces.toList = List.replicate 103 '😀' := String.toList_ofList
  have hbreak : isLineBreak '😀' = false := by decide
  have hwidth : doubleWidth '😀' = 10 := by decide
  have hsimple : isSimpleKey faces.toList = true := by
    simp [hchars, isSimpleKey, hbreak, simpleKeyLimit]
  have hshort := (length_lineScalar_le_iff hsimple).1 (h _ faces hkey hsimple)
  rw [hchars, doubleLength_replicate, hwidth, readerLimit] at hshort
  exact absurd hshort (by decide)

end BundlePlan.Yaml
