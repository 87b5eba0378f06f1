import BundlePlan.Proofs.Text.Lines
import BundlePlan.Proofs.Yaml.Blocks
import BundlePlan.Proofs.Yaml.Characters
import BundlePlan.Proofs.Yaml.Plain
import BundlePlan.Yaml.Reading.Document

/-!
# Lines of documents

A document is printable ASCII and line breaks, and no line of it starts with three dashes, three
dots or three backticks, apart from the line of three dots that ends an open document. The lines
inside a scalar are indented, so that only the starts of entries matter.
-/

namespace BundlePlan.Yaml

open Text (AfterBreaks pieces)

/-! ### Words -/

/-- What is written for a value that has the same spelling everywhere. -/
def word : Value → List Char
  | .null => "null".toList
  | .bool b => boolText b
  | .int n => Value.intText n
  | .text s => s.toList
  | .list _ => ['[', ']']
  | .mapping _ => ['\x7b', '\x7d']

theorem mem_intText {n : Int} {c : Char} (h : c ∈ Value.intText n) :
    c = '-' ∨ c.isDigit = true := by
  have hdigits : c ∈ Nat.toDigits 10 n.natAbs → c.isDigit = true :=
    Nat.isDigit_of_mem_toDigits (by decide) (by decide)
  unfold Value.intText at h
  split at h
  · exact (List.mem_cons.1 h).imp_right hdigits
  · exact Or.inr (hdigits h)

theorem isPlainAscii_of_isDigit {c : Char} (h : c.isDigit = true) :
    isPlainAscii c = true ∧ c ≠ ' ' := by
  simp only [Char.isDigit, Bool.and_eq_true, decide_eq_true_eq, ge_iff_le,
    UInt32.le_iff_toNat_le] at h
  have hlow : '0'.val.toNat = 48 := rfl
  have hhigh : '9'.val.toNat = 57 := rfl
  refine ⟨?_, fun heq => ?_⟩
  · simp only [isPlainAscii, Bool.and_eq_true, decide_eq_true_eq, Char.toNat]
    omega
  · subst heq
    exact absurd h.1 (by decide)

theorem mem_word {v : Value} (hv : ∀ s, v ≠ .text s) :
    ∀ c ∈ word v, isPlainAscii c = true ∧ c ≠ ' ' := by
  have hfixed : ∀ {s : List Char}, s.all (fun c => isPlainAscii c && c != ' ') = true →
      ∀ c ∈ s, isPlainAscii c = true ∧ c ≠ ' ' := by
    intro s hs c hc
    simpa using List.all_eq_true.1 hs c hc
  cases v with
  | null => exact hfixed (by decide)
  | bool b => cases b <;> exact hfixed (by decide)
  | int n =>
    intro c hc
    rcases mem_intText hc with rfl | hdigit
    · decide
    · exact isPlainAscii_of_isDigit hdigit
  | text s => exact absurd rfl (hv s)
  | list _ => exact hfixed (s := ['[', ']']) (by decide)
  | mapping _ => exact hfixed (s := ['\x7b', '\x7d']) (by decide)

/-- An integer is written as a digit and more digits, with a minus sign before them or not. -/
theorem intText_shape (n : Int) : ∃ d ds, d.isDigit = true ∧ (∀ c ∈ ds, c.isDigit = true) ∧
    (Value.intText n = d :: ds ∨ Value.intText n = '-' :: d :: ds) := by
  have hdigits : ∀ c ∈ Nat.toDigits 10 n.natAbs, c.isDigit = true := fun c hc =>
    Nat.isDigit_of_mem_toDigits (by decide) (by decide) hc
  unfold Value.intText
  cases h : Nat.toDigits 10 n.natAbs with
  | nil => exact absurd h Nat.toDigits_ne_nil
  | cons d ds =>
    rw [h] at hdigits
    refine ⟨d, ds, hdigits d (by simp), fun c hc => hdigits c (by simp [hc]), ?_⟩
    split
    · exact Or.inr rfl
    · exact Or.inl rfl

theorem isDigit_ne {c d : Char} (hc : c.isDigit = true) (hd : d.isDigit = false) : c ≠ d := by
  rintro rfl
  rw [hc] at hd
  exact absurd hd (by decide)

theorem not_mem_of_isDigit {d : Char} {s : List Char} (hd : d.isDigit = true)
    (hs : s.all (fun c => !c.isDigit) = true) : d ∉ s := by
  intro h
  have hdigit := List.all_eq_true.1 hs d h
  rw [hd] at hdigit
  exact absurd hdigit (by decide)

/-- A word starts with no marker. -/
theorem safeStart_word {v : Value} (hv : ∀ s, v ≠ .text s) : SafeStart (word v) := by
  have hdigit : ∀ {d}, d.isDigit = true → ∀ marker ∈ lineMarkers, marker.head? ≠ some d := by
    intro d hd marker hmarker heq
    have hall : ∀ marker ∈ lineMarkers, marker.all (fun c => !c.isDigit) = true := by decide
    exact not_mem_of_isDigit hd (hall marker hmarker) (List.mem_of_head? heq)
  cases v with
  | null => exact safeStart_cons _ (by decide)
  | bool b => cases b <;> exact safeStart_cons _ (by decide)
  | int n =>
    obtain ⟨d, ds, hd, -, h | h⟩ := intText_shape n
    · rw [word, h]
      exact safeStart_cons ds (hdigit hd)
    · rw [word, h]
      exact safeStart_cons_cons ds (Ne.symm (isDigit_ne hd (by decide)))
  | text s => exact absurd rfl (hv s)
  | list _ => exact safeStart_cons _ (by decide)
  | mapping _ => exact safeStart_cons _ (by decide)

/-- A text without spaces is not folded. -/
theorem plainFrom_of_not_mem (m : Margin) (afterSpace : Bool) (column : Nat) {s : List Char}
    (h : ' ' ∉ s) : plainFrom m afterSpace column s = s := by
  induction s generalizing afterSpace column with
  | nil => rfl
  | cons c s ih =>
    simp only [List.mem_cons, not_or] at h
    rw [plainFrom_cons_of_ne _ _ _ _ (Ne.symm h.1), ih _ _ h.2]

theorem leafText_eq_word (m : Margin) {v : Value} (hv : ∀ s, v ≠ .text s) :
    leafText m v = word v := by
  cases v with
  | int n => exact plainFrom_of_not_mem _ _ _ fun h => (mem_word hv ' ' h).2 rfl
  | text s => exact absurd rfl (hv s)
  | _ => rfl

theorem newline_not_mem_word {v : Value} (hv : ∀ s, v ≠ .text s) : '\n' ∉ word v := fun h =>
  absurd (mem_word hv '\n' h).1 (by decide)

/-! ### Characters -/

theorem isReadable_of_isScalarChar {m : Margin} {s : List Char} {c : Char}
    (h : IsScalarChar m s c) : isReadable c = true := by
  rcases h with h | ⟨rfl, -⟩
  · exact Bool.or_eq_true_iff.2 (Or.inr h)
  · decide

theorem isReadable_leafText (m : Margin) (v : Value) : ∀ c ∈ leafText m v, isReadable c = true := by
  intro c hc
  by_cases hv : ∃ s, v = .text s
  · obtain ⟨s, rfl⟩ := hv
    exact isReadable_of_isScalarChar (isScalarChar_textScalar hc)
  · have hv : ∀ s, v ≠ .text s := fun s hs => hv ⟨s, hs⟩
    rw [leafText_eq_word m hv] at hc
    exact Bool.or_eq_true_iff.2 (Or.inr (mem_word hv c hc).1)

/-- Every character of a block can be read. -/
theorem closed_isReadable : Closed fun t => ∀ c ∈ t, isReadable c = true where
  append ha hb c hc := (List.mem_append.1 hc).elim (ha c) (hb c)
  mark c hc := by
    have hmarks : [' ', '-', '?', ':'].all isReadable = true := by decide
    exact List.forall_mem_singleton.2 (List.all_eq_true.1 hmarks c hc)
  leaf i column v := isReadable_leafText _ v
  key i s _ c hc := by
    rcases List.mem_append.1 hc with hc | hc
    · exact isReadable_of_isScalarChar (isScalarChar_textScalar hc)
    · obtain rfl := List.mem_singleton.1 hc
      decide
  line i t _ ht c hc := by
    rcases List.mem_append.1 hc with hc | hc
    · rcases mem_breakLine hc with rfl | rfl <;> decide
    · exact ht c hc

/-! ### Lines inside scalars -/

/-- The text starts with white space. -/
def StartsBlank (t : List Char) : Prop := ∃ c u, t = c :: u ∧ (c = ' ' ∨ c = '\n')

theorem StartsBlank.append (a b : List Char) : StartsBlank a → StartsBlank (a ++ b) := by
  rintro ⟨c, u, rfl, hc⟩
  exact ⟨c, u ++ b, rfl, hc⟩

theorem StartsBlank.safeStart (t : List Char) : StartsBlank t → SafeStart t := by
  rintro ⟨c, u, rfl, rfl | rfl⟩
  · exact safeStart_cons u (by decide)
  · exact safeStart_cons u (by decide)

/-- Every line after the first is indented or empty. -/
abbrev Indented (t : List Char) : Prop := AfterBreaks StartsBlank t

theorem Indented.cons {c : Char} {t : List Char} (hc : c ≠ '\n') (ht : Indented t) :
    Indented (c :: t) :=
  ⟨fun h => absurd h hc, ht⟩

theorem indented_replicate (k : Nat) : Indented (List.replicate k ' ') :=
  AfterBreaks.of_not_mem fun h => absurd (List.eq_of_mem_replicate h) (by decide)

theorem indented_breakLine {k : Nat} (hk : 0 < k) : Indented (breakLine k) := by
  obtain ⟨k, rfl⟩ := Nat.exists_eq_succ_of_ne_zero (Nat.ne_of_gt hk)
  exact ⟨fun _ => ⟨' ', List.replicate k ' ', rfl, Or.inl rfl⟩, indented_replicate (k + 1)⟩

section

variable {m : Margin}

theorem indented_plainFrom (hm : 0 < m.indent) {s : List Char} (hs : '\n' ∉ s) (afterSpace : Bool)
    (column : Nat) : Indented (plainFrom m afterSpace column s) := by
  induction s generalizing afterSpace column with
  | nil => trivial
  | cons c s ih =>
    simp only [List.mem_cons, not_or] at hs
    rw [plainFrom]
    split
    · split
      · exact (indented_breakLine hm).append StartsBlank.append (ih hs.2 _ _)
      · exact (ih hs.2 _ _).cons (Ne.symm hs.1)
    · exact (ih hs.2 _ _).cons (Ne.symm hs.1)

/-- What comes after a line break of the text is indented, or is the next line break. -/
theorem startsBlank_break (hm : 0 < m.indent) (s t : List Char) (column : Nat) :
    StartsBlank ((if s.head? = some '\n' then [] else List.replicate m.indent ' ')
      ++ (singleFrom m '\n' column s ++ t)) := by
  obtain ⟨k, hk⟩ := Nat.exists_eq_succ_of_ne_zero (Nat.ne_of_gt hm)
  split
  · rename_i hs
    cases s with
    | nil => exact absurd hs (by simp)
    | cons c s =>
      obtain rfl : c = '\n' := Option.some.inj hs
      exact ⟨'\n', _, rfl, Or.inr rfl⟩
  · rw [hk]
    exact ⟨' ', _, rfl, Or.inl rfl⟩

theorem indented_singleFrom (hm : 0 < m.indent) (s t : List Char) (ht : Indented t)
    (previous : Char)
    (column : Nat) : Indented (singleFrom m previous column s ++ t) := by
  induction s generalizing previous column with
  | nil => exact ht
  | cons c s ih =>
    rw [singleFrom]
    split
    · rename_i hc
      split
      · rw [List.append_assoc]
        exact (indented_breakLine hm).append StartsBlank.append (ih _ _)
      · subst hc
        exact (ih _ _).cons (by decide)
    · split
      · rename_i hc
        subst hc
        have hblank := startsBlank_break hm s t m.indent
        have hrest : Indented ((if s.head? = some '\n' then [] else List.replicate m.indent ' ')
            ++ (singleFrom m '\n' m.indent s ++ t)) := by
          refine AfterBreaks.append StartsBlank.append ?_ (ih _ _)
          split
          · trivial
          · exact indented_replicate _
        rw [List.append_assoc, List.append_assoc]
        split
        · exact ⟨fun _ => hblank, hrest⟩
        · exact ⟨fun _ => ⟨'\n', _, rfl, Or.inr rfl⟩, fun _ => hblank, hrest⟩
      · rename_i hbreak
        split
        · exact ((ih _ _).cons (by decide)).cons (by decide)
        · exact (ih _ _).cons hbreak

theorem indented_doubleFrom (hm : 0 < m.indent) (s : List Char) (isFirst afterEscape : Bool)
    (column : Nat) : Indented (doubleFrom m isFirst afterEscape column s) := by
  have hfold : ∀ keepsSpace, Indented (foldDouble m.indent keepsSpace) := by
    intro keepsSpace
    refine Indented.cons (by decide) ((indented_breakLine hm).append StartsBlank.append ?_)
    cases keepsSpace <;> exact AfterBreaks.of_not_mem (by decide)
  have hescape : ∀ {c e}, escape? c = some e → Indented e := fun he =>
    AfterBreaks.of_not_mem fun h => absurd (isPlainAscii_escape? he _ h) (by decide)
  induction s generalizing isFirst afterEscape column with
  | nil => trivial
  | cons c s ih =>
    rw [doubleFrom]
    simp only
    split
    · rename_i e he
      split
      · have hstart := (hescape he).append StartsBlank.append (hfold (s.head? == some ' '))
        exact hstart.append StartsBlank.append (ih _ _ _)
      · exact (hescape he).append StartsBlank.append (ih _ _ _)
    · rename_i he
      have hc : c ≠ '\n' := by
        rintro rfl
        exact absurd he (by decide)
      split
      · exact (hfold _).append StartsBlank.append ((ih _ _ _).cons hc)
      · exact (ih _ _ _).cons hc

theorem indented_textScalar (hm : 0 < m.indent) (s : List Char) : Indented (textScalar m s) := by
  have hquote : Indented ['\''] := AfterBreaks.of_not_mem (by decide)
  unfold textScalar
  split
  · rename_i hstyle
    exact indented_plainFrom hm (plainSafe_of_allowsPlain (allowsPlain_of_style hstyle)).noBreak _ _
  · exact (indented_singleFrom hm s ['\''] hquote _ _).cons (by decide)
  · have hquote : Indented ['"'] := AfterBreaks.of_not_mem (by decide)
    have hinside :=
      (indented_doubleFrom hm s true false (m.column + 1)).append StartsBlank.append hquote
    exact Indented.cons (by decide) hinside

theorem indented_leafText (hm : 0 < m.indent) (v : Value) : Indented (leafText m v) := by
  by_cases hv : ∃ s, v = .text s
  · obtain ⟨s, rfl⟩ := hv
    exact indented_textScalar hm s.toList
  · have hv : ∀ s, v ≠ .text s := fun s hs => hv ⟨s, hs⟩
    rw [leafText_eq_word m hv]
    exact AfterBreaks.of_not_mem (newline_not_mem_word hv)

end

/-- No line of a block after its first starts like a marker. -/
theorem closed_safeStart : Closed (AfterBreaks SafeStart) where
  append := AfterBreaks.append fun _ b h => h.append b
  mark c hc := AfterBreaks.of_not_mem fun h => by
    obtain rfl := List.mem_singleton.1 h
    exact absurd hc (by decide)
  leaf i column v := (indented_leafText (Nat.succ_pos (i + 1)) v).mono StartsBlank.safeStart
  key i s hs := by
    have hkey :=
      newline_not_mem_textScalar (m := ⟨i + 2, i, false⟩) rfl (newline_not_mem_of_isSimpleKey hs)
    refine AfterBreaks.of_not_mem fun h => ?_
    rcases List.mem_append.1 h with h | h
    · exact hkey h
    · exact absurd h (by decide)
  line i t hstart ht := by
    have hspaces : AfterBreaks SafeStart (List.replicate i ' ') :=
      (indented_replicate i).mono StartsBlank.safeStart
    refine ⟨fun _ => ?_, hspaces.append (fun _ b h => h.append b) ht⟩
    cases i with
    | zero => exact hstart
    | succ i => exact safeStart_cons _ (by decide)

/-! ### Documents -/

/-- A document without what follows an open value. -/
def bodyText : Value → List Char
  | .list (item :: items) => listItems 0 (item :: items)
  | .mapping (entry :: entries) => mappingEntries 0 (entry :: entries)
  | v => leafText rootMargin v

/-- Whether a document has a line of three dots after its value. -/
def isOpen : Value → Bool
  | .list _ | .mapping _ => false
  | .text s => Style.ofText s.toList = .plain
  | _ => true

theorem documentText_eq (v : Value) :
    documentText v = bodyText v ++ if isOpen v then openEnd else [] := by
  cases v with
  | text s => simp [documentText, bodyText, leafText, rootMargin, isOpen]
  | list items => cases items <;> simp [documentText, bodyText, leafText, isOpen]
  | mapping entries => cases entries <;> simp [documentText, bodyText, leafText, isOpen]
  | _ => rfl

theorem isReadable_bodyText (v : Value) : ∀ c ∈ bodyText v, isReadable c = true := by
  unfold bodyText
  split
  · exact closed_isReadable.listItems 0 _ (List.cons_ne_nil _ _)
  · exact closed_isReadable.mappingEntries 0 _ (List.cons_ne_nil _ _)
  · exact isReadable_leafText _ _

theorem afterBreaks_bodyText (v : Value) : AfterBreaks SafeStart (bodyText v) := by
  unfold bodyText
  split
  · exact closed_safeStart.listItems 0 _ (List.cons_ne_nil _ _)
  · exact closed_safeStart.mappingEntries 0 _ (List.cons_ne_nil _ _)
  · exact closed_safeStart.leaf 0 0 _

theorem safeStart_bodyText (v : Value) (t : List Char) : SafeStart (bodyText v ++ '\n' :: t) := by
  have hbreak : ∀ marker ∈ lineMarkers, '\n' ∉ marker := fun marker hmarker =>
    (marker_chars marker hmarker).2.1
  unfold bodyText
  split
  · exact (safeStart_listItems 0 _ _).append _
  · exact (safeStart_mappingEntries 0 _ _).append _
  · by_cases hv : ∃ s, v = .text s
    · obtain ⟨s, rfl⟩ := hv
      exact safeStart_textScalar _ _ _ hbreak
    · have hv : ∀ s, v ≠ .text s := fun s hs => hv ⟨s, hs⟩
      rw [leafText_eq_word _ hv]
      exact (safeStart_word hv).append _

/-- The lines of a document: those of its body, none of which is a marker, and what follows them. -/
theorem pieces_documentText (v : Value) :
    pieces '\n' (documentText v ++ ['\n'])
      = pieces '\n' (bodyText v) ++ if isOpen v then [['.', '.', '.'], []] else [[]] := by
  rw [documentText_eq]
  split
  · rw [openEnd, List.append_assoc, List.cons_append, Text.pieces_append_cons]
    rfl
  · rw [List.append_nil, Text.pieces_append_cons]
    rfl

theorem marker_not_prefix_of_mem_pieces (v : Value) :
    ∀ line ∈ pieces '\n' (bodyText v), ∀ marker ∈ lineMarkers, ¬marker <+: line := by
  intro line hline marker hmarker hstarts
  -- a last line of its own lets the invariant speak of the last line of the body as well
  have hbreaks : AfterBreaks SafeStart (bodyText v ++ '\n' :: [' ']) :=
    (afterBreaks_bodyText v).append (fun _ b h => h.append b)
      ⟨fun _ => safeStart_cons [] (by decide), fun h => absurd h (by decide), trivial⟩
  have hmem : line ∈ pieces '\n' (bodyText v ++ '\n' :: [' ']) := by
    rw [Text.pieces_append_cons]
    exact List.mem_append_left _ hline
  obtain ⟨u, hu⟩ := hbreaks.pieces (safeStart_bodyText v [' ']) line hmem
  exact hu marker hmarker [] (List.append_assoc line u [] ▸ hstarts.trans (List.prefix_append _ _))

end BundlePlan.Yaml
