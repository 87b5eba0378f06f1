import BundlePlan.Proofs.Yaml.Lines
import BundlePlan.Proofs.Yaml.Quoted

/-!
# Reading scalars back

A scalar is read back with its style and its text, whatever its style is and wherever it stands,
apart from the texts whose lines are folded twice. What comes after it decides where it ends:
`EndsBlock` says what can come after a value in a block, and a colon comes after a key.
-/

namespace BundlePlan.Yaml

/-! ### Plain scalars -/

/-- A scalar ends before the colon of its key. -/
theorem stopsPlain_colon {u : List Char} (hu : endsWord u = true) : StopsPlain 0 (':' :: u) := by
  rw [StopsPlain, readPlain, if_neg (by decide), if_neg (by decide),
    if_pos (by simp [stopsPlain, hu])]

section

variable {m : Margin} {s : List Char}

theorem hasLeadingIndicator_cons {c : Char} (h : hasLeadingIndicator (c :: s) = false) :
    c ∉ leadingIndicators ∧ (c = '?' ∨ c = '-' → endsOrSpaces s = false) := by
  simp only [hasLeadingIndicator, Bool.or_eq_false_iff, Bool.and_eq_false_imp, Bool.or_eq_true,
    beq_iff_eq] at h
  refine ⟨fun hmem => ?_, h.2⟩
  rw [List.contains_iff_mem.2 hmem] at h
  exact absurd h.1 (by decide)

/-- An indicator at the start of plain text does not stand alone. -/
theorem PlainSafe.endsWord (hs : PlainSafe s) (rest : List Char) {c : Char} {t : List Char}
    (hplain : plain m s ++ rest = c :: t) (hc : c = '-' ∨ c = '?' ∨ c = ':') :
    endsWord t = false := by
  cases s with
  | nil => exact absurd rfl hs.nonempty
  | cons d s =>
    have hspace : d ≠ ' ' := fun h => hs.head (congrArg some h)
    have hbreak : '\n' ∉ s := fun h => hs.noBreak (List.mem_cons_of_mem d h)
    rw [plain, plainFrom_cons_of_ne _ _ _ _ hspace, List.cons_append] at hplain
    obtain ⟨rfl, rfl⟩ := List.cons.inj hplain
    refine endsWord_plainFrom m _ _ rest ?_ hbreak
    rcases hc with hc | hc | hc
    · exact (hasLeadingIndicator_cons hs.noLeading).2 (Or.inr hc)
    · exact (hasLeadingIndicator_cons hs.noLeading).2 (Or.inl hc)
    · exact (hasValueIndicator_cons hs.noValue).1 hc

theorem PlainSafe.startsPlain (hs : PlainSafe s) (rest : List Char) :
    startsPlain (plain m s ++ rest) = true := by
  have hall : indicators.all (leadingIndicators.contains ·) = true := by decide
  cases hplain : plain m s ++ rest with
  | nil =>
    cases s with
    | nil => exact absurd rfl hs.nonempty
    | cons c s =>
      have hspace : c ≠ ' ' := fun h => hs.head (congrArg some h)
      rw [plain, plainFrom_cons_of_ne _ _ _ _ hspace] at hplain
      exact absurd hplain (by simp)
  | cons c t =>
    have hword := hs.endsWord rest hplain
    cases s with
    | nil => exact absurd rfl hs.nonempty
    | cons d s =>
      have hspace : d ≠ ' ' := fun h => hs.head (congrArg some h)
      have hbreak : d ≠ '\n' := fun h => hs.noBreak (h ▸ List.mem_cons_self)
      have hlead := (hasLeadingIndicator_cons hs.noLeading).1
      rw [plain, plainFrom_cons_of_ne _ _ _ _ hspace, List.cons_append] at hplain
      obtain ⟨rfl, rfl⟩ := List.cons.inj hplain
      rw [Yaml.startsPlain]
      split
      · rename_i hc
        rw [hword hc]
        rfl
      · have hind : d ∉ indicators :=
          fun h => hlead (List.contains_iff_mem.1 (List.all_eq_true.1 hall d h))
        simp [hspace, hbreak, hind]

/-- Plain text is read to what stops it. -/
theorem PlainSafe.readPlain (hs : PlainSafe s) {least : Nat} (hm : least ≤ m.indent)
    {rest : List Char} (hrest : StopsPlain least rest) :
    readPlain least {} (plain m s ++ rest) (plain m s ++ rest) = (s, rest) := by
  rw [plain, readPlain_plainFrom hm hrest hs.nonempty hs.noBreak hs.noValue hs.noComment hs.last
    true m.column {} _ (PlainGap.start _ _ _)]
  rfl

/-- Plain text does not start like a quoted scalar or a collection. -/
theorem PlainSafe.head_not_mem (hs : PlainSafe s) (rest : List Char) :
    ∀ c ∈ (plain m s ++ rest).head?, c ∉ leadingIndicators := by
  cases s with
  | nil => exact absurd rfl hs.nonempty
  | cons d s =>
    have hspace : d ≠ ' ' := fun h => hs.head (congrArg some h)
    rw [plain, plainFrom_cons_of_ne _ _ _ _ hspace]
    rintro c ⟨⟩
    exact (hasLeadingIndicator_cons hs.noLeading).1

theorem readScalar_of_head {t : List Char} (ht : ∀ c ∈ t.head?, c ∉ leadingIndicators)
    (least : Nat) :
    readScalar least t =
      if startsPlain t then
        some (⟨.plain, (readPlain least {} t t).1⟩, (readPlain least {} t t).2)
      else none := by
  unfold readScalar
  split
  · exact absurd (by decide) (ht '"' rfl)
  · exact absurd (by decide) (ht '\'' rfl)
  · rfl

theorem readInline_of_head {t : List Char}
    (ht : ∀ c ∈ t.head?, c ≠ '[' ∧ c ≠ '\x7b') (least : Nat) :
    readInline least t
      = (readScalar least t).map fun (scalar, after) => (.scalar scalar, after) := by
  unfold readInline
  split
  · exact absurd rfl (ht '[' rfl).1
  · exact absurd rfl (ht '\x7b' rfl).2
  · rfl

theorem PlainSafe.readScalar (hs : PlainSafe s) {least : Nat} (hm : least ≤ m.indent)
    {rest : List Char} (hrest : StopsPlain least rest) :
    readScalar least (plain m s ++ rest) = some (⟨.plain, s⟩, rest) := by
  rw [readScalar_of_head (hs.head_not_mem rest), if_pos (hs.startsPlain rest),
    hs.readPlain hm hrest]

end

/-! ### Texts -/

/-- Whether the text is folded twice somewhere, if its lines are folded wherever they can be. -/
def hasDoubleFold : Bool → List Char → Bool
  | _, [] => false
  | isFirst, c :: rest => foldsTwice isFirst c rest || hasDoubleFold false rest

/-- Whether a text, written with its lines after the first at column `indent`, is not read back:
it is in double quotes, its lines are longer than `lineWidth` from the start, and a character that
is escaped comes before a space, neither of them at an end of the text. -/
def misfolds (indent : Nat) (s : List Char) : Bool :=
  Style.ofText s == .double && lineWidth ≤ indent && hasDoubleFold true s

/-- What is read of a text that is written with its lines after the first at column `indent`. -/
def textBack (indent : Nat) (s : List Char) : List Char :=
  if misfolds indent s then foldedTwice true s else s

theorem foldedTwice_of_not_hasDoubleFold {isFirst : Bool} {s : List Char}
    (h : hasDoubleFold isFirst s = false) : foldedTwice isFirst s = s := by
  induction s generalizing isFirst with
  | nil => rfl
  | cons c s ih =>
    rw [hasDoubleFold, Bool.or_eq_false_iff] at h
    rw [foldedTwice, h.1, ih h.2]
    rfl

theorem length_le_foldedTwice (isFirst : Bool) (s : List Char) :
    s.length ≤ (foldedTwice isFirst s).length := by
  induction s generalizing isFirst with
  | nil => exact Nat.le_refl 0
  | cons c s ih =>
    have h := ih false
    simp only [foldedTwice, List.length_cons, List.length_append]
    omega

/-- A text that is folded twice is longer when it is read back. -/
theorem length_lt_foldedTwice {isFirst : Bool} {s : List Char}
    (h : hasDoubleFold isFirst s = true) : s.length < (foldedTwice isFirst s).length := by
  induction s generalizing isFirst with
  | nil => exact absurd h Bool.false_ne_true
  | cons c s ih =>
    have hle := length_le_foldedTwice false s
    rw [hasDoubleFold, Bool.or_eq_true] at h
    simp only [foldedTwice, List.length_cons, List.length_append]
    rcases h with h | h
    · rw [h]
      simp only [if_true, List.length_cons, List.length_nil]
      omega
    · have hlt := ih h
      omega

/-- The backslash of a second fold comes from no text that is folded wherever it can be: a
backslash in the text is escaped itself, so that it would be folded as well. -/
theorem foldedTwice_ne {s : List Char} (hs : s ≠ []) (t : List Char) :
    '\\' :: ' ' :: foldedTwice false s ≠ foldedTwice false t := by
  intro h
  cases t with
  | nil => exact absurd h (by simp [foldedTwice])
  | cons d t =>
    rw [foldedTwice.eq_2 false d, List.cons.injEq] at h
    obtain ⟨rfl, h⟩ := h
    by_cases hfold : foldsTwice false '\\' t = true
    · rw [if_pos hfold, List.cons_append, List.cons.injEq] at h
      exact absurd h.1 (by decide)
    · rw [if_neg hfold, List.nil_append] at h
      -- without a second fold after the backslash, a space would have to follow it in the text
      cases t with
      | nil => exact absurd h (by simp [foldedTwice])
      | cons d t =>
        cases t with
        | nil =>
          obtain ⟨c, s, rfl⟩ := List.exists_cons_of_ne_nil hs
          exact absurd h (by simp [foldedTwice, foldsTwice])
        | cons e t =>
          rw [foldedTwice.eq_2 false d, List.cons.injEq] at h
          obtain ⟨rfl, -⟩ := h
          exact hfold (by simp [foldsTwice, show (escape? '\\').isSome = true by decide])

/-- No two texts are read back as one. -/
theorem foldedTwice_injective {isFirst : Bool} {s t : List Char}
    (h : foldedTwice isFirst s = foldedTwice isFirst t) : s = t := by
  induction s generalizing isFirst t with
  | nil =>
    cases t with
    | nil => rfl
    | cons d t => exact absurd h (by simp [foldedTwice])
  | cons c s ih =>
    have hne : ∀ {c : Char} {u : List Char}, foldsTwice isFirst c u = true → u ≠ [] := by
      rintro c u hfold rfl
      simp [foldsTwice] at hfold
    cases t with
    | nil => exact absurd h (by simp [foldedTwice])
    | cons d t =>
      rw [foldedTwice, foldedTwice, List.cons.injEq] at h
      obtain ⟨rfl, h⟩ := h
      by_cases hs : foldsTwice isFirst c s = true <;> by_cases ht : foldsTwice isFirst c t = true
      · rw [if_pos hs, if_pos ht] at h
        rw [ih (List.append_cancel_left h)]
      · rw [if_pos hs, if_neg ht] at h
        exact absurd h (foldedTwice_ne (hne hs) t)
      · rw [if_neg hs, if_pos ht] at h
        exact absurd h.symm (foldedTwice_ne (hne ht) s)
      · rw [if_neg hs, if_neg ht] at h
        rw [ih h]

theorem textBack_of_ne {indent : Nat} {s : List Char} (h : Style.ofText s ≠ .double) :
    textBack indent s = s := by
  rw [textBack, misfolds, beq_eq_false_iff_ne.2 h]
  rfl

theorem textBack_of_double {m : Margin} {s : List Char} (hfolds : m.folds = true)
    (h : Style.ofText s = .double) : textBack m.indent s = readBack m true s := by
  rw [textBack, misfolds, readBack, Margin.foldsTwice, hfolds, h, beq_self_eq_true, Bool.true_and]
  by_cases hdeep : lineWidth ≤ m.indent
  · cases hfold : hasDoubleFold true s with
    | true => rw [Bool.and_true]
    | false => rw [foldedTwice_of_not_hasDoubleFold hfold, ite_self, ite_self]
  · rw [decide_eq_false hdeep]
    rfl

/-- A text is read back unless it is folded twice. -/
theorem textBack_eq_iff (indent : Nat) (s : List Char) :
    textBack indent s = s ↔ misfolds indent s = false := by
  unfold textBack
  split
  · rename_i h
    have hfold : hasDoubleFold true s = true := (Bool.and_eq_true_iff.1 h).2
    rw [h]
    refine ⟨fun heq => ?_, fun heq => absurd heq (by decide)⟩
    have hlt := length_lt_foldedTwice hfold
    rw [heq] at hlt
    exact absurd hlt (Nat.lt_irrefl _)
  · rename_i h
    exact ⟨fun _ => Bool.eq_false_iff.2 h, fun _ => rfl⟩

/-- No two texts in one style are read back as one. -/
theorem textBack_injective {indent : Nat} {s t : List Char}
    (hstyle : Style.ofText s = Style.ofText t)
    (h : textBack indent s = textBack indent t) : s = t := by
  by_cases hs : Style.ofText s = .double
  · have ht : Style.ofText t = .double := hstyle ▸ hs
    rw [textBack_of_double (m := ⟨indent, 0, true⟩) rfl hs,
      textBack_of_double (m := ⟨indent, 0, true⟩) rfl ht, readBack, readBack] at h
    split at h
    · exact foldedTwice_injective h
    · exact h
  · have ht : Style.ofText t ≠ .double := hstyle ▸ hs
    rwa [textBack_of_ne hs, textBack_of_ne ht] at h

section

variable {m : Margin}

theorem plainSafe_of_style {s : List Char} (h : Style.ofText s = .plain) : PlainSafe s :=
  plainSafe_of_allowsPlain (allowsPlain_of_style h)

theorem spaceMeetsBreak_of_style {s : List Char} (h : Style.ofText s ≠ .double) :
    spaceMeetsBreak s = false :=
  (Bool.or_eq_false_iff.1 (needsEscapes_eq_false h)).2

/-- A text is read to what stops it. -/
theorem readScalar_textScalar {least : Nat} (hm : least ≤ m.indent)
    (hcolumn : ColumnOk m (m.column + 1)) (s : List Char) {rest : List Char}
    (hstop : StopsPlain least rest) (hquote : EndsQuote rest) :
    readScalar least (textScalar m s ++ rest)
      = some (⟨Style.ofText s, if Style.ofText s = .double then readBack m true s else s⟩,
        rest) := by
  unfold textScalar
  split
  · rename_i hstyle
    rw [hstyle]
    exact (plainSafe_of_style hstyle).readScalar hm hstop
  · rename_i hstyle
    have hbreak := spaceMeetsBreak_of_style (s := s) (by rw [hstyle]; decide)
    have hread := readSingle_singleFrom m hquote s hbreak ' ' (m.column + 1) {}
      (SingleGap.start ' ' (by decide))
    rw [hstyle, single, List.cons_append, List.append_assoc, List.singleton_append, readScalar,
      hread]
    rfl
  · rename_i hstyle
    have hread := readDouble_doubleFrom m rest s true false (m.column + 1) {} hcolumn (.spaces 0)
    rw [hstyle, double, List.cons_append, List.append_assoc, List.singleton_append, readScalar,
      hread]
    rfl

/-- A text whose lines are not folded is read back. -/
theorem readScalar_unfolded {least : Nat} (hm : least ≤ m.indent) (hfolds : m.folds = false)
    (s : List Char) {rest : List Char} (hstop : StopsPlain least rest) (hquote : EndsQuote rest) :
    readScalar least (textScalar m s ++ rest) = some (⟨Style.ofText s, s⟩, rest) := by
  have hm' : m.foldsTwice = false := by rw [Margin.foldsTwice, hfolds, Bool.false_and]
  rw [readScalar_textScalar hm (fun h => absurd (hm'.symm.trans h) (by decide)) s hstop hquote,
    readBack, hm']
  simp

theorem readScalar_folded {least : Nat} (hm : least ≤ m.indent) (hfolds : m.folds = true)
    (hcolumn : ColumnOk m (m.column + 1)) (s : List Char) {rest : List Char}
    (hstop : StopsPlain least rest) (hquote : EndsQuote rest) :
    readScalar least (textScalar m s ++ rest)
      = some (⟨Style.ofText s, textBack m.indent s⟩, rest) := by
  rw [readScalar_textScalar hm hcolumn s hstop hquote]
  split
  · rename_i hstyle
    rw [textBack_of_double hfolds hstyle]
  · rename_i hstyle
    rw [textBack_of_ne hstyle]

end

end BundlePlan.Yaml
