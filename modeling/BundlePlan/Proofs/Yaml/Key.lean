import BundlePlan.Proofs.Yaml.Scalar

/-!
# Telling values from keys and indicators

A scalar in a block is no indicator, and no key stands on its first line unless it is one itself:
a colon that ends a word inside a plain scalar would have made it a quoted one, and a quoted
scalar goes on to the end of its last line.
-/

namespace BundlePlan.Yaml

/-! ### Ends of values -/

/-- What comes after a value whose lines are indented by at least `least`: the end of the document,
or a line that is indented by less. -/
inductive EndsBlock (least : Nat) : List Char → Prop
  | nil : EndsBlock least []
  | newline : EndsBlock least ['\n']
  | line (j : Nat) (c : Char) (t : List Char) (hj : j < least) (hspace : c ≠ ' ')
      (hbreak : c ≠ '\n') : EndsBlock least (breakLine j ++ c :: t)

theorem nextText_spaces (column k : Nat) {c : Char} (t : List Char) (hspace : c ≠ ' ')
    (hbreak : c ≠ '\n') :
    nextText column (List.replicate k ' ' ++ c :: t) = (column + k, c :: t) := by
  induction k generalizing column with
  | zero => rw [List.replicate_zero, List.nil_append, nextText, if_neg hspace, if_neg hbreak]; rfl
  | succ k ih =>
    rw [List.replicate_succ, List.cons_append, nextText, if_pos rfl, ih, Nat.add_right_comm,
      Nat.add_assoc]

theorem nextText_breakLine (column j : Nat) {c : Char} (t : List Char) (hspace : c ≠ ' ')
    (hbreak : c ≠ '\n') : nextText column (breakLine j ++ c :: t) = (j, c :: t) := by
  rw [breakLine, List.cons_append, nextText, if_neg (by decide), if_pos rfl,
    nextText_spaces 0 j t hspace hbreak, Nat.zero_add]

namespace EndsBlock

variable {least : Nat} {rest : List Char}

theorem mono {least' : Nat} (h : EndsBlock least rest) (hle : least ≤ least') :
    EndsBlock least' rest := by
  cases h with
  | nil => exact nil
  | newline => exact newline
  | line j c t hj hspace hbreak => exact line j c t (Nat.lt_of_lt_of_le hj hle) hspace hbreak

theorem startsBreak (h : EndsBlock least rest) : ∀ c ∈ rest.head?, c = '\n' := by
  cases h with
  | nil => exact nofun
  | newline => rintro c ⟨⟩; rfl
  | line j c t hj hspace hbreak => rintro c ⟨⟩; rfl

theorem stopsPlain (h : EndsBlock least rest) : StopsPlain least rest := by
  cases h with
  | nil => rfl
  | newline => rfl
  | line j c t hj hspace hbreak =>
    have hstop : Yaml.stopsPlain least (foldGap j) c t = true := by
      simp [Yaml.stopsPlain, foldGap, hj]
    rw [StopsPlain, readPlain_breakLine, readPlain, if_neg hspace, if_neg hbreak, if_pos hstop]

theorem endsQuote (h : EndsBlock least rest) : EndsQuote rest := fun hquote =>
  absurd (h.startsBreak _ hquote) (by decide)

theorem endsLine (h : EndsBlock least rest) : endsLine rest = true := by
  have hbreak := h.startsBreak
  cases rest with
  | nil => rfl
  | cons c t =>
    obtain rfl := hbreak c rfl
    rfl

/-- The next text, if there is any, stands further to the left. -/
theorem nextText (h : EndsBlock least rest) (column : Nat) :
    (nextText column rest).2 = [] ∨ (Yaml.nextText column rest).1 < least := by
  cases h with
  | nil => exact Or.inl rfl
  | newline => exact Or.inl rfl
  | line j c t hj hspace hbreak =>
    rw [nextText_breakLine column j t hspace hbreak]
    exact Or.inr hj

theorem takeWhile (h : EndsBlock least rest) : rest.takeWhile (· != '\n') = [] := by
  have hbreak := h.startsBreak
  cases rest with
  | nil => rfl
  | cons c t =>
    obtain rfl := hbreak c rfl
    rfl

end EndsBlock

/-! ### Indicators -/

/-- No indicator of an entry stands here. -/
structure NoMark (t : List Char) : Prop where
  dash : afterMark? '-' t = none
  question : afterMark? '?' t = none

theorem afterMark?_of_ne {mark c : Char} (t : List Char) (h : c ≠ mark) :
    afterMark? mark (c :: t) = none :=
  if_neg fun hc => h hc.1

theorem noMark_of_ne {c : Char} (t : List Char) (h : c ≠ '-' ∧ c ≠ '?') : NoMark (c :: t) :=
  ⟨afterMark?_of_ne t h.1, afterMark?_of_ne t h.2⟩

theorem PlainSafe.noMark {m : Margin} {s : List Char} (hs : PlainSafe s) (rest : List Char) :
    NoMark (plain m s ++ rest) := by
  have hmark : ∀ mark, (mark = '-' ∨ mark = '?' ∨ mark = ':') →
      afterMark? mark (plain m s ++ rest) = none := by
    intro mark hmark
    cases hplain : plain m s ++ rest with
    | nil => rfl
    | cons c t =>
      refine if_neg fun ⟨hc, hword⟩ => ?_
      rw [hs.endsWord rest hplain (hc ▸ hmark)] at hword
      exact absurd hword (by decide)
  exact ⟨hmark '-' (by decide), hmark '?' (by decide)⟩

theorem noMark_textScalar (m : Margin) (s rest : List Char) : NoMark (textScalar m s ++ rest) := by
  unfold textScalar
  split
  · rename_i hstyle
    exact (plainSafe_of_style hstyle).noMark rest
  · exact noMark_of_ne _ (by decide)
  · exact noMark_of_ne _ (by decide)

/-! ### Lines without keys -/

theorem endsWord_of_endsOrSpaces {t : List Char} (hbreak : '\n' ∉ t) (h : endsOrSpaces t = false) :
    endsWord t = false := by
  cases t with
  | nil => exact absurd h (by decide)
  | cons c t =>
    have hc : c ≠ '\n' := fun heq => hbreak (heq ▸ List.mem_cons_self)
    simp only [endsOrSpaces] at h
    simp [endsWord, h, hc]

/-- A colon that is no value indicator ends no key. -/
theorem afterMark?_colon {t : List Char} (hbreak : '\n' ∉ t) (h : hasValueIndicator t = false) :
    afterMark? ':' t = none := by
  cases t with
  | nil => rfl
  | cons c t =>
    have hbreak : '\n' ∉ t := fun hmem => hbreak (List.mem_cons_of_mem c hmem)
    refine if_neg fun ⟨hc, hword⟩ => ?_
    rw [endsWord_of_endsOrSpaces hbreak ((hasValueIndicator_cons h).1 hc)] at hword
    exact absurd hword (by decide)

theorem afterMark?_readPlain (least : Nat) (g : Gap) {start t : List Char} (hbreak : '\n' ∉ t)
    (hvalue : hasValueIndicator t = false) (hstart : afterMark? ':' start = none) :
    afterMark? ':' (readPlain least g start t).2 = none := by
  induction t generalizing g start with
  | nil => exact hstart
  | cons c t ih =>
    have hbreak' : '\n' ∉ t := fun hmem => hbreak (List.mem_cons_of_mem c hmem)
    obtain ⟨-, hvalue'⟩ := hasValueIndicator_cons hvalue
    rw [readPlain]
    split
    · exact ih _ hbreak' hvalue' hstart
    · split
      · exact ih _ hbreak' hvalue' hstart
      · split
        · exact hstart
        · exact ih _ hbreak' hvalue' (afterMark?_colon hbreak' hvalue')

/-- A line of plain text without a value indicator has no key. -/
theorem readKey?_of_line {t : List Char} (hhead : ∀ c ∈ t.head?, c ∉ leadingIndicators)
    (hvalue : hasValueIndicator (t.takeWhile (· != '\n')) = false) : readKey? t = none := by
  have hbreak : '\n' ∉ t.takeWhile (· != '\n') := fun h =>
    absurd (List.all_eq_true.1 List.all_takeWhile _ h) (by decide)
  have hhead' : ∀ c ∈ (t.takeWhile (· != '\n')).head?, c ∉ leadingIndicators := by
    cases t with
    | nil => exact hhead
    | cons c t =>
      rw [List.takeWhile_cons]
      split
      · exact hhead
      · exact nofun
  unfold readKey?
  simp only
  rw [readScalar_of_head hhead']
  split
  · simp only [Option.bind_some]
    rw [afterMark?_readPlain 0 {} hbreak hvalue (afterMark?_colon hbreak hvalue)]
    rfl
  · rfl

/-- A value indicator in the first line of plain text would be one in the text. -/
theorem hasValueIndicator_firstLine {s : List Char} (m : Margin) (afterSpace : Bool) (column : Nat)
    (hbreak : '\n' ∉ s) (hvalue : hasValueIndicator s = false) :
    hasValueIndicator ((plainFrom m afterSpace column s).takeWhile (· != '\n')) = false := by
  induction s generalizing afterSpace column with
  | nil => rfl
  | cons c s ih =>
    simp only [List.mem_cons, not_or] at hbreak
    obtain ⟨hcolon, hvalue'⟩ := hasValueIndicator_cons hvalue
    have hcons : ∀ afterSpace column, hasValueIndicator
        ((c :: plainFrom m afterSpace column s).takeWhile (· != '\n')) = false := by
      intro afterSpace column
      have hc : (c != '\n') = true := bne_iff_ne.2 (Ne.symm hbreak.1)
      rw [List.takeWhile_cons, if_pos hc, hasValueIndicator,
        ih afterSpace column hbreak.2 hvalue', Bool.or_false, Bool.and_eq_false_imp, beq_iff_eq]
      intro hc
      cases s with
      | nil => exact absurd (hcolon hc) (by decide)
      | cons d s =>
        simp only [List.mem_cons, not_or] at hbreak
        have hd : d ≠ ' ' := by simpa [endsOrSpaces] using hcolon hc
        have hd' : (d != '\n') = true := bne_iff_ne.2 (Ne.symm hbreak.2.1)
        rw [plainFrom_cons_of_ne _ _ _ _ hd, List.takeWhile_cons, if_pos hd']
        exact beq_eq_false_iff_ne.2 hd
    -- a fold ends the first line, anything else leaves the character on it
    rw [plainFrom]
    split
    · split
      · rfl
      · exact hcons _ _
    · exact hcons _ _

theorem takeWhile_append_endsBlock {least : Nat} {rest : List Char} (h : EndsBlock least rest)
    (t : List Char) :
    (t ++ rest).takeWhile (· != '\n') = t.takeWhile (· != '\n') := by
  rw [List.takeWhile_append, h.takeWhile, List.append_nil]
  split
  · rename_i hlength
    exact ((List.takeWhile_prefix _).eq_of_length hlength).symm
  · rfl

theorem PlainSafe.readKey? {m : Margin} {s : List Char} (hs : PlainSafe s) {least : Nat}
    {rest : List Char} (hrest : EndsBlock least rest) : readKey? (plain m s ++ rest) = none := by
  refine readKey?_of_line (hs.head_not_mem rest) ?_
  rw [takeWhile_append_endsBlock hrest]
  exact hasValueIndicator_firstLine m _ _ hs.noBreak hs.noValue

/-! ### Quoted text without keys -/

theorem prepend_append {s u x a : List Char} {r r' : Option (List Char × List Char)}
    (h : prepend s r = some (x, a)) (hr : ∀ {y}, r = some (y, a) → r' = some (y, a ++ u)) :
    prepend s r' = some (x, a ++ u) := by
  cases r with
  | none => exact absurd h (by simp [prepend])
  | some p =>
    obtain ⟨y, b⟩ := p
    rw [prepend_some, Option.some.injEq, Prod.mk.injEq] at h
    rw [hr (by rw [h.2]), prepend_some, h.1]

/-- What is read in single quotes does not depend on what comes later. -/
theorem readSingle_append {u : List Char} (hu : EndsQuote u) (g : Gap) (t : List Char)
    {x a : List Char} (h : readSingle g t = some (x, a)) :
    readSingle g (t ++ u) = some (x, a ++ u) := by
  fun_induction readSingle g t generalizing x with
  | case1 => exact absurd h (by simp)
  | case2 g t ih =>
    rw [List.cons_append, readSingle_cons _ _ _ (by decide)]
    exact ih h
  | case3 g t _ ih =>
    rw [List.cons_append, readSingle_newline]
    exact ih h
  | case4 g t _ _ ih => exact prepend_append h ih
  | case5 g t hend =>
    obtain ⟨rfl, rfl⟩ := Prod.mk.inj (Option.some.inj h)
    refine readSingle_end ?_ g
    cases t with
    | nil => exact hu
    | cons c t =>
      rintro ⟨⟩
      exact hend t rfl
  | case6 g c t hspace hbreak hquote ih =>
    rw [List.cons_append, readSingle_cons _ _ _ hquote, if_neg hspace, if_neg hbreak]
    exact prepend_append h ih

/-- What is read in double quotes does not depend on what comes later. -/
theorem readDouble_append (u : List Char) (state : DoubleState) (t : List Char)
    {x a : List Char} (h : readDouble state t = some (x, a)) :
    readDouble state (t ++ u) = some (x, a ++ u) := by
  fun_induction readDouble state t generalizing x with
  | case1 => exact absurd h (by simp)
  | case2 g t ih => exact ih h
  | case3 g t _ ih => exact ih h
  | case4 g t =>
    obtain ⟨rfl, rfl⟩ := Prod.mk.inj (Option.some.inj h)
    rfl
  | case5 g t _ _ _ ih => exact prepend_append h ih
  | case6 g c t hspace hbreak hquote hescape ih =>
    rw [List.cons_append, readDouble, if_neg hspace, if_neg hbreak, if_neg hquote, if_neg hescape]
    exact prepend_append h ih
  | case7 t ih => exact ih h
  | case8 c t hbreak d hd ih =>
    rw [List.cons_append, readDouble, if_neg hbreak, hd]
    exact prepend_append h ih
  | case9 c t hbreak width hwidth hd ih =>
    rw [List.cons_append, readDouble, if_neg hbreak, hd, hwidth]
    exact ih h
  | case10 => exact absurd h (by simp)
  | case11 => exact absurd h (by simp)
  | case12 left number c t digit hdigit number' hleft hvalid =>
    rename_i ih
    rw [List.cons_append, readDouble, hdigit]
    simp only
    rw [if_pos hleft, if_pos hvalid]
    exact prepend_append h ih
  | case13 => exact absurd h (by simp)
  | case14 left number c t digit hdigit number' hleft =>
    rename_i ih
    rw [List.cons_append, readDouble, hdigit]
    simp only
    rw [if_neg hleft]
    exact ih h

/-- The start of a quoted scalar. -/
def IsQuote (c : Char) : Prop := c = '"' ∨ c = '\''

theorem readScalar_append {q : Char} (hq : IsQuote q) {u : List Char} (hu : EndsQuote u)
    {least : Nat} {t a : List Char} {scalar : Scalar}
    (h : readScalar least (q :: t) = some (scalar, a)) :
    readScalar least (q :: (t ++ u)) = some (scalar, a ++ u) := by
  rcases hq with rfl | rfl
  · obtain ⟨⟨x, b⟩, hread, heq⟩ := Option.map_eq_some_iff.1 h
    obtain ⟨rfl, rfl⟩ := Prod.mk.inj heq
    rw [readScalar, readDouble_append u _ _ hread]
    rfl
  · obtain ⟨⟨x, b⟩, hread, heq⟩ := Option.map_eq_some_iff.1 h
    obtain ⟨rfl, rfl⟩ := Prod.mk.inj heq
    rw [readScalar, readSingle_append hu _ _ hread]
    rfl

theorem readScalar_quote {q : Char} (hq : IsQuote q) (least least' : Nat) (t : List Char) :
    readScalar least (q :: t) = readScalar least' (q :: t) := by
  rcases hq with rfl | rfl <;> rfl

/-- No key stands on the first line of a quoted scalar that ends its last line. A key there would
be the whole scalar, and a colon after it. -/
theorem readKey?_quote {q : Char} (hq : IsQuote q) {least : Nat} {t rest : List Char}
    {scalar : Scalar} (h : readScalar least (q :: t) = some (scalar, rest))
    (hrest : ∀ c ∈ rest.head?, c = '\n') : readKey? (q :: t) = none := by
  have hline : (q :: t).takeWhile (· != '\n') = q :: t.takeWhile (· != '\n') := by
    rcases hq with rfl | rfl <;> rfl
  have hsplit := List.takeWhile_append_dropWhile (p := (· != '\n')) (l := t)
  have hnext : EndsQuote (t.dropWhile (· != '\n')) := by
    intro hhead
    have hbreak := List.head?_dropWhile_not (· != '\n') t
    rw [hhead] at hbreak
    exact absurd hbreak (by decide)
  unfold readKey?
  simp only
  rw [hline]
  cases hread : readScalar 0 (q :: t.takeWhile (· != '\n')) with
  | none => rfl
  | some p =>
    obtain ⟨key, after⟩ := p
    have hwhole := readScalar_append hq hnext hread
    rw [hsplit, readScalar_quote hq 0 least, h, Option.some.injEq, Prod.mk.injEq] at hwhole
    obtain ⟨-, rfl⟩ := hwhole
    cases after with
    | nil => rfl
    | cons c after =>
      obtain rfl := hrest c rfl
      rfl

end BundlePlan.Yaml
