import BundlePlan.Proofs.Command.Words
import Mathlib.Data.List.Induction

/-!
# Quoting in command lines

A text is no command for one of three reasons: a quote in it is not closed, it ends with an
escape that escapes nothing, or it has no words. Here all three are said of the text alone. `Closed`
is the grammar of texts that leave nothing open; what a text leaves open comes after a part that
is `Closed`.

The splitter is a machine that knows only where it is. What makes it right is that this place
describes the whole text read so far (`describes_step`): a text that leads it between single quotes
is a closed text, a single quote and a text without one, and so on for every place.
-/

namespace BundlePlan.Command

/-! ### The grammar -/

/-- A text between double quotes. A backslash takes along whatever follows it. -/
inductive DoubleBody : List Char → Prop where
  | nil : DoubleBody []
  | char {c : Char} {s : List Char} (hquote : c ≠ '"') (hescape : c ≠ '\\') (h : DoubleBody s) :
    DoubleBody (c :: s)
  | escape (c : Char) {s : List Char} (h : DoubleBody s) : DoubleBody ('\\' :: c :: s)

/-- A text whose quotes are closed and whose escapes escape something. -/
inductive Closed : List Char → Prop where
  | nil : Closed []
  | char {c : Char} {s : List Char} (hsingle : c ≠ '\'') (hdouble : c ≠ '"') (hescape : c ≠ '\\')
    (h : Closed s) : Closed (c :: s)
  | escape (c : Char) {s : List Char} (h : Closed s) : Closed ('\\' :: c :: s)
  | single {q s : List Char} (hq : '\'' ∉ q) (h : Closed s) : Closed ('\'' :: (q ++ '\'' :: s))
  | double {q s : List Char} (hq : DoubleBody q) (h : Closed s) : Closed ('"' :: (q ++ '"' :: s))

/-- A quote in the text is not closed. -/
def UnclosedQuote (s : List Char) : Prop :=
  ∃ t q, Closed t ∧ ('\'' ∉ q ∧ s = t ++ '\'' :: q ∨ DoubleBody q ∧ s = t ++ '"' :: q)

/-- The text ends with a backslash that should escape something, outside quotes or between double
quotes. -/
def DanglingEscape (s : List Char) : Prop :=
  ∃ t, Closed t ∧ (s = t ++ ['\\'] ∨ ∃ q, DoubleBody q ∧ s = t ++ '"' :: (q ++ ['\\']))

/-- The text has no words: nothing is in it but separators. -/
def Blank (s : List Char) : Prop := ∀ c ∈ s, isSeparator c = true

theorem DoubleBody.append {s t : List Char} (hs : DoubleBody s) (ht : DoubleBody t) :
    DoubleBody (s ++ t) := by
  induction hs with
  | nil => exact ht
  | char hquote hescape _ ih => exact .char hquote hescape ih
  | escape c _ ih => exact .escape c ih

theorem Closed.append {s t : List Char} (hs : Closed s) (ht : Closed t) : Closed (s ++ t) := by
  induction hs with
  | nil => exact ht
  | char hsingle hdouble hescape _ ih => exact .char hsingle hdouble hescape ih
  | escape c _ ih => exact .escape c ih
  | single hq _ ih =>
    rw [List.cons_append, List.append_assoc, List.cons_append]
    exact .single hq ih
  | double hq _ ih =>
    rw [List.cons_append, List.append_assoc, List.cons_append]
    exact .double hq ih

/-! ### Where the splitter gets to -/

namespace Mode

/-- Where the splitter is after a text. -/
def after (m : Mode) (s : List Char) : Mode := s.foldl (fun m c => (m.step c).1) m

@[simp] theorem after_nil (m : Mode) : m.after [] = m := rfl

@[simp] theorem after_cons (m : Mode) (c : Char) (s : List Char) :
    m.after (c :: s) = (m.step c).1.after s := rfl

@[simp] theorem after_append (m : Mode) (s t : List Char) :
    m.after (s ++ t) = (m.after s).after t :=
  List.foldl_append

/-- What the place of the splitter says about the text read so far. -/
def Describes : Mode → List Char → Prop
  | gap, s | bare, s => Closed s
  | single, s => ∃ t q, Closed t ∧ '\'' ∉ q ∧ s = t ++ '\'' :: q
  | double, s => ∃ t q, Closed t ∧ DoubleBody q ∧ s = t ++ '"' :: q
  | escaped, s => ∃ t, Closed t ∧ s = t ++ ['\\']
  | doubleEscaped, s => ∃ t q, Closed t ∧ DoubleBody q ∧ s = t ++ '"' :: (q ++ ['\\'])

/-- The character after a backslash counts as escaped whether the backslash is kept or not. -/
theorem fst_step_doubleEscaped (c : Char) : (doubleEscaped.step c).1 = double := by
  simp only [Mode.step]
  split <;> rfl

/-- Outside quotes a character leads to the place that describes it. -/
theorem describes_open {s : List Char} (h : Closed s) (c : Char) :
    (Mode.open c).1.Describes (s ++ [c]) := by
  unfold Mode.open
  by_cases hseparator : isSeparator c = true
  · have hne : c ≠ '\'' ∧ c ≠ '"' ∧ c ≠ '\\' := by
      refine ⟨?_, ?_, ?_⟩ <;> intro heq <;> simp [heq, isSeparator] at hseparator
    rw [if_pos hseparator]
    exact h.append (.char hne.1 hne.2.1 hne.2.2 .nil)
  rw [if_neg hseparator]
  by_cases hsingle : c = '\''
  · rw [if_pos hsingle, hsingle]
    exact ⟨s, [], h, List.not_mem_nil, rfl⟩
  rw [if_neg hsingle]
  by_cases hdouble : c = '"'
  · rw [if_pos hdouble, hdouble]
    exact ⟨s, [], h, .nil, rfl⟩
  rw [if_neg hdouble]
  by_cases hescape : c = '\\'
  · rw [if_pos hescape, hescape]
    exact ⟨s, h, rfl⟩
  · rw [if_neg hescape]
    exact h.append (.char hsingle hdouble hescape .nil)

/-- One character more keeps the description true. -/
theorem describes_step {m : Mode} {s : List Char} (h : m.Describes s) (c : Char) :
    (m.step c).1.Describes (s ++ [c]) := by
  cases m with
  | gap => exact describes_open h c
  | bare => exact describes_open h c
  | single =>
    obtain ⟨t, q, ht, hq, rfl⟩ := h
    simp only [Mode.step]
    split
    · next hc =>
      have hclosed := ht.append (.single hq .nil)
      simpa [Describes, hc] using hclosed
    · next hc =>
      refine ⟨t, q ++ [c], ht, ?_, by simp⟩
      simp [hq, Ne.symm hc]
  | double =>
    obtain ⟨t, q, ht, hq, rfl⟩ := h
    simp only [Mode.step]
    split
    · next hc =>
      have hclosed := ht.append (.double hq .nil)
      simpa [Describes, hc] using hclosed
    · next hquote =>
      split
      · next hc => exact ⟨t, q, ht, hq, by simp [hc]⟩
      · next hescape =>
        exact ⟨t, q ++ [c], ht, hq.append (.char hquote hescape .nil), by simp⟩
  | escaped =>
    obtain ⟨t, ht, rfl⟩ := h
    have hclosed := ht.append (.escape c .nil)
    simpa [Mode.step, Describes] using hclosed
  | doubleEscaped =>
    obtain ⟨t, q, ht, hq, rfl⟩ := h
    have hbody := hq.append (.escape c .nil)
    rw [fst_step_doubleEscaped]
    exact ⟨t, _, ht, hbody, by simp⟩

/-- After any text the place of the splitter describes the text. -/
theorem describes_after (s : List Char) : (gap.after s).Describes s := by
  induction s using List.reverseRecOn with
  | nil => exact Closed.nil
  | append_singleton s c ih =>
    rw [after_append]
    exact describes_step ih c

/-- Whether a place is outside quotes, with nothing to escape. -/
def IsOutside (m : Mode) : Prop := m = gap ∨ m = bare

/-- Outside quotes both places go on alike. -/
theorem IsOutside.step_eq {m : Mode} (h : m.IsOutside) (c : Char) : m.step c = Mode.open c := by
  rcases h with rfl | rfl <;> rfl

theorem after_single {q : List Char} (hq : '\'' ∉ q) : single.after q = single := by
  induction q with
  | nil => rfl
  | cons c q ih =>
    simp only [List.mem_cons, not_or] at hq
    have hstep : (single.step c).1 = single := by simp [Mode.step, Ne.symm hq.1]
    rw [after_cons, hstep, ih hq.2]

theorem after_double {q : List Char} (hq : DoubleBody q) : double.after q = double := by
  induction hq with
  | nil => rfl
  | @char c s hquote hescape _ ih =>
    have hstep : (double.step c).1 = double := by simp [Mode.step, hquote, hescape]
    rw [after_cons, hstep, ih]
  | @escape c s _ ih =>
    have hstep : ((double.step '\\').1.step c).1 = double := fst_step_doubleEscaped c
    rw [after_cons, after_cons, hstep, ih]

/-- A closed text leads outside quotes. -/
theorem IsOutside.after {m : Mode} {s : List Char} (hm : m.IsOutside) (hs : Closed s) :
    (m.after s).IsOutside := by
  induction hs generalizing m with
  | nil => exact hm
  | @char c s hsingle hdouble hescape _ ih =>
    rw [after_cons, hm.step_eq]
    refine ih ?_
    by_cases hseparator : isSeparator c = true
    · exact Or.inl (by simp [Mode.open, hseparator])
    · exact Or.inr (by simp [Mode.open, hseparator, hsingle, hdouble, hescape])
  | escape c _ ih =>
    rw [after_cons, hm.step_eq, after_cons]
    exact ih (Or.inr rfl)
  | single hq _ ih =>
    rw [after_cons, hm.step_eq, after_append]
    have hbody : (Mode.open '\'').1.after _ = single := after_single hq
    rw [hbody, after_cons]
    exact ih (Or.inr rfl)
  | double hq _ ih =>
    rw [after_cons, hm.step_eq, after_append]
    have hbody : (Mode.open '"').1.after _ = double := after_double hq
    rw [hbody, after_cons]
    exact ih (Or.inr rfl)

/-- A text leads between quotes exactly if it leaves one unclosed. -/
theorem endError?_eq_unclosedQuote_iff (s : List Char) :
    (gap.after s).endError? = some .unclosedQuote ↔ UnclosedQuote s := by
  constructor
  · intro h
    have hdescribes := describes_after s
    cases hm : gap.after s with
    | single =>
      obtain ⟨t, q, ht, hq, hs⟩ := hm ▸ hdescribes
      exact ⟨t, q, ht, Or.inl ⟨hq, hs⟩⟩
    | double =>
      obtain ⟨t, q, ht, hq, hs⟩ := hm ▸ hdescribes
      exact ⟨t, q, ht, Or.inr ⟨hq, hs⟩⟩
    | gap | bare | escaped | doubleEscaped => simp [hm, endError?] at h
  · intro hunclosed
    obtain ⟨t, q, ht, h⟩ := hunclosed
    have houtside : (gap.after t).IsOutside := IsOutside.after (Or.inl rfl) ht
    rcases h with ⟨hq, rfl⟩ | ⟨hq, rfl⟩
    · have hafter : (Mode.open '\'').1.after q = single := after_single hq
      rw [after_append, after_cons, houtside.step_eq, hafter]
      rfl
    · have hafter : (Mode.open '"').1.after q = double := after_double hq
      rw [after_append, after_cons, houtside.step_eq, hafter]
      rfl

/-- A text leads behind a backslash exactly if it ends with one that escapes nothing. -/
theorem endError?_eq_danglingEscape_iff (s : List Char) :
    (gap.after s).endError? = some .danglingEscape ↔ DanglingEscape s := by
  constructor
  · intro h
    have hdescribes := describes_after s
    cases hm : gap.after s with
    | escaped =>
      obtain ⟨t, ht, hs⟩ := hm ▸ hdescribes
      exact ⟨t, ht, Or.inl hs⟩
    | doubleEscaped =>
      obtain ⟨t, q, ht, hq, hs⟩ := hm ▸ hdescribes
      exact ⟨t, ht, Or.inr ⟨q, hq, hs⟩⟩
    | gap | bare | single | double => simp [hm, endError?] at h
  · intro hdangling
    obtain ⟨t, ht, h⟩ := hdangling
    have houtside : (gap.after t).IsOutside := IsOutside.after (Or.inl rfl) ht
    rcases h with rfl | ⟨q, hq, rfl⟩
    · rw [after_append, after_cons, houtside.step_eq]
      rfl
    · have hafter : (Mode.open '"').1.after q = double := after_double hq
      rw [after_append, after_cons, houtside.step_eq, after_append, hafter]
      rfl

end Mode

/-! ### What is split and what is not -/

/-- The place that the splitter ends at decides what is wrong. -/
theorem scan_eq_error_iff {m : Mode} {s : List Char} {e : WordError} :
    scan m s = .error e ↔ (m.after s).endError? = some e := by
  induction s generalizing m with
  | nil =>
    rw [scan, Mode.after_nil]
    cases m.endError? <;> simp
  | cons c s ih =>
    rw [Mode.after_cons, ← ih, scan]
    cases hscan : scan (m.step c).1 s with
    | error e' => simp [hscan]
    | ok found =>
      simp only [hscan]
      split <;> simp

/-- Words are found exactly if there is a character that does not separate. -/
theorem scan_gap_words {s : List Char} {r : List Char} {ws : List (List Char)}
    (h : scan .gap s = .ok (r, ws)) : ws = [] ↔ Blank s := by
  induction s generalizing r ws with
  | nil =>
    obtain ⟨-, rfl⟩ : [] = r ∧ [] = ws := by simpa [scan, Mode.endError?] using h
    simp [Blank]
  | cons c s ih =>
    cases hc : isSeparator c with
    | true => simp [ih (scan_gap_separator hc s ▸ h), Blank, hc]
    | false =>
      rw [scan_gap_word hc] at h
      cases hscan : scan (Mode.open c).1 s with
      | error e => simp [hscan, Except.map] at h
      | ok found =>
        obtain ⟨-, rfl⟩ : [] = r ∧ _ :: found.2 = ws := by simpa [hscan, Except.map] using h
        simp [Blank, hc]

theorem words_eq_error_iff {line : String} {e : WordError} :
    words line = .error e ↔ (Mode.gap.after line.toList).endError? = some e := by
  rw [← scan_eq_error_iff, words]
  cases scan .gap line.toList <;> simp [Except.map]

/-- A text has no words exactly if there are only separators in it. -/
theorem words_eq_nil_iff (line : String) : words line = .ok [] ↔ Blank line.toList := by
  constructor
  · intro h
    cases hscan : scan .gap line.toList with
    | error e => simp [words, hscan, Except.map] at h
    | ok found =>
      have hwords : found.2 = [] := by simpa [words, hscan, Except.map] using h
      exact (scan_gap_words hscan).1 hwords
  · intro h
    cases hscan : scan .gap line.toList with
    | error e =>
      -- a blank text never leaves the gap
      have hgap : ∀ s, Blank s → Mode.gap.after s = .gap := by
        intro s hs
        induction s with
        | nil => rfl
        | cons c s ih =>
          have hstep : (Mode.gap.step c).1 = .gap := by
            simp [Mode.step, Mode.open, hs c List.mem_cons_self]
          rw [Mode.after_cons, hstep, ih fun d hd => hs d (List.mem_cons_of_mem c hd)]
      have hend := scan_eq_error_iff.1 hscan
      simp [hgap _ h, Mode.endError?] at hend
    | ok found =>
      have hwords := (scan_gap_words hscan).2 h
      simp [words, hscan, Except.map, hwords]

/-- A text is no command exactly if it leaves a quote or an escape open or has no words. -/
theorem argv_eq_error_iff (line : String) :
    (∃ e, argv line = .error e) ↔
      UnclosedQuote line.toList ∨ DanglingEscape line.toList ∨ Blank line.toList := by
  rw [← Mode.endError?_eq_unclosedQuote_iff, ← Mode.endError?_eq_danglingEscape_iff,
    ← words_eq_nil_iff, ← words_eq_error_iff, ← words_eq_error_iff, argv]
  cases hwords : words line with
  | error e => cases e <;> simp
  | ok ws => cases ws <;> simp

end BundlePlan.Command
