import BundlePlan.Command.Argv

/-!
# Words in front of a command line

A word of plain characters, which neither separate nor quote, and a space in front of a command line
are one more word in front of its words, whatever the line is: after the space the splitter is where
it starts.
-/

namespace BundlePlan.Command

/-- A character that stands for itself and does not end a word. -/
def IsPlain (c : Char) : Prop := Mode.open c = (.bare, [c])

instance (c : Char) : Decidable (IsPlain c) := inferInstanceAs (Decidable (_ = _))

/-- In a gap a separator changes nothing. -/
theorem scan_gap_separator {c : Char} (hc : isSeparator c = true) (s : List Char) :
    scan .gap (c :: s) = scan .gap s := by
  have hstep : Mode.gap.step c = (.gap, []) := by simp [Mode.step, Mode.open, hc]
  rw [scan, hstep]
  cases hscan : scan .gap s with
  | error e => simp only [hscan]
  | ok found => simp [hscan]

/-- In a gap any other character starts a word. -/
theorem scan_gap_word {c : Char} (hc : isSeparator c = false) (s : List Char) :
    scan .gap (c :: s) = (scan (Mode.open c).1 s).map
      fun (rest, ws) => ([], ((Mode.open c).2 ++ rest) :: ws) := by
  have hopen : (Mode.open c).1 ≠ .gap := by
    simp only [Mode.open, hc, Bool.false_eq_true, if_false]
    split
    · simp
    split
    · simp
    split <;> simp
  have hstep : Mode.gap.step c = Mode.open c := rfl
  rw [scan, hstep]
  cases hscan : scan (Mode.open c).1 s with
  | error e => simp only [hscan, Except.map]
  | ok found => simp [hscan, hopen, Except.map]

/-- In a gap there is no word to go on with. -/
theorem fst_scan_gap {s r : List Char} {ws : List (List Char)} (h : scan .gap s = .ok (r, ws)) :
    r = [] := by
  induction s generalizing r ws with
  | nil =>
    obtain ⟨hr, -⟩ : [] = r ∧ [] = ws := by simpa [scan, Mode.endError?] using h
    exact hr.symm
  | cons c s ih =>
    cases hc : isSeparator c with
    | true => exact ih (scan_gap_separator hc s ▸ h)
    | false =>
      rw [scan_gap_word hc] at h
      cases hscan : scan (Mode.open c).1 s with
      | error e => simp [hscan, Except.map] at h
      | ok found =>
        obtain ⟨hr, -⟩ : [] = r ∧ _ = ws := by simpa [hscan, Except.map] using h
        exact hr.symm

/-- A separator ends a word. -/
theorem scan_bare_separator {c : Char} (hc : isSeparator c = true) (s : List Char) :
    scan .bare (c :: s) = (scan .gap s).map fun (_, ws) => ([], ws) := by
  have hstep : Mode.bare.step c = (.gap, []) := by simp [Mode.step, Mode.open, hc]
  rw [scan, hstep]
  cases hscan : scan .gap s with
  | error e => simp only [hscan, Except.map]
  | ok found => simp [hscan, Except.map, fst_scan_gap hscan]

/-- A word goes on with its plain characters up to a space. -/
theorem scan_bare_plain {w : List Char} (hw : ∀ c ∈ w, IsPlain c) (s : List Char) :
    scan .bare (w ++ ' ' :: s) = (scan .gap s).map fun (_, ws) => (w, ws) := by
  induction w with
  | nil => exact scan_bare_separator rfl s
  | cons c w ih =>
    obtain ⟨hc, hw⟩ := List.forall_mem_cons.1 hw
    have hstep : Mode.bare.step c = (.bare, [c]) := hc
    rw [List.cons_append, scan, hstep]
    simp only [ih hw]
    cases scan .gap s <;> rfl

theorem IsPlain.isSeparator_eq {c : Char} (h : IsPlain c) : isSeparator c = false := by
  cases hc : isSeparator c with
  | false => rfl
  | true => simp [IsPlain, Mode.open, hc] at h

/-- A word of plain characters in front of a line is one word more. -/
theorem words_plain {w : String} (hne : w ≠ "") (hw : ∀ c ∈ w.toList, IsPlain c) (line : String) :
    words (w ++ " " ++ line) = (words line).map (w :: ·) := by
  have hlist : (w ++ " " ++ line).toList = w.toList ++ ' ' :: line.toList := by
    simp [String.toList_append]
  have hword : String.ofList w.toList = w := String.ofList_toList
  rw [words, words, hlist]
  cases hcs : w.toList with
  | nil => exact absurd (String.toList_eq_nil_iff.1 hcs) hne
  | cons c cs =>
    rw [hcs] at hw hword
    obtain ⟨hc, hw⟩ := List.forall_mem_cons.1 hw
    have hopen : Mode.open c = (.bare, [c]) := hc
    rw [List.cons_append, scan_gap_word hc.isSeparator_eq, hopen, scan_bare_plain hw]
    cases scan .gap line.toList with
    | error e => rfl
    | ok found => simp [Except.map, hword]

theorem argv_eq_ok_iff {line : String} {ws : List String} :
    argv line = .ok ws ↔ words line = .ok ws ∧ ws ≠ [] := by
  unfold argv
  cases words line with
  | error e => simp
  | ok found =>
    cases found with
    | nil => simp
    | cons w found =>
      simp only [Except.ok.injEq]
      constructor
      · intro h
        exact ⟨h, h ▸ List.cons_ne_nil w found⟩
      · exact And.left

end BundlePlan.Command
