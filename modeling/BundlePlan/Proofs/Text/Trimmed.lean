import BundlePlan.Proofs.Text.Runs
import BundlePlan.Text.Blank

/-!
# Trimmed text

Blanks around a text do not matter to `trim`, and a text without blanks at its ends is left alone.
Trimming the two sides of a character that is not blank is trimming the text that it is in.
-/

namespace BundlePlan.Text

variable {s t b : List Char}

/-- The text neither starts nor ends with a blank. -/
def Tight (s : List Char) : Prop := Stops isBlank s ∧ Stops isBlank s.reverse

/-- All characters are blank. -/
def AllBlank (s : List Char) : Prop := ∀ c ∈ s, isBlank c = true

theorem AllBlank.reverse (h : AllBlank s) : AllBlank s.reverse :=
  fun c hc => h c (List.mem_reverse.1 hc)

theorem trimStart_append (hb : AllBlank b) (s : List Char) : trimStart (b ++ s) = trimStart s :=
  List.dropWhile_append_of_pos hb

theorem trimEnd_append (hb : AllBlank b) (s : List Char) : trimEnd (s ++ b) = trimEnd s := by
  rw [trimEnd, List.reverse_append, List.dropWhile_append_of_pos hb.reverse, trimEnd]

/-- What is taken away is blank. -/
theorem exists_trimStart (s : List Char) : ∃ b, AllBlank b ∧ s = b ++ trimStart s :=
  ⟨s.takeWhile isBlank, fun _ => List.mem_takeWhile_imp, List.takeWhile_append_dropWhile.symm⟩

theorem exists_trimEnd (s : List Char) : ∃ b, AllBlank b ∧ s = trimEnd s ++ b := by
  obtain ⟨b, hb, hs⟩ := exists_trimStart s.reverse
  refine ⟨b.reverse, hb.reverse, ?_⟩
  rw [trimEnd, ← List.reverse_append]
  exact List.reverse_eq_iff.1 hs

theorem trim_blank_append (hb : AllBlank b) (s : List Char) : trim (b ++ s) = trim s := by
  rw [trim, trimStart_append hb, trim]

theorem trim_append_blank (hb : AllBlank b) (s : List Char) : trim (s ++ b) = trim s := by
  unfold trim trimStart
  rw [List.dropWhile_append]
  by_cases hs : s.dropWhile isBlank = []
  · have hnil : b.dropWhile isBlank = [] := List.dropWhile_eq_nil_iff.2 hb
    rw [hs, List.isEmpty_nil, if_pos rfl, hnil]
  · rw [List.isEmpty_eq_false_iff.2 hs]
    exact trimEnd_append hb _

theorem trim_trimStart (s : List Char) : trim (trimStart s) = trim s := by
  obtain ⟨b, hb, hs⟩ := exists_trimStart s
  have h := trim_blank_append hb (trimStart s)
  rw [← hs] at h
  exact h.symm

theorem trim_trimEnd (s : List Char) : trim (trimEnd s) = trim s := by
  obtain ⟨b, hb, hs⟩ := exists_trimEnd s
  have h := trim_append_blank hb (trimEnd s)
  rw [← hs] at h
  exact h.symm

theorem Tight.trim_eq (h : Tight s) : trim s = s := by
  rw [trim, trimStart, h.1.dropWhile, trimEnd, h.2.dropWhile, List.reverse_reverse]

theorem mem_of_mem_trim {c : Char} (h : c ∈ trim s) : c ∈ s := by
  obtain ⟨b, -, hstart⟩ := exists_trimStart s
  obtain ⟨b', -, hend⟩ := exists_trimEnd (trimStart s)
  rw [hstart, hend]
  exact List.mem_append_right _ (List.mem_append_left _ h)

theorem stops_trimStart (s : List Char) : Stops isBlank (trimStart s) := by
  intro c hc
  have h := List.head?_dropWhile_not isBlank s
  rw [trimStart] at hc
  rw [Option.mem_def.1 hc] at h
  exact h

/-- What trimming leaves has no blanks at its ends. -/
theorem tight_trim (s : List Char) : Tight (trim s) := by
  constructor
  · intro c hc
    obtain ⟨b, -, hend⟩ := exists_trimEnd (trimStart s)
    refine stops_trimStart s c ?_
    rw [hend]
    rw [List.head?_append, ← trim, Option.mem_def.1 hc]
    rfl
  · rw [trim, trimEnd, List.reverse_reverse]
    exact stops_trimStart _

/-- A text is found again between blanks. -/
theorem trim_padded {b' : List Char} (hb : AllBlank b) (hs : Tight s) (hb' : AllBlank b') :
    trim (b ++ s ++ b') = s := by
  rw [trim_append_blank hb', trim_blank_append hb, hs.trim_eq]

theorem trimStart_append_cons {c : Char} (hc : isBlank c = false) (s t : List Char) :
    trimStart (s ++ c :: t) = trimStart s ++ c :: t := by
  unfold trimStart
  rw [List.dropWhile_append]
  by_cases hs : s.dropWhile isBlank = []
  · rw [hs, List.isEmpty_nil, if_pos rfl, (stops_cons hc t).dropWhile, List.nil_append]
  · rw [List.isEmpty_eq_false_iff.2 hs]
    rfl

theorem trimEnd_append_cons {c : Char} (hc : isBlank c = false) (s t : List Char) :
    trimEnd (s ++ c :: t) = s ++ c :: trimEnd t := by
  have hreverse : (s ++ c :: t).reverse = t.reverse ++ c :: s.reverse := by simp
  have h := trimStart_append_cons hc t.reverse s.reverse
  unfold trimStart at h
  unfold trimEnd
  rw [hreverse, h]
  simp

/-- A character that is not blank keeps the two ends apart. -/
theorem trim_append_cons {c : Char} (hc : isBlank c = false) (s t : List Char) :
    trim (s ++ c :: t) = trimStart s ++ c :: trimEnd t := by
  rw [trim, trimStart_append_cons hc, trimEnd_append_cons hc]

end BundlePlan.Text
