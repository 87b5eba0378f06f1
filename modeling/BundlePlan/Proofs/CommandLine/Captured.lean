import BundlePlan.CommandLine.Terminal
import Mathlib.Data.List.Infix
import Mathlib.Data.List.TakeWhile

/-!
# What a captured stream keeps

A stream that is captured holds what was written to it exactly if there is neither a control
sequence nor a carriage return before a line feed in it. `IsControl` says what a control sequence
is without looking for the longest one: as no character is of two of its three classes, there is
only one way to read one.
-/

namespace BundlePlan.CommandLine

/-- A control sequence: an escape character, a bracket, parameters, intermediates and one final
character. -/
def IsControl (t : List Char) : Prop :=
  ∃ parameters intermediates final, t = '\x1b' :: '[' :: (parameters ++ intermediates ++ [final]) ∧
    (∀ c ∈ parameters, isControlParameter c = true) ∧
    (∀ c ∈ intermediates, isControlIntermediate c = true) ∧ isControlFinal final = true

/-- A text that a captured stream keeps: no control sequence is in it, and no carriage return right
before a line feed. -/
def Untouched (s : List Char) : Prop :=
  (∀ t, IsControl t → ¬t <:+: s) ∧ ¬['\r', '\n'] <:+: s

/-! ### Control sequences -/

theorem isControlParameter_of_intermediate {c : Char} (h : isControlIntermediate c = true) :
    isControlParameter c = false := by
  simp only [isControlIntermediate, isControlParameter, Bool.and_eq_true, decide_eq_true_eq,
    Bool.and_eq_false_iff, decide_eq_false_iff_not] at h ⊢
  omega

theorem isControlParameter_of_final {c : Char} (h : isControlFinal c = true) :
    isControlParameter c = false := by
  simp only [isControlFinal, isControlParameter, Bool.and_eq_true, decide_eq_true_eq,
    Bool.and_eq_false_iff, decide_eq_false_iff_not] at h ⊢
  omega

theorem isControlIntermediate_of_final {c : Char} (h : isControlFinal c = true) :
    isControlIntermediate c = false := by
  simp only [isControlFinal, isControlIntermediate, Bool.and_eq_true, decide_eq_true_eq,
    Bool.and_eq_false_iff, decide_eq_false_iff_not] at h ⊢
  omega

/-- What is taken away after an escape character makes a control sequence with it. -/
theorem isControl_of_controlLength? {s : List Char} {n : Nat} (h : controlLength? s = some n) :
    IsControl ('\x1b' :: s.take n) := by
  unfold controlLength? at h
  split at h
  · next rest =>
    simp only at h
    split at h
    · next c after hafter =>
      split at h
      · next hfinal =>
        have hsplit : rest = rest.takeWhile isControlParameter
            ++ (rest.dropWhile isControlParameter).takeWhile isControlIntermediate ++ [c]
            ++ after := by
          rw [List.append_assoc, List.append_assoc, List.singleton_append, ← hafter,
            List.takeWhile_append_dropWhile, List.takeWhile_append_dropWhile]
        have hparameters : ∀ d ∈ rest.takeWhile isControlParameter, isControlParameter d = true :=
          fun _ => List.mem_takeWhile_imp
        have hintermediates : ∀ d ∈ (rest.dropWhile isControlParameter).takeWhile
            isControlIntermediate, isControlIntermediate d = true :=
          fun _ => List.mem_takeWhile_imp
        clear hafter
        generalize (rest.dropWhile isControlParameter).takeWhile isControlIntermediate = is at *
        generalize rest.takeWhile isControlParameter = ps at *
        have hn : n = (ps ++ is ++ [c]).length + 1 := by
          simp at h ⊢
          omega
        refine ⟨ps, is, c, ?_, hparameters, hintermediates, hfinal⟩
        rw [hn, hsplit, List.take_succ_cons, List.take_left]
      · cases h
    · cases h
  · cases h

/-- A control sequence is taken away. -/
theorem controlLength?_of_isControl {t s : List Char} (h : IsControl ('\x1b' :: t)) (hs : t <+: s) :
    controlLength? s ≠ none := by
  obtain ⟨ps, is, c, ht, hps, his, hc⟩ := h
  obtain ⟨more, rfl⟩ := hs
  obtain rfl : t = '[' :: (ps ++ is ++ [c]) := (List.cons.inj ht).2
  have hstart : (is ++ c :: more).dropWhile isControlParameter = is ++ c :: more := by
    cases is with
    | nil => simp [isControlParameter_of_final hc]
    | cons i is => simp [isControlParameter_of_intermediate (his i List.mem_cons_self)]
  have hparameters : (ps ++ (is ++ c :: more)).dropWhile isControlParameter = is ++ c :: more := by
    rw [List.dropWhile_append_of_pos hps, hstart]
  have hintermediates : (is ++ c :: more).dropWhile isControlIntermediate = c :: more := by
    rw [List.dropWhile_append_of_pos his]
    simp [isControlIntermediate_of_final hc]
  simp only [List.cons_append, List.append_assoc, List.nil_append, controlLength?]
  rw [hparameters, hintermediates]
  simp [hc]

/-! ### Texts without any -/

theorem withoutControlsFrom_sublist (n : Nat) (s : List Char) :
    (withoutControlsFrom n s).Sublist s := by
  fun_induction withoutControlsFrom n s with
  | case1 => exact List.Sublist.refl _
  | case2 n c rest ih => exact ih.cons c
  | case3 c rest n h ih => exact ih.cons c
  | case4 c rest h ih => exact ih.cons_cons c

theorem withoutControls_eq_self_iff (s : List Char) :
    withoutControls s = s ↔ ∀ t, IsControl t → ¬t <:+: s := by
  unfold withoutControls
  induction s with
  | nil =>
    refine ⟨fun _ t ht => ?_, fun _ => rfl⟩
    obtain ⟨_, _, _, rfl, -⟩ := ht
    simp
  | cons c rest ih =>
    have hpart : (∀ t, IsControl t → ¬t <:+: c :: rest) ↔
        (∀ t, IsControl t → ¬t <+: c :: rest) ∧ ∀ t, IsControl t → ¬t <:+: rest := by
      simp only [List.infix_cons_iff, not_or, ← forall_and, ← forall_and]
    rw [hpart, ← ih, withoutControlsFrom]
    cases hlength : if c = '\x1b' then controlLength? rest else none with
    | some n =>
      obtain ⟨rfl, hn⟩ : c = '\x1b' ∧ controlLength? rest = some n := by
        simpa [Option.ite_none_right_eq_some] using hlength
      constructor
      · intro h
        have hle := (withoutControlsFrom_sublist n rest).length_le
        simp only [h, List.length_cons] at hle
        omega
      · intro ⟨h, _⟩
        refine absurd ?_ (h _ (isControl_of_controlLength? hn))
        exact List.cons_prefix_cons.2 ⟨rfl, List.take_prefix n rest⟩
    | none =>
      have hstart : ∀ t, IsControl t → ¬t <+: c :: rest := by
        intro t ht hpre
        obtain ⟨ps, is, final, rfl, hparts⟩ := ht
        obtain ⟨rfl, hrest⟩ := List.cons_prefix_cons.1 hpre
        have hcontrol : IsControl _ := ⟨ps, is, final, rfl, hparts⟩
        exact controlLength?_of_isControl hcontrol hrest (by simpa using hlength)
      simp only [List.cons.injEq, true_and]
      exact ⟨fun h => ⟨hstart, h⟩, And.right⟩

/-! ### Line breaks -/

theorem withLineFeeds_sublist (s : List Char) : (withLineFeeds s).Sublist s := by
  induction s with
  | nil => exact List.Sublist.refl _
  | cons c rest ih =>
    rw [withLineFeeds]
    split
    · exact ih.cons c
    · exact ih.cons_cons c

theorem withLineFeeds_eq_self_iff (s : List Char) :
    withLineFeeds s = s ↔ ¬['\r', '\n'] <:+: s := by
  induction s with
  | nil => simp [withLineFeeds]
  | cons c rest ih =>
    have hstart : ['\r', '\n'] <+: c :: rest ↔ c = '\r' ∧ rest.head? = some '\n' := by
      cases rest <;> simp [eq_comm]
    rw [withLineFeeds, List.infix_cons_iff, hstart]
    split
    · next h =>
      have hle := (withLineFeeds_sublist rest).length_le
      refine ⟨fun heq => ?_, fun hno => absurd (Or.inl h) hno⟩
      simp only [heq, List.length_cons] at hle
      omega
    · next h => simp [h, ih]

/-- A captured stream holds what was written exactly if nothing in it is left out. -/
theorem captured_eq_self_iff (s : String) : captured s = s ↔ Untouched s.toList := by
  have hfeeds := withLineFeeds_sublist (withoutControls s.toList)
  have hcontrols := withoutControlsFrom_sublist 0 s.toList
  rw [Untouched, ← withoutControls_eq_self_iff, ← withLineFeeds_eq_self_iff]
  constructor
  · intro h
    have hlist : withLineFeeds (withoutControls s.toList) = s.toList := by
      simpa [captured] using congrArg String.toList h
    -- both steps only leave characters out, so that none of them leaves out any
    have hlength := congrArg List.length hlist
    have hle := hfeeds.length_le
    have hkept : withoutControls s.toList = s.toList := hcontrols.eq_of_length_le (by
      change s.toList.length ≤ (withoutControls s.toList).length
      omega)
    exact ⟨hkept, by rwa [hkept] at hlist⟩
  · intro ⟨hkept, hbreaks⟩
    rw [captured, hkept, hbreaks, String.ofList_toList]

end BundlePlan.CommandLine
