/-!
# Cutting text at a separator

Text is handled as `List Char`. `pieces sep` cuts at every occurrence of a separator, so `n`
separators give `n + 1` pieces, some of them possibly empty; `cutFirst sep` cuts at the first
one only; `joined sep` puts pieces back together. The laws here say that cutting loses nothing
(`joined_pieces`), that no piece holds the separator (`not_mem_of_mem_pieces`), and that pieces
free of the separator are found again (`pieces_joined`).
-/

namespace BundlePlan.Text

/-- The pieces between the occurrences of `sep`, in order. -/
def pieces (sep : Char) : List Char → List (List Char)
  | [] => [[]]
  | c :: cs =>
    if c = sep then [] :: pieces sep cs
    else
      match pieces sep cs with
      | [] => [[c]]
      | p :: ps => (c :: p) :: ps

/-- The pieces in order, with one `sep` between each two. -/
def joined (sep : Char) : List (List Char) → List Char
  | [] => []
  | [p] => p
  | p :: q :: ps => p ++ sep :: joined sep (q :: ps)

/-- What stands before the first `sep` and what stands after it; `none` when there is no `sep`. -/
def cutFirst (sep : Char) : List Char → Option (List Char × List Char)
  | [] => none
  | c :: cs =>
    if c = sep then some ([], cs)
    else (cutFirst sep cs).map fun (before, after) => (c :: before, after)

theorem pieces_ne_nil (sep : Char) (s : List Char) : pieces sep s ≠ [] := by
  cases s with
  | nil => simp [pieces]
  | cons c cs =>
    simp only [pieces]
    split
    · simp
    · split <;> simp

@[simp] theorem pieces_nil (sep : Char) : pieces sep [] = [[]] := rfl

theorem pieces_cons_sep (sep : Char) (s : List Char) :
    pieces sep (sep :: s) = [] :: pieces sep s := by
  simp [pieces]

theorem pieces_cons_of_ne {sep c : Char} {s p : List Char} {ps : List (List Char)}
    (hc : c ≠ sep) (h : pieces sep s = p :: ps) : pieces sep (c :: s) = (c :: p) :: ps := by
  simp [pieces, hc, h]

/-- Cutting loses nothing. -/
theorem joined_pieces (sep : Char) (s : List Char) : joined sep (pieces sep s) = s := by
  induction s with
  | nil => rfl
  | cons c cs ih =>
    obtain ⟨p, ps, h⟩ := List.exists_cons_of_ne_nil (pieces_ne_nil sep cs)
    by_cases hc : c = sep
    · subst hc
      rw [pieces_cons_sep, h]
      rw [h] at ih
      simp [joined, ih]
    · rw [pieces_cons_of_ne hc h]
      rw [h] at ih
      cases ps with
      | nil => simpa [joined] using ih
      | cons q qs => simp only [joined, List.cons_append] at ih ⊢; rw [ih]

/-- No piece holds the separator. -/
theorem not_mem_of_mem_pieces {sep : Char} {s p : List Char} (hp : p ∈ pieces sep s) :
    sep ∉ p := by
  induction s generalizing p with
  | nil => simp at hp; simp [hp]
  | cons c cs ih =>
    obtain ⟨q, qs, h⟩ := List.exists_cons_of_ne_nil (pieces_ne_nil sep cs)
    by_cases hc : c = sep
    · subst hc
      rw [pieces_cons_sep] at hp
      rcases List.mem_cons.1 hp with rfl | hp
      · simp
      · exact ih hp
    · rw [pieces_cons_of_ne hc h] at hp
      rcases List.mem_cons.1 hp with rfl | hp
      · have := ih (h ▸ List.mem_cons_self : q ∈ pieces sep cs)
        simp [Ne.symm hc, this]
      · exact ih (h ▸ List.mem_cons_of_mem q hp)

theorem pieces_of_not_mem {sep : Char} {s : List Char} (h : sep ∉ s) : pieces sep s = [s] := by
  induction s with
  | nil => rfl
  | cons c cs ih =>
    simp only [List.mem_cons, not_or] at h
    exact pieces_cons_of_ne (Ne.symm h.1) (ih h.2)

theorem pieces_append_sep {sep : Char} {p : List Char} (hp : sep ∉ p) (s : List Char) :
    pieces sep (p ++ sep :: s) = p :: pieces sep s := by
  induction p with
  | nil => simp [pieces_cons_sep]
  | cons c cs ih =>
    simp only [List.mem_cons, not_or] at hp
    exact pieces_cons_of_ne (Ne.symm hp.1) (ih hp.2)

/-- Pieces that are free of the separator are found again. -/
theorem pieces_joined {sep : Char} {ps : List (List Char)} (hne : ps ≠ [])
    (h : ∀ p ∈ ps, sep ∉ p) : pieces sep (joined sep ps) = ps := by
  induction ps with
  | nil => exact absurd rfl hne
  | cons p ps ih =>
    cases ps with
    | nil => exact pieces_of_not_mem (h p (by simp))
    | cons q qs =>
      rw [joined, pieces_append_sep (h p (by simp)),
        ih (by simp) fun r hr => h r (List.mem_cons_of_mem p hr)]

theorem cutFirst_of_not_mem {sep : Char} {s : List Char} (h : sep ∉ s) : cutFirst sep s = none := by
  induction s with
  | nil => rfl
  | cons c cs ih =>
    simp only [List.mem_cons, not_or] at h
    rw [cutFirst, if_neg (Ne.symm h.1), ih h.2]
    rfl

/-- A text is cut at the first separator. -/
theorem cutFirst_append_cons {sep : Char} {s : List Char} (hs : sep ∉ s) (t : List Char) :
    cutFirst sep (s ++ sep :: t) = some (s, t) := by
  induction s with
  | nil => rw [List.nil_append, cutFirst, if_pos rfl]
  | cons c s ih =>
    simp only [List.mem_cons, not_or] at hs
    rw [List.cons_append, cutFirst, if_neg (Ne.symm hs.1), ih hs.2]
    rfl

end BundlePlan.Text
