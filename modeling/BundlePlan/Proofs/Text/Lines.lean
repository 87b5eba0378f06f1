import BundlePlan.Text.Split

/-!
# Lines of texts

The lines of a text are its `pieces` at line breaks. This module says how they follow the way a
text is put together, and how a property of the text after every line break becomes one of every
line.
-/

namespace BundlePlan.Text

theorem pieces_append_cons (sep : Char) (s t : List Char) :
    pieces sep (s ++ sep :: t) = pieces sep s ++ pieces sep t := by
  induction s with
  | nil => exact pieces_cons_sep sep t
  | cons c s ih =>
    by_cases hc : c = sep
    · subst hc
      rw [List.cons_append, pieces_cons_sep, pieces_cons_sep, ih, List.cons_append]
    · obtain ⟨p, ps, h⟩ := List.exists_cons_of_ne_nil (pieces_ne_nil sep s)
      rw [h, List.cons_append] at ih
      rw [List.cons_append, pieces_cons_of_ne hc ih, pieces_cons_of_ne hc h, List.cons_append]

/-- The lines of a text whose lines are all ended. -/
theorem pieces_flatMap (sep : Char) (ls : List (List Char)) (t : List Char) :
    pieces sep (ls.flatMap (· ++ [sep]) ++ t) = ls.flatMap (pieces sep) ++ pieces sep t := by
  induction ls with
  | nil => rfl
  | cons l ls ih =>
    rw [List.flatMap_cons, List.flatMap_cons, List.append_assoc, List.append_assoc,
      List.singleton_append, pieces_append_cons, ih, List.append_assoc]

/-- Lines are found again. -/
theorem flatMap_pieces_of_not_mem {sep : Char} {ls : List (List Char)} (h : ∀ l ∈ ls, sep ∉ l) :
    ls.flatMap (pieces sep) = ls := by
  induction ls with
  | nil => rfl
  | cons l ls ih =>
    rw [List.flatMap_cons, pieces_of_not_mem (h l List.mem_cons_self),
      ih fun l' hl' => h l' (List.mem_cons_of_mem l hl')]
    rfl

/-- A text whose last line is ended is made of its lines. -/
theorem pieces_flatMap_append (sep : Char) (s : List Char) :
    (pieces sep s).flatMap (· ++ [sep]) = s ++ [sep] := by
  induction s with
  | nil => rfl
  | cons c s ih =>
    by_cases hc : c = sep
    · subst hc
      rw [pieces_cons_sep, List.flatMap_cons, ih]
      rfl
    · obtain ⟨p, ps, h⟩ := List.exists_cons_of_ne_nil (pieces_ne_nil sep s)
      rw [h, List.flatMap_cons] at ih
      rw [pieces_cons_of_ne hc h, List.flatMap_cons, List.cons_append, List.cons_append, ih]
      rfl

/-- The first line is the text up to the first line break. -/
theorem first_piece {sep : Char} {s p : List Char} {ps : List (List Char)}
    (h : pieces sep s = p :: ps) : ∃ u, s = p ++ u ∧ ∀ c ∈ u.head?, c = sep := by
  induction s generalizing p ps with
  | nil =>
    obtain ⟨rfl, -⟩ := List.cons.inj h
    exact ⟨[], rfl, nofun⟩
  | cons c s ih =>
    by_cases hc : c = sep
    · rw [hc, pieces_cons_sep] at h
      obtain ⟨rfl, -⟩ := List.cons.inj h
      refine ⟨c :: s, rfl, ?_⟩
      rintro d ⟨⟩
      exact hc
    · obtain ⟨q, qs, hq⟩ := List.exists_cons_of_ne_nil (pieces_ne_nil sep s)
      rw [pieces_cons_of_ne hc hq] at h
      obtain ⟨rfl, -⟩ := List.cons.inj h
      obtain ⟨u, hu, hhead⟩ := ih hq
      exact ⟨u, congrArg (c :: ·) hu, hhead⟩

/-- A text without line breaks starts the first line if it starts the text. -/
theorem prefix_first_piece {sep : Char} {w s p : List Char} {ps : List (List Char)}
    (hw : sep ∉ w) (h : pieces sep s = p :: ps) : w <+: p ↔ w <+: s := by
  obtain ⟨u, rfl, hhead⟩ := first_piece h
  constructor
  · exact fun hstarts => hstarts.trans (List.prefix_append p u)
  · intro hstarts
    -- the given text is no longer than the first line, because the next character is a separator
    rcases List.prefix_or_prefix_of_prefix hstarts (List.prefix_append p u) with hle | hle
    · exact hle
    · obtain ⟨t, rfl⟩ := hle
      rw [List.prefix_append_right_inj] at hstarts
      cases t with
      | nil => exact ⟨[], by rw [List.append_nil, List.append_nil]⟩
      | cons c t =>
        obtain ⟨v, rfl⟩ := hstarts
        have hc : c = sep := hhead c rfl
        exact absurd (List.mem_append_right p (hc ▸ List.mem_cons_self)) hw

/-- Neither of two texts starts with the other. -/
def Differ (w s : List Char) : Prop := ¬w <+: s ∧ ¬s <+: w

instance (w s : List Char) : Decidable (Differ w s) :=
  inferInstanceAs (Decidable (¬w <+: s ∧ ¬s <+: w))

/-- What comes after the difference does not matter. -/
theorem Differ.not_prefix_append {w s : List Char} (h : Differ w s) (t : List Char) :
    ¬w <+: s ++ t := by
  intro hstarts
  rcases List.prefix_or_prefix_of_prefix hstarts (List.prefix_append s t) with hlong | hshort
  · exact h.1 hlong
  · exact h.2 hshort

/-- Every line break is followed by a text with the property. -/
def AfterBreaks (P : List Char → Prop) : List Char → Prop
  | [] => True
  | c :: t => (c = '\n' → P t) ∧ AfterBreaks P t

namespace AfterBreaks

variable {P P' : List Char → Prop}

theorem mono (h : ∀ t, P t → P' t) : ∀ {t}, AfterBreaks P t → AfterBreaks P' t
  | [], _ => trivial
  | _ :: _, ht => ⟨fun hc => h _ (ht.1 hc), ht.2.mono h⟩

theorem of_not_mem : ∀ {t : List Char}, '\n' ∉ t → AfterBreaks P t
  | [], _ => trivial
  | c :: t, h => by
    simp only [List.mem_cons, not_or] at h
    exact ⟨fun hc => absurd hc.symm h.1, of_not_mem h.2⟩

theorem append (hP : ∀ a b, P a → P (a ++ b)) {a b : List Char} (ha : AfterBreaks P a)
    (hb : AfterBreaks P b) : AfterBreaks P (a ++ b) := by
  induction a with
  | nil => exact hb
  | cons c a ih => exact ⟨fun hc => hP _ _ (ha.1 hc), ih ha.2⟩

theorem append_iff_right {a b : List Char} (ha : '\n' ∉ a) :
    AfterBreaks P (a ++ b) ↔ AfterBreaks P b := by
  induction a with
  | nil => exact Iff.rfl
  | cons c a ih =>
    simp only [List.mem_cons, not_or] at ha
    exact ⟨fun h => (ih ha.2).1 h.2, fun h => ⟨fun hc => absurd hc.symm ha.1, (ih ha.2).2 h⟩⟩

/-- What has no line break itself matters only for the last line. -/
theorem append_congr {b b' : List Char} (hb : '\n' ∉ b) (hb' : '\n' ∉ b')
    (hP : ∀ s, P (s ++ b) ↔ P (s ++ b')) (s : List Char) :
    AfterBreaks P (s ++ b) ↔ AfterBreaks P (s ++ b') := by
  induction s with
  | nil => exact ⟨fun _ => of_not_mem hb', fun _ => of_not_mem hb⟩
  | cons c s ih => exact and_congr (imp_congr_right fun _ => hP s) ih

/-- Every line is the start of a text with the property. -/
theorem pieces {t : List Char} (ht : AfterBreaks P t) (hstart : P t) :
    ∀ p ∈ pieces '\n' t, ∃ u, P (p ++ u) := by
  -- the first line is told apart from the others, of which the induction speaks
  suffices h : ∀ p ps, Text.pieces '\n' t = p :: ps → ∀ q ∈ ps, ∃ u, P (q ++ u) by
    obtain ⟨p, ps, hp⟩ := List.exists_cons_of_ne_nil (pieces_ne_nil '\n' t)
    obtain ⟨u, rfl, -⟩ := first_piece hp
    rw [hp]
    rintro q (_ | ⟨_, hq⟩)
    · exact ⟨u, hstart⟩
    · exact h p ps hp q hq
  clear hstart
  induction t with
  | nil =>
    intro p ps h
    obtain ⟨rfl, rfl⟩ := List.cons.inj h
    exact fun q hq => absurd hq List.not_mem_nil
  | cons c t ih =>
    intro p ps h
    obtain ⟨q, qs, hq⟩ := List.exists_cons_of_ne_nil (pieces_ne_nil '\n' t)
    have hqs := ih ht.2 q qs hq
    by_cases hc : c = '\n'
    · subst hc
      rw [pieces_cons_sep, hq] at h
      obtain ⟨rfl, rfl⟩ := List.cons.inj h
      obtain ⟨u, rfl, -⟩ := first_piece hq
      rintro r (_ | ⟨_, hr⟩)
      · exact ⟨u, ht.1 rfl⟩
      · exact hqs r hr
    · rw [pieces_cons_of_ne hc hq] at h
      obtain ⟨rfl, rfl⟩ := List.cons.inj h
      exact hqs

/-- Every line starts with a given text if the first does and one comes after every line break. -/
theorem forall_prefix_iff {w : List Char} (hw : '\n' ∉ w) (t : List Char) :
    (∀ p ∈ Text.pieces '\n' t, w <+: p) ↔ w <+: t ∧ AfterBreaks (w <+: ·) t := by
  suffices h : ∀ p ps, Text.pieces '\n' t = p :: ps →
      ((∀ q ∈ ps, w <+: q) ↔ AfterBreaks (w <+: ·) t) by
    obtain ⟨p, ps, hp⟩ := List.exists_cons_of_ne_nil (pieces_ne_nil '\n' t)
    rw [hp, List.forall_mem_cons, prefix_first_piece hw hp, h p ps hp]
  induction t with
  | nil =>
    intro p ps h
    obtain ⟨rfl, rfl⟩ := List.cons.inj h
    exact ⟨fun _ => trivial, fun _ q hq => absurd hq List.not_mem_nil⟩
  | cons c t ih =>
    intro p ps h
    obtain ⟨q, qs, hq⟩ := List.exists_cons_of_ne_nil (pieces_ne_nil '\n' t)
    have hqs := ih q qs hq
    by_cases hc : c = '\n'
    · subst hc
      rw [pieces_cons_sep, hq] at h
      obtain ⟨rfl, rfl⟩ := List.cons.inj h
      rw [List.forall_mem_cons, prefix_first_piece hw hq, hqs]
      exact ⟨fun h => ⟨fun _ => h.1, h.2⟩, fun h => ⟨h.1 rfl, h.2⟩⟩
    · rw [pieces_cons_of_ne hc hq] at h
      obtain ⟨rfl, rfl⟩ := List.cons.inj h
      rw [hqs]
      exact ⟨fun h => ⟨fun heq => absurd heq hc, h⟩, fun h => h.2⟩

end AfterBreaks

end BundlePlan.Text
