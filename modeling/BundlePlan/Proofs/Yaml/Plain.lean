import BundlePlan.Yaml.Reading.Document
import BundlePlan.Yaml.Scalar

/-!
# Plain scalars are read back

A plain scalar is read to its end and no further. `PlainSafe` is what the text of a plain scalar
has to satisfy for this, `StopsPlain` what has to follow it. Folding is undone because a line is
folded only at a single space between two words, which is what one line break stands for.
-/

namespace BundlePlan.Yaml

/-! ### Gaps -/

namespace Gap

@[simp] theorem text_empty : ({} : Gap).text = [] := rfl

@[simp] theorem space_breaks (g : Gap) : g.space.breaks = g.breaks := rfl

/-- The gap with `k` more spaces. -/
def spaced (g : Gap) (k : Nat) : Gap := { g with spaces := g.spaces + k }

theorem space_spaced (g : Gap) (k : Nat) : g.space.spaced k = g.spaced (k + 1) := by
  simp only [spaced, space, Nat.add_assoc, Nat.add_comm 1 k]

/-- A space before a line break counts as it is. -/
theorem text_space {g : Gap} (h : g.breaks = 0) : g.space.text = g.text ++ [' '] := by
  simp only [text, space_breaks, h, if_true]
  exact List.replicate_succ'

end Gap

/-- The gap of one line break with `k` spaces after it. -/
def foldGap (k : Nat) : Gap := { spaces := k, breaks := 1 }

theorem foldGap_text (k : Nat) : (foldGap k).text = [' '] := rfl

/-! ### Texts of plain scalars -/

/-- What makes a text readable without quotes. -/
structure PlainSafe (s : List Char) : Prop where
  noBreak : '\n' ∉ s
  noValue : hasValueIndicator s = false
  noComment : hasCommentIndicator s = false
  noLeading : hasLeadingIndicator s = false
  head : s.head? ≠ some ' '
  last : s.getLast? ≠ some ' '
  nonempty : s ≠ []

theorem plainSafe_of_allowsPlain {s : List Char} (h : allowsPlain s = true) : PlainSafe s := by
  simp only [allowsPlain, Bool.and_eq_true, Bool.not_eq_true', bne_iff_ne, ne_eq] at h
  obtain ⟨⟨⟨⟨⟨⟨⟨hne, hbreak⟩, hhead⟩, hlast⟩, -⟩, hlead⟩, hvalue⟩, hcomment⟩ := h
  refine ⟨?_, hvalue, hcomment, hlead, hhead, hlast, ?_⟩
  · intro hmem
    rw [List.contains_iff_mem.2 hmem] at hbreak
    exact absurd hbreak (by decide)
  · rintro rfl
    exact absurd hne (by decide)

/-- What a text says about its own tail: the two indicators that can stand inside. -/
theorem hasValueIndicator_cons {c : Char} {s : List Char}
    (h : hasValueIndicator (c :: s) = false) :
    (c = ':' → endsOrSpaces s = false) ∧ hasValueIndicator s = false := by
  simp only [hasValueIndicator, Bool.or_eq_false_iff, Bool.and_eq_false_imp, beq_iff_eq] at h
  exact h

theorem hasCommentIndicator_cons {c : Char} {s : List Char}
    (h : hasCommentIndicator (c :: s) = false) :
    (c = ' ' → s.head? ≠ some '#') ∧ hasCommentIndicator s = false := by
  simp only [hasCommentIndicator, Bool.or_eq_false_iff, Bool.and_eq_false_imp, beq_iff_eq] at h
  exact ⟨fun hc heq => by simp [heq] at h; exact absurd hc h.1, h.2⟩

/-! ### Reading -/

/-- What a plain scalar cannot go on with. -/
def StopsPlain (least : Nat) (rest : List Char) : Prop :=
  readPlain least {} rest rest = ([], rest)

theorem readPlain_spaces (least : Nat) (start t : List Char) (g : Gap) (k : Nat) :
    readPlain least g start (List.replicate k ' ' ++ t) = readPlain least (g.spaced k) start t := by
  induction k generalizing g with
  | zero => rfl
  | succ k ih =>
    rw [List.replicate_succ, List.cons_append, readPlain, if_pos rfl, ih, Gap.space_spaced]

/-- After a line break, spaces in the right number lead on with the scalar. -/
theorem readPlain_breakLine (least indent : Nat) (start t : List Char) :
    readPlain least {} start (breakLine indent ++ t)
      = readPlain least (foldGap indent) start t := by
  rw [breakLine, List.cons_append, readPlain, if_neg (by decide), if_pos rfl, readPlain_spaces]
  simp [Gap.newline, Gap.spaced, foldGap]

theorem plainFrom_cons_of_ne (m : Margin) (after : Bool) (column : Nat) {c : Char} (s : List Char)
    (h : c ≠ ' ') : plainFrom m after column (c :: s) = c :: plainFrom m false (column + 1) s := by
  rw [plainFrom, if_neg h]

/-- A word that goes on in the text goes on in the scalar as well. -/
theorem endsWord_plainFrom {s : List Char} (m : Margin) (after : Bool) (column : Nat)
    (rest : List Char) (hs : endsOrSpaces s = false) (hbreak : '\n' ∉ s) :
    endsWord (plainFrom m after column s ++ rest) = false := by
  cases s with
  | nil => simp [endsOrSpaces] at hs
  | cons d s =>
    have hd : d ≠ ' ' := by simpa [endsOrSpaces] using hs
    have hn : d ≠ '\n' := by
      rintro rfl
      exact hbreak List.mem_cons_self
    simp [plainFrom_cons_of_ne m after column s hd, endsWord, hd, hn]

/-- The gap before the rest `s` of a plain scalar: spaces, or the white space of a folded line. -/
structure PlainGap (least : Nat) (afterSpace : Bool) (g : Gap) (s : List Char) : Prop where
  shape : g.breaks = 0 ∨ (∃ k, least ≤ k ∧ g = foldGap k) ∧ s.head? ≠ some ' '
  empty : afterSpace = false → g = {}
  comment : g ≠ {} → s.head? ≠ some '#'

theorem PlainGap.start (least : Nat) (afterSpace : Bool) (s : List Char) :
    PlainGap least afterSpace {} s :=
  ⟨Or.inl rfl, fun _ => rfl, fun h => absurd rfl h⟩

theorem stopsPlain_eq_false {least : Nat} {afterSpace : Bool} {g : Gap} {c : Char}
    {s rest : List Char} (hg : PlainGap least afterSpace g (c :: s))
    (hc : c = ':' → endsWord rest = false) : stopsPlain least g c rest = false := by
  have hcomment : c = '#' → g = {} := fun h =>
    Decidable.byContradiction fun hne => hg.comment hne (by rw [h]; rfl)
  have hleast : g.breaks ≠ 0 → least ≤ g.spaces := by
    intro h
    rcases hg.shape with h0 | ⟨⟨k, hk, rfl⟩, -⟩
    · exact absurd h0 h
    · exact hk
  simp only [stopsPlain, Bool.or_eq_false_iff, Bool.and_eq_false_imp, beq_iff_eq, bne_iff_ne,
    ne_eq, decide_eq_false_iff_not, Nat.not_lt]
  refine ⟨⟨hc, ?_⟩, hleast⟩
  intro h
  rw [hcomment h]
  exact ⟨rfl, rfl⟩

/-- The rest of a plain scalar is read with the gap before it, up to what stops it. The induction
is on the text; `PlainGap` carries what the reader has not yet delivered. -/
theorem readPlain_plainFrom {m : Margin} {least : Nat} {rest : List Char}
    (hm : least ≤ m.indent) (hrest : StopsPlain least rest) {s : List Char} (hs : s ≠ [])
    (hbreak : '\n' ∉ s) (hvalue : hasValueIndicator s = false)
    (hcomment : hasCommentIndicator s = false) (hlast : s.getLast? ≠ some ' ')
    (afterSpace : Bool) (column : Nat) (g : Gap) (start : List Char)
    (hg : PlainGap least afterSpace g s) :
    readPlain least g start (plainFrom m afterSpace column s ++ rest) = (g.text ++ s, rest) := by
  induction s generalizing afterSpace column g start with
  | nil => exact absurd rfl hs
  | cons c s ih =>
    simp only [List.mem_cons, not_or] at hbreak
    obtain ⟨hcolon, hvalue'⟩ := hasValueIndicator_cons hvalue
    obtain ⟨hhash, hcomment'⟩ := hasCommentIndicator_cons hcomment
    have hlast' : s ≠ [] → s.getLast? ≠ some ' ' := fun hne => by
      rwa [List.getLast?_cons_of_ne_nil hne] at hlast
    by_cases hc : c = ' '
    · subst hc
      have hne : s ≠ [] := by
        rintro rfl
        exact hlast rfl
      have ih := ih hne hbreak.2 hvalue' hcomment' (hlast' hne)
      have h0 : g.breaks = 0 := by
        rcases hg.shape with h | ⟨-, h⟩
        · exact h
        · exact absurd rfl h
      rw [plainFrom, if_pos rfl]
      split
      · -- The line is folded: the space is the only one between two words.
        rename_i hfold
        simp only [isWordGap, Bool.and_eq_true, Bool.not_eq_true', bne_iff_ne, ne_eq] at hfold
        obtain ⟨⟨-, ⟨hspace, -⟩, hnext⟩, -⟩ := hfold
        obtain rfl := hg.empty hspace
        rw [List.append_assoc, readPlain_breakLine,
          ih true m.indent (foldGap m.indent) start
            ⟨Or.inr ⟨⟨_, hm, rfl⟩, hnext⟩, fun h => absurd h (by decide), fun _ => hhash rfl⟩,
          foldGap_text]
        rfl
      · rw [List.cons_append, readPlain, if_pos rfl,
          ih true (column + 1) g.space start
            ⟨Or.inl h0, fun h => absurd h (by decide), fun _ => hhash rfl⟩,
          Gap.text_space h0, List.append_assoc]
        rfl
    · have hstop : stopsPlain least g c (plainFrom m false (column + 1) s ++ rest) = false :=
        stopsPlain_eq_false hg fun h => endsWord_plainFrom m _ _ rest (hcolon h) hbreak.2
      rw [plainFrom_cons_of_ne m _ _ s hc, List.cons_append, readPlain, if_neg hc,
        if_neg (Ne.symm hbreak.1), if_neg (by rw [hstop]; decide)]
      cases s with
      | nil =>
        rw [plainFrom, List.nil_append, hrest]
      | cons d s =>
        rw [ih (by simp) hbreak.2 hvalue' hcomment' (hlast' (by simp)) false (column + 1) {} _
          (PlainGap.start _ _ _)]
        rfl

end BundlePlan.Yaml
