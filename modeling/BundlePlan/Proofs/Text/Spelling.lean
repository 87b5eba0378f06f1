import BundlePlan.Text.Pattern

/-!
# What patterns can spell

Whether some text over an alphabet matches a pattern, and whether one does that has a given
character in it, is computed from the pattern (`spells`, `spellsWith`). That no such text matches a
pattern is then a matter of evaluation, also for what is left of the pattern after a fixed start
(`afterText`). The other way round, a pattern tells which characters its texts are made of
(`Draws`) and which they cannot do without (`Needs`).
-/

namespace BundlePlan.Text.Pattern

/-! ### Equations -/

theorem matches_char (c : Char) (s : List Char) : (char c).Matches s ↔ s = [c] := by
  constructor
  · intro h
    obtain ⟨d, hd, rfl⟩ := h
    rw [beq_iff_eq.1 hd]
  · rintro rfl
    exact ⟨c, beq_self_eq_true c, rfl⟩

theorem matches_oneOf (cs : String) (s : List Char) :
    (oneOf cs).Matches s ↔ ∃ c ∈ cs.toList, s = [c] := by
  simp only [oneOf, Matches, List.contains_iff_mem]

/-- Any number of characters of a class. -/
theorem matches_many_one (inClass : Char → Bool) (s : List Char) :
    (many (one inClass)).Matches s ↔ ∀ c ∈ s, inClass c = true := by
  constructor
  · intro h c hc
    obtain ⟨parts, rfl, hparts⟩ := h
    obtain ⟨part, hpart, hc⟩ := List.mem_flatten.1 hc
    obtain ⟨d, hd, rfl⟩ := hparts part hpart
    rwa [List.mem_singleton.1 hc]
  · intro h
    refine ⟨s.map fun c => [c], (List.flatMap_singleton' s).symm, fun part hpart => ?_⟩
    obtain ⟨c, hc, rfl⟩ := List.mem_map.1 hpart
    exact ⟨c, h c hc, rfl⟩

/-- At least one character of a class. -/
theorem matches_atLeastOnce_one (inClass : Char → Bool) (s : List Char) :
    (atLeastOnce (one inClass)).Matches s ↔ s ≠ [] ∧ ∀ c ∈ s, inClass c = true := by
  constructor
  · intro h
    obtain ⟨a, b, rfl, ⟨c, hc, rfl⟩, hb⟩ := h
    refine ⟨by simp, ?_⟩
    rw [List.singleton_append, List.forall_mem_cons]
    exact ⟨hc, (matches_many_one inClass b).1 hb⟩
  · rintro ⟨hne, h⟩
    obtain ⟨c, s, rfl⟩ := List.exists_cons_of_ne_nil hne
    obtain ⟨hc, hs⟩ := List.forall_mem_cons.1 h
    exact ⟨[c], s, rfl, ⟨c, hc, rfl⟩, (matches_many_one inClass s).2 hs⟩

/-! ### After a start -/

/-- What may follow a start in the texts of the pattern. -/
def afterText (p : Pattern) (start : List Char) : Pattern := start.foldl (fun p c => p.after c) p

theorem matches_afterText (p : Pattern) (start s : List Char) :
    (p.afterText start).Matches s ↔ p.Matches (start ++ s) := by
  induction start generalizing p with
  | nil => exact Iff.rfl
  | cons c start ih => exact (ih (p.after c)).trans (matches_after p c (start ++ s))

/-! ### Texts over an alphabet -/

variable {alphabet : List Char} {c : Char} {s : List Char}

/-- Whether a text over the alphabet matches. -/
def spells (alphabet : List Char) : Pattern → Bool
  | nothing => false
  | nil => true
  | one inClass => alphabet.any inClass
  | either p q => p.spells alphabet || q.spells alphabet
  | andThen p q => p.spells alphabet && q.spells alphabet
  | many _ => true

/-- Whether a text over the alphabet matches that has `c` in it. -/
def spellsWith (alphabet : List Char) (c : Char) : Pattern → Bool
  | nothing => false
  | nil => false
  | one inClass => inClass c
  | either p q => p.spellsWith alphabet c || q.spellsWith alphabet c
  | andThen p q =>
    (p.spellsWith alphabet c && q.spells alphabet)
      || (p.spells alphabet && q.spellsWith alphabet c)
  | many p => p.spellsWith alphabet c

theorem spells_of_matches {p : Pattern} (h : p.Matches s) (hs : ∀ d ∈ s, d ∈ alphabet) :
    p.spells alphabet = true := by
  induction p generalizing s with
  | nothing => exact h.elim
  | nil => rfl
  | one inClass =>
    obtain ⟨d, hd, rfl⟩ := h
    exact List.any_eq_true.2 ⟨d, hs d List.mem_cons_self, hd⟩
  | either p q ihp ihq =>
    rw [spells, Bool.or_eq_true]
    exact h.imp (fun h => ihp h hs) fun h => ihq h hs
  | andThen p q ihp ihq =>
    obtain ⟨a, b, rfl, ha, hb⟩ := h
    obtain ⟨hsa, hsb⟩ := List.forall_mem_append.1 hs
    rw [spells, ihp ha hsa, ihq hb hsb]
    rfl
  | many p _ => rfl

theorem spellsWith_of_matches {p : Pattern} (h : p.Matches s) (hs : ∀ d ∈ s, d ∈ alphabet)
    (hc : c ∈ s) : p.spellsWith alphabet c = true := by
  induction p generalizing s with
  | nothing => exact h.elim
  | nil =>
    obtain rfl : s = [] := h
    exact absurd hc List.not_mem_nil
  | one inClass =>
    obtain ⟨d, hd, rfl⟩ := h
    rwa [spellsWith, List.mem_singleton.1 hc]
  | either p q ihp ihq =>
    rw [spellsWith, Bool.or_eq_true]
    exact h.imp (fun h => ihp h hs hc) fun h => ihq h hs hc
  | andThen p q ihp ihq =>
    obtain ⟨a, b, rfl, ha, hb⟩ := h
    obtain ⟨hsa, hsb⟩ := List.forall_mem_append.1 hs
    rw [spellsWith, Bool.or_eq_true, Bool.and_eq_true, Bool.and_eq_true]
    rcases List.mem_append.1 hc with hc | hc
    · exact Or.inl ⟨ihp ha hsa hc, spells_of_matches hb hsb⟩
    · exact Or.inr ⟨spells_of_matches ha hsa, ihq hb hsb hc⟩
  | many p ih =>
    obtain ⟨parts, rfl, hparts⟩ := h
    obtain ⟨part, hpart, hc⟩ := List.mem_flatten.1 hc
    exact ih (hparts part hpart) (fun d hd => hs d (List.mem_flatten_of_mem hpart hd)) hc

/-! ### Characters of texts -/

/-- All characters in the texts of the pattern have the property. -/
def Draws (P : Char → Prop) : Pattern → Prop
  | nothing => True
  | nil => True
  | one inClass => ∀ c, inClass c = true → P c
  | either p q => p.Draws P ∧ q.Draws P
  | andThen p q => p.Draws P ∧ q.Draws P
  | many p => p.Draws P

/-- Every text of the pattern has a character with the property. -/
def Needs (P : Char → Prop) : Pattern → Prop
  | nothing => True
  | nil => False
  | one inClass => ∀ c, inClass c = true → P c
  | either p q => p.Needs P ∧ q.Needs P
  | andThen p q => p.Needs P ∨ q.Needs P
  | many _ => False

variable {P : Char → Prop}

theorem Draws.forall_mem {p : Pattern} (h : p.Draws P) (hs : p.Matches s) : ∀ c ∈ s, P c := by
  induction p generalizing s with
  | nothing => exact hs.elim
  | nil =>
    obtain rfl : s = [] := hs
    exact List.forall_mem_nil P
  | one inClass =>
    obtain ⟨c, hc, rfl⟩ := hs
    exact List.forall_mem_singleton.2 (h c hc)
  | either p q ihp ihq =>
    rcases hs with hs | hs
    · exact ihp h.1 hs
    · exact ihq h.2 hs
  | andThen p q ihp ihq =>
    obtain ⟨a, b, rfl, ha, hb⟩ := hs
    exact List.forall_mem_append.2 ⟨ihp h.1 ha, ihq h.2 hb⟩
  | many p ih =>
    obtain ⟨parts, rfl, hparts⟩ := hs
    intro c hc
    obtain ⟨part, hpart, hc⟩ := List.mem_flatten.1 hc
    exact ih h (hparts part hpart) c hc

theorem Needs.exists_mem {p : Pattern} (h : p.Needs P) (hs : p.Matches s) : ∃ c ∈ s, P c := by
  induction p generalizing s with
  | nothing => exact hs.elim
  | nil => exact h.elim
  | one inClass =>
    obtain ⟨c, hc, rfl⟩ := hs
    exact ⟨c, List.mem_singleton_self c, h c hc⟩
  | either p q ihp ihq =>
    rcases hs with hs | hs
    · exact ihp h.1 hs
    · exact ihq h.2 hs
  | andThen p q ihp ihq =>
    obtain ⟨a, b, rfl, ha, hb⟩ := hs
    rcases h with h | h
    · obtain ⟨c, hc, hP⟩ := ihp h ha
      exact ⟨c, List.mem_append_left b hc, hP⟩
    · obtain ⟨c, hc, hP⟩ := ihq h hb
      exact ⟨c, List.mem_append_right a hc, hP⟩
  | many p _ => exact h.elim

@[simp] theorem draws_inOrder (ps : List Pattern) :
    (inOrder ps).Draws P ↔ ∀ p ∈ ps, p.Draws P := by
  induction ps with
  | nil => simp [inOrder, Draws]
  | cons p ps ih =>
    cases ps with
    | nil => simp [inOrder]
    | cons q ps => simp only [inOrder, Draws, ih, List.mem_cons, forall_eq_or_imp]

@[simp] theorem needs_inOrder (ps : List Pattern) :
    (inOrder ps).Needs P ↔ ∃ p ∈ ps, p.Needs P := by
  induction ps with
  | nil => simp [inOrder, Needs]
  | cons p ps ih =>
    cases ps with
    | nil => simp [inOrder]
    | cons q ps => simp only [inOrder, Needs, ih, List.mem_cons, exists_eq_or_imp]

@[simp] theorem draws_oneOf (cs : String) : (oneOf cs).Draws P ↔ ∀ c ∈ cs.toList, P c := by
  simp only [oneOf, Draws, List.contains_iff_mem]

@[simp] theorem needs_oneOf (cs : String) : (oneOf cs).Needs P ↔ ∀ c ∈ cs.toList, P c :=
  draws_oneOf cs

@[simp] theorem draws_char (c : Char) : (char c).Draws P ↔ P c := by
  simp [char, Draws]

@[simp] theorem draws_optional (p : Pattern) : p.optional.Draws P ↔ p.Draws P := by
  simp [optional, Draws]

@[simp] theorem draws_many (p : Pattern) : (many p).Draws P ↔ p.Draws P := Iff.rfl

@[simp] theorem draws_atLeastOnce (p : Pattern) : p.atLeastOnce.Draws P ↔ p.Draws P := by
  simp [atLeastOnce, Draws]

@[simp] theorem needs_atLeastOnce (p : Pattern) : p.atLeastOnce.Needs P ↔ p.Needs P := by
  simp [atLeastOnce, Needs]

end BundlePlan.Text.Pattern
