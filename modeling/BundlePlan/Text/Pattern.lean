/-!
# Patterns over characters

Regular patterns, the texts they match (`Matches`) and a matcher (`accepts`) that works by
derivatives: `after c p` matches what may follow `c` in a text that `p` matches. The main
statement is `accepts_iff`: the matcher accepts exactly the texts that match.
-/

namespace BundlePlan.Text

/-- A regular pattern. -/
inductive Pattern where
  /-- Matches no text at all. -/
  | nothing
  /-- Matches the empty text. -/
  | nil
  /-- Matches one character of a class. -/
  | one (inClass : Char → Bool)
  /-- Matches what one of two patterns matches. -/
  | either (p q : Pattern)
  /-- Matches a text of the first pattern followed by one of the second. -/
  | andThen (p q : Pattern)
  /-- Matches any number of texts of a pattern in a row. -/
  | many (p : Pattern)

namespace Pattern

/-- The texts that a pattern matches. -/
def Matches : Pattern → List Char → Prop
  | nothing, _ => False
  | nil, s => s = []
  | one inClass, s => ∃ c, inClass c = true ∧ s = [c]
  | either p q, s => p.Matches s ∨ q.Matches s
  | andThen p q, s => ∃ a b, s = a ++ b ∧ p.Matches a ∧ q.Matches b
  | many p, s => ∃ parts : List (List Char), s = parts.flatten ∧ ∀ a ∈ parts, p.Matches a

/-! ### Building patterns -/

/-- A given character. -/
def char (c : Char) : Pattern := one (· == c)

/-- One character out of a text. -/
def oneOf (cs : String) : Pattern := one (cs.toList.contains ·)

/-- An ASCII digit. -/
def digit : Pattern := one Char.isDigit

/-- The patterns one after the other. -/
def inOrder : List Pattern → Pattern
  | [] => nil
  | [p] => p
  | p :: q :: ps => andThen p (inOrder (q :: ps))

/-- Any of the patterns. -/
def anyOf : List Pattern → Pattern
  | [] => nothing
  | [p] => p
  | p :: q :: ps => either p (anyOf (q :: ps))

/-- A text as it stands. -/
def word (s : String) : Pattern := inOrder (s.toList.map char)

/-- The pattern or nothing. -/
def optional (p : Pattern) : Pattern := either nil p

/-- The pattern at least once. -/
def atLeastOnce (p : Pattern) : Pattern := andThen p (many p)

/-- The pattern exactly `n` times. -/
def times (n : Nat) (p : Pattern) : Pattern := inOrder (List.replicate n p)

/-! ### Matching -/

/-- Whether the pattern matches the empty text. -/
def matchesNil : Pattern → Bool
  | nothing => false
  | nil => true
  | one _ => false
  | either p q => p.matchesNil || q.matchesNil
  | andThen p q => p.matchesNil && q.matchesNil
  | many _ => true

/-- Either of two patterns, without alternatives that match nothing. -/
def orElse : Pattern → Pattern → Pattern
  | nothing, q => q
  | p, nothing => p
  | p, q => either p q

/-- Two patterns in a row, without parts that can be left out. -/
def thenAlso : Pattern → Pattern → Pattern
  | nothing, _ => nothing
  | nil, q => q
  | p, q => andThen p q

/-- What may follow `c` in the texts of the pattern that start with `c`. -/
def after (c : Char) : Pattern → Pattern
  | nothing => nothing
  | nil => nothing
  | one inClass => if inClass c then nil else nothing
  | either p q => orElse (p.after c) (q.after c)
  | andThen p q =>
    if p.matchesNil then orElse (thenAlso (p.after c) q) (q.after c) else thenAlso (p.after c) q
  | many p => thenAlso (p.after c) (many p)

/-- Whether the pattern matches the whole text. -/
def accepts : Pattern → List Char → Bool
  | p, [] => p.matchesNil
  | p, c :: cs => (p.after c).accepts cs

/-! ### The matcher is right -/

theorem matchesNil_iff (p : Pattern) : p.matchesNil = true ↔ p.Matches [] := by
  induction p with
  | nothing => simp [matchesNil, Matches]
  | nil => simp [matchesNil, Matches]
  | one inClass => simp [matchesNil, Matches]
  | either p q ihp ihq => simp [matchesNil, Matches, ihp, ihq]
  | andThen p q ihp ihq =>
    simp only [matchesNil, Bool.and_eq_true, ihp, ihq, Matches]
    constructor
    · rintro ⟨hp, hq⟩
      exact ⟨[], [], rfl, hp, hq⟩
    · rintro ⟨a, b, hab, hp, hq⟩
      obtain ⟨rfl, rfl⟩ := List.append_eq_nil_iff.1 hab.symm
      exact ⟨hp, hq⟩
  | many p _ => exact ⟨fun _ => ⟨[], rfl, by simp⟩, fun _ => rfl⟩

theorem matches_orElse (p q : Pattern) (s : List Char) :
    (orElse p q).Matches s ↔ p.Matches s ∨ q.Matches s := by
  cases p <;> cases q <;> simp [orElse, Matches]

theorem matches_thenAlso (p q : Pattern) (s : List Char) :
    (thenAlso p q).Matches s ↔ (andThen p q).Matches s := by
  cases p with
  | nil => exact ⟨fun h => ⟨[], s, rfl, rfl, h⟩, by rintro ⟨_, _, rfl, rfl, h⟩; exact h⟩
  | _ => simp [thenAlso, Matches]

/-- A nonempty text of `andThen p q` takes its first character from `p`, or from `q` when `p`
matches the empty text. -/
theorem matches_andThen_cons (p q : Pattern) (c : Char) (s : List Char) :
    (andThen p q).Matches (c :: s) ↔
      (∃ a b, s = a ++ b ∧ p.Matches (c :: a) ∧ q.Matches b) ∨
        (p.Matches [] ∧ q.Matches (c :: s)) := by
  simp only [Matches]
  constructor
  · rintro ⟨a, b, h, hp, hq⟩
    cases a with
    | nil => exact Or.inr ⟨hp, by simpa [h] using hq⟩
    | cons d a =>
      obtain ⟨rfl, rfl⟩ := List.cons.inj h
      exact Or.inl ⟨a, b, rfl, hp, hq⟩
  · rintro (⟨a, b, rfl, hp, hq⟩ | ⟨hp, hq⟩)
    · exact ⟨c :: a, b, rfl, hp, hq⟩
    · exact ⟨[], c :: s, rfl, hp, hq⟩

/-- A nonempty text of `many p` starts with a nonempty text of `p`. -/
theorem matches_many_cons (p : Pattern) (c : Char) (s : List Char) :
    (many p).Matches (c :: s) ↔
      ∃ a b, s = a ++ b ∧ p.Matches (c :: a) ∧ (many p).Matches b := by
  simp only [Matches]
  constructor
  · rintro ⟨parts, h, hparts⟩
    induction parts with
    | nil => simp at h
    | cons part parts ih =>
      cases part with
      | nil => exact ih (by simpa using h) fun a ha => hparts a (List.mem_cons_of_mem _ ha)
      | cons d part =>
        obtain ⟨rfl, rfl⟩ := List.cons.inj h
        exact ⟨part, parts.flatten, rfl, hparts _ List.mem_cons_self, parts, rfl,
          fun a ha => hparts a (List.mem_cons_of_mem _ ha)⟩
  · rintro ⟨a, b, rfl, ha, parts, rfl, hparts⟩
    exact ⟨(c :: a) :: parts, rfl, by simpa using ⟨ha, hparts⟩⟩

theorem matches_after (p : Pattern) (c : Char) (s : List Char) :
    (p.after c).Matches s ↔ p.Matches (c :: s) := by
  induction p generalizing s with
  | nothing => simp [after, Matches]
  | nil => simp [after, Matches]
  | one inClass =>
    by_cases h : inClass c = true
    · have hrest : s = [] ↔ ∃ d, inClass d = true ∧ c = d ∧ s = [] := by
        constructor
        · exact fun hs => ⟨c, h, rfl, hs⟩
        · rintro ⟨_, _, _, hs⟩
          exact hs
      simp only [after, Matches, h, if_true, List.cons.injEq]
      exact hrest
    · simp only [after, Matches, if_neg h, List.cons.injEq, false_iff]
      rintro ⟨_, hd, rfl, _⟩
      exact h hd
  | either p q ihp ihq => simp [after, matches_orElse, ihp, ihq, Matches]
  | andThen p q ihp ihq =>
    rw [matches_andThen_cons, after]
    by_cases h : p.matchesNil = true
    · simp [h, matches_orElse, matches_thenAlso, Matches, ihp, ihq, ← matchesNil_iff]
    · simp [h, matches_thenAlso, Matches, ihp, ← matchesNil_iff]
  | many p ih =>
    rw [matches_many_cons, after, matches_thenAlso]
    simp only [Matches, ih]

/-- The matcher accepts exactly the texts that match. -/
theorem accepts_iff (p : Pattern) (s : List Char) : p.accepts s = true ↔ p.Matches s := by
  induction s generalizing p with
  | nil => exact matchesNil_iff p
  | cons c s ih => rw [accepts, ih, matches_after]

end Pattern

end BundlePlan.Text
