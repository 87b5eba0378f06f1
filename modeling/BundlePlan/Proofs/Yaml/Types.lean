import BundlePlan.Proofs.Yaml.Leaf
import BundlePlan.Yaml.Reading.Node

/-!
# The types of words

The words that are written for null, the truth values and the integers have the types that they
are read with. A text is plain only if its spelling has no other type. For integers this takes the
patterns apart: no truth value starts like a number, a number with a fraction has a dot, and the
digits of a number do not start with a zero unless it is zero.
-/

namespace BundlePlan

namespace Text.Pattern

theorem matches_inOrder_cons (p : Pattern) (ps : List Pattern) (s : List Char) :
    (inOrder (p :: ps)).Matches s ↔ ∃ a b, s = a ++ b ∧ p.Matches a ∧ (inOrder ps).Matches b := by
  cases ps with
  | nil => simp [inOrder, Matches]
  | cons q ps => exact Iff.rfl

theorem matches_anyOf (ps : List Pattern) (s : List Char) :
    (anyOf ps).Matches s ↔ ∃ p ∈ ps, p.Matches s := by
  induction ps with
  | nil => simp [anyOf, Matches]
  | cons p ps ih =>
    cases ps with
    | nil => simp [anyOf]
    | cons q ps =>
      have hor : (anyOf (p :: q :: ps)).Matches s ↔ p.Matches s ∨ (anyOf (q :: ps)).Matches s :=
        Iff.rfl
      rw [hor, ih]
      simp only [List.mem_cons, exists_eq_or_imp]

/-- A text of a row of patterns has a character that one of them is. -/
theorem mem_of_matches_inOrder {c : Char} {ps : List Pattern} (hc : char c ∈ ps) {s : List Char}
    (h : (inOrder ps).Matches s) : c ∈ s := by
  induction ps generalizing s with
  | nil => exact absurd hc List.not_mem_nil
  | cons p ps ih =>
    obtain ⟨a, b, rfl, ha, hb⟩ := (matches_inOrder_cons p ps s).1 h
    rcases List.mem_cons.1 hc with rfl | hc
    · obtain ⟨d, hd, rfl⟩ := ha
      obtain rfl : d = c := beq_iff_eq.1 hd
      exact List.mem_append_left b List.mem_cons_self
    · exact List.mem_append_right a (ih hc hb)

theorem matches_word (s : String) (t : List Char) : (word s).Matches t ↔ t = s.toList := by
  unfold word
  generalize s.toList = cs
  induction cs generalizing t with
  | nil => exact Iff.rfl
  | cons c cs ih =>
    rw [List.map_cons, matches_inOrder_cons]
    constructor
    · rintro ⟨a, b, rfl, ⟨d, hd, rfl⟩, hb⟩
      obtain rfl : d = c := beq_iff_eq.1 hd
      rw [(ih b).1 hb]
      rfl
    · rintro rfl
      exact ⟨[c], cs, rfl, ⟨c, beq_self_eq_true c, rfl⟩, (ih cs).2 rfl⟩

end Text.Pattern

namespace Yaml

open Text Text.Pattern

/-! ### Integers -/

theorem digitChar_ne_zero : ∀ d, d < 10 → 0 < d → d.digitChar ≠ '0' := by
  decide

/-- The digits of a positive number do not start with a zero. -/
theorem toDigits_head {n : Nat} (hn : 0 < n) : (Nat.toDigits 10 n).head? ≠ some '0' := by
  induction n using Nat.strongRecOn with
  | ind n ih =>
    rw [Nat.toDigits_eq_if (by decide)]
    split
    · rename_i hlt
      exact fun h => digitChar_ne_zero n hlt hn (Option.some.inj h)
    · rename_i hlt
      have hhead := ih (n / 10) (by omega) (by omega)
      obtain ⟨d, ds, hdigits⟩ :=
        List.exists_cons_of_ne_nil (Nat.toDigits_ne_nil (n := n / 10) (b := 10))
      rw [hdigits] at hhead ⊢
      exact hhead

theorem mem_toDigits {n : Nat} {c : Char} (h : c ∈ Nat.toDigits 10 n) : c.isDigit = true :=
  Nat.isDigit_of_mem_toDigits (by decide) (by decide) h

theorem exists_of_isDigit {c : Char} (h : c.isDigit = true) :
    ∃ k, k < 10 ∧ c = Char.ofNat (48 + k) := by
  simp only [Char.isDigit, Bool.and_eq_true, decide_eq_true_eq, ge_iff_le,
    UInt32.le_iff_toNat_le] at h
  have hlow : '0'.val.toNat = 48 := rfl
  have hhigh : '9'.val.toNat = 57 := rfl
  have hc : c.toNat = c.val.toNat := rfl
  refine ⟨c.toNat - 48, by omega, ?_⟩
  rw [Nat.add_sub_cancel' (by omega), Char.ofNat_toNat]

theorem mem_digits_of_isDigit {c : Char} (h : c.isDigit = true) :
    c ∈ "0123456789_".toList ∧ (c ≠ '0' → c ∈ "123456789".toList) := by
  have hall : ∀ k, k < 10 → Char.ofNat (48 + k) ∈ "0123456789_".toList ∧
      (Char.ofNat (48 + k) ≠ '0' → Char.ofNat (48 + k) ∈ "123456789".toList) := by
    decide
  obtain ⟨k, hk, rfl⟩ := exists_of_isDigit h
  exact hall k hk

/-- The digits of a number are matched by the pattern of decimal integers. -/
theorem matches_toDigits (n : Nat) :
    (either (char '0') (andThen (oneOf "123456789") ScalarType.digits)).Matches
      (Nat.toDigits 10 n) := by
  rcases Nat.eq_zero_or_pos n with rfl | hn
  · exact Or.inl ⟨'0', by decide, rfl⟩
  · obtain ⟨d, ds, hdigits⟩ := List.exists_cons_of_ne_nil (Nat.toDigits_ne_nil (n := n) (b := 10))
    have hhead := toDigits_head hn
    have hall : ∀ c ∈ d :: ds, c.isDigit = true := fun c hc => mem_toDigits (hdigits ▸ hc)
    rw [hdigits] at hhead ⊢
    have hd :=
      (mem_digits_of_isDigit (hall d List.mem_cons_self)).2 fun h => hhead (congrArg some h)
    have hflat : ds = (ds.map fun c => [c]).flatten := (List.flatMap_singleton' ds).symm
    refine Or.inr ⟨[d], ds, rfl, ⟨d, List.contains_iff_mem.2 hd, rfl⟩, ds.map fun c => [c], hflat,
      ?_⟩
    · intro a ha
      obtain ⟨c, hc, rfl⟩ := List.mem_map.1 ha
      have hmem := (mem_digits_of_isDigit (hall c (List.mem_cons_of_mem d hc))).1
      exact ⟨c, List.contains_iff_mem.2 hmem, rfl⟩

theorem matches_intText (n : Int) : ScalarType.intPattern.Matches (Value.intText n) := by
  refine (matches_anyOf _ _).2 ⟨.inOrder [ScalarType.sign,
    .either (.char '0') (.andThen (.oneOf "123456789") ScalarType.digits)], by simp, ?_⟩
  have hdigits := matches_toDigits n.natAbs
  unfold Value.intText
  split
  · exact ⟨['-'], _, rfl, Or.inr ⟨'-', by decide, rfl⟩, hdigits⟩
  · exact ⟨[], _, rfl, Or.inl rfl, hdigits⟩

/-- Every number with a fraction has a dot. -/
theorem not_matches_float {s : List Char} (h : '.' ∉ s) : ¬ScalarType.floatPattern.Matches s := by
  intro hmatch
  -- each of the forms of such a number has the dot as a part
  obtain ⟨p, hp, hs⟩ := (matches_anyOf _ _).1 hmatch
  simp only [List.mem_cons, List.not_mem_nil, or_false] at hp
  rcases hp with rfl | rfl | rfl | rfl | rfl
  all_goals exact h (mem_of_matches_inOrder (by simp) hs)

/-- No truth value starts like a number. -/
theorem not_matches_bool {c : Char} {s : List Char} (h : c = '-' ∨ c.isDigit = true) :
    ¬ScalarType.boolPattern.Matches (c :: s) := by
  intro hmatch
  obtain ⟨p, hp, hs⟩ := (matches_anyOf _ _).1 hmatch
  obtain ⟨w, hw, rfl⟩ := List.mem_map.1 hp
  have hall : ∀ w ∈ ["yes", "Yes", "YES", "no", "No", "NO", "true", "True", "TRUE", "false",
      "False", "FALSE", "on", "On", "ON", "off", "Off", "OFF"],
      '-' ∉ w.toList ∧ w.toList.all (fun c => !c.isDigit) = true := by
    decide
  have hc : c ∈ w.toList := (matches_word w _).1 hs ▸ List.mem_cons_self
  rcases h with rfl | h
  · exact (hall w hw).1 hc
  · exact not_mem_of_isDigit h (hall w hw).2 hc

theorem ofPlain_intText (n : Int) : ScalarType.ofPlain (Value.intText n) = .int := by
  have hdot : '.' ∉ Value.intText n := by
    intro h
    rcases mem_intText h with h | h <;> exact absurd h (by decide)
  have hbool : ScalarType.boolPattern.accepts (Value.intText n) = false := by
    rw [Bool.eq_false_iff, Ne, accepts_iff]
    obtain ⟨d, ds, hd, -, h | h⟩ := intText_shape n
    · rw [h]
      exact not_matches_bool (Or.inr hd)
    · rw [h]
      exact not_matches_bool (Or.inl rfl)
  have hfloat : ScalarType.floatPattern.accepts (Value.intText n) = false := by
    rw [Bool.eq_false_iff, Ne, accepts_iff]
    exact not_matches_float hdot
  have hint : ScalarType.intPattern.accepts (Value.intText n) = true :=
    (accepts_iff _ _).2 (matches_intText n)
  -- the patterns are tried in order: truth values and fractions come before integers
  unfold ScalarType.ofPlain ScalarType.patterns
  rw [List.find?_cons, hbool, List.find?_cons, hfloat, List.find?_cons, hint]

theorem decimal?_toDigits (n : Nat) : decimal? (Nat.toDigits 10 n) = some n := by
  have hall : (Nat.toDigits 10 n).all Char.isDigit = true :=
    List.all_eq_true.2 fun c hc => mem_toDigits hc
  have hzero : ((Nat.toDigits 10 n).head? == some '0' && Nat.toDigits 10 n != ['0']) = false := by
    rcases Nat.eq_zero_or_pos n with rfl | hn
    · decide
    · rw [beq_eq_false_iff_ne.2 (toDigits_head hn), Bool.false_and]
  have hempty : (Nat.toDigits 10 n).isEmpty = false := by
    rw [Bool.eq_false_iff, Ne, List.isEmpty_iff]
    exact Nat.toDigits_ne_nil
  rw [decimal?, hall, hzero, hempty, if_neg (by decide), Nat.ofDigitChars_ten_toDigits]

/-- An integer is read back. -/
theorem integer?_intText (n : Int) : integer? (Value.intText n) = some n := by
  have hdecimal := decimal?_toDigits n.natAbs
  unfold Value.intText
  split
  · rw [integer?, hdecimal]
    exact congrArg some (show -(n.natAbs : Int) = n by omega)
  · obtain ⟨d, ds, hdigits⟩ :=
      List.exists_cons_of_ne_nil (Nat.toDigits_ne_nil (n := n.natAbs) (b := 10))
    have hd : d.isDigit = true := mem_toDigits (n := n.natAbs) (hdigits ▸ List.mem_cons_self)
    rw [hdigits] at hdecimal ⊢
    unfold integer?
    split
    · rename_i heq
      rw [(List.cons.inj heq).1] at hd
      exact absurd hd (by decide)
    · rename_i heq
      rw [(List.cons.inj heq).1] at hd
      exact absurd hd (by decide)
    · rw [hdecimal]
      exact congrArg some (show (n.natAbs : Int) = n by omega)

/-! ### Values -/

/-- A word is read as its value. -/
theorem plainValue?_word {v : Value} (hv : isPlainWord v = true) :
    plainValue? (word v) = some v := by
  cases v with
  | null => rfl
  | bool b => cases b <;> rfl
  | int n => rw [word, plainValue?, ofPlain_intText, integer?_intText]; rfl
  | _ => exact absurd hv Bool.false_ne_true

theorem plainValue?_text {s : List Char} (h : Style.ofText s = .plain) :
    plainValue? s = some (.text (String.ofList s)) := by
  unfold Style.ofText at h
  split at h
  · exact absurd h (by decide)
  · split at h
    · rename_i hplain
      rw [plainValue?, beq_iff_eq.1 (Bool.and_eq_true_iff.1 hplain).2]
    · exact absurd h (by decide)

/-- A scalar of a text is read as a text. -/
theorem value?_textScalar (indent : Nat) (s : List Char) :
    Scalar.value? ⟨Style.ofText s, textBack indent s⟩
      = some (.text (String.ofList (textBack indent s))) := by
  cases hstyle : Style.ofText s with
  | plain =>
    rw [textBack_of_ne (by rw [hstyle]; decide)]
    exact plainValue?_text hstyle
  | single => rfl
  | double => rfl

end Yaml

end BundlePlan
