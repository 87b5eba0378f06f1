import BundlePlan.Manifest.Resource
import BundlePlan.Proofs.Text.Spelling
import BundlePlan.Proofs.Value.Parts
import BundlePlan.Proofs.Yaml.RoundTrip

/-!
# Texts that other readers take for numbers

A text is written plain if no pattern of YAML 1.1 gives it another type. The core schema of
YAML 1.2 has numbers that none of these patterns has (`overlooked`): it asks for no dot and no sign
where there is an exponent, allows a sign right before a dot, and writes octal numbers in another
way. Exactly these numbers are written plain although a reader by the core schema takes them for
numbers.

To see this the numbers of the core schema are taken apart. Those of the overlooked forms match none
of the patterns because each form has a shape, by its start and the characters after that, and what
the patterns can spell of a shape is a matter of evaluation.
-/

namespace BundlePlan.Yaml

open Text Text.Pattern

/-! ### Numbers -/

/-- A decimal exponent, with or without a sign. -/
def coreExponent : Pattern := .inOrder [.oneOf "eE", ScalarType.sign, .atLeastOnce .digit]

/-- The numbers of the core schema of YAML 1.2: decimal numbers with and without a fraction, octal
and hexadecimal numbers. -/
def coreNumber : Pattern :=
  .anyOf [
    .inOrder [ScalarType.sign,
      .either (.inOrder [.char '.', .atLeastOnce .digit])
        (.inOrder [.atLeastOnce .digit, .optional (.inOrder [.char '.', .many .digit])]),
      .optional coreExponent],
    .inOrder [.word "0o", .atLeastOnce (.oneOf "01234567")],
    .inOrder [.word "0x", .atLeastOnce (.oneOf "0123456789abcdefABCDEF")]]

/-- A decimal exponent without a sign. -/
def bareExponent : Pattern := .inOrder [.oneOf "eE", .atLeastOnce .digit]

/-- An octal number. -/
def octalNumber : Pattern := .inOrder [.word "0o", .atLeastOnce (.oneOf "01234567")]

/-- A whole number that starts with a zero and has a digit that no octal number has. -/
def zeroLedNumber : Pattern :=
  .inOrder [ScalarType.sign, .char '0', .many .digit, .oneOf "89", .many .digit]

/-- A whole number with an exponent. -/
def wholeWithExponent : Pattern := .inOrder [ScalarType.sign, .atLeastOnce .digit, coreExponent]

/-- A fraction whose exponent has no sign. -/
def fractionWithBareExponent : Pattern :=
  .inOrder [ScalarType.sign, .atLeastOnce .digit, .char '.', .many .digit, bareExponent]

/-- A fraction with nothing before the dot, whose exponent has no sign. -/
def dotWithBareExponent : Pattern := .inOrder [.char '.', .atLeastOnce .digit, bareExponent]

/-- A fraction with nothing but a sign before the dot. -/
def signedDot : Pattern :=
  .inOrder [.oneOf "-+", .char '.', .atLeastOnce .digit, .optional coreExponent]

/-- The numbers of the core schema that no pattern of YAML 1.1 has. -/
def overlooked : Pattern :=
  .anyOf [octalNumber, zeroLedNumber, wholeWithExponent, fractionWithBareExponent,
    dotWithBareExponent, signedDot]

/-! ### Plain scalars with a type -/

/-- The plain scalars that are no texts. -/
def typed : Pattern := .anyOf (ScalarType.patterns.map Prod.snd)

theorem ofPlain_eq_text_iff (s : List Char) :
    ScalarType.ofPlain s = .text ↔ ¬typed.Matches s := by
  have hne : ∀ e ∈ ScalarType.patterns, e.1 ≠ .text := by
    simp [ScalarType.patterns]
  rw [typed, matches_anyOf, ScalarType.ofPlain]
  split
  · rename_i type p hfind
    have hmem := List.mem_of_find?_eq_some hfind
    have hp := List.find?_some hfind
    refine iff_of_false (hne _ hmem) fun h => h ⟨p, ?_, (accepts_iff _ _).1 hp⟩
    exact List.mem_map_of_mem hmem
  · rename_i hfind
    refine iff_of_true rfl ?_
    rintro ⟨p, hp, hs⟩
    obtain ⟨e, he, rfl⟩ := List.mem_map.1 hp
    exact absurd ((accepts_iff _ _).2 hs) (List.find?_eq_none.1 hfind e he)

theorem not_typed_of_style {s : List Char} (h : Style.ofText s = .plain) : ¬typed.Matches s := by
  rw [← ofPlain_eq_text_iff]
  unfold Style.ofText at h
  split at h
  · exact absurd h (by decide)
  · split at h
    · rename_i hplain
      exact beq_iff_eq.1 (Bool.and_eq_true_iff.1 hplain).2
    · exact absurd h (by decide)

theorem typed_of_float {s : List Char} (h : ScalarType.floatPattern.Matches s) :
    typed.Matches s :=
  (matches_anyOf _ _).2 ⟨ScalarType.floatPattern, by simp [ScalarType.patterns], h⟩

theorem typed_of_int {s : List Char} (h : ScalarType.intPattern.Matches s) : typed.Matches s :=
  (matches_anyOf _ _).2 ⟨ScalarType.intPattern, by simp [ScalarType.patterns], h⟩

/-! ### Parts of numbers -/

/-- The signs of numbers. -/
def signs : List (List Char) := [[], ['-'], ['+']]

theorem matches_sign (s : List Char) : ScalarType.sign.Matches s ↔ s ∈ signs := by
  have hsign : ScalarType.sign.Matches s ↔ s = [] ∨ (oneOf "-+").Matches s := Iff.rfl
  rw [hsign, matches_oneOf]
  simp [signs]

theorem isDigit_iff (c : Char) : c.isDigit = true ↔ c ∈ "0123456789".toList := by
  have hall : ∀ k, k < 10 → Char.ofNat (48 + k) ∈ "0123456789".toList := by decide
  have hdigits : "0123456789".toList.all Char.isDigit = true := by decide
  constructor
  · intro h
    obtain ⟨k, hk, rfl⟩ := exists_of_isDigit h
    exact hall k hk
  · exact List.all_eq_true.1 hdigits c

theorem mem_large_of_isDigit {d : Char} (hd : d.isDigit = true) (h : d ∉ "01234567_".toList) :
    d ∈ "89".toList := by
  have hall : "0123456789".toList.all (fun d => "01234567_".toList.contains d
      || "89".toList.contains d) = true := by decide
  have hd89 := List.all_eq_true.1 hall d ((isDigit_iff d).1 hd)
  rw [Bool.or_eq_true, List.contains_iff_mem, List.contains_iff_mem] at hd89
  exact hd89.resolve_left h

theorem matches_digits {s : List Char} (h : (many digit).Matches s) :
    ScalarType.digits.Matches s := by
  refine (matches_many_one _ s).2 fun c hc => List.contains_iff_mem.2 ?_
  exact (mem_digits_of_isDigit ((matches_many_one _ s).1 h c hc)).1

theorem matches_coreExponent {ex : List Char} (h : bareExponent.Matches ex) :
    coreExponent.Matches ex := by
  obtain ⟨e, ds, rfl, he, hds⟩ := h
  exact ⟨e, ds, rfl, he, [], ds, rfl, Or.inl rfl, hds⟩

/-- With a sign an exponent has the form that YAML 1.1 asks for. -/
theorem bare_or_signed {ex : List Char} (h : coreExponent.Matches ex) :
    bareExponent.Matches ex ∨ ScalarType.exponent.Matches ex := by
  obtain ⟨e, _, rfl, he, sg, ds, rfl, hsg | hsg, hds⟩ := h
  · obtain rfl : sg = [] := hsg
    exact Or.inl ⟨e, ds, rfl, he, hds⟩
  · exact Or.inr (Or.inr ⟨e, sg ++ ds, rfl, he, sg, ds, rfl, hsg, hds⟩)

/-! ### Numbers with a type -/

section

variable {sg ds fs ex t : List Char} (hsg : ScalarType.sign.Matches sg)
  (hds : (atLeastOnce digit).Matches ds)

theorem typed_hexadecimal (ht : (atLeastOnce (oneOf "0123456789abcdefABCDEF")).Matches t) :
    typed.Matches ("0x".toList ++ t) := by
  obtain ⟨hne, hall⟩ := (matches_atLeastOnce_one _ t).1 ht
  have hsubset : "0123456789abcdefABCDEF".toList ⊆ "0123456789abcdefABCDEF_".toList :=
    List.subset_append_left _ ['_']
  refine typed_of_int (Or.inr (Or.inr (Or.inr (Or.inl ⟨[], _, rfl, Or.inl rfl, "0x".toList, t, rfl,
    (matches_word _ _).2 rfl, (matches_atLeastOnce_one _ t).2 ⟨hne, fun c hc => ?_⟩⟩))))
  exact List.contains_iff_mem.2 (hsubset (List.contains_iff_mem.1 (hall c hc)))

include hsg in
theorem typed_octal (hne : t ≠ []) (ht : ∀ d ∈ t, d ∈ "01234567_".toList) :
    typed.Matches (sg ++ '0' :: t) :=
  typed_of_int (Or.inr (Or.inl ⟨sg, _, rfl, hsg, ['0'], t, rfl, ⟨'0', rfl, rfl⟩,
    (matches_atLeastOnce_one _ t).2 ⟨hne, fun d hd => List.contains_iff_mem.2 (ht d hd)⟩⟩))

include hsg in
theorem typed_decimal
    (ht : (either (char '0') (andThen (oneOf "123456789") ScalarType.digits)).Matches t) :
    typed.Matches (sg ++ t) :=
  typed_of_int (Or.inr (Or.inr (Or.inl ⟨sg, t, rfl, hsg, ht⟩)))

include hds

theorem typed_dot (hex : ScalarType.exponent.Matches ex) : typed.Matches ('.' :: (ds ++ ex)) := by
  obtain ⟨d, ds, rfl, hd, hds⟩ := hds
  rw [List.append_assoc]
  exact typed_of_float (Or.inr (Or.inl ⟨['.'], _, rfl, ⟨'.', rfl, rfl⟩, d, ds ++ ex, rfl, hd, ds,
    ex, rfl, matches_digits hds, hex⟩))

include hsg

theorem typed_fraction (hfs : (many digit).Matches fs) (hex : ScalarType.exponent.Matches ex) :
    typed.Matches (sg ++ (ds ++ '.' :: (fs ++ ex))) := by
  obtain ⟨d, ds, rfl, hd, hds⟩ := hds
  rw [List.append_assoc]
  exact typed_of_float (Or.inl ⟨sg, _, rfl, hsg, d, _, rfl, hd, ds, _, rfl, matches_digits hds,
    ['.'], fs ++ ex, rfl, ⟨'.', rfl, rfl⟩, fs, ex, rfl, matches_digits hfs, hex⟩)

/-- A whole number has a type unless it starts with a zero and has a large digit. -/
theorem typed_or_zeroLed : typed.Matches (sg ++ ds) ∨ zeroLedNumber.Matches (sg ++ ds) := by
  obtain ⟨hne, hdigits⟩ := (matches_atLeastOnce_one _ _).1 hds
  obtain ⟨c, t, rfl⟩ := List.exists_cons_of_ne_nil hne
  obtain ⟨hc, ht⟩ := List.forall_mem_cons.1 hdigits
  by_cases hzero : c = '0'
  · subst hzero
    by_cases hnil : t = []
    · rw [hnil]
      exact Or.inl (typed_decimal hsg (Or.inl ⟨'0', rfl, rfl⟩))
    · by_cases hsmall : ∀ d ∈ t, d ∈ "01234567_".toList
      · exact Or.inl (typed_octal hsg hnil hsmall)
      · obtain ⟨d, hd, hlarge⟩ : ∃ d ∈ t, d ∉ "01234567_".toList := by
          simpa only [not_forall, exists_prop] using hsmall
        have hd89 := mem_large_of_isDigit (ht d hd) hlarge
        obtain ⟨a, b, rfl⟩ := List.append_of_mem hd
        obtain ⟨ha, hb⟩ := List.forall_mem_append.1 ht
        exact Or.inr ⟨sg, _, rfl, hsg, ['0'], _, rfl, ⟨'0', rfl, rfl⟩, a, d :: b, rfl,
          (matches_many_one _ a).2 ha, [d], b, rfl, ⟨d, List.contains_iff_mem.2 hd89, rfl⟩,
          (matches_many_one _ b).2 (List.forall_mem_cons.1 hb).2⟩
  · have hdecimal := List.contains_iff_mem.2 ((mem_digits_of_isDigit hc).2 hzero)
    exact Or.inl (typed_decimal hsg (Or.inr ⟨[c], t, rfl, ⟨c, hdecimal, rfl⟩,
      matches_digits ((matches_many_one _ t).2 ht)⟩))

end

/-! ### Numbers without a type -/

theorem overlooked_of_mem {p : Pattern} {s : List Char} (hp : p ∈ [octalNumber, zeroLedNumber,
    wholeWithExponent, fractionWithBareExponent, dotWithBareExponent, signedDot])
    (h : p.Matches s) : overlooked.Matches s :=
  (matches_anyOf _ s).2 ⟨p, hp, h⟩

section

variable {sg ds fs ex : List Char} (hsg : ScalarType.sign.Matches sg)
  (hds : (atLeastOnce digit).Matches ds) (hex : coreExponent.optional.Matches ex)

include hsg hds hex

/-- A fraction with nothing before the dot. -/
theorem overlooked_of_dot (hs : ¬typed.Matches (sg ++ '.' :: (ds ++ ex))) :
    overlooked.Matches (sg ++ '.' :: (ds ++ ex)) := by
  rcases hsg with hsg | hsg
  · obtain rfl : sg = [] := hsg
    rcases hex with hex | hex
    · exact absurd (typed_dot hds (Or.inl hex)) hs
    · rcases bare_or_signed hex with hbare | hsigned
      · exact overlooked_of_mem (p := dotWithBareExponent) (by simp)
          ⟨['.'], ds ++ ex, rfl, ⟨'.', rfl, rfl⟩, ds, ex, rfl, hds, hbare⟩
      · exact absurd (typed_dot hds hsigned) hs
  · exact overlooked_of_mem (p := signedDot) (by simp)
      ⟨sg, _, rfl, hsg, ['.'], ds ++ ex, rfl, ⟨'.', rfl, rfl⟩, ds, ex, rfl, hds, hex⟩

/-- A whole number. -/
theorem overlooked_of_whole (hs : ¬typed.Matches (sg ++ (ds ++ ex))) :
    overlooked.Matches (sg ++ (ds ++ ex)) := by
  rcases hex with hex | hex
  · obtain rfl : ex = [] := hex
    rw [List.append_nil] at hs ⊢
    exact overlooked_of_mem (p := zeroLedNumber) (by simp)
      ((typed_or_zeroLed hsg hds).resolve_left hs)
  · exact overlooked_of_mem (p := wholeWithExponent) (by simp)
      ⟨sg, ds ++ ex, rfl, hsg, ds, ex, rfl, hds, hex⟩

/-- A fraction with digits before the dot. -/
theorem overlooked_of_fraction (hfs : (many digit).Matches fs)
    (hs : ¬typed.Matches (sg ++ (ds ++ '.' :: (fs ++ ex)))) :
    overlooked.Matches (sg ++ (ds ++ '.' :: (fs ++ ex))) := by
  rcases hex with hex | hex
  · exact absurd (typed_fraction hsg hds hfs (Or.inl hex)) hs
  · rcases bare_or_signed hex with hbare | hsigned
    · exact overlooked_of_mem (p := fractionWithBareExponent) (by simp)
        ⟨sg, _, rfl, hsg, ds, _, rfl, hds, ['.'], fs ++ ex, rfl, ⟨'.', rfl, rfl⟩, fs, ex, rfl, hfs,
          hbare⟩
    · exact absurd (typed_fraction hsg hds hfs hsigned) hs

end

/-- A number of the core schema has one of the overlooked forms unless it has a type. -/
theorem overlooked_of_coreNumber {s : List Char} (h : coreNumber.Matches s)
    (hs : ¬typed.Matches s) : overlooked.Matches s := by
  rcases h with h | h | h
  · obtain ⟨sg, _, rfl, hsg, _, ex, rfl, hfront | hfront, hex⟩ := h
    · obtain ⟨_, ds, rfl, hdot, hds⟩ := hfront
      obtain rfl := (matches_char '.' _).1 hdot
      exact overlooked_of_dot hsg hds hex hs
    · obtain ⟨ds, fs, rfl, hds, hfs | hfs⟩ := hfront
      · obtain rfl : fs = [] := hfs
        rw [List.append_nil] at hs ⊢
        exact overlooked_of_whole hsg hds hex hs
      · obtain ⟨_, fs, rfl, hdot, hfs⟩ := hfs
        obtain rfl := (matches_char '.' _).1 hdot
        rw [List.append_assoc] at hs ⊢
        exact overlooked_of_fraction hsg hds hex hfs hs
  · exact overlooked_of_mem (p := octalNumber) (by simp) h
  · obtain ⟨x, t, rfl, hx, ht⟩ := h
    obtain rfl := (matches_word "0x" x).1 hx
    exact absurd (typed_hexadecimal ht) hs

theorem coreNumber_of_overlooked {s : List Char} (h : overlooked.Matches s) :
    coreNumber.Matches s := by
  have hdecimal : ∀ {sg front ex : List Char}, ScalarType.sign.Matches sg →
      (either (inOrder [char '.', atLeastOnce digit])
        (inOrder [atLeastOnce digit, .optional (inOrder [char '.', many digit])])).Matches front →
      (coreExponent.optional).Matches ex → coreNumber.Matches (sg ++ (front ++ ex)) :=
    fun hsg hfront hex => Or.inl ⟨_, _, rfl, hsg, _, _, rfl, hfront, hex⟩
  rcases h with h | h | h | h | h | h
  · exact Or.inr (Or.inl h)
  · obtain ⟨sg, _, rfl, hsg, z, _, rfl, hz, a, _, rfl, ha, d, b, rfl, hd, hb⟩ := h
    have hdigits : (atLeastOnce digit).Matches (z ++ (a ++ (d ++ b))) := by
      refine ⟨z, _, rfl, ?_, (matches_many_one _ _).2 ?_⟩
      · rw [(matches_char '0' z).1 hz]
        exact ⟨'0', rfl, rfl⟩
      · obtain ⟨c, hc, rfl⟩ := (matches_oneOf "89" d).1 hd
        have hlarge : "89".toList.all Char.isDigit = true := by decide
        simp only [List.forall_mem_append, List.forall_mem_singleton]
        exact ⟨(matches_many_one _ a).1 ha, List.all_eq_true.1 hlarge c hc,
          (matches_many_one _ b).1 hb⟩
    rw [← List.append_nil (z ++ _)]
    refine hdecimal hsg (Or.inr ?_) (Or.inl rfl)
    exact ⟨_, [], (List.append_nil _).symm, hdigits, Or.inl rfl⟩
  · obtain ⟨sg, _, rfl, hsg, ds, ex, rfl, hds, hex⟩ := h
    exact hdecimal hsg (Or.inr ⟨ds, [], (List.append_nil ds).symm, hds, Or.inl rfl⟩) (Or.inr hex)
  · obtain ⟨sg, _, rfl, hsg, ds, _, rfl, hds, dot, _, rfl, hdot, fs, ex, rfl, hfs, hex⟩ := h
    rw [← List.append_assoc dot, ← List.append_assoc ds]
    exact hdecimal hsg (Or.inr ⟨ds, dot ++ fs, rfl, hds, Or.inr ⟨dot, fs, rfl, hdot, hfs⟩⟩)
      (Or.inr (matches_coreExponent hex))
  · obtain ⟨dot, _, rfl, hdot, ds, ex, rfl, hds, hex⟩ := h
    rw [← List.append_assoc dot]
    exact hdecimal (Or.inl rfl) (Or.inl ⟨dot, ds, rfl, hdot, hds⟩)
      (Or.inr (matches_coreExponent hex))
  · obtain ⟨sg, _, rfl, hsg, dot, _, rfl, hdot, ds, ex, rfl, hds, hex⟩ := h
    rw [← List.append_assoc dot]
    exact hdecimal (Or.inr hsg) (Or.inl ⟨dot, ds, rfl, hdot, hds⟩) hex

/-! ### Shapes -/

/-- What all texts of a kind have in common. -/
structure Shape where
  /-- What they can start with. -/
  starts : List (List Char)
  /-- The characters that come then. -/
  alphabet : List Char
  /-- The characters of which they have at least one after the start. -/
  marks : List Char

namespace Shape

/-- The text has the shape. -/
def Fits (f : Shape) (s : List Char) : Prop :=
  ∃ start ∈ f.starts, ∃ t, s = start ++ t ∧ (∀ c ∈ t, c ∈ f.alphabet) ∧ ∃ c ∈ t, c ∈ f.marks

/-- Whether no text of the shape has a type. -/
def isUntyped (f : Shape) : Bool :=
  f.starts.all fun start => f.marks.all fun c =>
    !(typed.afterText start).spellsWith f.alphabet c

theorem Fits.not_typed {f : Shape} {s : List Char} (h : f.Fits s) (hf : f.isUntyped = true) :
    ¬typed.Matches s := by
  obtain ⟨start, hstart, t, rfl, ht, c, hc, hmark⟩ := h
  intro htyped
  have hspells := spellsWith_of_matches ((matches_afterText typed start t).2 htyped) ht hc
  have hnot := List.all_eq_true.1 (List.all_eq_true.1 hf start hstart) c hmark
  rw [hspells] at hnot
  exact absurd hnot (by decide)

theorem fits_of_matches {f : Shape} {start t : List Char} {p : Pattern} (hstart : start ∈ f.starts)
    (ht : p.Matches t) (hdraws : p.Draws (· ∈ f.alphabet)) (hneeds : p.Needs (· ∈ f.marks)) :
    f.Fits (start ++ t) :=
  ⟨start, hstart, t, rfl, hdraws.forall_mem ht, hneeds.exists_mem ht⟩

end Shape

/-- The shapes of the numbers that have no type. -/
def shapes : List Shape := [
  ⟨["0o".toList], "01234567".toList, "01234567".toList⟩,
  ⟨signs.map (· ++ ['0']), "0123456789".toList, "89".toList⟩,
  ⟨signs, "0123456789eE-+".toList, "eE".toList⟩,
  ⟨signs, "0123456789.eE".toList, "eE".toList⟩,
  ⟨[['-'], ['+']].map (· ++ ['.']), "0123456789eE-+".toList, "0123456789".toList⟩]

theorem isUntyped_shapes : shapes.all Shape.isUntyped = true := by
  decide +kernel

@[simp] theorem draws_digit {P : Char → Prop} :
    digit.Draws P ↔ ∀ c ∈ "0123456789".toList, P c := by
  simp only [digit, Draws, isDigit_iff]

@[simp] theorem needs_digit {P : Char → Prop} :
    digit.Needs P ↔ ∀ c ∈ "0123456789".toList, P c :=
  draws_digit

/-- An overlooked number fits one of the shapes. -/
theorem exists_shape {s : List Char} (h : overlooked.Matches s) : ∃ f ∈ shapes, f.Fits s := by
  have hfits : ∀ f ∈ shapes, ∀ start ∈ f.starts, ∀ {p : Pattern} {t : List Char}, p.Matches t →
      p.Draws (· ∈ f.alphabet) → p.Needs (· ∈ f.marks) → ∃ f ∈ shapes, f.Fits (start ++ t) :=
    fun f hf _ hstart _ _ ht hdraws hneeds =>
      ⟨f, hf, Shape.fits_of_matches hstart ht hdraws hneeds⟩
  simp only [shapes, List.forall_mem_cons] at hfits
  obtain ⟨octal, zeroLed, whole, fraction, signed, -⟩ := hfits
  rcases h with h | h | h | h | h | h
  · obtain ⟨o, t, rfl, ho, ht⟩ := h
    obtain rfl := (matches_word "0o" o).1 ho
    exact octal.1 ht (by simp) (by simp)
  · obtain ⟨sg, _, rfl, hsg, z, t, rfl, hz, ht⟩ := h
    obtain rfl := (matches_char '0' z).1 hz
    rw [← List.append_assoc]
    exact zeroLed _ (List.mem_map_of_mem ((matches_sign sg).1 hsg)) ht (by simp) (by simp)
  · obtain ⟨sg, t, rfl, hsg, ht⟩ := h
    exact whole sg ((matches_sign sg).1 hsg) ht (by simp [coreExponent, ScalarType.sign])
      (by simp [coreExponent])
  · obtain ⟨sg, t, rfl, hsg, ht⟩ := h
    exact fraction sg ((matches_sign sg).1 hsg) ht (by simp [bareExponent])
      (by simp [bareExponent])
  · exact fraction [] List.mem_cons_self h (by simp [dotWithBareExponent, bareExponent])
      (by simp [dotWithBareExponent, bareExponent])
  · obtain ⟨_, _, rfl, hsg, z, t, rfl, hz, ht⟩ := h
    obtain rfl := (matches_char '.' z).1 hz
    obtain ⟨c, hc, rfl⟩ := (matches_oneOf "-+" _).1 hsg
    rw [← List.append_assoc]
    exact signed _ (List.mem_map_of_mem (by simpa using hc)) ht
      (by simp [coreExponent, ScalarType.sign]) (by simp)

theorem not_typed_of_overlooked {s : List Char} (h : overlooked.Matches s) : ¬typed.Matches s := by
  obtain ⟨f, hf, hs⟩ := exists_shape h
  exact hs.not_typed (List.all_eq_true.1 isUntyped_shapes f hf)

/-! ### Styles -/

/-- The characters of the shapes. -/
def numberChars : List Char := "0123456789eE.+-o".toList

theorem mem_numberChars {s : List Char} (h : overlooked.Matches s) : ∀ c ∈ s, c ∈ numberChars := by
  have hall : shapes.all (fun f => (f.starts.flatten ++ f.alphabet).all numberChars.contains)
      = true := by decide +kernel
  obtain ⟨f, hf, start, hstart, t, rfl, ht, -⟩ := exists_shape h
  have hmem : ∀ c ∈ f.starts.flatten ++ f.alphabet, c ∈ numberChars := fun c hc =>
    List.contains_iff_mem.1 (List.all_eq_true.1 (List.all_eq_true.1 hall f hf) c hc)
  refine List.forall_mem_append.2 ⟨fun c hc => hmem c ?_, fun c hc => hmem c ?_⟩
  · exact List.mem_append_left _ (List.mem_flatten_of_mem hstart hc)
  · exact List.mem_append_right _ (ht c hc)

/-- No overlooked number starts like a document marker. -/
theorem not_prefix_of_overlooked {s start : List Char} (h : overlooked.Matches s)
    (hstart : start ∈ [['-', '-'], ['.', '.']]) : ¬start <+: s := by
  have hnone : [['-', '-'], ['.', '.']].all (fun start =>
      !(overlooked.afterText start).spells numberChars) = true := by decide +kernel
  rintro ⟨t, rfl⟩
  have ht := fun c hc => mem_numberChars h c (List.mem_append_right start hc)
  have hspells := spells_of_matches ((matches_afterText overlooked start t).2 h) ht
  have hnot := List.all_eq_true.1 hnone start hstart
  rw [hspells] at hnot
  exact absurd hnot (by decide)

theorem hasDocumentMarker_of_overlooked {s : List Char} (h : overlooked.Matches s) :
    hasDocumentMarker s = false := by
  have hne : ∀ start ∈ [['-', '-'], ['.', '.']], ∀ c, s.take 3 ≠ start ++ [c] := by
    intro start hstart c heq
    have hprefix := List.take_prefix 3 s
    rw [heq] at hprefix
    exact not_prefix_of_overlooked h hstart ((List.prefix_append start [c]).trans hprefix)
  have hdash : s.take 3 ≠ ['-', '-', '-'] := hne ['-', '-'] (by decide) '-'
  have hdots : s.take 3 ≠ ['.', '.', '.'] := hne ['.', '.'] (by decide) '.'
  rw [hasDocumentMarker, beq_eq_false_iff_ne.2 hdash, beq_eq_false_iff_ne.2 hdots]
  rfl

theorem hasLeadingIndicator_of_overlooked {s : List Char} (h : overlooked.Matches s) :
    hasLeadingIndicator s = false := by
  have hall : numberChars.all (fun c => !leadingIndicators.contains c && c != '?' && c != ' ')
      = true := by decide
  have hdash : ¬overlooked.Matches ['-'] := by
    rw [← accepts_iff]
    decide +kernel
  have hchars := fun c hc => List.all_eq_true.1 hall c (mem_numberChars h c hc)
  simp only [Bool.and_eq_true, Bool.not_eq_true', bne_iff_ne] at hchars
  cases s with
  | nil => rfl
  | cons c rest =>
    obtain ⟨⟨hlead, hquestion⟩, -⟩ := hchars c List.mem_cons_self
    -- a dash has a meaning only if nothing or a space comes next
    have hends : (c == '-' && endsOrSpaces rest) = false := by
      rw [Bool.and_eq_false_imp, beq_iff_eq]
      rintro rfl
      cases rest with
      | nil => exact absurd h hdash
      | cons d rest =>
        exact beq_eq_false_iff_ne.2 (hchars d (List.mem_cons_of_mem _ List.mem_cons_self)).2
    rw [hasLeadingIndicator, hlead, beq_eq_false_iff_ne.2 hquestion, Bool.false_or, Bool.false_or,
      hends]

theorem spaceMeetsBreak_of_not_mem {s : List Char} (h : ' ' ∉ s) : spaceMeetsBreak s = false := by
  fun_induction spaceMeetsBreak s with
  | case1 => rfl
  | case2 => rfl
  | case3 a b rest ih =>
    obtain ⟨ha, hrest⟩ := not_or.1 (List.mem_cons.not.1 h)
    obtain ⟨hb, -⟩ := not_or.1 (List.mem_cons.not.1 hrest)
    rw [ih hrest, beq_eq_false_iff_ne.2 (Ne.symm ha), beq_eq_false_iff_ne.2 (Ne.symm hb),
      Bool.and_false]
    rfl

/-- An overlooked number can be written plain. -/
theorem style_of_overlooked {s : List Char} (h : overlooked.Matches s) :
    Style.ofText s = .plain := by
  have hall : numberChars.all (fun c => isPlainAscii c && c != '\n' && c != ' ' && c != ':')
      = true := by decide
  have hchars := fun c hc => List.all_eq_true.1 hall c (mem_numberChars h c hc)
  simp only [Bool.and_eq_true, bne_iff_ne] at hchars
  have hspace : ' ' ∉ s := fun hc => (hchars ' ' hc).1.2 rfl
  have hcolon : ':' ∉ s := fun hc => (hchars ':' hc).2 rfl
  have hbreak : '\n' ∉ s := fun hc => (hchars '\n' hc).1.1.2 rfl
  have hempty : s ≠ [] := by
    rintro rfl
    exact absurd ((accepts_iff _ _).2 h) (by decide +kernel)
  have hescapes : needsEscapes s = false := by
    rw [needsEscapes, spaceMeetsBreak_of_not_mem hspace, Bool.or_false, List.any_eq_false]
    intro c hc
    rw [(hchars c hc).1.1.1, Bool.not_true, Bool.and_false]
    decide
  have hallows : allowsPlain s = true := by
    have hfirst : s.head? ≠ some ' ' := fun hc => hspace (List.mem_of_mem_head? hc)
    have hlast : s.getLast? ≠ some ' ' := fun hc => hspace (List.mem_of_getLast? hc)
    simp [allowsPlain, hempty, hbreak, hfirst, hlast, hasDocumentMarker_of_overlooked h,
      hasLeadingIndicator_of_overlooked h, hasValueIndicator_of_not_mem hcolon,
      hasCommentIndicator_of_not_mem hspace]
  rw [Style.ofText, hescapes, hallows, (ofPlain_eq_text_iff s).2 (not_typed_of_overlooked h)]
  rfl

/-- The numbers of the core schema that are written plain are those that no pattern has. -/
theorem plain_coreNumber_iff (s : List Char) :
    Style.ofText s = .plain ∧ coreNumber.Matches s ↔ overlooked.Matches s := by
  constructor
  · exact fun h => overlooked_of_coreNumber h.2 (not_typed_of_style h.1)
  · exact fun h => ⟨style_of_overlooked h, coreNumber_of_overlooked h⟩

/-! ### Scalars of a document -/

/-- The scalar stands in the tree, as a value or as a key. -/
inductive Node.Shows (x : Scalar) : Node → Prop
  | scalar : Shows x (.scalar x)
  | item {node : Node} {items : List Node} (hnode : node ∈ items) (h : Shows x node) :
    Shows x (.list items)
  | key {node : Node} {entries : List (Scalar × Node)} (hkey : (x, node) ∈ entries) :
    Shows x (.mapping entries)
  | entry {key : Scalar} {node : Node} {entries : List (Scalar × Node)}
      (hnode : (key, node) ∈ entries) (h : Shows x node) : Shows x (.mapping entries)

theorem mem_representItems (i : Nat) {v : Value} {items : List Value} (h : v ∈ items) :
    represent (.afterMark i) v ∈ representItems i items := by
  induction items with
  | nil => exact absurd h List.not_mem_nil
  | cons item items ih =>
    rw [representItems]
    rcases List.mem_cons.1 h with rfl | h
    · exact List.mem_cons_self
    · exact List.mem_cons_of_mem _ (ih h)

theorem mem_representEntries (i : Nat) {key : String} {v : Value} {entries : List (String × Value)}
    (h : (key, v) ∈ entries) :
    (⟨Style.ofText key.toList, keyBack i key⟩, represent (.ofValue i key) v)
      ∈ representEntries i entries := by
  induction entries with
  | nil => exact absurd h List.not_mem_nil
  | cons e entries ih =>
    rw [representEntries]
    rcases List.mem_cons.1 h with rfl | h
    · exact List.mem_cons_self
    · exact List.mem_cons_of_mem _ (ih h)

/-- What stands in the tree of a part stands in the tree of the whole. -/
theorem shows_of_partOf {u v : Value} (h : Value.PartOf u v) (p : Place) :
    ∃ q, ∀ x, (represent q u).Shows x → (represent p v).Shows x := by
  induction h generalizing p with
  | self => exact ⟨p, fun x hx => hx⟩
  | item hv _ ih =>
    obtain ⟨q, hq⟩ := ih (.afterMark p.list)
    exact ⟨q, fun x hx => .item (mem_representItems p.list hv) (hq x hx)⟩
  | entry hv _ ih =>
    obtain ⟨q, hq⟩ := ih (.ofValue p.mapping _)
    exact ⟨q, fun x hx => .entry (mem_representEntries p.mapping hv) (hq x hx)⟩

theorem keyBack_of_style (i : Nat) {key : String} (h : Style.ofText key.toList ≠ .double) :
    keyBack i key = key.toList := by
  unfold keyBack
  split
  · rfl
  · exact textBack_of_ne h

/-- Every text of a value stands in the tree of the value, in its style. -/
theorem exists_shows {v : Value} {s : String} (h : v.HasText s) (p : Place) :
    ∃ x, (represent p v).Shows x ∧ x.style = Style.ofText s.toList ∧
      (x.style = .plain → x.text = s.toList) := by
  have hne : ∀ {style : Style}, style = .plain → style ≠ .double := by
    rintro _ rfl
    decide
  rcases h with h | ⟨entries, h, w, hkey⟩
  · obtain ⟨q, hq⟩ := shows_of_partOf h p
    exact ⟨_, hq _ .scalar, rfl, fun hstyle => textBack_of_ne (hne hstyle)⟩
  · obtain ⟨q, hq⟩ := shows_of_partOf h p
    exact ⟨_, hq _ (.key (mem_representEntries q.mapping hkey)), rfl,
      fun hstyle => keyBack_of_style q.mapping (hne hstyle)⟩

theorem hasText_sortKeys {v : Value} {s : String} (h : v.HasText s) : v.sortKeys.HasText s := by
  rcases h with h | ⟨entries, h, w, hkey⟩
  · exact Or.inl h.sortKeys
  · have hentries := h.sortKeys
    rw [Value.sortKeys] at hentries
    exact Or.inr ⟨_, hentries, _, Value.mem_sortEntries hkey⟩

/-- Every text of a value stands in the document of the value as a scalar. Exactly if the text is
one of the overlooked numbers, the scalar is plain and a number of the core schema. -/
theorem plain_number_iff_overlooked (v : Value) :
    ∃ tree, readTree (document v).toList = some tree ∧ ∀ s, v.HasText s → ∃ x, tree.Shows x ∧
      x.style = Style.ofText s.toList ∧ (x.style = .plain → x.text = s.toList) ∧
      (x.style = .plain ∧ coreNumber.Matches x.text ↔ overlooked.Matches s.toList) := by
  refine ⟨_, readTree_document v, fun s hs => ?_⟩
  obtain ⟨x, hx, hstyle, htext⟩ := exists_shows (hasText_sortKeys hs) .root
  refine ⟨x, hx, hstyle, htext, ?_⟩
  rw [← plain_coreNumber_iff, ← hstyle]
  exact and_congr_right fun hplain => by rw [htext hplain]

theorem hasText_namespace (name : String) : (NamespaceResource.toValue ⟨name⟩).HasText name := by
  have hname : ("name", Value.text name) ∈ [("name", Value.text name)] := List.mem_cons_self
  have hmetadata : ("metadata", Value.mapping [("name", .text name)])
      ∈ [("apiVersion", Value.text "v1"), ("kind", .text "Namespace"),
        ("metadata", .mapping [("name", .text name)])] := by simp
  exact Or.inl (.entry hmetadata (.entry hname (.self _)))

theorem overlooked_exponent : overlooked.Matches "1e3".toList := by
  rw [← accepts_iff]
  decide +kernel

/-- The name of a namespace, read as a plain number. -/
theorem plain_number_of_namespace :
    ∃ tree x, readTree (document (NamespaceResource.toValue ⟨"1e3"⟩)).toList = some tree ∧
      tree.Shows x ∧ x = ⟨.plain, "1e3".toList⟩ ∧ coreNumber.Matches x.text := by
  obtain ⟨tree, htree, hall⟩ := plain_number_iff_overlooked (NamespaceResource.toValue ⟨"1e3"⟩)
  obtain ⟨⟨style, text⟩, hshows, -, htext, hiff⟩ := hall "1e3" (hasText_namespace "1e3")
  obtain ⟨rfl, hnumber⟩ := hiff.2 overlooked_exponent
  exact ⟨tree, _, htree, hshows, congrArg (Scalar.mk .plain) (htext rfl), hnumber⟩

/-- So a text can be written plain and be a number of the core schema. -/
theorem plain_text_not_number :
    ¬∀ (v : Value) (s : String), v.HasText s → Style.ofText s.toList = .plain →
      ¬coreNumber.Matches s.toList := by
  intro h
  obtain ⟨hplain, hnumber⟩ := (plain_coreNumber_iff _).2 overlooked_exponent
  exact h _ "1e3" (hasText_namespace "1e3") hplain hnumber

end BundlePlan.Yaml
