import BundlePlan.Duration.Parse
import BundlePlan.Proofs.Text.Runs
import Mathlib.Algebra.Order.Floor.Semifield
import Mathlib.Data.Rat.Floor

/-!
# The grammar of durations

Which texts are durations, said without reading them: a `Written` duration has a sign or none and
groups of a number and a unit, and `Written.text` puts it together. What it denotes is computed
exactly, group by group. `parse_eq_ok_iff` says that `parse` accepts just the texts of such
durations whose sum is in range, and gives the value that they denote.

Reading never has a choice: a number goes on as long as there are digits, and a unit up to the next
character that can start a number (`read?_text`).
-/

namespace BundlePlan.Duration

/-! ### Written durations -/

/-- A number as it can be written. -/
inductive Numeral where
  /-- Digits alone. -/
  | whole (digits : List Char)
  /-- Digits, a point and further digits, or none. -/
  | pointed (digits further : List Char)
  /-- A point and digits. -/
  | fraction (digits : List Char)

namespace Numeral

/-- The digits before the point. -/
def before : Numeral → List Char
  | whole digits => digits
  | pointed digits _ => digits
  | fraction _ => []

/-- The digits after the point. -/
def after : Numeral → List Char
  | whole _ => []
  | pointed _ digits => digits
  | fraction digits => digits

/-- The digits of which there has to be one at least. -/
def required : Numeral → List Char
  | whole digits => digits
  | pointed digits _ => digits
  | fraction digits => digits

/-- The number as it is written. -/
def text : Numeral → List Char
  | whole digits => digits
  | pointed digits further => digits ++ '.' :: further
  | fraction digits => '.' :: digits

/-- The number that is meant. -/
def value (n : Numeral) : ℚ :=
  Nat.ofDigitChars 10 n.before 0 + Nat.ofDigitChars 10 n.after 0 / 10 ^ n.after.length

/-- What makes a number of the parts. -/
structure Valid (n : Numeral) : Prop where
  required : n.required ≠ []
  digits : ∀ c ∈ n.before ++ n.after, c.isDigit = true
  before : n.before.length ≤ 4300
  after : n.after.length ≤ 4300

end Numeral

/-- A number with a unit. -/
structure Group where
  number : Numeral
  /-- The unit as it is written. -/
  spelling : List Char
  unit : TimeUnit

namespace Group

/-- The group as it is written. -/
def text (g : Group) : List Char := g.number.text ++ g.spelling

/-- The exact length in nanoseconds. -/
def exact (g : Group) : ℚ := g.number.value * g.unit.nanoseconds

/-- The length in whole nanoseconds. -/
def nanoseconds (g : Group) : ℕ := ⌊g.exact⌋₊

/-- Whether the number is one and the unit has the spelling. -/
def Valid (g : Group) : Prop := g.number.Valid ∧ (g.spelling, g.unit) ∈ TimeUnit.spellings

end Group

/-- The sign before a duration. -/
inductive Sign where
  | plus
  | minus

namespace Sign

/-- The sign, if there is one, as it is written. -/
def text : Option Sign → List Char
  | none => []
  | some plus => ['+']
  | some minus => ['-']

/-- The factor that the sign stands for. -/
def factor : Option Sign → ℤ
  | none | some plus => 1
  | some minus => -1

end Sign

/-- A duration as it can be written. -/
structure Written where
  sign : Option Sign
  groups : List Group

namespace Written

/-- The duration without its sign. Only a zero is written without a unit. -/
def body : List Group → List Char
  | [] => ['0']
  | g :: gs => (g :: gs).flatMap Group.text

/-- The duration as it is written. -/
def text (w : Written) : List Char := Sign.text w.sign ++ body w.groups

/-- Whether all groups are valid. -/
def Valid (w : Written) : Prop := ∀ g ∈ w.groups, g.Valid

/-- The sum of the groups, each in whole nanoseconds. -/
def nanoseconds (w : Written) : ℕ := (w.groups.map Group.nanoseconds).sum

/-- The exact length in seconds. -/
def seconds (w : Written) : ℚ := Sign.factor w.sign * (w.groups.map Group.exact).sum / 10 ^ 9

/-- The length in whole microseconds. -/
def microseconds (w : Written) : ℤ := Sign.factor w.sign * (w.nanoseconds / 1000 : ℕ)

end Written

/-! ### Components -/

open Text (Stops)

theorem mem_spellings_iff {spelling : List Char} {unit : TimeUnit} :
    (spelling, unit) ∈ TimeUnit.spellings ↔ TimeUnit.ofSpelling? spelling = some unit := by
  constructor
  · intro h
    have hall : ∀ s ∈ TimeUnit.spellings, TimeUnit.ofSpelling? s.1 = some s.2 := by decide
    exact hall _ h
  · intro h
    obtain ⟨l₁, l₂, hsplit, -⟩ := List.lookup_eq_some_iff.1 h
    rw [hsplit]
    exact List.mem_append_right l₁ List.mem_cons_self

/-- A unit has characters of units only, and at least one. -/
theorem unitChars_of_mem_spellings {spelling : List Char} {unit : TimeUnit}
    (h : (spelling, unit) ∈ TimeUnit.spellings) :
    spelling ≠ [] ∧ ∀ c ∈ spelling, isUnitChar c = true := by
  have hall : TimeUnit.spellings.all (fun s => !s.1.isEmpty && s.1.all isUnitChar) = true := by
    decide
  have hspelling := List.all_eq_true.1 hall _ h
  rw [Bool.and_eq_true] at hspelling
  exact ⟨by simpa using hspelling.1, List.all_eq_true.1 hspelling.2⟩

/-- The digits of a number end where something else than a digit or a point comes. -/
theorem splitNumber_text {n : Numeral} (hn : ∀ c ∈ n.before ++ n.after, c.isDigit = true)
    {c : Char} (hc : isUnitChar c = true) (rest : List Char) :
    (n.text ++ c :: rest).takeWhile Char.isDigit = n.before ∧
      splitFraction ((n.text ++ c :: rest).dropWhile Char.isDigit) = (n.after, c :: rest) := by
  obtain ⟨hdigit, hpoint⟩ : c.isDigit = false ∧ c ≠ '.' := by simpa [isUnitChar] using hc
  have hstop : Stops Char.isDigit (c :: rest) := Text.stops_cons hdigit rest
  rw [List.forall_mem_append] at hn
  cases n with
  | whole digits =>
    simp only [Numeral.text, Numeral.before, Numeral.after] at hn ⊢
    rw [Text.takeWhile_run hn.1 hstop, Text.dropWhile_run hn.1 hstop]
    exact ⟨rfl, by simp [splitFraction, hpoint]⟩
  | pointed digits further =>
    simp only [Numeral.text, Numeral.before, Numeral.after] at hn ⊢
    rw [List.append_assoc, List.cons_append, Text.takeWhile_run hn.1 (Text.stops_cons rfl _),
      Text.dropWhile_run hn.1 (Text.stops_cons rfl _), splitFraction, Text.takeWhile_run hn.2 hstop,
      Text.dropWhile_run hn.2 hstop]
    exact ⟨rfl, rfl⟩
  | fraction digits =>
    simp only [Numeral.text, Numeral.before, Numeral.after] at hn ⊢
    have hstart : Stops Char.isDigit ('.' :: digits ++ c :: rest) := Text.stops_cons rfl _
    rw [hstart.takeWhile, hstart.dropWhile, List.cons_append, splitFraction,
      Text.takeWhile_run hn.2 hstop, Text.dropWhile_run hn.2 hstop]
    exact ⟨rfl, rfl⟩

/-- A number has digits where they are required exactly if it has any before or after its point. -/
theorem no_digits_iff {n : Numeral} (hn : n.required ≠ []) : ¬(n.before = [] ∧ n.after = []) := by
  cases n with
  | whole digits => exact fun h => hn h.1
  | pointed digits further => exact fun h => hn h.1
  | fraction digits => exact fun h => hn h.2

/-- A group is read whole, whatever comes after it that does not go on with the unit. -/
theorem read?_text {g : Group} (hg : g.Valid) {rest : List Char} (hrest : Stops isUnitChar rest) :
    Component.read? (g.text ++ rest)
      = some (⟨g.number.before, g.number.after, g.spelling⟩, rest) := by
  obtain ⟨hnumber, hunit⟩ := hg
  obtain ⟨hne, hchars⟩ := unitChars_of_mem_spellings hunit
  obtain ⟨c, spelling, hspelling⟩ := List.exists_cons_of_ne_nil hne
  have hc : isUnitChar c = true := hchars c (hspelling ▸ List.mem_cons_self)
  obtain ⟨hbefore, hsplit⟩ := splitNumber_text hnumber.digits hc (spelling ++ rest)
  rw [← List.cons_append, ← hspelling] at hbefore hsplit
  rw [Group.text, List.append_assoc, Component.read?]
  simp only [hbefore, hsplit, Text.takeWhile_run hchars hrest, Text.dropWhile_run hchars hrest]
  rw [if_neg (not_or.2 ⟨no_digits_iff hnumber.required, hne⟩)]

/-- Digits, a point and digits are a number, as long as there is a digit. -/
theorem exists_numeral {s : List Char}
    (h : ¬(s.takeWhile Char.isDigit = [] ∧ (splitFraction (s.dropWhile Char.isDigit)).1 = [])) :
    ∃ n : Numeral, n.before = s.takeWhile Char.isDigit ∧
      n.after = (splitFraction (s.dropWhile Char.isDigit)).1 ∧ n.required ≠ [] ∧
      (∀ c ∈ n.before ++ n.after, c.isDigit = true) ∧
      s = n.text ++ (splitFraction (s.dropWhile Char.isDigit)).2 := by
  have hwhole := List.takeWhile_append_dropWhile (p := Char.isDigit) (l := s)
  have hdigits : ∀ t : List Char, ∀ c ∈ t.takeWhile Char.isDigit, c.isDigit = true :=
    fun t c hc => List.mem_takeWhile_imp hc
  by_cases hpoint : ∃ t, s.dropWhile Char.isDigit = '.' :: t
  · obtain ⟨t, hdrop⟩ := hpoint
    have hfurther := List.takeWhile_append_dropWhile (p := Char.isDigit) (l := t)
    rw [hdrop] at hwhole h ⊢
    simp only [splitFraction] at h ⊢
    by_cases hnone : s.takeWhile Char.isDigit = []
    · refine ⟨.fraction (t.takeWhile Char.isDigit), hnone.symm, rfl, fun ht => h ⟨hnone, ht⟩,
        hdigits t, ?_⟩
      rw [Numeral.text, List.cons_append, hfurther, ← hwhole, hnone, List.nil_append]
    · refine ⟨.pointed (s.takeWhile Char.isDigit) (t.takeWhile Char.isDigit), rfl, rfl, hnone,
        List.forall_mem_append.2 ⟨hdigits s, hdigits t⟩, ?_⟩
      rw [Numeral.text, List.append_assoc, List.cons_append, hfurther, hwhole]
  · have hsplit : splitFraction (s.dropWhile Char.isDigit) = ([], s.dropWhile Char.isDigit) := by
      unfold splitFraction
      split
      · next t hdrop => exact absurd ⟨t, hdrop⟩ hpoint
      · rfl
    rw [hsplit] at h ⊢
    refine ⟨.whole (s.takeWhile Char.isDigit), rfl, rfl, fun hnone => h ⟨hnone, rfl⟩, ?_,
      hwhole.symm⟩
    exact List.forall_mem_append.2 ⟨hdigits s, fun c hc => absurd hc List.not_mem_nil⟩

/-- What is read is a number and a unit, and they stood at the start. -/
theorem exists_of_read? {s rest : List Char} {c : Component}
    (h : Component.read? s = some (c, rest)) : ∃ n : Numeral,
      n.before = c.whole ∧ n.after = c.fraction ∧ n.required ≠ [] ∧
        (∀ ch ∈ n.before ++ n.after, ch.isDigit = true) ∧ s = n.text ++ c.unit ++ rest := by
  unfold Component.read? at h
  simp only at h
  split at h
  · cases h
  next hne =>
  obtain ⟨rfl, rfl⟩ := Prod.mk.inj (Option.some.inj h)
  obtain ⟨n, hbefore, hafter, hrequired, hdigits, hs⟩ :=
    exists_numeral fun hnone => hne (Or.inl hnone)
  refine ⟨n, hbefore, hafter, hrequired, hdigits, ?_⟩
  rw [List.append_assoc, List.takeWhile_append_dropWhile, ← hs]

/-! ### Lengths -/

/-- The length of a group is computed from its digits without fractions. -/
theorem Group.nanoseconds_eq (g : Group) : g.nanoseconds
    = Nat.ofDigitChars 10 g.number.before 0 * g.unit.nanoseconds
      + Nat.ofDigitChars 10 g.number.after 0 * g.unit.nanoseconds
        / Nat.pow 10 g.number.after.length := by
  unfold Group.nanoseconds Group.exact Numeral.value
  generalize Nat.ofDigitChars 10 g.number.before 0 = whole
  generalize Nat.ofDigitChars 10 g.number.after 0 = fraction
  generalize g.number.after.length = places
  have hpos : 0 < 10 ^ places := Nat.pow_pos (by decide)
  have hexact : ((whole : ℚ) + fraction / 10 ^ places) * g.unit.nanoseconds
      = ((whole * g.unit.nanoseconds * 10 ^ places + fraction * g.unit.nanoseconds : ℕ) : ℚ)
        / (10 ^ places : ℕ) := by
    push_cast
    field_simp
  rw [hexact, Nat.floor_div_eq_div, Nat.add_comm, Nat.add_mul_div_right _ _ hpos, Nat.add_comm]
  rfl

/-- A component has a length if it has a unit and not too many digits. -/
theorem nanoseconds_eq_ok_iff {c : Component} {n : ℕ} : c.nanoseconds = .ok n ↔
    ∃ unit, TimeUnit.ofSpelling? c.unit = some unit ∧ c.whole.length ≤ 4300 ∧
      c.fraction.length ≤ 4300 ∧ n = Nat.ofDigitChars 10 c.whole 0 * unit.nanoseconds
        + Nat.ofDigitChars 10 c.fraction 0 * unit.nanoseconds / Nat.pow 10 c.fraction.length := by
  unfold Component.nanoseconds digitLimit
  cases TimeUnit.ofSpelling? c.unit with
  | none => simp
  | some unit =>
    simp only [Option.some.injEq, exists_eq_left']
    split
    · next h => simp [Nat.not_le.2 h]
    · next hwhole =>
      split
      · next h => simp [Nat.not_le.2 h]
      · next hfraction =>
        simp only [Except.ok.injEq, Nat.not_lt.1 hwhole, Nat.not_lt.1 hfraction, true_and]
        exact eq_comm

/-- A group has its length as a component. -/
theorem nanoseconds_component {g : Group} (hg : g.Valid) :
    Component.nanoseconds ⟨g.number.before, g.number.after, g.spelling⟩ = .ok g.nanoseconds :=
  nanoseconds_eq_ok_iff.2 ⟨g.unit, mem_spellings_iff.1 hg.2, hg.1.before, hg.1.after,
    g.nanoseconds_eq⟩

/-- A component that has a length is a group. -/
theorem exists_group {s rest : List Char} {c : Component} {n : ℕ}
    (hread : Component.read? s = some (c, rest)) (hlength : c.nanoseconds = .ok n) :
    ∃ g : Group, g.Valid ∧ s = g.text ++ rest ∧ n = g.nanoseconds := by
  obtain ⟨number, hbefore, hafter, hrequired, hdigits, hs⟩ := exists_of_read? hread
  obtain ⟨unit, hunit, hwhole, hfraction, rfl⟩ := nanoseconds_eq_ok_iff.1 hlength
  refine ⟨⟨number, c.unit, unit⟩, ⟨?_, mem_spellings_iff.2 hunit⟩, hs, ?_⟩
  · exact ⟨hrequired, hdigits, hbefore ▸ hwhole, hafter ▸ hfraction⟩
  · rw [Group.nanoseconds_eq, hbefore, hafter]

/-! ### Sums -/

/-- A number starts with a digit or a point, so that no unit goes on into it. -/
theorem stops_text {n : Numeral} (hn : n.Valid) (rest : List Char) :
    Stops isUnitChar (n.text ++ rest) := by
  have hdigit : ∀ ds : List Char, ds ≠ [] → (∀ c ∈ ds, c.isDigit = true) → ∀ t,
      Stops isUnitChar (ds ++ t) := by
    intro ds hne hds t
    obtain ⟨d, ds, rfl⟩ := List.exists_cons_of_ne_nil hne
    exact Text.stops_cons (by simp [isUnitChar, hds d List.mem_cons_self]) _
  have hdigits := List.forall_mem_append.1 hn.digits
  cases n with
  | whole digits => exact hdigit digits hn.required hdigits.1 rest
  | pointed digits further =>
    rw [Numeral.text, List.append_assoc]
    exact hdigit digits hn.required hdigits.1 _
  | fraction digits => exact Text.stops_cons rfl _

theorem stops_flatMap_text {gs : List Group} (hgs : ∀ g ∈ gs, g.Valid) :
    Stops isUnitChar (gs.flatMap Group.text) := by
  cases gs with
  | nil => exact Text.stops_nil
  | cons g gs =>
    rw [List.flatMap_cons, Group.text, List.append_assoc]
    exact stops_text (hgs g List.mem_cons_self).1 _

theorem text_ne_nil {g : Group} (hg : g.Valid) : g.text ≠ [] :=
  List.append_ne_nil_of_right_ne_nil _ (unitChars_of_mem_spellings hg.2).1

/-- One component is read and added. -/
theorem total_of_read? {sum n : ℕ} {s rest : List Char} {c : Component} (hs : s ≠ [])
    (hread : Component.read? s = some (c, rest)) (hlength : c.nanoseconds = .ok n) :
    total sum s
      = if maxNanoseconds < sum + n then .error .outOfRange else total (sum + n) rest := by
  rw [total, if_neg hs]
  split
  · next h => simp [hread] at h
  · next c' rest' h =>
    obtain ⟨rfl, rfl⟩ := Prod.mk.inj (Option.some.inj (hread.symm.trans h))
    rw [hlength]

/-- The groups of a text are all read, and added as long as the sum is in range. -/
theorem total_flatMap_text {gs : List Group} (hgs : ∀ g ∈ gs, g.Valid) {sum : ℕ}
    (hsum : sum + (gs.map Group.nanoseconds).sum ≤ maxNanoseconds) :
    total sum (gs.flatMap Group.text) = .ok (sum + (gs.map Group.nanoseconds).sum) := by
  induction gs generalizing sum with
  | nil =>
    rw [List.flatMap_nil, total]
    rfl
  | cons g gs ih =>
    rw [List.forall_mem_cons] at hgs
    rw [List.map_cons, List.sum_cons, ← Nat.add_assoc] at hsum ⊢
    have hread := read?_text hgs.1 (stops_flatMap_text hgs.2)
    have hne : g.text ++ gs.flatMap Group.text ≠ [] :=
      List.append_ne_nil_of_left_ne_nil (text_ne_nil hgs.1) _
    rw [List.flatMap_cons, total_of_read? hne hread (nanoseconds_component hgs.1),
      if_neg (by omega), ih hgs.2 hsum]

/-- What is added up are groups, and their sum is in range. -/
theorem exists_groups {sum n : ℕ} {s : List Char} (h : total sum s = .ok n)
    (hsum : sum ≤ maxNanoseconds) : ∃ gs : List Group, (∀ g ∈ gs, g.Valid) ∧
      s = gs.flatMap Group.text ∧ n = sum + (gs.map Group.nanoseconds).sum ∧
        n ≤ maxNanoseconds := by
  induction sum, s using total.induct generalizing n with
  | case1 sum =>
    rw [total, if_pos rfl] at h
    obtain rfl := Except.ok.inj h
    exact ⟨[], by simp, rfl, rfl, hsum⟩
  | case2 sum s hs hread =>
    rw [total, if_neg hs] at h
    split at h
    · cases h
    · next h' => simp [hread] at h'
  | case3 sum s hs c rest hread e hlength =>
    rw [total, if_neg hs] at h
    split at h
    · cases h
    · next h' =>
      obtain ⟨rfl, rfl⟩ := Prod.mk.inj (Option.some.inj (hread.symm.trans h'))
      rw [hlength] at h
      cases h
  | case4 sum s hs c rest hread m hlength hrange =>
    rw [total_of_read? hs hread hlength, if_pos hrange] at h
    cases h
  | case5 sum s hs c rest hread m hlength hrange ih =>
    rw [total_of_read? hs hread hlength, if_neg hrange] at h
    obtain ⟨gs, hgs, rfl, rfl, hle⟩ := ih h (Nat.not_lt.1 hrange)
    obtain ⟨g, hg, rfl, rfl⟩ := exists_group hread hlength
    refine ⟨g :: gs, List.forall_mem_cons.2 ⟨hg, hgs⟩, rfl, ?_, hle⟩
    rw [List.map_cons, List.sum_cons, Nat.add_assoc]

/-! ### Durations -/

/-- No groups are written like the zero that needs no unit. -/
theorem flatMap_text_ne_zero {gs : List Group} (hgs : ∀ g ∈ gs, g.Valid) :
    gs.flatMap Group.text ≠ ['0'] := by
  intro h
  cases gs with
  | nil => simp at h
  | cons g gs =>
    rw [List.forall_mem_cons] at hgs
    have hread := read?_text hgs.1 (stops_flatMap_text hgs.2)
    rw [← List.flatMap_cons, h] at hread
    have hnone : Component.read? ['0'] = none := by decide
    rw [hnone] at hread
    cases hread

/-- The text without a sign is that of groups in range. -/
theorem magnitude_eq_ok_iff {s : List Char} {n : ℕ} : magnitude s = .ok n ↔
    ∃ gs : List Group, (∀ g ∈ gs, g.Valid) ∧ s = Written.body gs ∧
      (gs.map Group.nanoseconds).sum ≤ 2 ^ 63 - 1 ∧
      n = (gs.map Group.nanoseconds).sum / 1000 := by
  constructor
  · intro h
    unfold magnitude at h
    split at h
    · next hs =>
      obtain rfl := Except.ok.inj h
      exact ⟨[], by simp, hs, by simp, rfl⟩
    split at h
    · cases h
    next hs hne =>
    cases htotal : total 0 s with
    | error e => simp [htotal, Except.map] at h
    | ok sum =>
      obtain ⟨gs, hgs, rfl, hsum, hle⟩ := exists_groups htotal (Nat.zero_le _)
      rw [Nat.zero_add] at hsum
      obtain rfl : sum / 1000 = n := by simpa [htotal, Except.map] using h
      refine ⟨gs, hgs, ?_, hsum ▸ hle, by rw [hsum]⟩
      cases gs with
      | nil => exact absurd rfl hne
      | cons g gs => rfl
  · intro ⟨gs, hgs, hs, hle, hn⟩
    cases gs with
    | nil => rw [hs, hn]; rfl
    | cons g gs =>
      obtain rfl : s = (g :: gs).flatMap Group.text := hs
      have hne : (g :: gs).flatMap Group.text ≠ [] := by
        rw [List.flatMap_cons]
        exact List.append_ne_nil_of_left_ne_nil (text_ne_nil (hgs g List.mem_cons_self)) _
      have htotal : total 0 ((g :: gs).flatMap Group.text) = .ok (0 + _) :=
        total_flatMap_text hgs (by rw [Nat.zero_add]; exact hle)
      rw [magnitude, if_neg (flatMap_text_ne_zero hgs), if_neg hne, htotal, Nat.zero_add, hn]
      rfl

/-- Whether a text starts without a sign. -/
def Unsigned (s : List Char) : Prop := s.head? ≠ some '-' ∧ s.head? ≠ some '+'

theorem unsigned_body {gs : List Group} (hgs : ∀ g ∈ gs, g.Valid) : Unsigned (Written.body gs) := by
  cases gs with
  | nil => exact ⟨by decide, by decide⟩
  | cons g gs =>
    have hstops := stops_flatMap_text hgs
    exact ⟨fun h => absurd (hstops '-' h) (by decide), fun h => absurd (hstops '+' h) (by decide)⟩

theorem exists_sign (s : List Char) : ∃ sign rest, s = Sign.text sign ++ rest ∧
    (sign = none → Unsigned rest) := by
  by_cases hminus : s.head? = some '-'
  · obtain ⟨rest, rfl⟩ := List.head?_eq_some_iff.1 hminus
    exact ⟨some .minus, rest, rfl, nofun⟩
  by_cases hplus : s.head? = some '+'
  · obtain ⟨rest, rfl⟩ := List.head?_eq_some_iff.1 hplus
    exact ⟨some .plus, rest, rfl, nofun⟩
  · exact ⟨none, s, rfl, fun _ => ⟨hminus, hplus⟩⟩

/-- The sign is taken off, and put on what the rest denotes. -/
theorem parse_of_sign {text : String} {sign : Option Sign} {rest : List Char}
    (htext : text.toList = Sign.text sign ++ rest) (hrest : sign = none → Unsigned rest) :
    parse text = (magnitude rest).map fun (n : ℕ) => ⟨Sign.factor sign * n⟩ := by
  rw [parse, htext]
  cases sign with
  | none =>
    obtain ⟨hminus, hplus⟩ := hrest rfl
    simp only [Sign.text, Sign.factor, List.nil_append, one_mul]
    split
    · exact absurd rfl hminus
    · exact absurd rfl hplus
    · cases magnitude rest <;> rfl
  | some sign =>
    cases sign with
    | plus =>
      simp only [Sign.text, Sign.factor, List.cons_append, List.nil_append, one_mul]
      cases magnitude rest <;> rfl
    | minus =>
      simp only [Sign.text, Sign.factor, List.cons_append, List.nil_append, neg_mul, one_mul]
      cases magnitude rest <;> rfl

/-- A text is read as a duration exactly if it is one that can be written and its sum is in range.
-/
theorem parse_eq_ok_iff (text : String) (d : Duration) : parse text = .ok d ↔
    ∃ w : Written, w.Valid ∧ text.toList = w.text ∧ w.nanoseconds ≤ 2 ^ 63 - 1 ∧
      d.microseconds = w.microseconds := by
  constructor
  · intro h
    obtain ⟨sign, rest, htext, hrest⟩ := exists_sign text.toList
    rw [parse_of_sign htext hrest] at h
    cases hmagnitude : magnitude rest with
    | error e => simp [hmagnitude, Except.map] at h
    | ok n =>
      obtain ⟨gs, hgs, rfl, hle, hn⟩ := magnitude_eq_ok_iff.1 hmagnitude
      rw [hmagnitude] at h
      obtain rfl := Except.ok.inj h
      exact ⟨⟨sign, gs⟩, hgs, htext, hle, by rw [hn]; rfl⟩
  · intro ⟨w, hw, htext, hle, hd⟩
    have hmagnitude := magnitude_eq_ok_iff.2 ⟨w.groups, hw, rfl, hle, rfl⟩
    rw [parse_of_sign htext fun _ => unsigned_body hw, hmagnitude]
    exact congrArg Except.ok (congrArg Duration.mk hd.symm)

/-- Reading follows the grammar: a text denotes a duration exactly if it is one that can be written
and its sum is in range, every other text is refused, and a minus sign turns what is denoted
around. -/
theorem parse_follows_grammar (text : String) :
    (∀ d, parse text = .ok d ↔ ∃ w : Written, w.Valid ∧ text.toList = w.text ∧
        w.nanoseconds ≤ 2 ^ 63 - 1 ∧ d.microseconds = w.microseconds) ∧
      ((∃ e, parse text = .error e) ↔ ¬∃ w : Written, w.Valid ∧ text.toList = w.text ∧
        w.nanoseconds ≤ 2 ^ 63 - 1) ∧
      (Unsigned text.toList →
        ∀ n, parse ("-" ++ text) = .ok ⟨-n⟩ ↔ parse text = .ok ⟨n⟩) := by
  refine ⟨parse_eq_ok_iff text, ?_, ?_⟩
  · constructor
    · intro ⟨e, he⟩ ⟨w, hw, htext, hle⟩
      have hok := (parse_eq_ok_iff text ⟨w.microseconds⟩).2 ⟨w, hw, htext, hle, rfl⟩
      rw [he] at hok
      cases hok
    · intro hnone
      cases hparse : parse text with
      | error e => exact ⟨e, rfl⟩
      | ok d =>
        obtain ⟨w, hw, htext, hle, -⟩ := (parse_eq_ok_iff text d).1 hparse
        exact absurd ⟨w, hw, htext, hle⟩ hnone
  · intro hunsigned n
    have hminus : ("-" ++ text).toList = Sign.text (some .minus) ++ text.toList := by
      rw [String.toList_append]
      rfl
    have hplain : text.toList = Sign.text none ++ text.toList := rfl
    rw [parse_of_sign hminus nofun, parse_of_sign hplain fun _ => hunsigned]
    cases magnitude text.toList with
    | error e => simp [Except.map]
    | ok m => simp [Except.map, Sign.factor]

end BundlePlan.Duration
