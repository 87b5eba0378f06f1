import BundlePlan.Markup.Reading
import Mathlib.Data.List.Induction

/-!
# Which tags a message has

The rule for tags: of the tags in a message the leftmost one is taken, with all the backslashes
right before it, and then the leftmost one in what follows. A tag that is taken counts if it has an
even number of backslashes before it. `Reads` is this rule, said of the message as a whole, and
`reads_iff_tags_eq` says that `tags` follows it.

The reader goes through a message character by character, and of what it has read only the
backslashes right before its place matter (`pendingAfter`). A text in which there is no tag just
moves it on (`tagsFrom_append`), provided that what follows does not close a bracket of it.
-/

namespace BundlePlan.Markup

variable {pending : ℕ} {c : Char} {s t u name after : List Char}

/-! ### The rule -/

/-- What can stand between the brackets of a tag. -/
structure IsTagName (name : List Char) : Prop where
  start : ∃ c rest, name = c :: rest ∧ startsTagName c = true
  plain : ∀ c ∈ name, c ≠ '[' ∧ c ≠ ']'

/-- There is no tag in the text. -/
def NoTag (s : List Char) : Prop := ∀ name, IsTagName name → ¬ '[' :: (name ++ [']']) <:+: s

/-- The tags of a text that count, in order. -/
inductive Reads : List Char → List (List Char) → Prop where
  /-- A text without tags has none. -/
  | done {s : List Char} (h : NoTag s) : Reads s []
  /-- The leftmost tag counts if the number of all the backslashes right before it is even; either
  way reading goes on after it. -/
  | tag {before name after : List Char} {names : List (List Char)} (count : ℕ)
    (hbefore : NoTag before) (hlast : before.getLast? ≠ some '\\') (hname : IsTagName name)
    (h : Reads after names) :
    Reads (before ++ (List.replicate count '\\' ++ '[' :: (name ++ ']' :: after)))
      (if count % 2 = 0 then name :: names else names)

/-! ### Brackets -/

theorem closesNext_iff : closesNext s = true ↔
    ∃ u after, (∀ c ∈ u, c ≠ '[' ∧ c ≠ ']') ∧ s = u ++ ']' :: after := by
  induction s with
  | nil => simp [closesNext]
  | cons c s ih =>
    rw [closesNext, Bool.or_eq_true, Bool.and_eq_true, ih, beq_iff_eq, bne_iff_ne]
    constructor
    · rintro (rfl | ⟨hopen, u, after, hu, rfl⟩)
      · exact ⟨[], s, nofun, rfl⟩
      · by_cases hclose : c = ']'
        · exact ⟨[], u ++ ']' :: after, nofun, by rw [hclose]; rfl⟩
        · exact ⟨c :: u, after, List.forall_mem_cons.2 ⟨⟨hopen, hclose⟩, hu⟩, rfl⟩
    · rintro ⟨u, after, hu, hs⟩
      cases u with
      | nil => exact Or.inl (List.cons.inj hs).1
      | cons d u =>
        obtain ⟨rfl, rfl⟩ := List.cons.inj hs
        obtain ⟨hd, hu⟩ := List.forall_mem_cons.1 hu
        exact Or.inr ⟨hd.1, u, after, hu, rfl⟩

theorem isTagAfterBracket_iff : isTagAfterBracket s = true ↔
    ∃ name after, IsTagName name ∧ s = name ++ ']' :: after := by
  cases s with
  | nil => simp [isTagAfterBracket]
  | cons c s =>
    rw [isTagAfterBracket, Bool.and_eq_true, closesNext_iff]
    constructor
    · rintro ⟨hc, u, after, hu, rfl⟩
      have hplain : c ≠ '[' ∧ c ≠ ']' := by
        constructor <;> rintro rfl <;> exact absurd hc (by decide)
      exact ⟨c :: u, after, ⟨⟨c, u, rfl, hc⟩, List.forall_mem_cons.2 ⟨hplain, hu⟩⟩, rfl⟩
    · rintro ⟨name, after, ⟨⟨d, u, rfl, hd⟩, hplain⟩, hs⟩
      obtain ⟨rfl, rfl⟩ := List.cons.inj hs
      exact ⟨hd, u, after, (List.forall_mem_cons.1 hplain).2, rfl⟩

/-- What does not close a bracket does not make a tag of one. -/
theorem isTagAfterBracket_of_closesNext (h : closesNext s = false) :
    isTagAfterBracket s = false := by
  cases s with
  | nil => rfl
  | cons c s =>
    rw [closesNext, Bool.or_eq_false_iff, Bool.and_eq_false_iff] at h
    rw [isTagAfterBracket, Bool.and_eq_false_iff]
    obtain hopen | hclose := h.2
    · obtain rfl : c = '[' := by simpa using hopen
      exact Or.inl rfl
    · exact Or.inr hclose

theorem closesNext_append (h : closesNext s = false) (u : List Char) :
    closesNext (u ++ s) = closesNext u := by
  induction u with
  | nil => exact h
  | cons c u ih => rw [List.cons_append, closesNext, closesNext, ih]

theorem isTagAfterBracket_append (h : closesNext s = false) (u : List Char) :
    isTagAfterBracket (u ++ s) = isTagAfterBracket u := by
  cases u with
  | nil => exact isTagAfterBracket_of_closesNext h
  | cons c u => rw [List.cons_append, isTagAfterBracket, isTagAfterBracket, closesNext_append h]

/-- Backslashes and a bracket close nothing. -/
theorem closesNext_replicate (count : ℕ) (s : List Char) :
    closesNext (List.replicate count '\\' ++ '[' :: s) = false := by
  induction count with
  | zero => rfl
  | succ count ih => rw [List.replicate_succ, List.cons_append, closesNext, ih]; rfl

/-- Whether there is a tag in the text. -/
def hasTag : List Char → Bool
  | [] => false
  | c :: s => startsWithTag (c :: s) || hasTag s

theorem hasTag_iff : hasTag s = true ↔ ∃ name, IsTagName name ∧ '[' :: (name ++ [']']) <:+: s := by
  induction s with
  | nil => simp [hasTag]
  | cons c s ih =>
    rw [hasTag, Bool.or_eq_true, ih, startsWithTag, Bool.and_eq_true, beq_iff_eq,
      isTagAfterBracket_iff]
    simp only [List.infix_cons_iff, and_or_left, exists_or]
    refine or_congr_left ?_
    constructor
    · rintro ⟨rfl, name, after, hname, rfl⟩
      exact ⟨name, hname, after, by simp⟩
    · rintro ⟨name, hname, after, hs⟩
      obtain ⟨rfl, rfl⟩ := List.cons.inj hs
      exact ⟨rfl, name, after, hname, by simp⟩

theorem noTag_iff : NoTag s ↔ hasTag s = false := by
  rw [← Bool.not_eq_true, hasTag_iff]
  simp [NoTag]

/-! ### The reader -/

/-- The name of a tag, none if it is a character. -/
def Piece.tagName? : Piece → Option (List Char)
  | .tag name => some name
  | .char _ => none

/-- The tags that are read in a text with so many backslashes right before it. -/
def tagsFrom (pending : ℕ) (s : List Char) : List (List Char) :=
  (readFrom 0 pending s).filterMap Piece.tagName?

/-- The backslashes right before the place after a text. -/
def pendingAfter (pending : ℕ) (s : List Char) : ℕ :=
  s.foldl (fun n c => if c = '\\' then n + 1 else 0) pending

@[simp] theorem pendingAfter_nil : pendingAfter pending [] = pending := rfl

@[simp] theorem pendingAfter_cons :
    pendingAfter pending (c :: s) = pendingAfter (if c = '\\' then pending + 1 else 0) s := rfl

@[simp] theorem pendingAfter_append :
    pendingAfter pending (s ++ t) = pendingAfter (pendingAfter pending s) t := List.foldl_append

theorem pendingAfter_replicate (count : ℕ) :
    pendingAfter pending (List.replicate count '\\') = pending + count := by
  induction count generalizing pending with
  | zero => rfl
  | succ count ih =>
    rw [List.replicate_succ, pendingAfter_cons, if_pos rfl, ih]
    omega

theorem pendingAfter_eq_zero (h : s.getLast? ≠ some '\\') : pendingAfter 0 s = 0 := by
  induction s using List.reverseRecOn with
  | nil => rfl
  | append_singleton s c _ =>
    rw [List.getLast?_concat, ne_eq, Option.some.injEq] at h
    rw [pendingAfter_append, pendingAfter_cons, if_neg h, pendingAfter_nil]

/-- What stands right before a text does not matter after a character other than a backslash. -/
theorem pendingAfter_eq_of_mem {c : Char} (hmem : c ∈ s) (hc : c ≠ '\\') (p q : ℕ) :
    pendingAfter p s = pendingAfter q s := by
  obtain ⟨before, after, rfl⟩ := List.append_of_mem hmem
  simp [hc]

theorem filterMap_shown (s : List Char) : (shown s).filterMap Piece.tagName? = [] := by
  rw [shown, List.filterMap_map]
  exact List.filterMap_eq_nil_iff.2 fun _ _ => rfl

theorem readFrom_skip (skipped pending : ℕ) (s : List Char) :
    readFrom skipped pending s = readFrom 0 pending (s.drop skipped) := by
  induction skipped generalizing s with
  | zero => rfl
  | succ skipped ih =>
    cases s with
    | nil => rfl
    | cons c s => exact ih s

@[simp] theorem tagsFrom_nil : tagsFrom pending [] = [] := filterMap_shown _

@[simp] theorem tagsFrom_backslash : tagsFrom pending ('\\' :: s) = tagsFrom (pending + 1) s := rfl

/-- A character that does not start a tag is passed over. -/
theorem tagsFrom_cons (h : startsWithTag (c :: s) = false) :
    tagsFrom pending (c :: s) = tagsFrom (if c = '\\' then pending + 1 else 0) s := by
  have hno : ¬(c = '[' ∧ isTagAfterBracket s = true) := by simpa [startsWithTag] using h
  rw [tagsFrom, readFrom, if_neg hno]
  split
  · rfl
  · rw [List.filterMap_append, filterMap_shown]
    rfl

/-- After an odd number of backslashes a bracket is passed over, whatever it starts. -/
theorem tagsFrom_bracket_of_odd (hodd : pending % 2 = 1) :
    tagsFrom pending ('[' :: s) = tagsFrom 0 s := by
  cases h : isTagAfterBracket s with
  | false => exact tagsFrom_cons (by simp [startsWithTag, h])
  | true =>
    rw [tagsFrom, readFrom, if_neg (by decide), if_pos ⟨rfl, h⟩, if_neg (by omega),
      List.filterMap_append, filterMap_shown]
    rfl

/-- After an even number of backslashes a tag is read. -/
theorem tagsFrom_tag_of_even (heven : pending % 2 = 0) (hname : IsTagName name) :
    tagsFrom pending ('[' :: (name ++ ']' :: after)) = name :: tagsFrom 0 after := by
  have htag : isTagAfterBracket (name ++ ']' :: after) = true :=
    isTagAfterBracket_iff.2 ⟨name, after, hname, rfl⟩
  have htake : (name ++ ']' :: after).takeWhile (· != ']') = name := by
    rw [List.takeWhile_append_of_pos fun c hc => bne_iff_ne.2 (hname.plain c hc).2]
    simp
  have hdrop : (name ++ ']' :: after).drop (name.length + 1) = after := by simp
  simp [tagsFrom, readFrom, htag, heven, htake, readFrom_skip (name.length + 1), hdrop,
    filterMap_shown, Piece.tagName?]

/-- A text without tags is passed over, if what follows does not close a bracket of it. -/
theorem tagsFrom_append (hu : hasTag u = false) (hs : closesNext s = false) :
    tagsFrom pending (u ++ s) = tagsFrom (pendingAfter pending u) s := by
  induction u generalizing pending with
  | nil => rfl
  | cons c u ih =>
    rw [hasTag, Bool.or_eq_false_iff] at hu
    have hstart : startsWithTag (c :: (u ++ s)) = false := by
      rw [startsWithTag, isTagAfterBracket_append hs]
      exact hu.1
    rw [List.cons_append, tagsFrom_cons hstart, ih hu.2, pendingAfter_cons]

/-- Without an opening bracket there is no tag, whatever follows. -/
theorem tagsFrom_append_of_plain (hu : '[' ∉ u) :
    tagsFrom pending (u ++ s) = tagsFrom (pendingAfter pending u) s := by
  induction u generalizing pending with
  | nil => rfl
  | cons c u ih =>
    rw [List.mem_cons, not_or] at hu
    have hstart : startsWithTag (c :: (u ++ s)) = false := by simp [startsWithTag, Ne.symm hu.1]
    rw [List.cons_append, tagsFrom_cons hstart, ih hu.2, pendingAfter_cons]

/-- A tag is passed over like a text after an odd number of backslashes. -/
theorem tagsFrom_tag_of_odd (hodd : pending % 2 = 1) (hname : IsTagName name) :
    tagsFrom pending ('[' :: (name ++ ']' :: after)) = tagsFrom 0 after := by
  have hplain : '[' ∉ name ++ [']'] := by
    rw [List.mem_append, not_or]
    exact ⟨fun hmem => (hname.plain _ hmem).1 rfl, by decide⟩
  rw [tagsFrom_bracket_of_odd hodd, ← List.singleton_append, ← List.append_assoc,
    tagsFrom_append_of_plain hplain, pendingAfter_append]
  rfl

/-- A tag counts after an even number of backslashes. -/
theorem tagsFrom_tag (hname : IsTagName name) :
    tagsFrom pending ('[' :: (name ++ ']' :: after))
      = if pending % 2 = 0 then name :: tagsFrom 0 after else tagsFrom 0 after := by
  split
  · next heven => exact tagsFrom_tag_of_even heven hname
  · next hodd => exact tagsFrom_tag_of_odd (by omega) hname

/-! ### The reader follows the rule -/

/-- In a text with tags there is a leftmost one, with some backslashes right before it. -/
theorem exists_leftmost (h : hasTag s = true) :
    ∃ before count name after, NoTag before ∧ before.getLast? ≠ some '\\' ∧ IsTagName name ∧
      s = before ++ (List.replicate count '\\' ++ '[' :: (name ++ ']' :: after)) := by
  induction s with
  | nil => exact absurd h (by simp [hasTag])
  | cons c s ih =>
    cases hstart : startsWithTag (c :: s) with
    | true =>
      obtain ⟨rfl, htag⟩ : c = '[' ∧ isTagAfterBracket s = true := by
        simpa [startsWithTag] using hstart
      obtain ⟨name, after, hname, rfl⟩ := isTagAfterBracket_iff.1 htag
      exact ⟨[], 0, name, after, noTag_iff.2 rfl, by simp, hname, rfl⟩
    | false =>
      rw [hasTag, hstart, Bool.false_or] at h
      obtain ⟨before, count, name, after, hbefore, hlast, hname, rfl⟩ := ih h
      by_cases hescape : before = [] ∧ c = '\\'
      · obtain ⟨rfl, rfl⟩ := hescape
        exact ⟨[], count + 1, name, after, hbefore, hlast, hname, rfl⟩
      · refine ⟨c :: before, count, name, after, ?_, ?_, hname, rfl⟩
        · rw [startsWithTag, isTagAfterBracket_append (closesNext_replicate _ _)] at hstart
          rw [noTag_iff, hasTag, startsWithTag, hstart, Bool.false_or]
          exact noTag_iff.1 hbefore
        · cases before with
          | nil => simpa using fun hc => hescape ⟨rfl, hc⟩
          | cons d before => simpa using hlast

/-- Every text has tags that count, possibly none. -/
theorem exists_reads (s : List Char) : ∃ names, Reads s names := by
  cases h : hasTag s with
  | false => exact ⟨[], .done (noTag_iff.2 h)⟩
  | true =>
    obtain ⟨before, count, name, after, hbefore, hlast, hname, hs⟩ := exists_leftmost h
    have hshorter : after.length < s.length := by
      rw [hs]
      simp
      omega
    obtain ⟨names, hnames⟩ := exists_reads after
    rw [hs]
    exact ⟨_, .tag count hbefore hlast hname hnames⟩
termination_by s.length

theorem tagsFrom_of_reads {names : List (List Char)} (h : Reads s names) :
    tagsFrom 0 s = names := by
  induction h with
  | @done s h =>
    have htags : tagsFrom 0 (s ++ []) = _ := tagsFrom_append (noTag_iff.1 h) rfl
    rwa [List.append_nil, tagsFrom_nil] at htags
  | tag count hbefore hlast hname _ ih =>
    have hescapes : '[' ∉ List.replicate count '\\' := by simp [List.mem_replicate]
    rw [tagsFrom_append (noTag_iff.1 hbefore) (closesNext_replicate _ _),
      pendingAfter_eq_zero hlast, tagsFrom_append_of_plain hescapes, pendingAfter_replicate,
      tagsFrom_tag hname, Nat.zero_add, ih]

/-- The tags that a message has by the rule are those that are read. -/
theorem reads_iff {names : List (List Char)} : Reads s names ↔ tagsFrom 0 s = names := by
  refine ⟨tagsFrom_of_reads, ?_⟩
  rintro rfl
  obtain ⟨names, hnames⟩ := exists_reads s
  rw [tagsFrom_of_reads hnames]
  exact hnames

theorem reads_iff_tags_eq {s : String} {names : List (List Char)} :
    Reads s.toList names ↔ tags s = names := reads_iff

/-- The first tag stands after two backslashes, the second one after one. -/
example : Reads "\\\\[b]a\\[/b]".toList ["b".toList] := reads_iff.2 (by decide)

end BundlePlan.Markup
