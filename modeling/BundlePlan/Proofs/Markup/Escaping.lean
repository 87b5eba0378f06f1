import BundlePlan.Proofs.Markup.Reading

/-!
# What escaping does to tags

In an escaped text no tag counts, and it leaves the place after it with as many backslashes right
before it as the text ends with, save that one backslash is made two (`tagsFrom_escape`). In no
other case are the backslashes at the end of a text doubled, so that an odd number of them, from
three on, makes the tag after the text one that does not count.
-/

namespace BundlePlan.Markup

variable {pending : ℕ} {s x : List Char}

/-- How many backslashes a text ends with. -/
def finalBackslashes (text : String) : ℕ := (text.toList.reverse.takeWhile (· == '\\')).length

/-- A tag right after the text, once that is escaped, counts. -/
def SparesNextTag (text : String) : Prop :=
  finalBackslashes text = 1 ∨ finalBackslashes text % 2 = 0

instance (text : String) : Decidable (SparesNextTag text) :=
  inferInstanceAs (Decidable (_ ∨ _))

theorem pendingAfter_zero (s : List Char) :
    pendingAfter 0 s = (s.reverse.takeWhile (· == '\\')).length := by
  induction s using List.reverseRecOn with
  | nil => rfl
  | append_singleton s c ih =>
    rw [pendingAfter_append, ih, List.reverse_append]
    by_cases hc : c = '\\' <;> simp [hc]

/-! ### Doubled backslashes -/

/-- A tag after backslashes has an opening bracket. -/
theorem mem_of_startsWithTag (h : startsWithTag (s.dropWhile (· == '\\')) = true) : '[' ∈ s := by
  have hsuffix : s.dropWhile (· == '\\') <:+ s := List.dropWhile_suffix _
  refine hsuffix.subset ?_
  cases hdrop : s.dropWhile (· == '\\') with
  | nil => simp [hdrop, startsWithTag] at h
  | cons c rest =>
    obtain ⟨rfl, -⟩ : c = '[' ∧ isTagAfterBracket rest = true := by
      simpa [hdrop, startsWithTag] using h
    exact List.mem_cons_self

theorem closesNext_escapeTags (x : List Char) : closesNext (escapeTags x) = closesNext x := by
  induction x with
  | nil => rfl
  | cons c rest ih =>
    rw [escapeTags]
    split
    · next h =>
      obtain ⟨rfl, -⟩ : c = '\\' ∧ _ := by simpa using h
      simp [closesNext, ih]
    · split
      · next h =>
        obtain ⟨rfl, -⟩ : c = '[' ∧ _ := by simpa using h
        rfl
      · rw [closesNext, closesNext, ih]

theorem isTagAfterBracket_escapeTags (x : List Char) :
    isTagAfterBracket (escapeTags x) = isTagAfterBracket x := by
  cases x with
  | nil => rfl
  | cons c rest =>
    rw [escapeTags]
    split
    · next h =>
      obtain ⟨rfl, -⟩ : c = '\\' ∧ _ := by simpa using h
      rfl
    · split
      · next h =>
        obtain ⟨rfl, -⟩ : c = '[' ∧ _ := by simpa using h
        rfl
      · rw [isTagAfterBracket, isTagAfterBracket, closesNext_escapeTags]

theorem pendingAfter_escapeTags (x : List Char) :
    pendingAfter pending (escapeTags x) = pendingAfter pending x := by
  induction x generalizing pending with
  | nil => rfl
  | cons c rest ih =>
    rw [escapeTags]
    split
    · next h =>
      obtain ⟨rfl, htag⟩ : c = '\\' ∧ _ := by simpa using h
      simpa [ih] using pendingAfter_eq_of_mem (mem_of_startsWithTag htag) (by decide) _ _
    · split
      · next h =>
        obtain ⟨rfl, -⟩ : c = '[' ∧ _ := by simpa using h
        simp [ih]
      · rw [pendingAfter_cons, pendingAfter_cons, ih]

/-- No tag counts in a text whose tags are escaped, if an even number of backslashes stands right
before it or it does not start with a tag, its own backslashes apart. -/
theorem tagsFrom_escapeTags (hs : closesNext s = false)
    (h : pending % 2 = 0 ∨ startsWithTag (x.dropWhile (· == '\\')) = false) :
    tagsFrom pending (escapeTags x ++ s) = tagsFrom (pendingAfter pending x) s := by
  induction x generalizing pending with
  | nil => rfl
  | cons c rest ih =>
    rw [escapeTags, pendingAfter_cons]
    split
    · next hdouble =>
      obtain ⟨rfl, htag⟩ : c = '\\' ∧ _ := by simpa using hdouble
      have heven : pending % 2 = 0 := by simpa [htag] using h
      have hsame := pendingAfter_eq_of_mem (mem_of_startsWithTag htag) (by decide)
      rw [List.cons_append, List.cons_append, tagsFrom_backslash, tagsFrom_backslash,
        ih (Or.inl (by omega)), if_pos rfl, hsame (pending + 1 + 1) (pending + 1)]
    · next hdouble =>
      split
      · next hescape =>
        -- the number of backslashes before the tag is even, and one is added
        obtain ⟨rfl, htag⟩ : c = '[' ∧ isTagAfterBracket rest = true := by simpa using hescape
        have heven : pending % 2 = 0 := by simpa [startsWithTag, htag] using h
        rw [List.cons_append, List.cons_append, tagsFrom_backslash,
          tagsFrom_bracket_of_odd (by omega), ih (Or.inl rfl), if_neg (by decide)]
      · next hescape =>
        have hstart : startsWithTag (c :: (escapeTags rest ++ s)) = false := by
          rw [startsWithTag, isTagAfterBracket_append hs, isTagAfterBracket_escapeTags]
          simpa using hescape
        have hnext : (if c = '\\' then pending + 1 else 0) % 2 = 0 ∨
            startsWithTag (rest.dropWhile (· == '\\')) = false := by
          by_cases hc : c = '\\'
          · exact Or.inr (by simpa [hc] using hdouble)
          · exact Or.inl (by rw [if_neg hc])
        rw [List.cons_append, tagsFrom_cons hstart, ih hnext]

/-! ### Escaped texts -/

theorem endsWithLoneBackslash_iff : endsWithLoneBackslash s = true ↔ pendingAfter 0 s = 1 := by
  rw [pendingAfter_zero, endsWithLoneBackslash]
  rcases s.reverse with - | ⟨c, - | ⟨d, rest⟩⟩
  · simp
  · by_cases hc : c = '\\' <;> simp [hc]
  · by_cases hc : c = '\\' <;> by_cases hd : d = '\\' <;> simp [hc, hd]

/-- No tag counts in an escaped text, and after it there are as many backslashes as it ends with,
but two for one. -/
theorem tagsFrom_escape (text : String) (hs : closesNext s = false) :
    tagsFrom 0 ((escape text).toList ++ s)
      = tagsFrom (if finalBackslashes text = 1 then 2 else finalBackslashes text) s := by
  have hlone : endsWithLoneBackslash (escapeTags text.toList) = true ↔
      finalBackslashes text = 1 := by
    rw [endsWithLoneBackslash_iff, pendingAfter_escapeTags, pendingAfter_zero, finalBackslashes]
  have hfinal : pendingAfter 0 text.toList = finalBackslashes text := pendingAfter_zero _
  simp only [escape, String.toList_ofList, hlone]
  split
  · next hone =>
    have hclose : closesNext ('\\' :: s) = false := by simpa [closesNext] using hs
    rw [List.append_assoc, List.singleton_append, tagsFrom_escapeTags hclose (Or.inl rfl), hfinal,
      hone, tagsFrom_backslash]
  · rw [tagsFrom_escapeTags hs (Or.inl rfl), hfinal]

end BundlePlan.Markup
