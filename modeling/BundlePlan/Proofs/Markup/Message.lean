import BundlePlan.Markup.Message
import BundlePlan.Proofs.Markup.Escaping

/-!
# The tags of messages

A message puts its own tags around texts that have been escaped. Between tags of a style a text
comes right before the closing one, so that this counts only if the text spares it; everywhere else
a character of the message stands between the text and the next tag.
-/

namespace BundlePlan.Markup

variable {pending : ℕ} {s : List Char} {text : String}

/-- A text of the program itself, in which there are neither brackets nor backslashes. -/
def IsPlain (text : String) : Prop :=
  ∀ c ∈ text.toList, c ≠ '[' ∧ c ≠ ']' ∧ c ≠ '\\'

/-- The tags around a text in a style. -/
def styleTags (style : TextStyle) : List (List Char) :=
  [style.name.toList, '/' :: style.name.toList]

theorem isPlain_of_all (h : text.toList.all fun c => c != '[' && c != ']' && c != '\\') :
    IsPlain text := by
  intro c hc
  simpa [and_assoc] using List.all_eq_true.1 h c hc

theorem IsPlain.not_mem (h : IsPlain text) : '[' ∉ text.toList := fun hmem => (h _ hmem).1 rfl

theorem IsPlain.closesNext (h : IsPlain text) : closesNext text.toList = false := by
  rw [← Bool.not_eq_true, closesNext_iff]
  rintro ⟨u, rest, -, hsplit⟩
  exact (h ']' (by simp [hsplit])).2.1 rfl

/-- A text of the program has no tags, and with it no backslash stands before what follows. -/
theorem tagsFrom_plain_of_ne (h : IsPlain text) (hne : text ≠ "") :
    tagsFrom pending (text.toList ++ s) = tagsFrom 0 s := by
  obtain ⟨c, hc⟩ := List.exists_mem_of_ne_nil text.toList (by simpa using hne)
  have hlast : text.toList.getLast? ≠ some '\\' :=
    fun hlast => (h _ (List.mem_of_getLast? hlast)).2.2 rfl
  rw [tagsFrom_append_of_plain h.not_mem, pendingAfter_eq_of_mem hc (h c hc).2.2 pending 0,
    pendingAfter_eq_zero hlast]

theorem tagsFrom_plain (h : IsPlain text) : tagsFrom 0 (text.toList ++ s) = tagsFrom 0 s := by
  by_cases hne : text = ""
  · rw [hne]
    rfl
  · exact tagsFrom_plain_of_ne h hne

theorem tagsFrom_eq_nil (h : IsPlain text) : tagsFrom 0 text.toList = [] := by
  simpa using tagsFrom_plain h (s := [])

theorem isTagName_name (style : TextStyle) : IsTagName style.name.toList where
  start := by cases style <;> exact ⟨_, _, rfl, by decide⟩
  plain := by
    have hplain : IsPlain style.name := by cases style <;> exact isPlain_of_all rfl
    exact fun c hc => ⟨(hplain c hc).1, (hplain c hc).2.1⟩

theorem isTagName_closing (style : TextStyle) : IsTagName ('/' :: style.name.toList) where
  start := ⟨'/', _, rfl, by decide⟩
  plain := List.forall_mem_cons.2 ⟨by decide, (isTagName_name style).plain⟩

/-- The opening tag of a styled text counts, and what follows is the text and the closing tag. -/
theorem tagsFrom_styled (style : TextStyle) (text : String) (s : List Char) :
    tagsFrom 0 ((styled style text).toList ++ s) = style.name.toList ::
      tagsFrom 0 (text.toList ++ '[' :: ('/' :: style.name.toList ++ ']' :: s)) := by
  have hstyled : styled style text
      = "[" ++ style.name ++ "]" ++ text ++ "[/" ++ style.name ++ "]" := rfl
  rw [← tagsFrom_tag_of_even (Nat.zero_mod 2) (isTagName_name style), hstyled]
  simp

/-- A text of the program is between both tags of its style. -/
theorem tagsFrom_styled_plain (style : TextStyle) (h : IsPlain text) :
    tagsFrom 0 ((styled style text).toList ++ s) = styleTags style ++ tagsFrom 0 s := by
  rw [tagsFrom_styled, tagsFrom_plain h, tagsFrom_tag_of_even rfl (isTagName_closing style)]
  rfl

/-- An escaped text is between both tags of its style exactly if it spares the second one. -/
theorem tagsFrom_styled_escape (style : TextStyle) (text : String) (s : List Char) :
    tagsFrom 0 ((styled style (escape text)).toList ++ s) = (if SparesNextTag text then
      styleTags style else (styleTags style).dropLast) ++ tagsFrom 0 s := by
  have hparity : (if finalBackslashes text = 1 then 2 else finalBackslashes text) % 2 = 0 ↔
      SparesNextTag text := by
    unfold SparesNextTag
    split <;> omega
  rw [tagsFrom_styled, tagsFrom_escape text rfl, tagsFrom_tag (isTagName_closing style)]
  simp only [hparity]
  split <;> rfl

/-- The sign of a message is between both tags of its style. -/
theorem tagsFrom_message (tone : Tone) (text : String) :
    tagsFrom 0 (message tone text).toList = styleTags tone.style ++ tagsFrom 0 text.toList := by
  have hsign : IsPlain tone.sign := by cases tone <;> exact isPlain_of_all rfl
  have hblank : IsPlain " " := isPlain_of_all rfl
  rw [message, String.toList_append, String.toList_append, List.append_assoc,
    tagsFrom_styled_plain _ hsign, tagsFrom_plain hblank]

/-! ### Messages with a text from outside -/

/-- A message that ends with an escaped text has its own tags. -/
theorem tagsFrom_message_escape (tone : Tone) (before text : String) (hbefore : IsPlain before) :
    tagsFrom 0 (message tone (before ++ escape text)).toList = styleTags tone.style := by
  have hnone : tagsFrom 0 (escape text).toList = [] := by
    simpa using tagsFrom_escape text (s := []) rfl
  rw [tagsFrom_message, String.toList_append, tagsFrom_plain hbefore, hnone, List.append_nil]

/-- A message with an escaped text that is highlighted has its own tags exactly if the text spares
the last one. -/
theorem tagsFrom_message_highlight (tone : Tone) (before text after : String)
    (hbefore : IsPlain before) (hafter : IsPlain after) :
    tagsFrom 0 (message tone (before ++ highlight (escape text) ++ after)).toList
      = styleTags tone.style ++ (if SparesNextTag text then styleTags .highlight else
        (styleTags .highlight).dropLast) := by
  rw [tagsFrom_message, String.toList_append, String.toList_append, List.append_assoc,
    tagsFrom_plain hbefore, highlight, tagsFrom_styled_escape, tagsFrom_eq_nil hafter,
    List.append_nil]

/-- A message of progress in which something stands after the escaped text has its own tags. -/
theorem tagsFrom_progress (before text after : String) (hbefore : IsPlain before)
    (hafter : IsPlain after) (hne : after ≠ "") :
    tagsFrom 0 (progress (before ++ escape text ++ after)).toList = styleTags .info := by
  have hopen : ∀ s, closesNext (after.toList ++ '[' :: s) = false := fun s => by
    rw [closesNext_append rfl, hafter.closesNext]
  rw [progress, ← List.append_nil (styled _ _).toList, tagsFrom_styled, String.toList_append,
    String.toList_append, List.append_assoc, List.append_assoc, tagsFrom_plain hbefore,
    tagsFrom_escape text (hopen _), tagsFrom_plain_of_ne hafter hne,
    tagsFrom_tag_of_even rfl (isTagName_closing _), tagsFrom_nil]
  rfl

end BundlePlan.Markup
