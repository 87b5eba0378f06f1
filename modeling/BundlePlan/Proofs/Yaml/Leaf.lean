import BundlePlan.Proofs.Yaml.Key

/-!
# Reading leaves and keys back

A leaf is read as what it is: it is no indicator, no key stands on its first line, and it ends
where its line ends. A short key is read up to its colon.
-/

namespace BundlePlan.Yaml

/-! ### Words -/

/-- Whether a value is written as a plain scalar that is no text. -/
def isPlainWord : Value → Bool
  | .null | .bool _ | .int _ => true
  | _ => false

theorem ne_text_of_isPlainWord {v : Value} (hv : isPlainWord v = true) : ∀ s, v ≠ .text s := by
  rintro s rfl
  exact absurd hv Bool.false_ne_true

theorem hasValueIndicator_of_not_mem {s : List Char} (h : ':' ∉ s) :
    hasValueIndicator s = false := by
  induction s with
  | nil => rfl
  | cons c s ih =>
    simp only [List.mem_cons, not_or] at h
    rw [hasValueIndicator, ih h.2, beq_eq_false_iff_ne.2 (Ne.symm h.1)]
    rfl

theorem hasCommentIndicator_of_not_mem {s : List Char} (h : ' ' ∉ s) :
    hasCommentIndicator s = false := by
  induction s with
  | nil => rfl
  | cons c s ih =>
    simp only [List.mem_cons, not_or] at h
    rw [hasCommentIndicator, ih h.2, beq_eq_false_iff_ne.2 (Ne.symm h.1)]
    rfl

theorem hasLeadingIndicator_intText (n : Int) : hasLeadingIndicator (Value.intText n) = false := by
  obtain ⟨d, ds, hd, -, h | h⟩ := intText_shape n
  · have hlead : d ∉ leadingIndicators := not_mem_of_isDigit hd (by decide)
    have hquestion : d ≠ '?' := isDigit_ne hd (by decide)
    have hdash : d ≠ '-' := isDigit_ne hd (by decide)
    rw [h]
    simp [hasLeadingIndicator, hlead, hquestion, hdash]
  · have hspace : d ≠ ' ' := isDigit_ne hd (by decide)
    rw [h]
    simp [hasLeadingIndicator, endsOrSpaces, hspace, show '-' ∉ leadingIndicators by decide]

theorem plainSafe_word {v : Value} (hv : isPlainWord v = true) : PlainSafe (word v) := by
  have htext := ne_text_of_isPlainWord hv
  have hspace : ' ' ∉ word v := fun h => (mem_word htext ' ' h).2 rfl
  have hcolon : ':' ∉ word v := by
    cases v with
    | null => decide
    | bool b => cases b <;> decide
    | int n =>
      intro h
      rcases mem_intText h with h | h
      · exact absurd h (by decide)
      · exact absurd h (by decide)
    | _ => exact absurd hv Bool.false_ne_true
  have hlead : hasLeadingIndicator (word v) = false := by
    cases v with
    | null => decide
    | bool b => cases b <;> decide
    | int n => exact hasLeadingIndicator_intText n
    | _ => exact absurd hv Bool.false_ne_true
  have hne : word v ≠ [] := by
    cases v with
    | null => decide
    | bool b => cases b <;> decide
    | int n =>
      obtain ⟨d, ds, -, -, h | h⟩ := intText_shape n
      · rw [word, h]
        exact List.cons_ne_nil _ _
      · rw [word, h]
        exact List.cons_ne_nil _ _
    | _ => exact absurd hv Bool.false_ne_true
  refine ⟨newline_not_mem_word htext, hasValueIndicator_of_not_mem hcolon,
    hasCommentIndicator_of_not_mem hspace, hlead, ?_, ?_, hne⟩
  · exact fun h => hspace (List.mem_of_mem_head? h)
  · exact fun h => hspace (List.mem_of_getLast? h)

theorem leafText_eq_plain (m : Margin) {v : Value} (hv : isPlainWord v = true) :
    leafText m v = plain m (word v) := by
  have htext := ne_text_of_isPlainWord hv
  rw [leafText_eq_word m htext, plain,
    plainFrom_of_not_mem _ _ _ fun h => (mem_word htext ' ' h).2 rfl]

/-! ### Leaves -/

/-- The node that a leaf is, with its lines after the first at column `indent`. -/
def leafNode (indent : Nat) : Value → Node
  | .text s => .scalar ⟨Style.ofText s.toList, textBack indent s.toList⟩
  | .list _ => .list []
  | .mapping _ => .mapping []
  | v => .scalar ⟨.plain, word v⟩

theorem leafNode_eq_plain (indent : Nat) {v : Value} (hv : isPlainWord v = true) :
    leafNode indent v = .scalar ⟨.plain, word v⟩ := by
  cases v with
  | null | bool _ | int _ => rfl
  | _ => exact absurd hv Bool.false_ne_true

theorem noMark_leafText (m : Margin) (v : Value) (rest : List Char) :
    NoMark (leafText m v ++ rest) := by
  by_cases hword : isPlainWord v = true
  · rw [leafText_eq_plain m hword]
    exact (plainSafe_word hword).noMark rest
  · cases v with
    | text s => exact noMark_textScalar m s.toList rest
    | list _ => exact noMark_of_ne _ (by decide)
    | mapping _ => exact noMark_of_ne _ (by decide)
    | _ => exact absurd rfl hword

/-- A text that is not plain starts with a quote. -/
theorem textScalar_eq_quote (m : Margin) {s : List Char} (h : Style.ofText s ≠ .plain) :
    ∃ q t, IsQuote q ∧ textScalar m s = q :: t := by
  unfold textScalar
  split
  · rename_i hstyle
    exact absurd hstyle h
  · exact ⟨'\'', _, Or.inr rfl, rfl⟩
  · exact ⟨'"', _, Or.inl rfl, rfl⟩

section

variable {m : Margin} {least : Nat} {rest : List Char}

theorem PlainSafe.readInline {s : List Char} (hs : PlainSafe s) (hm : least ≤ m.indent)
    (hrest : EndsBlock least rest) :
    readInline least (plain m s ++ rest) = some (.scalar ⟨.plain, s⟩, rest) := by
  have hall : ∀ c, c ∉ leadingIndicators → c ≠ '[' ∧ c ≠ '\x7b' := by
    intro c hc
    constructor <;> rintro rfl <;> exact hc (by decide)
  rw [readInline_of_head fun c hc => hall c (hs.head_not_mem rest c hc),
    hs.readScalar hm hrest.stopsPlain]
  rfl

/-- A leaf is read as what it is. -/
theorem readInline_leafText (hm : least ≤ m.indent) (hfolds : m.folds = true)
    (hcolumn : ColumnOk m (m.column + 1)) (v : Value) (hrest : EndsBlock least rest) :
    readInline least (leafText m v ++ rest) = some (leafNode m.indent v, rest) := by
  by_cases hword : isPlainWord v = true
  · rw [leafText_eq_plain m hword, leafNode_eq_plain _ hword,
      (plainSafe_word hword).readInline hm hrest]
  · cases v with
    | text s =>
      rw [leafText, leafNode]
      have hread := readScalar_folded hm hfolds hcolumn s.toList hrest.stopsPlain hrest.endsQuote
      by_cases hstyle : Style.ofText s.toList = .plain
      · have hplain : textScalar m s.toList = plain m s.toList := by rw [textScalar, hstyle]
        rw [hplain, (plainSafe_of_style hstyle).readInline hm hrest, hstyle,
          textBack_of_ne (by rw [hstyle]; decide)]
      · obtain ⟨q, t, hq, htext⟩ := textScalar_eq_quote m hstyle
        have hhead : ∀ c ∈ (textScalar m s.toList ++ rest).head?, c ≠ '[' ∧ c ≠ '\x7b' := by
          rw [htext]
          rintro c ⟨⟩
          rcases hq with rfl | rfl <;> decide
        rw [readInline_of_head hhead, hread]
        rfl
    | list _ => rfl
    | mapping _ => rfl
    | _ => exact absurd rfl hword

/-- No key stands on the first line of a leaf. -/
theorem readKey?_leafText (hm : least ≤ m.indent) (hcolumn : ColumnOk m (m.column + 1)) (v : Value)
    (hrest : EndsBlock least rest) : readKey? (leafText m v ++ rest) = none := by
  by_cases hword : isPlainWord v = true
  · rw [leafText_eq_plain m hword]
    exact (plainSafe_word hword).readKey? hrest
  · cases v with
    | text s =>
      rw [leafText]
      by_cases hstyle : Style.ofText s.toList = .plain
      · have hplain : textScalar m s.toList = plain m s.toList := by rw [textScalar, hstyle]
        rw [hplain]
        exact (plainSafe_of_style hstyle).readKey? hrest
      · have hread := readScalar_textScalar hm hcolumn s.toList hrest.stopsPlain hrest.endsQuote
        obtain ⟨q, t, hq, htext⟩ := textScalar_eq_quote m hstyle
        rw [htext, List.cons_append] at hread ⊢
        exact readKey?_quote hq hread hrest.startsBreak
    | list _ => rfl
    | mapping _ => rfl
    | _ => exact absurd rfl hword

/-- A leaf that ends its line is read as a node. -/
theorem readNode_leafText (hm : least ≤ m.indent) (hfolds : m.folds = true)
    (hcolumn : ColumnOk m (m.column + 1)) (v : Value) (hrest : EndsBlock least rest)
    (fuel column : Nat) :
    readNode (fuel + 1) least column (leafText m v ++ rest) = some (leafNode m.indent v, rest) := by
  have hmark := noMark_leafText m v rest
  rw [readNode, hmark.dash, hmark.question, readKey?_leafText hm hcolumn v hrest, readLeaf,
    readInline_leafText hm hfolds hcolumn v hrest]
  simp [Option.filter, hrest.endsLine]

end

/-! ### Keys -/

theorem endsWord_takeWhile {u : List Char} (h : endsWord u = true) :
    endsWord (u.takeWhile (· != '\n')) = true := by
  cases u with
  | nil => rfl
  | cons c u =>
    simp only [endsWord, Bool.or_eq_true, beq_iff_eq] at h
    rcases h with rfl | rfl <;> rfl

/-- A short key is read up to its colon. -/
theorem readKey?_simpleKeyText (i : Nat) {key u : List Char} (hkey : isSimpleKey key = true)
    (hu : endsWord u = true) :
    readKey? (simpleKeyText i key ++ u) = some (⟨Style.ofText key, key⟩, u) := by
  have hbreak : ∀ c ∈ textScalar ⟨i + 2, i, false⟩ key, (c != '\n') = true := by
    rintro c hc
    refine bne_iff_ne.2 ?_
    rintro rfl
    exact newline_not_mem_textScalar rfl (newline_not_mem_of_isSimpleKey hkey) hc
  have hcolon : ((':' :: u).takeWhile (· != '\n')) = ':' :: u.takeWhile (· != '\n') := rfl
  have hu' := endsWord_takeWhile hu
  have hquote : EndsQuote (':' :: u.takeWhile (· != '\n')) := by
    rintro ⟨⟩
  rw [simpleKeyText, List.append_assoc, List.singleton_append, readKey?]
  simp only
  rw [List.takeWhile_append_of_pos hbreak, List.dropWhile_append_of_pos hbreak, hcolon,
    readScalar_unfolded (Nat.zero_le _) rfl key (stopsPlain_colon hu') hquote, Option.bind_some,
    afterMark?, if_pos ⟨rfl, hu'⟩]
  have hsplit := List.takeWhile_append_dropWhile (p := (· != '\n')) (l := u)
  simp only [Option.map_some]
  exact congrArg (fun t => some (_, t)) hsplit

theorem noMark_simpleKeyText (i : Nat) (key u : List Char) : NoMark (simpleKeyText i key ++ u) := by
  rw [simpleKeyText, List.append_assoc]
  exact noMark_textScalar _ _ _

end BundlePlan.Yaml
