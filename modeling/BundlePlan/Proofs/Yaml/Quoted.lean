import BundlePlan.Proofs.Yaml.Plain

/-!
# Quoted scalars are read back

Text in single quotes is read back as it was. Text in double quotes is read back as it was unless
its lines are indented by `lineWidth` columns or more: then a line is folded twice in a row where
an escape comes before a space, and the two backslashes of the two folds meet and are read as an
escaped backslash. `foldedTwice` is what is read then.
-/

namespace BundlePlan.Yaml

theorem prepend_some (a b rest : List Char) : prepend a (some (b, rest)) = some (a ++ b, rest) :=
  rfl

theorem prepend_prepend (a b : List Char) (r : Option (List Char × List Char)) :
    prepend a (prepend b r) = prepend (a ++ b) r := by
  cases r with
  | none => rfl
  | some p => simp [prepend]

@[simp] theorem prepend_nil (r : Option (List Char × List Char)) : prepend [] r = r := by
  cases r <;> rfl

/-! ### Single quotes -/

theorem readSingle_cons (g : Gap) (c : Char) (t : List Char) (h : c ≠ '\'') :
    readSingle g (c :: t) =
      if c = ' ' then readSingle g.space t
      else if c = '\n' then readSingle g.newline t
      else prepend (g.text ++ [c]) (readSingle {} t) := by
  rw [readSingle.eq_def]
  simp only [if_neg h]

theorem readSingle_spaces (t : List Char) (g : Gap) (k : Nat) :
    readSingle g (List.replicate k ' ' ++ t) = readSingle (g.spaced k) t := by
  induction k generalizing g with
  | zero => rfl
  | succ k ih =>
    rw [List.replicate_succ, List.cons_append, readSingle_cons _ _ _ (by decide), if_pos rfl, ih,
      Gap.space_spaced]

theorem readSingle_newline (t : List Char) (g : Gap) :
    readSingle g ('\n' :: t) = readSingle g.newline t := by
  rw [readSingle_cons _ _ _ (by decide), if_neg (by decide), if_pos rfl]

theorem readSingle_quote (t : List Char) (g : Gap) :
    readSingle g ('\'' :: '\'' :: t) = prepend (g.text ++ ['\'']) (readSingle {} t) := rfl

/-- The text does not go on with a quote, so that a quote before it is the end. -/
def EndsQuote (rest : List Char) : Prop := rest.head? ≠ some '\''

theorem readSingle_end {rest : List Char} (h : EndsQuote rest) (g : Gap) :
    readSingle g ('\'' :: rest) = some (g.text, rest) := by
  cases rest with
  | nil => rfl
  | cons c rest =>
    have hc : c ≠ '\'' := fun heq => h (congrArg some heq)
    rw [readSingle.eq_def]
    simp [hc]

theorem spaceMeetsBreak_cons {c : Char} {s : List Char} (h : spaceMeetsBreak (c :: s) = false) :
    (c = ' ' → s.head? ≠ some '\n') ∧ (c = '\n' → s.head? ≠ some ' ') ∧
      spaceMeetsBreak s = false := by
  cases s with
  | nil => simp [spaceMeetsBreak]
  | cons d s =>
    simp only [spaceMeetsBreak, Bool.or_eq_false_iff, Bool.and_eq_false_imp, beq_iff_eq] at h
    obtain ⟨⟨h1, h2⟩, h3⟩ := h
    refine ⟨fun hc hd => ?_, fun hc hd => ?_, h3⟩
    · obtain rfl : d = '\n' := by simpa using hd
      exact absurd (h1 hc) (by decide)
    · obtain rfl : d = ' ' := by simpa using hd
      exact absurd (h2 hc) (by decide)

/-- The gap before the rest `s` of a text in single quotes after the character `previous`: spaces,
the white space of a folded line, or line breaks of the text, written once more. -/
inductive SingleGap (previous : Char) (s : List Char) : Gap → Prop where
  | spaces (n : Nat) (hbreak : previous ≠ '\n') (hspace : previous ≠ ' ' → n = 0)
      (hnext : s.head? = some '\n' → n = 0) : SingleGap previous s { spaces := n }
  | folded (k : Nat) (hprev : previous = ' ') (hnext : s.head? ≠ some ' ')
      (hnext' : s.head? ≠ some '\n') : SingleGap previous s (foldGap k)
  | breaks (n k : Nat) (hprev : previous = '\n') (hnext : s.head? ≠ some ' ') :
      SingleGap previous s { spaces := k, breaks := n + 2 }

theorem SingleGap.start (c : Char) {s : List Char} (h : c ≠ '\n') : SingleGap c s {} :=
  .spaces 0 h (fun _ => rfl) fun _ => rfl

/-- The indentation that stands after a run of line breaks. -/
def breakIndent (m : Margin) (s : List Char) : Nat := if s.head? = some '\n' then 0 else m.indent

/-- A line break of the text, as it is written, makes the gap longer by a line break. -/
theorem readSingle_break (m : Margin) {s : List Char} {previous : Char} {g : Gap}
    (hg : SingleGap previous ('\n' :: s) g) (hnext : s.head? ≠ some ' ') (t : List Char) :
    ∃ g', SingleGap '\n' s g' ∧ g'.text = g.text ++ ['\n'] ∧
      readSingle g ((if previous = '\n' then ['\n'] else ['\n', '\n'])
        ++ (if s.head? = some '\n' then [] else List.replicate m.indent ' ') ++ t)
      = readSingle g' t := by
  have hindent : (if s.head? = some '\n' then [] else List.replicate m.indent ' ')
      = List.replicate (breakIndent m s) ' ' := by
    unfold breakIndent
    split <;> rfl
  rw [hindent]
  cases hg with
  | spaces n hbreak hspace hzero =>
    obtain rfl := hzero rfl
    refine ⟨_, .breaks 0 (breakIndent m s) rfl hnext, rfl, ?_⟩
    rw [if_neg hbreak]
    simp only [List.cons_append, List.nil_append]
    rw [readSingle_newline, readSingle_newline, readSingle_spaces]
    simp [Gap.newline, Gap.spaced]
  | folded k hprev hne hne' => exact absurd rfl hne'
  | breaks n k hprev hne =>
    refine ⟨_, .breaks (n + 1) (breakIndent m s) rfl hnext, ?_, ?_⟩
    · simp [Gap.text, List.replicate_succ']
    · rw [if_pos hprev]
      simp only [List.cons_append, List.nil_append]
      rw [readSingle_newline, readSingle_spaces]
      simp [Gap.newline, Gap.spaced]

/-- The rest of a text in single quotes is read with the gap before it. -/
theorem readSingle_singleFrom (m : Margin) {rest : List Char} (hrest : EndsQuote rest)
    (s : List Char) (hs : spaceMeetsBreak s = false) (previous : Char) (column : Nat) (g : Gap)
    (hg : SingleGap previous s g) :
    readSingle g (singleFrom m previous column s ++ '\'' :: rest) = some (g.text ++ s, rest) := by
  induction s generalizing previous column g with
  | nil => rw [singleFrom, List.nil_append, readSingle_end hrest, List.append_nil]
  | cons c s ih =>
    obtain ⟨hafterSpace, hafterBreak, hs'⟩ := spaceMeetsBreak_cons hs
    have ih := ih hs'
    by_cases hspace : c = ' '
    · subst hspace
      rw [singleFrom, if_pos rfl]
      cases hg with
      | folded k hprev hne _ => exact absurd rfl hne
      | breaks n k hprev hne => exact absurd rfl hne
      | spaces n hbreak hzero hnext =>
        split
        · rename_i hfold
          simp only [isWordGap, Bool.and_eq_true, Bool.not_eq_true', beq_eq_false_iff_ne,
            bne_iff_ne, ne_eq] at hfold
          obtain ⟨⟨-, ⟨hword, -⟩, hhead⟩, -⟩ := hfold
          obtain rfl := hzero hword
          -- the line is folded: the break and the indentation after it stand for the space
          rw [breakLine, List.append_assoc, List.cons_append, readSingle_newline, readSingle_spaces,
            ih ' ' m.indent (({} : Gap).newline.spaced m.indent)
              (by simpa [Gap.newline, Gap.spaced, foldGap] using
                SingleGap.folded (0 + m.indent) rfl hhead (hafterSpace rfl))]
          rfl
        · -- the space stays on the line and makes the gap longer
          have hg' : SingleGap ' ' s (Gap.space { spaces := n }) :=
            .spaces (n + 1) (by decide) (fun h => absurd rfl h) fun h => absurd h (hafterSpace rfl)
          rw [List.cons_append, readSingle_cons _ _ _ (by decide), if_pos rfl,
            ih ' ' (column + 1) _ hg', Gap.text_space rfl, List.append_assoc]
          rfl
    · by_cases hbreak : c = '\n'
      · subst hbreak
        obtain ⟨g', hg', htext, hread⟩ := readSingle_break m hg (hafterBreak rfl)
          (singleFrom m '\n' m.indent s ++ '\'' :: rest)
        rw [singleFrom, if_neg hspace, if_pos rfl, List.append_assoc, hread,
          ih '\n' m.indent g' hg', htext, List.append_assoc]
        rfl
      · by_cases hquote : c = '\''
        · subst hquote
          rw [singleFrom, if_neg hspace, if_neg hbreak, if_pos rfl, List.cons_append,
            List.cons_append, readSingle_quote, ih '\'' (column + 2) {} (.start _ hbreak),
            prepend_some, List.append_assoc]
          rfl
        · rw [singleFrom, if_neg hspace, if_neg hbreak, if_neg hquote, List.cons_append,
            readSingle_cons _ _ _ hquote, if_neg hspace, if_neg hbreak,
            ih c (column + 1) {} (.start _ hbreak), prepend_some, List.append_assoc]
          rfl

/-! ### Escapes -/

theorem readDouble_space (g : Gap) (t : List Char) :
    readDouble (.after g) (' ' :: t) = readDouble (.after g.space) t := rfl

theorem readDouble_end (g : Gap) (t : List Char) :
    readDouble (.after g) ('"' :: t) = some (g.text, t) := rfl

theorem readDouble_backslash (g : Gap) (t : List Char) :
    readDouble (.after g) ('\\' :: t) = prepend g.text (readDouble .escape t) := rfl

theorem readDouble_escapedSpace (t : List Char) :
    readDouble .escape (' ' :: t) = prepend [' '] (readDouble (.after {}) t) := rfl

theorem readDouble_escapedBackslash (t : List Char) :
    readDouble .escape ('\\' :: t) = prepend ['\\'] (readDouble (.after {}) t) := rfl

theorem readDouble_spaces (t : List Char) (g : Gap) (k : Nat) :
    readDouble (.after g) (List.replicate k ' ' ++ t) = readDouble (.after (g.spaced k)) t := by
  induction k generalizing g with
  | zero => rfl
  | succ k ih =>
    rw [List.replicate_succ, List.cons_append, readDouble_space, ih, Gap.space_spaced]

/-- The gap of an escaped line break with `k` spaces after it, which stands for nothing. -/
def joinGap (k : Nat) : Gap := Gap.escapedBreak.spaced k

theorem joinGap_text (k : Nat) : (joinGap k).text = [] := rfl

theorem readDouble_escapedBreak (indent : Nat) (t : List Char) :
    readDouble .escape (breakLine indent ++ t) = readDouble (.after (joinGap indent)) t := by
  rw [breakLine, List.cons_append]
  exact readDouble_spaces t .escapedBreak indent

/-- A folded line is nothing, or leads on with an escape. -/
theorem readDouble_foldDouble (g : Gap) (indent : Nat) (keepsSpace : Bool) (t : List Char) :
    readDouble (.after g) (foldDouble indent keepsSpace ++ t) =
      prepend g.text
        (if keepsSpace then readDouble .escape t else readDouble (.after (joinGap indent)) t) := by
  rw [foldDouble, List.append_assoc, List.cons_append, readDouble_backslash,
    readDouble_escapedBreak]
  cases keepsSpace with
  | true =>
    rw [if_pos rfl, if_pos rfl, List.cons_append, readDouble_backslash, joinGap_text, prepend_nil,
      List.nil_append]
  | false => rfl

theorem letterEscapes_lookup {c letter : Char} (h : shortEscapes.lookup c = some letter) :
    letterEscapes.lookup letter = some c ∧ letter ≠ '\n' := by
  have hall : ∀ p ∈ shortEscapes, letterEscapes.lookup p.2 = some p.1 ∧ p.2 ≠ '\n' := by decide
  obtain ⟨before, after, heq, -⟩ := List.lookup_eq_some_iff.1 h
  exact hall (c, letter) (by rw [heq]; simp)

theorem hexValue?_upperHexDigit : ∀ d, d < 16 → hexValue? (Text.upperHexDigit d) = some d := by
  decide

/-- The first digits of a numbered escape, when at least one more comes. -/
theorem readDouble_digits (width left number n : Nat) (t : List Char) (hleft : 1 ≤ left) :
    readDouble (.digits (left + width) number) (Text.hexDigits Text.upperHexDigit width n ++ t) =
      readDouble (.digits left (Nat.pow 16 width * number + n % Nat.pow 16 width)) t := by
  induction width generalizing left n t with
  | zero => simp [Text.hexDigits, Nat.mod_one]
  | succ width ih =>
    have hdigit := hexValue?_upperHexDigit (n % 16) (Nat.mod_lt _ (by decide))
    have hpow : Nat.pow 16 (width + 1) = 16 * Nat.pow 16 width := Nat.mul_comm _ _
    have hnumber : 16 * (Nat.pow 16 width * number + n / 16 % Nat.pow 16 width) + n % 16
        = Nat.pow 16 (width + 1) * number + n % Nat.pow 16 (width + 1) := by
      rw [hpow, Nat.mod_mul, Nat.mul_add, Nat.mul_assoc]
      omega
    rw [Text.hexDigits, List.append_assoc, show left + (width + 1) = left + 1 + width by omega,
      ih (left + 1) (n / 16) _ (by omega), List.singleton_append, readDouble, hdigit]
    simp only [hnumber]
    rw [if_neg (by omega), Nat.add_sub_cancel]

/-- All digits of a numbered escape. -/
theorem readDouble_number (width : Nat) (c : Char) (hc : c.toNat < Nat.pow 16 (width + 1))
    (t : List Char) :
    readDouble (.digits (width + 1) 0)
        (Text.hexDigits Text.upperHexDigit (width + 1) c.toNat ++ t) =
      prepend [c] (readDouble (.after {}) t) := by
  have hdigit := hexValue?_upperHexDigit (c.toNat % 16) (Nat.mod_lt _ (by decide))
  have hpow : Nat.pow 16 (width + 1) = 16 * Nat.pow 16 width := Nat.mul_comm _ _
  have hhigh : c.toNat / 16 % Nat.pow 16 width = c.toNat / 16 :=
    Nat.mod_eq_of_lt (Nat.div_lt_of_lt_mul (by rwa [hpow] at hc))
  have hvalid : c.toNat.isValidChar := c.valid
  have hnumber : 16 * (Nat.pow 16 width * 0 + c.toNat / 16 % Nat.pow 16 width) + c.toNat % 16
      = c.toNat := by
    rw [hhigh]
    omega
  rw [Text.hexDigits, List.append_assoc, show width + 1 = 1 + width by omega,
    readDouble_digits width 1 0 _ _ (by omega), List.singleton_append, readDouble, hdigit]
  simp only [hnumber]
  rw [if_pos (by omega), if_pos hvalid, Char.ofNat_toNat]

/-- An escape stands for its character. -/
theorem readDouble_escape? {c : Char} {e : List Char} (he : escape? c = some e) (g : Gap)
    (t : List Char) :
    readDouble (.after g) (e ++ t) = prepend (g.text ++ [c]) (readDouble (.after {}) t) := by
  have key : ∀ (letter : Char) (width : Nat), letterEscapes.lookup letter = none →
      escapeWidth? letter = some (width + 1) → letter ≠ '\n' → c.toNat < 16 ^ (width + 1) →
      readDouble (.after g)
          ('\\' :: letter :: Text.hexDigits Text.upperHexDigit (width + 1) c.toNat ++ t)
        = prepend (g.text ++ [c]) (readDouble (.after {}) t) := by
    intro letter width hlookup hwidth hne hc
    rw [List.cons_append, List.cons_append, readDouble_backslash, readDouble, if_neg hne, hlookup,
      hwidth]
    simp only
    rw [readDouble_number width c hc, prepend_prepend]
  -- an escape with a letter of its own, or one of the three numbered ones
  unfold escape? at he
  split at he
  · rename_i letter hshort
    obtain ⟨hlookup, hne⟩ := letterEscapes_lookup hshort
    obtain rfl := Option.some.inj he
    rw [List.cons_append, List.cons_append, readDouble_backslash, readDouble, if_neg hne, hlookup]
    simp only [List.nil_append]
    rw [prepend_prepend]
  · split at he
    · exact absurd he (by simp)
    · obtain rfl := Option.some.inj he
      unfold Text.numberedEscape
      simp only
      split
      · exact key 'x' 1 (by decide) rfl (by decide) (by omega)
      · split
        · exact key 'u' 3 (by decide) rfl (by decide) (by omega)
        · have hvalid : c.toNat < 0x110000 := by
            have := c.valid
            simp only [UInt32.isValidChar, Nat.isValidChar] at this
            simp only [Char.toNat]
            omega
          exact key 'U' 7 (by decide) rfl (by decide) (by omega)

/-- A character without an escape stands for itself. -/
theorem readDouble_char {c : Char} (he : escape? c = none) (hspace : c ≠ ' ') (g : Gap)
    (t : List Char) :
    readDouble (.after g) (c :: t) = prepend (g.text ++ [c]) (readDouble (.after {}) t) := by
  have hne : ∀ d, escape? d ≠ none → c ≠ d := fun d hd heq => hd (heq ▸ he)
  rw [readDouble, if_neg hspace, if_neg (hne '\n' (by decide)), if_neg (hne '"' (by decide)),
    if_neg (hne '\\' (by decide))]

/-! ### Double quotes -/

/-- Whether deeply indented lines are folded twice after `c`: it is an escape, and a space comes
next, neither of them at an end of the text. -/
def foldsTwice (isFirst : Bool) (c : Char) (rest : List Char) : Bool :=
  !isFirst && (escape? c).isSome && rest.head? == some ' ' && 2 ≤ rest.length

/-- What is read when lines are folded twice wherever they can be. -/
def foldedTwice : Bool → List Char → List Char
  | _, [] => []
  | isFirst, c :: rest =>
    c :: ((if foldsTwice isFirst c rest then ['\\', ' '] else []) ++ foldedTwice false rest)

/-- Whether lines are indented so far that they can be folded twice in a row. -/
def Margin.foldsTwice (m : Margin) : Bool := m.folds && lineWidth ≤ m.indent

/-- What is read of a text that is written in double quotes. -/
def readBack (m : Margin) (isFirst : Bool) (s : List Char) : List Char :=
  if m.foldsTwice then foldedTwice isFirst s else s

theorem readBack_cons (m : Margin) (isFirst : Bool) (c : Char) (s : List Char) :
    readBack m isFirst (c :: s) =
      c :: ((if m.foldsTwice && foldsTwice isFirst c s then ['\\', ' '] else [])
        ++ readBack m false s) := by
  unfold readBack
  cases m.foldsTwice <;> simp [foldedTwice]

theorem readBack_cons_of_false {m : Margin} {isFirst : Bool} {c : Char} {s : List Char}
    (h : (m.foldsTwice && foldsTwice isFirst c s) = false) :
    readBack m isFirst (c :: s) = c :: readBack m false s := by
  rw [readBack_cons, h, if_neg (by decide), List.nil_append]

theorem foldsTwice_of_escape?_none (isFirst : Bool) {c : Char} (s : List Char)
    (hc : escape? c = none) : foldsTwice isFirst c s = false := by
  simp [foldsTwice, hc]

theorem readBack_nil (m : Margin) (isFirst : Bool) : readBack m isFirst [] = [] := by
  unfold readBack
  split <;> rfl

/-- The gap before the rest `s` of a text in double quotes: spaces, or a folded line, after which
no space comes. -/
inductive DoubleGap (s : List Char) : Gap → Prop where
  | spaces (n : Nat) : DoubleGap s { spaces := n }
  | joined (k : Nat) (h : s.head? ≠ some ' ') : DoubleGap s (joinGap k)

/-- What holds of the column inside double quotes: where lines can be folded twice in a row, it is
never left of their indentation. -/
def ColumnOk (m : Margin) (column : Nat) : Prop := m.foldsTwice = true → m.indent ≤ column

section

variable {m : Margin} {rest : List Char}

/-- The rest of a text in double quotes, from its next character on, is read as `readBack` says. -/
def ReadsDouble (m : Margin) (rest s : List Char) : Prop :=
  ∀ (isFirst afterEscape : Bool) (column : Nat) (g : Gap), ColumnOk m column → DoubleGap s g →
    readDouble (.after g) (doubleFrom m isFirst afterEscape column s ++ '"' :: rest)
      = some (g.text ++ readBack m isFirst s, rest)

/-- After the backslash that keeps a space, either the space comes next, or, if the line can be
folded twice, the backslash of the second fold. -/
theorem readDouble_keptSpace {s : List Char} (ih : ReadsDouble m rest s) (hfolds : m.folds = true) :
    readDouble .escape
        (doubleFrom m false true (columnAfterFold m.indent true) (' ' :: s) ++ '"' :: rest)
      = some ((if m.foldsTwice && 1 ≤ s.length then ['\\', ' '] else [])
          ++ ' ' :: readBack m false s, rest) := by
  have hcolumn : ColumnOk m (columnAfterFold m.indent true + 1) := fun _ =>
    Nat.le_add_right m.indent 2
  have htext := ih false false _ {} hcolumn (.spaces 0)
  have hnone : escape? ' ' = none := by decide
  rw [doubleFrom, hnone]
  simp only [hfolds, Bool.true_and, Bool.not_false, beq_self_eq_true, Bool.true_or, Bool.and_true,
    Margin.foldsTwice]
  have hwidth : decide (lineWidth < columnAfterFold m.indent true)
      = decide (lineWidth ≤ m.indent) := decide_eq_decide.2 Nat.lt_succ_iff
  rw [hwidth]
  cases s with
  | nil =>
    rw [if_neg (by simp), if_neg (by simp), List.cons_append, readDouble_escapedSpace, htext]
    rfl
  | cons d s =>
    simp only [List.isEmpty_cons, Bool.not_false, Bool.true_and, List.length_cons,
      Nat.le_add_left, decide_true, Bool.and_true]
    split
    · -- The backslash of the second fold is read as an escaped one.
      rw [foldDouble, if_pos rfl, List.append_assoc, List.cons_append, List.cons_append,
        readDouble_escapedBackslash, List.append_assoc, breakLine, List.cons_append]
      have hbreak : ∀ t, readDouble (.after {}) ('\n' :: (List.replicate m.indent ' ' ++ t))
          = readDouble (.after (foldGap (0 + m.indent))) t := fun t =>
        readDouble_spaces t { breaks := 1 } m.indent
      rw [hbreak, List.singleton_append, readDouble_backslash, foldGap_text, List.cons_append,
        readDouble_escapedSpace, htext]
      rfl
    · rw [List.cons_append, readDouble_escapedSpace, htext]
      rfl

theorem two_le_length_of_escape? {c : Char} {e : List Char} (h : escape? c = some e) :
    2 ≤ e.length := by
  unfold escape? at h
  split at h
  · obtain rfl := Option.some.inj h
    exact Nat.le_refl 2
  · split at h
    · exact absurd h (by simp)
    · obtain rfl := Option.some.inj h
      unfold Text.numberedEscape
      simp only
      split
      · simp
      · split <;> simp

/-- Where lines can be folded twice, an escape inside the text is always followed by a fold. -/
theorem foldsTwice_eq_false {isFirst : Bool} {column : Nat} {c : Char} {e s : List Char}
    (hcolumn : ColumnOk m column) (he : escape? c = some e)
    (hfold : ¬(m.folds && !isFirst && !s.isEmpty && lineWidth + 1 < column + e.length) = true) :
    (m.foldsTwice && foldsTwice isFirst c s) = false := by
  rw [Bool.eq_false_iff]
  intro h
  simp only [foldsTwice, Bool.and_eq_true, Bool.not_eq_true', decide_eq_true_eq] at h
  obtain ⟨hm, ⟨⟨hfirst, -⟩, -⟩, hlength⟩ := h
  have hle := hcolumn hm
  simp only [Margin.foldsTwice, Bool.and_eq_true, decide_eq_true_eq] at hm
  obtain ⟨hfolds, hindent⟩ := hm
  apply hfold
  have hne : s.isEmpty = false := by
    cases s with
    | nil => exact absurd hlength (by decide)
    | cons _ _ => rfl
  have he2 := two_le_length_of_escape? he
  have hlt : lineWidth + 1 < column + e.length := by omega
  simp [hfolds, hfirst, hne, hlt]

/-- The rest of a text after an escape that is followed by a fold. -/
theorem readDouble_escapeFold {c : Char} {s : List Char} (ih : ReadsDouble m rest s)
    (ihTail : ∀ t, s = ' ' :: t → ReadsDouble m rest t) {isFirst : Bool}
    (hfolds : m.folds = true) (hfirst : isFirst = false) (hc : (escape? c).isSome = true) :
    readDouble (.after {}) (foldDouble m.indent (s.head? == some ' ')
        ++ (doubleFrom m false true (columnAfterFold m.indent (s.head? == some ' ')) s
          ++ '"' :: rest))
      = some ((if m.foldsTwice && foldsTwice isFirst c s then ['\\', ' '] else [])
          ++ readBack m false s, rest) := by
  rw [readDouble_foldDouble, Gap.text_empty, prepend_nil]
  by_cases hspace : s.head? = some ' '
  · obtain ⟨t, rfl⟩ : ∃ t, s = ' ' :: t := by
      cases s with
      | nil => exact absurd hspace (by simp)
      | cons d t => exact ⟨t, by rw [Option.some.inj hspace]⟩
    have hnone : escape? ' ' = none := by decide
    have htwice : foldsTwice isFirst c (' ' :: t) = decide (1 ≤ t.length) := by
      simp [foldsTwice, hfirst, hc]
    rw [List.head?_cons, beq_self_eq_true, if_pos rfl,
      readDouble_keptSpace (ihTail t rfl) hfolds, htwice,
      readBack_cons_of_false (by rw [foldsTwice_of_escape?_none false t hnone, Bool.and_false])]
  · have hbeq : (s.head? == some ' ') = false := by simpa using hspace
    have hnot : foldsTwice isFirst c s = false := by simp [foldsTwice, hbeq]
    have hcolumn : ColumnOk m (columnAfterFold m.indent false) := fun _ => Nat.le_refl _
    rw [hbeq, if_neg (by decide), hnot, Bool.and_false, if_neg (by decide), List.nil_append,
      ih false true _ (joinGap m.indent) hcolumn (.joined m.indent hspace), joinGap_text,
      List.nil_append]

/-- The rest of a text from an unescaped character on, before which the line is folded. -/
theorem readDouble_foldChar {c : Char} {s : List Char} (ih : ReadsDouble m rest s)
    (hc : escape? c = none) {g : Gap} :
    readDouble (.after g) (foldDouble m.indent (c == ' ')
        ++ c :: (doubleFrom m false false (columnAfterFold m.indent (c == ' ') + 1) s
          ++ '"' :: rest))
      = some (g.text ++ c :: readBack m false s, rest) := by
  have hcolumn : ColumnOk m (columnAfterFold m.indent (c == ' ') + 1) := fun _ => by
    unfold columnAfterFold
    split <;> omega
  have htext := ih false false _ {} hcolumn (.spaces 0)
  rw [readDouble_foldDouble]
  by_cases hspace : c = ' '
  · subst hspace
    rw [beq_self_eq_true, if_pos rfl, readDouble_escapedSpace]
    rw [beq_self_eq_true] at htext
    rw [htext]
    rfl
  · have hbeq : (c == ' ') = false := by simpa using hspace
    rw [hbeq, if_neg (by decide), readDouble_char hc hspace]
    rw [hbeq] at htext
    rw [htext]
    rfl

/-- The rest of a text from an unescaped character on, on the same line. -/
theorem readDouble_keepChar {c : Char} {s : List Char} (ih : ReadsDouble m rest s)
    (hc : escape? c = none) {g : Gap} (hg : DoubleGap (c :: s) g) {column : Nat}
    (hcolumn : ColumnOk m column) :
    readDouble (.after g) (c :: (doubleFrom m false false (column + 1) s ++ '"' :: rest))
      = some (g.text ++ c :: readBack m false s, rest) := by
  have hcolumn' : ColumnOk m (column + 1) := fun h => Nat.le_succ_of_le (hcolumn h)
  by_cases hspace : c = ' '
  · subst hspace
    cases hg with
    | joined k h => exact absurd rfl h
    | spaces n =>
      have hg' : DoubleGap s (Gap.space { spaces := n }) := .spaces (n + 1)
      rw [readDouble_space, ih false false _ _ hcolumn' hg', Gap.text_space rfl, List.append_assoc]
      rfl
  · rw [readDouble_char hc hspace, ih false false _ {} hcolumn' (.spaces 0), prepend_some,
      List.append_assoc]
    rfl

/-- A text in double quotes is read to its closing quote. -/
theorem readDouble_doubleFrom (m : Margin) (rest : List Char) : ∀ s, ReadsDouble m rest s
  | [], isFirst, afterEscape, column, g, _, _ => by
    rw [doubleFrom, List.nil_append, readDouble_end, readBack_nil, List.append_nil]
  | c :: s, isFirst, afterEscape, column, g, hcolumn, hg => by
    have ih := readDouble_doubleFrom m rest s
    rw [doubleFrom]
    simp only
    split
    · rename_i e he
      split
      · rename_i hfold
        simp only [Bool.and_eq_true, Bool.not_eq_true'] at hfold
        obtain ⟨⟨⟨hfolds, hfirst⟩, -⟩, -⟩ := hfold
        -- an escape before a fold: what follows may be folded again at its first space, so that the
        -- text after that space is needed as well
        have ihTail : ∀ t, s = ' ' :: t → ReadsDouble m rest t := by
          rintro t rfl
          exact readDouble_doubleFrom m rest t
        rw [List.append_assoc, List.append_assoc, readDouble_escape? he,
          readDouble_escapeFold ih ihTail hfolds hfirst (by rw [he]; rfl), readBack_cons,
          prepend_some, List.append_assoc]
        rfl
      · rename_i hfold
        -- an escape that the line goes on after
        have hcolumn' : ColumnOk m (column + e.length) :=
          fun h => Nat.le_add_right_of_le (hcolumn h)
        rw [List.append_assoc, readDouble_escape? he, ih false true _ {} hcolumn' (.spaces 0),
          readBack_cons_of_false (foldsTwice_eq_false hcolumn he hfold), prepend_some,
          List.append_assoc]
        rfl
    · rename_i he
      rw [readBack_cons_of_false (by rw [foldsTwice_of_escape?_none _ _ he, Bool.and_false])]
      split
      · rw [List.append_assoc]
        exact readDouble_foldChar ih he
      · exact readDouble_keepChar ih he hg hcolumn

end

end BundlePlan.Yaml
