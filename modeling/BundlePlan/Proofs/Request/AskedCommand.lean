import BundlePlan.Proofs.Request.Wrapping

/-!
# Asking for any command

A request asks for a command as one text, but a container runs a list of words. No list is out of
reach: with every word in single quotes, whatever characters it has, and with blanks between the
words, the text is split into the words again (`argv_of_written`), and an accepted request has them
as its command (`command_is_askable`).

A single quote cannot stand between single quotes. It is written between double quotes, so the
splitter leaves the one kind of quotes and goes through the other before it comes back, all within
the same word.
-/

namespace BundlePlan

namespace Command

/-! ### Writing words -/

/-- A character of a word in single quotes. A single quote stands outside of them. -/
def quotedChar (c : Char) : List Char :=
  if c = '\'' then ['\'', '"', '\'', '"', '\''] else [c]

/-- A word in single quotes. -/
def singleQuoted (w : String) : List Char :=
  '\'' :: (w.toList.flatMap quotedChar ++ ['\''])

/-- What can stand between two words. -/
structure IsGap (gap : List Char) : Prop where
  nonempty : gap ≠ []
  blank : ∀ c ∈ gap, c ∈ [' ', '\t', '\n', '\r']

/-- The text is the words, each in single quotes, with gaps between them. -/
inductive Written : List String → List Char → Prop where
  | last (w : String) : Written [w] (singleQuoted w)
  | cons (w : String) {gap s : List Char} {ws : List String} (hgap : IsGap gap)
    (h : Written ws s) : Written (w :: ws) (singleQuoted w ++ (gap ++ s))

theorem Written.ne_nil {ws : List String} {s : List Char} (h : Written ws s) : ws ≠ [] := by
  cases h <;> exact List.cons_ne_nil _ _

/-- Any words can be written, for instance with a space between them. -/
theorem exists_written {ws : List String} (hne : ws ≠ []) : ∃ s, Written ws s := by
  induction ws with
  | nil => exact absurd rfl hne
  | cons w ws ih =>
    by_cases hlast : ws = []
    · subst hlast
      exact ⟨_, .last w⟩
    · obtain ⟨s, hs⟩ := ih hlast
      have hgap : IsGap [' '] := ⟨List.cons_ne_nil _ _, by simp⟩
      exact ⟨_, .cons w hgap hs⟩

/-! ### Splitting what is written -/

/-- Within a word a character adds what it adds, and the word goes on. -/
theorem scan_inside {m next : Mode} {c : Char} {added : List Char} (hm : m ≠ .gap)
    (hstep : m.step c = (next, added)) (s : List Char) :
    scan m (c :: s) = (scan next s).map fun (r, ws) => (added ++ r, ws) := by
  rw [scan, hstep]
  cases hscan : scan next s with
  | error e => simp only [hscan, Except.map]
  | ok found => simp [hscan, hm, Except.map]

/-- Between single quotes a written character is the character itself. -/
theorem scan_single_quotedChar (c : Char) (s : List Char) :
    scan .single (quotedChar c ++ s) = (scan .single s).map fun (r, ws) => (c :: r, ws) := by
  unfold quotedChar
  split
  · next hquote =>
    -- out of the single quotes, through the double ones, and back
    have hleave : Mode.single.step '\'' = (.bare, []) := rfl
    have hopen : Mode.bare.step '"' = (.double, []) := rfl
    have hquoted : Mode.double.step '\'' = (.double, ['\'']) := rfl
    have hclose : Mode.double.step '"' = (.bare, []) := rfl
    have hreturn : Mode.bare.step '\'' = (.single, []) := rfl
    simp only [List.cons_append, List.nil_append]
    rw [scan_inside (by decide) hleave, scan_inside (by decide) hopen,
      scan_inside (by decide) hquoted, scan_inside (by decide) hclose,
      scan_inside (by decide) hreturn, hquote]
    cases scan .single s <;> rfl
  · next hplain =>
    have hstep : Mode.single.step c = (.single, [c]) := if_neg hplain
    rw [List.singleton_append, scan_inside (by decide) hstep]
    rfl

/-- Up to the closing quote a written word is the word. -/
theorem scan_single_flatMap (w s : List Char) :
    scan .single (w.flatMap quotedChar ++ '\'' :: s)
      = (scan .bare s).map fun (r, ws) => (w ++ r, ws) := by
  induction w with
  | nil => exact scan_inside (by decide) rfl s
  | cons c w ih =>
    rw [List.flatMap_cons, List.append_assoc, scan_single_quotedChar, ih]
    cases scan .bare s <;> rfl

/-- A written word starts a word, and what touches it goes on with it. The empty word is one too. -/
theorem scan_singleQuoted (w : String) (s : List Char) :
    scan .gap (singleQuoted w ++ s)
      = (scan .bare s).map fun (r, ws) => ([], (w.toList ++ r) :: ws) := by
  have hopen : Mode.open '\'' = (.single, []) := rfl
  rw [singleQuoted, List.cons_append, List.append_assoc, List.singleton_append,
    scan_gap_word rfl, hopen, scan_single_flatMap]
  cases scan .bare s <;> rfl

theorem IsGap.isSeparator_eq {gap : List Char} (h : IsGap gap) :
    ∀ c ∈ gap, isSeparator c = true := by
  have hall : [' ', '\t', '\n', '\r'].all isSeparator = true := by decide
  exact fun c hc => List.all_eq_true.1 hall c (h.blank c hc)

/-- Separators in a gap are passed over. -/
theorem scan_gap_separators {gap : List Char} (h : ∀ c ∈ gap, isSeparator c = true)
    (s : List Char) : scan .gap (gap ++ s) = scan .gap s := by
  induction gap with
  | nil => rfl
  | cons c gap ih =>
    obtain ⟨hc, hgap⟩ := List.forall_mem_cons.1 h
    rw [List.cons_append, scan_gap_separator hc, ih hgap]

/-- A gap ends a word. -/
theorem scan_bare_gap {gap : List Char} (h : IsGap gap) (s : List Char) :
    scan .bare (gap ++ s) = (scan .gap s).map fun (_, ws) => ([], ws) := by
  have hseparators := h.isSeparator_eq
  cases gap with
  | nil => exact absurd rfl h.nonempty
  | cons c gap =>
    obtain ⟨hc, hgap⟩ := List.forall_mem_cons.1 hseparators
    rw [List.cons_append, scan_bare_separator hc, scan_gap_separators hgap]

/-- The words that are written are found. -/
theorem scan_written {ws : List String} {s : List Char} (h : Written ws s) :
    scan .gap s = .ok ([], ws.map String.toList) := by
  induction h with
  | last w =>
    have hscan := scan_singleQuoted w []
    rw [List.append_nil] at hscan
    simp [hscan, scan, Mode.endError?, Except.map]
  | cons w hgap _ ih => simp [scan_singleQuoted, scan_bare_gap hgap, ih, Except.map]

theorem argv_of_written {ws : List String} {line : String} (h : Written ws line.toList) :
    argv line = .ok ws := by
  refine argv_eq_ok_iff.2 ⟨?_, h.ne_nil⟩
  simp [words, scan_written h, Except.map, Function.comp_def]

end Command

/-! ### Requests -/

theorem ne_empty_of_written {ws : List String} {line : String}
    (h : Command.Written ws line.toList) : line ≠ "" := by
  intro hempty
  have hargv := Command.argv_of_written h
  rw [hempty] at hargv
  cases hargv

/-- A request for written words without a limit is accepted unless something else is wrong with it,
and then the words are its command. -/
theorem command_of_written {ws : List String} {line : String}
    (h : Command.Written ws line.toList) {args : Arguments}
    (hcommand : args.lookup Parameter.gatherCommand.name = some (.text line))
    (htimeout : Parameter.timeout.value? args = none) (r : Randomness) :
    ((∃ c, (resolve args r).1 = .ok c) ↔ args.SoundButCommand) ∧
      ∀ c, (resolve args r).1 = .ok c → c.command = ws := by
  have hargv := Command.argv_of_written h
  have hasked : args.askedCommand = line :=
    askedCommand_of_lookup hcommand (ne_empty_of_written h)
  have hunlimited : args.textOf .timeout = none := by
    rw [Arguments.textOf_eq, htimeout]
    rfl
  refine ⟨?_, fun c hresolve => ?_⟩
  · rw [resolve_isOk_iff_words, hasked, (Command.argv_eq_ok_iff.1 hargv).1]
    simp [h.ne_nil]
  · have hsplit := (command_of_resolve hresolve).2.2
    have hcommandLine : args.commandLine = line := by
      rw [Arguments.commandLine, hunlimited, hasked]
      rfl
    rw [hcommandLine, hargv] at hsplit
    exact (Except.ok.inj hsplit).symm

/-- Nothing is wrong with a request for nothing but a command. -/
theorem soundButCommand_singleton (line : String) :
    Arguments.SoundButCommand [(Parameter.gatherCommand.name, .text line)] where
  stream := by simp [Arguments.AsksForStream, Parameter.name, List.lookup_cons]
  typed p := by
    rw [Arguments.wellTyped_iff]
    intro v hv
    cases p <;> simp [Parameter.value?, Parameter.name, List.lookup_cons] at hv
    exact ⟨line, hv.symm⟩
  limits p hp s hs := by
    rcases hp with rfl | rfl <;> simp [Arguments.textOf, Parameter.name, List.lookup_cons] at hs

/-- Every nonempty list of words can be written in single quotes, and every text that is written so
is split into the words again, whatever characters they have and whatever gaps there are. A request
with the text as its command and without a limit is accepted unless something else is wrong with it,
and then the words are its command; nothing is wrong if it asks for nothing else. -/
theorem command_is_askable (ws : List String) (hne : ws ≠ []) :
    (∃ line : String, Command.Written ws line.toList) ∧
    ∀ line : String, Command.Written ws line.toList →
      Command.argv line = .ok ws ∧
      (∀ (args : Arguments) (r : Randomness),
        args.lookup Parameter.gatherCommand.name = some (.text line) →
          Parameter.timeout.value? args = none →
            ((∃ c, (resolve args r).1 = .ok c) ↔ args.SoundButCommand) ∧
              ∀ c, (resolve args r).1 = .ok c → c.command = ws) ∧
      ∀ r : Randomness, ∃ c,
        (resolve [(Parameter.gatherCommand.name, .text line)] r).1 = .ok c ∧ c.command = ws := by
  refine ⟨?_, fun line hline => ?_⟩
  · obtain ⟨s, hs⟩ := Command.exists_written hne
    exact ⟨String.ofList s, by rwa [String.toList_ofList]⟩
  refine ⟨Command.argv_of_written hline,
    fun args r hcommand htimeout => command_of_written hline hcommand htimeout r, fun r => ?_⟩
  have hrequest : [(Parameter.gatherCommand.name, Argument.text line)].lookup
      Parameter.gatherCommand.name = some (.text line) := rfl
  obtain ⟨haccepted, hcommand⟩ := command_of_written hline hrequest rfl r
  obtain ⟨c, hc⟩ := haccepted.2 (soundButCommand_singleton line)
  exact ⟨c, hc, hcommand c hc⟩

/-- A quote, an empty word and a backslash before a line break go through. -/
theorem command_is_askable_of_quotes :
    Command.argv "'it'\"'\"'s' \t''\r\n'\\\n'" = .ok ["it's", "", "\\\n"] := by
  have hblanks : Command.IsGap [' ', '\t'] := ⟨List.cons_ne_nil _ _, by simp⟩
  have hbreak : Command.IsGap ['\r', '\n'] := ⟨List.cons_ne_nil _ _, by simp⟩
  have hwritten : Command.Written ["it's", "", "\\\n"]
      "'it'\"'\"'s' \t''\r\n'\\\n'".toList :=
    .cons "it's" hblanks (.cons "" hbreak (.last "\\\n"))
  exact ((command_is_askable _ (List.cons_ne_nil _ _)).2 _ hwritten).1

end BundlePlan
