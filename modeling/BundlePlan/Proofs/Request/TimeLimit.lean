import BundlePlan.Proofs.Duration.Limit
import BundlePlan.Proofs.Request.Acceptance

/-!
# Time limits in commands

A request with a time limit gets a command whose second word is the limit in seconds
(`command_of_timeout`). What is printed there is the limit that was asked for exactly if it is a
whole number of seconds or has six digits at most (`limit_is_exact_iff`).
-/

namespace BundlePlan

open Duration (PrintsExactly printedSeconds readSeconds?)

/-- The number of seconds that a command says it is limited to: that of its second word, behind the
command that ends another one. -/
def Config.printedLimit? (c : Config) : Option ℚ :=
  match c.command with
  | first :: second :: _ => if first = timeoutCommand then readSeconds? second else none
  | _ => none

/-! ### What an accepted request gets -/

/-- An accepted request has a limit that is one, and its command is split from its command line. -/
theorem command_of_resolve {args : Arguments} {r : Randomness} {c : Config}
    (h : (resolve args r).1 = .ok c) :
    c.timeout = args.textOf .timeout ∧
      (∀ s, args.textOf .timeout = some s → ¬Duration.IsNoLimit s) ∧
      Command.argv args.commandLine = .ok c.command := by
  unfold resolve at h
  cases hplacement : Placement.ofArguments args with
  | error e => simp [hplacement] at h
  | ok p =>
    simp only [hplacement] at h
    unfold Placement.config at h
    simp (disch := decide) only [bind_eq_ok, text?_eq_ok_iff, limit?_eq_ok_iff, mapError_eq_ok] at h
    -- the parameters in the order in which they are read
    obtain ⟨_, ⟨-, rfl⟩, _, -, _, ⟨-, rfl⟩, _, ⟨hlimit, rfl⟩, command, hcommand,
      _, -, _, -, _, -, _, -, _, -, _, -, hc⟩ := h
    obtain rfl := Except.ok.inj hc
    rw [limitedCommand_eq] at hcommand
    exact ⟨rfl, hlimit, hcommand⟩

/-! ### The words in front -/

theorem isPlain_of_isNumberChar {c : Char} (h : Number.IsNumberChar c) : Command.IsPlain c := by
  obtain hdigit | hmark := h
  · have hne : ∀ d : Char, d.isDigit = false → c ≠ d := by
      intro d hd heq
      rw [heq, hd] at hdigit
      cases hdigit
    have hseparator : Command.isSeparator c = false := by
      simp [Command.isSeparator, hne ' ' rfl, hne '\t' rfl, hne '\r' rfl, hne '\n' rfl]
    simp [Command.IsPlain, Command.Mode.open, hseparator, hne '\'' rfl, hne '"' rfl, hne '\\' rfl]
  · have hall : ['.', 'e', '+', '-'].all (fun c => decide (Command.IsPlain c)) = true := by decide
    exact of_decide_eq_true (List.all_eq_true.1 hall c hmark)

theorem isPlain_timeoutCommand : ∀ c ∈ timeoutCommand.toList, Command.IsPlain c := by
  have hall : timeoutCommand.toList.all (fun c => decide (Command.IsPlain c)) = true := by decide
  exact fun c hc => of_decide_eq_true (List.all_eq_true.1 hall c hc)

theorem isPlain_secondsText {d : Duration} (hd : 0 ≤ d.microseconds) :
    ∀ c ∈ d.secondsText.toList, Command.IsPlain c := by
  intro c hc
  obtain h | h := Duration.mem_secondsText hd c hc
  · exact isPlain_of_isNumberChar h
  · rw [h]
    decide

/-- A time limit is two words in front of a command, whatever the command is. -/
theorem words_limited {t s : String} (h : Duration.limitSeconds t = .ok s) (line : String) :
    Command.words (timeoutCommand ++ " " ++ s ++ " " ++ line)
      = (Command.words line).map fun ws => timeoutCommand :: s :: ws := by
  obtain ⟨d, -, hd, rfl⟩ := Duration.limitSeconds_eq_ok_iff.1 h
  have hline : timeoutCommand ++ " " ++ d.secondsText ++ " " ++ line
      = timeoutCommand ++ " " ++ (d.secondsText ++ " " ++ line) := by
    simp [String.append_assoc]
  have hne : d.secondsText ≠ "" := by
    intro h
    have hlist := congrArg String.toList h
    simp [Duration.secondsText_of_nonneg hd] at hlist
  rw [hline, Command.words_plain (by decide) isPlain_timeoutCommand,
    Command.words_plain hne (isPlain_secondsText hd)]
  cases Command.words line <;> rfl

/-- So it is in front of the command that is asked for. -/
theorem words_commandLine {args : Arguments} {t : String} {d : Duration}
    (ht : args.textOf .timeout = some t) (hparse : Duration.parse t = .ok d)
    (hd : 0 ≤ d.microseconds) :
    Command.words args.commandLine
      = (Command.words args.askedCommand).map fun ws => timeoutCommand :: d.secondsText :: ws := by
  have hline : args.commandLine
      = timeoutCommand ++ " " ++ d.secondsText ++ " " ++ args.askedCommand := by
    simp [Arguments.commandLine, ht, Duration.seconds?, hparse]
  rw [hline, words_limited (Duration.limitSeconds_eq_ok_iff.2 ⟨d, hparse, hd, rfl⟩)]

/-- The command of an accepted request with a time limit. -/
theorem command_of_timeout {args : Arguments} {r : Randomness} {c : Config} {t : String}
    (hresolve : (resolve args r).1 = .ok c) (htimeout : c.timeout = some t) :
    ∃ d ws, Duration.parse t = .ok d ∧ 0 ≤ d.microseconds ∧
      Command.words args.askedCommand = .ok ws ∧
        c.command = timeoutCommand :: d.secondsText :: ws := by
  obtain ⟨htext, hlimit, hargv⟩ := command_of_resolve hresolve
  rw [htimeout] at htext
  have hno := hlimit t htext.symm
  cases hparse : Duration.parse t with
  | error e => exact absurd (Or.inl ⟨e, hparse⟩) hno
  | ok d =>
    have hd : 0 ≤ d.microseconds := Int.not_lt.1 fun h => hno (Or.inr ⟨d, hparse, h⟩)
    have hwords := (Command.argv_eq_ok_iff.1 hargv).1
    rw [words_commandLine htext.symm hparse hd] at hwords
    cases hasked : Command.words args.askedCommand with
    | error e => simp [hasked, Except.map] at hwords
    | ok ws =>
      rw [hasked] at hwords
      exact ⟨d, ws, rfl, hd, rfl, (Except.ok.inj hwords).symm⟩

/-- What the command says about its limit. -/
theorem printedLimit?_of_resolve {args : Arguments} {r : Randomness} {c : Config} {t : String}
    (hresolve : (resolve args r).1 = .ok c) (htimeout : c.timeout = some t) :
    ∃ d, Duration.parse t = .ok d ∧ 0 ≤ d.microseconds ∧
      c.printedLimit? = some (printedSeconds d.microseconds.natAbs) := by
  obtain ⟨d, ws, hparse, hd, -, hcommand⟩ := command_of_timeout hresolve htimeout
  refine ⟨d, hparse, hd, ?_⟩
  rw [Config.printedLimit?, hcommand]
  simp only [if_true]
  exact Duration.readSeconds?_of_nonneg hd (Duration.natAbs_microseconds_lt hparse)

/-- Whether a request is accepted with a limit can be computed. -/
theorem exists_of_timeout {args : Arguments} {r : Randomness} {t : String}
    (h : (resolve args r).1.toOption.bind Config.timeout = some t) :
    ∃ c, (resolve args r).1 = .ok c ∧ c.timeout = some t := by
  cases hresolve : (resolve args r).1 with
  | error e => simp [hresolve, Except.toOption] at h
  | ok c => exact ⟨c, rfl, by simpa [hresolve, Except.toOption] using h⟩

/-! ### How exact the limit is -/

/-- The printed limit is the one that was asked for exactly if it is a whole number of seconds or
has six digits at most. Of two such limits the longer one is printed as the longer one. Two limits
that are both rounded keep their order too, or are printed alike; between one that is rounded and a
whole number of seconds it can be turned around. -/
theorem limit_is_exact_iff (args : Arguments) (r : Randomness) (c : Config) (t : String)
    (hresolve : (resolve args r).1 = .ok c) (htimeout : c.timeout = some t) :
    ∃ d v, Duration.parse t = .ok d ∧ c.printedLimit? = some v ∧
      (v * 1000000 = d.microseconds ↔ PrintsExactly d.microseconds.natAbs) ∧
      ∀ args' r' c' t' d' v', (resolve args' r').1 = .ok c' → c'.timeout = some t' →
        Duration.parse t' = .ok d' → c'.printedLimit? = some v' →
          d.microseconds < d'.microseconds →
            (PrintsExactly d.microseconds.natAbs → PrintsExactly d'.microseconds.natAbs → v < v') ∧
              ((1000000 ∣ d.microseconds ↔ 1000000 ∣ d'.microseconds) → v ≤ v') := by
  obtain ⟨d, hparse, hd, hprinted⟩ := printedLimit?_of_resolve hresolve htimeout
  have habs : ∀ {d : Duration}, 0 ≤ d.microseconds →
      (d.microseconds : ℚ) = (d.microseconds.natAbs : ℕ) := by
    intro d hd
    rw [← Int.cast_natCast, Int.natAbs_of_nonneg hd]
  refine ⟨d, _, hparse, hprinted, ?_, ?_⟩
  · rw [habs hd]
    exact Duration.printedSeconds_eq_iff
  · intro args' r' c' t' d' v' hresolve' htimeout' hparse' hprinted' hlt
    obtain ⟨d'', hparse'', hd', hread⟩ := printedLimit?_of_resolve hresolve' htimeout'
    obtain rfl : d' = d'' := Except.ok.inj (hparse'.symm.trans hparse'')
    obtain rfl : v' = _ := Option.some.inj (hprinted'.symm.trans hread)
    constructor
    · intro hexact hexact'
      have hmeant := Duration.printedSeconds_eq_iff.2 hexact
      have hmeant' := Duration.printedSeconds_eq_iff.2 hexact'
      have hlonger : (d.microseconds.natAbs : ℚ) < d'.microseconds.natAbs := by
        exact_mod_cast (by omega : d.microseconds.natAbs < d'.microseconds.natAbs)
      linarith
    · intro hkind
      refine Duration.printedSeconds_mono ?_ (by omega)
      omega

/-- Half a second is printed as half a second. -/
theorem limit_is_exact_of_half : ∃ c v,
    (resolve [("timeout", .text "0.5s"), ("namespace", .text "a")] (.cycling [])).1 = .ok c ∧
      c.printedLimit? = some v ∧ v * 1000000 = 500000 := by
  have haccepted : ∃ c, (resolve [("timeout", .text "0.5s"), ("namespace", .text "a")]
      (.cycling [])).1 = .ok c ∧ c.timeout = some "0.5s" :=
    exists_of_timeout (by decide +kernel)
  obtain ⟨c, hresolve, htimeout⟩ := haccepted
  obtain ⟨d, v, hparse, hprinted, hiff, -⟩ := limit_is_exact_iff _ _ _ _ hresolve htimeout
  have hhalf : Duration.parse "0.5s" = .ok ⟨500000⟩ := by decide +kernel
  obtain rfl : ⟨500000⟩ = d := Except.ok.inj (hhalf.symm.trans hparse)
  have hexact : PrintsExactly 500000 := Or.inr ⟨5, 5, by decide, by decide⟩
  exact ⟨c, v, hresolve, hprinted, by exact_mod_cast hiff.2 hexact⟩

/-- Not every limit is printed as the one that was asked for. -/
theorem limit_not_exact : ¬∀ (args : Arguments) (r : Randomness) (c : Config) (t : String),
    (resolve args r).1 = .ok c → c.timeout = some t → ∃ d v, Duration.parse t = .ok d ∧
      c.printedLimit? = some v ∧ v * 1000000 = d.microseconds := by
  intro h
  have haccepted : ∃ c, (resolve [("timeout", .text "1234567.5s"), ("namespace", .text "a")]
      (.cycling [])).1 = .ok c ∧ c.timeout = some "1234567.5s" :=
    exists_of_timeout (by decide +kernel)
  obtain ⟨c, hresolve, htimeout⟩ := haccepted
  obtain ⟨d, v, hparse, hprinted, hv⟩ := h _ _ _ _ hresolve htimeout
  obtain ⟨d', hparse', -, hread⟩ := printedLimit?_of_resolve hresolve htimeout
  have hasked : Duration.parse "1234567.5s" = .ok ⟨1234567500000⟩ := by decide +kernel
  obtain rfl : ⟨1234567500000⟩ = d := Except.ok.inj (hasked.symm.trans hparse)
  obtain rfl : ⟨1234567500000⟩ = d' := Except.ok.inj (hasked.symm.trans hparse')
  have hprints : printedSeconds 1234567500000 = 1234570 := by decide +kernel
  obtain rfl : v = 1234570 := (Option.some.inj (hprinted.symm.trans hread)).trans hprints
  norm_num at hv

end BundlePlan
