import BundlePlan.Proofs.Request.TimeLimit
import BundlePlan.Proofs.Request.Unset

/-!
# Commands behind a time limit

A time limit is put in front of a command as text, and only then is the text split into words. The
words of the command stay what they are, so a limit changes nothing else about a request that is
accepted (`limit_wraps_command`). But the text is never blank with a limit in front, so a command
without words passes behind one (`blank_command_refused_iff`).
-/

namespace BundlePlan

open Request (flag limit? limitedCommand nonEmpty text? texts)

/-! ### Adding a limit -/

/-- The second arguments are the first ones with a time limit in addition. -/
structure Arguments.AddsLimit (args args' : Arguments) (t : String) : Prop where
  /-- There is none before. -/
  unlimited : Parameter.timeout.value? args = none
  /-- Afterwards it is the given one. -/
  limited : Parameter.timeout.value? args' = some (.text t)
  /-- Every other parameter keeps its value. -/
  others : ∀ p ≠ Parameter.timeout, p.value? args' = p.value? args

/-- An entry for the limit adds it to any arguments without one. -/
theorem Arguments.addsLimit_cons {args : Arguments} (h : Parameter.timeout.value? args = none)
    (t : String) : args.AddsLimit ((Parameter.timeout.name, .text t) :: args) t := by
  refine ⟨h, rfl, fun p hp => ?_⟩
  have hname : (p.name == Parameter.timeout.name) = false :=
    beq_eq_false_iff_ne.2 fun heq => hp (Parameter.name_injective heq)
  rw [Parameter.value?, Parameter.value?, List.lookup_cons, hname]

namespace Arguments.AddsLimit

variable {args args' : Arguments} {t s : String} {p : Parameter}

theorem text?_eq (h : args.AddsLimit args' t) (hp : p ≠ .timeout) :
    text? args' p = text? args p := by
  rw [text?, text?, Parameter.text?, Parameter.text?, h.others p hp]

theorem flag_eq (h : args.AddsLimit args' t) (hp : p ≠ .timeout) : flag args' p = flag args p := by
  rw [flag, flag, Parameter.flag?, Parameter.flag?, h.others p hp]

theorem texts_eq (h : args.AddsLimit args' t) (hp : p ≠ .timeout) :
    texts args' p = texts args p := by
  rw [texts, texts, Parameter.texts?, Parameter.texts?, h.others p hp]

theorem text?_before (h : args.AddsLimit args' t) : text? args .timeout = .ok none := by
  rw [text?, Parameter.text?, h.unlimited]
  rfl

theorem text?_after (h : args.AddsLimit args' t) : text? args' .timeout = .ok (some t) := by
  rw [text?, Parameter.text?, h.limited]
  rfl

theorem textOf_eq (h : args.AddsLimit args' t) (hp : p ≠ .timeout) :
    args'.textOf p = args.textOf p := by
  rw [Arguments.textOf_eq, Arguments.textOf_eq, h.others p hp]

theorem textOf_before (h : args.AddsLimit args' t) : args.textOf .timeout = none := by
  rw [Arguments.textOf_eq, h.unlimited]
  rfl

theorem textOf_after (h : args.AddsLimit args' t) : args'.textOf .timeout = some t := by
  rw [Arguments.textOf_eq, h.limited]
  rfl

/-- Where a plan belongs does not depend on its limit. -/
theorem ofArguments_eq (h : args.AddsLimit args' t) :
    Placement.ofArguments args' = Placement.ofArguments args := by
  unfold Placement.ofArguments
  rw [h.text?_eq (p := .imageStream) (by decide), h.text?_eq (p := .nodeSelector) (by decide),
    h.text?_eq (p := .sourceDir) (by decide), h.text?_eq (p := .namespaceName) (by decide)]

end Arguments.AddsLimit

/-- A configuration with a time limit of so many seconds in front of its command. -/
def Config.wrapped (c : Config) (t s : String) : Config :=
  { c with
    timeout := some t
    gatherCommand := timeoutCommand ++ " " ++ s ++ " " ++ c.gatherCommand
    command := timeoutCommand :: s :: c.command }

/-- The words of a command go on behind a limit as they were. -/
theorem argv_limitedCommand {t s line : String} {ws : List String}
    (hlimit : Duration.limitSeconds t = .ok s) (hargv : Command.argv line = .ok ws) :
    Command.argv (limitedCommand (some s) line) = .ok (timeoutCommand :: s :: ws) := by
  have hbehind : Command.words (limitedCommand (some s) line)
      = (Command.words line).map fun ws => timeoutCommand :: s :: ws :=
    words_limited hlimit line
  rw [(Command.argv_eq_ok_iff.1 hargv).1] at hbehind
  exact Command.argv_eq_ok_iff.2 ⟨hbehind, List.cons_ne_nil _ _⟩

/-- With a limit in addition everything else is read as before. -/
theorem config_of_addsLimit {args args' : Arguments} {t s : String} (h : args.AddsLimit args' t)
    (hlimit : Duration.limitSeconds t = .ok s) {placement : Placement} {namespaceName : String}
    {c : Config} (hc : placement.config namespaceName args = .ok c) :
    placement.config namespaceName args' = .ok (c.wrapped t s) := by
  have hseconds : limit? .timeout (some t) = .ok (some s) := by
    rw [limit?, hlimit]
    rfl
  unfold Placement.config at hc ⊢
  rw [h.text?_before] at hc
  rw [h.text?_eq (p := .gatherCommand) (by decide), h.texts_eq (p := .images) (by decide),
    h.text?_after, h.text?_eq (p := .since) (by decide), h.text?_eq (p := .nodeName) (by decide),
    h.flag_eq (p := .hostNetwork) (by decide), h.flag_eq (p := .keepNamespace) (by decide),
    h.flag_eq (p := .allComponentImages) (by decide)]
  simp only [bind_eq_ok, mapError_eq_ok] at hc ⊢
  -- the values in the order in which they are read; only the limit and the command are new
  obtain ⟨asked, hasked, images, himages, timeout, htimeout, seconds, hnone, command, hcommand,
    since, hsince, _, hage, node, hnode, host, hhost, keep, hkeep, all, hall, hc⟩ := hc
  obtain rfl := Except.ok.inj htimeout
  obtain rfl := Except.ok.inj hnone
  obtain rfl := Except.ok.inj hc
  exact ⟨asked, hasked, images, himages, some t, rfl, some s, hseconds, _,
    argv_limitedCommand hlimit hcommand, since, hsince, _, hage, node, hnode, host, hhost, keep,
    hkeep, all, hall, rfl⟩

/-- A time limit stands in front of a command, and its words go on as they were. A request that is
accepted without a limit is accepted with any limit, and only three things become different: the
limit, the command that it stands in front of, and the words of that command. -/
theorem limit_wraps_command (t s : String) (hlimit : Duration.limitSeconds t = .ok s) :
    (∀ line, Command.words (timeoutCommand ++ " " ++ s ++ " " ++ line)
      = (Command.words line).map fun ws => timeoutCommand :: s :: ws) ∧
    ∀ (args args' : Arguments) (r : Randomness) (c : Config), args.AddsLimit args' t →
      (resolve args r).1 = .ok c →
        resolve args' r = (.ok (c.wrapped t s), (resolve args r).2) := by
  refine ⟨words_limited hlimit, fun args args' r c hadds hresolve => ?_⟩
  unfold resolve at hresolve ⊢
  rw [hadds.ofArguments_eq]
  cases hplacement : Placement.ofArguments args with
  | error e => simp [hplacement] at hresolve
  | ok placement =>
    simp only [hplacement] at hresolve ⊢
    rw [config_of_addsLimit hadds hlimit hresolve]

/-- A request for a command with quotes, an escape and blanks in front. -/
def quotedRequest : Arguments :=
  [("gather_command", .text " \n/bin/sh -c 'a  b'\"\\\\\" \\ c"), ("namespace", .text "a")]

/-- A limit of an hour and a half leaves its words alone. -/
theorem limit_wraps_command_of_quotes : ∃ c,
    (resolve quotedRequest (.cycling [])).1 = .ok c ∧
      c.command = ["/bin/sh", "-c", "a  b\\", " c"] ∧
      (resolve (("timeout", .text "1.5h") :: quotedRequest) (.cycling [])).1
        = .ok (c.wrapped "1.5h" "5400s") := by
  have hcommand : (resolve quotedRequest (.cycling [])).1.toOption.map Config.command
      = some ["/bin/sh", "-c", "a  b\\", " c"] := by decide +kernel
  have hlimit : Duration.limitSeconds "1.5h" = .ok "5400s" := by decide +kernel
  have hadds : quotedRequest.AddsLimit _ "1.5h" := Arguments.addsLimit_cons rfl "1.5h"
  cases hresolve : (resolve quotedRequest (.cycling [])).1 with
  | error e => simp [hresolve, Except.toOption] at hcommand
  | ok c =>
    refine ⟨c, rfl, by simpa [hresolve, Except.toOption] using hcommand, ?_⟩
    have hwrapped := (limit_wraps_command "1.5h" "5400s" hlimit).2 _ _ _ _ hadds hresolve
    exact congrArg Prod.fst hwrapped

/-! ### Commands without words -/

/-- Nothing is wrong with the arguments, unless it is their command. -/
structure Arguments.SoundButCommand (args : Arguments) : Prop where
  /-- No image stream is asked for. -/
  stream : ¬args.AsksForStream
  /-- Every value is of its declared type. -/
  typed : ∀ p, args.WellTyped p
  /-- The limits are limits. -/
  limits : ∀ p, p = .timeout ∨ p = .since → ∀ s, args.textOf p = some s → ¬Duration.IsNoLimit s

section

variable {args args' : Arguments} {r : Randomness} {t s : String}

/-- A text with seconds is a limit. -/
theorem Duration.not_isNoLimit (h : limitSeconds t = .ok s) : ¬IsNoLimit t := by
  obtain ⟨d, hparse, hd, -⟩ := limitSeconds_eq_ok_iff.1 h
  rintro (⟨e, he⟩ | ⟨d', hd', hneg⟩)
  · cases hparse.symm.trans he
  · obtain rfl : d = d' := Except.ok.inj (hparse.symm.trans hd')
    exact absurd hneg (Int.not_lt.2 hd)

theorem resolve_isOk_iff_command :
    (∃ c, (resolve args r).1 = .ok c) ↔
      args.SoundButCommand ∧ ∃ ws, Command.argv args.commandLine = .ok ws := by
  rw [resolve_isOk_iff, Arguments.not_faulty_iff]
  constructor
  · rintro ⟨hstream, htyped, htimeout, hsince, hcommand⟩
    refine ⟨⟨hstream, htyped, ?_⟩, hcommand⟩
    rintro p (rfl | rfl)
    · exact htimeout
    · exact hsince
  · rintro ⟨hsound, hcommand⟩
    exact ⟨hsound.stream, hsound.typed, hsound.limits _ (Or.inl rfl),
      hsound.limits _ (Or.inr rfl), hcommand⟩

/-- A command has to be split, and only without a limit in front of it it has to have a word. -/
theorem resolve_isOk_iff_words :
    (∃ c, (resolve args r).1 = .ok c) ↔
      args.SoundButCommand ∧ ∃ ws, Command.words args.askedCommand = .ok ws ∧
        (args.textOf .timeout = none → ws ≠ []) := by
  rw [resolve_isOk_iff_command]
  refine and_congr_right fun hsound => ?_
  cases htimeout : args.textOf .timeout with
  | none =>
    have hline : args.commandLine = args.askedCommand := by
      simp [Arguments.commandLine, Duration.seconds?, htimeout]
    simp only [hline, Command.argv_eq_ok_iff, true_imp_iff]
  | some t =>
    cases hparse : Duration.parse t with
    | error e => exact absurd (Or.inl ⟨e, hparse⟩) (hsound.limits _ (Or.inl rfl) t htimeout)
    | ok d =>
      have hd : 0 ≤ d.microseconds :=
        Int.not_lt.1 fun h => hsound.limits _ (Or.inl rfl) t htimeout (Or.inr ⟨d, hparse, h⟩)
      simp only [Command.argv_eq_ok_iff, words_commandLine htimeout hparse hd]
      cases Command.words args.askedCommand <;> simp [Except.map]

namespace Arguments.AddsLimit

theorem wellTyped_iff (h : args.AddsLimit args' t) (p : Parameter) :
    args'.WellTyped p ↔ args.WellTyped p := by
  rw [Arguments.wellTyped_iff, Arguments.wellTyped_iff]
  by_cases hp : p = .timeout
  · subst hp
    rw [h.unlimited, h.limited]
    refine ⟨fun _ v hv => absurd hv (by simp), fun _ v hv => ?_⟩
    exact ⟨t, (Option.some.inj hv).symm⟩
  · rw [h.others p hp]

/-- A limit in addition does no harm if it is a limit. -/
theorem soundButCommand_iff (h : args.AddsLimit args' t)
    (hlimit : Duration.limitSeconds t = .ok s) : args'.SoundButCommand ↔ args.SoundButCommand := by
  have hstream : args'.AsksForStream ↔ args.AsksForStream := by
    rw [Arguments.asksForStream_iff, Arguments.asksForStream_iff,
      h.textOf_eq (p := .imageStream) nofun]
  have hsince : args'.textOf .since = args.textOf .since := h.textOf_eq nofun
  constructor
  · intro hsound
    refine ⟨mt hstream.2 hsound.stream, fun p => (h.wellTyped_iff p).1 (hsound.typed p), ?_⟩
    rintro p (rfl | rfl) s' hs'
    · rw [h.textOf_before] at hs'
      cases hs'
    · exact hsound.limits _ (Or.inr rfl) s' (hsince ▸ hs')
  · intro hsound
    refine ⟨mt hstream.1 hsound.stream, fun p => (h.wellTyped_iff p).2 (hsound.typed p), ?_⟩
    rintro p (rfl | rfl) s' hs'
    · obtain rfl : t = s' := Option.some.inj (h.textOf_after.symm.trans hs')
      exact Duration.not_isNoLimit hlimit
    · exact hsound.limits _ (Or.inr rfl) s' (hsince ▸ hs')

theorem askedCommand_eq (h : args.AddsLimit args' t) : args'.askedCommand = args.askedCommand := by
  rw [Arguments.askedCommand, Arguments.askedCommand, h.textOf_eq (p := .gatherCommand) nofun]

end Arguments.AddsLimit

theorem askedCommand_of_lookup {b : String}
    (hb : args.lookup Parameter.gatherCommand.name = some (.text b)) (hne : b ≠ "") :
    args.askedCommand = b := by
  have htext : args.textOf .gatherCommand = some b := by
    rw [Arguments.textOf, hb]
    rfl
  rw [Arguments.askedCommand, htext]
  exact if_neg hne

end

/-- A command without words is refused exactly if there is no time limit or something else is wrong
with the request. So a limit in addition makes a request acceptable whose command has no words, if
that is all that is wrong with it, and no other one. A command that is accepted with a limit has
three words at least unless it is such a command. -/
theorem blank_command_refused_iff (args : Arguments) (r : Randomness) :
    (∀ b, args.lookup Parameter.gatherCommand.name = some (.text b) → b ≠ "" →
      Command.words b = .ok [] →
        ((∃ e, (resolve args r).1 = .error e) ↔
          args.textOf .timeout = none ∨ ¬args.SoundButCommand)) ∧
    (∀ args' t s r', args.AddsLimit args' t → Duration.limitSeconds t = .ok s →
      (∃ e, (resolve args r).1 = .error e) →
        ((∃ c, (resolve args' r').1 = .ok c) ↔
          args.SoundButCommand ∧ Command.words args.askedCommand = .ok [])) ∧
    ∀ c, (resolve args r).1 = .ok c → c.timeout ≠ none →
      (3 ≤ c.command.length ↔ Command.words args.askedCommand ≠ .ok []) := by
  refine ⟨fun b hb hne hblank => ?_, fun args' t s r' hadds hlimit hrefused => ?_,
    fun c hresolve htimeout => ?_⟩
  · rw [isError_iff, resolve_isOk_iff_words, askedCommand_of_lookup hb hne, hblank]
    simp only [Except.ok.injEq, exists_eq_left', ne_eq, not_true_eq_false, imp_false]
    tauto
  · rw [isError_iff, resolve_isOk_iff_words, hadds.textOf_before] at hrefused
    rw [resolve_isOk_iff_words, hadds.soundButCommand_iff hlimit, hadds.askedCommand_eq,
      hadds.textOf_after]
    refine and_congr_right fun hsound => ⟨fun ⟨ws, hws, _⟩ => ?_, fun h => ⟨[], h, nofun⟩⟩
    by_contra hne
    exact hrefused ⟨hsound, ws, hws, fun _ hnil => hne (hnil ▸ hws)⟩
  · obtain ⟨t, ht⟩ := Option.ne_none_iff_exists'.1 htimeout
    obtain ⟨d, ws, -, -, hwords, hcommand⟩ := command_of_timeout hresolve ht
    rw [hwords, hcommand]
    cases ws <;> simp

/-- A request for a command that is nothing but a space. -/
def blankCommandRequest : Arguments := [("gather_command", .text " "), ("namespace", .text "a")]

theorem exists_config_of_blankCommand : ∃ c,
    (resolve (("timeout", .text "10s") :: blankCommandRequest) (.cycling [])).1 = .ok c ∧
      c.timeout = some "10s" :=
  exists_of_timeout (by decide +kernel)

/-- It is refused, but not with a limit in addition. -/
theorem blank_command_refused_of_space :
    (∃ e, (resolve blankCommandRequest (.cycling [])).1 = .error e) ∧
      blankCommandRequest.SoundButCommand ∧
      ∃ c, (resolve (("timeout", .text "10s") :: blankCommandRequest) (.cycling [])).1 = .ok c ∧
        ¬3 ≤ c.command.length := by
  have hblank : Command.words " " = .ok [] := by decide +kernel
  have hlimit : Duration.limitSeconds "10s" = .ok "10s" := by decide +kernel
  have hadds : blankCommandRequest.AddsLimit _ "10s" := Arguments.addsLimit_cons rfl "10s"
  obtain ⟨c, hresolve, htimeout⟩ := exists_config_of_blankCommand
  obtain ⟨halone, hadded, -⟩ := blank_command_refused_iff blankCommandRequest (.cycling [])
  have hrefused := (halone " " rfl (by decide) hblank).2 (Or.inl rfl)
  refine ⟨hrefused, ((hadded _ _ _ _ hadds hlimit hrefused).1 ⟨c, hresolve⟩).1, c, hresolve, ?_⟩
  rw [(blank_command_refused_iff _ _).2.2 c hresolve (htimeout ▸ Option.some_ne_none _)]
  exact not_not_intro hblank

/-- Not every command without words is refused. -/
theorem blank_command_not_refused : ¬∀ (args : Arguments) (r : Randomness) (b : String),
    args.lookup Parameter.gatherCommand.name = some (.text b) → b ≠ "" →
      Command.words b = .ok [] → ∃ e, (resolve args r).1 = .error e := by
  intro h
  obtain ⟨c, hresolve, -⟩ := exists_config_of_blankCommand
  obtain ⟨e, he⟩ := h (("timeout", .text "10s") :: blankCommandRequest) (.cycling []) " " rfl
    (by decide) (by decide +kernel)
  cases hresolve.symm.trans he

end BundlePlan
