import BundlePlan.Planning.Plan
import BundlePlan.Proofs.Command.Quoting
import BundlePlan.Proofs.Request.Typing

/-!
# Which requests are accepted

A request is refused for its image stream, or because it is `Faulty`: an argument is not of its
declared type, a limit is no duration or a negative one, or the text that becomes the command of
the containers is no command. Every other request has a configuration. What the faults are is said
of the arguments alone; the order in which `resolve` finds them plays no role.
-/

namespace BundlePlan

open Command (Blank DanglingEscape UnclosedQuote)
open Request (flag limit? limitedCommand nonEmpty text? texts)

/-! ### Faults -/

namespace Duration

/-- Whether a text is no limit: it is not a duration, or a negative one. -/
def IsNoLimit (s : String) : Prop :=
  (∃ e, parse s = .error e) ∨ ∃ d, parse s = .ok d ∧ d.microseconds < 0

/-- The seconds of a limit, if there is one. -/
def seconds? (limit : Option String) : Option String :=
  limit.bind fun s => match parse s with
    | .ok d => some d.secondsText
    | .error _ => none

end Duration

namespace Arguments

/-- Whether an image stream is asked for. -/
def AsksForStream (args : Arguments) : Prop :=
  ∃ s, s ≠ "" ∧ args.lookup "image_stream" = some (.text s)

/-- The command that is asked for, the default one if there is none or it is empty. -/
def askedCommand (args : Arguments) : String :=
  match args.textOf .gatherCommand with
  | some s => if s = "" then defaultGatherCommand else s
  | none => defaultGatherCommand

/-- The text that is split into the words of the command: the command that is asked for, behind the
one that ends it if there is a time limit. -/
def commandLine (args : Arguments) : String :=
  match Duration.seconds? (args.textOf .timeout) with
  | some seconds => timeoutCommand ++ " " ++ seconds ++ " " ++ args.askedCommand
  | none => args.askedCommand

/-- What can be wrong with arguments. -/
inductive Faulty (args : Arguments) : Prop where
  /-- The value of a parameter is not of the declared type. -/
  | type (p : Parameter) (h : ¬args.WellTyped p)
  /-- A limit cannot be one. -/
  | limit (p : Parameter) (hp : p = .timeout ∨ p = .since) (s : String)
    (hs : args.textOf p = some s) (h : Duration.IsNoLimit s)
  /-- A quote in the command is not closed. -/
  | quote (h : UnclosedQuote args.commandLine.toList)
  /-- The command ends where a character should be escaped. -/
  | escape (h : DanglingEscape args.commandLine.toList)
  /-- The command has no words. -/
  | blank (h : Blank args.commandLine.toList)

theorem asksForStream_iff (args : Arguments) :
    args.AsksForStream ↔ (nonEmpty (args.textOf .imageStream)).isSome = true := by
  have htext : ∀ s, args.lookup "image_stream" = some (.text s) ↔
      args.textOf .imageStream = some s := by
    intro s
    rw [Arguments.textOf, Parameter.name]
    cases args.lookup "image_stream" with
    | none => simp
    | some v => cases v <;> simp [Argument.text?]
  simp only [AsksForStream, htext]
  cases args.textOf .imageStream with
  | none => simp [nonEmpty]
  | some s => by_cases hs : s = "" <;> simp [nonEmpty, hs]

theorem not_faulty_iff (args : Arguments) :
    ¬args.Faulty ↔ (∀ p, args.WellTyped p) ∧
      (∀ s, args.textOf .timeout = some s → ¬Duration.IsNoLimit s) ∧
      (∀ s, args.textOf .since = some s → ¬Duration.IsNoLimit s) ∧
      ∃ command, Command.argv args.commandLine = .ok command := by
  have hcommand : (∃ command, Command.argv args.commandLine = .ok command) ↔
      ¬(UnclosedQuote args.commandLine.toList ∨ DanglingEscape args.commandLine.toList ∨
        Blank args.commandLine.toList) := by
    rw [← Command.argv_eq_error_iff]
    cases Command.argv args.commandLine <;> simp
  rw [hcommand]
  constructor
  · intro h
    refine ⟨fun p => ?_, fun s hs hno => ?_, fun s hs hno => ?_, ?_⟩
    · by_contra hp
      exact h (.type p hp)
    · exact h (.limit .timeout (Or.inl rfl) s hs hno)
    · exact h (.limit .since (Or.inr rfl) s hs hno)
    · intro hline
      rcases hline with hquote | hescape | hblank
      · exact h (.quote hquote)
      · exact h (.escape hescape)
      · exact h (.blank hblank)
  · intro ⟨htype, htimeout, hsince, hline⟩ h
    cases h with
    | type p hp => exact hp (htype p)
    | limit p hp s hs hno =>
      rcases hp with rfl | rfl
      · exact htimeout s hs hno
      · exact hsince s hs hno
    | quote hquote => exact hline (Or.inl hquote)
    | escape hescape => exact hline (Or.inr (Or.inl hescape))
    | blank hblank => exact hline (Or.inr (Or.inr hblank))

end Arguments

/-! ### Limits and the command -/

/-- A limit that is given has to be one. -/
theorem limit?_eq_ok_iff {p : Parameter} {limit seconds : Option String} :
    limit? p limit = .ok seconds ↔
      (∀ s, limit = some s → ¬Duration.IsNoLimit s) ∧ seconds = Duration.seconds? limit := by
  cases limit with
  | none => simp [limit?, Duration.seconds?, eq_comm]
  | some s =>
    cases hparse : Duration.parse s with
    | error e =>
      simp [limit?, Duration.limitSeconds, Duration.IsNoLimit, hparse, Except.map]
    | ok d =>
      have hlimit : Duration.IsNoLimit s ↔ d.microseconds < 0 := by
        simp [Duration.IsNoLimit, hparse]
      have hseconds : Duration.seconds? (some s) = some d.secondsText := by
        simp [Duration.seconds?, hparse]
      rw [hseconds]
      by_cases hneg : d.microseconds < 0
      · simp [limit?, Duration.limitSeconds, hparse, hlimit, hneg, Except.map]
      · simp [limit?, Duration.limitSeconds, hparse, hlimit, hneg, Except.map,
          eq_comm]

/-- The text that is split is the one that `resolve` puts together. -/
theorem limitedCommand_eq (args : Arguments) :
    limitedCommand (Duration.seconds? (args.textOf .timeout))
        ((nonEmpty (args.textOf .gatherCommand)).getD defaultGatherCommand)
      = args.commandLine := by
  have hasked : (nonEmpty (args.textOf .gatherCommand)).getD defaultGatherCommand
      = args.askedCommand := by
    unfold Arguments.askedCommand nonEmpty
    cases args.textOf .gatherCommand with
    | none => rfl
    | some s => by_cases hs : s = "" <;> simp [hs]
  rw [hasked, Arguments.commandLine]
  cases Duration.seconds? (args.textOf .timeout) <;> rfl

/-! ### The two steps of `resolve` -/

/-- The first step goes well exactly if no image stream is asked for and the arguments that it
reads are well typed. -/
theorem ofArguments_isOk_iff (args : Arguments) :
    (∃ p, Placement.ofArguments args = .ok p) ↔
      ¬args.AsksForStream ∧ args.WellTyped .imageStream ∧ args.WellTyped .nodeSelector ∧
        args.WellTyped .sourceDir ∧ args.WellTyped .namespaceName := by
  have hstream := args.asksForStream_iff
  unfold Placement.ofArguments
  simp (disch := decide) only [bind_isOk_iff, text?_eq_ok_iff, and_assoc, exists_and_left,
    exists_eq_left]
  by_cases h : args.AsksForStream
  · simp [hstream.1 h, h, throw, throwThe, MonadExceptOf.throw, bind, Except.bind]
  · have hnone := mt hstream.2 h
    simp (disch := decide) only [hnone, Bool.false_eq_true, if_false, bind_isOk_iff,
      text?_eq_ok_iff, and_assoc, exists_and_left, exists_eq_left]
    simp [h, pure, Except.pure]

/-- The second step goes well exactly if the arguments that it reads are well typed, the limits are
limits and the command is one. -/
theorem config_isOk_iff (p : Placement) (namespaceName : String) (args : Arguments) :
    (∃ c, p.config namespaceName args = .ok c) ↔
      args.WellTyped .gatherCommand ∧ args.WellTyped .images ∧ args.WellTyped .timeout ∧
        (∀ s, args.textOf .timeout = some s → ¬Duration.IsNoLimit s) ∧
        (∃ command, Command.argv args.commandLine = .ok command) ∧
        args.WellTyped .since ∧ (∀ s, args.textOf .since = some s → ¬Duration.IsNoLimit s) ∧
        args.WellTyped .nodeName ∧ args.WellTyped .hostNetwork ∧ args.WellTyped .keepNamespace ∧
        args.WellTyped .allComponentImages := by
  unfold Placement.config
  simp (disch := decide) only [bind_isOk_iff, text?_eq_ok_iff, limit?_eq_ok_iff, limitedCommand_eq,
    texts_isOk_iff, flag_isOk_iff, mapError_isOk_iff, pure, Except.pure, Except.ok.injEq,
    exists_eq, exists_eq', true_and, and_true, and_assoc, exists_and_left, exists_and_right,
    exists_eq_left]

theorem resolve_isOk_iff (args : Arguments) (r : Randomness) :
    (∃ c, (resolve args r).1 = .ok c) ↔ ¬args.AsksForStream ∧ ¬args.Faulty := by
  have hresolve : (∃ c, (resolve args r).1 = .ok c) ↔ ∃ p, Placement.ofArguments args = .ok p ∧
      ∃ c, p.config (p.chooseNamespace r).1 args = .ok c := by
    unfold resolve
    cases Placement.ofArguments args <;> simp
  simp only [hresolve, config_isOk_iff, exists_and_right]
  rw [ofArguments_isOk_iff, Arguments.not_faulty_iff]
  constructor
  · intro ⟨⟨hstream, h₁, h₂, h₃, h₄⟩, h₅, h₆, h₇, htimeout, hcommand, h₈, hsince, h₉, h₁₀, h₁₁, h₁₂⟩
    refine ⟨hstream, fun p => ?_, htimeout, hsince, hcommand⟩
    cases p <;> assumption
  · intro ⟨hstream, htype, htimeout, hsince, hcommand⟩
    exact ⟨⟨hstream, htype _, htype _, htype _, htype _⟩, htype _, htype _, htype _, htimeout,
      hcommand, htype _, hsince, htype _, htype _, htype _, htype _⟩

/-! ### The error for an image stream -/

/-- A step that does not refuse an image stream. -/
def IgnoresStream {α : Type} (x : Except RequestError α) : Prop := x ≠ .error .imageStream

theorem IgnoresStream.bind {α β : Type} {x : Except RequestError α}
    {f : α → Except RequestError β} (hx : IgnoresStream x) (hf : ∀ a, IgnoresStream (f a)) :
    IgnoresStream (x >>= f) := by
  cases x with
  | error e => simpa [IgnoresStream, Bind.bind, Except.bind] using hx
  | ok a => exact hf a

theorem IgnoresStream.map {α β : Type} {x : Except RequestError α} (hx : IgnoresStream x)
    (f : α → β) : IgnoresStream (x.map f) := by
  cases x with
  | error e => simpa [IgnoresStream, Except.map] using hx
  | ok a => simp [IgnoresStream, Except.map]

theorem ignoresStream_ok {α : Type} (a : α) :
    IgnoresStream (.ok a : Except RequestError α) := by
  simp [IgnoresStream]

theorem ignoresStream_mapError {ε α : Type} (x : Except ε α) {f : ε → RequestError}
    (hf : ∀ e, f e ≠ .imageStream) : IgnoresStream (x.mapError f) := by
  cases x with
  | error e => simpa [IgnoresStream] using hf e
  | ok a => simp [IgnoresStream]

theorem ignoresStream_text? (args : Arguments) (p : Parameter) : IgnoresStream (text? args p) :=
  ignoresStream_mapError _ (by simp)

theorem ignoresStream_flag (args : Arguments) (p : Parameter) : IgnoresStream (flag args p) :=
  (ignoresStream_mapError _ (by simp)).map _

theorem ignoresStream_texts (args : Arguments) (p : Parameter) : IgnoresStream (texts args p) :=
  (ignoresStream_mapError _ (by simp)).map _

theorem ignoresStream_limit? (p : Parameter) (limit : Option String) :
    IgnoresStream (limit? p limit) := by
  cases limit with
  | none => exact ignoresStream_ok none
  | some s => exact (ignoresStream_mapError _ (by simp)).map _

/-- The second step never refuses an image stream. -/
theorem ignoresStream_config (p : Placement) (namespaceName : String) (args : Arguments) :
    IgnoresStream (p.config namespaceName args) := by
  refine (ignoresStream_text? args _).bind fun _ => ?_
  refine (ignoresStream_texts args _).bind fun _ => ?_
  refine (ignoresStream_text? args _).bind fun _ => ?_
  refine (ignoresStream_limit? _ _).bind fun _ => ?_
  refine (ignoresStream_mapError _ (by simp)).bind fun _ => ?_
  refine (ignoresStream_text? args _).bind fun _ => ?_
  refine (ignoresStream_limit? _ _).bind fun _ => ?_
  refine (ignoresStream_text? args _).bind fun _ => ?_
  refine (ignoresStream_flag args _).bind fun _ => ?_
  refine (ignoresStream_flag args _).bind fun _ => ?_
  refine (ignoresStream_flag args _).bind fun _ => ?_
  exact ignoresStream_ok _

/-- An image stream that is asked for is refused before anything else is looked at. -/
theorem ofArguments_eq_imageStream_iff (args : Arguments) :
    Placement.ofArguments args = .error .imageStream ↔ args.AsksForStream := by
  constructor
  · intro h
    by_contra hno
    -- the text that is read is no stream, and no other step looks for one
    have hrest : IgnoresStream (Placement.ofArguments args) := by
      have hread := ignoresStream_text? args .imageStream
      unfold Placement.ofArguments
      cases htext : text? args .imageStream with
      | error e => simpa [htext, IgnoresStream, bind, Except.bind] using hread
      | ok asked =>
        obtain ⟨-, rfl⟩ := (text?_eq_ok_iff rfl).1 htext
        simp only [bind, Except.bind, mt args.asksForStream_iff.2 hno]
        refine (ignoresStream_text? args _).bind fun _ => ?_
        refine (ignoresStream_text? args _).bind fun _ => ?_
        refine (ignoresStream_text? args _).bind fun _ => ?_
        exact ignoresStream_ok _
    exact hrest h
  · intro ⟨s, hne, hs⟩
    have htext : text? args .imageStream = .ok (some s) := by
      simp [text?, Parameter.text?, Parameter.value?, Parameter.name, hs]
    simp [Placement.ofArguments, htext, nonEmpty, hne, throw, throwThe, MonadExceptOf.throw, bind,
      Except.bind]

theorem resolve_eq_imageStream_iff (args : Arguments) (r : Randomness) :
    (resolve args r).1 = .error .imageStream ↔ args.AsksForStream := by
  rw [← ofArguments_eq_imageStream_iff]
  unfold resolve
  cases Placement.ofArguments args with
  | error e => simp
  | ok p => simpa [IgnoresStream] using ignoresStream_config p _ args

/-! ### Acceptance -/

namespace Planner

/-- A request that is refused is answered with the reason, and nothing else happens. -/
theorem plan_of_error {p : Planner} {args : Arguments} {e : RequestError}
    (h : (resolve args p.randomness).1 = .error e) :
    p.plan args = ⟨.ok (.error (.request e)),
      { p with randomness := (resolve args p.randomness).2 }, []⟩ := by
  unfold plan
  simp only
  rw [h]

end Planner

/-- A request is refused for its image stream exactly if it asks for one, and for another reason
exactly if it asks for none and is faulty. In every other case it has a configuration. A planner
answers what is refused with the reason. -/
theorem refused_iff_faulty (args : Arguments) (r : Randomness) :
    ((resolve args r).1 = .error .imageStream ↔ args.AsksForStream) ∧
      (¬args.AsksForStream →
        ((∃ e, e ≠ .imageStream ∧ (resolve args r).1 = .error e) ↔ args.Faulty)) ∧
      ((∃ c, (resolve args r).1 = .ok c) ↔ ¬args.AsksForStream ∧ ¬args.Faulty) ∧
      ∀ p : Planner, args.AsksForStream ∨ args.Faulty →
        ∃ e, (resolve args p.randomness).1 = .error e ∧
          (p.plan args).result = .ok (.error (.request e)) := by
  have hstream := resolve_eq_imageStream_iff args
  have haccepted := resolve_isOk_iff args
  refine ⟨hstream r, fun hno => ?_, haccepted r, fun p h => ?_⟩
  · have hfaulty : args.Faulty ↔ ¬∃ c, (resolve args r).1 = .ok c := by
      rw [haccepted r]
      simp [hno]
    rw [hfaulty]
    cases hresolve : (resolve args r).1 with
    | error e =>
      have hne : e ≠ .imageStream := fun heq => hno ((hstream r).1 (heq ▸ hresolve))
      simp [hne]
    | ok c => simp
  · cases hresolve : (resolve args p.randomness).1 with
    | error e => exact ⟨e, rfl, by rw [Planner.plan_of_error hresolve]⟩
    | ok c =>
      obtain ⟨hno, hnone⟩ := (haccepted p.randomness).1 ⟨c, hresolve⟩
      exact absurd h (by simp [hno, hnone])

end BundlePlan
