import BundlePlan.Proofs.CommandLine.Output
import BundlePlan.Proofs.Markup.Message
import BundlePlan.Proofs.Planning.Connection

/-!
# The messages of the program

`ConsoleMessage` has every message that the program, its planner and its clusters print or show
while something is done. A message has tags of its own, and a text from outside can neither add one
nor take one away but in one case: a name that is highlighted and ends with an odd number of
backslashes, from three on, keeps the tag right after it from counting.
-/

namespace BundlePlan

open Markup (Reads SparesNextTag IsPlain isPlain_of_all reads_iff_tags_eq styleTags)

/-- A message on the console. -/
inductive ConsoleMessage where
  /-- Images cannot be discovered. -/
  | discovery
  /-- A choice was cancelled. -/
  | cancelled
  /-- There is a plan. -/
  | done
  /-- The cluster is asked for a namespace. -/
  | checking (name : String)
  /-- The namespace exists already. -/
  | reused (name : String)
  /-- The context that is used. -/
  | context (name : String)
  /-- A request has no plan. -/
  | failed (failure : PlanFailure)
  /-- A connection failed. -/
  | disconnected (e : PlannerError)

namespace ConsoleMessage

/-- The wording of a message. -/
def text : ConsoleMessage → String
  | discovery => Planner.discoveryMessage
  | cancelled => Cluster.cancelledMessage
  | done => CommandLine.doneMessage
  | checking name => Planner.checkingMessage name
  | reused name => Planner.reusedMessage name
  | context name => Cluster.contextMessage name
  | failed failure => CommandLine.failureMessage failure
  | disconnected e => CommandLine.connectionMessage e

/-- The message as an event: what is being done is shown meanwhile, everything else is printed. -/
def event (m : ConsoleMessage) : Event :=
  match m with
  | checking _ => .status m.text
  | _ => .print m.text

/-- The tags that the program puts into a message. -/
def ownTags : ConsoleMessage → List String
  | discovery | cancelled => ["warning", "/warning"]
  | done => ["success", "/success"]
  | checking _ => ["info", "/info"]
  | reused _ | context _ => ["info", "/info", "highlight", "/highlight"]
  | failed _ | disconnected _ => ["error", "/error"]

/-- The tags of a message that count, by the rule, are these. -/
def HasTags (m : ConsoleMessage) (tags : List String) : Prop :=
  Reads m.text.toList (tags.map String.toList)

/-- Whether the text from outside leaves the tags of a message alone: right before a tag it has to
spare it. -/
def KeepsTags : ConsoleMessage → Prop
  | reused name | context name => SparesNextTag name
  | _ => True

instance : DecidablePred KeepsTags
  | reused name | context name => inferInstanceAs (Decidable (SparesNextTag name))
  | discovery | cancelled | done | checking _ | failed _ | disconnected _ => .isTrue trivial

/-! ### Tags -/

/-- The tags that are read in a message are its own ones, save that the last one does not count if
the text from outside does not spare it. -/
theorem tags_text (m : ConsoleMessage) : Markup.tags m.text
    = (if m.KeepsTags then m.ownTags else m.ownTags.dropLast).map String.toList := by
  change Markup.tagsFrom 0 m.text.toList = _
  have hplain : ∀ (tone : Markup.Tone) {text : String}, IsPlain text →
      Markup.tagsFrom 0 (Markup.message tone text).toList = styleTags tone.style := by
    intro tone text h
    rw [Markup.tagsFrom_message, Markup.tagsFrom_eq_nil h, List.append_nil]
  -- both messages about a name end the same way
  have hnamed : ∀ name, styleTags .info ++ (if SparesNextTag name then styleTags .highlight else
      (styleTags .highlight).dropLast) = (if SparesNextTag name then
        ["info", "/info", "highlight", "/highlight"] else
        ["info", "/info", "highlight"]).map String.toList := by
    intro name
    split <;> rfl
  cases m with
  | discovery => exact hplain .warning (isPlain_of_all (by decide +kernel))
  | cancelled => exact hplain .warning (isPlain_of_all rfl)
  | done => exact hplain .success (isPlain_of_all rfl)
  | checking name =>
    exact Markup.tagsFrom_progress "Checking for namespace " name "..." (isPlain_of_all rfl)
      (isPlain_of_all rfl) (by decide)
  | reused name =>
    exact (Markup.tagsFrom_message_highlight .info "Namespace " name
      " already exists, it will be reused" (isPlain_of_all rfl) (isPlain_of_all rfl)).trans
      (hnamed name)
  | context name =>
    exact (Markup.tagsFrom_message_highlight .action "Working with " name " cluster"
      (isPlain_of_all rfl) (isPlain_of_all rfl)).trans (hnamed name)
  | failed failure =>
    have htags := Markup.tagsFrom_message_escape .error "" failure.message (isPlain_of_all rfl)
    rwa [String.empty_append] at htags
  | disconnected e =>
    exact Markup.tagsFrom_message_escape .error "Cluster connection failed: " e.message
      (isPlain_of_all rfl)

theorem hasTags_iff (m : ConsoleMessage) (tags : List String) :
    m.HasTags tags ↔ tags = if m.KeepsTags then m.ownTags else m.ownTags.dropLast := by
  have hinjective : Function.Injective (List.map String.toList) :=
    List.map_injective_iff.2 fun _ _ => String.toList_inj.1
  rw [HasTags, reads_iff_tags_eq, tags_text, hinjective.eq_iff, eq_comm]

theorem ownTags_ne_dropLast (m : ConsoleMessage) : m.ownTags ≠ m.ownTags.dropLast := by
  cases m <;> simp [ownTags]

/-- A message has its own tags exactly if the text from outside leaves them alone. -/
theorem hasTags_ownTags_iff (m : ConsoleMessage) : m.HasTags m.ownTags ↔ m.KeepsTags := by
  rw [hasTags_iff]
  by_cases h : m.KeepsTags
  · simp [h]
  · rw [if_neg h]
    exact iff_of_false m.ownTags_ne_dropLast h

end ConsoleMessage

/-! ### What is told -/

/-- Every message among the events is one of the program's. -/
def Announces (events : List Event) : Prop :=
  ∀ e ∈ events, e.isMessage = true → ∃ m : ConsoleMessage, e = m.event

theorem announces_event (m : ConsoleMessage) : Announces [m.event] := fun _ he _ =>
  ⟨m, List.mem_singleton.1 he⟩

theorem announces_of_silent {events : List Event} (h : ∀ e ∈ events, e.isMessage = false) :
    Announces events := fun e he hmessage => absurd hmessage (by simp [h e he])

theorem announces_nil : Announces [] := nofun

theorem Announces.append {events more : List Event} (h : Announces events)
    (hmore : Announces more) : Announces (events ++ more) :=
  List.forall_mem_append.2 ⟨h, hmore⟩

namespace Cluster

theorem announces_load (env : Environment) (context : String) :
    Announces (load env context).2 := by
  have hevents : Announces ([.print (contextMessage context)] ++ [.load context]) :=
    (announces_event (.context context)).append (announces_of_silent (by simp [Event.isMessage]))
  unfold load
  split <;> exact hevents

theorem announces_choose (env : Environment) : Announces (choose env).2 := by
  have hasked : Announces [.select contextPrompt env.contexts] :=
    announces_of_silent (by simp [Event.isMessage])
  unfold choose
  split
  · exact hasked.append (announces_event .cancelled)
  · next context _ => exact hasked.append (announces_load env context)

theorem announces_connect (env : Environment) (selects : Bool) :
    Announces (connect env selects).2 := by
  have hlisted : Announces [.contexts] := announces_of_silent (by simp [Event.isMessage])
  unfold connect
  split
  · exact hlisted
  · cases selects with
    | true => exact hlisted.append (announces_choose env)
    | false => exact hlisted.append (announces_load env _)

theorem announces_namespaceExists (env : Environment) (name : String) :
    Announces (namespaceExists env name).2 := by
  have hlist : Announces [.list] := announces_of_silent (by simp [Event.isMessage])
  unfold namespaceExists
  split <;> exact hlist

end Cluster

namespace Planner

theorem announces_connected (p : Planner) : Announces p.connected.events := by
  have hconnect := Cluster.announces_connect p.environment p.selectsContext
  unfold connected
  split
  · exact announces_nil
  · split
    · next h => rwa [h] at hconnect
    · next h => rwa [h] at hconnect

theorem announces_namespaceExists (p : Planner) (name : String) :
    Announces (p.namespaceExists name).events := by
  have hconnected := p.announces_connected
  unfold namespaceExists
  split
  · next h => rwa [h] at hconnected
  · next h =>
    rw [h] at hconnected
    exact hconnected.append (Cluster.announces_namespaceExists _ _)

theorem announces_render (p : Planner) (c : Config) (found : Bool) :
    Announces (p.render c found).events := by
  cases found with
  | true => exact announces_event (.reused c.namespaceName)
  | false => exact announces_nil

theorem announces_announcements (c : Config) : Announces (announcements c) := by
  have hchecking : Announces [.status (checkingMessage c.namespaceName)] :=
    announces_event (.checking c.namespaceName)
  unfold announcements
  split
  · exact (announces_event .discovery).append hchecking
  · exact announces_nil.append hchecking

theorem announces_planConfig (p : Planner) (c : Config) :
    Announces (p.planConfig c).events := by
  have hannounced := announces_announcements c
  have hasked := p.announces_namespaceExists c.namespaceName
  unfold planConfig
  split
  · next h =>
    rw [h] at hasked
    exact hannounced.append hasked
  · next h =>
    rw [h] at hasked
    exact hannounced.append hasked
  · next found q _ h =>
    rw [h] at hasked
    exact (hannounced.append hasked).append (q.announces_render c found)

theorem announces_plan (p : Planner) (args : Arguments) : Announces (p.plan args).events := by
  unfold plan
  simp only
  split
  · exact announces_nil
  · exact announces_planConfig _ _

theorem announces_step (p : Planner) (step : Step) : Announces (p.step step).events := by
  cases step with
  | plan args => exact p.announces_plan args
  | namespaceExists name => exact p.announces_namespaceExists name
  | cluster => exact p.announces_connected
  | world env => exact announces_nil

theorem announces_session (p : Planner) (steps : List Step) :
    ∀ o ∈ p.session steps, Announces o.events := by
  induction steps generalizing p with
  | nil => simp [session]
  | cons step steps ih =>
    rw [session, List.forall_mem_cons]
    exact ⟨p.announces_step step, ih _⟩

end Planner

namespace CommandLine

theorem announces_finish {o : Outcome PlanResult} (h : Announces o.events) :
    Announces (finish o).events := by
  obtain ⟨result, p, events⟩ := o
  match result with
  | .ok (.ok _) => exact h.append (announces_event .done)
  | .ok (.error failure) => exact h.append (announces_event (.failed failure))
  | .error (.connect .cancelled) | .error (.render _) => exact h
  | .error (.connect (.noContexts _)) | .error (.connect (.loadFailed _ _)) | .error (.query _) =>
    exact h.append (announces_event (.disconnected _))

theorem announces_run (env : Environment) (r : Randomness) (s : Serializer) (line : List String) :
    Announces (run env r s line).events := by
  rcases run_cases line with ⟨e, hrun⟩ | ⟨text, -, hrun⟩ | ⟨occurrences, -, hrun⟩
  · rw [hrun]
    exact announces_nil
  · rw [hrun]
    exact announces_nil
  · rw [hrun]
    exact announces_finish (Planner.announces_plan _ _)

end CommandLine

/-- Whatever text from outside a message has, it has exactly its own tags, by the rule for tags, if
it is not about a namespace that is reused or about a context; and one of these does exactly if the
number of backslashes at the end of the name is one or even. Otherwise its last tag, the closing one
right after the name, does not count, and the others do. Sessions and runs of the program print and
show no other messages. -/
theorem messages_keep_tags_iff (m : ConsoleMessage) (p : Planner) (steps : List Step)
    (env : Environment) (r : Randomness) (s : Serializer) (line : List String) :
    (m.HasTags m.ownTags ↔ m.KeepsTags) ∧
    (¬m.KeepsTags → m.HasTags m.ownTags.dropLast) ∧
    (∀ o ∈ p.session steps, Announces o.events) ∧
    Announces (CommandLine.run env r s line).events := by
  refine ⟨m.hasTags_ownTags_iff, fun h => ?_, p.announces_session steps,
    CommandLine.announces_run env r s line⟩
  rw [ConsoleMessage.hasTags_iff, if_neg h]

/-- The name of a context ends with three backslashes, and the message about it lacks a tag. -/
theorem context_disables_tag :
    Event.print (Cluster.contextMessage "a\\\\\\") ∈
        (Cluster.connect { contexts := [], current := .text "a\\\\\\" } false).2 ∧
      ¬Reads (Cluster.contextMessage "a\\\\\\").toList
        (["info", "/info", "highlight", "/highlight"].map String.toList) := by
  refine ⟨by simp [Cluster.connect, Cluster.load, ContextName.toText], fun hreads => ?_⟩
  have hkeeps : (ConsoleMessage.context "a\\\\\\").KeepsTags :=
    (ConsoleMessage.hasTags_ownTags_iff _).1 hreads
  exact absurd hkeeps (by decide)

end BundlePlan
