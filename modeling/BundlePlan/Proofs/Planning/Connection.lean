import BundlePlan.Planning.Session
import BundlePlan.Proofs.Planning.Content

/-!
# How a step uses the cluster

How an attempt to connect goes is said by the world alone: `Environment.Attempt` has one way for
each thing that can fail, and one for success. `Cluster.connect` makes such an attempt.

Every step of a planner that needs its cluster has the same shape, `UsesCluster`: it may tell
something first, then it connects, and without a connection it ends there. With one it lists the
namespaces at most once and may tell something more. What follows about sessions is read off this
shape and off the attempt that it makes.
-/

namespace BundlePlan

namespace Event

/-- Whether the event belongs to making a connection. -/
def isConnection : Event → Bool
  | contexts | select .. | load _ => true
  | list | print _ | status _ => false

/-- Whether the event is a message. -/
def isMessage : Event → Bool
  | print _ | status _ => true
  | contexts | select .. | load _ | list => false

/-- The context whose configuration is loaded. -/
def loadedContext? : Event → Option String
  | load context => some context
  | _ => none

/-- All events are messages. -/
def Messages (events : List Event) : Prop := ∀ e ∈ events, e.isMessage = true

/-- What can happen once there is a connection: the namespaces are listed at most once, and nothing
is connected. -/
def AfterConnection (events : List Event) : Prop :=
  events.count .list ≤ 1 ∧ ∀ e ∈ events, e.isConnection = false

theorem isConnection_of_isMessage {e : Event} (h : e.isMessage = true) :
    e.isConnection = false := by
  cases e <;> simp [isMessage, isConnection] at h ⊢

theorem loadedContext?_eq_some {e : Event} {context : String} :
    e.loadedContext? = some context ↔ e = .load context := by
  cases e <;> simp [loadedContext?]

theorem Messages.not_isConnection {events : List Event} (h : Messages events) :
    ∀ e ∈ events, e.isConnection = false :=
  fun e he => isConnection_of_isMessage (h e he)

theorem Messages.append {events more : List Event} (h : Messages events) (hmore : Messages more) :
    Messages (events ++ more) :=
  List.forall_mem_append.2 ⟨h, hmore⟩

theorem Messages.count_list {events : List Event} (h : Messages events) :
    events.count .list = 0 :=
  List.count_eq_zero.2 fun hmem => absurd (h _ hmem) (by decide)

/-- Without a connection being made the contexts are not listed. -/
theorem count_contexts_of_not_isConnection {events : List Event}
    (h : ∀ e ∈ events, e.isConnection = false) : events.count .contexts = 0 :=
  List.count_eq_zero.2 fun hmem => absurd (h _ hmem) (by decide)

theorem AfterConnection.append {events more : List Event} (h : AfterConnection events)
    (hmore : Messages more) : AfterConnection (events ++ more) := by
  refine ⟨?_, List.forall_mem_append.2 ⟨h.2, hmore.not_isConnection⟩⟩
  rw [List.count_append, hmore.count_list]
  exact h.1

end Event

open Event (Messages AfterConnection)

/-! ### Making a connection -/

namespace Environment

/-- The contexts whose configuration is loaded with success. -/
def loads (env : Environment) (events : List Event) : List String :=
  if env.loadError = none then events.filterMap Event.loadedContext? else []

/-- The context to connect to, after the question that it takes to know it. -/
inductive Choice (env : Environment) : Bool → List Event → String → Prop where
  /-- The current context is known. -/
  | current : Choice env false [] env.current.toText
  /-- The user answers which of the contexts it is. -/
  | answered {context : String} (hanswer : env.answer = some context) :
      Choice env true [.select Cluster.contextPrompt env.contexts] context

/-- How an attempt to connect goes: what is asked and told on the way, in order, and in the end the
context that is loaded or the error. The conditions are about the world and exclude each other. -/
inductive Attempt (env : Environment) (selects : Bool) :
    List Event → Except ConnectError String → Prop where
  /-- The contexts cannot be listed. -/
  | unlisted {cause : String} (hcontexts : env.contextsError = some cause) :
      Attempt env selects [.contexts] (.error (.noContexts cause))
  /-- The user cancels the choice. -/
  | cancelled (hcontexts : env.contextsError = none) (hselects : selects = true)
      (hanswer : env.answer = none) :
      Attempt env selects
        [.contexts, .select Cluster.contextPrompt env.contexts, .print Cluster.cancelledMessage]
        (.error .cancelled)
  /-- The configuration of the context cannot be loaded. -/
  | unloaded {asked : List Event} {context cause : String}
      (hcontexts : env.contextsError = none) (hchoice : Choice env selects asked context)
      (hload : env.loadError = some cause) :
      Attempt env selects
        (.contexts :: asked ++ [.print (Cluster.contextMessage context), .load context])
        (.error (.loadFailed context cause))
  /-- The configuration of the context is loaded. -/
  | loaded {asked : List Event} {context : String} (hcontexts : env.contextsError = none)
      (hchoice : Choice env selects asked context) (hload : env.loadError = none) :
      Attempt env selects
        (.contexts :: asked ++ [.print (Cluster.contextMessage context), .load context])
        (.ok context)

theorem mem_loads {env : Environment} {events : List Event} {context : String} :
    context ∈ env.loads events ↔ env.loadError = none ∧ .load context ∈ events := by
  unfold loads
  split
  · next h => simp [h, Event.loadedContext?_eq_some]
  · next h => simp [h]

theorem loads_of_not_isConnection {env : Environment} {events : List Event}
    (h : ∀ e ∈ events, e.isConnection = false) : env.loads events = [] := by
  rw [List.eq_nil_iff_forall_not_mem]
  intro context hcontext
  exact absurd (h _ (mem_loads.1 hcontext).2) (by simp [Event.isConnection])

theorem loads_append (env : Environment) (events more : List Event) :
    env.loads (events ++ more) = env.loads events ++ env.loads more := by
  unfold loads
  split
  · exact List.filterMap_append
  · rfl

namespace Attempt

variable {env : Environment} {selects : Bool} {asked : List Event}
  {result : Except ConnectError String}

theorem count_contexts (h : env.Attempt selects asked result) : asked.count .contexts = 1 := by
  cases h with
  | unlisted | cancelled => rfl
  | unloaded _ hchoice | loaded _ hchoice => cases hchoice <;> simp

/-- An attempt never lists the namespaces. -/
theorem list_not_mem (h : env.Attempt selects asked result) : Event.list ∉ asked := by
  cases h with
  | unlisted | cancelled => simp
  | unloaded _ hchoice | loaded _ hchoice => cases hchoice <;> simp

/-- What an attempt loads with success is the context that it ends with. -/
theorem loads_eq (h : env.Attempt selects asked result) :
    env.loads asked = result.toOption.toList := by
  cases h with
  | unlisted | cancelled => exact ite_self _
  | unloaded _ _ hload => simp [loads, hload, Except.toOption]
  | loaded _ hchoice hload =>
    rw [loads, if_pos hload]
    cases hchoice <;> rfl

end Attempt

end Environment

namespace Cluster

/-- Loading the configuration of the context that is chosen ends an attempt. -/
theorem load_attempt {env : Environment} {selects : Bool} {asked : List Event} {context : String}
    (hcontexts : env.contextsError = none) (hchoice : env.Choice selects asked context) :
    env.Attempt selects (.contexts :: asked ++ (load env context).2)
      ((load env context).1.map (·.context)) := by
  unfold load
  cases hload : env.loadError with
  | some cause => exact .unloaded hcontexts hchoice hload
  | none => exact .loaded hcontexts hchoice hload

/-- Connecting makes an attempt. -/
theorem connect_attempt (env : Environment) (selects : Bool) :
    env.Attempt selects (connect env selects).2 ((connect env selects).1.map (·.context)) := by
  unfold connect
  cases hcontexts : env.contextsError with
  | some cause => exact .unlisted hcontexts
  | none =>
    cases selects with
    | false => exact load_attempt hcontexts .current
    | true =>
      cases hanswer : env.answer with
      | none =>
        simp only [choose, hanswer]
        exact .cancelled hcontexts rfl hanswer
      | some context =>
        simp only [choose, hanswer]
        exact load_attempt hcontexts (.answered hanswer)

end Cluster

namespace Outcome

variable {α : Type} {o : Outcome α} {env : Environment} {selects : Bool}

/-- How a step goes on from an attempt. If the attempt fails, its error ends the step and there is
no cluster. Otherwise there is the cluster of the context, and the step does not end for want of
one. -/
def GoesOnFrom (o : Outcome α) : Except ConnectError String → Prop
  | .error cause => o.result = .error (.connect cause) ∧ o.planner.cluster = none
  | .ok context =>
    (∀ cause, o.result ≠ .error (.connect cause)) ∧ o.planner.cluster = some ⟨context⟩

/-- A step makes one attempt and goes on from it. It may tell something first; nothing comes after
an attempt that fails, and no other attempt after one that succeeds. -/
def Attempts (o : Outcome α) (env : Environment) (selects : Bool) : Prop :=
  ∃ first asked last result, env.Attempt selects asked result ∧
    o.events = first ++ asked ++ last ∧ Messages first ∧ AfterConnection last ∧
    (∀ cause, result = .error cause → last = []) ∧ o.GoesOnFrom result

theorem Attempts.count_contexts (h : o.Attempts env selects) : o.events.count .contexts = 1 := by
  obtain ⟨first, asked, last, result, hattempt, hevents, hfirst, hlast, -⟩ := h
  rw [hevents, List.count_append, List.count_append, hattempt.count_contexts,
    Event.count_contexts_of_not_isConnection hfirst.not_isConnection,
    Event.count_contexts_of_not_isConnection hlast.2]

/-- What the step loads with success is the context of the cluster that is there afterwards. -/
theorem Attempts.loads_eq (h : o.Attempts env selects) :
    env.loads o.events = (o.planner.cluster.map (·.context)).toList := by
  obtain ⟨first, asked, last, result, hattempt, hevents, hfirst, hlast, -, hgoes⟩ := h
  rw [hevents, Environment.loads_append, Environment.loads_append, hattempt.loads_eq,
    Environment.loads_of_not_isConnection hfirst.not_isConnection,
    Environment.loads_of_not_isConnection hlast.2, List.append_nil, List.nil_append]
  cases result with
  | error cause =>
    rw [hgoes.2]
    rfl
  | ok context =>
    rw [hgoes.2]
    rfl

end Outcome

namespace Planner

variable {α β : Type}

theorem connected_of_some {p : Planner} {c : Cluster} (h : p.cluster = some c) :
    p.connected = ⟨.ok c, p, []⟩ := by
  rw [connected, h]

/-- Without a cluster the planner makes an attempt, and keeps the cluster if it succeeds. -/
theorem connected_of_none {p : Planner} (h : p.cluster = none) :
    p.connected.events = (Cluster.connect p.environment p.selectsContext).2 ∧
      p.connected.result
        = (Cluster.connect p.environment p.selectsContext).1.mapError .connect ∧
      p.connected.planner.cluster
        = (Cluster.connect p.environment p.selectsContext).1.toOption := by
  unfold connected
  rw [h]
  rcases Cluster.connect p.environment p.selectsContext with ⟨e | c, events⟩
  · exact ⟨rfl, rfl, h⟩
  · exact ⟨rfl, rfl, rfl⟩

theorem connected_error {p : Planner} {e : PlannerError} (h : p.connected.result = .error e) :
    ∃ cause, e = .connect cause := by
  cases hp : p.cluster with
  | some c => simp [connected_of_some hp] at h
  | none =>
    rw [(connected_of_none hp).2.1] at h
    cases hconnect : (Cluster.connect p.environment p.selectsContext).1 with
    | error cause => exact ⟨cause, by simpa [hconnect, eq_comm] using h⟩
    | ok c => simp [hconnect] at h

theorem list_not_mem_connected (p : Planner) : Event.list ∉ p.connected.events := by
  cases hp : p.cluster with
  | some c => simp [connected_of_some hp]
  | none =>
    rw [(connected_of_none hp).1]
    exact (Cluster.connect_attempt _ _).list_not_mem

/-- Where the random names come from does not matter for the connection. -/
theorem connected_withRandomness (p : Planner) (randomness : Randomness) :
    { p with randomness }.connected
      = { p.connected with planner := { p.connected.planner with randomness } } := by
  obtain ⟨selects, env, r, s, cluster⟩ := p
  unfold connected
  cases cluster with
  | some c => rfl
  | none => rcases Cluster.connect env selects with ⟨e | c, events⟩ <;> rfl

/-- What a step leads to that needs the cluster of the planner. -/
structure UsesCluster (p : Planner) (o : Outcome α) : Prop where
  /-- The world around the planner is the same. -/
  environment : o.planner.environment = p.environment
  /-- Who chooses the context is the same. -/
  selectsContext : o.planner.selectsContext = p.selectsContext
  /-- The planner has the cluster that the connection gives. -/
  cluster : o.planner.cluster = p.connected.planner.cluster
  /-- Messages come first, then the connection, and nothing after a failure. -/
  events : ∃ first last, o.events = first ++ p.connected.events ++ last ∧ Messages first ∧
    AfterConnection last ∧ ∀ e, p.connected.result = .error e → last = []
  /-- A failure of the connection ends the step. -/
  failure : ∀ e, p.connected.result = .error e → o.result = .error e
  /-- With a connection the step does not end for want of one. -/
  success : ∀ c cause, p.connected.result = .ok c → o.result ≠ .error (.connect cause)

namespace UsesCluster

/-- The form of the answer does not matter. -/
theorem map {p : Planner} {o : Outcome α} (h : UsesCluster p o) (f : α → β) :
    UsesCluster p (o.map f) where
  environment := h.environment
  selectsContext := h.selectsContext
  cluster := h.cluster
  events := h.events
  failure e he := by
    rw [Outcome.map, h.failure e he]
    rfl
  success c cause hc := by
    have hne := h.success c cause hc
    unfold Outcome.map
    cases hresult : o.result with
    | error e => simpa [Except.map, hresult] using hne
    | ok a => simp [Except.map]

/-- Neither do the random names. -/
theorem of_withRandomness {p : Planner} {randomness : Randomness} {o : Outcome α}
    (h : UsesCluster { p with randomness } o) : UsesCluster p o := by
  obtain ⟨henv, hselects, hcluster, hevents, hfailure, hsuccess⟩ := h
  rw [connected_withRandomness] at hcluster hevents hfailure hsuccess
  exact ⟨henv, hselects, hcluster, hevents, hfailure, hsuccess⟩

/-- A step may go on after another one: it may tell something before and after it, and it ends for
want of a connection exactly if the other one does. -/
theorem continued {p : Planner} {o : Outcome α} {o' : Outcome β} (h : UsesCluster p o)
    {first last : List Event} (hfirst : Messages first) (hlast : Messages last)
    (hevents : o'.events = first ++ o.events ++ last)
    (henv : o'.planner.environment = o.planner.environment)
    (hselects : o'.planner.selectsContext = o.planner.selectsContext)
    (hcluster : o'.planner.cluster = o.planner.cluster)
    (hfailure : ∀ cause, o.result = .error (.connect cause) →
      o'.result = .error (.connect cause) ∧ last = [])
    (hsuccess : ∀ cause, o'.result = .error (.connect cause) →
      o.result = .error (.connect cause)) : UsesCluster p o' where
  environment := henv.trans h.environment
  selectsContext := hselects.trans h.selectsContext
  cluster := hcluster.trans h.cluster
  events := by
    obtain ⟨before, after, hbetween, hbefore, hafter, hnone⟩ := h.events
    refine ⟨first ++ before, after ++ last, by simp [hevents, hbetween], hfirst.append hbefore,
      hafter.append hlast, fun e he => ?_⟩
    obtain ⟨cause, rfl⟩ := connected_error he
    rw [hnone _ he, (hfailure cause (h.failure _ he)).2, List.append_nil]
  failure e he := by
    obtain ⟨cause, rfl⟩ := connected_error he
    exact (hfailure cause (h.failure _ he)).1
  success c cause hc hcause := h.success c cause hc (hsuccess cause hcause)

section

variable {p : Planner} {o : Outcome α}

theorem listed_once (h : UsesCluster p o) : o.events.count .list ≤ 1 := by
  obtain ⟨first, last, hevents, hfirst, hlast, -⟩ := h.events
  rw [hevents, List.count_append, List.count_append, hfirst.count_list,
    List.count_eq_zero.2 (list_not_mem_connected p)]
  have hle := hlast.1
  omega

/-- The namespaces are listed after the connection. -/
theorem listed_after (h : UsesCluster p o) {before after : List Event}
    (hlist : o.events = before ++ .list :: after) :
    (∃ c, p.connected.result = .ok c) ∧ ∀ e ∈ p.connected.events, e ∈ before := by
  obtain ⟨first, last, hevents, hfirst, -, hnone⟩ := h.events
  have hnot : Event.list ∉ first ++ p.connected.events := by
    rw [List.mem_append, not_or]
    exact ⟨List.count_eq_zero.1 hfirst.count_list, list_not_mem_connected p⟩
  constructor
  · cases hresult : p.connected.result with
    | ok c => exact ⟨c, rfl⟩
    | error e =>
      rw [hnone e hresult, List.append_nil] at hevents
      exact absurd (by simp [hlist]) (hevents ▸ hnot)
  · rw [hlist] at hevents
    intro e he
    rcases List.append_eq_append_iff.1 hevents with ⟨between, hbetween, hlast⟩ | ⟨more, rfl, -⟩
    · cases between with
      | nil =>
        rw [List.append_nil] at hbetween
        exact hbetween ▸ List.mem_append_right first he
      | cons d between =>
        obtain rfl : Event.list = d := (List.cons.inj hlast).1
        exact absurd (by simp [hbetween]) hnot
    · exact List.mem_append_left more (List.mem_append_right first he)

/-- With a cluster nothing is connected, and the step goes on from the context of the cluster. -/
theorem kept (h : UsesCluster p o) {c : Cluster} (hc : p.cluster = some c) :
    (∀ e ∈ o.events, e.isConnection = false) ∧ o.GoesOnFrom (.ok c.context) := by
  have hconnected := connected_of_some hc
  obtain ⟨first, last, hevents, hfirst, hlast, -⟩ := h.events
  rw [hconnected, List.append_nil] at hevents
  refine ⟨?_, fun cause => h.success c cause (by rw [hconnected]), ?_⟩
  · rw [hevents]
    exact List.forall_mem_append.2 ⟨hfirst.not_isConnection, hlast.2⟩
  · rw [h.cluster, hconnected, hc]

/-- Without a cluster the step makes an attempt and goes on from it. -/
theorem attempts (h : UsesCluster p o) (hnone : p.cluster = none) :
    o.Attempts p.environment p.selectsContext := by
  obtain ⟨hasked, hresult, hcluster⟩ := connected_of_none hnone
  obtain ⟨first, last, hevents, hfirst, hlast, hends⟩ := h.events
  refine ⟨first, _, last, _, Cluster.connect_attempt p.environment p.selectsContext,
    hasked ▸ hevents, hfirst, hlast, ?_⟩
  cases hconnect : (Cluster.connect p.environment p.selectsContext).1 with
  | error cause =>
    rw [hconnect] at hresult hcluster
    exact ⟨fun _ _ => hends _ hresult, h.failure _ hresult, h.cluster.trans hcluster⟩
  | ok c =>
    rw [hconnect] at hresult hcluster
    exact ⟨nofun, fun cause => h.success c cause hresult, h.cluster.trans hcluster⟩

end

end UsesCluster

theorem usesCluster_connected (p : Planner) : UsesCluster p p.connected where
  environment := connected_environment p
  selectsContext := by
    unfold connected
    split
    · rfl
    · split <;> rfl
  cluster := rfl
  events := ⟨[], [], by simp, nofun, by simp [AfterConnection], fun _ _ => rfl⟩
  failure _ he := he
  success c cause hc := by simp [hc]

/-- The question for a namespace lists the namespaces once there is a connection. -/
theorem usesCluster_namespaceExists (p : Planner) (name : String) :
    UsesCluster p (p.namespaceExists name) := by
  have hconn := usesCluster_connected p
  unfold namespaceExists
  split
  · next e q events hconnected =>
    rw [hconnected] at hconn
    exact
      { environment := hconn.environment
        selectsContext := hconn.selectsContext
        cluster := by rw [hconnected]
        events := ⟨[], [], by simp [hconnected], nofun, by simp [AfterConnection], fun _ _ => rfl⟩
        failure := by simp [hconnected]
        success := by simp [hconnected] }
  · next c q events hconnected =>
    rw [hconnected] at hconn
    have hlist : ∃ answer : Except QueryError Bool,
        Cluster.namespaceExists q.environment name = (answer, [.list]) := by
      unfold Cluster.namespaceExists
      split
      · exact ⟨_, rfl⟩
      · exact ⟨_, rfl⟩
    obtain ⟨answer, hanswer⟩ := hlist
    rw [hanswer]
    exact
      { environment := hconn.environment
        selectsContext := hconn.selectsContext
        cluster := by rw [hconnected]
        events := ⟨[], [.list], by simp [hconnected], nofun,
          by simp [AfterConnection, Event.isConnection], by simp [hconnected]⟩
        failure := by simp [hconnected]
        success := by
          intro _ cause _
          cases answer <;> simp }

theorem messages_announcements (c : Config) : Messages (announcements c) := by
  unfold announcements
  split <;> simp [Messages, Event.isMessage]

/-- Writing the text of a plan shows a message at most, and cannot fail for want of a connection. -/
theorem render_keeps (p : Planner) (c : Config) (found : Bool) :
    (p.render c found).planner.environment = p.environment ∧
      (p.render c found).planner.selectsContext = p.selectsContext ∧
      (p.render c found).planner.cluster = p.cluster ∧ Messages (p.render c found).events ∧
      ∀ cause, (p.render c found).result ≠ .error (.connect cause) := by
  have herror : ∀ (text : Except DocumentError String) cause,
      text.mapError PlannerError.render ≠ .error (.connect cause) := by
    intro text cause
    cases text <;> simp
  refine ⟨rfl, rfl, rfl, ?_, herror _⟩
  unfold render
  cases found <;> simp [Messages, Event.isMessage]

/-- Planning with a configuration asks for its namespace, with messages before and after. -/
theorem usesCluster_planConfig (p : Planner) (c : Config) : UsesCluster p (p.planConfig c) := by
  have hask := usesCluster_namespaceExists p c.namespaceName
  have hannounced := messages_announcements c
  unfold planConfig
  split
  · next e q events hfound =>
    rw [hfound] at hask
    exact hask.continued hannounced (show Messages [] from nofun) (by simp) rfl rfl rfl (by simp)
      (by simp)
  · next e q events _ hfound =>
    rw [hfound] at hask
    exact hask.continued hannounced (show Messages [] from nofun) (by simp) rfl rfl rfl (by simp)
      (by simp)
  · next found q events hfound =>
    rw [hfound] at hask
    obtain ⟨henv, hselects, hcluster, hmessages, hresult⟩ := render_keeps q c found
    have hconnected : ∀ cause, (q.render c found).result.map Except.ok
        ≠ (.error (.connect cause) : Except PlannerError PlanResult) := by
      intro cause
      have hne := hresult cause
      cases htext : (q.render c found).result with
      | error e => simpa [Except.map, htext] using hne
      | ok t => simp [Except.map]
    exact hask.continued hannounced hmessages rfl henv hselects hcluster (by simp)
      fun cause hcause => absurd hcause (hconnected cause)

end Planner

end BundlePlan
