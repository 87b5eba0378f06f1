import BundlePlan.Proofs.Planning.Connection
import BundlePlan.Proofs.Request.Acceptance

/-!
# Sessions connect lazily

A planner connects when a step first needs the cluster, and keeps the connection. Whether it has one
can be told from what happened before: the contexts loaded with success so far are those of its
cluster (`contexts_session`). So a step of a session depends on the steps before it only through the
world that they left and the context that they loaded, which is what `ConnectsLazily` says.
-/

namespace BundlePlan

/-- Whether a step needs the cluster: a request does if it is accepted, a question always, and a
change of the world never. -/
def Step.NeedsCluster : Step → Prop
  | plan args => ∃ r c, (resolve args r).1 = .ok c
  | namespaceExists _ => True
  | cluster => True
  | world _ => False

/-- The world after a step. -/
def Step.environment : Step → Environment → Environment
  | world env, _ => env
  | _, env => env

/-- The world after steps. -/
def Environment.after (env : Environment) (steps : List Step) : Environment :=
  steps.foldl (fun env step => step.environment env) env

/-- The contexts that a session loads with success: what its steps lead to, each in the world that
the steps before it leave. -/
def Environment.sessionLoads (env : Environment) : List Step → List (Outcome Answer) → List String
  | step :: steps, o :: outcomes =>
    env.loads o.events ++ (step.environment env).sessionLoads steps outcomes
  | _, _ => []

/-- What a step of a session does about the connection, in the given world and with the contexts
that steps before it have loaded with success. -/
structure ConnectsLazily (env : Environment) (selects : Bool) (loaded : List String) (step : Step)
    (o : Outcome Answer) : Prop where
  /-- As long as no context is loaded, a step that needs the cluster lists the contexts once. -/
  contexts_once : loaded = [] → step.NeedsCluster → o.events.count .contexts = 1
  /-- It makes an attempt to connect in the world as it is, from the beginning, and goes on from
  what that leads to. -/
  attempts : loaded = [] → step.NeedsCluster → o.Attempts env selects
  /-- A step that does not need the cluster asks for nothing, and does not end for want of one. -/
  idle : ¬step.NeedsCluster → o.events = [] ∧ ∀ cause, o.result ≠ .error (.connect cause)
  /-- With a context that is loaded nothing is connected again, and every step goes on from it
  whatever the world says. -/
  kept : ∀ context ∈ loaded,
    (∀ e ∈ o.events, e.isConnection = false) ∧ o.GoesOnFrom (.ok context)
  /-- The question for the cluster is answered with the context that is loaded, by a step before or
  by the same step. -/
  answered : step = .cluster → ∀ context ∈ loaded ++ env.loads o.events,
    o.result = .ok (.cluster ⟨context⟩)
  /-- The namespaces are listed once at most. -/
  listed_once : o.events.count .list ≤ 1
  /-- They are listed only after a context is loaded, by a step before or by the same step. -/
  listed_after : ∀ first last, o.events = first ++ .list :: last →
    loaded ≠ [] ∨ env.loads first ≠ []

namespace Planner

/-! ### One step -/

/-- The context of the cluster that the planner has, if it has one. -/
def contexts (p : Planner) : List String := (p.cluster.map (·.context)).toList

theorem contexts_eq_nil {p : Planner} : p.contexts = [] ↔ p.cluster = none := by
  simp [contexts]

theorem mem_contexts {p : Planner} {context : String} :
    context ∈ p.contexts ↔ p.cluster = some ⟨context⟩ := by
  unfold contexts
  cases p.cluster with
  | none => simp
  | some c =>
    obtain ⟨name⟩ := c
    simp [eq_comm]

theorem step_usesCluster {p : Planner} {step : Step} (h : step.NeedsCluster) :
    UsesCluster p (p.step step) := by
  cases step with
  | plan args =>
    obtain ⟨r, hr⟩ := h
    -- whether a request is accepted does not depend on the random names
    obtain ⟨c, hresolve⟩ := (resolve_isOk_iff args p.randomness).2 ((resolve_isOk_iff args r).1 hr)
    rw [step, plan_of_ok hresolve]
    exact (usesCluster_planConfig _ c).of_withRandomness.map _
  | namespaceExists name => exact (usesCluster_namespaceExists p name).map _
  | cluster => exact (usesCluster_connected p).map _
  | world env => exact h.elim

/-- A step that does not need the cluster. -/
theorem step_of_not_needsCluster {p : Planner} {step : Step} (h : ¬step.NeedsCluster) :
    (∃ answer, (p.step step).result = .ok answer) ∧ (p.step step).events = [] ∧
      (p.step step).planner.cluster = p.cluster ∧
      (p.step step).planner.environment = step.environment p.environment ∧
      (p.step step).planner.selectsContext = p.selectsContext := by
  cases step with
  | plan args =>
    cases hresolve : (resolve args p.randomness).1 with
    | ok c => exact absurd ⟨_, c, hresolve⟩ h
    | error e =>
      rw [step, plan_of_error hresolve]
      exact ⟨⟨_, rfl⟩, rfl, rfl, rfl, rfl⟩
  | namespaceExists name => exact absurd trivial h
  | cluster => exact absurd trivial h
  | world env => exact ⟨⟨_, rfl⟩, rfl, rfl, rfl, rfl⟩

theorem environment_of_needsCluster {step : Step} (h : step.NeedsCluster) (env : Environment) :
    step.environment env = env := by
  cases step with
  | world env => exact h.elim
  | plan | namespaceExists | cluster => rfl

/-- A step leaves the world as it says, and does not change who chooses the context. -/
theorem step_environment (p : Planner) (step : Step) :
    (p.step step).planner.environment = step.environment p.environment ∧
      (p.step step).planner.selectsContext = p.selectsContext := by
  by_cases h : step.NeedsCluster
  · have huses := step_usesCluster (p := p) h
    rw [environment_of_needsCluster h]
    exact ⟨huses.environment, huses.selectsContext⟩
  · exact (step_of_not_needsCluster h).2.2.2

/-- What a planner has and what a step loads is what the planner has after it. -/
theorem contexts_step (p : Planner) (step : Step) :
    (p.step step).planner.contexts = p.contexts ++ p.environment.loads (p.step step).events := by
  by_cases h : step.NeedsCluster
  · have huses := step_usesCluster (p := p) h
    cases hp : p.cluster with
    | some c =>
      obtain ⟨hevents, -, hcluster⟩ := huses.kept hp
      rw [contexts, contexts, hcluster, hp, Environment.loads_of_not_isConnection hevents,
        List.append_nil]
    | none =>
      rw [(huses.attempts hp).loads_eq, contexts, contexts, hp]
      rfl
  · obtain ⟨-, hevents, hcluster, -⟩ := step_of_not_needsCluster (p := p) h
    rw [contexts, contexts, hcluster, Environment.loads_of_not_isConnection (by simp [hevents]),
      List.append_nil]

/-- The question for the cluster is answered with the cluster that the planner has afterwards. -/
theorem step_cluster_result {p : Planner} {c : Cluster}
    (h : (p.step .cluster).planner.cluster = some c) :
    (p.step .cluster).result = .ok (.cluster c) := by
  have hresult : p.connected.result = .ok c := by
    cases hp : p.cluster with
    | some c' =>
      rw [step, Outcome.map, connected_of_some hp, hp] at h
      rw [connected_of_some hp, Option.some.inj h]
    | none =>
      obtain ⟨-, hconnected, hcluster⟩ := connected_of_none hp
      rw [step, Outcome.map, hcluster] at h
      cases hconnect : (Cluster.connect p.environment p.selectsContext).1 with
      | error cause => simp [hconnect, Except.toOption] at h
      | ok c' =>
        rw [hconnect] at h hconnected
        rw [hconnected, Option.some.inj h, mapError_ok]
  rw [step, Outcome.map, hresult]
  rfl

/-- Without a cluster the namespaces are listed after the step has loaded a context. -/
theorem loads_of_listed {p : Planner} {step : Step} (h : step.NeedsCluster) (hp : p.cluster = none)
    {first last : List Event} (hlist : (p.step step).events = first ++ .list :: last) :
    p.environment.loads first ≠ [] := by
  obtain ⟨⟨c, hc⟩, hmem⟩ := (step_usesCluster h).listed_after hlist
  obtain ⟨hevents, hresult, -⟩ := connected_of_none hp
  rw [hresult, mapError_eq_ok] at hc
  have hloads : p.environment.loads p.connected.events = [c.context] := by
    rw [hevents, (Cluster.connect_attempt _ _).loads_eq, hc]
    rfl
  obtain ⟨hnone, hload⟩ := Environment.mem_loads.1 (hloads ▸ List.mem_singleton_self c.context)
  exact List.ne_nil_of_mem (Environment.mem_loads.2 ⟨hnone, hmem _ hload⟩)

/-- One step connects lazily, with the contexts that the planner has. -/
theorem step_connectsLazily (p : Planner) (step : Step) :
    ConnectsLazily p.environment p.selectsContext p.contexts step (p.step step) where
  contexts_once hloaded h :=
    ((step_usesCluster h).attempts (contexts_eq_nil.1 hloaded)).count_contexts
  attempts hloaded h := (step_usesCluster h).attempts (contexts_eq_nil.1 hloaded)
  idle h := by
    obtain ⟨⟨answer, hanswer⟩, hevents, -⟩ := step_of_not_needsCluster (p := p) h
    exact ⟨hevents, by simp [hanswer]⟩
  kept context hcontext := by
    have hp := mem_contexts.1 hcontext
    by_cases h : step.NeedsCluster
    · exact (step_usesCluster h).kept hp
    · obtain ⟨⟨answer, hanswer⟩, hevents, hcluster, -⟩ := step_of_not_needsCluster (p := p) h
      exact ⟨by simp [hevents], by simp [hanswer], hcluster.trans hp⟩
  answered hstep context hcontext := by
    rw [← contexts_step, mem_contexts] at hcontext
    subst hstep
    exact step_cluster_result hcontext
  listed_once := by
    by_cases h : step.NeedsCluster
    · exact (step_usesCluster h).listed_once
    · simp [(step_of_not_needsCluster (p := p) h).2.1]
  listed_after first last hlist := by
    by_cases h : step.NeedsCluster
    · cases hp : p.cluster with
      | none => exact Or.inr (loads_of_listed h hp hlist)
      | some c => exact Or.inl (by simp [contexts_eq_nil, hp])
    · simp [(step_of_not_needsCluster (p := p) h).2.1] at hlist

/-! ### Sessions -/

/-- The planner after steps. -/
def afterSteps (p : Planner) : List Step → Planner
  | [] => p
  | step :: steps => (p.step step).planner.afterSteps steps

theorem session_append (p : Planner) (before after : List Step) :
    p.session (before ++ after) = p.session before ++ (p.afterSteps before).session after := by
  induction before generalizing p with
  | nil => rfl
  | cons step before ih =>
    rw [List.cons_append, session, session, ih]
    rfl

theorem length_session (p : Planner) (steps : List Step) :
    (p.session steps).length = steps.length := by
  induction steps generalizing p with
  | nil => rfl
  | cons step steps ih => exact congrArg (· + 1) (ih (p.step step).planner)

/-- The contexts of a planner are those it had and those that were loaded on the way. -/
theorem contexts_session (p : Planner) (steps : List Step) :
    (p.afterSteps steps).contexts
      = p.contexts ++ p.environment.sessionLoads steps (p.session steps) := by
  induction steps generalizing p with
  | nil => exact (List.append_nil _).symm
  | cons step steps ih =>
    rw [afterSteps, ih, contexts_step, (step_environment p step).1, session,
      Environment.sessionLoads, List.append_assoc]

/-- The world after steps is the one that they leave. -/
theorem environment_afterSteps (p : Planner) (steps : List Step) :
    (p.afterSteps steps).environment = p.environment.after steps ∧
      (p.afterSteps steps).selectsContext = p.selectsContext := by
  induction steps generalizing p with
  | nil => exact ⟨rfl, rfl⟩
  | cons step steps ih =>
    obtain ⟨henv, hselects⟩ := step_environment p step
    obtain ⟨henv', hselects'⟩ := ih (p.step step).planner
    rw [henv] at henv'
    exact ⟨henv', hselects'.trans hselects⟩

end Planner

/-- A session of a planner without a cluster loads one context at most with success, and each of its
steps connects lazily in the world that the steps before it leave, with the contexts that they have
loaded. -/
theorem session_connects_lazily (selects : Bool) (env : Environment) (r : Randomness)
    (s : Serializer) :
    let p : Planner :=
      { selectsContext := selects, environment := env, randomness := r, serializer := s }
    (∀ steps, (p.session steps).length = steps.length ∧
      (env.sessionLoads steps (p.session steps)).length ≤ 1) ∧
    ∀ before step after, ∃ o future,
      p.session (before ++ step :: after) = p.session before ++ o :: future ∧
      ConnectsLazily (env.after before) selects (env.sessionLoads before (p.session before)) step
        o := by
  intro p
  have hcontexts : ∀ steps, (p.afterSteps steps).contexts
      = env.sessionLoads steps (p.session steps) := Planner.contexts_session p
  refine ⟨fun steps => ⟨p.length_session steps, ?_⟩, fun before step after => ?_⟩
  · rw [← hcontexts, Planner.contexts]
    cases (p.afterSteps steps).cluster <;> simp
  · obtain ⟨henv, hselects⟩ := Planner.environment_afterSteps p before
    have hstep := Planner.step_connectsLazily (p.afterSteps before) step
    rw [henv, hselects, hcontexts] at hstep
    exact ⟨_, _, Planner.session_append p before (step :: after), hstep⟩

end BundlePlan
