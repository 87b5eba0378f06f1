import BundlePlan.Proofs.Planning.Session

/-!
# What planners are equipped with

The source of random names and the serializer have nothing to do with the cluster: a planner asks
and is told the same whatever they are, until it writes the text of a plan. What a step leads to
for a planner that is equipped otherwise is read off two lemmas: `planConfig_cases` for a request
with a configuration, and `step_cases` for any step whose request resolves to the same.
-/

namespace BundlePlan

/-- What can be seen of a step: its answer and the events on the way. -/
def Outcome.visible {α : Type} (o : Outcome α) : Except PlannerError α × List Event :=
  (o.result, o.events)

/-- Writes the text of a plan for a configuration in an environment. -/
def Config.write (c : Config) (env : Environment) (s : Serializer) :
    Except DocumentError String × Serializer :=
  (Manifest.forCluster c (env.hasNamespace c.namespaceName)).text c.handling s

namespace Planner

/-- The planner with another source of random names and another serializer. -/
def equipped (p : Planner) (r : Randomness) (s : Serializer) : Planner :=
  { p with randomness := r, serializer := s }

@[simp] theorem equipped_serializer (p : Planner) (r : Randomness) (s : Serializer) :
    (p.equipped r s).serializer = s := rfl

theorem equipped_self (p : Planner) : p.equipped p.randomness p.serializer = p := rfl

end Planner

/-- The same outcome for a planner with another source of random names and another serializer. -/
def Outcome.equipped {α : Type} (o : Outcome α) (r : Randomness) (s : Serializer) : Outcome α :=
  ⟨o.result, o.planner.equipped r s, o.events⟩

theorem Outcome.map_equipped {α β : Type} (f : α → β) (o : Outcome α) (r : Randomness)
    (s : Serializer) : (o.equipped r s).map f = (o.map f).equipped r s := rfl

namespace Planner

/-! ### The cluster -/

theorem connected_equipped (p : Planner) (r : Randomness) (s : Serializer) :
    (p.equipped r s).connected = p.connected.equipped r s := by
  obtain ⟨selects, env, r₀, s₀, cluster⟩ := p
  unfold connected equipped
  cases cluster with
  | some c => rfl
  | none => rcases Cluster.connect env selects with ⟨e | c, events⟩ <;> rfl

theorem namespaceExists_equipped (p : Planner) (name : String) (r : Randomness) (s : Serializer) :
    (p.equipped r s).namespaceExists name = (p.namespaceExists name).equipped r s := by
  unfold namespaceExists
  rw [connected_equipped]
  rcases p.connected with ⟨e | c, q, events⟩ <;> rfl

/-! ### Requests -/

/-- A request with a configuration either ends before its text is written, or with the text; all
the rest is the same however the planner is equipped. -/
theorem planConfig_cases (p : Planner) (c : Config) :
    (∃ o : Outcome PlanResult, ∀ r s, (p.equipped r s).planConfig c = o.equipped r s) ∨
      ∃ (q : Planner) (events : List Event), ∀ r s, (p.equipped r s).planConfig c =
        ⟨((c.write p.environment s).1.mapError PlannerError.render).map .ok,
          q.equipped r (c.write p.environment s).2, events⟩ := by
  have hask := namespaceExists_equipped p c.namespaceName
  unfold planConfig
  cases hfound : p.namespaceExists c.namespaceName with
  | mk result q events =>
    simp only [hask, hfound, Outcome.equipped]
    cases result with
    | error e =>
      refine Or.inl ?_
      cases e with
      | query cause =>
        exact ⟨⟨.ok (.error (.query cause)), q, announcements c ++ events⟩, fun _ _ => rfl⟩
      | connect cause =>
        exact ⟨⟨.error (.connect cause), q, announcements c ++ events⟩, fun _ _ => rfl⟩
      | render cause =>
        exact ⟨⟨.error (.render cause), q, announcements c ++ events⟩, fun _ _ => rfl⟩
    | ok found =>
      have hhas : found = p.environment.hasNamespace c.namespaceName :=
        namespaceExists_eq_ok (by rw [hfound])
      refine Or.inr ⟨q, announcements c ++ events ++ (q.render c found).events, fun r s => ?_⟩
      rw [Config.write, ← hhas]
      rfl

end Planner

/-! ### Steps -/

namespace Step

/-- What the request of a step resolves to. -/
def resolved : Step → Randomness → Option (Except RequestError Config)
  | plan args, r => some (resolve args r).1
  | namespaceExists _, _ | cluster, _ | world _, _ => none

/-- The source of random names after a step. -/
def drawn : Step → Randomness → Randomness
  | plan args, r => (resolve args r).2
  | namespaceExists _, r | cluster, r | world _, r => r

end Step

/-- The answer to a request for a configuration, with the text as the serializer writes it. -/
def Config.answer (c : Config) (env : Environment) (s : Serializer) : Except PlannerError Answer :=
  ((c.write env s).1.mapError .render).map (.plan ∘ .ok)

namespace Planner

/-- A step either leads to the same however the planner is equipped, or it is a request whose text
the serializer writes, and all but the text is the same; the random names matter only for what the
request resolves to. -/
theorem step_cases (p : Planner) (step : Step) :
    (∃ o : Outcome Answer, ∀ r s, step.resolved r = step.resolved p.randomness →
      (p.equipped r s).step step = o.equipped (step.drawn r) s) ∨
    ∃ args c, ∃ (q : Planner) (events : List Event), step = .plan args ∧
      (resolve args p.randomness).1 = .ok c ∧
      ∀ r s, step.resolved r = step.resolved p.randomness → (p.equipped r s).step step =
        ⟨c.answer p.environment s, q.equipped (step.drawn r) (c.write p.environment s).2,
          events⟩ := by
  cases step with
  | world env =>
    exact Or.inl ⟨⟨.ok .world, { p with environment := env }, []⟩, fun _ _ _ => rfl⟩
  | cluster =>
    refine Or.inl ⟨p.connected.map .cluster, fun r s _ => ?_⟩
    rw [step, connected_equipped, Outcome.map_equipped, Step.drawn]
  | namespaceExists name =>
    refine Or.inl ⟨(p.namespaceExists name).map .namespaceExists, fun r s _ => ?_⟩
    rw [step, namespaceExists_equipped, Outcome.map_equipped, Step.drawn]
  | plan args =>
    simp only [Step.resolved, Step.drawn, Option.some.injEq]
    cases hresolve : (resolve args p.randomness).1 with
    | error e =>
      refine Or.inl ⟨⟨.ok (.plan (.error (.request e))), p, []⟩, fun r s hr => ?_⟩
      rw [step, plan_of_error (p := p.equipped r s) hr]
      rfl
    | ok c =>
      have hplan : ∀ r s, (resolve args r).1 = .ok c →
          (p.equipped r s).plan args = (p.equipped (resolve args r).2 s).planConfig c :=
        fun r s hr => plan_of_ok (p := p.equipped r s) hr
      rcases planConfig_cases p c with ⟨o, ho⟩ | ⟨q, events, hwrite⟩
      · refine Or.inl ⟨o.map .plan, fun r s hr => ?_⟩
        rw [step, hplan r s hr, ho, Outcome.map_equipped]
      · refine Or.inr ⟨args, c, q, events, rfl, hresolve, fun r s hr => ?_⟩
        rw [step, hplan r s hr, hwrite, Outcome.map, Config.answer]
        cases (c.write p.environment s).1 <;> rfl

end Planner

end BundlePlan
