import BundlePlan.Planning.Plan
import BundlePlan.Proofs.Manifest.Content
import BundlePlan.Proofs.Result

/-!
# What planners answer

The text that a planner answers a request with is the content of the resources that the request
asks for, without the namespace if the cluster has it.
-/

namespace BundlePlan

/-- How the resources of a configuration are handled. -/
def Config.handling (c : Config) : Handling := ⟨c.keepNamespace, c.sourceDir⟩

namespace Environment

/-- Whether the cluster has a namespace. -/
def hasNamespace (env : Environment) (name : String) : Bool := env.namespaces.contains (some name)

end Environment

/-- The text of a plan for a configuration in an environment. -/
def Config.content (c : Config) (env : Environment) : String :=
  (Manifest.forCluster c (env.hasNamespace c.namespaceName)).content c.handling

namespace Planner

theorem connected_environment (p : Planner) :
    p.connected.planner.environment = p.environment := by
  unfold connected
  split
  · rfl
  · split <;> rfl

/-- What is found out about a namespace is whether the cluster has it. -/
theorem namespaceExists_eq_ok {p : Planner} {name : String} {found : Bool}
    (h : (p.namespaceExists name).result = .ok found) :
    found = p.environment.hasNamespace name := by
  have henv := connected_environment p
  unfold namespaceExists at h
  split at h
  · exact absurd h (by simp)
  · rename_i hconnected
    rw [hconnected] at henv
    simp only at h henv
    rw [henv, Cluster.namespaceExists] at h
    split at h
    · exact absurd (mapError_eq_ok.1 h) nofun
    · exact (Except.ok.inj h).symm

/-- The text that is answered is the content of the resources. -/
theorem render_eq_ok {p : Planner} {c : Config} {found : Bool} {t : String}
    (h : (p.render c found).result = .ok t) :
    t = (Manifest.forCluster c found).content c.handling := by
  have htext : (((Manifest.forCluster c found).text c.handling p.serializer).1.mapError
      PlannerError.render) = .ok t := h
  exact Manifest.text_eq_ok (mapError_eq_ok.1 htext)

theorem planConfig_eq_ok {p : Planner} {c : Config} {t : String}
    (h : (p.planConfig c).result = .ok (.ok t)) : t = c.content p.environment := by
  unfold planConfig at h
  split at h
  · exact absurd h (by simp)
  · exact absurd h (by simp)
  · rename_i found q events hfound
    have hfound' : found = p.environment.hasNamespace c.namespaceName :=
      namespaceExists_eq_ok (by rw [hfound])
    simp only at h
    rw [Config.content, ← hfound']
    cases htext : (q.render c found).result with
    | error e =>
      rw [htext] at h
      exact absurd h (by simp [Except.map])
    | ok text =>
      rw [htext] at h
      obtain rfl : text = t := Except.ok.inj (Except.ok.inj h)
      exact render_eq_ok htext

/-- A request that is accepted is planned for. -/
theorem plan_of_ok {p : Planner} {args : Arguments} {c : Config}
    (h : (resolve args p.randomness).1 = .ok c) :
    p.plan args = { p with randomness := (resolve args p.randomness).2 }.planConfig c := by
  unfold plan
  simp only [h]

/-- A request that is answered with a text has a configuration, and the text is its content. -/
theorem plan_eq_ok {p : Planner} {args : Arguments} {t : String}
    (h : (p.plan args).result = .ok (.ok t)) :
    ∃ c, (resolve args p.randomness).1 = .ok c ∧ t = c.content p.environment := by
  unfold plan at h
  simp only at h
  split at h
  · exact absurd h (by simp)
  · rename_i c hresolve
    have htext := planConfig_eq_ok h
    exact ⟨c, hresolve, htext⟩

theorem planConfig_of_cluster {p : Planner} {cluster : Cluster}
    (hcluster : p.cluster = some cluster) (hquery : p.environment.queryError = none)
    (hfault : p.serializer.fault = none) (c : Config) :
    (p.planConfig c).result = .ok (.ok (c.content p.environment)) := by
  -- the planner has its cluster already, so that nothing but the listing is asked for
  have hfound : p.namespaceExists c.namespaceName
      = ⟨.ok (p.environment.hasNamespace c.namespaceName), p, [.list]⟩ := by
    rw [namespaceExists, connected, hcluster]
    simp only
    rw [Cluster.namespaceExists, hquery]
    rfl
  have htext := Manifest.text_of_no_fault
    (Manifest.forCluster c (p.environment.hasNamespace c.namespaceName)) c.handling hfault
  have hrender : (p.render c (p.environment.hasNamespace c.namespaceName)).result
      = .ok (c.content p.environment) := mapError_eq_ok.2 htext
  rw [planConfig, hfound]
  simp only
  rw [hrender]
  rfl

/-- A request that has a configuration is answered with a text, if the planner has a cluster, the
cluster answers and the serializer has no fault. -/
theorem plan_of_resolve {p : Planner} {args : Arguments} {c : Config} {cluster : Cluster}
    (hresolve : (resolve args p.randomness).1 = .ok c) (hcluster : p.cluster = some cluster)
    (hquery : p.environment.queryError = none) (hfault : p.serializer.fault = none) :
    (p.plan args).result = .ok (.ok (c.content p.environment)) := by
  have htext := planConfig_of_cluster (p := { p with randomness := (resolve args p.randomness).2 })
    hcluster hquery hfault c
  unfold plan
  simp only
  rw [hresolve]
  exact htext

end Planner

end BundlePlan
