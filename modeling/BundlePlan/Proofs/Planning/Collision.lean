import BundlePlan.Proofs.Planning.Answers
import BundlePlan.Proofs.Planning.Session

/-!
# Namespaces that exist already

A namespace that the cluster has is left out of the documents, and nothing else of a plan changes:
the header and the other documents take the name of the namespace from the pod. What is left out is
decided by the listing of the same step.
-/

namespace BundlePlan

namespace Manifest

/-- The text with the namespace is the text without it, with one document more right after the
opening line of the fence. -/
theorem content_insert_namespace (c : Config) (h : Handling) :
    ∃ rest, (ofConfig c).withoutNamespace.content h
        = (ofConfig c).instructions h ++ "\n" ++ fenceOpen ++ rest ∧
      (ofConfig c).content h = (ofConfig c).instructions h ++ "\n" ++ fenceOpen ++ (documentMark
        ++ Yaml.document (NamespaceResource.toValue ⟨c.namespaceName⟩)) ++ rest := by
  have hwithout : (ofConfig c).withoutNamespace.instructions h = (ofConfig c).instructions h := rfl
  have hdocuments : (ofConfig c).documents = ("Namespace",
      NamespaceResource.toValue ⟨c.namespaceName⟩) :: (ofConfig c).withoutNamespace.documents := rfl
  have hjoin : ∀ (t : String) (texts : List String), String.join (t :: texts)
      = t ++ String.join texts := by
    intro t texts
    rw [← String.toList_inj, String.toList_append, String.toList_join, String.toList_join,
      List.flatMap_cons]
  refine ⟨String.join ((Serializer.documentTexts
    (ofConfig c).withoutNamespace.documents).map (documentMark ++ ·)) ++ fenceClose, ?_, ?_⟩
  · rw [content, hwithout, fenced]
    simp only [String.append_assoc]
  · rw [content, hdocuments, Serializer.documentTexts, List.map_cons, fenced, List.map_cons, hjoin]
    simp only [String.append_assoc]
    rfl

/-- The two texts can be told apart. -/
theorem content_ne_withoutNamespace (c : Config) (h : Handling) :
    (ofConfig c).content h ≠ (ofConfig c).withoutNamespace.content h := by
  obtain ⟨rest, hwithout, hwith⟩ := content_insert_namespace c h
  intro heq
  have hlength := congrArg String.length heq
  have hmark : documentMark.length = 4 := by decide
  rw [hwithout, hwith] at hlength
  simp only [String.length_append] at hlength
  omega

end Manifest

namespace Environment

theorem hasNamespace_iff (env : Environment) (name : String) :
    env.hasNamespace name = true ↔ some name ∈ env.namespaces := by
  rw [hasNamespace, List.contains_iff_mem]

end Environment

/-- The text of a plan describes the namespace exactly if the cluster does not have it. -/
theorem Config.content_eq_iff (c : Config) (env : Environment) :
    (c.content env = (Manifest.ofConfig c).content c.handling
        ↔ some c.namespaceName ∉ env.namespaces) ∧
      (c.content env = (Manifest.ofConfig c).withoutNamespace.content c.handling
        ↔ some c.namespaceName ∈ env.namespaces) := by
  have hne := Manifest.content_ne_withoutNamespace c c.handling
  rw [← Environment.hasNamespace_iff, content, Manifest.forCluster]
  cases env.hasNamespace c.namespaceName with
  | true => simp [hne.symm]
  | false => simp [hne]

namespace Planner

/-- The planner in a world whose cluster has other namespaces. -/
def withNamespaces (p : Planner) (namespaces : List (Option String)) : Planner :=
  { p with environment := { p.environment with namespaces } }

/-- The namespaces of the cluster do not matter for the connection. -/
theorem connected_withNamespaces (p : Planner) (namespaces : List (Option String)) :
    (p.withNamespaces namespaces).connected.events = p.connected.events := by
  have hconnect : Cluster.connect { p.environment with namespaces } p.selectsContext
      = Cluster.connect p.environment p.selectsContext := rfl
  cases hp : p.cluster with
  | some c =>
    have hp' : (p.withNamespaces namespaces).cluster = some c := hp
    rw [connected_of_some hp, connected_of_some hp']
  | none =>
    have hp' : (p.withNamespaces namespaces).cluster = none := hp
    rw [(connected_of_none hp).1, (connected_of_none hp').1]
    exact congrArg Prod.snd hconnect

/-- An answer about a namespace takes the connection and one listing. -/
theorem namespaceExists_events {p : Planner} {name : String} {found : Bool}
    (h : (p.namespaceExists name).result = .ok found) :
    (p.namespaceExists name).events = p.connected.events ++ [.list] := by
  unfold namespaceExists at h ⊢
  cases hconnected : p.connected with
  | mk result q events =>
    cases result with
    | error e =>
      rw [hconnected] at h
      exact absurd h (by simp)
    | ok cluster =>
      simp only
      unfold Cluster.namespaceExists
      split <;> rfl

/-- What is told and asked on the way to a text. -/
theorem planConfig_events {p : Planner} {c : Config} {t : String}
    (h : (p.planConfig c).result = .ok (.ok t)) :
    (p.planConfig c).events = announcements c ++ p.connected.events ++ [.list]
      ++ if p.environment.hasNamespace c.namespaceName then
        [.print (reusedMessage c.namespaceName)] else [] := by
  unfold planConfig at h ⊢
  cases hfound : p.namespaceExists c.namespaceName with
  | mk result q events =>
    rw [hfound] at h
    cases result with
    | error e =>
      cases e <;> simp at h
    | ok found =>
      have hresult : (p.namespaceExists c.namespaceName).result = .ok found := by rw [hfound]
      have hevents := namespaceExists_events hresult
      rw [hfound] at hevents
      obtain rfl : events = p.connected.events ++ [.list] := hevents
      rw [namespaceExists_eq_ok hresult]
      simp only [render, List.append_assoc]

/-- The text of an answer is the content of the configuration of the request. -/
theorem plan_eq_content {p : Planner} {args : Arguments} {c : Config} {t : String}
    (hresolve : (resolve args p.randomness).1 = .ok c) (h : (p.plan args).result = .ok (.ok t)) :
    t = c.content p.environment := by
  obtain ⟨c', hresolve', ht⟩ := plan_eq_ok h
  obtain rfl : c = c' := Except.ok.inj (hresolve.symm.trans hresolve')
  exact ht

theorem plan_events {p : Planner} {args : Arguments} {c : Config} {t : String}
    (hresolve : (resolve args p.randomness).1 = .ok c) (h : (p.plan args).result = .ok (.ok t)) :
    (p.plan args).events = announcements c ++ p.connected.events ++ [.list]
      ++ if p.environment.hasNamespace c.namespaceName then
        [.print (reusedMessage c.namespaceName)] else [] := by
  rw [plan_of_ok hresolve] at h ⊢
  rw [planConfig_events h, connected_withRandomness]

section

variable {p : Planner} {args : Arguments} {c : Config}
  {namespaces₁ namespaces₂ : List (Option String)} {t₁ t₂ : String}

/-- The texts of two runs of which only the first finds its namespace. -/
theorem texts_withNamespaces (hresolve : (resolve args p.randomness).1 = .ok c)
    (hlisted : some c.namespaceName ∈ namespaces₁) (hnot : some c.namespaceName ∉ namespaces₂)
    (h₁ : ((p.withNamespaces namespaces₁).plan args).result = .ok (.ok t₁))
    (h₂ : ((p.withNamespaces namespaces₂).plan args).result = .ok (.ok t₂)) :
    ∃ rest, t₁ = (Manifest.ofConfig c).instructions c.handling ++ "\n" ++ Manifest.fenceOpen
        ++ rest ∧
      t₂ = (Manifest.ofConfig c).instructions c.handling ++ "\n" ++ Manifest.fenceOpen
        ++ (Manifest.documentMark
          ++ Yaml.document (NamespaceResource.toValue ⟨c.namespaceName⟩)) ++ rest := by
  obtain ⟨rest, hwithout, hwith⟩ := Manifest.content_insert_namespace c c.handling
  have ht₁ := plan_eq_content (p := p.withNamespaces namespaces₁) hresolve h₁
  have ht₂ := plan_eq_content (p := p.withNamespaces namespaces₂) hresolve h₂
  rw [(Config.content_eq_iff c _).2.2 hlisted, hwithout] at ht₁
  rw [(Config.content_eq_iff c _).1.2 hnot, hwith] at ht₂
  exact ⟨rest, ht₁, ht₂⟩

/-- Their events. -/
theorem events_withNamespaces (hresolve : (resolve args p.randomness).1 = .ok c)
    (hlisted : some c.namespaceName ∈ namespaces₁) (hnot : some c.namespaceName ∉ namespaces₂)
    (h₁ : ((p.withNamespaces namespaces₁).plan args).result = .ok (.ok t₁))
    (h₂ : ((p.withNamespaces namespaces₂).plan args).result = .ok (.ok t₂)) :
    ((p.withNamespaces namespaces₁).plan args).events
      = ((p.withNamespaces namespaces₂).plan args).events
        ++ [.print (reusedMessage c.namespaceName)] := by
  have hfound₁ : (p.withNamespaces namespaces₁).environment.hasNamespace c.namespaceName = true :=
    (Environment.hasNamespace_iff _ _).2 hlisted
  have hfound₂ : (p.withNamespaces namespaces₂).environment.hasNamespace c.namespaceName = false :=
    Bool.eq_false_iff.2 (mt (Environment.hasNamespace_iff _ _).1 hnot)
  rw [plan_events (p := p.withNamespaces namespaces₁) hresolve h₁,
    plan_events (p := p.withNamespaces namespaces₂) hresolve h₂, hfound₁, hfound₂,
    connected_withNamespaces, connected_withNamespaces]
  simp

end

theorem plan_of_step_eq_ok {p : Planner} {args : Arguments} {result : PlanResult}
    (h : (p.step (.plan args)).result = .ok (.plan result)) :
    (p.plan args).result = .ok result := by
  have hmap : (p.plan args).result.map Answer.plan = .ok (.plan result) := h
  cases hresult : (p.plan args).result with
  | error e => simp [hresult, Except.map] at hmap
  | ok a => simpa [hresult, Except.map] using hmap

end Planner

/-- A request that is answered with a text in two worlds, of which only the first has its namespace:
the second text is the first one with the document of the namespace right after the opening line of
the fence, and the first run shows one message more, at its end. In every session the text of an
answer has that document exactly if the namespace is not in the world of its step. -/
theorem namespace_changes_one_document (p : Planner) (args : Arguments) :
    (∀ c namespaces₁ namespaces₂ t₁ t₂, (resolve args p.randomness).1 = .ok c →
      some c.namespaceName ∈ namespaces₁ → some c.namespaceName ∉ namespaces₂ →
      ((p.withNamespaces namespaces₁).plan args).result = .ok (.ok t₁) →
      ((p.withNamespaces namespaces₂).plan args).result = .ok (.ok t₂) →
      (∃ rest, t₁ = (Manifest.ofConfig c).instructions c.handling ++ "\n" ++ Manifest.fenceOpen
          ++ rest ∧
        t₂ = (Manifest.ofConfig c).instructions c.handling ++ "\n" ++ Manifest.fenceOpen
          ++ (Manifest.documentMark
            ++ Yaml.document (NamespaceResource.toValue ⟨c.namespaceName⟩)) ++ rest) ∧
      ((p.withNamespaces namespaces₁).plan args).events
        = ((p.withNamespaces namespaces₂).plan args).events
          ++ [.print (Planner.reusedMessage c.namespaceName)]) ∧
    ∀ before after, ∃ o future,
      p.session (before ++ .plan args :: after) = p.session before ++ o :: future ∧
      ∀ t, o.result = .ok (.plan (.ok t)) →
        ∃ c, (resolve args (p.afterSteps before).randomness).1 = .ok c ∧
          (t = (Manifest.ofConfig c).content c.handling
            ↔ some c.namespaceName ∉ (p.environment.after before).namespaces) ∧
          (t = (Manifest.ofConfig c).withoutNamespace.content c.handling
            ↔ some c.namespaceName ∈ (p.environment.after before).namespaces) := by
  refine ⟨?runs, fun before after => ⟨_, _, Planner.session_append p before _, ?session⟩⟩
  case runs =>
    intro c namespaces₁ namespaces₂ t₁ t₂ hresolve hlisted hnot h₁ h₂
    exact ⟨Planner.texts_withNamespaces hresolve hlisted hnot h₁ h₂,
      Planner.events_withNamespaces hresolve hlisted hnot h₁ h₂⟩
  case session =>
    intro t ht
    have hplan := Planner.plan_of_step_eq_ok ht
    obtain ⟨c, hresolve, rfl⟩ := Planner.plan_eq_ok hplan
    rw [(Planner.environment_afterSteps p before).1]
    exact ⟨c, hresolve, Config.content_eq_iff c _⟩

/-- A namespace that the cluster has, and one that it does not have. -/
theorem namespace_changes_one_document_of_connected :
    ∃ t₁ t₂ rest, ((connectedPlanner ["a"]).plan [("namespace", .text "a")]).result = .ok (.ok t₁) ∧
      ((connectedPlanner []).plan [("namespace", .text "a")]).result = .ok (.ok t₂) ∧
      t₁ = (Manifest.ofConfig { namespaceName := "a" }).instructions ⟨false, defaultSourceDir⟩
        ++ "\n" ++ Manifest.fenceOpen ++ rest ∧
      t₂ = (Manifest.ofConfig { namespaceName := "a" }).instructions ⟨false, defaultSourceDir⟩
        ++ "\n" ++ Manifest.fenceOpen ++ (Manifest.documentMark
          ++ Yaml.document (NamespaceResource.toValue ⟨"a"⟩)) ++ rest := by
  obtain ⟨⟨rest, h₁, h₂⟩, -⟩ := (namespace_changes_one_document (connectedPlanner [])
    [("namespace", .text "a")]).1 { namespaceName := "a" } [some "a"] [] _ _
    (resolve_namespace _) (by decide) (by decide) (plan_connectedPlanner ["a"])
    (plan_connectedPlanner [])
  exact ⟨_, _, rest, plan_connectedPlanner ["a"], plan_connectedPlanner [], h₁, h₂⟩

end BundlePlan
