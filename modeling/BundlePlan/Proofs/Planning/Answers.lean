import BundlePlan.Proofs.Manifest.Characters
import BundlePlan.Proofs.Manifest.Cleanup
import BundlePlan.Proofs.Planning.Content

/-!
# What the texts of plans can be trusted with

A plan is applied by someone with all rights in the cluster. Three things should hold of every text
that a planner answers with: what stands before the fence is a comment, what the comments say to
delete is described by the documents, and the documents can be read on any screen as they are.
-/

namespace BundlePlan

open PlanText (IsComment deletions lines resources)
open Manifest (StaysComment forCluster fenced)

/-- A planner that is connected to a cluster with the given namespaces. -/
def connectedPlanner (namespaces : List String) : Planner where
  selectsContext := false
  environment := { contexts := [], current := .text "cluster", namespaces := namespaces.map some }
  randomness := ⟨fun _ => 0, 0⟩
  serializer := {}
  cluster := some ⟨"cluster"⟩

theorem resolve_namespace (randomness : Randomness) :
    (resolve [("namespace", .text "a")] randomness).1 = .ok { namespaceName := "a" } := rfl

theorem plan_connectedPlanner (namespaces : List String) :
    ((connectedPlanner namespaces).plan [("namespace", .text "a")]).result
      = .ok (.ok (Config.content { namespaceName := "a" }
        (connectedPlanner namespaces).environment)) :=
  Planner.plan_of_resolve (resolve_namespace _) rfl rfl rfl

/-! ### Comments -/

/-- Exactly the texts that stay in comments keep the header a comment: the instructions for any
resources of a configuration, and what stands before the fence in the answer to any request that
has the configuration. -/
theorem header_isComment_iff (c : Config) (found : Bool) (h : Handling) :
    ((∀ line ∈ (lines ((forCluster c found).instructions h)).dropLast, IsComment line)
        ↔ StaysComment c.namespaceName h) ∧
      ∀ (p : Planner) (args : Arguments) (t : String), (resolve args p.randomness).1 = .ok c →
        (p.plan args).result = .ok (.ok t) → ∃ header documents,
          t = header ++ "\n" ++ fenced documents ∧
          header = (forCluster c (p.environment.hasNamespace c.namespaceName)).instructions
            c.handling ∧
          ((∀ line ∈ (lines header).dropLast, IsComment line)
            ↔ StaysComment c.namespaceName c.handling) := by
  refine ⟨Manifest.isComment_instructions_iff c found h, fun p args t hresolve hplan => ?_⟩
  obtain ⟨c', hresolve', rfl⟩ := Planner.plan_eq_ok hplan
  obtain rfl : c = c' := Except.ok.inj (hresolve.symm.trans hresolve')
  exact ⟨_, _, rfl, rfl, Manifest.isComment_instructions_iff c _ c.handling⟩

/-- A namespace on one line is planned for with comments only before the fence. -/
theorem header_isComment_of_line :
    ∃ t header documents,
      ((connectedPlanner []).plan [("namespace", .text "a")]).result = .ok (.ok t) ∧
      t = header ++ "\n" ++ fenced documents ∧
      header = (forCluster { namespaceName := "a" } false).instructions ⟨false, defaultSourceDir⟩ ∧
      ∀ line ∈ (lines header).dropLast, IsComment line := by
  have hplan := plan_connectedPlanner []
  obtain ⟨header, documents, ht, hheader, hiff⟩ := (header_isComment_iff { namespaceName := "a" }
    false ⟨false, defaultSourceDir⟩).2 _ _ _ (resolve_namespace _) hplan
  have hstays : StaysComment "a" ⟨false, defaultSourceDir⟩ :=
    Manifest.staysComment_of_not_mem (by decide) (by decide)
  exact ⟨_, header, documents, hplan, ht, hheader, hiff.2 hstays⟩

/-- The second line of a namespace is not a comment. -/
theorem header_not_isComment :
    ¬∀ line ∈ (lines ((forCluster { namespaceName := "a\nb" } false).instructions
      ⟨true, "/must-gather"⟩)).dropLast, IsComment line := by
  rw [Manifest.isComment_instructions_iff]
  -- what comes after the line break is no start of a comment
  rintro ⟨-, h⟩
  have hcomment : IsComment ['b', ' '] := h.2.1 rfl
  exact absurd hcomment (by decide)

/-! ### Cleanup -/

/-- What the header of an answer says how to delete and what its documents describe, for a namespace
and a directory on one line each. The namespace is among what is deleted but not described exactly
if it is deleted and the cluster has it. -/
theorem deletions_described_iff (p : Planner) (args : Arguments) (c : Config) (t : String)
    (hresolve : (resolve args p.randomness).1 = .ok c) (hns : '\n' ∉ c.namespaceName.toList)
    (hdir : '\n' ∉ c.sourceDir.toList) (hplan : (p.plan args).result = .ok (.ok t)) :
    deletions t = (if c.keepNamespace then [] else
        [("Namespace", c.namespaceName), ("ClusterRoleBinding", roleBindingName c.namespaceName)]) ∧
      resources t = (if p.environment.hasNamespace c.namespaceName then []
          else [("Namespace", c.namespaceName)])
        ++ [("ServiceAccount", Manifest.serviceAccountName),
          ("ClusterRoleBinding", roleBindingName c.namespaceName)] ∧
      ((∀ d ∈ deletions t, d ∈ resources t)
        ↔ c.keepNamespace = true ∨ p.environment.hasNamespace c.namespaceName = false) := by
  obtain ⟨c', hresolve', rfl⟩ := Planner.plan_eq_ok hplan
  obtain rfl : c = c' := Except.ok.inj (hresolve.symm.trans hresolve')
  exact ⟨Manifest.deletions_content (h := c.handling) _ hns hdir,
    Manifest.resources_content (h := c.handling) _ hns hdir,
    Manifest.deletions_content_subset_iff (h := c.handling) _ hns hdir⟩

/-- A namespace that the cluster does not have is described and deleted. -/
theorem deletions_described_of_new :
    ∃ t, ((connectedPlanner []).plan [("namespace", .text "a")]).result = .ok (.ok t) ∧
      ∀ d ∈ deletions t, d ∈ resources t := by
  have hplan := plan_connectedPlanner []
  have hiff := deletions_described_iff _ _ _ _ (resolve_namespace _) (by decide) (by decide) hplan
  exact ⟨_, hplan, hiff.2.2.2 (Or.inr rfl)⟩

/-- A namespace that the cluster has is deleted although no document describes it. -/
theorem deletions_not_described :
    ¬∀ t, ((connectedPlanner ["a"]).plan [("namespace", .text "a")]).result = .ok (.ok t) →
      ∀ d ∈ deletions t, d ∈ resources t := by
  intro h
  have hsubset := h _ (plan_connectedPlanner ["a"])
  have hkept := (Manifest.deletions_content_subset_iff (h := ⟨false, defaultSourceDir⟩) true
    (c := { namespaceName := "a" }) (by decide) (by decide)).1 hsubset
  exact absurd hkept (by decide)

/-! ### Characters -/

theorem IsReadable.printable {s : List Char} (h : IsReadable s) :
    ∀ ch ∈ s, ch = '\n' ∨ 0x20 ≤ ch.toNat ∧ ch.toNat ≤ 0x7E := by
  intro ch hch
  have hreadable := h ch hch
  rwa [Yaml.isReadable, Bool.or_eq_true, beq_iff_eq, Yaml.isPlainAscii, Bool.and_eq_true,
    decide_eq_true_eq, decide_eq_true_eq] at hreadable

/-- Every document is printable ASCII and line breaks, and so is everything from the fence on in the
answer to any request. -/
theorem documents_are_printable :
    (∀ v, ∀ ch ∈ (Yaml.document v).toList, ch = '\n' ∨ 0x20 ≤ ch.toNat ∧ ch.toNat ≤ 0x7E) ∧
      ∀ (p : Planner) (args : Arguments) (t : String), (p.plan args).result = .ok (.ok t) →
        ∃ c m, (resolve args p.randomness).1 = .ok c ∧
          m = forCluster c (p.environment.hasNamespace c.namespaceName) ∧
          t = m.instructions c.handling ++ "\n"
            ++ fenced (Serializer.documentTexts m.documents) ∧
          ∀ ch ∈ (fenced (Serializer.documentTexts m.documents)).toList,
            ch = '\n' ∨ 0x20 ≤ ch.toNat ∧ ch.toNat ≤ 0x7E := by
  refine ⟨fun v => (isReadable_document v).printable, fun p args t hplan => ?_⟩
  obtain ⟨c, hresolve, rfl⟩ := Planner.plan_eq_ok hplan
  exact ⟨c, _, hresolve, rfl, rfl, (Manifest.isReadable_fenced _).printable⟩

/-- The answer to a request, from the fence on. -/
theorem documents_are_printable_of_plan :
    ∃ t header documents,
      ((connectedPlanner []).plan [("namespace", .text "a")]).result = .ok (.ok t) ∧
      t = header ++ "\n" ++ fenced documents ∧
      ∀ ch ∈ (fenced documents).toList, ch = '\n' ∨ 0x20 ≤ ch.toNat ∧ ch.toNat ≤ 0x7E := by
  have hplan := plan_connectedPlanner []
  obtain ⟨c, m, -, -, ht, hprintable⟩ := documents_are_printable.2 _ _ _ hplan
  exact ⟨_, _, _, hplan, ht, hprintable⟩

end BundlePlan
