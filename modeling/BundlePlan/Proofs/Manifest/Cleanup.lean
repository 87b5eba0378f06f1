import BundlePlan.Proofs.Manifest.Fence
import BundlePlan.Proofs.Yaml.Fields

/-!
# What plans create and delete

The resources that a plan describes and those that its header says how to delete, both as they are
found in its text. The namespace is described only if it was not found in the cluster, but the
commands that delete it and its binding depend only on whether the resources are kept.
-/

namespace BundlePlan

/-! ### Commands -/

namespace PlanText

/-- A line with this start is no command that deletes something. -/
def Harmless (start : List Char) : Prop :=
  ¬deleteStart <+: start ∧ ¬start <+: deleteStart

instance (start : List Char) : Decidable (Harmless start) :=
  inferInstanceAs (Decidable (¬deleteStart <+: start ∧ ¬start <+: deleteStart))

theorem Harmless.deletion?_append {start : List Char} (h : Harmless start) (t : List Char) :
    deletion? (start ++ t) = none :=
  if_neg (Text.Differ.not_prefix_append h t)

/-- A command deletes the resource that it names. -/
theorem deletion?_command {word : List Char} {kind : String} (hword : ' ' ∉ word)
    (hkind : kindWords.lookup word = some kind) (name : List Char) :
    deletion? (deleteStart ++ word ++ ' ' :: name) = some (kind, String.ofList name) := by
  have hstarts : deleteStart <+: deleteStart ++ word ++ ' ' :: name :=
    List.append_assoc deleteStart word _ ▸ List.prefix_append _ _
  rw [deletion?, if_pos hstarts, List.append_assoc, List.drop_left, Text.cutFirst_append_cons hword]
  simp only [Option.map_some, hkind, Option.getD_some]

end PlanText

open PlanText (Harmless deleteStart deletion? deletions kindWords resources)

namespace Phrase

theorem deletion?_line {p : Phrase} (h : Harmless p.start.toList) :
    deletion? p.line.toList = none := by
  rw [line, String.toList_append, String.toList_append, List.append_assoc]
  exact h.deletion?_append _

/-- A command that ends with the text of the request. -/
theorem deletion?_command {start kind : String} (text : String) (word : List Char)
    (hstart : start.toList = deleteStart ++ word ++ [' ']) (hword : ' ' ∉ word)
    (hkind : kindWords.lookup word = some kind) :
    deletion? (line ⟨start, text, ""⟩).toList = some (kind, text) := by
  have hline : (line ⟨start, text, ""⟩).toList = deleteStart ++ word ++ ' ' :: text.toList := by
    rw [line_mk, String.append_empty, String.toList_append, hstart, List.append_assoc]
    rfl
  rw [hline, PlanText.deletion?_command hword hkind, String.ofList_toList]

end Phrase

namespace Manifest

/-- The lines that say how to use a plan delete nothing. -/
theorem harmless_usePhrases (m : Manifest) (h : Handling) :
    ∀ p ∈ m.usePhrases h, Harmless p.start.toList := by
  unfold usePhrases
  simp only [List.forall_mem_append, List.forall_mem_cons, List.forall_mem_map]
  refine ⟨⟨⟨?save, ?monitor, nofun⟩, ?logs⟩, ?written, ?done, ?copy, nofun⟩
  case save => decide +kernel
  case monitor => decide +kernel
  case logs => exact fun _ _ => (by decide +kernel : Harmless "# kubectl logs -f -n ".toList)
  case written => exact (by decide +kernel : Harmless "# The gather containers write to ".toList)
  case done => decide +kernel
  case copy => exact (by decide +kernel : Harmless "# kubectl cp -n ".toList)

/-- The lines that delete the resources delete the namespace and the binding. -/
theorem deletions_cleanupPhrases (m : Manifest) :
    (m.cleanupPhrases.map (·.line.toList)).filterMap deletion?
      = [("Namespace", m.namespaceName), ("ClusterRoleBinding", m.roleBinding.name)] := by
  have htitle : deletion? (Phrase.fixed "# Finally, clean up the resources with:").line.toList
      = none :=
    Phrase.deletion?_line (by decide +kernel)
  have hns : deletion? (Phrase.line ⟨"# kubectl delete ns ", m.namespaceName, ""⟩).toList
      = some ("Namespace", m.namespaceName) :=
    Phrase.deletion?_command _ "ns".toList (by decide +kernel) (by decide) (by decide)
  have hbinding : deletion? (Phrase.line
      ⟨"# kubectl delete clusterrolebinding ", m.roleBinding.name, ""⟩).toList
        = some ("ClusterRoleBinding", m.roleBinding.name) :=
    Phrase.deletion?_command _ "clusterrolebinding".toList (by decide +kernel) (by decide)
      (by decide)
  rw [cleanupPhrases, List.map_cons, List.map_cons, List.map_cons, List.filterMap_cons_none htitle,
    List.filterMap_cons_some hns, List.filterMap_cons_some hbinding]
  rfl

/-- The texts of the request are on one line each. -/
theorem newline_not_mem_text {m : Manifest} {h : Handling} (hns : '\n' ∉ m.namespaceName.toList)
    (hdir : '\n' ∉ h.sourceDir.toList) (hbinding : '\n' ∉ m.roleBinding.name.toList) :
    ∀ p ∈ m.phrases h, '\n' ∉ p.text.toList := by
  have hfixed : ∀ s, '\n' ∉ (Phrase.fixed s).text.toList := fun _ => List.not_mem_nil
  unfold phrases usePhrases cleanupPhrases
  simp only [List.forall_mem_append, List.forall_mem_cons, List.forall_mem_map]
  refine ⟨⟨⟨⟨hfixed _, hfixed _, nofun⟩, fun _ _ => hns⟩, hdir, hfixed _, hns, nofun⟩, ?_⟩
  cases h.keepNamespace with
  | true => exact nofun
  | false =>
    simp only [Bool.false_eq_true, if_false, List.forall_mem_cons]
    exact ⟨hfixed _, hns, hbinding, nofun⟩

theorem newline_not_mem_roleBindingName {namespaceName : String} (h : '\n' ∉ namespaceName.toList) :
    '\n' ∉ (roleBindingName namespaceName).toList := by
  obtain ⟨start, hstart, htext⟩ := toList_roleBindingName namespaceName
  rw [htext, List.mem_append, not_or]
  exact ⟨hstart, h⟩

/-- Every phrase is one line if the texts of the request are on one line each. -/
theorem flatMap_pieces_phrases {c : Config} (found : Bool) {h : Handling}
    (hns : '\n' ∉ c.namespaceName.toList) (hdir : '\n' ∉ h.sourceDir.toList) :
    ((forCluster c found).phrases h).flatMap (fun p => Text.pieces '\n' p.line.toList)
      = ((forCluster c found).phrases h).map (·.line.toList) := by
  have hname := namespaceName_forCluster c found
  have hbinding := roleBinding_forCluster c found
  have hbreaks : ∀ line ∈ ((forCluster c found).phrases h).map (·.line.toList), '\n' ∉ line := by
    rw [List.forall_mem_map]
    refine fun p hp => (valid_phrases_forCluster c found h p hp).newline_not_mem ?_
    exact newline_not_mem_text (hname ▸ hns) hdir
      (hbinding ▸ newline_not_mem_roleBindingName hns) p hp
  rw [← Text.flatMap_pieces_of_not_mem hbreaks, List.flatMap_map]

/-- What the header of a plan says how to delete. -/
theorem deletions_content {c : Config} (found : Bool) {h : Handling}
    (hns : '\n' ∉ c.namespaceName.toList) (hdir : '\n' ∉ h.sourceDir.toList) :
    deletions ((forCluster c found).content h)
      = if h.keepNamespace then []
        else [("Namespace", c.namespaceName),
          ("ClusterRoleBinding", roleBindingName c.namespaceName)] := by
  have hname := namespaceName_forCluster c found
  have hbinding := roleBinding_forCluster c found
  have huse : (((forCluster c found).usePhrases h).map (·.line.toList)).filterMap deletion?
      = [] := by
    rw [List.filterMap_eq_nil_iff, List.forall_mem_map]
    exact fun p hp => Phrase.deletion?_line (harmless_usePhrases (forCluster c found) h p hp)
  have hcleanup := deletions_cleanupPhrases (forCluster c found)
  rw [hname, hbinding] at hcleanup
  rw [deletions, (layout_content found hns hdir).header_eq, commentLines,
    flatMap_pieces_phrases found hns hdir, phrases, List.map_append, List.filterMap_append, huse,
    List.nil_append]
  cases h.keepNamespace with
  | true => rfl
  | false => exact hcleanup

/-! ### Resources -/

/-- What the documents of a plan describe. -/
theorem resources_content {c : Config} (found : Bool) {h : Handling}
    (hns : '\n' ∉ c.namespaceName.toList) (hdir : '\n' ∉ h.sourceDir.toList) :
    resources ((forCluster c found).content h)
      = (if found then [] else [("Namespace", c.namespaceName)])
        ++ [("ServiceAccount", serviceAccountName),
          ("ClusterRoleBinding", roleBindingName c.namespaceName)] := by
  have hread : (fun v => (Yaml.read (Yaml.document v)).bind Value.resource?) = Value.resource? :=
    funext Yaml.resource?_read_document
  rw [resources, (layout_content found hns hdir).documentTexts?_eq, map_unlines_documents,
    Option.getD_some, List.filterMap_map]
  change List.filterMap (fun v => (Yaml.read (Yaml.document v)).bind Value.resource?) _ = _
  rw [hread, List.filterMap_append]
  cases found <;> rfl

/-- Everything that is deleted is described as well, unless the namespace is deleted although it
was found. -/
theorem deletions_content_subset_iff {c : Config} (found : Bool) {h : Handling}
    (hns : '\n' ∉ c.namespaceName.toList) (hdir : '\n' ∉ h.sourceDir.toList) :
    deletions ((forCluster c found).content h) ⊆ resources ((forCluster c found).content h)
      ↔ h.keepNamespace = true ∨ found = false := by
  rw [deletions_content found hns hdir, resources_content found hns hdir]
  cases h.keepNamespace with
  | true => simp
  | false => cases found <;> simp

end Manifest

end BundlePlan
