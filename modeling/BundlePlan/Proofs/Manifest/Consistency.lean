import BundlePlan.Proofs.Manifest.Cleanup
import BundlePlan.Proofs.Text.Runs
import Mathlib.Data.List.Nodup

/-!
# Consistency of plans

The resources of a plan refer to each other by name, and so do the comments before them: containers
are told apart by their names, mounts name volumes, the pod and the binding name the service
account, and the commands of the header name containers, which `followed?` reads off its lines.
`Consistent` says that all of these names fit together, and `consistent_ofConfig` that they do in
every plan, whatever images are configured.
-/

namespace BundlePlan

open PlanText (lines)

namespace Manifest

/-! ### Names of containers -/

/-- Different gather containers have different names. -/
theorem gatherName_injective : Function.Injective gatherName := by
  intro i j h
  have hplain : ∀ k : Nat, "gather" ≠ "gather-" ++ toString k := by
    intro k heq
    have hlength := congrArg (fun s : String => s.toList.length) heq
    simp at hlength
  unfold gatherName at h
  split at h
  · next hi =>
    split at h
    · next hj => rw [hi, hj]
    · exact absurd h (hplain j)
  · split at h
    · exact absurd h.symm (hplain i)
    · have hdigits : Nat.toDigits 10 i = Nat.toDigits 10 j := by
        have hlists := congrArg String.toList h
        simpa [Nat.toString_eq_ofList_toDigits] using hlists
      calc
        i = Nat.ofDigitChars 10 (Nat.toDigits 10 i) 0 := Nat.ofDigitChars_ten_toDigits.symm
        _ = Nat.ofDigitChars 10 (Nat.toDigits 10 j) 0 := by rw [hdigits]
        _ = j := Nat.ofDigitChars_ten_toDigits

/-- No gather container has the name of the one that waits. -/
theorem gatherName_ne_waitName (i : Nat) : gatherName i ≠ waitName := by
  intro h
  have hhead : (gatherName i).toList.head? = some 'g' := by
    unfold gatherName
    split
    · rfl
    · rw [String.toList_append]
      rfl
  rw [h] at hhead
  exact absurd hhead (by decide)

/-- The gather containers are numbered in the order of their images. -/
theorem map_name_gatherContainers (c : Config) :
    (gatherContainers c).map (·.name) = (List.range (gatherImages c).length).map gatherName := by
  refine List.ext_getElem (by simp [gatherContainers]) fun i _ _ => ?_
  simp [gatherContainers, gatherContainer]

theorem map_image_gatherContainers (c : Config) :
    (gatherContainers c).map (·.image) = gatherImages c := by
  refine List.ext_getElem (by simp [gatherContainers]) fun i _ _ => ?_
  simp [gatherContainers, gatherContainer]

theorem nodup_containerNames (c : Config) :
    ((gatherContainers c ++ [waitContainer]).map (·.name)).Nodup := by
  rw [List.map_append, map_name_gatherContainers, List.map_singleton]
  refine List.Nodup.append (List.nodup_range.map gatherName_injective) (List.nodup_singleton _) ?_
  intro name hname hwait
  obtain ⟨i, -, rfl⟩ := List.mem_map.1 hname
  exact gatherName_ne_waitName i (List.mem_singleton.1 hwait)

/-- The names that gather are those of all containers but the one that waits. -/
theorem gatherNames_forCluster (c : Config) (found : Bool) :
    (forCluster c found).gatherNames = (gatherContainers c).map (·.name) := by
  have hkept : ∀ name ∈ (gatherContainers c).map (·.name), (name != waitName) = true := by
    intro name hname
    rw [map_name_gatherContainers] at hname
    obtain ⟨i, -, rfl⟩ := List.mem_map.1 hname
    exact bne_iff_ne.2 (gatherName_ne_waitName i)
  rw [gatherNames, pod_forCluster, podOfConfig, List.map_append, List.filter_append,
    List.filter_eq_self.2 hkept]
  simp [waitContainer]

/-! ### Commands that follow the logs -/

/-- How a comment starts that gives a command to follow logs. -/
def logsStart : List Char := "# kubectl logs ".toList

/-- Whether a line gives a command to follow logs. -/
def FollowsLogs (line : List Char) : Prop := logsStart <+: line

instance (line : List Char) : Decidable (FollowsLogs line) :=
  inferInstanceAs (Decidable (logsStart <+: line))

/-- The namespace and the container whose logs a line says how to follow. The container is what
comes after the last space, since the namespace can have spaces in it. -/
def followed? (line : List Char) : Option (String × String) :=
  (line.dropPrefix? (logsStart ++ "-f -n ".toList)).bind fun rest =>
    ((rest.rdropWhile (· != ' ')).dropSuffix? " <pod-name> -c ".toList).map fun namespaceName =>
      (String.ofList namespaceName, String.ofList (rest.rtakeWhile (· != ' ')))

/-- A line is read only if it is such a command and nothing else. -/
theorem followed?_eq_some_iff {line : List Char} {namespaceName container : String} :
    followed? line = some (namespaceName, container) ↔
      line = logsStart ++ "-f -n ".toList
        ++ (namespaceName.toList ++ " <pod-name> -c ".toList ++ container.toList) ∧
      ' ' ∉ container.toList := by
  constructor
  · intro h
    obtain ⟨rest, hrest, hread⟩ := Option.bind_eq_some_iff.1 h
    obtain ⟨name, hname, hpair⟩ := Option.map_eq_some_iff.1 hread
    obtain ⟨start, rfl, hstart⟩ := List.dropPrefix?_eq_some_iff.1 hrest
    obtain ⟨finish, hfinish, hbeq⟩ := List.dropSuffix?_eq_some_iff.1 hname
    obtain ⟨rfl, rfl⟩ := Prod.mk.inj hpair
    have hcontainer : (String.ofList (rest.rtakeWhile (· != ' '))).toList
        = rest.rtakeWhile (· != ' ') := String.toList_ofList
    have hnamespace : (String.ofList name).toList = name := String.toList_ofList
    rw [eq_of_beq hbeq] at hfinish
    rw [eq_of_beq hstart, hcontainer, hnamespace, ← hfinish, List.rdropWhile_append_rtakeWhile]
    exact ⟨rfl, fun hmem => absurd (List.mem_rtakeWhile_imp hmem) (by decide)⟩
  · rintro ⟨rfl, hspace⟩
    have hrun : ∀ c ∈ container.toList, (c != ' ') = true :=
      fun c hc => bne_iff_ne.2 fun heq => hspace (heq ▸ hc)
    have hstops : Text.Stops (· != ' ')
        (namespaceName.toList ++ " <pod-name> -c ".toList).reverse := by
      rw [List.reverse_append]
      exact Text.stops_cons rfl _
    rw [followed?, List.dropPrefix?_append_of_beq _ (beq_self_eq_true _), Option.bind_some,
      Text.rtakeWhile_run hrun hstops, Text.rdropWhile_run hrun hstops,
      List.dropSuffix?_eq_some_iff.2 ⟨_, rfl, beq_self_eq_true _⟩, Option.map_some,
      String.ofList_toList, String.ofList_toList]

theorem followed?_logsPhrase (namespaceName : String) {container : String}
    (h : ' ' ∉ container.toList) :
    followed? (logsPhrase namespaceName container).line.toList
      = some (namespaceName, container) := by
  have hstart : "# kubectl logs -f -n ".toList = logsStart ++ "-f -n ".toList := by decide +kernel
  refine followed?_eq_some_iff.2 ⟨?_, h⟩
  simp only [Phrase.line, logsPhrase, String.toList_append, hstart, List.append_assoc]

theorem followsLogs_logsPhrase (namespaceName container : String) :
    FollowsLogs (logsPhrase namespaceName container).line.toList := by
  have hstart : logsStart <+: "# kubectl logs -f -n ".toList := by decide +kernel
  rw [Phrase.line, String.toList_append, String.toList_append, List.append_assoc]
  exact hstart.trans (List.prefix_append _ _)

/-- A phrase with another start gives no such command, whatever text is in it. -/
theorem not_followsLogs_line {p : Phrase} (h : Text.Differ logsStart p.start.toList) :
    ¬FollowsLogs p.line.toList := by
  rw [Phrase.line, String.toList_append, String.toList_append, List.append_assoc]
  exact h.not_prefix_append _

/-- Phrases with other starts go when only the commands are kept. -/
theorem filter_eq_nil {ps : List Phrase}
    (h : ∀ p ∈ ps, Text.Differ logsStart p.start.toList) :
    ps.filter (fun p => FollowsLogs p.line.toList) = [] := by
  rw [List.filter_eq_nil_iff]
  exact fun p hp => by simpa using not_followsLogs_line (h p hp)

/-- Of the phrases of the instructions those for the gather containers give the commands. -/
theorem filter_phrases (m : Manifest) (h : Handling) :
    (m.phrases h).filter (fun p => FollowsLogs p.line.toList)
      = m.gatherNames.map (logsPhrase m.namespaceName) := by
  have hlogs : (m.gatherNames.map (logsPhrase m.namespaceName)).filter
      (fun p => FollowsLogs p.line.toList) = m.gatherNames.map (logsPhrase m.namespaceName) := by
    rw [List.filter_eq_self, List.forall_mem_map]
    exact fun name _ => by simpa using followsLogs_logsPhrase m.namespaceName name
  have hcleanup : (if h.keepNamespace then [] else m.cleanupPhrases).filter
      (fun p => FollowsLogs p.line.toList) = [] := by
    refine filter_eq_nil fun p hp => ?_
    cases hkeep : h.keepNamespace with
    | true => simp [hkeep] at hp
    | false =>
      simp only [hkeep, Bool.false_eq_true, if_false, cleanupPhrases, List.mem_cons,
        List.not_mem_nil, or_false] at hp
      rcases hp with rfl | rfl | rfl
      · exact (by decide +kernel : Text.Differ logsStart
          "# Finally, clean up the resources with:".toList)
      · exact (by decide +kernel : Text.Differ logsStart "# kubectl delete ns ".toList)
      · exact (by decide +kernel : Text.Differ logsStart
          "# kubectl delete clusterrolebinding ".toList)
  rw [phrases, usePhrases, List.filter_append, List.filter_append, List.filter_append, hlogs,
    hcleanup, List.append_nil, filter_eq_nil ?before, filter_eq_nil ?after, List.nil_append,
    List.append_nil]
  case before =>
    simp only [List.forall_mem_cons]
    exact ⟨by decide +kernel, by decide +kernel, List.forall_mem_nil _⟩
  case after =>
    simp only [List.forall_mem_cons]
    exact ⟨(by decide +kernel : Text.Differ logsStart "# The gather containers write to ".toList),
      by decide +kernel, (by decide +kernel : Text.Differ logsStart "# kubectl cp -n ".toList),
      List.forall_mem_nil _⟩

/-- Each command follows the logs of its gather container. -/
theorem map_followed?_instructionLines {m : Manifest} (h : Handling)
    (hnames : ∀ name ∈ m.gatherNames, ' ' ∉ name.toList) :
    ((m.instructionLines h).filter fun line => FollowsLogs line.toList).map
        (fun line => followed? line.toList)
      = m.gatherNames.map fun name => some (m.namespaceName, name) := by
  rw [instructionLines_eq, List.filter_map]
  change (((m.phrases h).filter fun p => FollowsLogs p.line.toList).map Phrase.line).map _ = _
  rw [filter_phrases, List.map_map, List.map_map]
  exact List.map_congr_left fun name hname => followed?_logsPhrase _ (hnames name hname)

/-- The lines that are read are those that were put together, if the texts of the request are on one
line each. -/
theorem lines_instructions_of_not_mem {c : Config} (found : Bool) {h : Handling}
    (hns : '\n' ∉ c.namespaceName.toList) (hdir : '\n' ∉ h.sourceDir.toList) :
    lines ((forCluster c found).instructions h)
      = ((forCluster c found).instructionLines h).map String.toList ++ [[]] := by
  rw [lines_instructions, flatMap_pieces_phrases found hns hdir, instructionLines_eq, List.map_map]
  rfl

/-! ### Consistency -/

/-- The names in the resources of a plan, and in the comments before them, fit together. -/
structure Consistent (c : Config) (m : Manifest) : Prop where
  /-- The containers are one for each image, with the default image if none is configured, and then
  the one that waits. Those that gather differ in nothing but their names and images. -/
  containers : ∃ gatherers, m.pod.containers = gatherers ++ [waitContainer] ∧
    gatherers.length = max 1 c.images.length ∧
    gatherers.map (·.image) = (if c.images = [] then [defaultImage] else c.images) ∧
    ∀ g ∈ gatherers, g.command = c.command ∧ g.env = gatherEnv c.since ∧
      g.mounts = [⟨volumeName, c.sourceDir⟩]
  /-- No two containers have the same name. -/
  distinct : (m.pod.containers.map (·.name)).Nodup
  /-- What is mounted is a volume of the pod. -/
  mounted : ∀ container ∈ m.pod.containers, ∀ mount ∈ container.mounts,
    mount.volume ∈ m.pod.volumes
  /-- Every container but the last gathers. -/
  gatherers : m.gatherNames = (m.pod.containers.map (·.name)).dropLast
  /-- The header follows the logs of each gather container, in their order, and no others: every
  line that starts as such a command names the namespace and the container next in order. -/
  logs : ∀ h : Handling,
    ((m.instructionLines h).filter fun line => FollowsLogs line.toList).map
        (fun line => followed? line.toList)
      = m.gatherNames.map fun name => some (c.namespaceName, name)
  /-- The same is found in the text of the header, as long as the texts of the request do not add
  lines to it. -/
  logsFound : ∀ h : Handling, '\n' ∉ c.namespaceName.toList → '\n' ∉ h.sourceDir.toList →
    ((lines (m.instructions h)).filter FollowsLogs).map followed?
      = m.gatherNames.map fun name => some (c.namespaceName, name)
  /-- The pod runs as the service account of the plan, and the binding is for this account. -/
  account : m.pod.serviceAccount = m.serviceAccount.name ∧
    m.roleBinding.subjects = [m.serviceAccount]
  /-- All of it is in the namespace that is configured. -/
  placed : m.pod.namespaceName = c.namespaceName ∧
    m.serviceAccount.namespaceName = c.namespaceName ∧
    ∀ account ∈ m.roleBinding.subjects, account.namespaceName = c.namespaceName

theorem length_gatherImages (c : Config) : (gatherImages c).length = max 1 c.images.length := by
  unfold gatherImages
  cases c.images with
  | nil => rfl
  | cons image images =>
    simp only [List.isEmpty_cons, Bool.false_eq_true, if_false, List.length_cons]
    omega

/-- What the gather containers have in common. -/
theorem forall_mem_gatherContainers (c : Config) : ∀ g ∈ gatherContainers c,
    g.command = c.command ∧ g.env = gatherEnv c.since ∧ g.mounts = [⟨volumeName, c.sourceDir⟩] := by
  intro g hg
  obtain ⟨i, _, rfl⟩ := List.mem_mapIdx.1 hg
  exact ⟨rfl, rfl, rfl⟩

theorem forall_mem_mounts (c : Config) : ∀ container ∈ gatherContainers c ++ [waitContainer],
    ∀ mount ∈ container.mounts, mount.volume = volumeName := by
  intro container hcontainer mount hmount
  rcases List.mem_append.1 hcontainer with hgathers | hwaits
  · rw [(forall_mem_gatherContainers c container hgathers).2.2] at hmount
    rw [List.mem_singleton.1 hmount]
  · rw [List.mem_singleton.1 hwaits] at hmount
    rw [List.mem_singleton.1 hmount]

theorem consistent_forCluster (c : Config) (found : Bool) : Consistent c (forCluster c found) := by
  have hpod := pod_forCluster c found
  have hlogs := fun h : Handling => map_followed?_instructionLines h
    (not_mem_gatherNames (d := ' ') (by decide) (by decide) c found)
  rw [namespaceName_forCluster] at hlogs
  have haccount : (forCluster c found).serviceAccount = ⟨serviceAccountName, c.namespaceName⟩ := by
    cases found <;> rfl
  have hsubjects : (forCluster c found).roleBinding.subjects
      = [⟨serviceAccountName, c.namespaceName⟩] := by
    cases found <;> rfl
  constructor
  case containers =>
    refine ⟨gatherContainers c, by rw [hpod]; rfl, ?_, ?_, forall_mem_gatherContainers c⟩
    · rw [← length_gatherImages, ← map_image_gatherContainers, List.length_map]
    · rw [map_image_gatherContainers, gatherImages]
      simp only [List.isEmpty_iff]
  case distinct =>
    rw [hpod]
    exact nodup_containerNames c
  case mounted =>
    intro container hcontainer mount hmount
    rw [hpod] at hcontainer ⊢
    exact List.mem_singleton.2 (forall_mem_mounts c container hcontainer mount hmount)
  case gatherers =>
    rw [gatherNames_forCluster, hpod, podOfConfig, List.map_append, List.map_singleton,
      List.dropLast_concat]
  case logs => exact hlogs
  case logsFound =>
    intro h hns hdir
    have hempty : [([] : List Char)].filter FollowsLogs = [] := by decide
    rw [lines_instructions_of_not_mem found hns hdir, List.filter_append, List.filter_map, hempty,
      List.append_nil, List.map_map]
    exact hlogs h
  case account => rw [hpod, haccount, hsubjects]; exact ⟨rfl, rfl⟩
  case placed =>
    rw [hpod, haccount, hsubjects]
    exact ⟨rfl, rfl, fun account h => by rw [List.mem_singleton.1 h]⟩

/-- Every plan is consistent, with the namespace and without it. -/
theorem consistent_ofConfig (c : Config) :
    Consistent c (ofConfig c) ∧ Consistent c (ofConfig c).withoutNamespace :=
  ⟨consistent_forCluster c false, consistent_forCluster c true⟩

end Manifest

end BundlePlan
