import BundlePlan.Proofs.Manifest.Content

/-!
# The wording of instructions

Every line of the instructions is a `Phrase`: a fixed start, a text of the request or nothing, and
a fixed end. What holds of the lines follows from where the texts stand in them.
-/

namespace BundlePlan

open Text (AfterBreaks)
open PlanText (IsComment)

/-- A line with a text in it. -/
structure Phrase where
  start : String
  /-- The text of the request. -/
  text : String
  finish : String

namespace Phrase

/-- The whole line. -/
def line (p : Phrase) : String := p.start ++ p.text ++ p.finish

/-- A line without a text. -/
def fixed (s : String) : Phrase := ⟨s, "", ""⟩

theorem line_fixed (s : String) : (fixed s).line = s := by
  rw [line, fixed, String.append_empty, String.append_empty]

theorem line_mk (start text finish : String) :
    line ⟨start, text, finish⟩ = start ++ (text ++ finish) :=
  String.append_assoc

/-- What is fixed of the line is on one line, which is a comment. -/
structure Valid (p : Phrase) : Prop where
  comment : IsComment p.start.toList
  start : '\n' ∉ p.start.toList
  finish : '\n' ∉ p.finish.toList

theorem Valid.isComment_line {p : Phrase} (h : p.Valid) : IsComment p.line.toList := by
  rw [line, String.toList_append, String.toList_append, List.append_assoc]
  exact h.comment.trans (List.prefix_append _ _)

theorem Valid.newline_not_mem {p : Phrase} (h : p.Valid) (htext : '\n' ∉ p.text.toList) :
    '\n' ∉ p.line.toList := by
  rw [line, String.toList_append, String.toList_append]
  simp only [List.mem_append, not_or]
  exact ⟨⟨h.start, htext⟩, h.finish⟩

theorem Valid.afterBreaks_line {p : Phrase} (h : p.Valid) {P : List Char → Prop} :
    AfterBreaks P p.line.toList ↔ AfterBreaks P (p.text.toList ++ p.finish.toList) := by
  rw [line, String.toList_append, String.toList_append, List.append_assoc]
  exact AfterBreaks.append_iff_right h.start

theorem valid_mk {start finish : String} (text : String) (hcomment : IsComment start.toList)
    (hstart : '\n' ∉ start.toList) (hfinish : '\n' ∉ finish.toList) :
    Valid ⟨start, text, finish⟩ :=
  ⟨hcomment, hstart, hfinish⟩

theorem valid_fixed {s : String} (hcomment : IsComment s.toList) (hbreak : '\n' ∉ s.toList) :
    (fixed s).Valid :=
  ⟨hcomment, hbreak, List.not_mem_nil⟩

end Phrase

namespace Manifest

/-- How to follow the logs of one gather container. -/
def logsPhrase (namespaceName container : String) : Phrase where
  start := "# kubectl logs -f -n "
  text := namespaceName
  finish := " <pod-name> -c " ++ container

/-- What comes after the directory that is written to. -/
def writtenFinish : String :=
  ", " ++ s!"the {waitName} container exposes the same volume at {waitPath}"

/-- What comes after the namespace in the command that copies the results. -/
def copyFinish : String := s!" <pod-name>:{waitPath} {resultsDir} -c {waitName}"

/-- The lines that say how to use a plan. -/
def usePhrases (m : Manifest) (h : Handling) : List Phrase :=
  [.fixed (s!"# Save the following content to a file (e.g., {planFile}) "
      ++ s!"and apply it with 'kubectl create -f {planFile}'"),
    .fixed "# Monitor the pod's logs to see when the must-gather process is complete:"]
    ++ m.gatherNames.map (logsPhrase m.namespaceName)
    ++ [⟨"# The gather containers write to ", h.sourceDir, writtenFinish⟩,
      .fixed "# Once the logs indicate completion, copy the results with:",
      ⟨"# kubectl cp -n ", m.namespaceName, copyFinish⟩]

/-- The lines that say how to delete the resources. -/
def cleanupPhrases (m : Manifest) : List Phrase :=
  [.fixed "# Finally, clean up the resources with:",
    ⟨"# kubectl delete ns ", m.namespaceName, ""⟩,
    ⟨"# kubectl delete clusterrolebinding ", m.roleBinding.name, ""⟩]

/-- The lines of the instructions. -/
def phrases (m : Manifest) (h : Handling) : List Phrase :=
  m.usePhrases h ++ if h.keepNamespace then [] else m.cleanupPhrases

theorem cleanupLines_eq (m : Manifest) :
    m.cleanupLines = m.cleanupPhrases.map Phrase.line := by
  have htoString : ∀ s : String, toString s = s := fun _ => rfl
  simp only [cleanupLines, cleanupPhrases, List.map_cons, List.map_nil, Phrase.line_fixed,
    Phrase.line_mk, htoString, String.append_empty]

theorem instructionLines_eq (m : Manifest) (h : Handling) :
    m.instructionLines h = (m.phrases h).map Phrase.line := by
  have htoString : ∀ s : String, toString s = s := fun _ => rfl
  have hlogs : m.gatherNames.map (logsLine m.namespaceName)
      = (m.gatherNames.map (logsPhrase m.namespaceName)).map Phrase.line := by
    rw [List.map_map]
    apply List.map_congr_left
    intro name _
    exact String.append_assoc
  have hcleanup : (if h.keepNamespace then [] else m.cleanupLines)
      = (if h.keepNamespace then [] else m.cleanupPhrases).map Phrase.line := by
    rw [cleanupLines_eq]
    split <;> rfl
  rw [instructionLines, hcleanup, phrases, List.map_append, hlogs]
  congr 1
  simp only [usePhrases, List.map_append, List.map_cons, List.map_nil, Phrase.line_fixed,
    Phrase.line_mk]
  unfold writtenFinish copyFinish
  simp only [htoString, String.append_assoc]

theorem valid_logsPhrase (namespaceName : String) {container : String}
    (h : '\n' ∉ container.toList) : (logsPhrase namespaceName container).Valid := by
  refine Phrase.valid_mk _ (by decide) (by decide) ?_
  rw [String.toList_append, List.mem_append]
  rintro (hmem | hmem)
  · exact absurd hmem (by decide)
  · exact h hmem

/-- What is fixed of the instructions makes a comment of every line. -/
theorem valid_phrases {m : Manifest} (h : Handling)
    (hnames : ∀ name ∈ m.gatherNames, '\n' ∉ name.toList) : ∀ p ∈ m.phrases h, p.Valid := by
  unfold phrases usePhrases cleanupPhrases
  simp only [List.forall_mem_append, List.forall_mem_cons, List.forall_mem_map]
  refine ⟨⟨⟨⟨?save, ?monitor, nofun⟩, ?logs⟩, ?written, ?done, ?copy, nofun⟩, ?cleanup⟩
  case save => exact Phrase.valid_fixed (by decide +kernel) (by decide +kernel)
  case monitor => exact Phrase.valid_fixed (by decide +kernel) (by decide +kernel)
  case logs => exact fun name hname => valid_logsPhrase _ (hnames name hname)
  case written => exact Phrase.valid_mk _ (by decide) (by decide) (by decide +kernel)
  case done => exact Phrase.valid_fixed (by decide) (by decide +kernel)
  case copy => exact Phrase.valid_mk _ (by decide) (by decide) (by decide +kernel)
  case cleanup =>
    split
    · exact nofun
    · simp only [List.forall_mem_cons]
      exact ⟨Phrase.valid_fixed (by decide) (by decide),
        Phrase.valid_mk _ (by decide) (by decide) (by decide),
        Phrase.valid_mk _ (by decide) (by decide) (by decide), nofun⟩

/-! ### Names of containers -/

theorem not_mem_toString {d : Char} (hd : d.isDigit = false) (n : Nat) :
    d ∉ (toString n).toList := by
  rw [Nat.toString_eq_ofList_toDigits, String.toList_ofList]
  intro h
  rw [Nat.isDigit_of_mem_toDigits (by decide) (by decide) h] at hd
  exact absurd hd (by decide)

/-- The names of gather containers have digits, and else only the characters they all have. -/
theorem not_mem_gatherName {d : Char} (hd : d.isDigit = false) (hstart : d ∉ "gather-".toList)
    (i : Nat) : d ∉ (gatherName i).toList := by
  unfold gatherName
  split
  · exact fun h => hstart (List.mem_append_left ['-'] h)
  · rw [String.toList_append, List.mem_append, not_or]
    exact ⟨hstart, not_mem_toString hd i⟩

/-- The gather containers of a plan have the names of gather containers. -/
theorem eq_gatherName_of_mem_gatherNames {c : Config} {found : Bool} {name : String}
    (h : name ∈ (forCluster c found).gatherNames) : ∃ i, name = gatherName i := by
  rw [gatherNames, pod_forCluster, List.mem_filter, podOfConfig, List.map_append,
    List.mem_append] at h
  obtain ⟨hname | hname, hwait⟩ := h
  · obtain ⟨container, hcontainer, rfl⟩ := List.mem_map.1 hname
    obtain ⟨i, -, rfl⟩ := List.mem_mapIdx.1 hcontainer
    exact ⟨i, rfl⟩
  · obtain rfl := List.mem_singleton.1 hname
    exact absurd hwait (by decide)

theorem not_mem_gatherNames {d : Char} (hd : d.isDigit = false) (hstart : d ∉ "gather-".toList)
    (c : Config) (found : Bool) : ∀ name ∈ (forCluster c found).gatherNames, d ∉ name.toList := by
  intro name hname
  obtain ⟨i, rfl⟩ := eq_gatherName_of_mem_gatherNames hname
  exact not_mem_gatherName hd hstart i

/-- The names of the gather containers of a plan are on one line. -/
theorem newline_not_mem_gatherNames (c : Config) (found : Bool) :
    ∀ name ∈ (forCluster c found).gatherNames, '\n' ∉ name.toList :=
  not_mem_gatherNames (by decide) (by decide) c found

end Manifest

end BundlePlan
