import BundlePlan.Proofs.Manifest.Header
import BundlePlan.Proofs.Yaml.Lines

/-!
# Characters of plans

The documents of a plan are printable ASCII whatever texts are in them, and so is everything that
is fixed in the header. Any other character of a plan comes from the namespace or the directory as
they stand in the header.
-/

namespace BundlePlan

open Yaml (isReadable)

/-- All characters of a text are printable ASCII or line feeds. -/
def IsReadable (s : List Char) : Prop := ∀ c ∈ s, isReadable c = true

theorem isReadable_of_all {s : List Char} (h : s.all isReadable = true) : IsReadable s :=
  List.all_eq_true.1 h

theorem IsReadable.append {s t : List Char} (hs : IsReadable s) (ht : IsReadable t) :
    IsReadable (s ++ t) := by
  intro c hc
  rcases List.mem_append.1 hc with hc | hc
  · exact hs c hc
  · exact ht c hc

/-- Every document is readable. -/
theorem isReadable_document (v : Value) : IsReadable (Yaml.document v).toList := by
  rw [Yaml.document, String.toList_ofList, Yaml.documentText_eq]
  refine (IsReadable.append (Yaml.isReadable_bodyText _) ?_).append (isReadable_of_all rfl)
  split
  · exact isReadable_of_all rfl
  · exact isReadable_of_all rfl

namespace Phrase

/-- What is fixed of the line is readable. -/
def Readable (p : Phrase) : Prop := IsReadable p.start.toList ∧ IsReadable p.finish.toList

theorem readable_of_all {start finish : String} (text : String)
    (hstart : start.toList.all isReadable = true) (hfinish : finish.toList.all isReadable = true) :
    Readable ⟨start, text, finish⟩ :=
  ⟨isReadable_of_all hstart, isReadable_of_all hfinish⟩

theorem readable_fixed {s : String} (h : s.toList.all isReadable = true) : (fixed s).Readable :=
  readable_of_all "" h rfl

/-- A line has no other characters than readable ones and those of its text. -/
theorem Readable.forall_mem_line {p : Phrase} (h : p.Readable) {P : Char → Prop}
    (hP : ∀ c, isReadable c = true → P c) (htext : ∀ c ∈ p.text.toList, P c) :
    ∀ c ∈ p.line.toList, P c := by
  rw [line, String.toList_append, String.toList_append]
  simp only [List.forall_mem_append]
  exact ⟨⟨fun c hc => hP c (h.1 c hc), htext⟩, fun c hc => hP c (h.2 c hc)⟩

end Phrase

namespace Manifest

theorem isReadable_toString (n : Nat) : IsReadable (toString n).toList := by
  rw [Nat.toString_eq_ofList_toDigits, String.toList_ofList]
  intro c hc
  have hdigit : c.isDigit = true :=
    Nat.isDigit_of_mem_toDigits (b := 10) (by decide) (by decide) hc
  exact Bool.or_eq_true_iff.2 (Or.inr (Yaml.isPlainAscii_of_isDigit hdigit).1)

theorem isReadable_gatherName (i : Nat) : IsReadable (gatherName i).toList := by
  unfold gatherName
  split
  · exact isReadable_of_all (by decide)
  · rw [String.toList_append]
    exact (isReadable_of_all (by decide)).append (isReadable_toString i)

/-- The instructions have a text of the request, or nothing, between readable characters. -/
theorem forall_mem_phrases (c : Config) (found : Bool) (h : Handling) :
    ∀ p ∈ (forCluster c found).phrases h, p.Readable ∧
      p.text ∈ ["", c.namespaceName, h.sourceDir, roleBindingName c.namespaceName] := by
  unfold phrases usePhrases cleanupPhrases
  simp only [List.forall_mem_append, List.forall_mem_cons, List.forall_mem_map,
    namespaceName_forCluster, roleBinding_forCluster]
  refine ⟨⟨⟨⟨?save, ?monitor, nofun⟩, ?logs⟩, ?written, ?done, ?copy, nofun⟩, ?cleanup⟩
  case save => exact ⟨Phrase.readable_fixed (by decide +kernel), by simp [Phrase.fixed]⟩
  case monitor => exact ⟨Phrase.readable_fixed (by decide +kernel), by simp [Phrase.fixed]⟩
  case logs =>
    intro name hname
    obtain ⟨i, rfl⟩ := eq_gatherName_of_mem_gatherNames hname
    have hstart : IsReadable "# kubectl logs -f -n ".toList := isReadable_of_all (by decide)
    refine ⟨⟨hstart, ?_⟩, by simp [logsPhrase]⟩
    rw [logsPhrase, String.toList_append]
    exact (isReadable_of_all (by decide)).append (isReadable_gatherName i)
  case written =>
    exact ⟨Phrase.readable_of_all _ (by decide +kernel) (by decide +kernel), by simp⟩
  case done => exact ⟨Phrase.readable_fixed (by decide +kernel), by simp [Phrase.fixed]⟩
  case copy => exact ⟨Phrase.readable_of_all _ (by decide) (by decide +kernel), by simp⟩
  case cleanup =>
    split
    · exact nofun
    · simp only [List.forall_mem_cons]
      exact ⟨⟨Phrase.readable_fixed (by decide +kernel), by simp [Phrase.fixed]⟩,
        ⟨Phrase.readable_of_all _ (by decide) (by decide), by simp⟩,
        ⟨Phrase.readable_of_all _ (by decide +kernel) (by decide), by simp⟩, nofun⟩

section

variable {P : Char → Prop} {c : Config} {h : Handling}

/-- A character of the instructions that is not readable comes from the namespace or the
directory. -/
theorem forall_mem_instructions (found : Bool) (hP : ∀ ch, isReadable ch = true → P ch)
    (hns : ∀ ch ∈ c.namespaceName.toList, P ch) (hdir : ∀ ch ∈ h.sourceDir.toList, P ch) :
    ∀ ch ∈ ((forCluster c found).instructions h).toList, P ch := by
  have hbinding : ∀ ch ∈ (roleBindingName c.namespaceName).toList, P ch := by
    have hstart : IsReadable "must-gather-collector-".toList := isReadable_of_all (by decide)
    rw [show (roleBindingName c.namespaceName).toList
      = "must-gather-collector-".toList ++ c.namespaceName.toList from String.toList_append]
    simp only [List.forall_mem_append]
    exact ⟨fun ch hch => hP ch (hstart ch hch), hns⟩
  intro ch hch
  rw [instructions, instructionLines_eq, String.toList_join] at hch
  simp only [List.map_map, List.flatMap_map, List.mem_flatMap, Function.comp_apply,
    String.toList_append, List.mem_append] at hch
  obtain ⟨p, hp, hline | hbreak⟩ := hch
  · obtain ⟨hreadable, htext⟩ := forall_mem_phrases c found h p hp
    refine hreadable.forall_mem_line hP ?_ ch hline
    simp only [List.mem_cons, List.not_mem_nil, or_false] at htext
    rcases htext with htext | htext | htext | htext
    · simp [htext]
    · rwa [htext]
    · rwa [htext]
    · rwa [htext]
  · exact hP ch (isReadable_of_all rfl ch hbreak)

theorem isReadable_fenced (documents : List (String × Value)) :
    IsReadable (fenced (Serializer.documentTexts documents)).toList := by
  have hdocuments : ∀ texts : List String, (∀ t ∈ texts, IsReadable t.toList) →
      IsReadable (String.join (texts.map (documentMark ++ ·))).toList := by
    intro texts htexts ch hch
    simp only [String.toList_join, List.flatMap_map, List.mem_flatMap, String.toList_append] at hch
    obtain ⟨t, ht, hch⟩ := hch
    exact (isReadable_of_all (by decide)).append (htexts t ht) ch hch
  have htexts : ∀ t ∈ Serializer.documentTexts documents, IsReadable t.toList := by
    intro t ht
    obtain ⟨d, -, rfl⟩ := List.mem_map.1 ht
    exact isReadable_document d.2
  have hopen : IsReadable fenceOpen.toList := isReadable_of_all (by decide)
  have hclose : IsReadable fenceClose.toList := isReadable_of_all (by decide)
  rw [fenced, String.toList_append, String.toList_append]
  exact (hopen.append (hdocuments _ htexts)).append hclose

/-- A character of a plan that is not readable comes from the namespace or the directory. -/
theorem forall_mem_content (found : Bool) (hP : ∀ ch, isReadable ch = true → P ch)
    (hns : ∀ ch ∈ c.namespaceName.toList, P ch) (hdir : ∀ ch ∈ h.sourceDir.toList, P ch) :
    ∀ ch ∈ ((forCluster c found).content h).toList, P ch := by
  rw [content, String.toList_append, String.toList_append]
  simp only [List.forall_mem_append]
  refine ⟨⟨forall_mem_instructions found hP hns hdir, ?_⟩, ?_⟩
  · exact fun ch hch => hP ch (isReadable_of_all (s := ['\n']) rfl ch (by simpa using hch))
  · exact fun ch hch => hP ch (isReadable_fenced _ ch hch)

end

/-- The text of a line stands in the instructions as it is. -/
theorem text_part_of_instructions {m : Manifest} {h : Handling} {p : Phrase}
    (hp : p ∈ m.phrases h) : p.text.toList <:+: (m.instructions h).toList := by
  have hline : p.text.toList <:+: (p.line ++ "\n").toList := by
    rw [Phrase.line, String.toList_append, String.toList_append, String.toList_append]
    exact (List.infix_append _ _ _).trans (List.prefix_append _ _).isInfix
  have hmem : (p.line ++ "\n").toList
      ∈ (((m.phrases h).map Phrase.line).map (· ++ "\n")).map String.toList :=
    List.mem_map_of_mem (List.mem_map_of_mem (List.mem_map_of_mem hp))
  rw [instructions, instructionLines_eq, String.toList_join, List.flatMap_def]
  exact hline.trans (List.infix_of_mem_flatten hmem)

/-- The namespace stands in a plan as it is. -/
theorem namespaceName_part_of_content (c : Config) (found : Bool) (h : Handling) :
    c.namespaceName.toList <:+: ((forCluster c found).content h).toList := by
  have hcopy : ⟨"# kubectl cp -n ", (forCluster c found).namespaceName, copyFinish⟩
      ∈ (forCluster c found).phrases h := by
    simp [phrases, usePhrases]
  have hinstructions := text_part_of_instructions hcopy
  rw [namespaceName_forCluster] at hinstructions
  rw [content, String.toList_append, String.toList_append]
  exact (hinstructions.trans (List.prefix_append _ _).isInfix).trans
    (List.prefix_append _ _).isInfix

end Manifest

end BundlePlan
