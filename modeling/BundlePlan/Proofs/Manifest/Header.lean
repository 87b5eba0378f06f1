import BundlePlan.Proofs.Manifest.Phrases

/-!
# The header of plans

The header of a plan consists of comments as long as the texts in it do not leave them: every line
break in the namespace or in the directory has to be followed by the start of a comment. Neither
is checked, so that a request can put lines of its own between the comments.
-/

namespace BundlePlan

open Text (AfterBreaks pieces)
open PlanText (IsComment lines)

namespace Manifest

/-- The lines of the instructions, and the empty one after the last line break. -/
theorem lines_instructions (m : Manifest) (h : Handling) :
    lines (m.instructions h)
      = (m.phrases h).flatMap (fun p => pieces '\n' p.line.toList) ++ [[]] := by
  have htext : (m.instructions h).toList
      = ((m.phrases h).map fun p => p.line.toList).flatMap (· ++ ['\n']) ++ [] := by
    rw [instructions, instructionLines_eq, String.toList_join, List.append_nil, List.flatMap_map,
      List.flatMap_map, List.flatMap_map]
    simp only [String.toList_append]
    rfl
  rw [lines, htext, Text.pieces_flatMap, List.flatMap_map]
  rfl

/-- Every line break in the text of a phrase is followed by the start of a comment. -/
def Stays (p : Phrase) : Prop := AfterBreaks IsComment (p.text.toList ++ p.finish.toList)

theorem stays_fixed (s : String) : Stays (.fixed s) := trivial

/-- A phrase makes comments only if its text stays in them. -/
theorem isComment_phrase_iff {p : Phrase} (hp : p.Valid) :
    (∀ line ∈ pieces '\n' p.line.toList, IsComment line) ↔ Stays p := by
  -- the first line is a comment by the start of the phrase
  rw [Stays, ← hp.afterBreaks_line]
  have hlines := AfterBreaks.forall_prefix_iff (w := ['#', ' ']) (by decide) p.line.toList
  exact hlines.trans (and_iff_right hp.isComment_line)

/-- What comes after a text counts by its first character at most. -/
theorem isComment_append_iff {d : Char} (hd : d ≠ '#') (b b' s : List Char) :
    IsComment (s ++ d :: b) ↔ IsComment (s ++ d :: b') := by
  match s with
  | [] => simp [IsComment, hd.symm]
  | [c] => simp [IsComment]
  | c :: c' :: s => simp [IsComment]

theorem isComment_append_iff_self {d : Char} (hd : d ≠ '#') (hspace : d ≠ ' ') (b s : List Char) :
    IsComment (s ++ d :: b) ↔ IsComment s := by
  match s with
  | [] => simp [IsComment, hd.symm]
  | [c] => simp [IsComment, hspace.symm]
  | c :: c' :: s => simp [IsComment]

/-- A text before a space stays in comments. -/
theorem afterBreaks_space {f : List Char} (hhead : f.head? = some ' ') (hf : '\n' ∉ f)
    (s : List Char) : AfterBreaks IsComment (s ++ f) ↔ AfterBreaks IsComment (s ++ [' ']) := by
  cases f with
  | nil => exact absurd hhead (by decide)
  | cons d b =>
    obtain rfl : d = ' ' := Option.some.inj hhead
    exact AfterBreaks.append_congr hf (by decide) (isComment_append_iff (by decide) b []) s

/-- A text before a comma stays in comments. -/
theorem afterBreaks_comma {f : List Char} (hhead : f.head? = some ',') (hf : '\n' ∉ f)
    (s : List Char) : AfterBreaks IsComment (s ++ f) ↔ AfterBreaks IsComment s := by
  cases f with
  | nil => exact absurd hhead (by decide)
  | cons d b =>
    obtain rfl : d = ',' := Option.some.inj hhead
    have hself : ∀ s, IsComment (s ++ ',' :: b) ↔ IsComment (s ++ []) := fun s => by
      rw [List.append_nil]
      exact isComment_append_iff_self (by decide) (by decide) b s
    have h := AfterBreaks.append_congr hf List.not_mem_nil hself s
    rwa [List.append_nil] at h

theorem isComment_append {s : List Char} (t : List Char) (h : IsComment s) : IsComment (s ++ t) :=
  h.trans (List.prefix_append s t)

/-- The name of the binding ends with the namespace. -/
theorem toList_roleBindingName (namespaceName : String) : ∃ start : List Char, '\n' ∉ start ∧
    (roleBindingName namespaceName).toList = start ++ namespaceName.toList :=
  ⟨"must-gather-collector-".toList, by decide, String.toList_append⟩

theorem afterBreaks_roleBindingName (namespaceName : String) :
    AfterBreaks IsComment (roleBindingName namespaceName).toList
      ↔ AfterBreaks IsComment namespaceName.toList := by
  obtain ⟨start, hstart, htext⟩ := toList_roleBindingName namespaceName
  rw [htext]
  exact AfterBreaks.append_iff_right hstart

/-- Every line break in the texts of the header is followed by the start of a comment. Where the
resources are deleted, the namespace ends a line; elsewhere a space comes after it. -/
def StaysComment (namespaceName : String) (h : Handling) : Prop :=
  AfterBreaks IsComment h.sourceDir.toList ∧
    AfterBreaks IsComment (namespaceName.toList ++ if h.keepNamespace then [' '] else [])

theorem staysComment_of_not_mem {namespaceName : String} {h : Handling}
    (hns : '\n' ∉ namespaceName.toList) (hdir : '\n' ∉ h.sourceDir.toList) :
    StaysComment namespaceName h := by
  refine ⟨AfterBreaks.of_not_mem hdir, AfterBreaks.of_not_mem ?_⟩
  cases h.keepNamespace <;> simpa using hns

/-- How to use a plan stays a comment if the directory does, and the namespace with a space after
it. -/
theorem stays_usePhrases_iff {m : Manifest} (h : Handling)
    (hnames : ∀ name ∈ m.gatherNames, '\n' ∉ name.toList) :
    (∀ p ∈ m.usePhrases h, Stays p)
      ↔ AfterBreaks IsComment h.sourceDir.toList ∧
        AfterBreaks IsComment (m.namespaceName.toList ++ [' ']) := by
  have hlogs : ∀ name ∈ m.gatherNames, (Stays (logsPhrase m.namespaceName name)
      ↔ AfterBreaks IsComment (m.namespaceName.toList ++ [' '])) := by
    intro name hname
    have hhead : (logsPhrase m.namespaceName name).finish.toList.head? = some ' ' := by
      rw [logsPhrase, String.toList_append]
      rfl
    exact afterBreaks_space hhead (valid_logsPhrase m.namespaceName (hnames name hname)).finish _
  have hcomma : writtenFinish.toList.head? = some ',' ∧ '\n' ∉ writtenFinish.toList := by
    decide +kernel
  have hspace : copyFinish.toList.head? = some ' ' ∧ '\n' ∉ copyFinish.toList := by
    decide +kernel
  have hwritten : ∀ start, Stays ⟨start, h.sourceDir, writtenFinish⟩
      ↔ AfterBreaks IsComment h.sourceDir.toList := fun _ =>
    afterBreaks_comma hcomma.1 hcomma.2 _
  have hcopy : ∀ start, Stays ⟨start, m.namespaceName, copyFinish⟩
      ↔ AfterBreaks IsComment (m.namespaceName.toList ++ [' ']) := fun _ =>
    afterBreaks_space hspace.1 hspace.2 _
  unfold usePhrases
  simp only [List.forall_mem_append, List.forall_mem_cons, List.forall_mem_map, hwritten, hcopy]
  constructor
  · rintro ⟨-, hdir, -, hns, -⟩
    exact ⟨hdir, hns⟩
  · rintro ⟨hdir, hns⟩
    have hlogs' := fun name hname => (hlogs name hname).2 hns
    exact ⟨⟨⟨stays_fixed _, stays_fixed _, nofun⟩, hlogs'⟩, hdir, stays_fixed _, hns, nofun⟩

/-- How to delete the resources stays a comment if the namespace does. -/
theorem stays_cleanupPhrases_iff {m : Manifest}
    (hbinding : m.roleBinding.name = roleBindingName m.namespaceName) :
    (∀ p ∈ m.cleanupPhrases, Stays p) ↔ AfterBreaks IsComment m.namespaceName.toList := by
  have hend : ∀ start text, Stays ⟨start, text, ""⟩ ↔ AfterBreaks IsComment text.toList := by
    intro start text
    rw [Stays, String.toList_empty, List.append_nil]
  unfold cleanupPhrases
  simp only [List.forall_mem_cons, hend, hbinding, afterBreaks_roleBindingName]
  constructor
  · rintro ⟨-, hns, -⟩
    exact hns
  · exact fun hns => ⟨stays_fixed _, hns, hns, nofun⟩

/-- What stands in the namespace and in the directory decides whether all lines are comments. -/
theorem stays_phrases_iff {m : Manifest} (h : Handling)
    (hnames : ∀ name ∈ m.gatherNames, '\n' ∉ name.toList)
    (hbinding : m.roleBinding.name = roleBindingName m.namespaceName) :
    (∀ p ∈ m.phrases h, Stays p) ↔ StaysComment m.namespaceName h := by
  rw [phrases, List.forall_mem_append, stays_usePhrases_iff h hnames, StaysComment, and_assoc]
  refine and_congr_right fun _ => ?_
  cases h.keepNamespace with
  | true => exact and_iff_left (List.forall_mem_nil Stays)
  | false =>
    simp only [Bool.false_eq_true, if_false, List.append_nil, stays_cleanupPhrases_iff hbinding]
    -- a namespace that stays a comment by itself does so before a space as well
    refine and_iff_right_of_imp fun hns => ?_
    exact hns.append (fun _ t ht => isComment_append t ht) (AfterBreaks.of_not_mem (by decide))

theorem namespaceName_forCluster (c : Config) (found : Bool) :
    (forCluster c found).namespaceName = c.namespaceName := by
  cases found <;> rfl

theorem roleBinding_forCluster (c : Config) (found : Bool) :
    (forCluster c found).roleBinding.name = roleBindingName c.namespaceName := by
  cases found <;> rfl

theorem valid_phrases_forCluster (c : Config) (found : Bool) (h : Handling) :
    ∀ p ∈ (forCluster c found).phrases h, p.Valid :=
  valid_phrases h (newline_not_mem_gatherNames c found)

/-- All lines of the instructions are comments exactly if the texts in them stay in comments. -/
theorem isComment_instructions_iff (c : Config) (found : Bool) (h : Handling) :
    (∀ line ∈ (lines ((forCluster c found).instructions h)).dropLast, IsComment line)
      ↔ StaysComment c.namespaceName h := by
  have hvalid := valid_phrases_forCluster c found h
  have hstays := stays_phrases_iff h (newline_not_mem_gatherNames c found)
    ((roleBinding_forCluster c found).trans (by rw [namespaceName_forCluster]))
  rw [namespaceName_forCluster] at hstays
  rw [lines_instructions, List.dropLast_concat, ← hstays]
  simp only [List.mem_flatMap, forall_exists_index, and_imp]
  constructor
  · intro hall p hp
    exact (isComment_phrase_iff (hvalid p hp)).1 fun line hline => hall line p hp hline
  · exact fun hall line p hp hline => (isComment_phrase_iff (hvalid p hp)).2 (hall p hp) line hline

end Manifest

end BundlePlan
