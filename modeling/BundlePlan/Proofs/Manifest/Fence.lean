import BundlePlan.Proofs.Manifest.Header
import BundlePlan.Proofs.Yaml.Lines

/-!
# The fence of plans

The documents of a plan are found from its lines alone. No line of a document is one of the lines
that make the fence, whatever texts are in it, so that only the header could hold one; there the
namespace and the directory have to be on one line each.
-/

namespace BundlePlan

open Text (pieces)
open PlanText (IsComment closeLine documentTexts? fencedLines? header lines markLine openLine
  unlines)

namespace Yaml

/-! ### Lines of documents -/

/-- The lines of a document. -/
def documentLines (v : Value) : List (List Char) := pieces '\n' (documentText v.sortKeys)

theorem unlines_documentLines (v : Value) : unlines (documentLines v) = document v := by
  rw [unlines, documentLines, Text.pieces_flatMap_append]
  rfl

theorem lines_document (v : Value) : lines (document v) = documentLines v ++ [[]] := by
  rw [lines, document, String.toList_ofList, Text.pieces_append_cons]
  rfl

theorem newline_not_mem_documentLines (v : Value) : ∀ line ∈ documentLines v, '\n' ∉ line :=
  fun _ hline => Text.not_mem_of_mem_pieces hline

/-- A line of a document is one of its body, or the three dots after it. -/
theorem mem_documentLines {v : Value} {line : List Char} (h : line ∈ documentLines v) :
    line ∈ pieces '\n' (bodyText v.sortKeys) ∨ line = ['.', '.', '.'] := by
  have hlines := pieces_documentText v.sortKeys
  rw [Text.pieces_append_cons, Text.pieces_nil] at hlines
  have hsplit : documentLines v = pieces '\n' (bodyText v.sortKeys)
      ++ if isOpen v.sortKeys then [['.', '.', '.']] else [] := by
    -- both sides are compared with the empty line after the last line break
    refine List.append_cancel_right (?_ : _ ++ [[]] = _ ++ [[]])
    rw [documentLines, hlines]
    cases isOpen v.sortKeys <;> simp
  rw [hsplit, List.mem_append] at h
  refine h.imp_right fun h => ?_
  split at h
  · exact List.mem_singleton.1 h
  · exact absurd h List.not_mem_nil

/-- No line of a document starts like a line of the fence. -/
theorem fence_not_prefix_of_mem {v : Value} {line : List Char} (h : line ∈ documentLines v) :
    ¬markLine <+: line ∧ ¬closeLine <+: line := by
  rcases mem_documentLines h with h | rfl
  · have hmarker := marker_not_prefix_of_mem_pieces v.sortKeys line h
    exact ⟨hmarker markLine (by decide), hmarker closeLine (by decide)⟩
  · decide

end Yaml

namespace PlanText

/-! ### Documents between the lines of the fence -/

/-- Documents with a mark before each are cut at the marks. -/
theorem splitOn_append_flatMap {α : Type} [BEq α] [LawfulBEq α] {mark : α} {first : List α}
    {documents : List (List α)} (hfirst : mark ∉ first) (h : ∀ d ∈ documents, mark ∉ d) :
    (first ++ documents.flatMap (mark :: ·)).splitOn mark = first :: documents := by
  induction documents generalizing first with
  | nil =>
    rw [List.flatMap_nil, List.append_nil]
    exact List.splitOn_eq_singleton hfirst
  | cons d documents ih =>
    rw [List.flatMap_cons, List.cons_append, List.splitOn_append_cons_self_of_not_mem hfirst,
      ih (h d List.mem_cons_self) fun d' hd' => h d' (List.mem_cons_of_mem d hd')]

/-- The lines of documents in a fence. -/
theorem lines_fenced {documents : List (List (List Char))}
    (h : ∀ d ∈ documents, ∀ line ∈ d, '\n' ∉ line) :
    lines (Manifest.fenced (documents.map unlines))
      = openLine :: documents.flatMap (markLine :: ·) ++ [closeLine] := by
  have hjoin : (String.join ((documents.map unlines).map (Manifest.documentMark ++ ·))).toList
      = (documents.flatMap (markLine :: ·)).flatMap (· ++ ['\n']) := by
    rw [String.toList_join, List.flatMap_assoc, List.map_map, List.flatMap_map]
    congr 1
    funext d
    rw [Function.comp_apply, String.toList_append, unlines, String.toList_ofList, List.flatMap_cons]
    rfl
  have htext : (Manifest.fenced (documents.map unlines)).toList
      = (openLine :: documents.flatMap (markLine :: ·)).flatMap (· ++ ['\n']) ++ closeLine := by
    rw [Manifest.fenced, String.toList_append, String.toList_append, hjoin, List.flatMap_cons]
    rfl
  -- the text is put together from whole lines, which are found again
  have hlines : ∀ line ∈ openLine :: documents.flatMap (markLine :: ·), '\n' ∉ line := by
    rw [List.forall_mem_cons]
    refine ⟨by decide, fun line hline => ?_⟩
    obtain ⟨d, hd, hline⟩ := List.mem_flatMap.1 hline
    rcases List.mem_cons.1 hline with rfl | hline
    · decide
    · exact h d hd line hline
  rw [lines, htext, Text.pieces_flatMap, Text.flatMap_pieces_of_not_mem hlines]
  rfl

/-- The lines of a text are comments, an empty line, and documents between the lines of a fence
that is in none of them. -/
structure Layout (t : String) (comments : List (List Char)) (documents : List (List (List Char))) :
    Prop where
  lines_eq : lines t
    = (comments ++ [[]]) ++ openLine :: (documents.flatMap (markLine :: ·) ++ [closeLine])
  comments : ∀ line ∈ comments, IsComment line
  documents : ∀ d ∈ documents, ∀ line ∈ d, ¬markLine <+: line ∧ ¬closeLine <+: line

namespace Layout

variable {t : String} {comments : List (List Char)} {documents : List (List (List Char))}

/-- A line that is no comment and not empty is not before the fence. -/
theorem not_mem_before (h : Layout t comments documents) {line : List Char}
    (hcomment : ¬IsComment line) (hempty : line ≠ []) : line ∉ comments ++ [[]] := by
  rw [List.mem_append, List.mem_singleton]
  rintro (hline | hline)
  · exact hcomment (h.comments line hline)
  · exact hempty hline

/-- A line that starts like the end of the fence is not in it. -/
theorem not_mem_inside (h : Layout t comments documents) {line : List Char}
    (hclose : closeLine <+: line) (hmark : line ≠ markLine) :
    line ∉ documents.flatMap (markLine :: ·) := by
  intro hline
  obtain ⟨d, hd, hline⟩ := List.mem_flatMap.1 hline
  rcases List.mem_cons.1 hline with heq | hline
  · exact hmark heq
  · exact (h.documents d hd line hline).2 hclose

/-- A line that starts like the end of the fence is there as one of the two that make the fence. -/
theorem count_line (h : Layout t comments documents) (line : List Char) (hcomment : ¬IsComment line)
    (hclose : closeLine <+: line) (hmark : line ≠ markLine) :
    (lines t).count line = [openLine, closeLine].count line := by
  have hempty : line ≠ [] := by
    rintro rfl
    exact absurd hclose (by decide)
  have hbefore := h.not_mem_before hcomment hempty
  have hinside := h.not_mem_inside hclose hmark
  rw [h.lines_eq]
  generalize comments ++ [[]] = before at hbefore ⊢
  rw [List.count_append, List.count_eq_zero.2 hbefore, Nat.zero_add, List.count_cons,
    List.count_append, List.count_eq_zero.2 hinside, Nat.zero_add]
  exact List.count_cons.symm

theorem getLast?_lines (h : Layout t comments documents) : (lines t).getLast? = some closeLine := by
  rw [h.lines_eq, ← List.cons_append, ← List.append_assoc, List.getLast?_concat]

theorem fencedLines?_eq (h : Layout t comments documents) :
    fencedLines? t = some (documents.flatMap (markLine :: ·)) := by
  have hbefore : ∀ line ∈ comments ++ [[]], (line != openLine) = true := fun line hline =>
    bne_iff_ne.2 fun heq => h.not_mem_before (by decide) (by decide) (heq ▸ hline)
  rw [fencedLines?, h.lines_eq, List.dropWhile_append_of_pos hbefore, List.dropWhile_cons,
    bne_self_eq_false]
  simp only [Bool.false_eq_true, if_false, List.getLast?_concat, if_true, List.dropLast_concat]

/-- The documents are found again. -/
theorem documentTexts?_eq (h : Layout t comments documents) :
    documentTexts? t = some (documents.map unlines) := by
  have hmark : ∀ d ∈ documents, markLine ∉ d := fun d hd hline =>
    (h.documents d hd markLine hline).1 (List.prefix_refl _)
  have hcut := splitOn_append_flatMap List.not_mem_nil hmark
  rw [List.nil_append] at hcut
  rw [documentTexts?, h.fencedLines?_eq, Option.map_some, hcut]

/-- The comments are found again. -/
theorem header_eq (h : Layout t comments documents) : header t = comments := by
  have hcomments : ∀ line ∈ comments, (line != []) = true := fun line hline =>
    bne_iff_ne.2 fun heq => absurd (heq ▸ h.comments line hline) (by decide)
  rw [header, h.lines_eq, List.append_assoc, List.takeWhile_append_of_pos hcomments,
    List.singleton_append, List.takeWhile_cons, bne_self_eq_false, if_neg Bool.false_ne_true,
    List.append_nil]

end Layout

end PlanText

namespace Manifest

open PlanText (Layout)

/-! ### Plans -/

/-- The lines of the instructions for the resources of a configuration. -/
def commentLines (c : Config) (found : Bool) (h : Handling) : List (List Char) :=
  ((forCluster c found).phrases h).flatMap (pieces '\n' ·.line.toList)

theorem documentTexts_eq (documents : List (String × Value)) :
    Serializer.documentTexts documents
      = (documents.map fun d => Yaml.documentLines d.2).map unlines := by
  rw [Serializer.documentTexts, List.map_map]
  exact List.map_congr_left fun d _ => (Yaml.unlines_documentLines d.2).symm

/-- The lines of a plan whose namespace and directory are on one line each. -/
theorem layout_content {c : Config} (found : Bool) {h : Handling}
    (hns : '\n' ∉ c.namespaceName.toList) (hdir : '\n' ∉ h.sourceDir.toList) :
    Layout ((forCluster c found).content h) (commentLines c found h)
      ((forCluster c found).documents.map fun d => Yaml.documentLines d.2) where
  lines_eq := by
    have hbreaks : ∀ d ∈ (forCluster c found).documents.map fun d => Yaml.documentLines d.2,
        ∀ line ∈ d, '\n' ∉ line := by
      rw [List.forall_mem_map]
      exact fun d _ => Yaml.newline_not_mem_documentLines d.2
    have hfenced := PlanText.lines_fenced hbreaks
    have hinstructions := lines_instructions (forCluster c found) h
    rw [lines] at hfenced hinstructions
    have htext : ((forCluster c found).content h).toList
        = ((forCluster c found).instructions h).toList
          ++ '\n' :: (fenced (Serializer.documentTexts (forCluster c found).documents)).toList := by
      rw [content, String.toList_append, String.toList_append, List.append_assoc]
      rfl
    rw [lines, htext, Text.pieces_append_cons, hinstructions, documentTexts_eq, hfenced]
    rfl
  comments := by
    have hcomments := (isComment_instructions_iff c found h).2 (staysComment_of_not_mem hns hdir)
    rwa [lines_instructions, List.dropLast_concat] at hcomments
  documents := by
    rw [List.forall_mem_map]
    exact fun d _ line hline => Yaml.fence_not_prefix_of_mem hline

/-- The documents of a plan are those of the namespace, unless it was found, of the account, of the
binding and of the pod. -/
theorem map_unlines_documents (c : Config) (found : Bool) :
    ((forCluster c found).documents.map fun d => Yaml.documentLines d.2).map unlines
      = ((if found then [] else [NamespaceResource.toValue ⟨c.namespaceName⟩])
          ++ [(ofConfig c).serviceAccount.toValue, (ofConfig c).roleBinding.toValue,
            (ofConfig c).pod.toValue]).map Yaml.document := by
  rw [← documentTexts_eq]
  cases found <;> rfl

/-- No line of any document is a line of the fence. So the fence and the documents in it are found
in the text of a plan, whatever texts the request puts in the documents. -/
theorem documents_found_in_text :
    (∀ v, ∀ line ∈ lines (Yaml.document v), ¬markLine <+: line ∧ ¬closeLine <+: line) ∧
    ∀ (c : Config) (found : Bool) (h : Handling), '\n' ∉ c.namespaceName.toList →
      '\n' ∉ h.sourceDir.toList → ∀ s : Serializer,
        (s.fault = none → ∃ t, ((forCluster c found).text h s).1 = .ok t) ∧
        ∀ t, ((forCluster c found).text h s).1 = .ok t →
          (lines t).count openLine = 1 ∧ (lines t).getLast? = some closeLine ∧
          (lines t).count closeLine = 1 ∧
          documentTexts? t = some (((if found then [] else
              [NamespaceResource.toValue ⟨c.namespaceName⟩])
            ++ [(ofConfig c).serviceAccount.toValue, (ofConfig c).roleBinding.toValue,
              (ofConfig c).pod.toValue]).map Yaml.document) := by
  refine ⟨fun v line hline => ?_, fun c found h hns hdir s => ⟨fun hs => ?_, fun t ht => ?_⟩⟩
  · rw [Yaml.lines_document, List.mem_append, List.mem_singleton] at hline
    rcases hline with hline | rfl
    · exact Yaml.fence_not_prefix_of_mem hline
    · decide
  · exact ⟨_, text_of_no_fault _ h hs⟩
  · obtain rfl := text_eq_ok ht
    have hlayout := layout_content found hns hdir
    have hopen := hlayout.count_line openLine (by decide) (by decide) (by decide)
    have hclose := hlayout.count_line closeLine (by decide) (by decide) (by decide)
    refine ⟨hopen, hlayout.getLast?_lines, hclose, ?_⟩
    rw [hlayout.documentTexts?_eq, map_unlines_documents]

/-- A plan for an image whose name looks like a fence. -/
theorem documents_found_in_text_of_fence :
    ∃ t, ((forCluster { namespaceName := "a", images := ["---\n\x60\x60\x60"] } true).text
        ⟨false, "/must-gather"⟩ {}).1 = .ok t ∧
      (lines t).count closeLine = 1 ∧ (documentTexts? t).map List.length = some 3 := by
  obtain ⟨hsome, hall⟩ := documents_found_in_text.2
    { namespaceName := "a", images := ["---\n\x60\x60\x60"] } true ⟨false, "/must-gather"⟩
    (by decide) (by decide) {}
  obtain ⟨t, ht⟩ := hsome rfl
  obtain ⟨-, -, hclose, hdocuments⟩ := hall t ht
  refine ⟨t, ht, hclose, ?_⟩
  rw [hdocuments]
  rfl

end Manifest

end BundlePlan
