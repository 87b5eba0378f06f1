import BundlePlan.Manifest.Reading
import BundlePlan.Proofs.Text.Lines

/-!
# The content of plans

A plan whose documents can all be written has one text, its `content`, whatever the serializer has
done before: the instructions, an empty line, and the documents between the lines of the fence.
-/

namespace BundlePlan

namespace Serializer

/-- The documents of values. -/
def documentTexts (documents : List (String × Value)) : List String :=
  documents.map fun d => Yaml.document d.2

theorem write_eq_ok {s s' : Serializer} {kind t : String} {v : Value}
    (h : s.write kind v = (.ok t, s')) : t = Yaml.document v := by
  unfold write at h
  simp only at h
  split at h
  · split at h
    · exact absurd h (by simp)
    · exact (Except.ok.inj (Prod.mk.inj h).1).symm
  · exact (Except.ok.inj (Prod.mk.inj h).1).symm

/-- What is written are the documents of the values. -/
theorem writeAll_eq_ok {s s' : Serializer} {documents : List (String × Value)}
    {texts : List String} (h : s.writeAll documents = (.ok texts, s')) :
    texts = documentTexts documents := by
  induction documents generalizing s texts with
  | nil => exact (Except.ok.inj (Prod.mk.inj h).1).symm
  | cons d documents ih =>
    rw [writeAll] at h
    split at h
    · exact absurd h (by simp)
    · rename_i t s₁ hwrite
      split at h
      · exact absurd h (by simp)
      · rename_i rest s₂ hrest
        obtain ⟨rfl, rfl⟩ : t :: rest = texts ∧ s₂ = s' := by simpa using h
        rw [write_eq_ok hwrite, ih hrest]
        rfl

/-- The fault, if there is one, is not among so many calls to come. -/
def Spares (s : Serializer) (n : Nat) : Prop :=
  ∀ f, s.fault = some f → f.call < s.calls ∨ s.calls + n ≤ f.call

theorem spares_of_no_fault {s : Serializer} (h : s.fault = none) (n : Nat) : s.Spares n := by
  intro f hf
  rw [h] at hf
  cases hf

theorem write_of_ne {s : Serializer} (h : ∀ f, s.fault = some f → f.call ≠ s.calls)
    (kind : String) (v : Value) :
    s.write kind v = (.ok (Yaml.document v), { s with calls := s.calls + 1 }) := by
  unfold write
  cases hfault : s.fault with
  | none => rfl
  | some f => simp only [if_neg (h f hfault)]

theorem write_of_fault {s : Serializer} {f : SerializerFault} (hf : s.fault = some f)
    (h : f.call = s.calls) (kind : String) (v : Value) :
    s.write kind v = (.error ⟨kind, f.message⟩, { s with calls := s.calls + 1 }) := by
  rw [write, hf]
  simp only [h, if_true]

/-- Documents that are spared are all written. -/
theorem writeAll_of_spares {s : Serializer} {documents : List (String × Value)}
    (h : s.Spares documents.length) :
    s.writeAll documents
      = (.ok (documentTexts documents), { s with calls := s.calls + documents.length }) := by
  induction documents generalizing s with
  | nil => rfl
  | cons d documents ih =>
    have hnow : ∀ f, s.fault = some f → f.call ≠ s.calls := by
      intro f hf
      have hspared := h f hf
      rw [List.length_cons] at hspared
      omega
    have hlater : ({ s with calls := s.calls + 1 } : Serializer).Spares documents.length := by
      intro f hf
      have hspared := h f hf
      rw [List.length_cons] at hspared
      show f.call < s.calls + 1 ∨ s.calls + 1 + documents.length ≤ f.call
      omega
    rw [writeAll, write_of_ne hnow]
    simp only [ih hlater, List.length_cons]
    rw [Nat.add_assoc, Nat.add_comm 1]
    rfl

/-- The call with the fault ends the writing, at the document whose turn it is. -/
theorem writeAll_of_fault {s : Serializer} {documents : List (String × Value)}
    {f : SerializerFault} (hf : s.fault = some f) (hle : s.calls ≤ f.call)
    (hlt : f.call < s.calls + documents.length) :
    ∃ d, documents[f.call - s.calls]? = some d ∧ s.writeAll documents
      = (.error ⟨d.1, f.message⟩, { s with calls := f.call + 1 }) := by
  induction documents generalizing s with
  | nil =>
    rw [List.length_nil] at hlt
    omega
  | cons d documents ih =>
    by_cases hnow : f.call = s.calls
    · refine ⟨d, by simp [hnow], ?_⟩
      rw [writeAll, write_of_fault hf hnow, hnow]
    · have hne : ∀ f', s.fault = some f' → f'.call ≠ s.calls := by
        intro f' hf'
        obtain rfl := Option.some.inj (hf.symm.trans hf')
        exact hnow
      rw [List.length_cons] at hlt
      obtain ⟨d', hd', hrest⟩ := ih (s := { s with calls := s.calls + 1 }) hf
        (show s.calls + 1 ≤ f.call by omega)
        (show f.call < s.calls + 1 + documents.length by omega)
      refine ⟨d', ?_, ?_⟩
      · rw [show f.call - s.calls = f.call - (s.calls + 1) + 1 by omega]
        exact hd'
      · rw [writeAll, write_of_ne hne]
        simp only [hrest]

end Serializer

namespace Manifest

/-- The resources of a plan for a cluster in which its namespace was found or not. -/
def forCluster (c : Config) (found : Bool) : Manifest :=
  if found then (ofConfig c).withoutNamespace else ofConfig c

/-- Whether the namespace was found makes no difference to the pod. -/
theorem pod_forCluster (c : Config) (found : Bool) : (forCluster c found).pod = podOfConfig c := by
  cases found <;> rfl

/-- The text of a plan whose documents can all be written. -/
def content (m : Manifest) (h : Handling) : String :=
  m.instructions h ++ "\n" ++ fenced (Serializer.documentTexts m.documents)

/-- A plan has one text at most. -/
theorem text_eq_ok {m : Manifest} {h : Handling} {s : Serializer} {t : String}
    (ht : (m.text h s).1 = .ok t) : t = m.content h := by
  unfold text at ht
  split at ht
  · exact absurd ht (by simp)
  · rename_i texts s₁ htexts
    rw [Serializer.writeAll_eq_ok htexts] at ht
    exact (Except.ok.inj ht).symm

/-- A plan whose documents are spared has a text. -/
theorem text_of_spares (m : Manifest) (h : Handling) {s : Serializer}
    (hs : s.Spares m.documents.length) :
    m.text h s = (.ok (m.content h), { s with calls := s.calls + m.documents.length }) := by
  rw [text, Serializer.writeAll_of_spares hs]
  rfl

/-- Without a fault a plan has a text. -/
theorem text_of_no_fault (m : Manifest) (h : Handling) {s : Serializer} (hs : s.fault = none) :
    (m.text h s).1 = .ok (m.content h) := by
  rw [text_of_spares m h (Serializer.spares_of_no_fault hs _)]

/-- A plan one of whose documents meets the fault has none. -/
theorem text_of_fault (m : Manifest) (h : Handling) {s : Serializer} {f : SerializerFault}
    (hf : s.fault = some f) (hle : s.calls ≤ f.call) (hlt : f.call < s.calls + m.documents.length) :
    ∃ d, m.documents[f.call - s.calls]? = some d ∧
      m.text h s = (.error ⟨d.1, f.message⟩, { s with calls := f.call + 1 }) := by
  obtain ⟨d, hd, hwrite⟩ := Serializer.writeAll_of_fault hf hle hlt
  refine ⟨d, hd, ?_⟩
  rw [text, hwrite]

end Manifest

end BundlePlan
