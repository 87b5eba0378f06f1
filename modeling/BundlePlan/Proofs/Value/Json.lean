import BundlePlan.Proofs.Manifest.Characters
import BundlePlan.Value.Json

/-!
# Characters of JSON texts

A value is written as JSON in printable ASCII and line feeds, whatever texts are in it: every other
character of a text is escaped.
-/

namespace BundlePlan

open Yaml (isReadable isPlainAscii)

theorem isReadable_of_isPlainAscii {c : Char} (h : isPlainAscii c = true) :
    isReadable c = true := by
  simp [isReadable, h]

theorem IsReadable.cons {c : Char} {s : List Char} (hc : isReadable c = true) (hs : IsReadable s) :
    IsReadable (c :: s) :=
  List.forall_mem_cons.2 ⟨hc, hs⟩

theorem IsReadable.flatMap {α : Type} {l : List α} {f : α → List Char}
    (h : ∀ a ∈ l, IsReadable (f a)) : IsReadable (l.flatMap f) := by
  intro c hc
  obtain ⟨a, ha, hc⟩ := List.mem_flatMap.1 hc
  exact h a ha c hc

theorem isReadable_spaces (n : Nat) : IsReadable (List.replicate n ' ') := by
  intro c hc
  rw [List.eq_of_mem_replicate hc]
  rfl

namespace Value

theorem isReadable_jsonUnit (n : Nat) : IsReadable (jsonUnit n) := by
  have hdigit : ∀ d, d < 16 → isPlainAscii (Nat.digitChar d) = true := by decide
  refine (IsReadable.cons rfl (IsReadable.cons rfl fun c hc => ?_))
  exact isReadable_of_isPlainAscii (Yaml.isPlainAscii_hexDigits hdigit 4 n c hc)

/-- Every character is written as itself, if it is printable, or as an escape. -/
theorem isReadable_jsonChar (c : Char) : IsReadable (jsonChar c) := by
  unfold jsonChar
  split
  · next h => rcases h with rfl | rfl <;> exact isReadable_of_all rfl
  · -- five characters have an escape of their own
    iterate 5
      split
      · exact isReadable_of_all rfl
    split
    · next h =>
      exact IsReadable.cons (isReadable_of_isPlainAscii (by simpa [isPlainAscii] using h)) nofun
    · split
      · exact isReadable_jsonUnit _
      · exact (isReadable_jsonUnit _).append (isReadable_jsonUnit _)

theorem isReadable_jsonText (s : String) : IsReadable (jsonText s) := by
  have hinside : IsReadable (s.toList.flatMap jsonChar) :=
    IsReadable.flatMap fun c _ => isReadable_jsonChar c
  exact IsReadable.cons rfl (hinside.append (isReadable_of_all rfl))

theorem isReadable_jsonBreak (indent : Nat) : IsReadable (jsonBreak indent) :=
  IsReadable.cons rfl (isReadable_spaces indent)

/-- What is written between brackets, on lines of its own. -/
theorem isReadable_jsonBlock {start finish : Char} {body : List Char} (indent : Nat)
    (hstart : isReadable start = true) (hbody : IsReadable body)
    (hfinish : isReadable finish = true) :
    IsReadable (start :: jsonBreak (indent + 2) ++ body ++ jsonBreak indent ++ [finish]) := by
  have hbreak := isReadable_jsonBreak
  exact (((IsReadable.cons hstart (hbreak _)).append hbody).append (hbreak _)).append
    (IsReadable.cons hfinish nofun)

theorem isReadable_intText (n : Int) : IsReadable (intText n) := by
  intro c hc
  rcases Yaml.mem_intText hc with rfl | hdigit
  · rfl
  · exact isReadable_of_isPlainAscii (Yaml.isPlainAscii_of_isDigit hdigit).1

mutual

/-- A value is written in readable characters, whatever texts are in it. -/
theorem isReadable_jsonLines (indent : Nat) : ∀ v, IsReadable (jsonLines indent v)
  | null => isReadable_of_all rfl
  | bool true => isReadable_of_all rfl
  | bool false => isReadable_of_all rfl
  | int n => isReadable_intText n
  | text s => isReadable_jsonText s
  | list [] => isReadable_of_all rfl
  | list (item :: items) =>
    isReadable_jsonBlock indent rfl (isReadable_jsonItems (indent + 2) (item :: items)) rfl
  | mapping [] => isReadable_of_all rfl
  | mapping (entry :: entries) =>
    isReadable_jsonBlock indent rfl (isReadable_jsonEntries (indent + 2) (entry :: entries)) rfl

theorem isReadable_jsonItems (indent : Nat) : ∀ items, IsReadable (jsonItems indent items)
  | [] => nofun
  | [item] => isReadable_jsonLines indent item
  | item :: next :: items =>
    .append (.append (isReadable_jsonLines indent item) (.cons rfl (isReadable_jsonBreak indent)))
      (isReadable_jsonItems indent (next :: items))

theorem isReadable_jsonEntries (indent : Nat) : ∀ entries, IsReadable (jsonEntries indent entries)
  | [] => nofun
  | [(key, value)] =>
    .append (isReadable_jsonText key) (.cons rfl (.cons rfl (isReadable_jsonLines indent value)))
  | (key, value) :: next :: entries =>
    .append (.append (.append (isReadable_jsonText key)
      (.cons rfl (.cons rfl (isReadable_jsonLines indent value))))
      (.cons rfl (isReadable_jsonBreak indent))) (isReadable_jsonEntries indent (next :: entries))

end

theorem isReadable_json (v : Value) : IsReadable v.json.toList := by
  rw [json, String.toList_ofList]
  exact isReadable_jsonLines 0 v

end Value

end BundlePlan
