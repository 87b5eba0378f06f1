import BundlePlan.Proofs.Labels
import BundlePlan.Proofs.Request.Unset
import BundlePlan.Proofs.Value.Parts
import BundlePlan.Proofs.Yaml.RoundTrip

/-!
# The order of entries

Nothing in a plan depends on the order in which a mapping was given: not on that of the entries of
a value, because a document has them in the order of their keys; not on that of the arguments of a
request, because each is looked up by its name; and not on that of the pairs of a node selector,
except that the last pair of a key counts.
-/

namespace BundlePlan

/-! ### Selectors -/

namespace Labels

/-- The pairs of a node selector, in their order. -/
def selectorPairs (selector : String) : List (String × String) :=
  (Text.pieces ',' selector.toList).filterMap selectorEntry?

/-- The pairs in another order, in which those of a key that occurs more than once keep theirs. -/
structure Reordered (pairs pairs' : List (String × String)) : Prop where
  /-- They are the same pairs. -/
  perm : pairs'.Perm pairs
  /-- Pairs with one key come in the same order. -/
  repeated : ∀ key, 1 < (pairs.map Prod.fst).count key →
    pairs'.filter (·.1 == key) = pairs.filter (·.1 == key)

variable {pairs pairs' : List (String × String)}

theorem Reordered.filter_eq (h : Reordered pairs pairs') (key : String) :
    pairs'.filter (·.1 == key) = pairs.filter (·.1 == key) := by
  by_cases hcount : 1 < (pairs.map Prod.fst).count key
  · exact h.repeated key hcount
  · -- no more than one pair has the key
    have hlength : (pairs.filter (·.1 == key)).length ≤ 1 := by
      rw [← List.countP_eq_length_filter]
      rw [List.count, List.countP_map] at hcount
      exact Nat.not_lt.1 hcount
    have hperm : (pairs'.filter (·.1 == key)).Perm (pairs.filter (·.1 == key)) :=
      h.perm.filter _
    generalize pairs.filter (·.1 == key) = filtered at hlength hperm ⊢
    cases filtered with
    | nil => exact hperm.eq_nil
    | cons e rest =>
      obtain rfl : rest = [] := List.length_eq_zero_iff.1 (by simpa using hlength)
      exact hperm.eq_singleton

/-- Pairs with distinct keys may come in any order. -/
theorem reordered_of_nodup (hkeys : (pairs.map Prod.fst).Nodup) (h : pairs'.Perm pairs) :
    Reordered pairs pairs' where
  perm := h
  repeated key hcount := absurd (List.nodup_iff_count_le_one.1 hkeys key) (Nat.not_le.2 hcount)

/-- The pair that counts for its key is the last one that has it. -/
theorem lastOfKey_iff_getLast? {e : String × String} :
    LastOfKey pairs e ↔ (pairs.filter (·.1 == e.1)).getLast? = some e := by
  induction pairs using List.reverseRecOn with
  | nil => exact iff_of_false not_lastOfKey_nil (by simp)
  | append_singleton pairs pair ih =>
    obtain ⟨key, value⟩ := pair
    rw [lastOfKey_concat, ih, List.filter_append]
    by_cases hkey : key = e.1
    · have hlast : [(key, value)].filter (·.1 == e.1) = [(key, value)] := by simp [hkey]
      rw [hlast, List.getLast?_concat, Option.some.injEq, eq_comm]
      exact or_iff_left fun h => h.2 hkey.symm
    · have hnone : [(key, value)].filter (·.1 == e.1) = [] := by simp [hkey]
      rw [hnone, List.append_nil]
      have hne : e ≠ (key, value) := fun h => hkey (congrArg Prod.fst h).symm
      rw [or_iff_right hne, and_iff_left (Ne.symm hkey)]

theorem ofList_reordered (h : Reordered pairs pairs') : ofList pairs' = ofList pairs := by
  refine eq_of_mem_iff fun e => ?_
  rw [mem_ofList, mem_ofList, lastOfKey_iff_getLast?, lastOfKey_iff_getLast?, h.filter_eq]

end Labels

/-! ### Requests -/

open Request (flag nonEmpty text? texts)

/-- An entry is looked up in any order of entries with distinct keys. -/
theorem lookup_of_perm {args args' : Arguments} (hkeys : (args.map Prod.fst).Nodup)
    (h : args'.Perm args) (key : String) : args'.lookup key = args.lookup key := by
  have hkeys' : (args'.map Prod.fst).Nodup := (h.map Prod.fst).nodup_iff.2 hkeys
  cases hlookup : args.lookup key with
  | none =>
    rw [List.lookup_eq_none_iff] at hlookup ⊢
    exact fun e he => hlookup e (h.mem_iff.1 he)
  | some v =>
    obtain ⟨before, after, rfl, -⟩ := List.lookup_eq_some_iff.1 hlookup
    exact lookup_of_mem hkeys' (h.mem_iff.2 (by simp))

/-- Arguments with an entry for the node selector somewhere. -/
def Arguments.withSelector (before after : Arguments) (selector : String) : Arguments :=
  before ++ (Parameter.nodeSelector.name, .text selector) :: after

section

variable {before after : Arguments} {s s' : String}

theorem value?_withSelector {q : Parameter} (hq : q ≠ .nodeSelector) :
    q.value? (.withSelector before after s') = q.value? (.withSelector before after s) := by
  have hname : (q.name == Parameter.nodeSelector.name) = false :=
    beq_eq_false_iff_ne.2 fun h => hq (Parameter.name_injective h)
  rw [Parameter.value?, Parameter.value?, Arguments.withSelector, Arguments.withSelector,
    List.lookup_append, List.lookup_append, List.lookup_cons, List.lookup_cons, hname]

/-- The labels that a text asks for, which count as none if it is empty. -/
theorem getD_nonEmpty (s : String) :
    ((nonEmpty (some s)).map Labels.ofSelector).getD Labels.empty = Labels.ofSelector s := by
  unfold nonEmpty
  by_cases h : s = ""
  · subst h
    rfl
  · simp [h]

/-- The selector is read, unless there is an earlier entry for it. -/
theorem selector_withSelector (before after : Arguments) (s s' : String) :
    Parameter.nodeSelector.value? (.withSelector before after s')
        = Parameter.nodeSelector.value? (.withSelector before after s) ∨
      Parameter.nodeSelector.value? (.withSelector before after s') = some (.text s') ∧
        Parameter.nodeSelector.value? (.withSelector before after s) = some (.text s) := by
  unfold Parameter.value? Arguments.withSelector
  simp only [List.lookup_append, List.lookup_cons_self]
  cases before.lookup Parameter.nodeSelector.name with
  | some v => exact Or.inl rfl
  | none => exact Or.inr ⟨rfl, rfl⟩

/-- The texts of two selectors that ask for the same labels are read alike. -/
theorem text?_withSelector (h : Labels.ofSelector s' = Labels.ofSelector s) :
    Alike (fun o o' => ((nonEmpty o).map Labels.ofSelector).getD Labels.empty
        = ((nonEmpty o').map Labels.ofSelector).getD Labels.empty)
      (text? (.withSelector before after s') .nodeSelector)
      (text? (.withSelector before after s) .nodeSelector) := by
  rcases selector_withSelector before after s s' with hsame | ⟨hs', hs⟩
  · have htext : text? (.withSelector before after s') .nodeSelector
        = text? (.withSelector before after s) .nodeSelector := by
      rw [text?, text?, Parameter.text?, Parameter.text?, hsame]
    rw [htext]
    cases text? (.withSelector before after s) .nodeSelector with
    | error e => exact .error e
    | ok o => exact .ok rfl
  · rw [text?, text?, Parameter.text?, Parameter.text?, hs', hs]
    refine .ok ?_
    rw [getD_nonEmpty, getD_nonEmpty, h]

/-- Where a plan belongs depends on the labels that the selector asks for. -/
theorem ofArguments_withSelector (h : Labels.ofSelector s' = Labels.ofSelector s) :
    Placement.ofArguments (.withSelector before after s')
      = Placement.ofArguments (.withSelector before after s) := by
  have htext : ∀ q : Parameter, q ≠ .nodeSelector → text? (.withSelector before after s') q
      = text? (.withSelector before after s) q := by
    intro q hq
    rw [text?, text?, Parameter.text?, Parameter.text?, value?_withSelector hq]
  rw [← alike_eq_iff]
  unfold Placement.ofArguments
  rw [htext .imageStream (by decide), htext .sourceDir (by decide),
    htext .namespaceName (by decide)]
  refine Alike.bind_same _ fun stream => ?_
  split
  · exact .error RequestError.imageStream
  · refine (text?_withSelector h).bind fun selector selector' hselector => ?_
    rw [hselector]
    exact alike_eq_iff.2 rfl

/-- The rest of the arguments are read without the selector. -/
theorem config_withSelector (before after : Arguments) (s s' : String) (placement : Placement)
    (namespaceName : String) :
    placement.config namespaceName (.withSelector before after s')
      = placement.config namespaceName (.withSelector before after s) := by
  have h : ∀ q : Parameter, q ≠ .nodeSelector → q.value? (.withSelector before after s')
      = q.value? (.withSelector before after s) := fun q hq => value?_withSelector hq
  unfold Placement.config text? texts flag Parameter.text? Parameter.texts? Parameter.flag?
  rw [h .gatherCommand (by decide), h .images (by decide), h .timeout (by decide),
    h .since (by decide), h .nodeName (by decide), h .hostNetwork (by decide),
    h .keepNamespace (by decide), h .allComponentImages (by decide)]

/-- A request resolves to the same with any selector that asks for the same labels. -/
theorem resolve_withSelector (h : Labels.ofSelector s' = Labels.ofSelector s) (r : Randomness) :
    resolve (.withSelector before after s') r = resolve (.withSelector before after s) r := by
  unfold resolve
  rw [ofArguments_withSelector h]
  cases Placement.ofArguments (.withSelector before after s) with
  | error e => rfl
  | ok placement =>
    have hconfig := fun name => config_withSelector before after s s' placement name
    simp only [hconfig]

end

/-! ### Plans -/

/-- The document of a value does not depend on the order of entries anywhere in the value, and has
the entries of every mapping in the strictly increasing order of their keys. A planner answers a
request as it does with the entries of the request in another order, and as it does with the pairs
of the node selector in another order, as long as pairs with one key keep theirs. -/
theorem order_does_not_matter :
    (∀ v w : Value, v.DistinctKeys → v.Same w → Yaml.document w = Yaml.document v) ∧
    (∀ v : Value, v.DistinctKeys → ∃ w, v.Same w ∧ w.InOrder ∧
      Yaml.document v = String.ofList (Yaml.documentText w ++ ['\n']) ∧
      Yaml.readTree (Yaml.document v).toList = some (Yaml.represent .root w)) ∧
    (∀ (p : Planner) (args args' : Arguments), (args.map Prod.fst).Nodup → args'.Perm args →
      p.plan args' = p.plan args) ∧
    ∀ (p : Planner) (before after : Arguments) (s s' : String),
      Labels.Reordered (Labels.selectorPairs s) (Labels.selectorPairs s') →
        p.plan (.withSelector before after s') = p.plan (.withSelector before after s) := by
  refine ⟨fun v w hkeys hsame => ?values, fun v hkeys => ?written,
    fun p args args' hkeys h => ?entries, fun p before after s s' h => ?pairs⟩
  case values => rw [Yaml.document, Yaml.document, hsame.sortKeys_eq.2 hkeys]
  case written =>
    exact ⟨v.sortKeys, v.same_sortKeys, Value.inOrder_sortKeys hkeys, rfl, Yaml.readTree_document v⟩
  case entries =>
    refine Planner.plan_congr (resolve_congr (fun q => ?_) _)
    rw [Parameter.setting?, Parameter.setting?, lookup_of_perm hkeys h]
  case pairs => exact Planner.plan_congr (resolve_withSelector (Labels.ofList_reordered h) _)

/-- A mapping with a mapping in it, two arguments and two pairs of a selector, each in both
orders. -/
theorem order_does_not_matter_of_two :
    Yaml.document
        (.mapping [("a", .text "x"), ("b", .mapping [("c", .text "y"), ("d", .text "z")])])
      = Yaml.document
        (.mapping [("b", .mapping [("d", .text "z"), ("c", .text "y")]), ("a", .text "x")]) ∧
    (connectedPlanner []).plan [("since", .text "1h"), ("namespace", .text "a")]
      = (connectedPlanner []).plan [("namespace", .text "a"), ("since", .text "1h")] ∧
    (connectedPlanner []).plan [("namespace", .text "a"), ("node_selector", .text "d=2, c=1")]
      = (connectedPlanner []).plan
        [("namespace", .text "a"), ("node_selector", .text "c=1,d=2")] := by
  obtain ⟨hvalues, -, hentries, hpairs⟩ := order_does_not_matter
  refine ⟨hvalues _ _ ?_ ?_, hentries _ _ _ (by decide) (.swap _ _ _),
    hpairs _ [("namespace", .text "a")] [] "c=1,d=2" "d=2, c=1" ?_⟩
  · simp [Value.distinctKeys_mapping, Value.distinctKeys_text]
  · exact .trans (.order (.swap _ _ _))
      (.entry [("a", .text "x")] [] "b" (.order (.swap _ _ _)))
  · have hpairs : Labels.selectorPairs "c=1,d=2" = [("c", "1"), ("d", "2")] := by decide +kernel
    have hpairs' : Labels.selectorPairs "d=2, c=1" = [("d", "2"), ("c", "1")] := by decide +kernel
    rw [hpairs, hpairs']
    exact Labels.reordered_of_nodup (by decide) (.swap _ _ _)

end BundlePlan
