import BundlePlan.Proofs.CommandLine.Captured
import BundlePlan.Proofs.CommandLine.Reading
import BundlePlan.Proofs.Manifest.Characters
import BundlePlan.Proofs.Planning.Content
import BundlePlan.Registry.Call

/-!
# The command line agrees with the call

A line of options is answered as the call of the tool with the arguments that the options ask for.
The program adds a message at the end, if any, and writes the text of a plan to its standard output.
There it is the text of the answer if a captured stream keeps it; a control sequence that the
request puts into the header is lost.
-/

namespace BundlePlan.CommandLine

namespace Entry

/-! ### What a line asks for -/

theorem values_map_occurrence (entries : List Entry) (p : Parameter) :
    CommandLine.values (entries.map occurrence) (.parameter p) = values entries p := by
  unfold CommandLine.values values
  rw [List.filterMap_map]
  apply List.filterMap_congr
  intro e _
  by_cases h : e.parameter = p
  · cases e <;> simp_all [occurrence, parameter, value?]
  · cases e <;> simp_all [occurrence, parameter]

theorem hasFlag_map_occurrence (entries : List Entry) {p : Parameter} (h : p.kind = .flag) :
    hasFlag (entries.map occurrence) (.parameter p) = entries.any (·.parameter = p) := by
  have hflag : ∀ e : Entry, e.occurrence = .flag (.parameter p) ↔ e.parameter = p := by
    intro e
    -- no other option is for a flag
    have hvalue : ∀ q : Parameter, q.kind ≠ .flag → q ≠ p := fun q hq heq => hq (heq ▸ h)
    cases e with
    | separate q _ hq | joined q _ hq => simpa [occurrence, parameter] using hvalue q hq
    | letter q _ _ hq | attached q _ _ hq =>
      simpa [occurrence, parameter] using hvalue q (kind_of_optionLetter? hq)
    | flag q _ => simp [occurrence, parameter]
  rw [hasFlag, Bool.eq_iff_iff, List.contains_iff_mem, List.mem_map, List.any_eq_true]
  simp only [hflag, decide_eq_true_eq]

/-- No option for a parameter is an option of the program itself. -/
theorem hasFlag_eq_false (entries : List Entry) {o : CommandOption}
    (h : ∀ p, o ≠ .parameter p) : hasFlag (entries.map occurrence) o = false := by
  rw [hasFlag, List.contains_eq_mem, decide_eq_false_iff_not, List.mem_map]
  rintro ⟨e, -, he⟩
  cases e with
  | flag p _ => exact h p (by simpa [occurrence] using he.symm)
  | separate | joined | letter | attached => simp [occurrence] at he

theorem extras_eq_nil (entries : List Entry) : extras (entries.map occurrence) = [] := by
  rw [extras, List.filterMap_map, List.filterMap_eq_nil_iff]
  intro e _
  cases e <;> rfl

/-- What the line says about a parameter is given exactly if an option asks for it. -/
theorem argument?_eq (entries : List Entry) (p : Parameter) :
    argument? entries p =
      if (argument (entries.map occurrence) p).isGiven then
        some (argument (entries.map occurrence) p) else none := by
  unfold argument? argument
  rw [values_map_occurrence]
  cases hkind : p.kind with
  | text =>
    simp only
    cases (values entries p).getLast? with
    | none => rfl
    | some v => rfl
  | texts =>
    simp only
    cases values entries p with
    | nil => rfl
    | cons v vs => rfl
  | flag =>
    simp only [hasFlag_map_occurrence entries hkind]
    cases entries.any (·.parameter = p) <;> rfl

/-- The request that is read from a line is what the options on it ask for. -/
theorem request_map_occurrence (entries : List Entry) :
    request (entries.map occurrence) = arguments entries := by
  unfold request options arguments Arguments.given
  rw [List.filter_map, ← List.filterMap_eq_map, List.filterMap_filter]
  apply List.filterMap_congr
  intro p _
  rw [argument?_eq]
  simp only [Function.comp_apply]
  split <;> rfl

end Entry

/-! ### The end of a run -/

/-- A line of options ends as the call that it asks for. -/
theorem run_words (entries : List Entry) (env : Environment) (r : Randomness) (s : Serializer) :
    run env r s (entries.flatMap Entry.words)
      = finish (Registry.call env r s none (Entry.arguments entries)) := by
  have hown : ∀ {o : CommandOption}, (∀ p, o ≠ .parameter p) →
      hasFlag (entries.map Entry.occurrence) o = false := Entry.hasFlag_eq_false entries
  have hplanner : planner env r s (entries.map Entry.occurrence)
      = Registry.planner env r s none := by
    rw [planner, hown (by simp), Registry.planner]
  rw [run, Entry.readArguments_words]
  simp only [hown (o := .help) (by simp), hown (o := .version) (by simp),
    hown (o := .schema) (by simp), Entry.extras_eq_nil, Bool.false_eq_true, if_false, ne_eq,
    not_true, hplanner, Entry.request_map_occurrence]
  rfl

/-- The program adds one message at most to what happens on the way. -/
theorem finish_events (o : Outcome PlanResult) :
    ∃ ending, (finish o).events = o.events ++ ending ∧ ending.length ≤ 1 ∧
      ∀ e ∈ ending, ∃ message, e = .print message := by
  obtain ⟨result, p, events⟩ := o
  have hmessage : ∀ message, ∀ e ∈ [Event.print message], ∃ m, e = .print m :=
    fun message e he => ⟨message, List.mem_singleton.1 he⟩
  match result with
  | .ok (.ok _) => exact ⟨[.print doneMessage], rfl, Nat.le_refl 1, hmessage _⟩
  | .ok (.error failure) =>
    exact ⟨[.print (failureMessage failure)], rfl, Nat.le_refl 1, hmessage _⟩
  | .error (.connect .cancelled) => exact ⟨[], (List.append_nil _).symm, Nat.zero_le 1, nofun⟩
  | .error (.render _) => exact ⟨[], (List.append_nil _).symm, Nat.zero_le 1, nofun⟩
  | .error (.connect (.noContexts _)) | .error (.connect (.loadFailed _ _)) | .error (.query _) =>
    exact ⟨[.print (connectionMessage _)], rfl, Nat.le_refl 1, hmessage _⟩

theorem finish_eq_printed {o : Outcome PlanResult} {text : String}
    (h : o.result = .ok (.ok text)) :
    finish o = .printed (text ++ "\n") (o.events ++ [.print doneMessage]) := by
  obtain ⟨result, p, events⟩ := o
  obtain rfl : result = .ok (.ok text) := h
  rfl

theorem finish_of_text {o : Outcome PlanResult} {text : String} (h : o.result = .ok (.ok text)) :
    (finish o).exitCode = 0 ∧ (finish o).stdout = captured (text ++ "\n") := by
  rw [finish_eq_printed h]
  exact ⟨rfl, rfl⟩

theorem finish_of_no_text {o : Outcome PlanResult} (h : ∀ text, o.result ≠ .ok (.ok text)) :
    (finish o).exitCode = 1 ∧ (finish o).stdout = "" := by
  obtain ⟨result, p, events⟩ := o
  match result with
  | .ok (.ok text) => exact absurd rfl (h text)
  | .ok (.error _) | .error (.render _) | .error (.query _) | .error (.connect .cancelled)
  | .error (.connect (.noContexts _)) | .error (.connect (.loadFailed _ _)) => exact ⟨rfl, rfl⟩

/-! ### The standard output -/

/-- A text without escape characters and carriage returns is kept. -/
theorem untouched_of_not_mem {s : List Char} (hescape : '\x1b' ∉ s) (hreturn : '\r' ∉ s) :
    Untouched s := by
  refine ⟨fun t ht hpart => ?_, fun hpart => ?_⟩
  · obtain ⟨_, _, _, rfl, -⟩ := ht
    exact hescape (hpart.subset List.mem_cons_self)
  · exact hreturn (hpart.subset List.mem_cons_self)

theorem Untouched.of_part {s t : List Char} (h : Untouched t) (hpart : s <:+: t) : Untouched s :=
  ⟨fun u hu hus => h.1 u hu (hus.trans hpart), fun hus => h.2 (hus.trans hpart)⟩

/-- What a plan needs to be kept: no escape character and no carriage return in the texts that
stand in the header. -/
theorem untouched_content {c : Config} (env : Environment)
    (hns : ∀ ch ∈ c.namespaceName.toList, ch ≠ '\x1b' ∧ ch ≠ '\r')
    (hdir : ∀ ch ∈ c.sourceDir.toList, ch ≠ '\x1b' ∧ ch ≠ '\r') :
    Untouched (c.content env ++ "\n").toList := by
  have hreadable : ∀ ch, Yaml.isReadable ch = true → ch ≠ '\x1b' ∧ ch ≠ '\r' := by
    intro ch h
    refine ⟨?_, ?_⟩ <;> rintro rfl
    · exact absurd h (by decide)
    · exact absurd h (by decide)
  have hcontent := Manifest.forall_mem_content (h := c.handling)
    (env.hasNamespace c.namespaceName) hreadable hns hdir
  have hall : ∀ ch ∈ (c.content env ++ "\n").toList, ch ≠ '\x1b' ∧ ch ≠ '\r' := by
    rw [String.toList_append]
    simp only [List.forall_mem_append]
    exact ⟨hcontent, by simp⟩
  exact untouched_of_not_mem (fun h => (hall _ h).1 rfl) fun h => (hall _ h).2 rfl

/-- A namespace stands in the plan, so that it has to be kept with it. -/
theorem Untouched.of_content {c : Config} {env : Environment}
    (h : Untouched (c.content env ++ "\n").toList) : Untouched c.namespaceName.toList := by
  refine h.of_part ((Manifest.namespaceName_part_of_content c
    (env.hasNamespace c.namespaceName) c.handling).trans ?_)
  rw [String.toList_append]
  exact (List.prefix_append _ _).isInfix

/-- A line of options does what the call does with the arguments that the options ask for, and then
prints one message at most. If the call is answered with a text, the exit code is 0, and the
standard output is the text and a line feed exactly if a captured stream keeps them, as it does
unless the namespace or the directory has an escape character or a carriage return. Otherwise the
exit code is 1 and the standard output is empty. -/
theorem run_agrees_with_call (entries : List Entry) (env : Environment) (r : Randomness)
    (s : Serializer) :
    let call := Registry.call env r s none (Entry.arguments entries)
    let result := run env r s (entries.flatMap Entry.words)
    (∃ ending, result.events = call.events ++ ending ∧ ending.length ≤ 1 ∧
      ∀ e ∈ ending, ∃ message, e = .print message) ∧
    (∀ text, call.result = .ok (.ok text) → result.exitCode = 0 ∧
      (result.stdout = text ++ "\n" ↔ Untouched (text ++ "\n").toList) ∧
      ∃ c, (resolve (Entry.arguments entries) r).1 = .ok c ∧
        ((∀ ch ∈ c.namespaceName.toList ++ c.sourceDir.toList, ch ≠ '\x1b' ∧ ch ≠ '\r') →
          result.stdout = text ++ "\n")) ∧
    ((∀ text, call.result ≠ .ok (.ok text)) → result.exitCode = 1 ∧ result.stdout = "") := by
  intro call result
  have hrun : result = finish call := run_words entries env r s
  rw [hrun]
  refine ⟨finish_events call, fun text htext => ?_, finish_of_no_text⟩
  obtain ⟨hcode, hstdout⟩ := finish_of_text htext
  have hkept : (finish call).stdout = text ++ "\n" ↔ Untouched (text ++ "\n").toList := by
    rw [hstdout, captured_eq_self_iff]
  obtain ⟨c, hresolve, rfl⟩ := Planner.plan_eq_ok htext
  refine ⟨hcode, hkept, c, hresolve, fun htexts => hkept.2 ?_⟩
  rw [List.forall_mem_append] at htexts
  exact untouched_content env htexts.1 htexts.2

/-- An option for a namespace with a control sequence in it. -/
def colorReset : Entry := .separate .namespaceName "a\x1b[0mb" (by decide)

/-- A world in which everything is answered. -/
def answering : Environment := { contexts := [], current := .text "cluster" }

theorem call_colorReset : (Registry.call answering ⟨fun _ => 0, 0⟩ {} none
    (Entry.arguments [colorReset])).result
      = .ok (.ok (Config.content { namespaceName := "a\x1b[0mb" } answering)) := rfl

/-- A control sequence in the namespace is lost on the standard output. -/
theorem run_not_agrees :
    ∃ text, (Registry.call answering ⟨fun _ => 0, 0⟩ {} none (Entry.arguments [colorReset])).result
        = .ok (.ok text) ∧
      (run answering ⟨fun _ => 0, 0⟩ {} ["--namespace", "a\x1b[0mb"]).stdout ≠ text ++ "\n" := by
  refine ⟨_, call_colorReset, fun hstdout => ?_⟩
  have hline : ["--namespace", "a\x1b[0mb"] = [colorReset].flatMap Entry.words := by decide
  rw [hline, run_words, (finish_of_text call_colorReset).2, captured_eq_self_iff] at hstdout
  -- the sequence has one parameter and no intermediates
  have hcontrol : IsControl ['\x1b', '[', '0', 'm'] :=
    ⟨['0'], [], 'm', rfl, by simp [isControlParameter, isControlFinal]⟩
  exact hstdout.of_content.1 _ hcontrol ⟨['a'], ['b'], by simp⟩

end BundlePlan.CommandLine
