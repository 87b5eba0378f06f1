import BundlePlan.Proofs.CommandLine.Agreement
import BundlePlan.Proofs.Value.Json

/-!
# What the standard output carries

A run of the program writes to its standard output only what is complete: the help, the version,
the definition of the tool, or the text of a plan that is followed by the message of success. Every
other run leaves it empty. All but the text of a plan is readable, so that a captured stream keeps
it; a text is kept unless the request puts a control sequence into its header.

What a line asks for is decided before the world is looked at (`run_cases`), and what is answered is
decided by the planner alone, so that the ends of a run are those of `finish` and the notices.
-/

namespace BundlePlan.CommandLine

/-! ### What is fixed -/

theorem isReadable_append {s t : String} (hs : IsReadable s.toList) (ht : IsReadable t.toList) :
    IsReadable (s ++ t).toList := by
  rw [String.toList_append]
  exact hs.append ht

namespace CommandOption

theorem isReadable_longName (o : CommandOption) : IsReadable o.longName.toList := by
  cases o with
  | parameter p => cases p <;> exact isReadable_of_all rfl
  | version | debug | select | schema | help => exact isReadable_of_all rfl

theorem isReadable_form (o : CommandOption) : IsReadable o.form.toList := by
  have hletter : IsReadable
      ((o.letter?.map fun c => String.ofList ['-', c, ',', ' ']).getD "").toList := by
    unfold letter?
    split <;> exact isReadable_of_all rfl
  have hvalue : IsReadable (if o.takesValue then " TEXT" else "").toList := by
    split <;> exact isReadable_of_all rfl
  exact isReadable_append (isReadable_append hletter o.isReadable_longName) hvalue

theorem isReadable_explanation {o : CommandOption} {e : String} (h : o.explanation? = some e) :
    IsReadable e.toList := by
  unfold explanation? at h
  split at h <;> cases h <;> exact isReadable_of_all rfl

end CommandOption

theorem isReadable_helpLine {o : CommandOption} {e : String} (h : o.explanation? = some e) :
    IsReadable (helpLine o e).toList := by
  have hform : IsReadable ("  " ++ o.form).toList :=
    isReadable_append (isReadable_of_all rfl) o.isReadable_form
  have hspaces : IsReadable
      (String.ofList (List.replicate (formWidth - o.form.length) ' ')).toList := by
    rw [String.toList_ofList]
    exact isReadable_spaces _
  have hexplanation := CommandOption.isReadable_explanation h
  exact isReadable_append (isReadable_append (isReadable_append hform hspaces) hexplanation)
    (isReadable_of_all rfl)

theorem isReadable_helpText : IsReadable helpText.toList := by
  have hlines : IsReadable (String.join
      (CommandOption.all.filterMap fun o => o.explanation?.map (helpLine o))).toList := by
    rw [String.toList_join]
    refine IsReadable.flatMap fun line hline => ?_
    obtain ⟨o, -, ho⟩ := List.mem_filterMap.1 hline
    obtain ⟨e, he, rfl⟩ := Option.map_eq_some_iff.1 ho
    exact isReadable_helpLine he
  refine isReadable_append (isReadable_append (isReadable_append ?_ ?_) ?_) hlines
  · exact isReadable_of_all rfl
  · exact isReadable_of_all rfl
  · exact isReadable_of_all rfl

/-- The texts that are printed without a plan: the help, the version and the definition of the
tool. -/
def notices : List String := [helpText, version ++ "\n", Registry.definition.json ++ "\n"]

theorem version_mem_notices : version ++ "\n" ∈ notices :=
  List.mem_cons_of_mem _ List.mem_cons_self

theorem definition_mem_notices : Registry.definition.json ++ "\n" ∈ notices :=
  List.mem_cons_of_mem _ (List.mem_cons_of_mem _ List.mem_cons_self)

theorem captured_of_isReadable {s : String} (h : IsReadable s.toList) : captured s = s := by
  refine (captured_eq_self_iff s).2 (untouched_of_not_mem (fun hescape => ?_) fun hreturn => ?_)
  · exact absurd (h _ hescape) (by decide)
  · exact absurd (h _ hreturn) (by decide)

/-- A captured stream holds every notice whole. -/
theorem captured_notice {text : String} (h : text ∈ notices) : captured text = text := by
  refine captured_of_isReadable ?_
  have hbreak : IsReadable "\n".toList := isReadable_of_all rfl
  rcases List.mem_cons.1 h with rfl | h
  · exact isReadable_helpText
  rcases List.mem_cons.1 h with rfl | h
  · exact isReadable_append (isReadable_of_all rfl) hbreak
  · rw [List.mem_singleton.1 h]
    exact isReadable_append (Value.isReadable_json _) hbreak

/-! ### How a run ends -/

/-- The line alone decides how a run ends: with the report of an error, with a notice, or as the
plan of the request on it. -/
theorem run_cases (line : List String) :
    (∃ e : UsageError, ∀ env r s, run env r s line = .failed 2 e.report []) ∨
    (∃ text ∈ notices, ∀ env r s, run env r s line = .printed text []) ∨
    ∃ occurrences, readArguments line = .ok occurrences ∧ ∀ env r s,
      run env r s line = finish ((planner env r s occurrences).plan (request occurrences)) := by
  cases hline : readArguments line with
  | error e => exact Or.inl ⟨e, fun env r s => by simp only [run, hline]⟩
  | ok occurrences =>
    simp only [run, hline]
    split_ifs
    · exact Or.inr (Or.inl ⟨helpText, List.mem_cons_self, fun _ _ _ => rfl⟩)
    · exact Or.inl ⟨.extraArguments (extras occurrences), fun _ _ _ => rfl⟩
    · exact Or.inr (Or.inl ⟨version ++ "\n", version_mem_notices, fun _ _ _ => rfl⟩)
    · exact Or.inr (Or.inl ⟨_, definition_mem_notices, fun _ _ _ => rfl⟩)
    · exact Or.inr (Or.inr ⟨occurrences, rfl, fun _ _ _ => rfl⟩)

/-- A result of a run that carries the plan for what the request on the line resolves to. -/
structure Carries (env : Environment) (r : Randomness) (s : Serializer)
    (occurrences : List Occurrence) (c : Config) (result : RunResult) : Prop where
  resolved : (resolve (request occurrences) r).1 = .ok c
  answered : ((planner env r s occurrences).plan (request occurrences)).result
    = .ok (.ok (c.content env))
  /-- The message of success comes last. -/
  done : result.events.getLast? = some (.print doneMessage)
  /-- The standard output is the whole plan and a line feed, as a captured stream holds them. -/
  stdout : result.stdout = captured (c.content env ++ "\n")
  /-- They are all there exactly if there is nothing in them that such a stream leaves out. -/
  whole_iff : result.stdout = c.content env ++ "\n" ↔ Untouched (c.content env ++ "\n").toList
  /-- They are if the namespace and the directory have no escape character and no carriage
  return. -/
  whole : (∀ ch ∈ c.namespaceName.toList ++ c.sourceDir.toList, ch ≠ '\x1b' ∧ ch ≠ '\r') →
    result.stdout = c.content env ++ "\n"

/-- A request that is answered with a text ends in a result that carries it. -/
theorem carries_finish {env : Environment} {r : Randomness} {s : Serializer}
    {occurrences : List Occurrence} {text : String}
    (h : ((planner env r s occurrences).plan (request occurrences)).result = .ok (.ok text)) :
    ∃ c, Carries env r s occurrences c
      (finish ((planner env r s occurrences).plan (request occurrences))) := by
  obtain ⟨c, hresolve, rfl⟩ := Planner.plan_eq_ok h
  have hkept := captured_eq_self_iff (c.content env ++ "\n")
  rw [finish_eq_printed h]
  refine ⟨c, hresolve, h, List.getLast?_concat, rfl, hkept, fun hchars => hkept.2 ?_⟩
  rw [List.forall_mem_append] at hchars
  exact untouched_content env hchars.1 hchars.2

/-- The exit code is 0, 1 or 2, and only with 0 is anything written to the standard output. With 2,
a usage error, nothing has happened on the way, and no world leads to anything else. With 0, the
standard output is a notice, and nothing has happened; or it carries the plan for the request on the
line. -/
theorem stdout_is_complete (env : Environment) (r : Randomness) (s : Serializer)
    (line : List String) :
    let result := run env r s line
    (result.exitCode = 0 ∨ result.exitCode = 1 ∨ result.exitCode = 2) ∧
    (result.exitCode ≠ 0 → result.stdout = "") ∧
    (result.exitCode = 2 → result.events = [] ∧
      ∃ e : UsageError, ∀ env r s, run env r s line = .failed 2 e.report []) ∧
    (result.exitCode = 0 →
      (result.events = [] ∧ result.stdout ∈ notices) ∨
      ∃ occurrences c, readArguments line = .ok occurrences ∧
        Carries env r s occurrences c result) := by
  intro result
  rcases run_cases line with ⟨e, hrun⟩ | ⟨text, htext, hrun⟩ | ⟨occurrences, hread, hrun⟩
  · have hresult : result = .failed 2 e.report [] := hrun env r s
    simp only [hresult, RunResult.failed]
    exact ⟨by decide, fun _ => trivial, fun _ => ⟨trivial, e, hrun⟩, nofun⟩
  · have hresult : result = .printed text [] := hrun env r s
    simp only [hresult, RunResult.printed, captured_notice htext]
    exact ⟨by decide, fun h => absurd rfl h, nofun, fun _ => Or.inl ⟨trivial, htext⟩⟩
  · have hresult : result = finish ((planner env r s occurrences).plan (request occurrences)) :=
      hrun env r s
    rw [hresult]
    by_cases hanswer : ∃ text,
        ((planner env r s occurrences).plan (request occurrences)).result = .ok (.ok text)
    · obtain ⟨text, htext⟩ := hanswer
      obtain ⟨c, hcarries⟩ := carries_finish htext
      obtain ⟨hcode, -⟩ := finish_of_text htext
      rw [hcode]
      exact ⟨by decide, fun h => absurd rfl h, nofun,
        fun _ => Or.inr ⟨occurrences, c, hread, hcarries⟩⟩
    · obtain ⟨hcode, hstdout⟩ := finish_of_no_text fun text htext => hanswer ⟨text, htext⟩
      rw [hcode, hstdout]
      exact ⟨by decide, fun _ => rfl, nofun, nofun⟩

/-- The standard output lacks a control sequence of the namespace, which the plan has. -/
theorem stdout_lacks_control :
    let line := ["--namespace", "a\x1b[0mb"]
    let result := run answering ⟨fun _ => 0, 0⟩ {} line
    result.exitCode = 0 ∧ result.events ≠ [] ∧
      ∀ occurrences text, readArguments line = .ok occurrences →
        ((planner answering ⟨fun _ => 0, 0⟩ {} occurrences).plan (request occurrences)).result
          = .ok (.ok text) →
        result.stdout ≠ text ++ "\n" := by
  intro line result
  have hread : readArguments line = .ok [colorReset.occurrence] := by rfl
  have hplan : ((planner answering ⟨fun _ => 0, 0⟩ {} [colorReset.occurrence]).plan
      (request [colorReset.occurrence])).result
        = .ok (.ok (Config.content { namespaceName := "a\x1b[0mb" } answering)) := by rfl
  have hresult : result = finish ((planner answering ⟨fun _ => 0, 0⟩ {}
      [colorReset.occurrence]).plan (request [colorReset.occurrence])) := by
    simp only [result, run, hread]
    rfl
  rw [finish_eq_printed hplan] at hresult
  rw [hresult, RunResult.printed]
  refine ⟨rfl, List.concat_ne_nil _ _, ?_⟩
  intro occurrences text hoccurrences htext hstdout
  obtain rfl : [colorReset.occurrence] = occurrences := by
    rw [hread] at hoccurrences
    exact Except.ok.inj hoccurrences
  rw [hplan] at htext
  obtain rfl : Config.content { namespaceName := "a\x1b[0mb" } answering = text :=
    Except.ok.inj (Except.ok.inj htext)
  have hkept := (captured_eq_self_iff _).1 hstdout
  -- the sequence has one parameter and no intermediates
  have hcontrol : IsControl ['\x1b', '[', '0', 'm'] :=
    ⟨['0'], [], 'm', rfl, by simp [isControlParameter, isControlFinal]⟩
  exact hkept.of_content.1 _ hcontrol ⟨['a'], ['b'], by simp⟩

end BundlePlan.CommandLine
