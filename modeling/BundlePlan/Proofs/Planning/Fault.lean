import BundlePlan.Proofs.Planning.Answers
import BundlePlan.Proofs.Planning.Equipment

/-!
# Faults of the serializer

A fault strikes one call of the serializer. A session with the fault is compared with the same one
without it: at every step their planners are `Twins`, which differ in nothing but the serializer.
The serializers have counted the same number of calls until the fault, and both are past it
afterwards: the request that meets the fault stops counting there, so that the numbers differ from
then on, but no later call can have the number of the fault.
-/

namespace BundlePlan

/-! ### Documents -/

namespace Config

/-- The kinds of the documents that are written for a configuration, in order. -/
def documentKinds (c : Config) (env : Environment) : List String :=
  (if env.hasNamespace c.namespaceName then [] else ["Namespace"])
    ++ ["ServiceAccount", "ClusterRoleBinding", "Pod"]

theorem map_fst_documents (c : Config) (env : Environment) :
    (Manifest.forCluster c (env.hasNamespace c.namespaceName)).documents.map Prod.fst
      = c.documentKinds env := by
  unfold documentKinds
  cases env.hasNamespace c.namespaceName <;> rfl

theorem length_documents (c : Config) (env : Environment) :
    (Manifest.forCluster c (env.hasNamespace c.namespaceName)).documents.length
      = (c.documentKinds env).length := by
  rw [← map_fst_documents, List.length_map]

theorem write_of_spares {c : Config} {env : Environment} {s : Serializer}
    (h : s.Spares (c.documentKinds env).length) :
    c.write env s
      = (.ok (c.content env), { s with calls := s.calls + (c.documentKinds env).length }) := by
  rw [← length_documents] at h ⊢
  exact Manifest.text_of_spares _ _ h

/-- The error names the kind of the document whose turn it is. -/
theorem write_of_fault {c : Config} {env : Environment} {s : Serializer} {fault : SerializerFault}
    (hf : s.fault = some fault) (hle : s.calls ≤ fault.call)
    (hlt : fault.call < s.calls + (c.documentKinds env).length) :
    ∃ kind, (c.documentKinds env)[fault.call - s.calls]? = some kind ∧
      c.write env s = (.error ⟨kind, fault.message⟩, { s with calls := fault.call + 1 }) := by
  rw [← length_documents] at hlt
  obtain ⟨d, hd, hwrite⟩ := Manifest.text_of_fault _ c.handling hf hle hlt
  refine ⟨d.1, ?_, hwrite⟩
  rw [← map_fst_documents, List.getElem?_map, hd]
  rfl

end Config

namespace Planner

/-- The planner with a fault of its serializer, or with none. -/
def withFault (p : Planner) (fault : Option SerializerFault) : Planner :=
  { p with serializer := { p.serializer with fault } }

/-- The call of the serializer that has a given number is made in the steps. -/
def Calls (p : Planner) (n : Nat) (steps : List Step) : Prop :=
  p.serializer.calls ≤ n ∧ n < (p.afterSteps steps).serializer.calls

/-- How a step of a planner ends that makes the call with the fault: `o` without the fault and `o'`
with it. -/
structure AbortedBy (fault : SerializerFault) (p : Planner) (step : Step) (o o' : Outcome Answer) :
    Prop where
  /-- Without the fault there is a text. -/
  answered : ∃ t, o.result = .ok (.plan (.ok t))
  /-- With it there is an error in its place, which names the kind of the document whose turn it
  is. -/
  aborted : ∃ args c kind, step = .plan args ∧ (resolve args p.randomness).1 = .ok c ∧
    (c.documentKinds p.environment)[fault.call - p.serializer.calls]? = some kind ∧
    o'.result = .error (.render ⟨kind, fault.message⟩)
  /-- The call with the fault is the last one that is made. -/
  last_call : o'.planner.serializer.calls = fault.call + 1
  events : o'.events = o.events
  cluster : o'.planner.cluster = o.planner.cluster
  randomness : o'.planner.randomness = o.planner.randomness

/-! ### One step -/

/-- A planner without the fault and one with it in the same state, both before the call with the
fault or both after it. -/
structure Twins (fault : SerializerFault) (p q : Planner) : Prop where
  state : q = p.equipped p.randomness q.serializer
  sound : p.serializer.fault = none
  faulty : q.serializer.fault = some fault
  calls : q.serializer.calls = p.serializer.calls ∨
    fault.call < q.serializer.calls ∧ fault.call < p.serializer.calls

/-- What a step of twins leads to. -/
structure StepTwins (fault : SerializerFault) (p : Planner) (step : Step) (o o' : Outcome Answer) :
    Prop where
  twins : Twins fault o.planner o'.planner
  events : o'.events = o.events
  calls_le : p.serializer.calls ≤ o.planner.serializer.calls
  aborted : p.serializer.calls ≤ fault.call → fault.call < o.planner.serializer.calls →
    AbortedBy fault p step o o'
  agreed : ¬(p.serializer.calls ≤ fault.call ∧ fault.call < o.planner.serializer.calls) →
    o'.result = o.result

theorem withFault_twins (p : Planner) (fault : SerializerFault) :
    Twins fault (p.withFault none) (p.withFault (some fault)) :=
  ⟨rfl, rfl, rfl, Or.inl rfl⟩

/-- Twins make the same step, but for the one that makes the call with the fault. -/
theorem Twins.step {fault : SerializerFault} {p q : Planner} (h : Twins fault p q) (step : Step) :
    StepTwins fault p step (p.step step) (q.step step) := by
  obtain ⟨hstate, hsound, hfaulty, hcalls⟩ := h
  rcases p.step_cases step with ⟨o, ho⟩ | ⟨args, c, after, events, hplan, hresolve, hwrite⟩
  · -- the serializer is not used
    have hp : p.step step = o.equipped (step.drawn p.randomness) p.serializer := ho _ _ rfl
    have hq : q.step step = o.equipped (step.drawn p.randomness) q.serializer := by
      rw [hstate]
      exact ho _ _ rfl
    rw [hp, hq]
    exact
      { twins := ⟨rfl, hsound, hfaulty, hcalls⟩
        events := rfl
        calls_le := Nat.le_refl _
        aborted := fun hle hlt => absurd hlt (Nat.not_lt.2 hle)
        agreed := fun _ => rfl }
  · have hp := hwrite p.randomness p.serializer rfl
    have hq : q.step step = _ := (congrArg (·.step step) hstate).trans
      (hwrite p.randomness q.serializer rfl)
    have hsoundWrite : c.write p.environment p.serializer = _ :=
      Config.write_of_spares (Serializer.spares_of_no_fault hsound _)
    rw [equipped_self, Config.answer, hsoundWrite] at hp
    rw [hp, hq, Config.answer]
    by_cases hmeets : q.serializer.calls ≤ fault.call ∧
        fault.call < q.serializer.calls + (c.documentKinds p.environment).length
    · -- the fault is still to come, so that the numbers of calls agree
      have heq : q.serializer.calls = p.serializer.calls := by omega
      obtain ⟨kind, hkind, hfaultyWrite⟩ := Config.write_of_fault hfaulty hmeets.1 hmeets.2
      rw [hfaultyWrite]
      rw [heq] at hkind hmeets
      exact
        { twins := ⟨rfl, hsound, hfaulty, Or.inr ⟨Nat.lt_succ_self _, hmeets.2⟩⟩
          events := rfl
          calls_le := Nat.le_add_right _ _
          aborted := fun _ _ =>
            { answered := ⟨_, rfl⟩
              aborted := ⟨args, c, kind, hplan, hresolve, hkind, rfl⟩
              last_call := rfl
              events := rfl
              cluster := rfl
              randomness := rfl }
          agreed := fun hno => absurd hmeets hno }
    · have hspares : q.serializer.Spares (c.documentKinds p.environment).length := by
        intro f hf
        obtain rfl := Option.some.inj (hfaulty.symm.trans hf)
        omega
      rw [Config.write_of_spares hspares]
      have hno : ¬(p.serializer.calls ≤ fault.call ∧
          fault.call < p.serializer.calls + (c.documentKinds p.environment).length) := by
        omega
      refine
        { twins := ⟨rfl, hsound, hfaulty, ?_⟩
          events := rfl
          calls_le := Nat.le_add_right _ _
          aborted := fun hle hlt => absurd ⟨hle, hlt⟩ hno
          agreed := fun _ => rfl }
      simp only [equipped_serializer]
      omega

/-! ### Sessions -/

section

variable {fault : SerializerFault} {p q : Planner}

theorem Twins.afterSteps (h : Twins fault p q) (steps : List Step) :
    Twins fault (p.afterSteps steps) (q.afterSteps steps) := by
  induction steps generalizing p q with
  | nil => exact h
  | cons step steps ih => exact ih (h.step step).twins

theorem Twins.calls_le (h : Twins fault p q) (steps : List Step) :
    p.serializer.calls ≤ (p.afterSteps steps).serializer.calls := by
  induction steps generalizing p q with
  | nil => exact Nat.le_refl _
  | cons step steps ih => exact Nat.le_trans (h.step step).calls_le (ih (h.step step).twins)

/-- Sessions of twins that do not make the call with the fault look the same. -/
theorem Twins.session (h : Twins fault p q) {steps : List Step} (hno : ¬p.Calls fault.call steps) :
    (q.session steps).map Outcome.visible = (p.session steps).map Outcome.visible := by
  induction steps generalizing p q with
  | nil => rfl
  | cons step steps ih =>
    have hstep := h.step step
    have hle := hstep.calls_le
    have hlater := hstep.twins.calls_le steps
    have hall : ¬(p.serializer.calls ≤ fault.call ∧
        fault.call < ((p.step step).planner.afterSteps steps).serializer.calls) := hno
    have hresult := hstep.agreed (by omega)
    have hrest := ih hstep.twins (show ¬(_ ≤ _ ∧ _ < _) by omega)
    rw [Planner.session, Planner.session, List.map_cons, List.map_cons, hrest, Outcome.visible,
      Outcome.visible, hresult, hstep.events]

end

/-- A call that is made in some steps is made in one of them. -/
theorem exists_calls {p : Planner} {n : Nat} {steps : List Step} (h : p.Calls n steps) :
    ∃ before step after, steps = before ++ step :: after ∧
      (p.afterSteps before).Calls n [step] := by
  induction steps generalizing p with
  | nil =>
    obtain ⟨hle, hlt⟩ := h
    exact absurd hlt (Nat.not_lt.2 hle)
  | cons step steps ih =>
    obtain ⟨hle, hlt⟩ := h
    by_cases hthis : n < (p.step step).planner.serializer.calls
    · exact ⟨[], step, steps, rfl, hle, hthis⟩
    · obtain ⟨before, step', after, rfl, hcalls⟩ :=
        ih (p := (p.step step).planner) ⟨Nat.not_lt.1 hthis, hlt⟩
      exact ⟨step :: before, step', after, rfl, hcalls⟩

end Planner

/-- A session with a fault of the serializer ends in the state of the session without it, but for
the serializer. If the call with the fault is not made, the two look the same. If it is, one request
is aborted, and all that comes before and after it looks the same. -/
theorem fault_aborts_one_request (p : Planner) (fault : SerializerFault) (steps : List Step) :
    let sound := p.withFault none
    let faulty := p.withFault (some fault)
    faulty.afterSteps steps = (sound.afterSteps steps).equipped
      (sound.afterSteps steps).randomness (faulty.afterSteps steps).serializer ∧
    (¬sound.Calls fault.call steps →
      (faulty.session steps).map Outcome.visible = (sound.session steps).map Outcome.visible) ∧
    (sound.Calls fault.call steps → ∃ before step after o o' later later',
      steps = before ++ step :: after ∧ (sound.afterSteps before).Calls fault.call [step] ∧
      sound.session steps = sound.session before ++ o :: later ∧
      faulty.session steps = faulty.session before ++ o' :: later' ∧
      (faulty.session before).map Outcome.visible = (sound.session before).map Outcome.visible ∧
      Planner.AbortedBy fault (sound.afterSteps before) step o o' ∧
      later'.map Outcome.visible = later.map Outcome.visible) := by
  intro sound faulty
  have htwins : Planner.Twins fault sound faulty := Planner.withFault_twins p fault
  refine ⟨(htwins.afterSteps steps).state, htwins.session, fun hcalls => ?_⟩
  obtain ⟨before, step, after, rfl, hstep⟩ := Planner.exists_calls hcalls
  have hbefore := htwins.afterSteps before
  have htwinStep := hbefore.step step
  obtain ⟨hle, hlt⟩ := hstep
  refine ⟨before, step, after, _, _, _, _, rfl, ⟨hle, hlt⟩,
    Planner.session_append sound before (step :: after),
    Planner.session_append faulty before (step :: after),
    htwins.session fun h => ?_, htwinStep.aborted hle hlt, htwinStep.twins.session fun h => ?_⟩
  · exact absurd h.2 (Nat.not_lt.2 hle)
  · exact absurd h.1 (Nat.not_le.2 hlt)

/-- A request of four documents, of which the third one is not written. -/
theorem fault_aborts_one_request_of_third :
    ((connectedPlanner []).withFault none).Calls 2 [.plan [("namespace", .text "a")]] ∧
      ∃ o ∈ ((connectedPlanner []).withFault (some ⟨2, "no"⟩)).session
        [.plan [("namespace", .text "a")]],
        o.result = .error (.render ⟨"ClusterRoleBinding", "no"⟩) := by
  have hcalls : ((connectedPlanner []).withFault none).Calls 2 [.plan [("namespace", .text "a")]] :=
    ⟨Nat.zero_le 2, show 2 < 4 by decide⟩
  obtain ⟨before, step, after, o, o', later, later', hsteps, -, -, hsession, -, habort, -⟩ :=
    (fault_aborts_one_request (connectedPlanner []) ⟨2, "no"⟩ _).2.2 hcalls
  have hlength := congrArg List.length hsteps
  simp only [List.length_append, List.length_cons, List.length_nil] at hlength
  obtain rfl : before = [] := List.eq_nil_of_length_eq_zero (by omega)
  obtain ⟨args, c, kind, hplan, hresolve, hkind, herror⟩ := habort.aborted
  obtain rfl : [("namespace", .text "a")] = args :=
    Step.plan.inj ((List.cons.inj hsteps).1.trans hplan)
  obtain rfl : { namespaceName := "a" } = c :=
    Except.ok.inj ((resolve_namespace _).symm.trans hresolve)
  obtain rfl : "ClusterRoleBinding" = kind := Option.some.inj hkind
  exact ⟨hcalls, o', by simp [hsession], herror⟩

end BundlePlan
