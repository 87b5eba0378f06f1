import BundlePlan.Proofs.Planning.Answers
import BundlePlan.Proofs.Planning.Equipment

/-!
# Requests that are refused

A request that is refused ends before the planner needs anything, so that it leaves the planner as
it was; only the characters of a name that was drawn for it are used up. Requests that give their
namespace draw none, so that they are answered as if the refused one had not been there.
-/

namespace BundlePlan

open Request (nonEmpty)

/-! ### Requests that give their namespace -/

/-- Whether the namespace of a request is given, so that no name has to be drawn. -/
def Step.GivesNamespace : Step → Prop
  | plan args => ∃ name, name ≠ "" ∧ args.lookup Parameter.namespaceName.name = some (.text name)
  | namespaceExists _ | cluster | world _ => True

theorem namespaceName_of_ofArguments {args : Arguments} {placement : Placement}
    (h : Placement.ofArguments args = .ok placement) :
    placement.namespaceName = nonEmpty (args.textOf .namespaceName) := by
  unfold Placement.ofArguments at h
  obtain ⟨stream, -, h⟩ := bind_eq_ok.1 h
  split at h
  · cases h
  · obtain ⟨selector, -, h⟩ := bind_eq_ok.1 h
    obtain ⟨dir, -, h⟩ := bind_eq_ok.1 h
    obtain ⟨name, hname, h⟩ := bind_eq_ok.1 h
    obtain ⟨-, rfl⟩ := (text?_eq_ok_iff rfl).1 hname
    cases h
    rfl

/-- A namespace that is given is not drawn. -/
theorem resolve_of_namespace {args : Arguments} {name : String} (hname : name ≠ "")
    (h : args.lookup Parameter.namespaceName.name = some (.text name)) (r r' : Randomness) :
    (resolve args r').1 = (resolve args r).1 ∧ (resolve args r').2 = r' := by
  unfold resolve
  cases hplacement : Placement.ofArguments args with
  | error e => exact ⟨rfl, rfl⟩
  | ok placement =>
    have hgiven : placement.namespaceName = some name := by
      rw [namespaceName_of_ofArguments hplacement, Arguments.textOf, h]
      simp [nonEmpty, Argument.text?, hname]
    simp only [Placement.chooseNamespace, hgiven]
    exact ⟨trivial, trivial⟩

/-- Neither what the request resolves to nor the source of the names depends on what is drawn. -/
theorem Step.GivesNamespace.resolved {step : Step} (h : step.GivesNamespace) (r r' : Randomness) :
    step.resolved r' = step.resolved r ∧ step.drawn r' = r' := by
  cases step with
  | plan args =>
    obtain ⟨name, hname, hgiven⟩ := h
    obtain ⟨hresult, hdrawn⟩ := resolve_of_namespace hname hgiven r r'
    exact ⟨congrArg some hresult, hdrawn⟩
  | namespaceExists | cluster | world => exact ⟨rfl, rfl⟩

namespace Planner

/-- A step that gives its namespace leads to the same whatever names are drawn. -/
theorem step_of_givesNamespace {step : Step} (h : step.GivesNamespace) (p : Planner) :
    ∃ (o : Outcome Answer) (s : Serializer), ∀ r,
      (p.equipped r p.serializer).step step = o.equipped r s := by
  rcases p.step_cases step with ⟨o, ho⟩ | ⟨args, c, q, events, rfl, -, hwrite⟩
  · refine ⟨o, p.serializer, fun r => ?_⟩
    obtain ⟨hresolved, hdrawn⟩ := h.resolved p.randomness r
    rw [ho r p.serializer hresolved, hdrawn]
  · refine ⟨⟨c.answer p.environment p.serializer, q, events⟩,
      (c.write p.environment p.serializer).2, fun r => ?_⟩
    obtain ⟨hresolved, hdrawn⟩ := h.resolved p.randomness r
    rw [hwrite r p.serializer hresolved, hdrawn]
    rfl

/-- So does a session of such steps. -/
theorem session_equipped {steps : List Step} (h : ∀ step ∈ steps, step.GivesNamespace) (p : Planner)
    (r : Randomness) :
    ((p.equipped r p.serializer).session steps).map Outcome.visible
      = (p.session steps).map Outcome.visible := by
  induction steps generalizing p with
  | nil => rfl
  | cons step steps ih =>
    obtain ⟨hstep, hsteps⟩ := List.forall_mem_cons.1 h
    obtain ⟨o, s, ho⟩ := step_of_givesNamespace hstep p
    have hthis : p.step step = o.equipped p.randomness s := ho p.randomness
    have hrest := ih hsteps (o.equipped p.randomness s).planner
    rw [session, session, ho, hthis, List.map_cons, List.map_cons, ← hrest]
    rfl

end Planner

/-! ### Refusal -/

/-- A request that is refused is answered with the reason and with nothing else: nothing is asked or
told, and the planner has the cluster, the world and the serializer that it had. If the requests
after it give their namespaces, the session goes on as if it had not been there. -/
theorem refused_request_changes_nothing (p : Planner) (before after : List Step) (args : Arguments)
    (e : RequestError) (h : (resolve args (p.afterSteps before).randomness).1 = .error e) :
    ∃ o later, p.session (before ++ .plan args :: after) = p.session before ++ o :: later ∧
      o.result = .ok (.plan (.error (.request e))) ∧ o.events = [] ∧
      o.planner.cluster = (p.afterSteps before).cluster ∧
      o.planner.serializer = (p.afterSteps before).serializer ∧
      o.planner.environment = (p.afterSteps before).environment ∧
      ((∀ step ∈ after, step.GivesNamespace) →
        (p.session (before ++ after)).map Outcome.visible
          = (p.session before ++ later).map Outcome.visible) := by
  have hplan := Planner.plan_of_error h
  refine ⟨(p.afterSteps before).step (.plan args), _,
    Planner.session_append p before (.plan args :: after), ?_⟩
  rw [Planner.step, hplan]
  refine ⟨rfl, rfl, rfl, rfl, rfl, fun hafter => ?_⟩
  rw [Planner.session_append, List.map_append, List.map_append,
    ← Planner.session_equipped hafter (p.afterSteps before)
      (resolve args (p.afterSteps before).randomness).2]
  rfl

/-- A flag that is no truth value, for which a name is drawn before it is refused. -/
theorem refused_request_changes_nothing_of_flag :
    ∃ o later, (connectedPlanner []).session [.plan [("host_network", .text "yes")],
        .plan [("namespace", .text "a")]] = o :: later ∧
      o.result = .ok (.plan (.error (.request (.kind .hostNetwork (.wrongKind .flag "str"))))) ∧
      o.planner.cluster = (connectedPlanner []).cluster ∧
      ((connectedPlanner []).session [.plan [("namespace", .text "a")]]).map Outcome.visible
        = later.map Outcome.visible := by
  have hrefused : (resolve [("host_network", .text "yes")] (connectedPlanner []).randomness).1
      = .error (.kind .hostNetwork (.wrongKind .flag "str")) := rfl
  obtain ⟨o, later, hsession, hresult, -, hcluster, -, -, hlater⟩ :=
    refused_request_changes_nothing (connectedPlanner []) [] [.plan [("namespace", .text "a")]] _ _
      hrefused
  refine ⟨o, later, hsession, hresult, hcluster, hlater fun step hstep => ?_⟩
  obtain rfl := List.mem_singleton.1 hstep
  exact ⟨"a", by decide, rfl⟩

end BundlePlan
