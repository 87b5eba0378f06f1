import BundlePlan.CommandLine.Run
import BundlePlan.Proofs.Planning.Answers
import BundlePlan.Proofs.Request.Acceptance

/-!
# Parameters that are not set

A parameter can be left out, be null, or have the value that its kind has for want of one: false,
the empty text, no images. All of these are the same to a request. What `resolve` reads is the
`setting?` of each parameter, which none of them changes; only a time limit is set by the empty
text, which is refused.
-/

namespace BundlePlan

/-! ### Settings -/

/-- The value of a kind that stands for none. -/
def ParameterKind.blank : ParameterKind → Argument
  | text => .text ""
  | flag => .bool false
  | texts => .list []

namespace Parameter

/-- Whether the parameter is a time limit. -/
def isLimit : Parameter → Bool
  | timeout | since => true
  | _ => false

/-- Whether a value sets the parameter to something. -/
def isSetBy (p : Parameter) : Argument → Bool
  | .null => false
  | .bool b => b || p.kind != .flag
  | .text s => s != "" || p.kind != .text || p.isLimit
  | .list vs => !vs.isEmpty || p.kind != .texts
  | _ => true

/-- What the parameter is set to, if it is set. -/
def setting? (p : Parameter) (args : Arguments) : Option Argument :=
  (args.lookup p.name).filter p.isSetBy

/-- A time limit is given as a text. -/
theorem isLimit_eq_false {p : Parameter} (h : p.kind ≠ .text) : p.isLimit = false := by
  cases p <;> first | rfl | exact absurd rfl h

/-- A parameter is known by its name. -/
theorem name_injective {p q : Parameter} (h : p.name = q.name) : p = q := by
  cases p <;> cases q <;> first | rfl | exact absurd h (by decide)

theorem entry_injective {p q : Parameter} {v w : Argument} (h : (p.name, v) = (q.name, w)) :
    p = q ∧ v = w := by
  obtain ⟨hname, hvalue⟩ := Prod.mk.inj h
  exact ⟨name_injective hname, hvalue⟩

end Parameter

/-- Entries that say no more than leaving them out. -/
inductive Arguments.SaysNothing : String × Argument → Prop where
  /-- No parameter has the name. -/
  | unrecognised {key : String} (h : ∀ p : Parameter, p.name ≠ key) (v : Argument) :
    SaysNothing (key, v)
  /-- There is no value. -/
  | null (key : String) : SaysNothing (key, .null)
  /-- A flag is false. -/
  | unflagged {p : Parameter} (h : p.kind = .flag) : SaysNothing (p.name, .bool false)
  /-- A text that is no time limit is empty. -/
  | emptyText {p : Parameter} (h : p.kind = .text) (hlimit : p ≠ .timeout ∧ p ≠ .since) :
    SaysNothing (p.name, .text "")
  /-- There are no images. -/
  | noImages : SaysNothing (Parameter.images.name, .list [])

/-- They do not set any parameter. -/
theorem Arguments.SaysNothing.isSetBy {p : Parameter} {v : Argument}
    (h : SaysNothing (p.name, v)) : p.isSetBy v = false := by
  generalize he : (p.name, v) = e at h
  cases h with
  | unrecognised hno _ => exact absurd (Prod.mk.inj he).1 (hno p)
  | null key =>
    obtain ⟨-, rfl⟩ := Prod.mk.inj he
    rfl
  | @unflagged q hkind =>
    obtain ⟨rfl, rfl⟩ := Parameter.entry_injective he
    simp [Parameter.isSetBy, hkind]
  | @emptyText q hkind hlimit =>
    obtain ⟨rfl, rfl⟩ := Parameter.entry_injective he
    have hno : p.isLimit = false := by
      cases p <;> first | rfl | exact absurd rfl hlimit.1 | exact absurd rfl hlimit.2
    simp [Parameter.isSetBy, hkind, hno]
  | noImages =>
    obtain ⟨rfl, rfl⟩ := Parameter.entry_injective he
    rfl

/-- What is found among the entries that are kept is what was found before, if it is kept. -/
theorem lookup_filter {args : Arguments} (hkeys : (args.map Prod.fst).Nodup)
    (keep : String × Argument → Bool) (key : String) :
    (args.filter keep).lookup key = (args.lookup key).filter fun v => keep (key, v) := by
  induction args with
  | nil => rfl
  | cons e args ih =>
    obtain ⟨key', v⟩ := e
    obtain ⟨hnot, hkeys⟩ := List.nodup_cons.1 hkeys
    have hrest := ih hkeys
    rw [List.filter_cons, List.lookup_cons]
    by_cases heq : key = key'
    · subst heq
      -- no other entry has the key
      have hnone : args.lookup key = none := by
        rw [List.lookup_eq_none_iff]
        intro e he
        exact bne_iff_ne.2 fun h => hnot (List.mem_map.2 ⟨e, he, h.symm⟩)
      rw [hnone] at hrest
      cases hkeep : keep (key, v) with
      | true => simp [Option.filter_some, hkeep]
      | false => simp only [Bool.false_eq_true, if_false, hrest, BEq.rfl, Option.filter_some, hkeep,
          Option.filter_none]
    · have hne : (key == key') = false := beq_eq_false_iff_ne.2 heq
      rw [hne]
      cases keep (key', v) with
      | true =>
        rw [if_pos rfl, List.lookup_cons, hne]
        exact hrest
      | false => exact hrest

/-- Leaving out entries that say nothing leaves the settings. -/
theorem setting?_filter {args : Arguments} (hkeys : (args.map Prod.fst).Nodup)
    {keep : String × Argument → Bool}
    (hkeep : ∀ e ∈ args, keep e = false → Arguments.SaysNothing e) (p : Parameter) :
    p.setting? (args.filter keep) = p.setting? args := by
  unfold Parameter.setting?
  rw [lookup_filter hkeys]
  cases hlookup : args.lookup p.name with
  | none => rfl
  | some v =>
    have hmem : (p.name, v) ∈ args := by
      obtain ⟨before, after, rfl, -⟩ := List.lookup_eq_some_iff.1 hlookup
      simp
    cases hkept : keep (p.name, v) with
    | true => simp only [Option.filter_some, hkept, if_true]
    | false =>
      have hset : p.isSetBy v = false := (hkeep _ hmem hkept).isSetBy
      simp only [Option.filter_some, hkept, hset, Bool.false_eq_true, if_false, Option.filter_none]

/-! ### Readers -/

open Request (flag limit? nonEmpty text? texts)

section

variable {args args' : Arguments} {p : Parameter}

/-- A parameter that is set has the value that it is set to. -/
theorem value?_of_setting? {v : Argument} (h : p.setting? args = some v) :
    p.value? args = some v := by
  obtain ⟨hlookup, hset⟩ := Option.filter_eq_some_iff.1 h
  unfold Parameter.value?
  rw [hlookup]
  cases v with
  | null => exact absurd hset (by simp [Parameter.isSetBy])
  | bool | int | decimal | text | list | mapping => rfl

/-- A value that does not set a parameter is null or blank. -/
theorem eq_blank_of_isSetBy {v : Argument} (h : p.isSetBy v = false) :
    v = .null ∨ v = p.kind.blank ∧ p.isLimit = false := by
  cases v with
  | null => exact Or.inl rfl
  | bool b =>
    obtain ⟨rfl, hkind⟩ : b = false ∧ p.kind = .flag := by simpa [Parameter.isSetBy] using h
    exact Or.inr ⟨by rw [hkind]; rfl, Parameter.isLimit_eq_false (by simp [hkind])⟩
  | text s =>
    obtain ⟨⟨rfl, hkind⟩, hlimit⟩ : (s = "" ∧ p.kind = .text) ∧ p.isLimit = false := by
      simpa [Parameter.isSetBy] using h
    exact Or.inr ⟨by rw [hkind]; rfl, hlimit⟩
  | list vs =>
    obtain ⟨rfl, hkind⟩ : vs = [] ∧ p.kind = .texts := by simpa [Parameter.isSetBy] using h
    exact Or.inr ⟨by rw [hkind]; rfl, Parameter.isLimit_eq_false (by simp [hkind])⟩
  | int | decimal | mapping => exact absurd h (by simp [Parameter.isSetBy])

/-- A parameter that is not set has no value or a blank one, and a limit has none. -/
theorem value?_of_unset (h : p.setting? args = none) :
    p.value? args = none ∨ p.value? args = some p.kind.blank ∧ p.isLimit = false := by
  unfold Parameter.setting? at h
  unfold Parameter.value?
  cases hlookup : args.lookup p.name with
  | none => exact Or.inl rfl
  | some v =>
    have hset : p.isSetBy v = false := by simpa [hlookup] using h
    rcases eq_blank_of_isSetBy hset with rfl | ⟨rfl, hlimit⟩
    · exact Or.inl rfl
    · cases hkind : p.kind <;> exact Or.inr ⟨rfl, hlimit⟩

/-- A text that is not set is read as none or as the empty one, and that of a limit as none. -/
theorem text?_of_unset (hp : p.kind = .text) (h : p.setting? args = none) :
    ∃ o, text? args p = .ok o ∧ nonEmpty o = none ∧ (p.isLimit = true → o = none) := by
  unfold text? Parameter.text?
  rcases value?_of_unset h with hnone | ⟨hblank, hlimit⟩
  · rw [hnone]
    exact ⟨none, rfl, rfl, fun _ => rfl⟩
  · rw [hblank, hp]
    exact ⟨some "", rfl, rfl, fun h => absurd h (by simp [hlimit])⟩

theorem flag_of_unset (hp : p.kind = .flag) (h : p.setting? args = none) :
    flag args p = .ok false := by
  unfold flag Parameter.flag?
  rcases value?_of_unset h with hnone | ⟨hblank, -⟩
  · rw [hnone]
    rfl
  · rw [hblank, hp]
    rfl

theorem texts_of_unset (hp : p.kind = .texts) (h : p.setting? args = none) :
    texts args p = .ok [] := by
  unfold texts Parameter.texts?
  rcases value?_of_unset h with hnone | ⟨hblank, -⟩
  · rw [hnone]
    rfl
  · rw [hblank, hp]
    rfl

/-- With the same settings the same text is read, or one that counts as not set like the other. -/
theorem text?_alike (hp : p.kind = .text) (h : p.setting? args = p.setting? args') :
    Alike (fun o o' => nonEmpty o = nonEmpty o' ∧ (p.isLimit = true → o = o')) (text? args p)
      (text? args' p) := by
  cases hset : p.setting? args with
  | none =>
    obtain ⟨o, ho, hempty, hlimit⟩ := text?_of_unset hp hset
    obtain ⟨o', ho', hempty', hlimit'⟩ := text?_of_unset hp (h ▸ hset)
    rw [ho, ho']
    exact .ok ⟨hempty.trans hempty'.symm, fun hp => (hlimit hp).trans (hlimit' hp).symm⟩
  | some v =>
    have hsame : text? args p = text? args' p := by
      rw [text?, text?, Parameter.text?, Parameter.text?, value?_of_setting? hset,
        value?_of_setting? (h ▸ hset)]
    rw [hsame]
    cases text? args' p with
    | error e => exact .error e
    | ok o => exact .ok ⟨rfl, fun _ => rfl⟩

theorem flag_congr (hp : p.kind = .flag) (h : p.setting? args = p.setting? args') :
    flag args p = flag args' p := by
  cases hset : p.setting? args with
  | none => rw [flag_of_unset hp hset, flag_of_unset hp (h ▸ hset)]
  | some v =>
    rw [flag, flag, Parameter.flag?, Parameter.flag?, value?_of_setting? hset,
      value?_of_setting? (h ▸ hset)]

theorem texts_congr (hp : p.kind = .texts) (h : p.setting? args = p.setting? args') :
    texts args p = texts args' p := by
  cases hset : p.setting? args with
  | none => rw [texts_of_unset hp hset, texts_of_unset hp (h ▸ hset)]
  | some v =>
    rw [texts, texts, Parameter.texts?, Parameter.texts?, value?_of_setting? hset,
      value?_of_setting? (h ▸ hset)]

end

/-! ### Resolving -/

section

variable {args args' : Arguments}

/-- Where a plan belongs is read off the settings. -/
theorem ofArguments_congr
    (h : ∀ p ≠ Parameter.allComponentImages, p.setting? args = p.setting? args') :
    Placement.ofArguments args = Placement.ofArguments args' := by
  rw [← alike_eq_iff]
  unfold Placement.ofArguments
  refine (text?_alike rfl (h .imageStream nofun)).bind fun stream stream' hstream => ?_
  rw [hstream.1]
  split
  · exact .error RequestError.imageStream
  · refine (text?_alike rfl (h .nodeSelector nofun)).bind fun selector selector' hselector => ?_
    refine (text?_alike rfl (h .sourceDir nofun)).bind fun dir dir' hdir => ?_
    refine (text?_alike rfl (h .namespaceName nofun)).bind fun name name' hname => ?_
    rw [hselector.1, hdir.1, hname.1]
    exact .ok rfl

/-- So is all the rest, whatever the flag for the images of all components says: it is kept and
plays no other role. -/
theorem config_alike (placement : Placement) (namespaceName : String) {R : Bool → Bool → Prop}
    (h : ∀ p ≠ Parameter.allComponentImages, p.setting? args = p.setting? args')
    (hflag : Alike R (flag args .allComponentImages) (flag args' .allComponentImages)) :
    Alike (fun c c' => R c.allComponentImages c'.allComponentImages ∧
        c' = { c with allComponentImages := c'.allComponentImages })
      (placement.config namespaceName args) (placement.config namespaceName args') := by
  unfold Placement.config
  refine (text?_alike rfl (h .gatherCommand nofun)).bind fun asked asked' hasked => ?_
  rw [texts_congr rfl (h .images nofun)]
  refine Alike.bind_same _ fun images => ?_
  refine (text?_alike rfl (h .timeout nofun)).bind fun timeout timeout' htimeout => ?_
  rw [hasked.1, htimeout.2 rfl]
  refine Alike.bind_same _ fun seconds => ?_
  refine Alike.bind_same _ fun command => ?_
  refine (text?_alike rfl (h .since nofun)).bind fun since since' hsince => ?_
  rw [hsince.2 rfl]
  refine Alike.bind_same _ fun _ => ?_
  refine (text?_alike rfl (h .nodeName nofun)).bind fun node node' hnode => ?_
  rw [flag_congr rfl (h .hostNetwork nofun)]
  refine Alike.bind_same _ fun hostNetwork => ?_
  rw [flag_congr rfl (h .keepNamespace nofun)]
  refine Alike.bind_same _ fun keepNamespace => ?_
  refine hflag.bind fun all all' hall => ?_
  rw [hnode.1]
  exact .ok ⟨hall, rfl⟩

/-- What a request resolves to is read off the settings, apart from that flag. -/
theorem resolve_alike {R : Bool → Bool → Prop}
    (h : ∀ p ≠ Parameter.allComponentImages, p.setting? args = p.setting? args')
    (hflag : Alike R (flag args .allComponentImages) (flag args' .allComponentImages))
    (r : Randomness) :
    Alike (fun c c' => R c.allComponentImages c'.allComponentImages ∧
        c' = { c with allComponentImages := c'.allComponentImages })
      (resolve args r).1 (resolve args' r).1 ∧ (resolve args r).2 = (resolve args' r).2 := by
  unfold resolve
  rw [ofArguments_congr h]
  cases Placement.ofArguments args' with
  | error e => exact ⟨.error e, rfl⟩
  | ok placement => exact ⟨config_alike placement _ h hflag, rfl⟩

/-- The settings are all that a request says. -/
theorem resolve_congr (h : ∀ p : Parameter, p.setting? args = p.setting? args')
    (r : Randomness) : resolve args r = resolve args' r := by
  have hflag := alike_eq_iff.2 (flag_congr rfl (h .allComponentImages))
  obtain ⟨hresult, hrandom⟩ := resolve_alike (fun p _ => h p) hflag r
  refine Prod.ext ?_ hrandom
  rcases hresult.eq_or_eq with ⟨e, he, he'⟩ | ⟨c, c', hc, hc', hflag, hsame⟩
  · rw [he, he']
  · rw [hc, hc', hsame, ← hflag]

end

/-! ### Planning -/

namespace Planner

variable {p : Planner} {args args' : Arguments}

theorem plan_congr (h : resolve args p.randomness = resolve args' p.randomness) :
    p.plan args = p.plan args' := by
  unfold plan
  rw [h]

/-- What is shown about the images of all components if a request that asks for them is accepted. -/
def discoveryEvents : Except RequestError Config → List Event
  | .ok _ => [.print discoveryMessage]
  | .error _ => []

/-- Asking for the images of all components shows one message more, at the beginning. -/
theorem planConfig_allComponentImages (p : Planner) {c : Config}
    (h : c.allComponentImages = false) :
    p.planConfig { c with allComponentImages := true }
      = { p.planConfig c with events := .print discoveryMessage :: (p.planConfig c).events } := by
  have hannounced : announcements { c with allComponentImages := true }
      = .print discoveryMessage :: announcements c := by
    simp [announcements, h]
  have hrender : ∀ (q : Planner) (found : Bool),
      q.render { c with allComponentImages := true } found = q.render c found := fun _ _ => rfl
  unfold planConfig
  simp only [hannounced, hrender]
  split <;> rfl

/-- The flag changes the answer to no request, and what is shown only for one that is accepted. -/
theorem plan_allComponentImages
    (h : ∀ q ≠ Parameter.allComponentImages, q.setting? args = q.setting? args')
    (hunset : flag args .allComponentImages = .ok false)
    (hset : flag args' .allComponentImages = .ok true) :
    (p.plan args').result = (p.plan args).result ∧ (p.plan args').planner = (p.plan args).planner ∧
      (p.plan args').events
        = discoveryEvents (resolve args' p.randomness).1 ++ (p.plan args).events := by
  have hflag : Alike (fun b b' => b = false ∧ b' = true) (flag args .allComponentImages)
      (flag args' .allComponentImages) := by
    rw [hunset, hset]
    exact .ok ⟨rfl, rfl⟩
  obtain ⟨hresult, hrandom⟩ := resolve_alike h hflag p.randomness
  rcases hresult.eq_or_eq with ⟨e, he, he'⟩ | ⟨c, c', hc, hc', ⟨hno, hyes⟩, hsame⟩
  · rw [plan_of_error he, plan_of_error he', hrandom, he']
    exact ⟨rfl, rfl, rfl⟩
  · rw [hyes] at hsame
    rw [plan_of_ok hc, plan_of_ok hc', hc', hsame, planConfig_allComponentImages _ hno, hrandom]
    exact ⟨rfl, rfl, rfl⟩

end Planner

/-- The entry that asks for the images of all components is the only one that is left out. -/
theorem setting?_filter_name {args : Arguments} (hkeys : (args.map Prod.fst).Nodup)
    (q : Parameter) :
    (∀ p ≠ q, p.setting? (args.filter (·.1 != q.name)) = p.setting? args) ∧
      q.setting? (args.filter (·.1 != q.name)) = none := by
  unfold Parameter.setting?
  refine ⟨fun p hp => ?_, ?_⟩
  · have hname : (p.name != q.name) = true :=
      bne_iff_ne.2 fun h => hp (Parameter.name_injective h)
    rw [lookup_filter hkeys]
    simp [hname]
  · rw [lookup_filter hkeys]
    simp

theorem lookup_of_mem {args : Arguments} (hkeys : (args.map Prod.fst).Nodup) {key : String}
    {v : Argument} (h : (key, v) ∈ args) : args.lookup key = some v := by
  obtain ⟨before, after, rfl⟩ := List.append_of_mem h
  refine List.lookup_eq_some_iff.2 ⟨before, after, rfl, fun e he => bne_iff_ne.2 fun heq => ?_⟩
  rw [List.map_append, List.map_cons, List.nodup_append] at hkeys
  exact hkeys.2.2 _ (List.mem_map_of_mem he) key List.mem_cons_self heq.symm

/-! ### Records of options -/

/-- What a record of options has for a parameter: a value of its kind, or null for a text. -/
def Parameter.HasOption (p : Parameter) (v : Argument) : Prop :=
  p.kind.Accepts v ∨ p.kind = .text ∧ v = .null

/-- The record of options with the given values. -/
def CommandLine.record (values : Parameter → Argument) : Arguments :=
  optionParameters.map fun p => (p.name, values p)

theorem nodup_record (values : Parameter → Argument) :
    ((CommandLine.record values).map Prod.fst).Nodup := by
  have hparameters : CommandLine.optionParameters.Nodup := by decide
  have hnames : (CommandLine.record values).map Prod.fst
      = CommandLine.optionParameters.map Parameter.name := by
    simp [CommandLine.record]
  rw [hnames]
  exact List.Pairwise.map _ (fun _ _ hne heq => hne (Parameter.name_injective heq)) hparameters

/-- What is not given in a record says nothing. -/
theorem saysNothing_of_not_given {p : Parameter} {v : Argument} (hv : p.HasOption v)
    (h : v.isGiven = false) : Arguments.SaysNothing (p.name, v) := by
  rcases hv with haccepts | ⟨-, rfl⟩
  · cases hkind : p.kind with
    | text =>
      rw [hkind] at haccepts
      obtain ⟨s, rfl⟩ := haccepts
      exact absurd h (by simp [Argument.isGiven])
    | flag =>
      rw [hkind] at haccepts
      obtain ⟨b, rfl⟩ := haccepts
      obtain rfl : b = false := h
      exact .unflagged hkind
    | texts =>
      rw [hkind] at haccepts
      obtain ⟨ss, rfl⟩ := haccepts
      obtain rfl : p = .images := by
        cases p <;> first | rfl | exact absurd hkind (by decide)
      cases ss with
      | nil => exact .noImages
      | cons s ss => exact absurd h (by simp [Argument.isGiven])
  · exact .null p.name

/-- The command line reads its options into such a record. -/
theorem hasOption_argument (occurrences : List CommandLine.Occurrence) (p : Parameter) :
    p.HasOption (CommandLine.argument occurrences p) := by
  unfold CommandLine.argument Parameter.HasOption
  cases hkind : p.kind with
  | text =>
    cases (CommandLine.values occurrences (.parameter p)).getLast? with
    | none => exact Or.inr ⟨rfl, rfl⟩
    | some s => exact Or.inl ⟨s, rfl⟩
  | flag => exact Or.inl ⟨_, rfl⟩
  | texts => exact Or.inl ⟨_, rfl⟩

theorem resolve_given {values : Parameter → Argument} (h : ∀ p : Parameter, p.HasOption (values p))
    (r : Randomness) :
    resolve (CommandLine.record values).given r = resolve (CommandLine.record values) r := by
  refine resolve_congr (setting?_filter (nodup_record values) fun e he hkeep => ?_) r
  obtain ⟨p, -, rfl⟩ := List.mem_map.1 he
  exact saysNothing_of_not_given (h p) hkeep

/-! ### Unset parameters -/

/-- A planner answers a request as it does without any entries that say nothing, and ends in the
same state. Asking for the images of all components changes nothing but what is shown, and that
only for a request that is accepted. A record of options, such as the command line reads, resolves
as the request that is made of what is given in it. -/
theorem unset_is_absent (p : Planner) :
    (∀ args : Arguments, (args.map Prod.fst).Nodup → ∀ keep : String × Argument → Bool,
      (∀ e ∈ args, keep e = false → Arguments.SaysNothing e) →
        p.plan (args.filter keep) = p.plan args) ∧
    (∀ args : Arguments, (args.map Prod.fst).Nodup →
      (Parameter.allComponentImages.name, Argument.bool true) ∈ args →
        let others := args.filter (·.1 != Parameter.allComponentImages.name)
        (p.plan args).result = (p.plan others).result ∧
        (p.plan args).planner = (p.plan others).planner ∧
        (p.plan args).events
          = Planner.discoveryEvents (resolve args p.randomness).1 ++ (p.plan others).events) ∧
    (∀ values : Parameter → Argument, (∀ q : Parameter, q.HasOption (values q)) → ∀ r,
      resolve (CommandLine.record values).given r = resolve (CommandLine.record values) r) ∧
    ∀ occurrences r, resolve (CommandLine.request occurrences) r
      = resolve (CommandLine.options occurrences) r := by
  refine ⟨fun args hkeys keep hkeep => ?deleted, fun args hkeys hmem => ?allImages,
    fun values hvalues r => resolve_given hvalues r,
    fun occurrences r => resolve_given (hasOption_argument occurrences) r⟩
  case deleted => exact Planner.plan_congr (resolve_congr (setting?_filter hkeys hkeep) _)
  case allImages =>
    obtain ⟨hothers, hunset⟩ := setting?_filter_name hkeys .allComponentImages
    have hset : flag args .allComponentImages = .ok true := by
      simp [flag, Parameter.flag?, Parameter.value?, lookup_of_mem hkeys hmem, Except.map]
    exact Planner.plan_allComponentImages hothers (flag_of_unset rfl hunset) hset

/-- A request with an entry for each way to say nothing, and the images of all components. -/
def blankRequest : Arguments :=
  [("unknown", .int 1), (Parameter.nodeName.name, .null),
    (Parameter.keepNamespace.name, .bool false), (Parameter.sourceDir.name, .text ""),
    (Parameter.images.name, .list []), (Parameter.namespaceName.name, .text "a"),
    (Parameter.allComponentImages.name, .bool true)]

/-- Only its namespace and its images matter, and the images of all components only for what is
shown. -/
theorem unset_is_absent_of_blankRequest :
    (connectedPlanner []).plan (blankRequest.filter fun e =>
        e.1 == Parameter.namespaceName.name || e.1 == Parameter.allComponentImages.name)
      = (connectedPlanner []).plan blankRequest ∧
    ((connectedPlanner []).plan blankRequest).events = .print Planner.discoveryMessage ::
      ((connectedPlanner []).plan
        (blankRequest.filter (·.1 != Parameter.allComponentImages.name))).events := by
  have hkeys : (blankRequest.map Prod.fst).Nodup := by decide
  obtain ⟨hdeleted, hallImages, -⟩ := unset_is_absent (connectedPlanner [])
  refine ⟨hdeleted blankRequest hkeys _ fun e he hkeep => ?_,
    (hallImages blankRequest hkeys (by simp [blankRequest])).2.2⟩
  simp only [blankRequest, List.mem_cons, List.not_mem_nil, or_false] at he
  rcases he with rfl | rfl | rfl | rfl | rfl | rfl | rfl
  · refine .unrecognised (fun p => ?_) _
    cases p <;> decide
  · exact .null _
  · exact .unflagged (p := .keepNamespace) rfl
  · exact .emptyText (p := .sourceDir) rfl (by decide)
  · exact .noImages
  · exact absurd hkeep (by decide)
  · exact absurd hkeep (by decide)

end BundlePlan
