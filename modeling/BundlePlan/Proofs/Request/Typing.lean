import BundlePlan.Manifest.Reading
import BundlePlan.Proofs.Result
import BundlePlan.Registry.Definition
import BundlePlan.Request.Resolve

/-!
# Types of arguments

The tool publishes a schema that says of which type each argument has to be. `Argument.Fits` is
what a schema says, `WellTyped` that an argument is null or fits the schema of its parameter. The
readers of a request know nothing of the schema, only the kinds of the parameters; they succeed
exactly on what is well typed.
-/

namespace BundlePlan

/-! ### Schemas -/

/-- What a schema says of a value by the types of the value and of its items. -/
inductive Argument.Fits : Value → Argument → Prop where
  | string {schema : Value} (h : schema.field? "type" = some (.text "string")) (s : String) :
    Fits schema (.text s)
  | boolean {schema : Value} (h : schema.field? "type" = some (.text "boolean")) (b : Bool) :
    Fits schema (.bool b)
  | array {schema item : Value} (h : schema.field? "type" = some (.text "array"))
    (hitems : schema.field? "items" = some item) {vs : List Argument}
    (hvs : ∀ v ∈ vs, Fits item v) : Fits schema (.list vs)

/-- The schema that the tool publishes for a parameter, if it does. -/
def Registry.schema? (p : Parameter) : Option Value :=
  (inputSchema.field? "properties").bind (·.field? p.name)

/-- Whether a value is of the type that is declared for a parameter: the one in the schema, and a
text for a parameter that is not published. -/
def Parameter.Declares (p : Parameter) (v : Argument) : Prop :=
  match Registry.schema? p with
  | some schema => v.Fits schema
  | none => ∃ s, v = .text s

/-- Whether the value of a parameter is of the declared type, if it has one other than null. -/
def Arguments.WellTyped (args : Arguments) (p : Parameter) : Prop :=
  ∀ v, args.lookup p.name = some v → v ≠ .null → p.Declares v

/-! ### Kinds -/

/-- The values of a kind. -/
def ParameterKind.Accepts : ParameterKind → Argument → Prop
  | text, v => ∃ s, v = .text s
  | flag, v => ∃ b, v = .bool b
  | texts, v => ∃ ss : List String, v = .list (ss.map .text)

theorem field?_type_schema (p : Parameter) :
    p.schema.field? "type" = some (.text p.kind.schemaType) := rfl

theorem field?_items_schema {p : Parameter} (h : p.kind = .texts) :
    p.schema.field? "items" = some (.mapping [("type", .text "string")]) := by
  cases p <;> first | rfl | simp [Parameter.kind] at h

theorem forall_text_iff (vs : List Argument) :
    (∀ v ∈ vs, ∃ s, v = .text s) ↔ ∃ ss : List String, vs = ss.map .text := by
  constructor
  · intro h
    induction vs with
    | nil => exact ⟨[], rfl⟩
    | cons v vs ih =>
      obtain ⟨s, rfl⟩ := h v List.mem_cons_self
      obtain ⟨ss, rfl⟩ := ih fun v hv => h v (List.mem_cons_of_mem _ hv)
      exact ⟨s :: ss, rfl⟩
  · intro ⟨ss, hss⟩ v hv
    obtain ⟨s, -, rfl⟩ := List.mem_map.1 (hss ▸ hv)
    exact ⟨s, rfl⟩

/-- What fits the schema of a text is a text. -/
theorem fits_string_iff {schema : Value} (h : schema.field? "type" = some (.text "string"))
    (v : Argument) : v.Fits schema ↔ ∃ s, v = .text s := by
  constructor
  · intro hv
    cases hv with
    | string _ s => exact ⟨s, rfl⟩
    | boolean h' _ => simp [h] at h'
    | array h' _ _ => simp [h] at h'
  · intro ⟨s, hs⟩
    exact hs ▸ .string h s

/-- The schema of a parameter says what its kind does. -/
theorem fits_schema_iff (p : Parameter) (v : Argument) : v.Fits p.schema ↔ p.kind.Accepts v := by
  have htype := field?_type_schema p
  cases hkind : p.kind with
  | text =>
    rw [hkind] at htype
    exact fits_string_iff htype v
  | flag =>
    rw [hkind] at htype
    constructor
    · intro hv
      cases hv with
      | string h' _ => simp [htype, ParameterKind.schemaType] at h'
      | boolean _ b => exact ⟨b, rfl⟩
      | array h' _ _ => simp [htype, ParameterKind.schemaType] at h'
    · intro ⟨b, hb⟩
      exact hb ▸ .boolean htype b
  | texts =>
    rw [hkind] at htype
    have hitems := field?_items_schema hkind
    have hitem : ∀ v : Argument, v.Fits (.mapping [("type", .text "string")]) ↔ ∃ s, v = .text s :=
      fits_string_iff rfl
    constructor
    · intro hv
      cases hv with
      | string h' _ => simp [htype, ParameterKind.schemaType] at h'
      | boolean h' _ => simp [htype, ParameterKind.schemaType] at h'
      | @array _ item _ hitems' vs hvs =>
        obtain rfl : _ = item := Option.some.inj (hitems.symm.trans hitems')
        obtain ⟨ss, hss⟩ := (forall_text_iff vs).1 fun v hv => (hitem v).1 (hvs v hv)
        exact ⟨ss, hss ▸ rfl⟩
    · intro ⟨ss, hss⟩
      subst hss
      refine .array htype hitems fun v hv => (hitem v).2 ?_
      exact (forall_text_iff _).2 ⟨ss, rfl⟩ v hv

/-- What is declared for a parameter is its kind. -/
theorem declares_iff (p : Parameter) (v : Argument) : p.Declares v ↔ p.kind.Accepts v := by
  have hschema : Registry.schema? p = some p.schema ∨
      Registry.schema? p = none ∧ p.kind = .text := by
    cases p <;> first | exact Or.inl rfl | exact Or.inr ⟨rfl, rfl⟩
  unfold Parameter.Declares
  rcases hschema with h | ⟨h, hkind⟩
  · rw [h]
    exact fits_schema_iff p v
  · rw [h, hkind]
    rfl

/-! ### Readers -/

namespace Arguments

/-- The text that is given for a parameter. -/
def textOf (args : Arguments) (p : Parameter) : Option String :=
  (args.lookup p.name).bind Argument.text?

theorem wellTyped_iff (args : Arguments) (p : Parameter) :
    args.WellTyped p ↔ ∀ v, p.value? args = some v → p.kind.Accepts v := by
  have hvalue : ∀ v, p.value? args = some v ↔ args.lookup p.name = some v ∧ v ≠ .null := by
    intro v
    unfold Parameter.value?
    split
    · next h => simp [h, eq_comm]
    · next h =>
      constructor
      · intro hv
        exact ⟨hv, fun hnull => h (hnull ▸ hv)⟩
      · exact And.left
  unfold WellTyped
  simp only [hvalue, declares_iff, and_imp]

theorem textOf_eq (args : Arguments) (p : Parameter) :
    args.textOf p = (p.value? args).bind Argument.text? := by
  unfold textOf Parameter.value?
  split
  · next h => simp [h, Argument.text?]
  · rfl

end Arguments

open Arguments

/-- A text is read exactly if the parameter is well typed, and it is the one that is given. -/
theorem text?_eq_ok_iff {args : Arguments} {p : Parameter} (hp : p.kind = .text)
    {o : Option String} :
    Request.text? args p = .ok o ↔ args.WellTyped p ∧ o = args.textOf p := by
  rw [wellTyped_iff, textOf_eq, hp, Request.text?, Parameter.text?]
  cases p.value? args with
  | none => simp [eq_comm]
  | some v => cases v <;> simp [ParameterKind.Accepts, Argument.text?, eq_comm]

theorem flag_isOk_iff {args : Arguments} {p : Parameter} (hp : p.kind = .flag) :
    (∃ b, Request.flag args p = .ok b) ↔ args.WellTyped p := by
  rw [wellTyped_iff, hp, Request.flag, Parameter.flag?]
  cases p.value? args with
  | none => simp [Except.map]
  | some v => cases v <;> simp [Except.map, ParameterKind.Accepts]

theorem argument_texts?_isSome_iff (vs : List Argument) :
    (Argument.texts? vs).isSome = true ↔ ∃ ss : List String, vs = ss.map .text := by
  rw [← forall_text_iff]
  induction vs with
  | nil => simp [Argument.texts?]
  | cons v vs ih =>
    rw [List.forall_mem_cons, ← ih, Argument.texts?]
    cases v <;> cases Argument.texts? vs <;> simp [Argument.text?]

theorem texts_isOk_iff {args : Arguments} {p : Parameter} (hp : p.kind = .texts) :
    (∃ ss, Request.texts args p = .ok ss) ↔ args.WellTyped p := by
  rw [wellTyped_iff, hp, Request.texts, Parameter.texts?]
  cases p.value? args with
  | none => simp [Except.map]
  | some v =>
    cases v with
    | list vs =>
      have hvs := argument_texts?_isSome_iff vs
      simp only [ParameterKind.Accepts, Option.some.injEq, forall_eq', Argument.list.injEq]
      rw [← hvs]
      cases Argument.texts? vs <;> simp [Except.map]
    | null | bool | int | decimal | text | mapping =>
      simp [Except.map, ParameterKind.Accepts]

end BundlePlan
