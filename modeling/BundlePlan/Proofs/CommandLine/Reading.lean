import BundlePlan.CommandLine.Entry
import BundlePlan.CommandLine.Run

/-!
# Options are read as they are written

A line of options for parameters is read back as the options that were written, whatever their
values are: a value is taken as it stands after its option, and what is joined to a name or a
letter is never mistaken for another name.
-/

namespace BundlePlan.CommandLine

/-! ### Names and letters -/

theorem longName_parameter (p : Parameter) :
    (CommandOption.parameter p).longName = p.optionName := by
  cases p <;> decide

theorem ofLongName?_optionName (p : Parameter) :
    CommandOption.ofLongName? p.optionName = some (.parameter p) := by
  cases p <;> decide

theorem ofLetter?_of_optionLetter? {p : Parameter} {c : Char} (h : p.optionLetter? = some c) :
    CommandOption.ofLetter? c = some (.parameter p) := by
  cases p <;> simp [Parameter.optionLetter?] at h <;> subst h <;> decide

theorem takesValue_parameter (p : Parameter) :
    (CommandOption.parameter p).takesValue = true ↔ p.kind ≠ .flag := by
  simp [CommandOption.takesValue]

theorem kind_of_optionLetter? {p : Parameter} {c : Char} (h : p.optionLetter? = some c) :
    p.kind ≠ .flag := by
  cases p <;> simp [Parameter.optionLetter?, Parameter.kind] at h ⊢

theorem optionLetter?_ne {p : Parameter} {c : Char} (h : p.optionLetter? = some c) :
    c ≠ '-' ∧ c ≠ '=' := by
  cases p <;> simp [Parameter.optionLetter?] at h <;> subst h <;> decide

/-- A long name has two dashes and something after them. -/
theorem longName_eq (o : CommandOption) :
    ∃ c s, o.longName.toList = '-' :: '-' :: c :: s ∧ '=' ∉ c :: s := by
  cases o with
  | parameter p => cases p <;> exact ⟨_, _, rfl, by decide⟩
  | version | debug | select | schema | help => exact ⟨_, _, rfl, by decide⟩

/-- An option for a parameter is called by two dashes and something after them. -/
theorem optionName_eq (p : Parameter) :
    ∃ c s, p.optionName.toList = '-' :: '-' :: c :: s ∧ '=' ∉ p.optionName.toList := by
  obtain ⟨c, s, hname, hmem⟩ := longName_eq (.parameter p)
  rw [longName_parameter] at hname
  exact ⟨c, s, hname, by simpa [hname] using hmem⟩

/-- A name with one dash is no long name. -/
theorem ofLongName?_eq_none {c : Char} (hc : c ≠ '-') (s : List Char) :
    CommandOption.ofLongName? (String.ofList ('-' :: c :: s)) = none := by
  unfold CommandOption.ofLongName?
  rw [List.find?_eq_none]
  intro o _ ho
  obtain ⟨d, t, hname, -⟩ := longName_eq o
  have hlist := congrArg String.toList (beq_iff_eq.1 ho)
  rw [hname, String.toList_ofList] at hlist
  have hdash : '-' = c := by simpa using (List.cons.inj (List.cons.inj hlist).2).1
  exact hc hdash.symm

/-! ### One option -/

/-- A name without a value after it. -/
theorem splitValue_of_not_mem {s : List Char} (h : '=' ∉ s) :
    splitValue s = (String.ofList s, none) := by
  rw [splitValue, Text.cutFirst_of_not_mem h]

/-- A name with a value joined to it. -/
theorem splitValue_joined {s : List Char} (h : '=' ∉ s) (t : List Char) :
    splitValue (s ++ '=' :: t) = (String.ofList s, some (String.ofList t)) := by
  rw [splitValue, Text.cutFirst_append_cons h]

theorem readOption_optionName (p : Parameter) :
    readOption p.optionName.toList =
      .ok (if p.kind = .flag then ⟨[.flag (.parameter p)], none⟩
        else ⟨[], some (.parameter p, p.optionName)⟩) := by
  obtain ⟨-, -, -, hmem⟩ := optionName_eq p
  have htakes := takesValue_parameter p
  rw [readOption, splitValue_of_not_mem hmem, String.ofList_toList]
  simp only [ofLongName?_optionName]
  by_cases hkind : p.kind = .flag
  · have hflag : (CommandOption.parameter p).takesValue = false := by simpa [hkind] using htakes
    simp [hflag, hkind]
  · simp [htakes.2 hkind, hkind]

theorem readOption_joined {p : Parameter} (h : p.kind ≠ .flag) (value : List Char) :
    readOption (p.optionName.toList ++ '=' :: value) =
      .ok ⟨[.value (.parameter p) (String.ofList value)], none⟩ := by
  obtain ⟨-, -, -, hmem⟩ := optionName_eq p
  rw [readOption, splitValue_joined hmem, String.ofList_toList]
  simp only [ofLongName?_optionName, (takesValue_parameter p).2 h]

/-- After a letter that takes a value, everything that is joined to it is the value. -/
theorem readOption_letter {p : Parameter} {c : Char} (h : p.optionLetter? = some c)
    (value : List Char) :
    readOption ('-' :: c :: value) =
      .ok (if value = [] then ⟨[], some (.parameter p, String.ofList ['-', c])⟩
        else ⟨[.value (.parameter p) (String.ofList value)], none⟩) := by
  obtain ⟨hdash, hequals⟩ := optionLetter?_ne h
  -- the text before an equals sign is no long name either
  have hname : ∃ s, (splitValue ('-' :: c :: value)).1 = String.ofList ('-' :: c :: s) := by
    unfold splitValue Text.cutFirst Text.cutFirst
    rw [if_neg (by decide), if_neg hequals]
    cases Text.cutFirst '=' value with
    | none => exact ⟨value, rfl⟩
    | some cut => exact ⟨cut.1, rfl⟩
  obtain ⟨s, hname⟩ := hname
  have hlong : CommandOption.ofLongName? (splitValue ('-' :: c :: value)).1 = none := by
    rw [hname, ofLongName?_eq_none hdash]
  have htakes := (takesValue_parameter p).2 (kind_of_optionLetter? h)
  unfold readOption
  simp only [hlong]
  simp only [List.take_succ_cons, List.take_zero, List.cons.injEq, hdash, true_and, and_true,
    if_false, List.drop_succ_cons, List.drop_zero, readLetters, ofLetter?_of_optionLetter? h,
    htakes, if_true]
  split <;> rfl

namespace Entry

/-- How an option is read. -/
def occurrence : Entry → Occurrence
  | separate p value _ | joined p value _ | letter p _ value _ | attached p _ value _ _ =>
    .value (.parameter p) value
  | flag p _ => .flag (.parameter p)

/-- An argument that is an option. -/
theorem isOption_cons_cons (c : Char) (s : List Char) : isOption ('-' :: c :: s) = true := by
  simp [isOption]

/-- What is read as an option does not end the options. -/
theorem ne_of_readOption {a : String} {r : ArgumentReading} (h : readOption a.toList = .ok r) :
    a ≠ "--" := by
  intro heq
  have hunknown : readOption "--".toList = .error (.unknownOption "--") := rfl
  rw [heq, hunknown] at h
  cases h

/-- An option that is complete in one argument. -/
theorem readArguments_cons {a : String} {c : Char} {s : List Char} (ha : a.toList = '-' :: c :: s)
    {o : Occurrence} (h : readOption a.toList = .ok ⟨[o], none⟩) (rest : List String) :
    readArguments (a :: rest) = (readArguments rest).map (o :: ·) := by
  have hoption : isOption a.toList = true := ha ▸ isOption_cons_cons c s
  rw [readArguments.eq_def]
  simp only [ne_of_readOption h, if_false, hoption, if_true, h]
  rfl

/-- An option that takes the next argument as its value, whatever it is. -/
theorem readArguments_cons_cons {a : String} {c : Char} {s : List Char}
    (ha : a.toList = '-' :: c :: s) {o : CommandOption} {name : String}
    (h : readOption a.toList = .ok ⟨[], some (o, name)⟩) (value : String) (rest : List String) :
    readArguments (a :: value :: rest) = (readArguments rest).map (.value o value :: ·) := by
  have hoption : isOption a.toList = true := ha ▸ isOption_cons_cons c s
  rw [readArguments.eq_def]
  simp only [ne_of_readOption h, if_false, hoption, if_true, h]
  rfl

/-- The option that is written first is read first. -/
theorem readArguments_words_append (e : Entry) (rest : List String) :
    readArguments (e.words ++ rest) = (readArguments rest).map (e.occurrence :: ·) := by
  cases e with
  | separate p value h =>
    obtain ⟨c, s, hs, -⟩ := optionName_eq p
    have hread := readOption_optionName p
    rw [if_neg h] at hread
    exact readArguments_cons_cons hs hread value rest
  | joined p value h =>
    obtain ⟨c, s, hs, -⟩ := optionName_eq p
    have hlist : (p.optionName ++ "=" ++ value).toList
        = p.optionName.toList ++ '=' :: value.toList := by simp
    have hread := readOption_joined h value.toList
    rw [← hlist, String.ofList_toList] at hread
    rw [hs] at hlist
    exact readArguments_cons hlist hread rest
  | letter p c value h =>
    have hlist : (String.ofList ['-', c]).toList = ['-', c] := String.toList_ofList
    have hread := readOption_letter h []
    rw [if_pos rfl, ← hlist] at hread
    exact readArguments_cons_cons hlist hread value rest
  | attached p c value h hvalue =>
    have hlist : (String.ofList ('-' :: c :: value.toList)).toList = '-' :: c :: value.toList :=
      String.toList_ofList
    have hread := readOption_letter h value.toList
    rw [if_neg (by simpa using hvalue), ← hlist, String.ofList_toList] at hread
    exact readArguments_cons hlist hread rest
  | flag p h =>
    obtain ⟨c, s, hs, -⟩ := optionName_eq p
    have hread := readOption_optionName p
    rw [if_pos h] at hread
    exact readArguments_cons hs hread rest

/-- A line of options is read back. -/
theorem readArguments_words (entries : List Entry) :
    readArguments (entries.flatMap words) = .ok (entries.map occurrence) := by
  induction entries with
  | nil => rfl
  | cons e entries ih =>
    rw [List.flatMap_cons, readArguments_words_append, ih]
    rfl

end Entry

end BundlePlan.CommandLine
