import BundlePlan.Path
import BundlePlan.Proofs.Text.Lines
import Mathlib.Data.List.Induction
import Mathlib.Data.List.Infix

/-!
# Where a path leads

What a text denotes as a path is said by its segments: `Visits` is what one segment does to the
segments that have been kept so far, and `Leads` what all of them do one after the other. The kept
segments are always `Settled`: visiting them again keeps them all. So the shortest text of a path
denotes the path (`denotes_text`), and with it everything about `normalize` follows from what is
denoted (`normalize_is_canonical`).
-/

namespace BundlePlan.Path

/-! ### The meaning of a path -/

/-- What a segment does to the segments that have been kept before it. -/
inductive Visits (isAbsolute : Bool) : List (List Char) → List Char → List (List Char) → Prop where
  /-- An empty segment and `.` do nothing. -/
  | stay {kept : List (List Char)} {segment : List Char} (h : segment = [] ∨ segment = ['.']) :
    Visits isAbsolute kept segment kept
  /-- `..` takes away the last segment if that is not `..` itself. -/
  | back {kept : List (List Char)} {last : List Char} (h : last ≠ parent) :
    Visits isAbsolute (kept ++ [last]) parent kept
  /-- Otherwise it is dropped in an absolute path. -/
  | drop {kept : List (List Char)} (h : ∀ last ∈ kept.getLast?, last = parent)
    (habsolute : isAbsolute = true) : Visits isAbsolute kept parent kept
  /-- And in a relative one it is kept. -/
  | climb {kept : List (List Char)} (h : ∀ last ∈ kept.getLast?, last = parent)
    (hrelative : isAbsolute = false) : Visits isAbsolute kept parent (kept ++ [parent])
  /-- Any other segment is kept. -/
  | enter {kept : List (List Char)} {segment : List Char} (hempty : segment ≠ [])
    (hdot : segment ≠ ['.']) (hparent : segment ≠ parent) :
    Visits isAbsolute kept segment (kept ++ [segment])

/-- What segments do one after the other, from left to right. -/
inductive Leads (isAbsolute : Bool) :
    List (List Char) → List (List Char) → List (List Char) → Prop where
  | nil (kept : List (List Char)) : Leads isAbsolute kept [] kept
  | cons {kept next last : List (List Char)} {segment : List Char} {segments : List (List Char)}
    (h : Visits isAbsolute kept segment next) (hrest : Leads isAbsolute next segments last) :
    Leads isAbsolute kept (segment :: segments) last

/-- A path is what a text denotes. -/
structure Denotes (s : List Char) (p : Path) : Prop where
  /-- The path is absolute if the text starts with a slash. -/
  isAbsolute : p.isAbsolute = true ↔ s.head? = some '/'
  /-- Its segments are those that are kept of the text between the slashes. -/
  leads : Leads p.isAbsolute [] (Text.pieces '/' s) p.segments

section

variable {isAbsolute : Bool} {kept kept' next : List (List Char)} {segment : List Char}
  {segments : List (List Char)}

theorem Leads.append {segments' : List (List Char)} (h : Leads isAbsolute kept segments next)
    (h' : Leads isAbsolute next segments' kept') :
    Leads isAbsolute kept (segments ++ segments') kept' := by
  induction h with
  | nil kept => exact h'
  | cons hvisits _ ih => exact .cons hvisits (ih h')

theorem Leads.singleton (h : Visits isAbsolute kept segment next) :
    Leads isAbsolute kept [segment] next :=
  .cons h (.nil next)

/-! ### Settled segments -/

/-- Segments that are all kept: first any number of `..`, but none in an absolute path, and then
segments that name something. -/
inductive Settled (isAbsolute : Bool) : List (List Char) → Prop where
  | parents (n : Nat) (h : isAbsolute = true → n = 0) :
    Settled isAbsolute (List.replicate n parent)
  | enter {kept : List (List Char)} {segment : List Char} (h : Settled isAbsolute kept)
    (hempty : segment ≠ []) (hdot : segment ≠ ['.']) (hparent : segment ≠ parent)
    (hslash : '/' ∉ segment) : Settled isAbsolute (kept ++ [segment])

theorem settled_nil (isAbsolute : Bool) : Settled isAbsolute [] := .parents 0 fun _ => rfl

theorem Settled.parent_not_mem (h : Settled isAbsolute kept) (habsolute : isAbsolute = true) :
    parent ∉ kept := by
  induction h with
  | parents n hn => simp [hn habsolute]
  | enter _ _ _ hparent _ ih => simp [ih, Ne.symm hparent]

/-- Settled segments are nonempty and found again between slashes. -/
theorem Settled.forall_mem (h : Settled isAbsolute kept) :
    ∀ segment ∈ kept, segment ≠ [] ∧ '/' ∉ segment := by
  induction h with
  | parents n =>
    intro segment hsegment
    rw [List.eq_of_mem_replicate hsegment]
    decide
  | enter _ hempty _ _ hslash ih =>
    intro s hs
    obtain hs | hs := List.mem_append.1 hs
    · exact ih s hs
    · rw [List.mem_singleton.1 hs]
      exact ⟨hempty, hslash⟩

/-- What a segment keeps is settled again. -/
theorem Visits.settled (h : Visits isAbsolute kept segment next) (hkept : Settled isAbsolute kept)
    (hslash : '/' ∉ segment) : Settled isAbsolute next := by
  cases h with
  | stay => exact hkept
  | drop => exact hkept
  | enter hempty hdot hparent => exact .enter hkept hempty hdot hparent hslash
  | climb hlast hrelative =>
    cases hkept with
    | parents n hn =>
      rw [← List.replicate_succ']
      exact .parents _ fun habsolute => absurd (hrelative.symm.trans habsolute) nofun
    | enter _ _ _ hparent => exact absurd (hlast _ (by simp)) hparent
  | @back _ last hlast =>
    generalize hwhole : next ++ [last] = whole at hkept
    cases hkept with
    | parents n =>
      have hmem : last ∈ List.replicate n parent :=
        hwhole ▸ List.mem_append_right _ List.mem_cons_self
      exact absurd (List.eq_of_mem_replicate hmem) hlast
    | enter hbefore =>
      obtain ⟨rfl, -⟩ := List.append_inj' hwhole rfl
      exact hbefore

theorem Leads.settled (h : Leads isAbsolute kept segments next) (hkept : Settled isAbsolute kept)
    (hslash : ∀ segment ∈ segments, '/' ∉ segment) : Settled isAbsolute next := by
  induction h with
  | nil => exact hkept
  | cons hvisits _ ih =>
    obtain ⟨hhead, hslash⟩ := List.forall_mem_cons.1 hslash
    exact ih (hvisits.settled hkept hhead) hslash

/-- Settled segments are all kept when they are visited again. -/
theorem Settled.leads (h : Settled isAbsolute kept) : Leads isAbsolute [] kept kept := by
  induction h with
  | enter _ hempty hdot hparent _ ih => exact ih.append (.singleton (.enter hempty hdot hparent))
  | parents n hn =>
    induction n with
    | zero => exact .nil []
    | succ n ih =>
      have hrelative : isAbsolute = false := by
        rw [← Bool.not_eq_true]
        exact fun habsolute => absurd (hn habsolute) (Nat.succ_ne_zero n)
      rw [List.replicate_succ']
      refine (ih fun habsolute => absurd (hrelative.symm.trans habsolute) nofun).append
        (.singleton (.climb (fun last hlast => ?_) hrelative))
      exact List.eq_of_mem_replicate (List.mem_of_mem_getLast? hlast)

/-! ### What `read` keeps -/

theorem visit_stay (visited : List (List Char)) (h : segment = [] ∨ segment = ['.']) :
    visit isAbsolute visited segment = visited :=
  if_pos h

theorem visit_parent_nil : visit isAbsolute [] parent = if isAbsolute then [] else [parent] := rfl

theorem visit_parent_cons (last : List Char) (before : List (List Char)) :
    visit isAbsolute (last :: before) parent
      = if last = parent then parent :: last :: before else before := rfl

theorem visit_enter (visited : List (List Char)) (hempty : segment ≠ []) (hdot : segment ≠ ['.'])
    (hparent : segment ≠ parent) : visit isAbsolute visited segment = segment :: visited := by
  unfold visit
  rw [if_neg (not_or.2 ⟨hempty, hdot⟩), if_neg hparent]

/-- `visit` does what a segment does. In an absolute path it relies on there being no `..`. -/
theorem visits_iff (hparent : isAbsolute = true → parent ∉ kept) :
    Visits isAbsolute kept segment next
      ↔ (visit isAbsolute kept.reverse segment).reverse = next := by
  constructor
  · intro h
    cases h with
    | stay h => rw [visit_stay _ h, List.reverse_reverse]
    | @back _ last hlast =>
      rw [List.reverse_append, List.reverse_singleton, List.singleton_append, visit_parent_cons,
        if_neg hlast, List.reverse_reverse]
    | enter hempty hdot hparent =>
      rw [visit_enter _ hempty hdot hparent, List.reverse_cons, List.reverse_reverse]
    | drop hlast habsolute =>
      obtain rfl | ⟨before, last, rfl⟩ := List.eq_nil_or_concat' kept
      · rw [List.reverse_nil, visit_parent_nil, if_pos habsolute, List.reverse_nil]
      · have hmem : parent ∈ before ++ [last] := by simp [hlast last (by simp)]
        exact absurd hmem (hparent habsolute)
    | climb hlast hrelative =>
      obtain rfl | ⟨before, last, rfl⟩ := List.eq_nil_or_concat' kept
      · rw [List.reverse_nil, visit_parent_nil, hrelative]
        rfl
      · have heq : last = parent := hlast last (by simp)
        rw [List.reverse_append, List.reverse_singleton, List.singleton_append, visit_parent_cons,
          if_pos heq, List.reverse_cons, List.reverse_cons, List.reverse_reverse]
  · rintro rfl
    by_cases hstay : segment = [] ∨ segment = ['.']
    · rw [visit_stay _ hstay, List.reverse_reverse]
      exact .stay hstay
    obtain ⟨hempty, hdot⟩ := not_or.1 hstay
    by_cases heq : segment = parent
    · subst heq
      obtain rfl | ⟨before, last, rfl⟩ := List.eq_nil_or_concat' kept
      · rw [List.reverse_nil, visit_parent_nil]
        cases isAbsolute with
        | true => exact .drop nofun rfl
        | false => exact .climb nofun rfl
      · rw [List.reverse_append, List.reverse_singleton, List.singleton_append, visit_parent_cons]
        by_cases hlast : last = parent
        · rw [if_pos hlast, List.reverse_cons, List.reverse_cons, List.reverse_reverse]
          refine .climb (by simp [hlast]) (Bool.eq_false_iff.2 fun habsolute => ?_)
          exact hparent habsolute (by simp [hlast])
        · rw [if_neg hlast, List.reverse_reverse]
          exact .back hlast
    · rw [visit_enter _ hempty hdot heq, List.reverse_cons, List.reverse_reverse]
      exact .enter hempty hdot heq

/-- Visiting segments one after the other does what the segments do. -/
theorem leads_iff (hkept : Settled isAbsolute kept)
    (hslash : ∀ segment ∈ segments, '/' ∉ segment) :
    Leads isAbsolute kept segments next
      ↔ (segments.foldl (visit isAbsolute) kept.reverse).reverse = next := by
  induction segments generalizing kept with
  | nil =>
    rw [List.foldl_nil, List.reverse_reverse]
    constructor
    · intro h
      cases h
      rfl
    · rintro rfl
      exact .nil kept
  | cons segment segments ih =>
    obtain ⟨hhead, hslash⟩ := List.forall_mem_cons.1 hslash
    rw [List.foldl_cons]
    -- where the first segment leads from here
    obtain ⟨mid, hmid⟩ : ∃ mid, (visit isAbsolute kept.reverse segment).reverse = mid := ⟨_, rfl⟩
    have hvisits := (visits_iff hkept.parent_not_mem).2 hmid
    rw [List.reverse_eq_iff.1 hmid, ← ih (hvisits.settled hkept hhead) hslash]
    constructor
    · intro h
      cases h with
      | cons hfirst hrest =>
        obtain rfl := hmid.symm.trans ((visits_iff hkept.parent_not_mem).1 hfirst)
        exact hrest
    · exact .cons hvisits

end

/-! ### What a text denotes -/

theorem settled_of_denotes {s : List Char} {p : Path} (h : Denotes s p) :
    Settled p.isAbsolute p.segments :=
  h.leads.settled (settled_nil _) fun _ => Text.not_mem_of_mem_pieces

/-- `read` finds the one path that a text denotes. -/
theorem denotes_iff {s : List Char} {p : Path} : Denotes s p ↔ read s = p := by
  have hsegments : ∀ a, Leads a [] (Text.pieces '/' s) p.segments
      ↔ ((Text.pieces '/' s).foldl (visit a) []).reverse = p.segments :=
    fun a => leads_iff (settled_nil a) fun _ => Text.not_mem_of_mem_pieces
  constructor
  · intro h
    have habsolute : (s.head? == some '/') = p.isAbsolute := by
      rw [Bool.eq_iff_iff, beq_iff_eq, h.isAbsolute]
    have hread := (hsegments _).1 h.leads
    rw [read, habsolute, hread]
  · rintro rfl
    exact ⟨beq_iff_eq, (hsegments _).2 rfl⟩

/-- A joined text starts like its first part, if that is not empty. -/
theorem head?_joined {first : List Char} (hne : first ≠ []) (rest : List (List Char)) :
    (Text.joined '/' (first :: rest)).head? = first.head? := by
  cases rest with
  | nil => rfl
  | cons second rest =>
    rw [Text.joined]
    exact List.head?_append_of_ne_nil _ hne

theorem joined_eq_intercalate (parts : List (List Char)) :
    Text.joined '/' parts = ['/'].intercalate parts := by
  induction parts with
  | nil => rfl
  | cons first rest ih =>
    cases rest with
    | nil => simp [Text.joined, List.intercalate]
    | cons second rest => simp [Text.joined, ih, List.intercalate]

section

variable {p : Path}

/-- Settled segments are found again in their text. -/
theorem leads_pieces_joined {isAbsolute : Bool} {kept : List (List Char)}
    (h : Settled isAbsolute kept) :
    Leads isAbsolute [] (Text.pieces '/' (Text.joined '/' kept)) kept := by
  by_cases hkept : kept = []
  · subst hkept
    exact .singleton (.stay (Or.inl rfl))
  · rw [Text.pieces_joined hkept fun segment hsegment => (h.forall_mem segment hsegment).2]
    exact h.leads

/-- A relative path is not written with a slash in front. -/
theorem head?_text_of_relative (h : Settled p.isAbsolute p.segments)
    (hrelative : p.isAbsolute = false) : ∃ c, p.text.head? = some c ∧ c ≠ '/' := by
  obtain ⟨isAbsolute, kept⟩ := p
  obtain rfl : isAbsolute = false := hrelative
  cases kept with
  | nil => exact ⟨'.', rfl, by decide⟩
  | cons first rest =>
    obtain ⟨hne, hslash⟩ := h.forall_mem first List.mem_cons_self
    obtain ⟨c, cs, rfl⟩ := List.exists_cons_of_ne_nil hne
    refine ⟨c, head?_joined hne rest, fun hc => hslash ?_⟩
    exact hc ▸ List.mem_cons_self

theorem text_ne_nil (h : Settled p.isAbsolute p.segments) : p.text ≠ [] := by
  cases habsolute : p.isAbsolute with
  | true => simp [text, habsolute]
  | false =>
    obtain ⟨c, hc, -⟩ := head?_text_of_relative h habsolute
    intro hnil
    simp [hnil] at hc

/-- The text of settled segments denotes them. -/
theorem denotes_text (h : Settled p.isAbsolute p.segments) : Denotes p.text p := by
  cases habsolute : p.isAbsolute with
  | true =>
    have htext : p.text = '/' :: Text.joined '/' p.segments := by rw [text, if_pos habsolute]
    refine ⟨by simp [habsolute, htext], ?_⟩
    rw [htext, Text.pieces_cons_sep]
    exact .cons (.stay (Or.inl rfl)) (leads_pieces_joined h)
  | false =>
    obtain ⟨c, hc, hslash⟩ := head?_text_of_relative h habsolute
    refine ⟨by simp [habsolute, hc, hslash], ?_⟩
    by_cases hnil : p.segments = []
    · have htext : p.text = ['.'] := by simp [text, habsolute, hnil]
      rw [htext, hnil]
      exact .singleton (.stay (Or.inr rfl))
    · have htext : p.text = Text.joined '/' p.segments := by simp [text, habsolute, hnil]
      rw [htext]
      exact leads_pieces_joined h

theorem read_text (h : Settled p.isAbsolute p.segments) : read p.text = p :=
  denotes_iff.1 (denotes_text h)

end

theorem settled_read (s : List Char) : Settled (read s).isAbsolute (read s).segments :=
  settled_of_denotes (denotes_iff.2 rfl)

/-- What comes behind a slash starts from where the text before it leads. -/
theorem read_append {s : List Char} (hs : s ≠ []) (t : List Char) :
    read (s ++ '/' :: t) =
      ⟨(read s).isAbsolute, ((Text.pieces '/' t).foldl (visit (read s).isAbsolute)
        (read s).segments.reverse).reverse⟩ := by
  have hhead : (s ++ '/' :: t).head? = s.head? := List.head?_append_of_ne_nil _ hs
  simp only [read, hhead, Text.pieces_append_cons, List.foldl_append, List.reverse_reverse]

/-! ### The shortest text -/

theorem toList_normalize (s : String) : (normalize s).toList = (read s.toList).text :=
  String.toList_ofList

/-- The shortest text of a path leads where the path leads. -/
theorem read_normalize (s : String) : read (normalize s).toList = read s.toList := by
  rw [toList_normalize, read_text (settled_read s.toList)]

theorem normalize_eq_iff (s t : String) :
    normalize s = normalize t ↔ read s.toList = read t.toList := by
  constructor
  · intro h
    rw [← read_normalize s, h, read_normalize]
  · intro h
    rw [normalize, normalize, h]

/-- Every text denotes exactly one path, and `normalize` gives the text that spells out its
segments. So two texts have the same shortest text exactly if they denote the same path, the
shortest text is its own shortest text, and a text that is not empty can be replaced by its shortest
text in front of anything else. -/
theorem normalize_is_canonical :
    (∀ s : List Char, ∃! p, Denotes s p) ∧
    (∀ s p, Denotes s.toList p → (normalize s).toList =
      if p.isAbsolute then '/' :: ['/'].intercalate p.segments
      else if p.segments = [] then ['.'] else ['/'].intercalate p.segments) ∧
    (∀ s t, normalize s = normalize t ↔ ∃ p, Denotes s.toList p ∧ Denotes t.toList p) ∧
    (∀ s, normalize (normalize s) = normalize s) ∧
    ∀ s t, s ≠ "" → normalize (s ++ "/" ++ t) = normalize (normalize s ++ "/" ++ t) := by
  refine ⟨fun s => ?unique, fun s p hp => ?text, fun s t => ?same, fun s => ?again,
    fun s t hs => ?front⟩
  case unique => exact ⟨read s, denotes_iff.2 rfl, fun p hp => (denotes_iff.1 hp).symm⟩
  case text =>
    rw [toList_normalize, denotes_iff.1 hp, text, joined_eq_intercalate]
  case same =>
    simp only [denotes_iff, normalize_eq_iff]
    exact ⟨fun h => ⟨_, h, rfl⟩, fun ⟨p, hs, ht⟩ => hs.trans ht.symm⟩
  case again => exact (normalize_eq_iff _ _).2 (read_normalize s)
  case front =>
    have hlist : ∀ u : String, (u ++ "/" ++ t).toList = u.toList ++ '/' :: t.toList := by
      simp [String.toList_append]
    have hs' : s.toList ≠ [] := mt String.toList_eq_nil_iff.1 hs
    have hshort : (normalize s).toList ≠ [] := by
      rw [toList_normalize]
      exact text_ne_nil (settled_read _)
    rw [normalize_eq_iff, hlist, hlist, read_append hs', read_append hshort, read_normalize]

/-- Two slashes in front, `..` at the root and an empty segment are all gone. -/
theorem normalize_is_canonical_of_root :
    normalize "//../a//./b/../c/" = "/a/c" ∧
      normalize ("//../a//./b/../c/" ++ "/" ++ "../d") = normalize ("/a/c" ++ "/" ++ "../d") := by
  obtain ⟨-, htext, -, -, hfront⟩ := normalize_is_canonical
  have hdenotes : Denotes "//../a//./b/../c/".toList ⟨true, [['a'], ['c']]⟩ :=
    denotes_iff.2 (by decide +kernel)
  have hshort : normalize "//../a//./b/../c/" = "/a/c" :=
    String.toList_inj.1 ((htext _ _ hdenotes).trans (by decide +kernel))
  exact ⟨hshort, hshort ▸ hfront "//../a//./b/../c/" "../d" (by decide)⟩

end BundlePlan.Path
