import Bundler.Proofs.Minification
import Bundler.Proofs.PartBundles
import Bundler.Proofs.Texts

/-!
# The names of parts

The parts of a bundle are named by a template in which the first placeholder gives way to the number
of the part. `part_names_differ` says where the number stands in the end: in place of the first
placeholder of the bundle's name, or else at a place that pieces of a placeholder in the name have
no influence on. So all parts of a definition have different names, and the bundles that are built
from them as well (`create_names_nodup`).
-/

namespace Bundler

open Markup (First)

/-! ## The first occurrence of a text -/

namespace Text

variable {t s before after rest : List Char} {c : Char}

theorem exists_first (occurs : t <:+: s) : ∃ before after, First t s before after := by
  induction s with
  | nil =>
    cases List.infix_nil.1 occurs
    exact ⟨[], [], rfl, fun _ _ _ => Nat.zero_le _⟩
  | cons c rest ih =>
    by_cases starts : t <+: c :: rest
    · obtain ⟨after, whole⟩ := starts
      exact ⟨[], after, whole.symm, fun _ _ _ => Nat.zero_le _⟩
    · obtain ⟨before, after, first⟩ := ih ((List.infix_cons_iff.1 occurs).resolve_left starts)
      exact ⟨c :: before, after, first.cons fun back parted => starts ⟨back, parted.symm⟩⟩

theorem replaceFirst_of_first (first : First t s before after) (u : List Char) :
    replaceFirst t u s = before ++ u ++ after := by
  induction before generalizing s with
  | nil =>
    have found : after? t s = some after := after?_eq_some.2 first.eq
    unfold replaceFirst
    rw [found]
    rfl
  | cons c before ih =>
    obtain ⟨rfl, least⟩ := first
    have absent : after? t (c :: (before ++ t ++ after)) = none := by
      rw [Option.eq_none_iff_forall_ne_some]
      intro rest found
      have shorter := least [] rest (after?_eq_some.1 found)
      contradiction
    have later : First t (before ++ t ++ after) before after := by
      refine ⟨rfl, fun front back parted => ?_⟩
      have longer := least (c :: front) back (by simp [parted])
      exact Nat.le_of_succ_le_succ longer
    have step : replaceFirst t u (c :: (before ++ t ++ after)) =
        c :: replaceFirst t u (before ++ t ++ after) := by
      rw [replaceFirst, absent]
    exact step.trans (congrArg (c :: ·) (ih later))

/-- What a text begins with ends before the first character that it does not have. -/
theorem prefix_of_prefix_append (foreign : c ∉ t) (starts : t <+: s ++ c :: rest) : t <+: s := by
  have through : s ++ [c] <+: s ++ c :: rest := ⟨rest, by simp⟩
  rcases List.prefix_or_prefix_of_prefix starts through with shorter | longer
  · rcases List.prefix_concat_iff.1 shorter with rfl | shorter
    · simp at foreign
    · exact shorter
  · exact absurd (longer.subset (by simp)) foreign

/-- Behind a text in which `t` does not occur, and a character that `t` does not have, comes the
first occurrence of `t`: none begins in one and ends in the other. -/
theorem first_behind (absent : ¬t <:+: s) (foreign : c ∉ t) (after : List Char) :
    First t (s ++ c :: (t ++ after)) (s ++ [c]) after := by
  induction s with
  | nil =>
    have here : First t (t ++ after) [] after := ⟨rfl, fun _ _ _ => Nat.zero_le _⟩
    refine here.cons ?_
    intro back parted
    have starts : t <+: [] ++ c :: (t ++ after) := ⟨back, parted.symm⟩
    exact absent (prefix_of_prefix_append foreign starts).isInfix
  | cons d s ih =>
    have absent' : ¬t <:+: s := fun inside => absent (inside.trans (List.suffix_cons d s).isInfix)
    refine (ih absent').cons ?_
    intro back parted
    have starts : t <+: (d :: s) ++ c :: (t ++ after) := ⟨back, parted.symm⟩
    exact absent (prefix_of_prefix_append foreign starts).isInfix

end Text

/-! ## Where the number goes -/

namespace Name

open Text

/-- The name is parted in front of the first dot of its last segment, or at its end if that segment
has no dot. -/
structure Parted (name stem extension : String) : Prop where
  whole : name = stem ++ extension
  undotted : '.' ∉ file stem
  extension : extension = "" ∨ ∃ rest, extension = "." ++ rest ∧ '/' ∉ rest.toList

theorem Parted.stem_prefix {name stem extension stem' extension' : String}
    (h : Parted name stem extension) (h' : Parted name stem' extension') :
    stem.toList <+: stem'.toList := by
  have same := congrArg String.toList (h.whole.symm.trans h'.whole)
  rw [String.toList_append, String.toList_append] at same
  rcases List.append_eq_append_iff.1 same with ⟨mid, longer, _⟩ | ⟨mid, longer, behind⟩
  · exact ⟨mid, longer.symm⟩
  · cases mid with
    | nil => simp [longer]
    | cons c mid =>
      -- the dot that the second extension begins with would stand in the last segment of `stem`
      rcases h'.extension with rfl | ⟨rest, rfl, plain⟩
      · cases behind
      · have behind : '.' = c ∧ rest.toList = mid ++ extension.toList := by simpa using behind
        obtain ⟨rfl, later⟩ := behind
        rw [later] at plain
        have free : '/' ∉ '.' :: mid := by simp_all
        refine absurd ?_ h.undotted
        rw [file, longer, afterLast_append_of_not_mem free]
        simp

theorem Parted.unique {name stem extension stem' extension' : String}
    (h : Parted name stem extension) (h' : Parted name stem' extension') :
    stem = stem' ∧ extension = extension' := by
  have stems : stem = stem' :=
    String.toList_inj.1 ((h.stem_prefix h').eq_of_length_le (h'.stem_prefix h).length_le)
  have whole := h.whole.symm.trans h'.whole
  rw [stems] at whole
  exact ⟨stems, (String.append_right_inj _).1 whole⟩

theorem partTemplate_of_occurs {name : String} (occurs : placeholder <:+: name.toList) :
    partTemplate name = name := if_pos (hasInfix_iff.2 occurs)

theorem partTemplate_of_absent {name : String} (absent : ¬placeholder <:+: name.toList) :
    ∃ stem extension, Parted name stem extension ∧
      (partTemplate name).toList = stem.toList ++ '-' :: (placeholder ++ extension.toList) := by
  refine ⟨String.ofList (throughLast '/' name.toList ++ (file name).takeWhile (· != '.')),
    String.ofList ((file name).dropWhile (· != '.')), ⟨?whole, ?undotted, ?extension⟩, ?template⟩
  case whole =>
    rw [← String.ofList_append, List.append_assoc, List.takeWhile_append_dropWhile, file,
      throughLast_append_afterLast, String.ofList_toList]
  case undotted =>
    have free : '/' ∉ (file name).takeWhile (· != '.') := fun hs =>
      not_mem_afterLast '/' name.toList ((List.takeWhile_prefix _).subset hs)
    rw [file, String.toList_ofList, afterLast_throughLast_append free]
    intro hd
    have other := List.mem_takeWhile_imp hd
    simp at other
  case extension =>
    cases dotted : (file name).dropWhile (· != '.') with
    | nil => exact .inl rfl
    | cons c rest =>
      have stops := List.head_dropWhile_not (· != '.') (l := file name) (by simp [dotted])
      have dot : c = '.' := by simpa [dotted] using stops
      refine .inr ⟨String.ofList rest, by simp [dot], ?_⟩
      rw [String.toList_ofList]
      intro hs
      have inside : rest <:+ file name :=
        (List.suffix_cons c rest).trans (dotted ▸ List.dropWhile_suffix _)
      exact not_mem_afterLast '/' name.toList (inside.subset hs)
  case template =>
    rw [partTemplate, if_neg (mt hasInfix_iff.1 absent)]
    simp [file]

theorem part_of_first {template : String} {before after : List Char}
    (first : First placeholder template.toList before after) (i : Nat) :
    part template i = String.ofList before ++ toString i ++ String.ofList after := by
  rw [part, replaceFirst_of_first first, String.ofList_append, String.ofList_append,
    String.ofList_toList]

/-- A name without a placeholder gets the number behind its stem. -/
theorem part_of_absent {name : String} (absent : ¬placeholder <:+: name.toList) :
    ∃ stem extension, Parted name stem extension ∧
      ∀ i, part (partTemplate name) i = stem ++ "-" ++ toString i ++ extension := by
  obtain ⟨stem, extension, parted, template⟩ := partTemplate_of_absent absent
  refine ⟨stem, extension, parted, ?_⟩
  have absent : ¬placeholder <:+: stem.toList := by
    intro inside
    rw [parted.whole, String.toList_append] at absent
    exact absent (inside.trans (List.prefix_append _ _).isInfix)
  have first := first_behind absent (by decide : '-' ∉ placeholder) extension.toList
  rw [← template] at first
  intro i
  rw [part_of_first first, String.ofList_append, String.ofList_toList, String.ofList_toList]

/-- In a name with placeholders the first one gives way to the number. -/
theorem part_of_occurs {name : String} (occurs : placeholder <:+: name.toList) :
    ∃ before after, First placeholder name.toList before after ∧ ∀ i,
      part (partTemplate name) i = String.ofList before ++ toString i ++ String.ofList after := by
  obtain ⟨before, after, first⟩ := exists_first occurs
  rw [partTemplate_of_occurs occurs]
  exact ⟨before, after, first, part_of_first first⟩

/-- The number of a part stands between the same texts in the names of all parts. -/
theorem exists_numbered (name : String) :
    ∃ before after : String, ∀ i, part (partTemplate name) i = before ++ toString i ++ after := by
  by_cases occurs : placeholder <:+: name.toList
  · obtain ⟨before, after, _, numbered⟩ := part_of_occurs occurs
    exact ⟨_, _, numbered⟩
  · obtain ⟨stem, extension, _, numbered⟩ := part_of_absent occurs
    exact ⟨_, _, numbered⟩

theorem part_injective (name : String) : Function.Injective (part (partTemplate name)) := by
  obtain ⟨before, after, numbered⟩ := exists_numbered name
  intro i j same
  rw [numbered, numbered, String.append_left_inj, String.append_right_inj] at same
  have digits : Nat.toDigits 10 i = Nat.toDigits 10 j := by
    simpa only [Nat.toString_eq_ofList_toDigits, String.ofList_inj] using same
  have reads (n : Nat) : Nat.ofDigitChars 10 (Nat.toDigits 10 n) 0 = n :=
    Nat.ofDigitChars_toDigits (by decide) (by decide)
  rw [← reads i, digits, reads]

/-- **Part names never collide.** Parts with different numbers have different names. A name without
a placeholder gets a dash and the number in front of the first dot of its last segment, or at its
end if that segment has no dot, whatever pieces of the placeholder it has. In a name with
placeholders the first one gives way to the number. -/
theorem part_names_differ (name : String) :
    (∀ i j, i ≠ j → part (partTemplate name) i ≠ part (partTemplate name) j) ∧
    (¬placeholder <:+: name.toList → ∃ stem extension, Parted name stem extension ∧
      ∀ i, part (partTemplate name) i = stem ++ "-" ++ toString i ++ extension) ∧
    (placeholder <:+: name.toList → ∃ before after, First placeholder name.toList before after ∧
      ∀ i, part (partTemplate name) i =
        String.ofList before ++ toString i ++ String.ofList after) := by
  refine ⟨?_, part_of_absent, part_of_occurs⟩
  intro i j other same
  exact other (part_injective name same)

end Name

/-! ### Names with a placeholder and with pieces of one -/

namespace Pieces

def unmarked : String := "app.v1/Main__part_.min.js"

def marked : String := "app/part-__part__.js"

theorem unmarked_parted : Name.Parted unmarked "app.v1/Main__part_" ".min.js" :=
  ⟨by decide, by decide, .inr ⟨"min.js", by decide, by decide⟩⟩

theorem marked_first :
    First Name.placeholder marked.toList ("app/part".toList ++ ['-']) ".js".toList := by
  have whole : marked.toList = "app/part".toList ++ '-' :: (Name.placeholder ++ ".js".toList) := by
    decide
  have absent : ¬Name.placeholder <:+: "app/part".toList := by
    rw [← Text.hasInfix_iff]
    decide +kernel
  rw [whole]
  exact Text.first_behind absent (by decide) _

theorem pieces_numbered :
    (12 ≠ 21 ∧ Name.part (Name.partTemplate unmarked) 12 ≠
      Name.part (Name.partTemplate unmarked) 21) ∧
    (¬Name.placeholder <:+: unmarked.toList ∧
      Name.part (Name.partTemplate unmarked) 12 = "app.v1/Main__part_-12.min.js") ∧
    Name.placeholder <:+: marked.toList ∧
      Name.part (Name.partTemplate marked) 12 = "app/part-12.js" := by
  have other : 12 ≠ 21 := by decide
  have absent : ¬Name.placeholder <:+: unmarked.toList := by
    rw [← Text.hasInfix_iff]
    decide +kernel
  have occurs : Name.placeholder <:+: marked.toList := ⟨_, _, marked_first.eq.symm⟩
  obtain ⟨differ, inserted, _⟩ := Name.part_names_differ unmarked
  obtain ⟨_, _, replaced⟩ := Name.part_names_differ marked
  refine ⟨⟨other, differ 12 21 other⟩, ⟨absent, ?_⟩, occurs, ?_⟩
  · obtain ⟨stem, extension, parted, numbered⟩ := inserted absent
    obtain ⟨rfl, rfl⟩ := parted.unique unmarked_parted
    rw [numbered]
    decide
  · obtain ⟨before, after, first, numbered⟩ := replaced occurs
    obtain ⟨rfl, rfl⟩ := first.unique marked_first
    rw [numbered]
    decide

end Pieces

/-! ## Parts and bundles -/

namespace Definition

/-- The definitions have the names of parts, numbered from 0. -/
def Numbered (template : String) (parts : List Definition) : Prop :=
  parts.map (·.name) = (List.range parts.length).map (Name.part template)

theorem numbered_append_singleton {template : String} {parts : List Definition} {d : Definition} :
    Numbered template (parts ++ [d]) ↔
      Numbered template parts ∧ d.name = Name.part template parts.length := by
  unfold Numbered
  rw [List.map_append, List.length_append, List.length_singleton, List.range_succ, List.map_append]
  constructor
  · intro same
    obtain ⟨before, last⟩ := List.append_inj' same rfl
    exact ⟨before, (List.cons.inj last).1⟩
  · rintro ⟨before, last⟩
    rw [before, List.map_singleton, last, List.map_singleton]

theorem foldl_withMissing_name {d : Definition} {requires : List Section} :
    (requires.foldl withMissing d).name = d.name := by
  induction requires generalizing d with
  | nil => rfl
  | cons s rest ih =>
    rw [List.foldl_cons, ih]
    unfold withMissing
    split <;> rfl

end Definition

namespace Parts

open Definition (Numbered numbered_append_singleton)

variable {share : Share} {p p' : Parts} {m : Measured}

theorem numbered_congr (h : Numbered share.template p.all) (closed : p'.closed = p.closed)
    (name : p'.current.name = p.current.name) : Numbered share.template p'.all := by
  rw [all, numbered_append_singleton] at h ⊢
  rw [closed, name]
  exact h

theorem finishFragment_name : (p.finishFragment m).current.name = p.current.name := by
  unfold finishFragment
  split <;> rfl

theorem numbered_finishFragment (h : Numbered share.template p.all) :
    Numbered share.template (p.finishFragment m).all :=
  numbered_congr h finishFragment_closed finishFragment_name

theorem numbered_close (h : Numbered share.template p.all) (closing : (p.close share).Yields p') :
    Numbered share.template p'.all := by
  cases close_yields.1 closing
  exact numbered_append_singleton.2 ⟨h, rfl⟩

theorem numbered_place {entry : String × Nat} (h : Numbered share.template p.all)
    (placing : (place share m p entry).Yields p') : Numbered share.template p'.all := by
  obtain ⟨q, changed, rfl⟩ := place_yields.1 placing
  refine numbered_congr (p := q) ?_ rfl rfl
  split at changed
  · exact numbered_close (numbered_finishFragment h) changed
  · exact changed ▸ h

theorem numbered_distribute (h : Numbered share.template p.all)
    (distributing : (distribute share p m).Yields p') : Numbered share.template p'.all := by
  unfold distribute at distributing
  split at distributing
  case h_1 =>
    cases Run.pure_yields.1 distributing
    exact h
  case h_5 =>
    obtain ⟨q, placing, last⟩ := Run.bind_yields.1 distributing
    cases Run.pure_yields.1 last
    apply numbered_finishFragment
    refine Run.foldlM_invariant (P := fun _ q => Numbered share.template q.all) ?step h placing
    intro _ entry _ q q' numbered placing
    exact numbered_place numbered placing
  all_goals
    cases Run.pure_yields.1 distributing
    exact numbered_congr h rfl rfl

theorem numbered_foldlM {measured : List Measured} (h : Numbered share.template p.all)
    (distributing : (measured.foldlM (distribute share) p).Yields p') :
    Numbered share.template p'.all := by
  refine Run.foldlM_invariant (P := fun _ q => Numbered share.template q.all) ?step h distributing
  intro _ m _ q q' numbered distributing
  exact numbered_distribute numbered distributing

end Parts

namespace Definition

theorem start_numbered (d : Definition) : Numbered (Name.partTemplate d.name) d.start.all := by
  have none : Numbered (Name.partTemplate d.name) [] := rfl
  exact numbered_append_singleton.2 ⟨none, rfl⟩

/-- The parts of a definition are numbered in their order. -/
theorem split_numbered {d : Definition} {source : Source} {ignoreMissing : Bool} {limit : Nat}
    {parts : List Definition} (h : (d.split source ignoreMissing limit).Yields parts) :
    Numbered (Name.partTemplate d.name) parts := by
  obtain ⟨r, _, h⟩ := Run.bind_yields.1 h
  obtain ⟨measured, _, distributing⟩ := Run.bind_yields.1 h
  obtain ⟨p, filling, rfl⟩ := distribute_yields.1 distributing
  have numbered : Numbered (d.share (max limit 1) measured).template p.all :=
    Parts.numbered_foldlM d.start_numbered filling
  have template : (d.share (max limit 1) measured).template = Name.partTemplate d.name := rfl
  rw [template] at numbered
  unfold Numbered at numbered ⊢
  rw [List.length_map, List.map_map, ← numbered]
  apply List.map_congr_left
  intro part _
  exact foldl_withMissing_name

end Definition

namespace Builder

variable {b : Builder} {options : Options} {d : Definition}

theorem names_of_parts {parts : List Definition} {bundles : List Bundle}
    (built : List.Forall₂ (fun part bundle => (b.build options part).Yields bundle) parts bundles) :
    bundles.map (·.name) = parts.map (·.name) := by
  induction built with
  | nil => rfl
  | cons first _ ih =>
    obtain ⟨_, _, _, _, _, _, _, _, rfl⟩ := build_yields.1 first
    rw [List.map_cons, List.map_cons, ih]

/-- **Bundles have different names.** Whether a definition is built as a whole or in parts, no two
of its bundles have the same name. -/
theorem create_names_nodup {bundles : List Bundle} (h : (b.create options d).Yields bundles) :
    (bundles.map (·.name)).Nodup := by
  by_cases one : options.numberOfParts ≤ 1
  · obtain ⟨bundle, _, rfl⟩ := create_yields_one one h
    exact List.nodup_singleton _
  · obtain ⟨parts, split, built⟩ := create_yields_parts one h
    rw [names_of_parts built, Definition.split_numbered split]
    exact List.nodup_range.map (Name.part_injective d.name)

end Builder

end Bundler
