import Bundler.Name
import Mathlib.Data.List.Basic
import Mathlib.Data.List.Induction
import Mathlib.Data.List.TakeWhile

/-!
# Texts and spellings of names

What lies after the last of a character and what lies before, and how much text measures in UTF-8.
From the first it follows which names are still found when the script extension is left out
(`resourceName_requireName_iff`).
-/

namespace Bundler

namespace Text

variable {s t : List Char}

theorem utf8Size_eq (s : List Char) : utf8Size s = (String.ofList s).utf8ByteSize := by
  induction s using List.reverseRecOn with
  | nil => rfl
  | append_singleton s c ih =>
    have size : utf8Size (s ++ [c]) = utf8Size s + c.utf8Size := List.foldl_append
    rw [size, ih, String.ofList_append, String.utf8ByteSize_append]
    simp

theorem utf8Size_append (s t : List Char) : utf8Size (s ++ t) = utf8Size s + utf8Size t := by
  simp only [utf8Size_eq, String.ofList_append, String.utf8ByteSize_append]

theorem utf8Size_toList (s : String) : utf8Size s.toList = s.utf8ByteSize := by
  rw [utf8Size_eq, String.ofList_toList]

theorem hasInfix_iff : hasInfix t s ↔ t <:+: s := by
  induction s with
  | nil => simp [hasInfix]
  | cons c rest ih => simp [hasInfix, ih, List.infix_cons_iff]

theorem afterLast_append_of_not_mem {c : Char} (h : c ∉ t) :
    afterLast c (s ++ t) = afterLast c s ++ t := by
  unfold afterLast
  rw [List.reverse_append, List.takeWhile_append_of_pos, List.reverse_append, List.reverse_reverse]
  intro d hd
  simp only [bne_iff_ne]
  rintro rfl
  exact h (List.mem_reverse.1 hd)

theorem afterLast_append_of_mem {c : Char} (h : c ∈ t) :
    afterLast c (s ++ t) = afterLast c t := by
  unfold afterLast
  rw [List.reverse_append, List.takeWhile_append, if_neg]
  intro whole
  have all := List.takeWhile_eq_self_iff.1 ((List.takeWhile_prefix _).eq_of_length whole)
  simpa using all c (List.mem_reverse.2 h)

theorem throughLast_append_afterLast (c : Char) (s : List Char) :
    throughLast c s ++ afterLast c s = s := by
  rw [throughLast, afterLast, ← List.reverse_append, List.takeWhile_append_dropWhile,
    List.reverse_reverse]

theorem not_mem_afterLast (c : Char) (s : List Char) : c ∉ afterLast c s := by
  intro hc
  have other := List.mem_takeWhile_imp (List.mem_reverse.1 hc)
  simp at other

theorem throughLast_cases (c : Char) (s : List Char) :
    throughLast c s = [] ∨ ∃ front, throughLast c s = front ++ [c] := by
  unfold throughLast
  cases rest : s.reverse.dropWhile (· != c) with
  | nil => exact .inl rfl
  | cons first later =>
    have stops := List.head_dropWhile_not (· != c) (l := s.reverse) (by simp [rest])
    have same : first = c := by simpa [rest] using stops
    exact .inr ⟨later.reverse, by rw [List.reverse_cons, same]⟩

theorem afterLast_throughLast_append {c : Char} (free : c ∉ t) :
    afterLast c (throughLast c s ++ t) = t := by
  rw [afterLast_append_of_not_mem free]
  rcases throughLast_cases c s with none | ⟨front, found⟩
  · rw [none]
    rfl
  · rw [found, afterLast_append_of_mem (List.mem_singleton_self c)]
    simp [afterLast]

theorem eq_append_afterLast {c : Char} (h : c ∈ s) : ∃ stem, s = stem ++ c :: afterLast c s := by
  have parted := throughLast_append_afterLast c s
  rcases throughLast_cases c s with none | ⟨front, found⟩
  · rw [none, List.nil_append] at parted
    rw [← parted] at h
    exact absurd h (not_mem_afterLast c s)
  · refine ⟨front, ?_⟩
    rw [found, List.append_assoc] at parted
    exact parted.symm

end Text

namespace Name

open Text

theorem before?_scriptExtension {name : String} {stem : List Char} :
    before? scriptExtension name.toList = some stem ↔ name = String.ofList stem ++ ".js" := by
  rw [before?, List.isSuffixOf?_eq_some_iff_append_eq, ← String.toList_inj, String.toList_append,
    String.toList_ofList]
  exact eq_comm

theorem file_suffix (name : String) : file name <:+ name.toList := by
  rw [file, afterLast, ← List.reverse_prefix, List.reverse_reverse]
  exact List.takeWhile_prefix _

/-- A script's require name lacks the extension; any other name is its own. -/
theorem requireName_script (stem : String) : requireName (stem ++ ".js") = stem := by
  have found : before? scriptExtension (stem ++ ".js").toList = some stem.toList :=
    before?_scriptExtension.2 (by rw [String.ofList_toList])
  rw [requireName, found]
  exact String.ofList_toList

theorem resourceName_script (stem : String) : resourceName (stem ++ ".js") = stem ++ ".js" := by
  have last : file (stem ++ ".js") = file stem ++ ".js".toList := by
    rw [file, String.toList_append]
    exact afterLast_append_of_not_mem (by decide)
  rw [resourceName, last]
  simp

theorem requireName_other {name : String} (h : ∀ stem, name ≠ stem ++ ".js") :
    requireName name = name := by
  unfold requireName
  split
  · rename_i stem found
    exact absurd (before?_scriptExtension.1 found) (h _)
  · rfl

/-- The stem of a name that ends in the script extension has no dot after its last slash. -/
def Abbreviable (name : String) : Prop := ∀ stem, name = stem ++ ".js" → '.' ∉ file stem

/-- Just these names denote the same resource without their extension. -/
theorem resourceName_requireName_iff {name : String} :
    resourceName (requireName name) = resourceName name ↔ Abbreviable name := by
  by_cases script : ∃ stem, name = stem ++ ".js"
  · obtain ⟨stem, rfl⟩ := script
    have longer : stem ≠ stem ++ ".js" := by
      intro same
      simpa using congrArg String.length same
    have plain : Abbreviable (stem ++ ".js") ↔ '.' ∉ file stem := by
      simp [Abbreviable]
    rw [requireName_script, resourceName_script, plain, resourceName]
    split
    · rename_i dot
      exact iff_of_false longer fun free => free (List.contains_iff_mem.1 dot)
    · rename_i free
      exact iff_of_true rfl fun dot => free (List.contains_iff_mem.2 dot)
  · have other : ∀ stem, name ≠ stem ++ ".js" := not_exists.1 script
    exact iff_of_true (congrArg _ (requireName_other other)) fun stem same => (other stem same).elim

instance (name : String) : Decidable (Abbreviable name) :=
  decidable_of_iff _ resourceName_requireName_iff

end Name

end Bundler
