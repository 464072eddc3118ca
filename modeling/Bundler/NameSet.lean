/-!
# Sets of names in order of insertion
-/

namespace Bundler

structure NameSet where
  names : List String
  nodup : names.Nodup
  deriving DecidableEq

namespace NameSet

def empty : NameSet := ⟨[], .nil⟩

instance : EmptyCollection NameSet := ⟨empty⟩

instance : Inhabited NameSet := ⟨empty⟩

instance : Membership String NameSet := ⟨fun s name => name ∈ s.names⟩

instance (name : String) (s : NameSet) : Decidable (name ∈ s) :=
  inferInstanceAs (Decidable (name ∈ s.names))

@[simp]
theorem not_mem_empty (name : String) : name ∉ (∅ : NameSet) := List.not_mem_nil

theorem mem_names {s : NameSet} {name : String} : name ∈ s.names ↔ name ∈ s := Iff.rfl

theorem nodup_insert {s : NameSet} {name : String} (h : name ∉ s.names) :
    (s.names ++ [name]).Nodup :=
  List.nodup_append.2 ⟨s.nodup, by simp, by
    intro a ha b hb
    rw [List.mem_singleton.1 hb]
    exact fun e => h (e ▸ ha)⟩

/-- A name already held keeps its place. -/
def insert (s : NameSet) (name : String) : NameSet :=
  if h : name ∈ s.names then s else ⟨s.names ++ [name], nodup_insert h⟩

theorem insert_names (s : NameSet) (name : String) :
    (s.insert name).names = if name ∈ s.names then s.names else s.names ++ [name] := by
  unfold insert
  split <;> rfl

def erase (s : NameSet) (name : String) : NameSet := ⟨s.names.erase name, s.nodup.erase name⟩

def ofList (names : List String) : NameSet := names.foldl insert ∅

theorem mem_insert {s : NameSet} {name other : String} :
    other ∈ s.insert name ↔ other ∈ s ∨ other = name := by
  unfold insert
  split
  · rename_i h
    exact ⟨.inl, fun o => o.elim id fun e => e ▸ h⟩
  · exact List.mem_append.trans (or_congr Iff.rfl List.mem_singleton)

theorem mem_erase {s : NameSet} {name other : String} :
    other ∈ s.erase name ↔ other ≠ name ∧ other ∈ s := s.nodup.mem_erase_iff

end NameSet

end Bundler
