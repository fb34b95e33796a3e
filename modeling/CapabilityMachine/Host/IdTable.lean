import CapabilityMachine.Host.Signature
/-!
# Tables by capability id

Finite tables with one entry per capability id, kept in the order of the ids. Since the order is
fixed, a table is determined by what it holds under each id, in whatever order that was inserted.
-/

namespace CapabilityMachine

/-- The first entry comes before the second one, by its id. -/
def Precedes {α : Type} (first second : CapabilityId × α) : Prop :=
  first.1.number < second.1.number

/-- A table with at most one entry for each capability id, in the order of the ids. -/
structure IdTable (α : Type) where
  entries : List (CapabilityId × α) := []
  ascending : entries.Pairwise Precedes := by exact .nil
deriving DecidableEq, Repr

namespace IdTable

variable {α β : Type}

instance : EmptyCollection (IdTable α) := ⟨{}⟩

/-- The number of entries. -/
def size (table : IdTable α) : Nat :=
  table.entries.length

/-- The ids that have an entry, in their order. -/
def ids (table : IdTable α) : List CapabilityId :=
  table.entries.map Prod.fst

/-- What the table holds under the id. -/
def find? (table : IdTable α) (id : CapabilityId) : Option α :=
  table.entries.lookup id

/-- The table holds something under the id. -/
def contains (table : IdTable α) (id : CapabilityId) : Bool :=
  (table.find? id).isSome

/-- The entries with one more, or with the entry under the same id replaced. -/
def insertEntry (id : CapabilityId) (value : α) :
    List (CapabilityId × α) → List (CapabilityId × α)
  | [] => [(id, value)]
  | (key, present) :: rest =>
    if id = key then (id, value) :: rest
    else if id.number < key.number then (id, value) :: (key, present) :: rest
    else (key, present) :: insertEntry id value rest

theorem mem_insertEntry {id : CapabilityId} {value : α} {entries : List (CapabilityId × α)}
    {entry : CapabilityId × α} (member : entry ∈ insertEntry id value entries) :
    entry = (id, value) ∨ entry ∈ entries := by
  induction entries with
  | nil => exact .inl (List.mem_singleton.1 member)
  | cons first rest ih =>
    rw [insertEntry] at member
    split at member
    · rcases List.mem_cons.1 member with rfl | inRest
      · exact .inl rfl
      · exact .inr (List.mem_cons_of_mem _ inRest)
    · split at member
      · exact List.mem_cons.1 member
      · rcases List.mem_cons.1 member with rfl | inRest
        · exact .inr List.mem_cons_self
        · exact (ih inRest).imp_right (List.mem_cons_of_mem _)

/-- Inserting an entry keeps the order of the ids. -/
theorem pairwise_insertEntry (id : CapabilityId) (value : α) {entries : List (CapabilityId × α)}
    (ascending : entries.Pairwise Precedes) :
    (insertEntry id value entries).Pairwise Precedes := by
  induction entries with
  | nil => exact List.pairwise_singleton _ _
  | cons first rest ih =>
    obtain ⟨firstPrecedes, restAscending⟩ := List.pairwise_cons.1 ascending
    rw [insertEntry]
    split
    · rename_i same
      subst same
      exact List.pairwise_cons.2 ⟨firstPrecedes, restAscending⟩
    · rename_i differs
      split
      · rename_i before
        refine List.pairwise_cons.2 ⟨fun entry member => ?_, ascending⟩
        rcases List.mem_cons.1 member with rfl | inRest
        · exact before
        · exact UInt16.lt_trans before (firstPrecedes entry inRest)
      · rename_i notBefore
        refine List.pairwise_cons.2 ⟨fun entry member => ?_, ih restAscending⟩
        rcases mem_insertEntry member with rfl | inRest
        · have numbersDiffer : id.number ≠ first.1.number := fun same =>
            differs (by cases id; cases h : first.1; simp_all)
          exact UInt16.lt_of_le_of_ne (UInt16.not_lt.1 notBefore) numbersDiffer.symm
        · exact firstPrecedes entry inRest

/-- The table with the value under the id, in place of what may have been there. -/
def insert (table : IdTable α) (id : CapabilityId) (value : α) : IdTable α where
  entries := insertEntry id value table.entries
  ascending := pairwise_insertEntry id value table.ascending

/-- The table with every value replaced. -/
def map (change : α → β) (table : IdTable α) : IdTable β where
  entries := table.entries.map fun (id, value) => (id, change value)
  ascending := List.pairwise_map.2 table.ascending

end IdTable

/-- Sets of capability ids, as tables that hold nothing but the ids. -/
abbrev IdSet := IdTable Unit

/-- The capabilities that a host knows, with their signatures. -/
abbrev Catalog := IdTable Signature

end CapabilityMachine
