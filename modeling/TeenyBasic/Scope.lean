import TeenyBasic.Location

/-!
# Names in scope

A program has a single scope with three tables: the variables that have been given a value, the
labels that have been declared and the labels that jumps refer to. Each table maps a name to the
place where it was first seen and keeps the order in which names were first seen.
-/

namespace TeenyBasic

/-- Names with their places, in the order in which they were first seen. -/
structure Table where
  entries : List (String × Location)
  deriving DecidableEq, Repr

namespace Table

/-- The table without names. -/
def empty : Table := ⟨[]⟩

/-- The names of a table, in order. -/
def names (table : Table) : List String :=
  table.entries.map Prod.fst

/-- Decides whether a table holds a name. -/
def contains (table : Table) (name : String) : Bool :=
  table.names.contains name

/-- The place of a name. -/
def find? (table : Table) (name : String) : Option Location :=
  table.entries.lookup name

/-- Adds a name at the end; a name that the table holds keeps its place. -/
def insertNew (table : Table) (name : String) (location : Location) : Table :=
  if table.contains name then table else ⟨table.entries ++ [(name, location)]⟩

/-- Adds a name at the end, or gives a name that the table holds another place. -/
def insert (table : Table) (name : String) (location : Location) : Table :=
  if table.contains name then
    ⟨table.entries.map fun entry ↦ if entry.1 = name then (name, location) else entry⟩
  else ⟨table.entries ++ [(name, location)]⟩

/-- The table of a list of names, of which a later place for a name replaces an earlier one. -/
def ofList (entries : List (String × Location)) : Table :=
  entries.foldl (fun table entry ↦ table.insert entry.1 entry.2) empty

theorem names_insertNew (table : Table) (name : String) (location : Location) :
    (table.insertNew name location).names =
      if table.contains name then table.names else table.names ++ [name] := by
  unfold insertNew
  split <;> simp [names]

theorem contains_insertNew_iff (table : Table) (name other : String) (location : Location) :
    (table.insertNew name location).contains other = true ↔
      table.contains other = true ∨ other = name := by
  simp only [contains, List.contains_iff_mem]
  rw [names_insertNew]
  split
  · by_cases h : other = name <;> simp_all [contains]
  · simp

theorem nodup_names_insertNew (table : Table) (name : String) (location : Location)
    (h : table.names.Nodup) : (table.insertNew name location).names.Nodup := by
  rw [names_insertNew]
  split
  · exact h
  · rename_i hnew
    have hnotMem : name ∉ table.names := by simpa [contains] using hnew
    refine List.nodup_append.mpr ⟨h, by simp, fun x hx y hy ↦ ?_⟩
    have hname : y = name := by simpa using hy
    exact fun hxy ↦ hnotMem (hname ▸ hxy ▸ hx)

end Table

/-- The names of a program. -/
structure Scope where
  declaredVariables : Table
  declaredLabels : Table
  referencedLabels : Table
  deriving DecidableEq, Repr

namespace Scope

/-- The scope of a program without names. -/
def empty : Scope := ⟨.empty, .empty, .empty⟩

/-- Labels that jumps refer to and that are declared nowhere, in the order of the first jump. -/
def unresolved (scope : Scope) : List String :=
  scope.referencedLabels.names.filter fun name ↦ !scope.declaredLabels.contains name

end Scope

end TeenyBasic
