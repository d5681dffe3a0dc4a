/-!
# Finite maps by name

A map from names to values that lists its entries in the order in which the names first arrived.

## Main results

* `get?_insert`, `get?_erase`, `get?_empty` — what each operation does to every name.
* `mem_entries_iff` — the entries are exactly the pairs that look-up finds.
-/

namespace MarketSignals

/-- A finite map from names to values. -/
structure Keyed (α : Type) where
  /-- The pairs, each name once. -/
  entries : List (String × α)
  /-- No name occurs twice. -/
  names_nodup : (entries.map (·.1)).Nodup

namespace Keyed

variable {α : Type}

/-- The map without entries. -/
def empty : Keyed α :=
  ⟨[], by simp⟩

instance : EmptyCollection (Keyed α) :=
  ⟨empty⟩

instance : Inhabited (Keyed α) :=
  ⟨empty⟩

/-- The value a list of pairs holds for a name. -/
def find? (name : String) : List (String × α) → Option α
  | [] => none
  | (key, value) :: rest => if key = name then some value else find? name rest

/-- Puts a value in the place of the one a list of pairs holds for a name, or at the end. -/
def put (name : String) (value : α) : List (String × α) → List (String × α)
  | [] => [(name, value)]
  | (key, old) :: rest =>
    if key = name then (name, value) :: rest else (key, old) :: put name value rest

/-- The value held for a name. -/
def get? (m : Keyed α) (name : String) : Option α :=
  find? name m.entries

theorem mem_names_put {name key : String} {value : α} {entries : List (String × α)} :
    key ∈ (put name value entries).map (·.1) ↔ key = name ∨ key ∈ entries.map (·.1) := by
  induction entries with
  | nil => simp [put]
  | cons entry rest ih =>
    obtain ⟨other, old⟩ := entry
    by_cases h : other = name
    · simp [put, h]
    · simp only [put, h, if_false, List.map_cons, List.mem_cons, ih]
      grind

theorem names_nodup_put {name : String} {value : α} {entries : List (String × α)}
    (nodup : (entries.map (·.1)).Nodup) : ((put name value entries).map (·.1)).Nodup := by
  induction entries with
  | nil => simp [put]
  | cons entry rest ih =>
    obtain ⟨other, old⟩ := entry
    simp only [List.map_cons, List.nodup_cons] at nodup
    by_cases h : other = name
    · subst h
      simpa [put] using nodup
    · simp only [put, h, if_false, List.map_cons, List.nodup_cons, mem_names_put]
      exact ⟨by grind, ih nodup.2⟩

/-- The map with a value for a name, the former one replaced. -/
def insert (m : Keyed α) (name : String) (value : α) : Keyed α :=
  ⟨put name value m.entries, names_nodup_put m.names_nodup⟩

/-- The map without a name. -/
def erase (m : Keyed α) (name : String) : Keyed α :=
  ⟨m.entries.filter (·.1 ≠ name),
    m.names_nodup.sublist (List.filter_sublist.map _)⟩

/-- The map with every value replaced by a function of it. -/
def mapValues {β : Type} (f : α → β) (m : Keyed α) : Keyed β :=
  ⟨m.entries.map fun (name, value) => (name, f value), by
    have : (m.entries.map fun entry => (entry.1, f entry.2)).map (·.1) = m.entries.map (·.1) := by
      simp
    simpa [this] using m.names_nodup⟩

/-- The map that pairs make, a later pair replacing an earlier one of its name. -/
def ofList (entries : List (String × α)) : Keyed α :=
  entries.foldl (fun m entry => m.insert entry.1 entry.2) empty

/-- The values, in the order of the entries. -/
def values (m : Keyed α) : List α :=
  m.entries.map (·.2)

@[simp] theorem get?_empty (name : String) : (empty : Keyed α).get? name = none :=
  rfl

theorem find?_put (name key : String) (value : α) (entries : List (String × α)) :
    find? key (put name value entries) = if name = key then some value else find? key entries := by
  induction entries with
  | nil => simp [put, find?]
  | cons entry rest ih =>
    obtain ⟨other, old⟩ := entry
    by_cases h : other = name
    · subst h
      by_cases hk : other = key <;> simp [put, find?, hk]
    · by_cases hk : other = key
      · subst hk
        simp [put, h, find?, Ne.symm h]
      · simp [put, h, find?, hk, ih]

/-- After an insertion the name holds the value, and every other name what it held. -/
@[simp] theorem get?_insert (m : Keyed α) (name key : String) (value : α) :
    (m.insert name value).get? key = if name = key then some value else m.get? key :=
  find?_put name key value m.entries

/-- After a removal the name holds nothing, and every other name what it held. -/
@[simp] theorem get?_erase (m : Keyed α) (name key : String) :
    (m.erase name).get? key = if name = key then none else m.get? key := by
  show find? key (m.entries.filter (·.1 ≠ name)) = _
  unfold get?
  induction m.entries with
  | nil => simp [find?]
  | cons entry rest ih =>
    obtain ⟨other, old⟩ := entry
    by_cases h : other = name
    · subst h
      by_cases hk : other = key
      · subst hk
        simpa [List.filter_cons] using ih
      · simpa [List.filter_cons, find?, hk] using ih
    · by_cases hk : other = key
      · subst hk
        simp [h, find?, Ne.symm h]
      · simpa [List.filter_cons, h, find?, hk] using ih

/-- Mapping the values maps what every name holds. -/
@[simp] theorem get?_mapValues {β : Type} (f : α → β) (m : Keyed α) (name : String) :
    (m.mapValues f).get? name = (m.get? name).map f := by
  show find? name (m.entries.map fun entry => (entry.1, f entry.2)) = _
  unfold get?
  induction m.entries with
  | nil => simp [find?]
  | cons entry rest ih =>
    by_cases h : entry.1 = name <;> simp [find?, h, ih]

theorem find?_eq_some_iff {name : String} {value : α} {entries : List (String × α)}
    (nodup : (entries.map (·.1)).Nodup) :
    find? name entries = some value ↔ (name, value) ∈ entries := by
  induction entries with
  | nil => simp [find?]
  | cons entry rest ih =>
    obtain ⟨other, old⟩ := entry
    simp only [List.map_cons, List.nodup_cons] at nodup
    by_cases h : other = name
    · subst h
      have absent : (other, value) ∉ rest := fun mem =>
        nodup.1 (List.mem_map.mpr ⟨_, mem, rfl⟩)
      simp only [find?, if_true, Option.some.injEq, List.mem_cons, Prod.mk.injEq, true_and,
        absent, or_false]
      exact eq_comm
    · simp [find?, h, ih nodup.2, Ne.symm h]

/-- The entries are exactly the pairs that look-up finds. -/
theorem mem_entries_iff {m : Keyed α} {name : String} {value : α} :
    (name, value) ∈ m.entries ↔ m.get? name = some value :=
  (find?_eq_some_iff m.names_nodup).symm

end Keyed

end MarketSignals
