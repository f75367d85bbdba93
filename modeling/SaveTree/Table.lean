namespace SaveTree

/-!
# Tables

A finite map as a list of rows with distinct keys.  The order of the rows has no
meaning: what a table holds is what `get?` finds in it.
-/

/-- Rows with distinct keys. -/
structure Table (κ ν : Type) where
  rows : List (κ × ν)
  distinct : (rows.map Prod.fst).Nodup

namespace Table

variable {κ ν : Type}

/-- No rows. -/
def empty : Table κ ν :=
  ⟨[], .nil⟩

/-- The keys in use. -/
def keys (table : Table κ ν) : List κ :=
  table.rows.map Prod.fst

/-- The number of rows. -/
def size (table : Table κ ν) : Nat :=
  table.rows.length

/-- The rows whose key passes a test. -/
def filter (table : Table κ ν) (keep : κ → Bool) : Table κ ν where
  rows := table.rows.filter fun row => keep row.1
  distinct := (List.filter_sublist.map Prod.fst).nodup table.distinct

/-- The rows under new keys.  Keys in use must stay apart. -/
def mapKeys (table : Table κ ν) (rename : κ → κ)
    (apart : ∀ k ∈ table.keys, ∀ k' ∈ table.keys, rename k = rename k' → k = k') :
    Table κ ν where
  rows := table.rows.map fun row => (rename row.1, row.2)
  distinct := by
    rw [List.map_map]
    refine List.pairwise_map.mpr
      ((List.pairwise_map.mp table.distinct).imp_of_mem ?_)
    intro row row' member member' different same
    exact different
      (apart row.1 (List.mem_map_of_mem member) row'.1 (List.mem_map_of_mem member') same)

variable [DecidableEq κ]

/-- The value under a key. -/
def get? (table : Table κ ν) (key : κ) : Option ν :=
  (table.rows.find? (·.1 = key)).map Prod.snd

/-- Whether a key is in use. -/
def contains (table : Table κ ν) (key : κ) : Bool :=
  (table.get? key).isSome

/-- Without the row of a key. -/
def erase (table : Table κ ν) (key : κ) : Table κ ν :=
  table.filter (· ≠ key)

/-- With a value under a key, instead of the one before. -/
def insert (table : Table κ ν) (key : κ) (value : ν) : Table κ ν where
  rows := (key, value) :: (table.erase key).rows
  distinct := by
    refine List.nodup_cons.mpr ⟨?_, (table.erase key).distinct⟩
    intro member
    obtain ⟨row, inside, same⟩ := List.mem_map.mp member
    have kept := (List.mem_filter.mp inside).2
    simp only [ne_eq, decide_not, Bool.not_eq_eq_eq_not, Bool.not_true, decide_eq_false_iff_not] at kept
    exact kept same

/-- A row is found under its key. -/
theorem get?_of_mem (table : Table κ ν) {key : κ} {value : ν}
    (member : (key, value) ∈ table.rows) : table.get? key = some value := by
  obtain ⟨rows, distinct⟩ := table
  simp only [get?] at member ⊢
  induction rows with
  | nil => cases member
  | cons row rest ih =>
    have parts := List.nodup_cons.mp distinct
    by_cases same : row.1 = key
    · rcases List.mem_cons.mp member with equal | later
      · subst equal
        simp
      · exact absurd (List.mem_map_of_mem (f := Prod.fst) later) (same ▸ parts.1)
    · rcases List.mem_cons.mp member with equal | later
      · subst equal
        exact absurd rfl same
      · rw [List.find?_cons_of_neg (by simpa using same)]
        exact ih parts.2 later

/-- What is found under a key is a row. -/
theorem mem_of_get? (table : Table κ ν) {key : κ} {value : ν}
    (found : table.get? key = some value) : (key, value) ∈ table.rows := by
  obtain ⟨row, first, same⟩ := Option.map_eq_some_iff.mp found
  have key_eq : row.1 = key := by simpa using List.find?_some first
  have member := List.mem_of_find?_eq_some first
  rw [← key_eq, ← same]
  exact member

/-- Rows and look-ups agree. -/
theorem get?_eq_some_iff (table : Table κ ν) {key : κ} {value : ν} :
    table.get? key = some value ↔ (key, value) ∈ table.rows :=
  ⟨table.mem_of_get?, table.get?_of_mem⟩

@[simp]
theorem get?_empty (key : κ) : (empty : Table κ ν).get? key = none :=
  rfl

/-- A filtered table finds a key if the test passes it. -/
@[simp]
theorem get?_filter (table : Table κ ν) (keep : κ → Bool) (key : κ) :
    (table.filter keep).get? key = if keep key then table.get? key else none := by
  apply Option.ext
  intro value
  rw [get?_eq_some_iff]
  simp only [filter, List.mem_filter]
  by_cases passes : keep key <;> simp [passes, get?_eq_some_iff]

@[simp]
theorem get?_erase (table : Table κ ν) (key other : κ) :
    (table.erase key).get? other = if other = key then none else table.get? other := by
  by_cases same : other = key <;> simp [erase, same]

@[simp]
theorem get?_insert (table : Table κ ν) (key other : κ) (value : ν) :
    (table.insert key value).get? other =
      if other = key then some value else table.get? other := by
  by_cases same : other = key
  · subst same
    simp [insert, get?]
  · have different : key ≠ other := fun equal => same equal.symm
    have found : (table.insert key value).get? other = (table.erase key).get? other := by
      simp [insert, get?, different]
    rw [found]
    simp [same]

/-- A key in use is found under its new name. -/
theorem get?_mapKeys (table : Table κ ν) (rename : κ → κ)
    (apart : ∀ k ∈ table.keys, ∀ k' ∈ table.keys, rename k = rename k' → k = k')
    {key : κ} {value : ν} (found : table.get? key = some value) :
    (table.mapKeys rename apart).get? (rename key) = some value := by
  rw [get?_eq_some_iff]
  exact List.mem_map.mpr ⟨(key, value), table.mem_of_get? found, rfl⟩

end Table

end SaveTree
