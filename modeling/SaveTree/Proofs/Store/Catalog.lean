import SaveTree.Store.Call

namespace SaveTree

/-!
# What a catalog holds

Look-ups in catalogs that were changed by many entries at once.  What a catalog
holds is what it finds under each path; the order of its rows is left open.
-/

namespace Table

variable {κ ν : Type}

/-- Tables with the same rows are the same. -/
theorem eq_of_rows_eq {left right : Table κ ν} (same : left.rows = right.rows) : left = right := by
  cases left
  cases right
  cases same
  rfl

/-- Nothing is erased where nothing was found. -/
theorem erase_eq_self [DecidableEq κ] {table : Table κ ν} {key : κ} (absent : table.get? key = none) :
    table.erase key = table := by
  apply eq_of_rows_eq
  apply List.filter_eq_self.mpr
  intro row member
  apply decide_eq_true
  intro same
  have found : table.get? row.1 = some row.2 := table.get?_of_mem member
  rw [same, absent] at found
  cases found

end Table

namespace Catalog

variable {catalog : Catalog} {entries : List Entry} {paths : List String} {key : String}

/-- The entries are what is found under their paths. -/
theorem mem_entries_iff {entry : Entry} :
    entry ∈ catalog.entries ↔ catalog.get? entry.path = some entry.node := by
  rw [Table.get?_eq_some_iff, entries, List.mem_map]
  constructor
  · rintro ⟨row, member, rfl⟩
    exact member
  · intro member
    exact ⟨(entry.path, entry.node), member, rfl⟩

theorem nodup_entries (catalog : Catalog) : catalog.entries.Nodup := by
  have paths : catalog.entries.map Entry.path = catalog.rows.map Prod.fst := by
    rw [entries, List.map_map]
    rfl
  have distinct : (catalog.entries.map Entry.path).Nodup := paths ▸ catalog.distinct
  refine (List.pairwise_map.mp distinct).imp ?_
  intro first second different same
  exact different (congrArg Entry.path same)

/-- Catalogs that find the same have the same entries, perhaps in another order. -/
theorem entries_perm {left right : Catalog} (same : ∀ key, left.get? key = right.get? key) :
    left.entries.Perm right.entries := by
  apply (List.perm_ext_iff_of_nodup left.nodup_entries right.nodup_entries).mpr
  intro entry
  rw [mem_entries_iff, mem_entries_iff, same]

@[simp]
theorem get?_put (catalog : Catalog) (entry : Entry) (key : String) :
    (catalog.put entry).get? key = if key = entry.path then some entry.node else catalog.get? key :=
  Table.get?_insert catalog entry.path key entry.node

/-- Erasing many paths takes out exactly these. -/
theorem get?_eraseAll (catalog : Catalog) (paths : List String) (key : String) :
    (catalog.eraseAll paths).get? key = if key ∈ paths then none else catalog.get? key := by
  induction paths generalizing catalog with
  | nil => simp [eraseAll]
  | cons path rest ih =>
    have step : catalog.eraseAll (path :: rest) = eraseAll (catalog.erase path) rest := rfl
    rw [step, ih, Table.get?_erase]
    by_cases first : key = path
    · simp [first]
    · simp [first]

/-- A path that no entry has keeps what was there. -/
theorem get?_putAll_of_not_mem (absent : ∀ entry ∈ entries, entry.path ≠ key) :
    (catalog.putAll entries).get? key = catalog.get? key := by
  induction entries generalizing catalog with
  | nil => rfl
  | cons entry rest ih =>
    have step : catalog.putAll (entry :: rest) = (catalog.put entry).putAll rest := rfl
    have different : key ≠ entry.path := fun same => absent entry List.mem_cons_self same.symm
    rw [step, ih fun other member => absent other (.tail _ member), get?_put, if_neg different]

/-- If all entries with a path agree, this is what is stored under it. -/
theorem get?_putAll_of_agree {node : Node} (present : ∃ entry ∈ entries, entry.path = key)
    (agree : ∀ entry ∈ entries, entry.path = key → entry.node = node) :
    (catalog.putAll entries).get? key = some node := by
  induction entries generalizing catalog with
  | nil => exact absurd present (by simp)
  | cons entry rest ih =>
    have step : catalog.putAll (entry :: rest) = (catalog.put entry).putAll rest := rfl
    rw [step]
    by_cases later : ∃ other ∈ rest, other.path = key
    · exact ih later fun other member => agree other (.tail _ member)
    · -- nothing behind the first entry has the path, so the first one has it
      have here : entry.path = key := by
        rcases present with ⟨other, member, same⟩
        rcases List.mem_cons.mp member with first | behind
        · exact first ▸ same
        · exact absurd ⟨other, behind, same⟩ later
      have untouched : ∀ other ∈ rest, other.path ≠ key :=
        fun other member same => later ⟨other, member, same⟩
      rw [get?_putAll_of_not_mem untouched, get?_put, if_pos here.symm,
        agree entry List.mem_cons_self here]

/-- Erasing paths that are not there changes nothing. -/
theorem eraseAll_eq_self (absent : ∀ path ∈ paths, catalog.get? path = none) :
    catalog.eraseAll paths = catalog := by
  induction paths with
  | nil => rfl
  | cons path rest ih =>
    have step : catalog.eraseAll (path :: rest) = eraseAll (catalog.erase path) rest := rfl
    rw [step, Table.erase_eq_self (absent path List.mem_cons_self)]
    exact ih fun other member => absent other (.tail _ member)

end Catalog

end SaveTree
