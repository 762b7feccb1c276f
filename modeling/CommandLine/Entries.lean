/-
# `CommandLine.Entries` — tables that keep the order of insertion

A table is a list of keys with their values.  Giving a key a value puts the key at the end, unless
it is there already: then it keeps its place and takes the new value.
-/

namespace CommandLine.Entries

variable {κ α : Type} [BEq κ]

/-- Gives a key a value. -/
def insert (key : κ) (value : α) : List (κ × α) → List (κ × α)
  | [] => [(key, value)]
  | entry :: rest => if key == entry.1 then (key, value) :: rest else entry :: insert key value rest

/-- The table in which the entries have been inserted one after the other. -/
def ofList (entries : List (κ × α)) : List (κ × α) :=
  entries.foldl (fun table entry => insert entry.1 entry.2 table) []

theorem lookup_insert_self [ReflBEq κ] (key : κ) (value : α) (table : List (κ × α)) :
    (insert key value table).lookup key = some value := by
  induction table with
  | nil => simp [insert]
  | cons entry rest ih =>
    obtain ⟨k, v⟩ := entry
    unfold insert
    split
    · simp
    · next h => simpa [List.lookup_cons, h] using ih

theorem lookup_insert_of_ne [LawfulBEq κ] {key other : κ} (h : other ≠ key) (value : α)
    (table : List (κ × α)) : (insert key value table).lookup other = table.lookup other := by
  have hne : (other == key) = false := by simpa using h
  induction table with
  | nil => simp [insert, List.lookup_cons, hne]
  | cons entry rest ih =>
    obtain ⟨k, v⟩ := entry
    unfold insert
    split
    · next hk =>
      have : key = k := by simpa using hk
      subst this
      simp [List.lookup_cons, hne]
    · simp [List.lookup_cons, ih]

section

variable [LawfulBEq κ] {key : κ} {value : α} {table entries : List (κ × α)}

/-- A new key stands at the end. -/
theorem insert_of_notMem (hkey : key ∉ table.map Prod.fst) :
    insert key value table = table ++ [(key, value)] := by
  induction table with
  | nil => rfl
  | cons entry rest ih =>
    rw [List.map_cons, List.mem_cons, not_or] at hkey
    rw [insert, if_neg (by simpa using hkey.1), ih hkey.2, List.cons_append]

/-- A key that is there keeps its place. -/
theorem keys_insert_of_mem (hkey : key ∈ table.map Prod.fst) :
    (insert key value table).map Prod.fst = table.map Prod.fst := by
  induction table with
  | nil => cases hkey
  | cons entry rest ih =>
    rw [insert]
    split
    · next heq => rw [List.map_cons, List.map_cons, eq_of_beq heq]
    · next hne =>
      rw [List.map_cons, List.mem_cons] at hkey
      rw [List.map_cons, List.map_cons, ih (hkey.resolve_left (by simpa using hne))]

theorem nodup_keys_insert (h : (table.map Prod.fst).Nodup) :
    ((insert key value table).map Prod.fst).Nodup := by
  by_cases hkey : key ∈ table.map Prod.fst
  · rwa [keys_insert_of_mem hkey]
  · rw [insert_of_notMem hkey, List.map_append, List.nodup_append]
    refine ⟨h, List.pairwise_singleton _ _, fun k hk other hother => ?_⟩
    rw [List.map_singleton, List.mem_singleton] at hother
    rintro rfl
    rw [hother] at hk
    exact hkey hk

/-- A table has no key twice. -/
theorem nodup_keys_ofList (entries : List (κ × α)) : ((ofList entries).map Prod.fst).Nodup :=
  List.foldlRecOn entries _ (motive := fun table : List (κ × α) => (table.map Prod.fst).Nodup) .nil
    fun _ h _ _ => nodup_keys_insert h

/-- Entries with different keys are a table. -/
theorem ofList_of_nodup (h : (entries.map Prod.fst).Nodup) : ofList entries = entries := by
  suffices hfold : ∀ table : List (κ × α), ((table ++ entries).map Prod.fst).Nodup →
      entries.foldl (fun table entry => insert entry.1 entry.2 table) table = table ++ entries from
    hfold [] h
  clear h
  induction entries with
  | nil =>
    intro table _
    exact (List.append_nil table).symm
  | cons entry rest ih =>
    intro table hnodup
    have hkey : entry.1 ∉ table.map Prod.fst := by
      rw [List.map_append, List.nodup_append] at hnodup
      intro hmem
      exact hnodup.2.2 _ hmem _ (List.mem_map_of_mem List.mem_cons_self) rfl
    rw [List.append_cons] at hnodup ⊢
    rw [List.foldl_cons, insert_of_notMem hkey]
    exact ih _ hnodup

/-- A table has the last value that a key was given. -/
theorem lookup_ofList (entries : List (κ × α)) (key : κ) :
    (ofList entries).lookup key = entries.reverse.lookup key := by
  suffices hfold : ∀ table : List (κ × α),
      (entries.foldl (fun table entry => insert entry.1 entry.2 table) table).lookup key =
        (entries.reverse ++ table).lookup key by
    have := hfold []
    rwa [List.append_nil] at this
  induction entries with
  | nil =>
    intro table
    rfl
  | cons entry rest ih =>
    intro table
    obtain ⟨k, v⟩ := entry
    rw [List.foldl_cons, ih, List.reverse_cons, List.append_assoc, List.lookup_append,
      List.lookup_append, List.singleton_append, List.lookup_cons]
    by_cases hkey : key = k
    · rw [hkey, lookup_insert_self, beq_self_eq_true]
    · rw [lookup_insert_of_ne hkey, beq_false_of_ne hkey]

end

end CommandLine.Entries
