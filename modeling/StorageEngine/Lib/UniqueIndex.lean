import Mathlib.Data.Finmap

/-!
# A table with a unique secondary index

A table maps keys to rows, and an index maps the name of each row back to its
key.  Both are updated separately.  `UniqueIndex` says that they agree, and the
lemmas say which pairs of updates keep them in agreement.
-/

namespace Lib

variable {K V N : Type*} [DecidableEq K] [DecidableEq N]

/-- A row of the table with a new row is that row, or one under another key. -/
theorem lookup_insert_cases {table : Finmap fun _ : K => V} {key key' : K} {row row' : V}
    (h : (table.insert key row).lookup key' = some row') :
    key' = key ∧ row' = row ∨ key' ≠ key ∧ table.lookup key' = some row' := by
  by_cases hk : key' = key
  · subst hk
    rw [Finmap.lookup_insert] at h
    exact .inl ⟨rfl, (Option.some.inj h).symm⟩
  · rw [Finmap.lookup_insert_of_ne _ hk] at h
    exact .inr ⟨hk, h⟩

/-- A row of the table without a key is one under another key. -/
theorem lookup_erase_cases {table : Finmap fun _ : K => V} {key key' : K} {row' : V}
    (h : (table.erase key).lookup key' = some row') :
    key' ≠ key ∧ table.lookup key' = some row' := by
  by_cases hk : key' = key
  · subst hk
    rw [Finmap.lookup_erase] at h
    cases h
  · rw [Finmap.lookup_erase_ne hk] at h
    exact ⟨hk, h⟩

/-- Removing a key forgets what was stored under it. -/
theorem erase_insert_self (table : Finmap fun _ : K => V) (key : K) (row : V) :
    (table.insert key row).erase key = table.erase key := by
  refine Finmap.ext_lookup fun key' => ?_
  by_cases hk : key' = key
  · rw [hk, Finmap.lookup_erase, Finmap.lookup_erase]
  · rw [Finmap.lookup_erase_ne hk, Finmap.lookup_erase_ne hk,
      Finmap.lookup_insert_of_ne _ hk]

/-- Removing an absent key changes nothing. -/
theorem erase_of_notMem {table : Finmap fun _ : K => V} {key : K} (h : key ∉ table) :
    table.erase key = table := by
  refine Finmap.ext_lookup fun key' => ?_
  by_cases hk : key' = key
  · rw [hk, Finmap.lookup_erase, Finmap.lookup_eq_none.mpr h]
  · rw [Finmap.lookup_erase_ne hk]

/-- `index` is the inverse of `table` along `name`. -/
structure UniqueIndex (name : V → N) (table : Finmap fun _ : K => V)
    (index : Finmap fun _ : N => K) : Prop where
  /-- Every row is indexed under its name. -/
  indexed : ∀ {key row}, table.lookup key = some row → index.lookup (name row) = some key
  /-- Every index entry points to a row with that name. -/
  pointed : ∀ {n key}, index.lookup n = some key →
    ∃ row, table.lookup key = some row ∧ name row = n

namespace UniqueIndex

variable {name : V → N} {table : Finmap fun _ : K => V} {index : Finmap fun _ : N => K}

theorem empty (name : V → N) :
    UniqueIndex name (∅ : Finmap fun _ : K => V) (∅ : Finmap fun _ : N => K) where
  indexed h := by simp at h
  pointed h := by simp at h

/-- Two rows with one name are one row. -/
theorem key_unique (h : UniqueIndex name table index) {key key' : K} {row row' : V}
    (hrow : table.lookup key = some row) (hrow' : table.lookup key' = some row')
    (hname : name row = name row') : key = key' := by
  have hkey := h.indexed hrow
  rw [hname, h.indexed hrow'] at hkey
  exact (Option.some.inj hkey).symm

/-- A new row with a new name is added to both. -/
theorem insert (h : UniqueIndex name table index) {key : K} {row : V}
    (hkey : key ∉ table) (hname : name row ∉ index) :
    UniqueIndex name (table.insert key row) (index.insert (name row) key) where
  indexed {key' row'} hrow' := by
    by_cases hk : key' = key
    · subst hk
      rw [Finmap.lookup_insert] at hrow'
      cases hrow'
      exact Finmap.lookup_insert _
    · rw [Finmap.lookup_insert_of_ne _ hk] at hrow'
      have hold := h.indexed hrow'
      have hne : name row' ≠ name row := by
        intro heq
        rw [heq, Finmap.lookup_eq_none.mpr hname] at hold
        cases hold
      rw [Finmap.lookup_insert_of_ne _ hne, hold]
  pointed {n key'} hn := by
    by_cases heq : n = name row
    · subst heq
      rw [Finmap.lookup_insert] at hn
      cases hn
      exact ⟨row, Finmap.lookup_insert _, rfl⟩
    · rw [Finmap.lookup_insert_of_ne _ heq] at hn
      obtain ⟨row', hrow', hname'⟩ := h.pointed hn
      have hne : key' ≠ key := by
        rintro rfl
        exact hkey (Finmap.mem_of_lookup_eq_some hrow')
      exact ⟨row', by rw [Finmap.lookup_insert_of_ne _ hne, hrow'], hname'⟩

/-- A row is removed from the table, and its name from the index. -/
theorem erase (h : UniqueIndex name table index) {key : K} {row : V}
    (hrow : table.lookup key = some row) :
    UniqueIndex name (table.erase key) (index.erase (name row)) where
  indexed {key' row'} hrow' := by
    have hk : key' ≠ key := by
      rintro rfl
      rw [Finmap.lookup_erase] at hrow'
      cases hrow'
    rw [Finmap.lookup_erase_ne hk] at hrow'
    have hne : name row' ≠ name row := fun heq => hk (h.key_unique hrow' hrow heq)
    rw [Finmap.lookup_erase_ne hne, h.indexed hrow']
  pointed {n key'} hn := by
    have hne : n ≠ name row := by
      rintro rfl
      rw [Finmap.lookup_erase] at hn
      cases hn
    rw [Finmap.lookup_erase_ne hne] at hn
    obtain ⟨row', hrow', hname'⟩ := h.pointed hn
    have hk : key' ≠ key := by
      rintro rfl
      rw [hrow] at hrow'
      cases hrow'
      exact hne hname'.symm
    exact ⟨row', by rw [Finmap.lookup_erase_ne hk, hrow'], hname'⟩

/-- A row is overwritten by a row with the same name. -/
theorem replace (h : UniqueIndex name table index) {key : K} {row row' : V}
    (hrow : table.lookup key = some row) (hname : name row' = name row) :
    UniqueIndex name (table.insert key row') index where
  indexed {key' row''} hrow'' := by
    by_cases hk : key' = key
    · subst hk
      rw [Finmap.lookup_insert] at hrow''
      cases hrow''
      rw [hname, h.indexed hrow]
    · rw [Finmap.lookup_insert_of_ne _ hk] at hrow''
      exact h.indexed hrow''
  pointed {n key'} hn := by
    obtain ⟨row'', hrow'', hn'⟩ := h.pointed hn
    by_cases hk : key' = key
    · subst hk
      rw [hrow] at hrow''
      cases hrow''
      exact ⟨row', Finmap.lookup_insert _, hname.trans hn'⟩
    · exact ⟨row'', by rw [Finmap.lookup_insert_of_ne _ hk, hrow''], hn'⟩

end UniqueIndex

end Lib
