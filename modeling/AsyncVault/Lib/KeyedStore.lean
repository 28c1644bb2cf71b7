/-
AsyncVault/Lib/KeyedStore.lean

Totals over a keyed store.

A ledger keeps, beside the records themselves, counters that are meant to equal
a sum over all records (the amount owed, the number still open, …).  Such a
counter is right when each update of the store moves it by the weight of the
record that came in minus the weight of the record that went out.  The two
lemmas that say so, `total_insert` and `total_erase`, are stated with sums on
both sides, so that no truncated subtraction appears.

The store is Mathlib's `AList`: a finite map with computable lookup.
-/
import Mathlib.Data.List.AList
import Mathlib.Algebra.BigOperators.Group.List.Basic
import Mathlib.Algebra.GroupWithZero.Nat

namespace KeyedStore

variable {κ V : Type*} [DecidableEq κ]

/-- A finite map from keys to records. -/
abbrev Store (κ V : Type*) [DecidableEq κ] := AList (fun _ : κ => V)

/-- The sum of the weights of all records. -/
def total (w : V → ℕ) (s : Store κ V) : ℕ :=
  (s.entries.map fun e => w e.2).sum

/-- The weight found at a key: that of its record, or nothing. -/
def slot (w : V → ℕ) : Option V → ℕ
  | none => 0
  | some v => w v

@[simp] theorem slot_none (w : V → ℕ) : slot w none = 0 := rfl

@[simp] theorem slot_some (w : V → ℕ) (v : V) : slot w (some v) = w v := rfl

@[simp] theorem total_empty (w : V → ℕ) : total w (∅ : Store κ V) = 0 := rfl

/-! ### Updates -/

/-- Removing the first entry at `k` takes exactly its weight off a list of
entries. -/
theorem sum_kerase (w : V → ℕ) (k : κ) (l : List (Sigma fun _ : κ => V)) :
    ((l.kerase k).map fun e => w e.2).sum + slot w (l.dlookup k)
      = (l.map fun e => w e.2).sum := by
  induction l with
  | nil => simp
  | cons e l ih =>
    obtain ⟨k', v⟩ := e
    by_cases h : k = k'
    · subst h
      simp [Nat.add_comm]
    · rw [List.kerase_cons_ne h, List.dlookup_cons_ne _ _ h]
      simp only [List.map_cons, List.sum_cons]
      omega

theorem total_erase (w : V → ℕ) (s : Store κ V) (k : κ) :
    total w (s.erase k) + slot w (s.lookup k) = total w s :=
  sum_kerase w k s.entries

theorem total_insert (w : V → ℕ) (s : Store κ V) (k : κ) (v : V) :
    total w (s.insert k v) + slot w (s.lookup k) = total w s + w v := by
  have he : total w (s.insert k v) = w v + total w (s.erase k) := by
    rw [total, AList.entries_insert, List.map_cons, List.sum_cons]
    rfl
  have := total_erase w s k
  omega

/-- Inserting at a fresh key adds the weight of the new record. -/
theorem total_insert_of_none {w : V → ℕ} {s : Store κ V} {k : κ} {v : V}
    (h : s.lookup k = none) : total w (s.insert k v) = total w s + w v := by
  simpa [h] using total_insert w s k v

/-- Overwriting a record swaps its weight for that of the new one. -/
theorem total_insert_of_some {w : V → ℕ} {s : Store κ V} {k : κ} {v u : V}
    (h : s.lookup k = some v) :
    total w (s.insert k u) + w v = total w s + w u := by
  simpa [h] using total_insert w s k u

/-- Removing a record takes its weight off the total. -/
theorem total_erase_of_some {w : V → ℕ} {s : Store κ V} {k : κ} {v : V}
    (h : s.lookup k = some v) : total w (s.erase k) + w v = total w s := by
  simpa [h] using total_erase w s k

/-! ### Bounds -/

/-- No record weighs more than the total. -/
theorem le_total {w : V → ℕ} {s : Store κ V} {k : κ} {v : V}
    (h : s.lookup k = some v) : w v ≤ total w s := by
  have := total_erase_of_some (w := w) h
  omega

/-- Where no record weighs anything, the total is nothing. -/
theorem total_eq_zero {w : V → ℕ} {s : Store κ V} (h : ∀ k v, s.lookup k = some v → w v = 0) :
    total w s = 0 := by
  refine List.sum_eq_zero fun n hn => ?_
  obtain ⟨e, he, rfl⟩ := List.mem_map.1 hn
  exact h e.1 e.2 (AList.mem_lookup_iff.2 he)

/-! ### Views of the records -/

/-- The store with every record replaced by a view of it. -/
def mapVal {W : Type*} (f : V → W) (s : Store κ V) : Store κ W :=
  ⟨s.entries.map fun e => ⟨e.1, f e.2⟩, by
    have h := s.nodupKeys
    simpa [List.NodupKeys, List.keys, Function.comp_def] using h⟩

variable {W : Type*} (f : V → W)

@[simp] theorem mapVal_empty : mapVal f (∅ : Store κ V) = ∅ := rfl

@[simp] theorem lookup_mapVal (s : Store κ V) (k : κ) :
    (mapVal f s).lookup k = (s.lookup k).map f := by
  change (s.entries.map fun e => (⟨e.1, f e.2⟩ : Sigma fun _ : κ => W)).dlookup k =
    (s.entries.dlookup k).map f
  induction s.entries with
  | nil => rfl
  | cons e l ih =>
    obtain ⟨k', v⟩ := e
    by_cases h : k = k'
    · subst h
      simp
    · simp only [List.map_cons]
      rw [List.dlookup_cons_ne _ _ h, List.dlookup_cons_ne _ _ h, ih]

theorem map_kerase (k : κ) (l : List (Sigma fun _ : κ => V)) :
    (l.kerase k).map (fun e => (⟨e.1, f e.2⟩ : Sigma fun _ : κ => W)) =
      (l.map fun e => (⟨e.1, f e.2⟩ : Sigma fun _ : κ => W)).kerase k := by
  induction l with
  | nil => rfl
  | cons e l ih =>
    obtain ⟨k', v⟩ := e
    by_cases h : k = k'
    · subst h
      simp
    · simp only [List.map_cons]
      rw [List.kerase_cons_ne h, List.kerase_cons_ne h, List.map_cons, ih]

@[simp] theorem mapVal_erase (s : Store κ V) (k : κ) :
    mapVal f (s.erase k) = (mapVal f s).erase k :=
  AList.ext (map_kerase f k s.entries)

@[simp] theorem mapVal_insert (s : Store κ V) (k : κ) (v : V) :
    mapVal f (s.insert k v) = (mapVal f s).insert k (f v) := by
  refine AList.ext ?_
  simp only [mapVal, AList.entries_insert, List.map_cons]
  rw [map_kerase]

/-- Weighing the views is weighing the records through the view. -/
theorem total_mapVal (w : W → ℕ) (s : Store κ V) :
    total w (mapVal f s) = total (fun v => w (f v)) s := by
  simp [total, mapVal, Function.comp_def]

/-- Weights that agree on the records have the same total. -/
theorem total_congr {w w' : V → ℕ} {s : Store κ V}
    (h : ∀ k v, s.lookup k = some v → w v = w' v) : total w s = total w' s := by
  refine congrArg List.sum (List.map_congr_left fun e he => ?_)
  exact h e.1 e.2 (AList.mem_lookup_iff.2 he)

/-! ### The records of a store -/

/-- The records with their keys. -/
def records (s : Store κ V) : List (κ × V) := s.entries.map fun e => (e.1, e.2)

theorem mem_records {s : Store κ V} {x : κ × V} : x ∈ records s ↔ s.lookup x.1 = some x.2 := by
  rw [← Option.mem_def, AList.mem_lookup_iff, records, List.mem_map]
  constructor
  · rintro ⟨e, he, rfl⟩
    exact he
  · intro he
    exact ⟨_, he, rfl⟩

/-- No key has two records. -/
theorem nodup_records (s : Store κ V) : ((records s).map Prod.fst).Nodup := by
  have h := s.nodupKeys
  simpa [records, List.NodupKeys, List.keys, Function.comp_def] using h

/-- The records of a store are one record and those of the store without it. -/
theorem records_perm_of_lookup {s : Store κ V} {k : κ} {v : V} (h : s.lookup k = some v) :
    (records s).Perm ((k, v) :: records (s.erase k)) := by
  have hgone : (k, v) ∉ records (s.erase k) := by
    rw [mem_records]
    simp
  refine (List.perm_ext_iff_of_nodup (nodup_records s).of_map
    (List.nodup_cons.2 ⟨hgone, (nodup_records _).of_map⟩)).2 fun x => ?_
  rw [List.mem_cons, mem_records, mem_records]
  by_cases hx : x.1 = k
  · rw [hx, AList.lookup_erase, h]
    constructor
    · intro he
      exact .inl (Prod.ext hx (Option.some.inj he).symm)
    · rintro (rfl | he)
      · rfl
      · cases he
  · rw [AList.lookup_erase_ne hx]
    exact ⟨.inr, fun he => he.resolve_left fun he => hx (by rw [he])⟩

/-- The weight of the records that pass a test. -/
theorem sum_filter_records (w : V → ℕ) (p : V → Bool) (s : Store κ V) :
    (((records s).filter fun x => p x.2).map fun x => w x.2).sum =
      total (fun v => if p v = true then w v else 0) s := by
  unfold records total
  induction s.entries with
  | nil => rfl
  | cons e l ih =>
    by_cases hp : p e.2 = true
    · simp [hp, ih]
    · simp [hp, ih]

end KeyedStore
