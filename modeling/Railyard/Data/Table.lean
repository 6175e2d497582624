import Mathlib.Data.List.Nodup
import Mathlib.Data.List.Sort

/-!
# Tables with unique columns

`Table ρ κ keys` is a list of rows, in the order in which they were inserted, on which each of the
columns `keys` (a primary key and the columns declared `UNIQUE`) takes no value twice.  The
uniqueness is a field, so there is no table that breaks it: `insert?` fails where a database
reports a constraint violation, and `update` asks for a proof that it leaves the unique columns
alone.

Rows are found by a predicate, which plays the `WHERE` clause.  With the predicate on a unique
column there is at most one of them (`Table.eq_of_key`, `Table.select_key`).
-/

set_option autoImplicit false

/-- Rows of `ρ` on which each column of `keys` takes no value twice. -/
structure Table (ρ κ : Type) (keys : List (ρ → κ)) where
  /-- The rows, oldest first. -/
  rows : List ρ
  /-- No two rows share a value in a unique column. -/
  nodup : ∀ key ∈ keys, (rows.map key).Nodup

namespace Table

variable {ρ κ : Type} {keys : List (ρ → κ)}

theorem ext_rows {t t' : Table ρ κ keys} (h : t.rows = t'.rows) : t = t' := by
  cases t; cases t'; cases h; rfl

/-- The table without rows. -/
def empty : Table ρ κ keys := ⟨[], by simp⟩

@[simp] theorem empty_rows : (empty : Table ρ κ keys).rows = [] := rfl

instance : Membership ρ (Table ρ κ keys) := ⟨fun t r ↦ r ∈ t.rows⟩

theorem mem_def {t : Table ρ κ keys} {r : ρ} : r ∈ t ↔ r ∈ t.rows := Iff.rfl

@[simp] theorem not_mem_empty (r : ρ) : r ∉ (empty : Table ρ κ keys) := List.not_mem_nil

theorem eq_of_key {t : Table ρ κ keys} {key : ρ → κ} (hk : key ∈ keys) {r r' : ρ} (hr : r ∈ t)
    (hr' : r' ∈ t) (h : key r = key r') : r = r' :=
  List.inj_on_of_nodup_map (t.nodup key hk) hr hr' h

/-! ## Selecting -/

/-- `SELECT … WHERE p`. -/
def select (t : Table ρ κ keys) (p : ρ → Bool) : List ρ := t.rows.filter p

@[simp] theorem mem_select {t : Table ρ κ keys} {p : ρ → Bool} {r : ρ} :
    r ∈ t.select p ↔ r ∈ t ∧ p r = true := List.mem_filter

/-- A unique column selects at most the one row. -/
theorem select_key [DecidableEq κ] {t : Table ρ κ keys} {key : ρ → κ} (hk : key ∈ keys) {r : ρ}
    (hr : r ∈ t) : t.select (fun r' ↦ key r' = key r) = [r] := by
  have hnd : (t.select fun r' ↦ key r' = key r).Nodup :=
    (List.Nodup.of_map _ (t.nodup key hk)).filter _
  refine List.perm_singleton.mp ((List.perm_ext_iff_of_nodup hnd (List.nodup_singleton r)).mpr ?_)
  intro r'
  rw [mem_select, List.mem_singleton, decide_eq_true_eq]
  exact ⟨fun h ↦ eq_of_key hk h.1 hr h.2, by rintro rfl; exact ⟨hr, rfl⟩⟩

theorem select_eq_nil {t : Table ρ κ keys} {p : ρ → Bool} :
    t.select p = [] ↔ ∀ r ∈ t, p r = false := by
  rw [select, List.filter_eq_nil_iff]
  simp only [Bool.not_eq_true, mem_def]

/-- Tables that agree about a value of a unique column select the same row for it. -/
theorem select_key_congr [DecidableEq κ] {t t' : Table ρ κ keys} {key : ρ → κ} (hk : key ∈ keys)
    {k : κ} (h : ∀ r, key r = k → (r ∈ t ↔ r ∈ t')) :
    (t.select fun r ↦ key r = k) = t'.select fun r ↦ key r = k := by
  by_cases hr : ∃ r ∈ t, key r = k
  · obtain ⟨r, hr, rfl⟩ := hr
    rw [select_key hk hr, select_key hk ((h r rfl).mp hr)]
  · push Not at hr
    have hnil : (t.select fun r ↦ key r = k) = [] :=
      select_eq_nil.mpr fun r hmem ↦ decide_eq_false (hr r hmem)
    have hnil' : (t'.select fun r ↦ key r = k) = [] :=
      select_eq_nil.mpr fun r hmem ↦ decide_eq_false fun he ↦ hr r ((h r he).mpr hmem) he
    rw [hnil, hnil']

/-- Sorting the rows does not change which one a value of a unique column selects. -/
theorem filter_insertionSort_key [DecidableEq κ] {t : Table ρ κ keys} {key : ρ → κ}
    (hk : key ∈ keys) (le : ρ → ρ → Prop) [DecidableRel le] (k : κ) :
    ((t.rows.insertionSort le).filter fun r ↦ key r = k) = t.select fun r ↦ key r = k := by
  have hperm : ((t.rows.insertionSort le).filter fun r ↦ key r = k)
      |>.Perm (t.select fun r ↦ key r = k) :=
    (List.perm_insertionSort le t.rows).filter _
  by_cases hr : ∃ r ∈ t, key r = k
  · obtain ⟨r, hr, rfl⟩ := hr
    rw [select_key hk hr] at hperm ⊢
    exact List.perm_singleton.mp hperm
  · push Not at hr
    have hnil : (t.select fun r ↦ key r = k) = [] :=
      select_eq_nil.mpr fun r hmem ↦ decide_eq_false (hr r hmem)
    rw [hnil] at hperm ⊢
    exact hperm.eq_nil

/-! ## Inserting -/

/-- `INSERT`: fails when a unique column already holds one of the new row's values. -/
def insert? [DecidableEq κ] (t : Table ρ κ keys) (r : ρ) : Option (Table ρ κ keys) :=
  if h : ∀ key ∈ keys, key r ∉ t.rows.map key then
    some ⟨t.rows ++ [r], fun key hk ↦ by
      rw [List.map_append, List.map_singleton]
      exact (t.nodup key hk).append (List.nodup_singleton _) (by simpa using h key hk)⟩
  else none

theorem insert?_eq_some [DecidableEq κ] {t t' : Table ρ κ keys} {r : ρ}
    (h : t.insert? r = some t') :
    t'.rows = t.rows ++ [r] ∧ ∀ key ∈ keys, ∀ r' ∈ t, key r' ≠ key r := by
  rw [insert?] at h
  split at h
  · rename_i hnew
    cases h
    exact ⟨rfl, fun key hk r' hr' he ↦ hnew key hk (List.mem_map.mpr ⟨r', hr', he⟩)⟩
  · cases h

theorem insert?_eq_none [DecidableEq κ] {t : Table ρ κ keys} {r : ρ} :
    t.insert? r = none ↔ ∃ key ∈ keys, ∃ r' ∈ t, key r' = key r := by
  rw [insert?]
  split
  · rename_i h
    simp only [reduceCtorEq, false_iff, not_exists, not_and]
    exact fun key hk r' hr' he ↦ h key hk (List.mem_map.mpr ⟨r', hr', he⟩)
  · rename_i h
    simpa [mem_def] using h

theorem mem_insert? [DecidableEq κ] {t t' : Table ρ κ keys} {r r' : ρ} (h : t.insert? r = some t') :
    r' ∈ t' ↔ r' ∈ t ∨ r' = r := by
  rw [mem_def, (insert?_eq_some h).1, List.mem_append, List.mem_singleton, mem_def]

/-! ## Updating and deleting -/

/-- `UPDATE … SET f WHERE p`, for an `f` that leaves the unique columns alone. -/
def update (t : Table ρ κ keys) (p : ρ → Bool) (f : ρ → ρ)
    (hf : ∀ key ∈ keys, ∀ r, key (f r) = key r) : Table ρ κ keys :=
  ⟨t.rows.map fun r ↦ if p r then f r else r, fun key hk ↦ by
    have : key ∘ (fun r ↦ if p r then f r else r) = key := by
      funext r
      by_cases h : p r = true <;> simp [h, hf key hk]
    rw [List.map_map, this]
    exact t.nodup key hk⟩

theorem mem_update {t : Table ρ κ keys} {p : ρ → Bool} {f : ρ → ρ}
    {hf : ∀ key ∈ keys, ∀ r, key (f r) = key r} {r : ρ} :
    r ∈ t.update p f hf ↔ ∃ r₀ ∈ t, (if p r₀ then f r₀ else r₀) = r := List.mem_map

/-- Where no row matches, an update changes nothing. -/
theorem update_eq_self {t : Table ρ κ keys} {p : ρ → Bool} {f : ρ → ρ}
    {hf : ∀ key ∈ keys, ∀ r, key (f r) = key r} (h : ∀ r ∈ t, p r = true → f r = r) :
    t.update p f hf = t := by
  refine ext_rows ((List.map_congr_left fun r hr ↦ ?_).trans (List.map_id _))
  by_cases hp : p r = true
  · simp only [hp, if_true, id_eq]; exact h r hr hp
  · simp [hp]

/-- An update leaves the unique columns as they are. -/
theorem map_key_update {t : Table ρ κ keys} {p : ρ → Bool} {f : ρ → ρ}
    {hf : ∀ key ∈ keys, ∀ r, key (f r) = key r} {key : ρ → κ} (hk : key ∈ keys) :
    (t.update p f hf).rows.map key = t.rows.map key := by
  rw [update, List.map_map]
  refine List.map_congr_left fun r _ ↦ ?_
  rw [Function.comp_apply]
  split
  · exact hf key hk r
  · rfl

/-- The number of rows matching `p`, which is what a database reports as affected. -/
def count (t : Table ρ κ keys) (p : ρ → Bool) : ℕ := t.rows.countP p

theorem count_eq_zero {t : Table ρ κ keys} {p : ρ → Bool} :
    t.count p = 0 ↔ ∀ r ∈ t, p r = false := by
  rw [count, List.countP_eq_zero]
  simp only [Bool.not_eq_true, mem_def]

/-- `DELETE … WHERE p`. -/
def delete (t : Table ρ κ keys) (p : ρ → Bool) : Table ρ κ keys :=
  ⟨t.rows.filter fun r ↦ !p r,
    fun key hk ↦ (List.filter_sublist.map key).nodup (t.nodup key hk)⟩

theorem mem_delete {t : Table ρ κ keys} {p : ρ → Bool} {r : ρ} :
    r ∈ t.delete p ↔ r ∈ t ∧ p r = false := by
  rw [mem_def, delete, List.mem_filter, Bool.not_eq_true', mem_def]

end Table
