import Mathlib.Data.List.Basic
import Mathlib.Data.List.Nodup

/-!
# Maps that remember their insertion order

`IndexMap V` is a map from strings that iterates in the order its keys were first inserted.  No
two of its entries share a key, by construction, so `get` and membership of `entries` are the
same question (`get_eq_some_iff`).

* `IndexMap.ofList` inserts the pairs of a list one by one;
* `IndexMap.ofList_entries` says that this rebuilds a map from its own entries.
-/

set_option autoImplicit false

/-- The entries of a map in insertion order, each key once. -/
@[ext]
structure IndexMap (V : Type) where
  /-- The keys with their values, in insertion order. -/
  entries : List (String × V)
  nodup : (entries.map Prod.fst).Nodup

namespace IndexMap

variable {V W : Type}

instance [DecidableEq V] : DecidableEq (IndexMap V) := fun m n ↦
  decidable_of_iff (m.entries = n.entries) (IndexMap.ext_iff).symm

/-- The map without entries. -/
def empty : IndexMap V := ⟨[], List.nodup_nil⟩

instance : Inhabited (IndexMap V) := ⟨empty⟩

/-- The keys, in order. -/
def keys (m : IndexMap V) : List String := m.entries.map Prod.fst

/-- The values, in the order of their keys. -/
def values (m : IndexMap V) : List V := m.entries.map Prod.snd

/-- The value stored under a key. -/
def get (m : IndexMap V) (k : String) : Option V := m.entries.lookup k

/-- Whether a key has a value. -/
def containsKey (m : IndexMap V) (k : String) : Bool := (m.get k).isSome

/-- Whether there is no entry. -/
def isEmpty (m : IndexMap V) : Bool := m.entries.isEmpty

theorem eq_empty_of_isEmpty {m : IndexMap V} (h : m.isEmpty = true) : m = empty :=
  IndexMap.ext (List.isEmpty_iff.mp h)

/-! ## Looking up -/

theorem lookup_eq_some_iff {l : List (String × V)} (h : (l.map Prod.fst).Nodup) {k : String}
    {v : V} : l.lookup k = some v ↔ (k, v) ∈ l := by
  induction l with
  | nil => simp
  | cons e l ih =>
    obtain ⟨k', v'⟩ := e
    simp only [List.map_cons, List.nodup_cons] at h
    rw [List.lookup_cons, List.mem_cons, Prod.mk.injEq]
    by_cases hk : k = k'
    · subst hk
      have hnot : (k, v) ∉ l := fun hmem ↦ h.1 (List.mem_map_of_mem (f := Prod.fst) hmem)
      simp [hnot, eq_comm]
    · have hbeq : (k == k') = false := by simpa using hk
      simp [hbeq, hk, ih h.2]

theorem get_eq_some_iff {m : IndexMap V} {k : String} {v : V} :
    m.get k = some v ↔ (k, v) ∈ m.entries := lookup_eq_some_iff m.nodup

theorem containsKey_iff {m : IndexMap V} {k : String} : m.containsKey k = true ↔ k ∈ m.keys := by
  rw [containsKey, Option.isSome_iff_exists, keys, List.mem_map]
  constructor
  · rintro ⟨v, hv⟩
    exact ⟨(k, v), get_eq_some_iff.mp hv, rfl⟩
  · rintro ⟨⟨k', v⟩, hmem, rfl⟩
    exact ⟨v, get_eq_some_iff.mpr hmem⟩

theorem mem_keys_of_get {m : IndexMap V} {k : String} {v : V} (h : m.get k = some v) :
    k ∈ m.keys := List.mem_map_of_mem (f := Prod.fst) (get_eq_some_iff.mp h)

/-! ## Inserting -/

/-- Replace the value of a key where it stands, or append a new entry. -/
def insertEntry (k : String) (v : V) : List (String × V) → List (String × V)
  | [] => [(k, v)]
  | (k', v') :: rest => if k' = k then (k, v) :: rest else (k', v') :: insertEntry k v rest

theorem map_fst_insertEntry (k : String) (v : V) (l : List (String × V)) :
    (insertEntry k v l).map Prod.fst =
      if k ∈ l.map Prod.fst then l.map Prod.fst else l.map Prod.fst ++ [k] := by
  induction l with
  | nil => simp [insertEntry]
  | cons e l ih =>
    obtain ⟨k', v'⟩ := e
    rw [insertEntry]
    by_cases hk : k' = k
    · simp [hk]
    · have hne : k ≠ k' := fun h ↦ hk h.symm
      rw [if_neg hk, List.map_cons, ih]
      by_cases hmem : k ∈ l.map Prod.fst <;> simp [hmem, hne]

theorem insertEntry_of_notMem {k : String} {v : V} {l : List (String × V)}
    (h : k ∉ l.map Prod.fst) : insertEntry k v l = l ++ [(k, v)] := by
  induction l with
  | nil => rfl
  | cons e l ih =>
    obtain ⟨k', v'⟩ := e
    simp only [List.map_cons, List.mem_cons, not_or] at h
    rw [insertEntry, if_neg (Ne.symm h.1), ih h.2, List.cons_append]

/-- `IndexMap::insert`. -/
def insert (m : IndexMap V) (k : String) (v : V) : IndexMap V where
  entries := insertEntry k v m.entries
  nodup := by
    rw [map_fst_insertEntry]
    split
    · exact m.nodup
    · rename_i hmem
      exact List.nodup_append.mpr ⟨m.nodup, List.nodup_singleton k,
        fun a ha b hb hab ↦ hmem (by rwa [← List.mem_singleton.mp hb, ← hab])⟩

/-- Insert the pairs of a list from left to right. -/
def ofList (l : List (String × V)) : IndexMap V := l.foldl (fun m e ↦ m.insert e.1 e.2) empty

theorem foldl_insert_entries (l : List (String × V)) (m : IndexMap V)
    (h : ((m.entries ++ l).map Prod.fst).Nodup) :
    (l.foldl (fun m e ↦ m.insert e.1 e.2) m).entries = m.entries ++ l := by
  induction l generalizing m with
  | nil => simp
  | cons e l ih =>
    have hnew : e.1 ∉ m.entries.map Prod.fst := by
      rw [List.map_append, List.nodup_append] at h
      exact fun hmem ↦ h.2.2 _ hmem e.1 (by simp) rfl
    have hentries : (m.insert e.1 e.2).entries = m.entries ++ [e] := insertEntry_of_notMem hnew
    have hsplit : m.entries ++ e :: l = (m.insert e.1 e.2).entries ++ l := by simp [hentries]
    rw [hsplit] at h ⊢
    exact ih _ h

/-- Inserting the entries of a map one by one rebuilds it. -/
@[simp]
theorem ofList_entries (m : IndexMap V) : ofList m.entries = m :=
  IndexMap.ext (by simpa [ofList, empty] using foldl_insert_entries m.entries empty m.nodup)

example : (ofList [("a", 1), ("b", 2), ("a", 3)]).entries = [("a", 3), ("b", 2)] := by decide

end IndexMap
