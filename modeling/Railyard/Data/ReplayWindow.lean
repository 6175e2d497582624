import Mathlib.Logic.Function.Basic
import Mathlib.Order.Basic

/-!
# A sliding replay window

A replay filter that remembers when it last saw each token, forgets every token it last saw more
than `w` ticks from now, in either direction, and turns away a token it still remembers
(`record`).  Forgetting, testing and remembering are one atomic step.

The filter trusts the clock readings it is handed.  `record_of_far` and `record_of_near` say exactly
which tokens a step admits again; `SeenWithin` is what protects a token against a second admission,
and `seenWithin_record_self` and `SeenWithin.record_ne` say which steps keep it.
-/

set_option autoImplicit false

namespace ReplayWindow

/-- The distance of two readings, `u64::abs_diff`. -/
def absDiff (a b : ℕ) : ℕ := if a < b then b - a else a - b

theorem absDiff_le_iff {a b w : ℕ} : absDiff a b ≤ w ↔ a ≤ b + w ∧ b ≤ a + w := by
  unfold absDiff
  split <;> omega

/-- When each token was last seen, for the tokens still remembered. -/
abbrev Seen (κ : Type) : Type := κ → Option ℕ

variable {κ : Type}

/-- Forget the tokens last seen more than `w` from `now`. -/
def retain (w now : ℕ) (seen : Seen κ) : Seen κ :=
  fun k ↦ (seen k).filter fun seenAt ↦ absDiff now seenAt ≤ w

theorem retain_eq_some {w now t : ℕ} {seen : Seen κ} {k : κ} :
    retain w now seen k = some t ↔ seen k = some t ∧ now ≤ t + w ∧ t ≤ now + w := by
  simp only [retain, Option.filter_eq_some_iff, decide_eq_true_eq, absDiff_le_iff]

variable [DecidableEq κ]

/-- One step of the filter: forget, test whether `k` is still remembered, remember it at `now`.
Returns whether `k` was remembered. -/
def record (w now : ℕ) (k : κ) (seen : Seen κ) : Bool × Seen κ :=
  ((retain w now seen k).isSome, Function.update (retain w now seen) k (some now))

theorem record_self (w now : ℕ) (k : κ) (seen : Seen κ) : (record w now k seen).2 k = some now :=
  Function.update_self ..

theorem record_ne {w now : ℕ} {k k' : κ} (h : k' ≠ k) (seen : Seen κ) :
    (record w now k seen).2 k' = retain w now seen k' := Function.update_of_ne h ..

/-- A token last seen within the window is turned away. -/
theorem record_of_near {w now t : ℕ} {k : κ} {seen : Seen κ} (h : seen k = some t)
    (hlo : t ≤ now + w) (hhi : now ≤ t + w) : (record w now k seen).1 = true := by
  rw [record, retain_eq_some.mpr ⟨h, hhi, hlo⟩]
  rfl

/-- A token last seen outside the window is admitted again. -/
theorem record_of_far {w now t : ℕ} {k : κ} {seen : Seen κ} (h : seen k = some t)
    (hfar : t + w < now ∨ now + w < t) : (record w now k seen).1 = false := by
  rw [record, Bool.eq_false_iff, Ne, Option.isSome_iff_exists]
  rintro ⟨t', ht'⟩
  obtain ⟨ht, h1, h2⟩ := retain_eq_some.mp ht'
  rw [h, Option.some_inj] at ht
  omega

theorem record_of_none {w now : ℕ} {k : κ} {seen : Seen κ} (h : seen k = none) :
    (record w now k seen).1 = false := by
  rw [record, retain, h]
  rfl

/-- `k` is remembered, last seen between `lo` and `hi`. -/
def SeenWithin (seen : Seen κ) (k : κ) (lo hi : ℕ) : Prop := ∃ t, seen k = some t ∧ lo ≤ t ∧ t ≤ hi

omit [DecidableEq κ] in
theorem SeenWithin.mono {seen : Seen κ} {k : κ} {lo hi hi' : ℕ} (h : SeenWithin seen k lo hi)
    (hle : hi ≤ hi') : SeenWithin seen k lo hi' := by
  obtain ⟨t, ht, hlo, hhi⟩ := h
  exact ⟨t, ht, hlo, Nat.le_trans hhi hle⟩

/-- A token seen within `[lo, hi]` is turned away for as long as all of it is in the window. -/
theorem SeenWithin.record_fst {w now lo hi : ℕ} {k : κ} {seen : Seen κ}
    (h : SeenWithin seen k lo hi) (hlo : now ≤ lo + w) (hhi : hi ≤ now + w) :
    (record w now k seen).1 = true := by
  obtain ⟨t, ht, hlo', hhi'⟩ := h
  exact record_of_near ht (Nat.le_trans hhi' hhi) (Nat.le_trans hlo (Nat.add_le_add_right hlo' w))

theorem seenWithin_record_self {w now lo hi : ℕ} {k : κ} (seen : Seen κ) (hlo : lo ≤ now)
    (hhi : now ≤ hi) : SeenWithin (record w now k seen).2 k lo hi :=
  ⟨now, record_self .., hlo, hhi⟩

/-- The step of another token keeps a token whose record is in the window. -/
theorem SeenWithin.record_ne {w now lo hi : ℕ} {k k' : κ} {seen : Seen κ}
    (h : SeenWithin seen k' lo hi) (hk : k' ≠ k)
    (hnear : ∀ t, seen k' = some t → absDiff now t ≤ w) :
    SeenWithin (record w now k seen).2 k' lo hi := by
  obtain ⟨t, ht, hle⟩ := h
  have hnear := absDiff_le_iff.mp (hnear t ht)
  exact ⟨t, by rw [ReplayWindow.record_ne hk, retain_eq_some]; exact ⟨ht, hnear⟩, hle⟩

end ReplayWindow
