import Mathlib.Data.List.Infix
import Railyard.Data.Encoding

/-!
# Occurrences of a pattern

Where a pattern can occur in a text that is put together from parts: an element that is not in the
pattern keeps what stands before it apart from what stands after it.

* `occurrence_append_cons`, `infix_append_cons_iff`: occurrences around such an element;
* `occurrences_disjoint`: a pattern whose first element does not come again does not overlap
  itself;
* `splitOnce_eq_none_iff`, `splitOnce_first`, `splitOnce_of_first`: `splitOnce` finds the first
  occurrence;
* `occurrences`: how often a pattern occurs, from left to right and without overlaps.
-/

set_option autoImplicit false

namespace Encoding

section Lists

variable {α : Type} {c : α} {p xs ys b a : List α}

/-- What stands before the first separator, and what stands after it. -/
theorem append_cons_inj {xs' ys' : List α} (hxs : c ∉ xs) (hxs' : c ∉ xs')
    (h : xs ++ c :: ys = xs' ++ c :: ys') : xs = xs' ∧ ys = ys' := by
  induction xs generalizing xs' with
  | nil =>
    cases xs' with
    | nil => exact ⟨rfl, by simpa using h⟩
    | cons x' xs' =>
      have hsep : c = x' := (List.cons.inj h).1
      exact absurd (hsep ▸ List.mem_cons_self) hxs'
  | cons x xs ih =>
    cases xs' with
    | nil =>
      have hsep : x = c := (List.cons.inj h).1
      exact absurd (hsep ▸ List.mem_cons_self) hxs
    | cons x' xs' =>
      obtain ⟨rfl, htail⟩ := List.cons.inj h
      obtain ⟨rfl, hrest⟩ := ih (fun hmem ↦ hxs (List.mem_cons_of_mem _ hmem))
        (fun hmem ↦ hxs' (List.mem_cons_of_mem _ hmem)) htail
      exact ⟨rfl, hrest⟩

/-- An occurrence is either before an element that is not in the pattern, or after it. -/
theorem occurrence_append_cons (hc : c ∉ p) (h : xs ++ c :: ys = b ++ (p ++ a)) :
    (∃ a', xs = b ++ (p ++ a') ∧ a = a' ++ c :: ys) ∨
      ∃ b', b = xs ++ c :: b' ∧ ys = b' ++ (p ++ a) := by
  rw [← List.append_assoc] at h
  rcases List.append_eq_append_iff.mp h with ⟨t, hbp, hcys⟩ | ⟨t, hxs, ha⟩
  · -- the element is within `b ++ p`, or right after it
    cases t with
    | nil => exact .inl ⟨[], by simpa using hbp.symm, by simpa using hcys.symm⟩
    | cons d t =>
      obtain ⟨rfl, rfl⟩ := List.cons.inj (hcys.trans (List.cons_append ..))
      rcases List.append_eq_append_iff.mp hbp with ⟨u, hxs, hp⟩ | ⟨u, hb, hct⟩
      · exact absurd (hp ▸ List.mem_append_right u List.mem_cons_self) hc
      · cases u with
        | nil => exact absurd (by rw [← List.nil_append p, ← hct]; exact List.mem_cons_self) hc
        | cons d u =>
          obtain ⟨rfl, rfl⟩ := List.cons.inj (hct.trans (List.cons_append ..))
          exact .inr ⟨u, hb, by rw [List.append_assoc]⟩
  · exact .inl ⟨t, by rw [hxs, List.append_assoc], ha⟩

theorem infix_append_cons_iff (hc : c ∉ p) : p <:+: xs ++ c :: ys ↔ p <:+: xs ∨ p <:+: ys := by
  constructor
  · rintro ⟨b, a, h⟩
    rw [List.append_assoc] at h
    rcases occurrence_append_cons hc h.symm with ⟨a', hxs, -⟩ | ⟨b', -, hys⟩
    · exact .inl ⟨b, a', by rw [hxs, List.append_assoc]⟩
    · exact .inr ⟨b', a, by rw [hys, List.append_assoc]⟩
  · rintro (h | h)
    · exact h.trans (List.infix_append' [] xs (c :: ys))
    · exact h.trans ((List.suffix_append (xs ++ [c]) ys).isInfix.trans (by simp))

/-- Of two occurrences of a pattern whose first element does not come again, the later one begins
after the earlier one has ended. -/
theorem occurrences_disjoint {d : α} {q b' a' : List α} (hd : d ∉ q)
    (h : b ++ (d :: q ++ a) = b' ++ (d :: q ++ a')) (hle : b.length ≤ b'.length) :
    (b = b' ∧ a = a') ∨ ∃ mid, b' = b ++ (d :: q ++ mid) ∧ a = mid ++ (d :: q ++ a') := by
  obtain ⟨t, rfl⟩ := List.prefix_of_prefix_length_le (List.prefix_append b _)
    (h ▸ List.prefix_append b' _) hle
  rw [List.append_assoc, List.append_cancel_left_eq] at h
  cases t with
  | nil => exact .inl ⟨(List.append_nil b).symm, List.append_cancel_left h⟩
  | cons e t =>
    obtain ⟨rfl, htail⟩ := List.cons.inj h
    rcases List.append_eq_append_iff.mp htail with ⟨mid, ht, ha⟩ | ⟨u, hq, hrest⟩
    · exact .inr ⟨mid, by rw [ht, List.cons_append], ha⟩
    · cases u with
      | nil =>
        have ht : t = q := by simpa using hq.symm
        exact .inr ⟨[], by rw [ht, List.append_nil], hrest.symm⟩
      | cons e u =>
        obtain rfl := (List.cons.inj hrest).1
        exact absurd (hq ▸ List.mem_append_right t List.mem_cons_self) hd

end Lists

/-! ## The first occurrence -/

section First

variable {p cs before after : List Char}

theorem splitOnce_eq_none_iff : splitOnce p cs = none ↔ ¬ p <:+: cs := by
  induction cs with
  | nil => simp [splitOnce]
  | cons c cs ih =>
    rw [splitOnce, List.infix_cons_iff]
    split
    · rename_i hstart
      simp [List.isPrefixOf_iff_prefix.mp hstart]
    · rename_i hstart
      have hnot : ¬ p <+: c :: cs := fun h ↦ hstart (List.isPrefixOf_iff_prefix.mpr h)
      simp [hnot, ih]

/-- No occurrence starts earlier than the one that is found. -/
theorem splitOnce_first (h : splitOnce p cs = some (before, after)) {b a : List Char}
    (hoccurs : cs = b ++ (p ++ a)) : before.length ≤ b.length := by
  induction cs generalizing before b with
  | nil =>
    rw [splitOnce] at h
    split at h
    · obtain ⟨rfl, -⟩ := Prod.mk.inj (Option.some.inj h)
      exact Nat.zero_le _
    · simp at h
  | cons c cs ih =>
    rw [splitOnce] at h
    split at h
    · obtain ⟨rfl, -⟩ := Prod.mk.inj (Option.some.inj h)
      exact Nat.zero_le _
    · rename_i hstart
      obtain ⟨⟨before', after'⟩, hsplit, hpair⟩ := Option.map_eq_some_iff.mp h
      obtain ⟨rfl, rfl⟩ : c :: before' = before ∧ after' = after := by simpa using hpair
      cases b with
      | nil =>
        refine absurd (List.isPrefixOf_iff_prefix.mpr ?_) hstart
        exact ⟨a, hoccurs.symm⟩
      | cons d b =>
        have hle := ih hsplit (List.cons.inj hoccurs).2
        simp only [List.length_cons]
        omega

/-- The first occurrence is found. -/
theorem splitOnce_of_first
    (hfirst : ∀ b a, before ++ (p ++ after) = b ++ (p ++ a) → before.length ≤ b.length) :
    splitOnce p (before ++ (p ++ after)) = some (before, after) := by
  cases hsplit : splitOnce p (before ++ (p ++ after)) with
  | none => exact absurd ⟨before, after, List.append_assoc ..⟩ (splitOnce_eq_none_iff.mp hsplit)
  | some found =>
    obtain ⟨b, a⟩ := found
    have heq : before ++ (p ++ after) = b ++ (p ++ a) := by
      rw [splitOnce_eq hsplit, List.append_assoc]
    have hlength := Nat.le_antisymm (hfirst b a heq) (splitOnce_first hsplit rfl)
    obtain ⟨rfl, hrest⟩ := List.append_inj heq hlength
    rw [List.append_cancel_left hrest]

/-- The pattern is found right after a text that ends in an element of no pattern. -/
theorem splitOnce_append_cons {c : Char} {xs : List Char} (hc : c ∉ p) (hxs : ¬ p <:+: xs) :
    splitOnce p (xs ++ c :: (p ++ after)) = some (xs ++ [c], after) := by
  have happend : xs ++ c :: (p ++ after) = (xs ++ [c]) ++ (p ++ after) := by simp
  rw [happend]
  refine splitOnce_of_first fun b a hoccurs ↦ ?_
  rw [← happend] at hoccurs
  rcases occurrence_append_cons hc hoccurs with ⟨a', hbefore, -⟩ | ⟨b', rfl, -⟩
  · exact absurd ⟨b, a', by rw [hbefore, List.append_assoc]⟩ hxs
  · simp

/-- A pattern that does not overlap itself is found right after a text without it. -/
theorem splitOnce_append {d : Char} {q : List Char} (hd : d ∉ q) (hbefore : ¬ d :: q <:+: before) :
    splitOnce (d :: q) (before ++ (d :: q ++ after)) = some (before, after) := by
  refine splitOnce_of_first fun b a hoccurs ↦ ?_
  by_contra hlt
  rcases occurrences_disjoint hd hoccurs.symm (by omega) with ⟨rfl, -⟩ | ⟨mid, hmid, -⟩
  · exact hlt le_rfl
  · exact hbefore ⟨b, mid, by rw [hmid, List.append_assoc]⟩

end First

/-! ## How often -/

/-- How often a pattern occurs, each time looked for after the end of the last. -/
def occurrences (p : List Char) (hp : p ≠ []) (cs : List Char) : ℕ :=
  match _hsplit : splitOnce p cs with
  | none => 0
  | some (_, after) => 1 + occurrences p hp after
termination_by cs.length
decreasing_by exact splitOnce_length hp _hsplit

section Count

variable {p cs before after : List Char} {hp : p ≠ []}

theorem occurrences_none (h : splitOnce p cs = none) : occurrences p hp cs = 0 := by
  rw [occurrences]
  split
  · rfl
  · rename_i hsplit
    simp [h] at hsplit

theorem occurrences_some (h : splitOnce p cs = some (before, after)) :
    occurrences p hp cs = 1 + occurrences p hp after := by
  rw [occurrences]
  split
  · rename_i hsplit
    simp [h] at hsplit
  · rename_i hsplit
    obtain ⟨-, rfl⟩ := Prod.mk.inj (Option.some.inj (hsplit.symm.trans h))
    rfl

theorem occurrences_eq_zero_iff : occurrences p hp cs = 0 ↔ ¬ p <:+: cs := by
  rw [← splitOnce_eq_none_iff]
  cases hsplit : splitOnce p cs with
  | none => simp [occurrences_none hsplit]
  | some found => simp [occurrences_some hsplit]

/-- An element that is not in the pattern separates what is counted. -/
theorem occurrences_append_cons {c : Char} (hc : c ∉ p) (xs ys : List Char) :
    occurrences p hp (xs ++ c :: ys) = occurrences p hp xs + occurrences p hp ys := by
  induction xs using occurrences.induct p hp with
  | case1 xs hxs =>
    have hnot := splitOnce_eq_none_iff.mp hxs
    rw [occurrences_none hxs, Nat.zero_add]
    cases hys : splitOnce p ys with
    | none =>
      have hboth : ¬ p <:+: xs ++ c :: ys := by
        rw [infix_append_cons_iff hc, not_or]
        exact ⟨hnot, splitOnce_eq_none_iff.mp hys⟩
      rw [occurrences_eq_zero_iff.mpr hboth, occurrences_none hys]
    | some found =>
      obtain ⟨before, after⟩ := found
      have heq : xs ++ c :: ys = (xs ++ c :: before) ++ (p ++ after) := by
        rw [splitOnce_eq hys]
        simp
      have hsplit : splitOnce p (xs ++ c :: ys) = some (xs ++ c :: before, after) := by
        rw [heq]
        refine splitOnce_of_first fun b a hoccurs ↦ ?_
        rw [← heq] at hoccurs
        rcases occurrence_append_cons hc hoccurs with ⟨a', hbefore, -⟩ | ⟨b', rfl, hlater⟩
        · exact absurd ⟨b, a', by rw [hbefore, List.append_assoc]⟩ hnot
        · have hle := splitOnce_first hys hlater
          simp only [List.length_append, List.length_cons]
          omega
      rw [occurrences_some hsplit, occurrences_some hys]
  | case2 xs before after hxs ih =>
    have heq : xs ++ c :: ys = before ++ (p ++ (after ++ c :: ys)) := by
      rw [splitOnce_eq hxs]
      simp
    have hsplit : splitOnce p (xs ++ c :: ys) = some (before, after ++ c :: ys) := by
      rw [heq]
      refine splitOnce_of_first fun b a hoccurs ↦ ?_
      rw [← heq] at hoccurs
      rcases occurrence_append_cons hc hoccurs with ⟨a', hbefore, -⟩ | ⟨b', rfl, -⟩
      · exact splitOnce_first hxs hbefore
      · have hlength := congrArg List.length (splitOnce_eq hxs)
        simp only [List.length_append, List.length_cons] at hlength ⊢
        omega
    rw [occurrences_some hsplit, occurrences_some hxs, ih, Nat.add_assoc]

end Count

end Encoding
