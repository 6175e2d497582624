import Railyard.Effects.Interleaving

/-!
# Runs that are as good as one call after the other

Where every call does all it does to the shared state with its last operation, an interleaving is a
sequential run in disguise: the state is what the calls that have returned make of it one after the
other, in the order in which they returned.

* `Conf.AtOnce` says that a step is of this kind, given what each call does as a whole;
* `Reaches.serial`: a run of such steps has a sequential order.
-/

set_option autoImplicit false

namespace Effects

open Prog

variable {S : Type} {R : S → Type} {C α O σ : Type}

/-- Whether a thread has returned. -/
def Thread.done (t : Thread C S R α) : Bool := t.code.ended.isSome

/-- The calls that have returned. -/
def Conf.returned (c : Conf σ C S R α) : List C := (c.threads.filter Thread.done).map Thread.call

/-- A step that is not a call's last changes nothing, and a last step does what the call does as a
whole. -/
def Conf.AtOnce (exec : O → (q : S) → σ → R q × σ) (effect : C → σ → σ) (c : Conf σ C S R α) :
    Act O C → Prop
  | .spawn _ => True
  | .step i o => ∀ t, c.threads[i]? = some t → ∀ q k, t.code = .op q k →
    (exec o q c.shared).2 =
      if (k (exec o q c.shared).1).ended.isSome then effect t.call c.shared else c.shared

/-- Replacing one element of a list. -/
theorem exists_set_eq {β : Type} {l : List β} {i : ℕ} {a : β} (hi : l[i]? = some a) (b : β) :
    ∃ l₁ l₂, l = l₁ ++ a :: l₂ ∧ l.set i b = l₁ ++ b :: l₂ := by
  induction l generalizing i with
  | nil => simp at hi
  | cons x l ih =>
    cases i with
    | zero =>
      obtain rfl : x = a := by simpa using hi
      exact ⟨[], l, rfl, rfl⟩
    | succ i =>
      obtain ⟨l₁, l₂, hl, hset⟩ := ih (i := i) (by simpa using hi)
      exact ⟨x :: l₁, l₂, by rw [hl, List.cons_append], by rw [List.set_cons_succ, hset,
        List.cons_append]⟩

variable {exec : O → (q : S) → σ → R q × σ} {prog : C → Prog S R α}
  {adm : Conf σ C S R α → Act O C → Prop} {c c' : Conf σ C S R α} {effect : C → σ → σ}

/-- What a step at once adds to a sequential order. -/
theorem Conf.AtOnce.step (hprog : ∀ call, (prog call).ended = none) {a : Act O C}
    (ha : c.AtOnce exec effect a) (hs : c.step exec prog a = some c') :
    (c'.returned = c.returned ∧ c'.shared = c.shared) ∨
      ∃ call, c'.returned.Perm (c.returned ++ [call]) ∧ c'.shared = effect call c.shared := by
  obtain ⟨call, rfl, rfl⟩ | ⟨i, o, t, q, k, rfl, hi, hk, rfl⟩ := Conf.step_eq_some _ _ hs
  · refine .inl ⟨?_, rfl⟩
    rw [returned, List.filter_append, List.filter_cons_of_neg (by simp [Thread.done, hprog]),
      List.filter_nil, List.append_nil, returned]
  · obtain ⟨l₁, l₂, hl, hset⟩ := exists_set_eq hi
      (t.advance q (exec o q c.shared).1 (k (exec o q c.shared).1))
    have hrunning : ¬ t.done = true := by simp [Thread.done, hk, ended]
    have hstate := ha t hi q k hk
    rw [returned, returned, hset, hl, List.filter_append, List.filter_append,
      List.filter_cons_of_neg hrunning, List.map_append, List.map_append]
    have hdone : (t.advance q (exec o q c.shared).1 (k (exec o q c.shared).1)).done =
        (k (exec o q c.shared).1).ended.isSome := rfl
    by_cases hended : (k (exec o q c.shared).1).ended.isSome = true
    · refine .inr ⟨t.call, ?_, by rw [hstate, if_pos hended]⟩
      rw [List.filter_cons_of_pos (hdone.trans hended), List.map_cons, List.append_assoc]
      exact (List.perm_append_singleton t.call _).symm.append_left _
    · refine .inl ⟨?_, by rw [hstate, if_neg hended]⟩
      rw [List.filter_cons_of_neg (by rwa [hdone])]

/-- **Sequential orders.**  Where every step is at once, the state is what the calls that have
returned make of the first one, one after the other. -/
theorem Reaches.serial {s : σ} (hprog : ∀ call, (prog call).ended = none)
    (h : Reaches exec prog adm ⟨s, []⟩ c)
    (hstep : ∀ c₁ a, Reaches exec prog adm ⟨s, []⟩ c₁ → adm c₁ a → c₁.AtOnce exec effect a) :
    ∃ order : List C, order.Perm c.returned ∧
      c.shared = order.foldl (fun s call ↦ effect call s) s := by
  induction h with
  | refl => exact ⟨[], .refl _, rfl⟩
  | tail h ha hs ih =>
    obtain ⟨order, hperm, hshared⟩ := ih
    rcases (hstep _ _ h ha).step hprog hs with ⟨hreturned, hsame⟩ | ⟨call, hreturned, hdone⟩
    · exact ⟨order, hreturned ▸ hperm, hsame.trans hshared⟩
    · refine ⟨order ++ [call], (hperm.append_right [call]).trans hreturned.symm, ?_⟩
      rw [List.foldl_append, ← hshared]
      exact hdone

end Effects
