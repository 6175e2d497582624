import Railyard.Effects.Program

/-!
# Two runs of a program, side by side

`Coupled A P p p' Q` runs `p` from `s` and `p'` from `s'`, with the outside world answering both
alike and always within `A`: if `P` holds of the two states, the runs issue the same number of
operations and `Q` holds of the two values and the two final states.  With `p = p'` and equality of
the values in `Q` this is noninterference: what `P` lets the states differ in does not show.

* `Coupled.op` and `Coupled.bind` take programs apart.
* `Does.coupled` is for the stretches of a program in which the two runs are told the same.
-/

set_option autoImplicit false

namespace Effects

namespace Prog

variable {S : Type} {R : S → Type} {α β O σ : Type}

/-- Runs of `p` and `p'` from states related by `P` end in values and states related by `Q`. -/
def Coupled (exec : O → (q : S) → σ → R q × σ) (A : O → Prop) (P : σ → σ → Prop)
    (p p' : Prog S R α) (Q : α → α → σ → σ → Prop) : Prop :=
  ∀ w, (∀ n, A (w n)) → ∀ s s', P s s' → p.steps exec w s = p'.steps exec w s' ∧
    Q (p.run exec w s).1 (p'.run exec w s').1 (p.run exec w s).2 (p'.run exec w s').2

variable {exec : O → (q : S) → σ → R q × σ} {A : O → Prop} {P P' : σ → σ → Prop}

theorem Coupled.ret {a a' : α} {Q : α → α → σ → σ → Prop} (h : ∀ s s', P s s' → Q a a' s s') :
    Coupled exec A P (ret a : Prog S R α) (ret a') Q :=
  fun _ _ s s' hs ↦ ⟨rfl, h s s' hs⟩

theorem Coupled.op {q : S} {k k' : R q → Prog S R α} {Q : α → α → σ → σ → Prop}
    (M : R q → R q → σ → σ → Prop)
    (hq : ∀ o s s', A o → P s s' →
      M (exec o q s).1 (exec o q s').1 (exec o q s).2 (exec o q s').2)
    (hk : ∀ r r', Coupled exec A (M r r') (k r) (k' r') Q) :
    Coupled exec A P (op q k) (op q k') Q := by
  intro w hw s s' hs
  obtain ⟨hsteps, hQ⟩ :=
    hk _ _ (fun n ↦ w (n + 1)) (fun n ↦ hw (n + 1)) _ _ (hq (w 0) s s' (hw 0) hs)
  exact ⟨congrArg (· + 1) hsteps, hQ⟩

/-- An operation that is answered alike in both runs. -/
theorem Coupled.op_eq {q : S} {k k' : R q → Prog S R α} {Q : α → α → σ → σ → Prop}
    (P' : σ → σ → Prop)
    (hq : ∀ o s s', A o → P s s' →
      (exec o q s).1 = (exec o q s').1 ∧ P' (exec o q s).2 (exec o q s').2)
    (hk : ∀ r, Coupled exec A P' (k r) (k' r) Q) :
    Coupled exec A P (Prog.op q k) (Prog.op q k') Q := by
  refine .op (fun r r' s s' ↦ r = r' ∧ P' s s') hq fun r r' ↦ ?_
  rintro w hw s s' ⟨rfl, hs⟩
  exact hk r w hw s s' hs

theorem Coupled.bind {p p' : Prog S R α} {f f' : α → Prog S R β} {M : α → α → σ → σ → Prop}
    {Q : β → β → σ → σ → Prop} (hp : Coupled exec A P p p' M)
    (hf : ∀ a a', Coupled exec A (M a a') (f a) (f' a') Q) :
    Coupled exec A P (p.bind f) (p'.bind f') Q := by
  intro w hw s s' hs
  obtain ⟨hsteps, hM⟩ := hp w hw s s' hs
  rw [run_bind, run_bind, steps_bind, steps_bind, ← hsteps]
  obtain ⟨hsteps', hQ⟩ := hf _ _ _ (fun n ↦ hw (n + p.steps exec w s)) _ _ hM
  exact ⟨congrArg (p.steps exec w s + ·) hsteps', hQ⟩

theorem Coupled.mono {p p' : Prog S R α} {Q Q' : α → α → σ → σ → Prop}
    (h : Coupled exec A P p p' Q) (hP : ∀ s s', P' s s' → P s s')
    (hQ : ∀ a a' s s', Q a a' s s' → Q' a a' s s') : Coupled exec A P' p p' Q' := by
  intro w hw s s' hs
  obtain ⟨hsteps, hrun⟩ := h w hw s s' (hP s s' hs)
  exact ⟨hsteps, hQ _ _ _ _ hrun⟩

/-- A program whose operations are all answered alike does the same in both runs. -/
theorem Does.coupled {φ : S → Prop} {ψ : α → Prop}
    (hφ : ∀ o q s s', φ q → A o → P s s' →
      (exec o q s).1 = (exec o q s').1 ∧ P (exec o q s).2 (exec o q s').2)
    {p : Prog S R α} (hp : p.Does φ ψ) :
    Coupled exec A P p p fun a a' s s' ↦ a = a' ∧ ψ a ∧ P s s' := by
  induction p with
  | ret a => exact .ret fun s s' hs ↦ ⟨rfl, hp, hs⟩
  | op q k ih => exact .op_eq P (fun o s s' ha hs ↦ hφ o q s s' hp.1 ha hs) fun r ↦ ih r (hp.2 r)

end Prog

end Effects
