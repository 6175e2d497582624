import Railyard.Effects.Interleaving

/-!
# One call while the others wait

A call that is made next to others in flight, and runs to its end before any of them goes on.

* `Prog.told` is what a run is told, operation by operation;
* `Conf.alone` is the configuration such a call leaves, and `Reaches.alone` says that it is
  reached.
-/

set_option autoImplicit false

namespace Effects

open Prog

variable {S : Type} {R : S → Type} {C α O σ : Type}

/-- The operations of a run, with the replies it gets. -/
def Prog.told (exec : O → (q : S) → σ → R q × σ) : Prog S R α → (ℕ → O) → σ → List (Event S R)
  | ret _, _, _ => []
  | op q k, w, s =>
    ⟨q, (exec (w 0) q s).1⟩ ::
      (k (exec (w 0) q s).1).told exec (fun n ↦ w (n + 1)) (exec (w 0) q s).2

variable (exec : O → (q : S) → σ → R q × σ) (prog : C → Prog S R α)

/-- The configuration after a call that was made and ran to its end, the others waiting. -/
def Conf.alone (c : Conf σ C S R α) (call : C) (w : ℕ → O) : Conf σ C S R α where
  shared := ((prog call).run exec w c.shared).2
  threads := c.threads ++
    [⟨call, (prog call).told exec w c.shared, .ret ((prog call).run exec w c.shared).1⟩]

variable {exec prog} {adm : Conf σ C S R α → Act O C → Prop} {c : Conf σ C S R α} {call : C}

/-- The last thread goes on to its end. -/
theorem Reaches.finish {l : List (Thread C S R α)} {τ : List (Event S R)} {p : Prog S R α}
    (h : After (prog call) τ p)
    (hadm : ∀ τ q k s o, After (prog call) τ (.op q k) →
      adm ⟨s, l ++ [⟨call, τ, .op q k⟩]⟩ (.step l.length o))
    (w : ℕ → O) (s : σ) :
    Reaches exec prog adm ⟨s, l ++ [⟨call, τ, p⟩]⟩
      ⟨(p.run exec w s).2, l ++ [⟨call, τ ++ p.told exec w s, .ret (p.run exec w s).1⟩]⟩ := by
  induction p generalizing τ w s with
  | ret a =>
    rw [told, List.append_nil]
    exact .refl
  | op q k ih =>
    have hstep : (⟨s, l ++ [⟨call, τ, .op q k⟩]⟩ : Conf σ C S R α).step exec prog
        (.step l.length (w 0)) = some ⟨(exec (w 0) q s).2, l ++
          [⟨call, τ ++ [⟨q, (exec (w 0) q s).1⟩], k (exec (w 0) q s).1⟩]⟩ := by
      simp only [Conf.step, List.getElem?_concat_length, Thread.advance,
        List.set_append_right _ _ (Nat.le_refl _), Nat.sub_self, List.set_cons_zero]
    have hrest := ih (exec (w 0) q s).1 (h.snoc _) (fun n ↦ w (n + 1)) (exec (w 0) q s).2
    rw [List.append_assoc, List.singleton_append] at hrest
    exact (Reaches.refl.tail (hadm τ q k s (w 0) h) hstep).trans hrest

/-- **A call on its own is a run**, where it may be made and go on. -/
theorem Reaches.alone (hspawn : adm c (.spawn call))
    (hadm : ∀ τ q k s o, After (prog call) τ (.op q k) →
      adm ⟨s, c.threads ++ [⟨call, τ, .op q k⟩]⟩ (.step c.threads.length o)) (w : ℕ → O) :
    Reaches exec prog adm c (c.alone exec prog call w) :=
  (Reaches.refl.tail hspawn rfl).trans (Reaches.finish (.nil _) hadm w c.shared)

/-- The thread of the call. -/
theorem Conf.alone_thread (w : ℕ → O) : (c.alone exec prog call w).threads[c.threads.length]? =
    some ⟨call, (prog call).told exec w c.shared, .ret ((prog call).run exec w c.shared).1⟩ :=
  List.getElem?_concat_length ..

end Effects
