import Mathlib.Data.Set.Lattice
import Railyard.Effects.Interleaving

/-!
# Facts that stay true

Between two operations of a call any other call may go on, so what a call has found out is of use
to it only if nobody can make it false again.  A `Discipline` names such facts: which of them a
reply teaches, and which an operation must rest on.

* `Prog.Follows` says of a program, whatever the replies, that every operation rests on facts
  taught by the replies before it.
* `Discipline.Sound` says of the operations that facts stay true, that what a reply teaches is
  true, and that an operation resting on true facts keeps an invariant of the state.
* `Reaches.follows_each` puts the two together: with programs that each follow a sound discipline,
  the invariant holds under every interleaving, and everything done rested on facts that still hold.
  `Reaches.follows` is the case of one discipline for all.
* `Reaches.backed` is about what the programs end with: it is backed by facts that hold for good.
-/

set_option autoImplicit false

namespace Effects

variable {S : Type} {R : S → Type} {C α β O σ κ : Type}

/-- What replies teach, and what an operation must rest on. -/
structure Discipline (S : Type) (R : S → Type) (κ : Type) where
  learnt : (q : S) → R q → Set κ
  allowed : Set κ → S → Prop
  allowed_mono : ∀ {K K' : Set κ} {q : S}, K ⊆ K' → allowed K q → allowed K' q

variable {D : Discipline S R κ}

namespace Prog

/-- From the facts `K` on, every operation is allowed by the facts known when it is issued, and the
value the program ends with satisfies `ψ`. -/
def Follows (D : Discipline S R κ) (ψ : Set κ → α → Prop) : Set κ → Prog S R α → Prop
  | K, ret a => ψ K a
  | K, op q k => D.allowed K q ∧ ∀ r, (k r).Follows D ψ (K ∪ D.learnt q r)

theorem Follows.mono {ψ ψ' : Set κ → α → Prop} {p : Prog S R α} {K K' : Set κ}
    (h : p.Follows D ψ K) (hK : K ⊆ K') (hψ : ∀ K₁ K₂ a, K₁ ⊆ K₂ → ψ K₁ a → ψ' K₂ a) :
    p.Follows D ψ' K' := by
  induction p generalizing K K' with
  | ret a => exact hψ K K' a hK h
  | op q k ih =>
    refine ⟨D.allowed_mono hK h.1, fun r ↦ ih r (h.2 r) ?_⟩
    exact Set.union_subset_union_left _ hK

theorem Follows.bind {χ : Set κ → α → Prop} {ψ : Set κ → β → Prop} {p : Prog S R α}
    {f : α → Prog S R β} {K : Set κ} (hp : p.Follows D χ K)
    (hf : ∀ K' a, K ⊆ K' → χ K' a → (f a).Follows D ψ K') : (p.bind f).Follows D ψ K := by
  induction p generalizing K with
  | ret a => exact hf K a subset_rfl hp
  | op q k ih =>
    refine ⟨hp.1, fun r ↦ ih r (hp.2 r) fun K' a hK ha ↦ ?_⟩
    exact hf K' a (Set.subset_union_left.trans hK) ha

/-- A program all of whose operations are allowed from the start.  Its value may be backed by what
was known then. -/
theorem Follows.of_does_known {φ : S → Prop} {χ : α → Prop} {ψ : Set κ → α → Prop}
    {p : Prog S R α} {K : Set κ} (h : p.Does φ χ) (hφ : ∀ q, φ q → D.allowed K q)
    (hψ : ∀ K' a, K ⊆ K' → χ a → ψ K' a) : p.Follows D ψ K := by
  induction p generalizing K with
  | ret a => exact hψ K a subset_rfl h
  | op q k ih =>
    refine ⟨hφ q h.1, fun r ↦ ih r (h.2 r) (fun q' hq' ↦ ?_) fun K' a hK ha ↦ ?_⟩
    · exact D.allowed_mono Set.subset_union_left (hφ q' hq')
    · exact hψ K' a (Set.subset_union_left.trans hK) ha

/-- The same, where the value needs no backing. -/
theorem Follows.of_does {φ : S → Prop} {χ : α → Prop} {ψ : Set κ → α → Prop} {p : Prog S R α}
    {K : Set κ} (h : p.Does φ χ) (hφ : ∀ q, φ q → D.allowed K q) (hψ : ∀ K' a, χ a → ψ K' a) :
    p.Follows D ψ K :=
  of_does_known h hφ fun K' a _ ↦ hψ K' a

end Prog

/-- Facts `x` that `holds x` once are true for good, replies teach truths where the invariant `I`
holds, and operations resting on truths keep it. -/
structure Discipline.Sound (D : Discipline S R κ) (exec : O → (q : S) → σ → R q × σ)
    (holds : κ → σ → Prop) (I : σ → Prop) : Prop where
  stable : ∀ o q s x, holds x s → holds x (exec o q s).2
  learnt : ∀ o q s, I s → ∀ x ∈ D.learnt q (exec o q s).1, holds x (exec o q s).2
  keeps : ∀ o q s K, (∀ x ∈ K, holds x s) → D.allowed K q → I s → I (exec o q s).2

/-- The thread's code follows the discipline from facts that hold, and so did what it has done. -/
structure Thread.Follows (D : Discipline S R κ) (holds : κ → σ → Prop) (s : σ)
    (t : Thread C S R α) : Prop where
  code : ∃ K : Set κ, (∀ x ∈ K, holds x s) ∧ t.code.Follows D (fun _ _ ↦ True) K
  trace : ∀ e ∈ t.trace, ∃ K : Set κ, (∀ x ∈ K, holds x s) ∧ D.allowed K e.1

variable {exec : O → (q : S) → σ → R q × σ} {prog : C → Prog S R α} {holds : κ → σ → Prop}
  {I : σ → Prop} {adm : Conf σ C S R α → Act O C → Prop}

/-- Once the operation has been answered, the facts before it and those it teaches hold. -/
theorem Discipline.Sound.told (hsound : D.Sound exec holds I) {s : σ} {K : Set κ}
    (hI : I s) (hK : ∀ x ∈ K, holds x s) (o : O) (q : S) :
    ∀ x ∈ K ∪ D.learnt q (exec o q s).1, holds x (exec o q s).2 := by
  rintro x (hx | hx)
  · exact hsound.stable o q s x (hK x hx)
  · exact hsound.learnt o q s hI x hx

/-- Where facts stay true, a thread goes on following. -/
theorem Thread.Follows.stable {s s' : σ} {t : Thread C S R α} (h : t.Follows D holds s)
    (hstable : ∀ x, holds x s → holds x s') : t.Follows D holds s' := by
  obtain ⟨K, hK, hcode⟩ := h.code
  refine ⟨⟨K, fun x hx ↦ hstable x (hK x hx), hcode⟩, fun e he ↦ ?_⟩
  obtain ⟨K, hK, hallowed⟩ := h.trace e he
  exact ⟨K, fun x hx ↦ hstable x (hK x hx), hallowed⟩

/-- A thread that has issued its next operation knows what the reply teaches. -/
theorem Thread.Follows.advance (hsound : D.Sound exec holds I) {s : σ} {t : Thread C S R α}
    (h : t.Follows D holds s) (hI : I s) {q : S} {k : R q → Prog S R α} (hk : t.code = .op q k)
    (o : O) : (t.advance q (exec o q s).1 (k (exec o q s).1)).Follows D holds (exec o q s).2 := by
  obtain ⟨K, hK, hcode⟩ := h.code
  rw [hk] at hcode
  refine ⟨⟨_, hsound.told hI hK o q, hcode.2 (exec o q s).1⟩, fun e he ↦ ?_⟩
  rcases List.mem_append.mp he with he | he
  · exact (h.stable fun x ↦ hsound.stable o q s x).trace e he
  · rw [List.mem_singleton.mp he]
    exact ⟨K, fun x hx ↦ hsound.stable o q s x (hK x hx), hcode.1⟩

/-- Calls that each follow a sound discipline of their own keep the invariant, and each rests on
facts that hold. -/
theorem Reaches.follows_each {D : C → Discipline S R κ}
    (hsound : ∀ call, (D call).Sound exec holds I)
    (hprog : ∀ call, (prog call).Follows (D call) (fun _ _ ↦ True) ∅) {s : σ} (hI : I s)
    {c : Conf σ C S R α} (h : Reaches exec prog adm ⟨s, []⟩ c) :
    I c.shared ∧ ∀ t ∈ c.threads, t.Follows (D t.call) holds c.shared := by
  refine h.invariant (I := fun c ↦ I c.shared ∧
    ∀ t ∈ c.threads, t.Follows (D t.call) holds c.shared) ⟨hI, by simp⟩ ?_
  rintro c₁ c₂ a - ⟨hI₁, hthreads⟩ - hstep
  obtain ⟨call, rfl, rfl⟩ | ⟨i, o, t, q, k, rfl, hi, hk, rfl⟩ := Conf.step_eq_some _ _ hstep
  · refine ⟨hI₁, fun t ht ↦ ?_⟩
    rcases List.mem_append.mp ht with ht | ht
    · exact hthreads t ht
    · rw [List.mem_singleton.mp ht]
      exact ⟨⟨∅, by simp, hprog call⟩, by simp⟩
  · have ht := hthreads t (List.mem_of_getElem? hi)
    constructor
    · obtain ⟨K, hK, hcode⟩ := ht.code
      rw [hk] at hcode
      exact (hsound t.call).keeps o q c₁.shared K hK hcode.1 hI₁
    · intro t' ht'
      rcases List.mem_or_eq_of_mem_set ht' with ht' | rfl
      · exact (hthreads t' ht').stable fun x ↦ (hsound t.call).stable o q c₁.shared x
      · exact ht.advance (hsound t.call) hI₁ hk o

/-- **Following a sound discipline** keeps the invariant under every interleaving, and everything
done rested on facts that still hold. -/
theorem Reaches.follows (hsound : D.Sound exec holds I)
    (hprog : ∀ call, (prog call).Follows D (fun _ _ ↦ True) ∅) {s : σ} (hI : I s)
    {c : Conf σ C S R α} (h : Reaches exec prog adm ⟨s, []⟩ c) :
    I c.shared ∧ ∀ t ∈ c.threads, t.Follows D holds c.shared :=
  h.follows_each (fun _ ↦ hsound) hprog hI

/-! ## Answers -/

/-- A program that runs alone keeps the invariant and every fact, and its value is backed by facts
that hold. -/
theorem Prog.Follows.run (hsound : D.Sound exec holds I) {ψ : Set κ → α → Prop}
    {p : Prog S R α} {K : Set κ} (h : p.Follows D ψ K) (w : ℕ → O) {s : σ} (hI : I s)
    (hK : ∀ x ∈ K, holds x s) :
    I (p.run exec w s).2 ∧ (∀ x, holds x s → holds x (p.run exec w s).2) ∧
      ∃ K' : Set κ, (∀ x ∈ K', holds x (p.run exec w s).2) ∧ ψ K' (p.run exec w s).1 := by
  induction p generalizing K w s with
  | ret a => exact ⟨hI, fun _ hx ↦ hx, K, hK, h⟩
  | op q k ih =>
    obtain ⟨hI', hkept, hvalue⟩ := ih _ (h.2 (exec (w 0) q s).1) (fun n ↦ w (n + 1))
      (hsound.keeps (w 0) q s K hK h.1 hI) (hsound.told hI hK (w 0) q)
    exact ⟨hI', fun x hx ↦ hkept x (hsound.stable (w 0) q s x hx), hvalue⟩

/-- What the thread ends with is backed by facts that hold. -/
def Thread.Backed (D : Discipline S R κ) (holds : κ → σ → Prop) (ψ : Set κ → α → Prop) (s : σ)
    (t : Thread C S R α) : Prop :=
  ∃ K : Set κ, (∀ x ∈ K, holds x s) ∧ t.code.Follows D ψ K

/-- **Programs that run next to each other** keep the invariant and every fact, and whatever one of
them has ended with is backed by facts that hold. -/
theorem Reaches.backed (hsound : D.Sound exec holds I) {ψ : Set κ → α → Prop}
    (hprog : ∀ call, (prog call).Follows D ψ ∅) {c c' : Conf σ C S R α} (hI : I c.shared)
    (hbacked : ∀ t ∈ c.threads, t.Backed D holds ψ c.shared) (h : Reaches exec prog adm c c') :
    I c'.shared ∧ (∀ x, holds x c.shared → holds x c'.shared) ∧
      ∀ t ∈ c'.threads, t.Backed D holds ψ c'.shared := by
  refine h.invariant (I := fun c' ↦ I c'.shared ∧
    (∀ x, holds x c.shared → holds x c'.shared) ∧ ∀ t ∈ c'.threads, t.Backed D holds ψ c'.shared)
    ⟨hI, fun _ hx ↦ hx, hbacked⟩ ?_
  rintro c₁ c₂ a - ⟨hI₁, hkept, hthreads⟩ - hstep
  obtain ⟨call, rfl, rfl⟩ | ⟨i, o, t, q, k, rfl, hi, hk, rfl⟩ := Conf.step_eq_some _ _ hstep
  · refine ⟨hI₁, hkept, fun t ht ↦ ?_⟩
    rcases List.mem_append.mp ht with ht | ht
    · exact hthreads t ht
    · rw [List.mem_singleton.mp ht]
      exact ⟨∅, by simp, hprog call⟩
  · obtain ⟨K, hK, hcode⟩ := hthreads t (List.mem_of_getElem? hi)
    rw [hk] at hcode
    refine ⟨hsound.keeps o q c₁.shared K hK hcode.1 hI₁,
      fun x hx ↦ hsound.stable o q c₁.shared x (hkept x hx), fun t' ht' ↦ ?_⟩
    rcases List.mem_or_eq_of_mem_set ht' with ht' | rfl
    · obtain ⟨K', hK', hcode'⟩ := hthreads t' ht'
      exact ⟨K', fun x hx ↦ hsound.stable o q c₁.shared x (hK' x hx), hcode'⟩
    · exact ⟨_, hsound.told hI₁ hK o q, hcode.2 (exec o q c₁.shared).1⟩

end Effects
