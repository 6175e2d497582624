import Railyard.Effects.Purge

/-!
# Calls cut off by a restart

A process ends at any moment, whatever its calls have done by then, and the next one starts from
what `boot` makes of the state that was left.  A `Host` is the state and the calls of every process
so far.  Those of a process that has ended are kept, for what they have done was done, but never go
on.

* `Host.step_eq_some` says once what can happen to a host.
* `Host.Runs` is a run of a host, and `Host.Runs.invariant` its induction.
* `Host.Runs.cut` says that a call cut off stays where it was.
* `Host.Runs.process`: the process at work, taken alone, is a run from the state it started in.
* `Host.Runs.purge`: where `boot` changes nothing the calls that are kept can see, a run of a host
  is a run of these calls without any restart.
-/

set_option autoImplicit false

namespace Effects

open Prog

variable {S : Type} {R : S → Type} {C α O B σ : Type}

/-- The state, and every call of every process so far. -/
structure Host (σ : Type) (C : Type) (S : Type) (R : S → Type) (α : Type) where
  conf : Conf σ C S R α
  /-- How many calls there were when each process after the first started, the last one first. -/
  starts : List ℕ

/-- The calls before this one were cut off. -/
def Host.dead (h : Host σ C S R α) : ℕ := h.starts.headD 0

/-- A machine that no process has run on. -/
def Host.fresh (s : σ) : Host σ C S R α := ⟨⟨s, []⟩, []⟩

/-- The process at work, without the calls of those before it. -/
def Host.process (h : Host σ C S R α) : Conf σ C S R α :=
  { h.conf with threads := h.conf.threads.drop h.dead }

/-- The process at work takes an action, or it ends and the next one starts. -/
inductive HostAct (O : Type) (B : Type) (C : Type)
  | act (a : Act O C)
  | restart (b : B)

/-- An action of the process at work, the calls before `dead` being those of others. -/
def Act.Alive (dead : ℕ) : Act O C → Prop
  | .spawn _ => True
  | .step i _ => dead ≤ i

instance {dead : ℕ} : DecidablePred (Act.Alive dead : Act O C → Prop)
  | .spawn _ => .isTrue trivial
  | .step i _ => inferInstanceAs (Decidable (dead ≤ i))

/-- The action, among the calls of the process at work only. -/
def Act.since (dead : ℕ) : Act O C → Act O C
  | .spawn call => .spawn call
  | .step i o => .step (i - dead) o

variable (exec : O → (q : S) → σ → R q × σ) (prog : C → Prog S R α) (boot : B → σ → σ)

/-- The host after the next process has started. -/
def Host.restart (h : Host σ C S R α) (b : B) : Host σ C S R α where
  conf := { h.conf with shared := boot b h.conf.shared }
  starts := h.conf.threads.length :: h.starts

def Host.step (h : Host σ C S R α) : HostAct O B C → Option (Host σ C S R α)
  | .act a =>
    if a.Alive h.dead then (h.conf.step exec prog a).map fun c ↦ { h with conf := c } else none
  | .restart b => some (h.restart boot b)

variable {exec prog boot}

theorem Host.step_eq_some {h h' : Host σ C S R α} {a : HostAct O B C}
    (hs : h.step exec prog boot a = some h') :
    (∃ a' c, a = .act a' ∧ a'.Alive h.dead ∧ h.conf.step exec prog a' = some c ∧
        h' = { h with conf := c }) ∨
      ∃ b, a = .restart b ∧ h' = h.restart boot b := by
  cases a with
  | act a =>
    rw [step] at hs
    split at hs
    · rename_i halive
      obtain ⟨c, hc, rfl⟩ := Option.map_eq_some_iff.mp hs
      exact .inl ⟨a, c, rfl, halive, hc, rfl⟩
    · cases hs
  | restart b => exact .inr ⟨b, rfl, (Option.some.inj hs).symm⟩

variable (exec prog boot) in
/-- `h'` is what becomes of `h` by actions each admissible where it is taken, and by restarts. -/
inductive Host.Runs (adm : Host σ C S R α → Act O C → Prop) (h : Host σ C S R α) :
    Host σ C S R α → Prop
  | refl : Runs adm h h
  | act {h₁ : Host σ C S R α} {c : Conf σ C S R α} {a : Act O C} (hr : Runs adm h h₁)
      (ha : adm h₁ a) (halive : a.Alive h₁.dead) (hs : h₁.conf.step exec prog a = some c) :
      Runs adm h { h₁ with conf := c }
  | restart {h₁ : Host σ C S R α} (hr : Runs adm h h₁) (b : B) : Runs adm h (h₁.restart boot b)

variable {adm : Host σ C S R α → Act O C → Prop} {adm' : Conf σ C S R α → Act O C → Prop}
  {h h' h'' : Host σ C S R α} {s : σ}

theorem Host.Runs.trans (hr : Host.Runs exec prog boot adm h h')
    (hr' : Host.Runs exec prog boot adm h' h'') : Host.Runs exec prog boot adm h h'' := by
  induction hr' with
  | refl => exact hr
  | act _ ha halive hs ih => exact ih.act ha halive hs
  | restart _ b ih => exact ih.restart b

/-- What the first host satisfies, and every admissible action and every restart keeps. -/
theorem Host.Runs.invariant {I : Host σ C S R α → Prop} (hr : Host.Runs exec prog boot adm h h')
    (h0 : I h)
    (hact : ∀ h₁ c a, Host.Runs exec prog boot adm h h₁ → I h₁ → adm h₁ a →
      a.Alive h₁.dead → h₁.conf.step exec prog a = some c → I { h₁ with conf := c })
    (hrestart : ∀ h₁ b, Host.Runs exec prog boot adm h h₁ → I h₁ → I (h₁.restart boot b)) :
    I h' := by
  induction hr with
  | refl => exact h0
  | act hr ha halive hs ih => exact hact _ _ _ hr ih ha halive hs
  | restart hr b ih => exact hrestart _ b hr ih

/-! ## Threads -/

/-- From a host with no calls, every thread's code is what its trace says. -/
theorem Host.Runs.after (hr : Host.Runs exec prog boot adm (.fresh s) h) :
    ∀ t ∈ h.conf.threads, After (prog t.call) t.trace t.code := by
  refine hr.invariant (I := fun h ↦ ∀ t ∈ h.conf.threads, After (prog t.call) t.trace t.code)
    (fun t ht ↦ absurd ht List.not_mem_nil) ?_ fun h₁ b _ hI ↦ hI
  intro h₁ c a _ hI _ _ hs
  exact Conf.step_consistent hs hI

theorem Host.Runs.thread_le (hr : Host.Runs exec prog boot adm h h') {i : ℕ}
    {t : Thread C S R α} (hi : h.conf.threads[i]? = some t) :
    ∃ t', h'.conf.threads[i]? = some t' ∧ t.LE t' := by
  refine hr.invariant (I := fun h' ↦ ∃ t', h'.conf.threads[i]? = some t' ∧ t.LE t')
    ⟨t, hi, rfl, List.prefix_rfl⟩ ?_ fun h₁ b _ hI ↦ hI
  rintro h₁ c a _ ⟨t₁, hi₁, hle₁⟩ _ _ hs
  obtain ⟨t₂, hi₂, hle₂, -⟩ := Conf.step_thread_le hs hi₁
  exact ⟨t₂, hi₂, hle₂.1.trans hle₁.1, hle₁.2.trans hle₂.2⟩

/-- Nothing that was done is undone, by a restart neither. -/
theorem Host.Runs.did (hr : Host.Runs exec prog boot adm h h') {i : ℕ} {e : Event S R}
    (hd : h.conf.Did i e) : h'.conf.Did i e := by
  obtain ⟨t, hi, he⟩ := hd
  obtain ⟨t', hi', hle⟩ := hr.thread_le hi
  exact ⟨t', hi', hle.2.subset he⟩

/-- **A call cut off** stays where it was. -/
theorem Host.Runs.cut (hr : Host.Runs exec prog boot adm h h') {i : ℕ} {t : Thread C S R α}
    (hi : h.conf.threads[i]? = some t) (hdead : i < h.dead) :
    h'.conf.threads[i]? = some t ∧ i < h'.dead := by
  refine hr.invariant (I := fun h' ↦ h'.conf.threads[i]? = some t ∧ i < h'.dead) ⟨hi, hdead⟩ ?_
    fun h₁ b _ hI ↦ ⟨hI.1, (List.getElem?_eq_some_iff.mp hI.1).1⟩
  rintro h₁ c a _ ⟨hi₁, hdead₁⟩ _ halive hs
  refine ⟨?_, hdead₁⟩
  obtain ⟨call, rfl, rfl⟩ | ⟨j, o, t₀, q, k, rfl, -, -, rfl⟩ := Conf.step_eq_some _ _ hs
  · rw [List.getElem?_append_left (List.getElem?_eq_some_iff.mp hi₁).1, hi₁]
  · have hne : j ≠ i := fun heq ↦ Nat.not_lt_of_le halive (heq ▸ hdead₁)
    rw [List.getElem?_set_ne hne, hi₁]

/-! ## The process at work -/

theorem Host.Runs.dead_le (hr : Host.Runs exec prog boot adm (.fresh s) h) :
    h.dead ≤ h.conf.threads.length := by
  refine hr.invariant (I := fun h ↦ h.dead ≤ h.conf.threads.length) (Nat.le_refl 0) ?_
    fun h₁ b _ _ ↦ Nat.le_refl _
  intro h₁ c a _ hI _ _ hs
  obtain ⟨call, rfl, rfl⟩ | ⟨i, o, t, q, k, rfl, -, -, rfl⟩ := Conf.step_eq_some _ _ hs
  · exact Nat.le_trans hI (by simp)
  · exact Nat.le_trans hI (by simp)

/-- An action of the process at work, seen by that process. -/
theorem Host.process_step {c : Conf σ C S R α} {a : Act O C}
    (hdead : h.dead ≤ h.conf.threads.length) (halive : a.Alive h.dead)
    (hs : h.conf.step exec prog a = some c) :
    h.process.step exec prog (a.since h.dead) = some (Host.process { h with conf := c }) := by
  obtain ⟨call, rfl, rfl⟩ | ⟨i, o, t, q, k, rfl, hi, hk, rfl⟩ := Conf.step_eq_some _ _ hs
  · refine congrArg some (congrArg (Conf.mk h.conf.shared) ?_)
    exact (List.drop_append_of_le_length hdead).symm
  · have halive : h.dead ≤ i := halive
    have hi' : h.process.threads[i - h.dead]? = some t := by
      rw [process, List.getElem?_drop, Nat.add_sub_cancel' halive, hi]
    rw [Act.since, Conf.step, hi']
    simp only [hk]
    refine congrArg some (congrArg (Conf.mk _) ?_)
    exact (List.drop_set ..|>.trans (if_neg (Nat.not_lt_of_le halive))).symm

/-- **The process at work**, taken alone, is a run from the state it started in. -/
theorem Host.Runs.process (hr : Host.Runs exec prog boot adm (.fresh s) h)
    (hadm : ∀ h a, adm h a → adm' h.process (a.since h.dead)) :
    ∃ s₀, Reaches exec prog adm' ⟨s₀, []⟩ h.process := by
  induction hr with
  | refl => exact ⟨s, .refl⟩
  | act hr ha halive hs ih =>
    obtain ⟨s₀, hreach⟩ := ih
    exact ⟨s₀, hreach.tail (hadm _ _ ha) (Host.process_step hr.dead_le halive hs)⟩
  | @restart h₁ hr b ih =>
    refine ⟨boot b h₁.conf.shared, ?_⟩
    have hnone : (h₁.restart boot b).process = ⟨boot b h₁.conf.shared, []⟩ :=
      congrArg (Conf.mk _) List.drop_length
    rw [hnone]
    exact .refl

/-- The call started last goes on. -/
theorem Host.Runs.last {l : List (Thread C S R α)} {starts : List ℕ} {call : C}
    {τ : List (Event S R)} {q : S} {r : R q} {k : R q → Prog S R α} {s' : σ}
    (hr : Host.Runs exec prog boot adm h ⟨⟨s, l ++ [⟨call, τ, .op q k⟩]⟩, starts⟩)
    (hdead : starts.headD 0 ≤ l.length) {o : O} (he : exec o q s = (r, s'))
    (ha : adm ⟨⟨s, l ++ [⟨call, τ, .op q k⟩]⟩, starts⟩ (.step l.length o)) :
    Host.Runs exec prog boot adm h ⟨⟨s', l ++ [⟨call, τ ++ [⟨q, r⟩], k r⟩]⟩, starts⟩ := by
  refine hr.act ha hdead ?_
  rw [Conf.step, List.getElem?_append_right (Nat.le_refl _), Nat.sub_self]
  simp only [List.getElem?_cons_zero, List.set_append_right _ _ (Nat.le_refl _), Nat.sub_self,
    List.set_cons_zero, Thread.advance, he]

/-! ## Restarts nobody sees -/

/-- **Restarts nobody sees**: where a restart and the calls that are not kept change nothing that
the calls that are kept can see, what these do is a run of theirs without restarts. -/
theorem Host.Runs.purge {E : (q : S) → R q → R q → Prop} {kept : C → Bool} {View : σ → σ → Prop}
    {d : Conf σ C S R α} (hr : Host.Runs exec prog boot adm h h')
    (hstart : Purged E kept View h.conf d)
    (hprog : ∀ call, kept call = true → Prog.Alike E (prog call) (prog call))
    (hboot : ∀ b s s', View s s' → View (boot b s) s')
    (hexec : ∀ h₁ d₁ a, Host.Runs exec prog boot adm h h₁ → Reaches exec prog adm' d d₁ →
      adm h₁ a → Purged E kept View h₁.conf d₁ → Purges E exec kept View h₁.conf d₁ a)
    (hadm : ∀ h₁ d₁ a a', adm h₁ a → Purged E kept View h₁.conf d₁ → a.Kept kept h₁.conf a' →
      Conf.AlikeEvent? E exec h₁.conf d₁ a a' → adm' d₁ a') :
    ∃ d', Reaches exec prog adm' d d' ∧ Purged E kept View h'.conf d' := by
  induction hr with
  | refl => exact ⟨d, .refl, hstart⟩
  | act hr ha halive hstep ih =>
    obtain ⟨d₁, hd, hpurged⟩ := ih
    obtain hnext | ⟨a', d₂, hkept, hevent, hstep', hnext⟩ :=
      hpurged.step hstep hprog (hexec _ d₁ _ hr hd ha hpurged)
    · exact ⟨d₁, hd, hnext⟩
    · exact ⟨d₂, hd.tail (hadm _ d₁ _ a' ha hpurged hkept hevent) hstep', hnext⟩
  | restart hr b ih =>
    obtain ⟨d₁, hd, hpurged⟩ := ih
    exact ⟨d₁, hd, hboot b _ _ hpurged.shared, hpurged.threads⟩

/-! ## Given runs -/

/-- Let a list of things happen in order, if each is possible. -/
def Host.run? (exec : O → (q : S) → σ → R q × σ) (prog : C → Prog S R α) (boot : B → σ → σ)
    (h : Host σ C S R α) : List (HostAct O B C) → Option (Host σ C S R α)
  | [] => some h
  | a :: as => (h.step exec prog boot a).bind fun h' ↦ h'.run? exec prog boot as

/-- Each of these actions is admissible where it is taken. -/
def Host.Admits (exec : O → (q : S) → σ → R q × σ) (prog : C → Prog S R α) (boot : B → σ → σ)
    (adm : Host σ C S R α → Act O C → Prop) (h : Host σ C S R α) : List (HostAct O B C) → Prop
  | [] => True
  | .act a :: as => adm h a ∧ ∀ h' ∈ h.step exec prog boot (.act a),
      h'.Admits exec prog boot adm as
  | .restart b :: as => (h.restart boot b).Admits exec prog boot adm as

instance Host.decidableAdmits [∀ h a, Decidable (adm h a)] :
    (as : List (HostAct O B C)) → (h : Host σ C S R α) → Decidable (h.Admits exec prog boot adm as)
  | [], _ => .isTrue trivial
  | .act a :: as, h =>
    have : DecidablePred fun h' : Host σ C S R α ↦ h'.Admits exec prog boot adm as :=
      decidableAdmits as
    inferInstanceAs (Decidable (adm h a ∧ ∀ h' ∈ h.step exec prog boot (.act a), _))
  | .restart b :: as, h => decidableAdmits as (h.restart boot b)

theorem Host.Runs.of_run? (as : List (HostAct O B C)) (hr : h.run? exec prog boot as = some h')
    (hadm : h.Admits exec prog boot adm as) : Host.Runs exec prog boot adm h h' := by
  induction as generalizing h with
  | nil => cases hr; exact .refl
  | cons a as ih =>
    obtain ⟨h₁, hs, h₁run⟩ := Option.bind_eq_some_iff.mp hr
    obtain ⟨a, c, rfl, halive, hc, rfl⟩ | ⟨b, rfl, rfl⟩ := Host.step_eq_some hs
    · exact (Host.Runs.refl.act hadm.1 halive hc).trans (ih h₁run (hadm.2 _ hs))
    · exact (Host.Runs.refl.restart b).trans (ih h₁run hadm)

end Effects
