import Railyard.Effects.Program

/-!
# Programs running next to each other

Any number of calls, each running its own `Prog`, share one state.  An operation is atomic and
between two operations of one call any other call may go on.  A `Conf` is the shared state
together with the calls made so far, each with the operations it has issued (`Thread.trace`) and
the program it still has to run (`Thread.code`).  `Conf.step` starts a call or lets one call issue
its next operation.

* `Conf.step_eq_some` says once what a step can do.
* `Reaches adm c c'` is reachability by admissible actions, and `Reaches.invariant` the induction
  every safety property goes through.
* `Reaches.after` ties each thread's code to its trace, so that where a call stands can be read
  off the replies it got.
* `Reaches.thread_le` says that a later configuration has every thread of an earlier one, further
  along.
-/

set_option autoImplicit false

namespace Effects

open Prog

variable {S : Type} {R : S → Type} {C α O σ : Type}

/-- One call in flight, or returned. -/
structure Thread (C : Type) (S : Type) (R : S → Type) (α : Type) where
  /-- What was called. -/
  call : C
  /-- The operations issued so far, with their replies. -/
  trace : List (Event S R)
  /-- What is left to run. -/
  code : Prog S R α

/-- Thread `t` has returned `a`. -/
def Thread.Returned (t : Thread C S R α) (a : α) : Prop := t.code = .ret a

/-- The shared state and every call made so far. -/
structure Conf (σ : Type) (C : Type) (S : Type) (R : S → Type) (α : Type) where
  shared : σ
  threads : List (Thread C S R α)

/-- Start a call, or let thread `i` issue its next operation with the outside contributing `o`. -/
inductive Act (O : Type) (C : Type)
  | spawn (call : C)
  | step (i : ℕ) (o : O)

/-- If the action starts a call, then one satisfying `φ`. -/
def Act.Starts (φ : C → Prop) : Act O C → Prop
  | .spawn call => φ call
  | .step .. => True

instance {φ : C → Prop} [DecidablePred φ] : DecidablePred (Act.Starts φ : Act O C → Prop)
  | .spawn call => inferInstanceAs (Decidable (φ call))
  | .step .. => .isTrue trivial

variable (exec : O → (q : S) → σ → R q × σ) (prog : C → Prog S R α)

/-- Thread `t` once its pending operation `q` has been answered with `r`. -/
def Thread.advance (t : Thread C S R α) (q : S) (r : R q) (code : Prog S R α) : Thread C S R α :=
  { t with trace := t.trace ++ [⟨q, r⟩], code := code }

/-- The configuration after one action, if the action is possible at all. -/
def Conf.step (c : Conf σ C S R α) : Act O C → Option (Conf σ C S R α)
  | .spawn call => some { c with threads := c.threads ++ [⟨call, [], prog call⟩] }
  | .step i o =>
    match c.threads[i]? with
    | none => none
    | some t =>
      match t.code with
      | .ret _ => none
      | .op q k => some
        { shared := (exec o q c.shared).2
          threads := c.threads.set i
            (t.advance q (exec o q c.shared).1 (k (exec o q c.shared).1)) }

/-- Everything a step can do. -/
theorem Conf.step_eq_some {c c' : Conf σ C S R α} {a : Act O C} (h : c.step exec prog a = some c') :
    (∃ call, a = .spawn call ∧
        c' = { c with threads := c.threads ++ [⟨call, [], prog call⟩] }) ∨
      ∃ i o t q k, a = .step i o ∧ c.threads[i]? = some t ∧ t.code = .op q k ∧
        c' = { shared := (exec o q c.shared).2
               threads := c.threads.set i
                (t.advance q (exec o q c.shared).1 (k (exec o q c.shared).1)) } := by
  cases a with
  | spawn call => exact .inl ⟨call, rfl, (Option.some.inj h).symm⟩
  | step i o =>
    rw [step] at h
    split at h
    · cases h
    · rename_i t ht
      split at h
      · cases h
      · rename_i q k hk
        exact .inr ⟨i, o, t, q, k, rfl, ht, hk, (Option.some.inj h).symm⟩

/-- `c'` is reached from `c` by actions each admissible where it is taken. -/
inductive Reaches (adm : Conf σ C S R α → Act O C → Prop) (c : Conf σ C S R α) :
    Conf σ C S R α → Prop
  | refl : Reaches adm c c
  | tail {c₁ c₂ : Conf σ C S R α} {a : Act O C} (h : Reaches adm c c₁) (ha : adm c₁ a)
      (hs : c₁.step exec prog a = some c₂) : Reaches adm c c₂

variable {exec prog} {adm : Conf σ C S R α → Act O C → Prop} {c c' c'' : Conf σ C S R α}

theorem Reaches.trans (h : Reaches exec prog adm c c') (h' : Reaches exec prog adm c' c'') :
    Reaches exec prog adm c c'' := by
  induction h' with
  | refl => exact h
  | tail _ ha hs ih => exact ih.tail ha hs

theorem Reaches.mono {adm' : Conf σ C S R α → Act O C → Prop} (hle : ∀ c a, adm c a → adm' c a)
    (h : Reaches exec prog adm c c') : Reaches exec prog adm' c c' := by
  induction h with
  | refl => exact .refl
  | tail _ ha hs ih => exact ih.tail (hle _ _ ha) hs

/-- What the first configuration satisfies and every admissible step keeps, every reachable
configuration satisfies. -/
theorem Reaches.invariant {I : Conf σ C S R α → Prop} (h : Reaches exec prog adm c c') (h0 : I c)
    (hs : ∀ c₁ c₂ a, Reaches exec prog adm c c₁ → I c₁ → adm c₁ a →
      c₁.step exec prog a = some c₂ → I c₂) : I c' := by
  induction h with
  | refl => exact h0
  | tail h ha hst ih => exact hs _ _ _ h ih ha hst

/-- Of the threads after a step, one has advanced and the others were there. -/
theorem mem_set_cases {β : Type} {l : List β} {i : ℕ} {b x : β} (h : x ∈ l.set i b) :
    x ∈ l.eraseIdx i ∨ x = b := by
  obtain ⟨j, hj⟩ := List.mem_iff_getElem?.mp h
  by_cases hij : j = i
  · subst hij
    have hlt : j < l.length := by
      have := (List.getElem?_eq_some_iff.mp hj).1
      rwa [List.length_set] at this
    rw [List.getElem?_set_self hlt] at hj
    exact .inr (Option.some.inj hj).symm
  · rw [List.getElem?_set_ne (Ne.symm hij)] at hj
    exact .inl (List.mem_eraseIdx_iff_getElem?.mpr ⟨j, hij, hj⟩)

/-- Every thread but the one that advanced is still there. -/
theorem mem_set_or_eq {β : Type} {l : List β} {i : ℕ} {a b x : β} (hi : l[i]? = some a)
    (h : x ∈ l) : x ∈ l.set i b ∨ x = a := by
  obtain ⟨j, hj⟩ := List.mem_iff_getElem?.mp h
  by_cases hij : j = i
  · subst hij
    exact .inr (Option.some.inj (hj.symm.trans hi))
  · exact .inl (List.mem_of_getElem? ((List.getElem?_set_ne (Ne.symm hij)).trans hj))

/-! ## Where a thread stands -/

/-- A thread's code is what its call's program has become. -/
def Thread.Consistent (prog : C → Prog S R α) (t : Thread C S R α) : Prop :=
  After (prog t.call) t.trace t.code

theorem Thread.Consistent.advance {t : Thread C S R α} (ht : t.Consistent prog) {q : S}
    {k : R q → Prog S R α} (hk : t.code = .op q k) (r : R q) :
    (t.advance q r (k r)).Consistent prog := by
  rw [Consistent, hk] at ht
  exact ht.snoc r

theorem Conf.step_consistent {a : Act O C} (h : c.step exec prog a = some c')
    (hc : ∀ t ∈ c.threads, t.Consistent prog) : ∀ t ∈ c'.threads, t.Consistent prog := by
  intro t ht
  obtain ⟨call, rfl, rfl⟩ | ⟨i, o, t₀, q, k, rfl, hi, hk, rfl⟩ := c.step_eq_some exec prog h
  · rcases List.mem_append.mp ht with ht | ht
    · exact hc t ht
    · rw [List.mem_singleton.mp ht]; exact .nil _
  · rcases List.mem_or_eq_of_mem_set ht with ht | rfl
    · exact hc t ht
    · exact (hc t₀ (List.mem_of_getElem? hi)).advance hk _

/-- From a configuration with no calls, every thread's code is what its trace says. -/
theorem Reaches.after {s : σ} (h : Reaches exec prog adm ⟨s, []⟩ c) :
    ∀ t ∈ c.threads, After (prog t.call) t.trace t.code :=
  h.invariant (I := fun c ↦ ∀ t ∈ c.threads, t.Consistent prog) (by simp)
    fun _ _ _ _ hc _ hs ↦ Conf.step_consistent hs hc

/-! ## Threads only go forward -/

/-- `t'` is the thread `t`, possibly further along. -/
def Thread.LE (t t' : Thread C S R α) : Prop := t'.call = t.call ∧ t.trace <+: t'.trace

theorem Conf.step_thread_le {a : Act O C} (h : c.step exec prog a = some c') {i : ℕ}
    {t : Thread C S R α} (hi : c.threads[i]? = some t) :
    ∃ t', c'.threads[i]? = some t' ∧ t.LE t' ∧ (t'.code ≠ t.code → ∃ q k, t.code = .op q k) := by
  obtain ⟨call, rfl, rfl⟩ | ⟨j, o, t₀, q, k, rfl, hj, hk, rfl⟩ := c.step_eq_some exec prog h
  · have hlt := (List.getElem?_eq_some_iff.mp hi).1
    exact ⟨t, by rw [List.getElem?_append_left hlt, hi], ⟨rfl, List.prefix_rfl⟩,
      fun h ↦ absurd rfl h⟩
  · by_cases hij : j = i
    · subst hij
      cases hi.symm.trans hj
      refine ⟨_, List.getElem?_set_self (List.getElem?_eq_some_iff.mp hi).1, ⟨rfl, ?_⟩,
        fun _ ↦ ⟨q, k, hk⟩⟩
      exact List.prefix_append _ _
    · exact ⟨t, by rw [List.getElem?_set_ne hij, hi], ⟨rfl, List.prefix_rfl⟩,
        fun h ↦ absurd rfl h⟩

theorem Reaches.thread_le (h : Reaches exec prog adm c c') {i : ℕ} {t : Thread C S R α}
    (hi : c.threads[i]? = some t) : ∃ t', c'.threads[i]? = some t' ∧ t.LE t' := by
  induction h with
  | refl => exact ⟨t, hi, rfl, List.prefix_rfl⟩
  | tail _ _ hs ih =>
    obtain ⟨t₁, hi₁, hle₁⟩ := ih
    obtain ⟨t₂, hi₂, hle₂, -⟩ := Conf.step_thread_le hs hi₁
    exact ⟨t₂, hi₂, hle₂.1.trans hle₁.1, hle₁.2.trans hle₂.2⟩

/-! ## What has happened so far

`c.Did i e` says that thread `i` has issued an operation and got a reply, as recorded in `e`.
Nothing that was done is undone, so a safety argument can speak about the tables and about what
was done, and never about program counters. -/

/-- Thread `i` has got the reply of `e` to the operation of `e`. -/
def Conf.Did (c : Conf σ C S R α) (i : ℕ) (e : Event S R) : Prop :=
  ∃ t, c.threads[i]? = some t ∧ e ∈ t.trace

theorem Conf.did_spawn {c : Conf σ C S R α} {call : C} {p : Prog S R α} {i : ℕ} {e : Event S R} :
    ({ c with threads := c.threads ++ [⟨call, [], p⟩] } : Conf σ C S R α).Did i e ↔ c.Did i e := by
  constructor
  · rintro ⟨t, ht, he⟩
    rcases Nat.lt_or_ge i c.threads.length with hlt | hge
    · exact ⟨t, by rwa [List.getElem?_append_left hlt] at ht, he⟩
    · rw [List.getElem?_append_right hge] at ht
      rw [List.mem_singleton.mp (List.mem_of_getElem? ht)] at he
      cases he
  · rintro ⟨t, ht, he⟩
    exact ⟨t, by rw [List.getElem?_append_left (List.getElem?_eq_some_iff.mp ht).1]; exact ht, he⟩

theorem Conf.did_advance {c : Conf σ C S R α} {s : σ} {t : Thread C S R α} {i j : ℕ} {q : S}
    {r : R q} {p : Prog S R α} {e : Event S R} (hi : c.threads[i]? = some t) :
    (⟨s, c.threads.set i (t.advance q r p)⟩ : Conf σ C S R α).Did j e ↔
      c.Did j e ∨ j = i ∧ e = ⟨q, r⟩ := by
  have hlt := (List.getElem?_eq_some_iff.mp hi).1
  by_cases hij : j = i
  · subst hij
    simp only [Did, List.getElem?_set_self hlt, hi, Option.some_inj, exists_eq_left', true_and]
    rw [Thread.advance, List.mem_append, List.mem_singleton]
  · simp only [Did, List.getElem?_set_ne (Ne.symm hij), hij, false_and, or_false]

theorem Conf.Did.step {a : Act O C} (h : c.step exec prog a = some c') {i : ℕ} {e : Event S R}
    (hd : c.Did i e) : c'.Did i e := by
  obtain ⟨t, hi, he⟩ := hd
  obtain ⟨t', hi', hle, -⟩ := Conf.step_thread_le h hi
  exact ⟨t', hi', hle.2.subset he⟩

theorem Conf.Did.reaches (h : Reaches exec prog adm c c') {i : ℕ} {e : Event S R}
    (hd : c.Did i e) : c'.Did i e := by
  obtain ⟨t, hi, he⟩ := hd
  obtain ⟨t', hi', hle⟩ := h.thread_le hi
  exact ⟨t', hi', hle.2.subset he⟩

/-- Everything done was once pending, after what the thread had been told by then. -/
theorem Reaches.issued {s : σ} (h : Reaches exec prog adm ⟨s, []⟩ c) {i : ℕ} {e : Event S R}
    (hd : c.Did i e) : ∃ t τ₁ τ₂ k, c.threads[i]? = some t ∧ t.trace = τ₁ ++ e :: τ₂ ∧
      After (prog t.call) τ₁ (.op e.1 k) := by
  obtain ⟨t, hi, he⟩ := hd
  obtain ⟨τ₁, τ₂, hτ⟩ := List.append_of_mem he
  have ha := h.after t (List.mem_of_getElem? hi)
  rw [hτ] at ha
  obtain ⟨k, hk, -⟩ := ha.split
  exact ⟨t, τ₁, τ₂, k, hi, hτ, hk⟩

/-- What holds of every operation when it is done, and is kept by every later step, holds of
everything done. -/
theorem Reaches.did {s : σ} (h : Reaches exec prog adm ⟨s, []⟩ c)
    {φ : Conf σ C S R α → ℕ → Event S R → Prop}
    (hkeep : ∀ c c' a i e, Reaches exec prog adm ⟨s, []⟩ c → adm c a →
      c.step exec prog a = some c' → c.Did i e → φ c i e → φ c' i e)
    (hnew : ∀ c c' i o t q k, Reaches exec prog adm ⟨s, []⟩ c → adm c (.step i o) →
      c.threads[i]? = some t → t.code = .op q k →
      c' = ⟨(exec o q c.shared).2, c.threads.set i
        (t.advance q (exec o q c.shared).1 (k (exec o q c.shared).1))⟩ →
      φ c' i ⟨q, (exec o q c.shared).1⟩) :
    ∀ i e, c.Did i e → φ c i e := by
  refine h.invariant (I := fun c ↦ ∀ i e, c.Did i e → φ c i e) ?_ ?_
  · rintro i e ⟨t, ht, -⟩
    simp at ht
  · intro c₁ c₂ a hr hI ha hs i e hd
    obtain ⟨call, rfl, rfl⟩ | ⟨j, o, t, q, k, rfl, hj, hk, hc⟩ := c₁.step_eq_some exec prog hs
    · have hd₁ := Conf.did_spawn.mp hd
      exact hkeep _ _ _ i e hr ha hs hd₁ (hI i e hd₁)
    · rw [hc, Conf.did_advance hj] at hd
      rcases hd with hd₁ | ⟨rfl, rfl⟩
      · exact hkeep _ _ _ i e hr ha hs hd₁ (hI i e hd₁)
      · exact hnew _ _ i o t q k hr ha hj hk hc

/-- What is so of a configuration once an operation is done, and is kept by every step, is so from
then on. -/
theorem Reaches.since {s : σ} (h : Reaches exec prog adm ⟨s, []⟩ c) {ψ : Conf σ C S R α → Prop}
    {i : ℕ} {e : Event S R} (hd : c.Did i e)
    (hkeep : ∀ c c' a, c.step exec prog a = some c' → ψ c → ψ c')
    (hnew : ∀ c c' a o q, Reaches exec prog adm ⟨s, []⟩ c → c.step exec prog a = some c' →
      c'.shared = (exec o q c.shared).2 → (⟨q, (exec o q c.shared).1⟩ : Event S R) = e → ψ c') :
    ψ c := by
  refine h.did (φ := fun c _ e' ↦ e' = e → ψ c) ?_ ?_ i e hd rfl
  · exact fun c c' a i e' _ _ hs _ hψ he ↦ hkeep c c' a hs (hψ he)
  · rintro c c' i o t q k hr - hi hk rfl he
    exact hnew c _ (.step i o) o q hr (by rw [Conf.step, hi]; simp only [hk]) rfl he

/-- What an operation brings about lasts, or another operation has ended it. -/
theorem Reaches.lasts {s : σ} (h : Reaches exec prog adm ⟨s, []⟩ c) {P : σ → Prop}
    {D : Event S R → Prop} {i : ℕ} {e : Event S R} (hd : c.Did i e)
    (hkeeps : ∀ o q s, P s → P (exec o q s).2 ∨ D ⟨q, (exec o q s).1⟩)
    (hgives : ∀ o q s, (⟨q, (exec o q s).1⟩ : Event S R) = e → P (exec o q s).2) :
    P c.shared ∨ ∃ j e', c.Did j e' ∧ D e' := by
  refine h.since (ψ := fun c ↦ P c.shared ∨ ∃ j e', c.Did j e' ∧ D e') hd ?_ ?_
  · rintro c c' a hs (hP | ⟨j, e', hd', hD⟩)
    · obtain ⟨call, rfl, rfl⟩ | ⟨j, o, t, q, k, rfl, hj, hk, rfl⟩ := Conf.step_eq_some _ _ hs
      · exact .inl hP
      · exact (hkeeps o q c.shared hP).imp_right fun hD ↦
          ⟨j, _, (Conf.did_advance hj).mpr (.inr ⟨rfl, rfl⟩), hD⟩
    · exact .inr ⟨j, e', hd'.step hs, hD⟩
  · intro c c' a o q _ _ hshared he
    rw [hshared]
    exact .inl (hgives o q c.shared he)

/-- What is not done once it has been done, is done by one thread and once. -/
theorem Reaches.unique {P : Event S R → Prop} {s : σ} (h : Reaches exec prog adm ⟨s, []⟩ c)
    (hnew : ∀ c i o t q k, Reaches exec prog adm ⟨s, []⟩ c → adm c (.step i o) →
      c.threads[i]? = some t → t.code = .op q k → P ⟨q, (exec o q c.shared).1⟩ →
      ∀ j e, c.Did j e → ¬ P e) {i j : ℕ} {e e' : Event S R} (hi : c.Did i e) (hj : c.Did j e')
    (he : P e) (he' : P e') : i = j ∧ e = e' := by
  induction h generalizing i j e e' with
  | refl => obtain ⟨t, ht, -⟩ := hi; simp at ht
  | tail hr ha hs ih =>
    obtain ⟨call, rfl, rfl⟩ | ⟨l, o, t, q, k, rfl, hl, hk, rfl⟩ := Conf.step_eq_some _ _ hs
    · exact ih (Conf.did_spawn.mp hi) (Conf.did_spawn.mp hj) he he'
    · rcases (Conf.did_advance hl).mp hi with hi' | ⟨rfl, rfl⟩
      · rcases (Conf.did_advance hl).mp hj with hj' | ⟨rfl, rfl⟩
        · exact ih hi' hj' he he'
        · exact absurd he (hnew _ _ o t q k hr ha hl hk he' i e hi')
      · rcases (Conf.did_advance hl).mp hj with hj' | ⟨rfl, rfl⟩
        · exact absurd he' (hnew _ _ o t q k hr ha hl hk he j e' hj')
        · exact ⟨rfl, rfl⟩

/-- Calls that are never started are not in the pool. -/
theorem Reaches.calls {φ : C → Prop} {s : σ} (h : Reaches exec prog adm ⟨s, []⟩ c)
    (hφ : ∀ c call, adm c (.spawn call) → φ call) : ∀ t ∈ c.threads, φ t.call := by
  refine h.invariant (I := fun c ↦ ∀ t ∈ c.threads, φ t.call) (by simp) ?_
  intro c₁ c₂ a _ hI ha hs t ht
  obtain ⟨call, rfl, rfl⟩ | ⟨i, o, t₀, q, k, rfl, hi, -, rfl⟩ := Conf.step_eq_some _ _ hs
  · rcases List.mem_append.mp ht with ht | ht
    · exact hI t ht
    · rw [List.mem_singleton.mp ht]; exact hφ _ _ ha
  · rcases List.mem_or_eq_of_mem_set ht with ht | rfl
    · exact hI t ht
    · exact hI t₀ (List.mem_of_getElem? hi)

/-! ## Events that tell threads apart

Some replies are promised to be new: drawn identifiers, for one.  `key` gives such an event the
value that is new, and nothing to any other event. -/

/-- The event an action adds, if it lets a thread issue an operation. -/
def Conf.event? (exec : O → (q : S) → σ → R q × σ) (c : Conf σ C S R α) :
    Act O C → Option (Event S R)
  | .spawn _ => none
  | .step i o => c.threads[i]?.bind fun t ↦
    match t.code with
    | .ret _ => none
    | .op q _ => some ⟨q, (exec o q c.shared).1⟩

theorem Conf.event?_step {c : Conf σ C S R α} {i : ℕ} {o : O} {t : Thread C S R α} {q : S}
    {k : R q → Prog S R α} (hi : c.threads[i]? = some t) (hk : t.code = .op q k) :
    c.event? exec (.step i o) = some ⟨q, (exec o q c.shared).1⟩ := by
  simp only [event?, hi, Option.bind_some, hk]

/-- If the event an action adds has a key, no event so far has that key. -/
def Conf.NewKey {κ : Type} (exec : O → (q : S) → σ → R q × σ) (key : Event S R → Option κ)
    (c : Conf σ C S R α) (a : Act O C) : Prop :=
  ∀ e ∈ c.event? exec a, ∀ t ∈ c.threads, ∀ e' ∈ t.trace, key e = none ∨ key e' ≠ key e

instance {κ : Type} [DecidableEq κ] {key : Event S R → Option κ} {c : Conf σ C S R α}
    {a : Act O C} : Decidable (c.NewKey exec key a) :=
  inferInstanceAs (Decidable (∀ e ∈ c.event? exec a, _))

/-- Every event of a run, in the order in which they happened. -/
def Conf.history (exec : O → (q : S) → σ → R q × σ) (prog : C → Prog S R α) :
    Conf σ C S R α → List (Act O C) → List (Event S R)
  | _, [] => []
  | c, a :: as =>
    (c.event? exec a).toList ++ ((c.step exec prog a).elim [] fun c' ↦ c'.history exec prog as)

theorem Conf.NewKey.ne {κ : Type} {key : Event S R → Option κ} {c : Conf σ C S R α} {i : ℕ} {o : O}
    (h : c.NewKey exec key (.step i o)) {t : Thread C S R α} {q : S} {k : R q → Prog S R α}
    (hi : c.threads[i]? = some t) (hk : t.code = .op q k) {j : ℕ} {e : Event S R} (hd : c.Did j e)
    {x : κ} (he : key e = some x) : key ⟨q, (exec o q c.shared).1⟩ ≠ some x := by
  obtain ⟨t', hj, hm⟩ := hd
  intro hx
  rcases h _ (Conf.event?_step hi hk) t' (List.mem_of_getElem? hj) e hm with h | h
  · rw [hx] at h; cases h
  · exact h (he.trans hx.symm)

/-- Where keys are new when they come, events with one key are one event of one thread. -/
theorem Reaches.unique_key {κ : Type} {key : Event S R → Option κ} {s : σ}
    (h : Reaches exec prog adm ⟨s, []⟩ c) (hnew : ∀ c a, adm c a → c.NewKey exec key a) {x : κ}
    {i j : ℕ} {e e' : Event S R} (hi : c.Did i e) (hj : c.Did j e') (he : key e = some x)
    (he' : key e' = some x) : i = j ∧ e = e' :=
  h.unique (P := fun e ↦ key e = some x)
    (fun _ _ _ _ _ _ _ ha hl hk hx _ _ hd hx' ↦ (hnew _ _ ha).ne hl hk hd hx' hx) hi hj he he'

/-! ## Given runs -/

/-- Take a list of actions in order, if each is possible. -/
def Conf.run? (exec : O → (q : S) → σ → R q × σ) (prog : C → Prog S R α) (c : Conf σ C S R α) :
    List (Act O C) → Option (Conf σ C S R α)
  | [] => some c
  | a :: as => (c.step exec prog a).bind fun c' ↦ c'.run? exec prog as

/-- A record `f` of the shared state that every step extends by what `g` makes of its event, a run
extends by what `g` makes of its history. -/
theorem Conf.record_run? {β : Type} {f : σ → List β} {g : Event S R → Option β}
    (hf : ∀ o q s, f (exec o q s).2 = f s ++ (g ⟨q, (exec o q s).1⟩).toList)
    (as : List (Act O C)) {c c' : Conf σ C S R α} (h : c.run? exec prog as = some c') :
    f c'.shared = f c.shared ++ (c.history exec prog as).filterMap g := by
  induction as generalizing c with
  | nil =>
    cases h
    exact (List.append_nil _).symm
  | cons a as ih =>
    obtain ⟨c₁, hs, h₁⟩ := Option.bind_eq_some_iff.mp h
    have hstep : f c₁.shared = f c.shared ++ (c.event? exec a).toList.filterMap g := by
      obtain ⟨call, rfl, rfl⟩ | ⟨i, o, t, q, k, rfl, hi, hk, rfl⟩ := Conf.step_eq_some _ _ hs
      · exact (List.append_nil _).symm
      · rw [Conf.event?_step hi hk, Option.toList_some, List.filterMap_cons, List.filterMap_nil]
        refine (hf o q c.shared).trans (congrArg (f c.shared ++ ·) ?_)
        cases g ⟨q, (exec o q c.shared).1⟩ <;> rfl
    rw [ih h₁, hstep, Conf.history, hs, Option.elim_some, List.filterMap_append, List.append_assoc]

/-- Each of these actions is admissible where it is taken. -/
def Conf.Admits (exec : O → (q : S) → σ → R q × σ) (prog : C → Prog S R α)
    (adm : Conf σ C S R α → Act O C → Prop) (c : Conf σ C S R α) : List (Act O C) → Prop
  | [] => True
  | a :: as => adm c a ∧ ∀ c' ∈ c.step exec prog a, c'.Admits exec prog adm as

instance Conf.decidableAdmits [∀ c a, Decidable (adm c a)] :
    (as : List (Act O C)) → (c : Conf σ C S R α) → Decidable (c.Admits exec prog adm as)
  | [], _ => .isTrue trivial
  | a :: as, c =>
    have : DecidablePred fun c' : Conf σ C S R α ↦ c'.Admits exec prog adm as :=
      decidableAdmits as
    inferInstanceAs (Decidable (adm c a ∧ ∀ c' ∈ c.step exec prog a, _))

/-- Where every action is admissible, every list of actions is. -/
theorem Conf.admits_of_forall (h : ∀ c a, adm c a) (as : List (Act O C)) (c : Conf σ C S R α) :
    c.Admits exec prog adm as := by
  induction as generalizing c with
  | nil => exact trivial
  | cons a as ih => exact ⟨h c a, fun c' _ ↦ ih c'⟩

theorem Reaches.of_run? (as : List (Act O C)) (h : c.run? exec prog as = some c')
    (hadm : c.Admits exec prog adm as) : Reaches exec prog adm c c' := by
  induction as generalizing c with
  | nil => cases h; exact .refl
  | cons a as ih =>
    obtain ⟨c₁, hs, h₁⟩ := Option.bind_eq_some_iff.mp h
    exact (Reaches.refl.tail hadm.1 hs).trans (ih h₁ (hadm.2 c₁ hs))

end Effects
