import Mathlib.Data.List.Forall2
import Railyard.Effects.Interleaving

/-!
# Runs without some of their calls

From a run of calls next to each other, take out all calls that are not `kept`.  What is left is a
run of its own where the calls taken out change nothing the others can see: with `View` relating
the states of the two runs, their operations stutter (`Purged.step`).  The calls that are kept need
not be told the very same things in both runs.  `E` says up to what replies agree, and
`Prog.Alike E p p` that the program `p` cannot tell replies apart that do.

* `Conf.purgedAt` is where a thread is found when the others are gone.
* `Purged` relates the configurations of the two runs, `Purged.step` is what one action makes of
  it, and `Reaches.purge` what a run does.
* `Purged.did` and `Purged.thread` carry over what was done, where replies agree on the nose.
-/

set_option autoImplicit false

namespace Effects

open Prog

variable {S : Type} {R : S → Type} {C α β O σ κ : Type} {E : (q : S) → R q → R q → Prop}

/-! ## Programs that replies up to `E` determine -/

/-- `p` and `p'` issue the same operations and end with the same value, if they are told the same
up to `E`. -/
inductive Prog.Alike (E : (q : S) → R q → R q → Prop) : Prog S R α → Prog S R α → Prop
  | ret (a : α) : Alike E (ret a) (ret a)
  | op (q : S) {k k' : R q → Prog S R α} (h : ∀ r r', E q r r' → Alike E (k r) (k' r')) :
      Alike E (op q k) (op q k')

theorem Prog.Alike.bind {p p' : Prog S R α} {f f' : α → Prog S R β} (h : Alike E p p')
    (hf : ∀ a, Alike E (f a) (f' a)) : Alike E (p.bind f) (p'.bind f') := by
  induction h with
  | ret a => exact hf a
  | op q _ ih => exact .op q ih

theorem Prog.Alike.ended {p p' : Prog S R α} (h : Alike E p p') : p'.ended = p.ended := by
  cases h <;> rfl

/-- A program all of whose operations are answered the same, answers up to `E` being so. -/
theorem Prog.Does.alike {φ : S → Prop} {ψ : α → Prop} {p : Prog S R α} (hp : p.Does φ ψ)
    (hE : ∀ q r r', φ q → E q r r' → r = r') : Alike E p p := by
  induction p with
  | ret a => exact .ret a
  | op q k ih =>
    refine .op q fun r r' hr ↦ ?_
    obtain rfl := hE q r r' hp.1 hr
    exact ih r (hp.2 r)

theorem Prog.alike_eq (p : Prog S R α) : Alike (fun _ r r' ↦ r = r') p p := by
  induction p with
  | ret a => exact .ret a
  | op q k ih => exact .op q fun r r' hr ↦ hr ▸ ih r

theorem Prog.Alike.eq {p p' : Prog S R α} (h : Alike (fun _ r r' ↦ r = r') p p') : p = p' := by
  induction h with
  | ret a => rfl
  | op q _ ih => exact op_congr fun r ↦ ih r r rfl

/-- Two records of one operation, with replies that agree up to `E`. -/
inductive AlikeEvents (E : (q : S) → R q → R q → Prop) : Event S R → Event S R → Prop
  | mk (q : S) {r r' : R q} (h : E q r r') : AlikeEvents E ⟨q, r⟩ ⟨q, r'⟩

theorem AlikeEvents.eq {e e' : Event S R} (h : AlikeEvents (fun _ r r' ↦ r = r') e e') :
    e' = e := by
  obtain ⟨q, rfl⟩ := h
  rfl

/-- One call in two runs, told the same up to `E`. -/
structure Thread.Alike (E : (q : S) → R q → R q → Prop) (t t' : Thread C S R α) : Prop where
  call : t'.call = t.call
  trace : List.Forall₂ (AlikeEvents E) t.trace t'.trace
  code : Prog.Alike E t.code t'.code

theorem Thread.Alike.eq {t t' : Thread C S R α} (h : t.Alike (fun _ r r' ↦ r = r') t') :
    t' = t := by
  have htrace : t'.trace = t.trace := by
    refine (List.forall₂_eq_eq_eq ▸ h.trace.imp ?_ : t.trace = t'.trace).symm
    rintro _ _ ⟨q, rfl⟩
    rfl
  obtain ⟨call, trace, code⟩ := t
  obtain ⟨call', trace', code'⟩ := t'
  obtain rfl : call' = call := h.call
  obtain rfl : trace' = trace := htrace
  obtain rfl : code = code' := h.code.eq
  rfl

/-! ## Places in a list some of whose elements are dropped -/

section Rank

variable {τ : Type} {p : τ → Bool}

/-- How many elements before the `i`th are kept. -/
def rank (p : τ → Bool) (l : List τ) (i : ℕ) : ℕ := (l.take i).countP p

theorem getElem?_filter_rank {l : List τ} {i : ℕ} {x : τ} (hi : l[i]? = some x) (hx : p x = true) :
    (l.filter p)[rank p l i]? = some x := by
  induction l generalizing i with
  | nil => cases hi
  | cons y l ih =>
    cases i with
    | zero =>
      obtain rfl : y = x := Option.some.inj hi
      rw [rank, List.take_zero, List.countP_nil, List.filter_cons_of_pos hx]
      rfl
    | succ i =>
      have hrest := ih hi
      rw [rank, List.take_succ_cons, List.countP_cons]
      by_cases hy : p y = true
      · rw [List.filter_cons_of_pos hy, if_pos hy, List.getElem?_cons_succ]
        exact hrest
      · rw [List.filter_cons_of_neg hy, if_neg hy]
        exact hrest

theorem filter_set_of_pos {l : List τ} {i : ℕ} {x y : τ} (hi : l[i]? = some x) (hx : p x = true)
    (hy : p y = true) : (l.set i y).filter p = (l.filter p).set (rank p l i) y := by
  induction l generalizing i with
  | nil => cases hi
  | cons z l ih =>
    cases i with
    | zero =>
      obtain rfl : z = x := Option.some.inj hi
      rw [List.set_cons_zero, List.filter_cons_of_pos hy, List.filter_cons_of_pos hx]
      rfl
    | succ i =>
      have hrest := ih hi
      rw [List.set_cons_succ, rank, List.take_succ_cons, List.countP_cons]
      by_cases hz : p z = true
      · rw [List.filter_cons_of_pos hz, List.filter_cons_of_pos hz, if_pos hz, hrest]
        rfl
      · rw [List.filter_cons_of_neg hz, List.filter_cons_of_neg hz, if_neg hz, hrest]
        rfl

theorem filter_set_of_neg {l : List τ} {i : ℕ} {x y : τ} (hi : l[i]? = some x) (hx : p x = false)
    (hy : p y = false) : (l.set i y).filter p = l.filter p := by
  induction l generalizing i with
  | nil => cases hi
  | cons z l ih =>
    cases i with
    | zero =>
      obtain rfl : z = x := Option.some.inj hi
      rw [List.set_cons_zero, List.filter_cons_of_neg (by simp [hy]),
        List.filter_cons_of_neg (by simp [hx])]
    | succ i => rw [List.set_cons_succ, List.filter_cons, List.filter_cons, ih hi]

theorem forall₂_set {υ : Type} {P : τ → υ → Prop} {l : List τ} {l' : List υ}
    (h : List.Forall₂ P l l') {x : τ} {y : υ} (hxy : P x y) (i : ℕ) :
    List.Forall₂ P (l.set i x) (l'.set i y) := by
  induction h generalizing i with
  | nil => exact .nil
  | cons hz h ih =>
    cases i with
    | zero => exact .cons hxy h
    | succ i => exact .cons hz (ih i)

theorem rank_lt {l : List τ} {i j : ℕ} {x : τ} (hi : l[i]? = some x) (hx : p x = true)
    (hij : i < j) : rank p l i < rank p l j := by
  have hsucc : rank p l (i + 1) = rank p l i + 1 := by
    obtain ⟨hlt, rfl⟩ := List.getElem?_eq_some_iff.mp hi
    rw [rank, rank, List.take_succ_eq_append_getElem hlt, List.countP_append,
      List.countP_singleton, if_pos hx]
  have hle : rank p l (i + 1) ≤ rank p l j :=
    (List.take_sublist_take_left hij).countP_le
  omega

/-- Kept elements at one place are one element. -/
theorem rank_inj {l : List τ} {i j : ℕ} {x y : τ} (hi : l[i]? = some x) (hj : l[j]? = some y)
    (hx : p x = true) (hy : p y = true) (h : rank p l i = rank p l j) : i = j := by
  rcases Nat.lt_trichotomy i j with hij | hij | hij
  · exact absurd h (Nat.ne_of_lt (rank_lt hi hx hij))
  · exact hij
  · exact absurd h (Nat.ne_of_gt (rank_lt hj hy hij))

end Rank

/-! ## Configurations -/

variable {exec : O → (q : S) → σ → R q × σ} {prog : C → Prog S R α}
  {adm adm' : Conf σ C S R α → Act O C → Prop} {kept : C → Bool} {View : σ → σ → Prop}
  {c c' d : Conf σ C S R α}

/-- Where thread `i` is found once the calls that are not kept are gone. -/
def Conf.purgedAt (kept : C → Bool) (c : Conf σ C S R α) (i : ℕ) : ℕ :=
  rank (fun t ↦ kept t.call) c.threads i

/-- `d` has the calls of `c` that are kept, told the same up to `E`, in a state that `View`
relates to that of `c`. -/
structure Purged (E : (q : S) → R q → R q → Prop) (kept : C → Bool) (View : σ → σ → Prop)
    (c d : Conf σ C S R α) : Prop where
  shared : View c.shared d.shared
  threads : List.Forall₂ (Thread.Alike E) (c.threads.filter fun t ↦ kept t.call) d.threads

/-- What an action on all the calls is to those that are kept. -/
inductive Act.Kept (kept : C → Bool) (c : Conf σ C S R α) : Act O C → Act O C → Prop
  | spawn (call : C) (h : kept call = true) : Kept kept c (.spawn call) (.spawn call)
  | step {i : ℕ} (o : O) {t : Thread C S R α} (hi : c.threads[i]? = some t)
      (h : kept t.call = true) : Kept kept c (.step i o) (.step (c.purgedAt kept i) o)

theorem Purged.get (h : Purged E kept View c d) {i : ℕ} {t : Thread C S R α}
    (hi : c.threads[i]? = some t) (ht : kept t.call = true) :
    ∃ t', d.threads[c.purgedAt kept i]? = some t' ∧ t.Alike E t' := by
  have hget := getElem?_filter_rank (p := fun t : Thread C S R α ↦ kept t.call) hi ht
  obtain ⟨hlt, hget⟩ := List.getElem?_eq_some_iff.mp hget
  have hlen := h.threads.length_eq
  have hlt' : c.purgedAt kept i < d.threads.length := hlen ▸ hlt
  refine ⟨d.threads[c.purgedAt kept i], List.getElem?_eq_getElem hlt', ?_⟩
  rw [← hget]
  exact List.forall₂_iff_get.mp h.threads |>.2 _ hlt hlt'

theorem exists_of_forall₂ {τ υ : Type} {P : τ → υ → Prop} {l : List τ} {l' : List υ}
    (h : List.Forall₂ P l l') {y : υ} (hy : y ∈ l') : ∃ x ∈ l, P x y := by
  induction h with
  | nil => cases hy
  | cons hxy h ih =>
    rcases List.mem_cons.mp hy with rfl | hy
    · exact ⟨_, List.mem_cons_self, hxy⟩
    · obtain ⟨x, hx, hP⟩ := ih hy
      exact ⟨x, List.mem_cons_of_mem _ hx, hP⟩

/-- Every thread of the purged run is one that was kept. -/
theorem Purged.find (h : Purged E kept View c d) {t' : Thread C S R α} (ht : t' ∈ d.threads) :
    ∃ t ∈ c.threads.filter fun t ↦ kept t.call, t.Alike E t' :=
  exists_of_forall₂ h.threads ht

/-- What an operation has to do to the two states, for one action to keep them related: leave what
is seen alone if its call is dropped, and be answered alike if it is kept. -/
def Purges (E : (q : S) → R q → R q → Prop) (exec : O → (q : S) → σ → R q × σ) (kept : C → Bool)
    (View : σ → σ → Prop) (c d : Conf σ C S R α) (a : Act O C) : Prop :=
  ∀ i o t q k, a = .step i o → c.threads[i]? = some t → t.code = .op q k →
    if kept t.call then E q (exec o q c.shared).1 (exec o q d.shared).1 ∧
      View (exec o q c.shared).2 (exec o q d.shared).2
    else View (exec o q c.shared).2 d.shared

/-- The event an action adds is the one its counterpart adds, up to `E`. -/
def Conf.AlikeEvent? (E : (q : S) → R q → R q → Prop) (exec : O → (q : S) → σ → R q × σ)
    (c d : Conf σ C S R α) (a a' : Act O C) : Prop :=
  Option.Rel (AlikeEvents E) (c.event? exec a) (d.event? exec a')

/-- **One action**: without the calls that are not kept it is an action of those that are, or
nothing. -/
theorem Purged.step (h : Purged E kept View c d) {a : Act O C}
    (hs : c.step exec prog a = some c')
    (hprog : ∀ call, kept call = true → Prog.Alike E (prog call) (prog call))
    (hexec : Purges E exec kept View c d a) :
    Purged E kept View c' d ∨ ∃ a' d', a.Kept kept c a' ∧ Conf.AlikeEvent? E exec c d a a' ∧
      d.step exec prog a' = some d' ∧ Purged E kept View c' d' := by
  obtain ⟨call, rfl, rfl⟩ | ⟨i, o, t, q, k, rfl, hi, hk, rfl⟩ := Conf.step_eq_some _ _ hs
  · cases hcall : kept call with
    | false =>
      refine .inl ⟨h.shared, ?_⟩
      rw [List.filter_append, List.filter_cons_of_neg (by simp [hcall]), List.filter_nil,
        List.append_nil]
      exact h.threads
    | true =>
      refine .inr ⟨_, _, .spawn call hcall, .none, rfl, h.shared, ?_⟩
      rw [List.filter_append, List.filter_cons_of_pos (by simpa using hcall), List.filter_nil]
      exact List.rel_append h.threads (.cons ⟨rfl, .nil, hprog call hcall⟩ .nil)
  · have hop := hexec i o t q k rfl hi hk
    cases hcall : kept t.call with
    | false =>
      rw [hcall, if_neg Bool.false_ne_true] at hop
      refine .inl ⟨hop, ?_⟩
      have hsame := filter_set_of_neg (p := fun t : Thread C S R α ↦ kept t.call)
        (y := t.advance q (exec o q c.shared).1 (k (exec o q c.shared).1)) hi hcall hcall
      dsimp only
      rw [hsame]
      exact h.threads
    | true =>
      rw [hcall, if_pos rfl] at hop
      obtain ⟨t', hi', halike⟩ := h.get hi hcall
      obtain ⟨call', trace', code'⟩ := t'
      obtain ⟨call, trace, code⟩ := t
      obtain rfl : code = .op q k := hk
      obtain rfl : call' = call := halike.call
      have hcode := halike.code
      generalize hp : Prog.op q k = p at hcode
      cases hcode with
      | ret => cases hp
      | op q' hnext =>
        cases hp
        refine .inr ⟨_, _, .step o hi hcall, ?_, by rw [Conf.step, hi'], hop.2, ?_⟩
        · rw [Conf.AlikeEvent?, Conf.event?_step hi rfl, Conf.event?_step hi' rfl]
          exact .some (.mk q hop.1)
        · have hset := filter_set_of_pos (p := fun t : Thread C S R α ↦ kept t.call)
            (y := Thread.advance ⟨call', trace, .op q k⟩ q (exec o q c.shared).1
              (k (exec o q c.shared).1)) hi hcall hcall
          dsimp only at hset ⊢
          rw [hset]
          have hadvanced : Thread.Alike E
              (Thread.advance ⟨call', trace, .op q k⟩ q _ (k (exec o q c.shared).1))
              (Thread.advance ⟨call', trace', .op q _⟩ q _ _) :=
            ⟨rfl, List.rel_append halike.trace (.cons (.mk q hop.1) .nil), hnext _ _ hop.1⟩
          exact forall₂_set h.threads hadvanced _

theorem Purged.start {s s' : σ} (hs : View s s') :
    Purged E kept View (⟨s, []⟩ : Conf σ C S R α) ⟨s', []⟩ :=
  ⟨hs, .nil⟩

/-- **A run without some of its calls** is a run, which the other calls cannot tell from it. -/
theorem Reaches.purge (h : Reaches exec prog adm c c') (hstart : Purged E kept View c d)
    (hprog : ∀ call, kept call = true → Prog.Alike E (prog call) (prog call))
    (hexec : ∀ c₁ d₁ a, Reaches exec prog adm c c₁ → Reaches exec prog adm' d d₁ →
      adm c₁ a → Purged E kept View c₁ d₁ → Purges E exec kept View c₁ d₁ a)
    (hadm : ∀ c₁ d₁ a a', adm c₁ a → Purged E kept View c₁ d₁ → a.Kept kept c₁ a' →
      Conf.AlikeEvent? E exec c₁ d₁ a a' → adm' d₁ a') :
    ∃ d', Reaches exec prog adm' d d' ∧ Purged E kept View c' d' := by
  induction h with
  | refl => exact ⟨d, .refl, hstart⟩
  | tail hr ha hstep ih =>
    obtain ⟨d₁, hd, hpurged⟩ := ih
    obtain hnext | ⟨a', d₂, hkept, hevent, hstep', hnext⟩ :=
      hpurged.step hstep hprog (hexec _ d₁ _ hr hd ha hpurged)
    · exact ⟨d₁, hd, hnext⟩
    · exact ⟨d₂, hd.tail (hadm _ d₁ _ a' ha hpurged hkept hevent) hstep', hnext⟩

/-- Keys that are new among all the calls are new among those that are kept, if replies that agree
up to `E` have the same key. -/
theorem Conf.NewKey.purged {key : Event S R → Option κ} {a a' : Act O C}
    (hkey : ∀ e e', AlikeEvents E e e' → key e' = key e) (hnew : c.NewKey exec key a)
    (h : Purged E kept View c d) (hevent : Conf.AlikeEvent? E exec c d a a') :
    d.NewKey exec key a' := by
  intro e he t ht e' he'
  rw [Option.mem_def] at he
  rw [AlikeEvent?, he] at hevent
  generalize hc : c.event? exec a = e₁ at hevent
  cases hevent with
  | some halike =>
    obtain ⟨t₀, ht₀, hthread⟩ := h.find ht
    obtain ⟨e₀, he₀, halike'⟩ := exists_of_forall₂ hthread.trace he'
    rw [hkey _ _ halike, hkey _ _ halike']
    exact hnew _ (Option.mem_def.mpr hc) t₀ (List.mem_filter.mp ht₀).1 e₀ he₀

/-! ## Where replies agree on the nose -/

section Same

/-- A call that is kept has been told the same. -/
theorem Purged.thread (h : Purged (fun _ r r' ↦ r = r') kept View c d) {i : ℕ}
    {t : Thread C S R α} (hi : c.threads[i]? = some t) (ht : kept t.call = true) :
    d.threads[c.purgedAt kept i]? = some t := by
  obtain ⟨t', hi', halike⟩ := h.get hi ht
  rwa [halike.eq] at hi'

theorem Purged.did (h : Purged (fun _ r r' ↦ r = r') kept View c d) {i : ℕ}
    {t : Thread C S R α} (hi : c.threads[i]? = some t) (ht : kept t.call = true) {e : Event S R}
    (hd : c.Did i e) : d.Did (c.purgedAt kept i) e := by
  obtain ⟨t', hi', he⟩ := hd
  cases hi.symm.trans hi'
  exact ⟨t, h.thread hi ht, he⟩

theorem Purged.threads_eq (h : Purged (fun _ r r' ↦ r = r') kept View c d) :
    d.threads = c.threads.filter fun t ↦ kept t.call :=
  (List.forall₂_eq_eq_eq ▸ h.threads.imp fun _ _ halike ↦ halike.eq.symm :
    (c.threads.filter fun t ↦ kept t.call) = d.threads).symm

/-- Every thread of the purged run is one that was kept. -/
theorem Purged.mem (h : Purged (fun _ r r' ↦ r = r') kept View c d) {t : Thread C S R α}
    (ht : t ∈ d.threads) : t ∈ c.threads ∧ kept t.call = true := by
  rw [h.threads_eq, List.mem_filter] at ht
  exact ht

end Same

end Effects
