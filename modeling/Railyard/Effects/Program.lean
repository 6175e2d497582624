import Mathlib.Logic.Basic
import Mathlib.Data.List.Basic

/-!
# Programs over a set of operations

`Prog S R α` is a program that issues operations `q : S`, gets a reply in `R q` to each, and ends
with a value of `α`.  The type says nothing about what an operation does: that is an `exec`, which
answers one operation in a state, with the help of whatever the outside world contributes to it
(a clock reading, a random number, a failure).  So one program can be run alone (`Prog.run`),
run next to others one operation at a time (`Effects.Interleaving`), or compared with itself on
two states (`Effects.Noninterference`), without being written twice.

* `Prog.run` runs a program to its end; `Prog.run_bind` is how two programs in sequence run.
* `Prog.After p τ p'` says that `p`, given the replies recorded in `τ`, has become `p'`.
  `Prog.after_bind` takes such a run of a sequence apart.
* `Prog.Does φ ψ p` says that `p` only ever issues operations satisfying `φ` and only ends with
  values satisfying `ψ`, whatever it is told.
* `Prog.Ends ans f p` says which replies end `p` at once, and with what.
-/

set_option autoImplicit false

namespace Effects

/-- A program that issues operations of `S`, an operation `q` being answered in `R q`. -/
inductive Prog (S : Type) (R : S → Type) (α : Type) : Type
  | ret (a : α)
  | op (q : S) (k : R q → Prog S R α)

namespace Prog

variable {S : Type} {R : S → Type} {α β : Type}

/-- Run `p`, then go on with `f` on its value. -/
def bind : Prog S R α → (α → Prog S R β) → Prog S R β
  | ret a, f => f a
  | op q k, f => op q fun r ↦ (k r).bind f

instance : Monad (Prog S R) where
  pure := ret
  bind := bind

@[simp] theorem pure_def (a : α) : (pure a : Prog S R α) = ret a := rfl

@[simp] theorem bind_def (p : Prog S R α) (f : α → Prog S R β) : p >>= f = p.bind f := rfl

@[simp] theorem ret_bind (a : α) (f : α → Prog S R β) : (ret a : Prog S R α).bind f = f a := rfl

@[simp] theorem op_bind (q : S) (k : R q → Prog S R α) (f : α → Prog S R β) :
    (op q k).bind f = op q fun r ↦ (k r).bind f := rfl

theorem bind_ret (p : Prog S R α) : p.bind ret = p := by
  induction p with
  | ret a => rfl
  | op q k ih => simp only [op_bind, ih]

/-- Three programs in sequence. -/
theorem bind_assoc {γ : Type} (p : Prog S R α) (f : α → Prog S R β) (g : β → Prog S R γ) :
    (p.bind f).bind g = p.bind fun a ↦ (f a).bind g := by
  induction p with
  | ret a => rfl
  | op q k ih => simp only [op_bind, ih]

instance : LawfulMonad (Prog S R) := LawfulMonad.mk' _ bind_ret (fun _ _ ↦ rfl) bind_assoc

/-- Programs that go on alike after every reply are the same. -/
theorem op_congr {q : S} {k k' : R q → Prog S R α} (h : ∀ r, k r = k' r) : op q k = op q k' :=
  congrArg (op q) (funext h)

/-- The value a program has ended with. -/
def ended : Prog S R α → Option α
  | ret a => some a
  | op _ _ => none

/-- A program has ended if it is a value. -/
theorem ended_eq_some {p : Prog S R α} {a : α} : p.ended = some a ↔ p = ret a := by
  cases p <;> simp [ended]

/-! ## Running a program alone -/

section Run

variable {O σ : Type} (exec : O → (q : S) → σ → R q × σ)

/-- Run a program to its end from the state `s`.  `w n` is what the outside world contributes to
the `n`th operation. -/
def run : Prog S R α → (ℕ → O) → σ → α × σ
  | ret a, _, s => (a, s)
  | op q k, w, s => (k (exec (w 0) q s).1).run (fun n ↦ w (n + 1)) (exec (w 0) q s).2

@[simp] theorem run_ret (a : α) (w : ℕ → O) (s : σ) : (ret a : Prog S R α).run exec w s = (a, s) :=
  rfl

theorem run_op (q : S) (k : R q → Prog S R α) (w : ℕ → O) (s : σ) :
    (op q k).run exec w s
      = (k (exec (w 0) q s).1).run exec (fun n ↦ w (n + 1)) (exec (w 0) q s).2 := rfl

/-- The number of operations a run issues. -/
def steps : Prog S R α → (ℕ → O) → σ → ℕ
  | ret _, _, _ => 0
  | op q k, w, s => (k (exec (w 0) q s).1).steps (fun n ↦ w (n + 1)) (exec (w 0) q s).2 + 1

/-- A sequence runs one program and then the other, with what the outside has left. -/
theorem run_bind (p : Prog S R α) (f : α → Prog S R β) (w : ℕ → O) (s : σ) :
    (p.bind f).run exec w s
      = (f (p.run exec w s).1).run exec (fun n ↦ w (n + p.steps exec w s)) (p.run exec w s).2 := by
  induction p generalizing w s with
  | ret a => rfl
  | op q k ih =>
    rw [op_bind, run_op, ih, run_op]
    simp only [steps, Nat.add_assoc]

/-- Changing the value a program ends with changes nothing else of its run. -/
theorem run_bind_ret (p : Prog S R α) (f : α → β) (w : ℕ → O) (s : σ) :
    (p.bind fun a ↦ ret (f a)).run exec w s = (f (p.run exec w s).1, (p.run exec w s).2) :=
  run_bind exec p _ w s

/-- A sequence issues the operations of both. -/
theorem steps_bind (p : Prog S R α) (f : α → Prog S R β) (w : ℕ → O) (s : σ) :
    (p.bind f).steps exec w s
      = p.steps exec w s + (f (p.run exec w s).1).steps exec (fun n ↦ w (n + p.steps exec w s))
        (p.run exec w s).2 := by
  induction p generalizing w s with
  | ret a => simp only [ret_bind, steps, run_ret, Nat.add_zero, Nat.zero_add]
  | op q k ih =>
    rw [op_bind, steps, ih, run_op]
    simp only [steps, Nat.add_assoc, Nat.add_comm 1]

end Run

/-! ## Residual programs -/

/-- An operation together with the reply it got. -/
abbrev Event (S : Type) (R : S → Type) : Type := (q : S) × R q

/-- `After p τ p'`: once its operations have been answered as recorded in `τ`, `p` has become
`p'`. -/
inductive After : Prog S R α → List (Event S R) → Prog S R α → Prop
  | nil (p : Prog S R α) : After p [] p
  | cons {q : S} {k : R q → Prog S R α} {r : R q} {τ : List (Event S R)} {p : Prog S R α}
      (h : After (k r) τ p) : After (op q k) (⟨q, r⟩ :: τ) p

/-- One more operation has been answered. -/
theorem After.snoc {p : Prog S R α} {τ : List (Event S R)} {q : S} {k : R q → Prog S R α}
    (h : After p τ (op q k)) (r : R q) : After p (τ ++ [⟨q, r⟩]) (k r) := by
  generalize hp' : op q k = p' at h
  induction h with
  | nil p => subst hp'; exact .cons (.nil _)
  | cons _ ih => exact .cons (ih hp')

/-- What a program runs to is what it becomes, told what the run tells it. -/
theorem after_run {O σ : Type} (exec : O → (q : S) → σ → R q × σ) (p : Prog S R α) (w : ℕ → O)
    (s : σ) : ∃ τ, After p τ (ret (p.run exec w s).1) := by
  induction p generalizing w s with
  | ret a => exact ⟨[], .nil _⟩
  | op q k ih =>
    obtain ⟨τ, h⟩ := ih _ (fun n ↦ w (n + 1)) (exec (w 0) q s).2
    exact ⟨⟨q, _⟩ :: τ, .cons h⟩

@[simp] theorem after_ret {a : α} {τ : List (Event S R)} {p : Prog S R α} :
    After (ret a) τ p ↔ τ = [] ∧ p = ret a := by
  constructor
  · rintro ⟨⟩; exact ⟨rfl, rfl⟩
  · rintro ⟨rfl, rfl⟩; exact .nil _

/-- A program that starts with an operation waits for its reply, or has it. -/
theorem after_op {q : S} {k : R q → Prog S R α} {τ : List (Event S R)} {p : Prog S R α} :
    After (op q k) τ p ↔ (τ = [] ∧ p = op q k) ∨ ∃ r τ', τ = ⟨q, r⟩ :: τ' ∧ After (k r) τ' p := by
  constructor
  · intro h
    cases h with
    | nil => exact .inl ⟨rfl, rfl⟩
    | cons h => exact .inr ⟨_, _, rfl, h⟩
  · rintro (⟨rfl, rfl⟩ | ⟨r, τ', rfl, h⟩)
    · exact .nil _
    · exact .cons h

/-- A run of a sequence is still inside the first program, or has reached its value and is
inside the second. -/
theorem after_bind {x : Prog S R α} {f : α → Prog S R β} {τ : List (Event S R)}
    {p : Prog S R β} (h : After (x.bind f) τ p) :
    (∃ q k, After x τ (op q k) ∧ p = (op q k).bind f) ∨
      ∃ a τ₁ τ₂, τ = τ₁ ++ τ₂ ∧ After x τ₁ (ret a) ∧ After (f a) τ₂ p := by
  induction x generalizing τ with
  | ret a => exact .inr ⟨a, [], τ, rfl, .nil _, h⟩
  | op q k ih =>
    rw [op_bind, after_op] at h
    obtain ⟨rfl, rfl⟩ | ⟨r, τ', rfl, h⟩ := h
    · exact .inl ⟨q, k, .nil _, rfl⟩
    · obtain ⟨q', k', hx, rfl⟩ | ⟨a, τ₁, τ₂, rfl, hx, hf⟩ := ih r h
      · exact .inl ⟨q', k', .cons hx, rfl⟩
      · exact .inr ⟨a, ⟨q, r⟩ :: τ₁, τ₂, rfl, .cons hx, hf⟩

theorem after_op_op {q q' : S} {k : R q → Prog S R α} {k' : R q' → Prog S R α}
    {τ : List (Event S R)} (h : After (op q k) τ (op q' k')) :
    (τ = [] ∧ q' = q) ∨ ∃ r τ', τ = ⟨q, r⟩ :: τ' ∧ After (k r) τ' (op q' k') := by
  obtain ⟨rfl, hq⟩ | h := after_op.mp h
  · exact .inl ⟨rfl, (op.inj hq).1⟩
  · exact .inr h

theorem after_op_ret {q : S} {k : R q → Prog S R α} {a : α} {τ : List (Event S R)}
    (h : After (op q k) τ (ret a)) : ∃ r τ', τ = ⟨q, r⟩ :: τ' ∧ After (k r) τ' (ret a) := by
  obtain ⟨-, hq⟩ | h := after_op.mp h
  · cases hq
  · exact h

theorem not_after_ret_op {a : α} {q : S} {k : R q → Prog S R α} {τ : List (Event S R)} :
    ¬ After (ret a) τ (op q k) := fun h ↦ by cases (after_ret.mp h).2

/-- Changing the value a program ends with changes none of its operations. -/
theorem after_map_op {f : α → β} {x : Prog S R α} {τ : List (Event S R)} {q : S}
    {k : R q → Prog S R β} (h : After (f <$> x) τ (op q k)) : ∃ k', After x τ (op q k') := by
  obtain ⟨q', k', hx, hq⟩ | ⟨a, τ₁, τ₂, -, -, hf⟩ := after_bind h
  · cases hq; exact ⟨k', hx⟩
  · exact absurd hf not_after_ret_op

theorem after_map_ret {f : α → β} {x : Prog S R α} {τ : List (Event S R)} {b : β}
    (h : After (f <$> x) τ (ret b)) : ∃ a, After x τ (ret a) ∧ b = f a := by
  obtain ⟨q', k', -, hq⟩ | ⟨a, τ₁, τ₂, rfl, hx, hf⟩ := after_bind h
  · cases hq
  · obtain ⟨rfl, hb⟩ := after_ret.mp hf
    cases hb
    exact ⟨a, by rwa [List.append_nil], rfl⟩

/-- A run can be taken apart at any of its operations. -/
theorem After.split {p p' : Prog S R α} {τ₁ τ₂ : List (Event S R)} {e : Event S R}
    (h : After p (τ₁ ++ e :: τ₂) p') : ∃ k, After p τ₁ (op e.1 k) ∧ After (k e.2) τ₂ p' := by
  induction τ₁ generalizing p with
  | nil =>
    cases h with
    | cons h => exact ⟨_, .nil _, h⟩
  | cons e' τ₁ ih =>
    cases h with
    | cons h =>
      obtain ⟨k, hk, hk'⟩ := ih h
      exact ⟨k, .cons hk, hk'⟩

/-- What a program never asks for twice, it has been told at most once. -/
theorem After.once {P : Event S R → Prop} {p p' : Prog S R α} {τ : List (Event S R)}
    (hP : ∀ τ₁ (e : Event S R) k, After p τ₁ (op e.1 k) → P e → ∀ e' ∈ τ₁, ¬ P e')
    (h : After p τ p') {e e' : Event S R} (he : e ∈ τ) (he' : e' ∈ τ) (hPe : P e) (hPe' : P e') :
    e = e' := by
  obtain ⟨τ₁, τ₂, rfl⟩ := List.append_of_mem he
  rcases List.mem_append.mp he' with h₁ | h₂
  · obtain ⟨k, hk, -⟩ := h.split
    exact absurd hPe' (hP _ _ _ hk hPe _ h₁)
  · rcases List.mem_cons.mp h₂ with rfl | h₂
    · rfl
    · obtain ⟨τ₃, τ₄, rfl⟩ := List.append_of_mem h₂
      rw [← List.cons_append, ← List.append_assoc] at h
      obtain ⟨k, hk, -⟩ := h.split
      exact absurd hPe (hP _ _ _ hk hPe' _ (by simp))

/-! ## What a program may do -/

/-- Whatever the replies, every operation of the program satisfies `φ`, and the value it ends with
satisfies `ψ`. -/
def Does (φ : S → Prop) (ψ : α → Prop) : Prog S R α → Prop
  | ret a => ψ a
  | op q k => φ q ∧ ∀ r, (k r).Does φ ψ

/-- What it issues and ends with may be described more weakly. -/
theorem Does.mono {φ φ' : S → Prop} {ψ ψ' : α → Prop} {p : Prog S R α} (h : p.Does φ ψ)
    (hφ : ∀ q, φ q → φ' q) (hψ : ∀ a, ψ a → ψ' a) : p.Does φ' ψ' := by
  induction p with
  | ret a => exact hψ a h
  | op q k ih => exact ⟨hφ q h.1, fun r ↦ ih r (h.2 r)⟩

/-- Nothing is said of operations and values of which everything is so. -/
theorem Does.of_anything (p : Prog S R α) : p.Does (fun _ ↦ True) fun _ ↦ True := by
  induction p with
  | ret a => exact trivial
  | op q k ih => exact ⟨trivial, ih⟩

/-- What is known of a program in two ways is known of it together. -/
theorem Does.and {φ φ' : S → Prop} {ψ ψ' : α → Prop} {p : Prog S R α} (h : p.Does φ ψ)
    (h' : p.Does φ' ψ') : p.Does (fun q ↦ φ q ∧ φ' q) fun a ↦ ψ a ∧ ψ' a := by
  induction p with
  | ret a => exact ⟨h, h'⟩
  | op q k ih => exact ⟨⟨h.1, h'.1⟩, fun r ↦ ih r (h.2 r) (h'.2 r)⟩

/-- A sequence issues what both issue, the second from a value the first may end with. -/
theorem Does.bind {φ : S → Prop} {χ : α → Prop} {ψ : β → Prop} {p : Prog S R α}
    {f : α → Prog S R β} (hp : p.Does φ χ) (hf : ∀ a, χ a → (f a).Does φ ψ) :
    (p.bind f).Does φ ψ := by
  induction p with
  | ret a => exact hf a hp
  | op q k ih => exact ⟨hp.1, fun r ↦ ih r (hp.2 r)⟩

/-- What a program has done so far, and what is left of it. -/
theorem Does.after {φ : S → Prop} {ψ : α → Prop} {p p' : Prog S R α} {τ : List (Event S R)}
    (hp : p.Does φ ψ) (h : After p τ p') : (∀ e ∈ τ, φ e.1) ∧ p'.Does φ ψ := by
  induction h with
  | nil p => exact ⟨by simp, hp⟩
  | cons h ih =>
    obtain ⟨htrace, hrest⟩ := ih (hp.2 _)
    exact ⟨List.forall_mem_cons.mpr ⟨hp.1, htrace⟩, hrest⟩

/-- After a program, only what is done with the values it can end with matters. -/
theorem Does.bind_congr {φ : S → Prop} {χ : α → Prop} {p : Prog S R α} {f g : α → Prog S R β}
    (hp : p.Does φ χ) (h : ∀ a, χ a → f a = g a) : p.bind f = p.bind g := by
  induction p with
  | ret a => exact h a hp
  | op q k ih => exact op_congr fun r ↦ ih r (hp.2 r)

/-- `Does` for a program that may end with an error, which nothing is said about. -/
def DoesOk {ε : Type} (φ : S → Prop) (ψ : α → Prop) (x : ExceptT ε (Prog S R) α) : Prop :=
  x.run.Does φ fun r ↦ ∀ a, r = .ok a → ψ a

/-- A value is returned. -/
theorem DoesOk.pure {ε : Type} {φ : S → Prop} {ψ : α → Prop} {a : α} (h : ψ a) :
    DoesOk φ ψ (pure a : ExceptT ε (Prog S R) α) :=
  fun _ ha ↦ Except.ok.inj ha ▸ h

/-- An error is thrown, and no value returned. -/
theorem DoesOk.throw {ε : Type} {φ : S → Prop} {ψ : α → Prop} (e : ε) :
    DoesOk φ ψ (throw e : ExceptT ε (Prog S R) α) :=
  fun _ h ↦ nomatch h

/-- A sequence of programs that may fail. -/
theorem DoesOk.bind {ε : Type} {φ : S → Prop} {χ : α → Prop} {ψ : β → Prop}
    {x : ExceptT ε (Prog S R) α} {f : α → ExceptT ε (Prog S R) β} (hx : DoesOk φ χ x)
    (hf : ∀ a, χ a → DoesOk φ ψ (f a)) : DoesOk φ ψ (x >>= f) := by
  refine Does.bind (p := x.run) hx fun r hr ↦ ?_
  cases r with
  | error e => exact fun _ h ↦ nomatch h
  | ok a => exact hf a (hr a rfl)

/-- What every permitted operation keeps, a whole run keeps; and its value is as promised. -/
theorem Does.run {O σ : Type} {exec : O → (q : S) → σ → R q × σ} {φ : S → Prop} {ψ : α → Prop}
    {I : σ → Prop} (hI : ∀ o q s, φ q → I s → I (exec o q s).2) {p : Prog S R α} (hp : p.Does φ ψ)
    (w : ℕ → O) {s : σ} (hs : I s) : ψ (p.run exec w s).1 ∧ I (p.run exec w s).2 := by
  induction p generalizing w s with
  | ret a => exact ⟨hp, hs⟩
  | op q k ih => exact ih _ (hp.2 _) _ (hI _ _ _ hp.1 hs)

/-! ## What a reply makes of a program -/

/-- The program issues at most `n` operations. -/
def Within : Prog S R α → ℕ → Prop
  | ret _, _ => True
  | op _ _, 0 => False
  | op _ k, n + 1 => ∀ r, (k r).Within n

theorem Within.after {p p' : Prog S R α} {n : ℕ} {τ : List (Event S R)} (hp : p.Within n)
    (h : After p τ p') : τ.length ≤ n := by
  induction h generalizing n with
  | nil p => exact Nat.zero_le n
  | cons h ih =>
    cases n with
    | zero => exact hp.elim
    | succ n => exact Nat.succ_le_succ (ih (hp _))

/-- A reply for which `ans` has an answer ends the program at once, with a value of which `f` is
that answer. -/
def Ends {γ : Type} (ans : Event S R → Option γ) (f : α → γ) : Prog S R α → Prop
  | ret _ => True
  | op q k => ∀ r, (∀ c ∈ ans ⟨q, r⟩, ∃ a, k r = ret a ∧ f a = c) ∧ (k r).Ends ans f

variable {γ : Type} {ans : Event S R → Option γ}

theorem ends_next {f : α → γ} {p : Prog S R α} (hp : p.Ends ans f) :
    (∀ c ∈ (none : Option γ), ∃ a, p = ret a ∧ f a = c) ∧ p.Ends ans f :=
  ⟨fun c hc ↦ absurd hc (Option.not_mem_none c), hp⟩

/-- A program that ends on an answered reply, with the answer. -/
theorem ends_now {f : α → γ} {p : Prog S R α} {c : γ} (a : α) (hp : p = ret a) (hc : f a = c) :
    (∀ c' ∈ some c, ∃ a, p = ret a ∧ f a = c') ∧ p.Ends ans f := by
  subst hp
  exact ⟨fun c' hc' ↦ ⟨a, rfl, hc.trans (Option.some.inj hc')⟩, trivial⟩

theorem Ends.after {f : α → γ} {p p' : Prog S R α} {τ : List (Event S R)} (hp : p.Ends ans f)
    (h : After p τ p') : p'.Ends ans f := by
  induction h with
  | nil p => exact hp
  | cons h ih => exact ih (hp _).2

/-- Changing the value afterwards changes what the replies end it with. -/
theorem Ends.bind_ret {f : α → γ} {g : β → γ} {p : Prog S R α} {h : α → Prog S R β}
    (hp : p.Ends ans f) (hret : ∀ a, ∃ b, h a = ret b ∧ g b = f a) : (p.bind h).Ends ans g := by
  induction p with
  | ret a =>
    obtain ⟨b, hb, -⟩ := hret a
    rw [ret_bind, hb]
    exact trivial
  | op q k ih =>
    intro r
    refine ⟨fun c hc ↦ ?_, ih r (hp r).2⟩
    obtain ⟨a, ha, hfa⟩ := (hp r).1 c hc
    obtain ⟨b, hb, hgb⟩ := hret a
    exact ⟨b, (congrArg (bind · h) ha).trans hb, hgb.trans hfa⟩

theorem Does.bind_ends {ψ : α → Prop} {g : β → γ} {p : Prog S R α} {h : α → Prog S R β}
    (hp : p.Does (fun q ↦ ∀ r, ans ⟨q, r⟩ = none) ψ) (hh : ∀ a, ψ a → (h a).Ends ans g) :
    (p.bind h).Ends ans g := by
  induction p with
  | ret a => exact hh a hp
  | op q k ih =>
    intro r
    refine ⟨fun c hc ↦ ?_, ih r (hp.2 r)⟩
    rw [hp.1 r] at hc
    cases hc

end Prog

end Effects
