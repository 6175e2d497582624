import Mathlib.Order.Defs.Unbundled

/-!
# Commands that may fail halfway

A `Command` changes a state and ends with a value or with an error.  An error does not undo
anything: what was done before it stays.

* `Command.start` runs a command from a state;
* `Command.attempt` catches the error of a command as a value;
* `Command.Moves R P p Q`: from a state of `P`, and however it ends, `p` leads along `R`, and if it
  ends with a value then in a state of `Q`.

`R` says what a command may do and `Q` what it has found out.  The rules take a command apart along
its binds; `Moves.frame` carries along what no step of `R` makes false.
-/

set_option autoImplicit false

namespace Effects

/-- A program that changes a state of `σ` and ends with a value or an error. -/
abbrev Command (ε σ α : Type) := ExceptT ε (StateM σ) α

namespace Command

variable {ε ε' σ α β : Type}

/-- Run a command from a state. -/
def start (p : Command ε σ α) (s : σ) : Except ε α × σ := (ExceptT.run p).run s

/-- A command by what it does in each state. -/
def act (f : σ → Except ε α × σ) : Command ε σ α := ExceptT.mk f

/-- The error of a command as a value. -/
def attempt (p : Command ε σ α) : Command ε' σ (Except ε α) :=
  act fun s ↦ (.ok (p.start s).1, (p.start s).2)

/-- The same command with other errors. -/
def adapt (f : ε → ε') (p : Command ε σ α) : Command ε' σ α :=
  act fun s ↦ ((p.start s).1.mapError f, (p.start s).2)

@[simp] theorem start_act (f : σ → Except ε α × σ) (s : σ) : (act f).start s = f s := rfl

@[simp] theorem start_pure (a : α) (s : σ) : start (pure a : Command ε σ α) s = (.ok a, s) := rfl

@[simp] theorem start_throw (e : ε) (s : σ) :
    start (throw e : Command ε σ α) s = (.error e, s) := rfl

/-- A value or an error that is there already. -/
@[simp] theorem start_ofExcept (r : Except ε α) (s : σ) :
    start (ofExcept r : Command ε σ α) s = (r, s) := by
  cases r <;> rfl

theorem start_bind (p : Command ε σ α) (f : α → Command ε σ β) (s : σ) :
    start (p >>= f) s = match p.start s with
      | (.ok a, s') => (f a).start s'
      | (.error e, s') => (.error e, s') := by
  show (ExceptT.run (p >>= f)).run s = _
  rw [ExceptT.run_bind, StateT.run_bind]
  rcases hp : p.start s with ⟨e | a, s'⟩
  · rw [show (ExceptT.run p).run s = (.error e, s') from hp]
    rfl
  · rw [show (ExceptT.run p).run s = (.ok a, s') from hp]
    rfl

/-! ## What commands do and find out -/

section Moves

variable {R : σ → σ → Prop} {P P' : σ → Prop} {Q Q' : α → σ → Prop} {p : Command ε σ α}

/-- From a state of `P` the command leads along `R`, and a value it ends with satisfies `Q`. -/
def Moves (R : σ → σ → Prop) (P : σ → Prop) (p : Command ε σ α) (Q : α → σ → Prop) : Prop :=
  ∀ s, P s → R s (p.start s).2 ∧ ∀ a, (p.start s).1 = .ok a → Q a (p.start s).2

theorem Moves.mono (h : Moves R P p Q) {R' : σ → σ → Prop} (hR : ∀ s s', R s s' → R' s s')
    (hP : ∀ s, P' s → P s) (hQ : ∀ a s, Q a s → Q' a s) : Moves R' P' p Q' := by
  intro s hs
  obtain ⟨hmove, hvalue⟩ := h s (hP s hs)
  exact ⟨hR _ _ hmove, fun a ha ↦ hQ a _ (hvalue a ha)⟩

theorem Moves.pre (h : Moves R P p Q) (hP : ∀ s, P' s → P s) : Moves R P' p Q :=
  h.mono (fun _ _ ↦ id) hP fun _ _ ↦ id

theorem Moves.post (h : Moves R P p Q) (hQ : ∀ a s, Q a s → Q' a s) : Moves R P p Q' :=
  h.mono (fun _ _ ↦ id) (fun _ ↦ id) hQ

/-- What no step along `R` makes false is carried along. -/
theorem Moves.frame (h : Moves R P p Q) {F : σ → Prop} (hF : ∀ s s', R s s' → F s → F s') :
    Moves R (fun s ↦ P s ∧ F s) p fun a s ↦ Q a s ∧ F s := by
  intro s hs
  obtain ⟨hmove, hvalue⟩ := h s hs.1
  exact ⟨hmove, fun a ha ↦ ⟨hvalue a ha, hF _ _ hmove hs.2⟩⟩

theorem Moves.attempt (h : Moves R P p Q) :
    Moves R P (p.attempt : Command ε' σ (Except ε α)) fun r s ↦ ∀ a, r = .ok a → Q a s := by
  intro s hs
  obtain ⟨hmove, hvalue⟩ := h s hs
  refine ⟨hmove, fun r hr a ha ↦ hvalue a ?_⟩
  rw [← ha]
  exact Except.ok.inj hr

theorem Moves.adapt (h : Moves R P p Q) (f : ε → ε') : Moves R P (p.adapt f) Q := by
  intro s hs
  obtain ⟨hmove, hvalue⟩ := h s hs
  refine ⟨hmove, fun a ha ↦ hvalue a ?_⟩
  simp only [Command.adapt, start_act] at ha
  cases hr : (p.start s).1 with
  | error e =>
    rw [hr] at ha
    cases ha
  | ok b =>
    rw [hr] at ha
    rw [Except.ok.inj ha]

variable [IsPreorder σ R]

theorem Moves.pure {a : α} (h : ∀ s, P s → Q a s) : Moves R P (pure a : Command ε σ α) Q := by
  refine fun s hs ↦ ⟨refl_of R s, fun b hb ↦ ?_⟩
  rw [← Except.ok.inj hb]
  exact h s hs

theorem Moves.throw (e : ε) : Moves R P (throw e : Command ε σ α) Q :=
  fun s _ ↦ ⟨refl_of R s, fun _ hb ↦ by cases hb⟩

theorem Moves.except {r : Except ε α} (h : ∀ a, r = .ok a → ∀ s, P s → Q a s) :
    Moves R P (ofExcept r : Command ε σ α) Q := by
  intro s hs
  rw [start_ofExcept]
  exact ⟨refl_of R s, fun a ha ↦ h a ha s hs⟩

theorem Moves.get : Moves R P (get : Command ε σ σ) fun a s ↦ a = s ∧ P s := by
  refine fun s hs ↦ ⟨refl_of R s, fun a ha ↦ ?_⟩
  rw [← Except.ok.inj ha]
  exact ⟨rfl, hs⟩

/-- One command after the other. -/
theorem Moves.bind {f : α → Command ε σ β} {Q' : β → σ → Prop} (h : Moves R P p Q)
    (hf : ∀ a, Moves R (Q a) (f a) Q') : Moves R P (p >>= f) Q' := by
  intro s hs
  obtain ⟨hmove, hvalue⟩ := h s hs
  rw [start_bind]
  rcases hp : p.start s with ⟨e | a, s₁⟩
  · rw [hp] at hmove
    exact ⟨hmove, fun b hb ↦ by cases hb⟩
  · rw [hp] at hmove hvalue
    obtain ⟨hmove', hvalue'⟩ := hf a s₁ (hvalue a rfl)
    exact ⟨trans_of R hmove hmove', hvalue'⟩

/-- What is there already is what the rest goes on with. -/
theorem Moves.bind_except {r : Except ε α} {f : α → Command ε σ β} {Q' : β → σ → Prop}
    (hf : ∀ a, r = .ok a → Moves R P (f a) Q') :
    Moves R P ((ofExcept r : Command ε σ α) >>= f) Q' := by
  intro s hs
  rw [start_bind, start_ofExcept]
  cases r with
  | error e => exact ⟨refl_of R s, fun _ hb ↦ by cases hb⟩
  | ok a => exact hf a rfl s hs

end Moves

end Command

end Effects
