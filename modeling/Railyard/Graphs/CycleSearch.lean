import Mathlib.Data.List.Chain
import Mathlib.Logic.Function.Basic
import Mathlib.Order.WellFounded
import Mathlib.Logic.Relation

/-!
# Depth-first search for a cycle

A depth-first search over a graph given by its successor lists, with the usual three colours: a
vertex is unmarked, being visited, or done.  It stops at the first vertex it meets that is still
being visited and returns the part of its stack that leads back there.

* `search_isSome`: with one unit of fuel more than there are vertices, the search returns.
* `search_ok`: when it reports nothing, no infinite walk leaves any of its roots.
* `search_error`, `search_error_nodup`: what it reports is a closed walk, and no vertex but the
  first comes again in it.
* `search_ok_iff`: so it reports nothing exactly when the graph is acyclic.
* `exists_order`: the vertices of a graph without infinite walks can be put in order.

Marks are shared between the roots, and the roots may come in any order.
-/

set_option autoImplicit false

namespace CycleSearch

variable {α : Type}

/-! ## The search -/

/-- What the search knows about a vertex it has met. -/
inductive Mark
  | visiting
  | done
deriving DecidableEq, Repr

/-- The marks, and the vertices being visited in the order they were entered. -/
structure State (α : Type) where
  marks : α → Option Mark
  stack : List α

/-- The search before its first visit. -/
def State.init : State α := ⟨fun _ ↦ none, []⟩

/-- A visit ran out of fuel, found a cycle, or completed. -/
abbrev Outcome (α : Type) := Option (Except (List α) (State α))

section Search

variable [DecidableEq α]

/-- Mark a vertex as being visited and put it on the stack. -/
def State.enter (s : State α) (node : α) : State α :=
  ⟨Function.update s.marks node (some .visiting), s.stack ++ [node]⟩

/-- Take the last vertex off the stack and mark `node` as done. -/
def State.leave (s : State α) (node : α) : State α :=
  ⟨Function.update s.marks node (some .done), s.stack.dropLast⟩

/-- Visit the vertices of a list in turn, up to the first that does not complete. -/
def visitEach (visit : α → State α → Outcome α) : List α → State α → Outcome α
  | [], s => some (.ok s)
  | next :: rest, s =>
    match visit next s with
    | some (.ok s') => visitEach visit rest s'
    | outcome => outcome

/-- The part of the stack from `node` on, closed with `node` again. -/
def State.cycleAt (s : State α) (node : α) : List α :=
  s.stack.drop ((s.stack.idxOf? node).getD 0) ++ [node]

/-- Visit a vertex: nothing if it is done, a cycle if it is being visited, and otherwise its
successors in turn. -/
def visit (edges : α → List α) : ℕ → α → State α → Outcome α
  | 0, _, _ => none
  | fuel + 1, node, s =>
    match s.marks node with
    | some .done => some (.ok s)
    | some .visiting => some (.error (s.cycleAt node))
    | none =>
      match visitEach (visit edges fuel) (edges node) (s.enter node) with
      | some (.ok s') => some (.ok (s'.leave node))
      | outcome => outcome

/-- Visit every root, the marks being shared. -/
def search (edges : α → List α) (fuel : ℕ) (roots : List α) : Outcome α :=
  visitEach (visit edges fuel) roots State.init

end Search

theorem visitEach_cons_ok {visit : α → State α → Outcome α} {next : α} {rest : List α}
    {s s' : State α} (h : visitEach visit (next :: rest) s = some (.ok s')) :
    ∃ s₁, visit next s = some (.ok s₁) ∧ visitEach visit rest s₁ = some (.ok s') := by
  rw [visitEach] at h
  split at h
  · rename_i s₁ hnext
    exact ⟨s₁, hnext, h⟩
  · rename_i hnot
    exact absurd h (hnot s')

theorem visitEach_cons_error {visit : α → State α → Outcome α} {next : α} {rest cycle : List α}
    {s : State α} (h : visitEach visit (next :: rest) s = some (.error cycle)) :
    visit next s = some (.error cycle) ∨
      ∃ s₁, visit next s = some (.ok s₁) ∧ visitEach visit rest s₁ = some (.error cycle) := by
  rw [visitEach] at h
  split at h
  · rename_i s₁ hnext
    exact Or.inr ⟨s₁, hnext, h⟩
  · exact Or.inl h

/-! ## What a completed visit changes -/

/-- From `s` to `s'` no mark was taken back and the stack is as it was. -/
structure Extends (s s' : State α) : Prop where
  done : ∀ a, s.marks a = some .done → s'.marks a = some .done
  marked : ∀ a, s'.marks a = none → s.marks a = none
  stack : s'.stack = s.stack

theorem Extends.refl (s : State α) : Extends s s := ⟨fun _ ↦ id, fun _ ↦ id, rfl⟩

theorem Extends.trans {s s' s'' : State α} (h : Extends s s') (h' : Extends s' s'') :
    Extends s s'' where
  done a ha := h'.done a (h.done a ha)
  marked a ha := h.marked a (h'.marked a ha)
  stack := h'.stack.trans h.stack

theorem visitEach_extends {visit : α → State α → Outcome α}
    (hvisit : ∀ node s s', visit node s = some (.ok s') → Extends s s') {nodes : List α}
    {s s' : State α} (h : visitEach visit nodes s = some (.ok s')) : Extends s s' := by
  induction nodes generalizing s with
  | nil =>
    have heq : s = s' := by simpa [visitEach] using h
    exact heq ▸ Extends.refl s
  | cons next rest ih =>
    obtain ⟨s₁, hnext, hrest⟩ := visitEach_cons_ok h
    exact (hvisit next s s₁ hnext).trans (ih hrest)

section Marks

variable [DecidableEq α] {edges : α → List α}

/-- A visit that completes found the vertex done, or entered it, visited its successors and left
it again. -/
theorem visit_succ_ok {fuel : ℕ} {node : α} {s s' : State α}
    (h : visit edges (fuel + 1) node s = some (.ok s')) :
    (s.marks node = some .done ∧ s' = s) ∨
      (s.marks node = none ∧ ∃ s₁,
        visitEach (visit edges fuel) (edges node) (s.enter node) = some (.ok s₁) ∧
          s' = s₁.leave node) := by
  rw [visit] at h
  split at h
  · rename_i hdone
    exact Or.inl ⟨hdone, by simpa [eq_comm] using h⟩
  · simp at h
  · rename_i hnode
    split at h
    · rename_i s₁ hinner
      exact Or.inr ⟨hnode, s₁, hinner, by simpa [eq_comm] using h⟩
    · rename_i hnot
      exact absurd h (hnot s')

theorem visit_succ_error {fuel : ℕ} {node : α} {s : State α} {cycle : List α}
    (h : visit edges (fuel + 1) node s = some (.error cycle)) :
    (s.marks node = some .visiting ∧ cycle = s.cycleAt node) ∨
      (s.marks node = none ∧
        visitEach (visit edges fuel) (edges node) (s.enter node) = some (.error cycle)) := by
  rw [visit] at h
  split at h
  · simp at h
  · rename_i hvisiting
    exact Or.inl ⟨hvisiting, by simpa [eq_comm] using h⟩
  · rename_i hnode
    split at h
    · simp at h
    · exact Or.inr ⟨hnode, h⟩

/-- Entering an unmarked vertex, extending the state and leaving the vertex extends the state. -/
theorem Extends.leave {s s' : State α} {node : α} (hnode : s.marks node = none)
    (h : Extends (s.enter node) s') : Extends s (s'.leave node) where
  done a ha := by
    have hne : a ≠ node := fun heq ↦ by simp [heq, hnode] at ha
    have hdone := h.done a (by simpa [State.enter, hne] using ha)
    simpa [State.leave, hne] using hdone
  marked a ha := by
    have hne : a ≠ node := fun heq ↦ by simp [State.leave, heq] at ha
    have hnone := h.marked a (by simpa [State.leave, hne] using ha)
    simpa [State.enter, hne] using hnone
  stack := by
    show s'.stack.dropLast = s.stack
    rw [h.stack]
    exact List.dropLast_concat

theorem visit_extends {fuel : ℕ} {node : α} {s s' : State α}
    (h : visit edges fuel node s = some (.ok s')) : Extends s s' := by
  induction fuel generalizing node s s' with
  | zero => simp [visit] at h
  | succ fuel ih =>
    rcases visit_succ_ok h with ⟨-, rfl⟩ | ⟨hnode, s₁, hinner, rfl⟩
    · exact Extends.refl _
    · exact (visitEach_extends (fun _ _ _ ↦ ih) hinner).leave hnode

end Marks

/-! ## What the marks mean

The invariant of the search: no infinite walk leaves a vertex that is done, and the vertices being
visited are on the stack.  A visit is only ever started for a successor of the last vertex of the
stack, so that the stack with the visited vertex is a walk. -/

/-- No infinite walk leaves a vertex that is done; a vertex being visited is on the stack. -/
structure Sound (edges : α → List α) (s : State α) : Prop where
  acc : ∀ a, s.marks a = some .done → Acc (fun b a ↦ b ∈ edges a) a
  visiting : ∀ a, s.marks a = some .visiting → a ∈ s.stack

/-- A walk that comes back to where it started. -/
def IsCycle (edges : α → List α) (cycle : List α) : Prop :=
  ∃ a rest, cycle = a :: (rest ++ [a]) ∧ cycle.IsChain fun a b ↦ b ∈ edges a

/-- What visiting `nodes` may end in: with all of them done, or with a cycle. -/
structure Visits (edges : α → List α) (nodes : List α) (outcome : Outcome α) : Prop where
  ok : ∀ s', outcome = some (.ok s') →
    Sound edges s' ∧ ∀ node ∈ nodes, s'.marks node = some .done
  error : ∀ cycle, outcome = some (.error cycle) → IsCycle edges cycle

theorem Sound.init (edges : α → List α) : Sound edges (State.init : State α) :=
  ⟨fun _ h ↦ by simp [State.init] at h, fun _ h ↦ by simp [State.init] at h⟩

section Sound

variable [DecidableEq α] {edges : α → List α}

theorem Sound.enter {s : State α} (h : Sound edges s) (node : α) :
    Sound edges (s.enter node) where
  acc a ha := by
    have hne : a ≠ node := fun heq ↦ by simp [State.enter, heq] at ha
    exact h.acc a (by simpa [State.enter, hne] using ha)
  visiting a ha := by
    by_cases heq : a = node
    · simp [State.enter, heq]
    · have hmem := h.visiting a (by simpa [State.enter, heq] using ha)
      simp [State.enter, hmem]

/-- Leaving a vertex whose successors are all done. -/
theorem Sound.leave {s : State α} {node : α} {below : List α} (h : Sound edges s)
    (hstack : s.stack = below ++ [node])
    (hnext : ∀ b ∈ edges node, s.marks b = some .done) : Sound edges (s.leave node) where
  acc a ha := by
    by_cases heq : a = node
    · exact heq ▸ Acc.intro node fun b hb ↦ h.acc b (hnext b hb)
    · exact h.acc a (by simpa [State.leave, heq] using ha)
  visiting a ha := by
    have hne : a ≠ node := fun heq ↦ by simp [State.leave, heq] at ha
    have hmem := h.visiting a (by simpa [State.leave, hne] using ha)
    rw [hstack, List.mem_append] at hmem
    have hbelow := hmem.resolve_right fun hlast ↦ hne (List.mem_singleton.mp hlast)
    simpa [State.leave, hstack] using hbelow

/-- The stack from a vertex on it, closed with that vertex, is a cycle. -/
theorem isCycle_cycleAt {s : State α} {node : α} (hmem : node ∈ s.stack)
    (hwalk : (s.stack ++ [node]).IsChain fun a b ↦ b ∈ edges a) :
    IsCycle edges (s.cycleAt node) := by
  have hlt := List.idxOf_lt_length_of_mem hmem
  have hidx : s.stack.idxOf? node = some (s.stack.idxOf node) := by
    rw [List.idxOf?, List.findIdx?_eq_some_iff_findIdx_eq]
    exact ⟨hlt, rfl⟩
  have hdrop : s.stack.drop (s.stack.idxOf node) =
      node :: s.stack.drop (s.stack.idxOf node + 1) := by
    rw [List.drop_eq_getElem_cons hlt, List.getElem_idxOf]
  have hcycle : s.cycleAt node = s.stack.drop (s.stack.idxOf node) ++ [node] := by
    rw [State.cycleAt, hidx, Option.getD_some]
  refine ⟨node, s.stack.drop (s.stack.idxOf node + 1), ?_, ?_⟩
  · rw [hcycle, hdrop, List.cons_append]
  · obtain ⟨before, hbefore⟩ := List.drop_suffix (s.stack.idxOf node) s.stack
    refine hwalk.suffix ⟨before, ?_⟩
    rw [hcycle, ← List.append_assoc, hbefore]

omit [DecidableEq α] in
theorem visitEach_visits {visit : α → State α → Outcome α}
    (hextends : ∀ node s s', visit node s = some (.ok s') → Extends s s')
    (hvisit : ∀ node s, Sound edges s → ((s.stack ++ [node]).IsChain fun a b ↦ b ∈ edges a) →
      Visits edges [node] (visit node s)) {nodes : List α} {s : State α} (hs : Sound edges s)
    (hwalk : ∀ node ∈ nodes, (s.stack ++ [node]).IsChain fun a b ↦ b ∈ edges a) :
    Visits edges nodes (visitEach visit nodes s) := by
  induction nodes generalizing s with
  | nil =>
    refine ⟨fun s' h ↦ ?_, fun cycle h ↦ by simp [visitEach] at h⟩
    have heq : s = s' := by simpa [visitEach] using h
    exact ⟨heq ▸ hs, by simp⟩
  | cons next rest ih =>
    have hnext := hvisit next s hs (hwalk next (List.mem_cons_self ..))
    have hrest : ∀ s₁, visit next s = some (.ok s₁) →
        Visits edges rest (visitEach visit rest s₁) := by
      intro s₁ h
      refine ih (hnext.ok s₁ h).1 fun node hnode ↦ ?_
      rw [(hextends next s s₁ h).stack]
      exact hwalk node (List.mem_cons_of_mem _ hnode)
    constructor
    · intro s' h
      obtain ⟨s₁, h₁, h'⟩ := visitEach_cons_ok h
      have hdone := (hrest s₁ h₁).ok s' h'
      refine ⟨hdone.1, fun node hnode ↦ ?_⟩
      rcases List.mem_cons.mp hnode with rfl | hmem
      · have hmark := (hnext.ok s₁ h₁).2 node (List.mem_singleton_self _)
        exact (visitEach_extends hextends h').done node hmark
      · exact hdone.2 node hmem
    · intro cycle h
      rcases visitEach_cons_error h with h | ⟨s₁, h₁, h'⟩
      · exact hnext.error cycle h
      · exact (hrest s₁ h₁).error cycle h'

/-- A visit from a sound state, of a vertex that prolongs the stack to a walk. -/
theorem visit_visits {fuel : ℕ} {node : α} {s : State α} (hs : Sound edges s)
    (hwalk : (s.stack ++ [node]).IsChain fun a b ↦ b ∈ edges a) :
    Visits edges [node] (visit edges fuel node s) := by
  induction fuel generalizing node s with
  | zero => exact ⟨fun _ h ↦ by simp [visit] at h, fun _ h ↦ by simp [visit] at h⟩
  | succ fuel ih =>
    have hinner : Visits edges (edges node)
        (visitEach (visit edges fuel) (edges node) (s.enter node)) := by
      refine visitEach_visits (fun _ _ _ ↦ visit_extends) (fun _ _ ↦ ih) (hs.enter node) ?_
      intro next hnext
      refine List.isChain_append.mpr ⟨hwalk, List.isChain_singleton next, ?_⟩
      simpa [State.enter] using hnext
    constructor
    · intro s' h
      rcases visit_succ_ok h with ⟨hdone, rfl⟩ | ⟨-, s₁, h₁, rfl⟩
      · exact ⟨hs, by simpa using hdone⟩
      · have hall := hinner.ok s₁ h₁
        have hstack := (visitEach_extends (fun _ _ _ ↦ visit_extends) h₁).stack
        exact ⟨hall.1.leave hstack hall.2, by simp [State.leave]⟩
    · intro cycle h
      rcases visit_succ_error h with ⟨hvisiting, rfl⟩ | ⟨-, h⟩
      · exact isCycle_cycleAt (hs.visiting node hvisiting) hwalk
      · exact hinner.error cycle h

end Sound

/-! ## The stack

Only an unmarked vertex is entered, and the vertices on the stack are marked, so none of them comes
twice. -/

/-- The stack holds distinct vertices, all of them being visited. -/
structure State.Distinct (s : State α) : Prop where
  nodup : s.stack.Nodup
  visiting : ∀ a ∈ s.stack, s.marks a = some .visiting

theorem visitEach_visiting {visit : α → State α → Outcome α} {a : α}
    (hvisit : ∀ node s s', visit node s = some (.ok s') → s.marks a = some .visiting →
      s'.marks a = some .visiting) {nodes : List α} {s s' : State α}
    (h : visitEach visit nodes s = some (.ok s')) (ha : s.marks a = some .visiting) :
    s'.marks a = some .visiting := by
  induction nodes generalizing s with
  | nil =>
    have heq : s = s' := by simpa [visitEach] using h
    exact heq ▸ ha
  | cons next rest ih =>
    obtain ⟨s₁, hnext, hrest⟩ := visitEach_cons_ok h
    exact ih hrest (hvisit next s s₁ hnext ha)

section Stack

variable [DecidableEq α] {edges : α → List α}

/-- A visit that completes leaves alone the marks of the vertices being visited. -/
theorem visit_visiting {fuel : ℕ} {node a : α} {s s' : State α}
    (h : visit edges fuel node s = some (.ok s')) (ha : s.marks a = some .visiting) :
    s'.marks a = some .visiting := by
  induction fuel generalizing node s s' with
  | zero => simp [visit] at h
  | succ fuel ih =>
    rcases visit_succ_ok h with ⟨-, rfl⟩ | ⟨hnode, s₁, hinner, rfl⟩
    · exact ha
    · have hne : a ≠ node := fun heq ↦ by simp [heq, hnode] at ha
      have hinto : (s.enter node).marks a = some .visiting := by simpa [State.enter, hne] using ha
      have hout := visitEach_visiting (fun _ _ _ ↦ ih) hinner hinto
      simpa [State.leave, hne] using hout

theorem State.Distinct.enter {s : State α} (h : s.Distinct) {node : α}
    (hnode : s.marks node = none) : (s.enter node).Distinct where
  nodup := by
    have hnot : node ∉ s.stack := fun hmem ↦ by simp [h.visiting node hmem] at hnode
    exact List.nodup_append.mpr ⟨h.nodup, List.pairwise_singleton _ node, fun a ha b hb heq ↦
      hnot (by rwa [← List.mem_singleton.mp hb, ← heq])⟩
  visiting a ha := by
    by_cases heq : a = node
    · simp [State.enter, heq]
    · have hmem : a ∈ s.stack := by simpa [State.enter, heq] using ha
      simpa [State.enter, heq] using h.visiting a hmem

theorem State.Distinct.after {fuel : ℕ} {node : α} {s s' : State α} (h : s.Distinct)
    (hvisit : visit edges fuel node s = some (.ok s')) : s'.Distinct where
  nodup := (visit_extends hvisit).stack ▸ h.nodup
  visiting a ha := by
    rw [(visit_extends hvisit).stack] at ha
    exact visit_visiting hvisit (h.visiting a ha)

theorem visitEach_error_nodup {fuel : ℕ} {nodes cycle : List α} {s : State α}
    (hvisit : ∀ (node : α) (s : State α), s.Distinct →
      visit edges fuel node s = some (.error cycle) → cycle.dropLast.Nodup) (hs : s.Distinct)
    (h : visitEach (visit edges fuel) nodes s = some (.error cycle)) : cycle.dropLast.Nodup := by
  induction nodes generalizing s with
  | nil => simp [visitEach] at h
  | cons next rest ih =>
    rcases visitEach_cons_error h with h | ⟨s₁, h₁, h'⟩
    · exact hvisit next s hs h
    · exact ih (hs.after h₁) h'

theorem visit_error_nodup {fuel : ℕ} {node : α} {s : State α} {cycle : List α} (hs : s.Distinct)
    (h : visit edges fuel node s = some (.error cycle)) : cycle.dropLast.Nodup := by
  induction fuel generalizing node s with
  | zero => simp [visit] at h
  | succ fuel ih =>
    rcases visit_succ_error h with ⟨-, rfl⟩ | ⟨hnode, hinner⟩
    · have hstack : (s.cycleAt node).dropLast = s.stack.drop ((s.stack.idxOf? node).getD 0) :=
        List.dropLast_concat
      rw [hstack]
      exact hs.nodup.sublist (List.drop_sublist ..)
    · exact visitEach_error_nodup (fun _ _ ↦ ih) (hs.enter hnode) hinner

end Stack

/-! ## Enough fuel -/

section Fuel

variable [DecidableEq α] {edges : α → List α}

/-- The vertices of a list the search has not met. -/
def State.unmarked (s : State α) (vertices : List α) : ℕ :=
  vertices.countP fun a ↦ s.marks a = none

omit [DecidableEq α] in
theorem Extends.unmarked_le {s s' : State α} (h : Extends s s') (vertices : List α) :
    s'.unmarked vertices ≤ s.unmarked vertices :=
  List.countP_mono_left fun a _ ha ↦ by simpa using h.marked a (by simpa using ha)

theorem unmarked_enter_lt {s : State α} {node : α} {vertices : List α} (hmem : node ∈ vertices)
    (hnode : s.marks node = none) : (s.enter node).unmarked vertices < s.unmarked vertices := by
  induction vertices with
  | nil => simp at hmem
  | cons a rest ih =>
    have hle : (s.enter node).unmarked rest ≤ s.unmarked rest :=
      List.countP_mono_left fun b _ hb ↦ by
        by_cases heq : b = node
        · simp [State.enter, heq] at hb
        · simpa [State.enter, heq] using hb
    by_cases heq : a = node
    · have hnew : (s.enter node).marks a ≠ none := by simp [State.enter, heq]
      have hold : s.marks a = none := heq ▸ hnode
      simp only [State.unmarked, List.countP_cons, hnew, hold, decide_true, decide_false] at hle ⊢
      simp only [if_true, Bool.false_eq_true, if_false]
      omega
    · have hmem' : node ∈ rest := by
        rcases List.mem_cons.mp hmem with h | h
        · exact absurd h.symm heq
        · exact h
      have hmarks : (s.enter node).marks a = s.marks a := by simp [State.enter, heq]
      have hlt := ih hmem'
      simp only [State.unmarked, List.countP_cons, hmarks] at hlt ⊢
      omega

omit [DecidableEq α] in
theorem visitEach_isSome {visit : α → State α → Outcome α} {vertices : List α} {fuel : ℕ}
    (hextends : ∀ node s s', visit node s = some (.ok s') → Extends s s')
    (hvisit : ∀ node s, node ∈ vertices → s.unmarked vertices < fuel → (visit node s).isSome)
    {nodes : List α} (hnodes : ∀ node ∈ nodes, node ∈ vertices) {s : State α}
    (hs : s.unmarked vertices < fuel) : (visitEach visit nodes s).isSome := by
  induction nodes generalizing s with
  | nil => rfl
  | cons next rest ih =>
    rw [visitEach]
    split
    · rename_i s₁ h₁
      refine ih (fun node hnode ↦ hnodes node (List.mem_cons_of_mem _ hnode)) ?_
      exact lt_of_le_of_lt ((hextends next s s₁ h₁).unmarked_le vertices) hs
    · exact hvisit next s (hnodes next (List.mem_cons_self ..)) hs

theorem visit_isSome {vertices : List α} (hclosed : ∀ a ∈ vertices, ∀ b ∈ edges a, b ∈ vertices)
    {fuel : ℕ} {node : α} {s : State α} (hnode : node ∈ vertices)
    (hs : s.unmarked vertices < fuel) : (visit edges fuel node s).isSome := by
  induction fuel generalizing node s with
  | zero => omega
  | succ fuel ih =>
    rw [visit]
    split
    · rfl
    · rfl
    · rename_i hnone
      have hlt := unmarked_enter_lt hnode hnone
      have hinner : (visitEach (visit edges fuel) (edges node) (s.enter node)).isSome :=
        visitEach_isSome (fun _ _ _ ↦ visit_extends) (fun _ _ ↦ ih) (hclosed node hnode)
          (by omega)
      split
      · rfl
      · exact hinner

end Fuel

/-! ## The search as a whole -/

section Whole

variable [DecidableEq α] {edges : α → List α}

/-- With one unit of fuel more than there are vertices the search returns. -/
theorem search_isSome {vertices roots : List α}
    (hclosed : ∀ a ∈ vertices, ∀ b ∈ edges a, b ∈ vertices)
    (hroots : ∀ a ∈ roots, a ∈ vertices) {fuel : ℕ} (hfuel : vertices.length < fuel) :
    (search edges fuel roots).isSome := by
  refine visitEach_isSome (fun _ _ _ ↦ visit_extends)
    (fun _ _ ↦ visit_isSome hclosed) hroots ?_
  exact lt_of_le_of_lt List.countP_le_length hfuel

theorem search_visits (edges : α → List α) (fuel : ℕ) (roots : List α) :
    Visits edges roots (search edges fuel roots) := by
  refine visitEach_visits (fun _ _ _ ↦ visit_extends) (fun _ _ ↦ visit_visits)
    (Sound.init edges) fun node _ ↦ ?_
  simp [State.init]

/-- A search that reports nothing: no infinite walk leaves a root. -/
theorem search_ok {fuel : ℕ} {roots : List α} {s : State α}
    (h : search edges fuel roots = some (.ok s)) :
    ∀ a ∈ roots, Acc (fun b a ↦ b ∈ edges a) a := by
  intro a ha
  have hall := (search_visits edges fuel roots).ok s h
  exact hall.1.acc a (hall.2 a ha)

/-- What a search reports is a cycle. -/
theorem search_error {fuel : ℕ} {roots cycle : List α}
    (h : search edges fuel roots = some (.error cycle)) : IsCycle edges cycle :=
  (search_visits edges fuel roots).error cycle h

/-- Its vertices are distinct, but for the last, which is the first. -/
theorem search_error_nodup {fuel : ℕ} {roots cycle : List α}
    (h : search edges fuel roots = some (.error cycle)) : cycle.dropLast.Nodup :=
  visitEach_error_nodup (fun _ _ ↦ visit_error_nodup) ⟨List.nodup_nil, by simp [State.init]⟩ h

omit [DecidableEq α] in
theorem IsCycle.transGen {cycle : List α} (h : IsCycle edges cycle) :
    ∃ a, Relation.TransGen (fun a b ↦ b ∈ edges a) a a := by
  obtain ⟨a, rest, rfl, hwalk⟩ := h
  have hpath : ∀ (rest : List α) (b : α), (b :: (rest ++ [a])).IsChain (fun a b ↦ b ∈ edges a) →
      Relation.TransGen (fun a b ↦ b ∈ edges a) b a := by
    intro rest
    induction rest with
    | nil =>
      intro b h
      exact .single (List.isChain_pair.mp h)
    | cons c rest ih =>
      intro b h
      obtain ⟨hbc, hrest⟩ := List.isChain_cons_cons.mp h
      exact .head hbc (ih c hrest)
  exact ⟨a, hpath rest a hwalk⟩

/-- When every vertex with a successor is a root, a search that reports nothing rules out every
infinite walk. -/
theorem search_wellFounded {fuel : ℕ} {roots : List α} (hroots : ∀ a, edges a ≠ [] → a ∈ roots)
    {s : State α} (h : search edges fuel roots = some (.ok s)) :
    WellFounded fun b a ↦ b ∈ edges a := by
  refine ⟨fun a ↦ ?_⟩
  by_cases hedges : edges a = []
  · exact Acc.intro a fun b hb ↦ by simp [hedges] at hb
  · exact search_ok h a (hroots a hedges)

/-- **The search reports nothing exactly when the graph is acyclic.** -/
theorem search_ok_iff {vertices roots : List α}
    (hclosed : ∀ a ∈ vertices, ∀ b ∈ edges a, b ∈ vertices)
    (hvertices : ∀ a ∈ roots, a ∈ vertices) (hroots : ∀ a, edges a ≠ [] → a ∈ roots) {fuel : ℕ}
    (hfuel : vertices.length < fuel) :
    (∃ s, search edges fuel roots = some (.ok s)) ↔
      ∀ a, ¬ Relation.TransGen (fun a b ↦ b ∈ edges a) a a := by
  constructor
  · rintro ⟨s, h⟩ a ha
    have hwf := (search_wellFounded hroots h).transGen
    exact hwf.irrefl.irrefl a (Relation.transGen_swap.mp ha)
  · intro hacyclic
    cases hsearch : search edges fuel roots with
    | none =>
      have hsome := search_isSome hclosed hvertices hfuel
      rw [hsearch] at hsome
      exact absurd hsome (by simp)
    | some outcome =>
      cases outcome with
      | ok s => exact ⟨s, rfl⟩
      | error cycle =>
        obtain ⟨a, ha⟩ := (search_error hsearch).transGen
        exact absurd ha (hacyclic a)

end Whole

/-! ## Orders -/

/-- A relation without infinite descents lets the elements of any list be put in an order in which
none comes before one that is below it. -/
theorem exists_order {r : α → α → Prop} (hwf : WellFounded r) (l : List α) :
    ∃ order : List α, order.Perm l ∧ order.Pairwise fun a b ↦ ¬ r b a := by
  classical
  generalize hn : l.length = n
  induction n generalizing l with
  | zero => exact ⟨[], by simp [List.length_eq_zero_iff.mp hn], List.Pairwise.nil⟩
  | succ n ih =>
    have hne : {a | a ∈ l}.Nonempty :=
      List.exists_mem_of_ne_nil l (by rintro rfl; simp at hn)
    obtain ⟨first, hfirst, hmin⟩ := hwf.has_min {a | a ∈ l} hne
    have hlength : (l.erase first).length = n := by
      rw [List.length_erase_of_mem hfirst]
      omega
    obtain ⟨order, hperm, hpair⟩ := ih (l.erase first) hlength
    refine ⟨first :: order, ?_, List.pairwise_cons.mpr ⟨fun b hb ↦ ?_, hpair⟩⟩
    · exact (hperm.cons first).trans (List.perm_cons_erase hfirst).symm
    · exact hmin b (List.mem_of_mem_erase (hperm.mem_iff.mp hb))

end CycleSearch
