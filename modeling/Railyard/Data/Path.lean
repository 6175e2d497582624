import Mathlib.Data.List.Basic
import Mathlib.Data.String.Basic

/-!
# Paths

A path is the list of its components from the root, `.` and `..` resolved.  `Path.join` follows a
text from a directory, as the file system does; symbolic links are not modelled.

* `inside_iff`: a way stays in the directory it starts from when no part of it climbs more often
  than it descends.
-/

set_option autoImplicit false

namespace Data

/-- The components of a path from the root. -/
abbrev Path := List String

/-- Follow one component. -/
def Path.push (dir : Path) : String → Path
  | "" | "." => dir
  | ".." => dir.dropLast
  | component => dir ++ [component]

/-- Follow one component after another. -/
def Path.follow (dir : Path) (cs : List Char) : Path :=
  ((cs.splitOn '/').map String.ofList).foldl Path.push dir

/-- `Path::join`: a relative path is followed from the directory, an absolute one from the root. -/
def Path.join (dir : Path) (s : String) : Path :=
  Path.follow (if s.toList.head? = some '/' then [] else dir) s.toList

/-- A component that stands for itself. -/
def IsPlain (component : String) : Prop :=
  '/' ∉ component.toList ∧ component ≠ "" ∧ component ≠ "." ∧ component ≠ ".."

/-- A component that is neither empty nor dots is appended. -/
theorem Path.push_eq (dir : Path) {component : String} (hempty : component ≠ "")
    (hdot : component ≠ ".") (hdots : component ≠ "..") :
    dir.push component = dir ++ [component] := by
  unfold Path.push
  split
  · exact absurd rfl hempty
  · exact absurd rfl hdot
  · exact absurd rfl hdots
  · rfl

@[simp] theorem Path.follow_nil (dir : Path) : dir.follow [] = dir := rfl

/-- What comes before a separator is followed first. -/
theorem Path.follow_append_sep (dir : Path) (cs cs' : List Char) :
    dir.follow (cs ++ '/' :: cs') = (dir.follow cs).follow cs' := by
  have hsplit : (cs ++ '/' :: cs').splitOn '/' = cs.splitOn '/' ++ cs'.splitOn '/' := by
    simp only [List.splitOn_eq_splitOnP]
    exact List.splitOnP_append_cons cs cs' (by simp)
  rw [Path.follow, hsplit, List.map_append, List.foldl_append]
  rfl

theorem Path.follow_plain (dir : Path) {component : String} (h : IsPlain component) :
    dir.follow component.toList = dir ++ [component] := by
  have hone : component.toList.splitOn '/' = [component.toList] := by
    rw [List.splitOn_eq_splitOnP]
    refine List.splitOnP_eq_singleton fun c hc ↦ ?_
    rw [beq_eq_false_iff_ne]
    rintro rfl
    exact h.1 hc
  rw [Path.follow, hone, List.map_singleton, String.ofList_toList, List.foldl_cons, List.foldl_nil]
  exact Path.push_eq dir h.2.1 h.2.2.1 h.2.2.2

theorem Path.join_plain (dir : Path) {component : String} (h : IsPlain component) :
    dir.join component = dir ++ [component] := by
  have hrelative : ¬ component.toList.head? = some '/' := fun hhead ↦ h.1 (List.mem_of_head? hhead)
  rw [Path.join, if_neg hrelative, Path.follow_plain dir h]

/-! ## Staying inside

A directory is not left when no part of the way climbs more often than it has descended. -/

/-- The components of a path as it is written. -/
def components (s : String) : List String := (s.toList.splitOn '/').map String.ofList

/-- How often components climb. -/
def ups (components : List String) : ℕ := components.count ".."

/-- How often components descend. -/
def downs (components : List String) : ℕ :=
  components.countP fun component ↦ component ≠ "" ∧ component ≠ "." ∧ component ≠ ".."

/-- Following the components from a directory never leads out of it. -/
def Inside (components : List String) : Prop :=
  ∀ (dir : Path) (before : List String), before <+: components → dir <+: before.foldl Path.push dir

theorem forall_prefix_cons {component : String} {components : List String}
    {P : List String → Prop} :
    (∀ before, before <+: component :: components → P before) ↔
      P [] ∧ ∀ before, before <+: components → P (component :: before) := by
  constructor
  · intro h
    exact ⟨h [] List.nil_prefix,
      fun before hbefore ↦ h _ (List.cons_prefix_cons.mpr ⟨rfl, hbefore⟩)⟩
  · rintro ⟨hnil, hcons⟩ before hbefore
    rcases List.prefix_cons_iff.mp hbefore with rfl | ⟨rest, rfl, hrest⟩
    · exact hnil
    · exact hcons rest hrest

/-- From a directory below `dir` the way may climb as often as that is deep. -/
theorem inside_below_iff {components : List String} {below : Path} :
    (∀ (dir : Path) (before : List String), before <+: components →
        dir <+: before.foldl Path.push (dir ++ below)) ↔
      ∀ before, before <+: components → ups before ≤ below.length + downs before := by
  induction components generalizing below with
  | nil => simp [ups]
  | cons component components ih =>
    simp only [forall_prefix_cons, List.foldl_nil, List.prefix_append, true_and, List.foldl_cons]
    by_cases hstay : component = "" ∨ component = "."
    · have hpush : ∀ dir : Path, dir.push component = dir := by
        rcases hstay with rfl | rfl <;> exact fun _ ↦ rfl
      have hcount : ∀ before, ups (component :: before) = ups before ∧
          downs (component :: before) = downs before := by
        rcases hstay with rfl | rfl <;> simp [ups, downs]
      simp only [hpush, hcount, ih]
      simp [ups]
    by_cases hup : component = ".."
    · subst hup
      have hcount : ∀ before, ups (".." :: before) = ups before + 1 ∧
          downs (".." :: before) = downs before := by
        simp [ups, downs]
      rcases List.eq_nil_or_concat below with rfl | ⟨above, last, rfl⟩
      · -- out of the directory
        constructor
        · intro hinside
          have hroot := hinside ["x"] [] List.nil_prefix
          simp [Path.push] at hroot
        · intro hups
          have hone := hups.2 [] List.nil_prefix
          simp [ups, downs] at hone
      · have hpush : ∀ dir : Path, (dir ++ (above ++ [last])).push ".." = dir ++ above := by
          intro dir
          rw [Path.push, ← List.append_assoc, List.dropLast_concat]
        simp only [List.concat_eq_append, hpush, hcount, ih, List.length_append,
          List.length_singleton]
        simp only [ups, List.count_nil, Nat.zero_le, true_and]
        refine forall_congr' fun before ↦ imp_congr_right fun _ ↦ ?_
        omega
    · have hne : component ≠ "" ∧ component ≠ "." := not_or.mp hstay
      have hpush : ∀ dir : Path, (dir ++ below).push component = dir ++ (below ++ [component]) := by
        intro dir
        rw [Path.push_eq _ hne.1 hne.2 hup, List.append_assoc]
      have hcount : ∀ before, ups (component :: before) = ups before ∧
          downs (component :: before) = downs before + 1 := by
        simp [ups, downs, hne.1, hne.2, hup]
      simp only [hpush, hcount, ih, List.length_append, List.length_singleton]
      simp only [ups, List.count_nil, Nat.zero_le, true_and]
      refine forall_congr' fun before ↦ imp_congr_right fun _ ↦ ?_
      omega

/-- A directory is not left when no part of the way climbs more often than it descends. -/
theorem inside_iff {components : List String} :
    Inside components ↔ ∀ before, before <+: components → ups before ≤ downs before := by
  simpa [Inside] using @inside_below_iff components []

/-- A way that does not climb. -/
theorem inside_of_not_mem {components : List String} (h : ".." ∉ components) :
    Inside components := by
  rw [inside_iff]
  intro before hbefore
  have hzero : ups before = 0 := List.count_eq_zero.mpr fun hmem ↦ h (hbefore.mem hmem)
  omega

end Data
