import Mathlib.Data.List.Induction
import Railyard.Client.Store
import Railyard.Effects.Serial

/-!
# Bindings changed by several processes

Every change of `client/config.json` reads the whole file and then, unless there is nothing to
change, writes the whole file back.  Between the two another process may have written it.

* `recordProjectBinding`, `removeProjectBinding`, `rebindProjects`: the two steps of each change;
* `BindingCall.update`: what it does to the bindings as a whole;
* `bindings_serial`: as long as nothing is written that would not be written on the file as it has
  become, the bindings are those of a sequential order of the calls.
-/

set_option autoImplicit false

namespace Client

open Effects Effects.Prog

/-- The `projects` of the file. -/
abbrev Bindings := Std.ExtTreeMap String String

/-! ## Reading and writing the file -/

inductive ConfigOp
  | read
  | write (projects : Bindings)

/-- A file that cannot be read has no bindings to give; one that is missing has none in it. -/
abbrev ConfigOp.Reply : ConfigOp → Type
  | .read => Option Bindings
  | .write _ => Unit

abbrev ConfigTask := Prog ConfigOp ConfigOp.Reply

/-- One step on the file. -/
def performConfig (_ : Unit) : (q : ConfigOp) → Option Bindings → q.Reply × Option Bindings
  | .read, file => (file, file)
  | .write projects, _ => ((), some projects)

def readGlobalConfig : ExceptT Error ConfigTask Bindings :=
  ExceptT.mk (.op .read fun file ↦ .ret (file.elim (.error Store.invalidConfig) .ok))

def writeGlobalConfig (projects : Bindings) : ExceptT Error ConfigTask Unit :=
  ExceptT.mk (.op (.write projects) fun _ ↦ .ret (.ok ()))

def recordProjectBinding (projectId serverName : String) : ExceptT Error ConfigTask Unit := do
  let projects ← readGlobalConfig
  writeGlobalConfig (projects.insert projectId serverName)

/-- Forget which server a project deploys through; returns the server name the binding pointed at,
if there was one. -/
def removeProjectBinding (projectId : String) : ExceptT Error ConfigTask (Option String) := do
  let projects ← readGlobalConfig
  let removed := projects[projectId]?
  if removed.isSome then
    writeGlobalConfig (projects.erase projectId)
  return removed

/-- The number of projects bound to a server. -/
def boundTo (name : String) (projects : Bindings) : ℕ :=
  (projects.toList.filter fun entry ↦ entry.2 = name).length

/-- Point every project bound to server `source` at `target`; returns how many moved. -/
def rebindProjects (source target : String) : ExceptT Error ConfigTask ℕ := do
  let projects ← readGlobalConfig
  let moved := boundTo source projects
  if 0 < moved then
    writeGlobalConfig (projects.map fun _ server ↦ if server = source then target else server)
  return moved

/-- The end of a change: write if there is something to write. -/
theorem writeIf_run {A B : Type} (f : Except Error A → B) (p : Prop) [Decidable p]
    (projects : Bindings) (a : A) :
    f <$> (do if p then writeGlobalConfig projects
              return a : ExceptT Error ConfigTask A).run =
      if decide p = true then .op (.write projects) fun _ ↦ .ret (f (.ok a))
      else .ret (f (.ok a)) := by
  by_cases hp : p
  · rw [if_pos (decide_eq_true hp)]
    simp only [if_pos hp]
    rfl
  · rw [if_neg (show ¬ decide p = true by simpa using hp)]
    simp only [if_neg hp]
    rfl

/-! ## Calls -/

/-- A call of one process. -/
inductive BindingCall
  | record (projectId serverName : String)
  | remove (projectId : String)
  | rebind (source target : String)
deriving DecidableEq

/-- What a call returns. -/
inductive BindingOutcome
  | record (r : Except Error Unit)
  | remove (r : Except Error (Option String))
  | rebind (r : Except Error ℕ)

namespace BindingCall

/-- The program of a call. -/
def prog : BindingCall → ConfigTask BindingOutcome
  | record projectId serverName =>
    BindingOutcome.record <$> (recordProjectBinding projectId serverName).run
  | remove projectId => BindingOutcome.remove <$> (removeProjectBinding projectId).run
  | rebind source target => BindingOutcome.rebind <$> (rebindProjects source target).run

/-- What a call makes of the bindings. -/
def update : BindingCall → Bindings → Bindings
  | record projectId serverName, projects => projects.insert projectId serverName
  | remove projectId, projects => projects.erase projectId
  | rebind source target, projects =>
    projects.map fun _ server ↦ if server = source then target else server

/-- Whether it writes at all. -/
def writes : BindingCall → Bindings → Bool
  | record .., _ => true
  | remove projectId, projects => projects[projectId]?.isSome
  | rebind source _, projects => 0 < boundTo source projects

/-- What it returns for bindings it has read. -/
def answer : BindingCall → Bindings → BindingOutcome
  | record .., _ => .record (.ok ())
  | remove projectId, projects => .remove (.ok projects[projectId]?)
  | rebind source _, projects => .rebind (.ok (boundTo source projects))

/-- What it returns when it cannot read them. -/
def refusal : BindingCall → BindingOutcome
  | record .. => .record (.error Store.invalidConfig)
  | remove _ => .remove (.error Store.invalidConfig)
  | rebind .. => .rebind (.error Store.invalidConfig)

/-- A call reads, and then writes or has nothing to write. -/
theorem prog_eq (call : BindingCall) : call.prog = .op .read fun file ↦
    file.elim (.ret call.refusal) fun projects ↦
      if call.writes projects then
        .op (.write (call.update projects)) fun _ ↦ .ret (call.answer projects)
      else .ret (call.answer projects) := by
  cases call with
  | record projectId serverName =>
    refine op_congr fun file ↦ ?_
    cases file <;> rfl
  | remove projectId =>
    refine op_congr fun file ↦ ?_
    cases file with
    | none => rfl
    | some projects =>
      refine (writeIf_run BindingOutcome.remove (projects[projectId]?.isSome = true)
        (projects.erase projectId) projects[projectId]?).trans ?_
      rw [Bool.decide_eq_true]
      rfl
  | rebind source target =>
    refine op_congr fun file ↦ ?_
    cases file with
    | none => rfl
    | some projects =>
      exact writeIf_run BindingOutcome.rebind (0 < boundTo source projects)
        (update (rebind source target) projects) (boundTo source projects)

/-- A call that has nothing to write would change nothing. -/
theorem update_of_not_writes {call : BindingCall} {projects : Bindings}
    (h : ¬ call.writes projects = true) : call.update projects = projects := by
  cases call with
  | record projectId serverName => exact absurd rfl h
  | remove projectId =>
    refine Std.ExtTreeMap.ext_getElem? fun other ↦ ?_
    rw [update, Std.ExtTreeMap.getElem?_erase]
    split
    · rename_i hsame
      have hnone : projects[projectId]? = none := by simpa [writes] using h
      rw [← Std.LawfulEqCmp.eq_of_compare hsame, hnone]
    · rfl
  | rebind source target =>
    refine Std.ExtTreeMap.ext_getElem? fun other ↦ ?_
    rw [update, Std.ExtTreeMap.getElem?_map]
    cases hget : projects[other]? with
    | none => rfl
    | some server =>
      have hne : server ≠ source := by
        intro heq
        have hmem : (other, server) ∈ projects.toList.filter fun entry ↦ entry.2 = source :=
          List.mem_filter.mpr ⟨Std.ExtTreeMap.mem_toList_iff_getElem?_eq_some.mpr hget,
            decide_eq_true heq⟩
        exact h (decide_eq_true (List.length_pos_of_mem hmem))
      rw [Option.map_some, if_neg hne]

theorem prog_ended (call : BindingCall) : call.prog.ended = none := by
  rw [prog_eq]
  rfl

/-- A call alone does what it does as a whole. -/
theorem prog_run (call : BindingCall) (w : ℕ → Unit) (file : Option Bindings) :
    (call.prog.run performConfig w file).2 = file.map call.update := by
  rw [prog_eq, run_op]
  cases file with
  | none => rfl
  | some projects =>
    show (run performConfig (if call.writes projects = true then _ else _) _ _).2 = _
    split
    · rfl
    · rename_i h
      rw [Option.map_some, update_of_not_writes h]
      rfl

/-- Where a call stands: before it reads, before it writes what it made of what it read, or at its
end. -/
theorem code_cases {call : BindingCall} {τ : List (Event ConfigOp ConfigOp.Reply)}
    {code : ConfigTask BindingOutcome} (h : After call.prog τ code) :
    code = call.prog ∨
      (∃ projects, τ = [⟨.read, some projects⟩] ∧ code = .op (.write (call.update projects))
        fun _ ↦ .ret (call.answer projects)) ∨
      code.ended.isSome := by
  rw [prog_eq] at h ⊢
  obtain ⟨-, hcode⟩ | ⟨file, τ₁, rfl, h₁⟩ := after_op.mp h
  · exact .inl hcode
  refine .inr ?_
  cases file with
  | none =>
    obtain ⟨-, rfl⟩ := after_ret.mp h₁
    exact .inr rfl
  | some projects =>
    rw [Option.elim_some] at h₁
    split at h₁
    · obtain ⟨rfl, hcode⟩ | ⟨_, τ₂, -, h₂⟩ := after_op.mp h₁
      · exact .inl ⟨projects, rfl, hcode⟩
      · obtain ⟨-, rfl⟩ := after_ret.mp h₂
        exact .inr rfl
    · obtain ⟨-, rfl⟩ := after_ret.mp h₁
      exact .inr rfl

end BindingCall

/-! ## Any number of processes -/

/-- The calls made so far, and the file. -/
abbrev BindingPool := Conf (Option Bindings) BindingCall ConfigOp ConfigOp.Reply BindingOutcome

/-- What a call is about to write. -/
def pendingWrite : ConfigTask BindingOutcome → Option Bindings
  | .op (.write projects) _ => some projects
  | _ => none

/-- If the step writes, then what its call would make of the file as it is now. -/
def UpToDate (c : BindingPool) : Act Unit BindingCall → Prop
  | .spawn _ => True
  | .step i _ => ∀ t ∈ c.threads[i]?, ∀ projects ∈ pendingWrite t.code,
    c.shared.map t.call.update = some projects

instance : (c : BindingPool) → DecidablePred (UpToDate c)
  | _, .spawn _ => .isTrue trivial
  | c, .step i _ => inferInstanceAs (Decidable (∀ t ∈ c.threads[i]?, _))

variable {adm : BindingPool → Act Unit BindingCall → Prop} {file : Option Bindings}
  {c : BindingPool}

/-- A write on the file as it was read. -/
theorem upToDate_of_unchanged (h : Reaches performConfig BindingCall.prog adm ⟨file, []⟩ c) {i : ℕ}
    (hread : ∀ t ∈ c.threads[i]?, ∀ seen, ⟨.read, seen⟩ ∈ t.trace → c.shared = seen) (o : Unit) :
    UpToDate c (.step i o) := by
  intro t ht projects hprojects
  rcases BindingCall.code_cases (h.after t (List.mem_of_getElem? ht)) with
    hcode | ⟨seen, htrace, hcode⟩ | hended
  · rw [hcode, BindingCall.prog_eq] at hprojects
    cases hprojects
  · rw [hcode] at hprojects
    rw [hread t ht (some seen) (by rw [htrace]; exact List.mem_singleton_self _), Option.map_some]
    exact hprojects
  · cases hcode : t.code with
    | ret a =>
      rw [hcode] at hprojects
      cases hprojects
    | op q k =>
      rw [hcode] at hended
      cases hended

/-- A step that does not write anything stale is at once. -/
theorem UpToDate.atOnce {a : Act Unit BindingCall}
    (h : Reaches performConfig BindingCall.prog adm ⟨file, []⟩ c) (ha : UpToDate c a) :
    c.AtOnce performConfig (fun call file ↦ file.map call.update) a := by
  cases a with
  | spawn call => exact trivial
  | step i o =>
    intro t ht q k hk
    rcases BindingCall.code_cases (h.after t (List.mem_of_getElem? ht)) with
      hcode | ⟨seen, -, hcode⟩ | hended
    · rw [hk, BindingCall.prog_eq] at hcode
      obtain ⟨rfl, hread⟩ := op.inj hcode
      rw [eq_of_heq hread]
      cases hshared : c.shared with
      | none => rfl
      | some projects =>
        show some projects = if (Prog.ended (if t.call.writes projects = true then _ else _)).isSome
          = true then some (t.call.update projects) else some projects
        by_cases hwrites : t.call.writes projects = true
        · rw [if_pos hwrites]
          rfl
        · rw [if_neg hwrites, BindingCall.update_of_not_writes hwrites, ite_self]
    · have hwrite := ha t ht (t.call.update seen) (by rw [hcode]; rfl)
      rw [hk] at hcode
      obtain ⟨rfl, hend⟩ := op.inj hcode
      rw [eq_of_heq hend]
      exact hwrite.symm
    · rw [hk] at hended
      cases hended

theorem foldl_isSome (order : List BindingCall) (file : Option Bindings) :
    (order.foldl (fun file call ↦ file.map call.update) file).isSome = file.isSome := by
  induction order generalizing file with
  | nil => rfl
  | cons call order ih => rw [List.foldl_cons, ih, Option.isSome_map]

/-- Projects that are recorded and touched by nothing else are bound in the end. -/
theorem foldl_records (file : Option Bindings) {order : List BindingCall}
    (hrecords : ∀ call ∈ order, ∃ projectId name, call = .record projectId name)
    (hsame : ∀ projectId name name', .record projectId name ∈ order →
      .record projectId name' ∈ order → name = name')
    (hfile : file.isSome) {projectId name : String} (hmem : .record projectId name ∈ order) :
    (order.foldl (fun file call ↦ file.map call.update) file).bind (·[projectId]?)
      = some name := by
  induction order using List.reverseRecOn with
  | nil => cases hmem
  | append_singleton order call ih =>
    obtain ⟨other, name', rfl⟩ := hrecords call (by simp)
    obtain ⟨projects, hprojects⟩ := Option.isSome_iff_exists.mp
      ((foldl_isSome order file).trans hfile)
    rw [List.foldl_append, hprojects]
    show (projects.insert other name')[projectId]? = some name
    rw [Std.ExtTreeMap.getElem?_insert]
    by_cases hother : other = projectId
    · rw [if_pos (Std.LawfulEqCmp.compare_eq_iff_eq.mpr hother)]
      exact congrArg some (hsame projectId name' name (by simp [hother]) hmem)
    · rw [if_neg (hother ∘ Std.LawfulEqCmp.eq_of_compare)]
      have hmem' : .record projectId name ∈ order := by
        rcases List.mem_append.mp hmem with hmem | hlast
        · exact hmem
        · obtain ⟨rfl, -⟩ := BindingCall.record.inj (List.mem_singleton.mp hlast)
          exact absurd rfl hother
      have hbound := ih (fun call hcall ↦ hrecords call (List.mem_append_left _ hcall))
        (fun p n n' hn hn' ↦ hsame p n n' (List.mem_append_left _ hn) (List.mem_append_left _ hn'))
        hmem'
      rwa [hprojects] at hbound

/-- **Sequential orders of binding changes.**  Take any number of processes that record, remove and
rebind, with their steps in any order.  As long as none writes what it would not write on the file
as it is by then, the bindings are at all times those of the calls that have returned, run one after
the other in some order; and if these are records of different projects, all of them are bound. -/
theorem bindings_serial
    (h : Reaches performConfig BindingCall.prog UpToDate ⟨file, []⟩ c) :
    (∃ order : List BindingCall, order.Perm c.returned ∧
      c.shared = order.foldl
        (fun file call ↦ (call.prog.run performConfig (fun _ ↦ ()) file).2) file) ∧
    (file.isSome → (∀ call ∈ c.returned, ∃ projectId name, call = .record projectId name) →
      (∀ projectId name name', .record projectId name ∈ c.returned →
        .record projectId name' ∈ c.returned → name = name') →
      ∀ projectId name, .record projectId name ∈ c.returned →
        c.shared.bind (·[projectId]?) = some name) := by
  obtain ⟨order, hperm, hshared⟩ := h.serial BindingCall.prog_ended fun c₁ a hr ha ↦ ha.atOnce hr
  refine ⟨⟨order, hperm, ?_⟩, fun hfile hrecords hsame projectId name hmem ↦ ?_⟩
  · simp only [BindingCall.prog_run, hshared]
  · rw [hshared]
    refine foldl_records file (fun call hcall ↦ hrecords call (hperm.mem_iff.mp hcall))
      (fun p n n' hn hn' ↦ hsame p n n' (hperm.mem_iff.mp hn) (hperm.mem_iff.mp hn')) hfile
      (hperm.mem_iff.mpr hmem)

/-! ### One process at a time

The stores that a login works on take each change as one step.  It is the change of a call that
runs alone. -/

/-- The bindings as the file's map. -/
def bindingsOf (projects : Std.TreeMap String String) : Bindings :=
  Std.ExtTreeMap.ofList projects.toList compare

theorem getElem?_bindingsOf (projects : Std.TreeMap String String) (projectId : String) :
    (bindingsOf projects)[projectId]? = projects[projectId]? := by
  cases hget : projects[projectId]? with
  | some name =>
    exact Std.ExtTreeMap.getElem?_ofList_of_mem Std.ReflCmp.compare_self
      Std.TreeMap.distinct_keys_toList (Std.TreeMap.mem_toList_iff_getElem?_eq_some.mpr hget)
  | none =>
    refine Std.ExtTreeMap.getElem?_ofList_of_contains_eq_false ?_
    rw [Std.TreeMap.map_fst_toList_eq_keys, List.contains_eq_mem, decide_eq_false_iff_not,
      Std.TreeMap.mem_keys, Std.TreeMap.mem_iff_isSome_getElem?, hget]
    exact Bool.false_ne_true

theorem recordProjectBinding_alone (store : Store) (projectId name : String) :
    (store.recordProjectBinding projectId name).2.config.map bindingsOf =
      ((BindingCall.record projectId name).prog.run performConfig (fun _ ↦ ())
        (store.config.map bindingsOf)).2 := by
  rw [BindingCall.prog_run, Store.recordProjectBinding]
  cases hconfig : store.config with
  | none =>
    show Option.map bindingsOf store.config = none
    rw [hconfig]
    rfl
  | some projects =>
    refine congrArg some (Std.ExtTreeMap.ext_getElem? fun other ↦ ?_)
    rw [getElem?_bindingsOf, BindingCall.update, Std.ExtTreeMap.getElem?_insert,
      Std.TreeMap.getElem?_insert, getElem?_bindingsOf]

theorem rebindProjects_alone (store : Store) (source target : String) :
    (store.rebindProjects source target).2.config.map bindingsOf =
      ((BindingCall.rebind source target).prog.run performConfig (fun _ ↦ ())
        (store.config.map bindingsOf)).2 := by
  rw [BindingCall.prog_run, Store.rebindProjects]
  cases hconfig : store.config with
  | none =>
    show Option.map bindingsOf store.config = none
    rw [hconfig]
    rfl
  | some projects =>
    refine congrArg some (Std.ExtTreeMap.ext_getElem? fun other ↦ ?_)
    rw [getElem?_bindingsOf, BindingCall.update, Std.ExtTreeMap.getElem?_map,
      Std.TreeMap.getElem?_map, getElem?_bindingsOf]

/-! ### Two processes -/

theorem eq_host_of_mem {projectId name : String}
    (h : .record projectId name ∈
      [BindingCall.record "prj_1" "host", .record "prj_2" "host"]) : name = "host" := by
  rcases List.mem_pair.mp h with h | h <;> exact (BindingCall.record.inj h).2

/-- Two records, the second after the first. -/
def recordsInTurn : List (Act Unit BindingCall) :=
  [.spawn (.record "prj_1" "host"), .spawn (.record "prj_2" "host"), .step 0 (), .step 0 (),
    .step 1 (), .step 1 ()]

theorem bindings_serial_recordsInTurn :
    ∃ c, (⟨some ∅, []⟩ : BindingPool).run? performConfig BindingCall.prog recordsInTurn = some c ∧
      c.returned = [.record "prj_1" "host", .record "prj_2" "host"] ∧
      c.shared.bind (·["prj_1"]?) = some "host" ∧ c.shared.bind (·["prj_2"]?) = some "host" := by
  have hadm : (⟨some ∅, []⟩ : BindingPool).Admits performConfig BindingCall.prog UpToDate
      recordsInTurn := by
    decide +kernel
  have hreturned : ((⟨some ∅, []⟩ : BindingPool).run? performConfig BindingCall.prog
      recordsInTurn).map Conf.returned =
        some [.record "prj_1" "host", .record "prj_2" "host"] := by
    decide +kernel
  obtain ⟨c, hrun, hreturned⟩ := Option.map_eq_some_iff.mp hreturned
  obtain ⟨-, hbound⟩ := bindings_serial (Reaches.of_run? recordsInTurn hrun hadm)
  rw [hreturned] at hbound
  have hall := hbound rfl (by simp) fun p n n' hn hn' ↦
    (eq_host_of_mem hn).trans (eq_host_of_mem hn').symm
  exact ⟨c, hrun, hreturned, hall _ _ (by simp), hall _ _ (by simp)⟩

/-- Both read before either writes. -/
def crossedRecords : List (Act Unit BindingCall) :=
  [.spawn (.record "prj_1" "host"), .spawn (.record "prj_2" "host"), .step 0 (), .step 1 (),
    .step 0 (), .step 1 ()]

/-- Both return, the first project is not bound, and no sequential order comes to this. -/
theorem crossedRecords_lost :
    ∃ c, (⟨some ∅, []⟩ : BindingPool).run? performConfig BindingCall.prog crossedRecords = some c ∧
      c.returned = [.record "prj_1" "host", .record "prj_2" "host"] ∧
      c.shared.bind (·["prj_1"]?) = none ∧
      ∀ order : List BindingCall, order.Perm c.returned → c.shared ≠ order.foldl
        (fun file call ↦ (call.prog.run performConfig (fun _ ↦ ()) file).2) (some ∅) := by
  have hend : ((⟨some ∅, []⟩ : BindingPool).run? performConfig BindingCall.prog
      crossedRecords).map (fun c ↦ (c.returned, c.shared.bind (·["prj_1"]?))) =
        some ([.record "prj_1" "host", .record "prj_2" "host"], none) := by
    decide +kernel
  obtain ⟨c, hrun, hend⟩ := Option.map_eq_some_iff.mp hend
  obtain ⟨hreturned, hlost⟩ := Prod.mk.inj hend
  refine ⟨c, hrun, hreturned, hlost, fun order hperm hserial ↦ ?_⟩
  rw [hreturned] at hperm
  simp only [BindingCall.prog_run] at hserial
  have hrecords : ∀ call ∈ order, ∃ projectId name, call = .record projectId name := by
    intro call hcall
    rcases List.mem_pair.mp (hperm.mem_iff.mp hcall) with rfl | rfl
    · exact ⟨_, _, rfl⟩
    · exact ⟨_, _, rfl⟩
  have hbound := foldl_records (some ∅) hrecords (fun p n n' hn hn' ↦
    (eq_host_of_mem (hperm.mem_iff.mp hn)).trans (eq_host_of_mem (hperm.mem_iff.mp hn')).symm) rfl
    (hperm.mem_iff.mpr (List.mem_cons_self ..))
  rw [← hserial, hlost] at hbound
  cases hbound

end Client
