import Railyard.Server.Routes

/-!
# Receiving an archive

`receiveArchive` takes a body frame by frame, with a count, a hasher and a file that grow together.
The count is tested at every frame, emptiness and the hash at the end only, and still all that
matters is what the body amounts to: the bytes of its data frames and how it ends.

* `arrivedBytes`, `transportError`: what a body amounts to.
* `receiveFrames_run`: the loop, from any point of the body on.
* `receiveArchive_run`: the result of the whole, as a function of what the body amounts to
  (`receipt`).
* `receiveArchive_exact`: when an archive is received, what is stored then, and that the splitting
  into frames makes no difference.
-/

set_option autoImplicit false

namespace Railyard

open Effects Prog

/-! ## What a body amounts to -/

/-- The bytes of the data frames, up to a transport error. -/
def arrivedBytes : List Frame → Bytes
  | [] => []
  | .data bytes :: rest => bytes ++ arrivedBytes rest
  | .trailers :: rest => arrivedBytes rest
  | .error _ :: _ => []

/-- The transport error a body ends in. -/
def transportError : List Frame → Option Error
  | [] => none
  | .data _ :: rest => transportError rest
  | .trailers :: rest => transportError rest
  | .error e :: _ => some e

theorem bodyBytes_eq (frames : List Frame) :
    bodyBytes frames =
      if transportError frames = none then some (arrivedBytes frames) else none := by
  induction frames with
  | nil => rfl
  | cons frame rest ih =>
    cases frame with
    | data bytes =>
      rw [bodyBytes, ih, transportError, arrivedBytes]
      split <;> rfl
    | trailers => exact ih
    | error e => rfl

theorem bodyBytes_eq_some_iff {frames : List Frame} {bs : Bytes} :
    bodyBytes frames = some bs ↔ transportError frames = none ∧ arrivedBytes frames = bs := by
  rw [bodyBytes_eq, Option.ite_none_right_eq_some, Option.some_inj]

/-! ## The loop -/

def archiveTooLarge : Error :=
  "archive exceeds the " ++ toString maxArchiveBytes ++ " byte limit"

/-- What the loop ends with, of which this many bytes have come and which has fed these to the
hasher, when the rest of the body amounts to `bytes` and ends in `broken`. -/
def framesOutcome (received : ℕ) (hashed bytes : Bytes) (broken : Option Error) :
    Except Error (ℕ × Bytes) :=
  if maxArchiveBytes < received + bytes.length then .error archiveTooLarge
  else match broken with
    | some e => .error e
    | none => .ok (received + bytes.length, hashed ++ bytes)

/-- Nothing fails that is not the caller's doing. -/
def Reliable (w : ℕ → Outside) : Prop := ∀ n, (w n).fault = none

theorem Reliable.shift {w : ℕ → Outside} (h : Reliable w) (k : ℕ) : Reliable fun n ↦ w (n + k) :=
  fun n ↦ h (n + k)

theorem perform_fs_ok {o : Outside} (h : o.fault = none) (f : FsOp) (s : Server) :
    perform o (.fs f) s = f.exec s := by
  simp only [perform, h]

/-- A step on the file system that succeeds is followed by what comes after it. -/
theorem fs_bind_run {α : Type} {f : FsOp} (k : Unit → Action α) {w : ℕ → Outside} {s : Server}
    (hw : Reliable w) (hok : (f.exec s).1 = .ok ()) :
    (fs f >>= k).run.run perform w s
      = (k ()).run.run perform (fun n ↦ w (n + 1)) (f.exec s).2 := by
  have hrun : (fs f >>= k).run = .op (.fs f) fun r ↦ ExceptT.bindCont k r := rfl
  rw [hrun, run_op, perform_fs_ok (hw 0), hok]
  rfl

/-- **The loop**, from any point of the body on, with as many bytes received as it may have. -/
theorem receiveFrames_run (path : String) (frames : List Frame) {received : ℕ} (hashed : Bytes)
    (hle : received ≤ maxArchiveBytes) {w : ℕ → Outside} (hw : Reliable w) {s : Server}
    {written : Bytes} (hfile : s.files path = some written) :
    ((receiveFrames path frames received hashed).run.run perform w s).1
        = framesOutcome received hashed (arrivedBytes frames) (transportError frames) ∧
      (∀ r, framesOutcome received hashed (arrivedBytes frames) (transportError frames) = .ok r →
        ((receiveFrames path frames received hashed).run.run perform w s).2.files path
          = some (written ++ arrivedBytes frames)) := by
  induction frames generalizing received hashed w s written with
  | nil =>
    have houtcome : framesOutcome received hashed [] none = .ok (received, hashed) := by
      rw [framesOutcome, if_neg (by simpa using hle), List.append_nil]
      rfl
    refine ⟨houtcome.symm, fun _ _ ↦ ?_⟩
    rw [arrivedBytes, List.append_nil]
    exact hfile
  | cons frame rest ih =>
    cases frame with
    | trailers => exact ih hashed hle hw hfile
    | error e =>
      have houtcome : framesOutcome received hashed [] (some e) = .error e :=
        if_neg (by simpa using hle)
      refine ⟨houtcome.symm, fun r hr ↦ ?_⟩
      rw [arrivedBytes, transportError, houtcome] at hr
      cases hr
    | data data =>
      rw [receiveFrames, arrivedBytes, transportError]
      dsimp only
      by_cases hlarge : maxArchiveBytes < received + data.length
      · have houtcome : framesOutcome received hashed (data ++ arrivedBytes rest)
            (transportError rest) = .error archiveTooLarge :=
          if_pos (by rw [List.length_append]; omega)
        rw [if_pos hlarge, houtcome]
        exact ⟨rfl, fun r hr ↦ by cases hr⟩
      · have houtcome : framesOutcome received hashed (data ++ arrivedBytes rest)
            (transportError rest) = framesOutcome (received + data.length) (hashed ++ data)
              (arrivedBytes rest) (transportError rest) := by
          unfold framesOutcome
          rw [List.length_append, Nat.add_assoc, List.append_assoc]
        have hwritten :
            ((FsOp.writeAll path data).exec s).2.files path = some (written ++ data) := by
          simp [FsOp.exec, hfile]
        rw [if_neg hlarge, houtcome]
        have hrun := fs_bind_run (f := .writeAll path data)
          (fun _ ↦ receiveFrames path rest (received + data.length) (hashed ++ data)) hw
          (s := s) rfl
        have hrest := ih (hashed ++ data) (Nat.le_of_not_lt hlarge) (hw.shift 1) hwritten
        rw [List.append_assoc] at hrest
        exact hrun ▸ hrest

/-! ## The whole -/

variable (crates : Crates)

/-- What receiving a body comes to that amounts to `bytes` and ends in `broken`. -/
def receipt (signedHash : Option String) (bytes : Bytes) (broken : Option Error) :
    Except Error Unit :=
  if maxArchiveBytes < bytes.length then .error archiveTooLarge
  else match broken with
    | some e => .error e
    | none =>
      if bytes.length = 0 then .error "request body must be a gzipped tarball of the project source"
      else if signedHash.any fun expected ↦ crates.sha256Hex bytes ≠ expected then
        .error "body does not match the signed content hash"
      else .ok ()

theorem receipt_eq_ok_iff {signedHash : Option String} {bytes : Bytes} {broken : Option Error} :
    receipt crates signedHash bytes broken = .ok () ↔
      broken = none ∧ bytes ≠ [] ∧ bytes.length ≤ maxArchiveBytes ∧
        ∀ expected ∈ signedHash, crates.sha256Hex bytes = expected := by
  unfold receipt
  by_cases hlarge : maxArchiveBytes < bytes.length
  · rw [if_pos hlarge]
    exact iff_of_false (by simp) fun h ↦ Nat.not_le.mpr hlarge h.2.2.1
  rw [if_neg hlarge]
  cases broken with
  | some e => exact iff_of_false (by simp) fun h ↦ Option.some_ne_none e h.1
  | none =>
    dsimp only
    by_cases hempty : bytes.length = 0
    · rw [if_pos hempty]
      exact iff_of_false (by simp) fun h ↦ h.2.1 (List.length_eq_zero_iff.mp hempty)
    have hne : bytes ≠ [] := fun h ↦ hempty (List.length_eq_zero_iff.mpr h)
    rw [if_neg hempty]
    cases signedHash with
    | none => simp [hne, Nat.le_of_not_lt hlarge]
    | some expected => simp [hne, Nat.le_of_not_lt hlarge]

/-- The loop fails the whole, or all that is left is to check what has come. -/
theorem framesOutcome_cases (signedHash : Option String) (bytes : Bytes) (broken : Option Error) :
    (∃ e, framesOutcome 0 [] bytes broken = .error e ∧
        receipt crates signedHash bytes broken = .error e) ∨
      broken = none ∧ bytes.length ≤ maxArchiveBytes ∧
        framesOutcome 0 [] bytes broken = .ok (bytes.length, bytes) := by
  unfold framesOutcome receipt
  rw [Nat.zero_add, List.nil_append]
  by_cases hlarge : maxArchiveBytes < bytes.length
  · rw [if_pos hlarge, if_pos hlarge]
    exact .inl ⟨_, rfl, rfl⟩
  rw [if_neg hlarge, if_neg hlarge]
  cases broken with
  | some e => exact .inl ⟨e, rfl, rfl⟩
  | none => exact .inr ⟨rfl, Nat.le_of_not_lt hlarge, rfl⟩

/-- What is left to do once all frames have come. -/
def checkReceived (path : String) (signedHash : Option String) : ℕ × Bytes → Action Unit :=
  fun (received, hashed) ↦ do
    fs (.flush path)
    if received = 0 then
      throw "request body must be a gzipped tarball of the project source"
    if let some expected := signedHash then
      if crates.sha256Hex hashed ≠ expected then
        throw "body does not match the signed content hash"

theorem receiveBody_eq (path : String) (body : List Frame) (signedHash : Option String) :
    receiveBody crates path body signedHash
      = receiveFrames path body 0 [] >>= checkReceived crates path signedHash := rfl

theorem checkReceived_run (path : String) (signedHash : Option String) (bytes : Bytes)
    (hle : bytes.length ≤ maxArchiveBytes) {w : ℕ → Outside} (hw : Reliable w) (s : Server) :
    (checkReceived crates path signedHash (bytes.length, bytes)).run.run perform w s
      = (receipt crates signedHash bytes none, s) := by
  refine (fs_bind_run _ hw rfl).trans ?_
  unfold receipt
  rw [if_neg (Nat.not_lt.mpr hle)]
  dsimp only
  by_cases hempty : bytes.length = 0
  · rw [if_pos hempty, if_pos hempty]
    rfl
  rw [if_neg hempty, if_neg hempty]
  cases signedHash with
  | none => rfl
  | some expected =>
    by_cases hhash : crates.sha256Hex bytes = expected
    · have hany : ¬ (some expected).any (fun expected ↦ crates.sha256Hex bytes ≠ expected) := by
        simpa using hhash
      rw [if_neg hany]
      dsimp only
      rw [if_neg (not_not.mpr hhash)]
      rfl
    · have hany : (some expected).any fun expected ↦ crates.sha256Hex bytes ≠ expected := by
        simpa using hhash
      rw [if_pos hany]
      dsimp only
      rw [if_pos hhash]
      rfl

/-- What `receiveBody` comes to, once the file at its path is there and empty. -/
theorem receiveBody_run (path : String) (body : List Frame) (signedHash : Option String)
    {w : ℕ → Outside} (hw : Reliable w) {s : Server} (hfile : s.files path = some []) :
    ((receiveBody crates path body signedHash).run.run perform w s).1
        = receipt crates signedHash (arrivedBytes body) (transportError body) ∧
      (receipt crates signedHash (arrivedBytes body) (transportError body) = .ok () →
        ((receiveBody crates path body signedHash).run.run perform w s).2.files path
          = some (arrivedBytes body)) := by
  obtain ⟨hresult, hwritten⟩ := receiveFrames_run path body [] (Nat.zero_le _) hw hfile
  have hrun := run_bind perform (receiveFrames path body 0 []).run
    (ExceptT.bindCont (checkReceived crates path signedHash)) w s
  rw [hresult] at hrun
  rw [receiveBody_eq, show (receiveFrames path body 0 [] >>=
    checkReceived crates path signedHash).run.run perform w s = _ from hrun]
  rcases framesOutcome_cases crates signedHash (arrivedBytes body) (transportError body) with
    ⟨e, houtcome, hreceipt⟩ | ⟨hnone, hle, houtcome⟩
  · rw [houtcome, hreceipt]
    exact ⟨rfl, fun h ↦ by cases h⟩
  · have hfiles := hwritten _ houtcome
    rw [List.nil_append] at hfiles
    have hcheck := checkReceived_run crates path signedHash (arrivedBytes body) hle
      (hw.shift ((receiveFrames path body 0 []).run.steps perform w s))
      ((receiveFrames path body 0 []).run.run perform w s).2
    rw [houtcome, hnone]
    exact ⟨congrArg Prod.fst hcheck,
      fun _ ↦ (congrArg (fun r ↦ r.2.files path) hcheck).trans hfiles⟩

theorem receiveArchive_run (dir : String) (body : List Frame) (signedHash : Option String)
    {w : ℕ → Outside} (hw : Reliable w) (s : Server) :
    ((receiveArchive crates dir body signedHash).run.run perform w s).1
        = receipt crates signedHash (arrivedBytes body) (transportError body) ∧
      (receipt crates signedHash (arrivedBytes body) (transportError body) = .ok () →
        ((receiveArchive crates dir body signedHash).run.run perform w s).2.files
          (joinPath dir "archive.tar.gz") = some (arrivedBytes body)) := by
  have hdir := fs_bind_run (f := .createDirAll dir) (fun _ ↦ do
    fs (.createFile (joinPath dir "archive.tar.gz"))
    receiveBody crates (joinPath dir "archive.tar.gz") body signedHash) hw (s := s) rfl
  have hcreated := fs_bind_run (f := .createFile (joinPath dir "archive.tar.gz")) (fun _ ↦
    receiveBody crates (joinPath dir "archive.tar.gz") body signedHash) (hw.shift 1) (s := s) rfl
  rw [show (receiveArchive crates dir body signedHash).run.run perform w s = _ from
    hdir.trans hcreated]
  refine receiveBody_run crates _ body signedHash (hw.shift 2) ?_
  simp [FsOp.exec]

/-- **Archive receipt is exact and independent of chunking**, file writes succeeding.  An archive is
received exactly if no transport error occurs, the bytes of the data frames are some and at most
`maxArchiveBytes`, and they hash to what was signed, if anything was.  Then the file holds exactly
these bytes.  And bodies that amount to the same, with the same hash signed, have the same
result. -/
theorem receiveArchive_exact (dir : String) (body : List Frame) (signedHash : Option String)
    {w : ℕ → Outside} (hw : Reliable w) (s : Server) :
    (((receiveArchive crates dir body signedHash).run.run perform w s).1 = .ok () ↔
        ∃ bs, bodyBytes body = some bs ∧ bs ≠ [] ∧ bs.length ≤ maxArchiveBytes ∧
          ∀ expected ∈ signedHash, Encoding.hexEncode (crates.sha256 bs) = expected) ∧
      (((receiveArchive crates dir body signedHash).run.run perform w s).1 = .ok () →
        ((receiveArchive crates dir body signedHash).run.run perform w s).2.files
          (joinPath dir "archive.tar.gz") = bodyBytes body) ∧
      ∀ body' w' s', Reliable w' → arrivedBytes body' = arrivedBytes body →
        transportError body' = transportError body →
          ((receiveArchive crates dir body' signedHash).run.run perform w' s').1
            = ((receiveArchive crates dir body signedHash).run.run perform w s).1 := by
  obtain ⟨hresult, hfile⟩ := receiveArchive_run crates dir body signedHash hw s
  rw [hresult, receipt_eq_ok_iff]
  refine ⟨?_, fun h ↦ ?_, fun body' w' s' hw' hbytes hbroken ↦ ?_⟩
  · constructor
    · rintro ⟨hnone, hne, hle, hhash⟩
      exact ⟨_, bodyBytes_eq_some_iff.mpr ⟨hnone, rfl⟩, hne, hle, hhash⟩
    · rintro ⟨bs, hbody, hne, hle, hhash⟩
      obtain ⟨hnone, rfl⟩ := bodyBytes_eq_some_iff.mp hbody
      exact ⟨hnone, hne, hle, hhash⟩
  · rw [hfile ((receipt_eq_ok_iff crates).mpr h), bodyBytes_eq, if_pos h.1]
  · rw [(receiveArchive_run crates dir body' signedHash hw' s').1, hbytes, hbroken]

/-- A body in two pieces. -/
def splitBody : List Frame := [.data [31], .trailers, .data [], .data [139]]

theorem receiveArchive_exact_split :
    ((receiveArchive .sample "rel" splitBody (some (Encoding.hexEncode zeroTokenDigest))).run.run
        perform (fun _ ↦ {}) .fresh).1 = .ok () ∧
      ((receiveArchive .sample "rel" splitBody (some (Encoding.hexEncode zeroTokenDigest))).run.run
        perform (fun _ ↦ {}) .fresh).2.files "rel/archive.tar.gz" = some [31, 139] ∧
      ∀ s, ((receiveArchive .sample "rel" [.data [31, 139]]
        (some (Encoding.hexEncode zeroTokenDigest))).run.run perform (fun _ ↦ {}) s).1
          = .ok () := by
  have hw : Reliable fun _ ↦ {} := fun _ ↦ rfl
  obtain ⟨hiff, hfile, hsame⟩ := receiveArchive_exact .sample "rel" splitBody
    (some (Encoding.hexEncode zeroTokenDigest)) hw .fresh
  have hok := hiff.mpr ⟨[31, 139], rfl, by decide, by decide, by simp [Crates.sample]⟩
  exact ⟨hok, hfile hok, fun s ↦ (hsame [.data [31, 139]] _ s hw rfl rfl).trans hok⟩

end Railyard
