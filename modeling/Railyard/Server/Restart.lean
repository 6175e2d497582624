import Railyard.Effects.Restart
import Railyard.Server.Calls

/-!
# The server's process ends, and another one starts

`ApiService` opens the database, whose schema creates only the tables that are missing, and starts
with an empty replay map.  So a restart keeps the tables and forgets the nonces.  The files are
still there, each up to what had been written of it.

How a process ends, and what becomes of the calls that it was serving, is the same for any program
(`Effects.Restart`).  Here it is only said what the next one of this server finds.

* `Server.boot` is what a process starts from, with one lemma for each part of the state.
* `Daemon` is the server over all its processes.
-/

set_option autoImplicit false

namespace Railyard

open Effects

/-- What a process starts from, where of the file at `path` only `written path` bytes had left the
process before. -/
def Server.boot (written : String → ℕ) (s : Server) : Server :=
  { s with
    seenNonces := fun _ ↦ none
    files := fun path ↦ (s.files path).map (List.take (written path)) }

/-- The tables are on disk, and stay. -/
@[simp] theorem Server.boot_users (written : String → ℕ) (s : Server) :
    (s.boot written).users = s.users := rfl

@[simp] theorem Server.boot_invites (written : String → ℕ) (s : Server) :
    (s.boot written).invites = s.invites := rfl

@[simp] theorem Server.boot_projects (written : String → ℕ) (s : Server) :
    (s.boot written).projects = s.projects := rfl

@[simp] theorem Server.boot_releases (written : String → ℕ) (s : Server) :
    (s.boot written).releases = s.releases := rfl

/-- The replay map is in memory, and is lost. -/
@[simp] theorem Server.boot_seenNonces (written : String → ℕ) (s : Server) :
    (s.boot written).seenNonces = fun _ ↦ none := rfl

/-- The daemon: the server's state, and the calls of every process so far. -/
abbrev Daemon := Host Server Call Op Op.Reply Outcome

end Railyard
