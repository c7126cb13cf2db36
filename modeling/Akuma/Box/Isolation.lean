import Akuma.Syscall.Mmap
import Akuma.Lib.RustStr

/-!
# Boxes

The container layer: the box registry and its access policy
(`box_mod/hierarchy.rs`, `box_mod/access.rs`), the process table fields that
say which box a process belongs to and how it ends, and the syscalls that
act on boxes and processes across them (`sys_register_box`, `sys_kill_box`,
`sys_kill`, `sys_spawn_ext`).

The registry is a `BTreeMap` keyed by box id: a list with at most one entry
per id, `insert` replacing an entry of the same id. The walks up the parent
chain run on fuel, one step per registry entry and one more; a registry the
syscalls build has no cycles (`sys_register_box` records no parent), so the
fuel is never what stops them.

Which box a caller may act on is `can_access_box`; isolation asks that what
a box shows (`boxView`) never changes by the syscalls of a process in a box
that may not access it.
-/

namespace Akuma.Box

open Akuma.Syscall

/-! ## The registry and its policy -/

/-- `BoxInfo`. -/
structure BoxInfo where
  id : Nat
  name : String
  rootDir : String
  creatorPid : Nat
  primaryPid : Nat
  parentBoxId : Option Nat
  deriving DecidableEq, Repr

/-- `registry.get(&id)`. -/
def registryGet (registry : List BoxInfo) (id : Nat) : Option BoxInfo :=
  registry.find? (·.id = id)

/-- `register_box`: `BOX_REGISTRY.insert(info.id, info)`. -/
def registerBox (registry : List BoxInfo) (info : BoxInfo) : List BoxInfo :=
  info :: registry.filter (·.id ≠ info.id)

/-- `unregister_box`. -/
def unregisterBox (registry : List BoxInfo) (id : Nat) : List BoxInfo :=
  registry.filter (·.id ≠ id)

/-- `get_ancestry_chain`: `[box_id, parent, grandparent, .., 0]`, stopping
at a box the registry does not hold. -/
def getAncestryChain (registry : List BoxInfo) (boxId : Nat) : List Nat :=
  go (registry.length + 1) boxId
where
  go : Nat → Nat → List Nat
    | 0, current => [current]
    | fuel + 1, current =>
      if current = 0 then [current]
      else match registryGet registry current with
        | some info => match info.parentBoxId with
          | some parent => current :: go fuel parent
          | none => [current, 0]
        | none => [current]

/-- `is_ancestor`. -/
def isAncestor (registry : List BoxInfo) (boxId ancestorId : Nat) : Bool :=
  if boxId = ancestorId then false else (getAncestryChain registry boxId).contains ancestorId

/-- `can_access_box`: the host, the box itself, an ancestor, or the process
that created the target box. -/
def canAccessBox (registry : List BoxInfo) (sourceBoxId targetBoxId sourcePid : Nat) : Bool :=
  if sourceBoxId = 0 then true
  else if sourceBoxId = targetBoxId then true
  else if isAncestor registry targetBoxId sourceBoxId then true
  else match registryGet registry targetBoxId with
    | some target => target.creatorPid = sourcePid
    | none => false

/-! ## Processes -/

/-- The fields of a process that boxes and signals read and write. -/
structure Proc where
  pid : Nat
  tgid : Nat
  parentPid : Nat
  boxId : Nat
  threadId : Option Nat
  exited : Bool
  exitCode : Int
  pendingSignals : List Nat
  deriving DecidableEq, Repr

/-- The process table, the box registry and the box mount namespaces (box
id and root directory, as `create_box_namespace` records them). -/
structure World where
  registry : List BoxInfo
  procs : List Proc
  namespaces : List (Nat × String)

namespace World

variable (w : World)

/-- `lookup_process`. -/
def lookup (pid : Nat) : Option Proc := w.procs.find? (·.pid = pid)

/-- Apply `f` to the process `pid`. -/
def modify (pid : Nat) (f : Proc → Proc) : World :=
  { w with procs := w.procs.map fun p => if p.pid = pid then f p else p }

/-- `table::unregister_process`. -/
def unregister (pid : Nat) : World :=
  { w with procs := w.procs.filter (·.pid ≠ pid) }

/-- `kill_process_with_signal`: the process becomes a zombie with exit code
`-sig` and no thread. -/
def killProcessWithSignal (pid sig : Nat) : Option World :=
  (w.lookup pid).map fun _ =>
    w.modify pid fun p => { p with exited := true, exitCode := -(sig : Int), threadId := none }

/-- `kill_thread_group`: every other thread of the group of `pid` is
unregistered. -/
def killThreadGroup (pid : Nat) : World :=
  let tgid := (w.lookup pid).map (·.tgid) |>.getD pid
  { w with procs := w.procs.filter fun p => p.pid = pid ∨ p.tgid ≠ tgid }

/-- `kill_process`: children first, then the process is marked exited with
code `-9`. The recursion runs on fuel, one level per process. -/
def killProcess : Nat → World → Nat → Option World
  | 0, _, _ => none
  | fuel + 1, w, pid =>
    let children := (w.procs.filter fun p => p.parentPid = pid ∧ p.pid ≠ pid).map (·.pid)
    let w := children.foldl (fun w c => (killProcess fuel w c).getD w) w
    (w.lookup pid).map fun _ => w.modify pid fun p => { p with exited := true, exitCode := -9 }

/-- `kill_box`: every process of the box is killed, then the box leaves the
registry. The host box cannot be killed. -/
def killBox (boxId : Nat) : Option World :=
  if boxId = 0 then none
  else
    let pids := (w.procs.filter (·.boxId = boxId)).map (·.pid)
    let w := pids.foldl (fun w pid => (killProcess (w.procs.length + 1) w pid).getD w) w
    some { w with registry := unregisterBox w.registry boxId }

/-- `pend_signal_for_thread` on every thread of the group of `p`. -/
def pendGroup (p : Proc) (sig : Nat) : World :=
  { w with procs := w.procs.map fun q =>
      if q.tgid = p.tgid ∧ q.threadId.isSome then { q with pendingSignals := q.pendingSignals ++ [sig] }
      else q }

end World

/-! ## Syscalls -/

/-- `EPERM`. -/
def eperm : Nat := negErrno 1

/-- `sys_kill`. The caller does not appear: the target is looked up in the
global process table whatever box the caller is in. -/
def sysKill (w : World) (pid sig : Nat) : Nat × World :=
  if pid = 0 then (0, w)
  else if pid ≤ 1 then (eperm, w)
  else if sig = 0 then (if (w.lookup pid).isSome then 0 else esrch, w)
  else match w.lookup pid with
    | some p =>
      if sig = 9 then
        let w := w.killThreadGroup pid
        (0, (w.killProcessWithSignal pid 9).getD w)
      else (0, w.pendGroup p sig)
    | none =>
      match w.killProcessWithSignal pid sig with
      | some w => (0, w)
      | none => (esrch, w)

/-- `sys_kill_box`: the namespace goes, then `kill_box`. -/
def sysKillBox (w : World) (boxId : Nat) : Nat × World :=
  let w := { w with namespaces := w.namespaces.filter (·.1 ≠ boxId) }
  match w.killBox boxId with
  | some w => (0, w)
  | none => (esrch, w)

/-- `create_box_namespace`: a box that has a namespace keeps it; otherwise
it gets one rooted at `root`. -/
def createBoxNamespace (namespaces : List (Nat × String)) (id : Nat) (root : String) :
    List (Nat × String) :=
  if namespaces.any (·.1 = id) then namespaces else (id, root) :: namespaces

/-- `sys_register_box` with the bytes the caller's buffers hold (`none`
when a buffer fails `validate_user_ptr` or its copy faults). A name or root
that is not UTF-8 becomes `"unknown"` or `"/"`. The caller's box is not
consulted. -/
def sysRegisterBox (w : World) (callerPid id : Nat) (name root : Option (List Nat))
    (primaryPid : Nat) : Nat × World :=
  match name, root with
  | some name, some root =>
    let name := ((RustStr.utf8Decode name).map String.ofList).getD "unknown"
    let root := ((RustStr.utf8Decode root).map String.ofList).getD "/"
    let info : BoxInfo := ⟨id, name, root, callerPid, primaryPid, none⟩
    (0, { w with registry := registerBox w.registry info,
                 namespaces := createBoxNamespace w.namespaces id root })
  | _, _ => (negErrno 14, w)

/-- `sys_spawn_ext`, when the executable loads: a new process `newPid`, child
of the caller, in the box the caller's options name. -/
def sysSpawnExt (w : World) (callerPid newPid optionsBoxId : Nat) : World :=
  { w with procs := w.procs ++ [⟨newPid, newPid, callerPid, optionsBoxId, some newPid, false, 0, []⟩] }

/-! ## Isolation -/

/-- What a box shows: its registry entry, its namespace root, and its
processes with their exit status and pending signals. -/
structure BoxView where
  entry : Option BoxInfo
  root : Option String
  procs : List (Nat × Bool × Int × List Nat)
  deriving DecidableEq

/-- The view of box `b` in `w`. -/
def boxView (w : World) (b : Nat) : BoxView :=
  ⟨registryGet w.registry b, (w.namespaces.find? (·.1 = b)).map (·.2),
    (w.procs.filter (·.boxId = b)).map fun p => (p.pid, p.exited, p.exitCode, p.pendingSignals)⟩

/-- A `SIGKILL` from box 1 reaches a process of box 2, which box 1 may not
access: the box was created by another process and is not a descendant. -/
theorem sysKill_crosses_boxes :
    canAccessBox [⟨1, "a", "/a", 5, 10, none⟩, ⟨2, "b", "/b", 6, 20, none⟩] 1 2 10 = false ∧
      boxView (sysKill ⟨[⟨1, "a", "/a", 5, 10, none⟩, ⟨2, "b", "/b", 6, 20, none⟩],
          [⟨10, 10, 5, 1, some 3, false, 0, []⟩, ⟨20, 20, 6, 2, some 4, false, 0, []⟩],
          [(1, "/a"), (2, "/b")]⟩ 20 9).2 2 ≠
        boxView ⟨[⟨1, "a", "/a", 5, 10, none⟩, ⟨2, "b", "/b", 6, 20, none⟩],
          [⟨10, 10, 5, 1, some 3, false, 0, []⟩, ⟨20, 20, 6, 2, some 4, false, 0, []⟩],
          [(1, "/a"), (2, "/b")]⟩ 2 := by
  decide

end Akuma.Box
