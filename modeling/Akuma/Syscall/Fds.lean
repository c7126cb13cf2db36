import Akuma.Lib.OrdMap
import Akuma.Syscall.Futex
import Akuma.Net.Socket

/-!
# File descriptors and the objects they count

The per-process descriptor tables of `process/fd.rs` (`SharedFdTable`: the
fd map, the close-on-exec set and the non-blocking set), the global pipe
table of `syscall/pipe.rs` and the eventfd table of `syscall/eventfd.rs`,
with the calls that create, duplicate and close descriptors: `pipe2`,
`eventfd2`, `dup`, `dup3`, `fcntl`, `close`, `close_range`, and the
descriptor side of fork, a successful exec and exit (`clone_deep_for_fork`,
`close_cloexec_fds`, `close_all`).

A pipe counts its write and read ends and an eventfd its references; each
is destroyed when its counts reach zero. Every call bumps and drops the
counts in its own match over the descriptor kinds. Of a pipe and an eventfd
the model keeps these counts only, and of the descriptors the kinds that
carry them, and sockets, whose closing empties their slot of the socket
table (`Akuma.Net.Socket`); every other kind (files, child channels, pidfds,
devices) is `other`, on which nothing here changes. Each process has a table
of its own (no `CLONE_FILES` sharing), and the calls return their `u64`
result. Counts never come near a wrap and are `Nat`.
-/

namespace Akuma.Syscall

/-! ## Constants -/

/-- `EBADF`. -/
def ebadf : Nat := negErrno 9
/-- `open_flags::O_CLOEXEC`. -/
def oCloexec : Nat := 0x80000
/-- `O_NONBLOCK`. -/
def oNonblock : Nat := 0x800
/-- `EFD_CLOEXEC`. -/
def efdCloexec : Nat := 0x80000
/-- `EFD_NONBLOCK`. -/
def efdNonblock : Nat := 0x800
/-- `FD_CLOEXEC`. -/
def fdCloexec : Nat := 1
/-- `F_DUPFD`. -/
def fDupfd : Nat := 0
/-- `F_GETFD`. -/
def fGetfd : Nat := 1
/-- `F_SETFD`. -/
def fSetfd : Nat := 2
/-- `F_GETFL`. -/
def fGetfl : Nat := 3
/-- `F_SETFL`. -/
def fSetfl : Nat := 4
/-- `F_GETLK`. -/
def fGetlk : Nat := 5
/-- `F_SETLK`. -/
def fSetlk : Nat := 6
/-- `F_SETLKW`. -/
def fSetlkw : Nat := 7
/-- `F_DUPFD_CLOEXEC`. -/
def fDupfdCloexec : Nat := 1030
/-- `CLOSE_RANGE_CLOEXEC`. -/
def closeRangeCloexec : Nat := 4

/-! ## State -/

/-- The kinds of `FileDescriptor` that matter to the counts; `other` stands
for every kind whose kernel object is not modelled. -/
inductive FileDescriptor
  | stdin
  | stdout
  | stderr
  | socket (idx : Nat)
  | pipeWrite (id : Nat)
  | pipeRead (id : Nat)
  | unixSocket (rx tx : Nat)
  | eventFd (id : Nat)
  | epollFd (id : Nat)
  | other
  deriving DecidableEq, Repr

/-- `matches!(fd, FileDescriptor::EpollFd(_))`. -/
def FileDescriptor.isEpollFd : FileDescriptor → Bool
  | .epollFd _ => true
  | _ => false

/-- A process's descriptor table. -/
structure SharedFdTable where
  table : OrdMap Nat FileDescriptor
  cloexec : OrdMap Nat Unit
  nonblock : OrdMap Nat Unit

/-- A pipe's end counts; its buffer and pollers are not modelled. -/
structure KernelPipe where
  writeCount : Nat
  readCount : Nat
  deriving DecidableEq, Repr

/-- The descriptor tables of the processes, by process slot, and the global
tables of the objects they refer to. An eventfd is its `ref_count`; its
counter, flags and pollers are not modelled. -/
structure FdKernel where
  tables : List SharedFdTable
  pipes : Nat → Option KernelPipe
  nextPipeId : Nat
  eventfds : Nat → Option Nat
  nextEventfdId : Nat
  sockets : Net.SocketTable

/-! ## One table -/

namespace SharedFdTable

/-- `SharedFdTable::new`. -/
def new : SharedFdTable := ⟨.empty, .empty, .empty⟩

/-- `SharedFdTable::with_stdio`. -/
def withStdio : SharedFdTable :=
  { new with table := ((OrdMap.empty.insert 0 .stdin).insert 1 .stdout).insert 2 .stderr }

/-- The loop of `lowest_available_fd`: walk the ascending keys from `fd` on
and stop at the first one that is not the next number. -/
def firstGap : List Nat → Nat → Nat
  | [], fd => fd
  | key :: keys, fd => if key ≠ fd then fd else firstGap keys (fd + 1)

/-- `lowest_available_fd`: the lowest fd number `≥ minFd` not in the table. -/
def lowestAvailableFd (table : OrdMap Nat FileDescriptor) (minFd : Nat) : Nat :=
  firstGap (table.keys.filter (minFd ≤ ·)) minFd

/-- `alloc_fd_from`. -/
def allocFdFrom (t : SharedFdTable) (minFd : Nat) (entry : FileDescriptor) :
    SharedFdTable × Nat :=
  let fd := lowestAvailableFd t.table minFd
  ({ t with table := t.table.insert fd entry }, fd)

/-- `alloc_fd`. -/
def allocFd (t : SharedFdTable) (entry : FileDescriptor) : SharedFdTable × Nat :=
  t.allocFdFrom 0 entry

/-- `get_fd`. -/
def getFd (t : SharedFdTable) (fd : Nat) : Option FileDescriptor := t.table.get? fd

/-- `remove_fd`: the table without `fd`, and the entry it had. -/
def removeFd (t : SharedFdTable) (fd : Nat) : SharedFdTable × Option FileDescriptor :=
  ({ t with table := t.table.erase fd }, t.table.get? fd)

/-- `swap_fd`: the table with `fd` set to `entry`, and the entry it replaced. -/
def swapFd (t : SharedFdTable) (fd : Nat) (entry : FileDescriptor) :
    SharedFdTable × Option FileDescriptor :=
  ({ t with table := t.table.insert fd entry }, t.table.get? fd)

/-- `set_cloexec`. -/
def setCloexec (t : SharedFdTable) (fd : Nat) : SharedFdTable :=
  { t with cloexec := t.cloexec.insert fd () }

/-- `clear_cloexec`. -/
def clearCloexec (t : SharedFdTable) (fd : Nat) : SharedFdTable :=
  { t with cloexec := t.cloexec.erase fd }

/-- `is_cloexec`. -/
def isCloexec (t : SharedFdTable) (fd : Nat) : Bool := (t.cloexec.get? fd).isSome

/-- `set_nonblock`. -/
def setNonblock (t : SharedFdTable) (fd : Nat) : SharedFdTable :=
  { t with nonblock := t.nonblock.insert fd () }

/-- `clear_nonblock`. -/
def clearNonblock (t : SharedFdTable) (fd : Nat) : SharedFdTable :=
  { t with nonblock := t.nonblock.erase fd }

/-- `is_nonblock`. -/
def isNonblock (t : SharedFdTable) (fd : Nat) : Bool := (t.nonblock.get? fd).isSome

/-- One descriptor of `close_cloexec_fds`: `table.remove(fd)`, keeping what
it removed. -/
def takeEntry (acc : OrdMap Nat FileDescriptor × List (Nat × FileDescriptor)) (fd : Nat) :
    OrdMap Nat FileDescriptor × List (Nat × FileDescriptor) :=
  match acc.1.get? fd with
  | some entry => (acc.1.erase fd, acc.2 ++ [(fd, entry)])
  | none => acc

/-- `close_cloexec_fds`: take every close-on-exec descriptor out of the table
and empty the set; the entries taken are returned for cleanup. -/
def closeCloexecFds (t : SharedFdTable) : SharedFdTable × List (Nat × FileDescriptor) :=
  let (table, closed) := t.cloexec.keys.foldl takeEntry (t.table, [])
  ({ t with table, cloexec := .empty }, closed)

end SharedFdTable

/-! ## The object tables -/

namespace FdKernel

/-- Write back process `p`'s table. -/
def setTable (K : FdKernel) (p : Nat) (t : SharedFdTable) : FdKernel :=
  { K with tables := K.tables.set p t }

/-- `pipe_create`. -/
def pipeCreate (K : FdKernel) : FdKernel × Nat :=
  let id := K.nextPipeId
  ({ K with pipes := Function.update K.pipes id (some ⟨1, 1⟩), nextPipeId := id + 1 }, id)

/-- `pipe_clone_ref`. -/
def pipeCloneRef (K : FdKernel) (id : Nat) (isWrite : Bool) : FdKernel :=
  match K.pipes id with
  | some pipe =>
    let pipe := if isWrite then { pipe with writeCount := pipe.writeCount + 1 }
      else { pipe with readCount := pipe.readCount + 1 }
    { K with pipes := Function.update K.pipes id (some pipe) }
  | none => K

/-- `pipe_close_write`: a saturating decrement; the pipe goes when both counts
are zero. -/
def pipeCloseWrite (K : FdKernel) (id : Nat) : FdKernel :=
  match K.pipes id with
  | some pipe =>
    let writeCount := pipe.writeCount - 1
    let entry := if writeCount = 0 ∧ pipe.readCount = 0 then none
      else some { pipe with writeCount := writeCount }
    { K with pipes := Function.update K.pipes id entry }
  | none => K

/-- `pipe_close_read`. -/
def pipeCloseRead (K : FdKernel) (id : Nat) : FdKernel :=
  match K.pipes id with
  | some pipe =>
    let readCount := pipe.readCount - 1
    let entry := if pipe.writeCount = 0 ∧ readCount = 0 then none
      else some { pipe with readCount := readCount }
    { K with pipes := Function.update K.pipes id entry }
  | none => K

/-- `eventfd_create`. -/
def eventfdCreate (K : FdKernel) : FdKernel × Nat :=
  let id := K.nextEventfdId
  ({ K with eventfds := Function.update K.eventfds id (some 1), nextEventfdId := id + 1 }, id)

/-- `eventfd_clone_ref`. -/
def eventfdCloneRef (K : FdKernel) (id : Nat) : FdKernel :=
  match K.eventfds id with
  | some refCount => { K with eventfds := Function.update K.eventfds id (some (refCount + 1)) }
  | none => K

/-- `eventfd_close`: a saturating decrement; the eventfd goes at zero. -/
def eventfdClose (K : FdKernel) (id : Nat) : FdKernel :=
  match K.eventfds id with
  | some refCount =>
    let refCount := refCount - 1
    let entry := if refCount = 0 then none else some refCount
    { K with eventfds := Function.update K.eventfds id entry }
  | none => K

/-- What closing a descriptor drops: the match that `sys_close`,
`sys_close_range`, `sys_dup3` (on the replaced entry), `execve` and
`close_all` each write out. They differ only on kinds whose objects are not
modelled (epoll and pid fds, child channels); every one of them hands a
socket's slot to `remove_socket`. -/
def closeEntry (K : FdKernel) : FileDescriptor → FdKernel
  | .socket idx => { K with sockets := K.sockets.removeSocket idx }
  | .pipeWrite id => K.pipeCloseWrite id
  | .pipeRead id => K.pipeCloseRead id
  | .unixSocket rx tx => (K.pipeCloseRead rx).pipeCloseWrite tx
  | .eventFd id => K.eventfdClose id
  | _ => K

/-- The bumps made for a duplicated descriptor. Every duplicating path
matches the two pipe ends; `bumpsUnix` and `bumpsEventFd` say whether it also
matches `UnixSocket` and `EventFd`. -/
def cloneRef (bumpsUnix bumpsEventFd : Bool) (K : FdKernel) : FileDescriptor → FdKernel
  | .pipeWrite id => K.pipeCloneRef id true
  | .pipeRead id => K.pipeCloneRef id false
  | .unixSocket rx tx => if bumpsUnix then (K.pipeCloneRef rx false).pipeCloneRef tx true else K
  | .eventFd id => if bumpsEventFd then K.eventfdCloneRef id else K
  | _ => K

/-- The bumps of `sys_dup` and `sys_dup3`: pipe ends and Unix sockets. -/
def dupCloneRef (K : FdKernel) (entry : FileDescriptor) : FdKernel := cloneRef true false K entry

/-- The bumps of `fcntl(F_DUPFD)`: pipe ends only. -/
def fcntlDupCloneRef (K : FdKernel) (entry : FileDescriptor) : FdKernel :=
  cloneRef false false K entry

/-- The bumps of `clone_deep_for_fork`: pipe ends, Unix sockets and eventfds. -/
def forkCloneRef (K : FdKernel) (entry : FileDescriptor) : FdKernel := cloneRef true true K entry

/-- `clone_deep_for_fork`: the child's table is the parent's without its
epoll descriptors, and every copied entry is bumped. -/
def cloneDeepForFork (K : FdKernel) (t : SharedFdTable) : FdKernel × SharedFdTable :=
  let cloned := t.table.filterVals (fun e => !e.isEpollFd)
  (cloned.values.foldl forkCloneRef K, { t with table := cloned })

/-- `close_all`: clear the table and drop what every entry held. -/
def closeAll (K : FdKernel) (t : SharedFdTable) : FdKernel × SharedFdTable :=
  (t.table.values.foldl closeEntry K, { t with table := .empty })

end FdKernel

/-! ## The calls -/

open SharedFdTable FdKernel

/-- `sys_pipe2`, with a valid result pointer. -/
def sysPipe2 (K : FdKernel) (p flags : Nat) : FdKernel × Nat :=
  match K.tables[p]? with
  | none => (K, enosys)
  | some t =>
    let (K, pipeId) := K.pipeCreate
    let (t, fdR) := t.allocFd (.pipeRead pipeId)
    let (t, fdW) := t.allocFd (.pipeWrite pipeId)
    let t := if flags &&& oCloexec ≠ 0 then (t.setCloexec fdR).setCloexec fdW else t
    (K.setTable p t, 0)

/-- `sys_eventfd2`; the initial counter value is not modelled. -/
def sysEventfd2 (K : FdKernel) (p flags : Nat) : FdKernel × Nat :=
  match K.tables[p]? with
  | none => (K, enosys)
  | some t =>
    let (K, efdId) := K.eventfdCreate
    let (t, fd) := t.allocFd (.eventFd efdId)
    let t := if flags &&& efdCloexec ≠ 0 then t.setCloexec fd else t
    let t := if flags &&& efdNonblock ≠ 0 then t.setNonblock fd else t
    (K.setTable p t, fd)

/-- `sys_dup`. -/
def sysDup (K : FdKernel) (p oldfd : Nat) : FdKernel × Nat :=
  match K.tables[p]? with
  | none => (K, enosys)
  | some t =>
    match t.getFd oldfd with
    | none => (K, ebadf)
    | some entry =>
      let K := K.dupCloneRef entry
      let (t, newfd) := t.allocFd entry
      ((K.setTable p (t.clearCloexec newfd)), newfd)

/-- `sys_dup3`: the new entry is bumped before it replaces `newfd`, and the
replaced entry is closed after. -/
def sysDup3 (K : FdKernel) (p oldfd newfd flags : Nat) : FdKernel × Nat :=
  if oldfd = newfd then (K, einval) else
  match K.tables[p]? with
  | none => (K, enosys)
  | some t =>
    match t.getFd oldfd with
    | none => (K, ebadf)
    | some entry =>
      let K := K.dupCloneRef entry
      let (t, oldEntry) := t.swapFd newfd entry
      let t := if flags &&& oCloexec ≠ 0 then t.setCloexec newfd else t.clearCloexec newfd
      let K := match oldEntry with
        | some old => K.closeEntry old
        | none => K
      (K.setTable p t, newfd)

/-- `sys_fcntl`; the record-lock commands are no-ops. -/
def sysFcntl (K : FdKernel) (p fd cmd arg : Nat) : FdKernel × Nat :=
  match K.tables[p]? with
  | none => (K, ebadf)
  | some t =>
    match t.getFd fd with
    | none => (K, ebadf)
    | some entry =>
      if cmd = fDupfd ∨ cmd = fDupfdCloexec then
        let K := K.fcntlDupCloneRef entry
        -- `arg as u32`
        let (t, newFd) := t.allocFdFrom (arg % 2 ^ 32) entry
        let t := if cmd = fDupfdCloexec then t.setCloexec newFd else t
        (K.setTable p t, newFd)
      else if cmd = fGetfd then (K, if t.isCloexec fd then fdCloexec else 0)
      else if cmd = fSetfd then
        (K.setTable p (if arg &&& fdCloexec ≠ 0 then t.setCloexec fd else t.clearCloexec fd), 0)
      else if cmd = fGetfl then (K, if t.isNonblock fd then oNonblock else 0)
      else if cmd = fSetfl then
        (K.setTable p (if arg &&& oNonblock ≠ 0 then t.setNonblock fd else t.clearNonblock fd), 0)
      else if cmd = fGetlk ∨ cmd = fSetlk ∨ cmd = fSetlkw then (K, 0)
      else (K, einval)

/-- `sys_close`. -/
def sysClose (K : FdKernel) (p fd : Nat) : FdKernel × Nat :=
  match K.tables[p]? with
  | none => (K, esrch)
  | some t =>
    match t.removeFd fd with
    | (_, none) => (K, ebadf)
    | (t, some entry) =>
      ((K.closeEntry entry).setTable p ((t.clearCloexec fd).clearNonblock fd), 0)

/-- One descriptor of `sys_close_range`'s loop. -/
def closeRangeStep (flags : Nat) (acc : FdKernel × SharedFdTable) (fd : Nat) :
    FdKernel × SharedFdTable :=
  if flags &&& closeRangeCloexec ≠ 0 then (acc.1, acc.2.setCloexec fd)
  else
    match acc.2.removeFd fd with
    | (_, none) => acc
    | (t, some entry) => (acc.1.closeEntry entry, (t.clearCloexec fd).clearNonblock fd)

/-- `sys_close_range`. The descriptors are the keys of
`table.range(first..=last)`, and that range panics when `first > last`: the
kernel stops, which is `none`. -/
def sysCloseRange (K : FdKernel) (p first last flags : Nat) : Option (FdKernel × Nat) :=
  match K.tables[p]? with
  | none => some (K, ebadf)
  | some t =>
    if last < first then none
    else
      let fds := t.table.keys.filter (fun fd => first ≤ fd ∧ fd ≤ last)
      let (K, t) := fds.foldl (closeRangeStep flags) (K, t)
      some (K.setTable p t, 0)

/-- The descriptor side of `fork`: the child's deep copy of the table goes
into a new process slot, whose index is returned. -/
def forkFds (K : FdKernel) (p : Nat) : FdKernel × Nat :=
  match K.tables[p]? with
  | none => (K, esrch)
  | some t =>
    let (K, child) := K.cloneDeepForFork t
    ({ K with tables := K.tables ++ [child] }, K.tables.length)

/-- The descriptor side of a successful `execve`: the close-on-exec
descriptors are taken out, then closed. -/
def execveCloseFds (K : FdKernel) (p : Nat) : FdKernel × Nat :=
  match K.tables[p]? with
  | none => (K, esrch)
  | some t =>
    let (t, closedFds) := t.closeCloexecFds
    ((closedFds.foldl (fun K fd => K.closeEntry fd.2) K).setTable p t, 0)

/-- The descriptor side of exit: `close_all` on the process's table. -/
def exitCloseAll (K : FdKernel) (p : Nat) : FdKernel × Nat :=
  match K.tables[p]? with
  | none => (K, esrch)
  | some t =>
    let (K, t) := K.closeAll t
    (K.setTable p t, 0)

/-! ## Runs -/

/-- A call made by the process in slot `p`. -/
inductive FdCall
  | pipe2 (p flags : Nat)
  | eventfd2 (p flags : Nat)
  | dup (p oldfd : Nat)
  | dup3 (p oldfd newfd flags : Nat)
  | fcntl (p fd cmd arg : Nat)
  | close (p fd : Nat)
  | closeRange (p first last flags : Nat)
  | fork (p : Nat)
  | execve (p : Nat)
  | exit (p : Nat)

/-- One call; `none` when the kernel panics. -/
def FdCall.apply (K : FdKernel) : FdCall → Option (FdKernel × Nat)
  | .pipe2 p flags => some (sysPipe2 K p flags)
  | .eventfd2 p flags => some (sysEventfd2 K p flags)
  | .dup p oldfd => some (sysDup K p oldfd)
  | .dup3 p oldfd newfd flags => some (sysDup3 K p oldfd newfd flags)
  | .fcntl p fd cmd arg => some (sysFcntl K p fd cmd arg)
  | .close p fd => some (sysClose K p fd)
  | .closeRange p first last flags => sysCloseRange K p first last flags
  | .fork p => some (forkFds K p)
  | .execve p => some (execveCloseFds K p)
  | .exit p => some (exitCloseAll K p)

/-- A run of calls: the final kernel and every call's result. -/
def runFds (K : FdKernel) : List FdCall → Option (FdKernel × List Nat)
  | [] => some (K, [])
  | c :: cs =>
    match c.apply K with
    | none => none
    | some (K', r) => (runFds K' cs).map fun (K'', rs) => (K'', r :: rs)

/-- `n` processes with their standard streams and no pipe or eventfd; ids
start at 1, as `NEXT_PIPE_ID` and `NEXT_EVENTFD_ID` do. -/
def FdKernel.boot (n : Nat) : FdKernel :=
  ⟨List.replicate n .withStdio, fun _ => none, 1, fun _ => none, 1, .boot⟩

/-- An eventfd duplicated by `dup` and then closed is destroyed while the
duplicate still refers to it: `dup` bumps pipe ends and Unix sockets but not
eventfds, so the one close drops the only reference the count recorded. -/
theorem eventfd_destroyed_while_dup_open :
    (let r := runFds (FdKernel.boot 1) [.eventfd2 0 0, .dup 0 3, .close 0 3]
     r.map (·.2) = some [3, 4, 0] ∧
     (r.bind fun K => K.1.tables[0]?.bind (·.getFd 4)) = some (.eventFd 1) ∧
     (r.map fun K => K.1.eventfds 1) = some none) := by
  decide +kernel


/-! ## Counting references

The claim the counts make: a live pipe's write count is the number of
entries, over all tables, that hold its write end (`PipeWrite(id)` or
`UnixSocket { tx: id }`), its read count the number that hold its read end,
and it is gone exactly when both numbers are zero. -/

namespace FileDescriptor

/-- The write ends of pipe `id` that a descriptor holds. -/
def writeRefs (id : Nat) : FileDescriptor → Nat
  | .pipeWrite i => if i = id then 1 else 0
  | .unixSocket _ tx => if tx = id then 1 else 0
  | _ => 0

/-- The read ends of pipe `id` that a descriptor holds. -/
def readRefs (id : Nat) : FileDescriptor → Nat
  | .pipeRead i => if i = id then 1 else 0
  | .unixSocket rx _ => if rx = id then 1 else 0
  | _ => 0

/-- Whether a descriptor is a Unix socket, as a count. -/
def unixRefs : FileDescriptor → Nat
  | .unixSocket _ _ => 1
  | _ => 0

end FileDescriptor

namespace FdKernel

/-- The sum of `f` over every entry of every table. -/
def refs (K : FdKernel) (f : FileDescriptor → Nat) : Nat :=
  (K.tables.map fun t => t.table.sumBy f).sum

/-- The entries holding the write end of pipe `id`. -/
def writers (K : FdKernel) (id : Nat) : Nat := K.refs (FileDescriptor.writeRefs id)

/-- The entries holding the read end of pipe `id`. -/
def readers (K : FdKernel) (id : Nat) : Nat := K.refs (FileDescriptor.readRefs id)

end FdKernel

/-- The pipe that `w` writers and `r` readers keep: none once both are zero. -/
def pipeOf (w r : Nat) : Option KernelPipe := if w = 0 ∧ r = 0 then none else some ⟨w, r⟩

/-- The pipe table is the one the counts `W` and `R` describe. -/
def PipesAgree (K : FdKernel) (W R : Nat → Nat) : Prop := ∀ j, K.pipes j = pipeOf (W j) (R j)

/-- The reference-count invariant of the pipes. Unix sockets are only made by
`socketpair`, which no modelled call is; `noUnix` records that there are
none, which `fcntl(F_DUPFD)` relies on, since it does not bump them. -/
structure PipeInv (K : FdKernel) : Prop where
  counts : PipesAgree K K.writers K.readers
  fresh : ∀ id, K.nextPipeId ≤ id → K.writers id = 0 ∧ K.readers id = 0
  noUnix : K.refs FileDescriptor.unixRefs = 0


/-! ## Descriptor tables under a call -/

theorem sum_map_set_add {α : Type} (g : α → Nat) :
    ∀ (l : List α) (p : Nat) {y : α}, l[p]? = some y → ∀ x,
      ((l.set p x).map g).sum + g y = (l.map g).sum + g x
  | [], _, _, h, _ => by simp at h
  | a :: l, 0, y, h, x => by
    simp only [List.getElem?_cons_zero, Option.some.injEq] at h
    subst h
    simp only [List.set_cons_zero, List.map_cons, List.sum_cons]
    omega
  | a :: l, p + 1, y, h, x => by
    have ih := sum_map_set_add g l p (by simpa using h) x
    simp only [List.set_cons_succ, List.map_cons, List.sum_cons]
    omega

namespace SharedFdTable

variable {t t₁ t₂ : SharedFdTable}

@[simp] theorem setCloexec_table (t : SharedFdTable) (fd : Nat) :
    (t.setCloexec fd).table = t.table := rfl
@[simp] theorem clearCloexec_table (t : SharedFdTable) (fd : Nat) :
    (t.clearCloexec fd).table = t.table := rfl
@[simp] theorem setNonblock_table (t : SharedFdTable) (fd : Nat) :
    (t.setNonblock fd).table = t.table := rfl
@[simp] theorem clearNonblock_table (t : SharedFdTable) (fd : Nat) :
    (t.clearNonblock fd).table = t.table := rfl

/-- The walk of `lowest_available_fd` over ascending keys, all at least `fd`,
stops at a number that is none of them. -/
theorem firstGap_spec :
    ∀ (keys : List Nat) (fd : Nat), keys.Pairwise (· < ·) → (∀ k ∈ keys, fd ≤ k) →
      fd ≤ firstGap keys fd ∧ firstGap keys fd ∉ keys
  | [], fd, _, _ => by simp [firstGap]
  | key :: keys, fd, hs, hle => by
    rw [List.pairwise_cons] at hs
    have hkey : fd ≤ key := hle key List.mem_cons_self
    unfold firstGap
    split_ifs with hne
    · -- `fd` lies below every key
      refine ⟨le_rfl, ?_⟩
      rintro (_ | ⟨_, hk⟩)
      · exact hne rfl
      · have := hs.1 _ hk
        omega
    · -- `key = fd`: go on from `fd + 1`, below the rest of the keys
      have hrest : ∀ k ∈ keys, fd + 1 ≤ k := fun k hk => by
        have := hs.1 k hk
        omega
      obtain ⟨hge, hnot⟩ := firstGap_spec keys (fd + 1) hs.2 hrest
      refine ⟨by omega, ?_⟩
      rintro (_ | ⟨_, hk⟩)
      · omega
      · exact hnot hk

theorem lowestAvailableFd_not_mem (table : OrdMap Nat FileDescriptor) (minFd : Nat) :
    lowestAvailableFd table minFd ∉ table.keys := by
  intro hmem
  have hs := (table.keys_sorted).filter (fun k => decide (minFd ≤ k))
  obtain ⟨hge, hnot⟩ := firstGap_spec _ minFd hs (fun k hk => by simpa using (List.mem_filter.mp hk).2)
  exact hnot (List.mem_filter.mpr ⟨hmem, by simpa using hge⟩)

/-- `t'`'s entries are `t`'s with `added` put in and `removed` taken out,
as any count over the entries sees them. -/
def Moves (t t' : SharedFdTable) (added removed : List FileDescriptor) : Prop :=
  ∀ f : FileDescriptor → Nat,
    t'.table.sumBy f + (removed.map f).sum = t.table.sumBy f + (added.map f).sum

theorem Moves.trans {a₁ r₁ a₂ r₂ : List FileDescriptor} (h₁ : Moves t t₁ a₁ r₁)
    (h₂ : Moves t₁ t₂ a₂ r₂) : Moves t t₂ (a₁ ++ a₂) (r₁ ++ r₂) := by
  intro f
  have := h₁ f
  have := h₂ f
  simp only [List.map_append, List.sum_append]
  omega

theorem Moves.of_table_eq {a r : List FileDescriptor} (h : Moves t t₁ a r)
    (ht : t₂.table = t₁.table) : Moves t t₂ a r := by
  intro f
  rw [ht]
  exact h f

theorem moves_refl (ht : t₁.table = t.table) : Moves t t₁ [] [] := by
  intro f
  simp [ht]

theorem moves_allocFdFrom (t : SharedFdTable) (minFd : Nat) (entry : FileDescriptor) :
    Moves t (t.allocFdFrom minFd entry).1 [entry] [] := by
  intro f
  have h := OrdMap.sumBy_insert f t.table (lowestAvailableFd t.table minFd) entry
  rw [OrdMap.get?_eq_none_of_not_mem (lowestAvailableFd_not_mem _ _)] at h
  simpa [allocFdFrom] using h

theorem moves_swapFd (t : SharedFdTable) (fd : Nat) (entry : FileDescriptor) :
    Moves t (t.swapFd fd entry).1 [entry] (t.swapFd fd entry).2.toList := by
  intro f
  have h := OrdMap.sumBy_insert f t.table fd entry
  cases hg : t.table.get? fd <;> simp_all [swapFd]

theorem moves_removeFd (t : SharedFdTable) (fd : Nat) :
    Moves t (t.removeFd fd).1 [] (t.removeFd fd).2.toList := by
  intro f
  have h := OrdMap.sumBy_erase f t.table fd
  cases hg : t.table.get? fd <;> simp_all [removeFd]

/-- One step of `close_cloexec_fds` moves an entry from the table to the
list of closed ones. -/
theorem takeEntry_sum (f : FileDescriptor → Nat)
    (acc : OrdMap Nat FileDescriptor × List (Nat × FileDescriptor)) (fd : Nat) :
    (takeEntry acc fd).1.sumBy f + ((takeEntry acc fd).2.map (f ·.2)).sum =
      acc.1.sumBy f + (acc.2.map (f ·.2)).sum := by
  unfold takeEntry
  split
  · rename_i entry hg
    have h := OrdMap.sumBy_erase f acc.1 fd
    rw [hg] at h
    simp only [Option.map_some, Option.getD_some] at h
    simp only [List.map_append, List.sum_append, List.map_cons, List.map_nil, List.sum_cons,
      List.sum_nil]
    omega
  · rfl

theorem foldl_takeEntry_sum (f : FileDescriptor → Nat) :
    ∀ (fds : List Nat) (acc : OrdMap Nat FileDescriptor × List (Nat × FileDescriptor)),
      (fds.foldl takeEntry acc).1.sumBy f + ((fds.foldl takeEntry acc).2.map (f ·.2)).sum =
        acc.1.sumBy f + (acc.2.map (f ·.2)).sum
  | [], _ => rfl
  | fd :: fds, acc => by
    rw [List.foldl_cons, foldl_takeEntry_sum f fds, takeEntry_sum]

theorem moves_closeCloexecFds (t : SharedFdTable) :
    Moves t t.closeCloexecFds.1 [] (t.closeCloexecFds.2.map (·.2)) := by
  intro f
  have h := foldl_takeEntry_sum f t.cloexec.keys (t.table, [])
  simp only [List.map_nil, List.sum_nil, add_zero] at h
  simp only [closeCloexecFds, List.map_nil, List.sum_nil, add_zero, List.map_map]
  exact h

end SharedFdTable


/-! ## The object tables under a call -/

namespace FdKernel

variable {K K₁ K₂ : FdKernel}

/-- `K₁` differs from `K` in its object tables only: the descriptor tables
and the pipe id counter are as they were. -/
structure KeepsTables (K K₁ : FdKernel) : Prop where
  tables : K₁.tables = K.tables
  nextPipeId : K₁.nextPipeId = K.nextPipeId

theorem KeepsTables.refl (K : FdKernel) : KeepsTables K K := ⟨rfl, rfl⟩

theorem KeepsTables.trans (h₁ : KeepsTables K K₁) (h₂ : KeepsTables K₁ K₂) : KeepsTables K K₂ :=
  ⟨h₂.tables.trans h₁.tables, h₂.nextPipeId.trans h₁.nextPipeId⟩

theorem keepsTables_pipeCloneRef (K : FdKernel) (id : Nat) (isWrite : Bool) :
    KeepsTables K (K.pipeCloneRef id isWrite) := by
  unfold pipeCloneRef
  split <;> exact ⟨rfl, rfl⟩

theorem keepsTables_pipeCloseWrite (K : FdKernel) (id : Nat) :
    KeepsTables K (K.pipeCloseWrite id) := by
  unfold pipeCloseWrite
  split <;> exact ⟨rfl, rfl⟩

theorem keepsTables_pipeCloseRead (K : FdKernel) (id : Nat) :
    KeepsTables K (K.pipeCloseRead id) := by
  unfold pipeCloseRead
  split <;> exact ⟨rfl, rfl⟩

@[simp] theorem eventfdCloneRef_pipes (K : FdKernel) (id : Nat) :
    (K.eventfdCloneRef id).pipes = K.pipes := by
  unfold eventfdCloneRef
  split <;> rfl

@[simp] theorem eventfdClose_pipes (K : FdKernel) (id : Nat) :
    (K.eventfdClose id).pipes = K.pipes := by
  unfold eventfdClose
  split <;> rfl

theorem keepsTables_eventfdCloneRef (K : FdKernel) (id : Nat) :
    KeepsTables K (K.eventfdCloneRef id) := by
  unfold eventfdCloneRef
  split <;> exact ⟨rfl, rfl⟩

theorem keepsTables_eventfdClose (K : FdKernel) (id : Nat) :
    KeepsTables K (K.eventfdClose id) := by
  unfold eventfdClose
  split <;> exact ⟨rfl, rfl⟩

theorem keepsTables_closeEntry (K : FdKernel) (e : FileDescriptor) :
    KeepsTables K (K.closeEntry e) := by
  cases e with
  | socket idx => exact ⟨rfl, rfl⟩
  | pipeWrite id => exact keepsTables_pipeCloseWrite K id
  | pipeRead id => exact keepsTables_pipeCloseRead K id
  | unixSocket rx tx =>
    exact (keepsTables_pipeCloseRead K rx).trans (keepsTables_pipeCloseWrite _ tx)
  | eventFd id => exact keepsTables_eventfdClose K id
  | _ => exact KeepsTables.refl K

theorem keepsTables_cloneRef (bumpsUnix bumpsEventFd : Bool) (K : FdKernel) (e : FileDescriptor) :
    KeepsTables K (cloneRef bumpsUnix bumpsEventFd K e) := by
  cases e with
  | pipeWrite id => exact keepsTables_pipeCloneRef K id true
  | pipeRead id => exact keepsTables_pipeCloneRef K id false
  | unixSocket rx tx =>
    simp only [cloneRef]
    split
    · exact (keepsTables_pipeCloneRef K rx false).trans (keepsTables_pipeCloneRef _ tx true)
    · exact KeepsTables.refl K
  | eventFd id =>
    simp only [cloneRef]
    split
    · exact keepsTables_eventfdCloneRef K id
    · exact KeepsTables.refl K
  | _ => exact KeepsTables.refl K

theorem keepsTables_foldl {α : Type} (g : FdKernel → α → FdKernel)
    (hg : ∀ K a, KeepsTables K (g K a)) : ∀ (l : List α) (K : FdKernel),
      KeepsTables K (l.foldl g K)
  | [], K => KeepsTables.refl K
  | a :: l, K => (hg K a).trans (keepsTables_foldl g hg l (g K a))

@[simp] theorem setTable_pipes (K : FdKernel) (p : Nat) (t : SharedFdTable) :
    (K.setTable p t).pipes = K.pipes := rfl

@[simp] theorem setTable_nextPipeId (K : FdKernel) (p : Nat) (t : SharedFdTable) :
    (K.setTable p t).nextPipeId = K.nextPipeId := rfl

/-! ### One pipe -/

theorem pipes_pipeCloseWrite {id w r : Nat} (h : K.pipes id = pipeOf w r) :
    (K.pipeCloseWrite id).pipes = Function.update K.pipes id (pipeOf (w - 1) r) := by
  unfold pipeCloseWrite
  by_cases h0 : w = 0 ∧ r = 0
  · -- no pipe: nothing changes, and the counts stay at zero
    have hnone : K.pipes id = none := by rw [h, pipeOf, if_pos h0]
    have hnone' : pipeOf (w - 1) r = none := by rw [pipeOf, if_pos (by omega)]
    simp only [hnone]
    rw [hnone', ← hnone, Function.update_eq_self]
  · have hsome : K.pipes id = some ⟨w, r⟩ := by rw [h, pipeOf, if_neg h0]
    simp only [hsome]
    rfl

theorem pipes_pipeCloseRead {id w r : Nat} (h : K.pipes id = pipeOf w r) :
    (K.pipeCloseRead id).pipes = Function.update K.pipes id (pipeOf w (r - 1)) := by
  unfold pipeCloseRead
  by_cases h0 : w = 0 ∧ r = 0
  · have hnone : K.pipes id = none := by rw [h, pipeOf, if_pos h0]
    have hnone' : pipeOf w (r - 1) = none := by rw [pipeOf, if_pos (by omega)]
    simp only [hnone]
    rw [hnone', ← hnone, Function.update_eq_self]
  · have hsome : K.pipes id = some ⟨w, r⟩ := by rw [h, pipeOf, if_neg h0]
    simp only [hsome]
    rfl

/-- A live pipe gains one end of the kind cloned. -/
theorem pipes_pipeCloneRef {id w r : Nat} (h : K.pipes id = pipeOf w r) (hlive : 0 < w + r)
    (isWrite : Bool) :
    (K.pipeCloneRef id isWrite).pipes = Function.update K.pipes id
      (if isWrite then pipeOf (w + 1) r else pipeOf w (r + 1)) := by
  have hsome : K.pipes id = some ⟨w, r⟩ := by rw [h, pipeOf, if_neg (by omega)]
  unfold pipeCloneRef
  simp only [hsome]
  cases isWrite <;> simp [pipeOf]

/-! ### Counts over the tables -/

theorem refs_of_tables_eq (h : K₁.tables = K.tables) (f : FileDescriptor → Nat) :
    K₁.refs f = K.refs f := by
  simp [refs, h]

theorem sumBy_le_refs {t : SharedFdTable} (ht : t ∈ K.tables) (f : FileDescriptor → Nat) :
    t.table.sumBy f ≤ K.refs f :=
  List.le_sum_of_mem (List.mem_map_of_mem ht)

theorem le_refs {t : SharedFdTable} (ht : t ∈ K.tables) {e : FileDescriptor}
    (he : e ∈ t.table.values) (f : FileDescriptor → Nat) : f e ≤ K.refs f :=
  (OrdMap.le_sumBy_of_mem he).trans (sumBy_le_refs ht f)

/-- Writing back a table that moved entries moves them in the kernel's
counts; `K₁` is `K` after calls that leave the tables alone. -/
theorem refs_setTable {p : Nat} {t t' : SharedFdTable} {added removed : List FileDescriptor}
    (ht : K.tables[p]? = some t) (hm : t.Moves t' added removed) (h₁ : K₁.tables = K.tables)
    (f : FileDescriptor → Nat) :
    (K₁.setTable p t').refs f + (removed.map f).sum = K.refs f + (added.map f).sum := by
  have hset := sum_map_set_add (fun t => t.table.sumBy f) K₁.tables p (h₁ ▸ ht) t'
  have hK₁ := refs_of_tables_eq h₁ f
  have hmf := hm f
  simp only [refs, setTable] at hset hK₁ ⊢
  omega

end FdKernel


/-! ## The pipe table under a call -/

namespace PipesAgree

variable {K K₁ : FdKernel} {W R : Nat → Nat}

theorem congr (h : PipesAgree K W R) {W' R' : Nat → Nat} (hW : ∀ j, W j = W' j)
    (hR : ∀ j, R j = R' j) : PipesAgree K W' R' := by
  intro j
  rw [h j, hW j, hR j]

theorem of_pipes_eq (h : PipesAgree K W R) (hp : K₁.pipes = K.pipes) : PipesAgree K₁ W R := by
  intro j
  rw [hp]
  exact h j

/-- Setting one pipe to what new counts describe, where only that pipe's
counts changed. -/
theorem update (h : PipesAgree K W R) (id : Nat) {W' R' : Nat → Nat}
    (hp : K₁.pipes = Function.update K.pipes id (pipeOf (W' id) (R' id)))
    (hW : ∀ j, j ≠ id → W j = W' j) (hR : ∀ j, j ≠ id → R j = R' j) : PipesAgree K₁ W' R' := by
  intro j
  rw [hp, Function.update_apply]
  split_ifs with hj
  · subst hj
    rfl
  · rw [h j, hW j hj, hR j hj]

theorem pipeCloseWrite (h : PipesAgree K W R) (id : Nat) :
    PipesAgree (K.pipeCloseWrite id) (fun j => W j - if id = j then 1 else 0) R :=
  h.update id (by rw [FdKernel.pipes_pipeCloseWrite (h id)]; simp)
    (fun j hj => by simp [Ne.symm hj]) (fun _ _ => rfl)

theorem pipeCloseRead (h : PipesAgree K W R) (id : Nat) :
    PipesAgree (K.pipeCloseRead id) W (fun j => R j - if id = j then 1 else 0) :=
  h.update id (by rw [FdKernel.pipes_pipeCloseRead (h id)]; simp)
    (fun _ _ => rfl) (fun j hj => by simp [Ne.symm hj])

theorem pipeCloneRef_write (h : PipesAgree K W R) (id : Nat) (hlive : 0 < W id + R id) :
    PipesAgree (K.pipeCloneRef id true) (fun j => W j + if id = j then 1 else 0) R :=
  h.update id (by rw [FdKernel.pipes_pipeCloneRef (h id) hlive]; simp)
    (fun j hj => by simp [Ne.symm hj]) (fun _ _ => rfl)

theorem pipeCloneRef_read (h : PipesAgree K W R) (id : Nat) (hlive : 0 < W id + R id) :
    PipesAgree (K.pipeCloneRef id false) W (fun j => R j + if id = j then 1 else 0) :=
  h.update id (by rw [FdKernel.pipes_pipeCloneRef (h id) hlive]; simp)
    (fun _ _ => rfl) (fun j hj => by simp [Ne.symm hj])

/-- Closing a descriptor drops the ends it held. -/
theorem closeEntry (h : PipesAgree K W R) (e : FileDescriptor) :
    PipesAgree (K.closeEntry e) (fun j => W j - e.writeRefs j) (fun j => R j - e.readRefs j) := by
  cases e with
  | pipeWrite id =>
    exact (h.pipeCloseWrite id).congr (fun _ => rfl) (fun j => by simp [FileDescriptor.readRefs])
  | pipeRead id =>
    exact (h.pipeCloseRead id).congr (fun j => by simp [FileDescriptor.writeRefs]) (fun _ => rfl)
  | unixSocket rx tx => exact (h.pipeCloseRead rx).pipeCloseWrite tx
  | eventFd id | socket id =>
    exact (h.of_pipes_eq (by simp [FdKernel.closeEntry])).congr
      (fun j => by simp [FileDescriptor.writeRefs]) (fun j => by simp [FileDescriptor.readRefs])
  | stdin | stdout | stderr | epollFd _ | other =>
    exact h.congr (fun j => by simp [FileDescriptor.writeRefs])
      (fun j => by simp [FileDescriptor.readRefs])

/-- Closing a list of descriptors drops every end they held. -/
theorem foldl_closeEntry :
    ∀ (es : List FileDescriptor) {K : FdKernel} {W R : Nat → Nat}, PipesAgree K W R →
      PipesAgree (es.foldl FdKernel.closeEntry K) (fun j => W j - (es.map (FileDescriptor.writeRefs j)).sum)
        (fun j => R j - (es.map (FileDescriptor.readRefs j)).sum)
  | [], _, _, _, h => h.congr (fun _ => rfl) (fun _ => rfl)
  | e :: es, _, _, _, h =>
    (foldl_closeEntry es (h.closeEntry e)).congr (fun j => by simp [Nat.sub_sub])
      (fun j => by simp [Nat.sub_sub])

/-- Duplicating a descriptor bumps the ends it holds, provided the path
bumps its kind and every pipe it holds is live. -/
theorem cloneRef (h : PipesAgree K W R) {bumpsUnix bumpsEventFd : Bool} {e : FileDescriptor}
    (hlive : ∀ j, 0 < e.writeRefs j + e.readRefs j → 0 < W j + R j)
    (hunix : bumpsUnix = true ∨ e.unixRefs = 0) :
    PipesAgree (FdKernel.cloneRef bumpsUnix bumpsEventFd K e) (fun j => W j + e.writeRefs j)
      (fun j => R j + e.readRefs j) := by
  cases e with
  | pipeWrite id =>
    have hl := hlive id (by simp [FileDescriptor.writeRefs])
    exact (h.pipeCloneRef_write id hl).congr (fun _ => rfl)
      (fun j => by simp [FileDescriptor.readRefs])
  | pipeRead id =>
    have hl := hlive id (by simp [FileDescriptor.readRefs])
    exact (h.pipeCloneRef_read id hl).congr (fun j => by simp [FileDescriptor.writeRefs])
      (fun _ => rfl)
  | unixSocket rx tx =>
    have hb : bumpsUnix = true := by simpa [FileDescriptor.unixRefs] using hunix
    have hrx := hlive rx (by simp [FileDescriptor.readRefs])
    have htx := hlive tx (by simp [FileDescriptor.writeRefs])
    have h₁ := h.pipeCloneRef_read rx hrx
    have h₂ := h₁.pipeCloneRef_write tx (by omega)
    simpa [FdKernel.cloneRef, hb, FileDescriptor.writeRefs, FileDescriptor.readRefs] using h₂
  | eventFd id =>
    have hp : (FdKernel.cloneRef bumpsUnix bumpsEventFd K (.eventFd id)).pipes = K.pipes := by
      simp only [FdKernel.cloneRef]
      split <;> simp
    exact (h.of_pipes_eq hp).congr (fun j => by simp [FileDescriptor.writeRefs])
      (fun j => by simp [FileDescriptor.readRefs])
  | stdin | stdout | stderr | socket _ | epollFd _ | other =>
    exact h.congr (fun j => by simp [FileDescriptor.writeRefs])
      (fun j => by simp [FileDescriptor.readRefs])

/-- `clone_deep_for_fork`'s loop bumps the ends of every copied entry. -/
theorem foldl_forkCloneRef :
    ∀ (es : List FileDescriptor) {K : FdKernel} {W R : Nat → Nat}, PipesAgree K W R →
      (∀ j, 0 < (es.map (FileDescriptor.writeRefs j)).sum + (es.map (FileDescriptor.readRefs j)).sum → 0 < W j + R j) →
      PipesAgree (es.foldl FdKernel.forkCloneRef K) (fun j => W j + (es.map (FileDescriptor.writeRefs j)).sum)
        (fun j => R j + (es.map (FileDescriptor.readRefs j)).sum)
  | [], _, _, _, h, _ => h.congr (fun _ => rfl) (fun _ => rfl)
  | e :: es, _, W, R, h, hlive => by
    have h₁ : PipesAgree (FdKernel.forkCloneRef _ e) (fun j => W j + e.writeRefs j)
        (fun j => R j + e.readRefs j) :=
      h.cloneRef (fun j hj => hlive j (by simp; omega)) (.inl rfl)
    have h₂ := foldl_forkCloneRef es h₁ (fun j hj => by
      have := hlive j (by simp; omega)
      omega)
    exact h₂.congr (fun j => by simp; omega) (fun j => by simp; omega)

end PipesAgree


/-! ## Closing descriptors -/

/-- `(K₁, t₁)` is `(K, t)` after closing the entries `removed`: they are taken
out of the table, and the ends they held are dropped from the pipes. -/
structure Closes (K : FdKernel) (t : SharedFdTable) (K₁ : FdKernel) (t₁ : SharedFdTable)
    (removed : List FileDescriptor) : Prop where
  moves : t.Moves t₁ [] removed
  keeps : FdKernel.KeepsTables K K₁
  pipes : ∀ {W R : Nat → Nat}, PipesAgree K W R →
    PipesAgree K₁ (fun j => W j - (removed.map (FileDescriptor.writeRefs j)).sum)
      (fun j => R j - (removed.map (FileDescriptor.readRefs j)).sum)

namespace Closes

variable {K K₁ K₂ : FdKernel} {t t₁ t₂ : SharedFdTable} {r₁ r₂ : List FileDescriptor}

theorem refl (K : FdKernel) {t t₁ : SharedFdTable} (ht : t₁.table = t.table) :
    Closes K t K t₁ [] :=
  ⟨SharedFdTable.moves_refl ht, FdKernel.KeepsTables.refl K,
    fun h => h.congr (fun _ => by simp) (fun _ => by simp)⟩

theorem trans (h₁ : Closes K t K₁ t₁ r₁) (h₂ : Closes K₁ t₁ K₂ t₂ r₂) :
    Closes K t K₂ t₂ (r₁ ++ r₂) :=
  ⟨h₁.moves.trans h₂.moves, h₁.keeps.trans h₂.keeps,
    fun h => (h₂.pipes (h₁.pipes h)).congr (fun j => by simp [Nat.sub_sub])
      (fun j => by simp [Nat.sub_sub])⟩

/-- `remove_fd` followed by the close match on what it removed. -/
theorem removeFd (K : FdKernel) {t t₁ t₂ : SharedFdTable} {fd : Nat} {e : FileDescriptor}
    (hrem : t.removeFd fd = (t₁, some e)) (ht₂ : t₂.table = t₁.table) :
    Closes K t (K.closeEntry e) t₂ [e] := by
  have hm := SharedFdTable.moves_removeFd t fd
  rw [hrem] at hm
  exact ⟨hm.of_table_eq ht₂, FdKernel.keepsTables_closeEntry K e,
    fun h => (h.closeEntry e).congr (fun _ => by simp) (fun _ => by simp)⟩

end Closes

/-- One descriptor of `sys_close_range`'s loop closes it or only marks it. -/
theorem closes_closeRangeStep (flags : Nat) (K : FdKernel) (t : SharedFdTable) (fd : Nat) :
    ∃ removed, Closes K t (closeRangeStep flags (K, t) fd).1 (closeRangeStep flags (K, t) fd).2
      removed := by
  unfold closeRangeStep
  split_ifs
  · exact ⟨[], Closes.refl K rfl⟩
  · rcases hrem : t.removeFd fd with ⟨t₁, _ | e⟩
    · exact ⟨[], Closes.refl K rfl⟩
    · exact ⟨[e], Closes.removeFd K hrem rfl⟩

theorem closes_foldl_closeRangeStep (flags : Nat) :
    ∀ (fds : List Nat) (K : FdKernel) (t : SharedFdTable), ∃ removed,
      Closes K t (fds.foldl (closeRangeStep flags) (K, t)).1
        (fds.foldl (closeRangeStep flags) (K, t)).2 removed
  | [], K, t => ⟨[], Closes.refl K rfl⟩
  | fd :: fds, K, t => by
    obtain ⟨r₁, h₁⟩ := closes_closeRangeStep flags K t fd
    obtain ⟨r₂, h₂⟩ := closes_foldl_closeRangeStep flags fds
      (closeRangeStep flags (K, t) fd).1 (closeRangeStep flags (K, t) fd).2
    exact ⟨r₁ ++ r₂, h₁.trans h₂⟩

/-- Closing a list of taken-out entries, as `execve` and `close_all` do. -/
theorem closes_foldl_closeEntry (K : FdKernel) {t t₁ : SharedFdTable} {es : List FileDescriptor}
    (hm : t.Moves t₁ [] es) : Closes K t (es.foldl FdKernel.closeEntry K) t₁ es :=
  ⟨hm, FdKernel.keepsTables_foldl _ FdKernel.keepsTables_closeEntry es K,
    fun h => PipesAgree.foldl_closeEntry es h⟩


/-! ## The invariant under each call -/

theorem sum_map_eq_zero {l : List FileDescriptor} {f : FileDescriptor → Nat}
    (h : ∀ e ∈ l, f e = 0) : (l.map f).sum = 0 :=
  List.sum_eq_zero (by simpa using h)

namespace PipeInv

variable {K K₁ K' : FdKernel}

/-- A call that puts `added` into the tables and takes `removed` out keeps
the invariant when the pipe table follows it and no added entry holds a
Unix socket or a pipe past the id counter. -/
theorem of_moves (hK : PipeInv K) (added removed : List FileDescriptor)
    (hrefs : ∀ f, K'.refs f + (removed.map f).sum = K.refs f + (added.map f).sum)
    (hpipes : PipesAgree K'
      (fun j => K.writers j + (added.map (FileDescriptor.writeRefs j)).sum - (removed.map (FileDescriptor.writeRefs j)).sum)
      (fun j => K.readers j + (added.map (FileDescriptor.readRefs j)).sum - (removed.map (FileDescriptor.readRefs j)).sum))
    (hnext : K.nextPipeId ≤ K'.nextPipeId)
    (hadded : ∀ e ∈ added, e.unixRefs = 0 ∧
      ∀ id, K'.nextPipeId ≤ id → e.writeRefs id = 0 ∧ e.readRefs id = 0) :
    PipeInv K' where
  counts := hpipes.congr
    (fun j => by
      have := hrefs (FileDescriptor.writeRefs j)
      simp only [FdKernel.writers]
      omega)
    (fun j => by
      have := hrefs (FileDescriptor.readRefs j)
      simp only [FdKernel.readers]
      omega)
  fresh := by
    intro id hid
    obtain ⟨hw, hr⟩ := hK.fresh id (le_trans hnext hid)
    have hwa := sum_map_eq_zero fun e he => ((hadded e he).2 id hid).1
    have hra := sum_map_eq_zero fun e he => ((hadded e he).2 id hid).2
    have := hrefs (FileDescriptor.writeRefs id)
    have := hrefs (FileDescriptor.readRefs id)
    simp only [FdKernel.writers, FdKernel.readers] at hw hr ⊢
    omega
  noUnix := by
    have hu := sum_map_eq_zero fun e he => (hadded e he).1
    have := hrefs FileDescriptor.unixRefs
    have := hK.noUnix
    omega

/-- The common shape of a call by process `p`: calls on the object tables
take `K` to `K₁`, and `p`'s table `t` becomes `t'`. -/
theorem of_setTable (hK : PipeInv K) {p : Nat} {t t' : SharedFdTable}
    (added removed : List FileDescriptor) (ht : K.tables[p]? = some t)
    (hm : t.Moves t' added removed) (htables : K₁.tables = K.tables)
    (hnext : K.nextPipeId ≤ K₁.nextPipeId)
    (hpipes : PipesAgree K₁
      (fun j => K.writers j + (added.map (FileDescriptor.writeRefs j)).sum - (removed.map (FileDescriptor.writeRefs j)).sum)
      (fun j => K.readers j + (added.map (FileDescriptor.readRefs j)).sum - (removed.map (FileDescriptor.readRefs j)).sum))
    (hadded : ∀ e ∈ added, e.unixRefs = 0 ∧
      ∀ id, K₁.nextPipeId ≤ id → e.writeRefs id = 0 ∧ e.readRefs id = 0) :
    PipeInv (K₁.setTable p t') :=
  hK.of_moves added removed (FdKernel.refs_setTable ht hm htables) (hpipes.of_pipes_eq rfl) hnext
    hadded

/-- Closing entries of `p`'s table keeps the invariant. -/
theorem of_closes (hK : PipeInv K) {p : Nat} {t t₁ : SharedFdTable} {removed : List FileDescriptor}
    (ht : K.tables[p]? = some t) (hc : Closes K t K₁ t₁ removed) : PipeInv (K₁.setTable p t₁) :=
  hK.of_setTable [] removed ht hc.moves hc.keeps.tables hc.keeps.nextPipeId.ge
    ((hc.pipes hK.counts).congr (fun _ => by simp) (fun _ => by simp)) (by simp)

/-- An entry already in a table holds no Unix socket and no pipe past the
id counter. -/
theorem entry_of_le (hK : PipeInv K) {e : FileDescriptor} (hle : ∀ f, f e ≤ K.refs f) :
    e.unixRefs = 0 ∧ ∀ id, K.nextPipeId ≤ id → e.writeRefs id = 0 ∧ e.readRefs id = 0 := by
  refine ⟨?_, fun id hid => ?_⟩
  · have := hle FileDescriptor.unixRefs
    have := hK.noUnix
    omega
  · obtain ⟨hw, hr⟩ := hK.fresh id hid
    have := hle (FileDescriptor.writeRefs id)
    have := hle (FileDescriptor.readRefs id)
    simp only [FdKernel.writers, FdKernel.readers] at hw hr
    omega

/-- Every pipe end an entry of a table holds belongs to a live pipe. -/
theorem live_of_le {e : FileDescriptor} (hle : ∀ f, f e ≤ K.refs f) (j : Nat)
    (hj : 0 < e.writeRefs j + e.readRefs j) : 0 < K.writers j + K.readers j := by
  have := hle (FileDescriptor.writeRefs j)
  have := hle (FileDescriptor.readRefs j)
  simp only [FdKernel.writers, FdKernel.readers]
  omega

/-- A duplicate of an entry of `p`'s table, bumped by a path that bumps its
kind, put into `p`'s table. -/
theorem of_dup (hK : PipeInv K) {p : Nat} {t t' : SharedFdTable} {e : FileDescriptor}
    {bumpsUnix bumpsEventFd : Bool} (ht : K.tables[p]? = some t) (he : t.getFd fd = some e)
    (hm : t.Moves t' [e] []) :
    PipeInv ((FdKernel.cloneRef bumpsUnix bumpsEventFd K e).setTable p t') := by
  have hle : ∀ f, f e ≤ K.refs f :=
    FdKernel.le_refs (List.mem_of_getElem? ht) (OrdMap.mem_values_of_get? he)
  have hkeep := FdKernel.keepsTables_cloneRef bumpsUnix bumpsEventFd K e
  have hfresh := hK.entry_of_le hle
  refine hK.of_setTable [e] [] ht hm hkeep.tables hkeep.nextPipeId.ge ?_ ?_
  · exact (hK.counts.cloneRef (live_of_le hle) (.inr hfresh.1)).congr (fun _ => by simp)
      (fun _ => by simp)
  · simpa [hkeep.nextPipeId] using hfresh

/-- A call that changes only the close-on-exec or non-blocking set. -/
theorem of_table_eq (hK : PipeInv K) {p : Nat} {t t' : SharedFdTable}
    (ht : K.tables[p]? = some t) (h : t'.table = t.table) : PipeInv (K.setTable p t') :=
  hK.of_closes ht (Closes.refl K h)

theorem sysPipe2 (hK : PipeInv K) (p flags : Nat) : PipeInv (Akuma.Syscall.sysPipe2 K p flags).1 := by
  unfold Akuma.Syscall.sysPipe2
  rcases ht : K.tables[p]? with _ | t
  · exact hK
  dsimp only [FdKernel.pipeCreate]
  rcases h₁ : t.allocFd (.pipeRead K.nextPipeId) with ⟨t₁, fdR⟩
  rcases h₂ : t₁.allocFd (.pipeWrite K.nextPipeId) with ⟨t₂, fdW⟩
  have hm₁ := SharedFdTable.moves_allocFdFrom t 0 (.pipeRead K.nextPipeId)
  have hm₂ := SharedFdTable.moves_allocFdFrom t₁ 0 (.pipeWrite K.nextPipeId)
  rw [show t.allocFdFrom 0 _ = t.allocFd _ from rfl, h₁] at hm₁
  rw [show t₁.allocFdFrom 0 _ = t₁.allocFd _ from rfl, h₂] at hm₂
  -- the new pipe's id is past the counter: no entry held it before
  obtain ⟨hw, hr⟩ := hK.fresh K.nextPipeId le_rfl
  refine hK.of_setTable _ [] ht ((hm₁.trans hm₂).of_table_eq (by split_ifs <;> rfl)) rfl
    (by simp) ?_ ?_
  · refine hK.counts.update K.nextPipeId ?_ ?_ ?_
    · simp [hw, hr, pipeOf, FileDescriptor.writeRefs, FileDescriptor.readRefs]
    · intro j hj
      simp [FileDescriptor.writeRefs, Ne.symm hj]
    · intro j hj
      simp [FileDescriptor.readRefs, Ne.symm hj]
  · intro e he
    simp only [List.nil_append, List.cons_append, List.mem_cons, List.not_mem_nil, or_false] at he
    rcases he with rfl | rfl <;>
      exact ⟨rfl, fun id hid => by
        simp only at hid
        simp [FileDescriptor.writeRefs, FileDescriptor.readRefs]
        omega⟩

theorem sysEventfd2 (hK : PipeInv K) (p flags : Nat) :
    PipeInv (Akuma.Syscall.sysEventfd2 K p flags).1 := by
  unfold Akuma.Syscall.sysEventfd2
  rcases ht : K.tables[p]? with _ | t
  · exact hK
  dsimp only [FdKernel.eventfdCreate]
  rcases h₁ : t.allocFd (.eventFd K.nextEventfdId) with ⟨t₁, fd⟩
  have hm := SharedFdTable.moves_allocFdFrom t 0 (.eventFd K.nextEventfdId)
  rw [show t.allocFdFrom 0 _ = t.allocFd _ from rfl, h₁] at hm
  -- an eventfd holds no pipe end
  refine hK.of_setTable _ [] ht (hm.of_table_eq (by split_ifs <;> rfl)) rfl le_rfl ?_ ?_
  · exact hK.counts.congr (fun j => by simp [FileDescriptor.writeRefs])
      (fun j => by simp [FileDescriptor.readRefs])
  · simp [FileDescriptor.unixRefs, FileDescriptor.writeRefs, FileDescriptor.readRefs]

theorem sysDup (hK : PipeInv K) (p oldfd : Nat) : PipeInv (Akuma.Syscall.sysDup K p oldfd).1 := by
  unfold Akuma.Syscall.sysDup
  rcases ht : K.tables[p]? with _ | t
  · exact hK
  dsimp only
  rcases he : t.getFd oldfd with _ | e
  · exact hK
  dsimp only
  exact hK.of_dup ht he ((SharedFdTable.moves_allocFdFrom t 0 e).of_table_eq rfl)

theorem sysDup3 (hK : PipeInv K) (p oldfd newfd flags : Nat) :
    PipeInv (Akuma.Syscall.sysDup3 K p oldfd newfd flags).1 := by
  unfold Akuma.Syscall.sysDup3
  by_cases hsame : oldfd = newfd
  · rw [if_pos hsame]
    exact hK
  rw [if_neg hsame]
  rcases ht : K.tables[p]? with _ | t
  · exact hK
  dsimp only
  rcases he : t.getFd oldfd with _ | e
  · exact hK
  dsimp only
  have hle : ∀ f, f e ≤ K.refs f :=
    FdKernel.le_refs (List.mem_of_getElem? ht) (OrdMap.mem_values_of_get? he)
  have hm := SharedFdTable.moves_swapFd t newfd e
  rcases hsw : (t.swapFd newfd e).2 with _ | old
  · -- `newfd` was free: a plain duplicate
    rw [hsw] at hm
    exact hK.of_dup ht he (hm.of_table_eq (by split_ifs <;> rfl))
  · -- the entry `newfd` had is closed after the swap
    rw [hsw] at hm
    have h₁ : PipesAgree (K.dupCloneRef e) (fun j => K.writers j + e.writeRefs j)
        (fun j => K.readers j + e.readRefs j) :=
      hK.counts.cloneRef (live_of_le hle) (.inl rfl)
    have hkeep : FdKernel.KeepsTables K ((K.dupCloneRef e).closeEntry old) :=
      (FdKernel.keepsTables_cloneRef true false K e).trans (FdKernel.keepsTables_closeEntry _ old)
    refine hK.of_setTable [e] [old] ht (hm.of_table_eq (by split_ifs <;> rfl)) hkeep.tables
      hkeep.nextPipeId.ge ?_ ?_
    · exact (h₁.closeEntry old).congr (fun _ => by simp) (fun _ => by simp)
    · simpa [hkeep.nextPipeId] using hK.entry_of_le hle

theorem sysFcntl (hK : PipeInv K) (p fd cmd arg : Nat) :
    PipeInv (Akuma.Syscall.sysFcntl K p fd cmd arg).1 := by
  unfold Akuma.Syscall.sysFcntl
  rcases ht : K.tables[p]? with _ | t
  · exact hK
  dsimp only
  rcases he : t.getFd fd with _ | e
  · exact hK
  dsimp only
  by_cases hdup : cmd = fDupfd ∨ cmd = fDupfdCloexec
  · -- `F_DUPFD` bumps pipe ends only; there are no Unix sockets to miss
    rw [if_pos hdup]
    exact hK.of_dup ht he
      ((SharedFdTable.moves_allocFdFrom t (arg % 2 ^ 32) e).of_table_eq (by split_ifs <;> rfl))
  · -- the other commands read or set the close-on-exec and non-blocking flags
    rw [if_neg hdup]
    split_ifs <;> first
      | exact hK
      | exact hK.of_table_eq ht rfl

theorem sysClose (hK : PipeInv K) (p fd : Nat) : PipeInv (Akuma.Syscall.sysClose K p fd).1 := by
  unfold Akuma.Syscall.sysClose
  rcases ht : K.tables[p]? with _ | t
  · exact hK
  dsimp only
  rcases hrem : t.removeFd fd with ⟨t₁, _ | e⟩
  · exact hK
  · exact hK.of_closes ht (Closes.removeFd K hrem rfl)

theorem sysCloseRange (hK : PipeInv K) {p first last flags : Nat} {K' : FdKernel} {r : Nat}
    (h : Akuma.Syscall.sysCloseRange K p first last flags = some (K', r)) : PipeInv K' := by
  unfold Akuma.Syscall.sysCloseRange at h
  rcases ht : K.tables[p]? with _ | t
  · rw [ht] at h
    obtain rfl : K = K' := congrArg Prod.fst (Option.some.inj h)
    exact hK
  rw [ht] at h
  split_ifs at h
  obtain ⟨removed, hc⟩ := closes_foldl_closeRangeStep flags
    (t.table.keys.filter fun fd => first ≤ fd ∧ fd ≤ last) K t
  obtain rfl := congrArg Prod.fst (Option.some.inj h)
  exact hK.of_closes ht hc

theorem forkFds (hK : PipeInv K) (p : Nat) : PipeInv (Akuma.Syscall.forkFds K p).1 := by
  unfold Akuma.Syscall.forkFds
  rcases ht : K.tables[p]? with _ | t
  · exact hK
  dsimp only [FdKernel.cloneDeepForFork]
  set cloned := t.table.filterVals fun e => !e.isEpollFd
  have htmem := List.mem_of_getElem? ht
  have hkeep := FdKernel.keepsTables_foldl FdKernel.forkCloneRef
    (FdKernel.keepsTables_cloneRef true true) cloned.values K
  -- the copied entries are the parent's, so each count bounds them
  have hsum : ∀ f, (cloned.values.map f).sum ≤ K.refs f := fun f => by
    rw [← OrdMap.sumBy_eq_sum_values]
    exact (OrdMap.sumBy_filterVals_le f _ _).trans (FdKernel.sumBy_le_refs htmem f)
  refine hK.of_moves cloned.values [] ?_ ?_ (by simp [hkeep.nextPipeId]) ?_
  · intro f
    simp [FdKernel.refs, hkeep.tables, OrdMap.sumBy_eq_sum_values]
  · have hp := PipesAgree.foldl_forkCloneRef cloned.values hK.counts (fun j hj => by
      have := hsum (FileDescriptor.writeRefs j)
      have := hsum (FileDescriptor.readRefs j)
      simp only [FdKernel.writers, FdKernel.readers]
      omega)
    exact (hp.of_pipes_eq rfl).congr (fun _ => by simp) (fun _ => by simp)
  · intro e he
    have hle := FdKernel.le_refs htmem (OrdMap.mem_values_of_mem_filterVals he)
    simpa [hkeep.nextPipeId] using hK.entry_of_le hle

theorem execveCloseFds (hK : PipeInv K) (p : Nat) :
    PipeInv (Akuma.Syscall.execveCloseFds K p).1 := by
  unfold Akuma.Syscall.execveCloseFds
  rcases ht : K.tables[p]? with _ | t
  · exact hK
  dsimp only
  rcases hcl : t.closeCloexecFds with ⟨t₁, closed⟩
  have hm := SharedFdTable.moves_closeCloexecFds t
  rw [hcl] at hm
  have hfold : closed.foldl (fun K fd => K.closeEntry fd.2) K =
      (closed.map (·.2)).foldl FdKernel.closeEntry K := by
    rw [List.foldl_map]
  dsimp only
  rw [hfold]
  exact hK.of_closes ht (closes_foldl_closeEntry K hm)

theorem exitCloseAll (hK : PipeInv K) (p : Nat) : PipeInv (Akuma.Syscall.exitCloseAll K p).1 := by
  unfold Akuma.Syscall.exitCloseAll FdKernel.closeAll
  rcases ht : K.tables[p]? with _ | t
  · exact hK
  have hm : t.Moves { t with table := .empty } [] t.table.values := fun f => by
    rw [OrdMap.sumBy_eq_sum_values f t.table]
    simp
  exact hK.of_closes ht (closes_foldl_closeEntry K hm)

/-- Every call keeps the invariant, unless the kernel panics. -/
theorem apply (hK : PipeInv K) {c : FdCall} {K' : FdKernel} {r : Nat}
    (h : c.apply K = some (K', r)) : PipeInv K' := by
  cases c with
  | closeRange p first last flags => exact hK.sysCloseRange h
  | pipe2 p flags =>
    obtain rfl := congrArg Prod.fst (Option.some.inj h)
    exact hK.sysPipe2 p flags
  | eventfd2 p flags =>
    obtain rfl := congrArg Prod.fst (Option.some.inj h)
    exact hK.sysEventfd2 p flags
  | dup p oldfd =>
    obtain rfl := congrArg Prod.fst (Option.some.inj h)
    exact hK.sysDup p oldfd
  | dup3 p oldfd newfd flags =>
    obtain rfl := congrArg Prod.fst (Option.some.inj h)
    exact hK.sysDup3 p oldfd newfd flags
  | fcntl p fd cmd arg =>
    obtain rfl := congrArg Prod.fst (Option.some.inj h)
    exact hK.sysFcntl p fd cmd arg
  | close p fd =>
    obtain rfl := congrArg Prod.fst (Option.some.inj h)
    exact hK.sysClose p fd
  | fork p =>
    obtain rfl := congrArg Prod.fst (Option.some.inj h)
    exact hK.forkFds p
  | execve p =>
    obtain rfl := congrArg Prod.fst (Option.some.inj h)
    exact hK.execveCloseFds p
  | exit p =>
    obtain rfl := congrArg Prod.fst (Option.some.inj h)
    exact hK.exitCloseAll p

/-- A run keeps the invariant, by induction over its calls. -/
theorem runFds : ∀ {K : FdKernel} {calls : List FdCall} {K' : FdKernel} {rs : List Nat},
    PipeInv K → Akuma.Syscall.runFds K calls = some (K', rs) → PipeInv K'
  | _, [], _, _, hK, h => by
    obtain rfl := congrArg Prod.fst (Option.some.inj h)
    exact hK
  | K, c :: cs, K', rs, hK, h => by
    unfold Akuma.Syscall.runFds at h
    rcases hc : c.apply K with _ | ⟨K₁, r⟩
    · rw [hc] at h
      cases h
    · rw [hc] at h
      dsimp only at h
      obtain ⟨⟨K₂, rs₂⟩, hrun, hmap⟩ := Option.map_eq_some_iff.mp h
      obtain rfl := congrArg Prod.fst hmap
      exact (hK.apply hc).runFds hrun

theorem sumBy_withStdio (f : FileDescriptor → Nat) :
    SharedFdTable.withStdio.table.sumBy f = f .stdin + (f .stdout + (f .stderr + 0)) := rfl

theorem refs_boot (n : Nat) (f : FileDescriptor → Nat) :
    (FdKernel.boot n).refs f = n * (f .stdin + (f .stdout + (f .stderr + 0))) := by
  simp only [FdKernel.refs, FdKernel.boot, List.map_replicate, List.sum_replicate, sumBy_withStdio,
    smul_eq_mul]

/-- At boot no table holds a pipe end or a Unix socket, and there is no pipe. -/
theorem boot (n : Nat) : PipeInv (FdKernel.boot n) where
  counts := fun j => by
    simp only [FdKernel.writers, FdKernel.readers, refs_boot]
    simp [FileDescriptor.writeRefs, FileDescriptor.readRefs, pipeOf, FdKernel.boot]
  fresh := fun id _ => by
    simp [FdKernel.writers, FdKernel.readers, refs_boot, FileDescriptor.writeRefs,
      FileDescriptor.readRefs]
  noUnix := by simp [refs_boot, FileDescriptor.unixRefs]

end PipeInv

/-- Over every run of the descriptor calls from boot that does not panic, the
pipe table is what the counts of held ends describe: a pipe is live, with
exactly those counts, while one of them is positive, and gone once both are
zero. So every pipe end that a table holds belongs to a live pipe. -/
theorem runFds_pipe_counts (n : Nat) (calls : List FdCall) {K : FdKernel} {rs : List Nat}
    (h : runFds (FdKernel.boot n) calls = some (K, rs)) :
    (∀ id, K.pipes id = pipeOf (K.writers id) (K.readers id)) ∧
    ∀ t ∈ K.tables, ∀ e ∈ t.table.values, ∀ id,
      0 < e.writeRefs id + e.readRefs id → K.pipes id ≠ none := by
  have hK := (PipeInv.boot n).runFds h
  refine ⟨hK.counts, fun t ht e he id hid => ?_⟩
  have hlive := PipeInv.live_of_le (FdKernel.le_refs ht he) id hid
  rw [hK.counts id, pipeOf, if_neg (by omega)]
  simp

theorem runFds_pipe_counts_on_fork :
    ∃ K rs, runFds (FdKernel.boot 1) [.pipe2 0 0, .fork 0, .dup 1 4, .close 0 3, .exit 1] =
      some (K, rs) ∧
      ((∀ id, K.pipes id = pipeOf (K.writers id) (K.readers id)) ∧
       ∀ t ∈ K.tables, ∀ e ∈ t.table.values, ∀ id,
         0 < e.writeRefs id + e.readRefs id → K.pipes id ≠ none) := by
  obtain ⟨⟨K, rs⟩, h⟩ := Option.isSome_iff_exists.mp
    (by decide +kernel :
      (runFds (FdKernel.boot 1) [.pipe2 0 0, .fork 0, .dup 1 4, .close 0 3, .exit 1]).isSome)
  exact ⟨K, rs, h, runFds_pipe_counts 1 _ h⟩

end Akuma.Syscall
