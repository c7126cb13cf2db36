import Akuma.Syscall.Fds

/-!
# Socket system calls

`syscall/net.rs` on the local path: `socket`, `bind`, `listen`, `accept4`
and `connect` over the descriptor tables of `Akuma.Syscall.Fds`, whose
`Socket(idx)` entries name slots of the socket table of `Akuma.Net.Socket`.
An address arrives decoded (the `sockaddr_in` copy and its `EFAULT` paths
are not modelled), and the cross-core forwarding of a secondary kernel is
left out.

Nothing counts the descriptors that hold a slot: `fork` and the `dup` family
copy `Socket(idx)` as it is, and every close hands `idx` to `remove_socket`.
So the first close of a shared socket frees its slot for the next
`alloc_socket`, while the other holders keep the index.
-/

namespace Akuma.Syscall

open Net SharedFdTable FdKernel

/-! ## Constants -/

/-- `EMFILE`. -/
def emfile : Nat := negErrno 24
/-- `EAFNOSUPPORT`. -/
def eafnosupport : Nat := negErrno 97
/-- `AF_INET`. -/
def afInet : Nat := 2
/-- `SOCK_CLOEXEC`. -/
def sockCloexec : Nat := 0x80000
/-- `SOCK_NONBLOCK`. -/
def sockNonblock : Nat := 0x800

/-! ## The calls -/

/-- `get_socket_from_fd`: the slot a descriptor of process `p` names. -/
def getSocketFromFd (K : FdKernel) (p fd : Nat) : Option Nat :=
  match K.tables[p]?.bind (·.getFd fd) with
  | some (.socket idx) => some idx
  | _ => none

/-- `fd_is_nonblock`. -/
def fdIsNonblock (K : FdKernel) (p fd : Nat) : Bool :=
  match K.tables[p]? with
  | some t => t.isNonblock fd
  | none => false

/-- `sys_socket`. A socket whose process has gone between `alloc_socket` and
`current_process` keeps its slot. -/
def sysSocket (K : FdKernel) (p domain sockType : Nat) : FdKernel × Nat :=
  let baseType := sockType &&& 0xFF
  if domain ≠ afInet ∨ (baseType ≠ sockStream ∧ baseType ≠ sockDgram) then (K, eafnosupport)
  else
    let a := K.sockets.allocSocket baseType
    let K := { K with sockets := a.1 }
    match a.2 with
    | none => (K, emfile)
    | some idx =>
      match K.tables[p]? with
      | none => (K, esrch)
      | some t =>
        let r := t.allocFd (.socket idx)
        let t := if sockType &&& sockCloexec ≠ 0 then r.1.setCloexec r.2 else r.1
        let t := if sockType &&& sockNonblock ≠ 0 then t.setNonblock r.2 else t
        (K.setTable p t, r.2)

/-- `sys_bind`, with the address read. -/
def sysBind (K : FdKernel) (p fd : Nat) (addr : SocketAddrV4) : FdKernel × Nat :=
  match getSocketFromFd K p fd with
  | none => (K, ebadf)
  | some idx =>
    let b := K.sockets.socketBind idx addr
    ({ K with sockets := b.1 }, match b.2 with
      | .ok () => 0
      | .error e => negErrno e)

/-- `sys_listen`; `backlog as usize` sign-extends the `i32`. -/
def sysListen (K : FdKernel) (p fd : Nat) (backlog : Int) : FdKernel × Nat :=
  match getSocketFromFd K p fd with
  | none => (K, ebadf)
  | some idx =>
    let l := K.sockets.socketListen idx (backlog % 2 ^ 64).toNat
    ({ K with sockets := l.1 }, match l.2 with
      | .ok () => 0
      | .error e => negErrno e)

/-- `sys_accept4`, and `sys_accept` as `flags = 0`: `none` while a blocking
call still waits. The accepted socket takes the lowest free descriptor. -/
def sysAccept4 (K : FdKernel) (p fd flags : Nat) : Option (FdKernel × Nat) :=
  match getSocketFromFd K p fd with
  | none => some (K, ebadf)
  | some idx =>
    match K.sockets.socketAccept idx (fdIsNonblock K p fd) with
    | none => none
    | some (T, .error e) => some ({ K with sockets := T }, negErrno e)
    | some (T, .ok newIdx) =>
      let K := { K with sockets := T }
      match K.tables[p]? with
      | none => some (K, esrch)
      | some t =>
        let r := t.allocFd (.socket newIdx)
        let t := if flags &&& sockCloexec ≠ 0 then r.1.setCloexec r.2 else r.1
        let t := if flags &&& sockNonblock ≠ 0 then t.setNonblock r.2 else t
        some (K.setTable p t, r.2)

/-- `sys_connect`, with the address read; `accepted` and `connected` are the
network's answers (see `SocketTable.socketConnect`). -/
def sysConnect (K : FdKernel) (p fd : Nat) (addr : SocketAddrV4) (accepted connected : Bool) :
    FdKernel × Nat :=
  match getSocketFromFd K p fd with
  | none => (K, ebadf)
  | some idx =>
    let c := K.sockets.socketConnect idx addr (fdIsNonblock K p fd) accepted connected
    ({ K with sockets := c.1 }, match c.2 with
      | .ok () => 0
      | .error e => negErrno e)

/-- A peer completes a handshake on handle `h`: its TCP state becomes
`Established`. -/
def establishConnection (K : FdKernel) (h : Nat) : FdKernel :=
  { K with sockets := { K.sockets with net := { K.sockets.net with
    established := h :: K.sockets.net.established } } }

/-! ## Runs -/

/-- A descriptor call of `Akuma.Syscall.Fds`, a socket call by the process
in slot `p`, or a connection arriving from the network. -/
inductive NetCall
  | fdCall (c : FdCall)
  | socket (p domain sockType : Nat)
  | bind (p fd : Nat) (addr : SocketAddrV4)
  | listen (p fd : Nat) (backlog : Int)
  | accept4 (p fd flags : Nat)
  | connect (p fd : Nat) (addr : SocketAddrV4) (accepted connected : Bool)
  | establish (h : Nat)

/-- One call; `none` when the kernel panics or a blocking accept waits. -/
def NetCall.apply (K : FdKernel) : NetCall → Option (FdKernel × Nat)
  | .fdCall c => c.apply K
  | .socket p domain sockType => some (sysSocket K p domain sockType)
  | .bind p fd addr => some (sysBind K p fd addr)
  | .listen p fd backlog => some (sysListen K p fd backlog)
  | .accept4 p fd flags => sysAccept4 K p fd flags
  | .connect p fd addr accepted connected => some (sysConnect K p fd addr accepted connected)
  | .establish h => some (establishConnection K h, 0)

/-- A run of calls: the final kernel and every call's result. -/
def runNet (K : FdKernel) : List NetCall → Option (FdKernel × List Nat)
  | [] => some (K, [])
  | c :: cs =>
    match c.apply K with
    | none => none
    | some (K', r) => (runNet K' cs).map fun (K'', rs) => (K'', r :: rs)

/-! ## Shared sockets -/

theorem getSocketFromFd_eq_some {K : FdKernel} {p fd idx : Nat} :
    getSocketFromFd K p fd = some idx ↔
      ∃ t, K.tables[p]? = some t ∧ t.getFd fd = some (.socket idx) := by
  unfold getSocketFromFd
  constructor
  · intro h
    split at h
    · next i he =>
      cases h
      cases ht : K.tables[p]? with
      | none => simp [ht] at he
      | some t => exact ⟨t, rfl, by simpa [ht] using he⟩
    · cases h
  · rintro ⟨t, ht, hfd⟩
    simp [ht, hfd]

/-- An entry that is there stays there when a descriptor is allocated. -/
theorem getFd_allocFdFrom_of_some {t : SharedFdTable} {fd minFd : Nat} {e : FileDescriptor}
    (entry : FileDescriptor) (h : t.getFd fd = some e) :
    (t.allocFdFrom minFd entry).1.getFd fd = some e := by
  have hne : fd ≠ lowestAvailableFd t.table minFd := by
    intro heq
    have hnone := OrdMap.get?_eq_none_of_not_mem (heq ▸ lowestAvailableFd_not_mem t.table minFd)
    simp [getFd, hnone] at h
  simpa [allocFdFrom, getFd, hne] using h

/-- `close` of a descriptor that names slot `idx` hands `idx` to
`remove_socket` and drops only that descriptor. -/
theorem sysClose_socket {K : FdKernel} {p fd idx : Nat} (hp : getSocketFromFd K p fd = some idx) :
    ∃ t, K.tables[p]? = some t ∧ sysClose K p fd =
      ((K.closeEntry (.socket idx)).setTable p
        ((({ t with table := t.table.erase fd } : SharedFdTable).clearCloexec fd).clearNonblock fd), 0) := by
  obtain ⟨t, ht, hfd⟩ := getSocketFromFd_eq_some.mp hp
  refine ⟨t, ht, ?_⟩
  simp only [getFd] at hfd
  simp [sysClose, ht, removeFd, hfd]



/-- Closing one of two descriptors that share a socket empties its slot; the
other descriptor still names the slot. -/
theorem sysClose_shared_socket {K : FdKernel} {p fd q fd' idx : Nat}
    (hp : getSocketFromFd K p fd = some idx) (hq : getSocketFromFd K q fd' = some idx)
    (hne : (p, fd) ≠ (q, fd')) :
    (sysClose K p fd).2 = 0 ∧ getSocketFromFd (sysClose K p fd).1 q fd' = some idx ∧
      (sysClose K p fd).1.sockets = K.sockets.removeSocket idx := by
  obtain ⟨t, ht, hclose⟩ := sysClose_socket hp
  obtain ⟨t', ht', hfd'⟩ := getSocketFromFd_eq_some.mp hq
  rw [hclose]
  refine ⟨rfl, getSocketFromFd_eq_some.mpr ?_, rfl⟩
  have hlt : p < K.tables.length := (List.getElem?_eq_some_iff.mp ht).1
  by_cases hpq : q = p
  · -- another descriptor of the same table
    subst hpq
    have hfd : fd' ≠ fd := fun h => hne (by rw [h])
    rw [ht] at ht'
    cases ht'
    refine ⟨(({ t with table := t.table.erase fd } : SharedFdTable).clearCloexec fd).clearNonblock fd,
      by simp [setTable, closeEntry, hlt], ?_⟩
    simpa [getFd, hfd] using hfd'
  · exact ⟨t', by simpa [setTable, closeEntry, List.getElem?_set, Ne.symm hpq] using ht', hfd'⟩

theorem getSocketFromFd_of_tables_eq {K K' : FdKernel} (h : K'.tables = K.tables) (p fd : Nat) :
    getSocketFromFd K' p fd = getSocketFromFd K p fd := by
  unfold getSocketFromFd
  rw [h]

/-- What `socket` does to the descriptor tables: nothing, or one descriptor
allocated in the caller's table. -/
theorem sysSocket_tables (K : FdKernel) (p domain ty : Nat) :
    (sysSocket K p domain ty).1.tables = K.tables ∨
      ∃ t idx t', K.tables[p]? = some t ∧ t'.table = (t.allocFd (.socket idx)).1.table ∧
        (sysSocket K p domain ty).1.tables = K.tables.set p t' := by
  unfold sysSocket
  by_cases hc : domain ≠ afInet ∨ (ty &&& 0xFF ≠ sockStream ∧ ty &&& 0xFF ≠ sockDgram)
  · exact .inl (by rw [if_pos hc])
  · rw [if_neg hc]
    dsimp only
    cases ha : (K.sockets.allocSocket (ty &&& 0xFF)).2 with
    | none => exact .inl rfl
    | some idx =>
      cases ht : K.tables[p]? with
      | none => exact .inl rfl
      | some t =>
        refine .inr ⟨t, idx, _, rfl, ?_, rfl⟩
        split <;> split <;> rfl

/-- `socket` changes no descriptor that is already there. -/
theorem getSocketFromFd_sysSocket {K : FdKernel} {p q fd domain ty idx : Nat}
    (h : getSocketFromFd K q fd = some idx) :
    getSocketFromFd (sysSocket K p domain ty).1 q fd = some idx := by
  rcases sysSocket_tables K p domain ty with htab | ⟨t₀, i, t', ht₀, htab', htab⟩
  · rw [getSocketFromFd_of_tables_eq htab]
    exact h
  · obtain ⟨t, ht, hfd⟩ := getSocketFromFd_eq_some.mp h
    apply getSocketFromFd_eq_some.mpr
    rw [htab]
    have hlt : p < K.tables.length := (List.getElem?_eq_some_iff.mp ht₀).1
    by_cases hpq : q = p
    · subst hpq
      rw [ht] at ht₀
      cases ht₀
      refine ⟨t', by simp [hlt], ?_⟩
      simp only [getFd, htab']
      exact getFd_allocFdFrom_of_some _ hfd
    · exact ⟨t, by simpa [List.getElem?_set, Ne.symm hpq] using ht, hfd⟩

theorem sysSocket_sockets (K : FdKernel) (p ty : Nat) (hty : ty = sockStream ∨ ty = sockDgram) :
    (sysSocket K p afInet ty).1.sockets = (K.sockets.allocSocket ty).1 := by
  have hbase : ty &&& 0xFF = ty := by rcases hty with rfl | rfl <;> rfl
  unfold sysSocket
  rw [if_neg (by rcases hty with rfl | rfl <;> decide)]
  simp only [hbase]
  split
  · rfl
  · split
    · rfl
    · rfl

/-- `listen` with a zero backlog on a bound socket fails with `ENOMEM` after
it has emptied the slot and closed a stream's handle; the descriptor still
names the slot. -/
theorem sysListen_zero_backlog {K : FdKernel} {p fd idx port : Nat} {sock : KernelSocket}
    (h : getSocketFromFd K p fd = some idx) (hs : K.sockets.table[idx]? = some (some sock))
    (hport : sock.bindPort = some port) :
    (sysListen K p fd 0).2 = negErrno LibcErrno.enomem ∧
      getSocketFromFd (sysListen K p fd 0).1 p fd = some idx ∧
      (sysListen K p fd 0).1.sockets.withSocket idx = none := by
  have hlt : idx < K.sockets.table.length := (List.getElem?_eq_some_iff.mp hs).1
  have hlisten : (K.sockets.socketListen idx 0).2 = .error LibcErrno.enomem ∧
      (K.sockets.socketListen idx 0).1.table = K.sockets.table.set idx none := by
    simp [SocketTable.socketListen, hs, hport, KernelSocket.newListener, KernelSocket.createPool]
  simp only [sysListen, h]
  refine ⟨by simp [hlisten.1], ?_, ?_⟩
  · rw [getSocketFromFd_of_tables_eq rfl]
    exact h
  · simp [hlisten.2, SocketTable.withSocket, hlt]

end Akuma.Syscall
