import Mathlib

/-!
# The kernel socket table

`akuma-net`'s `socket.rs`: the global `SOCKET_TABLE` of `KernelSocket`s,
indexed by the number a `FileDescriptor::Socket(idx)` holds, with the calls
that fill and empty its slots (`alloc_socket`, `remove_socket`,
`socket_listen`, `socket_accept`) and those that change a live socket
(`socket_bind`, `socket_connect`). A slot is a plain index: nothing counts
how many descriptors hold it.

Of smoltcp the model keeps what the socket layer asks of it: which handles
the socket set holds, the handles on which a peer's connection is
established, and the log of handles passed to `socket_close` or
`udp_socket_close`. A handle is the index of a slot of the set's storage.
`socket_create` refuses once the set holds `MAX_SOCKETS` sockets, and
otherwise takes the first free slot, so a handle comes back into use once
its socket has left the set. `udp_socket_close` takes the socket out at
once; `socket_close` only queues it, and the poll loop that takes queued
sockets out later is not modelled. A socket's `box_id`, its options and its
wakers are not modelled, nor the peer address `socket_accept` reports. The
crate returns positive errnos.
-/

namespace Akuma.Net

/-! ## Constants -/

/-- `socket_const::SOCK_STREAM`. -/
def sockStream : Nat := 1
/-- `socket_const::SOCK_DGRAM`. -/
def sockDgram : Nat := 2
/-- `MAX_SOCKETS`: the table never grows past this many slots. -/
def maxSockets : Nat := 128
/-- `MAX_BACKLOG`. -/
def maxBacklog : Nat := 8
/-- `EPHEMERAL_PORT_START`. -/
def ephemeralPortStart : Nat := 49152
/-- `EPHEMERAL_PORT_END`. -/
def ephemeralPortEnd : Nat := 65535

namespace LibcErrno

/-- `libc_errno::EBADF`. -/
def ebadf : Nat := 9
/-- `libc_errno::EAGAIN`. -/
def eagain : Nat := 11
/-- `libc_errno::ENOMEM`. -/
def enomem : Nat := 12
/-- `libc_errno::EINVAL`. -/
def einval : Nat := 22
/-- `libc_errno::ECONNABORTED`. -/
def econnaborted : Nat := 103
/-- `libc_errno::ECONNREFUSED`. -/
def econnrefused : Nat := 111
/-- `libc_errno::EINPROGRESS`. -/
def einprogress : Nat := 115

end LibcErrno

/-! ## State -/

/-- `SocketAddrV4`; the four octets of `ip` are read as one number. -/
structure SocketAddrV4 where
  ip : Nat
  port : Nat
  deriving DecidableEq, Repr

/-- `SocketType`; a handle is a smoltcp socket handle. -/
inductive SocketType
  | stream (h : Nat)
  | listener (localPort : Nat) (handles : List Nat)
  | datagram (handle : Nat) (peer : Option SocketAddrV4)
  deriving DecidableEq, Repr

/-- `KernelSocket`, without its box, options and wakers. -/
structure KernelSocket where
  inner : SocketType
  bindPort : Option Nat
  deriving DecidableEq, Repr

/-- What the socket layer sees of the smoltcp network: the handles of the
sockets in its socket set, the handles whose TCP state is `Established`, the
handles closed so far (in order), and `NEXT_EPHEMERAL_PORT`. -/
structure Network where
  live : List Nat
  established : List Nat
  closed : List Nat
  nextEphemeralPort : Nat
  deriving DecidableEq, Repr

/-- `SOCKET_TABLE` together with the network its sockets live in. -/
structure SocketTable where
  table : List (Option KernelSocket)
  net : Network
  deriving DecidableEq, Repr

/-! ## The network -/

namespace Network

/-- `MAX_SOCKETS` of `smoltcp_net.rs` in the default build: the slots of the
socket set's storage. -/
def maxSockets : Nat := 256

/-- The first slot of the storage that holds no socket: where
`SocketSet::add` puts a socket, and its handle. -/
def firstFree (live : List Nat) : Option Nat :=
  (List.range maxSockets).find? (· ∉ live)

/-- `socket_create` and `udp_socket_create`: `None` once the set holds
`MAX_SOCKETS` sockets, else the socket in the first free slot. With fewer
sockets than slots there is always one (`socketCreate_of_room`). -/
def socketCreate (n : Network) : Option (Nat × Network) :=
  if maxSockets ≤ n.live.length then none
  else (firstFree n.live).map fun h => (h, { n with live := n.live ++ [h] })

/-- `socket_close`: a handle outside the storage is refused. Any other is
closed and queued for removal; it stays in the set until the poll loop
takes it out. -/
def socketClose (n : Network) (h : Nat) : Network :=
  if h < maxSockets then { n with closed := n.closed ++ [h] } else n

/-- `udp_socket_close`: the socket is closed and taken out of the set. -/
def udpSocketClose (n : Network) (h : Nat) : Network :=
  { n with live := n.live.erase h, closed := n.closed ++ [h] }

/-- `alloc_ephemeral_port`: `fetch_add` on a `u16`, and a wrap back to the
start once the end has been handed out. -/
def allocEphemeralPort (n : Network) : Nat × Network :=
  let port := n.nextEphemeralPort
  if port = ephemeralPortEnd then
    (ephemeralPortStart, { n with nextEphemeralPort := ephemeralPortStart })
  else (port, { n with nextEphemeralPort := (port + 1) % 2 ^ 16 })

/-- Boot: an empty socket set, and the port counter at
`EPHEMERAL_PORT_START`. -/
def boot : Network := ⟨[], [], [], ephemeralPortStart⟩

/-- The first free slot is free, and below `MAX_SOCKETS`. -/
theorem firstFree_spec {live : List Nat} {h : Nat} (hf : firstFree live = some h) :
    h ∉ live ∧ h < maxSockets := by
  have hfree := List.find?_some hf
  have hmem := List.mem_of_find?_eq_some hf
  exact ⟨by simpa using hfree, List.mem_range.mp hmem⟩

/-- With fewer sockets than slots a slot is free: the handles cannot cover
the storage. -/
theorem firstFree_isSome {live : List Nat} (hlen : live.length < maxSockets) : (firstFree live).isSome := by
  rw [firstFree, List.find?_isSome]
  by_contra hall
  have hsub : List.range maxSockets ⊆ live := fun h hh => by
    by_contra hnot
    exact hall ⟨h, hh, by simpa using hnot⟩
  have := List.nodup_range.length_le_of_subset hsub
  simp only [List.length_range] at this
  omega

/-- `socket_create` with room in the set: the first free slot. -/
theorem socketCreate_of_room {n : Network} (hroom : n.live.length < maxSockets) :
    ∃ h, firstFree n.live = some h ∧ n.socketCreate = some (h, { n with live := n.live ++ [h] }) := by
  obtain ⟨h, hh⟩ := Option.isSome_iff_exists.mp (firstFree_isSome hroom)
  exact ⟨h, hh, by simp [socketCreate, Nat.not_le.mpr hroom, hh]⟩

theorem live_socketClose (n : Network) (h : Nat) : (n.socketClose h).live = n.live := by
  unfold socketClose
  split_ifs <;> rfl

end Network

/-! ## Sockets -/

/-- The smoltcp handles a socket holds. -/
def SocketType.handles : SocketType → List Nat
  | .stream h => [h]
  | .listener _ hs => hs
  | .datagram h _ => [h]

/-- What `remove_socket` closes: a stream's handle and a listener's pool
with `socket_close`, a datagram's handle with `udp_socket_close`. -/
def Network.closeSocket (n : Network) : SocketType → Network
  | .stream h => n.socketClose h
  | .listener _ hs => hs.foldl Network.socketClose n
  | .datagram h _ => n.udpSocketClose h

theorem Network.live_foldl_socketClose (hs : List Nat) (n : Network) :
    (hs.foldl Network.socketClose n).live = n.live := by
  induction hs generalizing n with
  | nil => rfl
  | cons h hs ih => rw [List.foldl_cons, ih, Network.live_socketClose]

/-- Closing a socket's handles never adds a socket to the set. -/
theorem Network.length_live_closeSocket_le (n : Network) (inner : SocketType) :
    (n.closeSocket inner).live.length ≤ n.live.length := by
  cases inner with
  | stream h => rw [closeSocket, live_socketClose]
  | listener port hs => rw [closeSocket, live_foldl_socketClose]
  | datagram h peer => exact List.length_erase_le

namespace KernelSocket

/-- `KernelSocket::new_stream`: `None` when `socket_create` refuses. -/
def newStream (n : Network) : Option (KernelSocket × Network) :=
  n.socketCreate.map fun r => (⟨.stream r.1, none⟩, r.2)

/-- `KernelSocket::new_datagram`: `None` when `udp_socket_create` refuses. -/
def newDatagram (n : Network) : Option (KernelSocket × Network) :=
  n.socketCreate.map fun r => (⟨.datagram r.1 none, none⟩, r.2)

/-- The loop of `new_listener`: `count` calls of `socket_create`, keeping
each handle that comes back, in order. -/
def createPool : Nat → Network → List Nat × Network
  | 0, n => ([], n)
  | count + 1, n =>
    match n.socketCreate with
    | some (h, n') => let r := createPool count n'; (h :: r.1, r.2)
    | none => createPool count n

/-- `KernelSocket::new_listener`: a pool of the handles that `min backlog
MAX_BACKLOG` calls of `socket_create` give, listening on `port`, or `None`
when the pool is empty. -/
def newListener (n : Network) (port backlog : Nat) : Option KernelSocket × Network :=
  let pool := createPool (min backlog maxBacklog) n
  if pool.1 = [] then (none, pool.2) else (some ⟨.listener port pool.1, some port⟩, pool.2)

end KernelSocket

/-! ## The table -/

namespace SocketTable

/-- An empty table, before the first `with_table` creates it. -/
def boot : SocketTable := ⟨[], Network.boot⟩

/-- `with_socket`: the socket in slot `idx`, if there is one. -/
def withSocket (T : SocketTable) (idx : Nat) : Option KernelSocket :=
  T.table[idx]?.bind id

/-- The slot search that `alloc_socket` and `socket_accept` both write out:
the first empty slot, else a new slot at the end while the table is shorter
than `MAX_SOCKETS`. -/
def placeSocket (table : List (Option KernelSocket)) (sock : KernelSocket) :
    Option (List (Option KernelSocket) × Nat) :=
  match table.findIdx? Option.isNone with
  | some i => some (table.set i (some sock), i)
  | none => if table.length < maxSockets then some (table ++ [some sock], table.length) else none

/-- `alloc_socket`. The socket, and its handle, is made before a slot is
looked for; a socket that finds none is dropped, and `KernelSocket` has no
`Drop` that would close the handle. -/
def allocSocket (T : SocketTable) (socketType : Nat) : SocketTable × Option Nat :=
  let created :=
    if socketType = sockStream then KernelSocket.newStream T.net
    else if socketType = sockDgram then KernelSocket.newDatagram T.net
    else none
  match created with
  | none => (T, none)
  | some c =>
    match placeSocket T.table c.1 with
    | some p => (⟨p.1, c.2⟩, some p.2)
    | none => (⟨T.table, c.2⟩, none)

/-- `remove_socket`: take the socket out of its slot and close its handles;
an empty or missing slot is left alone. -/
def removeSocket (T : SocketTable) (idx : Nat) : SocketTable :=
  match T.table[idx]? with
  | some (some sock) => ⟨T.table.set idx none, T.net.closeSocket sock.inner⟩
  | _ => T

/-- `socket_bind`. A datagram socket asks for an ephemeral port on port 0;
smoltcp's `udp_socket_bind` is taken to succeed. -/
def socketBind (T : SocketTable) (idx : Nat) (addr : SocketAddrV4) :
    SocketTable × Except Nat Unit :=
  match T.table[idx]? with
  | some (some sock) =>
    match sock.inner with
    | .datagram _ _ =>
      let r := if addr.port = 0 then T.net.allocEphemeralPort else (addr.port, T.net)
      (⟨T.table.set idx (some { sock with bindPort := some r.1 }), r.2⟩, .ok ())
    | _ => ({ T with table := T.table.set idx (some { sock with bindPort := some addr.port }) }, .ok ())
  | _ => (T, .error LibcErrno.ebadf)

/-- `socket_listen`. The slot is emptied before the listener is built, and
of the old socket only a stream's handle is closed. When `new_listener`
fails the slot stays empty. -/
def socketListen (T : SocketTable) (idx backlog : Nat) : SocketTable × Except Nat Unit :=
  match T.table[idx]? with
  | some (some sock) =>
    match sock.bindPort with
    | none => (T, .error LibcErrno.einval)
    | some port =>
      let net := match sock.inner with
        | .stream h => T.net.socketClose h
        | _ => T.net
      let l := KernelSocket.newListener net port backlog
      match l.1 with
      | some lsock => (⟨T.table.set idx (some lsock), l.2⟩, .ok ())
      | none => (⟨T.table.set idx none, l.2⟩, .error LibcErrno.enomem)
  | _ => (T, .error LibcErrno.ebadf)

/-- `has_pending_connection`: slot `idx` is a listener with an established
handle in its pool. -/
def hasPendingConnection (T : SocketTable) (idx : Nat) : Bool :=
  match T.withSocket idx with
  | some ⟨.listener _ handles, _⟩ => handles.any (· ∈ T.net.established)
  | _ => false

/-- The table step of `socket_accept`: take the first established handle out
of the listener's pool and put a new handle, listening on the same port, at
its back, if `socket_create` gives one. The handle removed at the first
established index is the first occurrence of that handle, so `erase` is
`remove(i)`. -/
def dequeueEstablished (T : SocketTable) (idx : Nat) : Option (SocketTable × Nat) :=
  match T.table[idx]? with
  | some (some ⟨.listener port handles, bp⟩) =>
    match handles.find? (· ∈ T.net.established) with
    | none => none
    | some h =>
      let refill : List Nat × Network := match T.net.socketCreate with
        | some (fresh, net) => (handles.erase h ++ [fresh], net)
        | none => (handles.erase h, T.net)
      some (⟨T.table.set idx (some ⟨.listener port refill.1, bp⟩), refill.2⟩, h)
  | _ => none

/-- `socket_accept`, with its wait: `none` while a blocking call is still
waiting for a connection. The dequeued connection becomes a stream socket
in a slot found as `alloc_socket` finds one; when there is none the call
fails with `ENOMEM`, and the connection's handle is dropped unclosed. -/
def socketAccept (T : SocketTable) (idx : Nat) (nonblock : Bool) :
    Option (SocketTable × Except Nat Nat) :=
  if !T.hasPendingConnection idx then
    if nonblock then some (T, .error LibcErrno.eagain) else none
  else
    match T.dequeueEstablished idx with
    | none => some (T, .error LibcErrno.econnaborted)
    | some d =>
      match placeSocket d.1.table ⟨.stream d.2, none⟩ with
      | some p => some ({ d.1 with table := p.1 }, .ok p.2)
      | none => some (d.1, .error LibcErrno.enomem)

/-- `socket_connect`. A datagram socket records its peer and takes an
ephemeral port if it has none. A stream socket takes an ephemeral port if it
has none, then its result is the network's: `accepted` is whether smoltcp's
`connect` took the request, and `connected` whether the wait ended in
`Established`. -/
def socketConnect (T : SocketTable) (idx : Nat) (addr : SocketAddrV4) (nonblock accepted connected : Bool) :
    SocketTable × Except Nat Unit :=
  match T.table[idx]? with
  | some (some ⟨.datagram h _, bp⟩) =>
    match bp with
    | some port => ({ T with table := T.table.set idx (some ⟨.datagram h (some addr), some port⟩) }, .ok ())
    | none =>
      let r := T.net.allocEphemeralPort
      (⟨T.table.set idx (some ⟨.datagram h (some addr), some r.1⟩), r.2⟩, .ok ())
  | some (some ⟨.stream h, bp⟩) =>
    let T := match bp with
      | some _ => T
      | none =>
        let r := T.net.allocEphemeralPort
        ⟨T.table.set idx (some ⟨.stream h, some r.1⟩), r.2⟩
    let res : Except Nat Unit :=
      if !accepted then .error LibcErrno.econnrefused
      else if nonblock then .error LibcErrno.einprogress
      else if connected then .ok ()
      else .error LibcErrno.econnrefused
    (T, res)
  | _ => (T, .error LibcErrno.ebadf)

/-! ## Slots -/

/-- `remove_socket` empties its slot, whoever else still names it. -/
theorem withSocket_removeSocket_self (T : SocketTable) (idx : Nat) :
    (T.removeSocket idx).withSocket idx = none := by
  unfold removeSocket
  split
  · next sock hslot =>
    have hlt : idx < T.table.length := (List.getElem?_eq_some_iff.mp hslot).1
    simp [withSocket, hlt]
  · next hslot =>
    unfold withSocket
    cases h : T.table[idx]? with
    | none => rfl
    | some slot =>
      cases slot with
      | none => rfl
      | some sock => exact absurd h (hslot sock)

theorem removeSocket_of_some {T : SocketTable} {idx : Nat} {sock : KernelSocket}
    (h : T.table[idx]? = some (some sock)) :
    T.removeSocket idx = ⟨T.table.set idx none, T.net.closeSocket sock.inner⟩ := by
  simp [removeSocket, h]

theorem withSocket_removeSocket_of_ne (T : SocketTable) {idx j : Nat} (hj : j ≠ idx) :
    (T.removeSocket idx).withSocket j = T.withSocket j := by
  unfold removeSocket
  split
  · simp [withSocket, Ne.symm hj]
  · rfl

/-- The slot search takes the first empty slot. -/
theorem placeSocket_of_first_empty {table : List (Option KernelSocket)} {i : Nat}
    (sock : KernelSocket) (hi : table[i]? = some none)
    (hfull : ∀ j < i, ∃ s, table[j]? = some (some s)) :
    placeSocket table sock = some (table.set i (some sock), i) := by
  obtain ⟨hlt, hget⟩ := List.getElem?_eq_some_iff.mp hi
  have hfind : table.findIdx? Option.isNone = some i := by
    rw [List.findIdx?_eq_some_iff_getElem]
    refine ⟨hlt, by simp [hget], fun j hj => ?_⟩
    obtain ⟨s, hs⟩ := hfull j hj
    obtain ⟨_, hs⟩ := List.getElem?_eq_some_iff.mp hs
    simp [hs]
  simp [placeSocket, hfind]

/-- `alloc_socket` of a stream or datagram socket, when the network makes
the socket, takes the first empty slot. -/
theorem allocSocket_first_empty {T : SocketTable} {ty idx h : Nat} {n' : Network}
    (hty : ty = sockStream ∨ ty = sockDgram) (hnet : T.net.socketCreate = some (h, n'))
    (hi : T.table[idx]? = some none) (hfull : ∀ j < idx, ∃ s, T.table[j]? = some (some s)) :
    (T.allocSocket ty).2 = some idx := by
  unfold allocSocket
  rcases hty with rfl | rfl <;>
    simp [sockStream, sockDgram, KernelSocket.newStream, KernelSocket.newDatagram, hnet,
      placeSocket_of_first_empty _ hi hfull]

/-- The slot search writes the socket into the slot it returns and no other. -/
theorem getElem?_placeSocket {table table' : List (Option KernelSocket)} {sock : KernelSocket}
    {i : Nat} (h : placeSocket table sock = some (table', i)) (j : Nat) :
    table'[j]? = if j = i then some (some sock) else table[j]? := by
  unfold placeSocket at h
  split at h
  · next k hk =>
    -- an empty slot inside the table
    obtain ⟨rfl, rfl⟩ := Prod.mk.inj (Option.some.inj h)
    have hlt := (List.findIdx?_eq_some_iff_getElem.mp hk).1
    by_cases hj : j = k
    · subst hj; simp [hlt]
    · simp [Ne.symm hj, hj]
  · split at h
    · -- a new slot at the end
      obtain ⟨rfl, rfl⟩ := Prod.mk.inj (Option.some.inj h)
      by_cases hj : j = table.length
      · subst hj; simp
      · rw [if_neg hj, List.getElem?_append]
        split
        · rfl
        · next hge =>
          have : j - table.length ≠ 0 := by omega
          simp [this, List.getElem?_eq_none (Nat.le_of_not_lt hge)]
    · cases h

theorem withSocket_of_placeSocket {table table' : List (Option KernelSocket)} {sock : KernelSocket}
    {i : Nat} (net : Network) (h : placeSocket table sock = some (table', i)) (j : Nat) :
    (⟨table', net⟩ : SocketTable).withSocket j =
      if j = i then some sock else (⟨table, net⟩ : SocketTable).withSocket j := by
  unfold withSocket
  rw [getElem?_placeSocket h j]
  split <;> rfl

/-- A socket `alloc_socket` places holds the one handle `socket_create`
gave it. Every other slot is as it was. -/
theorem withSocket_allocSocket {T : SocketTable} {ty i : Nat} (h : (T.allocSocket ty).2 = some i) :
    ∃ sock : KernelSocket, ∃ handle n', T.net.socketCreate = some (handle, n') ∧ sock.inner.handles = [handle] ∧
      ∀ j, (T.allocSocket ty).1.withSocket j = if j = i then some sock else T.withSocket j := by
  unfold allocSocket at h ⊢
  generalize hc : (if ty = sockStream then KernelSocket.newStream T.net
    else if ty = sockDgram then KernelSocket.newDatagram T.net else none) = created at h ⊢
  -- both constructors wrap the one handle `socket_create` gives
  have hmade : ∀ c, created = some c → ∃ handle n', T.net.socketCreate = some (handle, n') ∧
      c.1.inner.handles = [handle] := by
    intro c hcc
    subst hcc
    cases hnet : T.net.socketCreate with
    | none => split_ifs at hc <;> simp [KernelSocket.newStream, KernelSocket.newDatagram, hnet] at hc
    | some r =>
      refine ⟨r.1, r.2, rfl, ?_⟩
      split_ifs at hc <;>
        simp only [KernelSocket.newStream, KernelSocket.newDatagram, hnet, Option.map_some,
          Option.some.injEq] at hc <;> subst hc <;> rfl
  cases created with
  | none => cases h
  | some c =>
    dsimp only at h ⊢
    cases hp : placeSocket T.table c.1 with
    | none => simp [hp] at h
    | some p =>
      simp only [hp, Option.some.injEq] at h ⊢
      subst h
      obtain ⟨handle, n', hnet, hhandles⟩ := hmade c rfl
      exact ⟨c.1, handle, n', hnet, hhandles, withSocket_of_placeSocket c.2 hp⟩

end SocketTable

end Akuma.Net
