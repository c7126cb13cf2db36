import Akuma.Syscall.Futex
import Akuma.Lib.OrdMap
import Akuma.Lib.Bytes

/-!
# SysV message queues

`syscall/msgqueue.rs`: `MSGQUEUE_TABLE`, keyed by the caller's box and the
queue id, and the four calls on it. The critical section of a call is one
step. A call that would block (a full queue for `msgsnd`, no matching
message for `msgrcv`) registers its thread as a poller and gives no result;
the caller tries again after a wakeup, as a new step. Waking the pollers is
left out; clearing them is kept.

The copies to and from the caller go through `copy_from_user_safe` and
`copy_to_user_safe`, which stop at the first byte that faults.
`validate_user_ptr` checks only that the range is mapped or can be demand
paged, not that it can be written. The caller's memory is kept as the byte
at each address and which addresses are mapped, readable and writable.
-/

namespace Akuma.Syscall

open ByteCodec

/-! ## Constants -/

/-- `IPC_PRIVATE`. -/
def ipcPrivate : Int := 0
/-- `IPC_CREAT`. -/
def ipcCreat : Nat := 0o1000
/-- `IPC_EXCL`. -/
def ipcExcl : Nat := 0o2000
/-- `IPC_RMID`. -/
def ipcRmid : Nat := 0
/-- `IPC_SET`. -/
def ipcSet : Nat := 1
/-- `IPC_STAT`. -/
def ipcStat : Nat := 2
/-- `IPC_NOWAIT`. -/
def ipcNowait : Nat := 0o4000
/-- `MSG_NOERROR`. -/
def msgNoerror : Nat := 0o10000
/-- `MSGMAX`. -/
def msgmax : Nat := 8192
/-- `MSGMNB`. -/
def msgmnb : Nat := 16384

/-- `ENOENT`. -/
def enoent : Nat := negErrno 2
/-- `E2BIG`. -/
def e2big : Nat := negErrno 7
/-- `EEXIST`. -/
def eexist : Nat := negErrno 17
/-- `ENOMSG`. -/
def enomsg : Nat := negErrno 42

/-! ## The caller's memory -/

/-- The caller's memory as the copy routines see it. -/
structure UserMem where
  byte : Nat → UInt8
  mapped : Nat → Bool
  readable : Nat → Bool
  writable : Nat → Bool

namespace UserMem

variable (mem : UserMem)

/-- The top of user space that `validate_user_ptr` allows. -/
def userVaLimit : Nat := 0x0000_FFFF_FFFF_FFFF

/-- `validate_user_ptr`: a range above the first page, inside user space,
and mapped (or mapped on demand). -/
def validateUserPtr (ptr len : Nat) : Bool :=
  decide (0x1000 ≤ ptr) && decide (ptr + len < 2 ^ 64) && decide (ptr + len ≤ userVaLimit) &&
    (List.range len).all fun i => mem.mapped (ptr + i)

/-- `copy_from_user_safe`: the `len` bytes at `src`, unless one of them
cannot be read. -/
def copyFromUserSafe (src len : Nat) : Option (List UInt8) :=
  if (List.range len).all fun i => mem.readable (src + i) then
    some ((List.range len).map fun i => mem.byte (src + i))
  else none

/-- The memory with `b` stored at `a`. -/
def store (a : Nat) (b : UInt8) : UserMem := { mem with byte := Function.update mem.byte a b }

/-- `copy_to_user_safe`: the bytes are stored from `dst` on until one cannot
be written; `true` when all of them were. -/
def copyToUserSafe (mem : UserMem) : Nat → List UInt8 → Bool × UserMem
  | _, [] => (true, mem)
  | dst, b :: bs =>
    if mem.writable dst then copyToUserSafe (mem.store dst b) (dst + 1) bs else (false, mem)

end UserMem

/-! ## The table -/

/-- `KernelMsg`. -/
structure KernelMsg where
  mtype : Int
  data : List UInt8
  deriving DecidableEq, Repr

/-- `MsgQueue`. The poller sets are kept in ascending order. -/
structure MsgQueue where
  key : Int
  mode : Nat
  cbytes : Nat
  messages : List KernelMsg
  recvPollers : List Nat
  sendPollers : List Nat
  deriving DecidableEq, Repr

/-- `MSGQUEUE_TABLE`, keyed by `(box_id, msqid)` in the order of the
`BTreeMap`, and `NEXT_MSQID`. -/
structure MsgState where
  table : OrdMap (Nat ×ₗ Nat) MsgQueue
  nextMsqid : Nat

/-- An empty queue with the given key and mode. -/
def MsgQueue.new (key : Int) (mode : Nat) : MsgQueue := ⟨key, mode, 0, [], [], []⟩

/-- `BTreeSet::insert` of a thread id. -/
def insertTid (tid : Nat) (tids : List Nat) : List Nat :=
  if tid ∈ tids then tids else (tid :: tids).insertionSort (· ≤ ·)

/-- The bytes of `data` in a queue: what `cbytes` should count. -/
def MsgQueue.dataBytes (q : MsgQueue) : Nat := (q.messages.map (·.data.length)).sum

/-- The `i64` that eight bytes hold, little-endian. -/
def i64OfBytes (bs : List UInt8) : Int :=
  let n := leNat bs
  if n < 2 ^ 63 then n else (n : Int) - 2 ^ 64

/-- `i64::to_ne_bytes` on a little-endian machine. -/
def bytesOfI64 (x : Int) : List UInt8 := leBytes (x % 2 ^ 64).toNat 8

namespace MsgState

variable (st : MsgState)

/-- No queue, and the first id 1. -/
def boot : MsgState := ⟨.empty, 1⟩

/-- The queue `(boxId, msqid)`. -/
def get? (boxId msqid : Nat) : Option MsgQueue := st.table.get? (toLex (boxId, msqid))

/-- The table with `(boxId, msqid)` set to `q`. -/
def set (boxId msqid : Nat) (q : MsgQueue) : MsgState :=
  { st with table := st.table.insert (toLex (boxId, msqid)) q }

/-- `NEXT_MSQID.fetch_add(1)`: the id, and the counter one on (a `u32`). -/
def takeMsqid : Nat × MsgState := (st.nextMsqid, { st with nextMsqid := (st.nextMsqid + 1) % 2 ^ 32 })

end MsgState

/-! ## The calls -/

section Calls

variable (boxId tid : Nat) (st : MsgState) (mem : UserMem)

/-- `sys_msgget` from a process in box `boxId`. -/
def sysMsgget (key : Int) (flags : Nat) : Nat × MsgState :=
  if key = ipcPrivate then
    let (msqid, st) := st.takeMsqid
    (msqid, st.set boxId msqid (.new key (flags &&& 0o777)))
  else
    let found := (st.table.entries.find? fun e => (ofLex e.1).1 = boxId ∧ e.2.key = key).map
      fun e => (ofLex e.1).2
    match found with
    | some msqid => if flags &&& ipcExcl ≠ 0 then (eexist, st) else (msqid, st)
    | none =>
      if flags &&& ipcCreat ≠ 0 then
        let (msqid, st) := st.takeMsqid
        (msqid, st.set boxId msqid (.new key (flags &&& 0o777)))
      else (enoent, st)

/-- The `msqid_ds` that `IPC_STAT` writes: key, mode, `msg_cbytes`,
`msg_qnum` and `msg_qbytes` at their offsets, zeros elsewhere. -/
def msqidDs (key : Int) (mode cbytes qnum : Nat) : List UInt8 :=
  leBytes (key % 2 ^ 32).toNat 4 ++ List.replicate 16 0 ++ leBytes mode 2 ++ List.replicate 50 0 ++
    leBytes cbytes 8 ++ leBytes qnum 8 ++ leBytes msgmnb 8 ++ List.replicate 16 0

/-- `sys_msgctl`. -/
def sysMsgctl (msqid cmd buf : Nat) : Nat × MsgState × UserMem :=
  if cmd = ipcRmid then
    (0, { st with table := st.table.erase (toLex (boxId, msqid)) }, mem)
  else if cmd = ipcStat then
    if !mem.validateUserPtr buf 112 then (efault, st, mem) else
    let ds := match st.get? boxId msqid with
      | some q => msqidDs q.key q.mode q.cbytes q.messages.length
      | none => msqidDs 0 0 0 0
    match mem.copyToUserSafe buf ds with
    | (true, mem) => (0, st, mem)
    | (false, mem) => (efault, st, mem)
  else if cmd = ipcSet then
    if !mem.validateUserPtr buf 112 then (efault, st, mem) else
    match mem.copyFromUserSafe buf 112 with
    | none => (efault, st, mem)
    | some ds =>
      let mode := leNat ((ds.drop 20).take 2)
      match st.get? boxId msqid with
      | some q => (0, st.set boxId msqid { q with mode }, mem)
      | none => (einval, st, mem)
  else (einval, st, mem)

/-- `sys_msgsnd`: the message is read from the caller first; then, under the
lock, it is queued if it fits. `none` when the call blocks. -/
def sysMsgsnd (msqid msgp msgsz flags : Nat) : Option Nat × MsgState :=
  if msgsz > msgmax then (some einval, st) else
  if !mem.validateUserPtr msgp (8 + msgsz) then (some efault, st) else
  match mem.copyFromUserSafe msgp 8 with
  | none => (some efault, st)
  | some mtypeBytes =>
    let mtype := i64OfBytes mtypeBytes
    if mtype ≤ 0 then (some einval, st) else
    let data := if msgsz > 0 then mem.copyFromUserSafe (msgp + 8) msgsz else some []
    match data with
    | none => (some efault, st)
    | some data =>
      match st.get? boxId msqid with
      | none => (some einval, st)
      | some q =>
        if q.cbytes + msgsz > msgmnb then
          if flags &&& ipcNowait ≠ 0 then (some eagain, st)
          else (none, st.set boxId msqid { q with sendPollers := insertTid tid q.sendPollers })
        else
          (some 0, st.set boxId msqid
            { q with cbytes := q.cbytes + msgsz, messages := q.messages ++ [⟨mtype, data⟩],
                     recvPollers := [] })

/-- The message `msgrcv` takes for `msgtyp`: the first, the first of type
`msgtyp`, or the first of the lowest type at most `-msgtyp` (as an `i64`). -/
def msgIndex (messages : List KernelMsg) (msgtyp : Int) : Option Nat :=
  if msgtyp = 0 then (if messages.isEmpty then none else some 0)
  else if msgtyp > 0 then messages.findIdx? (·.mtype = msgtyp)
  else
    -- `-msgtyp` wraps in `i64`, so `i64::MIN` stays itself
    let absTyp := (-msgtyp).bmod (2 ^ 64)
    -- the scan keeps the first message of each new lowest type
    (messages.zipIdx.foldl (fun best e =>
      if e.1.mtype ≤ absTyp ∧ (best.isNone ∨ e.1.mtype < (best.map (·.2)).getD 0) then
        some (e.2, e.1.mtype)
      else best) none).map (·.1)

/-- The copies of `msgrcv`: the type, then `len` bytes of the data. -/
def copyMsgOut (msgp len : Nat) (msg : KernelMsg) : Bool × UserMem :=
  match mem.copyToUserSafe msgp (bytesOfI64 msg.mtype) with
  | (false, mem) => (false, mem)
  | (true, mem) => if len > 0 then mem.copyToUserSafe (msgp + 8) (msg.data.take len) else (true, mem)

/-- `sys_msgrcv`. The message leaves the queue before it is copied out. On
the exact path `cbytes` drops before the copies; on the truncating path
(`MSG_NOERROR`) only after them. `none` when the call blocks. -/
def sysMsgrcv (msqid msgp msgsz : Nat) (msgtyp : Int) (flags : Nat) :
    Option Nat × MsgState × UserMem :=
  if !mem.validateUserPtr msgp (8 + msgsz) then (some efault, st, mem) else
  match st.get? boxId msqid with
  | none => (some einval, st, mem)
  | some q =>
    match msgIndex q.messages msgtyp with
    | none =>
      if flags &&& ipcNowait ≠ 0 then (some enomsg, st, mem)
      else (none, st.set boxId msqid { q with recvPollers := insertTid tid q.recvPollers }, mem)
    | some idx =>
      let msg := q.messages.getD idx ⟨0, []⟩
      let rest := q.messages.eraseIdx idx
      let actualLen := msg.data.length
      if actualLen > msgsz then
        -- put back at the same place
        if flags &&& msgNoerror = 0 then (some e2big, st, mem) else
        match copyMsgOut mem msgp msgsz msg with
        | (false, mem) => (some efault, st.set boxId msqid { q with messages := rest }, mem)
        | (true, mem) =>
          (some msgsz, st.set boxId msqid
            { q with messages := rest, cbytes := q.cbytes - actualLen, sendPollers := [] }, mem)
      else
        let q := { q with messages := rest, cbytes := q.cbytes - actualLen }
        match copyMsgOut mem msgp actualLen msg with
        | (false, mem) => (some efault, st.set boxId msqid q, mem)
        | (true, mem) => (some actualLen, st.set boxId msqid { q with sendPollers := [] }, mem)

end Calls

/-! ## What a call does to the table -/

section Effects

theorem UserMem.length_of_copyFromUserSafe {mem : UserMem} {src len : Nat} {bs : List UInt8}
    (h : mem.copyFromUserSafe src len = some bs) : bs.length = len := by
  unfold UserMem.copyFromUserSafe at h
  split_ifs at h
  cases h
  simp

/-- The lowest-type scan picks an index of the list. -/
theorem lt_of_foldl_lowest {l : List (KernelMsg × Nat)} {n : Nat} {t : Int}
    (hl : ∀ e ∈ l, e.2 < n) :
    ∀ best : Option (Nat × Int), (∀ p ∈ best, p.1 < n) →
      ∀ p ∈ l.foldl (fun best e =>
        if e.1.mtype ≤ t ∧ (best.isNone ∨ e.1.mtype < (best.map (·.2)).getD 0) then
          some (e.2, e.1.mtype)
        else best) best, p.1 < n := by
  induction l with
  | nil => exact fun best hb => hb
  | cons e l ih =>
    intro best hb
    rw [List.foldl_cons]
    apply ih (fun e' he' => hl e' (List.mem_cons_of_mem e he'))
    split_ifs
    · intro p hp
      cases hp
      exact hl e List.mem_cons_self
    · exact hb

/-- `msgrcv` takes a message that is in the queue. -/
theorem msgIndex_lt {messages : List KernelMsg} {msgtyp : Int} {i : Nat}
    (h : msgIndex messages msgtyp = some i) : i < messages.length := by
  unfold msgIndex at h
  split_ifs at h with h0 hempty
  · cases messages with
    | nil => exact absurd rfl hempty
    | cons m ms =>
      cases h
      simp
  · exact (List.findIdx?_eq_some_iff_findIdx_eq.mp h).1
  · obtain ⟨p, hp, rfl⟩ := Option.map_eq_some_iff.mp h
    refine lt_of_foldl_lowest (fun e he => ?_) none (fun _ hp => by cases hp) p hp
    simpa using (List.mem_zipIdx (x := e.1) he).2.1

/-- What a call can do to a queue it writes, given the call's result `r`:
keep its messages and `cbytes`, queue a message, take one out, or (with
`EFAULT` only) take one out and keep counting its bytes. -/
inductive Change (q : MsgQueue) : MsgQueue → Option Nat → Prop where
  | same {q' r} : q'.cbytes = q.cbytes → q'.messages = q.messages → Change q q' r
  | send {q' r} (msg : KernelMsg) : q'.cbytes = q.cbytes + msg.data.length →
      q'.messages = q.messages ++ [msg] → q'.cbytes ≤ msgmnb → Change q q' r
  | receive {q' r} (i : Nat) : i < q.messages.length →
      q'.cbytes = q.cbytes - (q.messages.getD i ⟨0, []⟩).data.length →
      q'.messages = q.messages.eraseIdx i → Change q q' r
  | lose {q'} (i : Nat) : i < q.messages.length → q'.cbytes = q.cbytes →
      q'.messages = q.messages.eraseIdx i → Change q q' (some efault)

/-- What a call from box `b` with result `r` can do to the table: nothing,
remove one of `b`'s queues, create one of `b`'s queues under the next id, or
change one of `b`'s queues. -/
inductive Effect (b : Nat) (st : MsgState) (r : Option Nat) : MsgState → Prop where
  | keep : Effect b st r st
  | remove (m : Nat) : Effect b st r { st with table := st.table.erase (toLex (b, m)) }
  | create (key : Int) (mode : Nat) :
      Effect b st r (st.takeMsqid.2.set b st.takeMsqid.1 (.new key mode))
  | modify {m : Nat} {q q' : MsgQueue} : st.get? b m = some q → Change q q' r →
      Effect b st r (st.set b m q')

variable {boxId tid : Nat} {st : MsgState} {mem : UserMem}

theorem sysMsgget_effect (key : Int) (flags : Nat) (r : Option Nat) :
    Effect boxId st r (sysMsgget boxId st key flags).2 := by
  unfold sysMsgget
  split
  · exact .create _ _
  · dsimp only
    split
    · split <;> exact .keep
    · split
      · exact .create _ _
      · exact .keep

theorem sysMsgctl_effect (msqid cmd buf : Nat) (r : Option Nat) :
    Effect boxId st r (sysMsgctl boxId st mem msqid cmd buf).2.1 := by
  unfold sysMsgctl
  split
  · exact .remove msqid
  split
  · -- `IPC_STAT` only writes to the caller
    split
    · exact .keep
    · dsimp only
      split <;> exact .keep
  split
  · -- `IPC_SET` changes the mode alone
    split
    · exact .keep
    split
    · exact .keep
    · dsimp only
      split
      · rename_i q hq
        exact .modify hq (.same rfl rfl)
      · exact .keep
  · exact .keep

theorem sysMsgsnd_effect (msqid msgp msgsz flags : Nat) (r : Option Nat) :
    Effect boxId st r (sysMsgsnd boxId tid st mem msqid msgp msgsz flags).2 := by
  unfold sysMsgsnd
  split
  · exact .keep
  split
  · exact .keep
  split
  · exact .keep
  dsimp only
  split
  · exact .keep
  split
  · exact .keep
  rename_i data hdata
  split
  · exact .keep
  rename_i q hq
  split
  · -- a full queue: the caller blocks, or fails with `EAGAIN`
    split
    · exact .keep
    · exact .modify hq (.same rfl rfl)
  · rename_i hfits
    -- the queued message is the `msgsz` bytes read from the caller
    have hlen : data.length = msgsz := by
      by_cases hpos : msgsz > 0
      · rw [if_pos hpos] at hdata
        exact UserMem.length_of_copyFromUserSafe hdata
      · rw [if_neg hpos] at hdata
        cases hdata
        simp only [List.length_nil]
        omega
    refine .modify hq (.send _ ?_ rfl ?_)
    · simp [hlen]
    · simp only
      omega

theorem sysMsgrcv_effect (msqid msgp msgsz : Nat) (msgtyp : Int) (flags : Nat) :
    Effect boxId st (sysMsgrcv boxId tid st mem msqid msgp msgsz msgtyp flags).1
      (sysMsgrcv boxId tid st mem msqid msgp msgsz msgtyp flags).2.1 := by
  unfold sysMsgrcv
  split
  · exact .keep
  split
  · exact .keep
  rename_i q hq
  split
  · split
    · exact .keep
    · exact .modify hq (.same rfl rfl)
  rename_i idx hidx
  have hi := msgIndex_lt hidx
  dsimp only
  split
  · split
    · exact .keep
    split
    · -- the truncating path returns `EFAULT` before `cbytes` drops
      exact .modify hq (.lose idx hi rfl rfl)
    · exact .modify hq (.receive idx hi rfl rfl)
  · split
    · exact .modify hq (.receive idx hi rfl rfl)
    · exact .modify hq (.receive idx hi rfl rfl)

/-- A caller with one writable page at `0x10000` and one mapped read-only
page at `0x20000`: it holds a message of type 1 and four bytes `0xAA`. -/
def rwRoMem : UserMem where
  byte a := if a = 0x10000 then 1 else if 0x10008 ≤ a ∧ a < 0x1000C then 0xAA else 0
  mapped a := 0x10000 ≤ a ∧ a < 0x11000 ∨ 0x20000 ≤ a ∧ a < 0x21000
  readable a := 0x10000 ≤ a ∧ a < 0x11000 ∨ 0x20000 ≤ a ∧ a < 0x21000
  writable a := 0x10000 ≤ a ∧ a < 0x11000

/-- A truncating `msgrcv` into a read-only buffer passes `validate_user_ptr`,
takes the message and fails with `EFAULT`: the message is gone and `cbytes`
still counts its four bytes. -/
theorem msgrcv_truncating_fault_keeps_cbytes :
    (let s1 := sysMsgget 0 .boot ipcPrivate 0o600
     let s2 := sysMsgsnd 0 7 s1.2 rwRoMem s1.1 0x10000 4 0
     let s3 := sysMsgrcv 0 7 s2.2 rwRoMem s1.1 0x20000 2 0 msgNoerror
     s1.1 = 1 ∧ s2.1 = some 0 ∧ s3.1 = some efault ∧
       (s3.2.1.get? 0 1).map (fun q => (q.cbytes, q.messages)) = some (4, [])) := by
  decide +kernel

end Effects

/-! ## Runs of calls from any boxes -/

/-- The four calls, with their arguments. -/
inductive MsgCall where
  | msgget (key : Int) (flags : Nat)
  | msgctl (msqid cmd buf : Nat)
  | msgsnd (msqid msgp msgsz flags : Nat)
  | msgrcv (msqid msgp msgsz : Nat) (msgtyp : Int) (flags : Nat)

/-- A call by thread `tid` of a process in box `boxId`, whose memory is `mem`. -/
structure MsgStep where
  boxId : Nat
  tid : Nat
  mem : UserMem
  call : MsgCall

/-- The result of one critical section, and the table after it. -/
def MsgStep.apply (c : MsgStep) (st : MsgState) : Option Nat × MsgState :=
  match c.call with
  | .msgget key flags => (some (sysMsgget c.boxId st key flags).1, (sysMsgget c.boxId st key flags).2)
  | .msgctl msqid cmd buf =>
    (some (sysMsgctl c.boxId st c.mem msqid cmd buf).1, (sysMsgctl c.boxId st c.mem msqid cmd buf).2.1)
  | .msgsnd msqid msgp msgsz flags => sysMsgsnd c.boxId c.tid st c.mem msqid msgp msgsz flags
  | .msgrcv msqid msgp msgsz msgtyp flags =>
    ((sysMsgrcv c.boxId c.tid st c.mem msqid msgp msgsz msgtyp flags).1,
      (sysMsgrcv c.boxId c.tid st c.mem msqid msgp msgsz msgtyp flags).2.1)

/-- The table after a sequence of steps, and the result of each. -/
def runMsg (st : MsgState) : List MsgStep → MsgState × List (Option Nat)
  | [] => (st, [])
  | c :: cs => ((runMsg (c.apply st).2 cs).1, (c.apply st).1 :: (runMsg (c.apply st).2 cs).2)

theorem MsgStep.effect (c : MsgStep) (st : MsgState) :
    Effect c.boxId st (c.apply st).1 (c.apply st).2 := by
  rcases c with ⟨boxId, tid, mem, call⟩
  cases call with
  | msgget key flags => exact sysMsgget_effect key flags _
  | msgctl msqid cmd buf => exact sysMsgctl_effect msqid cmd buf _
  | msgsnd msqid msgp msgsz flags => exact sysMsgsnd_effect msqid msgp msgsz flags _
  | msgrcv msqid msgp msgsz msgtyp flags => exact sysMsgrcv_effect msqid msgp msgsz msgtyp flags

/-! ## Invariants over runs -/

section Invariants

/-- Taking an element out drops its share from the sum. -/
theorem sum_map_eraseIdx {α : Type} (f : α → Nat) (d : α) :
    ∀ (l : List α) (i : Nat), i < l.length →
      ((l.eraseIdx i).map f).sum + f (l.getD i d) = (l.map f).sum := by
  intro l
  induction l with
  | nil => intro i h; cases h
  | cons m l ih =>
    intro i hi
    cases i with
    | zero => simp [Nat.add_comm]
    | succ i =>
      have hi' : i < l.length := by simpa using hi
      have := ih i hi'
      simp only [List.eraseIdx_cons_succ, List.map_cons, List.sum_cons, List.getD_cons_succ]
      omega

namespace MsgQueue

variable {q q' : MsgQueue}

theorem dataBytes_of_messages (h : q'.messages = q.messages) : q'.dataBytes = q.dataBytes := by
  simp [dataBytes, h]

theorem dataBytes_of_append {msg : KernelMsg} (h : q'.messages = q.messages ++ [msg]) :
    q'.dataBytes = q.dataBytes + msg.data.length := by
  simp [dataBytes, h]

theorem dataBytes_of_eraseIdx {i : Nat} (hi : i < q.messages.length)
    (h : q'.messages = q.messages.eraseIdx i) :
    q'.dataBytes + (q.messages.getD i ⟨0, []⟩).data.length = q.dataBytes := by
  simp only [dataBytes, h]
  exact sum_map_eraseIdx (·.data.length) ⟨0, []⟩ q.messages i hi

/-- The data fits in `cbytes`, and `cbytes` in `MSGMNB`. -/
def Bounded (q : MsgQueue) : Prop := q.dataBytes ≤ q.cbytes ∧ q.cbytes ≤ msgmnb

/-- `cbytes` counts the data exactly. -/
def Exact (q : MsgQueue) : Prop := q.cbytes = q.dataBytes

end MsgQueue

namespace Change

variable {q q' : MsgQueue} {r : Option Nat}

/-- Whatever a call does to a queue keeps it bounded. -/
theorem bounded (hc : Change q q' r) (h : q.Bounded) : q'.Bounded := by
  unfold MsgQueue.Bounded at h ⊢
  cases hc with
  | same hc hm =>
    rw [hc, MsgQueue.dataBytes_of_messages hm]
    exact h
  | send msg hc hm hb =>
    have := MsgQueue.dataBytes_of_append hm
    omega
  | receive i hi hc hm =>
    have := MsgQueue.dataBytes_of_eraseIdx hi hm
    omega
  | lose i hi hc hm =>
    have := MsgQueue.dataBytes_of_eraseIdx hi hm
    omega

/-- Unless the call returns `EFAULT`, what it does to a queue keeps
`cbytes` exact. -/
theorem exact (hc : Change q q' r) (hr : r ≠ some efault) (h : q.Exact) : q'.Exact := by
  unfold MsgQueue.Exact at h ⊢
  cases hc with
  | same hc hm =>
    rw [hc, MsgQueue.dataBytes_of_messages hm]
    exact h
  | send msg hc hm hb =>
    have := MsgQueue.dataBytes_of_append hm
    omega
  | receive i hi hc hm =>
    have := MsgQueue.dataBytes_of_eraseIdx hi hm
    omega
  | lose i hi hc hm => exact absurd rfl hr

end Change

namespace MsgState

/-- `P` holds of every queue in the table. -/
def AllQueues (P : MsgQueue → Prop) (st : MsgState) : Prop :=
  ∀ k q, st.table.get? k = some q → P q

variable {P : MsgQueue → Prop} {st st' : MsgState} {b : Nat} {r : Option Nat}

theorem AllQueues.boot : MsgState.boot.AllQueues P := by
  intro k q h
  simp [MsgState.boot] at h

/-- A call keeps a property of every queue that new queues have and its
changes keep. -/
theorem AllQueues.effect (h : st.AllQueues P) (he : Effect b st r st')
    (hnew : ∀ key mode, P (.new key mode)) (hchange : ∀ {q q'}, Change q q' r → P q → P q') :
    st'.AllQueues P := by
  cases he with
  | keep => exact h
  | remove m =>
    intro k q hk
    simp only [OrdMap.get?_erase] at hk
    split_ifs at hk
    exact h k q hk
  | create key mode =>
    intro k q hk
    simp only [MsgState.set, MsgState.takeMsqid, OrdMap.get?_insert] at hk
    split_ifs at hk
    · cases hk
      exact hnew key mode
    · exact h k q hk
  | modify hq hc =>
    intro k q' hk
    simp only [MsgState.set, OrdMap.get?_insert] at hk
    split_ifs at hk
    · cases hk
      exact hchange hc (h _ _ hq)
    · exact h k q' hk

/-- A call from box `b` leaves the queues of every other box as they were. -/
theorem get?_of_effect (he : Effect b st r st') {b' : Nat} (hb : b' ≠ b) (m : Nat) :
    st'.get? b' m = st.get? b' m := by
  cases he with
  | keep => rfl
  | remove m' => simp [MsgState.get?, hb]
  | create key mode => simp [MsgState.get?, MsgState.set, MsgState.takeMsqid, hb]
  | modify hq hc => simp [MsgState.get?, MsgState.set, hb]

end MsgState

open MsgState

/-- Every queue is bounded after any run from a table whose queues are. -/
theorem runMsg_bounded {st : MsgState} (h : st.AllQueues MsgQueue.Bounded) :
    ∀ steps : List MsgStep, (runMsg st steps).1.AllQueues MsgQueue.Bounded := by
  intro steps
  induction steps generalizing st with
  | nil => exact h
  | cons c cs ih =>
    apply ih
    exact h.effect (c.effect st) (fun _ _ => ⟨le_refl 0, Nat.zero_le _⟩) Change.bounded

theorem runMsg_bounded_from_boot :
    (runMsg .boot [⟨0, 7, rwRoMem, .msgget ipcPrivate 0o600⟩, ⟨0, 7, rwRoMem, .msgsnd 1 0x10000 4 0⟩,
      ⟨0, 7, rwRoMem, .msgrcv 1 0x20000 2 0 msgNoerror⟩]).1.AllQueues MsgQueue.Bounded :=
  runMsg_bounded AllQueues.boot _

/-- `cbytes` stays exact through any run in which no call fails with
`EFAULT`. -/
theorem runMsg_exact {st : MsgState} (h : st.AllQueues MsgQueue.Exact) :
    ∀ steps : List MsgStep, some efault ∉ (runMsg st steps).2 →
      (runMsg st steps).1.AllQueues MsgQueue.Exact := by
  intro steps
  induction steps generalizing st with
  | nil => exact fun _ => h
  | cons c cs ih =>
    intro hr
    simp only [runMsg, List.mem_cons, not_or] at hr
    apply ih _ hr.2
    exact h.effect (c.effect st) (fun _ _ => rfl) (fun hc => hc.exact (Ne.symm hr.1))

theorem runMsg_exact_on_send_and_receive :
    (let steps := [⟨0, 7, rwRoMem, .msgget ipcPrivate 0o600⟩, ⟨0, 7, rwRoMem, .msgsnd 1 0x10000 4 0⟩,
        ⟨0, 7, rwRoMem, .msgrcv 1 0x10000 4 0 0⟩]
     some efault ∉ (runMsg .boot steps).2 ∧ (runMsg .boot steps).1.AllQueues MsgQueue.Exact) :=
  have hr : some efault ∉ (runMsg .boot [⟨0, 7, rwRoMem, .msgget ipcPrivate 0o600⟩,
      ⟨0, 7, rwRoMem, .msgsnd 1 0x10000 4 0⟩, ⟨0, 7, rwRoMem, .msgrcv 1 0x10000 4 0 0⟩]).2 := by
    decide +kernel
  ⟨hr, runMsg_exact AllQueues.boot _ hr⟩

/-- Calls from other boxes never change a queue of box `b`. -/
theorem runMsg_get?_other_box {st : MsgState} {b : Nat} :
    ∀ steps : List MsgStep, (∀ c ∈ steps, c.boxId ≠ b) →
      ∀ m, (runMsg st steps).1.get? b m = st.get? b m := by
  intro steps
  induction steps generalizing st with
  | nil => exact fun _ _ => rfl
  | cons c cs ih =>
    intro hb m
    have hc := hb c List.mem_cons_self
    rw [runMsg, ih (fun c' hc' => hb c' (List.mem_cons_of_mem c hc')) m]
    exact get?_of_effect (c.effect st) (Ne.symm hc) m

theorem runMsg_get?_other_box_on_rmid :
    (let st := (runMsg .boot [⟨1, 3, rwRoMem, .msgget ipcPrivate 0o600⟩]).1
     let steps := [⟨0, 7, rwRoMem, .msgctl 1 ipcRmid 0⟩, ⟨0, 7, rwRoMem, .msgget ipcPrivate 0o600⟩]
     (∀ c ∈ steps, c.boxId ≠ 1) ∧ (runMsg st steps).1.get? 1 1 = st.get? 1 1) :=
  ⟨by decide, runMsg_get?_other_box _ (by decide) 1⟩

end Invariants

end Akuma.Syscall
