import Akuma.Syscall.Fds

/-!
# Descriptor flags across exec

The close-on-exec and non-blocking sets of `SharedFdTable` are keyed by
descriptor number and kept beside the table by each call on its own:
`close` and `close_range` clear both, `dup3` clears close-on-exec only, and
`close_cloexec_fds` takes the close-on-exec descriptors out of the table
and empties the close-on-exec set, but leaves the non-blocking set as it
was. A number that exec frees keeps its non-blocking bit, and the next
descriptor allocated under that number has it, whatever its own call asked
for (`nonblock_outlives_exec`).

The lemmas below give each call on a live process what it does to that
process's table, as the runs use them: `eventfd2`, exec, and
`fcntl(F_GETFL)`.
-/

namespace Akuma.Syscall

open SharedFdTable FdKernel

/-! ## Allocation -/

/-- Every number the walk of `lowest_available_fd` passes is a key. -/
theorem mem_of_lt_firstGap :
    ∀ (keys : List Nat) (fd g : Nat), fd ≤ g → g < firstGap keys fd → g ∈ keys
  | [], fd, g, hle, hlt => by simp [firstGap] at hlt; omega
  | key :: keys, fd, g, hle, hlt => by
    unfold firstGap at hlt
    split_ifs at hlt with hne
    · omega
    · -- `key = fd`: `fd` itself is a key, and the walk goes on from `fd + 1`
      rcases Nat.eq_or_lt_of_le hle with rfl | hgt
      · simp at hne
        simp [hne]
      · exact List.mem_cons_of_mem _ (mem_of_lt_firstGap keys (fd + 1) g hgt hlt)

/-- `alloc_fd_from(m, e)` takes the least number `≥ m` that is not a key of
the table, and puts `e` there. -/
theorem allocFdFrom_spec (t : SharedFdTable) (minFd : Nat) (entry : FileDescriptor) :
    let fd := (t.allocFdFrom minFd entry).2
    minFd ≤ fd ∧ fd ∉ t.table.keys ∧ (∀ g, minFd ≤ g → g < fd → g ∈ t.table.keys) ∧
      (t.allocFdFrom minFd entry).1.table = t.table.insert fd entry := by
  intro fd
  have hs := (t.table.keys_sorted).filter (fun k => decide (minFd ≤ k))
  obtain ⟨hge, -⟩ := firstGap_spec _ minFd hs (fun k hk => by simpa using (List.mem_filter.mp hk).2)
  refine ⟨hge, lowestAvailableFd_not_mem _ _, fun g hle hlt => ?_, rfl⟩
  exact (List.mem_filter.mp (mem_of_lt_firstGap _ minFd g hle hlt)).1

/-! ## One call at a time -/

theorem runFds_cons {K K' : FdKernel} {c : FdCall} {r : Nat} (cs : List FdCall)
    (h : c.apply K = some (K', r)) :
    runFds K (c :: cs) = (runFds K' cs).map fun x => (x.1, r :: x.2) := by
  simp [runFds, h]

theorem tables_setTable_self {K : FdKernel} {p : Nat} (hp : p < K.tables.length)
    (t : SharedFdTable) : (K.setTable p t).tables[p]? = some t := by
  simp [setTable, hp]

/-- `eventfd2` on a live process: the lowest free number, in the sets its
flags ask for, the sets otherwise as they were. -/
theorem sysEventfd2_spec {K : FdKernel} {p : Nat} {t : SharedFdTable}
    (ht : K.tables[p]? = some t) (flags : Nat) :
    (sysEventfd2 K p flags).2 = lowestAvailableFd t.table 0 ∧
    (sysEventfd2 K p flags).1.tables[p]? = some
      { table := t.table.insert (lowestAvailableFd t.table 0) (.eventFd K.nextEventfdId),
        cloexec := if flags &&& efdCloexec ≠ 0 then
          t.cloexec.insert (lowestAvailableFd t.table 0) () else t.cloexec,
        nonblock := if flags &&& efdNonblock ≠ 0 then
          t.nonblock.insert (lowestAvailableFd t.table 0) () else t.nonblock } := by
  have hp : p < K.tables.length := (List.getElem?_eq_some_iff.mp ht).1
  refine ⟨by simp [sysEventfd2, ht, allocFd, allocFdFrom], ?_⟩
  simp only [sysEventfd2, ht]
  rw [tables_setTable_self (by simpa [eventfdCreate] using hp)]
  split_ifs <;> rfl

/-- Exec on a process whose one close-on-exec descriptor is `fd`: `fd` goes
from the table and the close-on-exec set empties; the non-blocking set
stays. -/
theorem execveCloseFds_spec {K : FdKernel} {p : Nat} {t : SharedFdTable}
    (ht : K.tables[p]? = some t) {fd : Nat} {e : FileDescriptor} (hkeys : t.cloexec.keys = [fd])
    (he : t.table.get? fd = some e) :
    (execveCloseFds K p).2 = 0 ∧
    (execveCloseFds K p).1.tables[p]? = some { t with table := t.table.erase fd, cloexec := .empty } := by
  have hp : p < K.tables.length := (List.getElem?_eq_some_iff.mp ht).1
  have hclose : (K.closeEntry e).tables = K.tables := (keepsTables_closeEntry K e).tables
  refine ⟨by simp [execveCloseFds, ht], ?_⟩
  simp only [execveCloseFds, ht, closeCloexecFds, hkeys, List.foldl_cons, List.foldl_nil,
    takeEntry, he, List.nil_append]
  exact tables_setTable_self (by rw [hclose]; exact hp) _

/-- `fcntl(F_GETFL)` on an open descriptor reports the non-blocking bit of
its number. -/
theorem sysFcntl_getfl {K : FdKernel} {p : Nat} {t : SharedFdTable} (ht : K.tables[p]? = some t)
    (fd : Nat) (hfd : t.getFd fd ≠ none) (arg : Nat) :
    sysFcntl K p fd fGetfl arg = (K, if t.isNonblock fd then oNonblock else 0) := by
  obtain ⟨e, he⟩ := Option.ne_none_iff_exists'.mp hfd
  simp [sysFcntl, ht, he, fGetfl, fDupfd, fDupfdCloexec, fGetfd, fSetfd]

/-! ## A stale non-blocking bit -/

theorem nonblock_outlives_exec (K : FdKernel) (p : Nat) (t : SharedFdTable)
    (ht : K.tables[p]? = some t) (hcl : t.cloexec.keys = []) :
    let fd := lowestAvailableFd t.table 0
    (runFds K [.eventfd2 p (efdCloexec ||| efdNonblock), .execve p, .eventfd2 p 0,
      .fcntl p fd fGetfl 0]).map Prod.snd = some [fd, 0, fd, oNonblock] := by
  dsimp only
  have hfree : t.table.get? (lowestAvailableFd t.table 0) = none :=
    OrdMap.get?_eq_none_of_not_mem (lowestAvailableFd_not_mem _ _)
  -- the first eventfd asks for both flags
  obtain ⟨h1r, h1t⟩ := sysEventfd2_spec ht (efdCloexec ||| efdNonblock)
  have hc : (efdCloexec ||| efdNonblock) &&& efdCloexec ≠ 0 := by decide
  have hn : (efdCloexec ||| efdNonblock) &&& efdNonblock ≠ 0 := by decide
  rw [if_pos hc, if_pos hn] at h1t
  -- exec closes it, and only it, as the close-on-exec set held nothing else
  obtain ⟨h2r, h2t⟩ := execveCloseFds_spec h1t (e := .eventFd K.nextEventfdId)
    (OrdMap.keys_insert_of_keys_eq_nil _ _ _ hcl) (by simp)
  rw [OrdMap.erase_insert_of_get?_eq_none _ _ _ hfree] at h2t
  dsimp only at h2t
  -- the second eventfd gets the same number, and asks for no flag
  obtain ⟨h3r, h3t⟩ := sysEventfd2_spec h2t 0
  rw [if_neg (by decide), if_neg (by decide)] at h3t
  dsimp only at h3r h3t
  have h4 := sysFcntl_getfl h3t (lowestAvailableFd t.table 0) (by simp [getFd]) 0
  set K1 := (sysEventfd2 K p (efdCloexec ||| efdNonblock)).1
  set K2 := (execveCloseFds K1 p).1
  set K3 := (sysEventfd2 K2 p 0).1
  have c1 : FdCall.apply K (.eventfd2 p (efdCloexec ||| efdNonblock)) =
      some (K1, lowestAvailableFd t.table 0) := by rw [← h1r]; rfl
  have c2 : FdCall.apply K1 (.execve p) = some (K2, 0) := by rw [← h2r]; rfl
  have c3 : FdCall.apply K2 (.eventfd2 p 0) = some (K3, lowestAvailableFd t.table 0) := by
    rw [← h3r]; rfl
  have c4 : FdCall.apply K3 (.fcntl p (lowestAvailableFd t.table 0) fGetfl 0) =
      some (K3, oNonblock) := by
    simp [FdCall.apply, h4, isNonblock]
  rw [runFds_cons _ c1, runFds_cons _ c2, runFds_cons _ c3, runFds_cons _ c4]
  simp [runFds]

/-- At boot, an eventfd opened close-on-exec and non-blocking takes fd 3;
after exec a plain eventfd takes fd 3 again, and `F_GETFL` reports
`O_NONBLOCK` for it. -/
theorem nonblock_outlives_exec_at_boot :
    (FdKernel.boot 1).tables[0]? = some .withStdio ∧ SharedFdTable.withStdio.cloexec.keys = [] ∧
    (runFds (FdKernel.boot 1) [.eventfd2 0 (efdCloexec ||| efdNonblock), .execve 0, .eventfd2 0 0,
      .fcntl 0 3 fGetfl 0]).map Prod.snd = some [3, 0, 3, oNonblock] :=
  ⟨rfl, rfl, nonblock_outlives_exec (FdKernel.boot 1) 0 .withStdio rfl rfl⟩

end Akuma.Syscall
