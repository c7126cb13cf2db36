import Akuma.Lib.Panic
import Akuma.Lib.Bytes
import Akuma.Ssh.Packet
import Akuma.Mmu.Table
import Akuma.Mmu.AddressSpace
import Akuma.Mmu.Range
import Akuma.Signal.Frame
import Akuma.Syscall.Mmap
import Akuma.Syscall.Futex
import Akuma.Lib.OrdMap
import Akuma.Syscall.Fds
import Akuma.Elf.Load
import Akuma.Elf.Stack
import Akuma.Box.Isolation
import Akuma.Vfs.Basic
import Akuma.Vfs.Namespace
import Akuma.Vfs.MemFs
import Akuma.Vfs.MemFsTree
import Akuma.Lib.State
import Akuma.Ext2.Disk
import Akuma.Ext2.Inode
import Akuma.Ext2.Dir
import Akuma.Ext2.Fs
import Akuma.Ext2.Accounting
import Akuma.Ext2.Mapping
import Akuma.Lib.Cache
import Akuma.Ext2.Cache
import Akuma.Ext2.CachedIo
import Akuma.Lib.Through
import Akuma.Ext2.CachedRead
import Akuma.Ext2.ReadAtByInode
import Akuma.Lib.WordBitmap
import Akuma.Mmu.Asid
import Akuma.Smp.StateMachine
import Akuma.Smp.Ledger
import Akuma.Smp.Ring
import Akuma.Pmm.Bitmap
import Akuma.Pmm.Allocations
import Akuma.Pmm.Global
import Akuma.Process.Cow
import Akuma.Mmu.Drop
import Akuma.Elf.Lazy
import Akuma.Syscall.MsgQueue
import Akuma.Lib.Framing
import Akuma.Ssh.Transport
import Akuma.Ssh.Kex
import Akuma.Syscall.Munmap
import Akuma.Net.Socket
import Akuma.Syscall.Net
import Akuma.Signal.Mask
import Akuma.Syscall.Timerfd
import Akuma.Syscall.FdFlags
import Akuma.Git.Delta
import Akuma.Tar.Extract
import Akuma.Terminal.Canon
import Akuma.Exec.RwSpinlock
import Akuma.Lib.Zlib
import Akuma.Lib.Sha1
import Akuma.Git.Pack
import Akuma.Git.PackWrite
import Akuma.Lib.Stream
import Akuma.Lib.RustStr
import Akuma.Git.Http
import Akuma.Git.Sideband
import Akuma.Git.Fetch
import Akuma.Lib.Files
import Akuma.Git.Discovery
import Akuma.Git.Refs
import Akuma.Git.Clone
import Akuma.Git.Object
