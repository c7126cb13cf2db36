import Mathlib

/-!
# Files as a program sees them

A program that keeps its state in files sees the file system through three
calls: read a file whole, write one whole (creating or truncating it, which
may fail), and make a directory, whose result such programs often ignore.
`FileSystem` is these three over a state `σ` and an error `ε`. A lawful one
reads back what was last written at a path, leaves the other paths alone,
and changes no file when it makes a directory; `Lawful.read_write` says what
any read sees after a write.
-/

namespace Files

/-- A file system through the three calls: the bytes at a path if there is a
file, a write of a whole file, and `mkdir`. -/
structure FileSystem (σ ε : Type) where
  read : σ → List Char → Option (List Nat)
  write : σ → List Char → List Nat → Except ε σ
  mkdir : σ → List Char → σ

variable {σ ε : Type}

/-- A file system that reads back what was written. -/
structure FileSystem.Lawful (fs : FileSystem σ ε) : Prop where
  read_write_self : ∀ {s s' : σ} {p : List Char} {d : List Nat}, fs.write s p d = .ok s' → fs.read s' p = some d
  read_write_other : ∀ {s s' : σ} {p q : List Char} {d : List Nat}, fs.write s p d = .ok s' → q ≠ p →
    fs.read s' q = fs.read s q
  read_mkdir : ∀ (s : σ) (dir p : List Char), fs.read (fs.mkdir s dir) p = fs.read s p

/-- What a successful write does to the read of any path. -/
theorem FileSystem.Lawful.read_write {fs : FileSystem σ ε} (hfs : fs.Lawful) {s s' : σ} {p : List Char}
    {d : List Nat} (h : fs.write s p d = .ok s') (q : List Char) :
    fs.read s' q = if q = p then some d else fs.read s q := by
  split_ifs with hq
  · rw [hq]
    exact hfs.read_write_self h
  · exact hfs.read_write_other h hq

end Files
