import Mathlib.Logic.Basic
import Xv6.Lib.Bytes

/-!
# Parameters and panics

The compile-time constants of `param.h`, `fs.h`, `stat.h`, `fcntl.h` and `file.h`, and the
panics of the file-system stack.

* `Panic` has one value for every text that the modelled code passes to `panic`, named after it.
* `Halt` is how code may end without returning: by a panic, by spinning for something that never
  happens, or, in an account of the buffers only, by using one that is not held.  The last does not
  happen on the machine; it is how the account says that it promises nothing any more.

A `Block` is a string of `BSIZE` bytes; everything on a drive is read out of blocks.
-/

namespace Xv6

open Lib

/-! ## Constants -/

/-- Block size. -/
abbrev BSIZE : ℕ := 512
/-- Most blocks any file-system operation writes. -/
abbrev MAXOPBLOCKS : ℕ := 10
/-- Data blocks in the on-disk log. -/
abbrev LOGSIZE : ℕ := MAXOPBLOCKS * 3
/-- Size of the disk block cache. -/
abbrev NBUF : ℕ := MAXOPBLOCKS * 3
/-- Size of the file system in blocks. -/
abbrev FSSIZE : ℕ := 1000
/-- Most processes. -/
abbrev NPROC : ℕ := 64
/-- Most active inodes. -/
abbrev NINODE : ℕ := 50
/-- Most open files in the system. -/
abbrev NFILE : ℕ := 100
/-- One past the largest major device number. -/
abbrev NDEV : ℤ := 10
/-- Device number of the root disk. -/
abbrev ROOTDEV : ℕ := 1
/-- Root inode number. -/
abbrev ROOTINO : ℕ := 1
/-- Direct block addresses of an inode. -/
abbrev NDIRECT : ℕ := 12
/-- Block addresses in an indirect block. -/
abbrev NINDIRECT : ℕ := BSIZE / 4
/-- Most blocks of a file. -/
abbrev MAXFILE : ℕ := NDIRECT + NINDIRECT
/-- Bytes of an on-disk inode. -/
abbrev DINODESIZE : ℕ := 64
/-- Inodes per block. -/
abbrev IPB : ℕ := BSIZE / DINODESIZE
/-- Bitmap bits per block. -/
abbrev BPB : ℕ := BSIZE * 8
/-- Bytes of a directory entry's name. -/
abbrev DIRSIZ : ℕ := 14
/-- Bytes of a directory entry. -/
abbrev DIRENTSIZE : ℕ := 16
/-- `T_DIR`: a directory. -/
abbrev T_DIR : ℤ := 1
abbrev T_FILE : ℤ := 2
/-- `T_DEV`: a device. -/
abbrev T_DEV : ℤ := 3
/-- Major number of the console. -/
abbrev CONSOLE : ℤ := 1
/-- One past the largest `uint`. -/
abbrev UINT : ℕ := 2 ^ 32

/-- A disk block. -/
abbrev Block := Bytes BSIZE

/-! ## Panics -/

/-- The calls of `panic` in `bio.c`, `ide.c`, `log.c`, `fs.c` and `file.c`. -/
inductive Panic
  | bgetNoBuffers
  | iderwNothingToDo
  | ideDisk1NotPresent
  | incorrectBlockno
  | tooBigTransaction
  | ballocOutOfBlocks
  | freeingFreeBlock
  | iallocNoInodes
  | igetNoInodes
  | iread
  | ireadNoType
  | bmapOutOfRange
  | dirlookupNotDir
  | dirlookupRead
  | dirlinkRead
  | dirlink
  | fileclose
  | shortFilewrite
  | fileread
  | filewrite
  | isdiremptyReadi
  | unlinkNlink
  | unlinkWritei
  | createDots
  | createDirlink
  deriving DecidableEq, Repr

/-- Why an execution stops short of returning. -/
inductive Halt
  /-- The kernel panicked. -/
  | panic (p : Panic)
  /-- The caller spins for something that never happens: console input that does not arrive, or
  the end of a request queue that has none. -/
  | blocked
  /-- A buffer is used by somebody who does not hold it, or is given up with contents that
  are nowhere else.  No code of the kernel does this; the buffer accounting of
  `Xv6.Bio.Account` halts here, because past this point it promises nothing. -/
  | stray
  deriving DecidableEq, Repr

end Xv6
