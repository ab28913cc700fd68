import Xv6.Kernel.Param
import Xv6.Lib.Prog

/-!
# Kernel state and the atomic steps of kernel code

The structures of `buf.h`, `log.c`, `fs.h` and `file.h`, and the signatures of the atomic steps
out of which the code of `log.c`, `fs.c` and `file.c` is written.

One step is one C statement, or one section between `pushcli` and `popcli`: on the single CPU
nothing else can run inside either.  `bread` and `bwrite` are one step each: the caller spins
in `iderw` until the interrupt handler has served the request, and the effect of the request
on shared data happens at once, in the handler.

* `BioOp` are the steps on buffers, the drive and the log in memory.  They have two meanings: the
  buffer cache of the code (`Xv6.Bio.Cache`) and an account of blocks (`Xv6.Bio.Account`).
* `MemOp` are the steps on everything else that the file system keeps in memory; `Xv6.Kernel.Mem`
  gives them their meaning.
* `K α` is the type of kernel code: a program over both signatures.

A `struct buf *` is held by its holder as a `BufRef`, the two fields of the buffer that stay
fixed while it is held.
-/

namespace Xv6

open Lib

/-! ## Structures -/

/-- A held buffer, named by the block it caches. -/
structure BufRef where
  dev : ℕ
  blockno : ℕ
  deriving DecidableEq, Repr

/-- `struct logheader`.  Only `block i` for `i < n` is ever read. -/
structure LogHeader where
  n : ℕ
  block : ℕ → ℕ

/-- `struct log`. -/
structure Log where
  start : ℕ
  size : ℕ
  dev : ℕ
  lh : LogHeader

/-- The global `log` before `initlog`. -/
def Log.zero : Log := ⟨0, 0, 0, 0, fun _ => 0⟩

/-- `struct superblock`. -/
structure Superblock where
  size : ℕ
  nblocks : ℕ
  ninodes : ℕ
  nlog : ℕ
  logstart : ℕ
  inodestart : ℕ
  bmapstart : ℕ
  deriving DecidableEq, Repr

/-- `struct dinode`, and the part of `struct inode` that is a copy of it. -/
structure Dinode where
  type : ℤ
  major : ℤ
  minor : ℤ
  nlink : ℤ
  size : ℕ
  addrs : Fin (NDIRECT + 1) → ℕ
  deriving DecidableEq

/-- The dinode of all zero bytes. -/
def Dinode.zero : Dinode := ⟨0, 0, 0, 0, 0, fun _ => 0⟩

/-- `struct inode`. -/
structure Inode where
  dev : ℕ
  inum : ℕ
  ref : ℕ
  valid : Bool
  din : Dinode

/-- The type field of a `struct file`. -/
inductive FileType
  | none
  | inode
  deriving DecidableEq, Repr

/-- `struct file`; `ip` is an index into the inode cache. -/
structure File where
  type : FileType
  ref : ℕ
  readable : Bool
  writable : Bool
  ip : Fin NINODE
  off : ℕ

/-- The file-system state that lives in memory only: `icache`, `ftable`, `sb`, the console
input still to be delivered and the console output so far. -/
structure FsMem where
  icache : Fin NINODE → Inode
  ftable : Fin NFILE → File
  sb : Superblock
  input : List UInt8
  output : List UInt8

/-! ## Atomic steps -/

/-- The steps on buffers and on the log. -/
inductive BioOp
  /-- `bread(dev, blockno)`. -/
  | bread (b : BufRef)
  /-- `brelse(b)`. -/
  | brelse (b : BufRef)
  /-- `bwrite(b)`. -/
  | bwrite (b : BufRef)
  /-- Read `b->data`. -/
  | data (b : BufRef)
  /-- One statement that stores into `b->data`. -/
  | store (b : BufRef) (f : Block → Block)
  /-- `memmove(dst->data, src->data, BSIZE)`. -/
  | copy (dst src : BufRef)
  /-- The `pushcli` section of `log_write(b)`. -/
  | logAdd (b : BufRef)
  /-- `b->flags |= B_DIRTY`. -/
  | markDirty (b : BufRef)
  /-- Read the global `log`. -/
  | log
  /-- One statement that stores into the global `log`. -/
  | setLog (f : Log → Log)

/-- The steps on the state that lives in memory only. -/
inductive MemOp
  /-- Read the global `sb`. -/
  | sb
  /-- Store the global `sb`. -/
  | setSb (s : Superblock)
  /-- Read `*ip`. -/
  | inode (ip : Fin NINODE)
  /-- One statement that stores into `*ip`. -/
  | setInode (ip : Fin NINODE) (f : Inode → Inode)
  /-- The `pushcli` section that is all of `iget(dev, inum)`. -/
  | iget (dev inum : ℕ)
  /-- The first `pushcli` section of `iput(ip)`; the answer says whether `ip` is to be freed
  before its reference is dropped. -/
  | iputTest (ip : Fin NINODE)
  /-- `ip->ref--`, the last `pushcli` section of `iput(ip)` on the freeing path. -/
  | idrop (ip : Fin NINODE)
  /-- Read `*f`. -/
  | file (f : Fin NFILE)
  /-- One statement that stores into `*f`. -/
  | setFile (f : Fin NFILE) (g : File → File)
  /-- The `pushcli` section that is all of `filealloc()`. -/
  | filealloc
  /-- The `pushcli` section of `fileclose(f)`; the answer is the copy `ff` when this was the
  last reference. -/
  | filedrop (f : Fin NFILE)
  /-- `consoleread` of `n` bytes. -/
  | consoleread (n : ℕ)
  /-- `consolewrite`. -/
  | consolewrite (src : List UInt8)
  /-- `panic(msg)`. -/
  | panic (p : Panic)

/-- What each buffer step answers. -/
@[reducible] def BioOp.Ret : BioOp → Type
  | .data _ => Block
  | .log => Log
  | _ => Unit

/-- What each memory step answers. -/
@[reducible] def MemOp.Ret : MemOp → Type
  | .sb => Superblock
  | .inode _ => Inode
  | .iget _ _ => Fin NINODE
  | .iputTest _ => Bool
  | .file _ => File
  | .filealloc => Option (Fin NFILE)
  | .filedrop _ => Option File
  | .consoleread _ => List UInt8
  | .panic _ => Empty
  | _ => Unit

/-- Kernel code. -/
abbrev K (α : Type) := Prog (BioOp ⊕ MemOp) (Sum.elim BioOp.Ret MemOp.Ret) α

/-! ## The steps as code -/

/-- The program of one buffer step. -/
def bio (e : BioOp) : K e.Ret := Prog.op (.inl e) .ret

/-- The program of one memory step. -/
def mem (e : MemOp) : K e.Ret := Prog.op (.inr e) .ret

def bread (dev blockno : ℕ) : K BufRef :=
  Prog.op (.inl (.bread ⟨dev, blockno⟩)) fun _ => .ret ⟨dev, blockno⟩

def brelse (b : BufRef) : K Unit := bio (.brelse b)

def bwrite (b : BufRef) : K Unit := bio (.bwrite b)

/-- Read `b->data`. -/
def bdata (b : BufRef) : K Block := bio (.data b)

/-- Store into `b->data`. -/
def bstore (b : BufRef) (f : Block → Block) : K Unit := bio (.store b f)

/-- `memmove(dst->data, src->data, BSIZE)`. -/
def bcopy (dst src : BufRef) : K Unit := bio (.copy dst src)

/-- Read the global `log`. -/
def getLog : K Log := bio .log

/-- Store into the global `log`. -/
def setLog (f : Log → Log) : K Unit := bio (.setLog f)

/-- Read the global `sb`. -/
def getSb : K Superblock := mem .sb

/-- Store the global `sb`. -/
def setSb (s : Superblock) : K Unit := mem (.setSb s)

/-- Read `*ip`. -/
def readInode (ip : Fin NINODE) : K Inode := mem (.inode ip)

/-- Store into `*ip`. -/
def setInode (ip : Fin NINODE) (f : Inode → Inode) : K Unit := mem (.setInode ip f)

def iget (dev inum : ℕ) : K (Fin NINODE) := mem (.iget dev inum)

def readFile (f : Fin NFILE) : K File := mem (.file f)

/-- Store into `*f`. -/
def setFile (f : Fin NFILE) (g : File → File) : K Unit := mem (.setFile f g)

def filealloc : K (Option (Fin NFILE)) := mem .filealloc

def panic {α : Type} (p : Panic) : K α := Prog.op (.inr (.panic p)) fun e => nomatch e

def logWrite (b : BufRef) : K Unit := do
  bio (.logAdd b)
  bio (.markDirty b)

end Xv6
