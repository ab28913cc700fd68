import Xv6.Kernel.Op
import Mathlib.Logic.Function.Basic
import Mathlib.Data.List.FinRange

/-!
# The buffer cache and the disk

The model of `bio.c` and of the request path of `ide.c`, for one request at a time and a disk
that reports no errors.

* `Machine` is the array of buffers, the list that threads them with the most recently used first,
  the two drives, and the log structure that `log_write` updates.
* `bget`, `breadBuf`, `bwriteBuf`, `brelseBuf` and `iderw` are translated statement by statement, on
  buffer indices.
* `cacheHandler` gives the steps of kernel code their meaning on this machine.  A holder's `BufRef`
  names a block, and is resolved to the buffer that caches it.
* `Machine.view` reads a block through the cache, as somebody does who finds it there or reads it
  from the drive.

What is left out here has a module of its own: the pointers of the list are in `Xv6.Bio.Ring`, the
status register of the drive in `Xv6.Ide.Status`, and requests of several processes, with the
interrupt that serves them, in `Xv6.Sched.System`.  Each of these is related to this machine.
-/

namespace Xv6

open Lib

/-- `struct buf`; the flags `B_VALID` and `B_DIRTY` are two Booleans. -/
structure Buf where
  valid : Bool
  dirty : Bool
  dev : ℕ
  blockno : ℕ
  refcnt : ℕ
  data : Block

/-- The block a buffer is assigned to. -/
def Buf.key (b : Buf) : BufRef := ⟨b.dev, b.blockno⟩

/-- `bcache`, the drives and the log structure. -/
structure Machine where
  /-- `bcache.buf`. -/
  buf : Fin NBUF → Buf
  /-- The buffers in the order of `next` from `bcache.head`. -/
  lru : List (Fin NBUF)
  /-- Contents of the two drives. -/
  disk : BufRef → Block
  havedisk1 : Bool
  log : Log

namespace Machine

def setBuf (m : Machine) (i : Fin NBUF) (b : Buf) : Machine :=
  { m with buf := Function.update m.buf i b }

/-- The first loop of `bget`: the buffer that caches a block. -/
def lookup (m : Machine) (k : BufRef) : Option (Fin NBUF) :=
  m.lru.find? fun i => (m.buf i).dev = k.dev ∧ (m.buf i).blockno = k.blockno

/-- The second loop of `bget`: the least recently used buffer that can be recycled. -/
def victim (m : Machine) : Option (Fin NBUF) :=
  m.lru.reverse.find? fun i => (m.buf i).refcnt = 0 ∧ (m.buf i).dirty = false

end Machine

/-- `idestart` selects the drive by the low bit of `b->dev`. -/
def drive (k : BufRef) : BufRef := ⟨k.dev % 2, k.blockno⟩

/-- The contents of a block as seen through the cache: the data of the valid buffer that caches
it, if there is one, and what the drive holds otherwise. -/
def Machine.view (m : Machine) (k : BufRef) : Block :=
  match m.lru.find? fun i => (m.buf i).key = k ∧ (m.buf i).valid = true with
  | some i => (m.buf i).data
  | none => m.disk (drive k)

/-- After `binit`, on drives with the given contents. -/
def binit (disk : BufRef → Block) (havedisk1 : Bool) (log : Log) : Machine where
  buf := fun _ => ⟨false, false, 0, 0, 0, Bytes.zero⟩
  -- every buffer is inserted in front of the earlier ones
  lru := (List.finRange NBUF).reverse
  disk := disk
  havedisk1 := havedisk1
  log := log

def bget (k : BufRef) : EStateM Halt Machine (Fin NBUF) := fun m =>
  match m.lookup k with
  | some i => .ok i (m.setBuf i { m.buf i with refcnt := (m.buf i).refcnt + 1 })
  | none =>
    match m.victim with
    | some i => .ok i (m.setBuf i { m.buf i with
        dev := k.dev, blockno := k.blockno, valid := false, dirty := false, refcnt := 1 })
    | none => .error (.panic .bgetNoBuffers) m

/-- `iderw(b)` together with the interrupt that serves the request. -/
def iderw (i : Fin NBUF) : EStateM Halt Machine Unit := fun m =>
  if (m.buf i).valid ∧ (m.buf i).dirty = false then .error (.panic .iderwNothingToDo) m
  else if (m.buf i).dev ≠ 0 ∧ m.havedisk1 = false then .error (.panic .ideDisk1NotPresent) m
  else if FSSIZE ≤ (m.buf i).blockno then .error (.panic .incorrectBlockno) m
  else if (m.buf i).dirty then
    .ok () { (m.setBuf i { m.buf i with valid := true, dirty := false }) with
      disk := Function.update m.disk (drive (m.buf i).key) (m.buf i).data }
  else
    .ok () (m.setBuf i { m.buf i with valid := true, data := m.disk (drive (m.buf i).key) })

/-- `bread(dev, blockno)` of `bio.c`, on buffer indices. -/
def breadBuf (k : BufRef) : EStateM Halt Machine (Fin NBUF) := do
  let i ← bget k
  let m ← get
  if (m.buf i).valid = false then iderw i
  return i

/-- `bwrite(b)` of `bio.c`, on buffer indices. -/
def bwriteBuf (i : Fin NBUF) : EStateM Halt Machine Unit := do
  let m ← get
  set (m.setBuf i { m.buf i with dirty := true })
  iderw i

/-- `brelse(b)` of `bio.c`, on buffer indices. -/
def brelseBuf (i : Fin NBUF) : EStateM Halt Machine Unit := fun m =>
  let m' := m.setBuf i { m.buf i with refcnt := (m.buf i).refcnt - 1 }
  if (m.buf i).refcnt - 1 = 0 then .ok () { m' with lru := i :: m.lru.erase i }
  else .ok () m'

/-- Absorb a block into the log header: the slot of an earlier entry for it, or a new one. -/
def LogHeader.add (lh : LogHeader) (blockno : ℕ) : LogHeader :=
  let i := ((List.range lh.n).find? fun i => lh.block i = blockno).getD lh.n
  { block := Function.update lh.block i blockno, n := if i = lh.n then lh.n + 1 else lh.n }

/-- The test `log_write` panics on. -/
def Log.full (log : Log) : Prop := LOGSIZE ≤ log.lh.n ∨ log.size - 1 ≤ log.lh.n

instance (log : Log) : Decidable log.full := inferInstanceAs (Decidable (_ ∨ _))

/-- The `pushcli` section of `log_write`, on the log alone. -/
def Log.add (log : Log) (blockno : ℕ) : Log := { log with lh := log.lh.add blockno }

def holding {α : Type} (k : BufRef) (f : Fin NBUF → EStateM Halt Machine α) :
    EStateM Halt Machine α := fun m =>
  match m.lookup k with
  | some i => if 0 < (m.buf i).refcnt then f i m else .error .stray m
  | none => .error .stray m

/-- The meaning of the buffer steps on the machine. -/
def cacheHandler : Handler BioOp BioOp.Ret Halt Machine
  | .bread k => do let _ ← breadBuf k
  | .brelse k => holding k brelseBuf
  | .bwrite k => holding k bwriteBuf
  | .data k => holding k fun i m => .ok (m.buf i).data m
  | .store k f => holding k fun i m =>
    .ok () (m.setBuf i { m.buf i with data := f (m.buf i).data })
  | .copy dst src => holding dst fun i => holding src fun j m =>
    .ok () (m.setBuf i { m.buf i with data := (m.buf j).data })
  | .logAdd k => holding k fun _ m =>
    if m.log.full then .error (.panic .tooBigTransaction) m
    else .ok () { m with log := m.log.add k.blockno }
  | .markDirty k => holding k fun i m => .ok () (m.setBuf i { m.buf i with dirty := true })
  | .log => fun m => .ok m.log m
  | .setLog f => fun m => .ok () { m with log := f m.log }

end Xv6
