import Xv6.Kernel.Op

/-!
# The code of `log.c`

The redo log, statement by statement, as kernel code.

* `installTrans`, `writeLog`, `readHead` and `writeHead` move blocks between the log and their home
  locations, and the header between the memory and the drive.
* `commit` and `recoverFromLog` are made of these; `beginOp` does nothing and `endOp` commits, as in
  the source, which has no count of outstanding operations.

The loops of `install_trans`, `write_log` and `write_head` test `log.lh.n` afresh on every turn, and
`forLog` does the same: when the code runs next to other processes the count can change under it.
`forLog` is given a number of turns, and `INTTURNS` is as many as a loop variable of type `int` can
make; proofs show that a loop comes to its end before.

`log_write` is in `Xv6.Kernel.Op`, next to the steps it consists of.
-/

namespace Xv6

open Lib

/-- More turns than a loop whose counter is an `int` can make. -/
abbrev INTTURNS : ℕ := 2 ^ 31

/-- `for (tail = ...; tail < log.lh.n; tail++) body(tail)`. -/
def forLog (body : ℕ → K Unit) : ℕ → ℕ → K Unit
  | 0, _ => pure ()
  | turns + 1, tail => do
    let log ← getLog
    if tail < log.lh.n then
      body tail
      forLog body turns (tail + 1)
    else pure ()

/-! ## The on-disk header -/

/-- `lh->n`.  A negative count skips every loop and is then cleared, as zero is. -/
def headerN (d : Block) : ℕ := if d.le 0 4 < 2 ^ 31 then d.le 0 4 else 0

/-- `lh->block[i]`. -/
def headerBlock (d : Block) (i : ℕ) : ℕ := d.le (4 + 4 * i) 4

/-- Store `hb->n`. -/
def putHeaderN (n : ℕ) (d : Block) : Block := d.putLE 0 4 n

/-- Store `hb->block[i]`. -/
def putHeaderBlock (i b : ℕ) (d : Block) : Block := d.putLE (4 + 4 * i) 4 b

/-! ## Transfers -/

/-- Copy one committed block from the log to its home location. -/
def installBlock (tail : ℕ) : K Unit := do
  let log ← getLog
  let lbuf ← bread log.dev (log.start + tail + 1)
  let log ← getLog
  let dbuf ← bread log.dev (log.lh.block tail)
  bcopy dbuf lbuf
  bwrite dbuf
  brelse lbuf
  brelse dbuf

def installTrans : K Unit := forLog installBlock INTTURNS 0

def readHead : K Unit := do
  let log ← getLog
  let buf ← bread log.dev log.start
  let lh ← bdata buf
  setLog fun log => { log with lh := { log.lh with n := headerN lh } }
  forLog (fun i =>
    setLog fun log => { log with lh := { log.lh with
      block := Function.update log.lh.block i (headerBlock lh i) } }) INTTURNS 0
  brelse buf

/-- `write_head()` up to its disk write: the header is filled in the cache. -/
def fillHead : K BufRef := do
  let log ← getLog
  let buf ← bread log.dev log.start
  let log ← getLog
  bstore buf (putHeaderN log.lh.n)
  forLog (fun i => do
    let log ← getLog
    bstore buf (putHeaderBlock i (log.lh.block i))) INTTURNS 0
  return buf

def writeHead : K Unit := do
  let buf ← fillHead
  bwrite buf
  brelse buf

/-- Copy one modified block from the cache to the log. -/
def logBlock (tail : ℕ) : K Unit := do
  let log ← getLog
  let tobuf ← bread log.dev (log.start + tail + 1)
  let log ← getLog
  let frombuf ← bread log.dev (log.lh.block tail)
  bcopy tobuf frombuf
  bwrite tobuf
  brelse frombuf
  brelse tobuf

def writeLog : K Unit := forLog logBlock INTTURNS 0

/-- `log.lh.n = 0`. -/
def clearCount : K Unit := setLog fun log => { log with lh := { log.lh with n := 0 } }

/-! ## Commit and recovery -/

def recoverFromLog : K Unit := do
  readHead
  installTrans
  clearCount
  writeHead

def commit : K Unit := do
  let log ← getLog
  if log.lh.n > 0 then
    writeLog
    writeHead
    installTrans
    clearCount
    writeHead
  else pure ()

def beginOp : K Unit := pure ()

def endOp : K Unit := commit

end Xv6
