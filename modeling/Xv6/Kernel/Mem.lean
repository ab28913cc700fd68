import Xv6.Kernel.Op
import Mathlib.Logic.Function.Basic
import Mathlib.Data.List.FinRange

/-!
# The meaning of the memory steps

`memHandler` interprets the steps on the inode cache, the file table, the superblock copy and
the console.  The sections of `iget`, `iput`, `filealloc` and `fileclose` that run between
`pushcli` and `popcli` are single steps, written here as the loops and tests of the source.

* `igetScan` is the loop of `iget`, which looks for the inode and remembers the first free entry on
  the way; `filealloc?` is that of `filealloc`.
* `consoleLoop` is `consoleread` on input that has arrived already.  It answers nothing if the input
  runs out before a line is complete: the process waits, and `memHandler` halts with `blocked`.
  What happens while characters arrive is the subject of `Xv6.Console.Preempted`.

`FsMem.boot` is the memory at boot, where all of it is zero; the input that is going to be typed is
a parameter.
-/

namespace Xv6

open Lib

/-- What the scan of `iget` finds. -/
inductive IgetResult
  /-- The inode is cached in this entry. -/
  | hit (ip : Fin NINODE)
  /-- It is not, and this is the first empty entry. -/
  | fresh (ip : Fin NINODE)
  /-- It is not, and no entry is empty. -/
  | full
  deriving DecidableEq, Repr

/-- The loop of `iget` over the remaining entries; `empty` is the first empty one so far. -/
def igetScan (c : Fin NINODE → Inode) (dev inum : ℕ) :
    List (Fin NINODE) → Option (Fin NINODE) → IgetResult
  | [], some ip => .fresh ip
  | [], none => .full
  | ip :: rest, empty =>
    if (c ip).ref > 0 ∧ (c ip).dev = dev ∧ (c ip).inum = inum then .hit ip
    else igetScan c dev inum rest (if empty = none ∧ (c ip).ref = 0 then some ip else empty)

/-- The loop of `filealloc`. -/
def filealloc? (t : Fin NFILE → File) : Option (Fin NFILE) :=
  (List.finRange NFILE).find? fun f => (t f).ref = 0

/-- The loop of `consoleread` on the bytes typed from now on: at most `n` more bytes, up to
and including a newline, or up to a `^D`, which is left for the next call unless it is the
first byte of this one.  `none` means that the input runs out and the call never returns. -/
def consoleLoop : ℕ → List UInt8 → List UInt8 → Option (List UInt8 × List UInt8)
  | 0, q, got => some (got, q)
  | _ + 1, [], _ => none
  | n + 1, c :: q, got =>
    if c = 4 then some (got, if got = [] then q else c :: q)
    else if c = 10 then some (got ++ [c], q)
    else consoleLoop n q (got ++ [c])

/-- Store a whole `struct inode`. -/
def FsMem.setInode (s : FsMem) (ip : Fin NINODE) (i : Inode) : FsMem :=
  { s with icache := Function.update s.icache ip i }

/-- Store a whole `struct file`. -/
def FsMem.setFile (s : FsMem) (f : Fin NFILE) (g : File) : FsMem :=
  { s with ftable := Function.update s.ftable f g }

/-- The meaning of the memory steps. -/
def memHandler : Handler MemOp MemOp.Ret Halt FsMem
  | .sb => fun s => .ok s.sb s
  | .setSb sb => fun s => .ok () { s with sb := sb }
  | .inode ip => fun s => .ok (s.icache ip) s
  | .setInode ip f => fun s => .ok () (s.setInode ip (f (s.icache ip)))
  | .iget dev inum => fun s =>
    match igetScan s.icache dev inum (List.finRange NINODE) none with
    | .hit ip => .ok ip (s.setInode ip { s.icache ip with ref := (s.icache ip).ref + 1 })
    | .fresh ip => .ok ip (s.setInode ip { s.icache ip with
        dev := dev, inum := inum, ref := 1, valid := false })
    | .full => .error (.panic .igetNoInodes) s
  | .iputTest ip => fun s =>
    if (s.icache ip).valid ∧ (s.icache ip).din.nlink = 0 ∧ (s.icache ip).ref = 1 then .ok true s
    else .ok false (s.setInode ip { s.icache ip with ref := (s.icache ip).ref - 1 })
  | .idrop ip => fun s =>
    .ok () (s.setInode ip { s.icache ip with ref := (s.icache ip).ref - 1 })
  | .file f => fun s => .ok (s.ftable f) s
  | .setFile f g => fun s => .ok () (s.setFile f (g (s.ftable f)))
  | .filealloc => fun s =>
    match filealloc? s.ftable with
    | some f => .ok (some f) (s.setFile f { s.ftable f with ref := 1 })
    | none => .ok none s
  | .filedrop f => fun s =>
    if (s.ftable f).ref < 1 then .error (.panic .fileclose) s
    else if (s.ftable f).ref - 1 > 0 then
      .ok none (s.setFile f { s.ftable f with ref := (s.ftable f).ref - 1 })
    else
      .ok (some { s.ftable f with ref := (s.ftable f).ref - 1 })
        (s.setFile f { s.ftable f with ref := 0, type := .none })
  | .consoleread n => fun s =>
    match consoleLoop n s.input [] with
    | some (got, q) => .ok got { s with input := q }
    | none => .error .blocked s
  | .consolewrite src => fun s => .ok () { s with output := s.output ++ src }
  | .panic p => fun s => .error (.panic p) s

/-- Boot state of the memory-only part: all of it is zero, and `input` will be typed. -/
def FsMem.boot (input : List UInt8) : FsMem where
  icache := fun _ => ⟨0, 0, 0, false, .zero⟩
  ftable := fun _ => ⟨.none, 0, false, false, 0, 0⟩
  sb := ⟨0, 0, 0, 0, 0, 0, 0⟩
  input := input
  output := []

end Xv6
