import Xv6.Fs.Code
import Xv6.Fs.Owner

/-!
# mkfs

The program that builds the first image of the file system, `mkfs.c`.  Its state is the file
`fs.img`, as blocks, and the counters `freeinode` and `freeblock`; a step that ends the program
early, by `exit(1)` or by an assertion, answers `none`.  `written` is no part of the program: it
records the last dinode that was passed to `winode` for every inode number.

The host is little-endian, so that `xint` and `xshort` are identities.
-/

namespace Xv6.Mkfs

open Lib

/-! ## Constants -/

abbrev NINODES : ℕ := 200

/-- Blocks of the free map. -/
abbrev nbitmap : ℕ := FSSIZE / (BSIZE * 8) + 1

abbrev ninodeblocks : ℕ := NINODES / IPB + 1

/-- Blocks of the log. -/
abbrev nlog : ℕ := LOGSIZE

/-- Blocks in front of the data: boot, superblock, log, inodes and free map. -/
abbrev nmeta : ℕ := 2 + nlog + ninodeblocks + nbitmap

/-- The superblock. -/
def sb : Superblock where
  size := FSSIZE
  nblocks := FSSIZE - nmeta
  ninodes := NINODES
  nlog := nlog
  logstart := 2
  inodestart := 2 + nlog
  bmapstart := 2 + nlog + ninodeblocks

/-- `memmove(buf, &sb, sizeof(sb))` into a block of zeros. -/
def sbBlock (sb : Superblock) : Block :=
  (((((((Bytes.zero : Block).putLE 0 4 sb.size).putLE 4 4 sb.nblocks).putLE 8 4 sb.ninodes).putLE
    12 4 sb.nlog).putLE 16 4 sb.logstart).putLE 20 4 sb.inodestart).putLE 24 4 sb.bmapstart

/-! ## The image -/

/-- The state of the program. -/
structure State where
  /-- The blocks of `fs.img`. -/
  img : ℕ → Block
  /-- How many blocks the file has. -/
  len : ℕ
  freeinode : ℕ
  freeblock : ℕ
  written : ℕ → Option Dinode

/-- The sector at the offset `sec * BSIZE`, a `uint`. -/
def sector (sec : ℕ) : ℕ := sec * BSIZE % UINT / BSIZE

def wsect (sec : ℕ) (buf : Block) (s : State) : State :=
  { s with img := Function.update s.img (sector sec) buf, len := max s.len (sector sec + 1) }

def rsect (sec : ℕ) (s : State) : Option Block :=
  if sector sec < s.len then some (s.img (sector sec)) else none

def winode (inum : ℕ) (d : Dinode) (s : State) : Option State := do
  let bn := IBLOCK inum sb
  let buf ← rsect bn s
  return { wsect bn (putDinode (inum % IPB) d buf) s with
    written := Function.update s.written inum (some d) }

def rinode (inum : ℕ) (s : State) : Option Dinode := do
  let buf ← rsect (IBLOCK inum sb) s
  return dinodeAt buf (inum % IPB)

def ialloc (type : ℤ) (s : State) : Option (ℕ × State) := do
  let inum := s.freeinode
  let s ← winode inum { Dinode.zero with type := type, nlink := 1 }
    { s with freeinode := inum + 1 }
  return (inum, s)

/-- The block that `balloc(used)` writes. -/
def bitmap (used : ℕ) : Block := (List.range used).foldl (fun buf i => setBit i buf) Bytes.zero

def balloc (used : ℕ) (s : State) : Option State :=
  if used < BSIZE * 8 then some (wsect sb.bmapstart (bitmap used) s) else none

/-! ## Appending to a file -/

/-- `freeblock++`. -/
def newblock (s : State) : State := { s with freeblock := s.freeblock + 1 }

/-- `din.addrs[k]`, after the test that gives it a block. -/
def direct (k : Fin (NDIRECT + 1)) (din : Dinode) (s : State) : Dinode × State :=
  if din.addrs k = 0 then (din.setAddr k s.freeblock, newblock s) else (din, s)

/-- The sector in entry `j` of the indirect block, after the test that gives it a block. -/
def indirectSector (j : ℕ) (din : Dinode) (s : State) : Option (ℕ × Dinode × State) := do
  let indirect ← rsect din.indirect s
  if entry indirect j = 0 then
    let indirect := putEntry j s.freeblock indirect
    return (entry indirect j, din, wsect din.indirect indirect (newblock s))
  else return (entry indirect j, din, s)

/-- The part of the loop of `iappend` that finds the sector `x` of block `fbn`. -/
def findSector (fbn : ℕ) (din : Dinode) (s : State) : Option (ℕ × Dinode × State) :=
  if h : fbn < NDIRECT then
    let r := direct ⟨fbn, Nat.lt_succ_of_lt h⟩ din s
    some (r.1.addrs ⟨fbn, Nat.lt_succ_of_lt h⟩, r)
  else
    let r := direct (Fin.last NDIRECT) din s
    indirectSector (fbn - NDIRECT) r.1 r.2

/-- The loop of `iappend`: `din` and `off` behind it. -/
def appendLoop : ℕ → Dinode → ℕ → List UInt8 → State → Option (Dinode × ℕ × State)
  | 0, din, off, _, s => some (din, off, s)
  | turns + 1, din, off, p, s =>
    if p = [] then some (din, off, s)
    else do
      let fbn := off / BSIZE
      if MAXFILE ≤ fbn then none
      else
        let (x, din, s) ← findSector fbn din s
        let n1 := min p.length ((fbn + 1) * BSIZE - off)
        let buf ← rsect x s
        appendLoop turns din (off + n1) (p.drop n1)
          (wsect x (buf.blit (off - fbn * BSIZE) n1 fun i => p.getD i 0) s)

/-- `iappend(inum, p, n)` with the `n` bytes at `p`. -/
def iappend (inum : ℕ) (p : List UInt8) (s : State) : Option State := do
  let din ← rinode inum s
  let (din, off, s) ← appendLoop p.length din din.size p s
  winode inum { din with size := off } s

/-! ## The program -/

/-- A file on the command line: its name, and what the calls of `read` return. -/
structure Input where
  name : CString
  chunks : List (List UInt8)

/-- `'_'`. -/
abbrev underscore : UInt8 := 95

/-- The name without a leading `_`. -/
def Input.base (f : Input) : List UInt8 :=
  if f.name.bytes.head? = some underscore then f.name.bytes.tail else f.name.bytes

/-- The loop over the contents of a file. -/
def appendAll (inum : ℕ) (chunks : List (List UInt8)) (s : State) : Option State :=
  chunks.foldlM (fun s c => iappend inum c s) s

/-- The body of the loop over the files. -/
def addFile (rootino : ℕ) (s : State) (f : Input) : Option State := do
  if slash ∈ f.name.bytes then none
  else
    let (inum, s) ← ialloc T_FILE s
    let s ← iappend rootino (Dirent.bytes ⟨inum, nameOf f.base⟩) s
    appendAll inum f.chunks s

/-- The state when `fs.img` has been opened, with `O_TRUNC`. -/
def opened : State where
  img _ := Bytes.zero
  len := 0
  freeinode := 1
  freeblock := nmeta
  written _ := none

/-- The loop that writes zeros to every block. -/
def zeroed : State := (List.range FSSIZE).foldl (fun s i => wsect i Bytes.zero s) opened

/-- The state when the superblock has been written. -/
def begun : State := wsect 1 (sbBlock sb) zeroed

/-- The part of `main` that writes the root directory with its two dot entries. -/
def start : Option (ℕ × State) := do
  let (rootino, s) ← ialloc T_DIR begun
  if rootino ≠ ROOTINO then none
  else
    let s ← iappend rootino (Dirent.bytes ⟨rootino, nameOf [46]⟩) s
    let s ← iappend rootino (Dirent.bytes ⟨rootino, nameOf [46, 46]⟩) s
    return (rootino, s)

/-- The part of `main` behind the loop: the size of the root directory, and the free map. -/
def finish (rootino : ℕ) (s : State) : Option State := do
  let din ← rinode rootino s
  let s ← winode rootino { din with size := (din.size / BSIZE + 1) * BSIZE } s
  balloc s.freeblock s

/-- `mkfs fs.img files...`, up to `exit(0)`. -/
def main (files : List Input) : Option State := do
  let (rootino, s) ← start
  let s ← files.foldlM (addFile rootino) s
  finish rootino s

end Xv6.Mkfs
