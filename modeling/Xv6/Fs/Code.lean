import Xv6.Fs.Disk

/-!
# The code of `fs.c`

Block allocation, inodes, file contents, directories and paths, statement by statement.  The loops
that run over an `int` or `uint` counter take the number of turns they can make at most.

A path is a C string, the bytes in front of its NUL, and a name buffer is a `Name`: whoever reads
one stops at the first NUL, so the bytes that `skipelem` leaves behind it stand here as zero.  The
destination of `readi` and the source of `writei` are lists of bytes; the pointers of system calls
are in `Xv6.Syscall.Args`.
-/

namespace Xv6

open Lib

/-! ## Blocks -/

def BBLOCK (b : ℕ) (sb : Superblock) : ℕ := b / BPB + sb.bmapstart

def IBLOCK (i : ℕ) (sb : Superblock) : ℕ := i / IPB + sb.inodestart

/-- `*sb`, as it stands in block 1. -/
def superblockAt (d : Block) : Superblock :=
  ⟨d.le 0 4, d.le 4 4, d.le 8 4, d.le 12 4, d.le 16 4, d.le 20 4, d.le 24 4⟩

def readsb (dev : ℕ) : K Unit := do
  let bp ← bread dev 1
  let d ← bdata bp
  setSb (superblockAt d)
  brelse bp

/-- `iinit(dev)`, without what it prints. -/
def iinit (dev : ℕ) : K Unit := readsb dev

def bzero (dev bno : ℕ) : K Unit := do
  let bp ← bread dev bno
  bstore bp fun _ => Bytes.zero
  logWrite bp
  brelse bp

/-- The inner loop of `balloc` from bit `bi` on. -/
def ballocBits (dev b : ℕ) (sb : Superblock) (bp : BufRef) : ℕ → ℕ → K (Option ℕ)
  | 0, _ => pure none
  | turns + 1, bi =>
    if b + bi < sb.size then do
      let d ← bdata bp
      if bit d bi = false then
        bstore bp (setBit bi)
        logWrite bp
        brelse bp
        bzero dev (b + bi)
        return some (b + bi)
      else ballocBits dev b sb bp turns (bi + 1)
    else pure none

/-- The outer loop of `balloc` from the block `b` on. -/
def ballocFrom (dev : ℕ) (sb : Superblock) : ℕ → ℕ → K ℕ
  | 0, _ => panic .ballocOutOfBlocks
  | turns + 1, b =>
    if b < sb.size then do
      let bp ← bread dev (BBLOCK b sb)
      match ← ballocBits dev b sb bp BPB 0 with
      | some r => return r
      | none =>
        brelse bp
        ballocFrom dev sb turns (b + BPB)
    else panic .ballocOutOfBlocks

def balloc (dev : ℕ) : K ℕ := do
  let sb ← getSb
  ballocFrom dev sb sb.size 0

def bfree (dev b : ℕ) : K Unit := do
  let sb ← getSb
  let bp ← bread dev (BBLOCK b sb)
  let d ← bdata bp
  if bit d (b % BPB) = false then panic .freeingFreeBlock
  else do
    bstore bp (clearBit (b % BPB))
    logWrite bp
    brelse bp

/-! ## Inodes -/

/-- The loop of `ialloc` from the inode `inum` on. -/
def iallocFrom (dev : ℕ) (type : ℤ) (sb : Superblock) : ℕ → ℕ → K (Fin NINODE)
  | 0, _ => panic .iallocNoInodes
  | turns + 1, inum =>
    if inum < sb.ninodes then do
      let bp ← bread dev (IBLOCK inum sb)
      let d ← bdata bp
      if (dinodeAt d (inum % IPB)).type = 0 then
        bstore bp (zeroDinode (inum % IPB))
        bstore bp (putType (inum % IPB) type)
        logWrite bp
        brelse bp
        iget dev inum
      else
        brelse bp
        iallocFrom dev type sb turns (inum + 1)
    else panic .iallocNoInodes

def ialloc (dev : ℕ) (type : ℤ) : K (Fin NINODE) := do
  let sb ← getSb
  iallocFrom dev type sb sb.ninodes 1

def iupdate (ip : Fin NINODE) : K Unit := do
  let sb ← getSb
  let i ← readInode ip
  let bp ← bread i.dev (IBLOCK i.inum sb)
  let i ← readInode ip
  bstore bp (putType (i.inum % IPB) i.din.type)
  let i ← readInode ip
  bstore bp (putMajor (i.inum % IPB) i.din.major)
  let i ← readInode ip
  bstore bp (putMinor (i.inum % IPB) i.din.minor)
  let i ← readInode ip
  bstore bp (putNlink (i.inum % IPB) i.din.nlink)
  let i ← readInode ip
  bstore bp (putSize (i.inum % IPB) i.din.size)
  let i ← readInode ip
  bstore bp (putAddrs (i.inum % IPB) i.din.addrs)
  logWrite bp
  brelse bp

/-- A statement of `iread` that copies a field of the dinode. -/
def copyField (ip : Fin NINODE) (bp : BufRef) (f : Dinode → Dinode → Dinode) : K Unit := do
  let d ← bdata bp
  setInode ip fun i => { i with din := f (dinodeAt d (i.inum % IPB)) i.din }

/-- `iread(ip)`.  The callers never pass a null pointer. -/
def iread (ip : Fin NINODE) : K Unit := do
  let i ← readInode ip
  if i.ref < 1 then panic .iread
  else if i.valid then pure ()
  else do
    let sb ← getSb
    let bp ← bread i.dev (IBLOCK i.inum sb)
    copyField ip bp fun d n => { n with type := d.type }
    copyField ip bp fun d n => { n with major := d.major }
    copyField ip bp fun d n => { n with minor := d.minor }
    copyField ip bp fun d n => { n with nlink := d.nlink }
    copyField ip bp fun d n => { n with size := d.size }
    copyField ip bp fun d n => { n with addrs := d.addrs }
    brelse bp
    setInode ip fun i => { i with valid := true }
    let i ← readInode ip
    if i.din.type = 0 then panic .ireadNoType else pure ()

/-! ## File contents -/

/-- Store into `ip->addrs[k]`. -/
def setAddr (ip : Fin NINODE) (k : Fin (NDIRECT + 1)) (b : ℕ) : K Unit :=
  setInode ip fun i => { i with din := { i.din with addrs := Function.update i.din.addrs k b } }

/-- `ip->addrs[k]`, and a new block if there is none. -/
def directBlock (ip : Fin NINODE) (k : Fin (NDIRECT + 1)) : K ℕ := do
  let i ← readInode ip
  if i.din.addrs k = 0 then do
    let b ← balloc i.dev
    setAddr ip k b
    return b
  else return i.din.addrs k

def bmap (ip : Fin NINODE) (bn : ℕ) : K ℕ :=
  if h : bn < NDIRECT then directBlock ip ⟨bn, Nat.lt_succ_of_lt h⟩
  else if bn - NDIRECT < NINDIRECT then do
    let addr ← directBlock ip (Fin.last NDIRECT)
    let i ← readInode ip
    let bp ← bread i.dev addr
    let a ← bdata bp
    if entry a (bn - NDIRECT) = 0 then
      let addr ← balloc i.dev
      bstore bp (putEntry (bn - NDIRECT) addr)
      logWrite bp
      brelse bp
      return addr
    else
      brelse bp
      return entry a (bn - NDIRECT)
  else panic .bmapOutOfRange

/-- The first loop of `itrunc`, over the direct blocks that are left. -/
def freeDirect (ip : Fin NINODE) : List (Fin NDIRECT) → K Unit
  | [] => pure ()
  | k :: ks => do
    let i ← readInode ip
    if i.din.addrs k.castSucc ≠ 0 then
      bfree i.dev (i.din.addrs k.castSucc)
      setAddr ip k.castSucc 0
    freeDirect ip ks

/-- The second loop of `itrunc`, over the entries of the indirect block that are left. -/
def freeIndirect (dev : ℕ) (bp : BufRef) : List ℕ → K Unit
  | [] => pure ()
  | j :: js => do
    let a ← bdata bp
    if entry a j ≠ 0 then bfree dev (entry a j)
    freeIndirect dev bp js

def itrunc (ip : Fin NINODE) : K Unit := do
  freeDirect ip (List.finRange NDIRECT)
  let i ← readInode ip
  if i.din.addrs (Fin.last NDIRECT) ≠ 0 then
    let bp ← bread i.dev (i.din.addrs (Fin.last NDIRECT))
    freeIndirect i.dev bp (List.range NINDIRECT)
    brelse bp
    bfree i.dev (i.din.addrs (Fin.last NDIRECT))
    setAddr ip (Fin.last NDIRECT) 0
  setInode ip fun i => { i with din := { i.din with size := 0 } }
  iupdate ip

def iput (ip : Fin NINODE) : K Unit := do
  if ← mem (.iputTest ip) then
    itrunc ip
    setInode ip fun i => { i with din := { i.din with type := 0 } }
    iupdate ip
    setInode ip fun i => { i with valid := false }
    mem (.idrop ip)
  else pure ()

/-- The `m` bytes of a block from `o` on. -/
def bytesFrom (d : Block) (o m : ℕ) : List UInt8 := (List.range m).map fun i => d.get (o + i)

/-- The loop of `readi` with `left` bytes to go, on the bytes read so far. -/
def readLoop (ip : Fin NINODE) : ℕ → ℕ → ℕ → List UInt8 → K (List UInt8)
  | 0, _, _, got => pure got
  | turns + 1, off, left, got =>
    if left = 0 then pure got
    else do
      let b ← bmap ip (off / BSIZE)
      let i ← readInode ip
      let bp ← bread i.dev b
      let m := min left (BSIZE - off % BSIZE)
      let d ← bdata bp
      brelse bp
      readLoop ip turns (off + m) (left - m) (got ++ bytesFrom d (off % BSIZE) m)

/-- The devices that `devsw` has functions for. -/
def hasDevice (major : ℤ) : Bool := decide (0 ≤ major ∧ major < NDEV ∧ major = CONSOLE)

/-- `readi(ip, dst, off, n)`: the bytes stored at `dst`, whose number is the result, or `none` for
`-1`.  A device takes `n` as an `int`. -/
def readi (ip : Fin NINODE) (off n : ℕ) : K (Option (List UInt8)) := do
  let i ← readInode ip
  if i.din.type = T_DEV then
    if hasDevice i.din.major then
      let got ← mem (.consoleread (if n < 2 ^ 31 then n else 0))
      return some got
    else return none
  else if i.din.size < off ∨ (off + n) % UINT < off ∨ i.din.nlink < 1 then return none
  else
    let n := if i.din.size < (off + n) % UINT then i.din.size - off else n
    let got ← readLoop ip n off n []
    return some got

/-- The loop of `writei` on the bytes that are left; the result is the offset behind them. -/
def writeLoop (ip : Fin NINODE) : ℕ → ℕ → List UInt8 → K ℕ
  | 0, off, _ => pure off
  | turns + 1, off, src =>
    if src = [] then pure off
    else do
      let b ← bmap ip (off / BSIZE)
      let i ← readInode ip
      let bp ← bread i.dev b
      let m := min src.length (BSIZE - off % BSIZE)
      bstore bp fun d => d.blit (off % BSIZE) m fun i => src.getD i 0
      logWrite bp
      brelse bp
      writeLoop ip turns (off + m) (src.drop m)

/-- `writei(ip, src, off, n)` with the `n` bytes at `src`; the result is `n`, or `none` for
`-1`. -/
def writei (ip : Fin NINODE) (src : List UInt8) (off : ℕ) : K (Option ℕ) := do
  let i ← readInode ip
  if i.din.type = T_DEV then
    if hasDevice i.din.major then
      mem (.consolewrite src)
      return some src.length
    else return none
  else if i.din.size < off ∨ (off + src.length) % UINT < off then return none
  else if MAXFILE * BSIZE < (off + src.length) % UINT then return none
  else
    let off ← writeLoop ip src.length off src
    let i ← readInode ip
    if 0 < src.length ∧ i.din.size < off then
      setInode ip fun i => { i with din := { i.din with size := off } }
      iupdate ip
    return some src.length

/-! ## Directories -/

def strncmp : ℕ → (ℕ → UInt8) → (ℕ → UInt8) → ℤ
  | 0, _, _ => 0
  | n + 1, p, q =>
    if p 0 ≠ 0 ∧ p 0 = q 0 then strncmp n (fun i => p (i + 1)) fun i => q (i + 1)
    else (p 0).toNat - (q 0).toNat

def namecmp (s t : Name) : ℤ := strncmp DIRSIZ s.get t.get

/-- What `strncpy(s, name, DIRSIZ)` leaves at `s`. -/
def strncpy (name : Name) : Name := fun i =>
  if ∀ j < (i : ℕ), name.get j ≠ 0 then name i else 0

/-- More turns than a loop over the offsets of a file can make. -/
abbrev OFFTURNS : ℕ := 2 ^ 32

/-- The loop of `dirlookup` from the offset `off` on: the inode, and `*poff`. -/
def dirlookupFrom (dp : Fin NINODE) (name : Name) : ℕ → ℕ → K (Option (Fin NINODE × ℕ))
  | 0, _ => pure none
  | turns + 1, off => do
    let i ← readInode dp
    if off < i.din.size then
      match ← readi dp off DIRENTSIZE with
      | none => panic .dirlookupRead
      | some l =>
        if l.length ≠ DIRENTSIZE then panic .dirlookupRead
        else
          let de := Dirent.ofBytes l
          if de.inum ≠ 0 ∧ namecmp name de.name = 0 then do
            let i ← readInode dp
            let ip ← iget i.dev de.inum
            return some (ip, off)
          else dirlookupFrom dp name turns (off + DIRENTSIZE)
    else pure none

def dirlookup (dp : Fin NINODE) (name : Name) : K (Option (Fin NINODE × ℕ)) := do
  let i ← readInode dp
  if i.din.type ≠ T_DIR then panic .dirlookupNotDir
  else dirlookupFrom dp name OFFTURNS 0

/-- The loop of `dirlink` that looks for an empty entry: the offset at which it stops. -/
def emptyFrom (dp : Fin NINODE) : ℕ → ℕ → K ℕ
  | 0, off => pure off
  | turns + 1, off => do
    let i ← readInode dp
    if off < i.din.size then
      match ← readi dp off DIRENTSIZE with
      | none => panic .dirlinkRead
      | some l =>
        if l.length ≠ DIRENTSIZE then panic .dirlinkRead
        else if (Dirent.ofBytes l).inum = 0 then return off
        else emptyFrom dp turns (off + DIRENTSIZE)
    else return off

/-- `dirlink(dp, name, inum)`; the result says whether it returns 0. -/
def dirlink (dp : Fin NINODE) (name : Name) (inum : ℕ) : K Bool := do
  match ← dirlookup dp name with
  | some (ip, _) =>
    iput ip
    return false
  | none =>
    let off ← emptyFrom dp OFFTURNS 0
    if (← writei dp (Dirent.bytes ⟨inum, strncpy name⟩) off) ≠ some DIRENTSIZE then panic .dirlink
    else return true

/-! ## Paths -/

/-- `'/'`. -/
abbrev slash : UInt8 := 47

/-- A C string, without its NUL. -/
structure CString where
  bytes : List UInt8
  nonzero : 0 ∉ bytes

/-- A name of at most `DIRSIZ` bytes, filled up with NULs. -/
def nameOf (s : List UInt8) : Name := fun i => s.getD i 0

/-- The buffer `name` after `memmove(name, s, len)` and, for an element shorter than the buffer,
`name[len] = 0`. -/
def moveName (s : List UInt8) (name : Name) : Name := fun i =>
  if i < s.length then s.getD i 0 else if i = s.length then 0 else name i

/-- `skipelem(path, name)`: the buffer `name` afterwards, and the path behind the element, or `none`
if there is no element. -/
def skipelem (path : List UInt8) (name : Name) : Option (Name × List UInt8) :=
  match path.dropWhile (· = slash) with
  | [] => none
  | s => some (moveName (s.takeWhile (· ≠ slash)) name,
      (s.dropWhile (· ≠ slash)).dropWhile (· = slash))

def namexFrom (nameiparent : Bool) :
    ℕ → List UInt8 → Name → Fin NINODE → K (Option (Fin NINODE × Name))
  | 0, _, _, _ => pure none
  | turns + 1, path, name, ip =>
    match skipelem path name with
    | none =>
      if nameiparent then do
        iput ip
        return none
      else return some (ip, name)
    | some (name, path) => do
      iread ip
      let i ← readInode ip
      if i.din.type ≠ T_DIR then
        iput ip
        return none
      else if nameiparent ∧ path = [] then return some (ip, name)
      else
        match ← dirlookup ip name with
        | none =>
          iput ip
          return none
        | some (next, _) =>
          iput ip
          namexFrom nameiparent turns path name next

/-- `namex(path, nameiparent, name)`: the inode and the buffer `name`, which starts with zeros: what
is behind a NUL in it is never read. -/
def namex (path : CString) (nameiparent : Bool) : K (Option (Fin NINODE × Name)) := do
  let ip ← iget ROOTDEV ROOTINO
  namexFrom nameiparent (path.bytes.length + 1) path.bytes Bytes.zero ip

def namei (path : CString) : K (Option (Fin NINODE)) := do
  let r ← namex path false
  return r.map Prod.fst

def nameiparent (path : CString) : K (Option (Fin NINODE × Name)) := namex path true

end Xv6
