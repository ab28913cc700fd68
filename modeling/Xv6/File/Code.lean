import Xv6.Fs.Code
import Xv6.Log.Code

/-!
# The code of `file.c` and `sysfile.c`

The file operations of the kernel, and what the system calls do with their arguments once these
have been fetched.  `create` stands in both source files, with the same text.

* `fileclose`, `fileread` and `filewrite` work on an open file; `filewrite` cuts its bytes into
  pieces of `WRITEMAX` and makes an operation of the log of each.
* `create`, `unlink`, `openFile`, `mknod` and `mkdir` work on paths.  Their error paths give up
  references and end operations where the source does, branch by branch.
* `sysOpen` and `sysClose` add the descriptor table of the process.

A descriptor table is an argument and a result here: only its own process uses it.  How the
arguments are fetched from user memory is in `Xv6.Syscall.Args`.
-/

namespace Xv6

open Lib

/-! ## Files -/

def fileclose (f : Fin NFILE) : K Unit := do
  match ← mem (.filedrop f) with
  | none => pure ()
  | some ff =>
    if ff.type = .inode then
      beginOp
      iput ff.ip
      endOp
    else pure ()

/-- `fileread(f, addr, n)`: the bytes stored at `addr`, whose number is the result, or `none` for
`-1`. -/
def fileread (f : Fin NFILE) (n : ℕ) : K (Option (List UInt8)) := do
  let g ← readFile f
  if g.readable = false then return none
  else if g.type = .inode then
    iread g.ip
    let g ← readFile f
    match ← readi g.ip g.off n with
    | none => return none
    | some got =>
      if 0 < got.length then
        setFile f fun g => { g with off := (g.off + got.length) % UINT }
      return some got
  else panic .fileread

/-- The most that `filewrite` passes to one `writei`. -/
abbrev WRITEMAX : ℕ := (MAXOPBLOCKS - 1 - 1 - 2) / 2 * 512

/-- The loop of `filewrite` on the bytes that are left; the result says whether it came to the
end of them. -/
def filewriteFrom (f : Fin NFILE) : ℕ → List UInt8 → K Bool
  | 0, src => pure (src = [])
  | turns + 1, src =>
    if src = [] then pure true
    else do
      let chunk := src.take WRITEMAX
      beginOp
      let g ← readFile f
      iread g.ip
      let g ← readFile f
      let r ← writei g.ip chunk g.off
      match r with
      | none =>
        endOp
        return false
      | some r =>
        if 0 < r then setFile f fun g => { g with off := (g.off + r) % UINT }
        endOp
        if r ≠ chunk.length then panic .shortFilewrite
        else filewriteFrom f turns (src.drop r)

/-- `filewrite(f, addr, n)` with the `n` bytes at `addr`; the result is `n`, or `none` for
`-1`. -/
def filewrite (f : Fin NFILE) (src : List UInt8) : K (Option ℕ) := do
  let g ← readFile f
  if g.writable = false then return none
  else if g.type = .inode then
    if ← filewriteFrom f src.length src then return some src.length else return none
  else panic .filewrite

/-! ## Names -/

/-- `"."`. -/
def dot : Name := nameOf [46]

/-- `".."`. -/
def dotdot : Name := nameOf [46, 46]

/-- The loop of `isdirempty` from the offset `off` on. -/
def isdiremptyFrom (dp : Fin NINODE) : ℕ → ℕ → K Bool
  | 0, _ => pure true
  | turns + 1, off => do
    let i ← readInode dp
    if off < i.din.size then
      match ← readi dp off DIRENTSIZE with
      | none => panic .isdiremptyReadi
      | some l =>
        if l.length ≠ DIRENTSIZE then panic .isdiremptyReadi
        else if (Dirent.ofBytes l).inum ≠ 0 then return false
        else isdiremptyFrom dp turns (off + DIRENTSIZE)
    else return true

def isdirempty (dp : Fin NINODE) : K Bool := isdiremptyFrom dp OFFTURNS (2 * DIRENTSIZE)

/-- A statement that stores into `ip->nlink`. -/
def setNlink (ip : Fin NINODE) (f : ℤ → ℤ) : K Unit :=
  setInode ip fun i => { i with din := { i.din with nlink := Bytes.toShort (f i.din.nlink) } }

/-- The end of `unlink(path, name)` at the label `bad`. -/
def unlinkBad (dp : Fin NINODE) : K Bool := do
  iput dp
  endOp
  return false

/-- `unlink(path, name)`; the result says whether it returns 0. -/
def unlink (path : CString) : K Bool := do
  beginOp
  match ← nameiparent path with
  | none =>
    endOp
    return false
  | some (dp, name) =>
    iread dp
    if namecmp name dot = 0 ∨ namecmp name dotdot = 0 then unlinkBad dp
    else
      match ← dirlookup dp name with
      | none => unlinkBad dp
      | some (ip, off) =>
        iread ip
        let i ← readInode ip
        if i.din.nlink < 1 then panic .unlinkNlink
        else
          let full ← if i.din.type = T_DIR then do
              let e ← isdirempty ip
              pure !e
            else pure false
          if full then
            iput ip
            unlinkBad dp
          else
            let r ← writei dp (Dirent.bytes ⟨0, Bytes.zero⟩) off
            if r ≠ some DIRENTSIZE then panic .unlinkWritei
            else
              let i ← readInode ip
              if i.din.type = T_DIR then
                setNlink dp (· - 1)
                iupdate dp
              iput dp
              setNlink ip (· - 1)
              iupdate ip
              iput ip
              endOp
              return true

def create (path : CString) (type major minor : ℤ) : K (Option (Fin NINODE)) := do
  match ← nameiparent path with
  | none => return none
  | some (dp, name) =>
    iread dp
    match ← dirlookup dp name with
    | some (ip, _) =>
      iput dp
      iread ip
      let i ← readInode ip
      if type = T_FILE ∧ i.din.type = T_FILE then return some ip
      else
        iput ip
        return none
    | none =>
      let d ← readInode dp
      let ip ← ialloc d.dev type
      iread ip
      setInode ip fun i => { i with din := { i.din with major := major } }
      setInode ip fun i => { i with din := { i.din with minor := minor } }
      setNlink ip fun _ => 1
      iupdate ip
      if type = T_DIR then
        setNlink dp (· + 1)
        iupdate dp
        let i ← readInode ip
        if (← dirlink ip dot i.inum) = false then panic .createDots
        else
          let d ← readInode dp
          if (← dirlink ip dotdot d.inum) = false then panic .createDots else pure ()
      else pure ()
      let i ← readInode ip
      if (← dirlink dp name i.inum) = false then panic .createDirlink
      else
        iput dp
        return some ip

/-! ## Open, mknod, mkdir -/

abbrev O_RDONLY : UInt32 := 0x000
abbrev O_WRONLY : UInt32 := 0x001
abbrev O_RDWR : UInt32 := 0x002
abbrev O_CREATE : UInt32 := 0x200

/-- The inode that `open` and `sys_open` open. -/
def openInode (path : CString) (omode : UInt32) : K (Option (Fin NINODE)) :=
  if omode &&& O_CREATE ≠ 0 then create path T_FILE 0 0
  else do
    match ← namei path with
    | none => return none
    | some ip =>
      iread ip
      let i ← readInode ip
      if i.din.type = T_DIR ∧ omode ≠ 0 then
        iput ip
        return none
      else return some ip

/-- The five statements that fill in an open file. -/
def fillFile (f : Fin NFILE) (ip : Fin NINODE) (omode : UInt32) : K Unit := do
  setFile f fun g => { g with type := .inode }
  setFile f fun g => { g with ip := ip }
  setFile f fun g => { g with off := 0 }
  setFile f fun g => { g with readable := decide (omode &&& O_WRONLY = 0) }
  setFile f fun g => { g with
    writable := decide (omode &&& O_WRONLY ≠ 0 ∨ omode &&& O_RDWR ≠ 0) }

/-- `open(path, omode)`. -/
def openFile (path : CString) (omode : UInt32) : K (Option (Fin NFILE)) := do
  beginOp
  match ← openInode path omode with
  | none =>
    endOp
    return none
  | some ip =>
    match ← filealloc with
    | none =>
      iput ip
      endOp
      return none
    | some f =>
      fillFile f ip omode
      endOp
      return some f

/-- `mknod(ip, path, major, minor)`; the result says whether it returns 0. -/
def mknod (path : CString) (major minor : ℤ) : K Bool := do
  beginOp
  match ← create path T_DEV (Bytes.toShort major) (Bytes.toShort minor) with
  | none =>
    endOp
    return false
  | some ip =>
    iput ip
    endOp
    return true

/-- `mkdir(path)`; the result says whether it returns 0. -/
def mkdir (path : CString) : K Bool := do
  beginOp
  match ← create path T_DIR 0 0 with
  | none =>
    endOp
    return false
  | some ip =>
    iput ip
    endOp
    return true

/-! ## System calls -/

abbrev NOFILE : ℕ := 16

/-- `proc->ofile`. -/
abbrev Ofile := Fin NOFILE → Option (Fin NFILE)

/-- `fdalloc(f)`: the descriptor and the table. -/
def fdalloc (o : Ofile) (f : Fin NFILE) : Option (Fin NOFILE × Ofile) :=
  ((List.finRange NOFILE).find? fun fd => o fd = none).map fun fd =>
    (fd, Function.update o fd (some f))

/-- `sys_open()` once its arguments are fetched: the descriptor, or `none` for `-1`, and the
table. -/
def sysOpen (o : Ofile) (path : CString) (omode : UInt32) : K (Option (Fin NOFILE) × Ofile) := do
  beginOp
  match ← openInode path omode with
  | none =>
    endOp
    return (none, o)
  | some ip =>
    match ← filealloc with
    | none =>
      iput ip
      endOp
      return (none, o)
    | some f =>
      match fdalloc o f with
      | none =>
        fileclose f
        iput ip
        endOp
        return (none, o)
      | some (fd, o) =>
        endOp
        fillFile f ip omode
        return (some fd, o)

/-- `sys_close()` once its arguments are fetched. -/
def sysClose (o : Ofile) (fd : Fin NOFILE) (f : Fin NFILE) : K Ofile := do
  fileclose f
  return Function.update o fd none

end Xv6
