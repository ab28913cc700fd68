import Xv6.File.Runs
import Xv6.Fs.Resolve

/-!
# A file system to its users

To its users the file system is a partial map from paths to objects: directories, files with their
contents, and devices.  A path is the list of names on the way from the root, without `.` and `..`,
and every path but that of the root is the path of a directory and one more name.  An open file is a
handle on an object and stays one when the path is taken away; the object is given up with its last
handle.  A process has descriptors for its open files.

`State.Does` says what the operations of `file.c` and the system calls made of them do to that, with
all replies they can give.  Inodes, blocks, link counts, the log and the caches do not occur.
Objects are told apart by a number, and it is left open which number a new object gets.

`State.Survives` says what may be left of an operation if the machine crashes in its middle: nothing
of it, or all of it, or, if it is a write, the first part of the bytes.  `State.Next` puts the two
together, and `State.Runs` are the histories of calls, replies and crashes that a user can see.
-/

namespace Xv6

open Lib

abbrev Text := List UInt8

/-- What a path can stand for. -/
inductive Object
  | dir
  | file (data : List UInt8)
  | dev (major minor : ℤ)
  deriving DecidableEq

def Object.IsFile : Object → Prop
  | .file _ => True
  | _ => False

/-! ## Volumes -/

/-- Paths, and the objects that they stand for. -/
@[ext] structure Volume where
  name : List Text → Option ℕ
  object : ℕ → Option Object

namespace Volume

variable (V : Volume)

/-- What a path stands for. -/
def view (q : List Text) : Option Object := (V.name q).bind V.object

/-- The path that a name leads to from another path. -/
def step (q : List Text) (c : Text) : Option (List Text) :=
  if V.view q = some .dir then
    if c = dot.text then some q
    else if c = dotdot.text then some q.dropLast
    else if (V.name (q ++ [c])).isSome then some (q ++ [c])
    else none
  else none

/-- The path that a list of names leads to. -/
def find (cs : List Text) : Option (List Text) := cs.foldlM V.step []

/-- The directory that all but the last of a list of names lead to, and the last. -/
def findParent (cs : List Text) : Option (List Text × Text) := do
  let c ← cs.getLast?
  let q ← V.find cs.dropLast
  if V.view q = some .dir then some (q, c) else none

/-- No two paths stand for one object.  There are no hard links. -/
def Separate : Prop := ∀ {q q' i}, V.name q = some i → V.name q' = some i → q = q'

/-- A path is given to a new object. -/
def put (q : List Text) (i : ℕ) (o : Object) : Volume where
  name := Function.update V.name q (some i)
  object := Function.update V.object i (some o)

def erase (q : List Text) : Volume := { V with name := Function.update V.name q none }

def free (i : ℕ) : Volume := { V with object := Function.update V.object i none }

/-- A file gets other contents. -/
def store (i : ℕ) (data : List UInt8) : Volume :=
  { V with object := Function.update V.object i (some (.file data)) }

@[simp] lemma put_name (q q' : List Text) (i : ℕ) (o : Object) :
    (V.put q i o).name q' = if q' = q then some i else V.name q' := Function.update_apply ..

@[simp] lemma put_object (q : List Text) (i j : ℕ) (o : Object) :
    (V.put q i o).object j = if j = i then some o else V.object j := Function.update_apply ..

@[simp] lemma erase_name (q q' : List Text) :
    (V.erase q).name q' = if q' = q then none else V.name q' := Function.update_apply ..

@[simp] lemma erase_object (q : List Text) (j : ℕ) : (V.erase q).object j = V.object j := rfl

@[simp] lemma free_object (i j : ℕ) :
    (V.free i).object j = if j = i then none else V.object j := Function.update_apply ..

@[simp] lemma store_object (i j : ℕ) (data : List UInt8) :
    (V.store i data).object j = if j = i then some (.file data) else V.object j :=
  Function.update_apply ..

/-- Making a new object, or finding a file if a file was to be made. -/
inductive Creates (path : CString) (o : Object) : Option ℕ → Volume → Prop
  /-- There is no directory for the name. -/
  | missing (h : V.findParent (components path.bytes) = none) : Creates path o none V
  /-- The name is taken. -/
  | taken {q q' : List Text} {c : Text} {i : ℕ} {o' : Object}
      (h : V.findParent (components path.bytes) = some (q, c)) (hq : V.step q c = some q')
      (hi : V.name q' = some i) (ho : V.object i = some o') (hfile : ¬ (o.IsFile ∧ o'.IsFile)) :
      Creates path o none V
  /-- The file is there. -/
  | found {q q' : List Text} {c : Text} {i : ℕ} {o' : Object}
      (h : V.findParent (components path.bytes) = some (q, c)) (hq : V.step q c = some q')
      (hi : V.name q' = some i) (ho : V.object i = some o') (hfile : o.IsFile ∧ o'.IsFile) :
      Creates path o (some i) V
  | new {q : List Text} {c : Text} {i : ℕ}
      (h : V.findParent (components path.bytes) = some (q, c)) (hq : V.step q c = none)
      (hi : V.object i = none) : Creates path o (some i) (V.put (q ++ [c]) i o)

/-- The object to be opened.  A directory can be opened for reading only. -/
def Opens (path : CString) (omode : UInt32) (x : Option ℕ) (V' : Volume) : Prop :=
  if omode &&& O_CREATE ≠ 0 then V.Creates path (.file []) x V'
  else V' = V ∧ x = ((V.find (components path.bytes)).bind V.name).filter fun i =>
    V.object i ≠ some .dir ∨ omode = 0

/-- The path that can be taken away: not one that ends in a dot, and not that of a directory with
something in it. -/
def Removable (path : CString) (q : List Text) : Prop :=
  ∃ p c, V.findParent (components path.bytes) = some (p, c) ∧ q = p ++ [c] ∧ c ≠ dot.text ∧
    c ≠ dotdot.text ∧ (V.name q).isSome ∧
    (V.view q = some .dir → ∀ c', V.name (q ++ [c']) = none)

end Volume

/-! ## States -/

/-- The files that code of the kernel names are as they should be, and a length is a C `int` that is
not negative. -/
def FsCall.Allowed (P : Fin NFILE → Prop) : FsCall → Prop
  | fileread f n => P f ∧ n < 2 ^ 31
  | filewrite f _ => P f
  | fileclose f => P f
  | sysRead _ _ n => n < 2 ^ 31
  | _ => True

/-- An open file. -/
structure Handle where
  id : ℕ
  off : ℕ
  readable : Bool
  writable : Bool

def Handle.opened (i : ℕ) (omode : UInt32) : Handle where
  id := i
  off := 0
  readable := decide (omode &&& O_WRONLY = 0)
  writable := decide (omode &&& O_WRONLY ≠ 0 ∨ omode &&& O_RDWR ≠ 0)

/-- A volume, the open files, and the descriptors of the processes. -/
@[ext] structure State extends Volume where
  handle : Fin NFILE → Option Handle
  ofile : Fin NPROC → Ofile

namespace State

variable (a : State)

/-- Some path stands for the object. -/
def Linked (i : ℕ) : Prop := ∃ q, a.name q = some i

/-- Some handle is on the object. -/
def Held (i : ℕ) : Prop := ∃ f h, a.handle f = some h ∧ h.id = i

def withVolume (V : Volume) : State := { a with toVolume := V }

def setHandle (f : Fin NFILE) (h : Option Handle) : State :=
  { a with handle := Function.update a.handle f h }

@[simp] lemma setHandle_handle (f f' : Fin NFILE) (h : Option Handle) :
    (a.setHandle f h).handle f' = if f' = f then h else a.handle f' := Function.update_apply ..

def setSlot (p : Fin NPROC) (fd : Fin NOFILE) (x : Option (Fin NFILE)) : State :=
  { a with ofile := Function.update a.ofile p (Function.update (a.ofile p) fd x) }

@[simp] lemma setSlot_ofile (p p' : Fin NPROC) (fd fd' : Fin NOFILE) (x : Option (Fin NFILE)) :
    (a.setSlot p fd x).ofile p' fd' = if p' = p ∧ fd' = fd then x else a.ofile p' fd' := by
  by_cases hp : p' = p
  · subst hp
    simp [setSlot, Function.update_apply]
  · simp [setSlot, hp]

def seek (f : Fin NFILE) (h : Handle) (off : ℕ) : State :=
  a.setHandle f (some { h with off := off })

open Classical in
/-- An object that nothing refers to is given up. -/
noncomputable def collect (i : ℕ) : State :=
  if a.Linked i ∨ a.Held i then a else a.withVolume (a.free i)

@[simp] lemma collect_ofile (i : ℕ) : (a.collect i).ofile = a.ofile := by
  unfold collect
  split_ifs <;> rfl

@[simp] lemma collect_handle (i : ℕ) : (a.collect i).handle = a.handle := by
  unfold collect
  split_ifs <;> rfl

/-- Only code of the kernel has the file. -/
def Private (f : Fin NFILE) : Prop := (a.handle f).isSome ∧ ∀ p fd, a.ofile p fd ≠ some f

/-- Code of the kernel names files that only it has. -/
def Legal (c : FsCall) : Prop := c.Allowed a.Private

/-- A descriptor has an open file, and no other descriptor has it. -/
structure Valid : Prop where
  live : ∀ {p fd f}, a.ofile p fd = some f → (a.handle f).isSome
  alone : ∀ {p p' fd fd' f}, a.ofile p fd = some f → a.ofile p' fd' = some f → p = p' ∧ fd = fd'

/-- The machine has come up: nothing is open, and every path has an object of its own. -/
structure Started : Prop where
  handle : ∀ f, a.handle f = none
  ofile : ∀ p fd, a.ofile p fd = none
  separate : a.Separate

end State

/-! ## Operations -/

inductive Reply
  | file (r : Option (Fin NFILE))
  | fd (r : Option (Fin NOFILE))
  | bytes (r : Option (List UInt8))
  | count (r : Option ℕ)
  | ok (b : Bool)
  | done

inductive State.Does (a : State) : FsCall → Reply → State → Prop
  | openFail {path omode V} (h : a.Opens path omode none V) :
      Does a (.openFile path omode) (.file none) (a.withVolume V)
  /-- There is no handle left. -/
  | openFull {path omode V i} (h : a.Opens path omode (some i) V)
      (hfull : ∀ f, (a.handle f).isSome) :
      Does a (.openFile path omode) (.file none) (a.withVolume V)
  | opened {path omode V i f} (h : a.Opens path omode (some i) V) (hf : a.handle f = none) :
      Does a (.openFile path omode) (.file (some f))
        ((a.withVolume V).setHandle f (some (.opened i omode)))
  | readRefused {f n h} (hf : a.handle f = some h) (hr : h.readable = false) :
      Does a (.fileread f n) (.bytes none) a
  /-- A file without a path cannot be read. -/
  | readFail {f n h data} (hf : a.handle f = some h) (hr : h.readable = true)
      (ho : a.object h.id = some (.file data)) (hbad : ¬ a.Linked h.id ∨ data.length < h.off) :
      Does a (.fileread f n) (.bytes none) a
  | read {f n h data got} (hf : a.handle f = some h) (hr : h.readable = true)
      (ho : a.object h.id = some (.file data)) (hl : a.Linked h.id) (hoff : h.off ≤ data.length)
      (hgot : got = (data.drop h.off).take n) :
      Does a (.fileread f n) (.bytes (some got)) (a.seek f h (h.off + got.length))
  /-- What a device delivers, and how a directory is laid out, is left open. -/
  | readOther {f n h o r off} (hf : a.handle f = some h) (hr : h.readable = true)
      (ho : a.object h.id = some o) (hfile : ¬ o.IsFile) :
      Does a (.fileread f n) (.bytes r) (a.seek f h off)
  | writeRefused {f src h} (hf : a.handle f = some h) (hw : h.writable = false) :
      Does a (.filewrite f src) (.count none) a
  /-- A write stops where the largest file ends. -/
  | write {f src h data k} (hf : a.handle f = some h) (hw : h.writable = true)
      (ho : a.object h.id = some (.file data)) (hk : k = written data.length h.off src.length) :
      Does a (.filewrite f src) (.count (if k = src.length then some src.length else none))
        ((a.withVolume (a.store h.id (overlay data h.off (src.take k)))).seek f h (h.off + k))
  | writeDevice {f src h major minor r off} (hf : a.handle f = some h) (hw : h.writable = true)
      (ho : a.object h.id = some (.dev major minor)) :
      Does a (.filewrite f src) (.count r) (a.seek f h off)
  | closed {f h} (hf : a.handle f = some h) :
      Does a (.fileclose f) .done ((a.setHandle f none).collect h.id)
  | unlinkFail {path} (h : ∀ q, ¬ a.Removable path q) : Does a (.unlink path) (.ok false) a
  | unlinked {path q i} (h : a.Removable path q) (hi : a.name q = some i) :
      Does a (.unlink path) (.ok true) ((a.withVolume (a.erase q)).collect i)
  | mkdir {path x V} (h : a.Creates path .dir x V) :
      Does a (.mkdir path) (.ok x.isSome) (a.withVolume V)
  | mknod {path major minor x V}
      (h : a.Creates path (.dev (Bytes.toShort major) (Bytes.toShort minor)) x V) :
      Does a (.mknod path major minor) (.ok x.isSome) (a.withVolume V)
  | sysOpenFail {p path omode V} (h : a.Opens path omode none V) :
      Does a (.sysOpen p path omode) (.fd none) (a.withVolume V)
  /-- There is no handle or no descriptor left. -/
  | sysOpenFull {p path omode V i} (h : a.Opens path omode (some i) V)
      (hfull : (∀ f, (a.handle f).isSome) ∨ ∀ fd, (a.ofile p fd).isSome) :
      Does a (.sysOpen p path omode) (.fd none) (a.withVolume V)
  /-- The descriptor is the least that is free. -/
  | sysOpened {p path omode V i f fd} (h : a.Opens path omode (some i) V) (hf : a.handle f = none)
      (hfd : a.ofile p fd = none) (hleast : ∀ fd' < fd, a.ofile p fd' ≠ none) :
      Does a (.sysOpen p path omode) (.fd (some fd))
        (((a.withVolume V).setHandle f (some (.opened i omode))).setSlot p fd (some f))
  | sysReadFail {p fd n} (hfd : a.ofile p fd = none) :
      Does a (.sysRead p fd n) (.bytes none) a
  | sysRead {p fd n f r a'} (hfd : a.ofile p fd = some f) (h : Does a (.fileread f n) r a') :
      Does a (.sysRead p fd n) r a'
  | sysWriteFail {p fd src} (hfd : a.ofile p fd = none) :
      Does a (.sysWrite p fd src) (.count none) a
  | sysWrite {p fd src f r a'} (hfd : a.ofile p fd = some f) (h : Does a (.filewrite f src) r a') :
      Does a (.sysWrite p fd src) r a'
  | sysCloseFail {p fd} (hfd : a.ofile p fd = none) : Does a (.sysClose p fd) (.ok false) a
  | sysClose {p fd f r a'} (hfd : a.ofile p fd = some f) (h : Does a (.fileclose f) r a') :
      Does a (.sysClose p fd) (.ok true) (a'.setSlot p fd none)
  | pinit {p} : Does a (.pinit p) .done a

/-! ## Crashes -/

/-- The call, or a write of the first bytes only. -/
inductive FsCall.Part : FsCall → FsCall → Prop
  | all (c : FsCall) : Part c c
  | write {f src src'} (h : src' <+: src) : Part (.filewrite f src') (.filewrite f src)
  | sysWrite {p fd src src'} (h : src' <+: src) : Part (.sysWrite p fd src') (.sysWrite p fd src)

/-- What the paths may stand for once the machine has crashed during a call. -/
inductive State.Survives (a : State) (c : FsCall) : (List Text → Option Object) → Prop
  | before : Survives a c a.view
  | after {c' r a'} (hp : c'.Part c) (h : a.Does c' r a') : Survives a c a'.view

/-- What a user sees of the machine: a call returns, or the machine crashes during a call and comes
up again. -/
inductive FsEvent
  | call (c : FsCall) (r : Reply)
  | crash (c : FsCall)

inductive State.Next (a : State) : FsEvent → State → Prop
  | call {c r a'} (hc : a.Legal c) (h : a.Does c r a') : Next a (.call c r) a'
  | crash {c a'} (hc : a.Legal c) (h : a.Survives c a'.view) (hs : a'.Started) :
      Next a (.crash c) a'

inductive State.Runs (a : State) : List FsEvent → State → Prop
  | nil : Runs a [] a
  | snoc {es e a' a''} (h : Runs a es a') (he : a'.Next e a'') : Runs a (es ++ [e]) a''

end Xv6
