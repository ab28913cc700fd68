import Xv6.File.Boot
import Xv6.Lib.Threads

/-!
# Sequences of operations

A session says who holds what: the files that code of the kernel has opened itself, the descriptors
of the processes, and their working directories.  `FsCall` are the operations of the file system and
the system calls made of them, with arbitrary arguments; a caller names only files that it holds.
`World.Steps` makes calls one after another, each of which returns.

`World.Sound L O w` is what holds between two calls: the machine and the memory represent nodes that
form a tree, every reference has its holder, and the drive recovers to such nodes as well.  A call
from a sound world leads to a sound world, halts only for want of resources, and wherever the
machine crashes in the middle of it the drive recovers to nodes that are safe.

`nwp_call` is the one lemma about all calls, a case for each, and `World.Steps.sound` the induction
over a run.  `World.Boots` is how a run begins, with a kernel that has just mounted its drives.
-/

namespace Xv6

open Lib

/-! ## Sessions and calls -/

structure Session where
  /-- Files that code of the kernel has opened. -/
  kernel : List (Fin NFILE)
  ofile : Fin NPROC → Ofile
  cwd : Fin NPROC → Option (Fin NINODE)

namespace Session

def empty : Session := ⟨[], fun _ _ => none, fun _ => none⟩

/-- The holders of a file: descriptors, and code of the kernel. -/
def holders (S : Session) (f : Fin NFILE) : ℕ :=
  S.kernel.count f + ∑ p, countAt (fun o => o = some f) (S.ofile p)

/-- The processes with a working directory. -/
def dwellers (S : Session) (ip : Fin NINODE) : ℕ := countAt (fun d => d = some ip) S.cwd

variable {S : Session} {f f' : Fin NFILE} {p : Fin NPROC} {fd : Fin NOFILE}

lemma holders_push (S : Session) (f f' : Fin NFILE) :
    holders { S with kernel := f :: S.kernel } f' = S.holders f' + if f = f' then 1 else 0 := by
  simp only [holders, List.count_cons, beq_iff_eq]
  omega

lemma holders_erase (hf : f ∈ S.kernel) (f' : Fin NFILE) :
    holders { S with kernel := S.kernel.erase f } f' + (if f = f' then 1 else 0) =
      S.holders f' := by
  simp only [holders, List.count_erase, beq_iff_eq]
  split_ifs with he
  · subst he
    have hpos := List.count_pos_iff.mpr hf
    omega
  · omega

lemma holders_slot (S : Session) (p : Fin NPROC) (fd : Fin NOFILE) (x : Option (Fin NFILE))
    (f' : Fin NFILE) :
    holders { S with ofile := Function.update S.ofile p (Function.update (S.ofile p) fd x) } f' +
      (if S.ofile p fd = some f' then 1 else 0) =
        S.holders f' + if x = some f' then 1 else 0 := by
  have hslot := countAt_update (fun o => o = some f') (S.ofile p) fd x
  have htable := sum_update (countAt fun o => o = some f') S.ofile p
    (Function.update (S.ofile p) fd x)
  simp only [toNat_decide] at hslot
  simp only [holders]
  omega

lemma holders_pos_of_mem (hf : f ∈ S.kernel) : 0 < S.holders f :=
  Nat.add_pos_left (List.count_pos_iff.mpr hf) _

lemma holders_pos_of_slot (hf : S.ofile p fd = some f) : 0 < S.holders f := by
  have hpos : 0 < countAt (fun o => o = some f) (S.ofile p) := countAt_pos (i := fd) (by simp [hf])
  exact Nat.add_pos_right _ (hpos.trans_le (Finset.single_le_sum
    (f := fun p => countAt (fun o => o = some f) (S.ofile p)) (fun _ _ => Nat.zero_le _)
    (Finset.mem_univ p)))

lemma dwellers_set (hp : S.cwd p = none) (ip jp : Fin NINODE) :
    dwellers { S with cwd := Function.update S.cwd p (some ip) } jp =
      S.dwellers jp + if ip = jp then 1 else 0 := by
  have hset := countAt_update (fun d => d = some jp) S.cwd p (some ip)
  simpa [dwellers, hp, toNat_decide] using hset

end Session

/-- An operation of the file system, or a system call once its arguments are fetched. -/
inductive FsCall
  | openFile (path : CString) (omode : UInt32)
  | fileread (f : Fin NFILE) (n : ℕ)
  | filewrite (f : Fin NFILE) (src : List UInt8)
  | fileclose (f : Fin NFILE)
  | unlink (path : CString)
  | mkdir (path : CString)
  | mknod (path : CString) (major minor : ℤ)
  | sysOpen (p : Fin NPROC) (path : CString) (omode : UInt32)
  | sysRead (p : Fin NPROC) (fd : Fin NOFILE) (n : ℕ)
  | sysWrite (p : Fin NPROC) (fd : Fin NOFILE) (src : List UInt8)
  | sysClose (p : Fin NPROC) (fd : Fin NOFILE)
  /-- `p->cwd = namei("/")` of `pinit`. -/
  | pinit (p : Fin NPROC)

/-- `"/"`. -/
def rootPath : CString := ⟨[slash], by decide⟩

namespace FsCall

/-- The code of a call, which returns the session afterwards.  A descriptor without a file is
refused by `argfd`. -/
def code (S : Session) : FsCall → K Session
  | openFile path omode => do
    match ← Xv6.openFile path omode with
    | none => return S
    | some f => return { S with kernel := f :: S.kernel }
  | fileread f n => do
    let _ ← Xv6.fileread f n
    return S
  | filewrite f src => do
    let _ ← Xv6.filewrite f src
    return S
  | fileclose f => do
    Xv6.fileclose f
    return { S with kernel := S.kernel.erase f }
  | unlink path => do
    let _ ← Xv6.unlink path
    return S
  | mkdir path => do
    let _ ← Xv6.mkdir path
    return S
  | mknod path major minor => do
    let _ ← Xv6.mknod path major minor
    return S
  | sysOpen p path omode => do
    let r ← Xv6.sysOpen (S.ofile p) path omode
    return { S with ofile := Function.update S.ofile p r.2 }
  | sysRead p fd n =>
    match S.ofile p fd with
    | none => return S
    | some f => do
      let _ ← Xv6.fileread f n
      return S
  | sysWrite p fd src =>
    match S.ofile p fd with
    | none => return S
    | some f => do
      let _ ← Xv6.filewrite f src
      return S
  | sysClose p fd =>
    match S.ofile p fd with
    | none => return S
    | some f => do
      let o ← Xv6.sysClose (S.ofile p) fd f
      return { S with ofile := Function.update S.ofile p o }
  | pinit p => do
    let ip ← namei rootPath
    return { S with cwd := Function.update S.cwd p ip }

/-- Code of the kernel names files that it holds, a length is a C `int` that is not negative, and
`pinit` is given a process without a working directory. -/
def Legal (S : Session) : FsCall → Prop
  | fileread f n => f ∈ S.kernel ∧ n < 2 ^ 31
  | filewrite f _ => f ∈ S.kernel
  | fileclose f => f ∈ S.kernel
  | sysRead _ _ n => n < 2 ^ 31
  | pinit p => S.cwd p = none
  | _ => True

end FsCall

/-! ## Worlds -/

/-- The machine, the memory of the file system, and who holds what. -/
structure World where
  machine : Machine
  mem : FsMem
  session : Session

namespace World

def call (w : World) (c : FsCall) : EStateM.Result Halt (Machine × FsMem) Session :=
  (c.code w.session).run kernelHandler (w.machine, w.mem)

/-- Legal calls in `A` one after another, as long as they return. -/
inductive Steps (A : World → FsCall → Prop) (w : World) : World → Prop
  | refl : Steps A w w
  | call {w' : World} {m : Machine} {fm : FsMem} {S : Session} (c : FsCall) (h : Steps A w w')
    (hc : c.Legal w'.session) (hA : A w' c) (hrun : w'.call c = .ok S (m, fm)) :
    Steps A w ⟨m, fm, S⟩

def anyCall (_ : World) (_ : FsCall) : Prop := True

/-- The kernel has mounted the drives `d`, with `input` to come from the console. -/
structure Boots (d : BufRef → Block) (input : List UInt8) (w : World) : Prop where
  run : mountFs.run kernelHandler (binit d true .zero, .boot input) = .ok () (w.machine, w.mem)
  session : w.session = .empty

end World

/-! ## What holds between two calls -/

/-- The open files and the references are those of the session. -/
structure Settles (L : Layout) (O : ℕ → Prop) (S : Session) (s : Fs) (t : Table) (hold : List Ref) :
    Prop where
  holds : s.Holds t s.node hold ∅ 0
  quiet : Quiet L O t s.node hold
  files : ∀ f, (t.file f).ref = S.holders f
  cwds : ∀ ip, refsTo hold ip = S.dwellers ip

/-- What holds of the file system between two calls. -/
def Settled (L : Layout) (O : ℕ → Prop) (S : Session) (s : Fs) : Prop :=
  ∃ t hold, Settles L O S s t hold

/-- What holds of the world between two calls: the machine shows the volume `v`, the memory and the
volume represent the state `s`, the state is as the session says, and the drive would recover to a
tree as well. -/
structure World.Sound (L : Layout) (O : ℕ → Prop) (w : World) (ino : Inos) (v : Vol) (s : Fs) :
    Prop where
  on : L.On v w.machine
  durable : L.OnDisk (L.Safe O) v.old
  rep : L.Rep ino s v w.mem
  settled : Settled L O w.session s

/-! ## Calls keep this -/

section

variable {L : Layout} {O : ℕ → Prop} {S : Session} {s : Fs} {t : Table} {hold : List Ref}
  {f : Fin NFILE} {w w' : World} {ino : Inos} {v : Vol} {c : FsCall}

/-- An open file refers to the inode. -/
def Fs.Opens (s : Fs) (i : ℕ) : Prop := ∃ f, (s.ft f).type = .inode ∧ (s.ic (s.ft f).ip).inum = i

/-- `unlink` of an open file only where `O` admits it. -/
def FsCall.Admits (O : ℕ → Prop) (s : Fs) (c : FsCall) : Prop :=
  ∀ path, c = .unlink path → ∀ i, s.node.target path = some i → s.Opens i → O i

namespace Settles

lemma type_of_pos (h : Settles L O S s t hold) (hf : 0 < S.holders f) :
    (t.file f).type = .inode := by
  rcases h.quiet.table f with ⟨ht, -⟩ | ⟨-, hz⟩
  · exact ht
  · rw [h.files f] at hz
    omega

lemma holders_of_free (h : Settles L O S s t hold) (hf : (t.file f).type = .none) :
    S.holders f = 0 := by
  rw [← h.files f]
  rcases h.quiet.table f with ⟨ht, -⟩ | ⟨-, hz⟩
  · rw [hf] at ht
    cases ht
  · exact hz

end Settles

private lemma Settles.seek {σ' : Nodes} {s' : Fs} {off : ℕ} (h : Settles L O S s t hold)
    (h' : s'.Holds (t.seek f off) σ' hold ∅ 0) (hq : Quiet L O (t.seek f off) σ' hold) :
    Settled L O S s' := by
  have hnode := h'.node
  subst hnode
  refine ⟨_, _, h', hq, fun f' => ?_, h.cwds⟩
  rw [Table.file_seek.2.1]
  exact h.files f'

private lemma Settles.opened {S' : Session} {s' : Fs} {σ' : Nodes} {g : File} {i : ℕ}
    (h : Settles L O S s t hold) (hf : (t.file f).type = .none)
    (h' : s'.Holds (t.set f g i) σ' hold ∅ 0) (hq : Quiet L O (t.set f g i) σ' hold)
    (hg : g.ref = 1)
    (hS : ∀ f', S'.holders f' = S.holders f' + if f = f' then 1 else 0)
    (hcwd : S'.cwd = S.cwd) : Settled L O S' s' := by
  have hnode := h'.node
  subst hnode
  refine ⟨_, _, h', hq, fun f' => ?_, fun ip => ?_⟩
  · rw [hS]
    by_cases hne : f' = f
    · subst hne
      rw [Table.file_set, hg, h.holders_of_free hf, if_pos rfl]
    · rw [Table.file_set_of_ne hne, h.files, if_neg (Ne.symm hne), Nat.add_zero]
  · rw [h.cwds, Session.dwellers, Session.dwellers, hcwd]

private lemma Settles.closed {S' : Session} {s' : Fs} {σ' : Nodes} {g : File} {i : ℕ}
    (h : Settles L O S s t hold) (hf : (t.file f).type = .inode)
    (h' : s'.Holds (t.set f g i) σ' hold ∅ 0) (hq : Quiet L O (t.set f g i) σ' hold)
    (hg : g.type = .none)
    (hS : ∀ f', S'.holders f' + (if f = f' then 1 else 0) = S.holders f')
    (hcwd : S'.cwd = S.cwd) : Settled L O S' s' := by
  have hnode := h'.node
  subst hnode
  refine ⟨_, _, h', hq, fun f' => ?_, fun ip => ?_⟩
  · have hcount := hS f'
    by_cases hne : f' = f
    · subst hne
      have hone : (t.file f').ref = 1 := by
        rcases h.quiet.table f' with ⟨-, hone⟩ | ⟨hnone, -⟩
        · exact hone
        · rw [hf] at hnone
          cases hnone
      have hzero : ((t.set f' g i).file f').ref = 0 := by
        rcases hq.table f' with ⟨hinode, -⟩ | ⟨-, hzero⟩
        · rw [Table.file_set, hg] at hinode
          cases hinode
        · exact hzero
      rw [if_pos rfl, ← h.files, hone] at hcount
      omega
    · rw [if_neg (Ne.symm hne), Nat.add_zero] at hcount
      rw [Table.file_set_of_ne hne, h.files, hcount]
  · rw [h.cwds, Session.dwellers, Session.dwellers, hcwd]

private lemma Settles.nodes {σ' : Nodes} {s' : Fs} (h : Settles L O S s t hold)
    (h' : s'.Holds t σ' hold ∅ 0) (hq : Quiet L O t σ' hold) : Settled L O S s' := by
  have hnode := h'.node
  subst hnode
  exact ⟨t, hold, h', hq, h.files, h.cwds⟩

private lemma Settles.dwells {s' : Fs} {ip : Fin NINODE} {p : Fin NPROC} {b : Bool}
    (h : Settles L O S s t hold) (hp : S.cwd p = none)
    (h' : s'.Holds t s.node (⟨ip, ROOTINO, b⟩ :: hold) ∅ 0) :
    Settled L O { S with cwd := Function.update S.cwd p (some ip) } s' := by
  have hq := h.quiet
  have hnode := h'.node
  rw [← hnode] at h' hq
  refine ⟨t, _, h', ⟨{ hq.toSteady with hold := fun r hr => ?_ }, hq.orphan⟩, h.files, fun jp => ?_⟩
  · rcases List.mem_cons.mp hr with rfl | hr
    · rfl
    · exact hq.hold r hr
  · rw [refsTo_cons, h.cwds, Session.dwellers_set hp]

lemma Nodes.resolve_root (σ : Nodes) : σ.resolve rootPath = some ROOTINO := rfl

private lemma nwp_fileread_settled [L.Scarce] {n : ℕ} (h : Settles L O S s t hold)
    (hf : 0 < S.holders f) (hn : n < 2 ^ 31) :
    nwp L (L.OnDisk (L.Safe O)) (fileread f n >>= fun _ => pure S)
      (fun S' s' => Settled L O S' s') s := by
  refine nwp_seq (nwp_fileread h.holds h.quiet (h.type_of_pos hf) (hn.trans (by decide))) ?_
  rintro r s' ⟨off, h', hq⟩
  exact nwp_ret (h.seek h' hq)

private lemma nwp_filewrite_settled [L.Scarce] {src : List UInt8} (h : Settles L O S s t hold)
    (hL : L.Room MAXOPBLOCKS) (hf : 0 < S.holders f) :
    nwp L (L.OnDisk (L.Safe O)) (filewrite f src >>= fun _ => pure S)
      (fun S' s' => Settled L O S' s') s := by
  refine nwp_seq (nwp_filewrite h.holds h.quiet hL (h.type_of_pos hf)) ?_
  rintro r s' ⟨off, σ', h', hq⟩
  exact nwp_ret (h.seek h' hq)

/-- **Every call keeps what holds between calls.** -/
lemma nwp_call [L.Scarce] (h : Settled L O S s) (hL : L.Room MAXOPBLOCKS) (hc : c.Legal S)
    (hO : c.Admits O s) :
    nwp L (L.OnDisk (L.Safe O)) (c.code S) (fun S' s' => Settled L O S' s') s := by
  obtain ⟨t, hold, h⟩ := h
  -- every operation has a specification of its own; what is left is who holds which file afterwards
  cases c with
  | openFile path omode =>
    refine nwp_seq (nwp_openFile h.holds h.quiet hL (.inl Layout.Scarce.scarce)) ?_
    rintro (_ | f) s' ⟨x, t', σ', -, h', hq, hr⟩
    · obtain ⟨rfl, -⟩ := hr
      exact nwp_ret (h.nodes h' hq)
    · obtain ⟨hf, ip, i, -, rfl⟩ := hr
      exact nwp_ret (h.opened hf h' hq rfl (Session.holders_push S f) rfl)
  | fileread f n => exact nwp_fileread_settled h (Session.holders_pos_of_mem hc.1) hc.2
  | filewrite f src => exact nwp_filewrite_settled h hL (Session.holders_pos_of_mem hc)
  | fileclose f =>
    have hf := h.type_of_pos (Session.holders_pos_of_mem hc)
    refine nwp_seq (nwp_fileclose h.holds h.quiet hL hf) ?_
    rintro - s' ⟨σ', g, hg, h', hq⟩
    exact nwp_ret (h.closed hf h' hq hg (Session.holders_erase hc) rfl)
  | unlink path =>
    refine nwp_seq (nwp_unlink_quiet h.holds h.quiet hL (.inl Layout.Scarce.scarce)
      fun i hi hopen => hO path rfl i hi ?_) ?_
    · obtain ⟨f, hf, rfl⟩ := hopen
      refine ⟨f, ?_, ?_⟩
      · rw [h.holds.file, hf]
      · rw [h.holds.file, h.holds.fileInum f hf]
    · rintro r s' ⟨-, σ', -, h', hq⟩
      exact nwp_ret (h.nodes h' hq)
  | mkdir path =>
    refine nwp_seq (nwp_mkdir h.holds h.quiet hL (.inl Layout.Scarce.scarce)) ?_
    rintro b s' ⟨r, σ', -, -, h', hq⟩
    exact nwp_ret (h.nodes h' hq)
  | mknod path major minor =>
    refine nwp_seq (nwp_mknod h.holds h.quiet hL (.inl Layout.Scarce.scarce)) ?_
    rintro b s' ⟨r, σ', -, -, h', hq⟩
    exact nwp_ret (h.nodes h' hq)
  | sysOpen p path omode =>
    refine nwp_seq (nwp_sysOpen h.holds h.quiet hL (.inl Layout.Scarce.scarce)) ?_
    rintro r s' ⟨x, t', σ', -, h', hq, hr⟩
    rcases hr with ⟨rfl, rfl⟩ | ⟨fd, f, ip, i, hf, -, rfl, hfd, rfl⟩
    · refine nwp_ret ?_
      rw [Function.update_eq_self]
      exact h.nodes h' hq
    · refine nwp_ret (h.opened hf h' hq rfl (fun f' => ?_) rfl)
      have hslot := S.holders_slot p fd (some f) f'
      simpa [hfd] using hslot
  | sysRead p fd n =>
    rw [FsCall.code]
    cases hfd : S.ofile p fd with
    | none => exact nwp_ret ⟨t, hold, h⟩
    | some f => exact nwp_fileread_settled h (Session.holders_pos_of_slot hfd) hc
  | sysWrite p fd src =>
    rw [FsCall.code]
    cases hfd : S.ofile p fd with
    | none => exact nwp_ret ⟨t, hold, h⟩
    | some f => exact nwp_filewrite_settled h hL (Session.holders_pos_of_slot hfd)
  | sysClose p fd =>
    rw [FsCall.code]
    cases hfd : S.ofile p fd with
    | none => exact nwp_ret ⟨t, hold, h⟩
    | some f =>
      have hf := h.type_of_pos (Session.holders_pos_of_slot hfd)
      refine nwp_seq (M := fun o s' => o = Function.update (S.ofile p) fd none ∧ ∃ σ' g,
        g.type = .none ∧ s'.Holds (t.set f g (t.inum f)) σ' hold ∅ 0 ∧
          Quiet L O (t.set f g (t.inum f)) σ' hold) ?_ ?_
      · exact nwp_seq (nwp_fileclose h.holds h.quiet hL hf) fun _ s' hs' => nwp_ret ⟨rfl, hs'⟩
      rintro o s' ⟨rfl, σ', g, hg, h', hq⟩
      refine nwp_ret (h.closed hf h' hq hg (fun f' => ?_) rfl)
      have hslot := S.holders_slot p fd none f'
      simpa [hfd] using hslot
  -- `pinit` keeps the reference that `namei("/")` returns as the working directory of the process
  | pinit p =>
    refine nwp_seq (nwp_namei rootPath h.holds h.quiet.tree.linked (.inl Layout.Scarce.scarce)) ?_
    rintro (_ | ip) s' hx
    · rw [Nodes.resolve_root] at hx
      cases hx.1
    · obtain ⟨i, b, hi, h'⟩ := hx
      rw [Nodes.resolve_root, Option.some.injEq] at hi
      subst hi
      exact nwp_ret (h.dwells hc h')

/-! ## Sound worlds -/

namespace World.Sound

lemma keeps (h : w.Sound L O ino v s) : L.Keeps (L.OnDisk (L.Safe O)) s w.machine w.mem :=
  ⟨v, ino, h.on, h.rep, h.durable⟩

/-- **A call returns and leads to a sound world, or halts where something has run out.** -/
lemma run [L.Scarce] (h : w.Sound L O ino v s) (hL : L.Room MAXOPBLOCKS) (hc : c.Legal w.session)
    (hO : c.Admits O s) :
    (∃ w' ino' v' s', w.call c = .ok w'.session (w'.machine, w'.mem) ∧
      World.Sound L O w' ino' v' s') ∨
    ∃ x q, w.call c = .error x q ∧ L.Halts x ∧ L.UsedUp (fun b => q.1.view (onDev b)) q.2 x := by
  refine (nwp_kernel (nwp_call h.settled hL hc hO) h.keeps).imp ?_ id
  rintro ⟨S, m, fm, s', hrun, ⟨v', ino', hon, hrep, hD⟩, hs⟩
  exact ⟨⟨m, fm, S⟩, ino', v', s', hrun, hon, hD, hrep, hs⟩

lemma ok [L.Scarce] {m : Machine} {fm : FsMem} (h : w.Sound L O ino v s) (hL : L.Room MAXOPBLOCKS)
    (hc : c.Legal w.session) (hO : c.Admits O s) (hrun : w.call c = .ok S (m, fm)) :
    ∃ ino' v' s', World.Sound L O ⟨m, fm, S⟩ ino' v' s' := by
  rcases h.run hL hc hO with ⟨w', ino', v', s', hrun', hs⟩ | ⟨x, q, hrun', -⟩
  · obtain ⟨rfl, hpair⟩ := EStateM.Result.ok.inj (hrun.symm.trans hrun')
    obtain ⟨rfl, rfl⟩ := Prod.mk.inj hpair
    exact ⟨ino', v', s', hs⟩
  · exact nomatch hrun.symm.trans hrun'

lemma halts [L.Scarce] {x : Halt} {q : Machine × FsMem} (h : w.Sound L O ino v s)
    (hL : L.Room MAXOPBLOCKS) (hc : c.Legal w.session) (hO : c.Admits O s)
    (hrun : w.call c = .error x q) : L.Halts x := by
  rcases h.run hL hc hO with ⟨w', ino', v', s', hrun', -⟩ | ⟨x', q', hrun', hx, -⟩
  · exact nomatch hrun.symm.trans hrun'
  · obtain ⟨rfl, -⟩ := EStateM.Result.error.inj (hrun.symm.trans hrun')
    exact hx

end World.Sound

lemma Layout.Image.congr {D : (ℕ → Block) → Prop} {d d' : BufRef → Block} (h : L.Image D d)
    (hd : ∀ k : BufRef, k.dev < 2 → d' k = d k) : L.Image D d' := by
  obtain ⟨hsuper, c, hr, hc⟩ := h
  exact ⟨by rw [hd _ (by norm_num [onDev]), hsuper], c, hr.congr hd, hc⟩

/-- Wherever the machine crashes, the drives hold what the code may leave there. -/
lemma nwp_visits {α : Type} {D : (ℕ → Block) → Prop} {p : K α} {Q : α → Fs → Prop} {m : Machine}
    {fm : FsMem} {q : Machine × FsMem} (h : nwp L D p Q s) (hm : L.Keeps D s m fm)
    (hv : Prog.Visits kernelHandler p (m, fm) q) : L.Image D q.1.disk := by
  obtain ⟨v, ino, ⟨a, hplays, hshows⟩, hr, hD⟩ := hm
  obtain ⟨d, dirty, ⟨-, himage⟩, hd⟩ :=
    kwp_kernel_visits (h ino v fm hr a hshows hD) (fun _ _ hx => hx.1) hplays hv
  exact himage.congr hd

lemma Layout.Shows.pend_eq_empty {a : Account} (h : L.Shows v a) (hp : v.pend = ∅) :
    a.pend = ∅ := by
  have hsub := h.pend
  rwa [hp, Finset.image_empty, Finset.subset_empty] at hsub

/-- Between two operations the drive recovers to what the memory shows. -/
lemma Layout.Mounted.keeps {D : (ℕ → Block) → Prop} {σ : Nodes} {m : Machine} {fm : FsMem}
    (h : L.Mounted s m fm) (hs : s.Holds t σ hold ∅ 0) (hD : L.Durable D σ) :
    L.Keeps D s m fm := by
  obtain ⟨v, ino, ⟨x, hplays, hshows⟩, hr⟩ := h
  have hdirty := hshows.dirty_eq_empty (hr.logged_eq_empty hs)
  have hpend := hshows.pend_eq_empty hr.pend
  refine ⟨{ v with old := v.blk }, ino, ⟨x, hplays, { hshows with old := fun b hb => ?_ }⟩,
    { hr with }, hD _ (hr.onDisk hs.stale hs.node)⟩
  rw [← hshows.clean _ (by simp [hdirty]) (by simp [hpend]), hshows.mem b hb]

lemma Layout.Keeps.image {D : (ℕ → Block) → Prop} {m : Machine} {fm : FsMem}
    (h : L.Keeps D s m fm) : L.Image D m.disk :=
  nwp_visits (nwp_ret trivial : nwp L D (pure ()) (fun _ _ => True) s) h (.here _ _)

/-- At no time are more blocks pinned than the limit says. -/
lemma nwp_ledger {α : Type} {D : (ℕ → Block) → Prop} {p : K α} {Q : α → Fs → Prop} {m : Machine}
    {fm : FsMem} {σ : Nodes} {q : (Machine × FsMem) × Finset BufRef} (h : nwp L D p Q s)
    (hm : L.Keeps D s m fm) (hs : s.Holds t σ hold ∅ 0)
    (hq : Prog.Reaches (Handler.track kernelHandler Xv6.ledger) p ((m, fm), ∅) q) :
    L.Room q.2.card := by
  obtain ⟨v, ino, ⟨a, hplays, hshows⟩, hr, hD⟩ := hm
  obtain ⟨a', ⟨hroom, -⟩, -, hy⟩ := kwp_kernel_ledger (h ino v fm hr a hshows hD)
    (fun _ _ hx => hx.1) hplays (hshows.dirty_eq_empty (hr.logged_eq_empty hs)) hq
  rwa [hy]

/-- **Wherever the machine crashes during a call, the drives hold a volume that is safe.** -/
lemma World.Sound.image [L.Scarce] {q : Machine × FsMem} (h : w.Sound L O ino v s)
    (hL : L.Room MAXOPBLOCKS) (hc : c.Legal w.session) (hO : c.Admits O s)
    (hq : Prog.Visits kernelHandler (c.code w.session) (w.machine, w.mem) q) :
    L.Image (L.OnDisk (L.Safe O)) q.1.disk :=
  nwp_visits (nwp_call h.settled hL hc hO) h.keeps hq

/-- **At no time are more blocks pinned than the limit says.** -/
lemma World.Sound.ledger [L.Scarce] {q : (Machine × FsMem) × Finset BufRef}
    (h : w.Sound L O ino v s) (hL : L.Room MAXOPBLOCKS) (hc : c.Legal w.session)
    (hO : c.Admits O s)
    (hq : Prog.Reaches (Handler.track kernelHandler Xv6.ledger) (c.code w.session)
      ((w.machine, w.mem), ∅) q) : L.Room q.2.card := by
  obtain ⟨t, hold, hs⟩ := h.settled
  exact nwp_ledger (nwp_call h.settled hL hc hO) h.keeps hs.holds hq

lemma FsCall.admits_true (s : Fs) (c : FsCall) : c.Admits (fun _ => True) s :=
  fun _ _ _ _ _ => trivial

lemma World.Steps.sound [L.Scarce] {A : World → FsCall → Prop} (hL : L.Room MAXOPBLOCKS)
    (hA : ∀ {w c ino v s}, World.Sound L O w ino v s → A w c → c.Admits O s)
    (h : w.Steps A w') (hw : ∃ ino v s, w.Sound L O ino v s) :
    ∃ ino v s, w'.Sound L O ino v s := by
  induction h with
  | refl => exact hw
  | call c _ hc hc' hrun ih =>
    obtain ⟨ino, v, s, hs⟩ := ih
    exact hs.ok hL hc (hA hs hc') hrun

/-! ## Mounted volumes -/

lemma Layout.Safe.mono {O' : ℕ → Prop} {σ : Nodes} (h : L.Safe O σ) (hO : ∀ i, O i → O' i) :
    L.Safe O' σ :=
  ⟨h.1, fun i n hn hz => hO i (h.2 i n hn hz)⟩

lemma Layout.OnDisk.mono {P P' : Nodes → Prop} {blk : ℕ → Block} (h : L.OnDisk P blk)
    (hP : ∀ σ, P σ → P' σ) : L.OnDisk P' blk := by
  obtain ⟨ino, howns, hfull, hlive, hnodes⟩ := h
  exact ⟨ino, howns, hfull, hlive, hP _ hnodes⟩

lemma Session.holders_empty (f : Fin NFILE) : Session.empty.holders f = 0 := by
  simp [holders, empty, countAt]

lemma Session.dwellers_empty (ip : Fin NINODE) : Session.empty.dwellers ip = 0 := by
  simp [dwellers, empty, countAt]

lemma Steady.mounted {σ : Nodes} (h : σ.Tree L.sb.ninodes) : Steady L .empty σ [] where
  tree := h
  hold r hr := absurd hr List.not_mem_nil
  table f := Or.inr ⟨rfl, rfl⟩
  live f hf := by cases hf
  writable f n hf := by cases hf
  offset f n hf := by cases hf

lemma quiet_empty {σ : Nodes} (h : L.Safe (fun _ => False) σ) : Quiet L O .empty σ [] :=
  ⟨.mounted h.1, fun hn hz => (h.2 _ _ hn hz).elim⟩

lemma settled_mounted {σ : Nodes} (h : L.Safe (fun _ => False) σ) (input : List UInt8) :
    Settled L O .empty (Fs.mounted σ input) := by
  refine ⟨.empty, [], Fs.holds_mounted σ input, quiet_empty h, fun f => ?_, fun ip => ?_⟩
  · rw [Session.holders_empty]
    rfl
  · rw [Session.dwellers_empty]
    rfl

/-- **A kernel that has mounted a volume without nodes that lack links** is sound. -/
lemma World.Boots.sound {d : BufRef → Block} {input : List UInt8} (hb : w.Boots d input)
    (h : L.Image (L.OnDisk (L.Safe fun _ => False)) d) : ∃ ino v s, w.Sound L O ino v s := by
  obtain ⟨m, blk, hrun, hon, hD⟩ := mountFs_kernel h input
  obtain ⟨-, hpair⟩ := EStateM.Result.ok.inj (hb.run.symm.trans hrun)
  obtain ⟨rfl, hmem⟩ := Prod.mk.inj hpair
  obtain ⟨σ, ino, hσ, hrep⟩ := hD.rep input
  refine ⟨ino, .mounted blk, .mounted σ input, hon, hD.mono fun σ' hσ' => hσ'.mono fun _ hi => ?_,
    hmem ▸ hrep, ?_⟩
  · exact hi.elim
  · rw [hb.session]
    exact settled_mounted hσ input

lemma World.exists_boots {D : (ℕ → Block) → Prop} {d : BufRef → Block} (h : L.Image D d)
    (input : List UInt8) : ∃ w : World, w.Boots d input := by
  obtain ⟨m, blk, hrun, -⟩ := mountFs_kernel h input
  exact ⟨⟨m, _, .empty⟩, hrun, rfl⟩

end

end Xv6
