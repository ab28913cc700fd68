import Xv6.Abstract.Calls
import Xv6.File.Leaks
import Xv6.File.Invariants
import Xv6.Mkfs.Listing

/-!
# Histories with crashes

`System.Next` is the machine between two events: the code of a call runs to its end, or the power
fails at some point of it and the kernel mounts the drives again, where the power may fail again
while the log is recovered.  The histories of the machine are histories of `State.Runs`: a user who
sees calls, replies and crashes cannot tell the code from the abstract file system.

* `histories_refine`: every history of the machine is one that `State.Runs` admits.
* `histories_go_on`: a call returns unless it waits for the console or resources have run out, and
  wherever the power fails the kernel comes up again.
* `main_reads_back` goes from the command line of `mkfs` to the user, who opens one of the files by
  its name and reads its bytes.

`System.Simulates` is the relation behind the first.  It is kept by calls through `nwp_exec` of
`Xv6.Abstract.Calls`, and by crashes since the image of a crash is one that `mountFs` recovers.
-/

namespace Xv6

open Lib

/-! ## Descriptors -/

section

variable {a a' : State} {c : FsCall} {r : Reply} {f : Fin NFILE} {i : ℕ}

namespace State.Valid

lemma mono (h : a.Valid) (ho : a'.ofile = a.ofile)
    (hl : ∀ f, (a.handle f).isSome → (a'.handle f).isSome) : a'.Valid where
  live hfd := hl _ (h.live (ho ▸ hfd))
  alone hfd hfd' := h.alone (ho ▸ hfd) (ho ▸ hfd')

lemma withVolume (h : a.Valid) (V : Volume) : (a.withVolume V).Valid := h.mono rfl fun _ => id

lemma setHandle (h : a.Valid) (f : Fin NFILE) (x : Handle) : (a.setHandle f (some x)).Valid := by
  refine h.mono rfl fun f' hf' => ?_
  rw [setHandle_handle]
  split_ifs
  · rfl
  · exact hf'

lemma close (h : a.Valid) (hf : ∀ p fd, a.ofile p fd ≠ some f) :
    ((a.setHandle f none).collect i).Valid where
  live := fun {p fd f'} hfd => by
    rw [collect_ofile] at hfd
    rw [collect_handle, setHandle_handle, if_neg]
    · exact h.live hfd
    · rintro rfl
      exact hf p fd hfd
  alone hfd hfd' := by
    rw [collect_ofile] at hfd hfd'
    exact h.alone hfd hfd'

lemma setSlot (h : a.Valid) (hf : (a.handle f).isSome) (hnot : ∀ p fd, a.ofile p fd ≠ some f)
    (p : Fin NPROC) (fd : Fin NOFILE) : (a.setSlot p fd (some f)).Valid where
  live := fun {p' fd' f'} hfd => by
    rw [setSlot_ofile] at hfd
    split_ifs at hfd
    · exact Option.some.inj hfd ▸ hf
    · exact h.live hfd
  alone := fun {p₁ p₂ fd₁ fd₂ f'} h₁ h₂ => by
    rw [setSlot_ofile] at h₁ h₂
    split_ifs at h₁ h₂ with he₁ he₂ he₂
    · exact ⟨he₁.1.trans he₂.1.symm, he₁.2.trans he₂.2.symm⟩
    · exact absurd (h₂.trans h₁.symm) (hnot _ _)
    · exact absurd (h₁.trans h₂.symm) (hnot _ _)
    · exact h.alone h₁ h₂

lemma closeSlot {p : Fin NPROC} {fd : Fin NOFILE} (h : a.Valid) (hfd : a.ofile p fd = some f) :
    (((a.setHandle f none).collect i).setSlot p fd none).Valid := by
  have hslot : ∀ {p' fd' f'}, (((a.setHandle f none).collect i).setSlot p fd none).ofile p' fd' =
      some f' → a.ofile p' fd' = some f' ∧ ¬ (p' = p ∧ fd' = fd) := by
    intro p' fd' f' hfd'
    rw [setSlot_ofile, collect_ofile] at hfd'
    split_ifs at hfd' with he
    exact ⟨hfd', he⟩
  refine ⟨fun {p' fd' f'} hfd' => ?_, fun h₁ h₂ => h.alone (hslot h₁).1 (hslot h₂).1⟩
  obtain ⟨hold, hne⟩ := hslot hfd'
  show (((a.setHandle f none).collect i).handle f').isSome
  rw [collect_handle, setHandle_handle, if_neg]
  · exact h.live hold
  · rintro rfl
    exact hne (h.alone hold hfd)

end State.Valid

namespace State.Does

lemma valid_read {n : ℕ} (hd : a.Does (.fileread f n) r a') (h : a.Valid) : a'.Valid := by
  cases hd with
  | readRefused | readFail => exact h
  | read | readOther => exact h.setHandle _ _

lemma valid_write {src : List UInt8} (hd : a.Does (.filewrite f src) r a') (h : a.Valid) :
    a'.Valid := by
  cases hd with
  | writeRefused => exact h
  | write => exact (h.withVolume _).setHandle _ _
  | writeDevice => exact h.setHandle _ _

/-- **Every call keeps the descriptors valid.** -/
lemma valid (hd : a.Does c r a') (h : a.Valid) (hc : a.Legal c) : a'.Valid := by
  cases c with
  | openFile path omode =>
    cases hd with
    | openFail | openFull => exact h.withVolume _
    | opened => exact (h.withVolume _).setHandle _ _
  | fileread => exact hd.valid_read h
  | filewrite => exact hd.valid_write h
  | fileclose =>
    cases hd
    exact h.close hc.2
  | unlink path =>
    cases hd with
    | unlinkFail => exact h
    | unlinked =>
      exact (h.withVolume _).mono (collect_ofile _ _) fun f hf => by rwa [collect_handle]
  | mkdir | mknod =>
    cases hd
    exact h.withVolume _
  | sysOpen p path omode =>
    cases hd with
    | sysOpenFail | sysOpenFull => exact h.withVolume _
    | sysOpened ho hf hfd hleast =>
      refine ((h.withVolume _).setHandle _ _).setSlot ?_ (fun p fd hfd => ?_) _ _
      · rw [setHandle_handle, if_pos rfl]
        rfl
      · have hsome := h.live hfd
        rw [hf] at hsome
        cases hsome
  | sysRead p fd n =>
    cases hd with
    | sysReadFail => exact h
    | sysRead _ hd => exact hd.valid_read h
  | sysWrite p fd src =>
    cases hd with
    | sysWriteFail => exact h
    | sysWrite _ hd => exact hd.valid_write h
  | sysClose p fd =>
    cases hd with
    | sysCloseFail => exact h
    | sysClose hfd hd =>
      cases hd
      exact h.closeSlot hfd
  | pinit =>
    cases hd
    exact h

end State.Does

end

/-! ## The machine -/

/-- The machine, the memory of the file system, and the descriptors of the processes. -/
structure System where
  machine : Machine
  mem : FsMem
  ofile : Fin NPROC → Ofile

/-- The kernel mounts the drives, perhaps after attempts that the power has cut off. -/
inductive Reboots : (BufRef → Block) → Machine × FsMem → Prop
  | mount {d input q} (h : mountFs.run kernelHandler (binit d true .zero, .boot input) = .ok () q) :
      Reboots d q
  | again {d input q' q}
      (hv : Prog.Visits kernelHandler mountFs (binit d true .zero, .boot input) q')
      (h : Reboots q'.1.disk q) : Reboots d q

namespace System

def booted (q : Machine × FsMem) : System := ⟨q.1, q.2, fun _ _ => none⟩

variable (w : System)

/-- Only code of the kernel has the file. -/
def Private (f : Fin NFILE) : Prop :=
  (w.mem.ftable f).type = .inode ∧ ∀ p fd, w.ofile p fd ≠ some f

def call (c : FsCall) : EStateM.Result Halt (Machine × FsMem) (Reply × (Fin NPROC → Ofile)) :=
  (c.exec w.ofile).run kernelHandler (w.machine, w.mem)

/-- One event: a call returns, or the power fails during a call, which may have panicked, and the
kernel mounts the drives again. -/
inductive Next : FsEvent → System → Prop
  | call {c r m fm o} (hc : c.Allowed w.Private) (h : w.call c = .ok (r, o) (m, fm)) :
      Next (.call c r) ⟨m, fm, o⟩
  | crash {c q q'} (hc : c.Allowed w.Private)
      (hv : Prog.Visits kernelHandler (c.exec w.ofile) (w.machine, w.mem) q)
      (hb : Reboots q.1.disk q') : Next (.crash c) (booted q')

inductive Runs : List FsEvent → System → Prop
  | nil : Runs [] w
  | snoc {es e w' w''} (h : Runs es w') (he : w'.Next e w'') : Runs (es ++ [e]) w''

end System

/-! ## Simulation -/

/-- The machine is in the state. -/
def System.Simulates (L : Layout) (w : System) (a : State) : Prop :=
  a.ofile = w.ofile ∧ a.Valid ∧ ∃ s, L.Mounted s w.machine w.mem ∧ Mirrored L a s

section

variable {L : Layout} {a a' : State} {c : FsCall} {w w' : System} {e : FsEvent} {es : List FsEvent}
  {q q' : Machine × FsMem} {d : BufRef → Block} {view : List Text → Option Object} {s : Fs}
  {D : (ℕ → Block) → Prop} {t : Table} {σ : Nodes} {hold : List Ref} {m : Machine} {fm : FsMem}

lemma Layout.Image.visits {input : List UInt8} (h : L.Image D d)
    (hv : Prog.Visits kernelHandler mountFs (binit d true .zero, .boot input) q) :
    L.Image D q.1.disk := by
  obtain ⟨d', dirty, ⟨-, himage⟩, hd⟩ :=
    kwp_kernel_visits (kwp_mountFs_vol h) (fun _ _ hx => hx) (.init d true .zero) hv
  exact himage.congr hd

/-- **Whatever the recovery goes through, the kernel mounts what the drives recover to.** -/
lemma Reboots.mounted {P : Nodes → Prop} (h : Reboots d q) (hd : L.Image (L.OnDisk P) d) :
    ∃ σ input, P σ ∧ L.Mounted (Fs.mounted σ input) q.1 q.2 := by
  induction h with
  | @mount d input q hrun =>
    obtain ⟨σ, m, hP, hrun', hm⟩ := mountFs_mounted hd input
    obtain ⟨-, hq⟩ := EStateM.Result.ok.inj (hrun.symm.trans hrun')
    exact ⟨σ, input, hP, hq ▸ hm⟩
  | again hv _ ih => exact ih (hd.visits hv)

lemma simulates_booted {input : List UInt8} (h : L.Mounted (Fs.mounted σ input) q.1 q.2)
    (ht : σ.Tree L.sb.ninodes) (hp : σ.Plain) :
    (System.booted q).Simulates L (.of σ .empty fun _ _ => none) ∧
      (State.of σ .empty fun _ _ => none).Started := by
  refine ⟨⟨rfl, ⟨fun hfd => ?_, fun hfd => ?_⟩, _, h, Mirrors.mirrored ⟨rfl, .mounted ht, hp⟩
    (Fs.holds_mounted σ input)⟩, fun f => rfl, fun p fd => rfl, ht.separate hp.distinct⟩
  · cases hfd
  · cases hfd

namespace System.Simulates

variable (h : w.Simulates L a)

include h

lemma legal (hc : c.Allowed w.Private) : a.Legal c := by
  obtain ⟨ho, -, s, ⟨v, ino, -, hr⟩, t, hold, hs, hmir⟩ := h
  have hprivate : ∀ {f}, w.Private f → a.Private f := fun {f} hf => by
    refine ⟨hmir.isSome.mpr ?_, ho ▸ hf.2⟩
    rw [← hs.file, hr.ft]
    exact hf.1
  cases c with
  | fileread => exact ⟨hprivate hc.1, hc.2⟩
  | filewrite | fileclose => exact hprivate hc
  | sysRead => exact hc
  | _ => trivial

lemma presents : L.Presents a.view w.machine.disk := by
  obtain ⟨-, -, s, hm, t, hold, hs, hmir⟩ := h
  obtain ⟨hsuper, c, hr, hc, blk, hblk, hout⟩ :=
    (hm.keeps hs (Layout.durable_onDisk (P := (· = s.node)) rfl)).image
  refine ⟨hsuper, c, hr, hc, blk, hblk.mono ?_, hout⟩
  rintro σ rfl
  exact ⟨hmir.steady.tree, hmir.plain, by rw [hmir.volume]⟩

variable [L.Scarce] (hL : L.Room MAXOPBLOCKS)

include hL

lemma nwp_call (hc : c.Allowed w.Private) : ∃ s, L.Keeps (L.OnDisk (L.Left a c)) s w.machine w.mem ∧
    nwp L (L.OnDisk (L.Left a c)) (c.exec w.ofile) (Answers L a c) s := by
  have hlegal := h.legal hc
  obtain ⟨ho, hv, s, hm, hmir⟩ := h
  refine ⟨s, ?_, ho ▸ nwp_exec hmir hv hL hlegal⟩
  obtain ⟨t, hold, hs, hmir⟩ := hmir
  exact hm.keeps hs (Layout.durable_onDisk (hmir.left_self c))

/-- **A call returns what it should, or halts where something has run out.** -/
lemma run (hc : c.Allowed w.Private) :
    (∃ r o m fm a', w.call c = .ok (r, o) (m, fm) ∧ a.Does c r a' ∧
      System.Simulates L ⟨m, fm, o⟩ a') ∨
      ∃ x q, w.call c = .error x q ∧ L.Halts x ∧
        L.UsedUp (fun b => q.1.view (onDev b)) q.2 x := by
  obtain ⟨s, hkeeps, hnwp⟩ := h.nwp_call hL hc
  refine (nwp_kernel hnwp hkeeps).imp ?_ id
  rintro ⟨⟨r, o⟩, m, fm, s', hrun, hm, a', hd, ho, hmir⟩
  exact ⟨r, o, m, fm, a', hrun, hd, ho, hd.valid h.2.1 (h.legal hc), s', hm.mounted, hmir⟩

/-- **A crash leaves what it may leave.** -/
lemma visits (hc : c.Allowed w.Private)
    (hv : Prog.Visits kernelHandler (c.exec w.ofile) (w.machine, w.mem) q) :
    L.Image (L.OnDisk (L.Left a c)) q.1.disk := by
  obtain ⟨s, hkeeps, hnwp⟩ := h.nwp_call hL hc
  exact nwp_visits hnwp hkeeps hv

/-- **Every event of the machine is an event of the file system.** -/
lemma next (hn : w.Next e w') : ∃ a', a.Next e a' ∧ w'.Simulates L a' := by
  cases hn with
  | call hc hrun =>
    rcases h.run hL hc with ⟨r, o, m, fm, a', hrun', hd, hsim⟩ | ⟨x, q, hrun', -⟩
    · obtain ⟨hpair, hq⟩ := EStateM.Result.ok.inj (hrun.symm.trans hrun')
      obtain ⟨rfl, rfl⟩ := Prod.mk.inj hpair
      obtain ⟨rfl, rfl⟩ := Prod.mk.inj hq
      exact ⟨a', .call (h.legal hc) hd, hsim⟩
    · cases hrun.symm.trans hrun'
  | crash hc hv hb =>
    obtain ⟨σ, input, ⟨ht, hp, hsurv⟩, hm⟩ := hb.mounted (h.visits hL hc hv)
    obtain ⟨hsim, hstarted⟩ := simulates_booted hm ht hp
    exact ⟨_, .crash (h.legal hc) hsurv hstarted, hsim⟩

lemma runs (hr : w.Runs es w') : ∃ a', a.Runs es a' ∧ w'.Simulates L a' := by
  induction hr with
  | nil => exact ⟨a, .nil, h⟩
  | snoc _ he ih =>
    obtain ⟨a', hruns, hsim⟩ := ih
    obtain ⟨a'', hnext, hsim'⟩ := hsim.next hL he
    exact ⟨a'', .snoc hruns hnext, hsim'⟩

end System.Simulates

lemma Layout.presents_limited {limit : Option ℕ} {hlog : ∀ n ∈ limit, 0 < n → n + 1 < L.sb.nlog}
    {hbuf : ∀ n ∈ limit, n + 3 ≤ NBUF} :
    (L.limited limit hlog hbuf).Presents view d ↔ L.Presents view d := by
  rw [Layout.Presents, Layout.onDisk_congr L (L.limited limit hlog hbuf) rfl]
  rfl

lemma Layout.halts_tight {hlog : MAXOPBLOCKS + 1 < L.sb.nlog} {x : Halt}
    (hdir : L.sb.ninodes + 2 ≤ MAXFILE * BSIZE / DIRENTSIZE) (h : (L.tight hlog).Halts x) :
    x = .blocked ∨ x = .panic .ballocOutOfBlocks ∨ x = .panic .iallocNoInodes ∨
      x = .panic .igetNoInodes := by
  cases x with
  | panic p =>
    cases p with
    | dirlink => exact absurd h.2 (Nat.not_lt.mpr hdir)
    | tooBigTransaction | bgetNoBuffers => cases h
    | ballocOutOfBlocks | iallocNoInodes | igetNoInodes => simp
    | _ => exact h.elim
  | blocked => exact Or.inl rfl
  | stray => exact h.elim

lemma Layout.Presents.simulates (h : L.Presents view d) (hb : Reboots d q) :
    ∃ a : State, a.view = view ∧ a.Started ∧ (System.booted q).Simulates L a := by
  obtain ⟨σ, input, ⟨ht, hp, hview⟩, hm⟩ := hb.mounted h
  obtain ⟨hsim, hstarted⟩ := simulates_booted hm ht hp
  exact ⟨_, hview, hstarted, hsim⟩

lemma Layout.Presents.mountFs (h : L.Presents view d) (input : List UInt8) :
    ∃ q, Xv6.mountFs.run kernelHandler (binit d true .zero, .boot input) = .ok () q := by
  obtain ⟨σ, m, -, hrun, -⟩ := mountFs_mounted h input
  exact ⟨_, hrun⟩

/-- A file is made, to read and write it. -/
abbrev FsCall.makeFile (path : CString) : FsCall := .openFile path (O_CREATE ||| O_RDWR)

/-- A file is made, and the power fails during a write to it. -/
abbrev FsEvent.makeAndCrash (path : CString) (f : Fin NFILE) : List FsEvent :=
  [.call (.makeFile path) (.file (some f)), .crash (.filewrite f [65, 66, 67])]

namespace Mkfs

/-- A machine makes a file, and its power fails while it writes to it. -/
lemma exists_crashed : ∃ st q f w₁ q₁ q₂, main [] = some st ∧
    Reboots (fun k => st.img k.blockno) q ∧
    (System.booted q).Next (.call (.makeFile (bytePath 0)) (.file (some f))) w₁ ∧
    Prog.Visits kernelHandler ((FsCall.filewrite f [65, 66, 67]).exec w₁.ofile)
      (w₁.machine, w₁.mem) q₁ ∧
    layout.nodes (fun b => q₁.1.view (onDev b)) ≠
      layout.nodes (fun b => w₁.machine.view (onDev b)) ∧
    w₁.Next (.crash (.filewrite f [65, 66, 67])) (System.booted q₂) ∧ Reboots q₁.1.disk q₂ ∧
    Crowd q₂ 0 := by
  obtain ⟨st, w₀, hst, hboots, hk₀⟩ := exists_knows []
  obtain ⟨q, f, ip, c, n, σ, hrun, hk, ht, hn, ha⟩ := hk₀.create
  obtain ⟨q₁, hreach, hnodes, himage, -⟩ := hk.writing [65, 66, 67] (by decide) (by decide) ha ht hn
  obtain ⟨_, m, rfl, hmount, hmounted⟩ := mountFs_mounted himage []
  have hvisits : Prog.Visits kernelHandler ((FsCall.filewrite f [65, 66, 67]).exec fun _ _ => none)
      q q₁ := Prog.Reaches.visits (.bind hreach)
  have hopen := (openFirst_spec f ip ha ht).2.2.1
  rw [← hk.ftable] at hopen
  have hfile : (FsCall.filewrite f [65, 66, 67]).Allowed
      (System.Private ⟨q.1, q.2, fun _ _ => none⟩) := ⟨hopen, fun _ _ h => nomatch h⟩
  refine ⟨st, w₀.state, f, ⟨q.1, q.2, fun _ _ => none⟩, q₁, _, hst, .mount hboots.1,
    .call trivial (Prog.run_bind_ok _ hrun), hvisits, fun he => ?_,
    .crash hfile hvisits (.mount hmount),
    .mount hmount, .empty, _, hk.mounted ha hmounted, openFiles_empty, lacks_first ha 0⟩
  have hc := congrFun ((hnodes.symm.trans he).trans hk.nodes) c
  rw [ha.new, Function.update_self, Option.some.injEq] at hc
  exact absurd ((congrArg Node.data hc).trans hn) (List.cons_ne_nil _ _)

lemma presents_main_nil {st : Mkfs.State} (hst : main [] = some st) :
    layout.Presents (imageView []) (fun k => st.img k.blockno) :=
  Listable.presents (by decide +kernel) hst fun _ => rfl

end Mkfs

/-- **Only running out of resources keeps a call from returning, and nothing keeps the kernel from
coming up again**, after any history: not where the power failed in the last call, and not where it
failed in the recovery. -/
theorem histories_go_on (hlog : MAXOPBLOCKS + 1 < L.sb.nlog)
    (hdir : L.sb.ninodes + 2 ≤ MAXFILE * BSIZE / DIRENTSIZE) (hd : L.Presents view d)
    (hb : Reboots d q) (hr : (System.booted q).Runs es w) (hc : c.Allowed w.Private) :
    (∀ x q', w.call c = .error x q' → (x = .blocked ∨ x = .panic .ballocOutOfBlocks ∨
      x = .panic .iallocNoInodes ∨ x = .panic .igetNoInodes) ∧
      L.UsedUp (fun b => q'.1.view (onDev b)) q'.2 x) ∧
    ∀ q', Prog.Visits kernelHandler (c.exec w.ofile) (w.machine, w.mem) q' →
      ∀ input, (∃ q'', mountFs.run kernelHandler (binit q'.1.disk true .zero, .boot input) =
        .ok () q'') ∧
      ∀ q'', Prog.Visits kernelHandler mountFs (binit q'.1.disk true .zero, .boot input) q'' →
        ∃ q₃, mountFs.run kernelHandler (binit q''.1.disk true .zero, .boot input) = .ok () q₃ := by
  have hL := (L.room_tight hlog).mpr le_rfl
  have htight : (L.tight hlog).Presents view d := Layout.presents_limited.mpr hd
  obtain ⟨a, -, -, hsim⟩ := htight.simulates hb
  obtain ⟨a', -, hsim'⟩ := hsim.runs hL hr
  constructor
  · intro x q' hx
    rcases hsim'.run hL hc with ⟨r, o, m, fm, a'', hrun, -⟩ | ⟨x', q'', hrun, hhalts⟩
    · cases hx.symm.trans hrun
    · obtain ⟨rfl, rfl⟩ := EStateM.Result.error.inj (hx.symm.trans hrun)
      exact ⟨Layout.halts_tight hdir hhalts.1, hhalts.2⟩
  · intro q' hv input
    have himage := hsim'.visits hL hc hv
    obtain ⟨σ, m, -, hrun, -⟩ := mountFs_mounted himage input
    refine ⟨⟨_, hrun⟩, fun q'' hv' => ?_⟩
    obtain ⟨σ', m', -, hrun', -⟩ := mountFs_mounted (himage.visits hv') input
    exact ⟨_, hrun'⟩

/-- After a crash in a write a machine makes files until it panics. -/
theorem histories_go_on_crowd : ∃ st q f es w, ∃ (j : Fin 52) (p : Panic) (q' : Machine × FsMem),
    Mkfs.main [] = some st ∧ Reboots (fun k => st.img k.blockno) q ∧
    (System.booted q).Runs (FsEvent.makeAndCrash (Mkfs.bytePath 0) f ++ es) w ∧
    w.call (.makeFile (Mkfs.bytePath j)) = .error (.panic p) q' ∧
    (p = .ballocOutOfBlocks ∨ p = .iallocNoInodes ∨ p = .igetNoInodes) ∧
    Mkfs.layout.UsedUp (fun b => q'.1.view (onDev b)) q'.2 (.panic p) := by
  obtain ⟨st, q, f, w₁, q₁, q₂, hst, hq, hcall, -, -, hcrash, -, hcrowd⟩ := Mkfs.exists_crashed
  have hstart : (System.booted q).Runs (FsEvent.makeAndCrash (Mkfs.bytePath 0) f)
    (System.booted q₂) := .snoc (.snoc .nil hcall) hcrash
  obtain ⟨q₃, j, p, q', ⟨es, hruns⟩, hrun⟩ := hcrowd.panics
    (R := fun q' => ∃ es,
      (System.booted q).Runs (FsEvent.makeAndCrash (Mkfs.bytePath 0) f ++ es) (System.booted q'))
    ⟨[], hstart⟩ fun {q₃ q₄ j f} ⟨es, hruns⟩ hrun => by
      have hnext : (System.booted q₃).Next (.call (.makeFile (Mkfs.bytePath j)) (.file (some f)))
        (System.booted q₄) := .call trivial (Prog.run_bind_ok _ hrun)
      exact ⟨_, List.append_assoc .. ▸ hruns.snoc hnext⟩
  have hpanic : (System.booted q₃).call (.makeFile (Mkfs.bytePath j)) = .error (.panic p) q' :=
    Prog.run_bind_error _ hrun
  obtain ⟨hp, hused⟩ := (histories_go_on (by decide) (by decide)
    (Mkfs.presents_main_nil hst) hq hruns (c := .openFile _ _) trivial).1 _ _ hpanic
  exact ⟨st, q, f, es, _, j, p, q', hst, hq, hruns, hpanic, by simpa using hp, hused⟩

/-! ## From the command line to the users -/

namespace Mkfs

variable {files : List Input} {st : Mkfs.State} {x : Input} {path : CString} {k : ℕ}

lemma Listable.resolve (hl : Listable files) (hx : files[k]? = some x)
    (hpath : components path.bytes = [x.text]) :
    (imageNodes files).resolve path = some (k + 2) := by
  have hdots := hl.dots x (List.mem_of_getElem? hx)
  have hchild := hl.child_root.mpr ⟨k, x, rfl, hx, rfl⟩
  have hname : (imageNodes files).volume.name [x.text] = some (k + 2) := by
    rw [Nodes.volume_name, ← List.nil_append [x.text], descend_concat, descend_nil,
      Option.bind_some, hchild]
  have hstep : (imageNodes files).volume.step [] x.text = some [x.text] := by
    have hdir : (imageNodes files).volume.view [] = some .dir := by
      rw [hl.view]
      rfl
    rw [Volume.step, if_pos hdir, if_neg hdots.1, if_neg hdots.2, List.nil_append, hname]
    rfl
  rw [← Nodes.resolve_eq hl.tree hl.distinctNodes, hpath, Volume.find, List.foldlM_cons, hstep]
  exact hname

lemma Listable.nwp_sysOpen (hl : Listable files) (hx : files[k]? = some x)
    (hpath : components path.bytes = [x.text]) (input : List UInt8) :
    nwp layout.ample (layout.ample.OnDisk fun _ => True) (sysOpen (fun _ => none) path 0)
      (fun r s' =>
      ∃ f ip, r = (some 0, Function.update (fun _ => none) 0 (some f)) ∧
        s'.Holds (.set .empty f (openedFile ip 0) (k + 2)) (imageNodes files) [] ∅ 0)
      (Fs.mounted (imageNodes files) input) := by
  refine nwp_mono (nwp_sysOpen_nodes (L := layout.ample) (P := fun _ => True) (Fs.holds_mounted _ _)
    (.mounted hl.tree) room_layout (Or.inr ⟨?_, fun hne => (hne rfl).elim⟩) fun _ _ _ => trivial) ?_
  · rw [entriesUsed_empty]
    decide
  rintro r s' ⟨y, t', σ', hopen, h', hr⟩
  obtain rfl : σ' = imageNodes files := by
    have hto := hopen.nodes
    rwa [Nodes.OpensTo, if_neg fun hne => hne rfl] at hto
  obtain rfl : y = some (k + 2) := by
    rw [hopen.found rfl, Nodes.openable, hl.resolve hx hpath, Option.filter_some, if_pos]
    simp
  rcases hr with ⟨-, -, hy | hfull | hfull⟩ | ⟨fd, f, ip, i, -, hi, rfl, -, hleast, rfl⟩
  · cases hy
  · exact absurd rfl (hfull 0)
  · exact absurd rfl (hfull 0)
  · obtain rfl := Option.some.inj hi
    have hfd : fd = 0 := by_contra fun hne => hleast 0 (Fin.pos_of_ne_zero hne) rfl
    subst hfd
    exact ⟨f, ip, rfl, h'⟩

/-- **What `mkfs` was given can be read back**: a kernel comes up from the image, and, however often
the power fails on the way, a process that opens a file by its name gets the bytes of the file. -/
theorem main_reads_back (h : main files = some st) (hl : Listable files)
    (hd : ∀ b, d (onDev b) = st.img b) :
    (∀ input, ∃ q, mountFs.run kernelHandler (binit d true .zero, .boot input) = .ok () q) ∧
    ∀ q, Reboots d q → ∀ x ∈ files, ∀ path : CString, components path.bytes = [x.text] →
      ∀ (p : Fin NPROC), ∀ n < 2 ^ 31,
        ∃ w, (System.booted q).Runs [.call (.sysOpen p path 0) (.fd (some 0)),
          .call (.sysRead p 0 n) (.bytes (some (x.chunks.flatten.take n)))] w := by
  refine ⟨(hl.presents h hd).mountFs, fun q hb x hx path hpath p n hn => ?_⟩
  obtain ⟨k, hk⟩ := List.mem_iff_getElem?.mp hx
  obtain ⟨hdisk, hsuper, hlog⟩ := onDisk_main h hl.inodes hl.room
  obtain ⟨σ, input, rfl, hm⟩ := hb.mounted (image_of_img hsuper hlog hdisk hd)
  have hkeeps : layout.Keeps (layout.ample.OnDisk fun _ => True)
      (Fs.mounted (imageNodes files) input) q.1 q.2 := by
    rw [Layout.onDisk_congr layout layout.ample rfl]
    exact hm.keeps (Fs.holds_mounted _ _) (Layout.durable_onDisk trivial)
  -- `open` finds the entry that `mkfs` has written, and descriptor 0 is free
  obtain ⟨-, m₁, fm₁, s₁, hopen, hkeeps₁, f, ip, rfl, hs₁⟩ :=
    nwp_completes (hl.nwp_sysOpen hk hpath input) (Option.some_ne_none _) hkeeps
  have hnode : imageNodes files (k + 2) = some x.node := by
    rw [imageNodes_file, hk]
    rfl
  have hdev : x.node.type ≠ T_DEV := show T_FILE ≠ T_DEV by decide
  obtain ⟨-, m₂, fm₂, s₂, hread, -, rfl, -⟩ :=
    nwp_completes (nwp_fileread_file (n := x.node) (m := n) hs₁ (by rw [Table.file_set]; rfl)
      (by rw [Table.file_set]; rfl) (by rw [Table.inum_set, hnode]) hdev (hn.trans (by decide)))
      (Option.some_ne_none _) hkeeps₁
  have hgot : readAt x.node ((Table.set .empty f (openedFile ip 0) (k + 2)).file f).off n =
      some (x.chunks.flatten.take n) := by
    have hbad : ¬ (x.node.data.length < 0 ∨ UINT ≤ 0 + n ∨ x.node.nlink < 1) := by
      rintro (hlt | hle | hlt)
      · exact absurd hlt (Nat.not_lt_zero _)
      · rw [Nat.zero_add] at hle
        exact absurd (hn.trans (by decide)) (Nat.not_lt.mpr hle)
      · exact absurd hlt (lt_irrefl (1 : ℤ))
    rw [Table.file_set]
    exact if_neg hbad
  rw [hgot] at hread
  have hnext₁ : (System.booted q).Next (.call (.sysOpen p path 0) (.fd (some 0))) ⟨m₁, fm₁,
      Function.update (fun _ _ => none) p (Function.update (fun _ => none) 0 (some f))⟩ :=
    .call trivial (Prog.run_bind_ok _ hopen)
  have hnext₂ : ∀ o : Fin NPROC → Ofile, o p 0 = some f → System.Next ⟨m₁, fm₁, o⟩
      (.call (.sysRead p 0 n) (.bytes (some (x.chunks.flatten.take n)))) ⟨m₂, fm₂, o⟩ :=
    fun o ho => by
      refine .call hn ?_
      simp only [System.call, FsCall.exec, ho]
      exact Prog.run_bind_ok _ hread
  refine ⟨_, System.Runs.snoc (System.Runs.snoc .nil hnext₁) (hnext₂ _ ?_)⟩
  rw [Function.update_self, Function.update_self]

def catPath : CString := ⟨[47, 99, 97, 116], by decide⟩

/-- Process 0 opens `/cat` and reads its first two bytes. -/
theorem main_reads_back_cat : ∃ st q w, main oneFile = some st ∧
    mountFs.run kernelHandler (binit (fun k => st.img k.blockno) true .zero, .boot []) = .ok () q ∧
    (System.booted q).Runs [.call (.sysOpen 0 catPath 0) (.fd (some 0)),
      .call (.sysRead 0 0 2) (.bytes (some [1, 2]))] w := by
  have hsome : (main oneFile).isSome = true := by decide +kernel
  obtain ⟨st, hst⟩ := Option.isSome_iff_exists.mp hsome
  obtain ⟨hmount, hread⟩ := main_reads_back (d := fun k => st.img k.blockno) hst (by decide +kernel)
    fun _ => rfl
  obtain ⟨q, hq⟩ := hmount []
  obtain ⟨w, hw⟩ := hread q (.mount hq) _ List.mem_cons_self catPath (by decide +kernel)
    0 2 (by decide)
  exact ⟨st, q, w, hst, hq, hw⟩

end Mkfs

end

end Xv6
