import Xv6.File.Ops

/-!
# Mounting the file system

What `main` does before the first operation: `iinit` reads the superblock and `initlog` recovers
from the log.  On drives that hold the image of a volume (`Layout.Image`), as after a crash at any
point of the operations, this never halts, and it leaves the file system with the nodes that the
image recovers to, nothing cached and no file open.

* `mountFs_kernel` is the statement on the machine, for any image.
* `mountFs_mounted` adds the nodes: drives that recover to nodes on a volume (`Layout.OnDisk`) are
  represented by the state `Fs.mounted` afterwards.

Crash and reboot meet here: the specifications of operations say that a crash leaves an image, and
this module that an image is enough to go on from.  `iinit` runs before the recovery and reads the
superblock as it stands on the drive; no operation passes that block to the log.
-/

namespace Xv6

open Lib

/-- `initlog(dev)`.  Its test of the size of `struct logheader` is one of constants, and fails. -/
def initlog (dev : ℕ) : K Unit := do
  let bp ← bread dev 1
  let d ← bdata bp
  brelse bp
  setLog fun log => { log with start := (superblockAt d).logstart }
  setLog fun log => { log with size := (superblockAt d).nlog }
  setLog fun log => { log with dev := dev }
  recoverFromLog

/-- The statements of `main` that mount the file system. -/
def mountFs : K Unit := do
  iinit ROOTDEV
  initlog ROOTDEV

def Fs.mounted (σ : Nodes) (input : List UInt8) : Fs where
  node := σ
  stale := ∅
  ic _ := ⟨0, 0, false⟩
  ft := (FsMem.boot input).ftable
  input := input
  output := []
  metas := ∅
  datas := 0

section

variable {L : Layout} {P : Nodes → Prop} {D : (ℕ → Block) → Prop} {d : BufRef → Block}
  {fm : FsMem} {input : List UInt8} {log : Log} {a : Account}

lemma Layout.Image.recover {d' c : BufRef → Block} {blk : ℕ → Block}
    (hd : superblockAt (d (onDev 1)) = L.sb) (hc : superblockAt (c (onDev 1)) = L.sb) (hD : D blk)
    (hblk : ∀ b, L.Out b → c (onDev b) = blk b) (hr : L.log.Recovers d' c)
    (hmix : ∀ k : BufRef, k.dev < 2 → ¬ L.log.Mem k → d' k = d k ∨ d' k = c k) : L.Image D d' := by
  refine ⟨?_, c, hr, hc, blk, hD, hblk⟩
  rcases hmix (onDev 1) (by norm_num [onDev]) L.not_mem_superblock with h | h
  · rw [h, hd]
  · rw [h, hc]

private lemma kwp_bread_superblock {C : (BufRef → Block) → Finset BufRef → Prop}
    {A : Halt → Account → FsMem → Prop}
    {Q : Unit → Account → FsMem → Prop} {f : BufRef → K Unit} (hC : C d ∅)
    (hf : kwp C A (f (onDev 1)) Q { Account.init d true log with held := [onDev 1] } fm) :
    kwp C A (bread ROOTDEV 1 >>= f) Q (Account.init d true log) fm := by
  refine kwp_bread_inRange (k := onDev 1) ⟨by norm_num [onDev], fun _ => rfl, by norm_num [onDev]⟩
    hC (fun hfit => absurd ?_ hfit) hf
  show (insert (onDev 1) (∅ : Finset BufRef)).card ≤ NBUF
  norm_num

private lemma kwp_setSb {C : (BufRef → Block) → Finset BufRef → Prop}
    {A : Halt → Account → FsMem → Prop}
    {Q : Unit → Account → FsMem → Prop} {sb : Superblock} {f : Unit → K Unit}
    (hC : C a.disk a.dirty) (hf : kwp C A (f ()) Q a { fm with sb := sb }) :
    kwp C A (setSb sb >>= f) Q a fm := by
  have hs : storeHandler (.inr (.setSb sb)) (a, fm) = .ok () (a, { fm with sb := sb }) := rfl
  exact Prog.wpc_op_ok hC hs hf

def Vol.mounted (blk : ℕ → Block) : Vol := ⟨blk, blk, ∅, ∅, []⟩

def FsMem.mounted (sb : Superblock) (input : List UInt8) : FsMem :=
  { FsMem.boot input with sb := sb }

lemma kwp_mountFs_vol (h : L.Image D d) :
    kwp (L.Crash D) (fun _ _ _ => False) mountFs (fun _ a fm => ∃ blk, D blk ∧
      L.Shows (.mounted blk) a ∧ fm = .mounted L.sb input)
      (Account.init d true .zero) (.boot input) := by
  obtain ⟨hsuper, c, hr, hc, blk, hblk, hout⟩ := h
  have hroom : L.Room (∅ : Finset BufRef).card := fun _ _ => Nat.zero_le _
  have hC : L.Crash D d ∅ := ⟨hroom, hsuper, c, hr, hc, blk, hblk, hout⟩
  -- the superblock, first for `iinit`
  refine kwp_seq (M := fun _ a fm => a = Account.init d true .zero ∧
    fm = { FsMem.boot input with sb := L.sb }) ?_ ?_
  · refine kwp_bread_superblock hC (kwp_bdata hC (by simp) (kwp_setSb hC ?_))
    refine kwp_last (kwp_brelse hC (by simp) (by simp [Account.init]) (kwp_ret hC ⟨?_, ?_⟩))
    · simp [Account.init]
    · rw [← hsuper]
      rfl
  rintro - a fm ⟨rfl, rfl⟩
  -- and again for `initlog`
  refine kwp_bread_superblock hC (kwp_bdata hC (by simp) ?_)
  refine kwp_brelse hC (by simp) (by simp [Account.init]) ?_
  refine kwp_setLog hC (kwp_setLog hC (kwp_setLog hC ?_))
  rw [List.erase_cons_head]
  show kwp _ _ _ _ (Account.init d true ⟨(superblockAt (d (onDev 1))).logstart,
    (superblockAt (d (onDev 1))).nlog, ROOTDEV, .empty⟩) _
  rw [hsuper]
  refine kwp_mono (kwp_recoverFromLog (g := L.log) (d := d) (c := c)
    (show L.log.dev ≠ 0 → true = true from fun _ => rfl) hr
    fun d' hr' hmix => ⟨hroom, .recover hsuper hc hblk hout hr' hmix⟩) ?_
  rintro - a fm ⟨rfl, hrest, hdisk⟩
  obtain ⟨lh, hn, hbooks⟩ := hrest.books
  have hdisk' : ∀ b, L.Out b → a.disk (onDev b) = blk b := fun b hb =>
    (hdisk _ (by norm_num [onDev]) hb.not_mem).trans (hout b hb)
  refine ⟨blk, hblk, ?_, rfl⟩
  exact
    { boot := by rw [hdisk (onDev 1) (by norm_num [onDev]) L.not_mem_superblock, hc]
      mem := fun b hb => (hrest.mem_eq_disk _).trans (hdisk' b hb)
      old := hdisk'
      header := hrest.header
      held := hrest.held
      pend := by rw [hbooks.pend]; exact Finset.empty_subset _
      pendHeld := by simp [Vol.mounted]
      pendOut := by simp [Vol.mounted]
      log := ⟨lh, hbooks.tidy.log, hbooks.tidy.listed, by rw [LogArea.homes, hn]; rfl, hn⟩
      loggedOut := by simp [Vol.mounted]
      room := fun _ _ => Nat.zero_le _
      present := hbooks.tidy.present (show ROOTDEV ≠ 0 by decide)
      dirty := by rw [hrest.dirty_eq_empty]; exact Finset.empty_subset _
      clean := fun k _ _ => hrest.mem_eq_disk k }

/-- **Mounting an image on the machine.** -/
theorem mountFs_kernel (h : L.Image D d) (input : List UInt8) :
    ∃ m blk, mountFs.run kernelHandler (binit d true .zero, .boot input) =
      .ok () (m, .mounted L.sb input) ∧ L.On (.mounted blk) m ∧ D blk := by
  rcases kwp_kernel (kwp_mountFs_vol h) (fun _ _ hx => hx) (.init d true .zero) with
    ⟨_, a, m, fm, hrun, hplays, blk, hD, hshows, rfl⟩ | ⟨x, -, t, -, hx, -⟩
  · exact ⟨m, blk, hrun, ⟨a, hplays, hshows⟩, hD⟩
  · exact absurd hx id

lemma Layout.OnDisk.rep {blk : ℕ → Block} (h : L.OnDisk P blk) (input : List UInt8) :
    ∃ σ ino, P σ ∧ L.Rep ino (Fs.mounted σ input) (.mounted blk) (.mounted L.sb input) := by
  obtain ⟨ino, howns, hfull, hlive, hP⟩ := h
  have hat : ∀ {ip i}, ¬ (Fs.mounted (fun i => (ino i).map (Dinode.node blk)) input).At ip i :=
    fun h => absurd h.1 (lt_irrefl 0)
  exact ⟨_, ino, hP,
    { held := rfl
      pend := rfl
      sb := rfl
      owns := howns
      full := fun {i d} hi => hfull i d hi
      node := fun _ => rfl
      disk := fun i hi _ => hlive i hi
      entry := fun _ => rfl
      dev := fun {ip} hpos => absurd hpos (lt_irrefl 0)
      unique := fun {ip jp i} h _ => absurd h hat
      inuse := fun {ip i} h => absurd h hat
      cached := fun {ip i} h => absurd h hat
      ft := rfl
      input := rfl
      output := rfl
      logged := ⟨∅, le_rfl, Finset.empty_subset _⟩ }⟩

/-- **Mounting a volume on the machine.** -/
theorem mountFs_mounted (h : L.Image (L.OnDisk P) d) (input : List UInt8) :
    ∃ σ m, P σ ∧ mountFs.run kernelHandler (binit d true .zero, .boot input) =
      .ok () (m, .mounted L.sb input) ∧
      L.Mounted (Fs.mounted σ input) m (.mounted L.sb input) := by
  obtain ⟨m, blk, hrun, hon, hD⟩ := mountFs_kernel h input
  obtain ⟨σ, ino, hP, hrep⟩ := hD.rep input
  exact ⟨σ, m, hP, hrun, .mounted blk, ino, hon, hrep⟩

def Table.empty : Table := ⟨(FsMem.boot []).ftable, fun _ => 0⟩

@[simp] lemma Table.refs_empty (ip : Fin NINODE) : Table.empty.refs ip = 0 :=
  Finset.card_eq_zero.mpr (Finset.filter_eq_empty_iff.mpr fun _ _ h => nomatch h.1)

lemma Fs.holds_mounted (σ : Nodes) (input : List UInt8) :
    (Fs.mounted σ input).Holds .empty σ [] ∅ 0 where
  node := rfl
  stale := rfl
  file := rfl
  ref ip := by
    rw [Table.refs_empty]
    rfl
  inum _ hr := nomatch hr
  read _ hr := nomatch hr
  fileInum _ hf := nomatch hf
  fileRead _ hf := nomatch hf
  metas := Finset.empty_subset _
  datas := le_rfl

@[simp] lemma entriesUsed_empty : entriesUsed .empty [] = ∅ :=
  Finset.filter_eq_empty_iff.mpr fun ip _ h => by simp [refsTo] at h

end

end Xv6
