import Xv6.File.Code
import Xv6.Log.Crash

/-!
# The volume as the file system sees it

The code of `fs.c` and `file.c` works on one device, below the log.  `Vol` is what it has to know
of the block store there: the contents of the blocks, which of them it holds, which it has changed
without passing them to `log_write` yet, which it has passed, and the contents that the drive would
recover to.

`fwp L D p Q v fm` is the specification of file-system code: from the volume `v` and the memory
`fm` the code `p` returns in `Q` or runs out of resources, at no time are more than `L.limit` blocks
pinned, and wherever the machine crashes the drive recovers to contents in `D`.  Without a limit the
log and the buffers are resources like the others.

`Layout.Shows` relates a volume to the block store, and every rule below comes from one of
`Xv6.Bio.Rules` by it.  The blocks that an operation has passed to the log are pinned and have not
reached their home, so that a crash recovers to `Vol.old` until `end_op` commits; that is the whole
of crash safety as far as the code above is concerned.
-/

namespace Xv6

open Lib

/-! ## The layout of a volume -/

/-- A superblock whose areas follow one another, with one block of bitmap, and what is assumed of
code on such a volume.  A proof with a `limit` is one for code that fits the log and the buffers; a
proof without `scarce` is one for code that has all it needs.  The two are parameters, so that one
proof about a function serves both the theorems that promise a return and those that allow it to run
out. -/
structure Layout where
  sb : Superblock
  /-- The most blocks that one operation may log, if there is a limit. -/
  limit : Option ℕ
  /-- Whether blocks, inodes, entries of the inode cache and console input may run out. -/
  scarce : Prop
  /-- Whether code may wait for the console. -/
  waits : Prop
  size_le : sb.size ≤ FSSIZE
  log_start : 2 ≤ sb.logstart
  log_end : sb.logstart + sb.nlog ≤ sb.inodestart
  inodes_end : ∀ i < sb.ninodes, IBLOCK i sb < sb.bmapstart
  bmap_lt : sb.bmapstart < sb.size
  root_lt : ROOTINO < sb.ninodes
  log_pos : 0 < sb.nlog
  limit_log : ∀ n ∈ limit, 0 < n → n + 1 < sb.nlog
  limit_buf : ∀ n ∈ limit, n + 3 ≤ NBUF

namespace Layout

variable (L : Layout)

/-- The block of the bitmap. -/
def bmapblock : ℕ := L.sb.bmapstart

/-- The block of an inode. -/
def iblock (i : ℕ) : ℕ := IBLOCK i L.sb

/-- The first block of the data area. -/
def datastart : ℕ := L.sb.bmapstart + 1

lemma inodestart_le_iblock (i : ℕ) : L.sb.inodestart ≤ L.iblock i := Nat.le_add_left _ _

lemma iblock_lt {i : ℕ} (hi : i < L.sb.ninodes) : L.iblock i < L.bmapblock := L.inodes_end i hi

lemma inodestart_le_bmapblock : L.sb.inodestart ≤ L.bmapblock :=
  (L.inodestart_le_iblock ROOTINO).trans (L.iblock_lt L.root_lt).le

/-- The log of the volume. -/
def log : LogArea where
  dev := ROOTDEV
  start := L.sb.logstart
  size := L.sb.nlog
  dev_lt := by norm_num
  size_pos := L.log_pos
  fits := by
    have h₁ := L.log_end
    have h₂ := L.inodestart_le_bmapblock
    have h₃ : L.bmapblock < L.sb.size := L.bmap_lt
    have h₄ := L.size_le
    omega

/-- A block of the volume behind the log. -/
def Out (b : ℕ) : Prop := L.sb.inodestart ≤ b ∧ b < L.sb.size

variable {L} in
lemma Out.not_mem {b : ℕ} (h : L.Out b) : ¬ L.log.Mem ⟨ROOTDEV, b⟩ := by
  intro hm
  have h₁ := hm.2.2
  have h₂ := L.log_end
  have h₃ := h.1
  simp only [log] at h₁
  omega

lemma not_out_superblock : ¬ L.Out 1 := by
  intro h
  have h₁ := h.1
  have h₂ := L.log_start
  have h₃ := L.log_end
  omega

lemma not_mem_superblock : ¬ L.log.Mem ⟨ROOTDEV, 1⟩ := by
  intro h
  have h₁ := h.2.1
  have h₂ := L.log_start
  simp only [log] at h₁
  omega

lemma out_bmapblock : L.Out L.bmapblock := ⟨L.inodestart_le_bmapblock, L.bmap_lt⟩

lemma out_iblock {i : ℕ} (hi : i < L.sb.ninodes) : L.Out (L.iblock i) :=
  ⟨L.inodestart_le_iblock i, (L.iblock_lt hi).trans L.bmap_lt⟩

lemma out_data {b : ℕ} (h₁ : L.datastart ≤ b) (h₂ : b < L.sb.size) : L.Out b := by
  refine ⟨L.inodestart_le_bmapblock.trans ?_, h₂⟩
  simp only [datastart, bmapblock] at *
  omega

/-- The limit admits `n` blocks. -/
def Room (n : ℕ) : Prop := ∀ m ∈ L.limit, n ≤ m

variable {L} in
lemma Room.mono {m n : ℕ} (h : L.Room n) (hm : m ≤ n) : L.Room m := fun l hl => hm.trans (h l hl)

/-- How an operation of the file system may end without returning: it runs out of blocks, of inodes
or of entries of the inode cache, waits for console input, outgrows the log or the buffers, or needs
an entry in a directory that cannot grow any more, which takes more inodes than a directory has
entries. -/
def Halts : Halt → Prop
  | .panic .ballocOutOfBlocks | .panic .iallocNoInodes | .panic .igetNoInodes => L.scarce
  | .blocked => L.scarce ∧ L.waits
  | .panic .tooBigTransaction | .panic .bgetNoBuffers => L.limit = none
  | .panic .dirlink => L.scarce ∧ MAXFILE * BSIZE / DIRENTSIZE < L.sb.ninodes + 2
  | _ => False

/-- What has run out where an operation halts: no bit of the bitmap is clear, no inode is free, no
entry of the inode cache is unused, or the line being read has not been typed. -/
def UsedUp (blk : ℕ → Block) (fm : FsMem) : Halt → Prop
  | .panic .ballocOutOfBlocks => ∀ b < L.sb.size, bit (blk L.bmapblock) b = true
  | .panic .iallocNoInodes => ∀ i, 0 < i → i < L.sb.ninodes →
      (dinodeAt (blk (L.iblock i)) (i % IPB)).type ≠ 0
  | .panic .igetNoInodes => ∀ ip, 0 < (fm.icache ip).ref
  | .blocked => ∃ n, consoleLoop n fm.input [] = none
  | _ => True

variable {L} in
lemma UsedUp.congr {blk blk' : ℕ → Block} {fm : FsMem} {x : Halt} (h : L.UsedUp blk fm x)
    (hblk : x.AboveStore → ∀ b, L.Out b → blk' b = blk b) : L.UsedUp blk' fm x := by
  cases x with
  | panic p =>
    cases p with
    | ballocOutOfBlocks =>
      intro b hb
      rw [hblk trivial _ L.out_bmapblock]
      exact h b hb
    | iallocNoInodes =>
      intro i hpos hi
      rw [hblk trivial _ (L.out_iblock hi)]
      exact h i hpos hi
    | _ => exact h
  | _ => exact h

/-- Resources may run out. -/
class Scarce : Prop where
  scarce : L.scarce
  waits : L.waits

/-- The same layout, for code that does not run out of resources. -/
def ample : Layout := { L with scarce := False }

/-- The same layout, for code that does not wait for the console. -/
def prompt : Layout := { L with waits := False }

/-- The same layout with another limit, for code that may run out of resources. -/
def limited (limit : Option ℕ) (hlog : ∀ n ∈ limit, 0 < n → n + 1 < L.sb.nlog)
    (hbuf : ∀ n ∈ limit, n + 3 ≤ NBUF) : Layout :=
  { L with
    limit := limit
    scarce := True
    waits := True
    limit_log := hlog
    limit_buf := hbuf }

variable {L} in
lemma not_halts_ample (h : L.limit ≠ none) (x : Halt) : ¬ L.ample.Halts x := by
  intro hx
  cases x with
  | panic p => cases p <;> first | exact hx | exact h hx | exact hx.1
  | blocked => exact hx.1
  | stray => exact hx

end Layout

/-! ## The volume -/

/-- The block store of the volume, to the code of the file system.  Blocks are numbered without
their device.  `blk` is what the code reads and writes, and `old` what a crash leaves of it: until
the operation ends, none of its changes. -/
@[ext] structure Vol where
  /-- Current contents. -/
  blk : ℕ → Block
  /-- The contents that the drive recovers to. -/
  old : ℕ → Block
  /-- Passed to `log_write` in the current operation. -/
  logged : Finset ℕ
  /-- Changed, and not passed to `log_write` yet. -/
  pend : Finset ℕ
  held : List ℕ

/-- A block of the device. -/
def onDev (b : ℕ) : BufRef := ⟨ROOTDEV, b⟩

lemma onDev_injective : Function.Injective onDev := fun _ _ h => congrArg BufRef.blockno h

/-- The block store shows the volume.  The header on the drive is empty and the one in memory lists
exactly the blocks in `logged`, each once; what differs from the drive is pinned, and so logged, or
about to be (`clean`).  The log area and the superblock are not part of the volume. -/
structure Layout.Shows (L : Layout) (v : Vol) (a : Account) : Prop where
  boot : superblockAt (a.disk (onDev 1)) = L.sb
  mem : ∀ b, L.Out b → a.mem (onDev b) = v.blk b
  old : ∀ b, L.Out b → a.disk (onDev b) = v.old b
  header : headerN (a.disk L.log.header) = 0
  held : a.held = v.held.map onDev
  pend : a.pend ⊆ v.pend.image onDev
  pendHeld : ∀ b ∈ v.pend, b ∈ v.held
  pendOut : ∀ b ∈ v.pend, L.Out b
  log : ∃ lh, a.log = L.log.log lh ∧ L.log.Listed lh ∧ L.log.homes lh = v.logged.image onDev ∧
    lh.n = v.logged.card
  loggedOut : ∀ b ∈ v.logged, L.Out b
  room : L.Room v.logged.card
  present : a.havedisk1 = true
  dirty : a.dirty ⊆ v.logged.image onDev
  clean : ∀ k, k ∉ a.dirty → k ∉ a.pend → a.mem k = a.disk k

/-- The drives hold the volume, and recover to contents in `D`. -/
def Layout.Image (L : Layout) (D : (ℕ → Block) → Prop) (d : BufRef → Block) : Prop :=
  superblockAt (d (onDev 1)) = L.sb ∧ ∃ c, L.log.Recovers d c ∧ superblockAt (c (onDev 1)) = L.sb ∧
    ∃ blk, D blk ∧ ∀ b, L.Out b → c (onDev b) = blk b

/-- Where the machine may crash. -/
def Layout.Crash (L : Layout) (D : (ℕ → Block) → Prop) (d : BufRef → Block)
    (dirty : Finset BufRef) : Prop :=
  L.Room dirty.card ∧ L.Image D d

/-- The specification of file-system code.  It may halt only for want of a resource that the layout
declares scarce, and then the resource is used up; and at every point a crash leaves drives that
recover to contents in `D`, among which `v.old` is at the start. -/
def fwp {α : Type} (L : Layout) (D : (ℕ → Block) → Prop) (p : K α)
    (Q : α → Vol → FsMem → Prop) (v : Vol) (fm : FsMem) : Prop :=
  ∀ a, L.Shows v a → D v.old →
    kwp (L.Crash D) (fun x a fm => L.Halts x ∧ L.UsedUp (fun b => a.mem (onDev b)) fm x) p
      (fun r a' fm' => ∃ v', L.Shows v' a' ∧ D v'.old ∧ Q r v' fm') a fm

section

variable {α β : Type} {L : Layout} {D : (ℕ → Block) → Prop} {Q Q' : α → Vol → FsMem → Prop}
  {v : Vol} {fm : FsMem} {a : Account} {b : ℕ}

namespace Layout.Shows

lemma crash (h : L.Shows v a) (hD : D v.old) : L.Crash D a.disk a.dirty := by
  refine ⟨h.room.mono ?_, h.boot, a.disk, .of_headerN h.header fun _ _ _ => rfl, h.boot, v.old, hD,
    h.old⟩
  exact (Finset.card_le_card h.dirty).trans Finset.card_image_le

lemma dirty_eq_empty (h : L.Shows v a) (hl : v.logged = ∅) : a.dirty = ∅ := by
  have hsub := h.dirty
  rwa [hl, Finset.image_empty, Finset.subset_empty] at hsub

lemma mem_held (h : L.Shows v a) (hb : b ∈ v.held) : onDev b ∈ a.held := by
  rw [h.held]
  exact List.mem_map_of_mem hb

end Layout.Shows

/-! ## Rules -/

lemma fwp_ret {r : α} (h : Q r v fm) : fwp L D (pure r) Q v fm :=
  fun _ hv hD => kwp_ret (hv.crash hD) ⟨v, hv, hD, h⟩

lemma fwp_seq {p : K β} {f : β → K α} {M : β → Vol → FsMem → Prop} (hp : fwp L D p M v fm)
    (hf : ∀ r v' fm', M r v' fm' → fwp L D (f r) Q v' fm') : fwp L D (p >>= f) Q v fm := by
  intro a hv hD
  refine kwp_seq (hp a hv hD) ?_
  rintro r a' fm' ⟨v', hv', hD', hM⟩
  exact hf r v' fm' hM a' hv' hD'

lemma fwp_mono {p : K α} (hp : fwp L D p Q v fm)
    (hQ : ∀ r v' fm', Q r v' fm' → Q' r v' fm') : fwp L D p Q' v fm := by
  intro a hv hD
  refine kwp_mono (hp a hv hD) ?_
  rintro r a' fm' ⟨v', hv', hD', h⟩
  exact ⟨v', hv', hD', hQ r v' fm' h⟩

lemma fwp_last {p : K α} (hp : fwp L D (p >>= fun r => pure r) Q v fm) : fwp L D p Q v fm := by
  rwa [show (p >>= fun r => pure r) = p from Prog.bind_ret' p] at hp

lemma fwp_mem {e : MemOp} {r : e.Ret} {m : FsMem} {f : e.Ret → K α}
    (he : memHandler e fm = .ok r m) (hf : fwp L D (f r) Q v m) :
    fwp L D (mem e >>= f) Q v fm := by
  intro a hv hD
  have hs : storeHandler (.inr e) (a, fm) = .ok r (a, m) := by
    simp only [Handler.sum, he]
  exact Prog.wpc_op_ok (hv.crash hD) hs (hf a hv hD)

lemma fwp_mem_error {e : MemOp} {x : Halt} {f : e.Ret → K α}
    (he : memHandler e fm = .error x fm) (hx : L.Halts x) (hu : L.UsedUp v.blk fm x) :
    fwp L D (mem e >>= f) Q v fm := by
  intro a hv hD
  have hs : storeHandler (.inr e) (a, fm) = .error x (a, fm) := by
    simp only [Handler.sum, he]
  exact Prog.wpc_op_error (hv.crash hD) (hv.crash hD) hs ⟨hx, hu.congr fun _ => hv.mem⟩

lemma fwp_panic {p : Panic} (hp : L.Halts (.panic p)) (hu : L.UsedUp v.blk fm (.panic p)) :
    fwp L D (panic p : K α) Q v fm := by
  intro a hv hD
  have hs : storeHandler (.inr (.panic p)) (a, fm) = .error (.panic p) (a, fm) := rfl
  exact Prog.wpc_op_error (hv.crash hD) (hv.crash hD) hs ⟨hp, hu.congr fun _ => hv.mem⟩

lemma fwp_getSb {f : Superblock → K α} (hf : fwp L D (f fm.sb) Q v fm) :
    fwp L D (getSb >>= f) Q v fm :=
  fwp_mem rfl hf

lemma fwp_readInode {ip : Fin NINODE} {f : Inode → K α}
    (hf : fwp L D (f (fm.icache ip)) Q v fm) : fwp L D (readInode ip >>= f) Q v fm :=
  fwp_mem rfl hf

lemma fwp_setInode {ip : Fin NINODE} {g : Inode → Inode} {f : Unit → K α}
    (hf : fwp L D (f ()) Q v (fm.setInode ip (g (fm.icache ip)))) :
    fwp L D (setInode ip g >>= f) Q v fm :=
  fwp_mem rfl hf

lemma fwp_readFile {i : Fin NFILE} {f : File → K α} (hf : fwp L D (f (fm.ftable i)) Q v fm) :
    fwp L D (readFile i >>= f) Q v fm :=
  fwp_mem rfl hf

lemma fwp_setFile {i : Fin NFILE} {g : File → File} {f : Unit → K α}
    (hf : fwp L D (f ()) Q v (fm.setFile i (g (fm.ftable i)))) :
    fwp L D (setFile i g >>= f) Q v fm :=
  fwp_mem rfl hf

lemma fwp_bread {f : BufRef → K α} (hb : L.Out b) (hh : v.held.length ≤ 2)
    (hf : fwp L D (f (onDev b)) Q { v with held := b :: v.held } fm) :
    fwp L D (bread ROOTDEV b >>= f) Q v fm := by
  intro a hv hD
  refine kwp_bread_inRange (k := onDev b) ?_ (hv.crash hD) (fun hfit => ?_) (hf _ ?_ hD)
  · exact ⟨by norm_num [onDev], fun _ => hv.present, hb.2.trans_le L.size_le⟩
  · cases hlim : L.limit with
    | none => exact ⟨hlim, trivial⟩
    | some m =>
      refine absurd ?_ hfit
      have hcard : a.used.card ≤ 2 + m := by
        rw [Account.used, hv.held]
        calc ((v.held.map onDev).toFinset ∪ a.dirty).card
            ≤ (v.held.map onDev).toFinset.card + a.dirty.card := Finset.card_union_le _ _
          _ ≤ v.held.length + m := by
            refine Nat.add_le_add ?_ ((hv.crash hD).1 m hlim)
            exact (List.toFinset_card_le _).trans (List.length_map _).le
          _ ≤ 2 + m := Nat.add_le_add_right hh _
      have hbuf := L.limit_buf m hlim
      exact (Finset.card_insert_le _ _).trans (by omega)
  · refine { hv with held := ?_, pendHeld := fun b hb => List.mem_cons_of_mem _ (hv.pendHeld b hb) }
    rw [List.map_cons, ← hv.held]

lemma fwp_brelse {f : Unit → K α} (hb : b ∈ v.held) (hp : b ∉ v.pend)
    (hf : fwp L D (f ()) Q { v with held := v.held.erase b } fm) :
    fwp L D (brelse (onDev b) >>= f) Q v fm := by
  intro a hv hD
  refine kwp_brelse (hv.crash hD) (hv.mem_held hb) (fun hk => ?_) (hf _ ?_ hD)
  · obtain ⟨b', hb', he⟩ := Finset.mem_image.mp (hv.pend hk)
    exact absurd (onDev_injective he ▸ hb') hp
  · refine { hv with held := ?_, pendHeld := fun b' hb' => ?_ }
    · show a.held.erase (onDev b) = (v.held.erase b).map onDev
      rw [hv.held, List.map_erase onDev_injective]
    · have hne : b' ≠ b := fun he => hp (he ▸ hb')
      exact (List.mem_erase_of_ne hne).mpr (hv.pendHeld b' hb')

lemma fwp_bdata {f : Block → K α} (hb : b ∈ v.held) (ho : L.Out b)
    (hf : fwp L D (f (v.blk b)) Q v fm) : fwp L D (bdata (onDev b) >>= f) Q v fm := by
  intro a hv hD
  refine kwp_bdata (hv.crash hD) (hv.mem_held hb) ?_
  rw [hv.mem b ho]
  exact hf a hv hD

/-- The volume after a store into a block. -/
def Vol.write (v : Vol) (b : ℕ) (d : Block) : Vol :=
  { v with blk := Function.update v.blk b d, pend := insert b v.pend }

/-- The volume after `log_write`. -/
def Vol.log (v : Vol) (b : ℕ) : Vol :=
  { v with logged := insert b v.logged, pend := v.pend.erase b }

lemma fwp_bstore {g : Block → Block} {f : Unit → K α} (hb : b ∈ v.held) (ho : L.Out b)
    (hf : fwp L D (f ()) Q (v.write b (g (v.blk b))) fm) :
    fwp L D (bstore (onDev b) g >>= f) Q v fm := by
  intro a hv hD
  refine kwp_bstore (hv.crash hD) (hv.mem_held hb) (hf _ ?_ hD)
  rw [hv.mem b ho]
  have hpend : (a.write (onDev b) (g (v.blk b))).pend ⊆ insert (onDev b) a.pend := by
    simp only [Account.write]
    split_ifs
    · exact Finset.subset_insert _ _
    · exact subset_rfl
  refine { hv with
    mem := fun b' ho' => ?_
    pend := ?_
    pendHeld := fun b' hb' => ?_
    pendOut := fun b' hb' => ?_
    clean := fun k hk hk' => ?_ }
  · by_cases he : b' = b
    · rw [he]
      simp only [Account.write, Vol.write, Function.update_self]
    · simp only [Account.write, Vol.write, Function.update_of_ne he,
        Function.update_of_ne (onDev_injective.ne he)]
      exact hv.mem b' ho'
  · refine hpend.trans ?_
    simp only [Vol.write, Finset.image_insert]
    exact Finset.insert_subset_insert _ hv.pend
  · rcases Finset.mem_insert.mp hb' with rfl | hb'
    · exact hb
    · exact hv.pendHeld b' hb'
  · rcases Finset.mem_insert.mp hb' with rfl | hb'
    · exact ho
    · exact hv.pendOut b' hb'
  · simp only [Account.write] at hk hk' ⊢
    have hne : k ≠ onDev b := by
      rintro rfl
      rw [if_neg hk] at hk'
      exact hk' (Finset.mem_insert_self _ _)
    rw [Function.update_of_ne hne]
    refine hv.clean k hk fun hin => hk' ?_
    split_ifs
    · exact hin
    · exact Finset.mem_insert_of_mem hin

lemma fwp_logWrite {f : Unit → K α} (hb : b ∈ v.held) (ho : L.Out b)
    (hroom : L.Room (insert b v.logged).card) (hf : fwp L D (f ()) Q (v.log b) fm) :
    fwp L D (logWrite (onDev b) >>= f) Q v fm := by
  intro a hv hD
  obtain ⟨lh, hlog, hlisted, hhomes, hn⟩ := hv.log
  -- with a limit, the log has room for every block that may be passed to it
  have hfull : a.log.full → L.limit = none := fun hfull => by
    cases hlim : L.limit with
    | none => rfl
    | some m =>
      have h₁ := hv.room m hlim
      have hpos : 0 < m := (Finset.card_pos.mpr ⟨b, Finset.mem_insert_self _ _⟩).trans_le
        (hroom m hlim)
      have h₂ := L.limit_log m hlim hpos
      have h₃ := L.limit_buf m hlim
      rw [hlog] at hfull
      simp only [Log.full, LogArea.log, Layout.log, hn, LOGSIZE, NBUF] at h₃ hfull
      omega
  refine kwp_logWrite (hv.crash hD) (hv.mem_held hb) (fun hbig => ⟨hfull hbig, trivial⟩)
    fun hnotfull => hf _ ?_ hD
  refine { hv with
    pend := ?_
    pendHeld := fun b' hb' => hv.pendHeld b' (Finset.mem_of_mem_erase hb')
    pendOut := fun b' hb' => hv.pendOut b' (Finset.mem_of_mem_erase hb')
    log := ⟨lh.add b, ?_, ?_, ?_, ?_⟩
    loggedOut := fun b' hb' => ?_
    room := hroom
    dirty := ?_
    clean := fun k hk hk' => ?_ }
  · intro k hk
    obtain ⟨hne, hk⟩ := Finset.mem_erase.mp hk
    obtain ⟨b', hb', rfl⟩ := Finset.mem_image.mp (hv.pend hk)
    exact Finset.mem_image_of_mem _ (Finset.mem_erase.mpr ⟨fun he => hne (he ▸ rfl), hb'⟩)
  · simp only [Account.pin, hlog]
    rfl
  · exact hlisted.add (hlog ▸ hnotfull) (ho.2.trans_le L.size_le) ho.not_mem
  · rw [LogArea.homes_add, hhomes]
    exact (Finset.image_insert _ _ _).symm
  -- absorption: a block that is listed already does not take another entry
  · have hmem : (∃ i < lh.n, lh.block i = b) ↔ b ∈ v.logged := by
      have hiff : onDev b ∈ L.log.homes lh ↔ b ∈ v.logged := by
        rw [hhomes, onDev_injective.mem_finset_image]
      rw [← hiff, LogArea.mem_homes]
      constructor
      · rintro ⟨i, hi, rfl⟩
        exact ⟨i, hi, rfl⟩
      · rintro ⟨i, hi, he⟩
        exact ⟨i, hi, (congrArg BufRef.blockno he).symm⟩
    by_cases hin : b ∈ v.logged
    · rw [LogHeader.add_of_mem (hmem.mpr hin), hn]
      exact congrArg Finset.card (Finset.insert_eq_of_mem hin).symm
    · rw [LogHeader.add_of_forall_ne fun i hi he => hin (hmem.mp ⟨i, hi, he⟩)]
      show lh.n + 1 = (insert b v.logged).card
      rw [hn, Finset.card_insert_of_notMem hin]
  · rcases Finset.mem_insert.mp hb' with rfl | hb'
    · exact ho
    · exact hv.loggedOut b' hb'
  · simp only [Account.pin, Vol.log, Finset.image_insert]
    exact Finset.insert_subset_insert _ hv.dirty
  · simp only [Account.pin, Finset.mem_insert, not_or] at hk hk' ⊢
    exact hv.clean k hk.2 fun hin => hk' (Finset.mem_erase.mpr ⟨hk.1, hin⟩)

lemma fwp_endOp {f : Unit → K α} (hheld : v.held = []) (hpend : v.pend = ∅) (hD' : D v.blk)
    (hf : fwp L D (f ()) Q { v with old := v.blk, logged := ∅ } fm) :
    fwp L D (endOp >>= f) Q v fm := by
  intro a hv hD
  obtain ⟨lh, hlog, hlisted, hhomes, hn⟩ := hv.log
  have hpend' : a.pend = ∅ := by
    have h := hv.pend
    rw [hpend, Finset.image_empty] at h
    exact Finset.subset_empty.mp h
  have hheld' : a.held = [] := by rw [hv.held, hheld]; rfl
  have hbooks : L.log.Books lh a := by
    refine ⟨⟨hlog, fun _ => hv.present, hlisted, fun k hk => ?_, fun k hk => ⟨fun hd => ?_, ?_⟩⟩,
      hpend', hhomes ▸ hv.dirty, fun k hk => hv.clean k hk ?_⟩
    · rw [hpend'] at hk
      exact absurd hk (Finset.notMem_empty k)
    · obtain ⟨b, hb, rfl⟩ := Finset.mem_image.mp (hv.dirty hd)
      exact (hv.loggedOut b hb).not_mem hk
    · rw [hpend']
      exact Finset.notMem_empty k
    · rw [hpend']
      exact Finset.notMem_empty k
  have hsuper : onDev 1 ∉ L.log.homes lh := by
    rw [hhomes]
    intro h
    obtain ⟨b, hb, he⟩ := Finset.mem_image.mp h
    exact L.not_out_superblock (onDev_injective he ▸ hv.loggedOut b hb)
  have hmem₁ : a.mem (onDev 1) = a.disk (onDev 1) :=
    hv.clean _ (fun h => hsuper (hhomes ▸ hv.dirty h)) (hpend' ▸ Finset.notMem_empty _)
  -- the superblock is not listed, and the commit leaves it alone
  refine kwp_seq
    (kwp_commit hbooks hheld' hv.header (fun hbig a' fm' => ⟨?_, trivial⟩)
      fun d dirty hsub hframe hr => ?_) ?_
  · cases hlim : L.limit with
    | none => exact hlim
    | some m =>
      have h₁ := hv.room m hlim
      have h₂ := L.limit_buf m hlim
      omega
  · refine ⟨(hv.crash hD).1.mono (Finset.card_le_card hsub), ?_, ?_⟩
    · rw [hframe (onDev 1) L.not_mem_superblock hsuper, hv.boot]
    -- before the header is written a crash recovers to `v.old`, afterwards to `v.blk`
    rcases hr with hr | hr
    · exact ⟨_, hr, hv.boot, v.old, hD, hv.old⟩
    · exact ⟨_, hr, by rw [hmem₁, hv.boot], v.blk, hD', hv.mem⟩
  rintro - a' fm' ⟨rfl, hrest, hmem⟩
  have hmem' : ∀ b, L.Out b → a'.mem (onDev b) = v.blk b := fun b ho =>
    (hmem _ ho.not_mem).trans (hv.mem b ho)
  have hboot' : superblockAt (a'.disk (onDev 1)) = L.sb := by
    have hsame : a'.disk (onDev 1) = a.disk (onDev 1) := calc
      a'.disk (onDev 1) = a'.mem (onDev 1) := (hrest.mem_eq_disk _).symm
      _ = a.mem (onDev 1) := hmem _ L.not_mem_superblock
      _ = a.disk (onDev 1) := hmem₁
    rw [hsame, hv.boot]
  obtain ⟨lh', hn', hbooks'⟩ := hrest.books
  have hhomes' : L.log.homes lh' = ∅ := by rw [LogArea.homes, hn']; rfl
  refine hf a' ?_ hD'
  exact
    { boot := hboot'
      mem := hmem'
      old := fun b ho => (hrest.mem_eq_disk _).symm.trans (hmem' b ho)
      header := hrest.header
      held := by rw [hrest.held, hheld]; rfl
      pend := by rw [hbooks'.pend]; exact Finset.empty_subset _
      pendHeld := by simp [hpend]
      pendOut := by simp [hpend]
      log := ⟨lh', hbooks'.tidy.log, hbooks'.tidy.listed, hhomes', hn'⟩
      loggedOut := by simp
      room := fun _ _ => Nat.zero_le _
      present := hbooks'.tidy.present (show ROOTDEV ≠ 0 by decide)
      dirty := by rw [hrest.dirty_eq_empty]; exact Finset.empty_subset _
      clean := fun k _ _ => hrest.mem_eq_disk k }

/-! ## On the machine -/

/-- The machine shows the volume. -/
def Layout.On (L : Layout) (v : Vol) (m : Machine) : Prop := ∃ a, Plays a m ∧ L.Shows v a

/-- **File-system code on the buffer cache.** -/
theorem fwp_kernel {p : K α} {m : Machine} (h : fwp L D p Q v fm) (hm : L.On v m) (hD : D v.old) :
    (∃ r m' v' fm', p.run kernelHandler (m, fm) = .ok r (m', fm') ∧ L.On v' m' ∧ D v'.old ∧
        Q r v' fm') ∨
      ∃ x t, p.run kernelHandler (m, fm) = .error x t ∧ L.Halts x ∧
        L.UsedUp (fun b => t.1.view (onDev b)) t.2 x := by
  obtain ⟨a, hplays, hv⟩ := hm
  rcases kwp_kernel (h a hv hD) (fun _ _ hx => hx.1) hplays with
    ⟨r, a', m', fm', hrun, hplays', v', hv', hD', hQ⟩ | ⟨x, a', t, hrun, ⟨hx, hu⟩, hplays'⟩
  · exact Or.inl ⟨r, m', v', fm', hrun, ⟨a', hplays', hv'⟩, hD', hQ⟩
  · exact Or.inr ⟨x, t, hrun, hx, hu.congr fun habove b _ =>
      (hplays' habove).view_eq (by norm_num [onDev])⟩

lemma Layout.Shows.ample (h : L.Shows v a) : L.ample.Shows v a := { h with }

lemma Layout.On.ample {m : Machine} (h : L.On v m) : L.ample.On v m :=
  h.imp fun _ ⟨hplays, hv⟩ => ⟨hplays, hv.ample⟩

lemma Layout.On.of_ample {m : Machine} (h : L.ample.On v m) : L.On v m :=
  h.imp fun _ ⟨hplays, hv⟩ => ⟨hplays, { hv with }⟩

/-- File-system code that has the resources it needs returns. -/
theorem fwp_returns {p : K α} {m : Machine} (h : fwp L.ample (fun _ => True) p Q v fm)
    (hlim : L.limit ≠ none) (hm : L.On v m) :
    ∃ r m' v' fm', p.run kernelHandler (m, fm) = .ok r (m', fm') ∧ L.On v' m' ∧ Q r v' fm' := by
  rcases fwp_kernel h hm.ample trivial with ⟨r, m', v', fm', hrun, hm', -, hQ⟩ | ⟨x, t, -, hx⟩
  · exact ⟨r, m', v', fm', hrun, hm'.of_ample, hQ⟩
  · exact absurd hx.1 (Layout.not_halts_ample hlim x)

end

end Xv6
