import Xv6.Mkfs.Program
import Xv6.File.Boot

/-!
# Reading what `mkfs` wrote

`mkfs` and the kernel implement the block map twice: the loop of `iappend` with its `fbn` and
`indirect`, and `bmap` and `readi`.  Here a kernel boots on an image that calls of `ialloc` and
`iappend` have left, in any order, mounts it and reads a file from beginning to end; it gets the
bytes that were appended to the file.

`Regular` is kept by the calls, and the data of every node is what has been appended under its
number (`appended`).  The rest is the specification of `readi` from `Xv6.Fs.ReadWrite`, used on an
image that the kernel has not written.  `Proper` leaves out what `main` of `mkfs` never does: a call
on an inode that has not been allocated, or one that is behind the inode blocks.
-/

namespace Xv6.Mkfs

open Lib

/-! ## Calls -/

/-- A call that changes the files of the image. -/
inductive Call
  | ialloc (type : ℤ)
  | iappend (inum : ℕ) (p : List UInt8)

/-- The call in a state; the inode number that `ialloc` returns is `freeinode`. -/
def Call.run : Call → State → Option State
  | .ialloc type, s => (Mkfs.ialloc type s).map Prod.snd
  | .iappend inum p, s => Mkfs.iappend inum p s

/-- The calls, one after the other. -/
def runCalls (cs : List Call) (s : State) : Option State := cs.foldlM (fun s c => c.run s) s

/-- Calls of `ialloc` for files and directories inside the inode blocks, and of `iappend` on inodes
that have been allocated; `next` is the next inode. -/
def Proper : ℕ → List Call → Prop
  | _, [] => True
  | next, .ialloc type :: cs =>
    (type = T_DIR ∨ type = T_FILE) ∧ next < NSLOTS ∧ Proper (next + 1) cs
  | next, .iappend inum _ :: cs => 0 < inum ∧ inum < next ∧ Proper next cs

/-- The bytes that are appended to an inode, in order. -/
def appended (i : ℕ) : List Call → List UInt8
  | [] => []
  | .ialloc _ :: cs => appended i cs
  | .iappend inum p :: cs => (if inum = i then p else []) ++ appended i cs

/-- The contents of a node, if there is one. -/
def dataOf (σ : Nodes) (i : ℕ) : List UInt8 := ((σ i).map Node.data).getD []

section

variable {s s' : State} {σ : Nodes} {i : ℕ} {cs : List Call}

/-- The image holds files and directories with a link, all of them inside the inode blocks. -/
structure Regular (s : State) (σ : Nodes) : Prop where
  sound : Sound s σ
  le : s.freeinode ≤ NSLOTS
  node : ∀ i, 0 < i → i < s.freeinode →
    ∃ n, σ i = some n ∧ (n.type = T_DIR ∨ n.type = T_FILE) ∧ n.nlink = 1

lemma Regular.begun : Regular Mkfs.begun fun _ => none := by
  have hfree : Mkfs.begun.freeinode = 1 := by rw [begun_eq]; rfl
  refine ⟨sound_begun, hfree ▸ by decide, fun i hi hi' => ?_⟩
  rw [hfree] at hi'
  omega

lemma dataOf_update (σ : Nodes) (j : ℕ) (n : Node) (i : ℕ) :
    dataOf (Function.update σ j (some n)) i = if i = j then n.data else dataOf σ i := by
  rw [dataOf, Function.update_apply]
  split_ifs <;> rfl

lemma Regular.dataOf_next (h : Regular s σ) (hlt : s.freeinode < NSLOTS) :
    dataOf σ s.freeinode = [] := by
  obtain ⟨ino, hh, rfl⟩ := h.sound
  have hnone := hh.unused s.freeinode le_rfl hlt.le
  rw [place_of_lt hlt] at hnone
  simp [dataOf, hnone]

lemma Regular.ialloc {t : ℤ} (h : Regular s σ) (ht : t = T_DIR ∨ t = T_FILE)
    (hlt : s.freeinode < NSLOTS) : ∃ s' σ', (Mkfs.ialloc t s).map Prod.snd = some s' ∧
      Regular s' σ' ∧ s'.freeinode = s.freeinode + 1 ∧ ∀ i, dataOf σ' i = dataOf σ i := by
  have hne : t ≠ 0 := by rcases ht with rfl | rfl <;> decide
  have hshort : Bytes.IsShort t := by
    rcases ht with rfl | rfl <;> norm_num [Bytes.IsShort]
  obtain ⟨s', hrun, hs', hfree, -⟩ := h.sound.ialloc hlt.le hne hshort
  rw [place_of_lt hlt] at hs'
  refine ⟨s', _, by rw [hrun]; rfl, ⟨hs', hfree ▸ hlt, fun i hi hi' => ?_⟩, hfree, fun i => ?_⟩
  · rw [Function.update_apply]
    split_ifs with he
    · exact ⟨_, rfl, ht, rfl⟩
    · exact h.node i hi (by omega)
  · rw [dataOf_update]
    split_ifs with he
    · rw [he, h.dataOf_next hlt]
    · rfl

lemma Regular.iappend {j : ℕ} {p : List UInt8} (h : Regular s σ) (hj : 0 < j)
    (hj' : j < s.freeinode) (hrun : Mkfs.iappend j p s = some s') :
    ∃ σ', Regular s' σ' ∧ s'.freeinode = s.freeinode ∧
      ∀ i, dataOf σ' i = dataOf σ i ++ if j = i then p else [] := by
  obtain ⟨n, hn, ht, hl⟩ := h.node j hj hj'
  have hplace : place j = j := place_of_lt (hj'.trans_le h.le)
  rcases h.sound.iappend hj hj' (hplace.symm ▸ hn) p with ⟨s₁, hrun₁, hs₁, hfree, -⟩ | ⟨hnone, -⟩
  swap
  · cases hrun.symm.trans hnone
  obtain rfl := Option.some.inj (hrun.symm.trans hrun₁)
  rw [hplace] at hs₁
  refine ⟨_, ⟨hs₁, hfree ▸ h.le, fun i hi hi' => ?_⟩, hfree, fun i => ?_⟩
  · rw [Function.update_apply]
    split_ifs with he
    · exact ⟨_, rfl, ht, hl⟩
    · exact h.node i hi (hfree ▸ hi')
  · rw [dataOf_update]
    by_cases he : i = j
    · subst he
      rw [if_pos rfl, if_pos rfl, dataOf, hn]
      rfl
    · rw [if_neg he, if_neg (Ne.symm he), List.append_nil]

/-- **The contents after the calls.** -/
lemma Regular.runCalls (h : Regular s σ) (hp : Proper s.freeinode cs)
    (hrun : runCalls cs s = some s') :
    ∃ σ', Regular s' σ' ∧ ∀ i, dataOf σ' i = dataOf σ i ++ appended i cs := by
  induction cs generalizing s σ with
  | nil =>
    cases hrun
    exact ⟨σ, h, fun i => (List.append_nil _).symm⟩
  | cons c cs ih =>
    obtain ⟨s₁, h₁, hrun₁⟩ := Option.bind_eq_some_iff.mp hrun
    cases c with
    | ialloc t =>
      obtain ⟨ht, hlt, hp⟩ := hp
      obtain ⟨s₂, σ₂, h₂, hreg, hfree, hdata⟩ := h.ialloc ht hlt
      obtain rfl := Option.some.inj (h₁.symm.trans h₂)
      obtain ⟨σ', hreg', hdata'⟩ := ih hreg (hfree ▸ hp) hrun₁
      exact ⟨σ', hreg', fun i => (hdata' i).trans (by rw [hdata]; rfl)⟩
    | iappend j p =>
      obtain ⟨hj, hj', hp⟩ := hp
      obtain ⟨σ₁, hreg, hfree, hdata⟩ := h.iappend hj hj' h₁
      obtain ⟨σ', hreg', hdata'⟩ := ih hreg (hfree ▸ hp) hrun₁
      refine ⟨σ', hreg', fun i => ?_⟩
      rw [hdata', hdata, List.append_assoc]
      rfl

end

/-! ## The kernel -/

/-- The kernel reads a file from beginning to end. -/
def readAll (inum : ℕ) : K (Option (List UInt8)) := do
  let ip ← iget ROOTDEV inum
  iread ip
  let i ← readInode ip
  readi ip 0 i.din.size

section

variable {s : State} {σ : Nodes} {ino : Inos} {i : ℕ} {D : (ℕ → Block) → Prop} {fm : FsMem}

lemma Holds.same_img (h : Holds s ino) {d : Dinode} (hd : ino i = some d) : d.Same s.view s.img :=
  fun _ ht => (view_of_ne (bmapstart_lt.trans_le (h.owns.range_addr hd ht).1).ne').symm

/-- **Reading a file of the image.** -/
lemma Holds.fwp_readAll (h : Holds s ino) (hi : 0 < i) (hi' : i < s.freeinode) (hlt : i < NSLOTS)
    (ht : (s.dinode i).type ≠ T_DEV) (hl : 1 ≤ (s.dinode i).nlink) (input : List UInt8) :
    fwp layout.ample D (readAll i) (fun r _ _ => r = some ((s.dinode i).content s.view))
      (.mounted s.img) (.mounted layout.sb input) := by
  have hd : ino i = some (s.dinode i) := by
    rw [← h.stored i hi hi', place_of_lt hlt]
  have hsame := h.same_img hd
  have hout : layout.ample.Out (layout.ample.iblock i) := by
    refine ⟨layout.ample.inodestart_le_iblock i, (iblock_le hlt.le).trans_lt (by decide)⟩
  refine fwp_iget (Or.inr ⟨0, Or.inr rfl⟩) fun ip fm hgot => ?_
  cases hgot with
  | hit hc => exact absurd hc.1 (lt_irrefl 0)
  | fresh _ _ =>
    have htype : (layout.ample.dinode (Vol.mounted s.img).blk i).type ≠ 0 := h.owns.type hd
    refine fwp_seq (fwp_iread rfl (i := i) ?_ hout ?_ rfl (Nat.zero_le _) htype) ?_
    · simp [FsMem.Caches]
    · simp
    rintro - v fm' ⟨rfl, rfl⟩
    refine fwp_readInode ?_
    have hdin : layout.ample.dinode (Vol.mounted s.img).blk i = s.dinode i := rfl
    simp only [FsMem.icache_setInode_self, hdin]
    have hfull : (s.dinode i).Full (Vol.mounted s.img).blk := hsame.full (h.full hd)
    have hsize : (s.dinode i).size < UINT := hfull.size_le.trans_lt (by norm_num)
    have hwithin : layout.ample.Within (Vol.mounted s.img).blk (s.dinode i) := fun t ht' => by
      change (s.dinode i).addr s.img t ≠ 0 at ht'
      change layout.ample.Out ((s.dinode i).addr s.img t)
      rw [hsame.addr] at ht' ⊢
      exact layout.ample.out_data (h.owns.range_addr hd ht').1 (h.owns.range_addr hd ht').2
    refine fwp_mono (fwp_readi (i := i) (d := s.dinode i) ?_ ?_ hwithin rfl (Nat.zero_le _) hfull ht
      hsize) ?_
    · simp [FsMem.Caches]
    · rw [FsMem.icache_setInode_self]
    rintro r v fm' ⟨rfl, rfl, rfl⟩
    have hgood : ¬ ((s.dinode i).size < 0 ∨ UINT ≤ 0 + (s.dinode i).size ∨
        (s.dinode i).nlink < 1) := by omega
    rw [if_neg hgood, List.drop_zero, ← hsame.content (h.full hd)]
    refine congrArg some (List.take_of_length_le ?_)
    exact Dinode.length_content.le

end

/-- **What `mkfs` appends the kernel reads.**  After any calls of `ialloc` and `iappend` on inodes
inside the inode blocks during which `mkfs` does not end, a kernel that boots on the image reads in
every inode the concatenation of what was appended to it. -/
theorem readAll_appended {cs : List Call} {s : State} (hp : Proper 1 cs)
    (hrun : runCalls cs begun = some s) {d : BufRef → Block} (hd : ∀ b, d ⟨ROOTDEV, b⟩ = s.img b)
    {i : ℕ} (hi : 0 < i) (hi' : i < s.freeinode) (input : List UInt8) :
    ∃ t, (mountFs >>= fun _ => readAll i).run kernelHandler (binit d true .zero, .boot input) =
      .ok (some (appended i cs)) t := by
  have hfree : begun.freeinode = 1 := by rw [begun_eq]; rfl
  obtain ⟨σ, hreg, hdata⟩ := Regular.begun.runCalls (hfree.symm ▸ hp) hrun
  obtain ⟨n, hn, ht, hl⟩ := hreg.node i hi hi'
  have hlt : i < NSLOTS := hi'.trans_le hreg.le
  obtain ⟨ino, hh, rfl⟩ := hreg.sound
  have hstored : ino i = some (s.dinode i) := by
    rw [← hh.stored i hi hi', place_of_lt hlt]
  simp only [hstored, Option.map_some, Option.some.injEq] at hn
  subst hn
  have hcontent : (s.dinode i).content s.view = appended i cs := by
    have hi := hdata i
    simpa [dataOf, hstored, Dinode.node] using hi
  have hdev : (s.dinode i).type ≠ T_DEV := by
    intro hdev
    rcases ht with ht | ht <;> exact absurd (hdev.symm.trans ht) (by decide)
  obtain ⟨m, blk, hmount, hon, rfl⟩ :=
    mountFs_kernel (image_of_img (P := (· = s.img)) hh.super hh.log rfl hd) input
  obtain ⟨r, m', v', fm', hread, -, rfl⟩ :=
    fwp_returns (hh.fwp_readAll hi hi' hlt hdev hl.ge input) (Option.some_ne_none _) hon
  exact ⟨(m', fm'), by rw [Prog.run_bind_ok _ hmount, hread, hcontent]⟩

/-- Two files, with appends that take turns. -/
def twoFiles : List Call :=
  [.ialloc T_FILE, .ialloc T_FILE, .iappend 1 [104], .iappend 2 [33], .iappend 1 [105]]

/-- The kernel reads `hi` in the first of them. -/
theorem readAll_twoFiles : ∃ s, runCalls twoFiles begun = some s ∧
    ∃ t, (mountFs >>= fun _ => readAll 1).run kernelHandler
      (binit (fun k => s.img k.blockno) true .zero, .boot []) = .ok (some [104, 105]) t := by
  have hsome : (runCalls twoFiles begun).isSome = true := by decide +kernel
  have hfree : ∀ s ∈ runCalls twoFiles begun, 1 < s.freeinode := by decide +kernel
  obtain ⟨s, hs⟩ := Option.isSome_iff_exists.mp hsome
  have hproper : Proper 1 twoFiles := by
    simp only [twoFiles, Proper]
    decide
  exact ⟨s, hs, readAll_appended hproper hs (fun _ => rfl) one_pos (hfree s hs) []⟩

end Xv6.Mkfs
