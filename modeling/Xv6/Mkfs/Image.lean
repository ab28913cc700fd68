import Xv6.Mkfs.Append
import Xv6.Fs.Nodes

/-!
# The image

`Sound s σ` says that the image of `mkfs` holds the nodes `σ`: its blocks and its inodes
agree as they do on a volume of the kernel, except that the free map has not been written yet.
In these terms `ialloc` adds a node without contents, and `iappend` puts bytes at the end of the
contents of one node and leaves the others alone.

The inode blocks have room for fewer inodes than the image has directory entries for, and nobody
checks.  The first inode behind the inode blocks is in the block of the free map, where it stays
until `balloc` overwrites it; it is followed here too, in the place of the inode number 0
(`place`).
-/

namespace Xv6.Mkfs

open Lib

/-! ## Places -/

/-- The dinode in the place where the kernel looks for it. -/
def State.dinode (s : State) (i : ℕ) : Dinode := dinodeAt (s.img (IBLOCK i sb)) (i % IPB)

/-- The place of an inode among those of `area`. -/
def place (i : ℕ) : ℕ := i % NSLOTS

section

variable {i j : ℕ}

lemma place_of_lt (hi : i < NSLOTS) : place i = i := Nat.mod_eq_of_lt hi

lemma place_inj (hi : 0 < i) (hi' : i ≤ NSLOTS) (hj : 0 < j) (hj' : j ≤ NSLOTS)
    (h : place i = place j) : i = j := by
  simp only [place, NSLOTS, ninodeblocks, NINODES, IPB, BSIZE, DINODESIZE] at *
  omega

lemma iblock_le (hi : i ≤ NSLOTS) : IBLOCK i sb ≤ sb.bmapstart := by
  simp only [IBLOCK, sb, nlog, LOGSIZE, MAXOPBLOCKS, NSLOTS, ninodeblocks, NINODES, IPB, BSIZE,
    DINODESIZE] at *
  omega

lemma inodestart_le (i : ℕ) : sb.inodestart ≤ IBLOCK i sb := Nat.le_add_left _ _

lemma eq_of_iblock_eq (hb : IBLOCK i sb = IBLOCK j sb) (hs : i % IPB = j % IPB) : i = j := by
  simp only [IBLOCK, IPB, BSIZE, DINODESIZE] at *
  omega

end

/-! ## What the image holds -/

/-- The files and their blocks.  Behind the end of a file its last block holds zeros. -/
structure Files (s : State) (ino : Inos) : Prop where
  ready : Ready s
  owns : area.Owns s.view ino ∅
  full : ∀ {i d}, ino i = some d → d.Full s.view
  clear : ∀ {i d}, ino i = some d → ∀ j, d.size ≤ j → j < nblocks d.size * BSIZE →
    d.byteAt s.view j = 0

/-- The files, and the inodes in their places. -/
structure Holds (s : State) (ino : Inos) : Prop extends Files s ino where
  super : s.img 1 = sbBlock sb
  log : s.img sb.logstart = Bytes.zero
  pos : 0 < s.freeinode
  le : s.freeinode ≤ NSLOTS + 1
  stored : ∀ i, 0 < i → i < s.freeinode → ino (place i) = some (s.dinode i)
  unused : ∀ i, s.freeinode ≤ i → i ≤ NSLOTS → ino (place i) = none
  blank : ∀ i, i = 0 ∨ s.freeinode ≤ i → i < NSLOTS → (s.dinode i).type = 0
  written : ∀ i, 0 < i → i < s.freeinode → s.written i = some (s.dinode i)

/-- The image holds the nodes. -/
def Sound (s : State) (σ : Nodes) : Prop :=
  ∃ ino, Holds s ino ∧ σ = fun i => (ino i).map (Dinode.node s.view)

section

variable {s s' : State} {ino : Inos} {σ : Nodes} {i : ℕ} {d : Dinode} {n : Node}

lemma view_congr (hb : s'.freeblock = s.freeblock) (himg : ∀ b, nmeta ≤ b → s'.img b = s.img b)
    {b : ℕ} (hlow : area.bmapblock ≤ b) : s'.view b = s.view b := by
  rcases hlow.eq_or_lt with rfl | hlt
  · rw [view_bmapstart, view_bmapstart, hb]
  · rw [view_of_ne hlt.ne', view_of_ne hlt.ne', himg b hlt]

lemma Files.of_data (h : Files s ino) (hr : Ready s') (hb : s'.freeblock = s.freeblock)
    (himg : ∀ b, nmeta ≤ b → s'.img b = s.img b) : Files s' ino := by
  have hview : ∀ b, area.bmapblock ≤ b → s'.view b = s.view b := fun b => view_congr hb himg
  refine ⟨hr, h.owns.of_data hview, fun {i d} hi => ?_, fun {i d} hi j hj hj' => ?_⟩
  · exact (h.owns.same_of_data hi hview).full (h.full hi)
  · rw [(h.owns.same_of_data hi hview).byteAt (h.full hi) hj']
    exact h.clear hi j hj hj'

/-- What `winode` does. -/
structure Puts (i : ℕ) (d : Dinode) (s s' : State) : Prop where
  ready : Ready s'
  freeinode : s'.freeinode = s.freeinode
  freeblock : s'.freeblock = s.freeblock
  written : s'.written = Function.update s.written i (some d)
  low : ∀ b < sb.inodestart, s'.img b = s.img b
  data : ∀ b, nmeta ≤ b → s'.img b = s.img b
  dinode : ∀ j, s'.dinode j = if j = i then d else s.dinode j

lemma winode_spec (hr : Ready s) (hi : i ≤ NSLOTS) (hd : d.Fits) :
    ∃ s', winode i d s = some s' ∧ Puts i d s s' := by
  have hle := iblock_le hi
  have hlt : IBLOCK i sb < nmeta := hle.trans_lt bmapstart_lt
  have hsec : sector (IBLOCK i sb) = IBLOCK i sb :=
    sector_of_le (hlt.le.trans (by norm_num))
  have hne : ∀ b, b ≠ IBLOCK i sb →
      (wsect (IBLOCK i sb) (putDinode (i % IPB) d (s.img (IBLOCK i sb))) s).img b = s.img b :=
    fun b hb => by
      rw [wsect, hsec]
      exact Function.update_of_ne hb _ _
  refine ⟨{ wsect (IBLOCK i sb) (putDinode (i % IPB) d (s.img (IBLOCK i sb))) s with
    written := Function.update s.written i (some d) }, ?_, ?_⟩
  · rw [winode, rsect_of_lt hr (hlt.trans (by norm_num))]
    rfl
  have hr' : Ready (wsect (IBLOCK i sb) (putDinode (i % IPB) d (s.img (IBLOCK i sb))) s) :=
    hr.wsect (hlt.trans_le hr.low)
  refine ⟨⟨hr'.len, hr'.low, hr'.high, hr'.fresh⟩, rfl, rfl, rfl, fun b hb => hne b ?_,
    fun b hb => hne b (hlt.trans_le hb).ne', fun j => ?_⟩
  · exact (hb.trans_le (inodestart_le i)).ne
  · rw [State.dinode, State.dinode]
    by_cases hblock : IBLOCK j sb = IBLOCK i sb
    · have himg : (wsect (IBLOCK i sb) (putDinode (i % IPB) d (s.img (IBLOCK i sb))) s).img
          (IBLOCK j sb) = putDinode (i % IPB) d (s.img (IBLOCK i sb)) := by
        rw [wsect, hsec, hblock]
        exact Function.update_self _ _ _
      show dinodeAt ((wsect _ _ s).img (IBLOCK j sb)) (j % IPB) = _
      rw [himg]
      split_ifs with hji
      · rw [hji, dinodeAt_putDinode_same _ hd (Nat.mod_lt _ (by norm_num))]
      · rw [dinodeAt_putDinode_of_ne _ _ fun hs => hji (eq_of_iblock_eq hblock hs), hblock]
    · show dinodeAt ((wsect _ _ s).img (IBLOCK j sb)) (j % IPB) = _
      rw [hne _ hblock, if_neg fun hji => hblock (by rw [hji])]

lemma Holds.update (h : Holds s ino) (hi : 0 < i) (hi' : i ≤ s.freeinode) (hle : i ≤ NSLOTS)
    (hf : Files s' (Function.update ino (place i) (some d)))
    (hfree : s'.freeinode = max s.freeinode (i + 1))
    (hlow : ∀ b < sb.inodestart, s'.img b = s.img b)
    (hd : ∀ j ≤ NSLOTS, s'.dinode j = if j = i then d else s.dinode j)
    (hw : s'.written = Function.update s.written i (some d)) :
    Holds s' (Function.update ino (place i) (some d)) := by
  have hmax := h.le
  have hother : ∀ j, 0 < j → j ≤ NSLOTS → j ≠ i → place j ≠ place i := fun j hj hj' hne he =>
    hne (place_inj hj hj' hi hle he)
  refine { hf with
    super := (hlow 1 (by decide)).trans h.super
    log := (hlow _ (by decide)).trans h.log
    pos := by omega
    le := by omega
    stored := fun j hj hj' => ?_
    unused := fun j hj hj' => ?_
    blank := fun j hj hj' => ?_
    written := fun j hj hj' => ?_ }
  · rw [hd j (by omega)]
    split_ifs with hji
    · rw [hji, Function.update_self]
    · rw [Function.update_of_ne (hother j hj (by omega) hji)]
      exact h.stored j hj (by omega)
  · rw [Function.update_of_ne (hother j (by omega) hj' (by omega))]
    exact h.unused j (by omega) hj'
  · rw [hd j hj'.le, if_neg (by omega)]
    exact h.blank j (by omega) hj'
  · rw [hd j (by omega), hw]
    split_ifs with hji
    · rw [hji, Function.update_self]
    · rw [Function.update_of_ne hji]
      exact h.written j hj (by omega)

lemma Files.node_update (h : Files s ino) {k : ℕ} (hn : d.node s'.view = n)
    (hsame : ∀ j d₁, j ≠ k → ino j = some d₁ → d₁.Same s.view s'.view) :
    Function.update (fun j => (ino j).map (Dinode.node s.view)) k (some n) =
      fun j => (Function.update ino k (some d) j).map (Dinode.node s'.view) := by
  funext j
  by_cases hj : j = k
  · rw [hj, Function.update_self, Function.update_self, ← hn]
    rfl
  · rw [Function.update_of_ne hj, Function.update_of_ne hj]
    cases hd : ino j with
    | none => rfl
    | some d₁ => simp only [Option.map_some, Dinode.node, (hsame j d₁ hj hd).content (h.full hd)]

/-! ## `ialloc` -/

/-- **`ialloc`** takes the next inode. -/
lemma Sound.ialloc {t : ℤ} (h : Sound s σ) (hlt : s.freeinode ≤ NSLOTS) (ht : t ≠ 0)
    (hs : Bytes.IsShort t) :
    ∃ s', ialloc t s = some (s.freeinode, s') ∧
      Sound s' (Function.update σ (place s.freeinode) (some ⟨t, 0, 0, 1, []⟩)) ∧
      s'.freeinode = s.freeinode + 1 ∧ s'.freeblock = s.freeblock := by
  obtain ⟨ino, h, rfl⟩ := h
  have hfits : ({ Dinode.zero with type := t, nlink := 1 } : Dinode).Fits := by
    have hz := Dinode.zero_fits
    exact ⟨hs, hz.major, hz.minor, by norm_num [Bytes.IsShort], hz.size, hz.addrs⟩
  have hnone : ino (place s.freeinode) = none := h.unused _ le_rfl hlt
  have haddr : ∀ (blk : ℕ → Block) u,
      ({ Dinode.zero with type := t, nlink := 1 } : Dinode).addr blk u = 0 := fun blk u => by
    cases u with
    | ind => rfl
    | data k => simp [Dinode.addr, Dinode.indirect, Dinode.zero]
  -- the files with the new one, before its dinode is written
  have hfiles : Files { s with freeinode := s.freeinode + 1 }
      (Function.update ino (place s.freeinode)
        (some { Dinode.zero with type := t, nlink := 1 })) := by
    refine ⟨⟨h.ready.len, h.ready.low, h.ready.high, h.ready.fresh⟩,
      h.owns.alloc hnone (Nat.mod_lt _ (by norm_num)) ht hfits (haddr _), fun {j d} hj => ?_,
      fun {j d} hj => ?_⟩
    all_goals by_cases hji : j = place s.freeinode
    · rw [hji, Function.update_self] at hj
      cases hj
      exact Dinode.full_of_size_eq_zero rfl (haddr _)
    · rw [Function.update_of_ne hji] at hj
      exact h.full hj
    · rw [hji, Function.update_self] at hj
      cases hj
      rintro k - hk
      simp [Dinode.zero] at hk
    · rw [Function.update_of_ne hji] at hj
      exact h.clear hj
  obtain ⟨s', hw, hp⟩ := winode_spec hfiles.ready hlt hfits
  have hfiles' := hfiles.of_data hp.ready hp.freeblock hp.data
  have hview : ∀ b, area.bmapblock ≤ b → s'.view b = s.view b := fun b =>
    view_congr hp.freeblock hp.data
  refine ⟨s', ?_, ⟨_, h.update h.pos le_rfl hlt hfiles' ?_ hp.low (fun j _ => hp.dinode j)
    hp.written, ?_⟩, hp.freeinode, hp.freeblock⟩
  · rw [Mkfs.ialloc]
    simp only [hw]
    rfl
  · rw [hp.freeinode]
    exact (max_eq_right (Nat.le_succ _)).symm
  · exact h.node_update rfl fun j d₁ _ hd => h.owns.same_of_data hd hview

/-! ## `iappend` -/

lemma img_eq_of_low {v v' : Vol} {k : ℕ} (hl : area.Local k ino v v') (hv : v.blk = s.view)
    (hv' : v'.blk = s'.view) (hb : s'.img sb.bmapstart = s.img sb.bmapstart) {b : ℕ}
    (hlt : b < nmeta) : s'.img b = s.img b := by
  by_cases he : b = sb.bmapstart
  · rw [he, hb]
  · have := hl.low b hlt he
    rwa [hv, hv', view_of_ne he, view_of_ne he] at this

/-- **`iappend`** puts bytes at the end of a file, or ends `mkfs` because there is no room. -/
lemma Sound.iappend (h : Sound s σ) (hi : 0 < i) (hi' : i < s.freeinode)
    (hn : σ (place i) = some n) (p : List UInt8) :
    (∃ s', iappend i p s = some s' ∧
        Sound s' (Function.update σ (place i) (some { n with data := n.data ++ p })) ∧
        s'.freeinode = s.freeinode ∧ s'.freeblock + occupied (nblocks n.data.length) =
          s.freeblock + occupied (nblocks (n.data.length + p.length))) ∨
      (iappend i p s = none ∧ ¬ Fits s (nblocks n.data.length) (n.data.length + p.length)) := by
  obtain ⟨ino, h, rfl⟩ := h
  have hle : i ≤ NSLOTS := Nat.lt_succ_iff.mp (hi'.trans_le h.le)
  have hd : ino (place i) = some (s.dinode i) := h.stored i hi hi'
  obtain rfl : (s.dinode i).node s.view = n := by
    simp only [hd, Option.map_some] at hn
    exact Option.some.inj hn
  have hread : rinode i s = some (s.dinode i) := by
    rw [rinode, rsect_of_lt h.ready ((iblock_le hle).trans_lt (by decide))]
    rfl
  generalize s.dinode i = d at hd hread ⊢
  simp only [Dinode.node, Dinode.length_content]
  rcases appendLoop_spec (v := ⟨s.view, s.view, ∅, ∅, []⟩) h.ready rfl h.owns hd (h.full hd)
    (nblocks_le.mp le_rfl) (le_refl p.length) with
    ⟨d₁, s₁, v₁, hloop, hr₁, hbmap, hv₁, hw⟩ | ⟨hloop, hfits⟩
  swap
  · refine Or.inr ⟨?_, hfits⟩
    rw [Mkfs.iappend, hread]
    simp only [Option.bind_eq_bind, Option.bind_some, hloop]
    rfl
  refine Or.inl ?_
  have hkeep := keeps_appendLoop hloop
  obtain ⟨a, rfl⟩ := hw.fields
  have hupd : Function.update ino (place i) (some { d with addrs := a }) (place i) =
      some { d with addrs := a } := Function.update_self _ _ _
  have hmono : nblocks d.size ≤ nblocks (d.size + p.length) := nblocks_mono (Nat.le_add_right _ _)
  have hfilled := hw.filled
  have hfree := hw.free
  rw [max_eq_right hmono] at hfilled hfree
  have hfits : ({ d with addrs := a, size := d.size + p.length } : Dinode).Fits := by
    have hf := hw.owns.fits hupd
    exact ⟨hf.type, hf.major, hf.minor, hf.nlink,
      (nblocks_le.mp hfilled.le).trans_lt (by norm_num), hf.addrs⟩
  have haddr : ∀ t, ({ d with addrs := a, size := d.size + p.length } : Dinode).addr v₁.blk t =
      ({ d with addrs := a } : Dinode).addr v₁.blk t := Dinode.addr_congr rfl fun _ => rfl
  have hbyte : ∀ j, ({ d with addrs := a, size := d.size + p.length } : Dinode).byteAt v₁.blk j =
      ({ d with addrs := a } : Dinode).byteAt v₁.blk j := fun j => by
    rw [Dinode.byteAt, haddr, Dinode.byteAt]
  have hsame := hw.isLocal.same
  have hcontent : ({ d with addrs := a, size := d.size + p.length } : Dinode).content v₁.blk =
      d.content s.view ++ p := by
    have hlen : (d.content s.view).length = d.size := Dinode.length_content
    rw [← overlay_length, hlen]
    exact Dinode.content_eq_overlay le_rfl (max_eq_right (Nat.le_add_right _ _)).symm
      fun j hj => (hbyte j).trans (hw.bytes j (Or.inr hj))
  -- the files, before the dinode is written
  have hfiles : Files s₁ (Function.update ino (place i)
      (some { d with addrs := a, size := d.size + p.length })) := by
    refine ⟨hr₁, ?_, fun {j d₁} hj => ?_, fun {j d₁} hj k hk hk' => ?_⟩
    · have htype : ({ d with addrs := a, size := d.size + p.length } : Dinode).type ≠ 0 :=
        show d.type ≠ 0 from h.owns.type hd
      have howns := hw.owns.update hupd htype hfits rfl
      rwa [Function.update_idem, hv₁] at howns
    all_goals by_cases hji : j = place i
    · rw [hji, Function.update_self] at hj
      cases hj
      rw [← hv₁]
      exact hfilled.congr haddr
    · rw [Function.update_of_ne hji] at hj
      rw [← hv₁]
      exact (hsame j d₁ hji hj).full (h.full hj)
    · rw [hji, Function.update_self] at hj
      cases hj
      rw [← hv₁, hbyte]
      rcases Nat.lt_or_ge k (nblocks d.size * BSIZE) with hlt | hge
      · rw [hw.bytes k (Or.inl hlt), if_neg (fun hin => Nat.not_lt.mpr hk hin.2)]
        exact h.clear hd k ((Nat.le_add_right _ _).trans hk) hlt
      · exact hw.zeros k hge hk hk'
    · rw [Function.update_of_ne hji] at hj
      rw [← hv₁, (hsame j d₁ hji hj).byteAt (h.full hj) hk']
      exact h.clear hj k hk hk'
  obtain ⟨s', hwin, hp⟩ := winode_spec hr₁ hle hfits
  have hview : ∀ b, area.bmapblock ≤ b → s'.view b = s₁.view b := fun b =>
    view_congr hp.freeblock hp.data
  have hlow : ∀ b < nmeta, s₁.img b = s.img b := fun b =>
    img_eq_of_low hw.isLocal rfl hv₁ hbmap
  refine ⟨s', ?_, ⟨_, h.update hi hi'.le hle (hfiles.of_data hp.ready hp.freeblock hp.data) ?_
    (fun b hb => ?_) (fun j hj => ?_) ?_, ?_⟩, hp.freeinode.trans hkeep.freeinode, ?_⟩
  · rw [Mkfs.iappend, hread]
    simp only [Option.bind_eq_bind, Option.bind_some, hloop]
    exact hwin
  · rw [hp.freeinode, hkeep.freeinode]
    exact (max_eq_left hi').symm
  · exact (hp.low b hb).trans (hlow b (hb.trans (by decide)))
  · rw [hp.dinode, State.dinode, hlow _ ((iblock_le hj).trans_lt bmapstart_lt), State.dinode]
  · rw [hp.written, hkeep.written]
  · refine h.node_update ?_ fun j d₁ hj hd₁ => ?_
    · have hs := hfiles.owns.same_of_data (Function.update_self _ _ _) hview
      rw [Dinode.node, hs.content (hfiles.full (Function.update_self _ _ _)), ← hv₁, hcontent]
    · have hs := hsame j d₁ hj hd₁
      rw [hv₁] at hs
      exact hs.trans (hfiles.owns.same_of_data (by rwa [Function.update_of_ne hj]) hview)
  · have h₁ := h.ready.high
    have h₂ := hr₁.high
    rw [hv₁, free_view, free_view] at hfree
    rw [hp.freeblock]
    omega

end

end Xv6.Mkfs
