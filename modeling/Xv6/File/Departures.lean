import Xv6.File.Invariants

/-!
# Where the invariants depend on one another

Two states in which one invariant of the file system holds alone and is lost.  Neither is reached
from a consistent one.

* A file with a hole agrees with the free map, and yet reading it allocates a block that no inode on
  the drive refers to (`hole_leaks_block`).  `bmap` allocates for a read as it does for a write, and
  `fileread` does not write the inode back.
* Two entries of the inode cache for one inode are both up to date until one of them is released for
  the last time (`twin_entry_outdated`): the inode has no links and is freed, while the other entry
  goes on showing it.

They say why `Xv6.File.Invariants` has to prove its invariants together: that marks and addresses
agree is kept only where files have no holes, and that the inode cache agrees with the drive only
where every inode has one entry.
-/

namespace Xv6

open Lib

namespace Mkfs

/-- The root directory of the image without files takes one block, the others are free. -/
lemma free_eq {blk : ℕ → Block} {ino : Inos} (h : layout.Owns blk ino ∅)
    (hfull : ∀ i d, ino i = some d → d.Full blk)
    (hnodes : (fun i => (ino i).map (Dinode.node blk)) = emptyNodes) : layout.free blk = 940 := by
  have hcount := h.free_add_taken fun {i d} hi => hfull i d hi
  have hsizes : (fun i => (ino i).map Dinode.size) =
      Nodes.len fun i => (ino i).map (Dinode.node blk) := by
    funext i
    cases hi : ino i with
    | none => simp [Nodes.len, hi]
    | some d => simp [Nodes.len, hi, Dinode.node]
  rw [hsizes, hnodes, taken_emptyNodes] at hcount
  have hsize : layout.sb.size - layout.datastart = 941 := by decide
  omega

lemma exists_withInode {d : Dinode} (ht : d.type ≠ 0) (hfits : d.Fits)
    (haddr : ∀ blk s, d.addr blk s = 0) : ∃ blk ino m, ino 2 = some d ∧ layout.inos blk = ino ∧
      layout.Owns blk ino ∅ ∧ (∀ i d', i ≠ 2 → ino i = some d' → d'.Full blk) ∧
      layout.free blk = 940 ∧ layout.On (.mounted blk) m := by
  obtain ⟨st, hst⟩ := exists_main_nil
  obtain ⟨⟨ino, howns, hfull, hlive, hnodes⟩, hsuper, hlog⟩ := onDisk_main_nil hst
  have hnone : ino 2 = none := Option.map_eq_none_iff.mp (congrFun hnodes 2)
  have hlt : 2 < layout.sb.ninodes := by decide
  have hlow : layout.iblock 2 < layout.datastart :=
    (layout.iblock_lt hlt).trans (Layout.Owns.bmapblock_lt layout)
  set blk := Function.update st.img (layout.iblock 2) (layout.putDinode st.img 2 d) with hblk
  have howns' : layout.Owns blk (Function.update ino 2 (some d)) ∅ :=
    (howns.put (layout.iblock_lt hlt).ne (fun _ => howns.not_own_of_lt hlow _) _).alloc hnone hlt ht
      hfits (haddr _)
  have hinos : layout.inos blk = Function.update ino 2 (some d) := by
    funext i
    unfold Layout.inos
    split_ifs with hi
    · rw [hblk, layout.dinode_putDinode hfits]
      by_cases hi2 : i = 2
      · rw [if_pos hi2, hi2, Function.update_self]
        exact if_neg ht
      · rw [if_neg hi2, Function.update_of_ne hi2]
        exact hlive i hi
    · cases ho : Function.update ino 2 (some d) i with
      | none => rfl
      | some d' => exact absurd (howns'.lt ho) hi
  have hsuper' : blk 1 = sbBlock sb := by
    rw [hblk, Function.update_of_ne (by decide), hsuper]
  have hlog' : blk sb.logstart = Bytes.zero := by
    rw [hblk, Function.update_of_ne (by decide), hlog]
  obtain ⟨m, blk', -, hon, hsame⟩ := mountFs_kernel
    (image_of_img (P := (· = blk)) (d := fun k => blk k.blockno) hsuper' hlog' rfl fun _ => rfl) []
  rw [show blk' = blk from hsame] at hon
  refine ⟨blk, _, m, Function.update_self .., hinos, howns', fun i d' hi hd' => ?_, ?_, hon⟩
  · rw [Function.update_of_ne hi] at hd'
    exact (howns.same_of_lt hd' hlow _).full (hfull i d' hd')
  · rw [Layout.free, hblk, Function.update_of_ne (layout.iblock_lt hlt).ne']
    exact free_eq howns hfull hnodes

/-! ## A hole -/

/-- A file of one byte that has no block. -/
def holed : Dinode := { Dinode.new T_FILE with nlink := 1, size := 1 }

lemma addr_holed (blk : ℕ → Block) (s : Slot) : holed.addr blk s = 0 :=
  Dinode.addr_emptied (d := holed) blk s

lemma fits_holed : holed.Fits :=
  { Dinode.new_fits (show Bytes.IsShort T_FILE by norm_num [Bytes.IsShort]) with
    nlink := by norm_num [holed, Bytes.IsShort]
    size := by norm_num [holed] }

def holedMem (ip : Fin NINODE) (f : Fin NFILE) : FsMem :=
  ((FsMem.mounted sb []).setInode ip ⟨ROOTDEV, 2, 1, true, holed⟩).setFile f
    ⟨.inode, 1, true, false, ip, 0⟩

section

variable {ip : Fin NINODE} {f : Fin NFILE} {blk : ℕ → Block} {ino : Inos}

lemma holedMem_ftable : (holedMem ip f).ftable f = ⟨.inode, 1, true, false, ip, 0⟩ :=
  Function.update_self ..

lemma holedMem_icache : (holedMem ip f).icache ip = ⟨ROOTDEV, 2, 1, true, holed⟩ :=
  Function.update_self ..

/-- A block has been added to the inode in memory, and the file is still open. -/
def Leaks (ino : Inos) (blk : ℕ → Block) (ip : Fin NINODE) (f : Fin NFILE) (v : Vol) (fm : FsMem) :
    Prop :=
  (∃ r d', r ≠ 0 ∧ layout.ample.Mapped 2 0 r ino (.mounted blk) v holed d') ∧
    (fm.icache ip).din.nlink = 1 ∧ ∃ off, fm.ftable f = ⟨.inode, 1, true, false, ip, off⟩

lemma fwp_fileread_holed (hi : ino 2 = some holed) (howns : layout.Owns blk ino ∅)
    (hfree : 0 < layout.free blk) :
    fwp layout.ample (fun _ => True) (fileread f 1) (fun _ v' fm' => Leaks ino blk ip f v' fm')
      (.mounted blk) (holedMem ip f) := by
  have hcaches : (holedMem ip f).Caches ip 2 := by
    rw [FsMem.Caches, holedMem_icache]
    exact ⟨one_pos, rfl, rfl⟩
  refine fwp_readFile ?_
  rw [holedMem_ftable]
  dsimp only
  rw [if_neg (by decide), if_pos rfl]
  refine fwp_seq (fwp_iread_valid (by rw [holedMem_icache]; exact one_pos)
    (by rw [holedMem_icache])) ?_
  rintro - v fm ⟨rfl, rfl⟩
  refine fwp_readFile ?_
  rw [holedMem_ftable]
  dsimp only
  refine fwp_seq (M := fun _ v' fm' => Leaks ino blk ip f v' fm') ?_ ?_
  · refine fwp_readInode ?_
    rw [holedMem_icache]
    dsimp only
    rw [if_neg (by decide), if_neg (by decide), if_neg (by decide)]
    refine fwp_seq (M := fun _ v' fm' => Leaks ino blk ip f v' fm') ?_ fun _ _ _ h => fwp_ret h
    rw [readLoop, if_neg one_ne_zero]
    -- `bmap` finds no address and allocates a block, although this is a read
    refine fwp_seq (fwp_bmap_direct (L := layout.ample) (d := holed) rfl hcaches
      (by rw [holedMem_icache]) hi { howns with } rfl (Nat.zero_le 1) (addr_holed _ _) ?_
      (by decide)
      (Or.inr hfree)) ?_
    · intro n hn
      obtain rfl := Option.some.inj hn
      show ((∅ ∪ {layout.bmapblock} : Finset ℕ).card + 2 ≤ MAXOPBLOCKS)
      decide
    rintro r v' fm' ⟨hr, d', hmap, rfl⟩
    have hrange : layout.Out r := by
      have hown : Own v'.blk (Function.update ino 2 (some d')) r (2, .data 0) :=
        own_update_some.mpr ⟨hr, hmap.addr_self⟩
      exact layout.out_data (hmap.owns.range hown).1 (hmap.owns.range hown).2
    refine fwp_readInode ?_
    rw [FsMem.icache_setInode_self, holedMem_icache]
    refine fwp_bread hrange (by rw [hmap.isLocal.held]; exact Nat.zero_le 2) ?_
    refine fwp_look hrange (fwp_release hmap.isLocal.pend (fwp_ret ⟨⟨r, d', hr, hmap⟩, ?_, 0, ?_⟩))
    · obtain ⟨a, rfl⟩ := hmap.fields
      rw [FsMem.icache_setInode_self]
      rfl
    · exact holedMem_ftable
  · rintro got v' fm' h
    cases got with
    | none => exact fwp_ret h
    | some got =>
      dsimp only
      obtain ⟨hmap, hnlink, off, hf⟩ := h
      split_ifs
      · refine fwp_setFile (fwp_ret ⟨hmap, hnlink, (off + got.length) % UINT, ?_⟩)
        rw [hf]
        exact Function.update_self ..
      · exact fwp_ret ⟨hmap, hnlink, off, hf⟩

lemma fwp_fileclose_holed {v : Vol} {fm : FsMem} (h : Leaks ino blk ip f v fm) :
    fwp layout.ample (fun _ => True) (fileclose f) (fun _ v' _ => v'.blk = v.blk) v fm := by
  obtain ⟨⟨r, d', -, hmap⟩, hnlink, off, hf⟩ := h
  refine fwp_mem (e := .filedrop f) (r := some ⟨.inode, 0, true, false, ip, off⟩)
    (m := fm.setFile f ⟨.none, 0, true, false, ip, off⟩) ?_ ?_
  · simp only [memHandler, hf]
    rfl
  show fwp _ _ (iput ip >>= fun _ => endOp) _ _ _
  refine fwp_seq (fwp_iput_drop fun hfree => ?_) ?_
  · have hz : (fm.icache ip).din.nlink = 0 := hfree.2.1
    rw [hnlink] at hz
    cases hz
  rintro - v' fm' ⟨rfl, rfl⟩
  exact fwp_last (fwp_endOp hmap.isLocal.held hmap.isLocal.pend trivial (fwp_ret rfl))

lemma Leaks.not_owned {v : Vol} {fm : FsMem} {blk' : ℕ → Block} (h : Leaks ino blk ip f v fm)
    (hinos : layout.inos blk = ino) (hi : ino 2 = some holed)
    (hblk : ∀ b, layout.Out b → blk' b = v.blk b) : ¬ layout.Owned blk' := by
  intro howned
  obtain ⟨⟨r, d', hr, hmap⟩, -⟩ := h
  have hown : Own v.blk (Function.update ino 2 (some d')) r (2, .data 0) :=
    own_update_some.mpr ⟨hr, hmap.addr_self⟩
  obtain ⟨hlo, hlt⟩ := hmap.owns.range hown
  have hinos' : layout.inos blk' = ino := by
    rw [layout.inos_congr hblk, ← hinos]
    funext j
    unfold Layout.inos
    split_ifs with hj
    · have hlow : layout.iblock j < layout.datastart :=
        (layout.iblock_lt hj).trans (Layout.Owns.bmapblock_lt layout)
      rw [layout.dinode_congr (hmap.isLocal.low _ hlow (layout.iblock_lt hj).ne)]
      rfl
    · rfl
  have hbit : bit (blk' layout.bmapblock) r = true := by
    rw [hblk _ layout.out_bmapblock]
    exact (hmap.owns.marked.mark_iff hlt).mpr (Or.inr (Or.inr ⟨_, hown⟩))
  rcases (howned.marked r hlt).mp hbit with hmeta | ⟨⟨j, s⟩, ⟨-, d₁, hd₁, haddr⟩, -⟩
  · exact absurd hmeta (Nat.not_lt.mpr hlo)
  rw [hinos'] at hd₁
  by_cases hj : j = 2
  · subst hj
    obtain rfl := Option.some.inj (hi.symm.trans hd₁)
    exact hr (haddr.symm.trans (addr_holed _ _))
  · have hd₁' : Function.update ino 2 (some d') j = some d₁ :=
      (Function.update_of_ne hj _ _).trans hd₁
    have hsame : d₁.addr blk' s = d₁.addr v.blk s :=
      Dinode.addr_congr rfl (fun hne => hblk _ (hmap.owns.within hd₁' .ind hne)) s
    exact hj (congrArg Prod.fst (hmap.owns.marked.unique
      (show Own v.blk _ r (j, s) from ⟨hr, d₁, hd₁', hsame.symm.trans haddr⟩) hown))

end

end Mkfs

/-- **A hole costs a block**: the free map agrees with the inodes, and after the file has been read
and closed it does not. -/
theorem hole_leaks_block : ∃ w w' : World, Mkfs.layout.Owned w.blk ∧ w.Steps World.anyCall w' ∧
    ¬ Mkfs.layout.Owned w'.blk := by
  obtain ⟨blk, ino, m, hi, hinos, howns, -, hfree, hon⟩ :=
    Mkfs.exists_withInode (d := Mkfs.holed) (by decide) Mkfs.fits_holed Mkfs.addr_holed
  let f : Fin NFILE := ⟨0, by decide⟩
  let ip : Fin NINODE := ⟨0, by decide⟩
  let S : Session := { Session.empty with kernel := [f] }
  have hread : fwp Mkfs.layout.ample (fun _ => True) ((FsCall.fileread f 1).code S)
      (fun S' v' fm' => S' = S ∧ Mkfs.Leaks ino blk ip f v' fm') (.mounted blk)
      (Mkfs.holedMem ip f) :=
    fwp_seq (Mkfs.fwp_fileread_holed hi howns (hfree ▸ by decide)) fun _ _ _ h => fwp_ret ⟨rfl, h⟩
  obtain ⟨S₁, m₁, v₁, fm₁, hrun₁, hon₁, hS, hleaks⟩ :=
    fwp_returns hread (Option.some_ne_none _) hon
  subst hS
  have hclose : fwp Mkfs.layout.ample (fun _ => True) ((FsCall.fileclose f).code S)
      (fun _ v' _ => v'.blk = v₁.blk) v₁ fm₁ :=
    fwp_seq (Mkfs.fwp_fileclose_holed hleaks) fun _ _ _ h => fwp_ret h
  obtain ⟨S₂, m₂, v₂, fm₂, hrun₂, hon₂, hv₂⟩ := fwp_returns hclose (Option.some_ne_none _) hon₁
  refine ⟨⟨m, Mkfs.holedMem ip f, S⟩, ⟨m₂, fm₂, S₂⟩, ?_,
    .call (.fileclose f) (.call (.fileread f 1) .refl ⟨?_, by decide⟩ trivial hrun₁) ?_ trivial
      hrun₂,
    hleaks.not_owned hinos hi fun b hb => ?_⟩
  · have hblk : ∀ b, Mkfs.layout.Out b → World.blk ⟨m, Mkfs.holedMem ip f, S⟩ b = blk b :=
      fun b hb => hon.view_eq hb
    refine Layout.Owns.owned ?_
    rw [Mkfs.layout.inos_congr hblk, hinos]
    exact howns.congr_out hblk
  · exact List.mem_singleton_self f
  · exact List.mem_singleton_self f
  · rw [← hv₂]
    exact hon₂.view_eq hb

/-! ## Two entries for one inode -/

namespace Mkfs

section

variable {ip jp : Fin NINODE} {f g : Fin NFILE} {blk : ℕ → Block} {ino : Inos}

/-- A file without links and contents is open twice, with an entry of the inode cache each time. -/
def twinMem (ip jp : Fin NINODE) (f g : Fin NFILE) : FsMem :=
  ((((FsMem.mounted sb []).setInode ip ⟨ROOTDEV, 2, 1, true, .new T_FILE⟩).setInode jp
    ⟨ROOTDEV, 2, 1, true, .new T_FILE⟩).setFile f ⟨.inode, 1, true, false, ip, 0⟩).setFile g
    ⟨.inode, 1, true, false, jp, 0⟩

lemma twinMem_icache (k : Fin NINODE) : (twinMem ip jp f g).icache k =
    if k = ip ∨ k = jp then ⟨ROOTDEV, 2, 1, true, .new T_FILE⟩ else ⟨0, 0, 0, false, .zero⟩ := by
  show Function.update (Function.update _ ip _) jp _ k = _
  by_cases hj : k = jp
  · rw [hj, Function.update_self, if_pos (Or.inr rfl)]
  rw [Function.update_of_ne hj]
  by_cases hi : k = ip
  · rw [hi, Function.update_self, if_pos (Or.inl rfl)]
  · rw [Function.update_of_ne hi, if_neg (not_or.mpr ⟨hi, hj⟩)]
    rfl

lemma fwp_fileclose_twin (hi : ino 2 = some (.new T_FILE)) (howns : layout.Owns blk ino ∅)
    (hne : jp ≠ ip) (hfg : f ≠ g) :
    fwp layout.ample (fun _ => True) (fileclose f) (fun _ v' fm' =>
      (layout.dinode v'.blk 2).type = 0 ∧ fm'.icache jp = ⟨ROOTDEV, 2, 1, true, .new T_FILE⟩)
      (.mounted blk) (twinMem ip jp f g) := by
  have hfile : (twinMem ip jp f g).ftable f = ⟨.inode, 1, true, false, ip, 0⟩ := by
    simp [twinMem, FsMem.setFile, Function.update_of_ne hfg]
  have hip : (twinMem ip jp f g).icache ip = ⟨ROOTDEV, 2, 1, true, .new T_FILE⟩ := by
    rw [twinMem_icache, if_pos (Or.inl rfl)]
  refine fwp_mem (e := .filedrop f) (r := some ⟨.inode, 0, true, false, ip, 0⟩)
    (m := (twinMem ip jp f g).setFile f ⟨.none, 0, true, false, ip, 0⟩) ?_ ?_
  · simp only [memHandler, hfile]
    rfl
  show fwp _ _ (iput ip >>= fun _ => endOp) _ _ _
  refine fwp_seq (fwp_iput_free (L := layout.ample) (d := .new T_FILE) (i := 2) rfl ?_
    ?_ hi { howns with } rfl (Nat.zero_le 1) ?_ ?_ rfl ?_) ?_
  · show FsMem.Caches (twinMem ip jp f g) ip 2
    rw [FsMem.Caches, hip]
    exact ⟨one_pos, rfl, rfl⟩
  · exact congrArg Inode.din hip
  · intro n hn
    obtain rfl := Option.some.inj hn
    show (∅ ∪ {layout.bmapblock, layout.iblock 2} : Finset ℕ).card ≤ MAXOPBLOCKS
    decide
  · exact congrArg Inode.valid hip
  · exact congrArg Inode.ref hip
  rintro - v' fm' ⟨ht, rfl⟩
  refine fwp_last (fwp_endOp ht.held ht.pend trivial (fwp_ret ⟨?_, ?_⟩))
  · have hdinode := ht.dinode 2 (by decide)
    rw [if_pos rfl] at hdinode
    exact congrArg Dinode.type hdinode
  · refine (Function.update_of_ne hne _ _).trans ?_
    show (twinMem ip jp f g).icache jp = _
    rw [twinMem_icache, if_pos (Or.inr rfl)]

end

end Mkfs

/-- **Two entries for one inode** agree with it, and after one of them is released for the last time
the other does not. -/
theorem twin_entry_outdated : ∃ w w' : World, w.NoHoles Mkfs.layout ∧ w.Steps World.anyCall w' ∧
    ¬ w'.NoHoles Mkfs.layout := by
  obtain ⟨blk, ino, m, hi, hinos, howns, hfull, -, hon⟩ :=
    Mkfs.exists_withInode (d := .new T_FILE) (by decide)
      (Dinode.new_fits (by norm_num [Bytes.IsShort])) (fun blk s => Dinode.addr_new _ blk s)
  let f : Fin NFILE := ⟨0, by decide⟩
  let g : Fin NFILE := ⟨1, by decide⟩
  let ip : Fin NINODE := ⟨0, by decide⟩
  let jp : Fin NINODE := ⟨1, by decide⟩
  let S : Session := { Session.empty with kernel := [f, g] }
  have hclose : fwp Mkfs.layout.ample (fun _ => True) ((FsCall.fileclose f).code S)
      (fun _ v' fm' => (Mkfs.layout.dinode v'.blk 2).type = 0 ∧
        fm'.icache jp = ⟨ROOTDEV, 2, 1, true, .new T_FILE⟩) (.mounted blk)
      (Mkfs.twinMem ip jp f g) :=
    fwp_seq (Mkfs.fwp_fileclose_twin hi howns (by decide) (by decide)) fun _ _ _ h => fwp_ret h
  obtain ⟨S₁, m₁, v₁, fm₁, hrun, hon₁, hfree, hjp⟩ :=
    fwp_returns hclose (Option.some_ne_none _) hon
  refine ⟨⟨m, Mkfs.twinMem ip jp f g, S⟩, ⟨m₁, fm₁, S₁⟩, ?_,
    .call (.fileclose f) .refl (List.mem_cons_self ..) trivial hrun, fun h => ?_⟩
  · have hblk : ∀ b, Mkfs.layout.Out b → World.blk ⟨m, Mkfs.twinMem ip jp f g, S⟩ b = blk b :=
      fun b hb => hon.view_eq hb
    have hinos' := (Mkfs.layout.inos_congr hblk).trans hinos
    refine ⟨fun i d hd _ => ?_, fun k hr hv => ?_⟩
    · rw [hinos'] at hd
      refine ((howns.same_of_out hblk hd).full ?_).data
      by_cases hi2 : i = 2
      · subst hi2
        obtain rfl := Option.some.inj (hi.symm.trans hd)
        exact Dinode.new_full _ _
      · exact hfull i d hi2 hd
    · have hk : (Mkfs.twinMem ip jp f g).icache k = _ := Mkfs.twinMem_icache k
      split_ifs at hk
      · rw [hk]
        exact (Layout.inos_eq_some.mp ((congrFun hinos' 2).trans hi)).2.1.symm
      · rw [hk] at hr
        exact absurd hr (lt_irrefl 0)
  · have hcached := h.cached jp (by rw [hjp]; exact one_pos) (by rw [hjp])
    have hdinode : Mkfs.layout.dinode (World.blk ⟨m₁, fm₁, S₁⟩) 2 = Mkfs.layout.dinode v₁.blk 2 :=
      Mkfs.layout.dinode_congr (hon₁.view_eq (Mkfs.layout.out_iblock (by decide)))
    rw [hjp] at hcached
    have htype := congrArg Dinode.type (hcached.trans hdinode)
    rw [hfree] at htype
    exact absurd htype (by decide)

end Xv6
