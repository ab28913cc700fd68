import Xv6.Mkfs.Image

/-!
# The image that `mkfs` leaves

`mkfs` allocates an inode for each file on its command line, behind that of the root directory, and
an entry in the root directory.  At the end it rounds the size of the root directory up to a number
of whole blocks, always by at least one byte, and overwrites the free map.

Two things go unchecked.  If the entries fill the last block of the root directory exactly,
rounding up gives the directory a block that it does not have; and the inodes may outgrow the inode
blocks, so that one of them is in the block of the free map.  Otherwise the image is well formed.
-/

namespace Xv6.Mkfs

open Lib

/-! ## In front of the first inode -/

lemma foldl_wsect_zero {n : ℕ} (hn : n ≤ FSSIZE) :
    (List.range n).foldl (fun s i => wsect i Bytes.zero s) opened = { opened with len := n } := by
  induction n with
  | zero => rfl
  | succ n ih =>
    rw [List.range_succ, List.foldl_append, ih (Nat.le_of_succ_le hn)]
    simp only [List.foldl_cons, List.foldl_nil, wsect, sector_of_le (Nat.le_of_succ_le hn)]
    rw [max_eq_right (Nat.le_succ n)]
    congr 1
    exact Function.update_eq_self _ _

lemma zeroed_eq : zeroed = { opened with len := FSSIZE } := foldl_wsect_zero le_rfl

lemma begun_eq : begun = { opened with
    img := Function.update opened.img 1 (sbBlock sb), len := FSSIZE } := by
  rw [begun, zeroed_eq, wsect, sector_of_le (by norm_num)]
  rfl

lemma sound_begun : Sound begun fun _ => none := by
  -- there are no inodes yet, and nobody owns a block
  have hown : ∀ {blk b p}, ¬ Own blk (fun _ => none) b p := fun ⟨_, _, h, _⟩ => by cases h
  have hmarked : Marked area.datastart area.sb.size (bit (begun.view area.bmapblock))
      (Own begun.view fun _ => none) ∅ := by
    refine ⟨fun h => absurd h hown, fun h => absurd h hown, fun h => ?_, fun h => ?_,
      fun {b} hb => ?_⟩
    · exact absurd h (Finset.notMem_empty _)
    · exact absurd h (Finset.notMem_empty _)
    · rw [view_bmapstart, bit_bitmap _ (Layout.Owns.size_lt area hb), decide_eq_true_iff, begun_eq]
      exact ⟨Or.inl, fun h => h.elim id fun h => h.elim (fun h => absurd h (Finset.notMem_empty _))
        fun ⟨p, hp⟩ => absurd hp hown⟩
  refine ⟨fun _ => none, ?_, rfl⟩
  exact
    { ready := by
        rw [begun_eq]
        refine ⟨rfl, le_rfl, by decide, fun b hb _ => Function.update_of_ne ?_ _ _⟩
        rintro rfl
        exact absurd hb (by decide)
      owns :=
        { lt := fun h => nomatch h
          type := fun h => nomatch h
          fits := fun h => nomatch h
          marked := hmarked }
      full := fun h => nomatch h
      clear := fun h => nomatch h
      super := by
        rw [begun_eq]
        exact Function.update_self (1 : ℕ) (sbBlock sb) opened.img
      log := by
        rw [begun_eq]
        exact Function.update_of_ne (show sb.logstart ≠ 1 by decide) (sbBlock sb) opened.img
      pos := by
        rw [begun_eq]
        decide
      le := by
        rw [begun_eq]
        decide
      stored := fun i hi hi' => by
        rw [begun_eq] at hi'
        exact absurd hi' (Nat.not_lt.mpr hi)
      unused := fun _ _ _ => rfl
      blank := fun i _ hi => by
        rw [State.dinode, begun_eq]
        have hne : IBLOCK i sb ≠ 1 :=
          ((by decide : 1 < sb.inodestart).trans_le (inodestart_le i)).ne'
        have himg : Function.update opened.img 1 (sbBlock sb) (IBLOCK i sb) = Bytes.zero :=
          Function.update_of_ne hne _ _
        show (dinodeAt (Function.update opened.img 1 (sbBlock sb) (IBLOCK i sb)) (i % IPB)).type = 0
        rw [himg]
        simp [dinodeAt, Bytes.short, Bytes.toShort]
      written := fun i hi hi' => by
        rw [begun_eq] at hi'
        exact absurd hi' (Nat.not_lt.mpr hi) }

lemma superblockAt_sbBlock : superblockAt (sbBlock sb) = sb := by
  decide +kernel

lemma image_of_img {img : ℕ → Block} {P : (ℕ → Block) → Prop} {d : BufRef → Block}
    (hsuper : img 1 = sbBlock sb) (hlog : img sb.logstart = Bytes.zero) (hP : P img)
    (hd : ∀ b, d (onDev b) = img b) : layout.Image P d := by
  have hsb : superblockAt (d (onDev 1)) = sb := by
    rw [hd, hsuper, superblockAt_sbBlock]
  have hheader : headerN (d layout.log.header) = 0 := by
    show headerN (d (onDev sb.logstart)) = 0
    rw [hd, hlog]
    simp [headerN]
  exact ⟨hsb, d, .of_headerN hheader fun _ _ _ => rfl, hsb, img, hP, fun b _ => hd b⟩

/-! ## The root directory and the files -/

/-- The root directory of an image with the contents `data`. -/
def rootNode (data : List UInt8) : Node := ⟨T_DIR, 0, 0, 1, data⟩

/-- The two dot entries of the root directory. -/
def dots : List UInt8 :=
  Dirent.bytes ⟨ROOTINO, nameOf [46]⟩ ++ Dirent.bytes ⟨ROOTINO, nameOf [46, 46]⟩

lemma place_root : place ROOTINO = ROOTINO := rfl

lemma length_dots : dots.length = 2 * DIRENTSIZE := by
  rw [dots, List.length_append, Dirent.length_bytes, Dirent.length_bytes, two_mul]

section

variable {s s' : State} {σ : Nodes} {i : ℕ} {n : Node} {f : Input} {files : List Input}
  {data : List UInt8}

lemma Sound.iappend_root (h : Sound s σ) (hlt : ROOTINO < s.freeinode)
    (hroot : σ ROOTINO = some (rootNode data)) (e : Dirent) :
    (∃ s', Mkfs.iappend ROOTINO e.bytes s = some s' ∧
        Sound s' (Function.update σ ROOTINO (some (rootNode (data ++ e.bytes)))) ∧
        s'.freeinode = s.freeinode ∧ s'.freeblock + occupied (nblocks data.length) =
          s.freeblock + occupied (nblocks (data.length + DIRENTSIZE))) ∨
      (Mkfs.iappend ROOTINO e.bytes s = none ∧
        ¬ Fits s (nblocks data.length) (data.length + DIRENTSIZE)) := by
  have happ := h.iappend (i := ROOTINO) (by decide) hlt hroot e.bytes
  rwa [Dirent.length_bytes] at happ

/-- **The root directory.** -/
lemma start_spec : ∃ s, start = some (ROOTINO, s) ∧
    Sound s (Function.update (fun _ => none) ROOTINO (some (rootNode dots))) ∧ s.freeinode = 2 ∧
    s.freeblock = nmeta + 1 := by
  have hfree : begun.freeinode = ROOTINO ∧ begun.freeblock = nmeta := by
    rw [begun_eq]
    exact ⟨rfl, rfl⟩
  obtain ⟨s₁, h₁, hs₁, hi₁, hb₁⟩ := sound_begun.ialloc (t := T_DIR)
    (hfree.1 ▸ by decide) (by decide) (by norm_num [Bytes.IsShort])
  rw [hfree.1] at h₁ hs₁ hi₁
  rw [place_root] at hs₁
  rw [hfree.2] at hb₁
  have hlt : ROOTINO < s₁.freeinode := hi₁ ▸ by decide
  rcases hs₁.iappend_root hlt (Function.update_self _ _ _) ⟨ROOTINO, nameOf [46]⟩ with
    ⟨s₂, h₂, hs₂, hi₂, hb₂⟩ | ⟨-, hfits⟩
  swap
  · refine absurd ?_ hfits
    rw [Fits, hb₁]
    decide
  have hb₂' : s₂.freeblock = nmeta + 1 := by
    rw [hb₁] at hb₂
    exact hb₂
  rcases hs₂.iappend_root (hi₂ ▸ hlt) (Function.update_self _ _ _) ⟨ROOTINO, nameOf [46, 46]⟩ with
    ⟨s₃, h₃, hs₃, hi₃, hb₃⟩ | ⟨-, hfits⟩
  swap
  · refine absurd ?_ hfits
    rw [Fits, hb₂', List.nil_append, Dirent.length_bytes]
    decide
  refine ⟨s₃, ?_, ?_, hi₃.trans (hi₂.trans hi₁), ?_⟩
  · simp only [start, h₁, h₂, h₃, Option.bind_eq_bind, Option.bind_some, ne_eq, not_true_eq_false,
      if_false]
    rfl
  · rw [Function.update_idem, Function.update_idem] at hs₃
    exact hs₃
  · rw [hb₂', List.nil_append, Dirent.length_bytes] at hb₃
    exact Nat.add_right_cancel hb₃

lemma Sound.appendAll {chunks : List (List UInt8)} (h : Sound s σ) (hi : 0 < i)
    (hi' : i < s.freeinode) (hn : σ (place i) = some n) (hrun : appendAll i chunks s = some s') :
    Sound s' (Function.update σ (place i) (some { n with data := n.data ++ chunks.flatten })) ∧
      s'.freeinode = s.freeinode := by
  induction chunks generalizing s σ n with
  | nil =>
    cases hrun
    rw [List.flatten_nil, List.append_nil]
    exact ⟨by rwa [Function.update_eq_self_iff.mpr hn.symm], rfl⟩
  | cons c chunks ih =>
    obtain ⟨s₁, h₁, hrun⟩ := Option.bind_eq_some_iff.mp hrun
    rcases h.iappend hi hi' hn c with ⟨s₂, h₂, hs₂, hi₂, -⟩ | ⟨hnone, -⟩
    · cases h₁.symm.trans h₂
      obtain ⟨hs', hi'⟩ := ih hs₂ (hi₂ ▸ hi') (Function.update_self _ _ _) hrun
      rw [Function.update_idem, List.append_assoc] at hs'
      exact ⟨hs', hi'.trans hi₂⟩
    · cases h₁.symm.trans hnone

/-- A file gets its inode and its entry in the root directory, in front of its contents. -/
lemma Sound.addFile (h : Sound s σ) (hpos : ROOTINO < s.freeinode) (hlt : s.freeinode ≤ NSLOTS)
    (hroot : σ ROOTINO = some (rootNode data)) (hslash : slash ∉ f.name.bytes) :
    (∃ s₁, Mkfs.addFile ROOTINO s f = Mkfs.appendAll s.freeinode f.chunks s₁ ∧
        Sound s₁ (Function.update (Function.update σ (place s.freeinode)
          (some ⟨T_FILE, 0, 0, 1, []⟩)) ROOTINO
          (some (rootNode (data ++ Dirent.bytes ⟨s.freeinode, nameOf f.base⟩)))) ∧
        s₁.freeinode = s.freeinode + 1 ∧ s₁.freeblock + occupied (nblocks data.length) =
          s.freeblock + occupied (nblocks (data.length + DIRENTSIZE))) ∨
      (Mkfs.addFile ROOTINO s f = none ∧
        ¬ Fits s (nblocks data.length) (data.length + DIRENTSIZE)) := by
  obtain ⟨s₁, h₁, hs₁, hi₁, hb₁⟩ := h.ialloc (t := T_FILE) hlt (by decide)
    (by norm_num [Bytes.IsShort])
  have hne : ROOTINO ≠ place s.freeinode := fun he =>
    hpos.ne (place_inj (by decide) (by decide) h.choose_spec.1.pos hlt he)
  have hrun : Mkfs.addFile ROOTINO s f =
      (Mkfs.iappend ROOTINO (Dirent.bytes ⟨s.freeinode, nameOf f.base⟩) s₁).bind fun s₂ =>
        Mkfs.appendAll s.freeinode f.chunks s₂ := by
    rw [Mkfs.addFile, if_neg hslash, h₁]
    simp only [Option.bind_eq_bind, Option.bind_some]
  rcases hs₁.iappend_root (hi₁ ▸ hpos.trans (Nat.lt_succ_self _))
    ((Function.update_of_ne hne _ _).trans hroot) ⟨s.freeinode, nameOf f.base⟩ with
    ⟨s₂, h₂, hs₂, hi₂, hb₂⟩ | ⟨hnone, hfits⟩
  · refine Or.inl ⟨s₂, ?_, hs₂, hi₂.trans hi₁, hb₁ ▸ hb₂⟩
    rw [hrun, h₂, Option.bind_some]
  · refine Or.inr ⟨?_, fun hf => hfits ?_⟩
    · rw [hrun, hnone]
      rfl
    · rwa [Fits, hb₁]

/-- What `mkfs` has built when it has added `k` files. -/
structure Built (k : ℕ) (s : State) (σ : Nodes) : Prop where
  sound : Sound s σ
  freeinode : s.freeinode = k + 2
  root : ∃ data, σ ROOTINO = some (rootNode data) ∧ data.length = (k + 2) * DIRENTSIZE
  file : ∀ i, ROOTINO < i → i < s.freeinode → ∃ n, σ (place i) = some n ∧ n.type = T_FILE

lemma Built.root_lt {k : ℕ} (h : Built k s σ) : ROOTINO < s.freeinode := by
  rw [h.freeinode]
  exact Nat.succ_lt_succ (Nat.succ_pos k)

/-- **A file is added**, while the inode blocks and the one behind them have room. -/
lemma Built.addFile {k : ℕ} (h : Built k s σ) (hk : k + 2 ≤ NSLOTS)
    (hrun : Mkfs.addFile ROOTINO s f = some s') : ∃ σ', Built (k + 1) s' σ' := by
  have hslash : slash ∉ f.name.bytes := fun hin => by
    rw [Mkfs.addFile, if_pos hin] at hrun
    cases hrun
  obtain ⟨data, hroot, hlen⟩ := h.root
  have hpos := h.root_lt
  rcases h.sound.addFile hpos (h.freeinode ▸ hk) hroot hslash with
    ⟨s₁, heq, hs₁, hi₁, -⟩ | ⟨hnone, -⟩
  swap
  · cases hrun.symm.trans hnone
  have hle : s.freeinode ≤ NSLOTS := h.freeinode ▸ hk
  have hne : place s.freeinode ≠ ROOTINO := fun he =>
    hpos.ne' (place_inj (Nat.zero_lt_of_lt hpos) hle (by decide) (by decide) he)
  obtain ⟨hs', hi'⟩ := hs₁.appendAll (Nat.zero_lt_of_lt hpos) (hi₁ ▸ Nat.lt_succ_self _)
    ((Function.update_of_ne hne _ _).trans (Function.update_self _ _ _)) (heq.symm.trans hrun)
  refine ⟨_, hs', ?_, ⟨data ++ Dirent.bytes ⟨s.freeinode, nameOf f.base⟩, ?_, ?_⟩,
    fun i hi hi₂ => ?_⟩
  · rw [hi', hi₁, h.freeinode]
  · rw [Function.update_of_ne hne.symm, Function.update_self]
  · rw [List.length_append, Dirent.length_bytes, hlen, ← Nat.succ_mul]
  · rw [hi', hi₁] at hi₂
    rcases (Nat.lt_succ_iff.mp hi₂).eq_or_lt with rfl | hlt
    · exact ⟨_, Function.update_self _ _ _, rfl⟩
    · have hi₀ : 0 < i := Nat.zero_lt_of_lt hi
      have h₁ : place i ≠ place s.freeinode := fun he =>
        hlt.ne (place_inj hi₀ (hlt.le.trans hle) (Nat.zero_lt_of_lt hpos) hle he)
      have h₂ : place i ≠ ROOTINO := fun he =>
        hi.ne' (place_inj hi₀ (hlt.le.trans hle) (by decide) (by decide) he)
      rw [Function.update_of_ne h₁, Function.update_of_ne h₂, Function.update_of_ne h₁]
      exact h.file i hi hlt

lemma Built.addFiles {k : ℕ} (h : Built k s σ) (hk : k + files.length + 1 ≤ NSLOTS)
    (hrun : files.foldlM (Mkfs.addFile ROOTINO) s = some s') :
    ∃ σ', Built (k + files.length) s' σ' := by
  induction files generalizing k s σ with
  | nil =>
    cases hrun
    exact ⟨σ, h⟩
  | cons f files ih =>
    obtain ⟨s₁, h₁, hrun⟩ := Option.bind_eq_some_iff.mp hrun
    rw [List.length_cons] at hk ⊢
    obtain ⟨σ₁, hb₁⟩ := h.addFile (by omega) h₁
    obtain ⟨σ', hb'⟩ := ih hb₁ (by omega) hrun
    exact ⟨σ', by rwa [← Nat.add_right_comm, Nat.add_assoc] at hb'⟩

lemma built_start : ∃ s, start = some (ROOTINO, s) ∧ s.freeblock = nmeta + 1 ∧
    Built 0 s (Function.update (fun _ => none) ROOTINO (some (rootNode dots))) := by
  obtain ⟨s, hs, hsound, hi, hb⟩ := start_spec
  refine ⟨s, hs, hb, hsound, hi, ⟨dots, Function.update_self _ _ _, length_dots⟩,
    fun i hi₁ hi₂ => ?_⟩
  rw [hi] at hi₂
  exact absurd hi₂ (Nat.not_lt.mpr hi₁)

/-! ## What no later step changes -/

/-- The last dinode written for an inode is changed for the root directory and for new inodes
only, whatever the image holds. -/
structure Later (s s' : State) : Prop where
  freeinode : s.freeinode ≤ s'.freeinode
  freeblock : s.freeblock ≤ s'.freeblock
  written : ∀ i, i ≠ ROOTINO → i < s.freeinode → s'.written i = s.written i

lemma Later.trans {s'' : State} (h : Later s s') (h' : Later s' s'') : Later s s'' where
  freeinode := h.freeinode.trans h'.freeinode
  freeblock := h.freeblock.trans h'.freeblock
  written i hi hlt := (h'.written i hi (hlt.trans_le h.freeinode)).trans (h.written i hi hlt)

lemma winode_keeps {d : Dinode} (h : winode i d s = some s') : s'.freeinode = s.freeinode ∧
    s'.freeblock = s.freeblock ∧ ∀ j ≠ i, s'.written j = s.written j := by
  obtain ⟨buf, -, h⟩ := Option.bind_eq_some_iff.mp h
  cases h
  exact ⟨rfl, rfl, fun j hj => Function.update_of_ne hj _ _⟩

lemma iappend_keeps {p : List UInt8} (h : iappend i p s = some s') : s'.freeinode = s.freeinode ∧
    s.freeblock ≤ s'.freeblock ∧ ∀ j ≠ i, s'.written j = s.written j := by
  obtain ⟨d, -, h⟩ := Option.bind_eq_some_iff.mp h
  obtain ⟨⟨d', off, s₁⟩, h₁, h⟩ := Option.bind_eq_some_iff.mp h
  have hk := keeps_appendLoop h₁
  obtain ⟨hi, hb, hw⟩ := winode_keeps h
  refine ⟨hi.trans hk.freeinode, hb ▸ hk.freeblock, fun j hj => ?_⟩
  rw [hw j hj, hk.written]

lemma appendAll_keeps {chunks : List (List UInt8)} (h : appendAll i chunks s = some s') :
    s'.freeinode = s.freeinode ∧ s.freeblock ≤ s'.freeblock ∧
      ∀ j ≠ i, s'.written j = s.written j := by
  induction chunks generalizing s with
  | nil =>
    cases h
    exact ⟨rfl, le_rfl, fun _ _ => rfl⟩
  | cons c chunks ih =>
    obtain ⟨s₁, h₁, h⟩ := Option.bind_eq_some_iff.mp h
    obtain ⟨hi, hb, hw⟩ := iappend_keeps h₁
    obtain ⟨hi', hb', hw'⟩ := ih h
    exact ⟨hi'.trans hi, hb.trans hb', fun j hj => (hw' j hj).trans (hw j hj)⟩

lemma later_addFile (h : addFile ROOTINO s f = some s') : Later s s' := by
  rw [addFile] at h
  split_ifs at h
  obtain ⟨⟨i, s₁⟩, h₁, h⟩ := Option.bind_eq_some_iff.mp h
  obtain ⟨s₂, h₂, h₃⟩ := Option.bind_eq_some_iff.mp h
  obtain ⟨s₀, h₀, he⟩ := Option.bind_eq_some_iff.mp h₁
  cases he
  obtain ⟨hi₁, hb₁, hw₁⟩ := winode_keeps h₀
  obtain ⟨hi₂, hb₂, hw₂⟩ := iappend_keeps h₂
  obtain ⟨hi₃, hb₃, hw₃⟩ := appendAll_keeps h₃
  refine ⟨?_, ?_, fun j hj hlt => ?_⟩
  · rw [hi₃, hi₂, hi₁]
    exact Nat.le_succ _
  · exact hb₁ ▸ hb₂.trans hb₃
  · rw [hw₃ j hlt.ne, hw₂ j hj, hw₁ j hlt.ne]

lemma later_addFiles (h : files.foldlM (addFile ROOTINO) s = some s') : Later s s' := by
  induction files generalizing s with
  | nil =>
    cases h
    exact ⟨le_rfl, le_rfl, fun _ _ _ => rfl⟩
  | cons f files ih =>
    obtain ⟨s₁, h₁, h⟩ := Option.bind_eq_some_iff.mp h
    exact (later_addFile h₁).trans (ih h)

lemma later_finish (h : finish ROOTINO s = some s') : Later s s' ∧
    s'.img sb.bmapstart = bitmap s'.freeblock := by
  simp only [finish, Option.bind_eq_bind, Option.bind_eq_some_iff] at h
  obtain ⟨d, -, s₁, h₁, h⟩ := h
  obtain ⟨hi, hb, hw⟩ := winode_keeps h₁
  rw [balloc] at h
  split_ifs at h
  cases h
  refine ⟨⟨hi.ge, hb.ge, fun j hj _ => hw j hj⟩, ?_⟩
  show (wsect sb.bmapstart (bitmap s₁.freeblock) s₁).img sb.bmapstart = bitmap s₁.freeblock
  rw [wsect, sector_of_le (by decide)]
  exact Function.update_self sb.bmapstart (bitmap s₁.freeblock) s₁.img

/-! ## The end -/

/-- The image that the kernel expects: every inode is found where it was written, has the blocks
that its size asks for, all of them in the data area and no two of them the same, and the free map
marks the blocks up to `freeblock`. -/
structure WellFormed (s : State) : Prop where
  read : ∀ i, 0 < i → i < s.freeinode → s.written i = some (s.dinode i)
  mapped : ∀ i, 0 < i → i < s.freeinode → ∀ k < nblocks (s.dinode i).size,
    (s.dinode i).addr s.img (.data k) ≠ 0
  range : ∀ i, 0 < i → i < s.freeinode → ∀ t, (s.dinode i).addr s.img t ≠ 0 →
    nmeta ≤ (s.dinode i).addr s.img t ∧ (s.dinode i).addr s.img t < sb.size
  unique : ∀ i j, 0 < i → i < s.freeinode → 0 < j → j < s.freeinode → ∀ t u,
    (s.dinode i).addr s.img t ≠ 0 → (s.dinode i).addr s.img t = (s.dinode j).addr s.img u →
    i = j ∧ t = u
  bitmap : ∀ b < BPB, bit (s.img sb.bmapstart) b = true ↔ b < s.freeblock

section

variable {s s' : State} {ino : Inos} {d : Dinode}

lemma img_balloc (s : State) : (wsect sb.bmapstart (bitmap s.freeblock) s).img = s.view := by
  rw [wsect, sector_of_le (by decide)]
  rfl

lemma dinode_balloc {i : ℕ} (hi : i < NSLOTS) (buf : Block) :
    (wsect sb.bmapstart buf s).dinode i = s.dinode i := by
  have hne : IBLOCK i sb ≠ sb.bmapstart := by
    simp only [IBLOCK, sb, nlog, LOGSIZE, MAXOPBLOCKS, NSLOTS, ninodeblocks, NINODES, IPB, BSIZE,
      DINODESIZE] at *
    omega
  rw [State.dinode, wsect, sector_of_le (by decide)]
  exact congrArg (dinodeAt · (i % IPB)) (Function.update_of_ne hne _ _)

/-- **The image of files that agree with it is well formed.** -/
lemma Holds.wellFormed (h : Holds s ino) (hle : s.freeinode ≤ NSLOTS) :
    WellFormed (wsect sb.bmapstart (Mkfs.bitmap s.freeblock) s) := by
  have hd : ∀ i < s.freeinode, (wsect sb.bmapstart (Mkfs.bitmap s.freeblock) s).dinode i =
      s.dinode i := fun i hi => dinode_balloc (hi.trans_le hle) _
  have hino : ∀ i, 0 < i → i < s.freeinode → ino i = some (s.dinode i) := fun i hi hi' => by
    rw [← h.stored i hi hi', place_of_lt (hi'.trans_le hle)]
  refine ⟨fun i hi hi' => ?_, fun i hi hi' k hk => ?_, fun i hi hi' t ht => ?_,
    fun i j hi hi' hj hj' t u ht he => ?_, fun b hb => ?_⟩
  · rw [hd i hi']
    exact h.written i hi hi'
  · rw [hd i hi'] at hk ⊢
    rw [img_balloc]
    exact ((h.full (hino i hi hi')).data k).mpr hk
  · rw [hd i hi', img_balloc] at ht ⊢
    exact h.owns.range_addr (hino i hi hi') ht
  · rw [hd i hi', img_balloc] at ht he
    rw [hd j hj'] at he
    exact h.owns.addr_inj (hino i hi hi') (hino j hj hj') ht he
  · rw [img_balloc]
    show bit (s.view area.bmapblock) b = true ↔ b < s.freeblock
    rw [view_bmapstart, bit_bitmap _ hb, decide_eq_true_iff]

/-- The size that `finish` gives the root directory. -/
def roundUp (n : ℕ) : ℕ := (n / BSIZE + 1) * BSIZE

lemma nblocks_roundUp (n : ℕ) : nblocks (roundUp n) = n / BSIZE + 1 := by
  simp only [nblocks, roundUp, BSIZE]
  omega

lemma nblocks_roundUp_of_ne {n : ℕ} (h : n % BSIZE ≠ 0) : nblocks (roundUp n) = nblocks n := by
  simp only [nblocks, roundUp, BSIZE] at *
  omega

lemma Holds.finish (h : Holds s ino) (hpos : ROOTINO < s.freeinode)
    (hd : ino ROOTINO = some d) :
    ∃ s₁, Puts ROOTINO { d with size := roundUp d.size } s s₁ ∧
      finish ROOTINO s = some (wsect sb.bmapstart (Mkfs.bitmap s₁.freeblock) s₁) := by
  have hf := h.owns.fits hd
  have hsize := (h.full hd).size_le
  have hfits : ({ d with size := roundUp d.size } : Dinode).Fits := by
    refine ⟨hf.type, hf.major, hf.minor, hf.nlink, ?_, hf.addrs⟩
    simp only [roundUp, BSIZE, MAXFILE, NDIRECT, NINDIRECT, UINT] at *
    omega
  obtain ⟨s₁, hw, hp⟩ := winode_spec h.ready (i := ROOTINO) (by decide) hfits
  refine ⟨s₁, hp, ?_⟩
  have hread : rinode ROOTINO s = some d := by
    rw [rinode, rsect_of_lt h.ready (by decide)]
    exact (h.stored ROOTINO (by decide) hpos).symm.trans hd
  have hballoc : s₁.freeblock < BSIZE * 8 := by
    rw [hp.freeblock]
    exact h.ready.high.trans_lt (by norm_num)
  simp only [Mkfs.finish, hread, Option.bind_eq_bind, Option.bind_some]
  rw [show winode ROOTINO { d with size := (d.size / BSIZE + 1) * BSIZE } s = some s₁ from hw,
    Option.bind_some, balloc, if_pos hballoc]

lemma Holds.roundUp (h : Holds s ino) (hpos : ROOTINO < s.freeinode) (hd : ino ROOTINO = some d)
    (hp : Puts ROOTINO { d with size := roundUp d.size } s s') (hmod : d.size % BSIZE ≠ 0) :
    Holds s' (Function.update ino ROOTINO (some { d with size := Mkfs.roundUp d.size })) := by
  have hf := h.toFiles.of_data hp.ready hp.freeblock hp.data
  have hfits : ({ d with size := Mkfs.roundUp d.size } : Dinode).Fits := by
    have hdin := hp.dinode ROOTINO
    rw [if_pos rfl] at hdin
    exact hdin ▸ dinodeAt_fits _ _
  refine h.update (i := ROOTINO) (by decide) hpos.le (by decide)
    ⟨hf.ready, hf.owns.update hd (show d.type ≠ 0 from h.owns.type hd) hfits rfl,
      fun {j d₁} hj => ?_, fun {j d₁} hj k hk hk' => ?_⟩ ?_ hp.low (fun j _ => hp.dinode j)
    hp.written
  rotate_right
  · rw [hp.freeinode, max_eq_left hpos]
  all_goals by_cases hj₁ : j = ROOTINO
  · rw [place_root, hj₁, Function.update_self] at hj
    cases hj
    have hfull : d.Filled s'.view (nblocks d.size) := hf.full hd
    rw [Dinode.Full, nblocks_roundUp_of_ne hmod]
    exact hfull.congr (Dinode.addr_congr rfl fun _ => rfl)
  · rw [place_root, Function.update_of_ne hj₁] at hj
    exact hf.full hj
  · -- no byte is left behind the new end
    rw [place_root, hj₁, Function.update_self] at hj
    cases hj
    rw [nblocks_roundUp] at hk'
    exact absurd hk' (Nat.not_lt.mpr hk)
  · rw [place_root, Function.update_of_ne hj₁] at hj
    exact hf.clear hj k hk hk'

lemma not_wellFormed_of_mod (h : Holds s ino) (hpos : ROOTINO < s.freeinode)
    (hd : ino ROOTINO = some d) (hp : Puts ROOTINO { d with size := roundUp d.size } s s')
    (hmod : d.size % BSIZE = 0) :
    ¬ WellFormed (wsect sb.bmapstart (bitmap s'.freeblock) s') := by
  intro hwf
  have hdin : (wsect sb.bmapstart (bitmap s'.freeblock) s').dinode ROOTINO =
      { d with size := roundUp d.size } := by
    rw [dinode_balloc (by decide), hp.dinode, if_pos rfl]
  have hk := hwf.mapped ROOTINO (by decide) (hp.freeinode.symm ▸ hpos) (d.size / BSIZE)
    (by rw [hdin, nblocks_roundUp]; exact Nat.lt_succ_self _)
  rw [hdin, img_balloc] at hk
  have hf := h.toFiles.of_data hp.ready hp.freeblock hp.data
  have hfull : d.Filled s'.view (nblocks d.size) := hf.full hd
  have hlt : d.size / BSIZE < nblocks d.size := by
    rw [← hfull.data]
    exact fun hz => hk ((Dinode.addr_congr rfl (fun _ => rfl) _).trans hz)
  simp only [nblocks, BSIZE] at *
  omega

lemma not_wellFormed_of_written (hw : s.written NSLOTS = some d) (ht : d.type = T_FILE)
    (hi : NSLOTS < s.freeinode) (hb : 0 < s.freeblock)
    (himg : s.img sb.bmapstart = bitmap s.freeblock) : ¬ WellFormed s := by
  intro hwf
  have hd := hwf.read NSLOTS (by decide) hi
  obtain rfl := Option.some.inj (hw.symm.trans hd)
  have hshort : (bitmap s.freeblock).short 0 = 2 := by
    rw [← himg]
    exact ht
  have hbit : bit (bitmap s.freeblock) 0 = true := by
    rw [bit_bitmap _ (by norm_num), decide_eq_true_iff]
    exact hb
  -- a type of 2 is even
  simp only [bit, Nat.zero_div, Nat.zero_mod, Nat.testBit_zero, decide_eq_true_iff] at hbit
  simp only [Bytes.short, Bytes.le, Bytes.leNat, Bytes.toShort, Nat.zero_add] at hshort
  omega

end

lemma exists_of_main (h : main files = some s) : ∃ s₀ s₁,
    Built 0 s₀ (Function.update (fun _ => none) ROOTINO (some (rootNode dots))) ∧
      files.foldlM (addFile ROOTINO) s₀ = some s₁ ∧ Mkfs.finish ROOTINO s₁ = some s := by
  obtain ⟨s₀, hstart, -, hbuilt⟩ := built_start
  have hrun : (files.foldlM (addFile ROOTINO) s₀).bind (finish ROOTINO) = some s := by
    simpa only [main, hstart, Option.bind_eq_bind, Option.bind_some] using h
  obtain ⟨s₁, h₁, hfin⟩ := Option.bind_eq_some_iff.mp hrun
  exact ⟨s₀, s₁, hbuilt, h₁, hfin⟩

lemma wellFormed_iff_of_lt (h : main files = some s) (hlt : files.length + 1 < NSLOTS) :
    WellFormed s ↔ (files.length + 2) * DIRENTSIZE % BSIZE ≠ 0 := by
  obtain ⟨s₀, s₁, hbuilt, h₁, hfin⟩ := exists_of_main h
  obtain ⟨σ, hbuilt₁⟩ := hbuilt.addFiles (by omega) h₁
  have hpos := hbuilt₁.root_lt
  obtain ⟨⟨ino, hh, rfl⟩, hfree, ⟨data, hroot, hlen⟩, -⟩ := hbuilt₁
  rw [Nat.zero_add] at hfree hlen
  obtain ⟨d, hd, hnode⟩ := Option.map_eq_some_iff.mp hroot
  have hsize : d.size = (files.length + 2) * DIRENTSIZE := by
    rw [← hlen]
    exact Dinode.length_content.symm.trans (congrArg (fun n => n.data.length) hnode)
  obtain ⟨s₂, hp, hfin'⟩ := hh.finish hpos hd
  obtain rfl := Option.some.inj (hfin.symm.trans hfin')
  rw [← hsize]
  refine ⟨fun hwf hmod => not_wellFormed_of_mod hh hpos hd hp hmod hwf, fun hmod => ?_⟩
  refine (hh.roundUp hpos hd hp hmod).wellFormed ?_
  rw [hp.freeinode, hfree]
  exact hlt

lemma not_wellFormed_of_ge (h : main files = some s) (hge : NSLOTS ≤ files.length + 1) :
    ¬ WellFormed s := by
  obtain ⟨s₀, s₁, hbuilt, h₁, hfin⟩ := exists_of_main h
  rw [← List.take_append_drop (NSLOTS - 1) files, List.foldlM_append] at h₁
  obtain ⟨s₂, h₂, h₃⟩ := Option.bind_eq_some_iff.mp h₁
  have htake : (files.take (NSLOTS - 1)).length = NSLOTS - 1 := by
    rw [List.length_take]
    omega
  obtain ⟨σ, ⟨⟨ino, hh, rfl⟩, hfree, -, hfile⟩⟩ := hbuilt.addFiles (by rw [htake]; decide) h₂
  rw [htake] at hfree
  have hlt : NSLOTS < s₂.freeinode := by
    rw [hfree]
    decide
  obtain ⟨n, hn, ht⟩ := hfile NSLOTS (by decide) hlt
  have hstored := hh.stored NSLOTS (by decide) hlt
  simp only [hstored, Option.map_some] at hn
  obtain rfl := Option.some.inj hn
  obtain ⟨hlater, himg⟩ := later_finish hfin
  have hlater := (later_addFiles h₃).trans hlater
  refine not_wellFormed_of_written (d := s₂.dinode NSLOTS) ?_ ht
    (hlt.trans_le hlater.freeinode) ?_ himg
  · rw [hlater.written NSLOTS (by decide) hlt]
    exact hh.written NSLOTS (by decide) hlt
  · exact (by decide : 0 < nmeta).trans_le (hh.ready.low.trans hlater.freeblock)

/-- **`mkfs` produces a well-formed image** exactly if the entries of the root directory do not fill
its last block and the inodes do not outgrow the inode blocks. -/
theorem main_wellFormed_iff (h : main files = some s) :
    WellFormed s ↔ (files.length + 2) * DIRENTSIZE % BSIZE ≠ 0 ∧ files.length + 1 < NSLOTS := by
  rcases Nat.lt_or_ge (files.length + 1) NSLOTS with hlt | hge
  · rw [wellFormed_iff_of_lt h hlt]
    exact ⟨fun hmod => ⟨hmod, hlt⟩, And.left⟩
  · exact iff_of_false (not_wellFormed_of_ge h hge) fun hc => absurd hc.2 (Nat.not_lt.mpr hge)

/-- One file, `_cat`, with three bytes. -/
def oneFile : List Input := [⟨⟨[95, 99, 97, 116], by decide⟩, [[1, 2], [3]]⟩]

/-- The image with one file is well formed. -/
theorem main_wellFormed_oneFile : ∃ s, main oneFile = some s ∧ WellFormed s := by
  have hsome : (main oneFile).isSome = true := by decide +kernel
  obtain ⟨s, hs⟩ := Option.isSome_iff_exists.mp hsome
  exact ⟨s, hs, (main_wellFormed_iff hs).mpr (by decide)⟩

/-! ## Files without contents -/

lemma fits_entry {k : ℕ} (hb : s.freeblock = nmeta + occupied (nblocks ((k + 2) * DIRENTSIZE)))
    (hk : k + 2 ≤ NSLOTS) :
    Fits s (nblocks ((k + 2) * DIRENTSIZE)) ((k + 2) * DIRENTSIZE + DIRENTSIZE) := by
  simp only [NSLOTS, ninodeblocks, NINODES, IPB, BSIZE, DINODESIZE, DIRENTSIZE] at hb hk ⊢
  have hsmall : nblocks ((k + 2) * 16 + 16) ≤ 7 := nblocks_le.mpr (by simp only [BSIZE]; omega)
  have hmono : nblocks ((k + 2) * 16) ≤ nblocks ((k + 2) * 16 + 16) :=
    nblocks_mono (Nat.le_add_right _ _)
  have h₁ := occupied_mono hsmall
  have h₂ := occupied_mono (hmono.trans hsmall)
  have h₃ : occupied 7 = 7 := rfl
  have h₄ : nmeta = 59 := rfl
  refine ⟨?_, ?_⟩
  · simp only [MAXFILE, NDIRECT, NINDIRECT, BSIZE]
    omega
  · rw [max_eq_right hmono, hb, h₄]
    simp only [FSSIZE]
    omega

lemma Built.exists_addFiles {k : ℕ} (h : Built k s σ)
    (hb : s.freeblock = nmeta + occupied (nblocks ((k + 2) * DIRENTSIZE)))
    (hf : ∀ f ∈ files, f.chunks = [] ∧ slash ∉ f.name.bytes)
    (hk : k + files.length + 1 ≤ NSLOTS) :
    ∃ s', files.foldlM (Mkfs.addFile ROOTINO) s = some s' := by
  induction files generalizing k s σ with
  | nil => exact ⟨s, rfl⟩
  | cons f files ih =>
    obtain ⟨hchunks, hslash⟩ := hf f (List.mem_cons_self ..)
    obtain ⟨data, hroot, hlen⟩ := h.root
    rw [List.length_cons] at hk
    rcases h.sound.addFile h.root_lt (h.freeinode ▸ by omega) hroot hslash with
      ⟨s₁, heq, -, -, hb₁⟩ | ⟨-, hfits⟩
    · have hadd : Mkfs.addFile ROOTINO s f = some s₁ := by
        rw [heq, hchunks]
        rfl
      obtain ⟨σ₁, hbuilt⟩ := h.addFile (by omega) hadd
      rw [hlen, hb, ← Nat.succ_mul, Nat.succ_eq_add_one] at hb₁
      obtain ⟨s', hs'⟩ := ih hbuilt (by rw [Nat.add_right_comm k 1 2]; omega)
        (fun f hin => hf f (List.mem_cons_of_mem _ hin)) (by omega)
      exact ⟨s', by rw [List.foldlM_cons, hadd]; exact hs'⟩
    · exact absurd (hlen ▸ fits_entry hb (by omega)) hfits

lemma exists_main (hf : ∀ f ∈ files, f.chunks = [] ∧ slash ∉ f.name.bytes)
    (hlen : files.length + 1 < NSLOTS) : ∃ s, main files = some s := by
  obtain ⟨s₀, hstart, hb, hbuilt⟩ := built_start
  obtain ⟨s₁, h₁⟩ := hbuilt.exists_addFiles hb hf (by omega)
  obtain ⟨σ, hbuilt₁⟩ := hbuilt.addFiles (by omega) h₁
  have hpos := hbuilt₁.root_lt
  obtain ⟨⟨ino, hh, rfl⟩, -, ⟨data, hroot, -⟩, -⟩ := hbuilt₁
  obtain ⟨d, hd, -⟩ := Option.map_eq_some_iff.mp hroot
  obtain ⟨s₂, -, hfin⟩ := hh.finish hpos hd
  refine ⟨wsect sb.bmapstart (bitmap s₂.freeblock) s₂, ?_⟩
  simp only [main, hstart, h₁, Option.bind_eq_bind, Option.bind_some]
  exact hfin

/-- Thirty empty files, named `a`, `b` and so on. -/
def thirtyFiles : List Input :=
  List.ofFn fun k : Fin 30 => ⟨⟨[97 + UInt8.ofNat k], by revert k; decide⟩, []⟩

lemma length_thirtyFiles : thirtyFiles.length = 30 := List.length_ofFn

/-- With thirty files the entries fill the block of the root directory. -/
theorem exists_main_not_wellFormed : ∃ s, main thirtyFiles = some s ∧ ¬ WellFormed s := by
  have hlt : thirtyFiles.length + 1 < NSLOTS := by
    rw [length_thirtyFiles]
    decide
  have hslash : ∀ k : Fin 30, slash ∉ [97 + UInt8.ofNat k] := by decide
  have hempty : ∀ f ∈ thirtyFiles, f.chunks = [] ∧ slash ∉ f.name.bytes := fun f hf => by
    obtain ⟨k, rfl⟩ := List.mem_ofFn.mp hf
    exact ⟨rfl, hslash k⟩
  obtain ⟨s, hs⟩ := exists_main hempty hlt
  refine ⟨s, hs, fun hwf => (wellFormed_iff_of_lt hs hlt).mp hwf ?_⟩
  rw [length_thirtyFiles]
  rfl

end

end Xv6.Mkfs
