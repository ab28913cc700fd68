import Xv6.Fs.Tree

/-!
# Steps of the file operations

The steps out of which `create`, `unlink` and the operations on open files are made, as changes of
`Fs.Holds`: a link count is stored and written through, a new inode is filled in, an entry is
written to a directory, the last reference to a node without links frees it, and a file is opened,
changed or closed.

Every rule has the same form.  Before it, the nodes are `σ`, the open files `t` and the references
in hand `hold`, and so many blocks have been logged; it says which of these are different after it.
`nwp_setNlink`, `nwp_alloc`, `nwp_enter` and `nwp_clear` change one node, `nwp_release` drops a
reference and may free a node, and `Fs.Holds.openFile`, `Fs.Holds.closeFile` and `Fs.Holds.setOff`
move a reference between the operation and the table of open files.

`nwp_end` ends an operation: what it has logged is durable, and the log is empty again.
-/

namespace Xv6

open Lib

/-! ## Bounds -/

lemma Layout.ninodes_le (L : Layout) : L.sb.ninodes ≤ FSSIZE * IPB := by
  have hroot := L.root_lt
  have h := L.inodes_end (L.sb.ninodes - 1) (by omega)
  have h₁ := L.bmap_lt
  have h₂ := L.size_le
  simp only [IBLOCK, FSSIZE, IPB, BSIZE, DINODESIZE] at *
  omega

lemma Layout.Rep.type_ne {L : Layout} {ino : Inos} {s : Fs} {v : Vol} {fm : FsMem}
    {i : ℕ} {n : Node} (h : L.Rep ino s v fm) (hn : s.node i = some n) : n.type ≠ 0 := by
  obtain ⟨d, hd, rfl⟩ := h.ino_of_node hn
  exact h.owns.type hd

section

variable {α : Type} {L : Layout} {D : (ℕ → Block) → Prop} {P : Nodes → Prop}
  {Q : α → Fs → Prop} {s s' : Fs} {t : Table} {σ σ' : Nodes} {hold : List Ref} {M : Finset ℕ}
  {d i : ℕ} {n : Node} {ip : Fin NINODE} {r : Ref}

lemma Layout.Rep.logged_eq_empty {ino : Inos} {v : Vol} {fm : FsMem} (h : L.Rep ino s v fm)
    (hs : s.Holds t σ hold ∅ 0) : v.logged = ∅ := by
  obtain ⟨X, hX, hsub⟩ := h.logged
  have hX' : X = ∅ := Finset.card_eq_zero.mp (Nat.le_zero.mp (hX.trans hs.datas))
  rw [hX', Finset.subset_empty.mp hs.metas, Finset.union_empty] at hsub
  exact Finset.subset_empty.mp hsub

/-! ## Inodes -/

lemma Fs.Holds.written {d' : ℕ} (h : s.Holds t σ hold M d) (hnode : s'.node = σ')
    (hstale : s'.stale = ∅) (hic : s'.ic = s.ic) (hft : s'.ft = s.ft) (hmetas : s'.metas ⊆ M)
    (hdatas : s'.datas ≤ d') : s'.Holds t σ' hold M d' where
  node := hnode
  stale := hstale
  file := hft.trans h.file
  ref := hic ▸ h.ref
  inum := hic ▸ h.inum
  read := hic ▸ h.read
  fileInum := hic ▸ h.fileInum
  fileRead := hic ▸ h.fileRead
  metas := hmetas
  datas := hdatas

lemma nwp_setNlink {g : ℤ → ℤ} {l : ℤ} {f : Unit → K α} (h : s.Holds t σ hold M d) (hr : r ∈ hold)
    (hread : r.read = true) (hn : σ r.inum = some n) (hl : Bytes.toShort (g n.nlink) = l)
    (hM : L.iblock r.inum ∈ M) (hroom : L.Room (M.card + d))
    (hf : ∀ s', s'.Holds t (Function.update σ r.inum (some { n with nlink := l })) hold M d →
      nwp L D (f ()) Q s') :
    nwp L D (setNlink r.ip g >>= fun _ => iupdate r.ip >>= f) Q s := by
  have hh := h.has hr hread hn
  refine nwp_of_rep fun ino v fm hrep => ?_
  have ht : n.type ≠ 0 := hrep.type_ne hh.node
  refine nwp_setInode (m := { n with nlink := l })
    (g := fun d => { d with nlink := Bytes.toShort (g d.nlink) }) hh (fun _ => rfl)
    (fun _ => rfl) rfl
    ht (fun d ht hj hm hk hfits => ⟨⟨hfits.type, hfits.major, hfits.minor,
      Bytes.isShort_toShort _, hfits.size, hfits.addrs⟩, ht, hj, hm, by rw [← hl, ← hk]⟩) ?_
  have hN : ({L.iblock r.inum} : Finset ℕ) ⊆ M := Finset.singleton_subset_iff.mpr hM
  refine nwp_seq (nwp_iupdate (n := { n with nlink := l }) ⟨hh.isAt, hh.valid, ?_⟩ ?_) ?_
  · exact Function.update_self ..
  · exact h.room (k := 0) hN hroom
  · rintro - s' rfl
    refine hf _ (h.written ?_ ?_ rfl rfl (Finset.union_subset h.metas hN) h.datas)
    · simp [Fs.setNode, Fs.logs, h.node]
    · simp [Fs.setNode, h.stale]

lemma nwp_fillInode {type major minor : ℤ} {f : Unit → K α} (h : s.Holds t σ hold M d)
    (hr : r ∈ hold) (hread : r.read = true) (hn : σ r.inum = some (Node.new type))
    (hmajor : Bytes.IsShort major) (hminor : Bytes.IsShort minor)
    (hM : L.iblock r.inum ∈ M) (hroom : L.Room (M.card + d))
    (hf : ∀ s', s'.Holds t (Function.update σ r.inum (some ⟨type, major, minor, 1, []⟩)) hold M d →
      nwp L D (f ()) Q s') :
    nwp L D (setInode r.ip (fun i => { i with din := { i.din with major := major } }) >>= fun _ =>
      setInode r.ip (fun i => { i with din := { i.din with minor := minor } }) >>= fun _ =>
      setNlink r.ip (fun _ => 1) >>= fun _ => iupdate r.ip >>= f) Q s := by
  have hh := h.has hr hread hn
  refine nwp_of_rep fun ino v fm hrep => ?_
  have ht : type ≠ 0 := hrep.type_ne hh.node
  have hh' : ∀ {s' : Fs} {m m' : Node}, s'.Has r.ip r.inum m →
      (s'.setNode r.inum m').Has r.ip r.inum m' := fun hs =>
    ⟨hs.isAt, hs.valid, Function.update_self ..⟩
  refine nwp_setInode (m := ⟨type, major, 0, 0, []⟩) (g := fun d => { d with major := major }) hh
    (fun _ => rfl) (fun _ => rfl) rfl ht (fun d ht hj hm hk hfits =>
      ⟨⟨hfits.type, hmajor, hfits.minor, hfits.nlink, hfits.size, hfits.addrs⟩, ht, rfl, hm, hk⟩) ?_
  refine nwp_setInode (m := ⟨type, major, minor, 0, []⟩) (g := fun d => { d with minor := minor })
    (hh' hh) (fun _ => rfl) (fun _ => rfl) rfl ht (fun d ht hj hm hk hfits =>
      ⟨⟨hfits.type, hfits.major, hminor, hfits.nlink, hfits.size, hfits.addrs⟩, ht, hj, rfl, hk⟩) ?_
  refine nwp_setInode (m := ⟨type, major, minor, 1, []⟩)
    (g := fun d => { d with nlink := Bytes.toShort 1 }) (hh' (hh' hh)) (fun _ => rfl) (fun _ => rfl)
    rfl ht (fun d ht hj hm hk hfits => ⟨⟨hfits.type, hfits.major, hfits.minor,
      Bytes.isShort_toShort _, hfits.size, hfits.addrs⟩, ht, hj, hm, rfl⟩) ?_
  have hN : ({L.iblock r.inum} : Finset ℕ) ⊆ M := Finset.singleton_subset_iff.mpr hM
  refine nwp_seq (nwp_iupdate (hh' (hh' (hh' hh))) ?_) ?_
  · exact h.room (k := 0) hN hroom
  · rintro - s' rfl
    refine hf _ (h.written ?_ ?_ rfl rfl (Finset.union_subset h.metas hN) h.datas)
    · simp [Fs.setNode, Fs.logs, h.node]
    · simp [Fs.setNode, h.stale]

lemma nwp_alloc {type : ℤ} (h : s.Holds t σ hold M d) (ht : type ≠ 0)
    (htype : Bytes.IsShort type) (hroom : L.Room (M.card + 1 + d))
    (hres : L.scarce ∨ (entriesUsed t hold).card < NINODE ∧
      ∃ i, 0 < i ∧ i < L.sb.ninodes ∧ σ i = none) :
    nwp L D (ialloc ROOTDEV type) (fun ip s' => ∃ c, 0 < c ∧ c < L.sb.ninodes ∧ σ c = none ∧
      s'.Holds t (Function.update σ c (some (Node.new type))) (⟨ip, c, false⟩ :: hold)
        (insert (L.iblock c) M) d) s := by
  refine nwp_mono (nwp_ialloc h.stale ht htype
    (fun i _ => hroom.mono (Nat.add_le_add ?_ h.datas)) (hres.imp_right ?_)) ?_
  · calc (s.metas ∪ {L.iblock i}).card ≤ s.metas.card + 1 := Finset.card_union_le _ _
      _ ≤ M.card + 1 := Nat.add_le_add_right (Finset.card_le_card h.metas) 1
  · rintro ⟨hused, hfree⟩
    exact ⟨h.exists_unused hused, h.node ▸ hfree⟩
  · rintro ip s' ⟨c, hc₁, hc, hnone, hz, rfl⟩
    refine ⟨c, hc₁, hc, h.node ▸ hnone, ?_⟩
    refine ((h.fresh (i := c) hz).mono (Finset.subset_insert _ _) le_rfl).written ?_ h.stale rfl rfl
      (Finset.union_subset ?_ ?_) h.datas
    · rw [← h.node]
    · exact h.metas.trans (Finset.subset_insert _ _)
    · exact Finset.singleton_subset_iff.mpr (Finset.mem_insert_self _ _)

/-! ## Directories -/

lemma nwp_enter (name : Name) (inum : ℕ) (h : s.Holds t σ hold M d) (hr : r ∈ hold)
    (hread : r.read = true) (hn : σ r.inum = some n) (hd : n.IsDir) (hl : 0 < n.nlink)
    (hnone : findName name n.entries = none)
    (hend : DIRENTSIZE * freeSlot n.entries + DIRENTSIZE ≤ MAXFILE * BSIZE ∨
      L.Halts (.panic .dirlink))
    (hM : {L.bmapblock, L.iblock r.inum} ⊆ M) (hroom : L.Room (M.card + (d + 2)))
    (hfree : L.scarce ∨
      L.Spare σ n.data.length (DIRENTSIZE * freeSlot n.entries + DIRENTSIZE)) :
    nwp L D (dirlink r.ip name inum) (fun x s' => x = true ∧ s'.Holds t (Function.update σ r.inum
      (some (n.putDirent (freeSlot n.entries) ⟨inum, strncpy name⟩))) hold M (d + 2)) s := by
  refine nwp_mono (nwp_dirlink (h.has hr hread hn) (h.not_stale _) hd hl hnone hend
    (h.room hM hroom) (h.node ▸ hfree)) ?_
  rintro x s' ⟨rfl, rfl⟩
  rw [h.node]
  exact ⟨rfl, h.change hM⟩

lemma nwp_clear {k : ℕ} {e : Dirent} (h : s.Holds t σ hold M d) (hr : r ∈ hold)
    (hread : r.read = true) (hn : σ r.inum = some n) (hd : n.IsDir) (hk : k < n.entries.length)
    (hM : {L.bmapblock, L.iblock r.inum} ⊆ M) (hroom : L.Room (M.card + (d + 2))) :
    nwp L D (writei r.ip e.bytes (DIRENTSIZE * k)) (fun x s' => x = some DIRENTSIZE ∧
      s'.Holds t (Function.update σ r.inum (some (n.putDirent k e))) hold M (d + 2)) s := by
  refine nwp_of_rep fun ino v fm hrep => ?_
  have hlen := hrep.length_le (h.node ▸ hn)
  have hend : DIRENTSIZE * k + DIRENTSIZE ≤ MAXFILE * BSIZE := (hd.le_length hk).trans hlen
  refine nwp_mono (nwp_writei_dirent (h.has hr hread hn) (h.not_stale _) hd hk.le hend
    (h.room hM hroom) (.inr (hrep.spare_of_le (hd.le_length hk)))) ?_
  rintro x s' ⟨rfl, rfl⟩
  rw [h.node]
  exact ⟨rfl, h.change hM⟩

/-! ## The last reference -/

/-- `iput` of a node without links frees it, unless somebody else has a reference. -/
lemma nwp_release (h : s.Holds t σ (⟨ip, i, true⟩ :: hold) M d) (hn : σ i = some n)
    (hz : n.nlink = 0) (hM : {L.bmapblock, L.iblock i} ⊆ M) (hroom : L.Room (M.card + d)) :
    nwp L D (iput ip) (fun _ s' =>
      (t.refs ip = 0 ∧ refsTo hold ip = 0 ∧ s'.Holds t (Function.update σ i none) hold M d) ∨
      (0 < t.refs ip + refsTo hold ip ∧ s'.Holds t σ hold M d)) s := by
  have hmem : (⟨ip, i, true⟩ : Ref) ∈ (⟨ip, i, true⟩ :: hold : List Ref) := List.mem_cons_self ..
  have hh : s.Has ip i n := h.has hmem rfl hn
  have href := h.ref ip
  rw [refsTo_cons, if_pos rfl] at href
  by_cases hone : (s.ic ip).ref = 1
  · refine nwp_mono (nwp_iput_free hh hz hone (h.room (k := 0) hM hroom)) ?_
    rintro - s' rfl
    have h0 : t.refs ip = 0 ∧ refsTo hold ip = 0 := by omega
    refine Or.inl ⟨h0.1, h0.2, ?_⟩
    -- nobody else looks at the entry
    have hdrop : (s.setEntry ip ⟨i, 0, false⟩).Holds t σ hold M d := by
      refine h.setEntry (by simp [h0]) (fun jp hjp => ?_) (fun r hr _ => List.mem_cons_of_mem _ hr)
        (fun r hr hrip => ?_) fun f hf hfip => ?_
      · rw [refsTo_cons, if_neg (Ne.symm hjp), Nat.add_zero]
      · exact absurd h0.2 (hrip ▸ (refsTo_pos hr).ne')
      · exact absurd h0.1 (hfip ▸ (Table.refs_pos hf).ne')
    refine hdrop.written ?_ ?_ rfl rfl (Finset.union_subset h.metas hM) h.datas
    · rw [← h.node]
    · simp [h.stale]
  · refine nwp_mono (nwp_iput_drop hh.isAt hh.node fun _ _ => hone) ?_
    rintro - s' rfl
    refine Or.inr ⟨by omega, ?_⟩
    exact h.dropped

/-! ## Open files -/

def Table.set (t : Table) (f : Fin NFILE) (g : File) (i : ℕ) : Table where
  file := Function.update t.file f g
  inum := Function.update t.inum f i

lemma Table.refs_set (t : Table) (f : Fin NFILE) (g : File) (i : ℕ) (jp : Fin NINODE) :
    (t.set f g i).refs jp + (if (t.file f).type = .inode ∧ (t.file f).ip = jp then 1 else 0) =
      t.refs jp + (if g.type = .inode ∧ g.ip = jp then 1 else 0) := by
  -- the other files count the same on both sides
  have hsplit : ∀ t' : Table, (∀ f' ≠ f, t'.file f' = t.file f') → t'.refs jp =
      ((Finset.univ.erase f).filter fun f' =>
        (t.file f').type = .inode ∧ (t.file f').ip = jp).card +
        (if (t'.file f).type = .inode ∧ (t'.file f).ip = jp then 1 else 0) := by
    intro t' ht'
    have hrest : ((Finset.univ.erase f).filter fun f' =>
        (t.file f').type = .inode ∧ (t.file f').ip = jp) =
        (Finset.univ.filter fun f' =>
          (t'.file f').type = .inode ∧ (t'.file f').ip = jp).erase f := by
      ext x
      simp only [Finset.mem_filter, Finset.mem_erase, Finset.mem_univ, and_true, true_and]
      refine and_congr_right fun hx => ?_
      rw [ht' x hx]
    rw [hrest, Table.refs]
    split_ifs with hf
    · have hmem : f ∈ Finset.univ.filter fun f' =>
          (t'.file f').type = .inode ∧ (t'.file f').ip = jp := by simp [hf]
      rw [Finset.card_erase_of_mem hmem, Nat.sub_add_cancel (Finset.card_pos.mpr ⟨f, hmem⟩)]
    · rw [Finset.erase_eq_of_notMem (by simp [hf]), Nat.add_zero]
  rw [hsplit (t.set f g i) fun f' hf' => Function.update_of_ne hf' _ _, hsplit t fun _ _ => rfl]
  simp only [Table.set, Function.update_self]
  omega

section

variable {f : Fin NFILE} {g : File}

lemma Table.ne_of_set_closed (t : Table) {f' : Fin NFILE} (hg : g.type = .none)
    (hf' : ((t.set f g i).file f').type = .inode) : f' ≠ f := by
  rintro rfl
  simp [Table.set, hg] at hf'

lemma Fs.Holds.setFile (h : s.Holds t σ hold M d) (hf : (t.file f).type = .none)
    (hg : g.type = .none) : (s.setFile f g).Holds (t.set f g i) σ hold M d where
  node := h.node
  stale := h.stale
  file := by
    rw [Fs.setFile, h.file]
    rfl
  ref ip := by
    have := t.refs_set f g i ip
    simp only [hf, hg, reduceCtorEq, false_and, if_false, Nat.add_zero] at this
    rw [this]
    exact h.ref ip
  inum := h.inum
  read := h.read
  fileInum f' hf' := by
    have hne := t.ne_of_set_closed hg hf'
    simp only [Table.set, Function.update_of_ne hne] at hf' ⊢
    exact h.fileInum f' hf'
  fileRead f' hf' := by
    have hne := t.ne_of_set_closed hg hf'
    simp only [Table.set, Function.update_of_ne hne] at hf' ⊢
    exact h.fileRead f' hf'
  metas := h.metas
  datas := h.datas

lemma Fs.Holds.openFile (h : s.Holds t σ (⟨ip, i, true⟩ :: hold) M d)
    (hf : (t.file f).type = .none) (hg : g.type = .inode) (hip : g.ip = ip) :
    (s.setFile f g).Holds (t.set f g i) σ hold M d where
  node := h.node
  stale := h.stale
  file := by
    rw [Fs.setFile, h.file]
    rfl
  ref jp := by
    have := t.refs_set f g i jp
    simp only [hf, hg, hip, reduceCtorEq, false_and, if_false, true_and, Nat.add_zero] at this
    have hr := h.ref jp
    rw [refsTo_cons] at hr
    show (s.ic jp).ref = _
    rw [hr, this]
    show _ + (_ + if ip = jp then 1 else 0) = _
    omega
  inum r hr := h.inum r (List.mem_cons_of_mem _ hr)
  read r hr := h.read r (List.mem_cons_of_mem _ hr)
  fileInum f' hf' := by
    by_cases hne : f' = f
    · subst hne
      simp only [Table.set, Function.update_self, hip]
      exact h.inum _ (List.mem_cons_self ..)
    · simp only [Table.set, Function.update_of_ne hne] at hf' ⊢
      exact h.fileInum f' hf'
  fileRead f' hf' := by
    by_cases hne : f' = f
    · subst hne
      simp only [Table.set, Function.update_self, hip]
      exact h.read _ (List.mem_cons_self ..) rfl
    · simp only [Table.set, Function.update_of_ne hne] at hf' ⊢
      exact h.fileRead f' hf'
  metas := h.metas
  datas := h.datas

lemma Fs.Holds.closeFile (h : s.Holds t σ hold M d) (hf : (t.file f).type = .inode)
    (hg : g.type = .none) : (s.setFile f g).Holds (t.set f g i) σ
      (⟨(t.file f).ip, t.inum f, true⟩ :: hold) M d where
  node := h.node
  stale := h.stale
  file := by
    rw [Fs.setFile, h.file]
    rfl
  ref jp := by
    have := t.refs_set f g i jp
    simp only [hf, hg, reduceCtorEq, false_and, if_false, true_and, Nat.add_zero] at this
    rw [refsTo_cons]
    show (s.ic jp).ref = _
    rw [h.ref, ← this]
    show _ = _ + (_ + if (t.file f).ip = jp then 1 else 0)
    omega
  inum r hr := by
    rcases List.mem_cons.mp hr with rfl | hr
    · exact h.fileInum f hf
    · exact h.inum r hr
  read r hr hread := by
    rcases List.mem_cons.mp hr with rfl | hr
    · exact h.fileRead f hf
    · exact h.read r hr hread
  fileInum f' hf' := by
    have hne := t.ne_of_set_closed hg hf'
    simp only [Table.set, Function.update_of_ne hne] at hf' ⊢
    exact h.fileInum f' hf'
  fileRead f' hf' := by
    have hne := t.ne_of_set_closed hg hf'
    simp only [Table.set, Function.update_of_ne hne] at hf' ⊢
    exact h.fileRead f' hf'
  metas := h.metas
  datas := h.datas

lemma Fs.Holds.setOff (h : s.Holds t σ hold M d) (off : ℕ) :
    (s.setFile f { t.file f with off := off }).Holds
      (t.set f { t.file f with off := off } (t.inum f)) σ hold M d where
  node := h.node
  stale := h.stale
  file := by
    rw [Fs.setFile, h.file]
    rfl
  ref jp := by
    have := t.refs_set f { t.file f with off := off } (t.inum f) jp
    rw [Nat.add_right_cancel this]
    exact h.ref jp
  inum := h.inum
  read := h.read
  fileInum f' hf' := by
    by_cases hne : f' = f
    · subst hne
      simp only [Table.set, Function.update_self] at hf' ⊢
      exact h.fileInum f' hf'
    · simp only [Table.set, Function.update_of_ne hne] at hf' ⊢
      exact h.fileInum f' hf'
  fileRead f' hf' := by
    by_cases hne : f' = f
    · subst hne
      simp only [Table.set, Function.update_self] at hf' ⊢
      exact h.fileRead f' hf'
    · simp only [Table.set, Function.update_of_ne hne] at hf' ⊢
      exact h.fileRead f' hf'
  metas := h.metas
  datas := h.datas

lemma Fs.Holds.has_file (h : s.Holds t σ hold M d) (hf : (t.file f).type = .inode)
    (hn : σ (t.inum f) = some n) : s.Has (t.file f).ip (t.inum f) n where
  isAt := ⟨by
    rw [h.ref]
    exact Nat.add_pos_left (Table.refs_pos hf) _, h.fileInum f hf⟩
  valid := h.fileRead f hf
  node := h.node ▸ hn

lemma nwp_iread_file (h : s.Holds t σ hold M d) (hf : (t.file f).type = .inode)
    (hn : σ (t.inum f) = some n) : nwp L D (iread (t.file f).ip) (fun _ s' => s' = s) s := by
  have hh := h.has_file hf hn
  refine nwp_mono (nwp_iread hh.isAt hh.node (Or.inr hh.valid)) ?_
  rintro - s' rfl
  rw [Fs.setEntry, ← hh.valid, Function.update_eq_self]

end

lemma nwp_end {f : Unit → K α} (h : s.Holds t σ hold M d) (hD : L.Durable D σ)
    (hf : ∀ s', s'.Holds t σ hold ∅ 0 → nwp L D (f ()) Q s') : nwp L D (endOp >>= f) Q s := by
  refine nwp_endOp h.stale (h.node ▸ hD) (hf _ ?_)
  exact { h with metas := Finset.Subset.refl _, datas := le_rfl }

end

end Xv6
