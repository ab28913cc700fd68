import Xv6.Fs.Map
import Xv6.Mkfs.Empty

/-!
# Directories of a mounted volume

`dirlookup` and `dirlink` on the machine, in a directory with whole entries and unique names:
the first looks into the map that the directory is, the second adds to it, and the write that
`unlink` makes at the offset it gets from `dirlookup` takes a name away.

Two things are needed besides.  The directory has a link, since `readi` refuses an inode without
one and then both functions panic; and `iget` finds an entry of the inode cache.
-/

namespace Xv6

open Lib

section

variable {L : Layout} {s : Fs} {ino : Inos} {v : Vol} {m : Machine} {fm : FsMem} {dp : Fin NINODE}
  {i k : ℕ} {n : Node} {name : Name}

lemma Layout.Room.dirent {A : Finset ℕ} {a b : ℕ} (h : L.Room (A.card + 4)) :
    L.Room ((A ∪ {a, b}).card + (0 + 2)) := by
  refine h.mono ?_
  have h₁ := Finset.card_union_le A {a, b}
  have h₂ := Finset.card_le_two (a := a) (b := b)
  omega

lemma run_dirlookup (hlim : L.limit ≠ none) (hm : L.On v m) (hr : L.Rep ino s v fm)
    (hh : s.Has dp i n) (hd : n.IsDir) (hu : n.Unique) (hl : 0 < n.nlink)
    (hget : ∀ j ∈ n.dict name.text, s.CanGet j) :
    ∃ r m' fm', (dirlookup dp name).run kernelHandler (m, fm) = .ok r (m', fm') ∧ L.On v m' ∧
      match n.dict name.text with
      | none => r = none ∧ fm' = fm
      | some j => ∃ ip k, r = some (ip, DIRENTSIZE * k) ∧ n.Names k name.text j ∧
          Got fm j ip fm' := by
  obtain ⟨r, m', v', fm', hrun, hm', rfl, hf⟩ := fwp_returns (hr.ample.fwp_dirlookup hh hd hl
    fun e he hmatch => Or.inr (hget _ (hu.dict_of_matches he hmatch))) hlim hm
  refine ⟨r, m', fm', hrun, hm', ?_⟩
  cases hf with
  | missing hnone => simp [Node.findName_eq_none_iff_dict.mp hnone]
  | found hk he hg =>
    obtain ⟨e', he', hmatch⟩ := findName_eq_some hk
    obtain rfl := Option.some.inj (he.symm.trans he')
    rw [Node.dict_of_findName hk he hu]
    exact ⟨_, _, rfl, Node.names_of_matches he hmatch, hg⟩

lemma run_dirlink_present (hlim : L.limit ≠ none) (hm : L.On v m) (hr : L.Rep ino s v fm)
    (hh : s.Has dp i n) (hd : n.IsDir) (hu : n.Unique) (hl : 0 < n.nlink)
    (hget : ∀ j ∈ n.dict name.text, s.CanGet j) (hsome : n.dict name.text ≠ none) (inum : ℕ) :
    ∃ m' fm' s', (dirlink dp name inum).run kernelHandler (m, fm) = .ok false (m', fm') ∧
      L.On v m' ∧ L.Rep ino s' v fm' ∧ s'.node = s.node := by
  obtain ⟨r, m', v', fm', hrun, hm', rfl, rfl, s', hr', hnode, -⟩ :=
    fwp_returns (hr.ample.fwp_dirlink_present inum hh hd hl
      (fun e he hmatch => Or.inr (hget _ (hu.dict_of_matches he hmatch)))
      fun h => hsome (Node.findName_eq_none_iff_dict.mp h)) hlim hm
  exact ⟨m', fm', s', hrun, hm', hr'.of_ample, hnode⟩

lemma run_dirlink_absent (hlim : L.limit ≠ none) (hm : L.On v m) (hr : L.Rep ino s v fm)
    (hs : s.stale = ∅) (hh : s.Has dp i n) (hd : n.IsDir) (hl : 0 < n.nlink)
    (hnone : n.dict name.text = none) (inum : ℕ)
    (hend : DIRENTSIZE * freeSlot n.entries + DIRENTSIZE ≤ MAXFILE * BSIZE)
    (hroom : L.Room (v.logged.card + 4))
    (hspare : L.Spare s.node n.data.length (DIRENTSIZE * freeSlot n.entries + DIRENTSIZE)) :
    ∃ m' fm' s', (dirlink dp name inum).run kernelHandler (m, fm) = .ok true (m', fm') ∧
      L.Mounted s' m' fm' ∧ s'.node = Function.update s.node i
        (some (n.putDirent (freeSlot n.entries) ⟨inum, strncpy name⟩)) := by
  have hlink : nwp L.ample (fun _ => True) (dirlink dp name inum) _
      { s with metas := v.logged, datas := 0 } :=
    nwp_dirlink ⟨hh.isAt, hh.valid, hh.node⟩ (by simp [hs]) hd hl
      (Node.findName_eq_none_iff_dict.mpr hnone) (Or.inl hend) hroom.dirent (Or.inr hspare)
  obtain ⟨r, m', fm', s', hrun, hm', rfl, rfl⟩ := nwp_returns hlink hlim ⟨v, ino, hm, hr.recount⟩
  exact ⟨m', fm', _, hrun, hm', rfl⟩

lemma run_clear (hlim : L.limit ≠ none) (hm : L.On v m) (hr : L.Rep ino s v fm) (hs : s.stale = ∅)
    (hh : s.Has dp i n) (hd : n.IsDir) (hk : k < n.entries.length)
    (hroom : L.Room (v.logged.card + 4)) :
    ∃ m' fm' s', (writei dp (Dirent.bytes ⟨0, Bytes.zero⟩) (DIRENTSIZE * k)).run kernelHandler
        (m, fm) = .ok (some DIRENTSIZE) (m', fm') ∧
      L.Mounted s' m' fm' ∧ s'.node = Function.update s.node i
        (some (n.putDirent k ⟨0, Bytes.zero⟩)) := by
  have hin : DIRENTSIZE * k + DIRENTSIZE ≤ n.data.length := hd.le_length (k := k + 1) hk
  have hwrite : nwp L.ample (fun _ => True)
      (writei dp (Dirent.bytes ⟨0, Bytes.zero⟩) (DIRENTSIZE * k)) _
      { s with metas := v.logged, datas := 0 } :=
    nwp_writei_dirent ⟨hh.isAt, hh.valid, hh.node⟩ (by simp [hs]) hd hk.le
      (hin.trans (hr.length_le hh.node)) hroom.dirent (Or.inr (hr.spare_of_le hin))
  obtain ⟨r, m', fm', s', hrun, hm', rfl, rfl⟩ := nwp_returns hwrite hlim ⟨v, ino, hm, hr.recount⟩
  exact ⟨m', fm', _, hrun, hm', rfl⟩

end

/-- **A directory is a partial map from names to inode numbers.**  In a directory with whole
entries, unique names and a link, whatever inodes its entries name:

* `dirlookup` returns the inode and the offset of the entry with the name, or 0 if there is none;
* `dirlink` returns -1 and changes nothing if the name is there, and otherwise adds it in the first
  free slot, at the end only if there is none;
* a zero entry at the offset of a name takes this name away. -/
theorem directory_map {L : Layout} (hlim : L.limit ≠ none) {s : Fs} {ino : Inos} {v : Vol}
    {m : Machine} {fm : FsMem} (hm : L.On v m) (hr : L.Rep ino s v fm) (hs : s.stale = ∅)
    {dp : Fin NINODE} {i : ℕ} {n : Node} (hh : s.Has dp i n) (hd : n.IsDir) (hu : n.Unique)
    (hl : 0 < n.nlink) (name : Name) (hget : ∀ j ∈ n.dict name.text, s.CanGet j) :
    (∃ r m' fm', (dirlookup dp name).run kernelHandler (m, fm) = .ok r (m', fm') ∧ L.On v m' ∧
      match n.dict name.text with
      | none => r = none ∧ fm' = fm
      | some j => ∃ ip k, r = some (ip, DIRENTSIZE * k) ∧ n.Names k name.text j ∧
          Got fm j ip fm') ∧
    (∀ inum, 1 ≤ inum → inum ≤ 65535 →
      (n.dict name.text ≠ none → ∃ m' fm' s',
        (dirlink dp name inum).run kernelHandler (m, fm) = .ok false (m', fm') ∧
        L.On v m' ∧ L.Rep ino s' v fm' ∧ s'.node = s.node) ∧
      (n.dict name.text = none →
        DIRENTSIZE * freeSlot n.entries + DIRENTSIZE ≤ MAXFILE * BSIZE →
        L.Room (v.logged.card + 4) →
        L.Spare s.node n.data.length (DIRENTSIZE * freeSlot n.entries + DIRENTSIZE) →
        ∃ m' fm' s' n', (dirlink dp name inum).run kernelHandler (m, fm) = .ok true (m', fm') ∧
          L.Mounted s' m' fm' ∧ s'.node = Function.update s.node i (some n') ∧
          n'.IsDir ∧ n'.Unique ∧ n'.dict = Function.update n.dict name.text (some inum) ∧
          n'.Names (freeSlot n.entries) name.text inum ∧
          n'.data.length = if freeSlot n.entries < n.entries.length then n.data.length
            else n.data.length + DIRENTSIZE)) ∧
    (∀ k j, n.Names k name.text j → L.Room (v.logged.card + 4) →
      ∃ m' fm' s' n', (writei dp (Dirent.bytes ⟨0, Bytes.zero⟩) (DIRENTSIZE * k)).run
          kernelHandler (m, fm) = .ok (some DIRENTSIZE) (m', fm') ∧
        L.Mounted s' m' fm' ∧ s'.node = Function.update s.node i (some n') ∧
        n'.IsDir ∧ n'.Unique ∧ n'.dict = Function.update n.dict name.text none ∧
        n'.data.length = n.data.length) := by
  refine ⟨run_dirlookup hlim hm hr hh hd hu hl hget, fun inum h₁ h₂ => ⟨fun hsome => ?_,
    fun hnone hend hroom hspare => ?_⟩, fun k j hk hroom => ?_⟩
  · exact run_dirlink_present hlim hm hr hh hd hu hl hget hsome inum
  · obtain ⟨m', fm', s', hrun, hm', hnode⟩ :=
      run_dirlink_absent hlim hm hr hs hh hd hl hnone inum hend hroom hspare
    have hlt : inum < 65536 := Nat.lt_succ_of_le h₂
    obtain ⟨hu', hdict⟩ :=
      Node.Unique.putDirent_freeSlot hd hu hnone (Nat.one_le_iff_ne_zero.mp h₁) hlt
    refine ⟨m', fm', s', _, hrun, hm', hnode, hd.putDirent freeSlot_le, hu', hdict, ?_,
      hd.length_putDirent_freeSlot⟩
    rw [Node.names_putDirent hd freeSlot_le hlt, if_pos rfl, text_strncpy]
    exact ⟨rfl, Nat.one_le_iff_ne_zero.mp h₁, rfl⟩
  · obtain ⟨m', fm', s', hrun, hm', hnode⟩ := run_clear hlim hm hr hs hh hd hk.lt hroom
    obtain ⟨hu', hdict⟩ := Node.Unique.putDirent_zero hd hu hk
    exact ⟨m', fm', s', _, hrun, hm', hnode, hd.putDirent hk.lt.le, hu', hdict,
      hd.length_putDirent_of_lt hk.lt⟩

namespace Mkfs

section

variable {n : Node} {k i : ℕ} {text : List UInt8}

lemma entries_of_data (hn : n.data = emptyData) : n.entries = (rootNode emptyData).entries := by
  rw [Node.entries, hn]
  rfl

lemma names_of_data (hn : n.data = emptyData) (h : n.Names k text i) :
    k = 0 ∧ text = dot.text ∨ k = 1 ∧ text = dotdot.text := by
  obtain ⟨hz, name, he, rfl⟩ := h
  rw [entries_of_data hn, ← slot_root] at he
  obtain ⟨-, ⟨hk, he⟩ | ⟨hk, he⟩ | hz'⟩ := slot_emptyNodes he
  · exact Or.inl ⟨hk, congrArg Name.text (Dirent.mk.inj he).2⟩
  · exact Or.inr ⟨hk, congrArg Name.text (Dirent.mk.inj he).2⟩
  · exact absurd hz' hz

lemma unique_of_data (hn : n.data = emptyData) : n.Unique := by
  have hdots : dot.text ≠ dotdot.text := by decide
  intro j k text i i' hj hk
  rcases names_of_data hn hj with ⟨rfl, rfl⟩ | ⟨rfl, rfl⟩ <;>
    rcases names_of_data hn hk with ⟨rfl, ht⟩ | ⟨rfl, ht⟩
  · rfl
  · exact absurd ht hdots
  · exact absurd ht.symm hdots
  · rfl

lemma isDir_of_data (hn : n.data = emptyData) (ht : n.type = T_DIR) : n.IsDir := by
  refine ⟨ht, ?_⟩
  rw [hn]
  decide +kernel

lemma names_dot_of_data (hn : n.data = emptyData) : n.Names 0 dot.text ROOTINO := by
  refine ⟨by decide, dot, ?_, rfl⟩
  rw [entries_of_data hn, entries_emptyData]
  rfl

lemma names_dotdot_of_data (hn : n.data = emptyData) : n.Names 1 dotdot.text ROOTINO := by
  refine ⟨by decide, dotdot, ?_, rfl⟩
  rw [entries_of_data hn, entries_emptyData]
  rfl

lemma dict_dot_of_data (hn : n.data = emptyData) : n.dict dot.text = some ROOTINO :=
  Node.Unique.dict_eq_some_iff (unique_of_data hn) |>.mpr ⟨0, names_dot_of_data hn⟩

lemma dict_dotdot_of_data (hn : n.data = emptyData) : n.dict dotdot.text = some ROOTINO :=
  Node.Unique.dict_eq_some_iff (unique_of_data hn) |>.mpr ⟨1, names_dotdot_of_data hn⟩

lemma dict_eq_none_of_data (hn : n.data = emptyData) (hdot : text ≠ dot.text)
    (hdotdot : text ≠ dotdot.text) : n.dict text = none := by
  refine Node.dict_eq_none_iff.mpr fun k j hk => ?_
  rcases names_of_data hn hk with ⟨-, ht⟩ | ⟨-, ht⟩
  · exact hdot ht
  · exact hdotdot ht

end

end Mkfs

/-- The root directory of the empty image.  `..` is found in its second entry; a link to inode 2
makes it name three inodes, in the third entry; and zeros over the second entry leave the first. -/
theorem directory_map_root : ∃ (s : Fs) (m : Machine) (fm : FsMem) (dp : Fin NINODE),
    Mkfs.layout.Mounted s m fm ∧ s.Has dp ROOTINO (Mkfs.rootNode Mkfs.emptyData) ∧
      (∃ ip t, (dirlookup dp dotdot).run kernelHandler (m, fm) =
        .ok (some (ip, DIRENTSIZE * 1)) t) ∧
      (∃ m' fm' s' n', (dirlink dp (nameOf [97]) 2).run kernelHandler (m, fm) =
          .ok true (m', fm') ∧
        Mkfs.layout.Mounted s' m' fm' ∧ s'.node = Function.update s.node ROOTINO (some n') ∧
        n'.Names 2 (nameOf [97]).text 2 ∧ n'.dict (nameOf [97]).text = some 2 ∧
        n'.dict dot.text = some ROOTINO ∧ n'.dict dotdot.text = some ROOTINO) ∧
      ∃ m' fm' s' n', (writei dp (Dirent.bytes ⟨0, Bytes.zero⟩) (DIRENTSIZE * 1)).run
          kernelHandler (m, fm) = .ok (some DIRENTSIZE) (m', fm') ∧
        Mkfs.layout.Mounted s' m' fm' ∧ s'.node = Function.update s.node ROOTINO (some n') ∧
        n'.dict dotdot.text = none ∧ n'.dict dot.text = some ROOTINO := by
  obtain ⟨s, m, fm, dp, ⟨v, ino, hon, hr⟩, hs⟩ := Mkfs.exists_root []
  have hh : s.Has dp ROOTINO (Mkfs.rootNode Mkfs.emptyData) :=
    hs.has (List.mem_cons_self ..) rfl Mkfs.emptyNodes_root
  have hdot := Mkfs.dict_dot_of_data (n := Mkfs.rootNode Mkfs.emptyData) rfl
  have hdotdot := Mkfs.dict_dotdot_of_data (n := Mkfs.rootNode Mkfs.emptyData) rfl
  have hnew : (Mkfs.rootNode Mkfs.emptyData).dict (nameOf [97]).text = none :=
    Mkfs.dict_eq_none_of_data rfl (by decide) (by decide)
  have hmap := fun name => directory_map (Option.some_ne_none _) hon hr hs.stale hh
    (Mkfs.isDir_of_data rfl rfl) (Mkfs.unique_of_data rfl) (by decide) name
  have hget : ∀ j ∈ (Mkfs.rootNode Mkfs.emptyData).dict dotdot.text, s.CanGet j := by
    intro j hj
    obtain rfl := Option.some.inj (hdotdot.symm.trans hj)
    exact ⟨dp, Or.inl hh.isAt⟩
  -- nothing is in the log, and the third entry is inside the block that the directory has
  have hroom : Mkfs.layout.Room (v.logged.card + 4) := by
    obtain ⟨X, hX, hsub⟩ := hr.logged
    have hcard := (Finset.card_le_card hsub).trans (Finset.card_union_le _ _)
    rw [Finset.subset_empty.mp hs.metas, Finset.card_empty] at hcard
    have hdatas := hs.datas
    exact fun l hl => by cases hl; norm_num; omega
  have hin : DIRENTSIZE * 2 + DIRENTSIZE ≤ (Mkfs.rootNode Mkfs.emptyData).data.length := by
    rw [show (Mkfs.rootNode Mkfs.emptyData).data.length = 512 from Mkfs.length_emptyData]
    decide
  refine ⟨s, m, fm, dp, ⟨v, ino, hon, hr⟩, hh, ?_, ?_, ?_⟩
  · have hfound := (hmap dotdot hget).1
    rw [hdotdot] at hfound
    obtain ⟨_, m', fm', hrun, -, ip, k, rfl, hk, -⟩ := hfound
    obtain rfl := Mkfs.unique_of_data rfl hk (Mkfs.names_dotdot_of_data rfl)
    exact ⟨ip, (m', fm'), hrun⟩
  · obtain ⟨-, hlink, -⟩ := hmap (nameOf [97]) (by simp [hnew])
    have habsent := (hlink 2 (by decide) (by decide)).2 hnew
    rw [Mkfs.freeSlot_root] at habsent
    obtain ⟨m', fm', s', n', hrun, hm', hnode, -, -, hdict, hnames, -⟩ :=
      habsent (by decide) hroom (hr.spare_of_le hin)
    refine ⟨m', fm', s', n', hrun, hm', hnode, hnames, ?_, ?_, ?_⟩
    · rw [hdict, Function.update_self]
    · rw [hdict, Function.update_of_ne (by decide), hdot]
    · rw [hdict, Function.update_of_ne (by decide), hdotdot]
  · obtain ⟨m', fm', s', n', hrun, hm', hnode, -, -, hdict, -⟩ :=
      (hmap dotdot hget).2.2 1 ROOTINO (Mkfs.names_dotdot_of_data rfl) hroom
    refine ⟨m', fm', s', n', hrun, hm', hnode, ?_, ?_⟩
    · rw [hdict, Function.update_self]
    · rw [hdict, Function.update_of_ne (by decide), hdot]

lemma run_dirlookup_unlinked {dp : Fin NINODE} {m : Machine} {fm : FsMem}
    (ht : (fm.icache dp).din.type = T_DIR) (hl : (fm.icache dp).din.nlink < 1)
    (hsize : 0 < (fm.icache dp).din.size) (name : Name) :
    (dirlookup dp name).run kernelHandler (m, fm) = .error (.panic .dirlookupRead) (m, fm) := by
  have hnode : (readInode dp).run kernelHandler (m, fm) = .ok (fm.icache dp) (m, fm) := rfl
  have hread : (readi dp 0 DIRENTSIZE).run kernelHandler (m, fm) = .ok none (m, fm) := by
    rw [readi, Prog.run_bind_ok _ hnode, if_neg (by rw [ht]; decide), if_pos (Or.inr (Or.inr hl))]
    rfl
  have hloop : ∀ turns, (dirlookupFrom dp name (turns + 1) 0).run kernelHandler (m, fm) =
      .error (.panic .dirlookupRead) (m, fm) := fun turns => by
    rw [dirlookupFrom, Prog.run_bind_ok _ hnode, if_pos hsize, Prog.run_bind_ok _ hread]
    rfl
  rw [dirlookup, Prog.run_bind_ok _ hnode, if_neg (not_not.mpr ht)]
  exact hloop (OFFTURNS - 1)

/-- The root directory of the empty image, without its link. -/
def Mkfs.unlinkedRoot : Node := ⟨T_DIR, 0, 0, 0, emptyData⟩

/-- The link count of the root directory goes down to 0, in memory and on the drive. -/
lemma Mkfs.exists_unlinkedRoot : ∃ s m fm dp, layout.Mounted s m fm ∧
    s.Has dp ROOTINO unlinkedRoot ∧ s.stale = ∅ := by
  obtain ⟨s, m, fm, dp, hm, hs⟩ := exists_root []
  have hh : s.Has dp ROOTINO (rootNode emptyData) :=
    hs.has (List.mem_cons_self ..) rfl emptyNodes_root
  have hh' : (s.setNode ROOTINO unlinkedRoot).Has dp ROOTINO unlinkedRoot :=
    ⟨hh.isAt, hh.valid, by simp [Fs.setNode]⟩
  have hunlink : nwp layout.ample (fun _ => True) (do
      setInode dp fun e => { e with din := { e.din with nlink := 0 } }
      iupdate dp) (fun _ s' => s'.Has dp ROOTINO unlinkedRoot ∧ s'.stale = ∅) s := by
    refine nwp_setInode (g := fun d => { d with nlink := 0 }) (m := unlinkedRoot) hh (fun _ => rfl)
      (fun _ => rfl) rfl (by decide) (fun d ht hmaj hmin _ hf => ⟨?_, ht, hmaj, hmin, rfl⟩) ?_
    · exact { hf with nlink := by norm_num [Bytes.IsShort] }
    · refine nwp_mono (nwp_iupdate hh' ?_) ?_
      · have hcard : ((s.setNode ROOTINO unlinkedRoot).metas ∪ {layout.iblock ROOTINO}).card +
            (s.setNode ROOTINO unlinkedRoot).datas ≤ 1 := by
          rw [show (s.setNode ROOTINO unlinkedRoot).metas = ∅ from Finset.subset_empty.mp hs.metas,
            Finset.empty_union, Finset.card_singleton]
          exact Nat.add_le_add_left hs.datas 1
        exact fun n hn => hcard.trans (by cases hn; decide)
      · rintro - s' rfl
        refine ⟨⟨hh'.isAt, hh'.valid, hh'.node⟩, ?_⟩
        show (insert ROOTINO s.stale).erase ROOTINO = ∅
        rw [hs.stale]
        rfl
  obtain ⟨-, m', fm', s', -, hm', h⟩ := nwp_returns hunlink (Option.some_ne_none _) hm
  exact ⟨s', m', fm', dp, hm', h⟩

/-- **A directory that has no link**, and meets all other conditions: `dirlookup` panics. -/
theorem unlinked_directory_panics : ∃ (s : Fs) (ino : Inos) (v : Vol) (m : Machine) (fm : FsMem)
    (dp : Fin NINODE) (n : Node), Mkfs.layout.On v m ∧ Mkfs.layout.Rep ino s v fm ∧ s.stale = ∅ ∧
      s.Has dp ROOTINO n ∧ n.IsDir ∧ n.Unique ∧ (∀ j ∈ n.dict dot.text, s.CanGet j) ∧
      n.dict dot.text = some ROOTINO ∧
      (dirlookup dp dot).run kernelHandler (m, fm) = .error (.panic .dirlookupRead) (m, fm) := by
  obtain ⟨s, m, fm, dp, ⟨v, ino, hon, hr⟩, hh, hs⟩ := Mkfs.exists_unlinkedRoot
  have hdin := (hr.din hh).2
  have hdict := Mkfs.dict_dot_of_data (n := Mkfs.unlinkedRoot) rfl
  refine ⟨s, ino, v, m, fm, dp, Mkfs.unlinkedRoot, hon, hr, hs, hh, Mkfs.isDir_of_data rfl rfl,
    Mkfs.unique_of_data rfl, fun j hj => ?_, hdict,
    run_dirlookup_unlinked (congrArg Node.type hdin) ?_ ?_ dot⟩
  · obtain rfl := Option.some.inj (hdict.symm.trans hj)
    exact ⟨dp, Or.inl hh.isAt⟩
  · rw [show (fm.icache dp).din.nlink = 0 from congrArg Node.nlink hdin]
    decide
  · have hlen : (fm.icache dp).din.size = Mkfs.emptyData.length := by
      rw [show _ = ((fm.icache dp).din.content v.blk).length from Dinode.length_content.symm]
      exact congrArg (fun n => n.data.length) hdin
    rw [hlen]
    decide +kernel

end Xv6
