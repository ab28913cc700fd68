import Xv6.Fs.Resolve
import Xv6.Mounted.Directory

/-!
# Paths on a mounted volume

`namei` and `nameiparent` on the machine fold the lookup of names over the components of the path,
and hold one reference when they return an inode and none when they return 0.

`namei_follow` says so for every path and every state of a mounted volume in which the references
are those of the holders.  The fold is `Nodes.follow` of `Xv6.Fs.Resolve`, and the walk of the code
is followed in `Xv6.Fs.Path`; here both are carried over to the buffer cache.

While they run the functions hold two references, so that they need an entry of the inode cache that
nobody uses besides the one for their result: with a full cache even the path `/.` makes `iget`
panic (`crowded_namei_panics`).
-/

namespace Xv6

open Lib

/-- **Path resolution is a fold over the components of the path.**

* `namei` returns the inode that the components lead to from the root, or 0 if one of them is
  missing or is looked up in something that is not a directory;
* `nameiparent` returns the directory that all components but the last lead to, with the last in the
  buffer, or 0 if there is no component or they lead to no directory;
* one reference is held on success and none on failure;
* slashes end components and do nothing else. -/
theorem namei_follow {L : Layout} (hlim : L.limit ≠ none) {s : Fs} {m : Machine} {fm : FsMem}
    (hm : L.Mounted s m fm) {t : Table} {σ : Nodes} {hold : List Ref} {M : Finset ℕ} {d : ℕ}
    (hs : s.Holds t σ hold M d) (hσ : σ.Linked) (hfree : (entriesUsed t hold).card + 1 < NINODE)
    (path : CString) :
    (∃ r m' fm' s', (namei path).run kernelHandler (m, fm) = .ok r (m', fm') ∧
      L.Mounted s' m' fm' ∧
      match σ.follow (components path.bytes) ROOTINO with
      | none => r = none ∧ s'.Holds t σ hold M d
      | some i => ∃ ip c, r = some ip ∧ s'.Holds t σ (⟨ip, i, c⟩ :: hold) M d) ∧
    (∃ r m' fm' s', (nameiparent path).run kernelHandler (m, fm) = .ok r (m', fm') ∧
      L.Mounted s' m' fm' ∧
      match σ.followParent (components path.bytes) ROOTINO with
      | none => r = none ∧ s'.Holds t σ hold M d
      | some (i, c) => ∃ dp name, r = some (dp, name) ∧ name.text = c ∧
          s'.Holds t σ (⟨dp, i, true⟩ :: hold) M d) ∧
    ∀ p q, components (p ++ slash :: q) = components p ++ components q := by
  refine ⟨?_, ?_, components_append_slash⟩
  · obtain ⟨r, m', fm', s', hrun, hm', hQ⟩ :=
      nwp_returns (nwp_namei path hs hσ (Or.inr hfree)) hlim hm
    have hwalk : σ.resolve path = σ.follow (components path.bytes) ROOTINO :=
      Nodes.walk_false (Nat.lt_succ_self _) path.nonzero
    refine ⟨r, m', fm', s', hrun, hm', ?_⟩
    cases r with
    | none =>
      obtain ⟨hnone, hs'⟩ := hQ
      rw [← hwalk, hnone]
      exact ⟨rfl, hs'⟩
    | some ip =>
      obtain ⟨i, c, hsome, hs'⟩ := hQ
      rw [← hwalk, hsome]
      exact ⟨ip, c, rfl, hs'⟩
  · obtain ⟨r, m', fm', s', hrun, hm', hQ⟩ :=
      nwp_returns (nwp_nameiparent path hs hσ (Or.inr hfree)) hlim hm
    have hwalk : (σ.parent path).map (fun x => (x.1, x.2.text)) =
        σ.followParent (components path.bytes) ROOTINO :=
      Nodes.walk_true (Nat.lt_succ_self _) path.nonzero
    refine ⟨r, m', fm', s', hrun, hm', ?_⟩
    cases r with
    | none =>
      obtain ⟨hnone, hs'⟩ := hQ
      rw [← hwalk, hnone]
      exact ⟨rfl, hs'⟩
    | some x =>
      obtain ⟨dp, name⟩ := x
      obtain ⟨i, hsome, hs'⟩ := hQ
      rw [← hwalk, hsome]
      exact ⟨dp, name, rfl, rfl, hs'⟩

namespace Mkfs

lemma lookup_root (c : List UInt8) :
    emptyNodes.lookup ROOTINO c = (rootNode emptyData).dict c := by
  rw [Nodes.lookup, emptyNodes_root, Option.bind_some,
    if_pos (show (rootNode emptyData).type = T_DIR from rfl)]

/-- From the root, `.` and then `..` lead back to it. -/
lemma follow_dots (cs : List (List UInt8)) :
    emptyNodes.follow (dot.text :: dotdot.text :: cs) ROOTINO = emptyNodes.follow cs ROOTINO := by
  rw [Nodes.follow, List.foldlM_cons, lookup_root, dict_dot_of_data rfl, Option.bind_eq_bind,
    Option.bind_some, List.foldlM_cons, lookup_root, dict_dotdot_of_data rfl, Option.bind_eq_bind,
    Option.bind_some]
  rfl

/-- `/.///..` -/
def dotsPath : CString := ⟨[slash, 46, slash, slash, slash, 46, 46], by decide⟩

/-- `/.///../a/` -/
def newPath : CString := ⟨[slash, 46, slash, slash, slash, 46, 46, slash, 97, slash], by decide⟩

lemma components_newPath : components newPath.bytes = [dot.text, dotdot.text, [97]] := by
  decide +kernel

lemma follow_dotsPath : emptyNodes.follow (components dotsPath.bytes) ROOTINO = some ROOTINO := by
  rw [show components dotsPath.bytes = [dot.text, dotdot.text] by decide +kernel, follow_dots]
  rfl

lemma follow_newPath : emptyNodes.follow (components newPath.bytes) ROOTINO = none := by
  rw [components_newPath, follow_dots, Nodes.follow, List.foldlM_cons, lookup_root,
    dict_eq_none_of_data rfl (by decide) (by decide)]
  rfl

lemma followParent_newPath :
    emptyNodes.followParent (components newPath.bytes) ROOTINO = some (ROOTINO, [97]) := by
  have hlast : [dot.text, dotdot.text, [97]].getLast? = some [97] := rfl
  have hinit : [dot.text, dotdot.text, [97]].dropLast = [dot.text, dotdot.text] := rfl
  have hfollow : emptyNodes.follow [dot.text, dotdot.text] ROOTINO = some ROOTINO :=
    follow_dots []
  rw [components_newPath, Nodes.followParent, hlast, hinit, hfollow]
  simp only [Option.bind_eq_bind, Option.bind_some, emptyNodes_root]
  exact if_pos rfl

end Mkfs

/-- On the empty image `/.///..` is the root directory, `/.///../a/` is nothing, and its parent is
the root directory with the name `a`. -/
theorem namei_follow_dots : ∃ (m : Machine) (fm : FsMem),
    Mkfs.layout.Mounted (Fs.mounted Mkfs.emptyNodes []) m fm ∧
      (∃ ip c m' fm' s', (namei Mkfs.dotsPath).run kernelHandler (m, fm) =
          .ok (some ip) (m', fm') ∧
        Mkfs.layout.Mounted s' m' fm' ∧
        s'.Holds .empty Mkfs.emptyNodes [⟨ip, ROOTINO, c⟩] ∅ 0) ∧
      (∃ m' fm' s', (namei Mkfs.newPath).run kernelHandler (m, fm) = .ok none (m', fm') ∧
        Mkfs.layout.Mounted s' m' fm' ∧ s'.Holds .empty Mkfs.emptyNodes [] ∅ 0) ∧
      ∃ dp name m' fm' s', (nameiparent Mkfs.newPath).run kernelHandler (m, fm) =
          .ok (some (dp, name)) (m', fm') ∧
        name.text = [97] ∧ Mkfs.layout.Mounted s' m' fm' ∧
        s'.Holds .empty Mkfs.emptyNodes [⟨dp, ROOTINO, true⟩] ∅ 0 := by
  obtain ⟨m, hm⟩ := Mkfs.exists_mounted []
  have h := namei_follow (Option.some_ne_none _) hm (Fs.holds_mounted Mkfs.emptyNodes [])
    Mkfs.tree_emptyNodes.linked (by simp)
  have hdots := (h Mkfs.dotsPath).1
  obtain ⟨hnew, hparent, -⟩ := h Mkfs.newPath
  rw [Mkfs.follow_dotsPath] at hdots
  rw [Mkfs.follow_newPath] at hnew
  rw [Mkfs.followParent_newPath] at hparent
  obtain ⟨_, m₁, fm₁, s₁, hrun₁, hm₁, ip, c, rfl, hs₁⟩ := hdots
  obtain ⟨_, m₂, fm₂, s₂, hrun₂, hm₂, rfl, hs₂⟩ := hnew
  obtain ⟨_, m₃, fm₃, s₃, hrun₃, hm₃, dp, name, rfl, hname, hs₃⟩ := hparent
  exact ⟨m, _, hm, ⟨ip, c, m₁, fm₁, s₁, hrun₁, hm₁, hs₁⟩, ⟨m₂, fm₂, s₂, hrun₂, hm₂, hs₂⟩,
    dp, name, m₃, fm₃, s₃, hrun₃, hname, hm₃, hs₃⟩

/-! ## A full inode cache -/

lemma run_iget_full {m : Machine} {fm : FsMem} {dev inum : ℕ}
    (h : ∀ ip, 0 < (fm.icache ip).ref ∧ (fm.icache ip).inum ≠ inum) :
    (iget dev inum).run kernelHandler (m, fm) = .error (.panic .igetNoInodes) (m, fm) := by
  have hspec := igetScan_spec fm.icache dev inum (List.finRange NINODE) none (by simp)
  have hfull : igetScan fm.icache dev inum (List.finRange NINODE) none = .full := by
    cases hscan : igetScan fm.icache dev inum (List.finRange NINODE) none with
    | full => rfl
    | hit ip =>
      rw [hscan] at hspec
      exact absurd hspec.2.2 (h ip).2
    | fresh ip =>
      rw [hscan] at hspec
      exact absurd hspec.1 (h ip).1.ne'
  have hstep : kernelHandler (.inr (.iget dev inum)) (m, fm) =
      .error (.panic .igetNoInodes) (m, fm) := by
    simp only [kernelHandler, Handler.sum, memHandler, hfull]
  exact Prog.run_op_error _ hstep

namespace Mkfs

/-- The nodes of the empty image, and `k` files that no directory names. -/
def crowded : ℕ → Nodes
  | 0 => emptyNodes
  | k + 1 => Function.update (crowded k) (k + 2) (some ⟨T_FILE, 0, 0, 0, []⟩)

lemma crowded_of_lt {k i : ℕ} (h : 2 ≤ i) (hi : i < k + 2) :
    crowded k i = some ⟨T_FILE, 0, 0, 0, []⟩ := by
  induction k with
  | zero => exact absurd hi (Nat.not_lt.mpr h)
  | succ k ih =>
    by_cases he : i = k + 2
    · rw [he, crowded, Function.update_self]
    · rw [crowded, Function.update_of_ne he]
      exact ih (by omega)

lemma crowded_of_ge {k i : ℕ} (h : k + 2 ≤ i) : crowded k i = none := by
  induction k with
  | zero =>
    have hne : i ≠ ROOTINO := by
      simp only [ROOTINO]
      omega
    rw [crowded, emptyNodes, Function.update_of_ne hne]
  | succ k ih =>
    rw [crowded, Function.update_of_ne (by omega)]
    exact ih (by omega)

lemma crowded_of_lt_two {k i : ℕ} (h : i < 2) : crowded k i = emptyNodes i := by
  induction k with
  | zero => rfl
  | succ k ih => rw [crowded, Function.update_of_ne (by omega), ih]

lemma linked_crowded (k : ℕ) : (crowded k).Linked := by
  have hroot : crowded k ROOTINO = some (rootNode emptyData) := by
    rw [crowded_of_lt_two (by decide), emptyNodes_root]
  refine ⟨⟨_, hroot, rfl, by decide⟩, fun {i n} hn ht hl => ?_⟩
  have hlt : i < 2 := Nat.not_le.mp fun hge => by
    rcases Nat.lt_or_ge i (k + 2) with hi | hi
    · rw [crowded_of_lt hge hi] at hn
      exact absurd (Option.some.inj hn ▸ hl) (lt_irrefl 0)
    · rw [crowded_of_ge hi] at hn
      cases hn
  rw [crowded_of_lt_two hlt] at hn
  obtain ⟨hd, hent⟩ := tree_emptyNodes.linked.dir hn ht hl
  refine ⟨hd, fun e he hz => ?_⟩
  obtain ⟨n', hn', hl'⟩ := hent e he hz
  obtain ⟨he', rfl⟩ := emptyNodes_eq_some hn'
  exact ⟨_, he' ▸ hroot, hl'⟩

lemma exists_crowded {k : ℕ} (hk : k + 2 ≤ NINODES) : ∃ img : ℕ → Block,
    layout.OnDisk (· = crowded k) img ∧ img 1 = sbBlock sb ∧ img sb.logstart = Bytes.zero := by
  induction k with
  | zero =>
    obtain ⟨s, hs⟩ := exists_main_nil
    exact ⟨s.img, onDisk_main_nil hs⟩
  | succ k ih =>
    obtain ⟨img, hdisk, hsuper, hlog⟩ := ih (by omega)
    have hle : sb.inodestart ≤ layout.iblock (k + 2) := layout.inodestart_le_iblock _
    have h₁ : 1 ≠ layout.iblock (k + 2) := ((by decide : 1 < sb.inodestart).trans_le hle).ne
    have h₂ : sb.logstart ≠ layout.iblock (k + 2) :=
      ((by decide : sb.logstart < sb.inodestart).trans_le hle).ne
    obtain ⟨x, hdisk'⟩ := hdisk.newInode (i := k + 2) T_FILE 0 hk
      (crowded_of_ge le_rfl) (by decide) (by norm_num [Bytes.IsShort])
      (by norm_num [Bytes.IsShort])
    refine ⟨_, hdisk', ?_, ?_⟩
    · rw [Function.update_of_ne h₁, hsuper]
    · rw [Function.update_of_ne h₂, hlog]

/-- The file system with a reference to each of these files. -/
def crowdedFs : Fs :=
  { Fs.mounted (crowded NINODE) [] with ic := fun ip => ⟨ip + 2, 1, false⟩ }

def crowdedMem : FsMem :=
  { FsMem.mounted sb [] with icache := fun ip => ⟨ROOTDEV, ip + 2, 1, false, .zero⟩ }

/-- The references. -/
def crowdedRefs : List Ref := (List.finRange NINODE).map fun ip => ⟨ip, ip + 2, false⟩

lemma crowded_ref (ip : Fin NINODE) : crowded NINODE (ip + 2) = some ⟨T_FILE, 0, 0, 0, []⟩ :=
  crowded_of_lt (Nat.le_add_left _ _) (by omega)

lemma exists_crowdedFs : ∃ m, layout.Mounted crowdedFs m crowdedMem := by
  obtain ⟨img, hdisk, hsuper, hlog⟩ := exists_crowded (k := NINODE) (by decide)
  obtain ⟨σ, m, rfl, -, v, ino, hon, hr⟩ := mountFs_mounted
    (image_of_img (d := fun k => img k.blockno) hsuper hlog hdisk fun _ => rfl) []
  refine ⟨m, v, ino, hon, { hr with
    entry := fun _ => rfl
    dev := fun _ => rfl
    unique := fun {ip jp i} hi hj => ?_
    inuse := fun {ip i} hi => ?_
    cached := fun {ip i} _ hv => nomatch hv }⟩
  · exact Fin.ext (Nat.add_right_cancel (hi.2.trans hj.2.symm))
  · have hi' : (ip : ℕ) + 2 = i := hi.2
    show crowded NINODE i ≠ none
    rw [← hi', crowded_ref]
    exact Option.some_ne_none _

lemma holds_crowdedFs : crowdedFs.Holds .empty (crowded NINODE) crowdedRefs ∅ 0 := by
  refine { Fs.holds_mounted (crowded NINODE) [] with
    ref := fun ip => ?_
    inum := fun r hr => ?_
    read := fun r hr hread => ?_
    fileInum := fun _ hf => nomatch hf
    fileRead := fun _ hf => nomatch hf }
  · rw [Table.refs_empty, Nat.zero_add, refsTo, crowdedRefs, List.countP_map]
    have hone := List.count_eq_one_of_mem (List.nodup_finRange NINODE) (List.mem_finRange ip)
    rw [List.count] at hone
    refine hone.symm.trans (List.countP_congr fun jp _ => ?_)
    simp
  · obtain ⟨ip, -, rfl⟩ := List.mem_map.mp hr
    rfl
  · obtain ⟨ip, -, rfl⟩ := List.mem_map.mp hr
    cases hread

end Mkfs

/-- `/.` -/
def slashDot : CString := ⟨[slash, 46], by decide⟩

/-- **A directory tree on which `namei` panics**: fifty open files that no directory names fill the
inode cache, and there is no entry for the root. -/
theorem crowded_namei_panics : ∃ m : Machine, Mkfs.layout.Mounted Mkfs.crowdedFs m Mkfs.crowdedMem ∧
    Mkfs.crowdedFs.Holds .empty (Mkfs.crowded NINODE) Mkfs.crowdedRefs ∅ 0 ∧
    (Mkfs.crowded NINODE).Linked ∧
    (namei slashDot).run kernelHandler (m, Mkfs.crowdedMem) =
      .error (.panic .igetNoInodes) (m, Mkfs.crowdedMem) := by
  obtain ⟨m, hm⟩ := Mkfs.exists_crowdedFs
  refine ⟨m, hm, Mkfs.holds_crowdedFs, Mkfs.linked_crowded _, ?_⟩
  have higet : (iget ROOTDEV ROOTINO).run kernelHandler (m, Mkfs.crowdedMem) =
      .error (.panic .igetNoInodes) (m, Mkfs.crowdedMem) :=
    run_iget_full fun ip => ⟨Nat.one_pos, fun h => by cases h⟩
  exact Prog.run_bind_error _ (Prog.run_bind_error _ higet)

end Xv6
