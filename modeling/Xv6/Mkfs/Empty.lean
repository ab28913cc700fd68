import Xv6.Mkfs.Program
import Xv6.File.Boot

/-!
# The image without files

What `mkfs` builds for an empty list of files: one directory, the root, that names itself twice and
has 30 empty entries, in its one block.  A kernel that mounts the image finds a directory tree, and
all invariants of the file system hold.

`emptyNodes` are these nodes, and `onDisk_main_nil` says that the image holds them, next to its
superblock and an empty log; `image_main_nil` is about drives with this image.  `exists_mounted` is
the kernel that has booted on the image, and `exists_root` the same with a reference to the root in
hand.  They are where runs in other modules start from.
-/

namespace Xv6.Mkfs

open Lib

/-! ## The nodes -/

/-- The contents of the root directory. -/
def emptyData : List UInt8 := dots ++ List.replicate (roundUp dots.length - dots.length) 0

/-- The root directory is all there is. -/
def emptyNodes : Nodes := Function.update (fun _ => none) ROOTINO (some (rootNode emptyData))

lemma entries_emptyData : (rootNode emptyData).entries =
    ⟨ROOTINO, dot⟩ :: ⟨ROOTINO, dotdot⟩ :: List.replicate 30 ⟨0, Bytes.zero⟩ := by
  have hinj : Function.Injective fun e : Dirent => (e.inum, List.ofFn e.name) := fun e e' h =>
    Dirent.ext (Prod.mk.inj h).1 (List.ofFn_injective (Prod.mk.inj h).2)
  refine List.map_injective_iff.mpr hinj ?_
  decide +kernel

lemma freeSlot_root : freeSlot (rootNode emptyData).entries = 2 := by
  rw [entries_emptyData]
  decide

lemma emptyNodes_eq_some {i : ℕ} {n : Node} (h : emptyNodes i = some n) :
    i = ROOTINO ∧ n = rootNode emptyData := by
  by_cases hi : i = ROOTINO
  · subst hi
    rw [emptyNodes, Function.update_self] at h
    exact ⟨rfl, (Option.some.inj h).symm⟩
  · rw [emptyNodes, Function.update_of_ne hi] at h
    cases h

lemma emptyNodes_root : emptyNodes ROOTINO = some (rootNode emptyData) :=
  Function.update_self _ _ _

lemma slot_emptyNodes {i k : ℕ} {e : Dirent} (h : emptyNodes.slot i k = some e) :
    i = ROOTINO ∧ (k = 0 ∧ e = ⟨ROOTINO, dot⟩ ∨ k = 1 ∧ e = ⟨ROOTINO, dotdot⟩ ∨ e.inum = 0) := by
  obtain ⟨n, hn, -, -, he⟩ := Nodes.exists_of_slot h
  obtain ⟨rfl, rfl⟩ := emptyNodes_eq_some hn
  refine ⟨rfl, ?_⟩
  rw [entries_emptyData] at he
  clear h
  rcases k with _ | _ | k
  · exact Or.inl ⟨rfl, (Option.some.inj he).symm⟩
  · exact Or.inr (Or.inl ⟨rfl, (Option.some.inj he).symm⟩)
  · have hin : e ∈ List.replicate 30 (⟨0, Bytes.zero⟩ : Dirent) := List.mem_of_getElem? he
    exact Or.inr (Or.inr (by rw [List.eq_of_mem_replicate hin]))

lemma slot_root {k : ℕ} : emptyNodes.slot ROOTINO k = (rootNode emptyData).entries[k]? :=
  Nodes.slot_of emptyNodes_root rfl (by decide)

lemma not_link_emptyNodes {p k c : ℕ} : ¬ emptyNodes.Link p k c := by
  rintro ⟨hk, hc, name, hs⟩
  obtain ⟨-, ⟨rfl, -⟩ | ⟨rfl, -⟩ | hz⟩ := slot_emptyNodes hs
  · exact absurd hk (by decide)
  · exact absurd hk (by decide)
  · exact hc hz

lemma subdirs_emptyNodes (N i : ℕ) : emptyNodes.subdirs N i = ∅ := by
  refine Finset.eq_empty_of_forall_notMem fun c hc => ?_
  obtain ⟨-, -, k, hk⟩ := Nodes.mem_subdirs.mp hc
  exact not_link_emptyNodes hk

/-- **The empty image is a directory tree.** -/
lemma tree_emptyNodes : emptyNodes.Tree NINODES := by
  have hroot : emptyNodes.DirAt ROOTINO := ⟨_, emptyNodes_root, rfl, by decide⟩
  have hdir : ∀ {i}, emptyNodes.DirAt i → i = ROOTINO := fun ⟨n, hn, _⟩ =>
    (emptyNodes_eq_some hn).1
  refine
    { pos := fun hn => (emptyNodes_eq_some hn).1 ▸ by decide
      lt := fun hn => (emptyNodes_eq_some hn).1 ▸ by decide
      root := hroot
      rooted :=
        { root := hroot.att
          source := fun h => absurd h not_link_emptyNodes
          target := fun h => absurd h not_link_emptyNodes
          not_root := not_link_emptyNodes
          unique := fun h => absurd h not_link_emptyNodes
          linked := fun ⟨n, hn, _⟩ hne => absurd (emptyNodes_eq_some hn).1 hne
          ranked := ⟨fun _ => 0, fun h => absurd h not_link_emptyNodes⟩ }
      isDir := fun hn ht _ => ⟨ht, ?_⟩
      dot := fun hd => ?_
      dotdot := fun hd => ?_
      names := fun {i n j k e e'} hn _ hj hk hz hz' he => ?_
      nonneg := fun hn => (emptyNodes_eq_some hn).2 ▸ by decide
      file := fun hn ht => absurd ((emptyNodes_eq_some hn).2 ▸ rfl) ht
      nlink := fun hn _ _ => ?_ }
  · obtain ⟨-, rfl⟩ := emptyNodes_eq_some hn
    decide +kernel
  · rw [hdir hd, slot_root, entries_emptyData]
    rfl
  · rw [hdir hd]
    refine ⟨ROOTINO, ?_, Or.inl ⟨rfl, rfl⟩⟩
    rw [slot_root, entries_emptyData]
    rfl
  · have hdots : dot ≠ dotdot := by decide
    obtain ⟨-, rfl⟩ := emptyNodes_eq_some hn
    obtain ⟨-, ⟨rfl, rfl⟩ | ⟨rfl, rfl⟩ | hz₁⟩ := slot_emptyNodes (slot_root.trans hj) <;>
      obtain ⟨-, ⟨rfl, rfl⟩ | ⟨rfl, rfl⟩ | hz₂⟩ := slot_emptyNodes (slot_root.trans hk)
    · rfl
    · exact absurd he hdots
    · exact absurd hz₂ hz'
    · exact absurd he.symm hdots
    · rfl
    · exact absurd hz₂ hz'
    all_goals exact absurd hz₁ hz
  · rw [(emptyNodes_eq_some hn).2, subdirs_emptyNodes]
    rfl

/-! ## The image -/

section

variable {s s' : State} {ino : Inos} {d : Dinode}

lemma Holds.content_roundUp (h : Holds s ino) (hd : ino ROOTINO = some d)
    (hp : Puts ROOTINO { d with size := Mkfs.roundUp d.size } s s') (hmod : d.size % BSIZE ≠ 0) :
    ({ d with size := Mkfs.roundUp d.size } : Dinode).content s'.view =
      d.content s.view ++ List.replicate (Mkfs.roundUp d.size - d.size) 0 := by
  have hsame : d.Same s.view s'.view :=
    h.owns.same_of_data hd fun b => view_congr hp.freeblock hp.data
  have hle : d.size ≤ Mkfs.roundUp d.size := by
    simp only [Mkfs.roundUp, BSIZE]
    omega
  have hblocks : Mkfs.roundUp d.size = nblocks d.size * BSIZE := by
    rw [← nblocks_roundUp_of_ne hmod, nblocks_roundUp]
    rfl
  have hbyte : ∀ j < Mkfs.roundUp d.size,
      ({ d with size := Mkfs.roundUp d.size } : Dinode).byteAt s'.view j = d.byteAt s.view j :=
    fun j hj => by
      rw [← hsame.byteAt (h.full hd) (hblocks ▸ hj), Dinode.byteAt, Dinode.byteAt]
      exact congrArg (fun b => (s'.view b).get _) (Dinode.addr_congr rfl (fun _ => rfl) _)
  refine ext_getD ?_ fun j hj => ?_
  · rw [Dinode.length_content, List.length_append, Dinode.length_content, List.length_replicate]
    exact (Nat.add_sub_of_le hle).symm
  · rw [Dinode.length_content] at hj
    rw [Dinode.getD_content hj, hbyte j hj]
    rcases Nat.lt_or_ge j d.size with hlt | hge
    · rw [List.getD_append _ _ _ _ (by rwa [Dinode.length_content]), Dinode.getD_content hlt]
    · rw [List.getD_append_right _ _ _ _ (by rwa [Dinode.length_content]), h.clear hd j hge
        (hblocks ▸ hj)]
      simp

lemma Holds.lt_of_some (h : Holds s ino) (hle : s.freeinode ≤ NSLOTS) {i : ℕ}
    (hi : ino i = some d) : 0 < i ∧ i < s.freeinode := by
  have hlt : i < NSLOTS := h.owns.lt hi
  refine ⟨Nat.pos_of_ne_zero fun hz => ?_, Nat.not_le.mp fun hge => ?_⟩
  · have hnone := h.unused NSLOTS hle le_rfl
    rw [show place NSLOTS = 0 from rfl, ← hz, hi] at hnone
    cases hnone
  · have hnone := h.unused i hge hlt.le
    rw [place_of_lt hlt, hi] at hnone
    cases hnone

/-- **The files of the image are a volume of the kernel**, once the free map is there. -/
lemma Holds.onDisk (h : Holds s ino) (hle : s.freeinode ≤ NINODES) :
    layout.OnDisk (· = fun i => (ino i).map (Dinode.node s.view))
      (wsect sb.bmapstart (bitmap s.freeblock) s).img := by
  have hslots : s.freeinode ≤ NSLOTS := hle.trans (by decide)
  rw [img_balloc]
  refine ⟨ino, ⟨fun hi => ?_, h.owns.type, h.owns.fits, h.owns.marked⟩, fun _ _ => h.full,
    fun i hi => ?_, rfl⟩
  · exact (h.lt_of_some hslots hi).2.trans_le hle
  · have hlt : i < NSLOTS := (show i < NINODES from hi).trans (by decide)
    have hd : layout.dinode s.view i = s.dinode i := by
      rw [← img_balloc]
      exact dinode_balloc hlt _
    rw [hd]
    by_cases hin : 0 < i ∧ i < s.freeinode
    · have hstored := h.stored i hin.1 hin.2
      rw [place_of_lt hlt] at hstored
      rw [hstored, Dinode.live, if_neg (h.owns.type hstored)]
    · rw [Dinode.live, if_pos (h.blank i (by omega) hlt)]
      cases hi' : ino i with
      | none => rfl
      | some d => exact absurd (h.lt_of_some hslots hi') hin

/-- **The drive that `mkfs` writes for an empty list of files.** -/
theorem onDisk_main_nil (h : main [] = some s) : layout.OnDisk (· = emptyNodes) s.img ∧
    s.img 1 = sbBlock sb ∧ s.img sb.logstart = Bytes.zero := by
  obtain ⟨s₀, s₁, hbuilt, h₁, hfin⟩ := exists_of_main h
  cases h₁
  have hpos := hbuilt.root_lt
  obtain ⟨⟨ino, hh, hnode⟩, hfree, -, -⟩ := hbuilt
  have hroot := congrFun hnode ROOTINO
  rw [Function.update_self] at hroot
  obtain ⟨d, hd, hdn⟩ := Option.map_eq_some_iff.mp hroot.symm
  have hother : ∀ i, i ≠ ROOTINO → ino i = none := fun i hi => by
    have hi' := congrFun hnode i
    rw [Function.update_of_ne hi] at hi'
    exact Option.map_eq_none_iff.mp hi'.symm
  have hcontent : d.content s₀.view = dots := congrArg Node.data hdn
  have hsize : d.size = dots.length := by rw [← hcontent, Dinode.length_content]
  have hmod : d.size % BSIZE ≠ 0 := by
    rw [hsize, length_dots]
    decide
  obtain ⟨s₂, hp, hfin'⟩ := hh.finish hpos hd
  obtain rfl := Option.some.inj (hfin.symm.trans hfin')
  have hh' := hh.roundUp hpos hd hp hmod
  have hnodes : (fun i => (Function.update ino ROOTINO
      (some { d with size := Mkfs.roundUp d.size }) i).map (Dinode.node s₂.view)) = emptyNodes := by
    funext i
    by_cases hi : i = ROOTINO
    · rw [hi, Function.update_self, emptyNodes_root, Option.map_some, Dinode.node,
        hh.content_roundUp hd hp hmod, hcontent, hsize]
      have hfields := Node.mk.inj hdn
      rw [show d.type = T_DIR from hfields.1, show d.major = 0 from hfields.2.1,
        show d.minor = 0 from hfields.2.2.1, show d.nlink = 1 from hfields.2.2.2.1]
      rfl
    · rw [Function.update_of_ne hi, hother i hi, emptyNodes, Function.update_of_ne hi]
      rfl
  refine ⟨?_, ?_, ?_⟩
  · rw [← hnodes]
    exact hh'.onDisk (by rw [hp.freeinode, hfree]; decide)
  · rw [img_balloc, view_of_ne (by decide), hh'.super]
  · rw [img_balloc, view_of_ne (by decide), hh'.log]

/-- **The drives with this image** hold a directory tree in which every node has a link. -/
theorem image_main_nil (h : main [] = some s) {D : BufRef → Block}
    (hD : ∀ b, D (onDev b) = s.img b) (O : ℕ → Prop) :
    layout.Image (layout.OnDisk (layout.Safe O)) D := by
  obtain ⟨⟨ino, howns, hfull, hlive, hnodes⟩, hsuper, hlog⟩ := onDisk_main_nil h
  refine image_of_img hsuper hlog ⟨ino, howns, hfull, hlive, ?_⟩ hD
  rw [hnodes]
  refine ⟨tree_emptyNodes, fun i n hn hz => ?_⟩
  rw [(emptyNodes_eq_some hn).2] at hz
  exact absurd hz (by decide)

lemma room_layout : layout.Room MAXOPBLOCKS := fun _ hn => (Option.some.inj hn).le

lemma length_emptyData : emptyData.length = 512 := by
  rw [emptyData, List.length_append, List.length_replicate, length_dots]
  rfl

lemma taken_emptyNodes : layout.taken emptyNodes.len = 1 := by
  have hroot : (rootNode emptyData).data.length = 512 := length_emptyData
  rw [Layout.taken, Finset.sum_eq_single ROOTINO (fun i _ hi => ?_) fun hi => ?_]
  · rw [Nodes.len, emptyNodes_root, Option.map_some, Option.elim_some, hroot]
    rfl
  · rw [Nodes.len, emptyNodes, Function.update_of_ne hi]
    rfl
  · exact absurd (Finset.mem_range.mpr layout.root_lt) hi

lemma exists_main_nil : ∃ st, main [] = some st :=
  exists_main (fun f (hf : f ∈ []) => nomatch hf) (by decide)

lemma exists_mounted (input : List UInt8) :
    ∃ m, layout.Mounted (Fs.mounted emptyNodes input) m (.mounted sb input) := by
  obtain ⟨s, hs⟩ := exists_main_nil
  obtain ⟨hdisk, hsuper, hlog⟩ := onDisk_main_nil hs
  obtain ⟨σ, m, rfl, -, hm⟩ := mountFs_mounted
    (image_of_img (d := fun k => s.img k.blockno) hsuper hlog hdisk fun _ => rfl) input
  exact ⟨m, hm⟩

lemma exists_root (input : List UInt8) : ∃ s m fm dp, layout.Mounted s m fm ∧
    s.Holds .empty emptyNodes [⟨dp, ROOTINO, true⟩] ∅ 0 := by
  obtain ⟨m, hm⟩ := exists_mounted input
  have hread : nwp layout.ample (fun _ => True) (do
      let ip ← iget ROOTDEV ROOTINO
      iread ip
      return ip)
      (fun ip s => s.Holds .empty emptyNodes [⟨ip, ROOTINO, true⟩] ∅ 0)
      (Fs.mounted emptyNodes input) := by
    refine nwp_get (Fs.holds_mounted _ _) emptyNodes_root (Or.inr (by simp)) fun ip s h => ?_
    exact nwp_seq (nwp_read h emptyNodes_root) fun _ s' h' => nwp_ret h'
  obtain ⟨dp, m', fm', s', -, hm', h⟩ := nwp_returns hread (Option.some_ne_none _) hm
  exact ⟨s', m', fm', dp, hm', h⟩

end

end Xv6.Mkfs
