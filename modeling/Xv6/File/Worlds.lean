import Xv6.File.Shown
import Xv6.Mkfs.Empty

/-!
# Worlds of the image without files

Statements about all runs of the file system need a run to be about.  This module starts from the
image that `mkfs` builds for an empty list of files, and makes calls on it whose outcome is known.

* `Layout.Consistent` says of drives what the theorems of `Xv6.File.Invariants` assume of them: they
  hold a directory tree in which every node has a link.  `Mkfs.consistent_main_nil` says so of the
  image.  `World.Runs` are the worlds that calls lead to from there; they are sound
  (`World.Runs.sound`).
* `Knows` is what is known after the first calls: the nodes and the open files.  `Knows.mkdir`,
  `Knows.create`, `Knows.unlink` and `Knows.write` are one call each.
* `Crowd` is an inode cache that fills up, one open file after another, until `iget` panics.

The calls are not evaluated on the machine.  They are followed by the specifications of
`Xv6.File.Ops`, whose outcome is known on the empty image whichever entries and inodes are chosen,
and which say more than an evaluation would: that the worlds are sound.  `exists_opened`,
`exists_written`, `exists_orphan` and the others at the end are the worlds that later modules start
from.
-/

namespace Xv6

open Lib

/-! ## Consistent volumes -/

/-- The layout without a limit. -/
def Layout.loose (L : Layout) : Layout :=
  L.limited none (fun _ h => nomatch h) (fun _ h => nomatch h)

lemma Layout.lt_nlog_of_mem {L : Layout} (h : MAXOPBLOCKS + 1 < L.sb.nlog) :
    ∀ n ∈ some MAXOPBLOCKS, 0 < n → n + 1 < L.sb.nlog := by
  intro n hn _
  rw [← Option.some.inj hn]
  exact h

lemma le_nbuf_of_mem : ∀ n ∈ some MAXOPBLOCKS, n + 3 ≤ NBUF := by
  intro n hn
  rw [← Option.some.inj hn]
  decide

/-- The layout with the limit of `param.h`. -/
def Layout.tight (L : Layout) (h : MAXOPBLOCKS + 1 < L.sb.nlog) : Layout :=
  L.limited (some MAXOPBLOCKS) (Layout.lt_nlog_of_mem h) le_nbuf_of_mem

instance (L : Layout) : L.loose.Scarce := ⟨trivial, trivial⟩

instance (L : Layout) (h : MAXOPBLOCKS + 1 < L.sb.nlog) : (L.tight h).Scarce := ⟨trivial, trivial⟩

lemma Layout.room_loose (L : Layout) (n : ℕ) : L.loose.Room n := fun _ h => nomatch h

lemma Layout.room_tight (L : Layout) (h : MAXOPBLOCKS + 1 < L.sb.nlog) {n : ℕ} :
    (L.tight h).Room n ↔ n ≤ MAXOPBLOCKS :=
  ⟨fun hn => hn _ rfl, fun hn _ hm => Option.some.inj hm ▸ hn⟩

/-- The drives hold a directory tree in which every node has a link. -/
def Layout.Consistent (L : Layout) (d : BufRef → Block) : Prop :=
  L.Image (L.OnDisk (L.Safe fun _ => False)) d

/-- The kernel has mounted the drives and made calls since. -/
def World.Runs (d : BufRef → Block) (input : List UInt8) (w : World) : Prop :=
  ∃ w₀ : World, w₀.Boots d input ∧ w₀.Steps World.anyCall w

section

variable {L : Layout} {d : BufRef → Block} {input : List UInt8} {w w₀ : World} {c : FsCall}

lemma Layout.Consistent.limited (hd : L.Consistent d) {limit : Option ℕ}
    {hlog : ∀ n ∈ limit, 0 < n → n + 1 < L.sb.nlog} {hbuf : ∀ n ∈ limit, n + 3 ≤ NBUF} :
    (L.limited limit hlog hbuf).Consistent d := by
  rw [Layout.Consistent, Layout.onDisk_congr L (L.limited limit hlog hbuf) rfl]
  exact hd

lemma World.Runs.sound [L.Scarce] (h : w.Runs d input) (hL : L.Room MAXOPBLOCKS)
    (hd : L.Consistent d) : ∃ ino v s, w.Sound L (fun _ => True) ino v s := by
  obtain ⟨w₀, hboots, hsteps⟩ := h
  exact hsteps.sound hL (fun {_ c _ _ s} _ _ => c.admits_true s) (hboots.sound hd)

lemma World.Runs.sound_loose (h : w.Runs d input) (hd : L.Consistent d) :
    ∃ ino v s, w.Sound L.loose (fun _ => True) ino v s :=
  h.sound (L.room_loose _) hd.limited

lemma Mkfs.consistent_main_nil {st : Mkfs.State} (h : Mkfs.main [] = some st)
    (hd : ∀ b, d (onDev b) = st.img b) : Mkfs.layout.Consistent d :=
  Mkfs.image_main_nil h hd _

lemma World.Boots.runs (h : w.Boots d input) : w.Runs d input := ⟨w, h, .refl⟩

/-- The kernel has mounted the image that `mkfs` builds for an empty list of files. -/
def World.Fresh (w : World) : Prop := ∃ st d input, Mkfs.main [] = some st ∧
  (∀ b, d (onDev b) = st.img b) ∧ w.Boots d input

/-- All invariants hold: the blocks of files are the marked ones, files have no holes, the inode
cache is up to date and its references are counted, the nodes form a tree, and the drive recovers to
such a state as well. -/
def World.Consistent (L : Layout) (w : World) : Prop :=
  ∃ ino v s, w.Sound L.loose (fun _ => True) ino v s

lemma World.Fresh.consistent (h : w.Fresh) : w.Consistent Mkfs.layout := by
  obtain ⟨st, d, input, hst, hd, hw⟩ := h
  exact hw.runs.sound_loose (Mkfs.consistent_main_nil hst hd)

lemma World.Consistent.steps (h : w₀.Consistent L) (hw : w₀.Steps World.anyCall w) :
    w.Consistent L :=
  hw.sound (L.room_loose _) (fun {_ c _ _ s} _ _ => c.admits_true s) h

end

/-! ## Paths of one byte -/

namespace Mkfs

/-- Paths of one byte, from `a` on. -/
def bytePath (j : Fin 52) : CString := ⟨[97 + UInt8.ofNat j], by revert j; decide⟩

/-- The element of such a path. -/
def byteName (j : Fin 52) : Name := moveName [97 + UInt8.ofNat j] Bytes.zero

lemma skipelem_bytePath (j : Fin 52) :
    skipelem (bytePath j).bytes Bytes.zero = some (byteName j, []) := by
  revert j
  decide

lemma namecmp_byteName :
    ∀ i j : Fin 52, i ≠ j → namecmp (byteName i) (strncpy (byteName j)) ≠ 0 := by
  decide +kernel

lemma byteName_not_dots : ∀ j : Fin 52,
    ¬ (namecmp (byteName j) dot = 0 ∨ namecmp (byteName j) dotdot = 0) := by
  decide +kernel

lemma findName_root (j : Fin 52) : findName (byteName j) (rootNode emptyData).entries = none := by
  rw [entries_emptyData]
  revert j
  decide +kernel

section

variable {N k c : ℕ} {j : Fin 52} {x : Option ℕ} {type major minor : ℤ} {σ σ' : Nodes} {n np : Node}

lemma parent_bytePath (hn : σ ROOTINO = some n) (ht : n.type = T_DIR) :
    σ.parent (bytePath j) = some (ROOTINO, byteName j) := by
  rw [Nodes.parent, Nodes.walk, skipelem_bytePath]
  show (σ ROOTINO).bind _ = _
  rw [hn, Option.bind_some, if_neg (not_not.mpr ht), if_pos ⟨rfl, rfl⟩]

/-- A name that the root directory does not have is added to it. -/
lemma adds_of_creates (hnp : σ ROOTINO = some np) (ht : np.type = T_DIR)
    (hnone : findName (byteName j) np.entries = none)
    (h : σ.Creates N (bytePath j) type major minor x σ') : ∃ c n, x = some c ∧ n.type = type ∧
      σ.Adds N σ' ROOTINO (freeSlot np.entries) c (strncpy (byteName j)) n := by
  have hparent := parent_bytePath (j := j) hnp ht
  have hno : ∀ {p k : ℕ} {name : Name} {np' : Node}, σ.parent (bytePath j) = some (p, name) →
      σ p = some np' → findName name np'.entries ≠ some k := by
    intro p k name np' hp hnp' hk
    obtain ⟨rfl, rfl⟩ := Prod.mk.inj (Option.some.inj (hparent.symm.trans hp))
    obtain rfl := Option.some.inj (hnp.symm.trans hnp')
    cases hnone.symm.trans hk
  cases h with
  | missing hp => cases hp.symm.trans hparent
  | taken hp hnp' hk => exact absurd hk (hno hp hnp')
  | found hp hnp' hk => exact absurd hk (hno hp hnp')
  | new hp hnp' _ ht' _ _ ha =>
    obtain ⟨rfl, rfl⟩ := Prod.mk.inj (Option.some.inj (hparent.symm.trans hp))
    obtain rfl := Option.some.inj (hnp.symm.trans hnp')
    exact ⟨_, _, rfl, ht', ha⟩

/-- The image without files, and the node `c` with the name `a`. -/
abbrev AddsFirst (σ : Nodes) (c : ℕ) (n : Node) : Prop :=
  emptyNodes.Adds NINODES σ ROOTINO 2 c (strncpy (byteName 0)) n

lemma addsFirst_of_creates (h : emptyNodes.Creates NINODES (bytePath 0) type major minor x σ) :
    ∃ c n, x = some c ∧ n.type = type ∧ AddsFirst σ c n := by
  obtain ⟨c, n, hx, ht, ha⟩ := adds_of_creates emptyNodes_root rfl (findName_root 0) h
  rw [freeSlot_root] at ha
  exact ⟨c, n, hx, ht, ha⟩

namespace AddsFirst

variable (ha : AddsFirst σ c n)

include ha

lemma find : ∃ np, σ ROOTINO = some np ∧ np.type = T_DIR ∧ np.data.length = 512 ∧
    findName (byteName 0) np.entries = some 2 ∧
    np.entries[2]? = some ⟨c, strncpy (byteName 0)⟩ := by
  obtain ⟨np, np', hnp, -, -, hnp', hdir, -, hentries⟩ := ha.parent
  obtain ⟨-, rfl⟩ := emptyNodes_eq_some hnp
  have hk : np'.entries[2]? = some ⟨c, strncpy (byteName 0)⟩ := by rw [hentries, if_pos rfl]
  refine ⟨np', hnp', hdir.type, ?_,
    findName_of_first hk ⟨ha.pos.ne', namecmp_strncpy _⟩ fun j hj e he => ?_, hk⟩
  · have hset : np'.entries = (rootNode emptyData).entries.set 2 ⟨c, strncpy (byteName 0)⟩ := by
      refine List.ext_getElem? fun j => ?_
      rw [hentries, List.getElem?_set, entries_emptyData]
      simp only [eq_comm (a := j)]
      rfl
    rw [hdir.length_data, hset, List.length_set, entries_emptyData]
    rfl
  · rw [hentries, if_neg hj.ne] at he
    exact findName_eq_none_iff.mp (findName_root 0) e (List.mem_of_getElem? he)

lemma target : σ.target (bytePath 0) = some c := by
  obtain ⟨np, hnp, ht, -, hk, he⟩ := ha.find
  rw [Nodes.target, parent_bytePath hnp ht, Option.bind_some, hnp, Option.bind_some, Node.find, hk,
    Option.bind_some, he]
  rfl

lemma resolve : σ.resolve (bytePath 0) = some c := by
  obtain ⟨np, hnp, ht, -, hk, he⟩ := ha.find
  have hfind : np.find (byteName 0) = some ⟨c, strncpy (byteName 0)⟩ := by
    rw [Node.find, hk, Option.bind_some, he]
  rw [Nodes.resolve, Nodes.walk, skipelem_bytePath]
  show ((σ ROOTINO).bind _).map _ = _
  rw [hnp, Option.bind_some, if_neg (not_not.mpr ht), if_neg (by simp), hfind]
  rfl

lemma unlinkable : σ.Unlinkable (bytePath 0) := by
  obtain ⟨np, hnp, hdir, -, hk, he⟩ := ha.find
  refine ⟨ROOTINO, _, np, 2, _, n, parent_bytePath hnp hdir, byteName_not_dots 0, hnp, hk, he,
    ha.new, fun ht => ?_⟩
  rw [(ha.dots ht).2]
  exact fun e he => absurd he List.not_mem_nil

lemma nlink_ne_zero {i : ℕ} {m : Node} (hm : σ i = some m) : m.nlink ≠ 0 := by
  obtain ⟨np, np', -, -, hpos, hnp', -, hlink, -⟩ := ha.parent
  by_cases hc : i = c
  · obtain rfl := Option.some.inj (ha.new.symm.trans (hc ▸ hm))
    simp [ha.nlink]
  by_cases hr : i = ROOTINO
  · obtain rfl := Option.some.inj (hnp'.symm.trans (hr ▸ hm))
    omega
  · rw [ha.other i hr hc] at hm
    exact absurd (emptyNodes_eq_some hm).1 hr

lemma write (ht : n.type = T_FILE) (src : List UInt8) :
    AddsFirst (Function.update σ c (some { n with data := src })) c { n with data := src } where
  __ := ha
  new := Function.update_self ..
  dots hdir := absurd (ht.symm.trans hdir) (by decide)
  parent := by
    rw [Function.update_of_ne ha.parent_ne]
    exact ha.parent
  other i hp hc := by
    rw [Function.update_of_ne hc]
    exact ha.other i hp hc

lemma taken (hn : n.data = []) : layout.taken σ.len = 1 := by
  obtain ⟨np, hnp, -, hlen, -⟩ := ha.find
  have hsame : σ.len = Nodes.len (Function.update emptyNodes c (some n)) := by
    funext i
    by_cases hc : i = c
    · rw [hc, Nodes.len, Nodes.len, ha.new, Function.update_self]
    rw [Nodes.len, Nodes.len, Function.update_of_ne hc]
    by_cases hi : i = ROOTINO
    · rw [hi, hnp, emptyNodes_root, Option.map_some, Option.map_some, hlen]
      exact congrArg some length_emptyData.symm
    · rw [ha.other i hi hc]
  rw [hsame, layout.taken_blank ha.old hn, taken_emptyNodes]

end AddsFirst

end

end Mkfs

lemma Layout.Keeps.congr {L L' : Layout} {D : (ℕ → Block) → Prop} {s : Fs}
    {m : Machine} {fm : FsMem}
    (h : L.Keeps D s m fm) (hsb : L'.sb = L.sb) (hlim : L'.limit = L.limit) :
    L'.Keeps D s m fm := by
  obtain ⟨sb, limit⟩ := L
  obtain ⟨sb', limit'⟩ := L'
  obtain rfl : sb' = sb := hsb
  obtain rfl : limit' = limit := hlim
  obtain ⟨v, ino, hon, hr, hD⟩ := h
  exact ⟨v, ino, hon.imp fun _ ⟨hplays, hv⟩ => ⟨hplays, { hv with }⟩,
    { hr with owns := { hr.owns with } }, hD⟩

def World.Calls (w : World) (c : FsCall) (w' : World) : Prop :=
  c.Legal w.session ∧ w.call c = .ok w'.session (w'.machine, w'.mem)

def World.state (w : World) : Machine × FsMem := (w.machine, w.mem)

lemma World.Calls.steps {w w' w₀ : World} {c : FsCall} (h : w.Calls c w')
    (hw : w₀.Steps World.anyCall w) : w₀.Steps World.anyCall w' :=
  .call c hw h.1 trivial h.2

namespace Mkfs

/-! ## The first calls -/

/-- What a kernel on the image of `mkfs` knows of its files: the open files, and the nodes. -/
structure Knows (q : Machine × FsMem) (t : Table) (σ : Nodes) : Prop where
  kept : ∃ s, layout.Keeps (layout.OnDisk (layout.Safe fun _ => True)) s q.1 q.2 ∧
    s.Holds t σ [] ∅ 0
  quiet : Quiet layout (fun _ => True) t σ []

instance : layout.Scarce := ⟨trivial, trivial⟩

section

variable {w : World} {q : Machine × FsMem} {t : Table} {σ : Nodes} {f : Fin NFILE}
  {ip : Fin NINODE} {c : ℕ} {n : Node} {omode : UInt32}

lemma safe_emptyNodes {O : ℕ → Prop} : layout.Safe O emptyNodes := by
  refine ⟨tree_emptyNodes, fun i n hn hz => ?_⟩
  rw [(emptyNodes_eq_some hn).2] at hz
  exact absurd hz (by decide)

/-- A kernel that has mounted the image. -/
lemma exists_knows (input : List UInt8) : ∃ st w, main [] = some st ∧
    World.Boots (fun k => st.img k.blockno) input w ∧ Knows w.state .empty emptyNodes := by
  obtain ⟨st, hst⟩ := exists_main_nil
  obtain ⟨hdisk, hsuper, hlog⟩ := onDisk_main_nil hst
  obtain ⟨m, blk, hrun, hon, hD⟩ := mountFs_kernel
    (image_of_img (d := fun k => st.img k.blockno) hsuper hlog hdisk fun _ => rfl) input
  obtain ⟨σ, ino, rfl, hrep⟩ := hD.rep input
  refine ⟨st, ⟨m, _, .empty⟩, hst, ⟨hrun, rfl⟩,
    ⟨_, ⟨.mounted blk, ino, hon, hrep, hD.mono ?_⟩, Fs.holds_mounted _ _⟩,
    quiet_empty safe_emptyNodes⟩
  rintro σ rfl
  exact safe_emptyNodes

namespace Knows

/-- The kernel mounts the image with the first node. -/
lemma mounted {q' : Machine × FsMem} {input : List UInt8} (h : Knows q t σ) (ha : AddsFirst σ c n)
    (hm : layout.Mounted (Fs.mounted σ input) q'.1 q'.2) : Knows q' .empty σ := by
  have hsafe : ∀ {O}, layout.Safe O σ :=
    ⟨h.quiet.tree, fun i m hm hz => absurd hz (ha.nlink_ne_zero hm)⟩
  exact ⟨⟨_, hm.keeps (Fs.holds_mounted σ input) (Layout.durable_onDisk hsafe),
    Fs.holds_mounted σ input⟩, quiet_empty hsafe⟩

/-- Code that has the resources it needs. -/
lemma run {α : Type} {p : K α} {R : α → Table → Nodes → Prop} (h : Knows q t σ)
    (hp : ∀ s, s.Holds t σ [] ∅ 0 → Quiet layout.ample (fun _ => True) t σ [] →
      nwp layout.ample (layout.ample.OnDisk (layout.ample.Safe fun _ => True)) p
        (fun r s' => ∃ t' σ', s'.Holds t' σ' [] ∅ 0 ∧
          Quiet layout.ample (fun _ => True) t' σ' [] ∧ R r t' σ') s) :
    ∃ r q' t' σ', p.run kernelHandler q = .ok r q' ∧ Knows q' t' σ' ∧ R r t' σ' := by
  obtain ⟨⟨s, hkept, hs⟩, hq⟩ := h
  rw [← Layout.onDisk_congr layout layout.ample rfl] at hkept
  obtain ⟨r, m, fm, s', hrun, hkept', t', σ', hs', hq', hR⟩ :=
    nwp_completes (hp s hs { hq with }) (Option.some_ne_none _) hkept
  rw [Layout.onDisk_congr layout layout.ample rfl] at hkept'
  exact ⟨r, (m, fm), t', σ', hrun, ⟨⟨s', hkept', hs'⟩, { hq' with }⟩, hR⟩

lemma ftable (h : Knows q t σ) : q.2.ftable = t.file := by
  obtain ⟨⟨s, ⟨v, ino, -, hr, -⟩, hs⟩, -⟩ := h
  rw [← hr.ft, hs.file]

lemma entry (h : Knows q t σ) (hf : (t.file f).type = .inode) :
    0 < (q.2.icache (t.file f).ip).ref ∧ (q.2.icache (t.file f).ip).valid = true ∧
      (q.2.icache (t.file f).ip).inum = t.inum f := by
  obtain ⟨n, hn⟩ := h.quiet.live f hf
  obtain ⟨⟨s, ⟨v, ino, -, hr, -⟩, hs⟩, -⟩ := h
  have hh := hs.has_file hf hn
  rw [← hr.ref_eq, ← hr.valid_eq, ← hr.inum_eq]
  exact ⟨hh.isAt.1, hh.valid, hh.isAt.2⟩

lemma nodes (h : Knows q t σ) : layout.nodes (fun b => q.1.view (onDev b)) = σ := by
  obtain ⟨⟨s, ⟨v, ino, hon, hr, -⟩, hs⟩, -⟩ := h
  exact (hr.nodes_eq hs.stale fun b hb => hon.view_eq hb).trans hs.node

lemma image (h : Knows q t σ) : layout.Image (layout.OnDisk (· = σ)) q.1.disk := by
  obtain ⟨⟨s, hkept, hs⟩, -⟩ := h
  exact (hkept.mounted.keeps hs (Layout.durable_onDisk (P := (· = σ)) rfl)).image

end Knows

lemma supplies_first : layout.ample.Supplies .empty emptyNodes [] (bytePath 0) := by
  have hroot : ∀ {p name n}, emptyNodes.parent (bytePath 0) = some (p, name) →
      emptyNodes p = some n → freeSlot n.entries = 2 ∧ n.data.length = 512 := by
    intro p name n hp hn
    obtain ⟨-, rfl⟩ := emptyNodes_eq_some hn
    exact ⟨freeSlot_root, length_emptyData⟩
  refine ⟨by simp, ⟨2, by decide, by decide, Function.update_of_ne (by decide) _ _⟩,
    fun hp hn => ?_, fun hp hn => ?_⟩
  · rw [(hroot hp hn).1]
    decide
  · have htaken : layout.ample.taken emptyNodes.len = 1 := taken_emptyNodes
    have hsize : layout.ample.sb.size - layout.ample.datastart = 941 := by decide
    rw [(hroot hp hn).1, (hroot hp hn).2, htaken, hsize]
    decide

lemma Knows.mkdir (h : Knows q .empty emptyNodes) : ∃ q' c n σ,
    (Xv6.mkdir (bytePath 0)).run kernelHandler q = .ok true q' ∧ Knows q' .empty σ ∧
      n.type = T_DIR ∧ AddsFirst σ c n := by
  obtain ⟨r, q', t, σ, hrun, hk, rfl, rfl, c, n, ht, ha⟩ := h.run (p := Xv6.mkdir (bytePath 0))
    (R := fun r t σ => r = true ∧ t = .empty ∧ ∃ c n, n.type = T_DIR ∧ AddsFirst σ c n)
    fun s hs hq => by
      refine nwp_mono (nwp_mkdir hs hq room_layout (Or.inr supplies_first)) ?_
      rintro b s' ⟨r, σ, rfl, hc, hs', hq'⟩
      obtain ⟨c, n, rfl, ht, ha⟩ := addsFirst_of_creates hc
      exact ⟨.empty, σ, hs', hq', rfl, rfl, c, n, ht, ha⟩
  exact ⟨q', c, n, σ, hrun, hk, ht, ha⟩

/-- `open("a", omode)` that makes the file, or finds the node that is there. -/
lemma Knows.opened (h : Knows q t σ) (hfree : ∃ f, (t.file f).ref = 0)
    (hres : layout.ample.Affords t σ [] (bytePath 0) omode) {R : ℕ → Nodes → Prop}
    (hR : ∀ x σ', σ.Opens NINODES (bytePath 0) omode x σ' → ∃ c, x = some c ∧ R c σ') :
    ∃ q' f ip c σ', (openFile (bytePath 0) omode).run kernelHandler q = .ok (some f) q' ∧
      (t.file f).type = .none ∧ Knows q' (t.set f (openedFile ip omode) c) σ' ∧ R c σ' := by
  obtain ⟨r, q', t', σ', hrun, hk, f, ip, c, rfl, rfl, hf, hRc⟩ :=
    h.run (p := openFile (bytePath 0) omode)
      (R := fun r t' σ' => ∃ f ip c, r = some f ∧ t' = t.set f (openedFile ip omode) c ∧
        (t.file f).type = .none ∧ R c σ') fun s hs hq => by
      refine nwp_mono (nwp_openFile_nodes hs hq.toSteady room_layout (Or.inr hres)
        fun x σ' ho => (hq.opens ho).safe) ?_
      rintro r s' ⟨x, t', σ', ho, hs', hr⟩
      obtain ⟨c, rfl, hRc⟩ := hR x σ' ho
      cases r with
      | none =>
        obtain ⟨-, hnone | hfull⟩ := hr
        · cases hnone
        · exact hfree.elim fun f hf => absurd hf (hfull f)
      | some f =>
        obtain ⟨hf, ip, c', hc, rfl⟩ := hr
        obtain rfl := Option.some.inj hc
        exact ⟨_, σ', hs', hq.opened hf ho ip, f, ip, c, rfl, rfl, hf, hRc⟩
  exact ⟨q', f, ip, c, σ', hrun, hf, hk, hRc⟩

/-- The new file, open for reading and writing. -/
abbrev openFirst (f : Fin NFILE) (ip : Fin NINODE) (c : ℕ) : Table :=
  Table.empty.set f (openedFile ip (O_CREATE ||| O_RDWR)) c

/-- `open("a", O_CREATE | O_RDWR)` on the image without files. -/
lemma Knows.create (h : Knows q .empty emptyNodes) : ∃ q' f ip c n σ,
    (openFile (bytePath 0) (O_CREATE ||| O_RDWR)).run kernelHandler q = .ok (some f) q' ∧
      Knows q' (openFirst f ip c) σ ∧ n.type = T_FILE ∧ n.data = [] ∧ AddsFirst σ c n := by
  obtain ⟨q', f, ip, c, σ, hrun, -, hk, n, ht, hn, ha⟩ := h.opened ⟨0, rfl⟩ supplies_first.affords
    (R := fun c σ => ∃ n, n.type = T_FILE ∧ n.data = [] ∧ AddsFirst σ c n)
    fun x σ (ho : emptyNodes.Opens NINODES (bytePath 0) (O_CREATE ||| O_RDWR) x σ) => by
      have hto := ho.nodes
      rw [Nodes.OpensTo, if_pos (by decide)] at hto
      obtain ⟨c, n, rfl, ht, ha⟩ := addsFirst_of_creates hto
      exact ⟨c, rfl, n, ht, ho.blank ha.old ha.new (by rw [ht]; decide), ha⟩
  exact ⟨q', f, ip, c, n, σ, hrun, hk, ht, hn, ha⟩

/-- `open("a", omode)` of the node that is there. -/
lemma Knows.openAgain (h : Knows q t σ) (hfree : ∃ f, (t.file f).ref = 0)
    (hcard : (entriesUsed t []).card + 1 < NINODE) (ha : AddsFirst σ c n)
    (hmode : omode &&& O_CREATE = 0) (hdir : n.type ≠ T_DIR ∨ omode = 0) : ∃ q' f ip,
    (openFile (bytePath 0) omode).run kernelHandler q = .ok (some f) q' ∧
      (t.file f).type = .none ∧ Knows q' (t.set f (openedFile ip omode) c) σ := by
  obtain ⟨q', f, ip, c', σ', hrun, hf, hk, rfl, rfl⟩ := h.opened hfree
    ⟨hcard, fun hcreate => absurd hmode hcreate⟩
    (R := fun c' σ' => c' = c ∧ σ' = σ) fun x σ' ho => by
      have hto := ho.nodes
      rw [Nodes.OpensTo, if_neg (not_not.mpr hmode)] at hto
      refine ⟨c, (ho.found hmode).trans ?_, rfl, hto⟩
      rw [Nodes.openable, ha.resolve, Option.filter_some, ha.new, Option.map_some, if_pos]
      simpa using hdir
  exact ⟨q', f, ip, hrun, hf, hk⟩

lemma card_entriesUsed_set (f : Fin NFILE) (g : File) (c : ℕ) :
    (entriesUsed (Table.empty.set f g c) []).card ≤ 1 := by
  refine (Finset.card_le_card (t := {g.ip}) fun jp hjp => ?_).trans (Finset.card_singleton g.ip).le
  have hrefs := Table.empty.refs_set f g c jp
  have hpos : 0 < (Table.empty.set f g c).refs jp := by
    simpa [entriesUsed, refsTo] using hjp
  by_contra hne
  have hip : ¬ (g.type = .inode ∧ g.ip = jp) := fun he => hne (Finset.mem_singleton.mpr he.2.symm)
  rw [if_neg hip, Table.refs_empty] at hrefs
  omega

/-- `unlink("a")` while the node is open. -/
lemma Knows.unlink (h : Knows q (Table.empty.set f (openedFile ip omode) c) σ)
    (ha : AddsFirst σ c n) : ∃ q' σ', (Xv6.unlink (bytePath 0)).run kernelHandler q = .ok true q' ∧
      Knows q' (Table.empty.set f (openedFile ip omode) c) σ' ∧
        σ' c = some { n with nlink := 0 } := by
  obtain ⟨r, q', t', σ', hrun, hk, rfl, rfl, hgone⟩ := h.run (p := Xv6.unlink (bytePath 0))
    (R := fun r t' σ' => r = true ∧ t' = Table.empty.set f (openedFile ip omode) c ∧
      σ' c = some { n with nlink := 0 }) fun s hs hq => by
      have hopens : (Table.empty.set f (openedFile ip omode) c).Opens c :=
        ⟨f, by rw [Table.file_set]; rfl, Table.inum_set ..⟩
      refine nwp_mono (nwp_unlink_quiet hs hq room_layout
        (Or.inr ((Nat.add_le_add_right (card_entriesUsed_set ..) 1).trans_lt (by decide)))
        fun _ _ _ => trivial) ?_
      rintro r s' ⟨htrue, σ', hu, hs', hq'⟩
      obtain rfl := htrue.mpr ha.unlinkable
      cases hu with
      | free htarget _ hnot =>
        obtain rfl := Option.some.inj (ha.target.symm.trans htarget)
        exact absurd hopens hnot
      | keep htarget hr =>
        obtain rfl := Option.some.inj (ha.target.symm.trans htarget)
        obtain rfl := Option.some.inj (ha.new.symm.trans hr.node)
        exact ⟨_, σ', hs', hq', rfl, rfl, hr.gone⟩
  exact ⟨q', σ', hrun, hk, hgone⟩

lemma openFirst_spec (f : Fin NFILE) (ip : Fin NINODE) (ha : AddsFirst σ c n)
    (ht : n.type = T_FILE) :
    (openFirst f ip c).inum f = c ∧ σ ((openFirst f ip c).inum f) = some n ∧
      ((openFirst f ip c).file f).type = .inode ∧ ((openFirst f ip c).file f).writable = true ∧
      ((openFirst f ip c).file f).off = 0 ∧ n.type ≠ T_DEV := by
  have hfile : (openFirst f ip c).file f = openedFile ip (O_CREATE ||| O_RDWR) := Table.file_set ..
  have hinum : (openFirst f ip c).inum f = c := Table.inum_set ..
  refine ⟨hinum, hinum.symm ▸ ha.new, hfile ▸ rfl, hfile ▸ rfl, hfile ▸ rfl, ?_⟩
  rw [ht]
  decide

/-- The volume has blocks for the new file. -/
lemma spare_first {m : ℕ} (hm : m ≤ 4 * BSIZE) (ha : AddsFirst σ c n) (hn : n.data = []) :
    layout.ample.Spare σ n.data.length m := by
  have hsize : layout.sb.size - layout.datastart = 941 := by decide
  have hone : layout.Spare σ 0 (4 * BSIZE) := by
    rw [Layout.Spare, ha.taken hn, hsize]
    decide
  rw [hn]
  exact hone.mono hm

/-- `write` of at most one block to the new file. -/
lemma Knows.write {src : List UInt8} (hlen : src.length ≤ BSIZE)
    (h : Knows q (openFirst f ip c) σ) (ha : AddsFirst σ c n) (ht : n.type = T_FILE)
    (hn : n.data = []) : ∃ q', (filewrite f src).run kernelHandler q = .ok (some src.length) q' ∧
      Knows q' ((openFirst f ip c).seek f src.length)
        (Function.update σ c (some { n with data := src })) := by
  obtain ⟨hinum, hnode, hf, hw, hoff, hdev⟩ := openFirst_spec f ip ha ht
  have hk : src.length = written n.data.length ((openFirst f ip c).file f).off src.length := by
    rw [hn, hoff, eq_comm, written_eq_self]
    exact Or.inr ⟨le_rfl, by simpa using hlen.trans (by decide)⟩
  have hspare : layout.ample.Spare σ n.data.length
      (((openFirst f ip c).file f).off + src.length) := by
    rw [hoff, Nat.zero_add]
    exact spare_first (hlen.trans (by decide)) ha hn
  have hdata : ∀ off, n.writeAt off src = { n with data := src } := fun off => by
    simp [Node.writeAt, overlay, hn]
  obtain ⟨r, q', t', σ', hrun, hk', rfl, rfl, rfl⟩ := h.run (p := filewrite f src)
    (R := fun r t σ' => r = some src.length ∧ t = (openFirst f ip c).seek f src.length ∧
      σ' = Function.update σ c (some { n with data := src })) fun s hs hq => by
      refine nwp_mono (nwp_filewrite_file hs room_layout hf hw hnode hdev hk (Or.inr hspare)
        fun src' => (hq.write hf hw hnode src').durable) ?_
      rintro r s' ⟨rfl, hs'⟩
      have hq' : Quiet layout.ample (fun _ => True) (openFirst f ip c) (Function.update σ
          ((openFirst f ip c).inum f) (some (n.writeAt 0 src))) [] := hq.write hf hw hnode src
      rw [hdata, hinum] at hq'
      rw [List.take_length, hdata, hinum, hoff, Nat.zero_add] at hs'
      refine ⟨_, _, hs', hq'.seek fun n' hn' _ => ?_, if_pos rfl, rfl, rfl⟩
      rw [hinum, Function.update_self] at hn'
      obtain rfl := Option.some.inj hn'
      exact le_rfl
  exact ⟨q', hrun, hk'⟩

/-! ## A crowded inode cache -/

/-- So many files are open, each with a node of its own. -/
def OpenFiles (t : Table) (k : ℕ) : Prop :=
  (Finset.univ.filter fun f => (t.file f).type = .inode).card = k ∧
    ∀ f g, (t.file f).type = .inode → (t.file g).type = .inode → t.inum f = t.inum g → f = g

lemma openFiles_empty : OpenFiles .empty 0 :=
  ⟨Finset.card_eq_zero.mpr (Finset.filter_eq_empty_iff.mpr fun _ _ h => nomatch h),
    fun _ _ h => nomatch h⟩

lemma OpenFiles.set {k : ℕ} (h : OpenFiles t k) (hf : (t.file f).type = .none)
    (hnew : ∀ g, (t.file g).type = .inode → t.inum g ≠ c) :
    OpenFiles (t.set f (openedFile ip omode) c) (k + 1) := by
  have hset : ∀ g, ((t.set f (openedFile ip omode) c).file g).type = .inode ↔
      g = f ∨ (t.file g).type = .inode := fun g => by
    by_cases hg : g = f
    · simp [hg, openedFile]
    · simp [hg, Table.file_set_of_ne hg]
  constructor
  · have hmem : f ∉ Finset.univ.filter fun g => (t.file g).type = .inode := by simp [hf]
    rw [← h.1, ← Finset.card_insert_of_notMem hmem]
    congr 1
    ext g
    simp [hset]
  · intro g g' hg hg' he
    by_cases hgf : g = f <;> by_cases hgf' : g' = f
    · rw [hgf, hgf']
    · rw [hgf, Table.inum_set, Table.inum_set_of_ne hgf'] at he
      exact absurd he.symm (hnew g' (((hset g').mp hg').resolve_left hgf'))
    · rw [hgf', Table.inum_set, Table.inum_set_of_ne hgf] at he
      exact absurd he (hnew g (((hset g).mp hg).resolve_left hgf))
    · rw [Table.inum_set_of_ne hgf, Table.inum_set_of_ne hgf'] at he
      exact h.2 g g' (((hset g).mp hg).resolve_left hgf) (((hset g').mp hg').resolve_left hgf') he

/-- The root directory, which lacks the names behind `k`. -/
def Lacks (σ : Nodes) (k : ℕ) : Prop := ∃ np, σ ROOTINO = some np ∧ np.type = T_DIR ∧
  ∀ j : Fin 52, k < j → findName (byteName j) np.entries = none

lemma Lacks.adds {σ' : Nodes} {k k' i : ℕ} {j : Fin 52} (h : Lacks σ k)
    (ha : σ.Adds NINODES σ' ROOTINO i c (strncpy (byteName j)) n) (hk : k ≤ k') (hj : j ≤ k') :
    Lacks σ' k' := by
  obtain ⟨np, hnp, -, hnone⟩ := h
  obtain ⟨np₀, np', hnp₀, -, -, hnp', hdir, -, hentries⟩ := ha.parent
  obtain rfl := Option.some.inj (hnp.symm.trans hnp₀)
  refine ⟨np', hnp', hdir.type, fun j' hj' => findName_eq_none_iff.mpr fun e he => ?_⟩
  obtain ⟨l, hl⟩ := List.getElem?_of_mem he
  rw [hentries] at hl
  split_ifs at hl with hli
  · rw [← Option.some.inj hl]
    exact fun hm => namecmp_byteName j' j (by rintro rfl; omega) hm.2
  · exact findName_eq_none_iff.mp (hnone j' (by omega)) e (List.mem_of_getElem? hl)

lemma lacks_first (ha : AddsFirst σ c n) (k : ℕ) : Lacks σ k :=
  Lacks.adds (k := 0) ⟨_, emptyNodes_root, rfl, fun j _ => findName_root j⟩ ha (Nat.zero_le k)
    (Nat.zero_le k)

/-- A kernel with `k` open files. -/
def Crowd (q : Machine × FsMem) (k : ℕ) : Prop :=
  ∃ t σ, Knows q t σ ∧ OpenFiles t k ∧ Lacks σ k

namespace Crowd

variable {k : ℕ}

/-- Open files of different nodes have different entries of the inode cache. -/
lemma le (h : Crowd q k) : k ≤ NINODE := by
  obtain ⟨t, σ, hk, ⟨hcard, hinj⟩, -⟩ := h
  rw [← hcard, ← Fintype.card_fin NINODE, ← Finset.card_univ]
  refine Finset.card_le_card_of_injOn (fun f => (t.file f).ip) (fun _ _ => Finset.mem_univ _) ?_
  intro f hf g hg hip
  have hf : (t.file f).type = .inode := by simpa using hf
  have hg : (t.file g).type = .inode := by simpa using hg
  refine hinj f g hf hg ?_
  rw [← (hk.entry hf).2.2, ← (hk.entry hg).2.2]
  exact congrArg (fun ip => (q.2.icache ip).inum) hip

/-- One more file is made, or the kernel panics. -/
lemma openFile (h : Crowd q k) (hk : k + 1 < 52) :
    (∃ f q', (Xv6.openFile (bytePath ⟨k + 1, hk⟩) (O_CREATE ||| O_RDWR)).run kernelHandler q =
      .ok (some f) q' ∧ Crowd q' (k + 1)) ∨
    ∃ p q', (Xv6.openFile (bytePath ⟨k + 1, hk⟩) (O_CREATE ||| O_RDWR)).run kernelHandler q =
      .error (.panic p) q' := by
  have hle := h.le
  obtain ⟨t, σ, ⟨⟨s, hkept, hs⟩, hq⟩, hopen, hlacks⟩ := h
  rw [← Layout.onDisk_congr layout layout.prompt rfl] at hkept
  have hq' : Quiet layout.prompt (fun _ => True) t σ [] := { hq with }
  rcases nwp_kernel (nwp_openFile hs hq' room_layout (Or.inl trivial)) (hkept.congr rfl rfl) with
    ⟨r, m, fm, s', hrun, hkept', x, t', σ', hto, hs', hq'', hr⟩ | ⟨x, q', hrun, hhalts, -⟩
  · rw [Nodes.OpensTo, if_pos (show (O_CREATE ||| O_RDWR) &&& O_CREATE ≠ 0 by decide)] at hto
    obtain ⟨np, hnp, hdir, hnone⟩ := id hlacks
    obtain ⟨c, n, rfl, -, ha⟩ := adds_of_creates hnp hdir
      (hnone ⟨k + 1, hk⟩ (Nat.lt_succ_self k)) hto
    cases r with
    | none =>
      obtain ⟨-, hnone | hfull⟩ := hr
      · cases hnone
      · -- there are more files than entries of the inode cache
        have hall : ∀ f, (t.file f).type = .inode := fun f =>
          (hq.table f).elim (·.1) fun hf => absurd hf.2 (hfull f)
        have hcard := hopen.1
        rw [Finset.filter_true_of_mem fun f _ => hall f, Finset.card_univ,
          Fintype.card_fin] at hcard
        simp only [NFILE, NINODE] at hcard hle
        omega
    | some f =>
      obtain ⟨hf, ip, c', hc, rfl⟩ := hr
      obtain rfl := Option.some.inj hc
      refine Or.inl ⟨f, (m, fm), hrun, _, σ', ⟨⟨s', ?_, hs'⟩, { hq'' with }⟩,
        hopen.set hf fun g hg he => ?_, hlacks.adds ha k.le_succ le_rfl⟩
      · rw [Layout.onDisk_congr layout layout.prompt rfl] at hkept'
        exact hkept'.congr rfl rfl
      · obtain ⟨n', hn'⟩ := hq.live g hg
        rw [he, ha.old] at hn'
        cases hn'
  · cases x with
    | panic p => exact Or.inr ⟨p, q', hrun⟩
    | blocked => exact hhalts.2.elim
    | stray => exact hhalts.elim

/-- **The kernel panics before all the files are made.** -/
lemma panics {R : Machine × FsMem → Prop} (h : Crowd q k) (hq : R q)
    (hR : ∀ {q q' j f}, R q →
      (Xv6.openFile (bytePath j) (O_CREATE ||| O_RDWR)).run kernelHandler q =
      .ok (some f) q' → R q') :
    ∃ q₁ j p q₂, R q₁ ∧ (Xv6.openFile (bytePath j) (O_CREATE ||| O_RDWR)).run kernelHandler q₁ =
      .error (.panic p) q₂ := by
  obtain ⟨m, hm⟩ : ∃ m, m + k = NINODE := ⟨NINODE - k, Nat.sub_add_cancel h.le⟩
  have hlt : k + 1 < 52 := Nat.succ_lt_succ (Nat.lt_succ_of_le h.le)
  induction m generalizing q k with
  | zero =>
    rcases h.openFile hlt with ⟨f, q', -, h'⟩ | ⟨p, q', hrun⟩
    · have hle := h'.le
      omega
    · exact ⟨q, _, p, q', hq, hrun⟩
  | succ m ih =>
    rcases h.openFile hlt with ⟨f, q', hrun, h'⟩ | ⟨p, q', hrun⟩
    · exact ih h' (hR hq hrun) (by omega) (Nat.succ_lt_succ (Nat.lt_succ_of_le h'.le))
    · exact ⟨q, _, p, q', hq, hrun⟩

end Crowd

/-! ## Inside a write -/

/-- `filewrite` reaches the end of its first `writei`. -/
lemma reaches_writei {g : File} {src : List UInt8} {m : Machine} {fm : FsMem} {r : Option ℕ}
    {q : Machine × FsMem} (hg : fm.ftable f = g) (hw : g.writable = true) (ht : g.type = .inode)
    (href : 0 < (fm.icache g.ip).ref) (hv : (fm.icache g.ip).valid = true) (hsrc : src ≠ [])
    (hrun : (writei g.ip (src.take WRITEMAX) g.off).run kernelHandler (m, fm) = .ok r q) :
    Prog.Reaches kernelHandler (filewrite f src) (m, fm) q := by
  obtain ⟨turns, hturns⟩ := Nat.exists_eq_succ_of_ne_zero (List.length_pos_iff.mpr hsrc).ne'
  refine reaches_mem (e := .file f) rfl ?_
  rw [hg, if_neg (by simp [hw]), if_pos ht, hturns]
  refine .bind ?_
  rw [filewriteFrom, if_neg hsrc]
  refine reaches_mem (e := .file f) rfl ?_
  have hread : (iread g.ip).run kernelHandler (m, fm) = .ok () (m, fm) := by
    show (mem (.inode g.ip) >>= _).run kernelHandler (m, fm) = _
    rw [run_mem_bind (r := fm.icache g.ip) rfl, if_neg (by omega), if_pos hv]
    rfl
  rw [hg]
  refine Prog.reaches_bind_ok hread ?_
  refine reaches_mem (e := .file f) rfl ?_
  rw [hg]
  exact Prog.reaches_bind_ok hrun (.here _ _)

/-- The new file is being written: the cache shows the new bytes, the drives still recover to the
empty file, and blocks wait for the commit. -/
lemma Knows.writing (h : Knows q (openFirst f ip c) σ) (src : List UInt8) (hsrc : src ≠ [])
    (hlen : src.length ≤ BSIZE) (ha : AddsFirst σ c n) (ht : n.type = T_FILE)
    (hn : n.data = []) : ∃ q', Prog.Reaches kernelHandler (filewrite f src) q q' ∧
      layout.nodes (fun b => q'.1.view (onDev b)) =
        Function.update σ c (some { n with data := src }) ∧
      layout.Image (layout.OnDisk (· = σ)) q'.1.disk ∧ ∃ y, y.Nonempty ∧
        Prog.Reaches (Handler.track kernelHandler ledger) (filewrite f src) (q, ∅) (q', y) := by
  obtain ⟨hinum, hnode, hf, hw, hoff, hdev⟩ := openFirst_spec f ip ha ht
  have hft := h.ftable
  obtain ⟨href, hvalid, -⟩ := h.entry hf
  obtain ⟨⟨s, hkept, hs⟩, hq⟩ := h
  have hh := hs.has_file hf hnode
  have htake : src.take WRITEMAX = src := List.take_of_length_le (hlen.trans (by decide))
  have hroom : layout.ample.Room ((s.metas ∪ {layout.bmapblock, layout.iblock c}).card +
      (s.datas + 2 * touched 0 src.length)) := by
    have hmetas : s.metas = ∅ := Finset.subset_empty.mp hs.metas
    have hdatas : s.datas = 0 := Nat.le_zero.mp hs.datas
    have htouched := touched_le 0 (hlen.trans (by decide : BSIZE ≤ WRITEMAX))
    have hpair := Finset.card_le_two (a := layout.bmapblock) (b := layout.iblock c)
    rw [hmetas, hdatas, Finset.empty_union]
    refine room_layout.mono ?_
    simp only [MAXOPBLOCKS]
    omega
  -- `writei` by itself, on a drive that recovers to the empty file
  obtain ⟨r, m, fm, s', hrun, hkept', rfl, hs'⟩ := nwp_completes (D := layout.OnDisk (· = σ))
    (nwp_writei hh (by simp [hs.stale]) hdev (Nat.zero_le _) (by simpa using hlen.trans (by decide))
      (hinum ▸ hroom) (Or.inr (hs.node ▸ (Nat.zero_add _).symm ▸
        spare_first (hlen.trans (by decide)) ha hn)))
    (Option.some_ne_none _) (hkept.mounted.keeps hs (Layout.durable_onDisk rfl))
  have hreach : Prog.Reaches kernelHandler (filewrite f src) q (m, fm) :=
    reaches_writei (congrFun hft f) hw hf href hvalid hsrc (by rw [htake, hoff]; exact hrun)
  have himage := hkept'.image
  obtain ⟨v', ino', ⟨a', hplays', hshows'⟩, hr', hD'⟩ := hkept'
  have hnew : s'.node = Function.update σ c (some { n with data := src }) := by
    rw [hs', hinum, ← hs.node, hn]
    simp [overlay]
  have hstale : s'.stale = ∅ := by
    rw [hs']
    exact hs.stale
  refine ⟨(m, fm), hreach, ?_, himage, ?_⟩
  · exact (hr'.nodes_eq hstale fun b hb => Layout.On.view_eq ⟨a', hplays', hshows'⟩ hb).trans hnew
  obtain ⟨y, hy⟩ := hreach.track ledger ∅
  refine ⟨y, Finset.nonempty_iff_ne_empty.mpr fun hz => ?_, hy⟩
  obtain ⟨v, ino, ⟨a, hplays, hshows⟩, hr, hD⟩ := hkept
  obtain ⟨a'', -, hplays'', rfl⟩ := kwp_kernel_ledger
    (nwp_filewrite hs hq room_layout hf ino v q.2 hr a hshows hD) (fun _ _ hx => hx.1) hplays
    (hshows.dirty_eq_empty (hr.logged_eq_empty hs)) hy
  rw [hplays''.dirty_unique hplays'] at hz
  have hsame : ∀ b, layout.Out b → v'.old b = v'.blk b := fun b hb => by
    rw [← hshows'.old b hb, ← hshows'.mem b hb,
      hshows'.clean _ (by simp [hz]) (by simp [hshows'.pend_eq_empty hr'.pend])]
  have hnodes := (hD'.nodes_eq.symm.trans (hr'.nodes_eq hstale hsame)).trans hnew
  have hc := congrFun hnodes c
  rw [ha.new, Function.update_self, Option.some.injEq] at hc
  exact hsrc ((congrArg Node.data hc).symm.trans hn)

/-! ## As calls -/

/-- A kernel that has mounted the image and made a file. -/
lemma exists_opened : ∃ st w₀ w₁ f ip c n σ, main [] = some st ∧
    World.Boots (fun k => st.img k.blockno) [] w₀ ∧
    w₀.Calls (.openFile (bytePath 0) (O_CREATE ||| O_RDWR)) w₁ ∧
    w₁.session = { Session.empty with kernel := [f] } ∧ Knows w₁.state (openFirst f ip c) σ ∧
    n.type = T_FILE ∧ n.data = [] ∧ AddsFirst σ c n := by
  obtain ⟨st, w₀, hst, hboots, hk₀⟩ := exists_knows []
  obtain ⟨q, f, ip, c, n, σ, hrun, hk, ht, hn, ha⟩ := hk₀.create
  refine ⟨st, w₀, ⟨q.1, q.2, { Session.empty with kernel := [f] }⟩, f, ip, c, n, σ, hst, hboots,
    ⟨trivial, ?_⟩, rfl, hk, ht, hn, ha⟩
  rw [World.call, hboots.session]
  exact Prog.run_bind_ok _ hrun

/-- A kernel that has made a file, and panics when it has made as many as it can. -/
lemma exists_crowd : ∃ st w₀ w₁ w, ∃ (j : Fin 52) (p : Panic) (q : Machine × FsMem),
    main [] = some st ∧ World.Boots (fun k => st.img k.blockno) [] w₀ ∧
    w₀.Calls (.openFile (bytePath 0) (O_CREATE ||| O_RDWR)) w₁ ∧ w₁.Steps World.anyCall w ∧
    w₀.Steps World.anyCall w ∧
    w.call (.openFile (bytePath j) (O_CREATE ||| O_RDWR)) = .error (.panic p) q := by
  obtain ⟨st, w₀, w₁, f, ip, c, n, σ, hst, hboots, hopen, hS, hk, ht, hn, ha⟩ := exists_opened
  have hcrowd : Crowd w₁.state 1 :=
    ⟨_, σ, hk, openFiles_empty.set rfl (fun g hg => nomatch hg), lacks_first ha 1⟩
  obtain ⟨q, j, p, q', ⟨S, h₁, h₀⟩, hrun⟩ := hcrowd.panics
    (R := fun q => ∃ S, w₁.Steps World.anyCall ⟨q.1, q.2, S⟩ ∧
      w₀.Steps World.anyCall ⟨q.1, q.2, S⟩)
    ⟨w₁.session, .refl, hopen.steps .refl⟩ fun {q q' j f} ⟨S, h₁, h₀⟩ hrun => by
      have hcall : World.Calls ⟨q.1, q.2, S⟩ (.openFile (bytePath j) (O_CREATE ||| O_RDWR))
          ⟨q'.1, q'.2, { S with kernel := f :: S.kernel }⟩ := ⟨trivial, Prog.run_bind_ok _ hrun⟩
      exact ⟨_, hcall.steps h₁, hcall.steps h₀⟩
  exact ⟨st, w₀, w₁, _, j, p, q', hst, hboots, hopen, h₁, h₀, Prog.run_bind_error _ hrun⟩

/-- A kernel that has made a file and written to it. -/
lemma exists_written (src : List UInt8) (hlen : src.length ≤ BSIZE) : ∃ st w₀ w₁ w₂ f ip c n σ,
    main [] = some st ∧ World.Boots (fun k => st.img k.blockno) [] w₀ ∧
    w₀.Calls (.openFile (bytePath 0) (O_CREATE ||| O_RDWR)) w₁ ∧ w₁.Calls (.filewrite f src) w₂ ∧
    Knows w₂.state ((openFirst f ip c).seek f src.length)
      (Function.update σ c (some { n with data := src })) ∧
    n.type = T_FILE ∧ n.data = [] ∧ AddsFirst σ c n := by
  obtain ⟨st, w₀, w₁, f, ip, c, n, σ, hst, hboots, hopen, hS, hk, ht, hn, ha⟩ := exists_opened
  obtain ⟨q, hrun, hk'⟩ := hk.write hlen ha ht hn
  refine ⟨st, w₀, w₁, ⟨q.1, q.2, w₁.session⟩, f, ip, c, n, σ, hst, hboots, hopen, ⟨?_, ?_⟩, hk', ht,
    hn, ha⟩
  · rw [hS]
    exact List.mem_cons_self
  · exact Prog.run_bind_ok _ hrun

/-- A kernel that has made a file, written to it and opened it again. -/
lemma exists_reopened (src : List UInt8) (hlen : src.length ≤ BSIZE) :
    ∃ st w₀ w₁ w₂ w₃ f f' ip c n σ, ∃ t : Table, main [] = some st ∧
    World.Boots (fun k => st.img k.blockno) [] w₀ ∧
    w₀.Calls (.openFile (bytePath 0) (O_CREATE ||| O_RDWR)) w₁ ∧ w₁.Calls (.filewrite f src) w₂ ∧
    w₂.Calls (.openFile (bytePath 0) O_RDWR) w₃ ∧
    Knows w₃.state (t.set f' (openedFile ip O_RDWR) c)
      (Function.update σ c (some { n with data := src })) ∧
    n.type = T_FILE ∧ n.data = [] ∧ AddsFirst σ c n := by
  obtain ⟨st, w₀, w₁, w₂, f, ip, c, n, σ, hst, hboots, h₁, h₂, hk, ht, hn, ha⟩ :=
    exists_written src hlen
  set t := (openFirst f ip c).seek f src.length with htable
  rw [Table.seek, Table.set_set, Table.inum_set] at htable
  have hnext : ∀ f : Fin NFILE, f + 1 ≠ f := by decide
  have hfree : ∃ g, (t.file g).ref = 0 :=
    ⟨f + 1, by rw [htable, Table.file_set_of_ne (hnext f)]; rfl⟩
  have hcard : (entriesUsed t []).card + 1 < NINODE := by
    rw [htable]
    exact (Nat.add_le_add_right (card_entriesUsed_set ..) 1).trans_lt (by decide)
  obtain ⟨q, f', ip', hrun, -, hk'⟩ := hk.openAgain hfree hcard (ha.write ht src)
    (show O_RDWR &&& O_CREATE = 0 from rfl) (Or.inl (by simp [ht]))
  exact ⟨st, w₀, w₁, w₂, ⟨q.1, q.2, { w₂.session with kernel := f' :: w₂.session.kernel }⟩,
    f, f', ip', c,
    n, σ, t, hst, hboots, h₁, h₂, ⟨trivial, Prog.run_bind_ok _ hrun⟩, hk', ht, hn, ha⟩

/-- A kernel that has made a directory, opened it and unlinked it. -/
lemma exists_orphan : ∃ st w₀ w₁ w₂ w₃ t c n σ, main [] = some st ∧
    World.Boots (fun k => st.img k.blockno) [] w₀ ∧ w₀.Calls (.mkdir (bytePath 0)) w₁ ∧
    w₁.Calls (.openFile (bytePath 0) O_RDONLY) w₂ ∧ w₂.Calls (.unlink (bytePath 0)) w₃ ∧
    Knows w₃.state t σ ∧ σ c = some n ∧ n.type = T_DIR ∧ n.nlink = 0 := by
  obtain ⟨st, w₀, hst, hboots, hk₀⟩ := exists_knows []
  obtain ⟨q₁, c, n, σ, hrun₁, hk₁, ht, ha⟩ := hk₀.mkdir
  obtain ⟨q₂, f, ip, hrun₂, -, hk₂⟩ := hk₁.openAgain ⟨0, rfl⟩ (by simp) ha rfl (Or.inr rfl)
  obtain ⟨q₃, σ', hrun₃, hk₃, hgone⟩ := hk₂.unlink ha
  refine ⟨st, w₀, ⟨q₁.1, q₁.2, .empty⟩, ⟨q₂.1, q₂.2, { Session.empty with kernel := [f] }⟩,
    ⟨q₃.1, q₃.2, { Session.empty with kernel := [f] }⟩, _, c, _, σ', hst, hboots, ⟨trivial, ?_⟩,
    ⟨trivial, ?_⟩, ⟨trivial, ?_⟩, hk₃, hgone, ht, rfl⟩
  · rw [World.call, hboots.session]
    exact Prog.run_bind_ok _ hrun₁
  · exact Prog.run_bind_ok _ hrun₂
  · exact Prog.run_bind_ok _ hrun₃

end

end Mkfs

end Xv6
