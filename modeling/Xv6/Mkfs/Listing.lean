import Xv6.Mkfs.Empty
import Xv6.Abstract.Effects

/-!
# What a user finds on the image

`mkfs` and the kernel implement the format of the drive twice.  Here the nodes of the image are
computed for any list of files, and what the kernel presents when it has mounted them: the root
directory, and in it every file of the command line with its bytes, under its name without a leading
underscore and cut to `DIRSIZ` bytes.

`mkfs` leaves it to its caller that there are inodes for all files, that the entries do not fill the
last block of the root directory, and that the names differ from each other and from the dots.
-/

namespace Xv6.Mkfs

open Lib

/-! ## Nodes -/

/-- The text of the entry of a file. -/
def Input.text (f : Input) : Text := f.base.take DIRSIZ

/-- The node of a file. -/
def Input.node (f : Input) : Node := ⟨T_FILE, 0, 0, 1, f.chunks.flatten⟩

/-- The entries of the root directory. -/
def listing (files : List Input) : List Dirent :=
  ⟨ROOTINO, dot⟩ :: ⟨ROOTINO, dotdot⟩ :: files.mapIdx fun k f => ⟨k + 2, nameOf f.base⟩

/-- The root directory with the contents `data`, and the files behind it. -/
def nodesOf (files : List Input) (data : List UInt8) : Nodes := fun i =>
  if i = ROOTINO then some (rootNode data)
  else if i < 2 then none else files[i - 2]?.map Input.node

/-- The contents of a directory with these entries. -/
def direntBytes (es : List Dirent) : List UInt8 := es.flatMap Dirent.bytes

/-- Entries that are not in use, up to the end of the block behind the last file. -/
def spare (files : List Input) : List Dirent :=
  List.replicate (roundUp ((files.length + 2) * DIRENTSIZE) / DIRENTSIZE - (files.length + 2))
    ⟨0, Bytes.zero⟩

def imageNodes (files : List Input) : Nodes :=
  nodesOf files (direntBytes (listing files ++ spare files))

/-- What the callers of `mkfs` see to. -/
structure Listable (files : List Input) : Prop where
  inodes : files.length + 2 ≤ NINODES
  room : (files.length + 2) * DIRENTSIZE % BSIZE ≠ 0
  distinct : files.Pairwise fun f g => f.text ≠ g.text
  dots : ∀ f ∈ files, f.text ≠ dot.text ∧ f.text ≠ dotdot.text

instance (files : List Input) : Decidable (Listable files) :=
  decidable_of_iff
    (files.length + 2 ≤ NINODES ∧ (files.length + 2) * DIRENTSIZE % BSIZE ≠ 0 ∧
      (files.Pairwise fun f g => f.text ≠ g.text) ∧
      ∀ f ∈ files, f.text ≠ dot.text ∧ f.text ≠ dotdot.text)
    ⟨fun ⟨h₁, h₂, h₃, h₄⟩ => ⟨h₁, h₂, h₃, h₄⟩, fun h => ⟨h.inodes, h.room, h.distinct, h.dots⟩⟩

/-- What a user finds: the root directory, and the files in it. -/
def imageView (files : List Input) : List Text → Option Object
  | [] => some .dir
  | [c] => (files.find? fun f => f.text = c).map fun f => .file f.chunks.flatten
  | _ => none

section

variable {files : List Input} {data : List UInt8} {f : Input} {i k : ℕ} {n : Node} {e : Dirent}
  {s s' : State}

/-! ## Bytes of the root directory -/

lemma direntBytes_append (es es' : List Dirent) :
    direntBytes (es ++ es') = direntBytes es ++ direntBytes es' := List.flatMap_append

lemma length_direntBytes (es : List Dirent) : (direntBytes es).length = es.length * DIRENTSIZE := by
  induction es with
  | nil => rfl
  | cons e es ih =>
    rw [direntBytes, List.flatMap_cons, List.length_append, Dirent.length_bytes, List.length_cons,
      Nat.succ_mul, Nat.add_comm]
    exact congrArg (· + DIRENTSIZE) ih

/-- **The kernel reads the entries that `mkfs` writes.** -/
lemma direntsOf_direntBytes {es : List Dirent} (h : ∀ e ∈ es, e.inum < 65536) :
    direntsOf (direntBytes es) = es := by
  induction es with
  | nil => rfl
  | cons e es ih =>
    rw [direntBytes, List.flatMap_cons, direntsOf_append ⟨1, Dirent.length_bytes _⟩,
      direntsOf_bytes (h e List.mem_cons_self)]
    exact congrArg (e :: ·) (ih fun e' he' => h e' (List.mem_cons_of_mem _ he'))

lemma bytes_zero : Dirent.bytes ⟨0, Bytes.zero⟩ = List.replicate DIRENTSIZE 0 := by
  decide +kernel

lemma direntBytes_replicate (m : ℕ) :
    direntBytes (List.replicate m ⟨0, Bytes.zero⟩) = List.replicate (m * DIRENTSIZE) 0 := by
  induction m with
  | zero => simp [direntBytes]
  | succ m ih =>
    rw [List.replicate_succ, direntBytes, List.flatMap_cons, bytes_zero, Nat.succ_mul,
      Nat.add_comm, List.replicate_add]
    exact congrArg (List.replicate DIRENTSIZE 0 ++ ·) ih

lemma length_listing (files : List Input) : (listing files).length = files.length + 2 := by
  simp [listing]

lemma direntBytes_spare (files : List Input) : direntBytes (listing files ++ spare files) =
    direntBytes (listing files) ++
      List.replicate (roundUp ((files.length + 2) * DIRENTSIZE) -
        (files.length + 2) * DIRENTSIZE) 0 := by
  rw [direntBytes_append, spare, direntBytes_replicate]
  congr 2
  simp only [roundUp, BSIZE, DIRENTSIZE]
  omega

lemma listing_concat (files : List Input) (f : Input) :
    listing (files ++ [f]) = listing files ++ [⟨files.length + 2, nameOf f.base⟩] := by
  simp [listing, List.mapIdx_append]

/-! ## The loop over the files -/

lemma add_two_ne_root (k : ℕ) : k + 2 ≠ ROOTINO := by
  show k + 2 ≠ 1
  omega

lemma nodesOf_root : nodesOf files data ROOTINO = some (rootNode data) := if_pos rfl

lemma nodesOf_file (k : ℕ) : nodesOf files data (k + 2) = files[k]?.map Input.node := by
  rw [nodesOf, if_neg (add_two_ne_root k), if_neg (by omega), Nat.add_sub_cancel]

lemma nodesOf_concat (files : List Input) (f : Input) (data data' : List UInt8) :
    Function.update (Function.update (nodesOf files data) ROOTINO (some (rootNode data')))
      (files.length + 2) (some f.node) = nodesOf (files ++ [f]) data' := by
  funext i
  rcases i with _ | _ | k
  · rfl
  · rw [Function.update_of_ne (by simp)]
    rfl
  · rw [nodesOf_file]
    rcases Nat.lt_trichotomy k files.length with hlt | rfl | hgt
    · rw [Function.update_of_ne (by omega), Function.update_of_ne (add_two_ne_root k), nodesOf_file,
        List.getElem?_append_left hlt]
    · rw [Function.update_self, List.getElem?_concat_length]
      rfl
    · rw [Function.update_of_ne (by omega), Function.update_of_ne (add_two_ne_root k), nodesOf_file,
        List.getElem?_eq_none hgt.le, List.getElem?_eq_none]
      rw [List.length_append, List.length_singleton]
      exact hgt

/-- What `mkfs` has written when it has added files. -/
structure Wrote (files : List Input) (s : State) : Prop where
  sound : Sound s (nodesOf files (direntBytes (listing files)))
  freeinode : s.freeinode = files.length + 2

lemma Wrote.root_lt (h : Wrote files s) : ROOTINO < s.freeinode := by
  rw [h.freeinode]
  exact Nat.succ_lt_succ (Nat.succ_pos _)

/-- **One more file.** -/
lemma Wrote.addFile (h : Wrote files s) (hlt : files.length + 2 < NSLOTS)
    (hrun : Mkfs.addFile ROOTINO s f = some s') : Wrote (files ++ [f]) s' := by
  have hslash : slash ∉ f.name.bytes := fun hin => by
    rw [Mkfs.addFile, if_pos hin] at hrun
    cases hrun
  have hplace : place s.freeinode = files.length + 2 := by
    rw [h.freeinode, place_of_lt hlt]
  rcases h.sound.addFile h.root_lt (h.freeinode ▸ hlt.le) nodesOf_root hslash with
    ⟨s₁, heq, hs₁, hi₁, -⟩ | ⟨hnone, -⟩
  swap
  · cases hrun.symm.trans hnone
  rw [hplace, Function.update_comm (add_two_ne_root _)] at hs₁
  obtain ⟨hs', hi'⟩ := hs₁.appendAll (i := s.freeinode) (Nat.zero_lt_of_lt h.root_lt)
    (hi₁ ▸ Nat.lt_succ_self _) (by rw [hplace, Function.update_self]) (heq.symm.trans hrun)
  refine ⟨?_, ?_⟩
  · rw [hplace, Function.update_idem, List.nil_append, h.freeinode] at hs'
    rw [listing_concat, direntBytes_append, ← nodesOf_concat files f (direntBytes (listing files))]
    simpa only [direntBytes, List.flatMap_singleton, Input.node] using hs'
  · rw [hi', hi₁, h.freeinode, List.length_append, List.length_singleton]

lemma Wrote.addFiles {todo : List Input} (h : Wrote files s)
    (hlt : files.length + todo.length + 1 < NSLOTS)
    (hrun : todo.foldlM (Mkfs.addFile ROOTINO) s = some s') : Wrote (files ++ todo) s' := by
  induction todo generalizing files s with
  | nil =>
    cases hrun
    rwa [List.append_nil]
  | cons f todo ih =>
    obtain ⟨s₁, h₁, hrun⟩ := Option.bind_eq_some_iff.mp hrun
    rw [List.length_cons] at hlt
    have hlt' : (files ++ [f]).length + todo.length + 1 < NSLOTS := by
      rw [List.length_append, List.length_singleton]
      omega
    have hw := ih (h.addFile (by omega) h₁) hlt' hrun
    rwa [List.append_assoc, List.singleton_append] at hw

lemma nodesOf_nil :
    Function.update (fun _ => none) ROOTINO (some (rootNode Mkfs.dots)) =
      nodesOf [] (direntBytes (listing [])) := by
  funext i
  rcases i with _ | _ | k
  · rfl
  · rw [Function.update_self, nodesOf_root]
    simp [direntBytes, listing, Mkfs.dots, dot, dotdot]
  · rw [Function.update_of_ne (add_two_ne_root k), nodesOf_file]
    rfl

lemma exists_wrote (h : main files = some s) (hl : files.length + 2 ≤ NINODES) :
    ∃ s₁, Wrote files s₁ ∧ Mkfs.finish ROOTINO s₁ = some s := by
  obtain ⟨s₀, s₁, hbuilt, h₁, hfin⟩ := exists_of_main h
  have h₀ : Wrote [] s₀ := ⟨nodesOf_nil ▸ hbuilt.sound, hbuilt.freeinode⟩
  have hw := h₀.addFiles (by
    have : NINODES < NSLOTS := by decide
    rw [List.length_nil]
    omega) h₁
  exact ⟨s₁, hw, hfin⟩

/-- **The nodes of the image.** -/
theorem onDisk_main (h : main files = some s) (hl : files.length + 2 ≤ NINODES)
    (hmod : (files.length + 2) * DIRENTSIZE % BSIZE ≠ 0) :
    layout.OnDisk (· = imageNodes files) s.img ∧ s.img 1 = sbBlock sb ∧
      s.img sb.logstart = Bytes.zero := by
  obtain ⟨s₁, hw, hfin⟩ := exists_wrote h hl
  obtain ⟨⟨ino, hh, hnode⟩, hfree⟩ := id hw
  have hroot := congrFun hnode ROOTINO
  rw [nodesOf_root] at hroot
  obtain ⟨d, hd, hdn⟩ := Option.map_eq_some_iff.mp hroot.symm
  have hcontent : d.content s₁.view = direntBytes (listing files) := congrArg Node.data hdn
  have hsize : d.size = (files.length + 2) * DIRENTSIZE := by
    rw [← length_listing, ← length_direntBytes, ← hcontent, Dinode.length_content]
  rw [← hsize] at hmod
  obtain ⟨s₂, hp, hfin'⟩ := hh.finish hw.root_lt hd
  obtain rfl := Option.some.inj (hfin.symm.trans hfin')
  have hh' := hh.roundUp hw.root_lt hd hp hmod
  have hnodes : (fun i => (Function.update ino ROOTINO
      (some { d with size := Mkfs.roundUp d.size }) i).map (Dinode.node s₂.view)) =
      imageNodes files := by
    funext i
    by_cases hi : i = ROOTINO
    · rw [hi, Function.update_self, imageNodes, nodesOf_root, Option.map_some, Dinode.node,
        hh.content_roundUp hd hp hmod, hcontent, direntBytes_spare, hsize]
      have hfields := Node.mk.inj hdn
      rw [show d.type = T_DIR from hfields.1, show d.major = 0 from hfields.2.1,
        show d.minor = 0 from hfields.2.2.1, show d.nlink = 1 from hfields.2.2.2.1]
      rfl
    · have hi' : nodesOf files (direntBytes (listing files)) i = imageNodes files i := by
        rw [imageNodes, nodesOf, nodesOf, if_neg hi, if_neg hi]
      rw [Function.update_of_ne hi, ← hi', hnode]
      refine Option.map_congr fun d' hd' => ?_
      have hsame := hh.owns.same_of_data hd' fun b => view_congr hp.freeblock hp.data
      rw [Dinode.node, Dinode.node, hsame.content (hh.full hd')]
  refine ⟨?_, ?_, ?_⟩
  · rw [← hnodes]
    exact hh'.onDisk (by rw [hp.freeinode, hfree]; exact hl)
  · rw [img_balloc, view_of_ne (by decide), hh'.super]
  · rw [img_balloc, view_of_ne (by decide), hh'.log]

/-! ## The tree -/

lemma Input.node_type (f : Input) : f.node.type ≠ T_DIR :=
  show T_FILE ≠ T_DIR by decide

lemma rootNode_nlink : 0 < (rootNode data).nlink := one_pos

lemma imageNodes_root : imageNodes files ROOTINO =
    some (rootNode (direntBytes (listing files ++ spare files))) := nodesOf_root

lemma imageNodes_file (k : ℕ) : imageNodes files (k + 2) = files[k]?.map Input.node :=
  nodesOf_file k

lemma imageNodes_cases (h : imageNodes files i = some n) :
    (i = ROOTINO ∧ n = rootNode (direntBytes (listing files ++ spare files))) ∨
      ∃ k f, i = k + 2 ∧ files[k]? = some f ∧ n = f.node := by
  rcases i with _ | _ | k
  · cases h
  · exact Or.inl ⟨rfl, (Option.some.inj (imageNodes_root.symm.trans h)).symm⟩
  · rw [imageNodes_file] at h
    obtain ⟨f, hf, rfl⟩ := Option.map_eq_some_iff.mp h
    exact Or.inr ⟨k, f, rfl, hf, rfl⟩

lemma inum_lt_of_mem (hl : files.length + 2 ≤ NINODES) (he : e ∈ listing files ++ spare files) :
    e.inum < 65536 := by
  have hN : NINODES < 65536 := by decide
  rcases List.mem_append.mp he with he | he
  · rcases List.mem_cons.mp he with rfl | he
    · decide
    rcases List.mem_cons.mp he with rfl | he
    · decide
    obtain ⟨k, hk, rfl⟩ := List.mem_mapIdx.mp he
    show k + 2 < 65536
    omega
  · rw [List.eq_of_mem_replicate he]
    decide

lemma getElem?_listing (files : List Input) (k : ℕ) :
    (listing files)[k + 2]? = files[k]?.map fun f => ⟨k + 2, nameOf f.base⟩ := by
  simp [listing]

lemma slot_imageNodes (hl : files.length + 2 ≤ NINODES) (k : ℕ) :
    (imageNodes files).slot ROOTINO k = (listing files ++ spare files)[k]? := by
  rw [Nodes.slot_of imageNodes_root rfl rootNode_nlink, Node.entries]
  exact congrArg (·[k]?) (direntsOf_direntBytes fun e he => inum_lt_of_mem hl he)

lemma slot_imageNodes_cases (hl : files.length + 2 ≤ NINODES)
    (h : (imageNodes files).slot i k = some e) : i = ROOTINO ∧
      (k = 0 ∧ e = ⟨ROOTINO, dot⟩ ∨ k = 1 ∧ e = ⟨ROOTINO, dotdot⟩ ∨ e.inum = 0 ∨
        ∃ j f, k = j + 2 ∧ files[j]? = some f ∧ e = ⟨k, nameOf f.base⟩) := by
  have hi : i = ROOTINO := by
    obtain ⟨n, hn, ht, -, -⟩ := Nodes.exists_of_slot h
    rcases imageNodes_cases hn with ⟨hi, -⟩ | ⟨k, f, -, -, rfl⟩
    · exact hi
    · exact absurd ht f.node_type
  subst hi
  refine ⟨rfl, ?_⟩
  rw [slot_imageNodes hl] at h
  rcases Nat.lt_or_ge k (listing files).length with hk | hk
  · rw [List.getElem?_append_left hk] at h
    rcases k with _ | _ | k
    · exact Or.inl ⟨rfl, (Option.some.inj h).symm⟩
    · exact Or.inr (Or.inl ⟨rfl, (Option.some.inj h).symm⟩)
    · rw [getElem?_listing] at h
      obtain ⟨f, hf, rfl⟩ := Option.map_eq_some_iff.mp h
      exact Or.inr (Or.inr (Or.inr ⟨k, f, rfl, hf, rfl⟩))
  · rw [List.getElem?_append_right hk] at h
    rw [List.eq_of_mem_replicate (List.mem_of_getElem? h)]
    exact Or.inr (Or.inr (Or.inl rfl))

lemma slot_file (hl : files.length + 2 ≤ NINODES) (hf : files[k]? = some f) :
    (imageNodes files).slot ROOTINO (k + 2) = some ⟨k + 2, nameOf f.base⟩ := by
  have hlt := (List.getElem?_eq_some_iff.mp hf).1
  rw [slot_imageNodes hl, List.getElem?_append_left (by rw [length_listing]; omega),
    getElem?_listing, hf]
  rfl

lemma link_imageNodes (hl : files.length + 2 ≤ NINODES) {p c : ℕ} :
    (imageNodes files).Link p k c ↔
      p = ROOTINO ∧ c = k ∧ ∃ j f, k = j + 2 ∧ files[j]? = some f := by
  constructor
  · rintro ⟨hk, hc, name, hs⟩
    obtain ⟨rfl, ⟨rfl, -⟩ | ⟨rfl, -⟩ | hz | ⟨j, f, hj, hf, he⟩⟩ := slot_imageNodes_cases hl hs
    · exact absurd hk (by decide)
    · exact absurd hk (by decide)
    · exact absurd hz hc
    · exact ⟨rfl, congrArg Dirent.inum he, j, f, hj, hf⟩
  · rintro ⟨rfl, rfl, j, f, rfl, hf⟩
    exact ⟨Nat.le_add_left 2 j, Nat.succ_ne_zero _, _, slot_file hl hf⟩

lemma dirAt_imageNodes (h : (imageNodes files).DirAt i) : i = ROOTINO := by
  obtain ⟨n, hn, ht, -⟩ := h
  rcases imageNodes_cases hn with ⟨hi, -⟩ | ⟨k, f, -, -, rfl⟩
  · exact hi
  · exact absurd ht f.node_type

lemma text_nameOf (f : Input) : (nameOf f.base).text = f.text := by
  have hzero : 0 ∉ f.base := fun hin => by
    rw [Input.base] at hin
    split_ifs at hin
    · exact f.name.nonzero (List.mem_of_mem_tail hin)
    · exact f.name.nonzero hin
  have hmove : nameOf f.base = moveName f.base Bytes.zero := by
    funext j
    rw [nameOf, moveName]
    split_ifs with h₁ h₂
    · rfl
    · exact List.getD_eq_default _ _ (Nat.not_lt.mp h₁)
    · exact List.getD_eq_default _ _ (Nat.not_lt.mp h₁)
  rw [hmove, text_moveName hzero]
  rfl

lemma Listable.text_inj (hl : Listable files) {j : ℕ} {g : Input} (hf : files[j]? = some f)
    (hg : files[k]? = some g) (ht : f.text = g.text) : j = k := by
  obtain ⟨hj, rfl⟩ := List.getElem?_eq_some_iff.mp hf
  obtain ⟨hk, rfl⟩ := List.getElem?_eq_some_iff.mp hg
  have hpair := List.pairwise_iff_getElem.mp hl.distinct
  rcases Nat.lt_trichotomy j k with hlt | rfl | hgt
  · exact absurd ht (hpair j k hj hk hlt)
  · rfl
  · exact absurd ht.symm (hpair k j hk hj hgt)

/-- **The texts of the image are distinct.** -/
lemma Listable.distinctNodes (hl : Listable files) : (imageNodes files).Distinct := by
  have hdots : dot.text ≠ dotdot.text := by
    rw [text_dot, text_dotdot]
    decide
  have hfile : ∀ {j : ℕ} {f : Input}, files[j]? = some f →
      (nameOf f.base).text ≠ dot.text ∧ (nameOf f.base).text ≠ dotdot.text := fun {j f} hf => by
    rw [text_nameOf]
    exact hl.dots f (List.mem_of_getElem? hf)
  intro p j k e e' hj hk hz hz' ht
  obtain ⟨-, ⟨rfl, rfl⟩ | ⟨rfl, rfl⟩ | h | ⟨j', f, rfl, hf, rfl⟩⟩ :=
      slot_imageNodes_cases hl.inodes hj <;>
    obtain ⟨-, ⟨rfl, rfl⟩ | ⟨rfl, rfl⟩ | h' | ⟨k', g, rfl, hg, rfl⟩⟩ :=
      slot_imageNodes_cases hl.inodes hk <;>
    try first | exact absurd h' hz' | exact absurd h hz
  · rfl
  · exact absurd ht hdots
  · exact absurd ht.symm (hfile hg).1
  · exact absurd ht.symm hdots
  · rfl
  · exact absurd ht.symm (hfile hg).2
  · exact absurd ht (hfile hf).1
  · exact absurd ht (hfile hf).2
  · rw [hl.text_inj hf hg (by rw [← text_nameOf, ← text_nameOf]; exact ht)]

lemma dirAt_root : (imageNodes files).DirAt ROOTINO := ⟨_, imageNodes_root, rfl, rootNode_nlink⟩

lemma rooted_imageNodes (hl : files.length + 2 ≤ NINODES) :
    Rooted (imageNodes files).Att (imageNodes files).Link ROOTINO where
  root := dirAt_root.att
  source h := ((link_imageNodes hl).mp h).1 ▸ dirAt_root.att
  target h := by
    obtain ⟨-, rfl, j, f, rfl, hf⟩ := (link_imageNodes hl).mp h
    refine ⟨f.node, ?_, one_pos⟩
    rw [imageNodes_file, hf]
    rfl
  not_root h := by
    obtain ⟨-, he, j, f, rfl, -⟩ := (link_imageNodes hl).mp h
    exact add_two_ne_root j he.symm
  unique h h' := by
    obtain ⟨rfl, rfl, -⟩ := (link_imageNodes hl).mp h
    obtain ⟨rfl, rfl, -⟩ := (link_imageNodes hl).mp h'
    exact ⟨rfl, rfl⟩
  linked hi hne := by
    obtain ⟨n, hn, -⟩ := hi
    rcases imageNodes_cases hn with ⟨rfl, -⟩ | ⟨k, f, rfl, hf, -⟩
    · exact absurd rfl hne
    · exact ⟨ROOTINO, k + 2, (link_imageNodes hl).mpr ⟨rfl, rfl, k, f, rfl, hf⟩⟩
  ranked := by
    refine ⟨fun i => if i = ROOTINO then 0 else 1, fun {p k c} h => ?_⟩
    obtain ⟨rfl, rfl, j, f, rfl, -⟩ := (link_imageNodes hl).mp h
    simp only [if_neg (add_two_ne_root j), if_true]
    exact one_pos

lemma subdirs_imageNodes (hl : files.length + 2 ≤ NINODES) :
    (imageNodes files).subdirs NINODES ROOTINO = ∅ := by
  refine Finset.eq_empty_of_forall_notMem fun c hc => ?_
  obtain ⟨-, hd, k, hk⟩ := Nodes.mem_subdirs.mp hc
  exact (rooted_imageNodes hl).not_root (dirAt_imageNodes hd ▸ hk)

/-- **The image is a directory tree.** -/
lemma Listable.tree (hl : Listable files) : (imageNodes files).Tree NINODES where
  pos {i n} hn := Nat.pos_of_ne_zero fun hz => by
    subst hz
    cases hn
  lt {i n} hn := by
    have hle := hl.inodes
    rcases imageNodes_cases hn with ⟨rfl, -⟩ | ⟨k, f, rfl, hf, -⟩
    · decide
    · have hlt := (List.getElem?_eq_some_iff.mp hf).1
      omega
  root := dirAt_root
  rooted := rooted_imageNodes hl.inodes
  isDir {i n} hn ht _ := by
    refine ⟨ht, ?_⟩
    rcases imageNodes_cases hn with ⟨-, rfl⟩ | ⟨k, f, -, -, rfl⟩
    · exact Dvd.intro_left _ (length_direntBytes _).symm
    · exact absurd ht f.node_type
  dot {i} hd := by
    rw [dirAt_imageNodes hd, slot_imageNodes hl.inodes]
    rfl
  dotdot {i} hd := by
    rw [dirAt_imageNodes hd]
    refine ⟨ROOTINO, ?_, Or.inl ⟨rfl, rfl⟩⟩
    rw [slot_imageNodes hl.inodes]
    rfl
  names {i n j k e e'} hn ht hj hk hz hz' he := by
    have hlink : 0 < n.nlink := by
      rcases imageNodes_cases hn with ⟨-, rfl⟩ | ⟨k, f, -, -, rfl⟩
      · exact rootNode_nlink
      · exact one_pos
    exact hl.distinctNodes i j k e e' ((Nodes.slot_of hn ht hlink).trans hj)
      ((Nodes.slot_of hn ht hlink).trans hk) hz hz' (congrArg Name.text he)
  nonneg {i n} hn := by
    rcases imageNodes_cases hn with ⟨-, rfl⟩ | ⟨k, f, -, -, rfl⟩
    · exact rootNode_nlink.le
    · exact zero_le_one
  file {i n} hn ht := by
    rcases imageNodes_cases hn with ⟨-, rfl⟩ | ⟨k, f, -, -, rfl⟩
    · exact absurd rfl ht
    · exact le_rfl
  nlink {i n} hn ht _ := by
    rcases imageNodes_cases hn with ⟨rfl, rfl⟩ | ⟨k, f, -, -, rfl⟩
    · rw [subdirs_imageNodes hl.inodes]
      rfl
    · exact absurd ht f.node_type

lemma Listable.plain (hl : Listable files) : (imageNodes files).Plain where
  distinct := hl.distinctNodes
  typed {i n} hn := by
    rcases imageNodes_cases hn with ⟨-, rfl⟩ | ⟨k, f, -, -, rfl⟩
    · exact Or.inl rfl
    · exact Or.inr (Or.inl rfl)

/-! ## The view -/

lemma Listable.child_root (hl : Listable files) {x : Text} :
    (imageNodes files).child ROOTINO x = some i ↔
      ∃ k f, i = k + 2 ∧ files[k]? = some f ∧ f.text = x := by
  rw [hl.tree.child_eq_some hl.distinctNodes]
  constructor
  · rintro ⟨k, name, hk, hz, hs, rfl⟩
    obtain ⟨-, rfl, j, f, rfl, hf⟩ := (link_imageNodes hl.inodes).mp ⟨hk, hz, name, hs⟩
    have he := congrArg Dirent.name (Option.some.inj (hs.symm.trans (slot_file hl.inodes hf)))
    exact ⟨j, f, rfl, hf, by rw [show name = nameOf f.base from he, text_nameOf]⟩
  · rintro ⟨k, f, rfl, hf, rfl⟩
    exact ⟨k + 2, _, Nat.le_add_left 2 k, Nat.succ_ne_zero _, slot_file hl.inodes hf, text_nameOf f⟩

lemma child_file (k : ℕ) (x : Text) : (imageNodes files).child (k + 2) x = none := by
  refine Option.eq_none_iff_forall_ne_some.mpr fun i hi => ?_
  obtain ⟨-, -, -, j, name, hs, -⟩ := Nodes.exists_slot_of_child hi
  exact add_two_ne_root k (dirAt_imageNodes (.of_slot hs))

lemma Listable.view_file (hl : Listable files) (x : Text) :
    (imageNodes files).volume.view [x] = imageView files [x] := by
  have hview : (imageNodes files).volume.view [x] = ((imageNodes files).child ROOTINO x).bind
      fun i => (imageNodes files i).map Node.object := by
    simp [Volume.view, Nodes.volume, descend]
  rw [hview, imageView]
  cases hfind : files.find? fun f => f.text = x with
  | none =>
    have hnone : (imageNodes files).child ROOTINO x = none := by
      refine Option.eq_none_iff_forall_ne_some.mpr fun i hi => ?_
      obtain ⟨k, f, -, hf, ht⟩ := hl.child_root.mp hi
      exact List.find?_eq_none.mp hfind f (List.mem_of_getElem? hf) (decide_eq_true ht)
    rw [hnone]
    rfl
  | some f =>
    obtain ⟨k, hk⟩ := List.mem_iff_getElem?.mp (List.mem_of_find?_eq_some hfind)
    have ht : f.text = x := by simpa using List.find?_some hfind
    rw [hl.child_root.mpr ⟨k, f, rfl, hk, ht⟩, Option.bind_some, imageNodes_file, hk]
    rfl

/-- **The objects of the image.** -/
lemma Listable.view (hl : Listable files) : (imageNodes files).volume.view = imageView files := by
  funext q
  match q with
  | [] =>
    rw [Volume.view, Nodes.volume_name_nil, Option.bind_some, Nodes.volume_object, imageNodes_root]
    rfl
  | [x] => exact hl.view_file x
  | x :: y :: q =>
    have hnone : (imageNodes files).volume.name (x :: y :: q) = none := by
      rw [Nodes.volume_name, descend, List.foldlM_cons]
      refine Option.bind_eq_none_iff.mpr fun i hi => ?_
      obtain ⟨k, f, rfl, -⟩ := hl.child_root.mp hi
      rw [List.foldlM_cons, child_file]
      rfl
    rw [Volume.view, hnone]
    rfl

/-- **The drives with the image present the files of the command line.** -/
lemma Listable.presents {d : BufRef → Block} (hl : Listable files) (h : main files = some s)
    (hd : ∀ b, d (onDev b) = s.img b) : layout.Presents (imageView files) d := by
  obtain ⟨hdisk, hsuper, hlog⟩ := onDisk_main h hl.inodes hl.room
  refine image_of_img hsuper hlog (hdisk.mono ?_) hd
  rintro σ rfl
  exact ⟨hl.tree, hl.plain, hl.view⟩

end

end Xv6.Mkfs
