import Xv6.File.Rules

/-!
# Creating and unlinking

`σ.Creates N path type major minor r σ'` says what `create` does to the nodes: it fails, finds the
file there, or adds a node and its entry.  `σ.Unlinks path r σ'` says what `unlink` does before it
drops its last reference: it fails, or clears an entry and cuts the node off.  The code does these
things, and takes and drops its references in step.

* `nwp_create` and `nwp_unlink` are the specifications.
* `Layout.Supplies` says what `create` needs so as not to run out of anything: a free inode, blocks
  for the entry and for the dots of a new directory, and entries of the inode cache.
* `Nodes.Makes` is the case of `Creates` that adds a node, which the later modules look at.

The proofs follow the code in pieces: `nwp_createDots` and `nwp_createLink` are the end of `create`,
`nwp_unlinkEnd` that of `unlink`.  That a new name is not there yet comes from the search that
failed, and that it can be entered from the free slot that the search of `dirlink` finds.
-/

namespace Xv6

open Lib

/-! ## What happens to the nodes -/

/-- What `create` does to the nodes, and the node it returns. -/
inductive Nodes.Creates (N : ℕ) (σ : Nodes) (path : CString) (type major minor : ℤ) :
    Option ℕ → Nodes → Prop
  /-- There is no directory for the name. -/
  | missing (h : σ.parent path = none) : Creates N σ path type major minor none σ
  /-- The name is taken by something that `create` does not open. -/
  | taken {p k : ℕ} {name : Name} {np n : Node} {e : Dirent} (hp : σ.parent path = some (p, name))
      (hnp : σ p = some np) (hk : findName name np.entries = some k) (he : np.entries[k]? = some e)
      (hn : σ e.inum = some n) (h : ¬ (type = T_FILE ∧ n.type = T_FILE)) :
      Creates N σ path type major minor none σ
  /-- The file is there. -/
  | found {p k : ℕ} {name : Name} {np n : Node} {e : Dirent} (hp : σ.parent path = some (p, name))
      (hnp : σ p = some np) (hk : findName name np.entries = some k) (he : np.entries[k]? = some e)
      (hn : σ e.inum = some n) (ht : type = T_FILE) (hn' : n.type = T_FILE) :
      Creates N σ path type major minor (some e.inum) σ
  /-- A node is added. -/
  | new {p c : ℕ} {name : Name} {np n : Node} {σ' : Nodes} (hp : σ.parent path = some (p, name))
      (hnp : σ p = some np) (hnone : findName name np.entries = none) (ht : n.type = type)
      (hmajor : n.major = major) (hminor : n.minor = minor)
      (ha : σ.Adds N σ' p (freeSlot np.entries) c (strncpy name) n) :
      Creates N σ path type major minor (some c) σ'

/-- What `create` does to the nodes, with the contents of a new node. -/
structure Nodes.Makes (N : ℕ) (σ : Nodes) (path : CString) (type major minor : ℤ) (r : Option ℕ)
    (σ' : Nodes) : Prop where
  creates : σ.Creates N path type major minor r σ'
  blank : ∀ {i n}, σ i = none → σ' i = some n → n.type ≠ T_DIR → n.data = []

/-- The node that the last element of a path names. -/
def Nodes.target (σ : Nodes) (path : CString) : Option ℕ :=
  (σ.parent path).bind fun q => (σ q.1).bind fun n => (n.find q.2).map Dirent.inum

section

variable {α : Type} {L : Layout} {D : (ℕ → Block) → Prop} {P : Nodes → Prop} {Q : α → Fs → Prop}
  {s s' : Fs} {t : Table}
  {σ σ' : Nodes} {hold : List Ref} {M : Finset ℕ} {d i p c k : ℕ} {n np nc : Node}
  {dp ip : Fin NINODE} {name : Name} {path : CString} {type major minor : ℤ}

/-! ## Facts about the tree -/

namespace Nodes.Tree

lemma two_le_freeSlot {N : ℕ} (h : σ.Tree N) (hn : σ i = some n) (ht : n.type = T_DIR)
    (hl : 0 < n.nlink) : 2 ≤ freeSlot n.entries := by
  have hd : σ.DirAt i := ⟨n, hn, ht, hl⟩
  have hentry : ∀ {k e}, σ.slot i k = some e → e.inum ≠ 0 → freeSlot n.entries ≠ k := by
    rintro k e hs hz rfl
    rw [Nodes.slot_of hn ht hl] at hs
    exact hz (inum_freeSlot hs)
  have h0 := hentry (h.dot hd) (h.pos hn).ne'
  obtain ⟨q, hq, hcase⟩ := h.dotdot hd
  have hq0 : q ≠ 0 := by
    rcases hcase with ⟨-, rfl⟩ | ⟨k, hl⟩
    · decide
    · obtain ⟨m, hm, -⟩ := hl.dirAt
      exact (h.pos hm).ne'
  have h1 := hentry hq hq0
  omega

/-- A directory can grow, unless the inodes outnumber the entries of the largest directory. -/
lemma room_freeSlot (h : σ.Tree L.sb.ninodes) (hs : L.scarce) (hn : σ i = some n)
    (ht : n.type = T_DIR) (hl : 0 < n.nlink) :
    DIRENTSIZE * freeSlot n.entries + DIRENTSIZE ≤ MAXFILE * BSIZE ∨ L.Halts (.panic .dirlink) := by
  have hle := h.freeSlot_le hn ht hl
  by_cases hbig : MAXFILE * BSIZE / DIRENTSIZE < L.sb.ninodes + 2
  · exact Or.inr ⟨hs, hbig⟩
  · left
    simp only [DIRENTSIZE, MAXFILE, NDIRECT, NINDIRECT, BSIZE] at *
    omega

lemma fresh_name (hn : σ i = some n) (ht : n.type = T_DIR) (hl : 0 < n.nlink)
    (hnone : findName name n.entries = none) :
    ∀ j e, σ.slot i j = some e → e.inum ≠ 0 → e.name ≠ strncpy name := by
  intro j e hs hz he
  rw [Nodes.slot_of hn ht hl] at hs
  refine findName_eq_none_iff.mp hnone e (List.mem_of_getElem? hs) ⟨hz, ?_⟩
  rw [he]
  exact namecmp_strncpy name

end Nodes.Tree

lemma Layout.inum_lt (L : Layout) (hi : i < L.sb.ninodes) : i < 65536 := by
  have := L.ninodes_le
  simp only [FSSIZE, IPB, BSIZE, DINODESIZE] at this
  omega

lemma Nodes.Tree.toShort_nlink {l : ℤ} (h : σ.Tree L.sb.ninodes) (hn : σ i = some n)
    (hl : n.nlink - 1 ≤ l) (hl' : l ≤ n.nlink + 1) : Bytes.toShort l = l := by
  have h₁ := h.nlink_le hn
  have h₂ := h.nonneg hn
  have h₃ := L.ninodes_le
  refine Bytes.toShort_of_isShort ?_
  simp only [FSSIZE, IPB, BSIZE, DINODESIZE] at h₃
  constructor <;> omega

/-! ## create -/

lemma isDir_empty (major minor : ℤ) : (⟨T_DIR, major, minor, 1, []⟩ : Node).IsDir :=
  ⟨rfl, Dvd.intro 0 rfl⟩

lemma Node.entries_empty : (⟨type, major, minor, 1, []⟩ : Node).entries = [] := by
  simp [entries, direntsOf]

/-- A directory after `create` has made its dots. -/
def Node.dots (major minor : ℤ) (c p : ℕ) : Node :=
  ((⟨T_DIR, major, minor, 1, []⟩ : Node).putDirent 0 ⟨c, dot⟩).putDirent 1 ⟨p, dotdot⟩

lemma Node.entries_dot (hc : c < 65536) :
    ((⟨T_DIR, major, minor, 1, []⟩ : Node).putDirent 0 ⟨c, dot⟩).entries = [⟨c, dot⟩] := by
  rw [entries_putDirent (isDir_empty major minor) (Nat.zero_le _) hc, entries_empty]
  rfl

lemma Node.isDir_dot :
    ((⟨T_DIR, major, minor, 1, []⟩ : Node).putDirent 0 ⟨c, dot⟩).IsDir :=
  (isDir_empty major minor).putDirent (Nat.zero_le _)

lemma Node.entries_dots (hc : c < 65536) (hp : p < 65536) :
    (Node.dots major minor c p).entries = [⟨c, dot⟩, ⟨p, dotdot⟩] := by
  rw [dots, entries_putDirent Node.isDir_dot (by rw [entries_dot hc]; rfl) hp, entries_dot hc]
  rfl

lemma Node.isDir_dots (hc : c < 65536) : (Node.dots major minor c p).IsDir :=
  Node.isDir_dot.putDirent (by rw [entries_dot hc]; rfl)

private lemma nwp_createDots {stop₁ stop₂ rest : K α}
    (h : s.Holds t σ (⟨ip, c, true⟩ :: ⟨dp, p, true⟩ :: hold) M d)
    (hnc : σ c = some ⟨T_DIR, major, minor, 1, []⟩) (hnp : σ p = some np) (hne : p ≠ c)
    (hshort : Bytes.toShort (np.nlink + 1) = np.nlink + 1) (hc0 : 0 < c) (hcN : c < L.sb.ninodes)
    (hM : {L.bmapblock, L.iblock p, L.iblock c} ⊆ M) (hroom : L.Room (M.card + (d + 4)))
    (hfree : L.scarce ∨ L.taken (Nodes.len (Function.update σ p
      (some { np with nlink := np.nlink + 1 }))) < L.sb.size - L.datastart)
    (hrest : ∀ s', s'.Holds t (Function.update (Function.update σ p
      (some { np with nlink := np.nlink + 1 })) c (some (.dots major minor c p)))
      (⟨ip, c, true⟩ :: ⟨dp, p, true⟩ :: hold) M (d + 4) → nwp L D rest Q s') :
    nwp L D (setNlink dp (· + 1) >>= fun _ => iupdate dp >>= fun _ => readInode ip >>= fun i =>
      dirlink ip dot i.inum >>= fun x => if x = false then stop₁ else
        readInode dp >>= fun d => dirlink ip dotdot d.inum >>= fun x =>
          if x = false then stop₂ else rest) Q s := by
  have hip : ∀ {a b : Ref} {l : List Ref}, a ∈ a :: b :: l ∧ b ∈ a :: b :: l := by simp
  have hMb : L.bmapblock ∈ M := hM (by simp)
  have hMp : L.iblock p ∈ M := hM (by simp)
  have hMc : {L.bmapblock, L.iblock c} ⊆ M :=
    Finset.insert_subset hMb (Finset.singleton_subset_iff.mpr (hM (by simp)))
  have hc := L.inum_lt hcN
  refine nwp_setNlink (r := ⟨dp, p, true⟩) h hip.2 rfl hnp hshort hMp
    (hroom.mono (by omega)) fun s₁ h₁ => ?_
  have hnc₁ : Function.update σ p (some { np with nlink := np.nlink + 1 }) c =
      some ⟨T_DIR, major, minor, 1, []⟩ := (Function.update_of_ne hne.symm _ _).trans hnc
  refine nwp_readInode (h₁.has hip.1 rfl hnc₁) fun x hx => ?_
  rw [hx.inum]
  -- one block has room for both entries
  have hspare : L.scarce ∨ L.Spare (Function.update σ p (some { np with nlink := np.nlink + 1 })) 0
      (DIRENTSIZE * 1 + DIRENTSIZE) := hfree.imp_right fun hlt => by
    have hone : occupied (nblocks (max 0 (DIRENTSIZE * 1 + DIRENTSIZE))) = 1 := by decide
    rw [Layout.Spare, hone]
    exact Nat.le_add_right_of_le hlt
  -- the new directory is empty
  refine nwp_seq (nwp_enter (r := ⟨ip, c, true⟩) dot c h₁ hip.1 rfl hnc₁
    (isDir_empty major minor) one_pos ?_ ?_ hMc (hroom.mono (by omega))
    (hspare.imp_right fun hs => hs.mono (by rw [Node.entries_empty]; decide))) ?_
  · rw [Node.entries_empty]
    rfl
  · rw [Node.entries_empty]
    exact Or.inl (by decide)
  rintro - s₂ ⟨rfl, h₂⟩
  rw [if_neg (by decide)]
  rw [strncpy_dot, Node.entries_empty, show freeSlot [] = 0 from rfl] at h₂
  have hnp₂ : Function.update (Function.update σ p (some { np with nlink := np.nlink + 1 })) c
      (some ((⟨T_DIR, major, minor, 1, []⟩ : Node).putDirent 0 ⟨c, dot⟩)) p =
      some { np with nlink := np.nlink + 1 } := by
    rw [Function.update_of_ne hne, Function.update_self]
  refine nwp_readInode (h₂.has hip.2 rfl hnp₂) fun y hy => ?_
  rw [hy.inum]
  have hslot : freeSlot [(⟨c, dot⟩ : Dirent)] = 1 :=
    freeSlot_eq (fun j hj => ⟨⟨c, dot⟩, by rw [Nat.lt_one_iff.mp hj]; rfl, hc0.ne'⟩)
      fun e he => by simp at he
  refine nwp_seq (nwp_enter (r := ⟨ip, c, true⟩) dotdot p h₂ hip.1 rfl
    (Function.update_self ..) Node.isDir_dot one_pos ?_ ?_ hMc hroom
    (hspare.imp_right fun hs => ?_)) ?_
  · rw [Node.entries_dot hc]
    refine findName_eq_none_iff.mpr fun e he hm => ?_
    rw [List.mem_singleton.mp he] at hm
    exact namecmp_dotdot_dot hm.2
  · rw [Node.entries_dot hc, hslot]
    exact Or.inl (by decide)
  · have hlen : ((⟨T_DIR, major, minor, 1, []⟩ : Node).putDirent 0 ⟨c, dot⟩).data.length =
        DIRENTSIZE := by
      rw [Node.isDir_dot.length_data, Node.entries_dot hc]
      rfl
    rw [Node.entries_dot hc, hslot]
    refine Layout.Spare.update (n := ⟨T_DIR, major, minor, 1, []⟩) _ hs hcN hnc₁ (Nat.zero_le _) ?_
    rw [hlen]
    exact le_max_of_le_right (Nat.le_add_left _ _)
  rintro - s₃ ⟨rfl, h₃⟩
  rw [if_neg (by decide)]
  rw [Node.entries_dot hc, hslot, strncpy_dotdot, Function.update_idem] at h₃
  exact hrest s₃ h₃

private lemma nwp_createLink
    (h : s.Holds t σ (⟨ip, c, true⟩ :: ⟨dp, p, true⟩ :: hold) M d)
    (hnc : σ c = some nc) (hnp : σ p = some np) (hd : np.IsDir) (hl : 0 < np.nlink)
    (hnone : findName name np.entries = none)
    (hend : DIRENTSIZE * freeSlot np.entries + DIRENTSIZE ≤ MAXFILE * BSIZE ∨
      L.Halts (.panic .dirlink))
    (hM : {L.bmapblock, L.iblock p} ⊆ M) (hroom : L.Room (M.card + (d + 2)))
    (hfree : L.scarce ∨
      L.Spare σ np.data.length (DIRENTSIZE * freeSlot np.entries + DIRENTSIZE)) :
    nwp L D (readInode ip >>= fun i => dirlink dp name i.inum >>= fun x =>
        if x = false then panic .createDirlink else iput dp >>= fun _ => pure (some ip))
      (fun r s' => r = some ip ∧ s'.Holds t (Function.update σ p
        (some (np.putDirent (freeSlot np.entries) ⟨c, strncpy name⟩))) (⟨ip, c, true⟩ :: hold) M
        (d + 2)) s := by
  have hip : ∀ {a b : Ref} {l : List Ref}, a ∈ a :: b :: l ∧ b ∈ a :: b :: l := by simp
  refine nwp_readInode (h.has hip.1 rfl hnc) fun x hx => ?_
  rw [hx.inum]
  refine nwp_seq (nwp_enter (r := ⟨dp, p, true⟩) name c h hip.2 rfl hnp hd hl hnone hend hM hroom
    hfree) ?_
  rintro - s₁ ⟨rfl, h₁⟩
  rw [if_neg (by decide)]
  refine nwp_seq (nwp_drop (r := ⟨dp, p, true⟩) h₁.swap (Function.update_self ..) hl) ?_
  rintro - s₂ h₂
  exact nwp_ret ⟨rfl, h₂⟩

/-- What there must be for a new file or directory: two entries of the inode cache, an inode, an
entry in the directory, and a block besides those that the directory may need. -/
structure Layout.Supplies (L : Layout) (t : Table) (σ : Nodes) (hold : List Ref) (path : CString) :
    Prop where
  entries : (entriesUsed t hold).card + 1 < NINODE
  inode : ∃ i, 0 < i ∧ i < L.sb.ninodes ∧ σ i = none
  fits : ∀ {p name n}, σ.parent path = some (p, name) → σ p = some n →
    DIRENTSIZE * freeSlot n.entries + DIRENTSIZE ≤ MAXFILE * BSIZE
  spare : ∀ {p name n}, σ.parent path = some (p, name) → σ p = some n →
    L.taken σ.len + 1 +
        occupied (nblocks (max n.data.length (DIRENTSIZE * freeSlot n.entries + DIRENTSIZE))) ≤
      L.sb.size - L.datastart + occupied (nblocks n.data.length)

private lemma Nodes.Makes.of_creates {N : ℕ} {r : Option ℕ}
    (hc : σ.Creates N path type major minor r σ) : σ.Makes N path type major minor r σ :=
  ⟨hc, fun hnone hn => nomatch hnone.symm.trans hn⟩

private lemma Nodes.Adds.blank {N : ℕ} (ha : σ.Adds N σ' p k c name nc)
    (h : nc.type ≠ T_DIR → nc.data = []) :
    ∀ {i n}, σ i = none → σ' i = some n → n.type ≠ T_DIR → n.data = [] := by
  intro i n hnone hn ht
  rcases ha.back hn with ⟨-, rfl⟩ | ⟨-, hd, -⟩ | ⟨-, -, hold⟩
  · exact h ht
  · exact absurd hd.type ht
  · exact nomatch hnone.symm.trans hold

lemma nwp_create (h : s.Holds t σ hold ∅ 0) (hσ : σ.Tree L.sb.ninodes) (hL : L.Room MAXOPBLOCKS)
    (ht : type ≠ 0) (htype : Bytes.IsShort type) (hmajor : Bytes.IsShort major)
    (hminor : Bytes.IsShort minor)
    (hres : L.scarce ∨ L.Supplies t σ hold path) :
    nwp L D (create path type major minor) (fun r s' => ∃ M d σ', match r with
      | none => σ.Makes L.sb.ninodes path type major minor none σ' ∧ s'.Holds t σ' hold M d
      | some ip => ∃ i, σ.Makes L.sb.ninodes path type major minor (some i) σ' ∧
          s'.Holds t σ' (⟨ip, i, true⟩ :: hold) M d) s := by
  refine nwp_seq (nwp_nameiparent _ h hσ.linked (hres.imp_right fun hr => hr.entries)) ?_
  rintro (_ | ⟨dp, name⟩) s₁ hx
  · obtain ⟨hnone, h₁⟩ := hx
    exact nwp_ret ⟨∅, 0, σ, .of_creates (.missing hnone), h₁⟩
  obtain ⟨p, hp, h₁⟩ := hx
  obtain ⟨np, hnp, hl, hdir⟩ := hσ.linked.parent hp
  have hp0 := hσ.pos hnp
  have hused : L.scarce ∨ (entriesUsed t (⟨dp, p, true⟩ :: hold)).card < NINODE :=
    hres.imp_right fun hr => (card_entriesUsed_cons t _ hold).trans_lt hr.entries
  refine nwp_seq (nwp_read h₁ hnp) fun _ s₂ h₂ => ?_
  refine nwp_seq (nwp_lookup h₂ (List.mem_cons_self ..) rfl hσ.linked hnp hdir hl hused) ?_
  rintro (_ | ⟨ip, off⟩) s₃ hy
  · obtain ⟨hnone, h₃⟩ := hy
    refine nwp_readInode (h₃.has (List.mem_cons_self ..) rfl hnp) fun x hx => ?_
    rw [hx.dev]
    refine nwp_seq (nwp_alloc h₃ ht htype (hL.mono (by decide))
      (hused.elim .inl fun hlt => hres.imp_right fun hr => ⟨hlt, hr.inode⟩)) ?_
    rintro ip s₄ ⟨c, hc0, hc, hcnone, h₄⟩
    have hne : p ≠ c := by
      rintro rfl
      exact nomatch hcnone.symm.trans hnp
    have hinum := L.inum_lt hc
    refine nwp_seq (nwp_read h₄ (Function.update_self ..)) fun _ s₅ h₅ => ?_
    -- from here on all metadata blocks of the operation are known
    have hM : insert (L.iblock c) ∅ ⊆ ({L.bmapblock, L.iblock p, L.iblock c} : Finset ℕ) := by
      intro b hb
      simp only [Finset.mem_insert, Finset.mem_singleton, Finset.notMem_empty, or_false] at hb ⊢
      exact Or.inr (Or.inr hb)
    have hroom : ∀ e ≤ 7, L.Room (({L.bmapblock, L.iblock p, L.iblock c} : Finset ℕ).card + e) :=
      fun e he => hL.mono (Nat.add_le_add Finset.card_le_three he)
    refine nwp_fillInode (r := ⟨ip, c, true⟩) (h₅.mono hM le_rfl) (List.mem_cons_self ..) rfl
      (Function.update_self ..) hmajor hminor (by simp) (hroom 0 (by decide)) fun s₆ h₆ => ?_
    rw [Function.update_idem] at h₆
    have hnp' : ∀ m : Node, Function.update σ c (some m) p = some np := fun m =>
      (Function.update_of_ne hne _ _).trans hnp
    have hsub : {L.bmapblock, L.iblock p} ⊆ ({L.bmapblock, L.iblock p, L.iblock c} : Finset ℕ) := by
      intro b hb
      simp only [Finset.mem_insert, Finset.mem_singleton] at hb ⊢
      tauto
    have hfree : ∀ e, σ.slot p (freeSlot np.entries) = some e → e.inum = 0 := fun e he => by
      rw [Nodes.slot_of hnp hdir hl] at he
      exact inum_freeSlot he
    have hpd := hσ.isDir hnp hdir hl
    have hend : DIRENTSIZE * freeSlot np.entries + DIRENTSIZE ≤ MAXFILE * BSIZE ∨
        L.Halts (.panic .dirlink) := by
      rcases hres with hs | hr
      · exact hσ.room_freeSlot hs hnp hdir hl
      · exact Or.inl (hr.fits hp hnp)
    split_ifs with hT
    · obtain rfl := hT
      -- the link count of the parent does not matter to the number of blocks
      have htaken : L.taken (Nodes.len (Function.update (Function.update σ c
          (some ⟨T_DIR, major, minor, 1, []⟩)) p (some { np with nlink := np.nlink + 1 }))) =
          L.taken σ.len := by
        have hupdate := L.taken_update { np with nlink := np.nlink + 1 } (hσ.lt hnp)
          (hnp' ⟨T_DIR, major, minor, 1, []⟩)
        rw [L.taken_blank hcnone rfl] at hupdate
        exact Nat.add_right_cancel hupdate
      refine nwp_createDots h₆ (Function.update_self ..) (hnp' _) hne
        (hσ.toShort_nlink hnp (by omega) le_rfl) hc0 hc subset_rfl (hroom 4 (by decide))
        (hres.imp_right fun hr => ?_) fun s₇ h₇ => ?_
      · have hspare := hr.spare hp hnp
        have hmono : occupied (nblocks np.data.length) ≤ occupied (nblocks (max np.data.length
            (DIRENTSIZE * freeSlot np.entries + DIRENTSIZE))) :=
          occupied_mono (nblocks_mono (le_max_left _ _))
        rw [htaken]
        omega
      refine nwp_mono (nwp_createLink h₇ (Function.update_self ..)
        (show _ = some { np with nlink := np.nlink + 1 } from ?_) ⟨hdir, hpd.whole⟩
        (show 0 < np.nlink + 1 by omega) hnone hend hsub (hroom 6 (by decide))
        (hres.imp_right fun hr => ?_)) ?_
      · rw [Function.update_of_ne hne, Function.update_self]
      · have hdots : (Node.dots major minor c p).data.length = 2 * DIRENTSIZE := by
          rw [(Node.isDir_dots hinum).length_data, Node.entries_dots hinum (L.inum_lt (hσ.lt hnp))]
          rfl
        have hnew := L.taken_update (Node.dots major minor c p) hc
          ((Function.update_of_ne hne.symm _ _).trans (Function.update_self ..) :
            Function.update (Function.update σ c (some ⟨T_DIR, major, minor, 1, []⟩)) p
              (some { np with nlink := np.nlink + 1 }) c = some ⟨T_DIR, major, minor, 1, []⟩)
        have hzero : occupied (nblocks ([] : List UInt8).length) = 0 := by decide
        rw [htaken, hdots, hzero, Nat.add_zero] at hnew
        have hspare := hr.spare hp hnp
        rw [Layout.Spare, hnew]
        exact hspare
      rintro - s₈ ⟨rfl, h₈⟩
      suffices ha : Nodes.Adds L.sb.ninodes σ _ p _ c (strncpy name) (.dots major minor c p) from
        ⟨_, _, _, c, ⟨.new hp hnp hnone rfl rfl rfl ha, ha.blank fun ht => absurd rfl ht⟩, h₈⟩
      exact
        { old := hcnone
          pos := hc0
          lt := hc
          two_le := hσ.two_le_freeSlot hnp hdir hl
          free := hfree
          fresh := Nodes.Tree.fresh_name hnp hdir hl hnone
          new := by
            rw [Function.update_of_ne hne.symm, Function.update_self]
          nlink := rfl
          dots := fun _ => ⟨Node.isDir_dots hinum, Node.entries_dots hinum (L.inum_lt (hσ.lt hnp))⟩
          parent := by
            have hpd' : ({ np with nlink := np.nlink + 1 } : Node).IsDir := ⟨hdir, hpd.whole⟩
            refine ⟨np, _, hnp, hdir, hl, Function.update_self .., hpd'.putDirent freeSlot_le, ?_,
              fun j => ?_⟩
            · rw [if_pos (show (Node.dots major minor c p).type = T_DIR from rfl)]
              rfl
            · rw [Node.entries_putDirent hpd' freeSlot_le hinum]
              exact getElem?_setSlot freeSlot_le j
          other := fun i hip hic => by
            rw [Function.update_of_ne hip, Function.update_of_ne hic, Function.update_of_ne hip,
              Function.update_of_ne hic] }
    · refine nwp_mono (nwp_createLink h₆ (Function.update_self ..) (hnp' _) hpd hl hnone hend hsub
        (hroom 2 (by decide)) (hres.imp_right fun hr =>
          Layout.Spare.new (by have := hr.spare hp hnp; rw [Layout.Spare]; omega) hcnone rfl)) ?_
      rintro - s₇ ⟨rfl, h₇⟩
      suffices ha : Nodes.Adds L.sb.ninodes σ _ p _ c (strncpy name)
          ⟨type, major, minor, 1, []⟩ from
        ⟨_, _, _, c, ⟨.new hp hnp hnone rfl rfl rfl ha, ha.blank fun _ => rfl⟩, h₇⟩
      exact
        { old := hcnone
          pos := hc0
          lt := hc
          two_le := hσ.two_le_freeSlot hnp hdir hl
          free := hfree
          fresh := Nodes.Tree.fresh_name hnp hdir hl hnone
          new := by
            rw [Function.update_of_ne hne.symm, Function.update_self]
          nlink := rfl
          dots := fun h => absurd h hT
          parent := by
            refine ⟨np, _, hnp, hdir, hl, Function.update_self .., hpd.putDirent freeSlot_le, ?_,
              fun j => ?_⟩
            · rw [if_neg hT, add_zero]
              rfl
            · rw [Node.entries_putDirent hpd freeSlot_le hinum]
              exact getElem?_setSlot freeSlot_le j
          other := fun i hip hic => by
            rw [Function.update_of_ne hip, Function.update_of_ne hic] }
  · obtain ⟨k, e, hk, he, -, h₃⟩ := hy
    obtain ⟨e', he', hm⟩ := findName_eq_some hk
    obtain rfl := Option.some.inj (he.symm.trans he')
    obtain ⟨n, hn, hl'⟩ := (hσ.linked.dir hnp hdir hl).2 e (List.mem_of_getElem? he) hm.1
    refine nwp_seq (nwp_drop (r := ⟨dp, p, true⟩) h₃.swap hnp hl) fun _ s₄ h₄ => ?_
    refine nwp_seq (nwp_read h₄ hn) fun _ s₅ h₅ => ?_
    refine nwp_readInode (h₅.has (List.mem_cons_self ..) rfl hn) fun x hx => ?_
    rw [hx.type]
    split_ifs with hT
    · exact nwp_ret ⟨∅, 0, σ, e.inum, .of_creates (.found hp hnp hk he hn hT.1 hT.2), h₅⟩
    · refine nwp_seq (nwp_drop (r := ⟨ip, e.inum, true⟩) h₅ hn hl') fun _ s₆ h₆ => ?_
      exact nwp_ret ⟨∅, 0, σ, .of_creates (.taken hp hnp hk he hn hT), h₆⟩

/-! ## unlink -/

/-- An open file refers to the inode. -/
def Table.Opens (t : Table) (i : ℕ) : Prop := ∃ f, (t.file f).type = .inode ∧ t.inum f = i

/-- The open files that refer to an inode are those that refer to its entry of the cache. -/
lemma Fs.Holds.opens_iff {ino : Inos} {v : Vol} {fm : FsMem} {b : Bool}
    (h : s.Holds t σ (⟨ip, i, b⟩ :: hold) M d) (hrep : L.Rep ino s v fm) :
    t.Opens i ↔ 0 < t.refs ip := by
  have ha : s.At ip i := h.isAt (List.mem_cons_self ..)
  constructor
  · rintro ⟨f, hf, rfl⟩
    have hpos := Table.refs_pos hf
    have hat : s.At (t.file f).ip (t.inum f) :=
      ⟨by rw [h.ref]; exact Nat.add_pos_left hpos _, h.fileInum f hf⟩
    exact hrep.unique hat ha ▸ hpos
  · intro hpos
    obtain ⟨f, hmem⟩ := Finset.card_pos.mp hpos
    obtain ⟨hf, hip⟩ := (Finset.mem_filter.mp hmem).2
    exact ⟨f, hf, by rw [← h.fileInum f hf, hip, ha.2]⟩

/-- What `unlink` does to the nodes: nothing, or an entry is cleared and the node is cut off, and
freed unless it is open. -/
inductive Nodes.Unlinks (σ : Nodes) (t : Table) (path : CString) : Bool → Nodes → Prop
  | fail : Unlinks σ t path false σ
  | free {p k c : ℕ} {nc : Node} {σ' : Nodes} (ht : σ.target path = some c)
      (hr : σ.Removes σ' p k c nc) (hopen : ¬ t.Opens c) :
      Unlinks σ t path true (Function.update σ' c none)
  | keep {p k c : ℕ} {nc : Node} {σ' : Nodes} (ht : σ.target path = some c)
      (hr : σ.Removes σ' p k c nc) (hopen : t.Opens c) : Unlinks σ t path true σ'

private lemma nwp_unlinkBad (h : s.Holds t σ (⟨dp, p, true⟩ :: hold) M d) (hnp : σ p = some np)
    (hl : 0 < np.nlink) (hP : P σ) :
    nwp L (L.OnDisk P) (unlinkBad dp) (fun r s' => r = false ∧ s'.Holds t σ hold ∅ 0) s := by
  refine nwp_seq (nwp_drop (r := ⟨dp, p, true⟩) h hnp hl) fun _ s₁ h₁ => ?_
  exact nwp_end h₁ (Layout.durable_onDisk hP) fun s₂ h₂ => nwp_ret ⟨rfl, h₂⟩

private lemma nwp_full {f : Bool → K α} (h : s.Holds t σ (⟨ip, c, true⟩ :: hold) M d)
    (hnc : σ c = some nc) (hd : nc.type = T_DIR → nc.IsDir) (hl : 0 < nc.nlink)
    (hf : nwp L (L.OnDisk P)
      (f (decide (nc.type = T_DIR ∧ ¬ ∀ e ∈ nc.entries.drop 2, e.inum = 0))) Q s) :
    nwp L (L.OnDisk P)
      (if nc.type = T_DIR then isdirempty ip >>= fun e => f !e else f false) Q s := by
  split_ifs with ht
  · refine nwp_seq (nwp_isdirempty (h.has (List.mem_cons_self ..) rfl hnc) (hd ht) hl) ?_
    rintro x s' ⟨rfl, rfl⟩
    simpa only [ht, true_and, decide_not] using hf
  · simpa only [ht, false_and, decide_false] using hf

private lemma nwp_unlinkEnd {σ₀ : Nodes} {x : Inode}
    (h : s.Holds t σ (⟨ip, c, true⟩ :: ⟨dp, p, true⟩ :: hold) M d)
    (hx : x.din.type = nc.type) (hnc : σ c = some nc) (hone : nc.nlink = 1) (hnp : σ p = some np)
    (hne : p ≠ c) (hl : 0 < np.nlink - if nc.type = T_DIR then 1 else 0)
    (hshort : Bytes.toShort (np.nlink - 1) = np.nlink - 1)
    (hσ' : σ' = Function.update (Function.update σ p
      (some { np with nlink := np.nlink - if nc.type = T_DIR then 1 else 0 })) c
      (some { nc with nlink := 0 }))
    (hM : {L.bmapblock, L.iblock p, L.iblock c} ⊆ M) (hroom : L.Room (M.card + d))
    (hhold : ∀ r ∈ hold, r.inum ≠ c) (hfree : ¬ t.Opens c → P (Function.update σ' c none))
    (hkeep : t.Opens c → P σ') (ht : σ₀.target path = some c) (hr : σ₀.Removes σ' p k c nc) :
    nwp L (L.OnDisk P) (if x.din.type = T_DIR then
        setNlink dp (· - 1) >>= fun _ => iupdate dp >>= fun _ => iput dp >>= fun _ =>
          setNlink ip (· - 1) >>= fun _ => iupdate ip >>= fun _ => iput ip >>= fun _ =>
            endOp >>= fun _ => pure true
      else iput dp >>= fun _ => setNlink ip (· - 1) >>= fun _ => iupdate ip >>= fun _ =>
        iput ip >>= fun _ => endOp >>= fun _ => pure true)
      (fun r s' => r = true ∧ ∃ σ'', σ₀.Unlinks t path r σ'' ∧ s'.Holds t σ'' hold ∅ 0) s := by
  have hip : ∀ {a b : Ref} {l : List Ref}, a ∈ a :: b :: l ∧ b ∈ a :: b :: l := by simp
  have hMb : L.bmapblock ∈ M := hM (by simp)
  have hMp : L.iblock p ∈ M := hM (by simp)
  have hMc : L.iblock c ∈ M := hM (by simp)
  have hMbc : {L.bmapblock, L.iblock c} ⊆ M :=
    Finset.insert_subset hMb (Finset.singleton_subset_iff.mpr hMc)
  -- what both branches do once the link count of the directory is right
  have hend : ∀ s₁ : Fs, s₁.Holds t (Function.update σ p
      (some { np with nlink := np.nlink - if nc.type = T_DIR then 1 else 0 }))
      (⟨ip, c, true⟩ :: ⟨dp, p, true⟩ :: hold) M d →
      nwp L (L.OnDisk P)
        (iput dp >>= fun _ => setNlink ip (· - 1) >>= fun _ => iupdate ip >>= fun _ =>
        iput ip >>= fun _ => endOp >>= fun _ => pure true)
        (fun r s' => r = true ∧ ∃ σ'', σ₀.Unlinks t path r σ'' ∧ s'.Holds t σ'' hold ∅ 0) s₁ := by
    intro s₁ h₁
    refine nwp_seq (nwp_drop (r := ⟨dp, p, true⟩) h₁.swap (Function.update_self ..) hl)
      fun _ s₂ h₂ => ?_
    refine nwp_setNlink (r := ⟨ip, c, true⟩) (l := 0) h₂ (List.mem_cons_self ..) rfl
      ((Function.update_of_ne hne.symm _ _).trans hnc) ?_ hMc hroom fun s₃ h₃ => ?_
    · rw [hone]
      rfl
    rw [← hσ'] at h₃
    refine nwp_of_rep fun ino v fm hrep => ?_
    refine nwp_seq (nwp_release h₃ hr.gone rfl hMbc hroom) ?_
    rintro - s₄ (⟨hz, -, h₄⟩ | ⟨hpos, h₄⟩)
    · have hopen : ¬ t.Opens c := fun ho => ((h₃.opens_iff hrep).mp ho).ne' hz
      exact nwp_end h₄ (Layout.durable_onDisk (hfree hopen)) fun s₅ h₅ =>
        nwp_ret ⟨rfl, _, .free ht hr hopen, h₅⟩
    · have hopen : t.Opens c := by
        refine (h₃.opens_iff hrep).mpr (Nat.pos_of_ne_zero fun hz => ?_)
        rw [hz, Nat.zero_add] at hpos
        obtain ⟨r, hr', hrip⟩ := List.countP_pos_iff.mp hpos
        refine hhold r hr' ?_
        have hrip : r.ip = ip := by simpa using hrip
        rw [← h₃.inum r (List.mem_cons_of_mem _ hr'), hrip]
        exact h₃.inum _ (List.mem_cons_self ..)
      exact nwp_end h₄ (Layout.durable_onDisk (hkeep hopen)) fun s₅ h₅ =>
        nwp_ret ⟨rfl, _, .keep ht hr hopen, h₅⟩
  rw [hx]
  split_ifs with hT
  · refine nwp_setNlink (r := ⟨dp, p, true⟩) h hip.2 rfl hnp hshort hMp hroom fun s₁ h₁ => ?_
    refine hend s₁ ?_
    rwa [if_pos hT]
  · refine hend s ?_
    rwa [if_neg hT, sub_zero, Function.update_eq_self_iff.mpr hnp.symm]

/-- The path leads to an entry that `unlink` clears: for something other than a directory in use. -/
def Nodes.Unlinkable (σ : Nodes) (path : CString) : Prop :=
  ∃ p name np k e n, σ.parent path = some (p, name) ∧ ¬ (namecmp name dot = 0 ∨
    namecmp name dotdot = 0) ∧ σ p = some np ∧ findName name np.entries = some k ∧
      np.entries[k]? = some e ∧ σ e.inum = some n ∧
      (n.type = T_DIR → ∀ e ∈ n.entries.drop 2, e.inum = 0)

lemma nwp_unlink (h : s.Holds t σ hold ∅ 0) (hσ : σ.Tree L.sb.ninodes) (hL : L.Room MAXOPBLOCKS)
    (hres : L.scarce ∨ (entriesUsed t hold).card + 1 < NINODE)
    (hhold : ∀ r ∈ hold, r.inum = ROOTINO)
    (hPσ : P σ) (hP : ∀ σ', σ.Unlinks t path true σ' → σ.Unlinkable path → P σ') :
    nwp L (L.OnDisk P) (unlink path) (fun r s' => (r = true ↔ σ.Unlinkable path) ∧
      ∃ σ', σ.Unlinks t path r σ' ∧ s'.Holds t σ' hold ∅ 0) s := by
  show nwp L (L.OnDisk P) (nameiparent path >>= _) _ s
  refine nwp_seq (nwp_nameiparent _ h hσ.linked hres) ?_
  rintro (_ | ⟨dp, name⟩) s₁ hx
  · refine nwp_end hx.2 (Layout.durable_onDisk hPσ) fun s₂ h₂ =>
      nwp_ret ⟨iff_of_false Bool.false_ne_true ?_, σ, .fail, h₂⟩
    rintro ⟨p, name, np, k, e, n, hp, -⟩
    cases hx.1.symm.trans hp
  obtain ⟨p, hp, h₁⟩ := hx
  obtain ⟨np, hnp, hl, hdir⟩ := hσ.linked.parent hp
  have hpd := hσ.isDir hnp hdir hl
  have hfail : ∀ {r : Bool} {s' : Fs}, ¬ σ.Unlinkable path → r = false ∧ s'.Holds t σ hold ∅ 0 →
      (r = true ↔ σ.Unlinkable path) ∧ ∃ σ', σ.Unlinks t path r σ' ∧ s'.Holds t σ' hold ∅ 0 := by
    rintro r s' hnot ⟨rfl, h'⟩
    exact ⟨iff_of_false Bool.false_ne_true hnot, σ, .fail, h'⟩
  refine nwp_seq (nwp_read h₁ hnp) fun _ s₂ h₂ => ?_
  split_ifs with hdots
  · refine nwp_mono (nwp_unlinkBad h₂ hnp hl hPσ) fun _ _ => hfail ?_
    rintro ⟨p', name', -, -, -, -, hp', hnot, -⟩
    obtain ⟨-, rfl⟩ := Prod.mk.inj (Option.some.inj (hp.symm.trans hp'))
    exact hnot hdots
  refine nwp_seq (nwp_lookup h₂ (List.mem_cons_self ..) rfl hσ.linked hnp hdir hl
    (hres.imp_right (card_entriesUsed_cons t _ hold).trans_lt)) ?_
  rintro (_ | ⟨ip, off⟩) s₃ hy
  · refine nwp_mono (nwp_unlinkBad hy.2 hnp hl hPσ) fun _ _ => hfail ?_
    rintro ⟨p', name', np', k, e, n, hp', -, hnp', hk, -⟩
    obtain ⟨rfl, rfl⟩ := Prod.mk.inj (Option.some.inj (hp.symm.trans hp'))
    obtain rfl := Option.some.inj (hnp.symm.trans hnp')
    cases hy.1.symm.trans hk
  obtain ⟨k, e, hk, he, rfl, h₃⟩ := hy
  obtain ⟨e', he', hm⟩ := findName_eq_some hk
  obtain rfl := Option.some.inj (he.symm.trans he')
  have hslot : σ.slot p k = some e := (Nodes.slot_of hnp hdir hl).trans he
  have htarget : σ.target path = some e.inum := by
    rw [Nodes.target, hp, Option.bind_some, hnp, Option.bind_some, Node.find, hk, Option.bind_some,
      he]
    rfl
  -- the entry is none of the dots, because they have other names
  have hk2 : 2 ≤ k := by
    have hd : σ.DirAt p := ⟨np, hnp, hdir, hl⟩
    rcases Nat.lt_or_ge k 2 with hlt | hge
    · refine absurd ?_ hdots
      rcases (by omega : k = 0 ∨ k = 1) with rfl | rfl
      · obtain rfl := Option.some.inj ((hσ.dot hd).symm.trans hslot)
        exact Or.inl hm.2
      · obtain ⟨q, hq, -⟩ := hσ.dotdot hd
        obtain rfl := Option.some.inj (hq.symm.trans hslot)
        exact Or.inr hm.2
    · exact hge
  have hlink : σ.Link p k e.inum := ⟨hk2, hm.1, e.name, hslot⟩
  obtain ⟨nc, hnc, hlc⟩ := hσ.rooted.target hlink
  have hne := hσ.rooted.irrefl hlink
  refine nwp_seq (nwp_read h₃ hnc) fun _ s₄ h₄ => ?_
  refine nwp_readInode (h₄.has (List.mem_cons_self ..) rfl hnc) fun x hx => ?_
  rw [hx.nlink, hx.type, if_neg (by omega)]
  refine nwp_full (f := fun full => if full = true then _ else _) h₄ hnc
    (fun ht => hσ.isDir hnc ht hlc) hlc ?_
  by_cases hfull : nc.type = T_DIR ∧ ¬ ∀ e ∈ nc.entries.drop 2, e.inum = 0
  · rw [if_pos (decide_eq_true hfull)]
    refine nwp_seq (nwp_drop (r := ⟨ip, e.inum, true⟩) h₄ hnc hlc) fun _ s₆ h₆ => ?_
    refine nwp_mono (nwp_unlinkBad h₆ hnp hl hPσ) fun _ _ => hfail ?_
    rintro ⟨p', name', np', k', e', n, hp', -, hnp', hk', he', hn', hleaf⟩
    obtain ⟨rfl, rfl⟩ := Prod.mk.inj (Option.some.inj (hp.symm.trans hp'))
    obtain rfl := Option.some.inj (hnp.symm.trans hnp')
    obtain rfl := Option.some.inj (hk.symm.trans hk')
    obtain rfl := Option.some.inj (he.symm.trans he')
    obtain rfl := Option.some.inj (hnc.symm.trans hn')
    exact hfull.2 (hleaf hfull.1)
  · rw [if_neg (by simpa using hfull)]
    have hleaf : nc.type = T_DIR → ∀ e ∈ nc.entries.drop 2, e.inum = 0 := fun ht =>
      not_not.mp fun hn => hfull ⟨ht, hn⟩
    have hip : ∀ {a b : Ref} {l : List Ref}, a ∈ a :: b :: l ∧ b ∈ a :: b :: l := by simp
    have hM : ∅ ⊆ ({L.bmapblock, L.iblock p, L.iblock e.inum} : Finset ℕ) := Finset.empty_subset _
    have hroom : ∀ d ≤ 7, L.Room
        (({L.bmapblock, L.iblock p, L.iblock e.inum} : Finset ℕ).card + d) :=
      fun d hd => hL.mono (Nat.add_le_add Finset.card_le_three hd)
    have hklen : k < np.entries.length := (List.getElem?_eq_some_iff.mp he).1
    refine nwp_seq (nwp_clear (r := ⟨dp, p, true⟩) (e := ⟨0, Bytes.zero⟩)
      (h₄.mono hM le_rfl) hip.2 rfl hnp hpd hklen ?_ (hroom 2 (by decide))) ?_
    · intro b hb
      simp only [Finset.mem_insert, Finset.mem_singleton] at hb ⊢
      tauto
    rintro - s₆ ⟨rfl, h₆⟩
    rw [if_neg (not_not.mpr rfl)]
    have hnc₆ : Function.update σ p (some (np.putDirent k ⟨0, Bytes.zero⟩)) e.inum = some nc :=
      (Function.update_of_ne hne.symm _ _).trans hnc
    refine nwp_readInode (h₆.has hip.1 rfl hnc₆) fun y hy => ?_
    -- the nodes at the end
    have hr : σ.Removes (Function.update (Function.update (Function.update σ p
        (some (np.putDirent k ⟨0, Bytes.zero⟩))) p (some { np.putDirent k ⟨0, Bytes.zero⟩ with
          nlink := np.nlink - if nc.type = T_DIR then 1 else 0 })) e.inum
        (some { nc with nlink := 0 })) p k e.inum nc :=
      { link := hlink
        node := hnc
        leaf := hleaf
        gone := Function.update_self ..
        parent := by
          have hpd' := hpd.putDirent (e := ⟨0, Bytes.zero⟩) hklen.le
          refine ⟨np, { np.putDirent k ⟨0, Bytes.zero⟩ with
            nlink := np.nlink - if nc.type = T_DIR then 1 else 0 }, hnp, ?_,
            ⟨hpd'.type, hpd'.whole⟩, rfl, ⟨0, Bytes.zero⟩, rfl, fun j => ?_⟩
          · rw [Function.update_of_ne hne, Function.update_self]
          · show (np.putDirent k ⟨0, Bytes.zero⟩).entries[j]? = _
            rw [Node.entries_putDirent hpd hklen.le (by decide)]
            exact getElem?_setSlot hklen.le j
        other := fun i hip hic => by
          rw [Function.update_of_ne hic, Function.update_of_ne hip, Function.update_of_ne hip] }
    obtain ⟨np₁, np₁', hnp₁, -, -, -, -, hpos, hnl, -⟩ := hr.parent_spec hσ
    obtain rfl := Option.some.inj (hnp.symm.trans hnp₁)
    have hone : nc.nlink = 1 := by
      by_cases ht : nc.type = T_DIR
      · exact hσ.nlink_of_leaf hnc ht hlc fun _ _ => hr.not_link
      · exact hσ.nlink_of_file hnc ht hlc
    have hshort : Bytes.toShort (np.nlink - 1) = np.nlink - 1 :=
      hσ.toShort_nlink hnp le_rfl (by omega)
    have hlinkable : σ.Unlinkable path :=
      ⟨p, name, np, k, e, nc, hp, hdots, hnp, hk, he, hnc, hleaf⟩
    refine nwp_mono (nwp_unlinkEnd h₆ hy.type hnc₆ hone (Function.update_self ..) hne (hnl ▸ hpos)
      hshort rfl subset_rfl (hroom 2 (by decide)) (fun r hr' he => ?_)
      (fun ho => hP _ (.free htarget hr ho) hlinkable)
      (fun ho => hP _ (.keep htarget hr ho) hlinkable) htarget hr)
      fun r s' hx => ⟨iff_of_true hx.1 hlinkable, hx.2⟩
    rw [hhold r hr'] at he
    exact hσ.rooted.not_root (he ▸ hlink)

end

end Xv6
