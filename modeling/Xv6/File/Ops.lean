import Xv6.File.Names

/-!
# The operations on files

`Quiet L O t σ hold` is what holds between two operations of the nodes, the open files and the
references: the nodes form a tree, a node without links is open and in `O`, an open file has one
holder and its node is in use, its offset lies within the data, and nobody can write to a directory.
Each operation takes such a state to such a state, with the references it took given back, and
whenever the machine crashes on the way the nodes that the drive recovers to are `L.Safe O`: a tree
whose nodes without links are in `O`.

`Steady` is the part that does not mention `O`.  What an operation does to the nodes is described by
`Nodes.Adds`, `Nodes.Removes`, a node that goes or a file that is written; each of these is a case
of `Nodes.Grows`, and `Steady.grows` is the one place where the open files are looked at.

The set `O` says how much is to be promised about nodes without links.  With the empty set there are
none, and then `unlink` must not be called on an open file.

`Affords` says what `open` needs so as not to run out of anything, and a specification promises a
return under this or, where `L.scarce`, a return or a halt for want of it.  Every operation has two
lemmas, one on the nodes alone (`nwp_openFile_nodes`) and one that adds `Quiet` (`nwp_openFile`).
-/

namespace Xv6

open Lib

/-- The nodes form a tree, and those without links are in `O`. -/
def Layout.Safe (L : Layout) (O : ℕ → Prop) (σ : Nodes) : Prop :=
  σ.Tree L.sb.ninodes ∧ ∀ i n, σ i = some n → n.nlink = 0 → O i

/-- What holds between two operations, whatever nodes without links there are.  An open file has one
reference, as nothing calls `filedup`, its node is in use, and nobody can write to a directory; the
references that no open file has are to the root, for working directories. -/
structure Steady (L : Layout) (t : Table) (σ : Nodes) (hold : List Ref) : Prop where
  tree : σ.Tree L.sb.ninodes
  hold : ∀ r ∈ hold, r.inum = ROOTINO
  table : ∀ f, ((t.file f).type = .inode ∧ (t.file f).ref = 1) ∨
    ((t.file f).type = .none ∧ (t.file f).ref = 0)
  live : ∀ f, (t.file f).type = .inode → ∃ n, σ (t.inum f) = some n
  writable : ∀ f n, (t.file f).type = .inode → (t.file f).writable = true →
    σ (t.inum f) = some n → n.type ≠ T_DIR
  /-- The offset of a device means nothing. -/
  offset : ∀ f n, (t.file f).type = .inode → σ (t.inum f) = some n → n.type ≠ T_DEV →
    (t.file f).off ≤ n.data.length

/-- What holds between two operations: besides `Steady`, a node without links is an open file in
`O`.  Nothing else keeps such a node, so that it is freed when the file is closed. -/
structure Quiet (L : Layout) (O : ℕ → Prop) (t : Table) (σ : Nodes) (hold : List Ref) : Prop
    extends Steady L t σ hold where
  orphan : ∀ {i n}, σ i = some n → n.nlink = 0 → t.Opens i ∧ O i

/-- Nodes keep their types and lose no data, and those that go are not open. -/
def Nodes.Grows (t : Table) (σ σ' : Nodes) : Prop :=
  ∀ i n, σ i = some n → (∃ n', σ' i = some n' ∧ n'.type = n.type ∧ n.data.length ≤ n'.data.length) ∨
    σ' i = none ∧ ¬ t.Opens i

section

variable {α : Type} {L : Layout} {O : ℕ → Prop} {P : Nodes → Prop} {Q : α → Fs → Prop} {s s' : Fs}
  {t t' : Table} {σ σ' : Nodes} {hold : List Ref} {M : Finset ℕ} {d i p c k : ℕ} {n np nc : Node}
  {ip : Fin NINODE} {f : Fin NFILE} {name : Name} {path : CString} {type major minor : ℤ}

/-! ## Changes of the nodes -/

lemma Node.IsDir.length_le {np' : Node} {e : Dirent} (h : np.IsDir) (h' : np'.IsDir)
    (hent : ∀ j, np'.entries[j]? = if j = k then some e else np.entries[j]?) :
    np.data.length ≤ np'.data.length := by
  have hle : np.entries.length ≤ np'.entries.length := by
    by_contra hlt
    have hnone := hent np'.entries.length
    rw [List.getElem?_eq_none le_rfl] at hnone
    split_ifs at hnone
    have := List.getElem?_eq_none_iff.mp hnone.symm
    omega
  rw [h.length_data, h'.length_data]
  exact Nat.mul_le_mul_left _ hle

namespace Nodes

lemma Adds.grows {N : ℕ} (ha : σ.Adds N σ' p k c name nc) (h : σ.Tree N) : σ.Grows t σ' := by
  obtain ⟨np, np', hnp, ht, hl, hnp', hd, -, hent⟩ := ha.parent
  intro i n hn
  have hic : i ≠ c := by
    rintro rfl
    exact nomatch ha.old.symm.trans hn
  by_cases hip : i = p
  · obtain rfl := Option.some.inj (hnp.symm.trans (hip ▸ hn))
    exact Or.inl ⟨np', hip ▸ hnp', hd.type.trans ht.symm, (h.isDir hnp ht hl).length_le hd hent⟩
  · exact Or.inl ⟨n, (ha.other i hip hic).trans hn, rfl, le_rfl⟩

lemma Removes.grows {N : ℕ} (hr : σ.Removes σ' p k c nc) (h : σ.Tree N) : σ.Grows t σ' := by
  obtain ⟨np, np', hnp, ht, hl, hnp', hd, -, -, e, -, hent⟩ := hr.parent_spec h
  intro i n hn
  by_cases hic : i = c
  · obtain rfl := Option.some.inj (hr.node.symm.trans (hic ▸ hn))
    exact Or.inl ⟨{ nc with nlink := 0 }, hic ▸ hr.gone, rfl, le_rfl⟩
  by_cases hip : i = p
  · obtain rfl := Option.some.inj (hnp.symm.trans (hip ▸ hn))
    exact Or.inl ⟨np', hip ▸ hnp', hd.type.trans ht.symm, (h.isDir hnp ht hl).length_le hd hent⟩
  · exact Or.inl ⟨n, (hr.other i hip hic).trans hn, rfl, le_rfl⟩

lemma grows_free (ho : ¬ t.Opens c) : σ.Grows t (Function.update σ c none) := by
  intro i n hn
  by_cases hic : i = c
  · exact Or.inr ⟨by rw [hic, Function.update_self], hic ▸ ho⟩
  · exact Or.inl ⟨n, (Function.update_of_ne hic _ _).trans hn, rfl, le_rfl⟩

lemma Grows.back {n' : Node} (hg : σ.Grows t σ') (hn : σ i = some n) (hn' : σ' i = some n') :
    n'.type = n.type ∧ n.data.length ≤ n'.data.length := by
  rcases hg i n hn with ⟨m, hm, hrest⟩ | ⟨hnone, -⟩
  · exact Option.some.inj (hm.symm.trans hn') ▸ hrest
  · cases hnone.symm.trans hn'

end Nodes

namespace Steady

lemma grows (h : Steady L t σ hold) (htree : σ'.Tree L.sb.ninodes) (hg : σ.Grows t σ') :
    Steady L t σ' hold where
  tree := htree
  hold := h.hold
  table := h.table
  live f hf := by
    obtain ⟨n, hn⟩ := h.live f hf
    rcases hg _ n hn with ⟨n', hn', -⟩ | ⟨-, ho⟩
    · exact ⟨n', hn'⟩
    · exact absurd ⟨f, hf, rfl⟩ ho
  writable f n' hf hw hn' := by
    obtain ⟨n, hn⟩ := h.live f hf
    rw [(hg.back hn hn').1]
    exact h.writable f n hf hw hn
  offset f n' hf hn' ht := by
    obtain ⟨n, hn⟩ := h.live f hf
    obtain ⟨htype, hle⟩ := hg.back hn hn'
    exact (h.offset f n hf hn (htype ▸ ht)).trans hle

lemma adds (h : Steady L t σ hold) (ha : σ.Adds L.sb.ninodes σ' p k c name nc) :
    Steady L t σ' hold := h.grows (h.tree.add ha) (ha.grows h.tree)

lemma creates {r : Option ℕ} (h : Steady L t σ hold)
    (hc : σ.Creates L.sb.ninodes path type major minor r σ') : Steady L t σ' hold := by
  cases hc with
  | missing | taken | found => exact h
  | new _ _ _ _ _ _ ha => exact h.adds ha

lemma removes (h : Steady L t σ hold) (hr : σ.Removes σ' p k c nc) : Steady L t σ' hold :=
  h.grows (h.tree.remove hr) (hr.grows h.tree)

lemma free (h : Steady L t σ hold) (hn : σ c = some n) (hz : n.nlink = 0) (ho : ¬ t.Opens c) :
    Steady L t (Function.update σ c none) hold :=
  h.grows (h.tree.keep (Nodes.keeps_free hn hz)) (Nodes.grows_free ho)

lemma unlinks {r : Bool} (h : Steady L t σ hold) (hu : σ.Unlinks t path r σ') :
    Steady L t σ' hold := by
  cases hu with
  | fail => exact h
  | free _ hr ho => exact (h.removes hr).free hr.gone rfl ho
  | keep _ hr _ => exact h.removes hr

end Steady

namespace Quiet

lemma safe (h : Quiet L O t σ hold) : L.Safe O σ := ⟨h.tree, fun _ _ hn hz => (h.orphan hn hz).2⟩

lemma durable (h : Quiet L O t σ hold) : L.Durable (L.OnDisk (L.Safe O)) σ :=
  Layout.durable_onDisk h.safe

lemma adds (h : Quiet L O t σ hold) (ha : σ.Adds L.sb.ninodes σ' p k c name nc) :
    Quiet L O t σ' hold := by
  refine ⟨h.toSteady.adds ha, fun hn' hz => ?_⟩
  rcases ha.back hn' with ⟨-, rfl⟩ | ⟨-, -, hpos⟩ | ⟨-, -, hn⟩
  · exact absurd (ha.nlink.symm.trans hz) one_ne_zero
  · omega
  · exact h.orphan hn hz

lemma creates {r : Option ℕ} (h : Quiet L O t σ hold)
    (hc : σ.Creates L.sb.ninodes path type major minor r σ') : Quiet L O t σ' hold := by
  cases hc with
  | missing | taken | found => exact h
  | new _ _ _ _ _ _ ha => exact h.adds ha

lemma orphan_of_removes (h : Quiet L O t σ hold) (hr : σ.Removes σ' p k c nc) (hn : σ' i = some n)
    (hz : n.nlink = 0) (hic : i ≠ c) : t.Opens i ∧ O i := by
  rcases hr.back h.tree hn with ⟨rfl, -⟩ | ⟨-, -, hpos⟩ | ⟨-, -, hn'⟩
  · exact absurd rfl hic
  · omega
  · exact h.orphan hn' hz

lemma removes (h : Quiet L O t σ hold) (hr : σ.Removes σ' p k c nc) (ho : t.Opens c) (hO : O c) :
    Quiet L O t σ' hold := by
  refine ⟨h.toSteady.removes hr, fun {i n} hn hz => ?_⟩
  by_cases hic : i = c
  · exact hic ▸ ⟨ho, hO⟩
  · exact h.orphan_of_removes hr hn hz hic

lemma removes_free (h : Quiet L O t σ hold) (hr : σ.Removes σ' p k c nc) (ho : ¬ t.Opens c) :
    Quiet L O t (Function.update σ' c none) hold := by
  refine ⟨(h.toSteady.removes hr).free hr.gone rfl ho, fun {i n} hn hz => ?_⟩
  by_cases hic : i = c
  · rw [hic, Function.update_self] at hn
    cases hn
  · exact h.orphan_of_removes hr ((Function.update_of_ne hic _ _).symm.trans hn) hz hic

lemma unlinks {r : Bool} (h : Quiet L O t σ hold)
    (hO : ∀ c, σ.target path = some c → t.Opens c → O c) (hu : σ.Unlinks t path r σ') :
    Quiet L O t σ' hold := by
  cases hu with
  | fail => exact h
  | free _ hr ho => exact h.removes_free hr ho
  | keep ht hr ho => exact h.removes hr ho (hO _ ht ho)

end Quiet

/-! ## unlink, mkdir, mknod -/

/-- **`unlink`**, unless a path to an open file asks for more than `O` admits. -/
lemma nwp_unlink_quiet (h : s.Holds t σ hold ∅ 0) (hq : Quiet L O t σ hold)
    (hL : L.Room MAXOPBLOCKS) (hres : L.scarce ∨ (entriesUsed t hold).card + 1 < NINODE)
    (hO : ∀ c, σ.target path = some c → t.Opens c → O c) :
    nwp L (L.OnDisk (L.Safe O)) (unlink path) (fun r s' => (r = true ↔ σ.Unlinkable path) ∧
      ∃ σ', σ.Unlinks t path r σ' ∧ s'.Holds t σ' hold ∅ 0 ∧ Quiet L O t σ' hold) s := by
  refine nwp_mono (nwp_unlink h hq.tree hL hres hq.hold hq.safe fun σ' hu _ =>
    (hq.unlinks hO hu).safe) ?_
  rintro r s' ⟨htrue, σ', hu, h'⟩
  exact ⟨htrue, σ', hu, h', hq.unlinks hO hu⟩

lemma Nodes.Creates.pos {r : Option ℕ} {N : ℕ} (hσ : σ.Tree N)
    (hc : σ.Creates N path type major minor r σ') {i : ℕ} (hi : r = some i) :
    ∃ n, σ' i = some n ∧ 0 < n.nlink ∧ n.type = type := by
  cases hc with
  | missing | taken => cases hi
  | found hp hnp hk he hn ht hn' =>
    obtain rfl := Option.some.inj hi
    obtain ⟨e', he', hm⟩ := findName_eq_some hk
    obtain rfl := Option.some.inj (he.symm.trans he')
    obtain ⟨np, hnp', hl, hdir⟩ := hσ.linked.parent hp
    obtain rfl := Option.some.inj (hnp.symm.trans hnp')
    obtain ⟨m, hm', hl'⟩ := (hσ.linked.dir hnp hdir hl).2 _ (List.mem_of_getElem? he) hm.1
    obtain rfl := Option.some.inj (hn.symm.trans hm')
    exact ⟨_, hn, hl', hn'.trans ht.symm⟩
  | new _ _ _ ht _ _ ha =>
    obtain rfl := Option.some.inj hi
    exact ⟨_, ha.new, by rw [ha.nlink]; exact one_pos, ht⟩

private lemma nwp_make (h : s.Holds t σ hold ∅ 0) (hσ : σ.Tree L.sb.ninodes)
    (hL : L.Room MAXOPBLOCKS) (ht : type ≠ 0) (htype : Bytes.IsShort type)
    (hmajor : Bytes.IsShort major) (hminor : Bytes.IsShort minor)
    (hres : L.scarce ∨ L.Supplies t σ hold path)
    (hP : ∀ r σ', σ.Makes L.sb.ninodes path type major minor r σ' → P σ') :
    nwp L (L.OnDisk P) (create path type major minor >>= fun r => match r with
      | none => endOp >>= fun _ => pure false
      | some ip => iput ip >>= fun _ => endOp >>= fun _ => pure true)
      (fun b s' => ∃ r σ', b = r.isSome ∧ σ.Makes L.sb.ninodes path type major minor r σ' ∧
        s'.Holds t σ' hold ∅ 0) s := by
  refine nwp_seq (nwp_create h hσ hL ht htype hmajor hminor hres) ?_
  rintro (_ | ip) s₁ ⟨M, d, σ', hx⟩
  · obtain ⟨hc, h₁⟩ := hx
    exact nwp_end h₁ (Layout.durable_onDisk (hP _ _ hc)) fun s₂ h₂ =>
      nwp_ret ⟨none, σ', rfl, hc, h₂⟩
  · obtain ⟨i, hc, h₁⟩ := hx
    obtain ⟨n, hn, hl, -⟩ := hc.creates.pos hσ rfl
    refine nwp_seq (nwp_drop (r := ⟨ip, i, true⟩) h₁ hn hl) fun _ s₂ h₂ => ?_
    exact nwp_end h₂ (Layout.durable_onDisk (hP _ _ hc)) fun s₃ h₃ =>
      nwp_ret ⟨some i, σ', rfl, hc, h₃⟩

private lemma isShort_of_abs {x : ℤ} (h : 0 ≤ x) (h' : x < 4) : Bytes.IsShort x := by
  constructor <;> omega

/-- **`mkdir(path)`**, and what the drive may recover to. -/
lemma nwp_mkdir_nodes (h : s.Holds t σ hold ∅ 0) (hσ : σ.Tree L.sb.ninodes)
    (hL : L.Room MAXOPBLOCKS) (hres : L.scarce ∨ L.Supplies t σ hold path)
    (hP : ∀ r σ', σ.Makes L.sb.ninodes path T_DIR 0 0 r σ' → P σ') :
    nwp L (L.OnDisk P) (mkdir path) (fun b s' => ∃ r σ', b = r.isSome ∧
      σ.Makes L.sb.ninodes path T_DIR 0 0 r σ' ∧ s'.Holds t σ' hold ∅ 0) s :=
  nwp_make h hσ hL (by decide) (isShort_of_abs (by decide) (by decide))
    (isShort_of_abs (by decide) (by decide)) (isShort_of_abs (by decide) (by decide)) hres hP

/-- **`mknod(ip, path, major, minor)`**, and what the drive may recover to. -/
lemma nwp_mknod_nodes (h : s.Holds t σ hold ∅ 0) (hσ : σ.Tree L.sb.ninodes)
    (hL : L.Room MAXOPBLOCKS) (hres : L.scarce ∨ L.Supplies t σ hold path)
    (hP : ∀ r σ', σ.Makes L.sb.ninodes path T_DEV (Bytes.toShort major) (Bytes.toShort minor) r σ' →
      P σ') :
    nwp L (L.OnDisk P) (mknod path major minor) (fun b s' => ∃ r σ', b = r.isSome ∧
      σ.Makes L.sb.ninodes path T_DEV (Bytes.toShort major) (Bytes.toShort minor) r σ' ∧
        s'.Holds t σ' hold ∅ 0) s :=
  nwp_make h hσ hL (by decide) (isShort_of_abs (by decide) (by decide)) (Bytes.isShort_toShort _)
    (Bytes.isShort_toShort _) hres hP

lemma nwp_mkdir (h : s.Holds t σ hold ∅ 0) (hq : Quiet L O t σ hold) (hL : L.Room MAXOPBLOCKS)
    (hres : L.scarce ∨ L.Supplies t σ hold path) :
    nwp L (L.OnDisk (L.Safe O)) (mkdir path) (fun b s' => ∃ r σ', b = r.isSome ∧
      σ.Creates L.sb.ninodes path T_DIR 0 0 r σ' ∧ s'.Holds t σ' hold ∅ 0 ∧
        Quiet L O t σ' hold) s := by
  refine nwp_mono (nwp_mkdir_nodes h hq.tree hL hres fun r σ' hc =>
    (hq.creates hc.creates).safe) ?_
  rintro b s' ⟨r, σ', hb, hc, h'⟩
  exact ⟨r, σ', hb, hc.creates, h', hq.creates hc.creates⟩

lemma nwp_mknod (h : s.Holds t σ hold ∅ 0) (hq : Quiet L O t σ hold) (hL : L.Room MAXOPBLOCKS)
    (hres : L.scarce ∨ L.Supplies t σ hold path) :
    nwp L (L.OnDisk (L.Safe O)) (mknod path major minor) (fun b s' => ∃ r σ', b = r.isSome ∧
      σ.Creates L.sb.ninodes path T_DEV (Bytes.toShort major) (Bytes.toShort minor) r σ' ∧
        s'.Holds t σ' hold ∅ 0 ∧ Quiet L O t σ' hold) s := by
  refine nwp_mono (nwp_mknod_nodes h hq.tree hL hres fun r σ' hc =>
    (hq.creates hc.creates).safe) ?_
  rintro b s' ⟨r, σ', hb, hc, h'⟩
  exact ⟨r, σ', hb, hc.creates, h', hq.creates hc.creates⟩

/-! ## Opening files -/

lemma Table.set_set (t : Table) (f : Fin NFILE) (g g' : File) (i i' : ℕ) :
    (t.set f g i).set f g' i' = t.set f g' i' := by
  simp [Table.set]

lemma Table.set_self (t : Table) (f : Fin NFILE) : t.set f (t.file f) (t.inum f) = t := by
  simp [Table.set]

@[simp] lemma Table.file_set (t : Table) (f : Fin NFILE) (g : File) (i : ℕ) :
    (t.set f g i).file f = g := by
  simp [Table.set]

@[simp] lemma Table.inum_set (t : Table) (f : Fin NFILE) (g : File) (i : ℕ) :
    (t.set f g i).inum f = i := by
  simp [Table.set]

lemma Table.file_set_of_ne {f' : Fin NFILE} {g : File} (h : f' ≠ f) :
    (t.set f g i).file f' = t.file f' := Function.update_of_ne h _ _

lemma Table.inum_set_of_ne {f' : Fin NFILE} {g : File} (h : f' ≠ f) :
    (t.set f g i).inum f' = t.inum f' := Function.update_of_ne h _ _

@[simp] lemma Fs.setFile_setFile (s : Fs) (f : Fin NFILE) (g g' : File) :
    (s.setFile f g).setFile f g' = s.setFile f g' := by
  simp [Fs.setFile]

@[simp] lemma Fs.ft_setFile (s : Fs) (f : Fin NFILE) (g : File) : (s.setFile f g).ft f = g := by
  simp [Fs.setFile]

lemma Steady.openFile {g : File} (h : Steady L t σ hold) (hg : g.type = .inode) (href : g.ref = 1)
    (hoff : g.off = 0) (hn : σ i = some n) (hw : g.writable = true → n.type ≠ T_DIR) :
    Steady L (t.set f g i) σ hold where
  tree := h.tree
  hold := h.hold
  table f' := by
    by_cases hne : f' = f
    · subst hne
      rw [Table.file_set]
      exact Or.inl ⟨hg, href⟩
    · rw [Table.file_set_of_ne hne]
      exact h.table f'
  live f' hf' := by
    by_cases hne : f' = f
    · subst hne
      exact ⟨n, by simpa [Table.set] using hn⟩
    · rw [Table.file_set_of_ne hne] at hf'
      rw [Table.inum_set_of_ne hne]
      exact h.live f' hf'
  writable f' n' hf' hw' hn' := by
    by_cases hne : f' = f
    · subst hne
      rw [Table.file_set] at hw'
      rw [Table.inum_set] at hn'
      exact Option.some.inj (hn.symm.trans hn') ▸ hw hw'
    · rw [Table.file_set_of_ne hne] at hf' hw'
      rw [Table.inum_set_of_ne hne] at hn'
      exact h.writable f' n' hf' hw' hn'
  offset f' n' hf' hn' ht := by
    by_cases hne : f' = f
    · subst hne
      rw [Table.file_set, hoff]
      exact Nat.zero_le _
    · rw [Table.file_set_of_ne hne] at hf' ⊢
      rw [Table.inum_set_of_ne hne] at hn'
      exact h.offset f' n' hf' hn' ht

/-- A file that is open stays open when another one changes. -/
lemma Table.Opens.set {g : File} {f' : Fin NFILE} (hf' : (t.file f').type = .inode) (hne : f' ≠ f) :
    (t.set f g i).Opens (t.inum f') :=
  ⟨f', by rw [Table.file_set_of_ne hne, hf'], Table.inum_set_of_ne hne⟩

lemma Quiet.openFile {g : File} (h : Quiet L O t σ hold) (hf : (t.file f).type = .none)
    (hg : g.type = .inode) (href : g.ref = 1) (hoff : g.off = 0) (hn : σ i = some n)
    (hw : g.writable = true → n.type ≠ T_DIR) : Quiet L O (t.set f g i) σ hold := by
  refine ⟨h.toSteady.openFile hg href hoff hn hw, fun hn' hz => ?_⟩
  obtain ⟨⟨f', hf', rfl⟩, hO⟩ := h.orphan hn' hz
  refine ⟨.set hf' ?_, hO⟩
  rintro rfl
  rw [hf] at hf'
  cases hf'

/-- What opening a path does to the nodes. -/
def Nodes.OpensTo (σ : Nodes) (N : ℕ) (path : CString) (omode : UInt32) (r : Option ℕ)
    (σ' : Nodes) : Prop :=
  if omode &&& O_CREATE ≠ 0 then σ.Creates N path T_FILE 0 0 r σ' else σ' = σ

/-- The node that `open` finds where it does not create one. -/
def Nodes.openable (σ : Nodes) (path : CString) (omode : UInt32) : Option ℕ :=
  (σ.resolve path).filter fun i => (σ i).map Node.type ≠ some T_DIR ∨ omode = 0

/-- What opening a path does to the nodes, and the node that it opens. -/
structure Nodes.Opens (σ : Nodes) (N : ℕ) (path : CString) (omode : UInt32) (r : Option ℕ)
    (σ' : Nodes) : Prop where
  nodes : σ.OpensTo N path omode r σ'
  found : omode &&& O_CREATE = 0 → r = σ.openable path omode
  blank : ∀ {i n}, σ i = none → σ' i = some n → n.type ≠ T_DIR → n.data = []

lemma Nodes.Opens.pos {N : ℕ} {omode : UInt32} (hσ : σ.Tree N)
    (ho : σ.Opens N path omode (some i) σ') :
    ∃ n, σ' i = some n ∧ 0 < n.nlink ∧ (omode ≠ 0 → n.type ≠ T_DIR) := by
  obtain ⟨hto, hfound, -⟩ := ho
  unfold OpensTo at hto
  split_ifs at hto with hcreate
  · obtain ⟨n, hn, hl, ht⟩ := hto.pos hσ rfl
    exact ⟨n, hn, hl, fun _ => ht ▸ by decide⟩
  · subst hto
    obtain ⟨hi, hdir⟩ := Option.filter_eq_some_iff.mp (hfound (not_not.mp hcreate)).symm
    obtain ⟨n, hn, hl⟩ := hσ.linked.resolve hi
    refine ⟨n, hn, hl, fun ho ht => ?_⟩
    rw [hn, decide_eq_true_eq, Option.map_some, ht] at hdir
    exact hdir.elim (fun hne => hne rfl) ho

/-- There are entries of the inode cache for `open` to walk along a path, and what it takes to make
a file, if it is to be made. -/
def Layout.Affords (L : Layout) (t : Table) (σ : Nodes) (hold : List Ref) (path : CString)
    (omode : UInt32) : Prop :=
  (entriesUsed t hold).card + 1 < NINODE ∧ (omode &&& O_CREATE ≠ 0 → L.Supplies t σ hold path)

lemma Layout.Supplies.affords {omode : UInt32} (h : L.Supplies t σ hold path) :
    L.Affords t σ hold path omode := ⟨h.entries, fun _ => h⟩

private lemma nwp_openInode {D : (ℕ → Block) → Prop} {omode : UInt32} (h : s.Holds t σ hold ∅ 0)
    (hσ : σ.Tree L.sb.ninodes) (hL : L.Room MAXOPBLOCKS)
    (hres : L.scarce ∨ L.Affords t σ hold path omode) :
    nwp L D (openInode path omode) (fun r s' => ∃ x M d σ',
      σ.Opens L.sb.ninodes path omode x σ' ∧ match r with
      | none => x = none ∧ s'.Holds t σ' hold M d
      | some ip => ∃ i, x = some i ∧ s'.Holds t σ' (⟨ip, i, true⟩ :: hold) M d) s := by
  unfold openInode
  split_ifs with hcreate
  · refine nwp_mono (nwp_create h hσ hL (by decide) (isShort_of_abs (by decide) (by decide))
      (isShort_of_abs (by decide) (by decide)) (isShort_of_abs (by decide) (by decide))
      (hres.imp_right fun hr => hr.2 hcreate)) ?_
    have hopens : ∀ {x σ'}, σ.Makes L.sb.ninodes path T_FILE 0 0 x σ' →
        σ.Opens L.sb.ninodes path omode x σ' := fun hc =>
      ⟨by rw [Nodes.OpensTo, if_pos hcreate]; exact hc.creates,
        fun hz => absurd hz hcreate, hc.blank⟩
    rintro (_ | ip) s₁ ⟨M, d, σ', hx⟩
    · exact ⟨none, M, d, σ', hopens hx.1, rfl, hx.2⟩
    · obtain ⟨i, hc, h₁⟩ := hx
      exact ⟨some i, M, d, σ', hopens hc, i, rfl, h₁⟩
  · have hopens : ∀ {x}, x = σ.openable path omode → σ.Opens L.sb.ninodes path omode x σ :=
      fun hx => ⟨by rw [Nodes.OpensTo, if_neg hcreate], fun _ => hx,
        fun hnone hn => nomatch hnone.symm.trans hn⟩
    refine nwp_seq (nwp_namei _ h hσ.linked (hres.imp_right And.left)) ?_
    rintro (_ | ip) s₁ hx
    · exact nwp_ret ⟨none, ∅, 0, σ, hopens (by rw [Nodes.openable, hx.1]; rfl), rfl, hx.2⟩
    obtain ⟨i, b, hi, h₁⟩ := hx
    obtain ⟨n, hn, hl⟩ := hσ.linked.resolve hi
    refine nwp_seq (nwp_read h₁ hn) fun _ s₂ h₂ => ?_
    refine nwp_readInode (h₂.has (List.mem_cons_self ..) rfl hn) fun y hy => ?_
    rw [hy.type]
    have hopenable : σ.openable path omode =
        if n.type = T_DIR ∧ omode ≠ 0 then none else some i := by
      rw [Nodes.openable, hi, Option.filter_some, hn, Option.map_some]
      by_cases hdir : n.type = T_DIR ∧ omode ≠ 0
      · rw [if_pos hdir, if_neg (by simp [hdir])]
      · rw [if_neg hdir, if_pos]
        exact decide_eq_true ((not_and_or.mp hdir).imp
          (fun hne he => hne (Option.some.inj he)) not_not.mp)
    split_ifs with hdir
    · refine nwp_seq (nwp_drop (r := ⟨ip, i, true⟩) h₂ hn hl) fun _ s₃ h₃ => ?_
      exact nwp_ret ⟨none, ∅, 0, σ, hopens (by rw [hopenable, if_pos hdir]), rfl, h₃⟩
    · exact nwp_ret ⟨some i, ∅, 0, σ, hopens (by rw [hopenable, if_neg hdir]), i, rfl, h₂⟩

/-- The file that `fillFile` makes. -/
def openedFile (ip : Fin NINODE) (omode : UInt32) : File where
  type := .inode
  ref := 1
  readable := decide (omode &&& O_WRONLY = 0)
  writable := decide (omode &&& O_WRONLY ≠ 0 ∨ omode &&& O_RDWR ≠ 0)
  ip := ip
  off := 0

private lemma nwp_fillFile {P : Nodes → Prop} {omode : UInt32} (href : (s.ft f).ref = 1) :
    nwp L (L.OnDisk P) (fillFile f ip omode)
      (fun _ s' => s' = s.setFile f (openedFile ip omode)) s := by
  unfold fillFile
  refine nwp_setFile (nwp_setFile (nwp_setFile (nwp_setFile (nwp_last (nwp_setFile (nwp_ret ?_))))))
  simp only [Fs.ft_setFile, Fs.setFile_setFile, openedFile, href]

variable (ip) in
private lemma writable_openedFile {omode : UInt32} (hdir : omode ≠ 0 → n.type ≠ T_DIR)
    (hw : (openedFile ip omode).writable = true) : n.type ≠ T_DIR := by
  refine hdir ?_
  rintro rfl
  have hw' : decide ((0 : UInt32) &&& O_WRONLY ≠ 0 ∨ (0 : UInt32) &&& O_RDWR ≠ 0) = true := hw
  revert hw'
  decide

private lemma Fs.Holds.allocated (h : s.Holds t σ hold M d) (hf : (t.file f).type = .none) :
    (s.setFile f { s.ft f with ref := 1 }).Holds (t.set f { t.file f with ref := 1 } (t.inum f)) σ
      hold M d := by
  rw [h.file]
  exact h.setFile hf hf

/-- **`open(path, omode)`**, and what the drive may recover to. -/
lemma nwp_openFile_nodes {omode : UInt32} (h : s.Holds t σ hold ∅ 0) (hst : Steady L t σ hold)
    (hL : L.Room MAXOPBLOCKS) (hres : L.scarce ∨ L.Affords t σ hold path omode)
    (hP : ∀ x σ', σ.Opens L.sb.ninodes path omode x σ' → P σ') :
    nwp L (L.OnDisk P) (openFile path omode) (fun r s' => ∃ x t' σ',
      σ.Opens L.sb.ninodes path omode x σ' ∧ s'.Holds t' σ' hold ∅ 0 ∧ match r with
      | none => t' = t ∧ (x = none ∨ ∀ f, (t.file f).ref ≠ 0)
      | some f => (t.file f).type = .none ∧ ∃ ip i, x = some i ∧
          t' = t.set f (openedFile ip omode) i) s := by
  show nwp L (L.OnDisk P) (openInode path omode >>= _) _ s
  refine nwp_seq (nwp_openInode h hst.tree hL hres) ?_
  rintro (_ | ip) s₁ ⟨x, M, d, σ', hopen, hx⟩
  · exact nwp_end hx.2 (Layout.durable_onDisk (hP _ _ hopen)) fun s₂ h₂ =>
      nwp_ret ⟨x, t, σ', hopen, h₂, rfl, Or.inl hx.1⟩
  obtain ⟨i, rfl, h₁⟩ := hx
  obtain ⟨n, hn, hl, -⟩ := hopen.pos hst.tree
  have hD := Layout.durable_onDisk (L := L) (hP _ _ hopen)
  refine nwp_filealloc (fun hfull => ?_) fun f hz => ?_
  · rw [h₁.file] at hfull
    refine nwp_seq (nwp_drop (r := ⟨ip, i, true⟩) h₁ hn hl) fun _ s₂ h₂ => ?_
    exact nwp_end h₂ hD fun s₃ h₃ => nwp_ret ⟨some i, t, σ', hopen, h₃, rfl, Or.inr hfull⟩
  · rw [h₁.file] at hz
    have hf : (t.file f).type = .none := ((hst.table f).resolve_left fun hh => by omega).1
    have h₂ := h₁.allocated hf
    refine nwp_seq (nwp_fillFile (by simp)) ?_
    rintro - s₃ rfl
    have h₃ := h₂.openFile (f := f) (g := openedFile ip omode) (by simpa using hf) rfl rfl
    rw [Table.set_set] at h₃
    exact nwp_end h₃ hD fun s₄ h₄ => nwp_ret ⟨some i, _, σ', hopen, h₄, hf, ip, i, rfl, rfl⟩

lemma Steady.opens {omode : UInt32} {x : Option ℕ} (h : Steady L t σ hold)
    (ho : σ.Opens L.sb.ninodes path omode x σ') : Steady L t σ' hold := by
  have hto := ho.nodes
  unfold Nodes.OpensTo at hto
  split_ifs at hto
  · exact h.creates hto
  · exact hto ▸ h

lemma Steady.opened {omode : UInt32} (h : Steady L t σ hold)
    (ho : σ.Opens L.sb.ninodes path omode (some i) σ') (ip : Fin NINODE) :
    Steady L (t.set f (openedFile ip omode) i) σ' hold := by
  obtain ⟨n, hn, -, hdir⟩ := ho.pos h.tree
  exact (h.opens ho).openFile rfl rfl rfl hn (writable_openedFile ip hdir)

lemma Quiet.opens {omode : UInt32} {x : Option ℕ} (h : Quiet L O t σ hold)
    (ho : σ.Opens L.sb.ninodes path omode x σ') : Quiet L O t σ' hold := by
  have hto := ho.nodes
  unfold Nodes.OpensTo at hto
  split_ifs at hto
  · exact h.creates hto
  · exact hto ▸ h

lemma Quiet.opened {omode : UInt32} (h : Quiet L O t σ hold) (hf : (t.file f).type = .none)
    (ho : σ.Opens L.sb.ninodes path omode (some i) σ') (ip : Fin NINODE) :
    Quiet L O (t.set f (openedFile ip omode) i) σ' hold := by
  obtain ⟨n, hn, -, hdir⟩ := ho.pos h.tree
  exact (h.opens ho).openFile hf rfl rfl rfl hn (writable_openedFile ip hdir)

/-- **`open(path, omode)`.** -/
lemma nwp_openFile {omode : UInt32} (h : s.Holds t σ hold ∅ 0) (hq : Quiet L O t σ hold)
    (hL : L.Room MAXOPBLOCKS) (hres : L.scarce ∨ L.Supplies t σ hold path) :
    nwp L (L.OnDisk (L.Safe O)) (openFile path omode) (fun r s' => ∃ x t' σ',
      σ.OpensTo L.sb.ninodes path omode x σ' ∧ s'.Holds t' σ' hold ∅ 0 ∧ Quiet L O t' σ' hold ∧
      match r with
      | none => t' = t ∧ (x = none ∨ ∀ f, (t.file f).ref ≠ 0)
      | some f => (t.file f).type = .none ∧ ∃ ip i, x = some i ∧
          t' = t.set f (openedFile ip omode) i) s := by
  refine nwp_mono (nwp_openFile_nodes h hq.toSteady hL (hres.imp_right (·.affords)) fun x σ' ho =>
    (hq.opens ho).safe) ?_
  rintro (_ | f) s' ⟨x, t', σ', ho, h', hr⟩
  · exact ⟨x, t', σ', ho.nodes, h', hr.1 ▸ hq.opens ho, hr⟩
  · obtain ⟨hf, ip, i, rfl, rfl⟩ := hr
    exact ⟨some i, _, σ', ho.nodes, h', hq.opened hf ho ip, hf, ip, i, rfl, rfl⟩

lemma fdalloc_eq_some {o o' : Ofile} {fd : Fin NOFILE} (h : fdalloc o f = some (fd, o')) :
    o fd = none ∧ (∀ fd' < fd, o fd' ≠ none) ∧ o' = Function.update o fd (some f) := by
  obtain ⟨fd', hfind, heq⟩ := Option.map_eq_some_iff.mp h
  obtain ⟨rfl, rfl⟩ := Prod.mk.inj heq
  obtain ⟨hfd, i, hi, hget, hbefore⟩ := List.find?_eq_some_iff_getElem.mp hfind
  refine ⟨by simpa using hfd, fun fd hlt => ?_, rfl⟩
  have hi' : i = fd'.val := by simpa [Fin.ext_iff] using hget
  have hlen : fd.val < (List.finRange NOFILE).length := by simp
  simpa using hbefore fd.val (hi' ▸ hlt)

lemma fdalloc_eq_none {o : Ofile} (h : fdalloc o f = none) (fd : Fin NOFILE) : o fd ≠ none := by
  have hnot := List.find?_eq_none.mp (Option.map_eq_none_iff.mp h) fd (List.mem_finRange fd)
  simpa using hnot

/-- **`sys_open()`**, and what the drive may recover to. -/
lemma nwp_sysOpen_nodes {o : Ofile} {omode : UInt32} (h : s.Holds t σ hold ∅ 0)
    (hst : Steady L t σ hold) (hL : L.Room MAXOPBLOCKS)
    (hres : L.scarce ∨ L.Affords t σ hold path omode)
    (hP : ∀ x σ', σ.Opens L.sb.ninodes path omode x σ' → P σ') :
    nwp L (L.OnDisk P) (sysOpen o path omode) (fun r s' => ∃ x t' σ',
      σ.Opens L.sb.ninodes path omode x σ' ∧ s'.Holds t' σ' hold ∅ 0 ∧
      ((r = (none, o) ∧ t' = t ∧ (x = none ∨ (∀ f, (t.file f).ref ≠ 0) ∨ ∀ fd, o fd ≠ none)) ∨
        ∃ fd f ip i, (t.file f).type = .none ∧ x = some i ∧ t' = t.set f (openedFile ip omode) i ∧
          o fd = none ∧ (∀ fd' < fd, o fd' ≠ none) ∧
          r = (some fd, Function.update o fd (some f)))) s := by
  show nwp L (L.OnDisk P) (openInode path omode >>= _) _ s
  refine nwp_seq (nwp_openInode h hst.tree hL hres) ?_
  rintro (_ | ip) s₁ ⟨x, M, d, σ', hopen, hx⟩
  · exact nwp_end hx.2 (Layout.durable_onDisk (hP _ _ hopen)) fun s₂ h₂ =>
      nwp_ret ⟨x, t, σ', hopen, h₂, Or.inl ⟨rfl, rfl, Or.inl hx.1⟩⟩
  obtain ⟨i, rfl, h₁⟩ := hx
  obtain ⟨n, hn, hl, -⟩ := hopen.pos hst.tree
  have hD := Layout.durable_onDisk (L := L) (hP _ _ hopen)
  refine nwp_filealloc (fun hfull => ?_) fun f hz => ?_
  · rw [h₁.file] at hfull
    refine nwp_seq (nwp_drop (r := ⟨ip, i, true⟩) h₁ hn hl) fun _ s₂ h₂ => ?_
    exact nwp_end h₂ hD fun s₃ h₃ =>
      nwp_ret ⟨some i, t, σ', hopen, h₃, Or.inl ⟨rfl, rfl, Or.inr (Or.inl hfull)⟩⟩
  rw [h₁.file] at hz
  have hf : (t.file f).type = .none := ((hst.table f).resolve_left fun hh => by omega).1
  have h₂ := h₁.allocated hf
  cases hfd : fdalloc o f with
  | none =>
    simp only [hfd]
    -- the file is given back as it was
    refine nwp_seq (M := fun _ s' => s'.Holds t σ' (⟨ip, i, true⟩ :: hold) M d) ?_ fun _ s₃ h₃ => ?_
    · refine nwp_filedrop (by simp) ?_
      have hnot : ¬ (s₁.ft f).type = .inode := by
        rw [h₁.file, hf]
        exact nofun
      show nwp L (L.OnDisk P)
        (if ((s₁.setFile f { s₁.ft f with ref := 1 }).ft f).type = .inode then _ else _) _ _
      rw [Fs.ft_setFile, if_neg hnot, Fs.setFile_setFile]
      have hsame : ({ s₁.ft f with ref := 0, type := .none } : File) = t.file f := by
        rw [h₁.file, ← hf, ← hz]
      show nwp L (L.OnDisk P) (pure ()) _ (s₁.setFile f { s₁.ft f with ref := 0, type := .none })
      rw [hsame, ← h₁.file, Fs.setFile, Function.update_eq_self]
      exact nwp_ret h₁
    refine nwp_seq (nwp_drop (r := ⟨ip, i, true⟩) h₃ hn hl) fun _ s₄ h₄ => ?_
    exact nwp_end h₄ hD fun s₅ h₅ =>
      nwp_ret ⟨some i, t, σ', hopen, h₅, Or.inl ⟨rfl, rfl, Or.inr (Or.inr (fdalloc_eq_none hfd))⟩⟩
  | some q =>
    obtain ⟨fd, o'⟩ := q
    simp only [hfd]
    obtain ⟨hfree, hleast, rfl⟩ := fdalloc_eq_some hfd
    refine nwp_end h₂ hD fun s₃ h₃ => ?_
    have href : (s₃.ft f).ref = 1 := by
      rw [h₃.file, Table.file_set]
    refine nwp_seq (nwp_fillFile href) ?_
    rintro - s₄ rfl
    have h₄ := h₃.openFile (f := f) (g := openedFile ip omode) (by simpa using hf) rfl rfl
    rw [Table.set_set] at h₄
    exact nwp_ret ⟨some i, _, σ', hopen, h₄,
      Or.inr ⟨fd, f, ip, i, hf, rfl, rfl, hfree, hleast, rfl⟩⟩

lemma nwp_sysOpen {o : Ofile} {omode : UInt32} (h : s.Holds t σ hold ∅ 0)
    (hq : Quiet L O t σ hold) (hL : L.Room MAXOPBLOCKS)
    (hres : L.scarce ∨ L.Supplies t σ hold path) :
    nwp L (L.OnDisk (L.Safe O)) (sysOpen o path omode) (fun r s' => ∃ x t' σ',
      σ.OpensTo L.sb.ninodes path omode x σ' ∧ s'.Holds t' σ' hold ∅ 0 ∧ Quiet L O t' σ' hold ∧
      ((r = (none, o) ∧ t' = t) ∨ ∃ fd f ip i, (t.file f).type = .none ∧ x = some i ∧
        t' = t.set f (openedFile ip omode) i ∧ o fd = none ∧
        r = (some fd, Function.update o fd (some f)))) s := by
  refine nwp_mono (nwp_sysOpen_nodes h hq.toSteady hL (hres.imp_right (·.affords)) fun x σ' ho =>
    (hq.opens ho).safe) ?_
  rintro r s' ⟨x, t', σ', ho, h', ⟨hr, rfl, -⟩ | ⟨fd, f, ip, i, hf, rfl, rfl, hfd, -, hr⟩⟩
  · exact ⟨x, t', σ', ho.nodes, h', hq.opens ho, Or.inl ⟨hr, rfl⟩⟩
  · exact ⟨some i, _, σ', ho.nodes, h', hq.opened hf ho ip,
      Or.inr ⟨fd, f, ip, i, hf, rfl, rfl, hfd, hr⟩⟩

/-! ## Closing files -/

lemma Steady.closeFile {g : File} (h : Steady L t σ hold) (hg : g.type = .none) (href : g.ref = 0) :
    Steady L (t.set f g i) σ hold := by
  have hother : ∀ {f'}, ((t.set f g i).file f').type = .inode → f' ≠ f := by
    rintro f' hf' rfl
    rw [Table.file_set, hg] at hf'
    cases hf'
  refine ⟨h.tree, h.hold, fun f' => ?_, fun f' hf' => ?_, fun f' n' hf' hw hn' => ?_,
    fun f' n' hf' hn' ht => ?_⟩
  · by_cases hne : f' = f
    · subst hne
      rw [Table.file_set]
      exact Or.inr ⟨hg, href⟩
    · rw [Table.file_set_of_ne hne]
      exact h.table f'
  · have hne := hother hf'
    rw [Table.file_set_of_ne hne] at hf'
    rw [Table.inum_set_of_ne hne]
    exact h.live f' hf'
  · have hne := hother hf'
    rw [Table.file_set_of_ne hne] at hf' hw
    rw [Table.inum_set_of_ne hne] at hn'
    exact h.writable f' n' hf' hw hn'
  · have hne := hother hf'
    rw [Table.file_set_of_ne hne] at hf' ⊢
    rw [Table.inum_set_of_ne hne] at hn'
    exact h.offset f' n' hf' hn' ht

/-- What closing a file does to its node: a node without links goes, unless it is still open. -/
inductive Nodes.Closes (σ : Nodes) (t : Table) (i : ℕ) : Nodes → Prop
  | keep {n : Node} (hn : σ i = some n) (h : 0 < n.nlink ∨ t.Opens i) : Closes σ t i σ
  | free {n : Node} (hn : σ i = some n) (hz : n.nlink = 0) (ho : ¬ t.Opens i) :
      Closes σ t i (Function.update σ i none)

lemma Steady.closes {g : File} (h : Steady L t σ hold) (hg : g.type = .none) (href : g.ref = 0)
    (hc : σ.Closes (t.set f g (t.inum f)) (t.inum f) σ') :
    Steady L (t.set f g (t.inum f)) σ' hold := by
  cases hc with
  | keep => exact h.closeFile hg href
  | free hn hz ho => exact (h.closeFile hg href).free hn hz ho

lemma Quiet.closes {g : File} (h : Quiet L O t σ hold) (hg : g.type = .none) (href : g.ref = 0)
    (hc : σ.Closes (t.set f g (t.inum f)) (t.inum f) σ') :
    Quiet L O (t.set f g (t.inum f)) σ' hold := by
  refine ⟨h.toSteady.closes hg href hc, fun {j n'} hn' hz => ?_⟩
  cases hc with
  | keep hn hkeep =>
    obtain ⟨⟨f', hf', rfl⟩, hO⟩ := h.orphan hn' hz
    refine ⟨?_, hO⟩
    by_cases hne : f' = f
    · subst hne
      obtain rfl := Option.some.inj (hn.symm.trans hn')
      exact hkeep.resolve_left fun hl => hl.ne' hz
    · exact .set hf' hne
  | free hn _ _ =>
    have hj : j ≠ t.inum f := by
      rintro rfl
      rw [Function.update_self] at hn'
      cases hn'
    rw [Function.update_of_ne hj] at hn'
    obtain ⟨⟨f', hf', rfl⟩, hO⟩ := h.orphan hn' hz
    refine ⟨.set hf' ?_, hO⟩
    rintro rfl
    exact hj rfl

/-- **`fileclose(f)`**, and what the drive may recover to. -/
lemma nwp_fileclose_nodes (h : s.Holds t σ hold ∅ 0) (hst : Steady L t σ hold)
    (hL : L.Room MAXOPBLOCKS) (hf : (t.file f).type = .inode)
    (hP : ∀ g σ', g.type = .none → g.ref = 0 →
      σ.Closes (t.set f g (t.inum f)) (t.inum f) σ' → P σ') :
    nwp L (L.OnDisk P) (fileclose f) (fun _ s' => ∃ σ' g, g.type = .none ∧ g.ref = 0 ∧
      σ.Closes (t.set f g (t.inum f)) (t.inum f) σ' ∧
        s'.Holds (t.set f g (t.inum f)) σ' hold ∅ 0) s := by
  have href : (t.file f).ref = 1 := ((hst.table f).resolve_right fun hh => by
    rw [hf] at hh
    exact nomatch hh.1).2
  obtain ⟨n, hn⟩ := hst.live f hf
  refine nwp_filedrop (by rw [h.file, href]) ?_
  have h₁ := h.closeFile (i := t.inum f) (g := { t.file f with ref := 0, type := .none }) hf rfl
  rw [← h.file] at h₁
  rw [h.file] at h₁ ⊢
  set t' := t.set f { t.file f with ref := 0, type := .none } (t.inum f) with ht'
  show nwp L (L.OnDisk P) (if (t.file f).type = .inode then iput (t.file f).ip >>= fun _ => endOp
    else _) _ _
  rw [if_pos hf]
  have hroom : L.Room (({L.bmapblock, L.iblock (t.inum f)} : Finset ℕ).card + 0) :=
    hL.mono (Finset.card_le_two.trans (by decide))
  -- what is left to do once the node is what it should be
  have hend : ∀ σ' M d s₂, s₂.Holds t' σ' hold M d → σ.Closes t' (t.inum f) σ' →
      nwp L (L.OnDisk P) endOp (fun _ s' => ∃ σ' g, g.type = .none ∧ g.ref = 0 ∧
        σ.Closes (t.set f g (t.inum f)) (t.inum f) σ' ∧
          s'.Holds (t.set f g (t.inum f)) σ' hold ∅ 0) s₂ := fun σ' M d s₂ h₂ hc =>
    nwp_last (nwp_end h₂ (Layout.durable_onDisk (hP _ _ rfl rfl hc)) fun s₃ h₃ =>
      nwp_ret ⟨σ', _, rfl, rfl, hc, h₃⟩)
  by_cases hz : n.nlink = 0
  · refine nwp_of_rep fun ino v fm hrep => ?_
    refine nwp_seq (nwp_release (h₁.mono (Finset.empty_subset _) le_rfl) hn hz subset_rfl hroom) ?_
    rintro - s₂ (⟨hz', -, h₂⟩ | ⟨hpos, h₂⟩)
    · exact hend _ _ _ s₂ h₂ (.free hn hz fun hopen => ((h₁.opens_iff hrep).mp hopen).ne' hz')
    · refine hend _ _ _ s₂ h₂ (.keep hn (Or.inr ?_))
      refine (h₁.opens_iff hrep).mpr (Nat.pos_of_ne_zero fun hzero => ?_)
      rw [hzero, Nat.zero_add] at hpos
      obtain ⟨r, hr, hrip⟩ := List.countP_pos_iff.mp hpos
      have hrip : r.ip = (t.file f).ip := by simpa using hrip
      -- a working directory is the root, which has a link
      have hinum : t.inum f = ROOTINO := by
        rw [← hst.hold r hr, ← h.inum r hr, hrip]
        exact (h.fileInum f hf).symm
      obtain ⟨m, hm, -, hl⟩ := hst.tree.root
      rw [← hinum, hn] at hm
      rw [← Option.some.inj hm] at hl
      omega
  · have hl : 0 < n.nlink := lt_of_le_of_ne (hst.tree.nonneg hn) (Ne.symm hz)
    refine nwp_seq (nwp_drop (r := ⟨(t.file f).ip, t.inum f, true⟩) h₁ hn hl) fun _ s₂ h₂ => ?_
    exact hend _ _ _ s₂ h₂ (.keep hn (Or.inl hl))

lemma nwp_fileclose (h : s.Holds t σ hold ∅ 0) (hq : Quiet L O t σ hold) (hL : L.Room MAXOPBLOCKS)
    (hf : (t.file f).type = .inode) :
    nwp L (L.OnDisk (L.Safe O)) (fileclose f) (fun _ s' => ∃ σ' g, g.type = .none ∧
      s'.Holds (t.set f g (t.inum f)) σ' hold ∅ 0 ∧
        Quiet L O (t.set f g (t.inum f)) σ' hold) s := by
  refine nwp_mono (nwp_fileclose_nodes h hq.toSteady hL hf fun g σ' hg href hc =>
    (hq.closes hg href hc).safe) ?_
  rintro - s' ⟨σ', g, hg, href, hc, h'⟩
  exact ⟨σ', g, hg, h', hq.closes hg href hc⟩

/-! ## Reading and writing -/

def Table.seek (t : Table) (f : Fin NFILE) (off : ℕ) : Table :=
  t.set f { t.file f with off := off } (t.inum f)

lemma Table.seek_self (t : Table) (f : Fin NFILE) : t.seek f (t.file f).off = t := t.set_self f

lemma Table.seek_seek (t : Table) (f : Fin NFILE) (off off' : ℕ) :
    (t.seek f off).seek f off' = t.seek f off' := by
  simp [Table.seek, Table.set]

lemma Table.file_seek {f' : Fin NFILE} {off : ℕ} :
    ((t.seek f off).file f').type = (t.file f').type ∧
    ((t.seek f off).file f').ref = (t.file f').ref ∧
    ((t.seek f off).file f').writable = (t.file f').writable ∧
    (t.seek f off).inum f' = t.inum f' := by
  by_cases hne : f' = f
  · subst hne
    simp [Table.seek, Table.set]
  · rw [Table.seek, Table.file_set_of_ne hne, Table.inum_set_of_ne hne]
    exact ⟨rfl, rfl, rfl, rfl⟩

lemma Table.opens_seek {off : ℕ} : (t.seek f off).Opens i ↔ t.Opens i := by
  simp only [Table.Opens, Table.file_seek]

lemma Table.off_seek (t : Table) (f : Fin NFILE) (off : ℕ) : ((t.seek f off).file f).off = off := by
  rw [Table.seek, Table.file_set]

lemma Steady.seek {off : ℕ} (h : Steady L t σ hold)
    (hoff : ∀ n, σ (t.inum f) = some n → n.type ≠ T_DEV → off ≤ n.data.length) :
    Steady L (t.seek f off) σ hold where
  tree := h.tree
  hold := h.hold
  table f' := by
    simp only [Table.file_seek]
    exact h.table f'
  live f' hf' := by
    simp only [Table.file_seek] at hf' ⊢
    exact h.live f' hf'
  writable f' n hf' hw hn := by
    simp only [Table.file_seek] at hf' hw hn
    exact h.writable f' n hf' hw hn
  offset f' n hf' hn ht := by
    by_cases hne : f' = f
    · subst hne
      rw [Table.off_seek]
      exact hoff n (Table.file_seek.2.2.2 ▸ hn) ht
    · simp only [Table.file_seek] at hf' hn
      rw [Table.seek, Table.file_set_of_ne hne]
      exact h.offset f' n hf' hn ht

lemma Quiet.seek {off : ℕ} (h : Quiet L O t σ hold)
    (hoff : ∀ n, σ (t.inum f) = some n → n.type ≠ T_DEV → off ≤ n.data.length) :
    Quiet L O (t.seek f off) σ hold :=
  ⟨h.toSteady.seek hoff, fun hn hz => ⟨Table.opens_seek.mpr (h.orphan hn hz).1, (h.orphan hn hz).2⟩⟩

private lemma nwp_seek {D : (ℕ → Block) → Prop} {m : ℕ} {k : Unit → K α} (h : s.Holds t σ hold M d)
    (hk : ∀ s', s'.Holds (t.seek f (((t.file f).off + m) % UINT)) σ hold M d →
      nwp L D (k ()) Q s') :
    nwp L D (setFile f (fun g => { g with off := (g.off + m) % UINT }) >>= k) Q s := by
  refine nwp_setFile (hk _ ?_)
  rw [h.file]
  exact h.setOff _

/-- What `fileread` returns, at the offset `off` of a file with the contents `data`. -/
def readAt (n : Node) (off m : ℕ) : Option (List UInt8) :=
  if n.data.length < off ∨ UINT ≤ off + m ∨ n.nlink < 1 then none
  else some ((n.data.drop off).take m)

lemma length_readAt {off m : ℕ} {got : List UInt8} (h : readAt n off m = some got) :
    off + got.length ≤ n.data.length := by
  rw [readAt] at h
  split_ifs at h with hbad
  rw [← Option.some.inj h, List.length_take, List.length_drop]
  omega

/-- **`fileread(f, addr, m)`** of a file or directory. -/
lemma nwp_fileread_file {D : (ℕ → Block) → Prop} {m : ℕ} (h : s.Holds t σ hold M d)
    (hf : (t.file f).type = .inode) (hr : (t.file f).readable = true) (hn : σ (t.inum f) = some n)
    (ht : n.type ≠ T_DEV) (hm : m < UINT) :
    nwp L D (fileread f m) (fun r s' => r = readAt n (t.file f).off m ∧
      s'.Holds (t.seek f ((t.file f).off + (r.getD []).length)) σ hold M d) s := by
  refine nwp_of_rep fun ino v fm hrep => nwp_readFile ?_
  have hmax := hrep.length_le (h.node ▸ hn)
  rw [h.file, if_neg (by simp [hr]), if_pos hf]
  refine nwp_seq (nwp_iread_file h hf hn) ?_
  rintro - s₁ rfl
  refine nwp_readFile ?_
  rw [h.file]
  refine nwp_seq (nwp_readi (h.has_file hf hn) ht hm) ?_
  rintro r s₂ ⟨rfl, hread⟩
  replace hread : r = readAt n (t.file f).off m := hread
  cases r with
  | none =>
    refine nwp_ret ⟨hread, ?_⟩
    rwa [Option.getD_none, List.length_nil, Nat.add_zero, Table.seek_self]
  | some got =>
    have hlen := length_readAt hread.symm
    show nwp L D (if 0 < got.length then _ else _ : K _) _ s₂
    split_ifs with hpos
    · refine nwp_seek h fun s' h' => nwp_ret ⟨hread, ?_⟩
      rwa [Nat.mod_eq_of_lt] at h'
      simp only [MAXFILE, NDIRECT, NINDIRECT, BSIZE, UINT] at *
      omega
    · refine nwp_ret ⟨hread, ?_⟩
      rwa [Option.getD_some, Nat.eq_zero_of_not_pos hpos, Nat.add_zero, Table.seek_self]

lemma nwp_fileread_refused {D : (ℕ → Block) → Prop} {m : ℕ} (h : s.Holds t σ hold M d)
    (hr : (t.file f).readable = false) :
    nwp L D (fileread f m) (fun r s' => r = none ∧ s' = s) s := by
  refine nwp_readFile ?_
  rw [h.file, if_pos hr]
  exact nwp_ret ⟨rfl, rfl⟩

/-- **`fileread(f, addr, m)`** of a device. -/
lemma nwp_fileread_dev {D : (ℕ → Block) → Prop} {m : ℕ} [L.Scarce]
    (h : s.Holds t σ hold M d) (hf : (t.file f).type = .inode) (hr : (t.file f).readable = true)
    (hn : σ (t.inum f) = some n) (ht : n.type = T_DEV) :
    nwp L D (fileread f m) (fun _ s' => ∃ off, s'.Holds (t.seek f off) σ hold M d) s := by
  have hsame : ∀ {s' : Fs}, s'.Holds t σ hold M d → ∃ off, s'.Holds (t.seek f off) σ hold M d :=
    fun h' => ⟨(t.file f).off, by rwa [Table.seek_self]⟩
  refine nwp_readFile ?_
  rw [h.file, if_neg (by simp [hr]), if_pos hf]
  refine nwp_seq (nwp_iread_file h hf hn) ?_
  rintro - s₁ rfl
  refine nwp_readFile ?_
  rw [h.file]
  refine nwp_seq (nwp_readi_dev (h.has_file hf hn) ht) ?_
  rintro r s₂ ⟨input, rfl⟩
  have h₂ : ({ s₁ with input := input } : Fs).Holds t σ hold M d := { h with }
  cases r with
  | none => exact nwp_ret (hsame h₂)
  | some got =>
    show nwp L D (if 0 < got.length then _ else _ : K _) _ _
    split_ifs
    · exact nwp_seek h₂ fun s' h' => nwp_ret ⟨_, h'⟩
    · exact nwp_ret (hsame h₂)

/-- The offset after reading a file. -/
lemma off_add_readAt_le {off m : ℕ} (h : off ≤ n.data.length) :
    off + ((readAt n off m).getD []).length ≤ n.data.length := by
  cases hr : readAt n off m with
  | none => exact h
  | some got => exact length_readAt hr

lemma nwp_fileread [L.Scarce] {m : ℕ} (h : s.Holds t σ hold ∅ 0) (hq : Quiet L O t σ hold)
    (hf : (t.file f).type = .inode) (hm : m < UINT) :
    nwp L (L.OnDisk (L.Safe O)) (fileread f m) (fun _ s' => ∃ off,
      s'.Holds (t.seek f off) σ hold ∅ 0 ∧ Quiet L O (t.seek f off) σ hold) s := by
  obtain ⟨n, hn⟩ := hq.live f hf
  by_cases hr : (t.file f).readable = false
  · refine nwp_mono (nwp_fileread_refused h hr) ?_
    rintro r s' ⟨-, rfl⟩
    refine ⟨(t.file f).off, ?_⟩
    rw [Table.seek_self]
    exact ⟨h, hq⟩
  rw [Bool.not_eq_false] at hr
  by_cases ht : n.type = T_DEV
  · refine nwp_mono (nwp_fileread_dev h hf hr hn ht) ?_
    rintro r s' ⟨off, h'⟩
    exact ⟨off, h', hq.seek fun n' hn' ht' =>
      absurd (Option.some.inj (hn.symm.trans hn') ▸ ht) ht'⟩
  · refine nwp_mono (nwp_fileread_file h hf hr hn ht hm) ?_
    rintro r s' ⟨rfl, h'⟩
    refine ⟨_, h', hq.seek fun n' hn' ht' => ?_⟩
    obtain rfl := Option.some.inj (hn.symm.trans hn')
    exact off_add_readAt_le (hq.offset f n hf hn ht)

lemma touched_le (off : ℕ) {len : ℕ} (h : len ≤ WRITEMAX) : touched off len ≤ 4 := by
  simp only [touched, nblocks, WRITEMAX, MAXOPBLOCKS, BSIZE] at *
  split_ifs <;> omega

/-- One turn of the loop of `filewrite`: `writei`, the new offset, and `end_op`. -/
private lemma nwp_filewriteTurn {D : (ℕ → Block) → Prop} {Q : Bool → Fs → Prop} {turns : ℕ}
    {src : List UInt8} (h : s.Holds t σ hold ∅ 0) (hf : (t.file f).type = .inode)
    (hn : σ (t.inum f) = some n) (hnil : src ≠ [])
    (hchunk : nwp L D (writei (t.file f).ip (src.take WRITEMAX) (t.file f).off) (fun r s' =>
      ∃ M d σ', s'.Holds t σ' hold M d ∧ L.Durable D σ' ∧
        (r = none ∧ (∀ s₁, s₁.Holds t σ' hold ∅ 0 → Q false s₁) ∨
        r = some (src.take WRITEMAX).length ∧ ∀ s₁,
          s₁.Holds (t.seek f (((t.file f).off + (src.take WRITEMAX).length) % UINT)) σ' hold ∅ 0 →
          nwp L D (filewriteFrom f turns (src.drop WRITEMAX)) Q s₁)) s) :
    nwp L D (filewriteFrom f (turns + 1) src) Q s := by
  rw [filewriteFrom, if_neg hnil]
  show nwp L D (readFile f >>= _) _ s
  refine nwp_readFile ?_
  rw [h.file]
  refine nwp_seq (nwp_iread_file h hf hn) ?_
  rintro - s₁ rfl
  refine nwp_readFile ?_
  rw [h.file]
  refine nwp_seq hchunk ?_
  rintro r s₂ ⟨M, d, σ', h₂, hD, ⟨rfl, hQ⟩ | ⟨rfl, hnext⟩⟩
  · exact nwp_end h₂ hD fun s₃ h₃ => nwp_ret (hQ s₃ h₃)
  have hpos : 0 < (src.take WRITEMAX).length := by
    rw [List.length_take]
    exact lt_min (by norm_num) (List.length_pos_iff.mpr hnil)
  have hdrop : src.drop (src.take WRITEMAX).length = src.drop WRITEMAX := by
    rcases Nat.le_total WRITEMAX src.length with hle | hle
    · rw [List.length_take, Nat.min_eq_left hle]
    · rw [List.length_take, Nat.min_eq_right hle, List.drop_length, List.drop_eq_nil_of_le hle]
  show nwp L D (if 0 < (src.take WRITEMAX).length then _ else _ : K _) _ s₂
  rw [if_pos hpos]
  refine nwp_seek h₂ fun s₃ h₃ => nwp_end h₃ hD fun s₄ h₄ => ?_
  rw [if_neg (not_not.mpr rfl), hdrop]
  exact hnext s₄ h₄

/-- How many of `len` bytes `filewrite` writes at the offset `off` of a file of length `size`: all
of them, or the chunks that fit into the largest file. -/
def written (size off len : ℕ) : ℕ :=
  if size < off then 0
  else if off + len ≤ MAXFILE * BSIZE then len
  else (MAXFILE * BSIZE - off) / WRITEMAX * WRITEMAX

/-- The file after such a write. -/
def Node.writeAt (n : Node) (off : ℕ) (src : List UInt8) : Node :=
  { n with data := overlay n.data off src }

section

variable {size off len : ℕ}

lemma written_zero : written size off 0 = 0 := by
  simp only [written, MAXFILE, NDIRECT, NINDIRECT, BSIZE, WRITEMAX, MAXOPBLOCKS]
  split_ifs <;> omega

lemma written_of_bad (h : size < off ∨ MAXFILE * BSIZE < off + min WRITEMAX len) :
    written size off len = 0 := by
  simp only [written, MAXFILE, NDIRECT, NINDIRECT, BSIZE, WRITEMAX, MAXOPBLOCKS] at *
  split_ifs <;> omega

lemma written_of_fits (hoff : off ≤ size) (h : off + min WRITEMAX len ≤ MAXFILE * BSIZE) :
    written size off len = min WRITEMAX len +
      written (max size (off + min WRITEMAX len)) (off + min WRITEMAX len)
        (len - min WRITEMAX len) := by
  simp only [written, MAXFILE, NDIRECT, NINDIRECT, BSIZE, WRITEMAX, MAXOPBLOCKS] at *
  split_ifs <;> omega

lemma written_eq_self :
    written size off len = len ↔ len = 0 ∨ off ≤ size ∧ off + len ≤ MAXFILE * BSIZE := by
  simp only [written, MAXFILE, NDIRECT, NINDIRECT, BSIZE, WRITEMAX, MAXOPBLOCKS]
  split_ifs <;> omega

lemma written_le : written size off len ≤ len := by
  simp only [written, MAXFILE, NDIRECT, NINDIRECT, BSIZE, WRITEMAX, MAXOPBLOCKS]
  split_ifs <;> omega

end

lemma Nodes.update_writeAt_nil (hn : σ i = some n) (off : ℕ) :
    Function.update σ i (some (n.writeAt off [])) = σ := by
  rw [Node.writeAt, overlay_nil]
  exact Function.update_eq_self_iff.mpr hn.symm

lemma Nodes.update_writeAt_writeAt {off : ℕ} {src src' : List UInt8} (hoff : off ≤ n.data.length) :
    Function.update (Function.update σ i (some (n.writeAt off src))) i
      (some ((n.writeAt off src).writeAt (off + src.length) src')) =
      Function.update σ i (some (n.writeAt off (src ++ src'))) := by
  rw [Function.update_idem, Node.writeAt, Node.writeAt, overlay_overlay hoff]
  rfl

private lemma Fs.Holds.write_nothing {k : ℕ} (h : s.Holds t σ hold M d) (hn : σ (t.inum f) = some n)
    (hk : k = 0) (src : List UInt8) : s.Holds (t.seek f ((t.file f).off + k))
      (Function.update σ (t.inum f) (some (n.writeAt (t.file f).off (src.take k)))) hold M d := by
  subst hk
  rwa [Nat.add_zero, Table.seek_self, List.take_zero, Nodes.update_writeAt_nil hn]

private lemma nwp_filewriteFrom_file {D : (ℕ → Block) → Prop} {turns k : ℕ} {src : List UInt8}
    (h : s.Holds t σ hold ∅ 0) (hL : L.Room MAXOPBLOCKS) (hf : (t.file f).type = .inode)
    (hn : σ (t.inum f) = some n) (ht : n.type ≠ T_DEV) (hturns : src.length ≤ turns)
    (hk : k = written n.data.length (t.file f).off src.length)
    (hfree : L.scarce ∨ L.Spare σ n.data.length ((t.file f).off + k))
    (hD : ∀ src', src' <+: src → written n.data.length (t.file f).off src'.length = src'.length →
      L.Durable D (Function.update σ (t.inum f) (some (n.writeAt (t.file f).off src')))) :
    nwp L D (filewriteFrom f turns src) (fun r s' => r = decide (k = src.length) ∧
      s'.Holds (t.seek f ((t.file f).off + k))
        (Function.update σ (t.inum f)
          (some (n.writeAt (t.file f).off (src.take k)))) hold ∅ 0) s := by
  induction turns generalizing src s t σ n k with
  | zero =>
    obtain rfl := List.length_eq_zero_iff.mp (Nat.le_zero.mp hturns)
    rw [List.length_nil, written_zero] at hk
    exact nwp_ret ⟨(decide_eq_true hk).symm, h.write_nothing hn hk []⟩
  | succ turns ih =>
    by_cases hnil : src = []
    · subst hnil
      rw [List.length_nil, written_zero] at hk
      exact nwp_ret ⟨(decide_eq_true hk).symm, h.write_nothing hn hk []⟩
    have hlen : 0 < src.length := List.length_pos_iff.mpr hnil
    have htake : (src.take WRITEMAX).length = min WRITEMAX src.length := List.length_take
    refine nwp_of_rep fun ino v fm hrep => nwp_filewriteTurn h hf hn hnil ?_
    have hi : t.inum f < L.sb.ninodes := hrep.lt (h.node ▸ hn)
    by_cases hbad : n.data.length < (t.file f).off ∨
        MAXFILE * BSIZE < (t.file f).off + min WRITEMAX src.length
    · refine nwp_mono (nwp_writei_none (h.has_file hf hn) ht ?_ (by rwa [htake])) ?_
      · rw [htake]
        exact (Nat.min_le_left _ _).trans_lt (by norm_num)
      · rintro r s' ⟨rfl, rfl⟩
        refine ⟨∅, 0, σ, h, Nodes.update_writeAt_nil hn _ ▸ hD [] List.nil_prefix written_zero,
          Or.inl ⟨rfl, fun s₁ h₁ => ?_⟩⟩
        rw [written_of_bad hbad] at hk
        exact ⟨(decide_eq_false (hk ▸ hlen.ne)).symm, h₁.write_nothing hn hk src⟩
    · rw [not_or, Nat.not_lt, Nat.not_lt] at hbad
      obtain ⟨hoff, hfits⟩ := hbad
      rw [written_of_fits hoff hfits, ← htake] at hk
      set c := src.take WRITEMAX with hc
      have hM := h.mono (Finset.empty_subset {L.bmapblock, L.iblock (t.inum f)}) le_rfl
      have hroom : L.Room (({L.bmapblock, L.iblock (t.inum f)} : Finset ℕ).card +
          (0 + 2 * touched (t.file f).off c.length)) := by
        refine hL.mono (Nat.add_le_add (b := 2) (d := 8) Finset.card_le_two ?_)
        have := touched_le (t.file f).off (htake.trans_le (Nat.min_le_left _ _))
        omega
      have hspare : L.scarce ∨ L.Spare s.node n.data.length ((t.file f).off + c.length) :=
        hfree.imp_right fun hsp => h.node ▸ hsp.mono (by omega)
      refine nwp_mono (nwp_writei (h.has_file hf hn) (h.not_stale _) ht hoff (htake.symm ▸ hfits)
        (hM.room subset_rfl hroom) hspare) ?_
      rintro r s' ⟨rfl, rfl⟩
      refine ⟨_, _, _, hM.change subset_rfl, ?_, Or.inr ⟨rfl, fun s₁ h₁ => ?_⟩⟩
      · rw [h.node]
        exact hD c (List.take_prefix _ _) (written_eq_self.mpr (Or.inr ⟨hoff, htake.symm ▸ hfits⟩))
      -- the rest of the bytes, behind what has been written
      have hmax : (t.file f).off + c.length < UINT :=
        (htake.symm ▸ hfits).trans_lt (by norm_num [MAXFILE])
      have hsize : (n.writeAt (t.file f).off c).data.length =
          max n.data.length ((t.file f).off + c.length) := length_overlay hoff
      have hseek : ((t.seek f ((t.file f).off + c.length)).file f).off =
          (t.file f).off + c.length := by simp [Table.seek, Table.set]
      rw [Nat.mod_eq_of_lt hmax, h.node] at h₁
      change s₁.Holds _ (Function.update σ (t.inum f) (some (n.writeAt (t.file f).off c)))
        hold ∅ 0 at h₁
      have hinum : (t.seek f ((t.file f).off + c.length)).inum f = t.inum f := Table.file_seek.2.2.2
      have hdrop : (src.drop WRITEMAX).length = src.length - c.length := by
        rw [List.length_drop, htake]
        omega
      have hck : c.length ≤ k := by omega
      have hsrc : c ++ (src.drop WRITEMAX).take (k - c.length) = src.take k := by
        rcases Nat.le_total WRITEMAX src.length with hle | hle
        · have hcw : c.length = WRITEMAX := htake.trans (Nat.min_eq_left hle)
          rw [hcw, hc, ← List.take_add, Nat.add_sub_of_le (hcw ▸ hck)]
        · rw [hc, List.take_of_length_le hle, List.drop_eq_nil_of_le hle, List.take_nil,
            List.append_nil, List.take_of_length_le]
          rw [← Nat.min_eq_right hle, ← htake]
          exact hck
      refine nwp_mono (ih (k := k - c.length) (n := n.writeAt (t.file f).off c) h₁
        (Table.file_seek.1.trans hf) ?_ ht ?_ ?_ ?_ ?_) ?_
      · rw [hinum, Function.update_self]
      · have hcpos : 0 < c.length := htake.symm ▸ lt_min (by norm_num) hlen
        omega
      · rw [hseek, hsize, hdrop]
        omega
      · rw [hseek, Nat.add_assoc, Nat.add_sub_of_le hck]
        exact hfree.imp_right fun hsp => hsp.update (n.writeAt (t.file f).off c) hi hn
          (hsize ▸ le_max_left _ _) (by omega)
      · intro src' hpre hall
        rw [hseek, hinum, Nodes.update_writeAt_writeAt hoff]
        refine hD _ ?_ (written_eq_self.mpr (Or.inr ⟨hoff, ?_⟩))
        · rw [← List.take_append_drop WRITEMAX src]
          exact (List.prefix_append_right_inj c).mpr hpre
        · have hc' : (t.file f).off + c.length ≤ MAXFILE * BSIZE := htake.symm ▸ hfits
          rw [hseek] at hall
          rw [List.length_append]
          rcases written_eq_self.mp hall with hz | ⟨-, hle⟩
          · omega
          · omega
      · rintro r s₂ ⟨rfl, h₂⟩
        rw [hseek, hinum, Nodes.update_writeAt_writeAt hoff, hsrc, Table.seek_seek,
          Nat.add_assoc, Nat.add_sub_of_le hck] at h₂
        have hcle : c.length ≤ src.length := htake.trans_le (Nat.min_le_right _ _)
        refine ⟨decide_eq_decide.mpr ?_, h₂⟩
        omega

/-- **`filewrite(f, addr, n)`** of a file writes a prefix of the bytes, and so does the part of it
that a crash leaves. -/
lemma nwp_filewrite_upTo {D : (ℕ → Block) → Prop} {k : ℕ} {src : List UInt8}
    (h : s.Holds t σ hold ∅ 0) (hL : L.Room MAXOPBLOCKS) (hf : (t.file f).type = .inode)
    (hw : (t.file f).writable = true) (hn : σ (t.inum f) = some n) (ht : n.type ≠ T_DEV)
    (hk : k = written n.data.length (t.file f).off src.length)
    (hfree : L.scarce ∨ L.Spare σ n.data.length ((t.file f).off + k))
    (hD : ∀ src', src' <+: src → written n.data.length (t.file f).off src'.length = src'.length →
      L.Durable D (Function.update σ (t.inum f) (some (n.writeAt (t.file f).off src')))) :
    nwp L D (filewrite f src) (fun r s' => r = (if k = src.length then some src.length else none) ∧
      s'.Holds (t.seek f ((t.file f).off + k))
        (Function.update σ (t.inum f)
          (some (n.writeAt (t.file f).off (src.take k)))) hold ∅ 0) s := by
  refine nwp_readFile ?_
  rw [h.file, if_neg (by simp [hw]), if_pos hf]
  refine nwp_seq (nwp_filewriteFrom_file h hL hf hn ht le_rfl hk hfree hD) ?_
  rintro b s' ⟨rfl, h'⟩
  by_cases hall : k = src.length
  · rw [decide_eq_true hall, if_pos rfl]
    exact nwp_ret ⟨(if_pos hall).symm, h'⟩
  · rw [decide_eq_false hall, if_neg Bool.false_ne_true]
    exact nwp_ret ⟨(if_neg hall).symm, h'⟩

/-- **`filewrite(f, addr, n)`** of a file. -/
lemma nwp_filewrite_file {D : (ℕ → Block) → Prop} {k : ℕ} {src : List UInt8}
    (h : s.Holds t σ hold ∅ 0) (hL : L.Room MAXOPBLOCKS) (hf : (t.file f).type = .inode)
    (hw : (t.file f).writable = true) (hn : σ (t.inum f) = some n) (ht : n.type ≠ T_DEV)
    (hk : k = written n.data.length (t.file f).off src.length)
    (hfree : L.scarce ∨ L.Spare σ n.data.length ((t.file f).off + k))
    (hD : ∀ src', L.Durable D
      (Function.update σ (t.inum f) (some (n.writeAt (t.file f).off src')))) :
    nwp L D (filewrite f src) (fun r s' => r = (if k = src.length then some src.length else none) ∧
      s'.Holds (t.seek f ((t.file f).off + k))
        (Function.update σ (t.inum f) (some (n.writeAt (t.file f).off (src.take k)))) hold ∅ 0) s :=
  nwp_filewrite_upTo h hL hf hw hn ht hk hfree fun src' _ _ => hD src'

private lemma nwp_filewriteFrom_dev {D : (ℕ → Block) → Prop} {turns : ℕ} {src : List UInt8}
    (h : s.Holds t σ hold ∅ 0) (hf : (t.file f).type = .inode) (hn : σ (t.inum f) = some n)
    (ht : n.type = T_DEV) (hD : L.Durable D σ) :
    nwp L D (filewriteFrom f turns src)
      (fun _ s' => ∃ off, s'.Holds (t.seek f off) σ hold ∅ 0) s := by
  have hsame : ∀ {t : Table} {s' : Fs}, s'.Holds t σ hold ∅ 0 →
      ∃ off, s'.Holds (t.seek f off) σ hold ∅ 0 := fun {t _} h' =>
    ⟨(t.file f).off, by rwa [Table.seek_self]⟩
  induction turns generalizing src s t with
  | zero => exact nwp_ret (hsame h)
  | succ turns ih =>
    by_cases hnil : src = []
    · subst hnil
      exact nwp_ret (hsame h)
    refine nwp_filewriteTurn h hf hn hnil (nwp_mono (nwp_writei_dev (h.has_file hf hn) ht) ?_)
    rintro r s' ⟨hr, output, rfl⟩
    refine ⟨∅, 0, σ, { h with }, hD, hr.imp (fun hr => ⟨hr, fun _ => hsame⟩) fun hr =>
      ⟨hr, fun s₁ h₁ => ?_⟩⟩
    refine nwp_mono (ih h₁ (Table.file_seek.1.trans hf) ?_) ?_
    · rwa [Table.file_seek.2.2.2]
    · rintro b s₂ ⟨off, h₂⟩
      rw [Table.seek_seek] at h₂
      exact ⟨off, h₂⟩

lemma nwp_filewrite_refused {D : (ℕ → Block) → Prop} {src : List UInt8} (h : s.Holds t σ hold M d)
    (hw : (t.file f).writable = false) :
    nwp L D (filewrite f src) (fun r s' => r = none ∧ s' = s) s := by
  refine nwp_readFile ?_
  rw [h.file, if_pos hw]
  exact nwp_ret ⟨rfl, rfl⟩

/-- **`filewrite(f, addr, n)`** of a device. -/
lemma nwp_filewrite_dev {D : (ℕ → Block) → Prop} {src : List UInt8} (h : s.Holds t σ hold ∅ 0)
    (hf : (t.file f).type = .inode) (hw : (t.file f).writable = true) (hn : σ (t.inum f) = some n)
    (ht : n.type = T_DEV) (hD : L.Durable D σ) :
    nwp L D (filewrite f src) (fun _ s' => ∃ off, s'.Holds (t.seek f off) σ hold ∅ 0) s := by
  refine nwp_readFile ?_
  rw [h.file, if_neg (by simp [hw]), if_pos hf]
  refine nwp_seq (nwp_filewriteFrom_dev h hf hn ht hD) ?_
  rintro (_ | _) s' h'
  · exact nwp_ret h'
  · exact nwp_ret h'

lemma length_le_writeAt (n : Node) (off : ℕ) (src : List UInt8) :
    n.data.length ≤ (n.writeAt off src).data.length := by
  simp only [Node.writeAt, overlay, List.length_append, List.length_take, List.length_drop]
  omega

lemma off_add_written_le {off k : ℕ} {src : List UInt8} (h : off ≤ n.data.length)
    (hk : k ≤ src.length) : off + k ≤ (n.writeAt off (src.take k)).data.length := by
  rw [Node.writeAt, length_overlay h, List.length_take, Nat.min_eq_left hk]
  exact le_max_right _ _

lemma Steady.write {off : ℕ} (h : Steady L t σ hold) (hf : (t.file f).type = .inode)
    (hw : (t.file f).writable = true) (hn : σ (t.inum f) = some n) (src : List UInt8) :
    Steady L t (Function.update σ (t.inum f) (some (n.writeAt off src))) hold := by
  refine h.grows (h.tree.keep (Nodes.keeps_data hn (h.writable f n hf hw hn) _)) fun j m hm => ?_
  by_cases hj : j = t.inum f
  · obtain rfl := Option.some.inj (hn.symm.trans (hj ▸ hm))
    exact Or.inl ⟨n.writeAt off src, by rw [hj, Function.update_self], rfl,
      length_le_writeAt n off src⟩
  · exact Or.inl ⟨m, (Function.update_of_ne hj _ _).trans hm, rfl, le_rfl⟩

lemma Quiet.write {off : ℕ} (h : Quiet L O t σ hold) (hf : (t.file f).type = .inode)
    (hw : (t.file f).writable = true) (hn : σ (t.inum f) = some n) (src : List UInt8) :
    Quiet L O t (Function.update σ (t.inum f) (some (n.writeAt off src))) hold := by
  refine ⟨h.toSteady.write hf hw hn src, fun hn' hz => ?_⟩
  obtain ⟨m, hm, -, hnl, -⟩ := (Nodes.keeps_data hn (h.writable f n hf hw hn) _).back hn'
  exact h.orphan hm (hnl ▸ hz)

lemma nwp_filewrite [L.Scarce] {src : List UInt8} (h : s.Holds t σ hold ∅ 0)
    (hq : Quiet L O t σ hold) (hL : L.Room MAXOPBLOCKS) (hf : (t.file f).type = .inode) :
    nwp L (L.OnDisk (L.Safe O)) (filewrite f src) (fun _ s' => ∃ off σ',
      s'.Holds (t.seek f off) σ' hold ∅ 0 ∧ Quiet L O (t.seek f off) σ' hold) s := by
  obtain ⟨n, hn⟩ := hq.live f hf
  by_cases hw : (t.file f).writable = false
  · refine nwp_mono (nwp_filewrite_refused h hw) ?_
    rintro r s' ⟨-, rfl⟩
    refine ⟨(t.file f).off, σ, ?_⟩
    rw [Table.seek_self]
    exact ⟨h, hq⟩
  rw [Bool.not_eq_false] at hw
  by_cases ht : n.type = T_DEV
  · refine nwp_mono (nwp_filewrite_dev h hf hw hn ht hq.durable) ?_
    rintro r s' ⟨off, h'⟩
    exact ⟨off, σ, h', hq.seek fun n' hn' ht' =>
      absurd (Option.some.inj (hn.symm.trans hn') ▸ ht) ht'⟩
  · refine nwp_mono (nwp_filewrite_file h hL hf hw hn ht rfl (Or.inl Layout.Scarce.scarce)
      fun src' => (hq.write hf hw hn src').durable) ?_
    rintro r s' ⟨-, h'⟩
    refine ⟨_, _, h', (hq.write hf hw hn _).seek fun n' hn' _ => ?_⟩
    rw [Function.update_self] at hn'
    obtain rfl := Option.some.inj hn'
    exact off_add_written_le (hq.offset f n hf hn ht) written_le

end

end Xv6
