import Xv6.Fs.Dir
import Mathlib.Data.Fintype.Basic
import Mathlib.Data.Finset.Filter

/-!
# References and paths

Every reference to an inode has a holder: an open file, a process whose working directory it is,
or the operation that runs.  `Fs.Holds t σ hold M d s` says of the state `s` in the middle of an
operation that its nodes are `σ`, its open files are those of the table `t`, and the references that
are not theirs are the ones listed in `hold`, so that the counts of the inode cache come out; the
operation has logged only blocks of `M` and no more than `d` others.  The rules for `iget`, `iread`
and `iput` add to the list, note what has been read, and take from it.

`σ.walk` follows a path on the nodes.  `namex` computes it, and keeps one reference on the way.
-/

namespace Xv6

open Lib

/-! ## Holders -/

/-- A reference to an inode, and whether its holder has passed it to `iread`. -/
structure Ref where
  ip : Fin NINODE
  inum : ℕ
  read : Bool
  deriving DecidableEq

/-- The file table, and the inode number of every open file. -/
structure Table where
  file : Fin NFILE → File
  inum : Fin NFILE → ℕ

/-- How many open files refer to an entry of the inode cache. -/
def Table.refs (t : Table) (ip : Fin NINODE) : ℕ :=
  (Finset.univ.filter fun f => (t.file f).type = .inode ∧ (t.file f).ip = ip).card

/-- How many of the listed references are to an entry of the inode cache. -/
def refsTo (hold : List Ref) (ip : Fin NINODE) : ℕ := hold.countP fun r => r.ip = ip

/-- The entries of the inode cache in use. -/
def entriesUsed (t : Table) (hold : List Ref) : Finset (Fin NINODE) :=
  Finset.univ.filter fun ip => 0 < t.refs ip + refsTo hold ip

/-- The state in the middle of an operation.  The nodes are `σ`, the open files those of `t`, and
the counts of the inode cache add up: the references of the open files, and those that the operation
and the working directories have (`hold`).  A reference notes whether the inode has been read
since. -/
structure Fs.Holds (t : Table) (σ : Nodes) (hold : List Ref) (M : Finset ℕ) (d : ℕ) (s : Fs) :
    Prop where
  node : s.node = σ
  stale : s.stale = ∅
  file : s.ft = t.file
  ref : ∀ ip, (s.ic ip).ref = t.refs ip + refsTo hold ip
  inum : ∀ r ∈ hold, (s.ic r.ip).inum = r.inum
  read : ∀ r ∈ hold, r.read = true → (s.ic r.ip).valid = true
  fileInum : ∀ f, (t.file f).type = .inode → (s.ic (t.file f).ip).inum = t.inum f
  fileRead : ∀ f, (t.file f).type = .inode → (s.ic (t.file f).ip).valid = true
  metas : s.metas ⊆ M
  datas : s.datas ≤ d

lemma refsTo_cons (r : Ref) (hold : List Ref) (ip : Fin NINODE) :
    refsTo (r :: hold) ip = refsTo hold ip + if r.ip = ip then 1 else 0 := by
  simp [refsTo, List.countP_cons]

lemma refsTo_pos {hold : List Ref} {r : Ref} (hr : r ∈ hold) : 0 < refsTo hold r.ip :=
  List.countP_pos_iff.mpr ⟨r, hr, by simp⟩

lemma card_entriesUsed_cons (t : Table) (r : Ref) (hold : List Ref) :
    (entriesUsed t (r :: hold)).card ≤ (entriesUsed t hold).card + 1 := by
  refine (Finset.card_le_card (t := insert r.ip (entriesUsed t hold)) fun ip hip => ?_).trans
    (Finset.card_insert_le _ _)
  simp only [entriesUsed, Finset.mem_filter, Finset.mem_univ, true_and, refsTo_cons,
    Finset.mem_insert] at hip ⊢
  by_cases he : r.ip = ip
  · exact Or.inl he.symm
  · rw [if_neg he] at hip
    exact Or.inr hip

lemma Table.refs_pos {t : Table} {f : Fin NFILE} (hf : (t.file f).type = .inode) :
    0 < t.refs (t.file f).ip :=
  Finset.card_pos.mpr ⟨f, by simp [hf]⟩

section

variable {α : Type} {L : Layout} {D : (ℕ → Block) → Prop} {Q : α → Fs → Prop}
  {s s' : Fs} {t : Table}
  {σ σ' : Nodes} {hold hold' : List Ref} {M M' : Finset ℕ} {d d' i : ℕ} {n n' : Node}
  {ip : Fin NINODE} {r : Ref} {b : Bool}

namespace Fs.Holds

lemma isAt (h : s.Holds t σ hold M d) (hr : r ∈ hold) : s.At r.ip r.inum := by
  refine ⟨?_, h.inum r hr⟩
  rw [h.ref]
  exact Nat.add_pos_right _ (refsTo_pos hr)

lemma has (h : s.Holds t σ hold M d) (hr : r ∈ hold) (hread : r.read = true)
    (hn : σ r.inum = some n) : s.Has r.ip r.inum n :=
  ⟨h.isAt hr, h.read r hr hread, h.node ▸ hn⟩

lemma exists_unused (h : s.Holds t σ hold M d) (hfree : (entriesUsed t hold).card < NINODE) :
    ∃ ip, (s.ic ip).ref = 0 := by
  obtain ⟨ip, -, hip⟩ := Finset.exists_mem_notMem_of_card_lt_card
    (hfree.trans_eq (Finset.card_univ.trans (Fintype.card_fin NINODE)).symm)
  refine ⟨ip, ?_⟩
  rw [h.ref]
  simpa [entriesUsed] using hip

lemma canGet (h : s.Holds t σ hold M d) (hfree : (entriesUsed t hold).card < NINODE) (i : ℕ) :
    s.CanGet i := by
  obtain ⟨ip, hip⟩ := h.exists_unused hfree
  exact ⟨ip, Or.inr hip⟩

lemma not_stale (h : s.Holds t σ hold M d) (i : ℕ) : i ∉ s.stale := by
  rw [h.stale]
  exact Finset.notMem_empty i

lemma perm (h : s.Holds t σ hold M d) (hp : hold.Perm hold') : s.Holds t σ hold' M d where
  node := h.node
  stale := h.stale
  file := h.file
  ref ip := by
    rw [h.ref, refsTo, refsTo, hp.countP_eq]
  inum r hr := h.inum r (hp.mem_iff.mpr hr)
  read r hr := h.read r (hp.mem_iff.mpr hr)
  fileInum := h.fileInum
  fileRead := h.fileRead
  metas := h.metas
  datas := h.datas

lemma swap {r' : Ref} (h : s.Holds t σ (r :: r' :: hold) M d) :
    s.Holds t σ (r' :: r :: hold) M d :=
  h.perm (.swap r' r hold)

lemma mono (h : s.Holds t σ hold M d) (hM : M ⊆ M') (hd : d ≤ d') : s.Holds t σ hold M' d' :=
  { h with metas := h.metas.trans hM, datas := h.datas.trans hd }

lemma setEntry {e : Entry} (h : s.Holds t σ hold M d)
    (href : e.ref = t.refs ip + refsTo hold' ip)
    (hother : ∀ jp, jp ≠ ip → refsTo hold' jp = refsTo hold jp)
    (hsub : ∀ r ∈ hold', r.ip ≠ ip → r ∈ hold)
    (hmine : ∀ r ∈ hold', r.ip = ip → e.inum = r.inum ∧ (r.read = true → e.valid = true))
    (hfile : ∀ f, (t.file f).type = .inode → (t.file f).ip = ip →
      e.inum = (s.ic ip).inum ∧ ((s.ic ip).valid = true → e.valid = true)) :
    (s.setEntry ip e).Holds t σ hold' M d where
  node := h.node
  stale := h.stale
  file := h.file
  ref jp := by
    by_cases hjp : jp = ip
    · rw [hjp]
      simpa [Fs.setEntry] using href
    · simp only [Fs.setEntry, Function.update_of_ne hjp]
      rw [h.ref, hother jp hjp]
  inum r hr := by
    by_cases hrip : r.ip = ip
    · simpa [Fs.setEntry, hrip] using (hmine r hr hrip).1
    · simpa [Fs.setEntry, Function.update_of_ne hrip] using h.inum r (hsub r hr hrip)
  read r hr hread := by
    by_cases hrip : r.ip = ip
    · simpa [Fs.setEntry, hrip] using (hmine r hr hrip).2 hread
    · simpa [Fs.setEntry, Function.update_of_ne hrip] using h.read r (hsub r hr hrip) hread
  fileInum f hf := by
    by_cases hfip : (t.file f).ip = ip
    · have := h.fileInum f hf
      rw [hfip, ← (hfile f hf hfip).1] at this
      simpa [Fs.setEntry, hfip] using this
    · simpa [Fs.setEntry, Function.update_of_ne hfip] using h.fileInum f hf
  fileRead f hf := by
    by_cases hfip : (t.file f).ip = ip
    · have := h.fileRead f hf
      rw [hfip] at this
      simpa [Fs.setEntry, hfip] using (hfile f hf hfip).2 this
    · simpa [Fs.setEntry, Function.update_of_ne hfip] using h.fileRead f hf
  metas := h.metas
  datas := h.datas

lemma eq_zero (h : s.Holds t σ hold M d) (hz : (s.ic ip).ref = 0) :
    t.refs ip = 0 ∧ refsTo hold ip = 0 := by
  rw [h.ref] at hz
  omega

lemma ip_ne_of_zero (h : s.Holds t σ hold M d) (hz : (s.ic ip).ref = 0) (hr : r ∈ hold) :
    r.ip ≠ ip := by
  rintro rfl
  exact (refsTo_pos hr).ne' (h.eq_zero hz).2

lemma file_ne_of_zero (h : s.Holds t σ hold M d) (hz : (s.ic ip).ref = 0) {f : Fin NFILE}
    (hf : (t.file f).type = .inode) : (t.file f).ip ≠ ip := by
  rintro rfl
  exact (Table.refs_pos hf).ne' (h.eq_zero hz).1

lemma fresh (h : s.Holds t σ hold M d) (hz : (s.ic ip).ref = 0) :
    (s.setEntry ip ⟨i, 1, false⟩).Holds t σ (⟨ip, i, false⟩ :: hold) M d := by
  refine h.setEntry ?_ (fun jp hjp => ?_) (fun r hr hrip => ?_) (fun r hr hrip => ?_)
    fun f hf hfip =>
    absurd hfip (h.file_ne_of_zero hz hf)
  · have := h.eq_zero hz
    rw [refsTo_cons, if_pos rfl, this.1, this.2]
  · rw [refsTo_cons, if_neg (Ne.symm hjp), Nat.add_zero]
  · rcases List.mem_cons.mp hr with rfl | hr
    · exact absurd rfl hrip
    · exact hr
  · rcases List.mem_cons.mp hr with rfl | hr
    · exact ⟨rfl, fun hread => nomatch hread⟩
    · exact absurd hrip (h.ip_ne_of_zero hz hr)

lemma gets (h : s.Holds t σ hold M d) (hg : s.Gets i ip s') :
    s'.Holds t σ (⟨ip, i, false⟩ :: hold) M d := by
  cases hg with
  | hit ha =>
    refine h.setEntry ?_ (fun jp hjp => ?_) (fun r hr hrip => ?_) (fun r hr hrip => ?_) fun f _ _ =>
      ⟨rfl, id⟩
    · show (s.ic ip).ref + 1 = _
      rw [refsTo_cons, if_pos rfl, h.ref]
      omega
    · rw [refsTo_cons, if_neg (Ne.symm hjp), Nat.add_zero]
    · rcases List.mem_cons.mp hr with rfl | hr
      · exact absurd rfl hrip
      · exact hr
    · rcases List.mem_cons.mp hr with rfl | hr
      · exact ⟨ha.2, fun hread => nomatch hread⟩
      · exact ⟨hrip ▸ h.inum r hr, fun hread => hrip ▸ h.read r hr hread⟩
  | fresh hz _ => exact h.fresh hz

lemma marked (h : s.Holds t σ (⟨ip, i, b⟩ :: hold) M d) :
    (s.setEntry ip { s.ic ip with valid := true }).Holds t σ (⟨ip, i, true⟩ :: hold) M d := by
  refine h.setEntry ?_ (fun jp _ => ?_) (fun r hr hrip => ?_) (fun r hr hrip => ⟨?_, fun _ => rfl⟩)
    fun f _ _ => ⟨rfl, fun _ => rfl⟩
  · rw [refsTo_cons]
    exact (h.ref ip).trans (by rw [refsTo_cons])
  · rw [refsTo_cons, refsTo_cons]
  · rcases List.mem_cons.mp hr with rfl | hr
    · exact absurd rfl hrip
    · exact List.mem_cons_of_mem _ hr
  · rcases List.mem_cons.mp hr with rfl | hr
    · exact h.inum _ (List.mem_cons_self ..)
    · exact hrip ▸ h.inum r (List.mem_cons_of_mem _ hr)

lemma dropped (h : s.Holds t σ (r :: hold) M d) :
    (s.setEntry r.ip { s.ic r.ip with ref := (s.ic r.ip).ref - 1 }).Holds t σ hold M d := by
  refine h.setEntry ?_ (fun jp hjp => ?_) (fun x hx _ => List.mem_cons_of_mem _ hx)
    (fun x hx hxip => ⟨?_, fun hread => ?_⟩) fun f _ _ => ⟨rfl, id⟩
  · have := h.ref r.ip
    rw [refsTo_cons, if_pos rfl] at this
    simp only [this]
    omega
  · rw [refsTo_cons, if_neg (Ne.symm hjp), Nat.add_zero]
  · exact hxip ▸ h.inum x (List.mem_cons_of_mem _ hx)
  · exact hxip ▸ h.read x (List.mem_cons_of_mem _ hx) hread

lemma change (h : s.Holds t σ hold M d) {N : Finset ℕ} {k : ℕ} (hN : N ⊆ M) :
    ({ s.logs N k with node := σ' } : Fs).Holds t σ' hold M (d + k) :=
  { h with
    node := rfl
    metas := Finset.union_subset h.metas hN
    datas := Nat.add_le_add_right h.datas k }

lemma room (h : s.Holds t σ hold M d) {N : Finset ℕ} {k : ℕ} (hN : N ⊆ M)
    (hroom : L.Room (M.card + (d + k))) : L.Room ((s.metas ∪ N).card + (s.datas + k)) :=
  hroom.mono (Nat.add_le_add (Finset.card_le_card (Finset.union_subset h.metas hN))
    (Nat.add_le_add_right h.datas k))

end Fs.Holds

/-! ## Rules for references -/

lemma nwp_get {f : Fin NINODE → K α} (h : s.Holds t σ hold M d) (hn : σ i = some n)
    (hfree : L.scarce ∨ (entriesUsed t hold).card < NINODE)
    (hf : ∀ ip s', s'.Holds t σ (⟨ip, i, false⟩ :: hold) M d → nwp L D (f ip) Q s') :
    nwp L D (iget ROOTDEV i >>= f) Q s :=
  nwp_iget (h.node ▸ hn) (hfree.imp_right fun hlt => h.canGet hlt i) fun ip s' hg =>
    hf ip s' (h.gets hg)

lemma nwp_read (h : s.Holds t σ (⟨ip, i, b⟩ :: hold) M d) (hn : σ i = some n) :
    nwp L D (iread ip) (fun _ s' => s'.Holds t σ (⟨ip, i, true⟩ :: hold) M d) s := by
  refine nwp_mono (nwp_iread (h.isAt (List.mem_cons_self ..)) (h.node ▸ hn)
    (Or.inl (h.not_stale i))) ?_
  rintro - s' rfl
  exact h.marked

lemma nwp_drop (h : s.Holds t σ (r :: hold) M d) (hn : σ r.inum = some n) (hl : 0 < n.nlink) :
    nwp L D (iput r.ip) (fun _ s' => s'.Holds t σ hold M d) s := by
  refine nwp_mono (nwp_iput_drop (h.isAt (List.mem_cons_self ..)) (h.node ▸ hn)
    fun _ hz => absurd hz hl.ne') ?_
  rintro - s' rfl
  exact h.dropped

/-! ## Paths -/

/-- The directories that can be reached are whole, and what they name is in use. -/
structure Nodes.Linked (σ : Nodes) : Prop where
  root : ∃ n, σ ROOTINO = some n ∧ n.type = T_DIR ∧ 0 < n.nlink
  dir : ∀ {i n}, σ i = some n → n.type = T_DIR → 0 < n.nlink → n.IsDir ∧
    ∀ e ∈ n.entries, e.inum ≠ 0 → ∃ n', σ e.inum = some n' ∧ 0 < n'.nlink

/-- The entry of a directory with the name. -/
def Node.find (n : Node) (name : Name) : Option Dirent :=
  (findName name n.entries).bind fun k => n.entries[k]?

/-- The way of `namex` on the nodes: the node at which it ends, and the name left over. -/
def Nodes.walk (σ : Nodes) (nameiparent : Bool) : ℕ → List UInt8 → Name → ℕ → Option (ℕ × Name)
  | 0, _, _, _ => none
  | turns + 1, path, name, i =>
    match skipelem path name with
    | none => if nameiparent then none else some (i, name)
    | some (name, path) =>
      (σ i).bind fun n =>
        if n.type ≠ T_DIR then none
        else if nameiparent ∧ path = [] then some (i, name)
        else (n.find name).bind fun e => σ.walk nameiparent turns path name e.inum

/-- The node that a path names. -/
def Nodes.resolve (σ : Nodes) (path : CString) : Option ℕ :=
  (σ.walk false (path.bytes.length + 1) path.bytes Bytes.zero ROOTINO).map Prod.fst

/-- The directory that holds the last element of a path, and that element. -/
def Nodes.parent (σ : Nodes) (path : CString) : Option (ℕ × Name) :=
  σ.walk true (path.bytes.length + 1) path.bytes Bytes.zero ROOTINO

lemma Nodes.Linked.walk (h : σ.Linked) {np : Bool} {turns : ℕ} {path : List UInt8}
    {name name' : Name} {j : ℕ} (hn : σ i = some n) (hl : 0 < n.nlink)
    (hw : σ.walk np turns path name i = some (j, name')) :
    ∃ m, σ j = some m ∧ 0 < m.nlink ∧ (np = true → m.type = T_DIR) := by
  induction turns generalizing path name i n with
  | zero => cases hw
  | succ turns ih =>
    rw [Nodes.walk] at hw
    cases hs : skipelem path name with
    | none =>
      simp only [hs] at hw
      split_ifs at hw with hnp
      obtain ⟨rfl, -⟩ := Prod.mk.inj (Option.some.inj hw)
      exact ⟨n, hn, hl, fun h => absurd h hnp⟩
    | some q =>
      obtain ⟨name₁, path₁⟩ := q
      simp only [hs, hn, Option.bind_some] at hw
      split_ifs at hw with ht hlast
      · obtain ⟨rfl, -⟩ := Prod.mk.inj (Option.some.inj hw)
        exact ⟨n, hn, hl, fun _ => not_not.mp ht⟩
      · obtain ⟨e, he, hw⟩ := Option.bind_eq_some_iff.mp hw
        obtain ⟨k, hk, he⟩ := Option.bind_eq_some_iff.mp he
        obtain ⟨e', he', hm⟩ := findName_eq_some hk
        obtain rfl := Option.some.inj (he.symm.trans he')
        obtain ⟨n', hn', hl'⟩ :=
          (h.dir hn (not_not.mp ht) hl).2 e (List.mem_of_getElem? he) hm.1
        exact ih hn' hl' hw

lemma Nodes.Linked.resolve (h : σ.Linked) {path : CString} (hr : σ.resolve path = some i) :
    ∃ n, σ i = some n ∧ 0 < n.nlink := by
  obtain ⟨⟨j, name⟩, hw, rfl⟩ := Option.map_eq_some_iff.mp hr
  obtain ⟨n, hn, -, hl⟩ := h.root
  obtain ⟨m, hm, hl', -⟩ := h.walk hn hl hw
  exact ⟨m, hm, hl'⟩

lemma Nodes.Linked.parent (h : σ.Linked) {path : CString} {name : Name}
    (hr : σ.parent path = some (i, name)) : ∃ n, σ i = some n ∧ 0 < n.nlink ∧ n.type = T_DIR := by
  obtain ⟨n, hn, -, hl⟩ := h.root
  obtain ⟨m, hm, hl', ht⟩ := h.walk hn hl hr
  exact ⟨m, hm, hl', ht rfl⟩

lemma length_skipelem {path path' : List UInt8} {name name' : Name}
    (h : skipelem path name = some (name', path')) : path'.length < path.length := by
  rw [skipelem] at h
  cases hs : path.dropWhile (· = slash) with
  | nil => simp [hs] at h
  | cons c rest =>
    simp only [hs] at h
    obtain ⟨-, rfl⟩ := Prod.mk.inj (Option.some.inj h)
    have hc : c ≠ slash := by
      have := List.head?_dropWhile_not (fun c => decide (c = slash)) path
      rw [hs] at this
      simpa using this
    have h₁ : (c :: rest).length ≤ path.length := hs ▸ (List.dropWhile_sublist _).length_le
    rw [List.dropWhile_cons_of_pos (by simpa using hc)]
    have h₂ := (List.dropWhile_sublist (l := rest) (· ≠ slash)).length_le
    have h₃ := (List.dropWhile_sublist (l := rest.dropWhile (· ≠ slash)) (· = slash)).length_le
    simp only [List.length_cons] at h₁
    exact (h₃.trans h₂).trans_lt h₁

/-- **`dirlookup`** in a directory whose entries are in use. -/
lemma nwp_lookup {name : Name} (h : s.Holds t σ hold M d) (hr : r ∈ hold) (hread : r.read = true)
    (hσ : σ.Linked) (hn : σ r.inum = some n) (ht : n.type = T_DIR) (hl : 0 < n.nlink)
    (hfree : L.scarce ∨ (entriesUsed t hold).card < NINODE) :
    nwp L D (dirlookup r.ip name) (fun x s' => match x with
      | none => findName name n.entries = none ∧ s'.Holds t σ hold M d
      | some (ip, off) => ∃ k e, findName name n.entries = some k ∧ n.entries[k]? = some e ∧
          off = DIRENTSIZE * k ∧ s'.Holds t σ (⟨ip, e.inum, false⟩ :: hold) M d) s := by
  obtain ⟨hd, hent⟩ := hσ.dir hn ht hl
  refine nwp_mono (nwp_dirlookup (h.has hr hread hn) hd hl fun e he hm => ?_) ?_
  · obtain ⟨n', hn', -⟩ := hent e he hm.1
    refine ⟨?_, hfree.imp_right fun hlt => h.canGet hlt _⟩
    rw [h.node, hn']
    exact Option.some_ne_none _
  · rintro x s' hf
    cases hf with
    | missing hnone => exact ⟨hnone, h⟩
    | found hk he hg => exact ⟨_, _, hk, he, rfl, h.gets hg⟩

private lemma nwp_namexFrom {np : Bool} {turns : ℕ} {path : List UInt8} {name : Name}
    (h : s.Holds t σ (⟨ip, i, b⟩ :: hold) M d) (hσ : σ.Linked) (hn : σ i = some n)
    (hl : 0 < n.nlink) (hturns : path.length < turns)
    (hfree : L.scarce ∨ (entriesUsed t hold).card + 1 < NINODE) :
    nwp L D (namexFrom np turns path name ip) (fun x s' => match x with
      | none => σ.walk np turns path name i = none ∧ s'.Holds t σ hold M d
      | some (jp, name') => ∃ j c, σ.walk np turns path name i = some (j, name') ∧
          (np = true → c = true) ∧ s'.Holds t σ (⟨jp, j, c⟩ :: hold) M d) s := by
  -- one turn for each element, and each element takes a byte of the path
  induction turns generalizing path name i n ip b s with
  | zero => exact absurd hturns (Nat.not_lt_zero _)
  | succ turns ih =>
    rw [namexFrom, Nodes.walk]
    cases hs : skipelem path name with
    | none =>
      simp only []
      cases np with
      | true =>
        refine nwp_seq (nwp_drop h hn hl) fun _ s' h' => nwp_ret ?_
        exact ⟨rfl, h'⟩
      | false => exact nwp_ret ⟨i, b, rfl, fun hnp => (nomatch hnp), h⟩
    | some q =>
      obtain ⟨name₁, path₁⟩ := q
      simp only [hn, Option.bind_some]
      refine nwp_seq (nwp_read h hn) fun _ s₁ h₁ => ?_
      refine nwp_readInode (h₁.has (List.mem_cons_self ..) rfl hn) fun x hx => ?_
      rw [hx.type]
      by_cases ht : n.type = T_DIR
      · rw [if_neg (not_not.mpr ht), if_neg (not_not.mpr ht)]
        split_ifs with hlast
        · exact nwp_ret ⟨i, true, rfl, fun _ => rfl, h₁⟩
        -- here two references are held, to the directory and to what was found in it
        · refine nwp_seq (nwp_lookup h₁ (List.mem_cons_self ..) rfl hσ hn ht hl (hfree.imp_right
            ((card_entriesUsed_cons t _ hold).trans_lt))) fun y s₂ hy => ?_
          cases y with
          | none =>
            obtain ⟨hnone, h₂⟩ := hy
            refine nwp_seq (nwp_drop h₂ hn hl) fun _ s₃ h₃ => nwp_ret ⟨?_, h₃⟩
            rw [Node.find, hnone]
            rfl
          | some z =>
            obtain ⟨next, off⟩ := z
            obtain ⟨k, e, hk, he, -, h₂⟩ := hy
            obtain ⟨e', he', hm⟩ := findName_eq_some hk
            obtain rfl := Option.some.inj (he.symm.trans he')
            obtain ⟨n', hn', hl'⟩ := (hσ.dir hn ht hl).2 e (List.mem_of_getElem? he) hm.1
            have hfind : n.find name₁ = some e := by rw [Node.find, hk, Option.bind_some, he]
            refine nwp_seq (nwp_drop h₂.swap hn hl) fun _ s₃ h₃ => ?_
            rw [hfind, Option.bind_some]
            exact ih h₃ hn' hl' ((length_skipelem hs).trans_le (Nat.lt_succ_iff.mp hturns))
      · rw [if_pos ht, if_pos ht]
        exact nwp_seq (nwp_drop h₁ hn hl) fun _ s₂ h₂ => nwp_ret ⟨rfl, h₂⟩

private lemma nwp_namex {np : Bool} {path : CString} (h : s.Holds t σ hold M d) (hσ : σ.Linked)
    (hfree : L.scarce ∨ (entriesUsed t hold).card + 1 < NINODE) :
    nwp L D (namex path np) (fun x s' => match x with
      | none => σ.walk np (path.bytes.length + 1) path.bytes Bytes.zero ROOTINO = none ∧
          s'.Holds t σ hold M d
      | some (jp, name) => ∃ j c,
          σ.walk np (path.bytes.length + 1) path.bytes Bytes.zero ROOTINO = some (j, name) ∧
          (np = true → c = true) ∧ s'.Holds t σ (⟨jp, j, c⟩ :: hold) M d) s := by
  obtain ⟨n, hn, -, hl⟩ := hσ.root
  exact nwp_get h hn (hfree.imp_right (Nat.lt_succ_self _).trans) fun ip s' h' =>
    nwp_namexFrom h' hσ hn hl (Nat.lt_succ_self _) hfree

lemma nwp_nameiparent (path : CString) (h : s.Holds t σ hold M d) (hσ : σ.Linked)
    (hfree : L.scarce ∨ (entriesUsed t hold).card + 1 < NINODE) :
    nwp L D (nameiparent path) (fun x s' => match x with
      | none => σ.parent path = none ∧ s'.Holds t σ hold M d
      | some (dp, name) => ∃ i, σ.parent path = some (i, name) ∧
          s'.Holds t σ (⟨dp, i, true⟩ :: hold) M d) s := by
  refine nwp_mono (nwp_namex h hσ hfree) ?_
  rintro (_ | ⟨dp, name⟩) s' hx
  · exact hx
  · obtain ⟨j, c, hw, hc, h'⟩ := hx
    exact ⟨j, hw, hc rfl ▸ h'⟩

lemma nwp_namei (path : CString) (h : s.Holds t σ hold M d) (hσ : σ.Linked)
    (hfree : L.scarce ∨ (entriesUsed t hold).card + 1 < NINODE) :
    nwp L D (namei path) (fun x s' => match x with
      | none => σ.resolve path = none ∧ s'.Holds t σ hold M d
      | some ip => ∃ i c, σ.resolve path = some i ∧ s'.Holds t σ (⟨ip, i, c⟩ :: hold) M d) s := by
  refine nwp_seq (nwp_namex h hσ hfree) ?_
  rintro (_ | ⟨ip, name⟩) s' hx
  · obtain ⟨hw, h'⟩ := hx
    exact nwp_ret ⟨by rw [Nodes.resolve, hw]; rfl, h'⟩
  · obtain ⟨j, c, hw, -, h'⟩ := hx
    exact nwp_ret ⟨j, c, by rw [Nodes.resolve, hw]; rfl, h'⟩

end

end Xv6
