import Xv6.Fs.Trunc

/-!
# The file system as a set of nodes

The operations above `fs.c` need not know about blocks.  `Fs` is the state that they see: the files,
directories and devices with their contents (`Node`), the references in the inode cache, the file
table, the console, and how much of the log the current operation has used.

`L.Rep ino s v fm` says that the volume `v` and the memory `fm` represent the state `s`, with the
inodes `ino`.  `nwp L D p Q s` is the specification of code in these terms: from any representation
of `s` the code returns in `Q`, or runs out of resources, and wherever the machine crashes the drive
recovers to contents in `D`; `L.OnDisk P` are the contents that hold nodes in `P`.  There is one
rule for every function that the operations call.

A representation has three parts: the inodes on the volume agree with the free map and have no
holes, the entries of the inode cache show inodes, and the node of each inode is what its dinode and
its blocks hold.  `Layout.Rep.change` is the one lemma by which a function that changes a file
changes the state.  `nwp_kernel`, `nwp_completes` and `nwp_returns` bring a specification back to
the machine.
-/

namespace Xv6

open Lib

/-! ## The state -/

/-- A file, a directory or a device. -/
@[ext] structure Node where
  type : ℤ
  major : ℤ
  minor : ℤ
  nlink : ℤ
  data : List UInt8

/-- The nodes in use, by inode number. -/
abbrev Nodes := ℕ → Option Node

/-- An entry of the inode cache, without the copy of the dinode. -/
structure Entry where
  inum : ℕ
  ref : ℕ
  valid : Bool

/-- The file system, to the operations.  Next to the nodes it has the entries of the inode cache
without the inodes in them, the file table, and an account of the log: what the current operation
may have logged by now, which bounds how much it still may. -/
structure Fs where
  node : Nodes
  /-- Nodes that have been changed in memory and not passed to `iupdate` yet. -/
  stale : Finset ℕ
  ic : Fin NINODE → Entry
  ft : Fin NFILE → File
  input : List UInt8
  output : List UInt8
  /-- Metadata blocks that may have been logged in the current operation. -/
  metas : Finset ℕ
  /-- How many other blocks may have been logged. -/
  datas : ℕ

/-- What the kernel sees of an inode. -/
def Dinode.node (blk : ℕ → Block) (d : Dinode) : Node :=
  ⟨d.type, d.major, d.minor, d.nlink, d.content blk⟩

/-- The lengths of the files. -/
def Nodes.len (σ : Nodes) (i : ℕ) : Option ℕ := (σ i).map fun n => n.data.length

/-- There are blocks for a file of length `m` that grows to length `m'`. -/
def Layout.Spare (L : Layout) (σ : Nodes) (m m' : ℕ) : Prop :=
  L.taken σ.len + occupied (nblocks (max m m')) ≤ L.sb.size - L.datastart + occupied (nblocks m)

lemma Layout.taken_update {L : Layout} {σ : Nodes} {i : ℕ} {n : Node} (n' : Node)
    (hi : i < L.sb.ninodes) (hn : σ i = some n) :
    L.taken (Nodes.len (Function.update σ i (some n'))) + occupied (nblocks n.data.length) =
      L.taken σ.len + occupied (nblocks n'.data.length) := by
  have hmem : i ∈ Finset.range L.sb.ninodes := Finset.mem_range.mpr hi
  have hrest : ∀ j ∈ (Finset.range L.sb.ninodes).erase i,
      Nodes.len (Function.update σ i (some n')) j = σ.len j := fun j hj => by
    rw [Nodes.len, Nodes.len, Function.update_of_ne (Finset.ne_of_mem_erase hj)]
  rw [Layout.taken, Layout.taken, ← Finset.add_sum_erase _ _ hmem, ← Finset.add_sum_erase _ _ hmem,
    Finset.sum_congr rfl fun j hj => by rw [hrest j hj]]
  simp only [Nodes.len, Function.update_self, hn, Option.map_some, Option.elim_some]
  omega

lemma Layout.Spare.mono {L : Layout} {σ : Nodes} {m e e' : ℕ} (h : L.Spare σ m e) (he : e' ≤ e) :
    L.Spare σ m e' := by
  have hocc : occupied (nblocks (max m e')) ≤ occupied (nblocks (max m e)) :=
    occupied_mono (nblocks_mono (max_le_max_left m he))
  rw [Layout.Spare] at h ⊢
  omega

lemma Layout.Spare.update {L : Layout} {σ : Nodes} {i e : ℕ} {n : Node} (n' : Node)
    (h : L.Spare σ n.data.length e) (hi : i < L.sb.ninodes) (hn : σ i = some n)
    (hle : n.data.length ≤ n'.data.length) (hle' : n'.data.length ≤ max n.data.length e) :
    L.Spare (Function.update σ i (some n')) n'.data.length e := by
  have hcount := L.taken_update n' hi hn
  have hmax : max n'.data.length e = max n.data.length e := by omega
  rw [Layout.Spare] at h ⊢
  rw [hmax]
  omega

lemma Layout.taken_blank {L : Layout} {σ : Nodes} {i : ℕ} {n : Node} (hi : σ i = none)
    (hn : n.data = []) : L.taken (Nodes.len (Function.update σ i (some n))) = L.taken σ.len := by
  refine Finset.sum_congr rfl fun j _ => ?_
  by_cases hj : j = i
  · subst hj
    simp [Nodes.len, hi, hn, occupied]
  · rw [Nodes.len, Nodes.len, Function.update_of_ne hj]

lemma Layout.Spare.new {L : Layout} {σ : Nodes} {i m e : ℕ} {n : Node} (h : L.Spare σ m e)
    (hi : σ i = none) (hn : n.data = []) : L.Spare (Function.update σ i (some n)) m e := by
  rwa [Layout.Spare, L.taken_blank hi hn]

/-- The inode, if it is in use. -/
def Dinode.live (d : Dinode) : Option Dinode := if d.type = 0 then none else some d

namespace Fs

/-- `ip` is a reference to the inode `i`. -/
def At (s : Fs) (ip : Fin NINODE) (i : ℕ) : Prop := 0 < (s.ic ip).ref ∧ (s.ic ip).inum = i

/-- `ip` is a reference to the inode `i`, which has been read and holds the node `n`. -/
structure Has (s : Fs) (ip : Fin NINODE) (i : ℕ) (n : Node) : Prop where
  isAt : s.At ip i
  valid : (s.ic ip).valid = true
  node : s.node i = some n

/-- `iget(dev, i)` finds an entry of the inode cache. -/
def CanGet (s : Fs) (i : ℕ) : Prop := ∃ ip, s.At ip i ∨ (s.ic ip).ref = 0

/-- A node changes in memory. -/
def setNode (s : Fs) (i : ℕ) (n : Node) : Fs :=
  { s with node := Function.update s.node i (some n), stale := insert i s.stale }

/-- An entry of the inode cache changes. -/
def setEntry (s : Fs) (ip : Fin NINODE) (e : Entry) : Fs :=
  { s with ic := Function.update s.ic ip e }

/-- Metadata blocks and others are logged. -/
def logs (s : Fs) (M : Finset ℕ) (n : ℕ) : Fs :=
  { s with metas := s.metas ∪ M, datas := s.datas + n }

end Fs

/-! ## Representation -/

/-- The volume and the memory represent the state. -/
structure Layout.Rep (L : Layout) (ino : Inos) (s : Fs) (v : Vol) (fm : FsMem) : Prop where
  held : v.held = []
  pend : v.pend = ∅
  sb : fm.sb = L.sb
  owns : L.Owns v.blk ino ∅
  full : ∀ {i d}, ino i = some d → d.Full v.blk
  node : ∀ i, s.node i = (ino i).map (Dinode.node v.blk)
  disk : ∀ i < L.sb.ninodes, i ∉ s.stale → (L.dinode v.blk i).live = ino i
  entry : ∀ ip, s.ic ip = ⟨(fm.icache ip).inum, (fm.icache ip).ref, (fm.icache ip).valid⟩
  dev : ∀ {ip}, 0 < (s.ic ip).ref → (fm.icache ip).dev = ROOTDEV
  unique : ∀ {ip jp i}, s.At ip i → s.At jp i → ip = jp
  inuse : ∀ {ip i}, s.At ip i → s.node i ≠ none
  cached : ∀ {ip i}, s.At ip i → (s.ic ip).valid = true → ino i = some (fm.icache ip).din
  ft : s.ft = fm.ftable
  input : s.input = fm.input
  output : s.output = fm.output
  logged : ∃ X : Finset ℕ, X.card ≤ s.datas ∧ v.logged ⊆ s.metas ∪ X

/-- The drive holds nodes in `P`. -/
def Layout.OnDisk (L : Layout) (P : Nodes → Prop) (blk : ℕ → Block) : Prop :=
  ∃ ino, L.Owns blk ino ∅ ∧ (∀ i d, ino i = some d → d.Full blk) ∧
    (∀ i < L.sb.ninodes, (L.dinode blk i).live = ino i) ∧
    P fun i => (ino i).map (Dinode.node blk)

lemma Layout.onDisk_congr (L L' : Layout) (hsb : L'.sb = L.sb) (P : Nodes → Prop) :
    L'.OnDisk P = L.OnDisk P := by
  obtain ⟨sb⟩ := L
  obtain ⟨sb'⟩ := L'
  obtain rfl : sb' = sb := hsb
  funext blk
  refine propext ⟨?_, ?_⟩ <;>
  · rintro ⟨ino, howns, hfull, hlive, hP⟩
    exact ⟨ino, { howns with }, hfull, hlive, hP⟩

/-- The specification of operations of the file system: from every representation of `s` the code
returns with a representation of some state in `Q`, as far as `fwp` promises a return.  The inodes
and blocks of the representation are not seen by whoever uses such a specification. -/
def nwp {α : Type} (L : Layout) (D : (ℕ → Block) → Prop) (p : K α) (Q : α → Fs → Prop) (s : Fs) :
    Prop :=
  ∀ ino v fm, L.Rep ino s v fm →
    fwp L D p (fun r v' fm' => ∃ ino' s', L.Rep ino' s' v' fm' ∧ Q r s') v fm

section

variable {α β : Type} {L : Layout} {D : (ℕ → Block) → Prop} {P : Nodes → Prop}
  {Q Q' : α → Fs → Prop} {s : Fs} {ino : Inos} {v : Vol} {fm : FsMem} {ip : Fin NINODE} {i : ℕ}
  {n : Node}

lemma nwp_ret {r : α} (h : Q r s) : nwp L D (pure r) Q s := fun ino _ _ hr =>
  fwp_ret ⟨ino, s, hr, h⟩

lemma nwp_seq {p : K β} {f : β → K α} {M : β → Fs → Prop} (hp : nwp L D p M s)
    (hf : ∀ r s', M r s' → nwp L D (f r) Q s') : nwp L D (p >>= f) Q s := by
  intro ino v fm hr
  refine fwp_seq (hp ino v fm hr) ?_
  rintro r v' fm' ⟨ino', s', hr', hM⟩
  exact hf r s' hM ino' v' fm' hr'

lemma nwp_mono {p : K α} (hp : nwp L D p Q s) (hQ : ∀ r s', Q r s' → Q' r s') :
    nwp L D p Q' s := by
  intro ino v fm hr
  refine fwp_mono (hp ino v fm hr) ?_
  rintro r v' fm' ⟨ino', s', hr', h⟩
  exact ⟨ino', s', hr', hQ r s' h⟩

lemma nwp_last {p : K α} (hp : nwp L D (p >>= fun r => pure r) Q s) : nwp L D p Q s := by
  rwa [show (p >>= fun r => pure r) = p from Prog.bind_ret' p] at hp

lemma nwp_panic_dirlink (hp : L.Halts (.panic .dirlink)) : nwp L D (panic .dirlink : K α) Q s :=
  fun _ _ _ _ => fwp_panic hp trivial

namespace Layout.Rep

lemma caches (h : L.Rep ino s v fm) (ha : s.At ip i) : fm.Caches ip i := by
  refine ⟨?_, h.dev ha.1, ?_⟩
  · have := ha.1
    rwa [h.entry] at this
  · have := ha.2
    rwa [h.entry] at this

lemma ref_eq (h : L.Rep ino s v fm) (ip : Fin NINODE) : (s.ic ip).ref = (fm.icache ip).ref := by
  rw [h.entry]

lemma valid_eq (h : L.Rep ino s v fm) (ip : Fin NINODE) :
    (s.ic ip).valid = (fm.icache ip).valid := by
  rw [h.entry]

lemma inum_eq (h : L.Rep ino s v fm) (ip : Fin NINODE) :
    (s.ic ip).inum = (fm.icache ip).inum := by
  rw [h.entry]

lemma held_le (h : L.Rep ino s v fm) (k : ℕ) : v.held.length ≤ k := by
  rw [h.held]
  exact Nat.zero_le k

lemma ino_of_node (h : L.Rep ino s v fm) (hn : s.node i = some n) :
    ∃ d, ino i = some d ∧ d.node v.blk = n := by
  rw [h.node] at hn
  exact Option.map_eq_some_iff.mp hn

lemma lt (h : L.Rep ino s v fm) (hn : s.node i = some n) : i < L.sb.ninodes := by
  obtain ⟨d, hd, -⟩ := h.ino_of_node hn
  exact h.owns.lt hd

lemma din (h : L.Rep ino s v fm) (hh : s.Has ip i n) :
    ino i = some (fm.icache ip).din ∧ (fm.icache ip).din.node v.blk = n := by
  have hd := h.cached hh.isAt hh.valid
  have hn := hh.node
  rw [h.node, hd] at hn
  exact ⟨hd, Option.some.inj hn⟩

lemma room (h : L.Rep ino s v fm) {M : Finset ℕ} {m : ℕ}
    (hroom : L.Room ((s.metas ∪ M).card + (s.datas + m))) :
    L.Room ((v.logged ∪ M).card + m) := by
  obtain ⟨X, hX, hsub⟩ := h.logged
  refine hroom.mono ?_
  have hcard : (v.logged ∪ M).card ≤ (s.metas ∪ M).card + s.datas := by
    calc (v.logged ∪ M).card ≤ ((s.metas ∪ M) ∪ X).card := by
          refine Finset.card_le_card (Finset.union_subset (hsub.trans fun x hx => ?_)
            fun x hx => ?_)
          · simp only [Finset.mem_union] at hx ⊢
            tauto
          · simp [hx]
      _ ≤ (s.metas ∪ M).card + X.card := Finset.card_union_le _ _
      _ ≤ _ := Nat.add_le_add_left hX _
  omega

lemma free_add_taken (h : L.Rep ino s v fm) :
    L.free v.blk + L.taken s.node.len = L.sb.size - L.datastart := by
  have hlen : s.node.len = fun i => (ino i).map Dinode.size := funext fun i => by
    rw [Nodes.len, h.node]
    cases ino i with
    | none => rfl
    | some d => simp [Dinode.node]
  rw [hlen]
  exact h.owns.free_add_taken h.full

lemma spare_of_le (h : L.Rep ino s v fm) {m m' : ℕ} (hm : m' ≤ m) : L.Spare s.node m m' := by
  have hcount := h.free_add_taken
  rw [Layout.Spare, max_eq_left hm]
  omega

lemma onDisk (h : L.Rep ino s v fm) (hs : s.stale = ∅) (hP : P s.node) : L.OnDisk P v.blk := by
  refine ⟨ino, h.owns, fun _ _ => h.full, fun i hi => h.disk i hi (by simp [hs]), ?_⟩
  rwa [show (fun i => (ino i).map (Dinode.node v.blk)) = s.node from
    funext fun i => (h.node i).symm]

end Layout.Rep

lemma Vol.Logs.of_logged {v' : Vol} {X : Finset ℕ} {M : Finset ℕ} {m : ℕ} (h : v.Logs v' M m)
    (hX : X.card ≤ s.datas) (hsub : v.logged ⊆ s.metas ∪ X) :
    ∃ X : Finset ℕ, X.card ≤ (s.logs M m).datas ∧ v'.logged ⊆ (s.logs M m).metas ∪ X := by
  obtain ⟨Y, hY, hsub'⟩ := h
  refine ⟨X ∪ Y, (Finset.card_union_le _ _).trans (Nat.add_le_add hX hY), hsub'.trans ?_⟩
  intro x hx
  simp only [Fs.logs, Finset.mem_union] at hx ⊢
  rcases hx with (hx | hx) | hx
  · have := hsub hx
    simp only [Finset.mem_union] at this
    tauto
  · tauto
  · tauto

/-! ## Changes of a representation -/

variable (ip) in
/-- One inode changes, and one entry of the cache, the only one that can refer to it. -/
lemma Layout.Rep.update (h : L.Rep ino s v fm) {w : Vol} {o : Option Dinode} {e : Inode}
    {S M : Finset ℕ} {D : ℕ}
    (howns : L.Owns w.blk (Function.update ino i o) ∅) (hfull : ∀ d ∈ o, d.Full w.blk)
    (hsame : ∀ j d, j ≠ i → ino j = some d → d.Same v.blk w.blk)
    (hdisk : ∀ j < L.sb.ninodes, j ∉ S →
      (L.dinode w.blk j).live = Function.update ino i o j)
    (hheld : w.held = []) (hpend : w.pend = ∅)
    (hlog : ∃ X : Finset ℕ, X.card ≤ D ∧ w.logged ⊆ M ∪ X)
    (hother : ∀ jp ≠ ip, ¬ s.At jp i)
    (he : 0 < e.ref → e.dev = ROOTDEV ∧ e.inum = i ∧ ∃ d, o = some d ∧
      (e.valid = true → e.din = d)) :
    L.Rep (Function.update ino i o) { s with
      node := Function.update s.node i (o.map (Dinode.node w.blk))
      ic := Function.update s.ic ip ⟨e.inum, e.ref, e.valid⟩
      stale := S
      metas := M
      datas := D } w (fm.setInode ip e) := by
  -- what a reference means after the change
  have hat : ∀ {jp j}, (Function.update s.ic ip ⟨e.inum, e.ref, e.valid⟩ jp).inum = j →
      0 < (Function.update s.ic ip ⟨e.inum, e.ref, e.valid⟩ jp).ref →
      (jp = ip ∧ j = i ∧ 0 < e.ref) ∨ (jp ≠ ip ∧ j ≠ i ∧ s.At jp j) := by
    intro jp j hj hpos
    by_cases hjp : jp = ip
    · subst hjp
      simp only [Function.update_self] at hj hpos
      exact Or.inl ⟨rfl, hj ▸ (he hpos).2.1, hpos⟩
    · simp only [Function.update_of_ne hjp] at hj hpos
      have ha : s.At jp j := ⟨hpos, hj⟩
      exact Or.inr ⟨hjp, fun hji => hother jp hjp (hji ▸ ha), ha⟩
  refine
    { held := hheld
      pend := hpend
      sb := h.sb
      owns := howns
      full := fun {j d} hj => ?_
      node := fun j => ?_
      disk := hdisk
      entry := fun jp => ?_
      dev := fun {jp} hpos => ?_
      unique := fun {jp kp j} hjp hkp => ?_
      inuse := fun {jp j} hjp => ?_
      cached := fun {jp j} hjp hvalid => ?_
      ft := h.ft
      input := h.input
      output := h.output
      logged := hlog }
  · by_cases hji : j = i
    · subst hji
      rw [Function.update_self] at hj
      exact hfull d hj
    · rw [Function.update_of_ne hji] at hj
      exact (hsame j d hji hj).full (h.full hj)
  · by_cases hji : j = i
    · subst hji
      simp only [Function.update_self]
    · simp only [Function.update_of_ne hji]
      rw [h.node]
      cases hj : ino j with
      | none => rfl
      | some d =>
        simp only [Option.map_some, Dinode.node, (hsame j d hji hj).content (h.full hj)]
  · by_cases hjp : jp = ip
    · subst hjp
      simp
    · simp only [Function.update_of_ne hjp, FsMem.icache_setInode_of_ne hjp]
      exact h.entry jp
  · by_cases hjp : jp = ip
    · subst hjp
      simp only [Function.update_self] at hpos
      rw [FsMem.icache_setInode_self]
      exact (he hpos).1
    · simp only [Function.update_of_ne hjp] at hpos
      rw [FsMem.icache_setInode_of_ne hjp]
      exact h.dev hpos
  · rcases hat hjp.2 hjp.1 with ⟨rfl, rfl, -⟩ | ⟨-, hne, ha⟩ <;>
      rcases hat hkp.2 hkp.1 with ⟨rfl, he', -⟩ | ⟨-, hne', ha'⟩
    · rfl
    · exact absurd rfl hne'
    · exact absurd he' hne
    · exact h.unique ha ha'
  · rcases hat hjp.2 hjp.1 with ⟨rfl, rfl, hpos⟩ | ⟨-, hne, ha⟩
    · obtain ⟨d, rfl, -⟩ := (he hpos).2.2
      simp
    · simp only [Function.update_of_ne hne]
      exact h.inuse ha
  · rcases hat hjp.2 hjp.1 with ⟨rfl, rfl, hpos⟩ | ⟨hjne, hne, ha⟩
    · obtain ⟨d, rfl, hd⟩ := (he hpos).2.2
      simp only [Function.update_self] at hvalid
      rw [Function.update_self, FsMem.icache_setInode_self, hd hvalid]
    · simp only [Function.update_of_ne hjne] at hvalid
      rw [Function.update_of_ne hne, FsMem.icache_setInode_of_ne hjne]
      exact h.cached ha hvalid

variable (ip) in
lemma Layout.Rep.setEntry (h : L.Rep ino s v fm) {e : Inode} (hother : ∀ jp ≠ ip, ¬ s.At jp i)
    (he : 0 < e.ref → e.dev = ROOTDEV ∧ e.inum = i ∧
      ∃ d, ino i = some d ∧ (e.valid = true → e.din = d)) :
    L.Rep ino (s.setEntry ip ⟨e.inum, e.ref, e.valid⟩) v (fm.setInode ip e) := by
  have hup := h.update ip (i := i) (o := ino i) (e := e) (w := v) (S := s.stale)
    (M := s.metas) (D := s.datas) (by rw [Function.update_eq_self]; exact h.owns)
    (fun d hd => h.full hd) (fun _ _ _ _ => .refl _ _)
    (fun j hj hs => by rw [Function.update_eq_self]; exact h.disk j hj hs) h.held h.pend h.logged
    hother he
  rw [Function.update_eq_self, ← h.node, Function.update_eq_self] at hup
  exact hup

lemma Layout.Rep.change (h : L.Rep ino s v fm) (hh : s.Has ip i n) {w : Vol} {d : Dinode}
    {S M : Finset ℕ} {D : ℕ}
    (howns : L.Owns w.blk (Function.update ino i (some d)) ∅) (hfull : d.Full w.blk)
    (hsame : ∀ j d, j ≠ i → ino j = some d → d.Same v.blk w.blk)
    (hdisk : ∀ j < L.sb.ninodes, j ∉ S →
      (L.dinode w.blk j).live = Function.update ino i (some d) j)
    (hheld : w.held = []) (hpend : w.pend = ∅)
    (hlog : ∃ X : Finset ℕ, X.card ≤ D ∧ w.logged ⊆ M ∪ X) :
    L.Rep (Function.update ino i (some d)) { s with
      node := Function.update s.node i (some (d.node w.blk))
      stale := S
      metas := M
      datas := D } w (fm.setInode ip { fm.icache ip with din := d }) := by
  have hcaches := h.caches hh.isAt
  have hup := h.update ip (o := some d) (e := { fm.icache ip with din := d }) howns
    (fun d' hd' => Option.some.inj hd' ▸ hfull) hsame hdisk hheld hpend hlog
    (fun jp hjp ha => hjp (h.unique ha hh.isAt))
    fun _ => ⟨hcaches.2.1, hcaches.2.2, d, rfl, fun _ => rfl⟩
  rw [← h.entry, Function.update_eq_self] at hup
  exact hup

/-! ## Rules for the inode cache -/

/-- What reading `*ip` shows. -/
structure Inode.Shows (e : Inode) (i : ℕ) (n : Node) : Prop where
  dev : e.dev = ROOTDEV
  inum : e.inum = i
  type : e.din.type = n.type
  major : e.din.major = n.major
  minor : e.din.minor = n.minor
  nlink : e.din.nlink = n.nlink
  size : e.din.size = n.data.length

lemma nwp_readInode {f : Inode → K α} (hh : s.Has ip i n)
    (hf : ∀ e : Inode, e.Shows i n → nwp L D (f e) Q s) : nwp L D (readInode ip >>= f) Q s := by
  intro ino v fm hr
  obtain ⟨-, hn⟩ := hr.din hh
  have hc := hr.caches hh.isAt
  refine fwp_readInode (hf _ ⟨hc.2.1, hc.2.2, ?_, ?_, ?_, ?_, ?_⟩ ino v fm hr)
  all_goals rw [← hn]
  all_goals simp [Dinode.node]

/-- What `iget(dev, i)` does when it returns `ip`. -/
inductive Fs.Gets (s : Fs) (i : ℕ) (ip : Fin NINODE) : Fs → Prop
  /-- The inode was cached. -/
  | hit (h : s.At ip i) : Gets s i ip (s.setEntry ip { s.ic ip with ref := (s.ic ip).ref + 1 })
  /-- It was not, and this entry was empty. -/
  | fresh (h : (s.ic ip).ref = 0) (hnone : ∀ jp, ¬ s.At jp i) :
    Gets s i ip (s.setEntry ip ⟨i, 1, false⟩)

namespace Layout.Rep

lemma at_iff (h : L.Rep ino s v fm) : s.At ip i ↔ fm.Caches ip i := by
  refine ⟨h.caches, fun hc => ⟨?_, ?_⟩⟩
  · rw [h.ref_eq]
    exact hc.1
  · rw [h.inum_eq]
    exact hc.2.2

lemma canGet_iff (h : L.Rep ino s v fm) :
    s.CanGet i ↔ ∃ ip, fm.Caches ip i ∨ (fm.icache ip).ref = 0 :=
  exists_congr fun ip => or_congr h.at_iff (by rw [h.ref_eq])

lemma got (h : L.Rep ino s v fm) {fm' : FsMem} (hn : s.node i = some n) (hg : Got fm i ip fm') :
    ∃ s', s.Gets i ip s' ∧ L.Rep ino s' v fm' := by
  obtain ⟨d, hd, -⟩ := h.ino_of_node hn
  cases hg with
  | hit hc =>
    have ha := h.at_iff.mpr hc
    have hrep := h.setEntry ip (i := i)
      (e := { fm.icache ip with ref := (fm.icache ip).ref + 1 })
      (fun jp hjp hj => hjp (h.unique hj ha)) fun _ => ⟨hc.2.1, hc.2.2, d, hd, fun hv => ?_⟩
    · refine ⟨_, ?_, hrep⟩
      have := Fs.Gets.hit ha
      rwa [h.entry] at this
    · have hcached := h.cached ha (by rw [h.valid_eq]; exact hv)
      exact Option.some.inj (hcached.symm.trans hd)
  | fresh hz hnone =>
    have hrep := h.setEntry ip (i := i)
      (e := { fm.icache ip with dev := ROOTDEV, inum := i, ref := 1, valid := false })
      (fun jp _ hj => hnone jp (h.at_iff.mp hj)) fun _ => ⟨rfl, rfl, d, hd, fun hv => nomatch hv⟩
    refine ⟨_, .fresh ?_ fun jp hj => hnone jp (h.at_iff.mp hj), hrep⟩
    rw [h.ref_eq]
    exact hz

lemma got_drop (h : L.Rep ino s v fm) {fm' : FsMem} (hg : Got fm i ip fm') :
    ∃ s', L.Rep ino s' v (fm'.setInode ip { fm'.icache ip with ref := (fm'.icache ip).ref - 1 }) ∧
      s'.node = s.node ∧ s'.stale = s.stale ∧ ∀ jp, (s'.ic jp).ref = (s.ic jp).ref := by
  cases hg with
  | hit hc =>
    refine ⟨s, ?_, rfl, rfl, fun _ => rfl⟩
    rw [FsMem.icache_setInode_self, FsMem.setInode_setInode]
    have hsame : fm.setInode ip (fm.icache ip) = fm := by simp [FsMem.setInode]
    exact hsame.symm ▸ h
  | fresh hz hnone =>
    refine ⟨s.setEntry ip ⟨i, 0, false⟩, ?_, rfl, rfl, fun jp => ?_⟩
    · rw [FsMem.icache_setInode_self, FsMem.setInode_setInode]
      exact h.setEntry ip (i := i)
        (e := { fm.icache ip with dev := ROOTDEV, inum := i, ref := 0, valid := false })
        (fun jp _ hj => hnone jp (h.at_iff.mp hj)) fun hpos => absurd hpos (lt_irrefl 0)
    · by_cases hjp : jp = ip
      · rw [hjp, h.ref_eq, hz]
        simp [Fs.setEntry]
      · simp [Fs.setEntry, Function.update_of_ne hjp]

end Layout.Rep

lemma nwp_iget {f : Fin NINODE → K α} (hn : s.node i = some n)
    (hfree : L.scarce ∨ s.CanGet i)
    (hf : ∀ ip s', s.Gets i ip s' → nwp L D (f ip) Q s') : nwp L D (iget ROOTDEV i >>= f) Q s := by
  intro ino v fm hr
  refine fwp_iget (hfree.imp_right hr.canGet_iff.mp) fun ip fm' hgot => ?_
  obtain ⟨s', hg, hr'⟩ := hr.got hn hgot
  exact hf ip s' hg ino v fm' hr'

lemma nwp_iread (ha : s.At ip i) (hn : s.node i = some n)
    (hs : i ∉ s.stale ∨ (s.ic ip).valid = true) :
    nwp L D (iread ip) (fun _ s' => s' = s.setEntry ip { s.ic ip with valid := true }) s := by
  intro ino v fm hr
  obtain ⟨d, hd, -⟩ := hr.ino_of_node hn
  have hc := hr.caches ha
  cases hv : (fm.icache ip).valid with
  | true =>
    refine fwp_mono (fwp_iread_valid hc.1 hv) ?_
    rintro - v' fm' ⟨rfl, rfl⟩
    refine ⟨ino, s, hr, ?_⟩
    rw [Fs.setEntry, ← hv, ← hr.valid_eq, Function.update_eq_self]
  | false =>
    have hi := hr.owns.lt hd
    have hlive := hr.disk i hi (hs.resolve_right fun hv' => by
      rw [hr.valid_eq, hv] at hv'
      cases hv')
    rw [hd, Dinode.live] at hlive
    split_ifs at hlive with ht
    refine fwp_mono (fwp_iread hr.sb hc (L.out_iblock hi) hv hr.pend (hr.held_le 2) ht) ?_
    rintro - v' fm' ⟨rfl, rfl⟩
    have hrep := hr.setEntry ip (i := i)
      (e := { fm.icache ip with valid := true, din := L.dinode v'.blk i })
      (fun jp hjp hj => hjp (hr.unique hj ha)) fun _ =>
        ⟨hc.2.1, hc.2.2, d, hd, fun _ => Option.some.inj hlive⟩
    refine ⟨ino, _, hrep, ?_⟩
    rw [hr.entry]

lemma nwp_iput_drop (ha : s.At ip i) (hn : s.node i = some n)
    (hkeep : (s.ic ip).valid = true → n.nlink = 0 → (s.ic ip).ref ≠ 1) :
    nwp L D (iput ip)
      (fun _ s' => s' = s.setEntry ip { s.ic ip with ref := (s.ic ip).ref - 1 }) s := by
  intro ino v fm hr
  have hc := hr.caches ha
  obtain ⟨d, hd, hdn⟩ := hr.ino_of_node hn
  refine fwp_mono (fwp_iput_drop fun hfree => ?_) ?_
  · obtain ⟨hv, hl, h1⟩ := hfree
    have hv' : (s.ic ip).valid = true := by rw [hr.valid_eq]; exact hv
    have hdin := (hr.din ⟨ha, hv', hn⟩).2
    refine hkeep hv' ?_ (by rw [hr.ref_eq]; exact h1)
    rw [← hdin]
    exact hl
  · rintro - v' fm' ⟨rfl, rfl⟩
    have hrep := hr.setEntry ip (i := i)
      (e := { fm.icache ip with ref := (fm.icache ip).ref - 1 })
      (fun jp hjp hj => hjp (hr.unique hj ha)) fun _ => ⟨hc.2.1, hc.2.2, d, hd, fun hv => ?_⟩
    · refine ⟨ino, _, hrep, ?_⟩
      rw [hr.entry]
    · have hcached := hr.cached ha (by rw [hr.valid_eq]; exact hv)
      exact Option.some.inj (hcached.symm.trans hd)

/-- **`iput(ip)`** of the last reference to a node that no directory names. -/
lemma nwp_iput_free (hh : s.Has ip i n) (hnlink : n.nlink = 0) (href : (s.ic ip).ref = 1)
    (hroom : L.Room ((s.metas ∪ {L.bmapblock, L.iblock i}).card + s.datas)) :
    nwp L D (iput ip) (fun _ s' => s' = { s.logs {L.bmapblock, L.iblock i} 0 with
      node := Function.update s.node i none
      ic := Function.update s.ic ip ⟨i, 0, false⟩
      stale := s.stale.erase i }) s := by
  intro ino v fm hr
  obtain ⟨hd, hdn⟩ := hr.din hh
  have hc := hr.caches hh.isAt
  have hi := hr.owns.lt hd
  refine fwp_mono (fwp_iput_free hr.sb hc rfl hd hr.owns hr.pend (hr.held_le 1)
    (hr.room (m := 0) hroom) ?_ ?_ ?_) ?_
  · rw [← hr.valid_eq]
    exact hh.valid
  · rw [← hnlink, ← hdn]
    rfl
  · rw [← hr.ref_eq]
    exact href
  rintro - v' fm' ⟨ht, rfl⟩
  -- the dinode on the drive is of type 0, like those of all inodes that are not in use
  have hlive : ∀ j < L.sb.ninodes, j ∉ s.stale.erase i →
      (L.dinode v'.blk j).live = Function.update ino i none j := fun j hj hs => by
    rw [ht.dinode j hj]
    by_cases hji : j = i
    · subst hji
      rw [if_pos rfl, Function.update_self]
      exact if_pos rfl
    · rw [if_neg hji, Function.update_of_ne hji]
      exact hr.disk j hj fun hin => hs (Finset.mem_erase.mpr ⟨hji, hin⟩)
  obtain ⟨X, hX, hsub⟩ := hr.logged
  have hrep := hr.update ip (o := none) (e := { fm.icache ip with
      ref := 0, valid := false, din := { (fm.icache ip).din.emptied with type := 0 } })
    ht.owns (fun _ hd => nomatch hd) ht.same hlive (ht.held.trans hr.held) (ht.pend.trans hr.pend)
    (ht.logs.of_logged hX hsub) (fun jp hjp hj => hjp (hr.unique hj hh.isAt))
    fun hpos => absurd hpos (lt_irrefl 0)
  refine ⟨_, _, hrep, ?_⟩
  simp only [Option.map_none, hc.2.2]
  rfl

/-! ## Rules for inodes -/

/-- The kind of statement that changes a field of `*ip` other than its size and its blocks. -/
lemma nwp_setInode {g : Dinode → Dinode} {m : Node} {f : Unit → K α} (hh : s.Has ip i n)
    (ha : ∀ d, (g d).addrs = d.addrs) (hsize : ∀ d, (g d).size = d.size) (hdata : m.data = n.data)
    (ht : m.type ≠ 0)
    (hg : ∀ d, d.type = n.type → d.major = n.major → d.minor = n.minor → d.nlink = n.nlink →
      d.Fits → (g d).Fits ∧ (g d).type = m.type ∧ (g d).major = m.major ∧
        (g d).minor = m.minor ∧ (g d).nlink = m.nlink)
    (hf : nwp L D (f ()) Q (s.setNode i m)) :
    nwp L D (setInode ip (fun e => { e with din := g e.din }) >>= f) Q s := by
  intro ino v fm hr
  obtain ⟨hd, hdn⟩ := hr.din hh
  obtain ⟨hfits, htype, hmajor, hminor, hnlink⟩ := hg (fm.icache ip).din (by rw [← hdn]; rfl)
    (by rw [← hdn]; rfl) (by rw [← hdn]; rfl) (by rw [← hdn]; rfl) (hr.owns.fits hd)
  have haddr : ∀ st, (g (fm.icache ip).din).addr v.blk st = (fm.icache ip).din.addr v.blk st :=
    Dinode.addr_congr (ha _) fun _ => rfl
  have hnode : (g (fm.icache ip).din).node v.blk = m := by
    refine Node.ext htype hmajor hminor hnlink ?_
    rw [hdata, ← hdn]
    show (g (fm.icache ip).din).content v.blk = (fm.icache ip).din.content v.blk
    rw [Dinode.content, Dinode.content, hsize]
    refine List.map_congr_left fun j _ => ?_
    rw [Dinode.byteAt, haddr, Dinode.byteAt]
  refine fwp_setInode ?_
  have hrep := hr.change (w := v) (d := g (fm.icache ip).din) (S := insert i s.stale)
    (M := s.metas) (D := s.datas) hh
    (hr.owns.update hd (htype.symm ▸ ht) hfits (ha _))
    (by
      rw [Dinode.Full, hsize]
      exact (hr.full hd).congr haddr)
    (fun _ _ _ _ => .refl _ _)
    (fun j hj hs => by
      have hji : j ≠ i := fun he => hs (he ▸ Finset.mem_insert_self _ _)
      rw [Function.update_of_ne hji]
      exact hr.disk j hj fun hin => hs (Finset.mem_insert_of_mem hin))
    hr.held hr.pend hr.logged
  rw [hnode] at hrep
  exact hf _ _ _ hrep

lemma nwp_iupdate (hh : s.Has ip i n)
    (hroom : L.Room ((s.metas ∪ {L.iblock i}).card + s.datas)) :
    nwp L D (iupdate ip)
      (fun _ s' => s' = { s.logs {L.iblock i} 0 with stale := s.stale.erase i }) s := by
  intro ino v fm hr
  obtain ⟨hd, hdn⟩ := hr.din hh
  have hi := hr.owns.lt hd
  have hlow : L.iblock i < L.datastart := (L.iblock_lt hi).trans (Layout.Owns.bmapblock_lt L)
  have hfits := hr.owns.fits hd
  refine fwp_mono (fwp_iupdate hr.sb (hr.caches hh.isAt) hi hr.pend (hr.held_le 2)
    ((hr.room (m := 0) hroom).log_mem (by simp))) ?_
  rintro - v' fm' ⟨rfl, rfl⟩
  have hsame : ∀ j d, ino j = some d → d.Same v.blk
      (v.put (L.iblock i) (L.putDinode v.blk i (fm'.icache ip).din)).blk :=
    fun j d hj => hr.owns.same_of_lt hj hlow _
  have heq : Function.update ino i (some (fm'.icache ip).din) = ino :=
    Function.update_eq_self_iff.mpr hd.symm
  obtain ⟨X, hX, hsub⟩ := hr.logged
  have hlogs : v.Logs (v.put (L.iblock i) (L.putDinode v.blk i (fm'.icache ip).din))
      {L.iblock i} 0 :=
    (Vol.Logs.refl v _ 0).put_mem (by simp) _
  have hrep := hr.change (S := s.stale.erase i) hh
    (heq.symm ▸ hr.owns.put (L.iblock_lt hi).ne (fun _ => hr.owns.not_own_of_lt hlow _) _)
    ((hsame i _ hd).full (hr.full hd)) (fun j d _ hj => hsame j d hj)
    (fun j hj hs => by
      rw [heq]
      refine (congrArg Dinode.live (L.dinode_putDinode hfits)).trans ?_
      split_ifs with hji
      · rw [hji, hd]
        exact if_neg (hr.owns.type hd)
      · exact hr.disk j hj fun hin => hs (Finset.mem_erase.mpr ⟨hji, hin⟩))
    hr.held hr.pend (hlogs.of_logged hX hsub)
  have hnode : (fm'.icache ip).din.node
      (v.put (L.iblock i) (L.putDinode v.blk i (fm'.icache ip).din)).blk = n := by
    rw [← hdn, Dinode.node, Dinode.node, (hsame i _ hd).content (hr.full hd)]
  rw [heq, hnode, Function.update_eq_self_iff.mpr hh.node.symm] at hrep
  refine ⟨ino, _, ?_, rfl⟩
  have hfm : fm'.setInode ip { fm'.icache ip with din := (fm'.icache ip).din } = fm' := by
    simp [FsMem.setInode]
  rw [hfm] at hrep
  exact hrep

/-- A node that has just been allocated. -/
def Node.new (type : ℤ) : Node := ⟨type, 0, 0, 0, []⟩

def Dinode.new (type : ℤ) : Dinode := { Dinode.zero with type := type }

lemma Dinode.addr_new (type : ℤ) (blk : ℕ → Block) (st : Slot) :
    (Dinode.new type).addr blk st = 0 :=
  Dinode.addr_emptied (d := Dinode.new type) blk st

lemma Dinode.new_fits {type : ℤ} (h : Bytes.IsShort type) : (Dinode.new type).Fits :=
  ⟨h, Dinode.zero_fits.major, Dinode.zero_fits.minor, Dinode.zero_fits.nlink,
    Dinode.zero_fits.size, Dinode.zero_fits.addrs⟩

lemma Dinode.new_full (type : ℤ) (blk : ℕ → Block) : (Dinode.new type).Full blk :=
  Dinode.full_of_size_eq_zero rfl (Dinode.addr_new type blk)

section

variable {blk : ℕ → Block} {type : ℤ}

lemma Layout.Owns.newInode (h : L.Owns blk ino ∅) (hi : i < L.sb.ninodes) (hnone : ino i = none)
    (ht : type ≠ 0) (hshort : Bytes.IsShort type) :
    L.Owns (Function.update blk (L.iblock i) (L.newDinode blk i type))
      (Function.update ino i (some (Dinode.new type))) ∅ := by
  have hlow : L.iblock i < L.datastart := (L.iblock_lt hi).trans (Layout.Owns.bmapblock_lt L)
  exact (h.put (L.iblock_lt hi).ne (fun _ => h.not_own_of_lt hlow _) _).alloc hnone hi ht
    (Dinode.new_fits hshort) (Dinode.addr_new type _)

lemma Layout.live_newDinode (ht : type ≠ 0) (hshort : Bytes.IsShort type) {j : ℕ}
    (hj : j ≠ i → (L.dinode blk j).live = ino j) :
    (L.dinode (Function.update blk (L.iblock i) (L.newDinode blk i type)) j).live =
      Function.update ino i (some (Dinode.new type)) j := by
  refine (congrArg Dinode.live (L.dinode_newDinode hshort)).trans ?_
  by_cases hji : j = i
  · rw [if_pos hji, hji, Function.update_self]
    exact if_neg ht
  · rw [if_neg hji, Function.update_of_ne hji]
    exact hj hji

end

lemma nwp_ialloc {type : ℤ} (hs : s.stale = ∅) (ht : type ≠ 0) (htype : Bytes.IsShort type)
    (hroom : ∀ i < L.sb.ninodes, L.Room ((s.metas ∪ {L.iblock i}).card + s.datas))
    (hres : L.scarce ∨ (∃ ip, (s.ic ip).ref = 0) ∧
      ∃ i, 0 < i ∧ i < L.sb.ninodes ∧ s.node i = none) :
    nwp L D (ialloc ROOTDEV type) (fun ip s' => ∃ i, 1 ≤ i ∧ i < L.sb.ninodes ∧ s.node i = none ∧
      (s.ic ip).ref = 0 ∧ s' = { s.logs {L.iblock i} 0 with
        node := Function.update s.node i (some (Node.new type))
        ic := Function.update s.ic ip ⟨i, 1, false⟩ }) s := by
  intro ino v fm hr
  refine fwp_mono (fwp_ialloc hr.sb hr.pend (hr.held_le 2) (fun i hi =>
    (hr.room (m := 0) (hroom i hi)).log_mem (by simp)) (hres.imp_right ?_)) ?_
  · rintro ⟨⟨ip, hz⟩, i, hpos, hi, hnone⟩
    refine ⟨⟨ip, hr.ref_eq ip ▸ hz⟩, i, hpos, hi, ?_⟩
    have hlive := hr.disk i hi (by simp [hs])
    rw [hr.node, Option.map_eq_none_iff] at hnone
    rw [hnone, Dinode.live] at hlive
    by_contra hne
    rw [if_neg hne] at hlive
    cases hlive
  rintro ip v' fm' ⟨i, hi₁, hi, hfree, rfl, hgot⟩
  have hlow : L.iblock i < L.datastart := (L.iblock_lt hi).trans (Layout.Owns.bmapblock_lt L)
  have hnone : ino i = none := by
    rw [← hr.disk i hi (by simp [hs]), Dinode.live, if_pos hfree]
  have hnode : s.node i = none := by rw [hr.node, hnone]; rfl
  have hnot : ∀ jp, ¬ s.At jp i := fun jp ha => hr.inuse ha hnode
  obtain ⟨X, hX, hsub⟩ := hr.logged
  have hlogs : v.Logs (v.put (L.iblock i) (L.newDinode v.blk i type)) {L.iblock i} 0 :=
    (Vol.Logs.refl v _ 0).put_mem (by simp) _
  cases hgot with
  -- a free inode is not cached: an entry refers to a node that exists
  | hit hc => exact absurd (hr.at_iff.mpr hc) (hnot ip)
  | fresh hz _ =>
    have hrep := hr.update ip (i := i) (o := some (Dinode.new type))
      (w := v.put (L.iblock i) (L.newDinode v.blk i type)) (S := s.stale)
      (e := { fm.icache ip with dev := ROOTDEV, inum := i, ref := 1, valid := false })
      (hr.owns.newInode hi hnone ht htype)
      (fun d hd => by
        cases hd
        exact Dinode.new_full type _)
      (fun j d _ hj => hr.owns.same_of_lt hj hlow _)
      (fun j hj hst => Layout.live_newDinode ht htype fun _ => hr.disk j hj hst)
      hr.held hr.pend (hlogs.of_logged hX hsub) (fun jp _ => hnot jp)
      fun _ => ⟨rfl, rfl, _, rfl, fun hv => nomatch hv⟩
    refine ⟨_, _, hrep, i, hi₁, hi, hnode, ?_, rfl⟩
    rw [hr.ref_eq]
    exact hz

lemma Layout.OnDisk.newInode {σ : Nodes} {blk : ℕ → Block} (type nlink : ℤ)
    (h : L.OnDisk (· = σ) blk) (hi : i < L.sb.ninodes) (hn : σ i = none) (ht : type ≠ 0)
    (htype : Bytes.IsShort type) (hnlink : Bytes.IsShort nlink) :
    ∃ x, L.OnDisk (· = Function.update σ i (some ⟨type, 0, 0, nlink, []⟩))
      (Function.update blk (L.iblock i) x) := by
  obtain ⟨ino, howns, hfull, hlive, rfl⟩ := h
  set d : Dinode := { Dinode.new type with nlink := nlink } with hd
  have hfits : d.Fits := { Dinode.new_fits htype with nlink := hnlink }
  have haddr : ∀ blk' st, d.addr blk' st = 0 := Dinode.addr_emptied (d := d)
  have hlow : L.iblock i < L.datastart := (L.iblock_lt hi).trans (Layout.Owns.bmapblock_lt L)
  refine ⟨L.putDinode blk i d, Function.update ino i (some d),
    (howns.put (L.iblock_lt hi).ne (fun _ => howns.not_own_of_lt hlow _) _).alloc
      (Option.map_eq_none_iff.mp hn) hi ht hfits (haddr _),
    fun j d' hj => ?_, fun j hj => ?_, funext fun j => ?_⟩
  · by_cases hji : j = i
    · rw [hji, Function.update_self] at hj
      exact Option.some.inj hj ▸ Dinode.full_of_size_eq_zero rfl (haddr _)
    · rw [Function.update_of_ne hji] at hj
      exact (howns.same_of_lt hj hlow _).full (hfull j d' hj)
  · rw [L.dinode_putDinode hfits]
    by_cases hji : j = i
    · rw [if_pos hji, hji, Function.update_self]
      exact if_neg ht
    · rw [if_neg hji, Function.update_of_ne hji]
      exact hlive j hj
  · by_cases hji : j = i
    · rw [hji, Function.update_self, Function.update_self]
      rfl
    · rw [Function.update_of_ne hji, Function.update_of_ne hji]
      cases hj : ino j with
      | none => rfl
      | some d' =>
        simp only [Option.map_some, Dinode.node,
          (howns.same_of_lt hj hlow _).content (hfull j d' hj)]

/-! ## Rules for contents -/

/-- **`readi(ip, dst, off, m)`** of a file or directory changes nothing. -/
lemma nwp_readi {off m : ℕ} (hh : s.Has ip i n) (ht : n.type ≠ T_DEV) (hm : m < UINT) :
    nwp L D (readi ip off m) (fun r s' => s' = s ∧
      r = if n.data.length < off ∨ UINT ≤ off + m ∨ n.nlink < 1 then none
        else some ((n.data.drop off).take m)) s := by
  intro ino v fm hr
  obtain ⟨hd, rfl⟩ := hr.din hh
  refine fwp_mono (fwp_readi (hr.caches hh.isAt) rfl (hr.owns.within hd) hr.pend
    (hr.held_le 1) (hr.full hd) ht hm) ?_
  rintro r v' fm' ⟨rfl, rfl, rfl⟩
  refine ⟨ino, s, hr, rfl, ?_⟩
  simp only [Dinode.node, Dinode.length_content]

lemma nwp_readi_dev [L.Scarce] {off m : ℕ} (hh : s.Has ip i n) (ht : n.type = T_DEV) :
    nwp L D (readi ip off m) (fun _ s' => ∃ input, s' = { s with input := input }) s := by
  intro ino v fm hr
  obtain ⟨-, rfl⟩ := hr.din hh
  refine fwp_readInode ?_
  rw [if_pos (show (fm.icache ip).din.type = T_DEV from ht)]
  generalize (if m < 2 ^ 31 then m else 0) = k
  split_ifs
  · cases hloop : consoleLoop k fm.input [] with
    | none =>
      exact fwp_mem_error (e := .consoleread k) (x := .blocked)
        (by simp only [memHandler, hloop]) ⟨Layout.Scarce.scarce, Layout.Scarce.waits⟩ ⟨k, hloop⟩
    | some p =>
      refine fwp_mem (e := .consoleread k) (r := p.1) (m := { fm with input := p.2 })
        (by simp only [memHandler, hloop]) (fwp_ret ⟨ino, { s with input := p.2 }, ?_, p.2, rfl⟩)
      exact { hr with input := rfl }
  · refine fwp_ret ?_
    exact ⟨ino, s, hr, s.input, rfl⟩

lemma nwp_writei_none {src : List UInt8} {off : ℕ} (hh : s.Has ip i n) (ht : n.type ≠ T_DEV)
    (hlen : src.length < UINT)
    (hbad : n.data.length < off ∨ MAXFILE * BSIZE < off + src.length) :
    nwp L D (writei ip src off) (fun r s' => r = none ∧ s' = s) s := by
  intro ino v fm hr
  obtain ⟨hd, rfl⟩ := hr.din hh
  refine fwp_mono (fwp_writei_none rfl (hr.owns.fits hd) ht hlen ?_) ?_
  · simpa [Dinode.node] using hbad
  · rintro r v' fm' ⟨rfl, rfl, rfl⟩
    exact ⟨ino, s, hr, rfl, rfl⟩

lemma nwp_writei_dev {src : List UInt8} {off : ℕ} (hh : s.Has ip i n) (ht : n.type = T_DEV) :
    nwp L D (writei ip src off) (fun r s' => (r = none ∨ r = some src.length) ∧
      ∃ output, s' = { s with output := output }) s := by
  intro ino v fm hr
  obtain ⟨-, rfl⟩ := hr.din hh
  refine fwp_readInode ?_
  rw [if_pos (show (fm.icache ip).din.type = T_DEV from ht)]
  split_ifs
  · refine fwp_mem (e := .consolewrite src) (r := ()) rfl
      (fwp_ret ⟨ino, { s with output := s.output ++ src }, ?_, Or.inr rfl, _, rfl⟩)
    exact { hr with output := by simp only [hr.output] }
  · refine fwp_ret ?_
    exact ⟨ino, s, hr, Or.inl rfl, s.output, rfl⟩

/-- **`writei(ip, src, off, n)`** of a file or directory. -/
lemma nwp_writei {src : List UInt8} {off : ℕ} (hh : s.Has ip i n) (hs : i ∉ s.stale)
    (ht : n.type ≠ T_DEV) (hoff : off ≤ n.data.length)
    (hend : off + src.length ≤ MAXFILE * BSIZE)
    (hroom : L.Room ((s.metas ∪ {L.bmapblock, L.iblock i}).card +
      (s.datas + 2 * touched off src.length)))
    (hfree : L.scarce ∨ L.Spare s.node n.data.length (off + src.length)) :
    nwp L D (writei ip src off) (fun r s' => r = some src.length ∧
      s' = { s.logs {L.bmapblock, L.iblock i} (2 * touched off src.length) with
        node := Function.update s.node i (some { n with data := overlay n.data off src }) }) s := by
  intro ino v fm hr
  obtain ⟨hd, rfl⟩ := hr.din hh
  have hi := hr.owns.lt hd
  have hdisk : L.dinode v.blk i = (fm.icache ip).din := by
    have hlive := hr.disk i hi hs
    rw [hd, Dinode.live] at hlive
    split_ifs at hlive
    exact Option.some.inj hlive
  refine fwp_mono (fwp_writei hr.sb (hr.caches hh.isAt) rfl hd hr.owns hr.pend (hr.held_le 1)
    (hr.full hd) hdisk ht (by simpa [Dinode.node] using hoff) hend (hr.room hroom)
    (hfree.imp_right fun hle => ?_)) ?_
  · have hcount := hr.free_add_taken
    have hlen : ((fm.icache ip).din.node v.blk).data.length = (fm.icache ip).din.size := by
      simp [Dinode.node]
    rw [Layout.Spare, hlen, nblocks_max] at hle
    omega
  rintro r v' fm' ⟨rfl, d', hw, rfl⟩
  obtain ⟨X, hX, hsub⟩ := hr.logged
  have hrep := hr.change (S := s.stale) hh hw.owns hw.full hw.same
    (fun j hj hst => by
      rw [hw.dinode j hj]
      by_cases hji : j = i
      · rw [if_pos hji, hji, Function.update_self]
        exact if_neg (hw.owns.type (Function.update_self i _ ino))
      · rw [if_neg hji, Function.update_of_ne hji]
        exact hr.disk j hj hst)
    (hw.held.trans hr.held) (hw.pend.trans hr.pend) (hw.logs.of_logged hX hsub)
  have hnode : d'.node v'.blk = { (fm.icache ip).din.node v.blk with
      data := overlay ((fm.icache ip).din.node v.blk).data off src } := by
    obtain ⟨a, ha⟩ := hw.fields
    refine Node.ext ?_ ?_ ?_ ?_ hw.content
    all_goals rw [ha]; rfl
  rw [hnode] at hrep
  exact ⟨_, _, hrep, rfl, rfl⟩

/-! ## Rules for the file table -/

def Fs.setFile (s : Fs) (f : Fin NFILE) (g : File) : Fs :=
  { s with ft := Function.update s.ft f g }

lemma Layout.Rep.setFile (h : L.Rep ino s v fm) (f : Fin NFILE) (g : File) :
    L.Rep ino (s.setFile f g) v (fm.setFile f g) :=
  { h with ft := by simp only [Fs.setFile, FsMem.setFile, h.ft] }

lemma nwp_readFile {i : Fin NFILE} {f : File → K α} (hf : nwp L D (f (s.ft i)) Q s) :
    nwp L D (readFile i >>= f) Q s := fun ino v fm hr => by
  refine fwp_readFile ?_
  rw [← hr.ft]
  exact hf ino v fm hr

lemma nwp_setFile {i : Fin NFILE} {g : File → File} {f : Unit → K α}
    (hf : nwp L D (f ()) Q (s.setFile i (g (s.ft i)))) : nwp L D (setFile i g >>= f) Q s :=
  fun ino v fm hr => by
  refine fwp_setFile ?_
  rw [← hr.ft]
  exact hf ino v _ (hr.setFile i _)

lemma nwp_filealloc {f : Option (Fin NFILE) → K α}
    (hnone : (∀ i, (s.ft i).ref ≠ 0) → nwp L D (f none) Q s)
    (hsome : ∀ i, (s.ft i).ref = 0 →
      nwp L D (f (some i)) Q (s.setFile i { s.ft i with ref := 1 })) :
    nwp L D (filealloc >>= f) Q s := by
  intro ino v fm hr
  cases hfind : filealloc? fm.ftable with
  | none =>
    refine fwp_mem (e := .filealloc) (r := none) (m := fm) (by simp only [memHandler, hfind])
      (hnone (fun i hz => ?_) ino v fm hr)
    rw [hr.ft] at hz
    exact List.find?_eq_none.mp hfind i (List.mem_finRange i) (by simpa using hz)
  | some i =>
    have hz : (fm.ftable i).ref = 0 := by
      have := List.find?_some hfind
      simpa using this
    refine fwp_mem (e := .filealloc) (r := some i) (m := fm.setFile i { fm.ftable i with ref := 1 })
      (by simp only [memHandler, hfind]) ?_
    rw [← hr.ft] at hz ⊢
    exact hsome i hz ino v _ (hr.setFile i _)

lemma nwp_filedrop {i : Fin NFILE} {f : Option File → K α} (href : (s.ft i).ref = 1)
    (hf : nwp L D (f (some { s.ft i with ref := 0 })) Q
      (s.setFile i { s.ft i with ref := 0, type := .none })) :
    nwp L D (mem (.filedrop i) >>= f) Q s := by
  intro ino v fm hr
  rw [hr.ft] at href
  refine fwp_mem (e := .filedrop i) (r := some { fm.ftable i with ref := (fm.ftable i).ref - 1 })
    (m := fm.setFile i { fm.ftable i with ref := 0, type := .none }) ?_ ?_
  · simp [memHandler, href]
  · rw [href, ← hr.ft]
    exact hf ino v _ (hr.setFile i _)

/-! ## Transactions -/

/-- The state after `end_op`. -/
def Fs.committed (s : Fs) : Fs := { s with metas := ∅, datas := 0 }

/-- The contents of a drive with the nodes `σ` are in `D`. -/
def Layout.Durable (L : Layout) (D : (ℕ → Block) → Prop) (σ : Nodes) : Prop :=
  ∀ blk, L.OnDisk (· = σ) blk → D blk

lemma Layout.durable_onDisk {σ : Nodes} (h : P σ) : L.Durable (L.OnDisk P) σ := by
  rintro blk ⟨ino, howns, hfull, hlive, hσ⟩
  exact ⟨ino, howns, hfull, hlive, hσ ▸ h⟩

/-- **`end_op()`** makes the nodes durable. -/
lemma nwp_endOp {f : Unit → K α} (hs : s.stale = ∅) (hD : L.Durable D s.node)
    (hf : nwp L D (f ()) Q s.committed) : nwp L D (endOp >>= f) Q s := by
  intro ino v fm hr
  refine fwp_endOp hr.held hr.pend (hD _ (hr.onDisk hs rfl)) ?_
  exact hf ino _ fm { hr with logged := ⟨∅, le_rfl, Finset.empty_subset _⟩ }

/-! ## On the machine -/

lemma Layout.Rep.ample (h : L.Rep ino s v fm) : L.ample.Rep ino s v fm :=
  { h with owns := ⟨h.owns.lt, h.owns.type, h.owns.fits, h.owns.marked⟩ }

lemma Layout.Rep.of_ample (h : L.ample.Rep ino s v fm) : L.Rep ino s v fm :=
  { h with owns := ⟨h.owns.lt, h.owns.type, h.owns.fits, h.owns.marked⟩ }

lemma Layout.Rep.recount (h : L.Rep ino s v fm) :
    L.Rep ino { s with metas := v.logged, datas := 0 } v fm :=
  { h with logged := ⟨∅, le_rfl, Finset.subset_union_left⟩ }

/-- The machine and the memory hold the file system. -/
def Layout.Mounted (L : Layout) (s : Fs) (m : Machine) (fm : FsMem) : Prop :=
  ∃ v ino, L.On v m ∧ L.Rep ino s v fm

/-- The drive represents the file system, and recovers to contents in `D`. -/
def Layout.Keeps (L : Layout) (D : (ℕ → Block) → Prop) (s : Fs) (m : Machine) (fm : FsMem) : Prop :=
  ∃ v ino, L.On v m ∧ L.Rep ino s v fm ∧ D v.old

lemma Layout.Keeps.mounted {m : Machine} (h : L.Keeps D s m fm) : L.Mounted s m fm := by
  obtain ⟨v, ino, hon, hr, -⟩ := h
  exact ⟨v, ino, hon, hr⟩

/-- An operation returns, or halts where something has run out. -/
theorem nwp_kernel {p : K α} {m : Machine} (h : nwp L D p Q s) (hm : L.Keeps D s m fm) :
    (∃ r m' fm' s', p.run kernelHandler (m, fm) = .ok r (m', fm') ∧ L.Keeps D s' m' fm' ∧
      Q r s') ∨
    ∃ x q, p.run kernelHandler (m, fm) = .error x q ∧ L.Halts x ∧
      L.UsedUp (fun b => q.1.view (onDev b)) q.2 x := by
  obtain ⟨v, ino, hon, hr, hD⟩ := hm
  refine (fwp_kernel (h ino v fm hr) hon hD).imp ?_ id
  rintro ⟨r, m', v', fm', hrun, hon', hD', ino', s', hr', hQ⟩
  exact ⟨r, m', fm', s', hrun, ⟨v', ino', hon', hr', hD'⟩, hQ⟩

/-- An operation that has the resources it needs returns. -/
theorem nwp_completes {p : K α} {m : Machine} (h : nwp L.ample D p Q s) (hlim : L.limit ≠ none)
    (hm : L.Keeps D s m fm) :
    ∃ r m' fm' s', p.run kernelHandler (m, fm) = .ok r (m', fm') ∧ L.Keeps D s' m' fm' ∧
      Q r s' := by
  obtain ⟨v, ino, hon, hr, hD⟩ := hm
  rcases nwp_kernel h ⟨v, ino, hon.ample, hr.ample, hD⟩ with
    ⟨r, m', fm', s', hrun, ⟨v', ino', hon', hr', hD'⟩, hQ⟩ | ⟨x, q, -, hx, -⟩
  · exact ⟨r, m', fm', s', hrun, ⟨v', ino', hon'.of_ample, hr'.of_ample, hD'⟩, hQ⟩
  · exact absurd hx (Layout.not_halts_ample hlim x)

/-- The same, whatever the drive recovers to. -/
theorem nwp_returns {p : K α} {m : Machine} (h : nwp L.ample (fun _ => True) p Q s)
    (hlim : L.limit ≠ none) (hm : L.Mounted s m fm) :
    ∃ r m' fm' s', p.run kernelHandler (m, fm) = .ok r (m', fm') ∧ L.Mounted s' m' fm' ∧
      Q r s' := by
  obtain ⟨v, ino, hon, hr⟩ := hm
  obtain ⟨r, m', fm', s', hrun, hm', hQ⟩ := nwp_completes h hlim ⟨v, ino, hon, hr, trivial⟩
  exact ⟨r, m', fm', s', hrun, hm'.mounted, hQ⟩

end

end Xv6
