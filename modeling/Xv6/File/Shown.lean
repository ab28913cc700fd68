import Xv6.File.Runs

/-!
# What the blocks of a volume hold

`L.inos blk` and `L.nodes blk` are the inodes in use and the nodes that the blocks `blk` hold, read
off the inode blocks.  Between two calls the blocks that the buffer cache shows hold the nodes of
the file system: the metadata is never ahead of them or behind.

From that come the invariants of a sound world in terms of the machine: blocks are marked exactly if
they belong to somebody, files have no holes, the inode cache agrees with the blocks, and every
reference is counted.

`Layout.nodes` is a function of blocks, whereas a representation is a relation with the inodes and
the nodes as witnesses; `Layout.Rep.inos_eq` and `Layout.Rep.nodes_eq` say that there is no choice.
So statements about the machine need not mention a representation.
-/

namespace Xv6

open Lib

def Layout.inos (L : Layout) (blk : ℕ → Block) : Inos := fun i =>
  if i < L.sb.ninodes then (L.dinode blk i).live else none

def Layout.nodes (L : Layout) (blk : ℕ → Block) : Nodes := fun i =>
  (L.inos blk i).map (Dinode.node blk)

/-- The blocks of the volume, as the buffer cache shows them. -/
def World.blk (w : World) (b : ℕ) : Block := w.machine.view (onDev b)

/-- An open file refers to the inode. -/
def FsMem.Opens (fm : FsMem) (i : ℕ) : Prop :=
  ∃ f, (fm.ftable f).type = .inode ∧ (fm.icache (fm.ftable f).ip).inum = i

section

variable {L : Layout} {O : ℕ → Prop} {w : World} {ino : Inos} {v : Vol} {s : Fs} {fm : FsMem}
  {blk blk' : ℕ → Block} {spare : Finset ℕ} {i : ℕ} {d : Dinode} {ip jp : Fin NINODE}

/-! ## The blocks behind the log -/

lemma Layout.inos_eq_some :
    L.inos blk i = some d ↔ i < L.sb.ninodes ∧ L.dinode blk i = d ∧ d.type ≠ 0 := by
  unfold inos Dinode.live
  split_ifs with hi ht
  · simp only [hi, true_and, false_iff, not_and, not_not]
    rintro rfl
    exact ht
  · simp only [Option.some.injEq, hi, true_and]
    constructor
    · rintro rfl
      exact ⟨rfl, ht⟩
    · exact And.left
  · simp [hi]

lemma Layout.inos_congr (h : ∀ b, L.Out b → blk' b = blk b) : L.inos blk' = L.inos blk := by
  funext i
  unfold inos
  split_ifs with hi
  · rw [L.dinode_congr (h _ (L.out_iblock hi))]
  · rfl

namespace Layout.Owns

lemma same_of_out (h : L.Owns blk ino spare) (hout : ∀ b, L.Out b → blk' b = blk b)
    (hi : ino i = some d) : d.Same blk blk' := fun _ hs =>
  hout _ (L.out_data (h.range_addr hi hs).1 (h.range_addr hi hs).2)

lemma congr_out (h : L.Owns blk ino spare) (hout : ∀ b, L.Out b → blk' b = blk b) :
    L.Owns blk' ino spare where
  lt := h.lt
  type := h.type
  fits := h.fits
  marked := by
    refine h.marked.congr (fun _ _ => by rw [hout _ L.out_bmapblock]) fun b p => ?_
    exact own_congr fun i d hi hd => h.same_of_out hout hi .ind hd

end Layout.Owns

lemma Layout.Rep.inos_eq (h : L.Rep ino s v fm) (hs : s.stale = ∅) : L.inos v.blk = ino := by
  funext i
  unfold inos
  split_ifs with hi
  · exact h.disk i hi (by simp [hs])
  · cases ho : ino i with
    | none => rfl
    | some d => exact absurd (h.owns.lt ho) hi

lemma Layout.OnDisk.nodes_eq {σ : Nodes} (h : L.OnDisk (· = σ) blk) : L.nodes blk = σ := by
  obtain ⟨ino, howns, -, hlive, rfl⟩ := h
  funext i
  rw [Layout.nodes, Layout.inos]
  split_ifs with hi
  · rw [hlive i hi]
  · cases ho : ino i with
    | none => rfl
    | some d => exact absurd (howns.lt ho) hi

lemma Layout.Rep.nodes_eq (h : L.Rep ino s v fm) (hs : s.stale = ∅)
    (hout : ∀ b, L.Out b → blk' b = v.blk b) : L.nodes blk' = s.node := by
  funext i
  rw [Layout.nodes, L.inos_congr hout, h.inos_eq hs, h.node]
  cases hi : ino i with
  | none => rfl
  | some d =>
    have hcontent := (h.owns.same_of_out hout hi).content (h.full hi)
    rw [Option.map_some, Option.map_some, Dinode.node, Dinode.node, hcontent]

/-! ## Sound worlds -/

/-- The blocks of the files are the marked ones, and no file has a hole. -/
structure Layout.Sane (L : Layout) (blk : ℕ → Block) : Prop where
  owns : L.Owns blk (L.inos blk) ∅
  full : ∀ {i d}, L.inos blk i = some d → d.Full blk

/-- A block is marked exactly if it is metadata or the block of one position of one inode. -/
structure Layout.Owned (L : Layout) (blk : ℕ → Block) : Prop where
  marked : ∀ b < L.sb.size,
    (bit (blk L.bmapblock) b = true ↔ b < L.datastart ∨ ∃! p, Own blk (L.inos blk) b p)
  range : ∀ {b p}, Own blk (L.inos blk) b p → L.datastart ≤ b ∧ b < L.sb.size
  unique : ∀ {b p q}, Own blk (L.inos blk) b p → Own blk (L.inos blk) b q → p = q

lemma Layout.Owns.owned (h : L.Owns blk (L.inos blk) ∅) : L.Owned blk := by
  have hm := h.marked
  refine ⟨fun b hb => ?_, hm.range, hm.unique⟩
  rw [hm.mark_iff hb]
  refine or_congr_right ⟨?_, fun ⟨p, hp, _⟩ => Or.inr ⟨p, hp⟩⟩
  rintro (hin | ⟨p, hp⟩)
  · exact absurd hin (Finset.notMem_empty b)
  · exact ⟨p, hp, fun q hq => hm.unique hq hp⟩

lemma Layout.On.view_eq {m : Machine} (h : L.On v m) {b : ℕ} (hb : L.Out b) :
    m.view (onDev b) = v.blk b := by
  obtain ⟨a, hplays, hshows⟩ := h
  rw [hplays.view_eq (by norm_num [onDev]), hshows.mem b hb]

namespace World.Sound

lemma stale (h : w.Sound L O ino v s) : s.stale = ∅ := by
  obtain ⟨t, hold, hs⟩ := h.settled
  exact hs.holds.stale

lemma blk_eq (h : w.Sound L O ino v s) {b : ℕ} (hb : L.Out b) : w.blk b = v.blk b :=
  h.on.view_eq hb

lemma inos_eq (h : w.Sound L O ino v s) : L.inos w.blk = ino := by
  rw [L.inos_congr fun b hb => h.blk_eq hb, h.rep.inos_eq h.stale]

lemma sane (h : w.Sound L O ino v s) : L.Sane w.blk := by
  refine ⟨?_, fun hi => ?_⟩
  · rw [h.inos_eq]
    exact h.rep.owns.congr_out fun b hb => h.blk_eq hb
  · rw [h.inos_eq] at hi
    exact (h.rep.owns.same_of_out (fun b hb => h.blk_eq hb) hi).full (h.rep.full hi)

/-- **The blocks that the cache shows hold the nodes of the file system.** -/
lemma nodes_eq (h : w.Sound L O ino v s) : L.nodes w.blk = s.node :=
  h.rep.nodes_eq h.stale fun _ hb => h.blk_eq hb

lemma din_eq (h : w.Sound L O ino v s) (hr : 0 < (w.mem.icache ip).ref)
    (hv : (w.mem.icache ip).valid = true) :
    (w.mem.icache ip).dev = ROOTDEV ∧
      L.inos w.blk (w.mem.icache ip).inum = some (w.mem.icache ip).din := by
  have hat : s.At ip (w.mem.icache ip).inum :=
    ⟨by rwa [h.rep.ref_eq], h.rep.inum_eq ip⟩
  refine ⟨h.rep.dev hat.1, ?_⟩
  rw [h.inos_eq]
  exact h.rep.cached hat (by rwa [h.rep.valid_eq])

lemma opens_iff (h : w.Sound L O ino v s) : w.mem.Opens i ↔ s.Opens i := by
  simp only [FsMem.Opens, Fs.Opens, h.rep.ft, h.rep.inum_eq]

lemma refcnt (h : w.Sound L O ino v s) (b : Fin NBUF) : (w.machine.buf b).refcnt = 0 := by
  obtain ⟨a, hplays, hshows⟩ := h.on
  by_cases hl : w.machine.lookup (w.machine.buf b).key = some b
  · rw [hplays.refcnt _ b hl, hshows.held, h.rep.held]
    rfl
  · exact (hplays.shadow b hl).1

lemma file_ref (h : w.Sound L O ino v s) (f : Fin NFILE) :
    (w.mem.ftable f).ref = w.session.holders f ∧
      ((w.mem.ftable f).ref = 0 ↔ (w.mem.ftable f).type = .none) := by
  obtain ⟨t, hold, hs⟩ := h.settled
  have hf : w.mem.ftable f = t.file f := by rw [← h.rep.ft, hs.holds.file]
  rw [hf]
  refine ⟨hs.files f, ?_⟩
  rcases hs.quiet.table f with ⟨ht, hr⟩ | ⟨ht, hr⟩
  · simp [ht, hr]
  · simp [ht, hr]

lemma entry_unique (h : w.Sound L O ino v s) (hip : 0 < (w.mem.icache ip).ref)
    (hjp : 0 < (w.mem.icache jp).ref) (he : (w.mem.icache ip).inum = (w.mem.icache jp).inum) :
    ip = jp := by
  refine h.rep.unique (i := (w.mem.icache ip).inum) ⟨?_, h.rep.inum_eq ip⟩ ⟨?_, ?_⟩
  · rwa [h.rep.ref_eq]
  · rwa [h.rep.ref_eq]
  · rw [h.rep.inum_eq, he]

/-- An entry of the inode cache has as many references as open files and working directories. -/
lemma entry_ref (h : w.Sound L O ino v s) (ip : Fin NINODE) :
    (w.mem.icache ip).ref =
      (Finset.univ.filter fun f => (w.mem.ftable f).type = .inode ∧
        (w.mem.ftable f).ip = ip).card + w.session.dwellers ip := by
  obtain ⟨t, hold, hs⟩ := h.settled
  rw [← h.rep.ref_eq, hs.holds.ref, hs.cwds, ← h.rep.ft, hs.holds.file]
  rfl

end World.Sound

end

end Xv6
