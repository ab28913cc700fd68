import Xv6.Mkfs.Code
import Xv6.Fs.ReadWrite

/-!
# Appending to a file of the image

`mkfs.c` keeps no free map: the blocks below `freeblock` are in use.  `s.view` is the image with the
free map that `balloc` would write now, and in these terms `iappend` does what `writei` does at the
end of a file: `freeblock++` is the `balloc` of the kernel, which finds the first clear bit, and the
loop of `iappend` has the effect `L.Wrote` that the loop of `writei` has.

A block behind `freeblock` still holds the zeros of the first loop of `main` (`Ready`), which
`iappend` relies on where the kernel calls `bzero`.
-/

namespace Xv6.Mkfs

open Lib

/-! ## Layout -/

/-- The inodes that the inode blocks have room for. -/
abbrev NSLOTS : ℕ := ninodeblocks * IPB

lemma iblock_lt_bmapstart {i : ℕ} (hi : i < NSLOTS) : IBLOCK i sb < sb.bmapstart := by
  simp only [sb, IBLOCK, NSLOTS, ninodeblocks, NINODES, IPB, BSIZE, DINODESIZE] at hi ⊢
  omega

/-- The layout that the superblock describes. -/
def layout : Layout where
  sb := sb
  limit := some MAXOPBLOCKS
  scarce := True
  waits := True
  size_le := le_rfl
  log_start := le_rfl
  log_end := le_rfl
  inodes_end _ hi := iblock_lt_bmapstart (hi.trans_le (by decide))
  bmap_lt := by decide
  root_lt := by decide
  log_pos := by decide
  limit_log n hn _ := by
    cases hn
    decide
  limit_buf n hn := by
    cases hn
    decide

/-- The same layout with all inodes that the inode blocks have room for. -/
def area : Layout where
  sb := { sb with ninodes := NSLOTS }
  limit := some MAXOPBLOCKS
  scarce := True
  waits := True
  size_le := le_rfl
  log_start := le_rfl
  log_end := le_rfl
  inodes_end _ hi := iblock_lt_bmapstart hi
  bmap_lt := by decide
  root_lt := by decide
  log_pos := by decide
  limit_log n hn _ := by
    cases hn
    decide
  limit_buf n hn := by
    cases hn
    decide

lemma bmapstart_lt : sb.bmapstart < nmeta := by decide

lemma sector_of_le {b : ℕ} (h : b ≤ FSSIZE) : sector b = b := by
  rw [sector, Nat.mod_eq_of_lt]
  · exact Nat.mul_div_cancel b (by norm_num)
  · simp only [FSSIZE, BSIZE, UINT] at *
    omega

/-! ## The free map -/

lemma bitmap_succ (n : ℕ) : bitmap (n + 1) = setBit n (bitmap n) := by
  rw [bitmap, List.range_succ, List.foldl_append]
  rfl

lemma bit_bitmap (used : ℕ) {b : ℕ} (hb : b < BPB) : bit (bitmap used) b = decide (b < used) := by
  induction used with
  | zero => simp [bitmap, bit]
  | succ used ih =>
    rw [bitmap_succ, bit_setBit _ hb, ih, ← Bool.decide_or]
    exact decide_eq_decide.mpr (by omega)

/-- The image with the free map that `balloc` would write. -/
def State.view (s : State) : ℕ → Block :=
  Function.update s.img sb.bmapstart (bitmap s.freeblock)

/-- What `iappend` relies on. -/
structure Ready (s : State) : Prop where
  len : s.len = FSSIZE
  low : nmeta ≤ s.freeblock
  high : s.freeblock ≤ FSSIZE
  fresh : ∀ b, s.freeblock ≤ b → b < FSSIZE → s.img b = Bytes.zero

section

variable {s s' : State} {b x : ℕ} {buf : Block}

lemma view_of_ne (hb : b ≠ sb.bmapstart) : s.view b = s.img b := Function.update_of_ne hb _ _

lemma view_bmapstart (s : State) : s.view area.bmapblock = bitmap s.freeblock :=
  Function.update_self _ _ _

lemma view_newblock (s : State) : (newblock s).view =
    Function.update s.view area.bmapblock (setBit s.freeblock (s.view area.bmapblock)) := by
  rw [view_bmapstart, ← bitmap_succ, State.view, State.view]
  exact (Function.update_idem _ _ _).symm

lemma view_wsect (hb : b < FSSIZE) (hne : b ≠ sb.bmapstart) :
    (wsect b buf s).view = Function.update s.view b buf := by
  rw [State.view, State.view, wsect, sector_of_le hb.le]
  exact Function.update_comm hne _ _ _

lemma img_wsect_of_lt {c : ℕ} (hb : b ≤ FSSIZE) (hc : c < b) : (wsect b buf s).img c = s.img c := by
  rw [wsect, sector_of_le hb]
  exact Function.update_of_ne hc.ne _ _

lemma rsect_of_lt (hr : Ready s) (hb : b < FSSIZE) : rsect b s = some (s.img b) := by
  rw [rsect, sector_of_le hb.le, if_pos (hr.len.symm ▸ hb)]

lemma bit_freeblock (hlt : s.freeblock < FSSIZE) :
    bit (s.view area.bmapblock) s.freeblock = false := by
  rw [view_bmapstart, bit_bitmap _ (hlt.trans (by norm_num))]
  simp

lemma free_view (s : State) : area.free s.view = FSSIZE - s.freeblock := by
  have hset : (Finset.range FSSIZE).filter (fun b => bit (s.view area.bmapblock) b = false) =
      Finset.Ico s.freeblock FSSIZE := by
    ext b
    rw [Finset.mem_filter, Finset.mem_range, Finset.mem_Ico, view_bmapstart]
    constructor
    · rintro ⟨hb, hbit⟩
      rw [bit_bitmap _ (hb.trans (by norm_num)), decide_eq_false_iff_not] at hbit
      exact ⟨Nat.not_lt.mp hbit, hb⟩
    · rintro ⟨hle, hb⟩
      refine ⟨hb, ?_⟩
      rw [bit_bitmap _ (hb.trans (by norm_num)), decide_eq_false_iff_not]
      exact Nat.not_lt.mpr hle
  exact (congrArg Finset.card hset).trans (Nat.card_Ico _ _)

namespace Ready

lemma newblock (hr : Ready s) (hlt : s.freeblock < FSSIZE) : Ready (newblock s) where
  len := hr.len
  low := hr.low.trans (Nat.le_succ _)
  high := hlt
  fresh b hb := hr.fresh b ((Nat.le_succ _).trans hb)

lemma wsect (hr : Ready s) (hb : b < s.freeblock) : Ready (wsect b buf s) where
  len := by
    rw [Mkfs.wsect, sector_of_le (hb.le.trans hr.high), hr.len]
    exact max_eq_left (hb.trans_le hr.high)
  low := hr.low
  high := hr.high
  fresh c hc hc' := by
    rw [Mkfs.wsect, sector_of_le (hb.le.trans hr.high)]
    exact (Function.update_of_ne (hb.trans_le hc).ne' _ _).trans (hr.fresh c hc hc')

lemma freeblock_ne (hr : Ready s) : s.freeblock ≠ sb.bmapstart :=
  (bmapstart_lt.trans_le hr.low).ne'

lemma blk_allocated (hr : Ready s) (hlt : s.freeblock < FSSIZE) {v : Vol} (hv : v.blk = s.view) :
    (area.allocated v s.freeblock).blk = (Mkfs.newblock s).view := by
  rw [Layout.Owns.blk_allocated, hv, ← view_newblock, Function.update_eq_self_iff,
    view_of_ne hr.freeblock_ne]
  exact (hr.fresh _ le_rfl hlt).symm

end Ready

lemma addr_lt {ino : Inos} {i : ℕ} {d : Dinode} (h : area.Owns s.view ino ∅)
    (hi : ino i = some d) {t : Slot} (hs : d.addr s.view t ≠ 0) :
    nmeta ≤ d.addr s.view t ∧ d.addr s.view t < s.freeblock := by
  obtain ⟨hlo, hhi⟩ := h.range_addr hi hs
  refine ⟨hlo, ?_⟩
  have hmark : bit (s.view area.bmapblock) (d.addr s.view t) = true :=
    (h.marked.mark_iff hhi).mpr (Or.inr (Or.inr ⟨(i, t), (own_some hi).mpr ⟨hs, rfl⟩⟩))
  rwa [view_bmapstart, bit_bitmap _ (Layout.Owns.size_lt area hhi), decide_eq_true_iff] at hmark

end

/-! ## What the loop leaves alone -/

section

variable {s s' : State} {d d' : Dinode} {k x off off' turns : ℕ} {p : List UInt8}

/-- Whatever the image holds, `iappend` touches blocks and block addresses only. -/
structure Keeps (d : Dinode) (s : State) (d' : Dinode) (s' : State) : Prop where
  freeinode : s'.freeinode = s.freeinode
  written : s'.written = s.written
  freeblock : s.freeblock ≤ s'.freeblock
  fields : ∃ a, d' = { d with addrs := a }

namespace Keeps

lemma refl (d : Dinode) (s : State) : Keeps d s d s := ⟨rfl, rfl, le_rfl, d.addrs, rfl⟩

lemma trans {d'' : Dinode} {s'' : State} (h : Keeps d s d' s') (h' : Keeps d' s' d'' s'') :
    Keeps d s d'' s'' := by
  refine ⟨h'.freeinode.trans h.freeinode, h'.written.trans h.written,
    h.freeblock.trans h'.freeblock, ?_⟩
  obtain ⟨a, rfl⟩ := h.fields
  obtain ⟨a', rfl⟩ := h'.fields
  exact ⟨a', rfl⟩

lemma wsect (h : Keeps d s d' s') (sec : ℕ) (buf : Block) : Keeps d s d' (wsect sec buf s') :=
  ⟨h.freeinode, h.written, h.freeblock, h.fields⟩

end Keeps

lemma keeps_direct (k : Fin (NDIRECT + 1)) (d : Dinode) (s : State) :
    Keeps d s (direct k d s).1 (direct k d s).2 := by
  rw [direct]
  split_ifs
  · exact ⟨rfl, rfl, Nat.le_succ _, _, rfl⟩
  · exact .refl d s

lemma keeps_indirectSector (h : indirectSector k d s = some (x, d', s')) : Keeps d s d' s' := by
  obtain ⟨buf, -, h⟩ := Option.bind_eq_some_iff.mp h
  split_ifs at h
  · cases h
    exact ⟨rfl, rfl, Nat.le_succ _, _, rfl⟩
  · cases h
    exact .refl _ _

lemma keeps_findSector (h : findSector k d s = some (x, d', s')) : Keeps d s d' s' := by
  rw [findSector] at h
  split_ifs at h with hk
  · have hd := keeps_direct ⟨k, Nat.lt_succ_of_lt hk⟩ d s
    rwa [(Prod.mk.inj (Option.some.inj h)).2] at hd
  · exact (keeps_direct (Fin.last NDIRECT) d s).trans (keeps_indirectSector h)

lemma keeps_appendLoop (h : appendLoop turns d off p s = some (d', off', s')) :
    Keeps d s d' s' := by
  induction turns generalizing d off p s with
  | zero =>
    cases h
    exact .refl _ _
  | succ turns ih =>
    rw [appendLoop] at h
    split_ifs at h with hp
    · cases h
      exact .refl _ _
    · dsimp only at h
      split_ifs at h with hmax
      obtain ⟨⟨x, d₁, s₁⟩, hfind, h⟩ := Option.bind_eq_some_iff.mp h
      obtain ⟨buf, -, h⟩ := Option.bind_eq_some_iff.mp h
      exact ((keeps_findSector hfind).wsect _ _).trans (ih h)

end

/-! ## The loop -/

section

variable {s s' : State} {d d' : Dinode} {ino : Inos} {i k n x off turns : ℕ} {p : List UInt8}
  {v : Vol}

lemma indirectSector_of_ne {j : ℕ} {buf : Block} (hb : rsect d.indirect s = some buf)
    (he : entry buf j ≠ 0) : indirectSector j d s = some (entry buf j, d, s) := by
  rw [indirectSector, hb]
  exact if_neg he

lemma indirectSector_of_eq {j : ℕ} {buf : Block} (hb : rsect d.indirect s = some buf)
    (he : entry buf j = 0) (hj : j < NINDIRECT) (hlt : s.freeblock < UINT) :
    indirectSector j d s = some (s.freeblock, d,
      wsect d.indirect (putEntry j s.freeblock buf) (newblock s)) := by
  rw [indirectSector, hb]
  refine (if_pos he).trans ?_
  rw [entry_putEntry_same _ hj hlt]
  rfl

lemma findSector_there (hr : Ready s) (h : area.Owns s.view ino ∅) (hi : ino i = some d)
    (hk : d.addr s.view (.data k) ≠ 0) :
    findSector k d s = some (d.addr s.view (.data k), d, s) := by
  rw [findSector]
  by_cases hdir : k < NDIRECT
  · rw [Dinode.addr_direct hdir] at hk ⊢
    rw [dif_pos hdir, direct, if_neg hk]
  · have hmax : k < MAXFILE := Nat.not_le.mp fun hge => hk (Dinode.addr_of_ge hge)
    have hind : d.indirect ≠ 0 := fun hz =>
      hk (Dinode.addr_of_indirect_eq_zero (Nat.not_lt.mp hdir) hz)
    have hlt := addr_lt (t := .ind) h hi hind
    rw [Dinode.addr_ind] at hlt
    rw [Dinode.addr_indirect (Nat.not_lt.mp hdir) hmax hind] at hk ⊢
    have hne : d.indirect ≠ sb.bmapstart := (bmapstart_lt.trans_le hlt.1).ne'
    have hbuf := rsect_of_lt hr (hlt.2.trans_le hr.high)
    rw [← view_of_ne hne] at hbuf
    rw [dif_neg hdir, direct, if_neg (show d.addrs (Fin.last NDIRECT) ≠ 0 from hind)]
    exact indirectSector_of_ne hbuf hk

/-- What the next block of a file does, with enough blocks left. -/
structure Extends (i n : ℕ) (ino : Inos) (v : Vol) (d : Dinode) (s : State) (x : ℕ) (d' : Dinode)
    (s' : State) : Prop where
  ready : Ready s'
  bmap : s'.img sb.bmapstart = s.img sb.bmapstart
  ne_zero : x ≠ 0
  lt : nmeta ≤ x ∧ x < s'.freeblock
  mapped : ∃ v', v'.blk = s'.view ∧ area.Mapped i n x ino v v' d d'

lemma findSector_direct (hr : Ready s) (hv : v.blk = s.view) (h : area.Owns v.blk ino ∅)
    (hi : ino i = some d) (hn : n < NDIRECT) (hz : d.addr v.blk (.data n) = 0) :
    ∃ d' s', findSector n d s = some (s.freeblock, d', s') ∧ s'.len = s.len ∧
      (s.freeblock < FSSIZE → Extends i n ino v d s s.freeblock d' s') := by
  have hk : d.addrs (Fin.castSucc ⟨n, hn⟩) = 0 := by rwa [Dinode.addr_direct hn] at hz
  refine ⟨d.setAddr (Fin.castSucc ⟨n, hn⟩) s.freeblock, newblock s, ?_, rfl, fun hlt => ?_⟩
  · have hdirect : direct ⟨n, Nat.lt_succ_of_lt hn⟩ d s =
        (d.setAddr (Fin.castSucc ⟨n, hn⟩) s.freeblock, newblock s) := if_pos hk
    rw [findSector, dif_pos hn, hdirect]
    simp [Dinode.setAddr]
  · have hbit : bit (v.blk area.bmapblock) s.freeblock = false := hv ▸ bit_freeblock hlt
    exact ⟨hr.newblock hlt, rfl, h.ne_zero_of_free hlt hbit, ⟨hr.low, Nat.lt_succ_self _⟩,
      area.allocated v s.freeblock, hr.blk_allocated hlt hv,
      h.mapped_direct (k := ⟨n, hn⟩) hi hlt hbit hk⟩

lemma findSector_entry (hr : Ready s) (hv : v.blk = s.view) (h : area.Owns v.blk ino ∅)
    (hi : ino i = some d) (hge : NDIRECT ≤ n) (hn : n < MAXFILE) (hind : d.indirect ≠ 0)
    (hz : d.addr v.blk (.data n) = 0) :
    ∃ x d' s', findSector n d s = some (x, d', s') ∧ s'.len = s.len ∧ sector x = s.freeblock ∧
      (s.freeblock < FSSIZE → Extends i n ino v d s x d' s') := by
  have hj : n - NDIRECT < NINDIRECT := by simp only [MAXFILE] at hn; omega
  have hsum : NDIRECT + (n - NDIRECT) = n := Nat.add_sub_of_le hge
  rw [Dinode.addr_indirect hge hn hind] at hz
  have hlt := addr_lt (t := .ind) (hv ▸ h) hi hind
  rw [Dinode.addr_ind] at hlt
  have hne : d.indirect ≠ sb.bmapstart := (bmapstart_lt.trans_le hlt.1).ne'
  have hlt' : d.indirect < FSSIZE := hlt.2.trans_le hr.high
  have hblk : v.blk d.indirect = s.img d.indirect := by rw [hv, view_of_ne hne]
  have hfind : findSector n d s = some (s.freeblock, d, wsect d.indirect
      (putEntry (n - NDIRECT) s.freeblock (s.img d.indirect)) (newblock s)) := by
    rw [findSector, dif_neg (Nat.not_lt.mpr hge), direct,
      if_neg (show d.addrs (Fin.last NDIRECT) ≠ 0 from hind)]
    exact indirectSector_of_eq (rsect_of_lt hr hlt') (hblk ▸ hz) hj
      (hr.high.trans_lt (by norm_num))
  refine ⟨_, _, _, hfind, ?_, sector_of_le hr.high, fun hfree => ?_⟩
  · show max s.len (sector d.indirect + 1) = s.len
    rw [sector_of_le hlt'.le, hr.len]
    exact max_eq_left hlt'
  · have hbit : bit (v.blk area.bmapblock) s.freeblock = false := hv ▸ bit_freeblock hfree
    have hr₁ := hr.newblock hfree
    have hm := h.mapped_entry hi hfree hbit hind hj hz
    rw [hsum] at hm
    refine ⟨hr₁.wsect (hlt.2.trans (Nat.lt_succ_self _)),
      img_wsect_of_lt hlt'.le (bmapstart_lt.trans_le hlt.1), h.ne_zero_of_free hfree hbit,
      ⟨hr.low, Nat.lt_succ_self _⟩, _, ?_, hm⟩
    have hsame : (area.allocated v s.freeblock).blk d.indirect = s.img d.indirect := by
      rw [hr.blk_allocated hfree hv, view_of_ne hne]
      rfl
    rw [view_wsect hlt' hne, ← hr.blk_allocated hfree hv, ← hsame]
    rfl

lemma findSector_indirect (hr : Ready s) (hv : v.blk = s.view) (h : area.Owns v.blk ino ∅)
    (hi : ino i = some d) (hge : NDIRECT ≤ n) (hn : n < MAXFILE) (hind : d.indirect = 0) :
    (s.freeblock < FSSIZE ∧ ∃ x d' s', findSector n d s = some (x, d', s') ∧ s'.len = s.len ∧
        sector x = s.freeblock + 1 ∧
        (s.freeblock + 1 < FSSIZE → Extends i n ino v d s x d' s')) ∨
      (s.freeblock = FSSIZE ∧ findSector n d s = none) := by
  have hdirect : direct (Fin.last NDIRECT) d s =
      (d.setAddr (Fin.last NDIRECT) s.freeblock, newblock s) := if_pos hind
  have hind' : (d.setAddr (Fin.last NDIRECT) s.freeblock).indirect = s.freeblock := by
    simp [Dinode.setAddr, Dinode.indirect]
  rcases hr.high.lt_or_eq with hlt | heq
  · refine Or.inl ⟨hlt, ?_⟩
    have hj : n - NDIRECT < NINDIRECT := by simp only [MAXFILE] at hn; omega
    have hsum : NDIRECT + (n - NDIRECT) = n := Nat.add_sub_of_le hge
    have hr₁ := hr.newblock hlt
    have hbit : bit (v.blk area.bmapblock) s.freeblock = false := hv ▸ bit_freeblock hlt
    have himg : (newblock s).img s.freeblock = Bytes.zero := hr.fresh _ le_rfl hlt
    -- two blocks are taken: one for the addresses, and one for the data
    have hfind : findSector n d s = some (s.freeblock + 1, d.setAddr (Fin.last NDIRECT) s.freeblock,
        wsect s.freeblock (putEntry (n - NDIRECT) (s.freeblock + 1) Bytes.zero)
          (newblock (newblock s))) := by
      have hbuf : rsect (d.setAddr (Fin.last NDIRECT) s.freeblock).indirect (newblock s) =
          some Bytes.zero := by rw [hind', rsect_of_lt hr₁ hlt, himg]
      rw [findSector, dif_neg (Nat.not_lt.mpr hge), hdirect]
      refine (indirectSector_of_eq hbuf (entry_zero _) hj
        ((Nat.succ_le_of_lt hlt).trans_lt (by norm_num))).trans ?_
      rw [hind']
      rfl
    refine ⟨_, _, _, hfind, ?_, sector_of_le hlt, fun hlt₁ => ?_⟩
    · show max s.len (sector s.freeblock + 1) = s.len
      rw [sector_of_le hlt.le, hr.len]
      exact max_eq_left hlt
    have hv₁ := hr.blk_allocated hlt hv
    have hbit₁ : bit ((area.allocated v s.freeblock).blk area.bmapblock) (s.freeblock + 1) =
        false := hv₁ ▸ bit_freeblock hlt₁
    have hm := h.mapped_indirect hi hlt hbit (h.ne_zero_of_free hlt hbit) hind hlt₁ hbit₁ hj
    rw [hsum] at hm
    have hv₂ := hr₁.blk_allocated hlt₁ hv₁
    refine ⟨(hr₁.newblock hlt₁).wsect ?_, img_wsect_of_lt hlt.le (bmapstart_lt.trans_le hr.low),
      Nat.succ_ne_zero _, ⟨hr₁.low, Nat.lt_succ_self _⟩, _, ?_, hm⟩
    · show s.freeblock < s.freeblock + 1 + 1
      omega
    · have hsame : (area.allocated (area.allocated v s.freeblock) (s.freeblock + 1)).blk
          s.freeblock = Bytes.zero :=
        (congrFun hv₂ s.freeblock).trans ((view_of_ne hr.freeblock_ne).trans himg)
      rw [view_wsect hlt hr.freeblock_ne, ← hv₂, ← hsame]
      rfl
  -- the image is full: the block of addresses would be behind its end, and `rsect` fails
  · refine Or.inr ⟨heq, ?_⟩
    rw [findSector, dif_neg (Nat.not_lt.mpr hge), hdirect, indirectSector, hind', rsect, if_neg]
    · rfl
    · rw [sector_of_le heq.le, heq]
      exact Nat.not_lt.mpr hr.len.le

lemma rsect_of_ge (hlen : s'.len = FSSIZE) (hx : FSSIZE ≤ sector x) : rsect x s' = none := by
  rw [rsect, if_neg (hlen ▸ Nat.not_lt.mpr hx)]

/-- **The next block of a file.**  The loop goes on if there are blocks left, and `mkfs` ends if
not. -/
lemma findSector_new (hr : Ready s) (hv : v.blk = s.view) (h : area.Owns v.blk ino ∅)
    (hi : ino i = some d) (hf : d.Filled v.blk n) (hn : n < MAXFILE) :
    (∃ x d' s', findSector n d s = some (x, d', s') ∧ Extends i n ino v d s x d' s') ∨
      ((findSector n d s).bind (fun r => rsect r.1 r.2.2) = none ∧
        FSSIZE - s.freeblock + occupied n < occupied (n + 1)) := by
  have hz : d.addr v.blk (.data n) = 0 :=
    not_not.mp fun hne => absurd ((hf.data n).mp hne) (lt_irrefl n)
  have hone : FSSIZE - FSSIZE + occupied n < occupied (n + 1) := by
    simp only [occupied]
    split_ifs <;> omega
  by_cases hdir : n < NDIRECT
  · obtain ⟨d', s', hfind, hlen, hext⟩ := findSector_direct hr hv h hi hdir hz
    rcases hr.high.lt_or_eq with hlt | heq
    · exact Or.inl ⟨_, d', s', hfind, hext hlt⟩
    · refine Or.inr ⟨?_, heq ▸ hone⟩
      rw [hfind]
      exact rsect_of_ge (hlen.trans hr.len) (by rw [sector_of_le hr.high, heq])
  have hge := Nat.not_lt.mp hdir
  by_cases hind : d.indirect = 0
  · have htwo : occupied (n + 1) = occupied n + 2 := by
      have hnlt : ¬ NDIRECT < n := fun hlt => hf.ind.mpr hlt hind
      rw [occupied, occupied, if_neg hnlt, if_pos (by omega)]
    rcases findSector_indirect hr hv h hi hge hn hind with
      ⟨hlt, x, d', s', hfind, hlen, hsec, hext⟩ | ⟨heq, hnone⟩
    · rcases (Nat.succ_le_of_lt hlt).lt_or_eq with hlt₁ | heq
      · exact Or.inl ⟨x, d', s', hfind, hext hlt₁⟩
      · refine Or.inr ⟨?_, by omega⟩
        rw [hfind]
        exact rsect_of_ge (hlen.trans hr.len) (hsec.trans heq).ge
    · refine Or.inr ⟨?_, heq ▸ hone⟩
      rw [hnone]
      rfl
  · obtain ⟨x, d', s', hfind, hlen, hsec, hext⟩ := findSector_entry hr hv h hi hge hn hind hz
    rcases hr.high.lt_or_eq with hlt | heq
    · exact Or.inl ⟨x, d', s', hfind, hext hlt⟩
    · refine Or.inr ⟨?_, heq ▸ hone⟩
      rw [hfind]
      exact rsect_of_ge (hlen.trans hr.len) (hsec.trans heq).ge

/-- There are blocks for a file of `n` blocks that grows to `off` bytes. -/
def Fits (s : State) (n off : ℕ) : Prop :=
  off ≤ MAXFILE * BSIZE ∧ occupied (max n (nblocks off)) ≤ FSSIZE - s.freeblock + occupied n

lemma appendLoop_succ (hp : p ≠ []) (hmax : off / BSIZE < MAXFILE) :
    appendLoop (turns + 1) d off p s = (findSector (off / BSIZE) d s).bind fun r =>
      (rsect r.1 r.2.2).bind fun buf =>
        appendLoop turns r.2.1 (off + firstPart off p.length) (p.drop (firstPart off p.length))
          (wsect r.1 (buf.blit (off % BSIZE) (firstPart off p.length) fun j => p.getD j 0)
            r.2.2) := by
  have hn1 : min p.length ((off / BSIZE + 1) * BSIZE - off) = firstPart off p.length := by
    rw [firstPart]
    simp only [BSIZE]
    omega
  have hoff : off - off / BSIZE * BSIZE = off % BSIZE := by
    simp only [BSIZE]
    omega
  rw [appendLoop, if_neg hp]
  dsimp only
  rw [if_neg (Nat.not_le.mpr hmax), hn1, hoff]
  rfl

/-- **The loop of `iappend`** has the effect of the loop of `writei`, or ends `mkfs` because the
file gets too large or the blocks run out. -/
lemma appendLoop_spec (hr : Ready s) (hv : v.blk = s.view) (h : area.Owns v.blk ino ∅)
    (hi : ino i = some d) (hf : d.Filled v.blk n) (hoff : off ≤ n * BSIZE)
    (hturns : p.length ≤ turns) :
    (∃ d' s' v', appendLoop turns d off p s = some (d', off + p.length, s') ∧ Ready s' ∧
        s'.img sb.bmapstart = s.img sb.bmapstart ∧ v'.blk = s'.view ∧
        area.Wrote i off p n ino v v' d d') ∨
      (appendLoop turns d off p s = none ∧ ¬ Fits s n (off + p.length)) := by
  induction turns generalizing v s ino d n off p with
  | zero =>
    obtain rfl : p = [] := List.length_eq_zero_iff.mp (Nat.le_zero.mp hturns)
    exact Or.inl ⟨d, s, v, rfl, hr, rfl, hv, .nil h hi hf hoff⟩
  | succ turns ih =>
    by_cases hp : p = []
    · subst hp
      exact Or.inl ⟨d, s, v, by rw [appendLoop, if_pos rfl]; rfl, hr, rfl, hv, .nil h hi hf hoff⟩
    have hpos : 0 < p.length := List.length_pos_iff.mpr hp
    rcases Nat.lt_or_ge (off / BSIZE) MAXFILE with hmax | hmax
    swap
    · refine Or.inr ⟨?_, fun hfits => ?_⟩
      · rw [appendLoop, if_neg hp]
        exact if_pos hmax
      · have := hfits.1
        simp only [BSIZE, MAXFILE, NDIRECT, NINDIRECT] at *
        omega
    have hle : off / BSIZE ≤ n := by
      simp only [BSIZE] at *
      omega
    have hnext : off / BSIZE + 1 ≤ nblocks (off + p.length) := by
      simp only [nblocks, BSIZE]
      omega
    -- the block is there, or it is the next one
    have hfind : (∃ x d₁ s₁ v₁, findSector (off / BSIZE) d s = some (x, d₁, s₁) ∧ Ready s₁ ∧
          s₁.img sb.bmapstart = s.img sb.bmapstart ∧ (nmeta ≤ x ∧ x < s₁.freeblock) ∧
          v₁.blk = s₁.view ∧ x = d₁.addr v₁.blk (.data (off / BSIZE)) ∧
          (off / BSIZE < n → v₁ = v ∧ d₁ = d) ∧
          (off / BSIZE = n → area.Mapped i n x ino v v₁ d d₁)) ∨
        ((findSector (off / BSIZE) d s).bind (fun r => rsect r.1 r.2.2) = none ∧
          ¬ Fits s n (off + p.length)) := by
      rcases hle.lt_or_eq with hlt | heq
      · have hmap := (hf.data _).mpr hlt
        have hthere := findSector_there hr (hv ▸ h) hi (hv ▸ hmap)
        rw [← hv] at hthere
        exact Or.inl ⟨_, d, s, v, hthere, hr, rfl, hv ▸ addr_lt (hv ▸ h) hi (hv ▸ hmap), hv, rfl,
          fun _ => ⟨rfl, rfl⟩, fun he => absurd he hlt.ne⟩
      · rw [heq]
        rcases findSector_new hr hv h hi hf (heq ▸ hmax) with
          ⟨x, d₁, s₁, hsome, ⟨hr₁, hb₁, hx, hlt, v₁, hv₁, hm⟩⟩ | ⟨hnone, hfew⟩
        · exact Or.inl ⟨x, d₁, s₁, v₁, hsome, hr₁, hb₁, hlt, hv₁, hm.addr_self.symm,
            fun he => absurd he (lt_irrefl n), fun _ => hm⟩
        · refine Or.inr ⟨hnone, fun hfits => Nat.not_lt.mpr ?_ hfew⟩
          refine (occupied_mono ?_).trans hfits.2
          exact (heq ▸ hnext).trans (le_max_right _ _)
    rw [appendLoop_succ hp hmax]
    rcases hfind with ⟨x, d₁, s₁, v₁, hsome, hr₁, hb₁, hlt, hv₁, rfl, hthere, hnew⟩ | ⟨hnone, hfits⟩
    swap
    · refine Or.inr ⟨?_, hfits⟩
      cases hs : findSector (off / BSIZE) d s with
      | none => rfl
      | some r =>
        rw [hs, Option.bind_some] at hnone
        rw [Option.bind_some, hnone]
        rfl
    have hne : d₁.addr v₁.blk (.data (off / BSIZE)) ≠ sb.bmapstart :=
      (bmapstart_lt.trans_le hlt.1).ne'
    have hne₀ : d₁.addr v₁.blk (.data (off / BSIZE)) ≠ 0 := fun hz => by
      have := hlt.1
      rw [hz] at this
      exact absurd this (by decide)
    have hlt' := hlt.2.trans_le hr₁.high
    have hw := h.wrote_first hi hf hp hoff hmax hne₀ hthere hnew
    rw [hsome, Option.bind_some, rsect_of_lt hr₁ hlt', Option.bind_some, ← view_of_ne hne, ← hv₁]
    have hlen := length_take_firstPart off p
    have hm : firstPart off p.length ≤ p.length := Nat.min_le_left _ _
    have hm₀ : 0 < firstPart off p.length := by
      rw [← hlen]
      exact List.length_pos_iff.mpr (take_firstPart_ne_nil off hp)
    have hdrop : (p.drop (firstPart off p.length)).length = p.length - firstPart off p.length :=
      List.length_drop ..
    have hsum : off + firstPart off p.length + (p.drop (firstPart off p.length)).length =
        off + p.length := by rw [hdrop]; omega
    have hfilled := hw.filled
    have hfree := hw.free
    rw [hlen] at hfilled hfree
    have hview : (v₁.put (d₁.addr v₁.blk (.data (off / BSIZE)))
        ((v₁.blk (d₁.addr v₁.blk (.data (off / BSIZE)))).blit (off % BSIZE)
          (firstPart off p.length) fun j => p.getD j 0)).blk =
        (wsect (d₁.addr v₁.blk (.data (off / BSIZE)))
          ((v₁.blk (d₁.addr v₁.blk (.data (off / BSIZE)))).blit (off % BSIZE)
            (firstPart off p.length) fun j => p.getD j 0) s₁).view := by
      rw [view_wsect hlt' hne, ← hv₁]
      rfl
    have hrec := ih (hr₁.wsect hlt.2) hview hw.owns (Function.update_self _ _ _) hfilled
      (nblocks_le.mp (le_max_right _ _)) (by rw [hdrop]; omega)
    rw [hsum] at hrec
    rcases hrec with ⟨d', s', v', hrun, hr', hb', hv', hw'⟩ | ⟨hrun, hfits⟩
    · refine Or.inl ⟨d', s', v', hrun, hr', ?_, hv', hw.trans hw' hp⟩
      rw [hb', img_wsect_of_lt hlt'.le (bmapstart_lt.trans_le hlt.1), hb₁]
    · refine Or.inr ⟨hrun, fun hfits' => hfits ⟨hfits'.1, ?_⟩⟩
      rw [hview, hv, free_view, free_view] at hfree
      have h₂ := hfits'.2
      rw [max_assoc, max_eq_right (nblocks_mono (Nat.add_le_add_left hm off))]
      omega

end

end Xv6.Mkfs
