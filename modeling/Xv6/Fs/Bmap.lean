import Xv6.Fs.Blocks
import Mathlib.Algebra.BigOperators.Group.Finset.Basic

/-!
# The block map

`bmap(ip, k)` answers with the address of a block that is there, without any effect, and adds the
first block that is missing.  The address is stored in memory only; it reaches the drive with the
next `iupdate`.

* `v.Logs v' M n` says that on the way from `v` to `v'` no blocks have been passed to the log but
  those in `M` and `n` others.  It is how the specifications account for the log.
* `Layout.Local` says that a change concerns one file only: the blocks of the other files stay as
  they are, and so does what is in front of the data, the free map aside.
* `Layout.Mapped` is what `bmap` does when it adds a block.  `fwp_bmap_new` shows it for the three
  cases of the code: a direct block, an entry of the indirect block, and an indirect block together
  with its first entry, which takes two blocks.

`Layout.taken` is the number of blocks that files of given sizes take, and `Owns.free_add_taken`
says that together with the free blocks these are all data blocks.  So whether `balloc` can fail is
a matter of the sizes of files.
-/

namespace Xv6

open Lib

/-! ## What is logged -/

/-- Between the volumes, the blocks in `M` and `n` others are passed to `log_write` at most. -/
def Vol.Logs (v v' : Vol) (M : Finset ℕ) (n : ℕ) : Prop :=
  ∃ X : Finset ℕ, X.card ≤ n ∧ v'.logged ⊆ v.logged ∪ M ∪ X

namespace Vol.Logs

variable {v v' v'' : Vol} {M M' : Finset ℕ} {m n : ℕ} {L : Layout}

lemma refl (v : Vol) (M : Finset ℕ) (n : ℕ) : v.Logs v M n :=
  ⟨∅, Nat.zero_le _, fun _ hx => by simp [hx]⟩

lemma mono (h : v.Logs v' M n) (hM : M ⊆ M') (hn : n ≤ m) : v.Logs v' M' m := by
  obtain ⟨X, hX, hsub⟩ := h
  exact ⟨X, hX.trans hn, hsub.trans (Finset.union_subset_union_left
    (Finset.union_subset_union_right hM))⟩

lemma trans (h : v.Logs v' M n) (h' : v'.Logs v'' M m) : v.Logs v'' M (n + m) := by
  obtain ⟨X, hX, hsub⟩ := h
  obtain ⟨Y, hY, hsub'⟩ := h'
  refine ⟨X ∪ Y, (Finset.card_union_le _ _).trans (Nat.add_le_add hX hY), fun x hx => ?_⟩
  have hx' := hsub' hx
  simp only [Finset.mem_union] at hx' ⊢
  rcases hx' with (hx' | hx') | hx'
  · have := hsub hx'
    simp only [Finset.mem_union] at this
    tauto
  · tauto
  · tauto

lemma put_mem {b : ℕ} (h : v.Logs v' M n) (hb : b ∈ M) (x : Block) : v.Logs (v'.put b x) M n := by
  obtain ⟨X, hX, hsub⟩ := h
  refine ⟨X, hX, Finset.insert_subset ?_ hsub⟩
  simp [hb]

lemma put (h : v.Logs v' M n) (b : ℕ) (x : Block) : v.Logs (v'.put b x) M (n + 1) := by
  obtain ⟨X, hX, hsub⟩ := h
  refine ⟨insert b X, (Finset.card_insert_le _ _).trans (Nat.add_le_add_right hX 1),
    Finset.insert_subset (by simp) (hsub.trans ?_)⟩
  exact Finset.union_subset_union_right (Finset.subset_insert _ _)

lemma room (h : v.Logs v' M n) (hr : L.Room ((v.logged ∪ M).card + (n + m))) :
    L.Room ((v'.logged ∪ M).card + m) := by
  obtain ⟨X, hX, hsub⟩ := h
  refine hr.mono ?_
  have hcard : (v'.logged ∪ M).card ≤ (v.logged ∪ M).card + n := by
    calc (v'.logged ∪ M).card ≤ (v.logged ∪ M ∪ X).card :=
          Finset.card_le_card (Finset.union_subset hsub fun x hx => by simp [hx])
      _ ≤ (v.logged ∪ M).card + X.card := Finset.card_union_le _ _
      _ ≤ _ := Nat.add_le_add_left hX _
  omega

end Vol.Logs

namespace Layout

variable {L : Layout} {v : Vol} {M : Finset ℕ} {n : ℕ}

lemma Room.log_mem {b : ℕ} (h : L.Room ((v.logged ∪ M).card + n)) (hb : b ∈ M) :
    L.Room (insert b v.logged).card := by
  refine h.mono ((Finset.card_le_card ?_).trans (Nat.le_add_right _ _))
  exact Finset.insert_subset (by simp [hb]) Finset.subset_union_left

end Layout

/-! ## Allocated blocks -/

lemma Layout.free_put {L : Layout} {v : Vol} {b : ℕ} (hb : b ≠ L.bmapblock) (x : Block) :
    L.free (v.put b x).blk = L.free v.blk := by
  rw [Layout.free, Vol.blk_put_of_ne v hb.symm, Layout.free]

namespace Layout.Owns

variable {L : Layout} {v : Vol} {ino : Inos} {spare : Finset ℕ} {i b : ℕ} {d : Dinode}

lemma bit_low {blk : ℕ → Block} (h : L.Owns blk ino spare) {c : ℕ} (hc : c < L.datastart) :
    bit (blk L.bmapblock) c = true := by
  have hs : c < L.sb.size := Nat.lt_of_lt_of_le hc L.bmap_lt
  exact (h.marked.mark_iff hs).mpr (Or.inl hc)

lemma blk_allocated (b : ℕ) : (L.allocated v b).blk =
    Function.update (Function.update v.blk L.bmapblock (setBit b (v.blk L.bmapblock))) b
      Bytes.zero := rfl

section

variable (h : L.Owns v.blk ino spare) (hb : b < L.sb.size)
  (hbit : bit (v.blk L.bmapblock) b = false)

include h hb hbit

lemma datastart_le_of_free : L.datastart ≤ b := (h.marked.free hb hbit).1

lemma ne_bmapblock_of_free : b ≠ L.bmapblock := fun he =>
  Nat.not_lt.mpr (h.datastart_le_of_free hb hbit) (he ▸ bmapblock_lt L)

lemma allocated : L.Owns (L.allocated v b).blk ino (insert b spare) :=
  (h.take hb hbit).put (h.ne_bmapblock_of_free hb hbit)
    (fun _ => (h.take hb hbit).marked.spare_free (Finset.mem_insert_self _ _)) _

lemma same_allocated (hi : ino i = some d) : d.Same v.blk (L.allocated v b).blk :=
  (h.same_of_lt hi (bmapblock_lt L) _).trans
    ((h.take hb hbit).same_of_spare hi (Finset.mem_insert_self _ _) _)

lemma free_allocated : L.free v.blk = L.free (L.allocated v b).blk + 1 := by
  have hset : (Finset.range L.sb.size).filter
      (fun c => bit ((L.allocated v b).blk L.bmapblock) c = false) =
      ((Finset.range L.sb.size).filter fun c => bit (v.blk L.bmapblock) c = false).erase b := by
    ext c
    simp only [Finset.mem_filter, Finset.mem_erase, Finset.mem_range, blk_allocated,
      Function.update_of_ne (h.ne_bmapblock_of_free hb hbit).symm, Function.update_self]
    refine ⟨fun ⟨hc, hz⟩ => ?_, fun ⟨hne, hc, hz⟩ => ⟨hc, ?_⟩⟩
    · rw [bit_setBit _ (size_lt L hc), Bool.or_eq_false_iff, decide_eq_false_iff_not] at hz
      exact ⟨hz.2, hc, hz.1⟩
    · rw [bit_setBit _ (size_lt L hc), hz, Bool.false_or, decide_eq_false_iff_not]
      exact hne
  have hmem : b ∈ (Finset.range L.sb.size).filter fun c => bit (v.blk L.bmapblock) c = false := by
    simp [hb, hbit]
  rw [Layout.free, Layout.free, hset, Finset.card_erase_add_one hmem]

lemma low_allocated {c : ℕ} (hc : c < L.datastart) (hc' : c ≠ L.bmapblock) :
    (L.allocated v b).blk c = v.blk c := by
  have hne : c ≠ b := fun he => Nat.not_lt.mpr (h.datastart_le_of_free hb hbit) (he ▸ hc)
  rw [blk_allocated, Function.update_of_ne hne, Function.update_of_ne hc']

end

end Layout.Owns

/-- The addresses of a file are those of blocks behind the log. -/
def Layout.Within (L : Layout) (blk : ℕ → Block) (d : Dinode) : Prop :=
  ∀ s, d.addr blk s ≠ 0 → L.Out (d.addr blk s)

lemma Layout.Owns.within {L : Layout} {blk : ℕ → Block} {ino : Inos} {spare : Finset ℕ} {i : ℕ}
    {d : Dinode} (h : L.Owns blk ino spare) (hi : ino i = some d) : L.Within blk d := fun _ hs =>
  L.out_data (h.range_addr hi hs).1 (h.range_addr hi hs).2

/-! ## Changes of one file -/

/-- A change of the volume that concerns the file `i` only. -/
structure Layout.Local (L : Layout) (i : ℕ) (ino : Inos) (v v' : Vol) : Prop where
  same : ∀ j d, j ≠ i → ino j = some d → d.Same v.blk v'.blk
  low : ∀ c < L.datastart, c ≠ L.bmapblock → v'.blk c = v.blk c
  old : v'.old = v.old
  held : v'.held = v.held
  pend : v'.pend = v.pend

namespace Layout.Local

variable {L : Layout} {i : ℕ} {ino : Inos} {v v' v'' : Vol} {o : Option Dinode}

lemma refl (L : Layout) (i : ℕ) (ino : Inos) (v : Vol) : L.Local i ino v v :=
  ⟨fun _ _ _ _ => .refl _ _, fun _ _ _ => rfl, rfl, rfl, rfl⟩

lemma trans (h : L.Local i ino v v') (h' : L.Local i (Function.update ino i o) v' v'') :
    L.Local i ino v v'' where
  same j d hj hd := (h.same j d hj hd).trans
    (h'.same j d hj (by rwa [Function.update_of_ne hj]))
  low c hc hc' := (h'.low c hc hc').trans (h.low c hc hc')
  old := h'.old.trans h.old
  held := h'.held.trans h.held
  pend := h'.pend.trans h.pend

end Layout.Local

/-- The effect of `bmap(ip, n)` that adds the block `r` as block `n` of the inode `i`. -/
structure Layout.Mapped (L : Layout) (i n r : ℕ) (ino : Inos) (v v' : Vol) (d d' : Dinode) :
    Prop where
  owns : L.Owns v'.blk (Function.update ino i (some d')) ∅
  fields : ∃ a, d' = { d with addrs := a }
  addr : ∀ k, d'.addr v'.blk (.data k) = if k = n then r else d.addr v.blk (.data k)
  ind : d'.indirect ≠ 0 ↔ d.indirect ≠ 0 ∨ NDIRECT ≤ n
  zero : v'.blk r = Bytes.zero
  keep : ∀ k, d.addr v.blk (.data k) ≠ 0 →
    v'.blk (d.addr v.blk (.data k)) = v.blk (d.addr v.blk (.data k))
  isLocal : L.Local i ino v v'
  logs : v.Logs v' {L.bmapblock} 2
  logged : r ∈ v'.logged
  free : L.free v.blk = L.free v'.blk + 1 + if d.indirect = 0 ∧ NDIRECT ≤ n then 1 else 0

namespace Layout.Mapped

variable {L : Layout} {i n r : ℕ} {ino : Inos} {v v' : Vol} {d d' : Dinode}

lemma addr_self (h : L.Mapped i n r ino v v' d d') : d'.addr v'.blk (.data n) = r := by
  rw [h.addr, if_pos rfl]

lemma filled (h : L.Mapped i n r ino v v' d d') (hr : r ≠ 0) (hf : d.Filled v.blk n)
    (hn : n < MAXFILE) : d'.Filled v'.blk (n + 1) where
  le := hn
  data k := by
    rw [h.addr]
    split_ifs with hk
    · simp [hk, hr]
    · rw [hf.data]
      omega
  ind := by
    rw [h.ind, hf.ind]
    omega

lemma free_eq (h : L.Mapped i n r ino v v' d d') (hf : d.Filled v.blk n) :
    L.free v.blk + occupied n = L.free v'.blk + occupied (n + 1) := by
  have hind : d.indirect = 0 ↔ ¬ NDIRECT < n := by rw [← hf.ind, not_not]
  rw [h.free, occupied, occupied]
  simp only [hind]
  split_ifs <;> omega

lemma byteAt (h : L.Mapped i n r ino v v' d d') (hf : d.Filled v.blk n) {j : ℕ}
    (hj : j < n * BSIZE) : d'.byteAt v'.blk j = d.byteAt v.blk j := by
  have hlt : j / BSIZE < n := Nat.div_lt_of_lt_mul (by rwa [Nat.mul_comm])
  rw [Dinode.byteAt, h.addr, if_neg hlt.ne, h.keep _ ((hf.data _).mpr hlt), Dinode.byteAt]

end Layout.Mapped

section

variable {α : Type} {L : Layout} {D : (ℕ → Block) → Prop} {v : Vol} {fm : FsMem} {ino : Inos}
  {ip : Fin NINODE} {i k n : ℕ}

/-- `ip->addrs[k] = b`, as a change of the memory. -/
def FsMem.setAddr (fm : FsMem) (ip : Fin NINODE) (k : Fin (NDIRECT + 1)) (b : ℕ) : FsMem :=
  fm.setInode ip { fm.icache ip with din := (fm.icache ip).din.setAddr k b }

lemma fwp_setAddr {Q : α → Vol → FsMem → Prop} {k : Fin (NDIRECT + 1)} {b : ℕ} {f : Unit → K α}
    (hf : fwp L D (f ()) Q v (fm.setAddr ip k b)) : fwp L D (setAddr ip k b >>= f) Q v fm :=
  fwp_setInode hf

lemma fwp_directBlock {k : Fin (NDIRECT + 1)} (hk : (fm.icache ip).din.addrs k ≠ 0) :
    fwp L D (directBlock ip k)
      (fun r v' fm' => r = (fm.icache ip).din.addrs k ∧ v' = v ∧ fm' = fm) v fm := by
  refine fwp_readInode ?_
  rw [if_neg hk]
  exact fwp_ret ⟨rfl, rfl, rfl⟩

lemma fwp_directBlock_new {k : Fin (NDIRECT + 1)} (hsb : fm.sb = L.sb) (hip : fm.Caches ip i)
    (hk : (fm.icache ip).din.addrs k = 0) (hp : v.pend = ∅) (hh : v.held.length ≤ 2)
    (hlow : ∀ c < L.datastart, bit (v.blk L.bmapblock) c = true)
    (hroom : ∀ c, L.Room (insert c (insert L.bmapblock v.logged)).card)
    (hfree : L.scarce ∨ 0 < L.free v.blk) :
    fwp L D (directBlock ip k) (fun r v' fm' => r < L.sb.size ∧
      bit (v.blk L.bmapblock) r = false ∧ v' = L.allocated v r ∧ fm' = fm.setAddr ip k r) v fm := by
  refine fwp_readInode ?_
  rw [if_pos hk, hip.2.1]
  refine fwp_seq (fwp_balloc hsb hp hh hlow hroom hfree) ?_
  rintro r v' fm' ⟨rfl, hr, hbit, rfl⟩
  refine fwp_setAddr ?_
  exact fwp_ret ⟨hr, hbit, rfl, rfl⟩

lemma fwp_bmap (hip : fm.Caches ip i) (h : L.Within v.blk (fm.icache ip).din) (hp : v.pend = ∅)
    (hh : v.held.length ≤ 2)
    (hk : (fm.icache ip).din.addr v.blk (.data k) ≠ 0) :
    fwp L D (bmap ip k) (fun r v' fm' => r = (fm.icache ip).din.addr v.blk (.data k) ∧ v' = v ∧
      fm' = fm) v fm := by
  rw [bmap]
  by_cases hdir : k < NDIRECT
  · rw [dif_pos hdir]
    rw [Dinode.addr_direct hdir] at hk ⊢
    exact fwp_directBlock hk
  · have hmax : k < MAXFILE := Nat.not_le.mp fun hge => hk (Dinode.addr_of_ge hge)
    have hind : (fm.icache ip).din.indirect ≠ 0 := fun hz =>
      hk (Dinode.addr_of_indirect_eq_zero (Nat.not_lt.mp hdir) hz)
    rw [dif_neg hdir, if_pos (by simp only [MAXFILE] at hmax; omega)]
    rw [Dinode.addr_indirect (Nat.not_lt.mp hdir) hmax hind] at hk ⊢
    have ho : L.Out (fm.icache ip).din.indirect := h .ind hind
    refine fwp_seq (fwp_directBlock hind) ?_
    rintro x v' fm' ⟨hx, rfl, rfl⟩
    obtain rfl : x = (fm'.icache ip).din.indirect := hx
    refine fwp_readInode ?_
    rw [hip.2.1]
    refine fwp_bread ho hh ?_
    refine fwp_look ho ?_
    rw [if_neg hk]
    refine fwp_release hp ?_
    exact fwp_ret ⟨rfl, rfl, rfl⟩

end

/-! ## New blocks -/

namespace Layout.Owns

variable {L : Layout} {v : Vol} {ino : Inos} {i k b : ℕ} {d : Dinode}

lemma mapped_direct (h : L.Owns v.blk ino ∅) (hi : ino i = some d)
    (hb : b < L.sb.size) (hbit : bit (v.blk L.bmapblock) b = false) {k : Fin NDIRECT}
    (hk : d.addrs k.castSucc = 0) :
    L.Mapped i k b ino v (L.allocated v b) d (d.setAddr k.castSucc b) := by
  have h₁ := h.allocated hb hbit
  have hsame := h.same_allocated hb hbit hi
  refine ⟨?_, ⟨_, rfl⟩, fun j => ?_, ?_, ?_, fun j hj => hsame _ hj, ?_, ?_,
    Finset.mem_insert_self _ _, ?_⟩
  · have h₂ := h₁.setAddr hi (Finset.mem_insert_self _ _) hk
    rwa [Finset.erase_insert (Finset.notMem_empty b)] at h₂
  · rw [Dinode.addr_setAddr, hsame.addr]
    simp only [Slot.data.injEq]
  · rw [Dinode.setAddr_indirect]
    have hlt := k.isLt
    simp only [Nat.not_le.mpr hlt, or_false]
  · rw [blk_allocated, Function.update_self]
  · exact ⟨fun j d₁ _ hd₁ => h.same_allocated hb hbit hd₁, fun c hc hc' =>
      h.low_allocated hb hbit hc hc', rfl, rfl, rfl⟩
  · exact (((Vol.Logs.refl v _ 0).put_mem (Finset.mem_singleton_self _) _).put _ _).mono
      subset_rfl (by omega)
  · rw [if_neg fun hk' => Nat.not_le.mpr k.isLt hk'.2]
    exact h.free_allocated hb hbit

lemma mapped_entry (h : L.Owns v.blk ino ∅) (hi : ino i = some d)
    (hb : b < L.sb.size) (hbit : bit (v.blk L.bmapblock) b = false) (hd : d.indirect ≠ 0) {j : ℕ}
    (hj : j < NINDIRECT) (hz : entry (v.blk d.indirect) j = 0) :
    L.Mapped i (NDIRECT + j) b ino v
      ((L.allocated v b).put d.indirect (putEntry j b ((L.allocated v b).blk d.indirect))) d d := by
  have h₁ := h.allocated hb hbit
  have hsame := h.same_allocated hb hbit hi
  have hmax : NDIRECT + j < MAXFILE := Nat.add_lt_add_left hj _
  have hind : (L.allocated v b).blk d.indirect = v.blk d.indirect := hsame .ind hd
  have hlo : L.datastart ≤ d.indirect := (h.range_addr (s := .ind) hi hd).1
  have hspare : b ∈ insert b (∅ : Finset ℕ) := Finset.mem_insert_self _ _
  have hne : b ≠ d.indirect := fun he => h₁.marked.spare_free hspare (p := (i, .ind))
    ((own_some hi).mpr ⟨he ▸ hd, he.symm⟩)
  -- no block of data is the indirect block
  have hput : ∀ s, s ≠ .ind → d.addr v.blk s ≠ 0 → d.addr v.blk s ≠ d.indirect := fun s hs hs₀ he =>
    hs (h.addr_inj hi hi (t := .ind) hs₀ he).2
  refine ⟨?_, ⟨_, rfl⟩, fun k => ?_, ?_, ?_, fun k hk => ?_, ⟨fun j' d₁ hj' hd₁ => ?_,
    fun c hc hc' => ?_, rfl, rfl, rfl⟩, ?_, by simp [Vol.put, Layout.allocated], ?_⟩
  · have h₂ := h₁.setEntry hi hd hj hspare (hind ▸ hz)
    rw [Finset.erase_insert (Finset.notMem_empty b)] at h₂
    rwa [Function.update_eq_self_iff.mpr hi.symm]
  · rw [← hsame.addr]
    by_cases hk : k < NDIRECT
    · rw [if_neg (by omega), Dinode.addr_direct hk, Dinode.addr_direct hk]
    by_cases hk' : k < MAXFILE
    · rw [Dinode.addr_indirect (Nat.not_lt.mp hk) hk' hd,
        Dinode.addr_indirect (Nat.not_lt.mp hk) hk' hd, Vol.blk_put_self]
      split_ifs with he
      · rw [he, Nat.add_sub_cancel_left, entry_putEntry_same _ hj (lt_uint L hb)]
      · rw [entry_putEntry_of_ne _ (by omega)]
    · rw [if_neg (by omega), Dinode.addr_of_ge (Nat.not_lt.mp hk'),
        Dinode.addr_of_ge (Nat.not_lt.mp hk')]
  · simp [hd]
  · rw [Vol.blk_put_of_ne _ hne, blk_allocated, Function.update_self]
  · rw [Vol.blk_put_of_ne _ (hput _ (by simp) hk)]
    exact hsame _ hk
  · exact (h.same_allocated hb hbit hd₁).trans (h₁.same_of_ne hd₁ hi hj' .ind _)
  · have hne' : c ≠ d.indirect := fun he => Nat.not_lt.mpr hlo (he ▸ hc)
    rw [Vol.blk_put_of_ne _ hne']
    exact h.low_allocated hb hbit hc hc'
  · exact (((Vol.Logs.refl v _ 0).put_mem (Finset.mem_singleton_self _) _).put _ _).put _ _
  · have hbmap : d.indirect ≠ L.bmapblock := fun he =>
      Nat.not_lt.mpr hlo (he ▸ bmapblock_lt L)
    rw [if_neg fun hz' => hd hz'.1, Layout.free_put hbmap]
    exact h.free_allocated hb hbit

lemma allocated_indirect (h : L.Owns v.blk ino ∅) (hi : ino i = some d)
    (hb : b < L.sb.size) (hbit : bit (v.blk L.bmapblock) b = false) (hd : d.indirect = 0) :
    L.Owns (L.allocated v b).blk (Function.update ino i (some (d.setAddr (Fin.last NDIRECT) b)))
      ∅ := by
  have h₁ := h.allocated hb hbit
  have h₂ := h₁.setIndirect hi (Finset.mem_insert_self _ _) hd fun j => by
    rw [blk_allocated, Function.update_self, entry_zero]
  rwa [Finset.erase_insert (Finset.notMem_empty b)] at h₂

lemma addr_allocated_indirect (h : L.Owns v.blk ino ∅) (hi : ino i = some d)
    (hb : b < L.sb.size) (hbit : bit (v.blk L.bmapblock) b = false) (hd : d.indirect = 0) (k : ℕ) :
    (d.setAddr (Fin.last NDIRECT) b).addr (L.allocated v b).blk (.data k) =
      d.addr v.blk (.data k) := by
  rw [Dinode.addr_setIndirect]
  by_cases hk : k < NDIRECT
  · simp only [if_pos hk, (h.same_allocated hb hbit hi).addr]
  · rw [Dinode.addr_of_indirect_eq_zero (Nat.not_lt.mp hk) hd]
    simp [hk, blk_allocated]

lemma isLocal_allocated (h : L.Owns v.blk ino ∅) (hb : b < L.sb.size)
    (hbit : bit (v.blk L.bmapblock) b = false) (i : ℕ) : L.Local i ino v (L.allocated v b) :=
  ⟨fun _ _ _ hd => h.same_allocated hb hbit hd, fun _ hc hc' => h.low_allocated hb hbit hc hc',
    rfl, rfl, rfl⟩

lemma mapped_indirect {x : ℕ} (h : L.Owns v.blk ino ∅) (hi : ino i = some d)
    (hx : x < L.sb.size) (hbitx : bit (v.blk L.bmapblock) x = false) (hx₀ : x ≠ 0)
    (hd : d.indirect = 0) (hb : b < L.sb.size)
    (hbit : bit ((L.allocated v x).blk L.bmapblock) b = false) {j : ℕ} (hj : j < NINDIRECT) :
    L.Mapped i (NDIRECT + j) b ino v ((L.allocated (L.allocated v x) b).put x
      (putEntry j b ((L.allocated (L.allocated v x) b).blk x))) d
      (d.setAddr (Fin.last NDIRECT) x) := by
  have hdx : (d.setAddr (Fin.last NDIRECT) x).indirect = x := by
    simp [Dinode.setAddr, Dinode.indirect]
  have hm := (h.allocated_indirect hi hx hbitx hd).mapped_entry (Function.update_self _ _ _) hb hbit
    (by rwa [hdx]) hj (by rw [hdx, blk_allocated, Function.update_self, entry_zero])
  rw [hdx] at hm
  have haddr := h.addr_allocated_indirect hi hx hbitx hd
  refine ⟨?_, ⟨_, rfl⟩, fun k => ?_, ?_, hm.zero, fun k hk => ?_,
    (h.isLocal_allocated hx hbitx i).trans hm.isLocal, ?_, hm.logged, ?_⟩
  · simpa only [Function.update_idem] using hm.owns
  · rw [hm.addr, haddr]
  · simp [hdx, hx₀]
  · have hkeep := hm.keep k (by rwa [haddr])
    rw [haddr] at hkeep
    exact hkeep.trans (h.same_allocated hx hbitx hi _ hk)
  · refine ⟨{x, b}, Finset.card_le_two, fun c hc => ?_⟩
    simp only [Vol.put, Layout.allocated, Finset.mem_insert, Finset.mem_union,
      Finset.mem_singleton] at hc ⊢
    tauto
  · have hfree := hm.free
    rw [if_neg fun hz => hx₀ (hdx ▸ hz.1)] at hfree
    rw [h.free_allocated hx hbitx, hfree, if_pos ⟨hd, Nat.le_add_right _ _⟩]

end Layout.Owns

section

variable {L : Layout} {D : (ℕ → Block) → Prop} {v : Vol} {fm : FsMem} {ino : Inos}
  {ip : Fin NINODE} {i n : ℕ}

lemma fwp_bmapEntry {x j : ℕ} (hsb : fm.sb = L.sb) (hip : fm.Caches ip i) (hp : v.pend = ∅)
    (hh : v.held.length ≤ 1)
    (hlow : ∀ c < L.datastart, bit (v.blk L.bmapblock) c = true) (hx : L.Out x)
    (hz : entry (v.blk x) j = 0)
    (hballoc : ∀ c, L.Room (insert c (insert L.bmapblock v.logged)).card)
    (hroom : ∀ c, L.Room (insert x (insert c (insert L.bmapblock v.logged))).card)
    (hfree : L.scarce ∨ 0 < L.free v.blk) :
    fwp L D (do
        let i ← readInode ip
        let bp ← bread i.dev x
        let a ← bdata bp
        if entry a j = 0 then
          let addr ← balloc i.dev
          bstore bp (putEntry j addr)
          logWrite bp
          brelse bp
          return addr
        else
          brelse bp
          return entry a j)
      (fun r v' fm' => fm' = fm ∧ r < L.sb.size ∧ bit (v.blk L.bmapblock) r = false ∧
        v' = (L.allocated v r).put x (putEntry j r ((L.allocated v r).blk x))) v fm := by
  refine fwp_readInode ?_
  rw [hip.2.1]
  refine fwp_bread hx (hh.trans one_le_two) ?_
  refine fwp_look hx ?_
  rw [if_pos hz]
  refine fwp_seq (fwp_balloc hsb hp (Nat.succ_le_succ hh) hlow hballoc hfree) ?_
  rintro r v' fm' ⟨rfl, hr, hbit, rfl⟩
  refine fwp_edit (v := L.allocated v r) hp hx ?_
  refine fwp_putBack hp hx (hroom r) ?_
  exact fwp_ret ⟨rfl, hr, hbit, rfl⟩

lemma Layout.Owns.ne_zero_of_free {b : ℕ} {spare : Finset ℕ} (h : L.Owns v.blk ino spare)
    (hb : b < L.sb.size) (hbit : bit (v.blk L.bmapblock) b = false) : b ≠ 0 := by
  have h₁ := h.datastart_le_of_free hb hbit
  have h₂ := Layout.Owns.bmapblock_lt L
  omega

lemma Layout.Room.pair (hroom : L.Room ((v.logged ∪ {L.bmapblock}).card + 2)) {s : Finset ℕ}
    {x c : ℕ} (hs : s ⊆ insert x (insert c (insert L.bmapblock v.logged))) : L.Room s.card := by
  refine hroom.mono ((Finset.card_le_card hs).trans ?_)
  refine (Finset.card_insert_le _ _).trans (Nat.succ_le_succ ?_)
  refine (Finset.card_insert_le _ _).trans (Nat.succ_le_succ (Finset.card_le_card ?_))
  exact Finset.insert_subset (by simp) Finset.subset_union_left

variable {d : Dinode}

section

variable (hsb : fm.sb = L.sb) (hip : fm.Caches ip i) (hd : (fm.icache ip).din = d)
  (hi : ino i = some d) (h : L.Owns v.blk ino ∅) (hp : v.pend = ∅) (hh : v.held.length ≤ 1)
  (hzero : d.addr v.blk (.data n) = 0) (hroom : L.Room ((v.logged ∪ {L.bmapblock}).card + 2))

include hsb hip hd hi h hp hh hzero hroom

lemma fwp_bmap_direct (hn : n < NDIRECT) (hfree : L.scarce ∨ 0 < L.free v.blk) :
    fwp L D (bmap ip n) (fun r v' fm' => r ≠ 0 ∧ ∃ d', L.Mapped i n r ino v v' d d' ∧
      fm' = fm.setInode ip { fm.icache ip with din := d' }) v fm := by
  have hk : d.addrs (Fin.castSucc ⟨n, hn⟩) = 0 := by rwa [Dinode.addr_direct hn] at hzero
  rw [bmap, dif_pos hn]
  refine fwp_mono (fwp_directBlock_new (i := i) hsb hip (hd ▸ hk) hp (hh.trans one_le_two)
    (fun c => h.bit_low) (fun c => hroom.pair (x := c) (c := c) (by simp)) hfree) ?_
  rintro r v' fm' ⟨hr, hbit, rfl, rfl⟩
  refine ⟨h.ne_zero_of_free hr hbit, _, h.mapped_direct (k := ⟨n, hn⟩) hi hr hbit hk, ?_⟩
  rw [FsMem.setAddr, hd]
  rfl

lemma fwp_bmap_entry (hge : NDIRECT ≤ n) (hn : n < MAXFILE) (hind : d.indirect ≠ 0)
    (hfree : L.scarce ∨ 0 < L.free v.blk) :
    fwp L D (bmap ip n) (fun r v' fm' => r ≠ 0 ∧ ∃ d', L.Mapped i n r ino v v' d d' ∧
      fm' = fm.setInode ip { fm.icache ip with din := d' }) v fm := by
  have hj : n - NDIRECT < NINDIRECT := by simp only [MAXFILE] at hn; omega
  have hsum : NDIRECT + (n - NDIRECT) = n := Nat.add_sub_of_le hge
  have hx : L.Out d.indirect := h.within hi .ind hind
  have hz : entry (v.blk d.indirect) (n - NDIRECT) = 0 := by
    rwa [Dinode.addr_indirect hge hn hind] at hzero
  rw [bmap, dif_neg (Nat.not_lt.mpr hge), if_pos hj]
  refine fwp_seq (fwp_directBlock (hd ▸ hind)) ?_
  rintro x v' fm' ⟨hxe, rfl, rfl⟩
  obtain rfl : x = d.indirect := hxe.trans (congrArg Dinode.indirect hd)
  refine fwp_mono (fwp_bmapEntry hsb hip hp hh (fun c => h.bit_low) hx hz
    (fun c => hroom.pair (x := c) (c := c) (by simp)) (fun c => hroom.pair subset_rfl) hfree) ?_
  rintro r v₂ fm₂ ⟨rfl, hr, hbit, rfl⟩
  refine ⟨h.ne_zero_of_free hr hbit, d, ?_, ?_⟩
  · have hm := h.mapped_entry hi hr hbit hind hj hz
    rwa [hsum] at hm
  · rw [← hd]
    simp [FsMem.setInode]

omit hzero in
lemma fwp_bmap_indirect (hge : NDIRECT ≤ n) (hn : n < MAXFILE) (hind : d.indirect = 0)
    (hfree : L.scarce ∨ 1 < L.free v.blk) :
    fwp L D (bmap ip n) (fun r v' fm' => r ≠ 0 ∧ ∃ d', L.Mapped i n r ino v v' d d' ∧
      fm' = fm.setInode ip { fm.icache ip with din := d' }) v fm := by
  have hj : n - NDIRECT < NINDIRECT := by simp only [MAXFILE] at hn; omega
  have hsum : NDIRECT + (n - NDIRECT) = n := Nat.add_sub_of_le hge
  rw [bmap, dif_neg (Nat.not_lt.mpr hge), if_pos hj]
  refine fwp_seq (fwp_directBlock_new (i := i) hsb hip (hd ▸ hind) hp (hh.trans one_le_two)
    (fun c => h.bit_low) (fun c => hroom.pair (x := c) (c := c) (by simp))
    (hfree.imp_right Nat.zero_lt_of_lt)) ?_
  rintro x v₁ fm₁ ⟨hx, hbitx, rfl, rfl⟩
  have hfree₁ : L.scarce ∨ 0 < L.free (L.allocated v x).blk := hfree.imp_right fun hlt => by
    rw [h.free_allocated hx hbitx] at hlt
    omega
  have h₁ := h.allocated_indirect hi hx hbitx hind
  have hip₁ : (fm.setAddr ip (Fin.last NDIRECT) x).Caches ip i := by
    simpa [FsMem.Caches, FsMem.setAddr] using hip
  refine fwp_mono (fwp_bmapEntry (v := L.allocated v x) hsb hip₁ hp hh (fun c => h₁.bit_low)
    (L.out_data (h.datastart_le_of_free hx hbitx) hx) ?_
    (fun c => hroom.pair (x := c) (c := x) ?_) (fun c => hroom.pair (x := x) (c := c) ?_) hfree₁) ?_
  · rw [Layout.Owns.blk_allocated, Function.update_self, entry_zero]
  · exact Finset.insert_subset_insert _ (Finset.insert_subset (by simp) subset_rfl)
  · intro a ha
    simp only [Layout.allocated, Vol.put, Finset.mem_insert] at ha ⊢
    rcases ha with ha | ha | ha | ha | ha | ha <;> simp [ha]
  rintro r v₂ fm₂ ⟨rfl, hr, hbit, rfl⟩
  refine ⟨h₁.ne_zero_of_free hr hbit, d.setAddr (Fin.last NDIRECT) x, ?_, ?_⟩
  · have hm := h.mapped_indirect hi hx hbitx (h.ne_zero_of_free hx hbitx) hind hr hbit hj
    rwa [hsum] at hm
  · rw [FsMem.setAddr, hd]

end

/-- **`bmap` of the first block that is missing.** -/
lemma fwp_bmap_new (hsb : fm.sb = L.sb) (hip : fm.Caches ip i) (hd : (fm.icache ip).din = d)
    (hi : ino i = some d) (h : L.Owns v.blk ino ∅) (hp : v.pend = ∅) (hh : v.held.length ≤ 1)
    (hf : d.Filled v.blk n) (hn : n < MAXFILE)
    (hroom : L.Room ((v.logged ∪ {L.bmapblock}).card + 2))
    (hfree : L.scarce ∨ occupied (n + 1) ≤ L.free v.blk + occupied n) :
    fwp L D (bmap ip n) (fun r v' fm' => r ≠ 0 ∧ ∃ d', L.Mapped i n r ino v v' d d' ∧
      fm' = fm.setInode ip { fm.icache ip with din := d' }) v fm := by
  have hzero : d.addr v.blk (.data n) = 0 :=
    not_not.mp fun hne => absurd ((hf.data n).mp hne) (lt_irrefl n)
  have hone : L.scarce ∨ 0 < L.free v.blk := hfree.imp_right fun hle => by
    simp only [occupied] at hle
    split_ifs at hle <;> omega
  by_cases hdir : n < NDIRECT
  · exact fwp_bmap_direct hsb hip hd hi h hp hh hzero hroom hdir hone
  by_cases hind : d.indirect = 0
  · refine fwp_bmap_indirect hsb hip hd hi h hp hh hroom (Nat.not_lt.mp hdir) hn hind
      (hfree.imp_right fun hle => ?_)
    have hnle : ¬ NDIRECT < n := fun hlt => hf.ind.mpr hlt hind
    rw [occupied, occupied, if_neg hnle, if_pos (by omega)] at hle
    omega
  · exact fwp_bmap_entry hsb hip hd hi h hp hh hzero hroom (Nat.not_lt.mp hdir) hn hind hone

end

/-! ## Free blocks -/

/-- The positions of a file with `n` blocks of data. -/
def slots (n : ℕ) : Finset Slot :=
  (Finset.range n).image Slot.data ∪ if NDIRECT < n then {.ind} else ∅

lemma card_slots (n : ℕ) : (slots n).card = occupied n := by
  have hdata : ((Finset.range n).image Slot.data).card = n := by
    rw [Finset.card_image_of_injective _ fun _ _ => Slot.data.inj, Finset.card_range]
  rw [slots, occupied, Finset.card_union_of_disjoint, hdata]
  · split_ifs <;> rfl
  · split_ifs <;> simp

lemma Dinode.Filled.addr_ne_zero_iff {blk : ℕ → Block} {d : Dinode} {n : ℕ} (h : d.Filled blk n)
    (s : Slot) : d.addr blk s ≠ 0 ↔ s ∈ slots n := by
  cases s with
  | data k =>
    rw [h.data, slots]
    split_ifs <;> simp
  | ind =>
    rw [show d.addr blk .ind = d.indirect from rfl, h.ind, slots]
    split_ifs with hn <;> simp [hn]

/-- The blocks that files of the given lengths take. -/
def Layout.taken (L : Layout) (len : ℕ → Option ℕ) : ℕ :=
  ∑ i ∈ Finset.range L.sb.ninodes, (len i).elim 0 fun m => occupied (nblocks m)

/-- **Every data block is free or belongs to a file.** -/
lemma Layout.Owns.free_add_taken {L : Layout} {blk : ℕ → Block} {ino : Inos}
    (h : L.Owns blk ino ∅) (hfull : ∀ {i d}, ino i = some d → d.Full blk) :
    L.free blk + L.taken (fun i => (ino i).map Dinode.size) = L.sb.size - L.datastart := by
  let own : ℕ → Finset (ℕ × Slot) := fun i =>
    (ino i).elim ∅ fun d => (slots (nblocks d.size)).image (Prod.mk i)
  have hmem : ∀ {i p}, p ∈ own i ↔
      p.1 = i ∧ ∃ d, ino i = some d ∧ p.2 ∈ slots (nblocks d.size) := by
    rintro i ⟨j, s⟩
    cases hi : ino i with
    | none => simp [own, hi]
    | some d => simp [own, hi, eq_comm, and_comm]
  have hcard : ∀ i, (own i).card =
      ((ino i).map Dinode.size).elim 0 fun m => occupied (nblocks m) := by
    intro i
    cases hi : ino i with
    | none => simp [own, hi]
    | some d =>
      simp only [own, hi, Option.elim_some, Option.map_some]
      rw [Finset.card_image_of_injective _ (Prod.mk_right_injective i), card_slots]
  have hdisj : Set.PairwiseDisjoint ↑(Finset.range L.sb.ninodes) own := fun i _ j _ hne =>
    Finset.disjoint_left.mpr fun p hp hp' => hne ((hmem.mp hp).1.symm.trans (hmem.mp hp').1)
  have hcount := h.marked.card_free_add
    (S := (Finset.range L.sb.ninodes).biUnion own)
    (u := fun p => (ino p.1).elim 0 fun d => d.addr blk p.2) fun b p => ?_
  · rw [Finset.card_biUnion hdisj, Finset.sum_congr rfl fun i _ => hcard i] at hcount
    exact hcount
  · obtain ⟨i, s⟩ := p
    rw [Finset.mem_biUnion]
    constructor
    · rintro ⟨hb, d, hd, rfl⟩
      refine ⟨⟨i, Finset.mem_range.mpr (h.lt hd), hmem.mpr ⟨rfl, d, hd, ?_⟩⟩, ?_⟩
      · exact ((hfull hd).addr_ne_zero_iff s).mp hb
      · simp [show ino i = some d from hd]
    · rintro ⟨⟨j, -, hj⟩, rfl⟩
      obtain ⟨rfl, d, hd, hs⟩ := hmem.mp hj
      have hne := ((hfull hd).addr_ne_zero_iff s).mpr hs
      simp only [hd, Option.elim_some]
      exact (own_some hd).mpr ⟨hne, rfl⟩

end Xv6
