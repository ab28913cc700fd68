import Xv6.Fs.Bmap

/-!
# Reading and writing files

`readi` returns a slice of the contents and changes nothing: in a file without holes `bmap` never
allocates for it.  `writei` overlays the contents, block by block, and extends the file at its end.

* `fwp_readi` is the specification of `readi`, for any offset and length within the file.
* `Layout.Wrote` is what the loop of `writei` has done so far, with the bytes written up to now.  It
  composes (`Wrote.trans`), and the loop is an induction over the bytes that are left, a part of one
  block after the other (`firstPart`).
* `Layout.Written` is what `writei` has done in the end, the size included, which it stores after
  the loop and only if the file has grown (`Wrote.written_inside`, `Wrote.written_end`).

A part of the loop either stays inside a block that is there or begins a new one
(`Owns.wrote_block`, `Mapped.wrote_part`).  `touched` counts the blocks that a write comes by; it
bounds what the operation logs.
-/

namespace Xv6

open Lib

section

variable {L : Layout} {D : (ℕ → Block) → Prop} {v : Vol} {fm : FsMem} {ino : Inos}
  {ip : Fin NINODE} {i n : ℕ} {d : Dinode}

/-! ## Reading -/

lemma bytesFrom_eq {off m : ℕ} (hm : m ≤ BSIZE - off % BSIZE) :
    bytesFrom (v.blk (d.addr v.blk (.data (off / BSIZE)))) (off % BSIZE) m =
      (List.range m).map fun j => d.byteAt v.blk (off + j) := by
  refine List.map_congr_left fun j hj => ?_
  have hj' := List.mem_range.mp hj
  have hpos : 0 < BSIZE := by norm_num
  have hmod := Nat.mod_lt off hpos
  have hdiv : (off + j) / BSIZE = off / BSIZE := by
    simp only [BSIZE] at *
    omega
  have hmod' : (off + j) % BSIZE = off % BSIZE + j := by
    simp only [BSIZE] at *
    omega
  rw [Dinode.byteAt, hdiv, hmod']

lemma fwp_readLoop (hip : fm.Caches ip i) (hd : (fm.icache ip).din = d)
    (h : L.Within v.blk d) (hp : v.pend = ∅) (hh : v.held.length ≤ 1) (hf : d.Filled v.blk n)
    (turns : ℕ) {off left : ℕ} {got : List UInt8} (hturns : left ≤ turns)
    (hend : off + left ≤ n * BSIZE) :
    fwp L D (readLoop ip turns off left got) (fun r v' fm' => v' = v ∧ fm' = fm ∧
      r = got ++ (List.range left).map fun j => d.byteAt v.blk (off + j)) v fm := by
  induction turns generalizing off left got with
  | zero =>
    obtain rfl : left = 0 := Nat.le_zero.mp hturns
    exact fwp_ret ⟨rfl, rfl, by simp⟩
  | succ turns ih =>
    rw [readLoop]
    split_ifs with hleft
    · subst hleft
      exact fwp_ret ⟨rfl, rfl, by simp⟩
    -- the block is there, and `bmap` has no effect
    · have hlt : off / BSIZE < n := Nat.div_lt_of_lt_mul (by rw [Nat.mul_comm]; omega)
      have hmap := (hf.data (off / BSIZE)).mpr hlt
      have ho : L.Out (d.addr v.blk (.data (off / BSIZE))) := h _ hmap
      refine fwp_seq (fwp_bmap hip (hd ▸ h) hp (hh.trans one_le_two) (hd ▸ hmap)) ?_
      rintro r v' fm' ⟨rfl, rfl, rfl⟩
      rw [hd]
      refine fwp_readInode ?_
      rw [hip.2.1]
      refine fwp_bread ho (hh.trans one_le_two) ?_
      refine fwp_look ho ?_
      refine fwp_release hp ?_
      have hpos : 0 < BSIZE - off % BSIZE := Nat.sub_pos_of_lt (Nat.mod_lt _ (by norm_num))
      have hm : min left (BSIZE - off % BSIZE) ≤ left := Nat.min_le_left _ _
      refine fwp_mono (ih (by omega) (by omega)) ?_
      rintro r v₁ fm₁ ⟨rfl, rfl, rfl⟩
      refine ⟨rfl, rfl, ?_⟩
      rw [bytesFrom_eq (Nat.min_le_right _ _), List.append_assoc]
      congr 1
      generalize min left (BSIZE - off % BSIZE) = m at hm
      obtain ⟨l, rfl⟩ := Nat.exists_eq_add_of_le hm
      rw [List.range_add, List.map_append, List.map_map, Nat.add_sub_cancel_left]
      congr 1
      exact List.map_congr_left fun j _ => by simp [Nat.add_assoc]

lemma Dinode.content_slice {blk : ℕ → Block} {off m : ℕ} :
    (List.range (min m (d.size - off))).map (fun j => d.byteAt blk (off + j)) =
      ((d.content blk).drop off).take m := by
  refine List.ext_getElem (by simp) fun j h₁ h₂ => ?_
  simp [getElem_content]

/-- **`readi(ip, dst, off, n)`** of a file or directory. -/
lemma fwp_readi (hip : fm.Caches ip i) (hd : (fm.icache ip).din = d) (h : L.Within v.blk d)
    (hp : v.pend = ∅) (hh : v.held.length ≤ 1) (hf : d.Full v.blk) (ht : d.type ≠ T_DEV) {off m : ℕ}
    (hm : m < UINT) :
    fwp L D (readi ip off m) (fun r v' fm' => v' = v ∧ fm' = fm ∧
      r = if d.size < off ∨ UINT ≤ off + m ∨ d.nlink < 1 then none
        else some (((d.content v.blk).drop off).take m)) v fm := by
  have hsize : d.size < UINT := hf.size_le.trans_lt (by norm_num)
  refine fwp_readInode ?_
  rw [hd, if_neg ht]
  by_cases hbad : d.size < off ∨ UINT ≤ off + m ∨ d.nlink < 1
  · have hcode : d.size < off ∨ (off + m) % UINT < off ∨ d.nlink < 1 := by
      simp only [UINT] at *
      omega
    rw [if_pos hcode]
    exact fwp_ret ⟨rfl, rfl, by rw [if_pos hbad]⟩
  · have hcode : ¬ (d.size < off ∨ (off + m) % UINT < off ∨ d.nlink < 1) := by
      simp only [UINT] at *
      omega
    have hmod : (off + m) % UINT = off + m := Nat.mod_eq_of_lt (by omega)
    rw [if_neg hcode, hmod]
    have hmin : (if d.size < off + m then d.size - off else m) = min m (d.size - off) := by
      split_ifs <;> omega
    rw [hmin]
    have hblocks : d.size ≤ nblocks d.size * BSIZE := nblocks_le.mp le_rfl
    refine fwp_seq (fwp_readLoop hip hd h hp hh hf _ le_rfl (by omega)) ?_
    rintro r v' fm' ⟨rfl, rfl, rfl⟩
    refine fwp_ret ⟨rfl, rfl, ?_⟩
    rw [if_neg hbad, List.nil_append, Dinode.content_slice]

end

/-! ## Writing -/

/-- The number of blocks that a write touches. -/
def touched (off len : ℕ) : ℕ := if len = 0 then 0 else nblocks (off + len) - off / BSIZE

/-- The part of a write that goes to its first block. -/
abbrev firstPart (off len : ℕ) : ℕ := min len (BSIZE - off % BSIZE)

lemma touched_step (off : ℕ) {len : ℕ} (h : len ≠ 0) :
    touched off len = 1 + touched (off + firstPart off len) (len - firstPart off len) := by
  have hmod := Nat.mod_lt off (show 0 < BSIZE by norm_num)
  simp only [touched, firstPart, nblocks, BSIZE] at *
  split_ifs with h₁ <;> omega

/-- The effect of the loop of `writei` that writes `src` at `off`, on a file with `n` blocks. -/
structure Layout.Wrote (L : Layout) (i off : ℕ) (src : List UInt8) (n : ℕ) (ino : Inos) (v v' : Vol)
    (d d' : Dinode) : Prop where
  owns : L.Owns v'.blk (Function.update ino i (some d')) ∅
  fields : ∃ a, d' = { d with addrs := a }
  filled : d'.Filled v'.blk (max n (nblocks (off + src.length)))
  bytes : ∀ j, j < n * BSIZE ∨ j < off + src.length → d'.byteAt v'.blk j =
    if off ≤ j ∧ j < off + src.length then src.getD (j - off) 0 else d.byteAt v.blk j
  zeros : ∀ j, n * BSIZE ≤ j → off + src.length ≤ j → j < nblocks (off + src.length) * BSIZE →
    d'.byteAt v'.blk j = 0
  unchanged : nblocks (off + src.length) ≤ n → d' = d
  isLocal : L.Local i ino v v'
  logs : v.Logs v' {L.bmapblock} (2 * touched off src.length)
  free : L.free v.blk + occupied n =
    L.free v'.blk + occupied (max n (nblocks (off + src.length)))

namespace Layout.Wrote

variable {L : Layout} {i off n : ℕ} {src : List UInt8} {ino : Inos} {v v' v'' : Vol}
  {d d' d'' : Dinode}

lemma nil (h : L.Owns v.blk ino ∅) (hi : ino i = some d) (hf : d.Filled v.blk n)
    (hoff : off ≤ n * BSIZE) : L.Wrote i off [] n ino v v d d where
  owns := by rwa [Function.update_eq_self_iff.mpr hi.symm]
  fields := ⟨_, rfl⟩
  filled := by rwa [List.length_nil, Nat.add_zero, max_eq_left (nblocks_le.mpr hoff)]
  bytes j _ := by
    rw [if_neg]
    simp only [List.length_nil]
    omega
  zeros j hj _ hj' := absurd
    (hj'.trans_le ((Nat.mul_le_mul_right _ (nblocks_le.mpr hoff)).trans hj)) (lt_irrefl j)
  unchanged _ := rfl
  isLocal := .refl _ _ _ _
  logs := .refl _ _ _
  free := by rw [List.length_nil, Nat.add_zero, max_eq_left (nblocks_le.mpr hoff)]

lemma trans (h : L.Wrote i off (src.take (firstPart off src.length)) n ino v v' d d')
    (h' : L.Wrote i (off + firstPart off src.length) (src.drop (firstPart off src.length))
      (max n (nblocks (off + firstPart off src.length))) (Function.update ino i (some d')) v' v'' d'
      d'') (hsrc : src ≠ []) : L.Wrote i off src n ino v v'' d d'' := by
  have hlen : src.length ≠ 0 := fun he => hsrc (List.length_eq_zero_iff.mp he)
  have hstep := touched_step off hlen
  have hpos : 0 < firstPart off src.length :=
    lt_min (Nat.pos_of_ne_zero hlen) (Nat.sub_pos_of_lt (Nat.mod_lt _ (by norm_num)))
  have hone : touched off (firstPart off src.length) ≤ 1 := by
    have hmod := Nat.mod_lt off (show 0 < BSIZE by norm_num)
    simp only [touched, firstPart, nblocks, BSIZE]
    split_ifs <;> omega
  have hm : firstPart off src.length ≤ src.length := Nat.min_le_left _ _
  -- only these facts about the first part matter from here on
  generalize firstPart off src.length = m at *
  have htake : (src.take m).length = m := by simp [hm]
  have hdrop : (src.drop m).length = src.length - m := List.length_drop ..
  have hsum : off + m + (src.length - m) = off + src.length := by omega
  have hmono : nblocks (off + m) ≤ nblocks (off + src.length) := nblocks_mono (by omega)
  have hfilled := h'.filled
  have hbytes := h'.bytes
  have hzeros := h'.zeros
  have hunch := h'.unchanged
  have hlogs := h'.logs
  have hbytes₁ := h.bytes
  have hzeros₁ := h.zeros
  have hunch₁ := h.unchanged
  have hlogs₁ := h.logs
  have hfree := h'.free
  have hfree₁ := h.free
  have hmax : max (max n (nblocks (off + m))) (nblocks (off + src.length)) =
      max n (nblocks (off + src.length)) := by omega
  rw [htake] at hbytes₁ hzeros₁ hunch₁ hlogs₁ hfree₁
  rw [hdrop, hsum] at hfilled hbytes hzeros hunch hfree
  rw [hdrop] at hlogs
  refine ⟨?_, ?_, ?_, fun j hj => ?_, fun j hj hend hj' => ?_, fun hn => ?_,
    h.isLocal.trans h'.isLocal, ?_, ?_⟩
  · simpa only [Function.update_idem] using h'.owns
  · obtain ⟨a, rfl⟩ := h.fields
    obtain ⟨a', rfl⟩ := h'.fields
    exact ⟨a', rfl⟩
  · rwa [hmax] at hfilled
  -- a byte is from the second part, from the first, or from before
  · have hle : n * BSIZE ≤ max n (nblocks (off + m)) * BSIZE :=
      Nat.mul_le_mul_right _ (le_max_left _ _)
    rw [hbytes j (hj.imp_left fun hlt => hlt.trans_le hle)]
    by_cases hj₁ : off + m ≤ j ∧ j < off + src.length
    · rw [if_pos hj₁, if_pos ⟨by omega, hj₁.2⟩, List.getD_eq_getElem?_getD, List.getElem?_drop,
        ← List.getD_eq_getElem?_getD]
      congr 1
      omega
    · rw [if_neg hj₁, hbytes₁ j (hj.imp_right fun hlt => by omega)]
      by_cases hj₂ : off ≤ j ∧ j < off + m
      · rw [if_pos hj₂, if_pos ⟨hj₂.1, by omega⟩, List.getD_eq_getElem?_getD,
          List.getElem?_take_of_lt (by omega), ← List.getD_eq_getElem?_getD]
      · rw [if_neg hj₂, if_neg (by omega)]
  · rcases Nat.lt_or_ge j (max n (nblocks (off + m)) * BSIZE) with hlt | hge
    · rw [hbytes j (Or.inl hlt), if_neg (by omega)]
      refine hzeros₁ j hj (by omega) ?_
      rcases le_total n (nblocks (off + m)) with hle | hle
      · rwa [max_eq_right hle] at hlt
      · rw [max_eq_left hle] at hlt
        exact absurd hlt (Nat.not_lt.mpr hj)
    · exact hzeros j hge hend hj'
  · have h₁ := hunch₁ (hmono.trans hn)
    rw [hunch (hn.trans (le_max_left _ _)), h₁]
  · refine (hlogs₁.trans hlogs).mono subset_rfl ?_
    omega
  · rw [hfree₁, hfree, hmax]

end Layout.Wrote

lemma Layout.Owns.wrote_block {L : Layout} {ino : Inos} {v : Vol} {i n k : ℕ} {d : Dinode}
    (h : L.Owns v.blk ino ∅) (hi : ino i = some d) (hf : d.Filled v.blk n)
    (hk : k < n) (x : Block) :
    let v' := v.put (d.addr v.blk (.data k)) x
    L.Owns v'.blk ino ∅ ∧ (∀ s, d.addr v'.blk s = d.addr v.blk s) ∧ L.Local i ino v v' ∧
      ∀ j < n * BSIZE, d.byteAt v'.blk j =
        if j / BSIZE = k then x.get (j % BSIZE) else d.byteAt v.blk j := by
  have hmap := (hf.data k).mpr hk
  have hlo := (h.range_addr hi hmap).1
  have hown : Own v.blk ino (d.addr v.blk (.data k)) (i, .data k) := (own_some hi).mpr ⟨hmap, rfl⟩
  have hnot : ∀ i', ¬ Own v.blk ino (d.addr v.blk (.data k)) (i', .ind) := fun i' ho => by
    cases (Prod.mk.inj (h.marked.unique hown ho)).2
  have haddr : ∀ s, d.addr (v.put (d.addr v.blk (.data k)) x).blk s = d.addr v.blk s :=
    Dinode.addr_congr rfl fun hd => Vol.blk_put_of_ne _ (fun he => by
      cases (h.addr_inj hi hi (s := .ind) hd he).2) _
  refine ⟨h.put (fun he => ?_) hnot x, haddr, ⟨fun j d₁ hj hd₁ => ?_, fun c hc _ => ?_, rfl, rfl,
    rfl⟩, fun j hj => ?_⟩
  · exact Nat.not_lt.mpr hlo (he ▸ Layout.Owns.bmapblock_lt L)
  · exact h.same_of_ne hd₁ hi hj _ x
  · exact Vol.blk_put_of_ne _ (fun he => Nat.not_lt.mpr hlo (lt_of_eq_of_lt he.symm hc)) _
  · rw [Dinode.byteAt, haddr]
    have hlt : j / BSIZE < n := Nat.div_lt_of_lt_mul (by rwa [Nat.mul_comm])
    split_ifs with he
    · rw [he, Vol.blk_put_self]
    · rw [Vol.blk_put_of_ne, Dinode.byteAt]
      intro heq
      have hs := (h.addr_inj hi hi ((hf.data _).mpr hlt) heq).2
      exact he (Slot.data.inj hs)

section

variable {L : Layout} {D : (ℕ → Block) → Prop} {v : Vol} {fm : FsMem} {ino : Inos}
  {ip : Fin NINODE} {i n off : ℕ} {d : Dinode} {src : List UInt8}

lemma Layout.Owns.wrote_part (h : L.Owns v.blk ino ∅) (hi : ino i = some d)
    (hf : d.Filled v.blk n) (hk : off / BSIZE < n) (hsrc : src ≠ [])
    (hlen : src.length ≤ BSIZE - off % BSIZE) :
    L.Wrote i off src n ino v (v.put (d.addr v.blk (.data (off / BSIZE)))
      ((v.blk (d.addr v.blk (.data (off / BSIZE)))).blit (off % BSIZE) src.length
        fun j => src.getD j 0)) d d := by
  obtain ⟨howns, haddr, hlocal, hbytes⟩ := h.wrote_block hi hf hk
    ((v.blk (d.addr v.blk (.data (off / BSIZE)))).blit (off % BSIZE) src.length
      fun j => src.getD j 0)
  have hpos : 0 < src.length := List.length_pos_iff.mpr hsrc
  have hmod := Nat.mod_lt off (show 0 < BSIZE by norm_num)
  have hblocks : nblocks (off + src.length) ≤ n := nblocks_le.mpr (by
    simp only [BSIZE] at *
    omega)
  have hend : off + src.length ≤ n * BSIZE := nblocks_le.mp hblocks
  have hbmap : d.addr v.blk (.data (off / BSIZE)) ≠ L.bmapblock := fun he =>
    Nat.not_lt.mpr (h.range_addr hi ((hf.data _).mpr hk)).1 (he ▸ Layout.Owns.bmapblock_lt L)
  refine ⟨?_, ⟨_, rfl⟩, ?_, fun j hj => ?_, fun j hj _ hj' => ?_, fun _ => rfl, hlocal, ?_, ?_⟩
  · rwa [Function.update_eq_self_iff.mpr hi.symm]
  · rw [max_eq_left hblocks]
    exact hf.congr haddr
  · rw [hbytes j (by omega), Bytes.get_blit]
    by_cases he : j / BSIZE = off / BSIZE
    · rw [if_pos he]
      by_cases hin : off ≤ j ∧ j < off + src.length
      · rw [if_pos hin, if_pos]
        · congr 1
          simp only [BSIZE] at *
          omega
        · simp only [BSIZE] at *
          omega
      · rw [if_neg hin, if_neg, Dinode.byteAt, he]
        simp only [BSIZE] at *
        omega
    · rw [if_neg he, if_neg]
      simp only [BSIZE] at *
      omega
  · exact absurd (hj'.trans_le ((Nat.mul_le_mul_right _ hblocks).trans hj)) (lt_irrefl j)
  · have ht : 1 ≤ 2 * touched off src.length := by
      rw [touched_step _ (by omega)]
      omega
    exact ((Vol.Logs.refl v _ 0).put _ _).mono subset_rfl ht
  · rw [max_eq_left hblocks, Layout.free_put hbmap]

lemma fwp_writeMap {k : ℕ} (hsb : fm.sb = L.sb) (hip : fm.Caches ip i)
    (hd : (fm.icache ip).din = d) (hi : ino i = some d) (h : L.Owns v.blk ino ∅) (hp : v.pend = ∅)
    (hh : v.held.length ≤ 1) (hf : d.Filled v.blk n) (hk : k ≤ n) (hmax : k < MAXFILE)
    (hroom : L.Room ((v.logged ∪ {L.bmapblock}).card + 2))
    (hfree : L.scarce ∨ occupied (max n (k + 1)) ≤ L.free v.blk + occupied n) :
    fwp L D (bmap ip k) (fun r v' fm' => ∃ d', r = d'.addr v'.blk (.data k) ∧
      fm' = fm.setInode ip { fm.icache ip with din := d' } ∧
      d'.Filled v'.blk (max n (k + 1)) ∧ (k < n → v' = v ∧ d' = d) ∧
      (k = n → L.Mapped i n r ino v v' d d')) v fm := by
  rcases hk.lt_or_eq with hlt | rfl
  · refine fwp_mono (fwp_bmap hip (hd ▸ h.within hi) hp (hh.trans one_le_two)
      (hd ▸ (hf.data k).mpr hlt)) ?_
    rintro r v' fm' ⟨rfl, rfl, rfl⟩
    refine ⟨d, by rw [hd], ?_, ?_, fun _ => ⟨rfl, rfl⟩, fun he => absurd he hlt.ne⟩
    · rw [← hd]
      simp [FsMem.setInode]
    · rwa [max_eq_left hlt]
  · rw [max_eq_right (Nat.le_succ k)] at hfree
    refine fwp_mono (fwp_bmap_new hsb hip hd hi h hp hh hf hmax hroom hfree) ?_
    rintro r v' fm' ⟨hr, d', hm, rfl⟩
    refine ⟨d', hm.addr_self.symm, rfl, ?_, fun hlt => absurd hlt (lt_irrefl k), fun _ => hm⟩
    rw [max_eq_right (Nat.le_succ k)]
    exact hm.filled hr hf hmax

lemma Layout.Mapped.wrote_part {r : ℕ} {v₁ : Vol} {d₁ : Dinode}
    (hm : L.Mapped i n r ino v v₁ d d₁) (hr : r ≠ 0) (hf : d.Filled v.blk n) (hn : n < MAXFILE)
    (hoff : off = n * BSIZE) (hsrc : src ≠ []) (hlen : src.length ≤ BSIZE - off % BSIZE) :
    L.Wrote i off src n ino v (v₁.put (d₁.addr v₁.blk (.data (off / BSIZE)))
      ((v₁.blk (d₁.addr v₁.blk (.data (off / BSIZE)))).blit (off % BSIZE) src.length
        fun j => src.getD j 0)) d d₁ := by
  have hpos : 0 < src.length := List.length_pos_iff.mpr hsrc
  have hk : off / BSIZE = n := by
    simp only [BSIZE] at *
    omega
  have hw := hm.owns.wrote_part (Function.update_self _ _ _) (hm.filled hr hf hn)
    (show off / BSIZE < n + 1 from hk ▸ Nat.lt_succ_self _) hsrc hlen
  have hblocks : nblocks (off + src.length) = n + 1 := by
    simp only [nblocks, BSIZE] at *
    omega
  have hbytes := hw.bytes
  have hfilled := hw.filled
  have hfree := hw.free
  rw [hblocks, max_self] at hfilled hfree
  refine ⟨?_, hm.fields, ?_, fun j hj => ?_, fun j hj hend hj' => ?_, fun hle => ?_,
    hm.isLocal.trans hw.isLocal, ?_, ?_⟩
  · simpa only [Function.update_idem] using hw.owns
  · rwa [hblocks, max_eq_right (Nat.le_succ n)]
  · rw [hbytes j (hj.imp_left fun hlt => hlt.trans (Nat.mul_lt_mul_of_pos_right (Nat.lt_succ_self n)
      (by norm_num)))]
    split_ifs with hin
    · rfl
    · exact hm.byteAt hf (hj.elim id fun hlt => by omega)
  · -- the rest of the new block
    rw [hblocks] at hj'
    have hj'' : j / BSIZE = n := by
      simp only [BSIZE] at *
      omega
    rw [hbytes j (Or.inl hj'), if_neg (by omega), Dinode.byteAt, hj'', hm.addr_self, hm.zero,
      Bytes.get_zero]
  · omega
  · have ht : 2 ≤ 2 * touched off src.length := by
      rw [touched_step _ (by omega)]
      omega
    obtain ⟨X, hX, hsub⟩ := hm.logs
    refine ⟨X, hX.trans ht, Finset.insert_subset (hsub ?_) hsub⟩
    rw [hk, hm.addr_self]
    exact hm.logged
  · rw [hblocks, max_eq_right (Nat.le_succ n), hm.free_eq hf, hfree]

lemma length_take_firstPart (off : ℕ) (src : List UInt8) :
    (src.take (firstPart off src.length)).length = firstPart off src.length := by
  rw [List.length_take]
  exact Nat.min_eq_left (Nat.min_le_left _ _)

lemma take_firstPart_ne_nil (off : ℕ) (hsrc : src ≠ []) :
    src.take (firstPart off src.length) ≠ [] := by
  have hpos : 0 < firstPart off src.length :=
    lt_min (List.length_pos_iff.mpr hsrc) (Nat.sub_pos_of_lt (Nat.mod_lt _ (by norm_num)))
  rw [← List.length_pos_iff, length_take_firstPart]
  exact hpos

/-- **One turn of the loop**, whether its block was there or is new. -/
lemma Layout.Owns.wrote_first {v₁ : Vol} {d₁ : Dinode} (h : L.Owns v.blk ino ∅)
    (hi : ino i = some d)
    (hf : d.Filled v.blk n) (hsrc : src ≠ []) (hoff : off ≤ n * BSIZE) (hlt : off / BSIZE < MAXFILE)
    (hmap : d₁.addr v₁.blk (.data (off / BSIZE)) ≠ 0) (hthere : off / BSIZE < n → v₁ = v ∧ d₁ = d)
    (hnew : off / BSIZE = n →
      L.Mapped i n (d₁.addr v₁.blk (.data (off / BSIZE))) ino v v₁ d d₁) :
    L.Wrote i off (src.take (firstPart off src.length)) n ino v
      (v₁.put (d₁.addr v₁.blk (.data (off / BSIZE)))
        ((v₁.blk (d₁.addr v₁.blk (.data (off / BSIZE)))).blit (off % BSIZE)
          (firstPart off src.length) fun j => src.getD j 0)) d d₁ := by
  have hlen := length_take_firstPart off src
  have hpart : (src.take (firstPart off src.length)).length ≤ BSIZE - off % BSIZE :=
    hlen.trans_le (Nat.min_le_right _ _)
  have hne := take_firstPart_ne_nil off hsrc
  have hle : off / BSIZE ≤ n := by
    simp only [BSIZE] at *
    omega
  have hblit : ∀ b : Block, b.blit (off % BSIZE) (firstPart off src.length)
      (fun j => src.getD j 0) = b.blit (off % BSIZE) (src.take (firstPart off src.length)).length
      (fun j => (src.take (firstPart off src.length)).getD j 0) := fun b => by
    rw [hlen]
    refine Bytes.blit_congr fun j hj => ?_
    rw [List.getD_eq_getElem?_getD, List.getD_eq_getElem?_getD, List.getElem?_take_of_lt hj]
  rw [hblit]
  rcases hle.lt_or_eq with hthere' | hnew'
  · obtain ⟨rfl, rfl⟩ := hthere hthere'
    exact h.wrote_part hi hf hthere' hne hpart
  · refine (hnew hnew').wrote_part hmap hf (hnew' ▸ hlt) ?_ hne hpart
    simp only [BSIZE] at *
    omega

lemma fwp_writeLoop (hp : v.pend = ∅) (hh : v.held.length ≤ 1) (hsb : fm.sb = L.sb)
    (hip : fm.Caches ip i) (hd : (fm.icache ip).din = d) (hi : ino i = some d)
    (h : L.Owns v.blk ino ∅) (hf : d.Filled v.blk n) (turns : ℕ) (hoff : off ≤ n * BSIZE)
    (hmax : off + src.length ≤ MAXFILE * BSIZE) (hturns : src.length ≤ turns)
    (hroom : L.Room ((v.logged ∪ {L.bmapblock}).card + 2 * touched off src.length))
    (hfree : L.scarce ∨ occupied (max n (nblocks (off + src.length))) ≤
      L.free v.blk + occupied n) :
    fwp L D (writeLoop ip turns off src) (fun r v' fm' => r = off + src.length ∧ ∃ d',
      L.Wrote i off src n ino v v' d d' ∧
      fm' = fm.setInode ip { fm.icache ip with din := d' }) v fm := by
  -- a turn writes the part that goes to one block; the rest is a write of its own behind it
  induction turns generalizing v fm ino d n off src with
  | zero =>
    obtain rfl : src = [] := List.length_eq_zero_iff.mp (Nat.le_zero.mp hturns)
    refine fwp_ret ⟨rfl, d, .nil h hi hf hoff, ?_⟩
    rw [← hd]
    simp [FsMem.setInode]
  | succ turns ih =>
    rw [writeLoop]
    split_ifs with hsrc
    · subst hsrc
      refine fwp_ret ⟨rfl, d, .nil h hi hf hoff, ?_⟩
      rw [← hd]
      simp [FsMem.setInode]
    have hlen : src.length ≠ 0 := fun he => hsrc (List.length_eq_zero_iff.mp he)
    have hstep := touched_step off hlen
    have hle : off / BSIZE ≤ n := by
      simp only [BSIZE] at *
      omega
    have hlt : off / BSIZE < MAXFILE := by
      simp only [BSIZE] at *
      omega
    have hnext : off / BSIZE + 1 ≤ nblocks (off + src.length) := by
      simp only [nblocks, BSIZE]
      omega
    refine fwp_seq (fwp_writeMap hsb hip hd hi h hp hh hf hle hlt (hroom.mono (by omega))
      (hfree.imp_right ((occupied_mono (max_le_max le_rfl hnext)).trans))) ?_
    rintro r v₁ fm₁ ⟨d₁, rfl, rfl, hf₁, hthere, hnew⟩
    have hm : firstPart off src.length ≤ src.length := Nat.min_le_left _ _
    have htake := length_take_firstPart off src
    have hmpos : 0 < firstPart off src.length :=
      lt_min (Nat.pos_of_ne_zero hlen) (Nat.sub_pos_of_lt (Nat.mod_lt _ (by norm_num)))
    have hmap : d₁.addr v₁.blk (.data (off / BSIZE)) ≠ 0 :=
      (hf₁.data _).mpr (lt_max_of_lt_right (Nat.lt_succ_self _))
    have hw := h.wrote_first hi hf hsrc hoff hlt hmap hthere hnew
    have hi₁ : Function.update ino i (some d₁) i = some d₁ := Function.update_self _ _ _
    -- the block was there before, or `bmap` has just allocated it
    have ho : L.Out (d₁.addr v₁.blk (.data (off / BSIZE))) := by
      rcases hle.lt_or_eq with hthere' | hnew'
      · obtain ⟨rfl, rfl⟩ := hthere hthere'
        exact h.within hi _ hmap
      · have hr := (hnew hnew').owns.range_addr hi₁ hmap
        exact L.out_data hr.1 hr.2
    have hp₁ : v₁.pend = ∅ := hw.isLocal.pend.trans hp
    have hh₁ : v₁.held.length ≤ 1 := (congrArg List.length hw.isLocal.held).trans_le hh
    have hlogs := hw.logs
    rw [htake] at hlogs
    -- this turn has logged its own block and what `bmap` needed, two blocks at most besides the
    -- free map
    have hroom₁ := hlogs.room (L := L)
      (m := 2 * touched (off + firstPart off src.length) (src.length - firstPart off src.length))
      (hroom.mono (by
        have hone : touched off (firstPart off src.length) ≤ 1 := by
          have hmod := Nat.mod_lt off (show 0 < BSIZE by norm_num)
          simp only [touched, firstPart, nblocks, BSIZE]
          split_ifs <;> omega
        omega))
    refine fwp_readInode ?_
    rw [FsMem.icache_setInode_self, hip.2.1]
    refine fwp_bread ho (hh₁.trans one_le_two) ?_
    refine fwp_edit hp₁ ho ?_
    refine fwp_putBack hp₁ ho (hroom₁.mono ?_) ?_
    · exact (Finset.card_le_card Finset.subset_union_left).trans (Nat.le_add_right _ _)
    have hfilled := hw.filled
    have hfreed := hw.free
    rw [htake] at hfilled hfreed
    have hdrop : (src.drop (firstPart off src.length)).length =
        src.length - firstPart off src.length := List.length_drop ..
    refine fwp_mono (ih hp₁ hh₁ hsb (by simpa [FsMem.Caches] using hip)
      (by rw [FsMem.icache_setInode_self]) hi₁ hw.owns hfilled
      (nblocks_le.mp (le_max_right _ _)) ?_ ?_ ?_ (hfree.imp_right fun hle' => ?_)) ?_
    · rwa [hdrop, Nat.add_assoc, Nat.add_sub_of_le hm]
    · rw [hdrop]
      omega
    · rwa [hdrop]
    · rw [hdrop, Nat.add_assoc, Nat.add_sub_of_le hm, max_assoc,
        max_eq_right (nblocks_mono (Nat.add_le_add_left hm off))]
      exact hle'.trans_eq hfreed
    · rintro r v' fm' ⟨rfl, d', hw', rfl⟩
      refine ⟨?_, d', hw.trans hw' hsrc, ?_⟩
      · rw [hdrop, Nat.add_assoc, Nat.add_sub_of_le hm]
      · simp

lemma fwp_writei_none (hd : (fm.icache ip).din = d) (hfits : d.Fits) (ht : d.type ≠ T_DEV)
    (hlen : src.length < UINT) (hbad : d.size < off ∨ MAXFILE * BSIZE < off + src.length) :
    fwp L D (writei ip src off) (fun r v' fm' => v' = v ∧ fm' = fm ∧ r = none) v fm := by
  have hsize := hfits.size
  refine fwp_readInode ?_
  rw [hd, if_neg ht]
  split_ifs with h₁ h₂
  · exact fwp_ret ⟨rfl, rfl, rfl⟩
  · exact fwp_ret ⟨rfl, rfl, rfl⟩
  · simp only [UINT, MAXFILE, NDIRECT, NINDIRECT, BSIZE] at *
    omega

end

/-- The effect of `writei`. -/
structure Layout.Written (L : Layout) (i off : ℕ) (src : List UInt8) (ino : Inos) (v v' : Vol)
    (d d' : Dinode) : Prop where
  owns : L.Owns v'.blk (Function.update ino i (some d')) ∅
  fields : ∃ a, d' = { d with addrs := a, size := max d.size (off + src.length) }
  full : d'.Full v'.blk
  content : d'.content v'.blk = overlay (d.content v.blk) off src
  same : ∀ j d₁, j ≠ i → ino j = some d₁ → d₁.Same v.blk v'.blk
  dinode : ∀ j < L.sb.ninodes, L.dinode v'.blk j = if j = i then d' else L.dinode v.blk j
  old : v'.old = v.old
  held : v'.held = v.held
  pend : v'.pend = v.pend
  logs : v.Logs v' {L.bmapblock, L.iblock i} (2 * touched off src.length)
  free : L.free v.blk + occupied (nblocks d.size) = L.free v'.blk + occupied (nblocks d'.size)

section

variable {L : Layout} {D : (ℕ → Block) → Prop} {v : Vol} {fm : FsMem} {ino : Inos}
  {ip : Fin NINODE} {i off : ℕ} {d d₁ : Dinode} {src : List UInt8} {v₁ : Vol}

/-- A change of the volume that concerns one file leaves the inode blocks alone. -/
lemma Layout.Local.dinode (h : L.Local i ino v v₁) {j : ℕ} (hj : j < L.sb.ninodes) :
    L.dinode v₁.blk j = L.dinode v.blk j :=
  L.dinode_congr (h.low _ ((L.iblock_lt hj).trans (Layout.Owns.bmapblock_lt L))
    (L.iblock_lt hj).ne)

lemma Layout.Wrote.written_inside (hw : L.Wrote i off src (nblocks d.size) ino v v₁ d d₁)
    (hdisk : L.dinode v.blk i = d) (hend : off + src.length ≤ d.size) :
    L.Written i off src ino v v₁ d d₁ := by
  obtain rfl := hw.unchanged (nblocks_mono hend)
  have hblocks := nblocks_mono hend
  have hfilled := hw.filled
  rw [max_eq_left hblocks] at hfilled
  refine ⟨hw.owns, ⟨d₁.addrs, by rw [max_eq_left hend]⟩, hfilled, ?_, hw.isLocal.same,
    fun j hj => ?_, hw.isLocal.old, hw.isLocal.held, hw.isLocal.pend,
    hw.logs.mono (by simp) le_rfl, ?_⟩
  · refine Dinode.content_eq_overlay (by omega) (by rw [max_eq_left hend]) fun j hj => ?_
    exact hw.bytes j (Or.inl (hj.trans_le (nblocks_le.mp le_rfl)))
  · rw [hw.isLocal.dinode hj]
    split_ifs with he
    · rw [he, hdisk]
    · rfl
  · have hfree := hw.free
    rwa [max_eq_left hblocks] at hfree

lemma Layout.Wrote.written_end (hw : L.Wrote i off src (nblocks d.size) ino v v₁ d d₁)
    (hi : ino i = some d) (h : L.Owns v.blk ino ∅) (hoff : off ≤ d.size)
    (hend : d.size < off + src.length) (hmax : off + src.length ≤ MAXFILE * BSIZE) :
    L.Written i off src ino v (v₁.put (L.iblock i)
      (L.putDinode v₁.blk i { d₁ with size := off + src.length })) d
      { d₁ with size := off + src.length } := by
  obtain ⟨a, rfl⟩ := hw.fields
  have hlt : i < L.sb.ninodes := h.lt hi
  have hlow : L.iblock i < L.datastart := (L.iblock_lt hlt).trans (Layout.Owns.bmapblock_lt L)
  have hi₁ : Function.update ino i (some { d with addrs := a }) i = some { d with addrs := a } :=
    Function.update_self _ _ _
  have hsize : max d.size (off + src.length) = off + src.length := max_eq_right hend.le
  have hfits : ({ d with addrs := a, size := off + src.length } : Dinode).Fits := by
    have hf := hw.owns.fits hi₁
    refine ⟨hf.type, hf.major, hf.minor, hf.nlink, hmax.trans_lt (by norm_num), hf.addrs⟩
  have htype : ({ d with addrs := a, size := off + src.length } : Dinode).type ≠ 0 :=
    show d.type ≠ 0 from h.type hi
  have howns := hw.owns.update hi₁ htype hfits rfl
  rw [Function.update_idem] at howns
  -- `iupdate` writes to an inode block, which no file owns
  have hsame : ∀ {j d₂}, j ≠ i → ino j = some d₂ →
      d₂.Same v₁.blk (v₁.put (L.iblock i)
        (L.putDinode v₁.blk i { d with addrs := a, size := off + src.length })).blk :=
    fun {j d₂} hj hd₂ => hw.owns.same_of_lt (i := j) (by rwa [Function.update_of_ne hj]) hlow _
  have hsame₁ : ({ d with addrs := a, size := off + src.length } : Dinode).Same v₁.blk
      (v₁.put (L.iblock i)
        (L.putDinode v₁.blk i { d with addrs := a, size := off + src.length })).blk :=
    howns.same_of_lt (Function.update_self _ _ _) hlow _
  have hfull : ({ d with addrs := a, size := off + src.length } : Dinode).Full v₁.blk := by
    have hf := hw.filled
    rw [max_eq_right (nblocks_mono hend.le)] at hf
    exact hf.congr fun s => Dinode.addr_congr rfl (fun _ => rfl) s
  refine ⟨howns.put (L.iblock_lt hlt).ne (fun _ => howns.not_own_of_lt hlow _) _,
    ⟨a, by rw [hsize]⟩, hsame₁.full hfull, ?_, fun j d₂ hj hd₂ => ?_, fun j hj => ?_,
    hw.isLocal.old, hw.isLocal.held, hw.isLocal.pend, ?_, ?_⟩
  · rw [hsame₁.content hfull]
    refine Dinode.content_eq_overlay hoff hsize.symm fun j hj => ?_
    refine Eq.trans ?_ (hw.bytes j (Or.inr hj))
    rw [Dinode.byteAt, Dinode.byteAt]
    exact congrArg (fun b => (v₁.blk b).get _) (Dinode.addr_congr rfl (fun _ => rfl) _)
  · exact (hw.isLocal.same j d₂ hj hd₂).trans (hsame hj hd₂)
  · refine (L.dinode_putDinode hfits).trans ?_
    rw [hw.isLocal.dinode hj]
  · exact (hw.logs.mono (by simp) le_rfl).put_mem (by simp) _
  · have hfree := hw.free
    rw [max_eq_right (nblocks_mono hend.le)] at hfree
    rwa [Layout.free_put (L.iblock_lt hlt).ne]

/-- **`writei(ip, src, off, n)`** of a file or directory. -/
lemma fwp_writei (hsb : fm.sb = L.sb) (hip : fm.Caches ip i) (hd : (fm.icache ip).din = d)
    (hi : ino i = some d) (h : L.Owns v.blk ino ∅) (hp : v.pend = ∅) (hh : v.held.length ≤ 1)
    (hfull : d.Full v.blk) (hdisk : L.dinode v.blk i = d) (ht : d.type ≠ T_DEV)
    (hoff : off ≤ d.size) (hend : off + src.length ≤ MAXFILE * BSIZE)
    (hroom : L.Room ((v.logged ∪ {L.bmapblock, L.iblock i}).card + 2 * touched off src.length))
    (hfree : L.scarce ∨ occupied (max (nblocks d.size) (nblocks (off + src.length))) ≤
      L.free v.blk + occupied (nblocks d.size)) :
    fwp L D (writei ip src off) (fun r v' fm' => r = some src.length ∧ ∃ d',
      L.Written i off src ino v v' d d' ∧
      fm' = fm.setInode ip { fm.icache ip with din := d' }) v fm := by
  have hmod : (off + src.length) % UINT = off + src.length :=
    Nat.mod_eq_of_lt (hend.trans_lt (by norm_num))
  have hlt : i < L.sb.ninodes := h.lt hi
  refine fwp_readInode ?_
  rw [hd, if_neg ht, hmod, if_neg (by omega), if_neg (Nat.not_lt.mpr hend)]
  have hroom₁ : L.Room ((v.logged ∪ {L.bmapblock}).card + 2 * touched off src.length) := by
    refine hroom.mono (Nat.add_le_add_right (Finset.card_le_card ?_) _)
    exact Finset.union_subset_union_right (by simp)
  refine fwp_seq (fwp_writeLoop hp hh hsb hip hd hi h hfull _
    (hoff.trans (nblocks_le.mp le_rfl)) hend le_rfl hroom₁ hfree) ?_
  rintro r v₁ fm₁ ⟨rfl, d₁, hw, rfl⟩
  refine fwp_readInode ?_
  rw [FsMem.icache_setInode_self]
  have hsize : d₁.size = d.size := by
    obtain ⟨a, rfl⟩ := hw.fields
    rfl
  show fwp L D (if 0 < src.length ∧ d₁.size < off + src.length then _ else _ : K _) _ _ _
  -- the size is stored behind the loop, and only if the write went past the end
  split_ifs with hgrow
  · rw [hsize] at hgrow
    refine fwp_setInode ?_
    rw [FsMem.setInode_setInode, FsMem.icache_setInode_self]
    have hip₁ : (fm.setInode ip { fm.icache ip with
        din := { d₁ with size := off + src.length } }).Caches ip i := by
      simpa [FsMem.Caches] using hip
    refine fwp_seq (fwp_iupdate hsb hip₁ hlt (hw.isLocal.pend.trans hp)
      ((congrArg List.length hw.isLocal.held).trans_le (hh.trans one_le_two)) ?_) ?_
    · have hsub : {L.bmapblock} ⊆ ({L.bmapblock, L.iblock i} : Finset ℕ) := by simp
      have hlogs := hw.logs.mono hsub le_rfl
      exact (hlogs.room (m := 0) hroom).log_mem (by simp)
    · rintro - v' fm' ⟨rfl, rfl⟩
      rw [FsMem.icache_setInode_self]
      exact fwp_ret ⟨rfl, _, hw.written_end hi h hoff hgrow.2 hend, rfl⟩
  · have hend' : off + src.length ≤ d.size := by
      rw [hsize] at hgrow
      omega
    exact fwp_ret ⟨rfl, d₁, hw.written_inside hdisk hend', rfl⟩

end

end Xv6
