import Xv6.Fs.ReadWrite

/-!
# Freeing files

`itrunc` frees the blocks of a file and `iput` the inode, when its last reference goes and no
directory names it.  The code clears the mark of a block before it clears the address; the proofs
take the address away first and have the block as a spare one while it is marked.

* `Layout.OnlyMap` says that no block changes but the free map, which is all that the loops over the
  direct blocks and over the entries of the indirect block do to the volume (`fwp_freeDirect`,
  `fwp_freeIndirect`).
* `Layout.Truncated` is the effect of `itrunc`: marks and addresses agree again with the addresses
  of the file gone, and no other file has changed.
* `fwp_iput_drop` and `fwp_iput_free` are the two cases of `iput`.

The entries of the indirect block are not cleared by the code, which frees the block itself right
after them.  The proof makes all blocks in `Dinode.tail` spare at once, the indirect block and those
that it lists, before the first of them is freed.
-/

namespace Xv6

open Lib

/-! ## Changes of the free map -/

/-- A change of the volume that concerns the free map only. -/
structure Layout.OnlyMap (L : Layout) (v v' : Vol) : Prop where
  blk : ∀ c ≠ L.bmapblock, v'.blk c = v.blk c
  old : v'.old = v.old
  held : v'.held = v.held
  pend : v'.pend = v.pend
  logged : v'.logged ⊆ insert L.bmapblock v.logged

namespace Layout.OnlyMap

variable {L : Layout} {v v' v'' : Vol}

lemma refl (L : Layout) (v : Vol) : L.OnlyMap v v :=
  ⟨fun _ _ => rfl, rfl, rfl, rfl, Finset.subset_insert _ _⟩

lemma trans (h : L.OnlyMap v v') (h' : L.OnlyMap v' v'') : L.OnlyMap v v'' where
  blk c hc := (h'.blk c hc).trans (h.blk c hc)
  old := h'.old.trans h.old
  held := h'.held.trans h.held
  pend := h'.pend.trans h.pend
  logged := h'.logged.trans (Finset.insert_subset (Finset.mem_insert_self _ _) h.logged)

lemma put (L : Layout) (v : Vol) (x : Block) : L.OnlyMap v (v.put L.bmapblock x) :=
  ⟨fun _ hc => Vol.blk_put_of_ne _ hc _, rfl, rfl, rfl, subset_rfl⟩

lemma room (h : L.OnlyMap v v') (hr : L.Room (insert L.bmapblock v.logged).card) :
    L.Room (insert L.bmapblock v'.logged).card :=
  hr.mono (Finset.card_le_card (Finset.insert_subset (Finset.mem_insert_self _ _) h.logged))

lemma same (h : L.OnlyMap v v') {ino : Inos} {spare : Finset ℕ} (ho : L.Owns v.blk ino spare)
    {j : ℕ} {d : Dinode} (hj : ino j = some d) : d.Same v.blk v'.blk := fun s hs =>
  h.blk _ fun he => ho.not_own_of_lt (Layout.Owns.bmapblock_lt L) (j, s)
    ((own_some hj).mpr ⟨he ▸ hs, he⟩)

lemma dinode (h : L.OnlyMap v v') {j : ℕ} (hj : j < L.sb.ninodes) :
    L.dinode v'.blk j = L.dinode v.blk j :=
  L.dinode_congr (h.blk _ (L.iblock_lt hj).ne)

end Layout.OnlyMap

section

variable {L : Layout} {D : (ℕ → Block) → Prop} {v : Vol} {fm : FsMem} {ino : Inos}
  {ip : Fin NINODE} {i : ℕ} {d : Dinode} {spare : Finset ℕ}

lemma fwp_bfree_spare {b : ℕ} (hsb : fm.sb = L.sb) (h : L.Owns v.blk ino spare) (hb : b ∈ spare)
    (hp : v.pend = ∅) (hh : v.held.length ≤ 2)
    (hroom : L.Room (insert L.bmapblock v.logged).card) :
    fwp L D (bfree ROOTDEV b) (fun _ v' fm' => fm' = fm ∧ L.OnlyMap v v' ∧
      L.Owns v'.blk ino (spare.erase b)) v fm := by
  refine fwp_mono (fwp_bfree hsb hp hh (h.marked.spare_range hb).2 (h.bit_spare hb) hroom) ?_
  rintro - v' fm' ⟨rfl, rfl⟩
  exact ⟨rfl, .put L v _, h.give hb⟩

/-! ## Direct blocks -/

/-- The direct addresses in a list are cleared. -/
def Dinode.clear (d : Dinode) (ks : List (Fin NDIRECT)) : Dinode :=
  ks.foldl (fun d k => d.setAddr k.castSucc 0) d

lemma Dinode.setAddr_self {k : Fin (NDIRECT + 1)} (h : d.addrs k = 0) : d.setAddr k 0 = d := by
  rw [setAddr, ← h, Function.update_eq_self]

lemma Layout.Owns.clearAddr (h : L.Owns v.blk ino ∅) (hi : ino i = some d) {k : Fin NDIRECT}
    (hk : d.addrs k.castSucc ≠ 0) :
    L.Owns v.blk (Function.update ino i (some (d.setAddr k.castSucc 0))) {d.addrs k.castSucc} := by
  have haddr : d.addr v.blk (.data k) = d.addrs k.castSucc := Dinode.addr_direct k.isLt
  have hd := h.drop hi (show (d.setAddr k.castSucc 0).type ≠ 0 from (h.type hi : d.type ≠ 0))
    (h.fits_setAddr hi _ (by norm_num)) (fun t => ?_) (T := {d.addrs k.castSucc})
    (by simpa using hk.symm) fun b hb => ?_
  · rwa [Finset.empty_union] at hd
  · rw [Dinode.addr_setAddr]
    split_ifs
    · exact Or.inr rfl
    · exact Or.inl rfl
  · rw [Finset.mem_singleton]
    constructor
    · rintro rfl
      exact ⟨.data k, haddr, by rw [Dinode.addr_setAddr, if_pos rfl]⟩
    · rintro ⟨t, ht, hz⟩
      rw [Dinode.addr_setAddr] at hz
      split_ifs at hz with he
      · rw [← ht, he, haddr]
      · exact absurd (ht.symm.trans hz) hb

lemma fwp_freeDirect (hsb : fm.sb = L.sb) (hip : fm.Caches ip i) (hd : (fm.icache ip).din = d)
    (hi : ino i = some d) (h : L.Owns v.blk ino ∅) (hp : v.pend = ∅) (hh : v.held.length ≤ 2)
    (hroom : L.Room (insert L.bmapblock v.logged).card) (ks : List (Fin NDIRECT)) :
    fwp L D (freeDirect ip ks) (fun _ v' fm' => L.OnlyMap v v' ∧
      L.Owns v'.blk (Function.update ino i (some (d.clear ks))) ∅ ∧
      fm' = fm.setInode ip { fm.icache ip with din := d.clear ks }) v fm := by
  induction ks generalizing v fm ino d with
  | nil =>
    refine fwp_ret ⟨.refl L v, ?_, ?_⟩
    · rwa [Dinode.clear, List.foldl_nil, Function.update_eq_self_iff.mpr hi.symm]
    · rw [Dinode.clear, List.foldl_nil, ← hd]
      simp [FsMem.setInode]
  | cons k ks ih =>
    have hclear : d.clear (k :: ks) = (d.setAddr k.castSucc 0).clear ks := rfl
    rw [freeDirect, hclear]
    refine fwp_readInode ?_
    rw [hd]
    show fwp L D (if d.addrs k.castSucc ≠ 0 then _ else _ : K _) _ _ _
    split_ifs with hk
    · rw [hip.2.1]
      have hb : d.addrs k.castSucc ∈ ({d.addrs k.castSucc} : Finset ℕ) :=
        Finset.mem_singleton_self _
      refine fwp_seq (fwp_bfree_spare hsb (h.clearAddr hi hk) hb hp hh hroom) ?_
      rintro - v₁ fm₁ ⟨rfl, hmap, h₁⟩
      rw [Finset.erase_singleton] at h₁
      refine fwp_setAddr ?_
      refine fwp_mono (ih (show (fm₁.setAddr ip k.castSucc 0).sb = L.sb from hsb)
        (by simpa [FsMem.Caches, FsMem.setAddr] using hip) ?_ (Function.update_self _ _ _) h₁
        (hmap.pend.trans hp) ((congrArg List.length hmap.held).trans_le hh) (hmap.room hroom)) ?_
      · rw [FsMem.setAddr, FsMem.icache_setInode_self, hd]
      rintro - v' fm' ⟨hmap', howns, rfl⟩
      refine ⟨hmap.trans hmap', ?_, ?_⟩
      · simpa only [Function.update_idem] using howns
      · simp [FsMem.setAddr]
    · rw [Dinode.setAddr_self (not_not.mp hk)]
      exact ih hsb hip hd hi h hp hh hroom

/-! ## The indirect block -/

lemma fwp_freeIndirect {x : ℕ} {a : Block} (hox : L.Out x) (hxm : x ≠ L.bmapblock)
    (hinj : ∀ j j', j < NINDIRECT → j' < NINDIRECT → entry a j ≠ 0 →
      entry a j = entry a j' → j = j')
    (hsb : fm.sb = L.sb) (ha : v.blk x = a) (h : L.Owns v.blk ino spare)
    (hp : v.pend = ∅) (hh : v.held.length ≤ 1) (hroom : L.Room (insert L.bmapblock v.logged).card)
    (js : List ℕ) (hjs : ∀ j ∈ js, j < NINDIRECT) (hnodup : js.Nodup)
    (hspare : ∀ j ∈ js, entry a j ≠ 0 → entry a j ∈ spare) :
    fwp L D (freeIndirect ROOTDEV (onDev x) js) (fun _ v' fm' => ∃ v₁, fm' = fm ∧
      v' = { v₁ with held := x :: v₁.held } ∧ L.OnlyMap v v₁ ∧
      L.Owns v₁.blk ino (spare.filter fun b => ∀ j ∈ js, entry a j ≠ b))
      { v with held := x :: v.held } fm := by
  induction js generalizing v fm spare with
  | nil => exact fwp_ret ⟨v, rfl, rfl, .refl L v, by simpa using h⟩
  | cons j js ih =>
    obtain ⟨hj, hnodup⟩ := List.nodup_cons.mp hnodup
    have hjs' : ∀ j' ∈ js, j' < NINDIRECT := fun j' hj' => hjs j' (List.mem_cons_of_mem _ hj')
    rw [freeIndirect]
    refine fwp_look hox ?_
    rw [ha]
    show fwp L D (if entry a j ≠ 0 then _ else _ : K _) _ _ _
    split_ifs with hz
    -- the block is spare, and freeing it takes it out of the spare ones
    · have hb := hspare j (List.mem_cons_self ..) hz
      refine fwp_seq (fwp_bfree_spare (v := { v with held := x :: v.held }) hsb h hb hp
        (Nat.succ_le_succ hh) hroom) ?_
      rintro - v₁ fm₁ ⟨rfl, hmap, h₁⟩
      have he : v₁ = { ({ v₁ with held := v.held } : Vol) with held := x :: v.held } :=
        Vol.ext rfl rfl rfl rfl hmap.held
      have hmap' : L.OnlyMap v { v₁ with held := v.held } :=
        ⟨hmap.blk, hmap.old, rfl, hmap.pend, hmap.logged⟩
      rw [he]
      refine fwp_mono (ih (v := { v₁ with held := v.held }) hsb ((hmap.blk x hxm).trans ha) h₁
        (hmap.pend.trans hp) hh (hmap'.room hroom) hjs' hnodup fun j' hj' hz' => ?_) ?_
      -- no block is listed twice, so that the other entries are spare still
      · refine Finset.mem_erase.mpr ⟨fun heq => hj ?_, hspare j' (List.mem_cons_of_mem _ hj') hz'⟩
        rwa [← hinj j' j (hjs' j' hj') (hjs j (List.mem_cons_self ..)) hz' heq]
      · rintro - v' fm' ⟨v₂, rfl, rfl, hmap₂, h₂⟩
        refine ⟨v₂, rfl, rfl, hmap'.trans hmap₂, ?_⟩
        have hset : (spare.erase (entry a j)).filter (fun b => ∀ j' ∈ js, entry a j' ≠ b) =
            spare.filter fun b => ∀ j' ∈ j :: js, entry a j' ≠ b := by
          ext b
          simp only [Finset.mem_filter, Finset.mem_erase, List.forall_mem_cons]
          constructor
          · rintro ⟨⟨hne, hb⟩, hall⟩
            exact ⟨hb, hne.symm, hall⟩
          · rintro ⟨hb, hne, hall⟩
            exact ⟨⟨hne.symm, hb⟩, hall⟩
        rwa [hset] at h₂
    · refine fwp_mono (ih hsb ha h hp hh hroom hjs' hnodup fun j' hj' =>
        hspare j' (List.mem_cons_of_mem _ hj')) ?_
      rintro - v' fm' ⟨v₂, rfl, rfl, hmap₂, h₂⟩
      refine ⟨v₂, rfl, rfl, hmap₂, ?_⟩
      have hset : spare.filter (fun b => ∀ j' ∈ js, entry a j' ≠ b) =
          spare.filter fun b => ∀ j' ∈ j :: js, entry a j' ≠ b := by
        refine Finset.filter_congr fun b hb => ?_
        rw [List.forall_mem_cons, not_not.mp hz]
        exact ⟨fun hall => ⟨(h.spare_ne_zero hb).symm, hall⟩, And.right⟩
      rwa [hset] at h₂

/-- The addresses of the indirect block and in it. -/
def Dinode.tail (blk : ℕ → Block) (d : Dinode) : Finset ℕ :=
  insert d.indirect (((Finset.range NINDIRECT).image (entry (blk d.indirect))).erase 0)

lemma Layout.Owns.clearIndirect (h : L.Owns v.blk ino ∅) (hi : ino i = some d)
    (hd : d.indirect ≠ 0) :
    L.Owns v.blk (Function.update ino i (some (d.setAddr (Fin.last NDIRECT) 0)))
      (d.tail v.blk) := by
  have haddr : ∀ j < NINDIRECT, d.addr v.blk (.data (NDIRECT + j)) =
      entry (v.blk d.indirect) j := by
    intro j hj
    rw [Dinode.addr_indirect (Nat.le_add_right _ _) (Nat.add_lt_add_left hj _) hd,
      Nat.add_sub_cancel_left]
  have hdrop := h.drop hi
    (show (d.setAddr (Fin.last NDIRECT) 0).type ≠ 0 from (h.type hi : d.type ≠ 0))
    (h.fits_setAddr hi _ (by norm_num)) (fun t => ?_) (T := d.tail v.blk) ?_ fun b hb => ?_
  · rwa [Finset.empty_union] at hdrop
  · rw [Dinode.addr_setIndirect]
    cases t with
    | ind => exact Or.inr rfl
    | data k =>
      by_cases hk : k < NDIRECT
      · exact Or.inl (if_pos hk)
      · exact Or.inr (by simp [hk])
  · simp [Dinode.tail, hd.symm]
  · rw [Dinode.tail, Finset.mem_insert, Finset.mem_erase, Finset.mem_image]
    constructor
    · rintro (rfl | ⟨-, j, hj, rfl⟩)
      · exact ⟨.ind, rfl, by rw [Dinode.addr_setIndirect]⟩
      · refine ⟨.data (NDIRECT + j), haddr j (Finset.mem_range.mp hj), ?_⟩
        rw [Dinode.addr_setIndirect]
        simp
    · rintro ⟨t, rfl, hz⟩
      cases t with
      | ind => exact Or.inl rfl
      | data k =>
        have hk : ¬ k < NDIRECT := fun hk => by
          rw [Dinode.addr_setIndirect] at hz
          simp only [if_pos hk] at hz
          exact hb hz
        have hmax : k < MAXFILE := Nat.not_le.mp fun hge => hb (Dinode.addr_of_ge hge)
        refine Or.inr ⟨hb, k - NDIRECT, Finset.mem_range.mpr ?_, ?_⟩
        · simp only [MAXFILE] at hmax
          omega
        · rw [Dinode.addr_indirect (Nat.not_lt.mp hk) hmax hd]

lemma fwp_freeEntries (hsb : fm.sb = L.sb) (hi : ino i = some d) (h : L.Owns v.blk ino ∅)
    (hp : v.pend = ∅) (hh : v.held.length ≤ 1) (hroom : L.Room (insert L.bmapblock v.logged).card)
    (hind : d.indirect ≠ 0) :
    fwp L D (freeIndirect ROOTDEV (onDev d.indirect) (List.range NINDIRECT))
      (fun _ v' fm' => ∃ v₁, fm' = fm ∧ v' = { v₁ with held := d.indirect :: v₁.held } ∧
        L.OnlyMap v v₁ ∧ L.Owns v₁.blk
          (Function.update ino i (some (d.setAddr (Fin.last NDIRECT) 0))) {d.indirect})
      { v with held := d.indirect :: v.held } fm := by
  have hrange := h.range_addr (s := .ind) hi hind
  have hox : L.Out d.indirect := L.out_data hrange.1 hrange.2
  have haddr : ∀ j < NINDIRECT, d.addr v.blk (.data (NDIRECT + j)) = entry (v.blk d.indirect) j :=
    fun j hj => by
      rw [Dinode.addr_indirect (Nat.le_add_right _ _) (Nat.add_lt_add_left hj _) hind,
        Nat.add_sub_cancel_left]
  have hinj : ∀ j j', j < NINDIRECT → j' < NINDIRECT → entry (v.blk d.indirect) j ≠ 0 →
      entry (v.blk d.indirect) j = entry (v.blk d.indirect) j' → j = j' :=
        fun j j' hj hj' hz he => by
    rw [← haddr j hj, ← haddr j' hj'] at he
    rw [← haddr j hj] at hz
    have hs := (h.addr_inj hi hi hz he).2
    simpa using hs
  have hne : ∀ j < NINDIRECT, entry (v.blk d.indirect) j ≠ d.indirect := fun j hj he => by
    rw [← haddr j hj] at he
    have hs := (h.addr_inj hi hi (t := .ind) (he ▸ hind) he).2
    cases hs
  have hfilter : ((d.tail v.blk).filter fun b => ∀ j ∈ List.range NINDIRECT,
      entry (v.blk d.indirect) j ≠ b) = {d.indirect} := by
    ext b
    simp only [Dinode.tail, Finset.mem_filter, Finset.mem_insert, Finset.mem_erase,
      Finset.mem_image, Finset.mem_range, Finset.mem_singleton, List.mem_range]
    constructor
    · rintro ⟨hb | ⟨-, j, hj, he⟩, hall⟩
      · exact hb
      · exact absurd he (hall j hj)
    · rintro rfl
      exact ⟨Or.inl rfl, hne⟩
  refine fwp_mono (fwp_freeIndirect hox (h.indirect_ne_bmapblock hi hind) hinj hsb rfl
    (h.clearIndirect hi hind) hp hh hroom _ (fun j => List.mem_range.mp) List.nodup_range
    fun j hj hz => ?_) ?_
  · refine Finset.mem_insert_of_mem (Finset.mem_erase.mpr ⟨hz, Finset.mem_image_of_mem _ ?_⟩)
    exact Finset.mem_range.mpr (List.mem_range.mp hj)
  · rintro - v' fm' ⟨v₁, rfl, rfl, hmap, h₁⟩
    exact ⟨v₁, rfl, rfl, hmap, hfilter ▸ h₁⟩

/-! ## Whole files -/

/-- A dinode without blocks. -/
def Dinode.emptied (d : Dinode) : Dinode := { d with addrs := fun _ => 0, size := 0 }

lemma Dinode.addr_emptied (blk : ℕ → Block) (s : Slot) : d.emptied.addr blk s = 0 := by
  cases s with
  | ind => rfl
  | data k =>
    by_cases hk : k < NDIRECT
    · rw [addr_direct hk]
      rfl
    · exact addr_of_indirect_eq_zero (Nat.not_lt.mp hk) rfl

lemma Dinode.clear_eq (ks : List (Fin NDIRECT)) : d.clear ks =
    { d with addrs := fun k => if ∃ k' ∈ ks, Fin.castSucc k' = k then 0 else d.addrs k } := by
  induction ks generalizing d with
  | nil => simp [clear]
  | cons k ks ih =>
    have hstep : d.clear (k :: ks) = (d.setAddr k.castSucc 0).clear ks := rfl
    rw [hstep, ih]
    simp only [setAddr, Dinode.mk.injEq, true_and]
    funext k'
    by_cases hk : ∃ k'' ∈ ks, Fin.castSucc k'' = k'
    · have hk' : ∃ k'' ∈ k :: ks, Fin.castSucc k'' = k' := by
        obtain ⟨k'', h₁, h₂⟩ := hk
        exact ⟨k'', List.mem_cons_of_mem _ h₁, h₂⟩
      rw [if_pos hk, if_pos hk']
    · rw [if_neg hk]
      by_cases he : k.castSucc = k'
      · rw [← he, Function.update_self, if_pos ⟨k, List.mem_cons_self .., rfl⟩]
      · rw [Function.update_of_ne (Ne.symm he), if_neg]
        rintro ⟨k'', h₁, h₂⟩
        rcases List.mem_cons.mp h₁ with rfl | h₁
        · exact he h₂
        · exact hk ⟨k'', h₁, h₂⟩

lemma Dinode.clear_all_setAddr :
    (d.clear (List.finRange NDIRECT)).setAddr (Fin.last NDIRECT) 0 =
      { d with addrs := fun _ => 0 } := by
  rw [clear_eq, setAddr]
  simp only [Dinode.mk.injEq, true_and]
  funext k
  by_cases hk : k = Fin.last NDIRECT
  · rw [hk, Function.update_self]
  · rw [Function.update_of_ne hk, if_pos]
    exact ⟨k.castPred hk, List.mem_finRange _, Fin.castSucc_castPred k hk⟩

/-- The effect of `itrunc`, and of `iput` on the file. -/
structure Layout.Truncated (L : Layout) (i : ℕ) (ino : Inos) (v v' : Vol) (o : Option Dinode)
    (d' : Dinode) : Prop where
  owns : L.Owns v'.blk (Function.update ino i o) ∅
  same : ∀ j d₁, j ≠ i → ino j = some d₁ → d₁.Same v.blk v'.blk
  dinode : ∀ j < L.sb.ninodes, L.dinode v'.blk j = if j = i then d' else L.dinode v.blk j
  old : v'.old = v.old
  held : v'.held = v.held
  pend : v'.pend = v.pend
  logs : v.Logs v' {L.bmapblock, L.iblock i} 0

lemma Dinode.Fits.emptied (h : d.Fits) : d.emptied.Fits :=
  ⟨h.type, h.major, h.minor, h.nlink, by norm_num [Dinode.emptied], fun _ => by
    norm_num [Dinode.emptied]⟩

lemma fwp_itruncEnd {v₀ : Vol} {ino₀ : Inos} (hsb : fm.sb = L.sb) (hip : fm.Caches ip i)
    (hd : (fm.icache ip).din = { d with addrs := fun _ => 0 })
    (h₀ : L.Owns v₀.blk ino₀ ∅) (hi : ino₀ i = some d) (hmap : L.OnlyMap v₀ v)
    (h : L.Owns v.blk (Function.update ino₀ i (some { d with addrs := fun _ => 0 })) ∅)
    (hp : v₀.pend = ∅) (hh : v₀.held.length ≤ 1)
    (hroom : L.Room (v₀.logged ∪ {L.bmapblock, L.iblock i}).card) :
    fwp L D (do
        setInode ip fun i => { i with din := { i.din with size := 0 } }
        iupdate ip)
      (fun _ v' fm' => L.Truncated i ino₀ v₀ v' (some d.emptied) d.emptied ∧
        fm' = fm.setInode ip { fm.icache ip with din := d.emptied }) v fm := by
  have hlt : i < L.sb.ninodes := h₀.lt hi
  have hlow : L.iblock i < L.datastart := (L.iblock_lt hlt).trans (Layout.Owns.bmapblock_lt L)
  have hfits : d.emptied.Fits := (h₀.fits hi).emptied
  have hlogs : v₀.Logs v {L.bmapblock, L.iblock i} 0 :=
    ⟨∅, le_rfl, hmap.logged.trans (Finset.insert_subset (by simp) fun x hx => by simp [hx])⟩
  refine fwp_setInode ?_
  rw [hd]
  refine fwp_mono (fwp_iupdate (i := i) hsb (by simpa [FsMem.Caches] using hip) hlt
    (hmap.pend.trans hp) ((congrArg List.length hmap.held).trans_le (hh.trans one_le_two))
    ((hlogs.room (m := 0) hroom).log_mem (by simp))) ?_
  rintro - v' fm' ⟨rfl, rfl⟩
  rw [FsMem.icache_setInode_self]
  have howns := h.update (Function.update_self _ _ _)
    (show d.emptied.type ≠ 0 from (h₀.type hi : d.type ≠ 0)) hfits rfl
  rw [Function.update_idem] at howns
  refine ⟨⟨howns.put (L.iblock_lt hlt).ne (fun _ => howns.not_own_of_lt hlow _) _,
    fun j d₁ hj hd₁ => ?_, fun j hj => ?_, hmap.old, hmap.held, hmap.pend,
    hlogs.put_mem (by simp) _⟩, rfl⟩
  · exact (hmap.same h₀ hd₁).trans
      (h.same_of_lt (i := j) (by rwa [Function.update_of_ne hj]) hlow _)
  · refine (L.dinode_putDinode hfits).trans ?_
    rw [hmap.dinode hj]

lemma fwp_itrunc (hsb : fm.sb = L.sb) (hip : fm.Caches ip i) (hd : (fm.icache ip).din = d)
    (hi : ino i = some d) (h : L.Owns v.blk ino ∅) (hp : v.pend = ∅) (hh : v.held.length ≤ 1)
    (hroom : L.Room (v.logged ∪ {L.bmapblock, L.iblock i}).card) :
    fwp L D (itrunc ip) (fun _ v' fm' => L.Truncated i ino v v' (some d.emptied) d.emptied ∧
      fm' = fm.setInode ip { fm.icache ip with din := d.emptied }) v fm := by
  have hroom₁ : L.Room (insert L.bmapblock v.logged).card :=
    hroom.mono (Finset.card_le_card (Finset.insert_subset (by simp) Finset.subset_union_left))
  rw [itrunc]
  refine fwp_seq (fwp_freeDirect hsb hip hd hi h hp (hh.trans one_le_two) hroom₁ _) ?_
  rintro - v₁ fm₁ ⟨hmap₁, h₁, rfl⟩
  refine fwp_readInode ?_
  rw [FsMem.icache_setInode_self]
  dsimp only
  rw [hip.2.1]
  generalize hd₁ : d.clear (List.finRange NDIRECT) = d₁ at h₁ ⊢
  have hclear : d₁.setAddr (Fin.last NDIRECT) 0 = { d with addrs := fun _ => 0 } := by
    rw [← hd₁, Dinode.clear_all_setAddr]
  show fwp L D (if d₁.addrs (Fin.last NDIRECT) ≠ 0 then _ else _ : K _) _ _ _
  have hi₁ : Function.update ino i (some d₁) i = some d₁ := Function.update_self _ _ _
  -- with an indirect block, all that it lists is freed before it is freed itself
  split_ifs with hind
  · have hrange := h₁.range_addr (s := .ind) hi₁ hind
    have hp₁ := hmap₁.pend.trans hp
    have hh₁ := (congrArg List.length hmap₁.held).trans_le hh
    refine fwp_bread (b := d₁.indirect) (L.out_data hrange.1 hrange.2) (hh₁.trans one_le_two) ?_
    refine fwp_seq (fwp_freeEntries hsb hi₁ h₁ hp₁ hh₁ (hmap₁.room hroom₁) hind) ?_
    rintro - v' fm' ⟨v₂, rfl, rfl, hmap₂, h₂⟩
    have hmap := hmap₁.trans hmap₂
    refine fwp_release (hmap₂.pend.trans hp₁) ?_
    refine fwp_seq (fwp_bfree_spare (b := d₁.indirect) hsb h₂ (Finset.mem_singleton_self _)
      (hmap.pend.trans hp) ((congrArg List.length hmap.held).trans_le (hh.trans one_le_two))
      (hmap.room hroom₁)) ?_
    rintro - v₃ fm₃ ⟨rfl, hmap₃, h₃⟩
    rw [Finset.erase_singleton, Function.update_idem, hclear] at h₃
    refine fwp_setAddr ?_
    rw [FsMem.setAddr, FsMem.setInode_setInode, FsMem.icache_setInode_self]
    dsimp only
    rw [hclear]
    refine fwp_mono (fwp_itruncEnd hsb (by simpa [FsMem.Caches] using ⟨hip.1, hip.2.2⟩)
      (by rw [FsMem.icache_setInode_self]) h hi (hmap.trans hmap₃) h₃ hp hh hroom) ?_
    rintro - v' fm' ⟨ht, rfl⟩
    exact ⟨ht, by simp⟩
  · have hclear' : d₁ = { d with addrs := fun _ => 0 } := by
      rw [← hclear, Dinode.setAddr_self (not_not.mp hind)]
    rw [hclear'] at h₁ ⊢
    refine fwp_mono (fwp_itruncEnd hsb (by simpa [FsMem.Caches] using ⟨hip.1, hip.2.2⟩)
      (by rw [FsMem.icache_setInode_self]) h hi hmap₁ h₁ hp hh hroom) ?_
    rintro - v' fm' ⟨ht, rfl⟩
    exact ⟨ht, by simp⟩

/-! ## Inodes -/

lemma fwp_iput_drop (hkeep : ¬ ((fm.icache ip).valid ∧ (fm.icache ip).din.nlink = 0 ∧
    (fm.icache ip).ref = 1)) :
    fwp L D (iput ip) (fun _ v' fm' => v' = v ∧
      fm' = fm.setInode ip { fm.icache ip with ref := (fm.icache ip).ref - 1 }) v fm := by
  rw [iput]
  refine fwp_mem (e := .iputTest ip) (r := false)
    (m := fm.setInode ip { fm.icache ip with ref := (fm.icache ip).ref - 1 })
    (by simp only [memHandler, if_neg hkeep]) ?_
  exact fwp_ret ⟨rfl, rfl⟩

/-- **`iput(ip)`** that frees the inode. -/
lemma fwp_iput_free (hsb : fm.sb = L.sb) (hip : fm.Caches ip i) (hd : (fm.icache ip).din = d)
    (hi : ino i = some d) (h : L.Owns v.blk ino ∅) (hp : v.pend = ∅) (hh : v.held.length ≤ 1)
    (hroom : L.Room (v.logged ∪ {L.bmapblock, L.iblock i}).card)
    (hvalid : (fm.icache ip).valid = true) (hnlink : d.nlink = 0) (href : (fm.icache ip).ref = 1) :
    fwp L D (iput ip) (fun _ v' fm' =>
      L.Truncated i ino v v' none { d.emptied with type := 0 } ∧
      fm' = fm.setInode ip { fm.icache ip with
        ref := 0, valid := false, din := { d.emptied with type := 0 } }) v fm := by
  have hlt : i < L.sb.ninodes := h.lt hi
  have hlow : L.iblock i < L.datastart := (L.iblock_lt hlt).trans (Layout.Owns.bmapblock_lt L)
  have hfree : (fm.icache ip).valid ∧ (fm.icache ip).din.nlink = 0 ∧ (fm.icache ip).ref = 1 :=
    ⟨hvalid, hd ▸ hnlink, href⟩
  rw [iput]
  refine fwp_mem (e := .iputTest ip) (r := true) (m := fm)
    (by simp only [memHandler, if_pos hfree]) ?_
  refine fwp_seq (fwp_itrunc hsb hip hd hi h hp hh hroom) ?_
  rintro - v₁ fm₁ ⟨ht, rfl⟩
  -- the inode is empty; storing type 0 frees it
  refine fwp_setInode ?_
  rw [FsMem.setInode_setInode, FsMem.icache_setInode_self]
  have hip₁ :
      (fm.setInode ip { fm.icache ip with din := { d.emptied with type := 0 } }).Caches ip i := by
    simpa [FsMem.Caches] using hip
  refine fwp_seq (fwp_iupdate hsb hip₁ hlt (ht.pend.trans hp)
    ((congrArg List.length ht.held).trans_le (hh.trans one_le_two))
    ((ht.logs.room (m := 0) hroom).log_mem (by simp))) ?_
  rintro - v₂ fm₂ ⟨rfl, rfl⟩
  rw [FsMem.icache_setInode_self]
  refine fwp_setInode ?_
  rw [FsMem.setInode_setInode, FsMem.icache_setInode_self]
  refine fwp_last (fwp_mem (r := ()) rfl (fwp_ret ⟨?_, ?_⟩))
  · have hfits : ({ d.emptied with type := 0 } : Dinode).Fits := by
      have hf := (h.fits hi).emptied
      exact ⟨by norm_num [Bytes.IsShort], hf.major, hf.minor, hf.nlink, hf.size, hf.addrs⟩
    have howns := ht.owns.free (Function.update_self _ _ _) (Dinode.addr_emptied _)
    rw [Function.update_idem] at howns
    refine ⟨howns.put (L.iblock_lt hlt).ne (fun _ => howns.not_own_of_lt hlow _) _,
      fun j d₁ hj hd₁ => ?_, fun j hj => ?_, ht.old, ht.held, ht.pend, ht.logs.put_mem (by simp) _⟩
    · exact (ht.same j d₁ hj hd₁).trans
        (ht.owns.same_of_lt (i := j) (by rwa [Function.update_of_ne hj]) hlow _)
    · refine (L.dinode_putDinode hfits).trans ?_
      rw [ht.dinode j hj]
      split_ifs <;> rfl
  · simp [href]

end

end Xv6
