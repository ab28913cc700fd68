import Xv6.Fs.Content

/-!
# Blocks and inodes, one call at a time

Specifications of the functions of `fs.c` that work on one block or one inode.  Each says exactly
which block is passed to `log_write` and with which contents (`Vol.put`), and what changes in
memory.

* `fwp_bzero`, `fwp_balloc` and `fwp_bfree` are about the free map.  `balloc` takes the first block
  whose bit is clear and zeroes it (`Layout.allocated`), and halts if there is none.
* `fwp_iget` answers with an entry of the inode cache that is in use for the inode, or takes the
  first unused one (`Got`).
* `fwp_ialloc`, `fwp_iupdate` and `fwp_iread` move an inode between its block and the cache.

A function that changes a block reads it, stores into it, passes it to the log and releases it.
`fwp_edit` and `fwp_putBack` are the rules for these steps, and `Vol.edit` is the volume in between.
-/

namespace Xv6

open Lib

/-! ## Editing a block -/

/-- The block `b` is held, and its contents have been changed to `x`. -/
def Vol.edit (v : Vol) (b : ℕ) (x : Block) : Vol :=
  { v with blk := Function.update v.blk b x, pend := {b}, held := b :: v.held }

/-- The contents of `b` have been changed to `x` and passed to `log_write`. -/
def Vol.put (v : Vol) (b : ℕ) (x : Block) : Vol :=
  { v with blk := Function.update v.blk b x, logged := insert b v.logged }

@[simp] lemma Vol.blk_put_self (v : Vol) (b : ℕ) (x : Block) : (v.put b x).blk b = x :=
  Function.update_self _ _ _

lemma Vol.blk_put_of_ne (v : Vol) {b c : ℕ} (h : c ≠ b) (x : Block) :
    (v.put b x).blk c = v.blk c :=
  Function.update_of_ne h _ _

/-- The block of an inode, read as a whole. -/
def Layout.dinode (L : Layout) (blk : ℕ → Block) (i : ℕ) : Dinode :=
  dinodeAt (blk (L.iblock i)) (i % IPB)

/-- What `iupdate` leaves of the inode block. -/
def Layout.putDinode (L : Layout) (blk : ℕ → Block) (i : ℕ) (d : Dinode) : Block :=
  Xv6.putDinode (i % IPB) d (blk (L.iblock i))

/-- What `ialloc` leaves of the inode block. -/
def Layout.newDinode (L : Layout) (blk : ℕ → Block) (i : ℕ) (type : ℤ) : Block :=
  putType (i % IPB) type (zeroDinode (i % IPB) (blk (L.iblock i)))

namespace Layout

variable {L : Layout} {blk blk' : ℕ → Block} {i j : ℕ}

lemma dinode_congr (h : blk' (L.iblock i) = blk (L.iblock i)) :
    L.dinode blk' i = L.dinode blk i := by
  rw [dinode, h, dinode]

lemma slot_ne (hne : j ≠ i) (hb : L.iblock j = L.iblock i) : j % IPB ≠ i % IPB := by
  simp only [iblock, IBLOCK, IPB, BSIZE, DINODESIZE] at hb ⊢
  omega

private lemma dinode_update {x : Block} (h : ∀ slot, slot ≠ i % IPB →
    dinodeAt x slot = dinodeAt (blk (L.iblock i)) slot) (hne : j ≠ i) :
    L.dinode (Function.update blk (L.iblock i) x) j = L.dinode blk j := by
  by_cases hb : L.iblock j = L.iblock i
  · rw [dinode, hb, Function.update_self, h _ (slot_ne hne hb), dinode, hb]
  · exact dinode_congr (Function.update_of_ne hb _ _)

lemma mod_lt_ipb (i : ℕ) : i % IPB < IPB := Nat.mod_lt _ (by norm_num)

lemma dinode_putDinode {d : Dinode} (hd : d.Fits) :
    L.dinode (Function.update blk (L.iblock i) (L.putDinode blk i d)) j =
      if j = i then d else L.dinode blk j := by
  split_ifs with he
  · rw [he, dinode, Function.update_self, putDinode, dinodeAt_putDinode_same _ hd (mod_lt_ipb i)]
  · exact dinode_update (fun slot hs => dinodeAt_putDinode_of_ne _ _ hs) he

lemma dinode_newDinode {t : ℤ} (ht : Bytes.IsShort t) :
    L.dinode (Function.update blk (L.iblock i) (L.newDinode blk i t)) j =
      if j = i then { Dinode.zero with type := t } else L.dinode blk j := by
  split_ifs with he
  · rw [he, dinode, Function.update_self, newDinode, dinodeAt_alloc_same _ (mod_lt_ipb i) ht]
  · exact dinode_update (fun slot hs => dinodeAt_alloc_of_ne _ _ hs) he

end Layout

section

variable {α β : Type} {L : Layout} {D : (ℕ → Block) → Prop} {Q Q' : α → Vol → FsMem → Prop}
  {v : Vol} {fm : FsMem} {b : ℕ} {x : Block}

lemma fwp_edit {g : Block → Block} {f : Unit → K α} (hp : v.pend = ∅) (ho : L.Out b)
    (hf : fwp L D (f ()) Q (v.edit b (g (v.blk b))) fm) :
    fwp L D (bstore (onDev b) g >>= f) Q { v with held := b :: v.held } fm := by
  refine fwp_bstore (List.mem_cons_self ..) ho ?_
  simpa only [Vol.write, Vol.edit, hp, insert_empty_eq] using hf

lemma fwp_edit_again {g : Block → Block} {f : Unit → K α} (ho : L.Out b)
    (hf : fwp L D (f ()) Q (v.edit b (g x)) fm) :
    fwp L D (bstore (onDev b) g >>= f) Q (v.edit b x) fm := by
  refine fwp_bstore (List.mem_cons_self ..) ho ?_
  simpa only [Vol.write, Vol.edit, Function.update_self, Function.update_idem,
    Finset.insert_eq_of_mem (Finset.mem_singleton_self b)] using hf

lemma fwp_putBack {f : Unit → K α} (hp : v.pend = ∅) (ho : L.Out b)
    (hroom : L.Room (insert b v.logged).card) (hf : fwp L D (f ()) Q (v.put b x) fm) :
    fwp L D (logWrite (onDev b) >>= fun _ => brelse (onDev b) >>= f) Q (v.edit b x) fm := by
  have hnot : b ∉ ({b} : Finset ℕ).erase b := Finset.notMem_erase b _
  refine fwp_logWrite (List.mem_cons_self ..) ho hroom
    (fwp_brelse (List.mem_cons_self ..) hnot ?_)
  have he : ({ (v.edit b x).log b with held := ((v.edit b x).log b).held.erase b } : Vol) =
      v.put b x := by
    simp [Vol.edit, Vol.log, Vol.put, hp]
  rwa [he]

lemma fwp_release {f : Unit → K α} (hp : v.pend = ∅) (hf : fwp L D (f ()) Q v fm) :
    fwp L D (brelse (onDev b) >>= f) Q { v with held := b :: v.held } fm := by
  refine fwp_brelse (List.mem_cons_self ..) (by simp [hp]) ?_
  simpa only [List.erase_cons_head] using hf

lemma fwp_look {f : Block → K α} (ho : L.Out b)
    (hf : fwp L D (f (v.blk b)) Q { v with held := b :: v.held } fm) :
    fwp L D (bdata (onDev b) >>= f) Q { v with held := b :: v.held } fm :=
  fwp_bdata (List.mem_cons_self ..) ho hf

/-! ## Blocks -/

lemma fwp_bzero (hp : v.pend = ∅) (hh : v.held.length ≤ 2) (ho : L.Out b)
    (hroom : L.Room (insert b v.logged).card) :
    fwp L D (bzero ROOTDEV b) (fun _ v' fm' => v' = v.put b Bytes.zero ∧ fm' = fm) v fm := by
  refine fwp_bread ho hh ?_
  refine fwp_edit hp ho ?_
  refine fwp_last (fwp_putBack hp ho hroom ?_)
  exact fwp_ret ⟨rfl, rfl⟩

def Layout.allocated (L : Layout) (v : Vol) (b : ℕ) : Vol :=
  (v.put L.bmapblock (setBit b (v.blk L.bmapblock))).put b Bytes.zero

def Layout.free (L : Layout) (blk : ℕ → Block) : ℕ :=
  ((Finset.range L.sb.size).filter fun b => bit (blk L.bmapblock) b = false).card

lemma fwp_ballocBits (hp : v.pend = ∅) (hh : v.held.length ≤ 2)
    (hlow : ∀ c < L.datastart, bit (v.blk L.bmapblock) c = true)
    (hroom : ∀ c, L.Room (insert c (insert L.bmapblock v.logged)).card) (turns bi : ℕ) :
    fwp L D (ballocBits ROOTDEV 0 L.sb (onDev L.bmapblock) turns bi) (fun r v' fm' => fm' = fm ∧
      match r with
      | none => v' = { v with held := L.bmapblock :: v.held } ∧
          ∀ c, bi ≤ c → c < bi + turns → c < L.sb.size → bit (v.blk L.bmapblock) c = true
      | some c => c < L.sb.size ∧ bit (v.blk L.bmapblock) c = false ∧ v' = L.allocated v c)
      { v with held := L.bmapblock :: v.held } fm := by
  have hroom' : L.Room (insert L.bmapblock v.logged).card :=
    (hroom 0).mono (Finset.card_le_card (Finset.subset_insert _ _))
  induction turns generalizing bi with
  | zero => exact fwp_ret ⟨rfl, rfl, fun c h₁ h₂ => absurd h₂ (Nat.not_lt.mpr h₁)⟩
  | succ turns ih =>
    rw [ballocBits, Nat.zero_add]
    split_ifs with hlt
    · refine fwp_look L.out_bmapblock ?_
      split_ifs with hfree
      -- the blocks in front of the data are marked, so that a free one is a block of data
      · have hle : L.datastart ≤ bi := Nat.not_lt.mp fun hc => by
          rw [hlow bi hc] at hfree
          cases hfree
        refine fwp_edit hp L.out_bmapblock ?_
        refine fwp_putBack hp L.out_bmapblock hroom' ?_
        refine fwp_seq (fwp_bzero hp hh (L.out_data hle hlt) (hroom bi)) ?_
        rintro - v' fm' ⟨rfl, rfl⟩
        exact fwp_ret ⟨rfl, hlt, hfree, rfl⟩
      · refine fwp_mono (ih (bi + 1)) fun r v' fm' hr => ⟨hr.1, ?_⟩
        cases r with
        | some c => exact hr.2
        | none =>
          refine ⟨hr.2.1, fun c h₁ h₂ hc => ?_⟩
          rcases h₁.lt_or_eq with h₁ | rfl
          · exact hr.2.2 c h₁ (by omega) hc
          · exact (Bool.eq_false_or_eq_true _).resolve_right hfree
    · exact fwp_ret ⟨rfl, rfl, fun c h₁ _ hc => absurd (h₁.trans_lt hc) hlt⟩

lemma fwp_ballocFrom_ge (hs : L.scarce) (hu : ∀ c < L.sb.size, bit (v.blk L.bmapblock) c = true)
    (turns : ℕ) (hb : L.sb.size ≤ b) :
    fwp L D (ballocFrom ROOTDEV L.sb turns b) (fun _ _ _ => False) v fm := by
  cases turns with
  | zero => exact fwp_panic hs hu
  | succ turns =>
    rw [ballocFrom, if_neg (Nat.not_lt.mpr hb)]
    exact fwp_panic hs hu

lemma Layout.free_eq_zero {blk : ℕ → Block}
    (h : ∀ c < L.sb.size, bit (blk L.bmapblock) c = true) : L.free blk = 0 := by
  refine Finset.card_eq_zero.mpr (Finset.filter_eq_empty_iff.mpr fun c hc => ?_)
  rw [h c (Finset.mem_range.mp hc)]
  simp

/-- `balloc(dev)` returns a block that was free, or panics if there is none.  There is one block of
bitmap, so the outer loop makes one turn. -/
lemma fwp_balloc (hsb : fm.sb = L.sb) (hp : v.pend = ∅) (hh : v.held.length ≤ 2)
    (hlow : ∀ c < L.datastart, bit (v.blk L.bmapblock) c = true)
    (hroom : ∀ c, L.Room (insert c (insert L.bmapblock v.logged)).card)
    (hfree : L.scarce ∨ 0 < L.free v.blk) :
    fwp L D (balloc ROOTDEV) (fun c v' fm' => fm' = fm ∧ c < L.sb.size ∧
      bit (v.blk L.bmapblock) c = false ∧ v' = L.allocated v c) v fm := by
  have hpos : 0 < L.sb.size := Nat.zero_lt_of_lt L.bmap_lt
  have hblock : BBLOCK 0 L.sb = L.bmapblock := Nat.zero_add _
  have hsize : L.sb.size ≤ BPB := L.size_le.trans (by norm_num)
  refine fwp_getSb ?_
  rw [hsb, ← Nat.succ_pred_eq_of_pos hpos, ballocFrom, Nat.succ_pred_eq_of_pos hpos, if_pos hpos,
    hblock]
  refine fwp_bread L.out_bmapblock hh ?_
  refine fwp_seq (fwp_ballocBits hp hh hlow hroom BPB 0) ?_
  rintro r v' fm' ⟨rfl, hr⟩
  cases r with
  | some c => exact fwp_ret ⟨rfl, hr⟩
  | none =>
    obtain ⟨rfl, hfull⟩ := hr
    have hall : ∀ c < L.sb.size, bit (v.blk L.bmapblock) c = true := fun c hc =>
      hfull c (Nat.zero_le c) (by omega) hc
    refine fwp_release hp ?_
    refine fwp_mono (fwp_ballocFrom_ge (hfree.resolve_right ?_) hall _ ?_) fun _ _ _ h => h.elim
    · exact Nat.not_lt.mpr (L.free_eq_zero hall).le
    · rwa [Nat.zero_add]

lemma fwp_bfree (hsb : fm.sb = L.sb) (hp : v.pend = ∅) (hh : v.held.length ≤ 2)
    (hb : b < L.sb.size) (hbit : bit (v.blk L.bmapblock) b = true)
    (hroom : L.Room (insert L.bmapblock v.logged).card) :
    fwp L D (bfree ROOTDEV b) (fun _ v' fm' => fm' = fm ∧
      v' = v.put L.bmapblock (clearBit b (v.blk L.bmapblock))) v fm := by
  have hlt : b < BPB := (hb.trans_le L.size_le).trans (by norm_num)
  have hblock : BBLOCK b L.sb = L.bmapblock := by
    rw [BBLOCK, Nat.div_eq_of_lt hlt, Nat.zero_add]
    rfl
  refine fwp_getSb ?_
  rw [hsb, hblock]
  refine fwp_bread L.out_bmapblock hh ?_
  refine fwp_look L.out_bmapblock ?_
  rw [Nat.mod_eq_of_lt hlt, if_neg (by simp [hbit])]
  refine fwp_edit hp L.out_bmapblock ?_
  refine fwp_last (fwp_putBack hp L.out_bmapblock hroom ?_)
  exact fwp_ret ⟨rfl, rfl⟩

/-! ## The inode cache -/

@[simp] lemma FsMem.setInode_setInode (ip : Fin NINODE) (i i' : Inode) :
    (fm.setInode ip i).setInode ip i' = fm.setInode ip i' := by
  simp [FsMem.setInode]

@[simp] lemma FsMem.icache_setInode_self (ip : Fin NINODE) (i : Inode) :
    (fm.setInode ip i).icache ip = i := by
  simp [FsMem.setInode]

lemma FsMem.icache_setInode_of_ne {ip jp : Fin NINODE} (h : jp ≠ ip) (i : Inode) :
    (fm.setInode ip i).icache jp = fm.icache jp := by
  simp [FsMem.setInode, h]

@[simp] lemma FsMem.sb_setInode (ip : Fin NINODE) (i : Inode) : (fm.setInode ip i).sb = fm.sb := rfl

/-- The entry `ip` caches the inode `inum`. -/
def FsMem.Caches (fm : FsMem) (ip : Fin NINODE) (inum : ℕ) : Prop :=
  0 < (fm.icache ip).ref ∧ (fm.icache ip).dev = ROOTDEV ∧ (fm.icache ip).inum = inum

/-- What `iget(dev, inum)` does when it returns `ip`. -/
inductive Got (fm : FsMem) (inum : ℕ) (ip : Fin NINODE) : FsMem → Prop
  /-- The inode was cached. -/
  | hit (h : fm.Caches ip inum) :
    Got fm inum ip (fm.setInode ip { fm.icache ip with ref := (fm.icache ip).ref + 1 })
  /-- It was not, and this entry was empty. -/
  | fresh (h : (fm.icache ip).ref = 0) (hnone : ∀ jp, ¬ fm.Caches jp inum) :
    Got fm inum ip (fm.setInode ip { fm.icache ip with
      dev := ROOTDEV, inum := inum, ref := 1, valid := false })

/-- A reference from `iget` is not the last one to an inode that has been read. -/
lemma Got.not_last {inum : ℕ} {ip : Fin NINODE} {fm' : FsMem} (h : Got fm inum ip fm') :
    ¬ ((fm'.icache ip).valid ∧ (fm'.icache ip).din.nlink = 0 ∧ (fm'.icache ip).ref = 1) := by
  rintro ⟨hv, -, href⟩
  cases h with
  | hit hc =>
    rw [FsMem.icache_setInode_self] at href
    exact hc.1.ne' (Nat.succ.inj href)
  | fresh =>
    rw [FsMem.icache_setInode_self] at hv
    cases hv

lemma igetScan_spec (c : Fin NINODE → Inode) (dev inum : ℕ) (l : List (Fin NINODE))
    (empty : Option (Fin NINODE)) (he : ∀ ip ∈ empty, (c ip).ref = 0) :
    match igetScan c dev inum l empty with
    | .hit ip => 0 < (c ip).ref ∧ (c ip).dev = dev ∧ (c ip).inum = inum
    | .fresh ip => (c ip).ref = 0 ∧
        ∀ jp ∈ l, ¬ (0 < (c jp).ref ∧ (c jp).dev = dev ∧ (c jp).inum = inum)
    | .full => empty = none ∧
        ∀ jp ∈ l, 0 < (c jp).ref ∧ ¬ ((c jp).dev = dev ∧ (c jp).inum = inum) := by
  -- the scan keeps the first unused entry it has come by, and goes on in case the inode is cached
  induction l generalizing empty with
  | nil =>
    cases empty with
    | none => exact ⟨rfl, fun _ h => nomatch h⟩
    | some ip => exact ⟨he ip rfl, fun _ h => nomatch h⟩
  | cons jp l ih =>
    rw [igetScan]
    by_cases hhit : 0 < (c jp).ref ∧ (c jp).dev = dev ∧ (c jp).inum = inum
    · rw [if_pos hhit]
      exact hhit
    · rw [if_neg hhit]
      have he' : ∀ ip ∈ if empty = none ∧ (c jp).ref = 0 then some jp else empty,
          (c ip).ref = 0 := by
        intro ip hip
        by_cases hemp : empty = none ∧ (c jp).ref = 0
        · rw [if_pos hemp] at hip
          exact Option.some.inj hip ▸ hemp.2
        · rw [if_neg hemp] at hip
          exact he ip hip
      have hrec := ih _ he'
      generalize igetScan c dev inum l _ = res at hrec
      cases res with
      | hit ip => exact hrec
      | full =>
        obtain ⟨hnone, hall⟩ := hrec
        have hjp : ¬ (empty = none ∧ (c jp).ref = 0) := fun hemp => by
          rw [if_pos hemp] at hnone
          cases hnone
        rw [if_neg hjp] at hnone
        have hpos : 0 < (c jp).ref := Nat.pos_of_ne_zero fun hz => hjp ⟨hnone, hz⟩
        exact ⟨hnone, List.forall_mem_cons.mpr ⟨⟨hpos, fun h => hhit ⟨hpos, h⟩⟩, hall⟩⟩
      | fresh ip =>
        refine ⟨hrec.1, fun kp hkp => ?_⟩
        rcases List.mem_cons.mp hkp with rfl | hkp
        · exact hhit
        · exact hrec.2 kp hkp

/-- `iget(dev, inum)` finds the inode in the cache, takes an empty entry, or panics if there is
none. -/
lemma fwp_iget {inum : ℕ} {f : Fin NINODE → K α}
    (hfree : L.scarce ∨ ∃ ip, fm.Caches ip inum ∨ (fm.icache ip).ref = 0)
    (hf : ∀ ip fm', Got fm inum ip fm' → fwp L D (f ip) Q v fm') :
    fwp L D (iget ROOTDEV inum >>= f) Q v fm := by
  have hspec := igetScan_spec fm.icache ROOTDEV inum (List.finRange NINODE) none (by simp)
  cases hscan : igetScan fm.icache ROOTDEV inum (List.finRange NINODE) none with
  | hit ip =>
    rw [hscan] at hspec
    exact fwp_mem (by simp only [memHandler, hscan]) (hf ip _ (.hit hspec))
  | fresh ip =>
    rw [hscan] at hspec
    exact fwp_mem (by simp only [memHandler, hscan])
      (hf ip _ (.fresh hspec.1 fun jp => hspec.2 jp (List.mem_finRange jp)))
  | full =>
    rw [hscan] at hspec
    refine fwp_mem_error (x := .panic .igetNoInodes) (by simp only [memHandler, hscan])
      (hfree.resolve_right ?_) fun ip => (hspec.2 ip (List.mem_finRange ip)).1
    rintro ⟨ip, hc | hz⟩
    · exact (hspec.2 ip (List.mem_finRange ip)).2 hc.2
    · exact (hspec.2 ip (List.mem_finRange ip)).1.ne' hz

/-! ## Inodes -/

lemma fwp_iallocFrom {type : ℤ} (hp : v.pend = ∅) (hh : v.held.length ≤ 2)
    (hroom : ∀ i < L.sb.ninodes, L.Room (insert (L.iblock i) v.logged).card) (turns i : ℕ)
    (hi : 1 ≤ i) (hturns : L.sb.ninodes ≤ i + turns)
    (hused : ∀ j, 0 < j → j < i → (L.dinode v.blk j).type ≠ 0)
    (hres : L.scarce ∨ (∃ ip, (fm.icache ip).ref = 0) ∧
      ∃ j < L.sb.ninodes, i ≤ j ∧ j < i + turns ∧ (L.dinode v.blk j).type = 0) :
    fwp L D (iallocFrom ROOTDEV type L.sb turns i) (fun ip v' fm' => ∃ inum, 1 ≤ inum ∧
      inum < L.sb.ninodes ∧ (L.dinode v.blk inum).type = 0 ∧
      v' = v.put (L.iblock inum) (L.newDinode v.blk inum type) ∧ Got fm inum ip fm') v fm := by
  -- every inode passed so far is in use; if none is left, `ialloc` panics
  induction turns generalizing i with
  | zero =>
    refine fwp_panic (hres.resolve_right ?_) fun j hpos hj => hused j hpos (by omega)
    rintro ⟨-, j, -, hij, hji, -⟩
    omega
  | succ turns ih =>
    rw [iallocFrom]
    split_ifs with hlt
    · have ho := L.out_iblock hlt
      refine fwp_bread (b := L.iblock i) ho hh ?_
      refine fwp_look ho ?_
      split_ifs with hfree
      · refine fwp_edit hp ho ?_
        refine fwp_edit_again ho ?_
        refine fwp_putBack hp ho (hroom i hlt) ?_
        refine fwp_last (fwp_iget (hres.imp_right fun ⟨⟨ip, hz⟩, _⟩ => ⟨ip, Or.inr hz⟩)
          fun ip fm' hgot => ?_)
        exact fwp_ret ⟨i, hi, hlt, hfree, rfl, hgot⟩
      · refine fwp_release hp ?_
        refine ih (i + 1) (Nat.le_add_left 1 i) (by omega) (fun j hpos hj => ?_) (hres.imp_right ?_)
        · rcases Nat.lt_succ_iff_lt_or_eq.mp hj with hj | rfl
          · exact hused j hpos hj
          · exact hfree
        rintro ⟨hz, j, hj, hij, hji, htype⟩
        have hne : i ≠ j := by
          rintro rfl
          exact hfree htype
        exact ⟨hz, j, hj, by omega, by omega, htype⟩
    · refine fwp_panic (hres.resolve_right ?_) fun j hpos hj => hused j hpos (by omega)
      rintro ⟨-, j, hj, hij, -, -⟩
      omega

lemma fwp_ialloc {type : ℤ} (hsb : fm.sb = L.sb) (hp : v.pend = ∅) (hh : v.held.length ≤ 2)
    (hroom : ∀ i < L.sb.ninodes, L.Room (insert (L.iblock i) v.logged).card)
    (hres : L.scarce ∨ (∃ ip, (fm.icache ip).ref = 0) ∧
      ∃ j, 0 < j ∧ j < L.sb.ninodes ∧ (L.dinode v.blk j).type = 0) :
    fwp L D (ialloc ROOTDEV type) (fun ip v' fm' => ∃ inum, 1 ≤ inum ∧ inum < L.sb.ninodes ∧
      (L.dinode v.blk inum).type = 0 ∧
      v' = v.put (L.iblock inum) (L.newDinode v.blk inum type) ∧ Got fm inum ip fm') v fm := by
  refine fwp_getSb ?_
  rw [hsb]
  refine fwp_iallocFrom hp hh hroom _ 1 le_rfl (Nat.le_add_left _ _) (fun j hpos hj => by omega)
    (hres.imp_right ?_)
  rintro ⟨hz, j, hpos, hj, htype⟩
  exact ⟨hz, j, hj, hpos, by omega, htype⟩

lemma fwp_iupdate {ip : Fin NINODE} {i : ℕ} (hsb : fm.sb = L.sb) (hip : fm.Caches ip i)
    (hi : i < L.sb.ninodes) (hp : v.pend = ∅) (hh : v.held.length ≤ 2)
    (hroom : L.Room (insert (L.iblock i) v.logged).card) :
    fwp L D (iupdate ip) (fun _ v' fm' => fm' = fm ∧
      v' = v.put (L.iblock i) (L.putDinode v.blk i (fm.icache ip).din)) v fm := by
  obtain ⟨-, hdev, rfl⟩ := hip
  have ho := L.out_iblock hi
  refine fwp_getSb ?_
  refine fwp_readInode ?_
  rw [hsb, hdev]
  refine fwp_bread (b := L.iblock _) ho hh ?_
  refine fwp_readInode (fwp_edit hp ho ?_)
  refine fwp_readInode (fwp_edit_again ho ?_)
  refine fwp_readInode (fwp_edit_again ho ?_)
  refine fwp_readInode (fwp_edit_again ho ?_)
  refine fwp_readInode (fwp_edit_again ho ?_)
  refine fwp_readInode (fwp_edit_again ho ?_)
  refine fwp_last (fwp_putBack hp ho hroom ?_)
  exact fwp_ret ⟨rfl, rfl⟩

lemma fwp_iread_valid {ip : Fin NINODE} (href : 0 < (fm.icache ip).ref)
    (hvalid : (fm.icache ip).valid = true) :
    fwp L D (iread ip) (fun _ v' fm' => v' = v ∧ fm' = fm) v fm := by
  refine fwp_readInode ?_
  rw [if_neg (by omega), if_pos hvalid]
  exact fwp_ret ⟨rfl, rfl⟩

lemma fwp_copyField {ip : Fin NINODE} {g : Dinode → Dinode → Dinode} {f : Unit → K α} (ho : L.Out b)
    (hf : fwp L D (f ()) Q { v with held := b :: v.held } (fm.setInode ip { fm.icache ip with
      din := g (dinodeAt (v.blk b) ((fm.icache ip).inum % IPB)) (fm.icache ip).din })) :
    fwp L D (copyField ip (onDev b) g >>= f) Q { v with held := b :: v.held } fm := by
  refine fwp_seq (fwp_look ho (fwp_last (fwp_setInode (fwp_ret ⟨rfl, rfl⟩)))) ?_
    (M := fun _ v' fm' => v' = { v with held := b :: v.held } ∧ fm' = fm.setInode ip
      { fm.icache ip with
        din := g (dinodeAt (v.blk b) ((fm.icache ip).inum % IPB)) (fm.icache ip).din })
  rintro - v' fm' ⟨rfl, rfl⟩
  exact hf

lemma fwp_iread {ip : Fin NINODE} {i : ℕ} (hsb : fm.sb = L.sb) (hip : fm.Caches ip i)
    (ho : L.Out (L.iblock i)) (hvalid : (fm.icache ip).valid = false) (hp : v.pend = ∅)
    (hh : v.held.length ≤ 2) (ht : (L.dinode v.blk i).type ≠ 0) :
    fwp L D (iread ip) (fun _ v' fm' => v' = v ∧ fm' = fm.setInode ip { fm.icache ip with
      valid := true, din := L.dinode v.blk i }) v fm := by
  obtain ⟨href, hdev, rfl⟩ := hip
  refine fwp_readInode ?_
  rw [if_neg (by omega), if_neg (by simp [hvalid])]
  refine fwp_getSb ?_
  rw [hsb, hdev]
  refine fwp_bread (b := L.iblock _) ho hh ?_
  refine fwp_copyField ho ?_
  refine fwp_copyField ho ?_
  refine fwp_copyField ho ?_
  refine fwp_copyField ho ?_
  refine fwp_copyField ho ?_
  refine fwp_copyField ho ?_
  refine fwp_release hp (fwp_setInode ?_)
  simp only [FsMem.setInode_setInode, FsMem.icache_setInode_self]
  refine fwp_readInode ?_
  rw [FsMem.icache_setInode_self]
  split_ifs with hz
  · exact absurd hz ht
  · exact fwp_ret ⟨rfl, rfl⟩

end

end Xv6
