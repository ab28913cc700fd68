import Xv6.Fs.Volume
import Xv6.Lib.Alloc

/-!
# Who owns a block

The free map, the inodes and the indirect blocks of a volume have to agree.  An inode holds block
addresses in its positions (`Slot`): one for each block of data, and one for the indirect block.
`Own blk ino b p` says that the position `p` of some inode in use holds the address `b`; `ino` gives
the inodes in use as the kernel sees them, which is ahead of the drive for an inode that has been
changed in memory and not passed to `iupdate` yet.

`L.Owns blk ino spare` is the agreement, an instance of `Lib.Marked`, and there is a lemma for every
way in which the code changes it.

`Own` treats data blocks and indirect blocks alike, so that there are not two maps to keep in step.
An indirect block is read through `blk`, and changing it changes who owns what; `own_putEntry` and
`own_setIndirect` are the two places where that happens.
-/

namespace Xv6

open Lib

/-! ## Positions -/

/-- A position in which an inode holds a block address. -/
inductive Slot
  | data (k : ℕ)
  | ind
  deriving DecidableEq

namespace Dinode

/-- The address of the indirect block. -/
def indirect (d : Dinode) : ℕ := d.addrs (Fin.last NDIRECT)

/-- `addrs[k] = b`. -/
def setAddr (d : Dinode) (k : Fin (NDIRECT + 1)) (b : ℕ) : Dinode :=
  { d with addrs := Function.update d.addrs k b }

/-- The address in a position, or `0`. -/
def addr (blk : ℕ → Block) (d : Dinode) : Slot → ℕ
  | .ind => d.indirect
  | .data k =>
    if h : k < NDIRECT then d.addrs ⟨k, Nat.lt_succ_of_lt h⟩
    else if k < MAXFILE ∧ d.indirect ≠ 0 then entry (blk d.indirect) (k - NDIRECT)
    else 0

variable {blk blk' : ℕ → Block} {d d' : Dinode} {k : ℕ}

lemma addr_ind : d.addr blk .ind = d.indirect := rfl

lemma addr_direct (hk : k < NDIRECT) :
    d.addr blk (.data k) = d.addrs ⟨k, Nat.lt_succ_of_lt hk⟩ := dif_pos hk

lemma addr_indirect (hk : NDIRECT ≤ k) (hk' : k < MAXFILE) (hd : d.indirect ≠ 0) :
    d.addr blk (.data k) = entry (blk d.indirect) (k - NDIRECT) := by
  rw [addr, dif_neg (Nat.not_lt.mpr hk), if_pos ⟨hk', hd⟩]

lemma addr_of_indirect_eq_zero (hk : NDIRECT ≤ k) (hd : d.indirect = 0) :
    d.addr blk (.data k) = 0 := by
  rw [addr, dif_neg (Nat.not_lt.mpr hk), if_neg fun h => h.2 hd]

lemma addr_of_ge (hk : MAXFILE ≤ k) : d.addr blk (.data k) = 0 := by
  rw [addr, dif_neg (by simp only [MAXFILE] at hk; omega), if_neg fun h => Nat.not_lt.mpr hk h.1]

lemma addr_congr (ha : d'.addrs = d.addrs)
    (hb : d.indirect ≠ 0 → blk' d.indirect = blk d.indirect) (s : Slot) :
    d'.addr blk' s = d.addr blk s := by
  have hi : d'.indirect = d.indirect := congrFun ha _
  cases s with
  | ind => exact hi
  | data k =>
    by_cases hk : k < NDIRECT
    · rw [addr_direct hk, addr_direct hk, ha]
    by_cases hd : d.indirect = 0
    · rw [addr_of_indirect_eq_zero (Nat.not_lt.mp hk) hd,
        addr_of_indirect_eq_zero (Nat.not_lt.mp hk) (hi.trans hd)]
    · simp only [addr, dif_neg hk, hi, hb hd]

lemma setAddr_indirect (k : Fin NDIRECT) (b : ℕ) : (d.setAddr k.castSucc b).indirect = d.indirect :=
  Function.update_of_ne (Fin.castSucc_lt_last k).ne' _ _

lemma addr_setAddr (k : Fin NDIRECT) (b : ℕ) (s : Slot) :
    (d.setAddr k.castSucc b).addr blk s = if s = .data k then b else d.addr blk s := by
  cases s with
  | ind =>
    rw [if_neg (by simp), addr_ind, addr_ind]
    exact setAddr_indirect k b
  | data j =>
    by_cases hj : j < NDIRECT
    · rw [addr_direct hj, addr_direct hj]
      by_cases he : j = k
      · subst he
        rw [if_pos rfl]
        exact Function.update_self _ _ _
      · rw [if_neg (by simpa using he)]
        refine Function.update_of_ne (fun h => he ?_) _ _
        exact congrArg Fin.val h
    · have hne : Slot.data j ≠ .data k := fun h => hj (by rw [Slot.data.inj h]; exact k.isLt)
      simp only [if_neg hne, addr, dif_neg hj, setAddr_indirect]

lemma addr_setIndirect (b : ℕ) (s : Slot) :
    (d.setAddr (Fin.last NDIRECT) b).addr blk s =
      match s with
      | .ind => b
      | .data k => if k < NDIRECT then d.addr blk (.data k)
          else if k < MAXFILE ∧ b ≠ 0 then entry (blk b) (k - NDIRECT) else 0 := by
  have hi : (d.setAddr (Fin.last NDIRECT) b).indirect = b := by simp [setAddr, indirect]
  cases s with
  | ind => exact hi
  | data k =>
    by_cases hk : k < NDIRECT
    · have hne : (⟨k, Nat.lt_succ_of_lt hk⟩ : Fin (NDIRECT + 1)) ≠ Fin.last NDIRECT := fun h =>
        hk.ne (congrArg Fin.val h)
      simp only [if_pos hk, addr_direct hk]
      exact Function.update_of_ne hne _ _
    · simp only [addr, dif_neg hk, if_neg hk, hi]

end Dinode

/-! ## Owners -/

abbrev Inos := ℕ → Option Dinode

/-- The position `p.2` of the inode `p.1` holds the address `b`. -/
def Own (blk : ℕ → Block) (ino : Inos) (b : ℕ) (p : ℕ × Slot) : Prop :=
  b ≠ 0 ∧ ∃ d, ino p.1 = some d ∧ d.addr blk p.2 = b

section Own

variable {blk blk' : ℕ → Block} {ino : Inos} {i b c : ℕ} {d d' : Dinode} {p : ℕ × Slot}

lemma own_some (hi : ino i = some d) {s : Slot} :
    Own blk ino b (i, s) ↔ b ≠ 0 ∧ d.addr blk s = b := by
  simp [Own, hi]

lemma own_update_of_ne (o : Option Dinode) (hp : p.1 ≠ i) :
    Own blk (Function.update ino i o) b p ↔ Own blk ino b p := by
  simp only [Own, Function.update_of_ne hp]

lemma own_update_some {s : Slot} :
    Own blk (Function.update ino i (some d)) b (i, s) ↔ b ≠ 0 ∧ d.addr blk s = b := by
  simp [Own]

lemma own_congr (h : ∀ i d, ino i = some d → d.indirect ≠ 0 → blk' d.indirect = blk d.indirect) :
    Own blk' ino b p ↔ Own blk ino b p := by
  refine and_congr_right fun _ => exists_congr fun d => and_congr_right fun hd => ?_
  rw [Dinode.addr_congr rfl (h _ d hd)]

lemma own_put (h : ∀ i, ¬ Own blk ino c (i, .ind)) (x : Block) :
    Own (Function.update blk c x) ino b p ↔ Own blk ino b p := by
  refine own_congr fun i d hi hd => Function.update_of_ne (fun he => ?_) _ _
  exact h i ((own_some hi).mpr ⟨he ▸ hd, he⟩)

lemma own_update_addr (hi : ino i = some d) (h : ∀ s, d'.addr blk s = d.addr blk s) :
    Own blk (Function.update ino i (some d')) b p ↔ Own blk ino b p := by
  obtain ⟨j, s⟩ := p
  by_cases hj : j = i
  · subst hj
    rw [own_update_some, own_some hi, h]
  · exact own_update_of_ne _ hj

lemma own_update_none (hi : ∀ d, ino i = some d → ∀ s, d.addr blk s = 0) (o : Option Dinode)
    (ho : ∀ d, o = some d → ∀ s, d.addr blk s = 0) :
    Own blk (Function.update ino i o) b p ↔ Own blk ino b p := by
  obtain ⟨j, s⟩ := p
  by_cases hj : j = i
  · subst hj
    have h₁ : ¬ Own blk ino b (j, s) := fun ⟨hb, d, hd, he⟩ => hb (he ▸ hi d hd s)
    have h₂ : ¬ Own blk (Function.update ino j o) b (j, s) := fun ⟨hb, d, hd, he⟩ =>
      hb (he ▸ ho d (by simpa using hd) s)
    exact iff_of_false h₂ h₁
  · exact own_update_of_ne _ hj

lemma own_fill {s : Slot} (hi : ino i = some d) (hc : c ≠ 0) (h₀ : d.addr blk s = 0)
    (h : ∀ t, d'.addr blk t = if t = s then c else d.addr blk t) :
    Own blk (Function.update ino i (some d')) b p ↔ Own blk ino b p ∨ (b = c ∧ p = (i, s)) := by
  obtain ⟨j, t⟩ := p
  by_cases hj : j = i
  · subst hj
    rw [own_update_some, own_some hi, h]
    by_cases ht : t = s
    · subst ht
      simp only [if_true, h₀, and_true]
      constructor
      · rintro ⟨-, rfl⟩
        exact Or.inr rfl
      · rintro (⟨hb, rfl⟩ | rfl)
        · exact absurd rfl hb
        · exact ⟨hc, rfl⟩
    · simp [ht]
  · rw [own_update_of_ne _ hj]
    simp [hj]

lemma own_setAddr {k : Fin NDIRECT} (hi : ino i = some d) (hc : c ≠ 0)
    (h₀ : d.addrs k.castSucc = 0) :
    Own blk (Function.update ino i (some (d.setAddr k.castSucc c))) b p ↔
      Own blk ino b p ∨ (b = c ∧ p = (i, .data k)) :=
  own_fill hi hc ((Dinode.addr_direct k.isLt).trans h₀) (Dinode.addr_setAddr k c)

lemma own_setIndirect (hi : ino i = some d) (hc : c ≠ 0) (h₀ : d.indirect = 0)
    (hz : ∀ j, entry (blk c) j = 0) :
    Own blk (Function.update ino i (some (d.setAddr (Fin.last NDIRECT) c))) b p ↔
      Own blk ino b p ∨ (b = c ∧ p = (i, .ind)) := by
  refine own_fill hi hc h₀ fun t => ?_
  rw [Dinode.addr_setIndirect]
  cases t with
  | ind => simp
  | data k =>
    by_cases hk : k < NDIRECT
    · simp [hk]
    · simp [hk, hz, Dinode.addr_of_indirect_eq_zero (Nat.not_lt.mp hk) h₀]

lemma own_putEntry {j : ℕ} (hi : ino i = some d) (hd : d.indirect ≠ 0) (hj : j < NINDIRECT)
    (hc : c ≠ 0) (hc' : c < UINT) (h₀ : entry (blk d.indirect) j = 0)
    (hu : ∀ i', Own blk ino d.indirect (i', .ind) → i' = i) :
    Own (Function.update blk d.indirect (putEntry j c (blk d.indirect))) ino b p ↔
      Own blk ino b p ∨ (b = c ∧ p = (i, .data (NDIRECT + j))) := by
  obtain ⟨i', t⟩ := p
  have hmax : NDIRECT + j < MAXFILE := Nat.add_lt_add_left hj _
  -- another inode does not have this indirect block, and sees no change
  by_cases he : i' = i
  · subst he
    rw [own_some hi, own_some hi]
    have haddr : d.addr (Function.update blk d.indirect (putEntry j c (blk d.indirect))) t =
        if t = .data (NDIRECT + j) then c else d.addr blk t := by
      cases t with
      | ind => simp [Dinode.addr_ind]
      | data k =>
        by_cases hk : k < NDIRECT
        · rw [if_neg (by simp; omega), Dinode.addr_direct hk, Dinode.addr_direct hk]
        by_cases hk' : k < MAXFILE
        · rw [Dinode.addr_indirect (Nat.not_lt.mp hk) hk' hd, Function.update_self,
            Dinode.addr_indirect (Nat.not_lt.mp hk) hk' hd]
          by_cases hkj : k = NDIRECT + j
          · subst hkj
            rw [if_pos rfl, Nat.add_sub_cancel_left, entry_putEntry_same _ hj hc']
          · rw [if_neg (by simpa using hkj), entry_putEntry_of_ne _ (by omega)]
        · rw [if_neg (by simp; omega), Dinode.addr_of_ge (Nat.not_lt.mp hk'),
            Dinode.addr_of_ge (Nat.not_lt.mp hk')]
    rw [haddr]
    by_cases ht : t = .data (NDIRECT + j)
    · subst ht
      rw [if_pos rfl, Dinode.addr_indirect (Nat.le_add_right _ _) hmax hd,
        Nat.add_sub_cancel_left, h₀]
      constructor
      · rintro ⟨-, rfl⟩
        exact Or.inr ⟨rfl, rfl⟩
      · rintro (⟨hb, rfl⟩ | ⟨rfl, -⟩)
        · exact absurd rfl hb
        · exact ⟨hc, rfl⟩
    · simp [ht]
  · have hiff : Own (Function.update blk d.indirect (putEntry j c (blk d.indirect))) ino b (i', t) ↔
        Own blk ino b (i', t) := by
      refine and_congr_right fun _ => exists_congr fun d' => and_congr_right fun hd' => ?_
      rw [Dinode.addr_congr rfl fun hne => Function.update_of_ne (fun heq => he ?_) _ _]
      exact hu i' ⟨hd, d', hd', heq⟩
    simp [hiff, he]

lemma own_drop (hi : ino i = some d) (hd' : ∀ t, d'.addr blk t = d.addr blk t ∨ d'.addr blk t = 0)
    (hu : ∀ {b p q}, Own blk ino b p → Own blk ino b q → p = q) {T : Finset ℕ}
    (hT : ∀ b ≠ 0, b ∈ T ↔ ∃ t, d.addr blk t = b ∧ d'.addr blk t = 0) :
    Own blk (Function.update ino i (some d')) b p ↔ Own blk ino b p ∧ b ∉ T := by
  obtain ⟨j, t⟩ := p
  have hout : ∀ h : Own blk ino b (j, t), b ∈ T → j = i ∧ d'.addr blk t = 0 := fun h hb => by
    obtain ⟨t', ht', hz⟩ := (hT b h.1).mp hb
    obtain ⟨rfl, rfl⟩ := Prod.mk.inj (hu h ((own_some hi).mpr ⟨h.1, ht'⟩))
    exact ⟨rfl, hz⟩
  by_cases hj : j = i
  · subst hj
    rw [own_update_some]
    constructor
    · rintro ⟨hb, he⟩
      have hsame : d.addr blk t = b := by
        rcases hd' t with h | h
        · exact h.symm.trans he
        · exact absurd (he.symm.trans h) hb
      have hown : Own blk ino b (j, t) := (own_some hi).mpr ⟨hb, hsame⟩
      exact ⟨hown, fun hin => hb (he.symm.trans (hout hown hin).2)⟩
    · rintro ⟨hown, hb⟩
      obtain ⟨hb₀, he⟩ := (own_some hi).mp hown
      refine ⟨hb₀, ?_⟩
      rcases hd' t with h | h
      · exact h.trans he
      · exact absurd ((hT b hb₀).mpr ⟨t, he, h⟩) hb
  · rw [own_update_of_ne _ hj]
    exact ⟨fun h => ⟨h, fun hb => hj (hout h hb).1⟩, And.left⟩

end Own

/-! ## The agreement -/

/-- The free map marks the metadata, the blocks that the inodes hold, and the spare ones, which are
marked and not held by an inode yet, or no longer.  No block is held in two positions. -/
structure Layout.Owns (L : Layout) (blk : ℕ → Block) (ino : Inos) (spare : Finset ℕ) : Prop where
  lt : ∀ {i d}, ino i = some d → i < L.sb.ninodes
  type : ∀ {i d}, ino i = some d → d.type ≠ 0
  fits : ∀ {i d}, ino i = some d → d.Fits
  marked : Marked L.datastart L.sb.size (bit (blk L.bmapblock)) (Own blk ino) spare

namespace Layout.Owns

variable {L : Layout} {blk : ℕ → Block} {ino : Inos} {spare : Finset ℕ} {i b : ℕ} {d d' : Dinode}

lemma range (h : L.Owns blk ino spare) {p : ℕ × Slot} (hb : Own blk ino b p) :
    L.datastart ≤ b ∧ b < L.sb.size := h.marked.range hb

lemma range_addr (h : L.Owns blk ino spare) (hi : ino i = some d) {s : Slot}
    (hs : d.addr blk s ≠ 0) : L.datastart ≤ d.addr blk s ∧ d.addr blk s < L.sb.size :=
  h.range ((own_some hi).mpr ⟨hs, rfl⟩)

lemma addr_inj (h : L.Owns blk ino spare) {i' : ℕ} (hi : ino i = some d) (hi' : ino i' = some d')
    {s t : Slot} (hs : d.addr blk s ≠ 0) (he : d.addr blk s = d'.addr blk t) :
    i = i' ∧ s = t :=
  Prod.mk.inj (h.marked.unique ((own_some hi).mpr ⟨hs, rfl⟩)
    ((own_some hi').mpr ⟨hs, he.symm⟩))

lemma bmapblock_lt (L : Layout) : L.bmapblock < L.datastart := Nat.lt_succ_self _

lemma not_own_of_lt (h : L.Owns blk ino spare) (hb : b < L.datastart) (p : ℕ × Slot) :
    ¬ Own blk ino b p := fun hp => Nat.not_lt.mpr (h.range hp).1 hb

lemma size_lt (L : Layout) (hb : b < L.sb.size) : b < BPB :=
  (hb.trans_le L.size_le).trans (by norm_num)

lemma lt_uint (L : Layout) (hb : b < L.sb.size) : b < UINT :=
  (hb.trans_le L.size_le).trans (by norm_num)

lemma put (h : L.Owns blk ino spare) (hb : b ≠ L.bmapblock) (ho : ∀ i, ¬ Own blk ino b (i, .ind))
    (x : Block) : L.Owns (Function.update blk b x) ino spare where
  lt := h.lt
  type := h.type
  fits := h.fits
  marked := h.marked.congr (fun _ _ => by rw [Function.update_of_ne hb.symm])
    fun _ _ => own_put ho x

lemma take (h : L.Owns blk ino spare) (hb : b < L.sb.size)
    (hm : bit (blk L.bmapblock) b = false) :
    L.Owns (Function.update blk L.bmapblock (setBit b (blk L.bmapblock))) ino (insert b spare) where
  lt := h.lt
  type := h.type
  fits := h.fits
  marked := by
    refine (h.marked.take hb hm fun c hc => ?_).congr (fun _ _ => rfl) fun _ _ =>
      own_put (fun i => h.not_own_of_lt (bmapblock_lt L) _) _
    rw [Function.update_self, bit_setBit _ (size_lt L hc)]

lemma give (h : L.Owns blk ino spare) (hb : b ∈ spare) :
    L.Owns (Function.update blk L.bmapblock (clearBit b (blk L.bmapblock))) ino
      (spare.erase b) where
  lt := h.lt
  type := h.type
  fits := h.fits
  marked := by
    refine (h.marked.give hb fun c hc => ?_).congr (fun _ _ => rfl) fun _ _ =>
      own_put (fun i => h.not_own_of_lt (bmapblock_lt L) _) _
    rw [Function.update_self, bit_clearBit _ (size_lt L hc)]

lemma bit_spare (h : L.Owns blk ino spare) (hb : b ∈ spare) :
    bit (blk L.bmapblock) b = true :=
  (h.marked.mark_iff (h.marked.spare_range hb).2).mpr (Or.inr (Or.inl hb))

lemma spare_ne_zero (h : L.Owns blk ino spare) (hb : b ∈ spare) : b ≠ 0 := by
  have h₁ := (h.marked.spare_range hb).1
  have h₂ := bmapblock_lt L
  omega

lemma of_update (h : L.Owns blk ino spare) {blk' : ℕ → Block} {spare' : Finset ℕ}
    (hi : i < L.sb.ninodes) (ht : d'.type ≠ 0) (hf : d'.Fits)
    (hm : Marked L.datastart L.sb.size (bit (blk' L.bmapblock))
      (Own blk' (Function.update ino i (some d'))) spare') :
    L.Owns blk' (Function.update ino i (some d')) spare' := by
  have hcases : ∀ {j d₁}, Function.update ino i (some d') j = some d₁ →
      (j = i ∧ d₁ = d') ∨ ino j = some d₁ := fun {j d₁} hj => by
    by_cases he : j = i
    · subst he
      rw [Function.update_self] at hj
      exact Or.inl ⟨rfl, (Option.some.inj hj).symm⟩
    · rw [Function.update_of_ne he] at hj
      exact Or.inr hj
  refine ⟨fun hj => ?_, fun hj => ?_, fun hj => ?_, hm⟩
  all_goals rcases hcases hj with ⟨rfl, rfl⟩ | hj
  · exact hi
  · exact h.lt hj
  · exact ht
  · exact h.type hj
  · exact hf
  · exact h.fits hj

lemma update (h : L.Owns blk ino spare) (hi : ino i = some d) (ht : d'.type ≠ 0) (hf : d'.Fits)
    (ha : d'.addrs = d.addrs) : L.Owns blk (Function.update ino i (some d')) spare :=
  h.of_update (h.lt hi) ht hf <| h.marked.congr (fun _ _ => rfl) fun _ _ =>
    own_update_addr hi (Dinode.addr_congr ha fun _ => rfl)

lemma fits_setAddr (h : L.Owns blk ino spare) (hi : ino i = some d) (k : Fin (NDIRECT + 1))
    (hb : b < UINT) : (d.setAddr k b).Fits := by
  have hf := h.fits hi
  refine ⟨hf.type, hf.major, hf.minor, hf.nlink, hf.size, fun j => ?_⟩
  by_cases hj : j = k
  · subst hj
    simpa [Dinode.setAddr] using hb
  · simpa [Dinode.setAddr, Function.update_of_ne hj] using hf.addrs j

lemma setAddr (h : L.Owns blk ino spare) {k : Fin NDIRECT} (hi : ino i = some d) (hb : b ∈ spare)
    (h₀ : d.addrs k.castSucc = 0) :
    L.Owns blk (Function.update ino i (some (d.setAddr k.castSucc b))) (spare.erase b) :=
  h.of_update (h.lt hi) (show d.type ≠ 0 from h.type hi)
    (h.fits_setAddr hi _ (lt_uint L (h.marked.spare_range hb).2)) <|
    h.marked.assign hb fun _ _ => own_setAddr hi (h.spare_ne_zero hb) h₀

lemma setIndirect (h : L.Owns blk ino spare) (hi : ino i = some d) (hb : b ∈ spare)
    (h₀ : d.indirect = 0) (hz : ∀ j, entry (blk b) j = 0) :
    L.Owns blk (Function.update ino i (some (d.setAddr (Fin.last NDIRECT) b))) (spare.erase b) :=
  h.of_update (h.lt hi) (show d.type ≠ 0 from h.type hi)
    (h.fits_setAddr hi _ (lt_uint L (h.marked.spare_range hb).2)) <|
    h.marked.assign hb fun _ _ => own_setIndirect hi (h.spare_ne_zero hb) h₀ hz

lemma indirect_ne_bmapblock (h : L.Owns blk ino spare) (hi : ino i = some d)
    (hd : d.indirect ≠ 0) : d.indirect ≠ L.bmapblock := fun he =>
  h.not_own_of_lt (bmapblock_lt L) (i, .ind) (he ▸ (own_some hi).mpr ⟨hd, rfl⟩)

lemma setEntry (h : L.Owns blk ino spare) {j : ℕ} (hi : ino i = some d) (hd : d.indirect ≠ 0)
    (hj : j < NINDIRECT) (hb : b ∈ spare) (h₀ : entry (blk d.indirect) j = 0) :
    L.Owns (Function.update blk d.indirect (putEntry j b (blk d.indirect))) ino
      (spare.erase b) where
  lt := h.lt
  type := h.type
  fits := h.fits
  marked := by
    have hown : Own blk ino d.indirect (i, .ind) := (own_some hi).mpr ⟨hd, rfl⟩
    rw [Function.update_of_ne (h.indirect_ne_bmapblock hi hd).symm]
    exact h.marked.assign hb fun _ _ => own_putEntry hi hd hj (h.spare_ne_zero hb)
      (lt_uint L (h.marked.spare_range hb).2) h₀ fun i' ho =>
        congrArg Prod.fst (h.marked.unique ho hown)

lemma drop (h : L.Owns blk ino spare) (hi : ino i = some d) (ht : d'.type ≠ 0) (hf : d'.Fits)
    (hd' : ∀ t, d'.addr blk t = d.addr blk t ∨ d'.addr blk t = 0) {T : Finset ℕ} (h₀ : 0 ∉ T)
    (hT : ∀ b ≠ 0, b ∈ T ↔ ∃ t, d.addr blk t = b ∧ d'.addr blk t = 0) :
    L.Owns blk (Function.update ino i (some d')) (spare ∪ T) := by
  refine h.of_update (h.lt hi) ht hf (h.marked.drop (fun c hc => ?_) fun _ _ =>
    own_drop hi hd' h.marked.unique hT)
  have hc₀ : c ≠ 0 := fun he => h₀ (he ▸ hc)
  obtain ⟨t, ht, -⟩ := (hT c hc₀).mp hc
  exact ⟨(i, t), (own_some hi).mpr ⟨hc₀, ht⟩⟩

lemma alloc (h : L.Owns blk ino spare) (hi : ino i = none) (hlt : i < L.sb.ninodes)
    (ht : d'.type ≠ 0) (hf : d'.Fits) (ha : ∀ s, d'.addr blk s = 0) :
    L.Owns blk (Function.update ino i (some d')) spare :=
  h.of_update hlt ht hf <| h.marked.congr (fun _ _ => rfl) fun _ _ =>
    own_update_none (fun d hd => by rw [hi] at hd; cases hd) _ fun d hd => by
      cases hd
      exact ha

lemma free (h : L.Owns blk ino spare) (hi : ino i = some d) (ha : ∀ s, d.addr blk s = 0) :
    L.Owns blk (Function.update ino i none) spare := by
  have hcases : ∀ {j d₁}, Function.update ino i none j = some d₁ → ino j = some d₁ :=
    fun {j d₁} hj => by
      by_cases he : j = i
      · subst he
        rw [Function.update_self] at hj
        cases hj
      · rwa [Function.update_of_ne he] at hj
  refine ⟨fun hj => h.lt (hcases hj), fun hj => h.type (hcases hj), fun hj => h.fits (hcases hj),
    h.marked.congr (fun _ _ => rfl) fun _ _ => own_update_none (fun d₁ hd₁ => ?_) _ ?_⟩
  · cases hi.symm.trans hd₁
    exact ha
  · rintro _ ⟨⟩

end Layout.Owns

end Xv6
