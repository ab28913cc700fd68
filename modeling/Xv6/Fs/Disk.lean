import Xv6.Kernel.Op
import Mathlib.Data.Nat.Bitwise

/-!
# The on-disk format

What `fs.h` lays out inside a block: the bits of the free map, the dinodes of an inode block, the
entries of an indirect block, and directory entries.  A field is read by an accessor and stored by
a `put`, each a range of bytes of the block; the lemmas say that a store is read back and leaves
the other fields of the block alone.

* `bit`, `setBit` and `clearBit` follow the masks and byte indices of `balloc` and `bfree`.
* `dinodeAt` reads a dinode, and `putDinode` stores its fields one after another, as `iupdate` does.
* `entry` and `putEntry` are the words of an indirect block.
* `Dirent.ofBytes` and `Dirent.bytes` are what `readi` and `writei` are given for an entry.

A `Dinode` has numbers for fields, and `Dinode.Fits` says that they fit the widths of the format,
which is what it takes to read back what was stored (`dinodeAt_putDinode_same`).
-/

namespace Xv6

open Lib

/-! ## The free map -/

/-- Whether `d[i / 8] & (1 << i % 8)` is set. -/
def bit (d : Block) (i : ℕ) : Bool := (d.get (i / 8)).toNat.testBit (i % 8)

/-- `d[i / 8] |= 1 << i % 8`. -/
def setBit (i : ℕ) (d : Block) : Block :=
  d.blit (i / 8) 1 fun _ => UInt8.ofNat ((d.get (i / 8)).toNat ||| 2 ^ (i % 8))

/-- `d[i / 8] &= ~(1 << i % 8)`. -/
def clearBit (i : ℕ) (d : Block) : Block :=
  d.blit (i / 8) 1 fun _ => UInt8.ofNat ((d.get (i / 8)).toNat &&& ((2 ^ 8 - 1) ^^^ 2 ^ (i % 8)))

private lemma testBit_ofNat (v : ℕ) {j : ℕ} (hj : j < 8) :
    (UInt8.ofNat v).toNat.testBit j = v.testBit j := by
  rw [UInt8.toNat_ofNat', show (2 : ℕ) ^ 8 = 2 ^ 8 from rfl, Nat.testBit_mod_two_pow]
  simp [hj]

private lemma bit_blit (d : Block) {i j : ℕ} (hj : j < BPB) (v : ℕ) :
    bit (d.blit (i / 8) 1 fun _ => UInt8.ofNat v) j =
      if j / 8 = i / 8 then v.testBit (j % 8) else bit d j := by
  have hj8 : j / 8 < BSIZE := by
    simp only [BPB, BSIZE] at hj ⊢
    omega
  unfold bit
  rw [Bytes.get_blit]
  by_cases h : j / 8 = i / 8
  · rw [if_pos ⟨h.ge, by omega, hj8⟩, if_pos h, testBit_ofNat v (Nat.mod_lt _ (by norm_num))]
  · rw [if_neg (by omega), if_neg h]

private lemma div_mod_eq {i j : ℕ} (h : j / 8 = i / 8) : i % 8 = j % 8 ↔ j = i := by
  omega

lemma bit_setBit (d : Block) {i j : ℕ} (hj : j < BPB) :
    bit (setBit i d) j = (bit d j || decide (j = i)) := by
  rw [setBit, bit_blit d hj]
  split_ifs with h
  · rw [Nat.testBit_or, Nat.testBit_two_pow, ← h, bit]
    simp only [div_mod_eq h]
  · have hne : j ≠ i := fun he => h (he ▸ rfl)
    simp [hne]

lemma bit_clearBit (d : Block) {i j : ℕ} (hj : j < BPB) :
    bit (clearBit i d) j = (bit d j && !decide (j = i)) := by
  rw [clearBit, bit_blit d hj]
  split_ifs with h
  · have hmod : j % 8 < 8 := Nat.mod_lt _ (by norm_num)
    rw [Nat.testBit_and, Nat.testBit_xor, Nat.testBit_two_pow_sub_one, Nat.testBit_two_pow, ← h,
      bit]
    simp only [div_mod_eq h, hmod, decide_true, Bool.true_xor]
  · have hne : j ≠ i := fun he => h (he ▸ rfl)
    simp [hne]

/-! ## Inode blocks -/

/-- `dip = (struct dinode*)bp->data + slot`, read as a whole. -/
def dinodeAt (d : Block) (slot : ℕ) : Dinode where
  type := d.short (DINODESIZE * slot)
  major := d.short (DINODESIZE * slot + 2)
  minor := d.short (DINODESIZE * slot + 4)
  nlink := d.short (DINODESIZE * slot + 6)
  size := d.le (DINODESIZE * slot + 8) 4
  addrs k := d.le (DINODESIZE * slot + 12 + 4 * k) 4

/-- `memset(dip, 0, sizeof(*dip))`. -/
def zeroDinode (slot : ℕ) (d : Block) : Block := d.blit (DINODESIZE * slot) DINODESIZE fun _ => 0

/-- `dip->type = t`. -/
def putType (slot : ℕ) (t : ℤ) (d : Block) : Block := d.putShort (DINODESIZE * slot) t

/-- `dip->major = t`. -/
def putMajor (slot : ℕ) (t : ℤ) (d : Block) : Block := d.putShort (DINODESIZE * slot + 2) t

/-- `dip->minor = t`. -/
def putMinor (slot : ℕ) (t : ℤ) (d : Block) : Block := d.putShort (DINODESIZE * slot + 4) t

/-- `dip->nlink = t`. -/
def putNlink (slot : ℕ) (t : ℤ) (d : Block) : Block := d.putShort (DINODESIZE * slot + 6) t

/-- `dip->size = n`. -/
def putSize (slot n : ℕ) (d : Block) : Block := d.putLE (DINODESIZE * slot + 8) 4 n

/-- `memmove(dip->addrs, addrs, sizeof(addrs))`. -/
def putAddrs (slot : ℕ) (addrs : Fin (NDIRECT + 1) → ℕ) (d : Block) : Block :=
  d.blit (DINODESIZE * slot + 12) (4 * (NDIRECT + 1)) fun i =>
    Bytes.leByte (addrs (Fin.ofNat _ (i / 4))) (i % 4)

/-- The stores of `iupdate`. -/
def putDinode (slot : ℕ) (n : Dinode) (d : Block) : Block :=
  putAddrs slot n.addrs (putSize slot n.size (putNlink slot n.nlink (putMinor slot n.minor
    (putMajor slot n.major (putType slot n.type d)))))

/-- The fields of a dinode fit their widths. -/
structure Dinode.Fits (n : Dinode) : Prop where
  type : Bytes.IsShort n.type
  major : Bytes.IsShort n.major
  minor : Bytes.IsShort n.minor
  nlink : Bytes.IsShort n.nlink
  size : n.size < UINT
  addrs : ∀ k, n.addrs k < UINT

lemma dinodeAt_fits (d : Block) (slot : ℕ) : (dinodeAt d slot).Fits where
  type := Bytes.isShort_short _ _
  major := Bytes.isShort_short _ _
  minor := Bytes.isShort_short _ _
  nlink := Bytes.isShort_short _ _
  size := Bytes.le_lt _ _ 4
  addrs _ := Bytes.le_lt _ _ 4

lemma Dinode.zero_fits : Dinode.zero.Fits := by
  constructor <;> simp [Dinode.zero, Bytes.IsShort]

@[ext] lemma Dinode.ext' {m n : Dinode} (ht : m.type = n.type) (hj : m.major = n.major)
    (hn : m.minor = n.minor) (hl : m.nlink = n.nlink) (hs : m.size = n.size)
    (ha : ∀ k, m.addrs k = n.addrs k) : m = n := by
  cases m
  cases n
  simp_all [funext_iff]

lemma dinodeAt_congr {d d' : Block} {slot : ℕ}
    (h : ∀ i, DINODESIZE * slot ≤ i → i < DINODESIZE * slot + DINODESIZE → d'.get i = d.get i) :
    dinodeAt d' slot = dinodeAt d slot := by
  have hle : ∀ o k, DINODESIZE * slot ≤ o → o + k ≤ DINODESIZE * slot + DINODESIZE →
      d'.le o k = d.le o k := fun o k h₁ h₂ =>
    Bytes.le_congr fun i hi hi' => h i (by omega) (by omega)
  have hshort : ∀ o, DINODESIZE * slot ≤ o → o + 2 ≤ DINODESIZE * slot + DINODESIZE →
      d'.short o = d.short o := fun o h₁ h₂ => by
    rw [Bytes.short, Bytes.short, hle o 2 h₁ h₂]
  refine Dinode.ext' (hshort _ ?_ ?_) (hshort _ ?_ ?_) (hshort _ ?_ ?_) (hshort _ ?_ ?_)
    (hle _ _ ?_ ?_) fun k => hle _ _ ?_ ?_
  all_goals simp only [DINODESIZE, NDIRECT]; omega

lemma dinodeAt_blit_of_ne {d : Block} {slot slot' o m : ℕ} {src : ℕ → UInt8} (h : slot' ≠ slot)
    (h₁ : DINODESIZE * slot ≤ o) (h₂ : o + m ≤ DINODESIZE * slot + DINODESIZE) :
    dinodeAt (d.blit o m src) slot' = dinodeAt d slot' := by
  refine dinodeAt_congr fun i hi hi' => Bytes.get_blit_of_not_mem ?_
  simp only [DINODESIZE] at *
  omega

lemma dinodeAt_putDinode_of_ne (d : Block) (n : Dinode) {slot slot' : ℕ} (h : slot' ≠ slot) :
    dinodeAt (putDinode slot n d) slot' = dinodeAt d slot' := by
  simp only [putDinode, putAddrs, putSize, putNlink, putMinor, putMajor, putType, Bytes.putShort,
    Bytes.putLE]
  rw [dinodeAt_blit_of_ne h, dinodeAt_blit_of_ne h, dinodeAt_blit_of_ne h, dinodeAt_blit_of_ne h,
    dinodeAt_blit_of_ne h, dinodeAt_blit_of_ne h]
  all_goals simp only [DINODESIZE, NDIRECT]; omega

lemma le_putAddrs {slot : ℕ} (hslot : slot < IPB) (addrs : Fin (NDIRECT + 1) → ℕ) (d : Block)
    (k : Fin (NDIRECT + 1)) (hk : addrs k < UINT) :
    (putAddrs slot addrs d).le (DINODESIZE * slot + 12 + 4 * k) 4 = addrs k := by
  have hk' := k.isLt
  simp only [IPB, BSIZE, DINODESIZE, NDIRECT] at hslot hk'
  rw [putAddrs, Bytes.le_blit_of_subset (by omega)
    (by simp only [DINODESIZE, NDIRECT]; omega) (by simp only [DINODESIZE, NDIRECT, BSIZE]; omega)]
  have hbyte : ∀ i < 4, Bytes.leByte
      (addrs (Fin.ofNat _ ((DINODESIZE * slot + 12 + 4 * k - (DINODESIZE * slot + 12) + i) / 4)))
      ((DINODESIZE * slot + 12 + 4 * k - (DINODESIZE * slot + 12) + i) % 4) =
      Bytes.leByte (addrs k) i := by
    intro i hi
    have hdiv : (DINODESIZE * slot + 12 + 4 * k - (DINODESIZE * slot + 12) + i) / 4 = k := by
      omega
    have hmod : (DINODESIZE * slot + 12 + 4 * k - (DINODESIZE * slot + 12) + i) % 4 = i := by
      omega
    have hfin : Fin.ofNat (NDIRECT + 1) (k : ℕ) = k := by
      ext
      simp
    rw [hdiv, hmod, hfin]
  rw [Bytes.leNat_congr hbyte, Bytes.leNat_leByte]
  exact Nat.mod_eq_of_lt hk

lemma dinodeAt_putDinode_same (d : Block) {n : Dinode} (hn : n.Fits) {slot : ℕ}
    (hslot : slot < IPB) : dinodeAt (putDinode slot n d) slot = n := by
  simp only [IPB, BSIZE, DINODESIZE] at hslot
  refine Dinode.ext' ?_ ?_ ?_ ?_ ?_ fun k => le_putAddrs hslot _ _ k (hn.addrs k)
  all_goals
    simp only [dinodeAt, putDinode, putAddrs, putSize, Bytes.short]
    rw [Bytes.le_blit_of_disjoint (by simp only [DINODESIZE]; omega)]
  rotate_left 4
  · rw [Bytes.le_putLE_same (by simp only [DINODESIZE, BSIZE]; omega)]
    exact Nat.mod_eq_of_lt hn.size
  all_goals
    rw [Bytes.le_putLE_of_disjoint (by simp only [DINODESIZE]; omega), ← Bytes.short]
    simp only [putNlink, putMinor, putMajor, putType]
  · rw [Bytes.short_putShort_of_disjoint (by omega), Bytes.short_putShort_of_disjoint (by omega),
      Bytes.short_putShort_of_disjoint (by omega),
      Bytes.short_putShort_same (by simp only [DINODESIZE, BSIZE]; omega) hn.type]
  · rw [Bytes.short_putShort_of_disjoint (by omega), Bytes.short_putShort_of_disjoint (by omega),
      Bytes.short_putShort_same (by simp only [DINODESIZE, BSIZE]; omega) hn.major]
  · rw [Bytes.short_putShort_of_disjoint (by omega),
      Bytes.short_putShort_same (by simp only [DINODESIZE, BSIZE]; omega) hn.minor]
  · rw [Bytes.short_putShort_same (by simp only [DINODESIZE, BSIZE]; omega) hn.nlink]

lemma dinodeAt_alloc_same (d : Block) {slot : ℕ} (hslot : slot < IPB) {t : ℤ}
    (ht : Bytes.IsShort t) :
    dinodeAt (putType slot t (zeroDinode slot d)) slot = { Dinode.zero with type := t } := by
  have hslot' := hslot
  simp only [IPB, BSIZE, DINODESIZE] at hslot
  have hzero : ∀ o k, DINODESIZE * slot ≤ o → o + k ≤ DINODESIZE * slot + DINODESIZE →
      (zeroDinode slot d).le o k = 0 := by
    intro o k h₁ h₂
    rw [zeroDinode, Bytes.le_blit_of_subset h₁ h₂ (by simp only [DINODESIZE, BSIZE]; omega)]
    exact Bytes.leNat_zero k
  have hshort : ∀ o, DINODESIZE * slot + 2 ≤ o → o + 2 ≤ DINODESIZE * slot + DINODESIZE →
      (putType slot t (zeroDinode slot d)).short o = 0 := by
    intro o h₁ h₂
    rw [putType, Bytes.short_putShort_of_disjoint (by omega), Bytes.short,
      hzero o 2 (by omega) (by omega)]
    rfl
  have hle : ∀ o, DINODESIZE * slot + 2 ≤ o → o + 4 ≤ DINODESIZE * slot + DINODESIZE →
      (putType slot t (zeroDinode slot d)).le o 4 = 0 := by
    intro o h₁ h₂
    rw [putType, Bytes.putShort, Bytes.le_putLE_of_disjoint (by omega),
      hzero o 4 (by omega) (by omega)]
  refine Dinode.ext' ?_ (hshort _ ?_ ?_) (hshort _ ?_ ?_) (hshort _ ?_ ?_) (hle _ ?_ ?_)
    fun k => hle _ ?_ ?_
  · exact Bytes.short_putShort_same (by simp only [DINODESIZE, BSIZE]; omega) ht
  all_goals simp only [DINODESIZE, NDIRECT]; omega

lemma dinodeAt_alloc_of_ne (d : Block) {slot slot' : ℕ} (t : ℤ) (h : slot' ≠ slot) :
    dinodeAt (putType slot t (zeroDinode slot d)) slot' = dinodeAt d slot' := by
  rw [putType, Bytes.putShort, Bytes.putLE, dinodeAt_blit_of_ne h, zeroDinode,
    dinodeAt_blit_of_ne h]
  all_goals simp only [DINODESIZE]; omega

/-! ## Indirect blocks -/

/-- `((uint*)bp->data)[j]`. -/
def entry (d : Block) (j : ℕ) : ℕ := d.le (4 * j) 4

/-- `((uint*)bp->data)[j] = v`. -/
def putEntry (j v : ℕ) (d : Block) : Block := d.putLE (4 * j) 4 v

lemma entry_putEntry_same (d : Block) {j v : ℕ} (hj : j < NINDIRECT) (hv : v < UINT) :
    entry (putEntry j v d) j = v := by
  simp only [NINDIRECT, BSIZE] at hj
  rw [entry, putEntry, Bytes.le_putLE_same (by simp only [BSIZE]; omega)]
  exact Nat.mod_eq_of_lt hv

lemma entry_putEntry_of_ne (d : Block) {i j v : ℕ} (h : i ≠ j) :
    entry (putEntry j v d) i = entry d i :=
  Bytes.le_putLE_of_disjoint (by omega)

@[simp] lemma entry_zero (j : ℕ) : entry Bytes.zero j = 0 := Bytes.le_zero _ _

/-! ## Directory entries -/

/-- A directory entry name: `DIRSIZ` bytes, cut at the first NUL by those who read it. -/
abbrev Name := Bytes DIRSIZ

/-- `struct dirent`. -/
@[ext] structure Dirent where
  inum : ℕ
  name : Name
  deriving DecidableEq

/-- The entry in the `sizeof(struct dirent)` bytes of a list. -/
def Dirent.ofBytes (l : List UInt8) : Dirent where
  inum := Bytes.leNat 2 fun i => l.getD i 0
  name i := l.getD (2 + i) 0

/-- The bytes of an entry; `inum` is a `ushort`. -/
def Dirent.bytes (e : Dirent) : List UInt8 :=
  [Bytes.leByte e.inum 0, Bytes.leByte e.inum 1] ++ List.ofFn fun i : Fin DIRSIZ => e.name i

@[simp] lemma Dirent.length_bytes (e : Dirent) : e.bytes.length = DIRENTSIZE := by
  simp [bytes]

lemma Dirent.ofBytes_bytes (e : Dirent) (h : e.inum < 65536) : Dirent.ofBytes e.bytes = e := by
  refine Dirent.ext ?_ (funext fun i => ?_)
  · have hcongr : Bytes.leNat 2 (fun i => e.bytes.getD i 0) =
        Bytes.leNat 2 (Bytes.leByte e.inum) := by
      refine Bytes.leNat_congr fun i hi => ?_
      match i, hi with
      | 0, _ => rfl
      | 1, _ => rfl
    exact hcongr.trans ((Bytes.leNat_leByte 2 e.inum).trans (Nat.mod_eq_of_lt h))
  · show e.bytes.getD (2 + i) 0 = e.name i
    have hi := i.isLt
    rw [bytes, List.getD_eq_getElem?_getD, List.getElem?_append_right (by simp)]
    show (List.ofFn fun i : Fin DIRSIZ => e.name i)[2 + (i : ℕ) - 2]?.getD 0 = e.name i
    rw [Nat.add_sub_cancel_left, List.getElem?_ofFn, dif_pos hi]
    rfl

end Xv6
