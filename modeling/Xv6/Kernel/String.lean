import Mathlib.Algebra.Group.Nat.Defs
import Mathlib.Data.Int.Basic
import Mathlib.Logic.Function.Basic
import Mathlib.Tactic.Common

/-!
# Moving and filling memory

`memmove` and `memset` of `string.c` on memory with one byte at every 32-bit address.  Pointers
are words, so that `s + n`, `*d++` and `*--d` wrap as the code's do, and each loop runs its
statement `n` times.

An address is an offset from the destination, and `Changed` says what memory is after a loop has
been over some of the offsets: there it is what the loop has to store, elsewhere what it was.  The
two loops of `memmove` cover the offsets from either end, and in both the byte that is read next
is one that has not been stored to.

* `memmove_moves`: the destination holds what the source held before, also if they overlap, and
  nothing else has changed.
* `memset_fills`: the words of `stosl` and the bytes of `stosb` come to the same, because the filler
  is a word of four equal bytes.

The test `s < d && s + n > d` of `memmove` compares addresses that may have wrapped.  The theorem
says for which arguments this does not matter.
-/

namespace Xv6

/-- Memory, one byte at every address. -/
abbrev Memory := UInt32 → UInt8

/-! ## The code -/

/-- `while(n-- > 0) *d++ = *s++`. -/
def moveUp : ℕ → UInt32 → UInt32 → Memory → Memory
  | 0, _, _, mem => mem
  | n + 1, d, s, mem => moveUp n (d + 1) (s + 1) (Function.update mem d (mem s))

/-- `while(n-- > 0) *--d = *--s`. -/
def moveDown : ℕ → UInt32 → UInt32 → Memory → Memory
  | 0, _, _, mem => mem
  | n + 1, d, s, mem => moveDown n (d - 1) (s - 1) (Function.update mem (d - 1) (mem (s - 1)))

/-- `memmove(dst, src, n)`: what it returns, and memory after it. -/
def memmove (dst src n : UInt32) (mem : Memory) : UInt32 × Memory :=
  if src < dst ∧ src + n > dst then (dst, moveDown n.toNat (dst + n) (src + n) mem)
  else (dst, moveUp n.toNat dst src mem)

/-- `rep stosb`, with the address in `edi`, the data in `eax` and the count in `ecx`. -/
def stosb : ℕ → UInt32 → UInt32 → Memory → Memory
  | 0, _, _, mem => mem
  | cnt + 1, addr, data, mem => stosb cnt (addr + 1) data (Function.update mem addr data.toUInt8)

/-- A word is stored, the low byte first. -/
def storeWord (addr data : UInt32) (mem : Memory) : Memory :=
  let mem := Function.update mem addr data.toUInt8
  let mem := Function.update mem (addr + 1) (data >>> 8).toUInt8
  let mem := Function.update mem (addr + 2) (data >>> 16).toUInt8
  Function.update mem (addr + 3) (data >>> 24).toUInt8

/-- `rep stosl`. -/
def stosl : ℕ → UInt32 → UInt32 → Memory → Memory
  | 0, _, _, mem => mem
  | cnt + 1, addr, data, mem => stosl cnt (addr + 4) data (storeWord addr data mem)

/-- `(c<<24)|(c<<16)|(c<<8)|c`, an `int`. -/
def fillWord (c : Int32) : Int32 := c <<< 24 ||| c <<< 16 ||| c <<< 8 ||| c

/-- `memset(dst, c, n)`: what it returns, and memory after it.  The remainder of the address is
one of `int`s, which is negative for a negative address. -/
def memset (dst : UInt32) (c : Int32) (n : UInt32) (mem : Memory) : UInt32 × Memory :=
  if dst.toInt32 % 4 = 0 ∧ n % 4 = 0 then
    let c := c &&& 0xFF
    (dst, stosl (n / 4).toNat dst (fillWord c).toUInt32 mem)
  else (dst, stosb n.toNat dst c.toUInt32 mem)

/-! ## Memory after a loop -/

/-- Of the bytes from `dst` on, those at the offsets from `lo` to `hi` have been stored to. -/
def Changed (dst : UInt32) (val : UInt32 → UInt8) (lo hi : ℕ) (mem₀ mem : Memory) : Prop :=
  ∀ o : UInt32, mem (dst + o) = if lo ≤ o.toNat ∧ o.toNat < hi then val o else mem₀ (dst + o)

variable {dst src n : UInt32} {val : UInt32 → UInt8} {lo hi : ℕ} {mem₀ mem : Memory}

lemma Changed.refl (dst : UInt32) (val : UInt32 → UInt8) (lo : ℕ) (mem : Memory) :
    Changed dst val lo lo mem mem := by
  intro o
  rw [if_neg (by omega)]

lemma Changed.store {o : UInt32} (h : Changed dst val lo hi mem₀ mem) (lo' hi' : ℕ)
    (hmore : ∀ i : ℕ, lo' ≤ i ∧ i < hi' ↔ i = o.toNat ∨ lo ≤ i ∧ i < hi) :
    Changed dst val lo' hi' mem₀ (Function.update mem (dst + o) (val o)) := by
  intro i
  by_cases hi : i = o
  · subst hi
    rw [Function.update_self, if_pos ((hmore _).mpr (.inl rfl))]
  · have hne : i.toNat ≠ o.toNat := fun he => hi (UInt32.toNat_inj.mp he)
    have haddr : dst + i ≠ dst + o := fun he => hi (UInt32.add_right_inj dst |>.mp he)
    rw [Function.update_of_ne haddr, h i]
    refine if_congr ?_ rfl rfl
    rw [hmore]
    exact ⟨.inr, fun hc => hc.resolve_left hne⟩

lemma Changed.bytes (h : Changed dst val 0 n.toNat mem₀ mem) (hn : dst.toNat + n.toNat ≤ 2 ^ 32) :
    (∀ o < n, mem (dst + o) = val o) ∧
      ∀ a : UInt32, ¬ (dst.toNat ≤ a.toNat ∧ a.toNat < dst.toNat + n.toNat) → mem a = mem₀ a := by
  refine ⟨fun o ho => ?_, fun a ha => ?_⟩
  · rw [h o, if_pos ⟨Nat.zero_le _, ho⟩]
  · have hoff : dst + (a - dst) = a := by rw [UInt32.add_comm, UInt32.sub_add_cancel]
    have hlt := a.toNat_lt
    have hout : ¬ (a - dst).toNat < n.toNat := by
      rw [UInt32.toNat_sub]
      omega
    rw [← hoff, h, if_neg fun hc => hout hc.2]

/-! ## `memmove` -/

lemma Changed.read {o : UInt32} (h : Changed dst (fun o => mem₀ (src + o)) lo hi mem₀ mem)
    (hfar : ∀ i : UInt32, lo ≤ i.toNat → i.toNat < hi → dst + i ≠ src + o) :
    mem (src + o) = mem₀ (src + o) := by
  have hoff : dst + (src + o - dst) = src + o := by rw [UInt32.add_comm, UInt32.sub_add_cancel]
  rw [← hoff, h, if_neg]
  rintro ⟨hlo, hhi⟩
  exact hfar _ hlo hhi hoff

lemma toNat_add_of_le {p o : UInt32} {m : ℕ} (hp : p.toNat + m ≤ 2 ^ 32) (ho : o.toNat < m) :
    (p + o).toNat = p.toNat + o.toNat := by
  rw [UInt32.toNat_add]
  omega

lemma add_sub_one (p o : UInt32) : p + o - 1 = p + (o - 1) := by
  rw [UInt32.sub_eq_add_neg, UInt32.sub_eq_add_neg, UInt32.add_assoc]

/-- Copying upwards, when the source does not lie below the bytes that have been stored to. -/
lemma moveUp_changed (hs : src.toNat + n.toNat ≤ 2 ^ 32) (hd : dst.toNat + n.toNat ≤ 2 ^ 32)
    (hdir : dst ≤ src ∨ src.toNat + n.toNat ≤ dst.toNat) (k : ℕ) {o : UInt32}
    (ho : o.toNat + k = n.toNat)
    (h : Changed dst (fun o => mem₀ (src + o)) 0 o.toNat mem₀ mem) :
    Changed dst (fun o => mem₀ (src + o)) 0 n.toNat mem₀
      (moveUp k (dst + o) (src + o) mem) := by
  induction k generalizing o mem with
  | zero => rwa [moveUp, ← ho, Nat.add_zero]
  | succ k ih =>
    have hnext : (o + 1).toNat = o.toNat + 1 := by
      have := n.toNat_lt
      rw [UInt32.toNat_add]
      show (o.toNat + 1) % _ = _
      omega
    have hread : mem (src + o) = mem₀ (src + o) := by
      refine h.read fun i _ hi heq => ?_
      have hnat := congrArg UInt32.toNat heq
      rw [toNat_add_of_le hs (by omega), toNat_add_of_le hd (by omega)] at hnat
      rcases hdir with hle | hle
      · have := UInt32.le_iff_toNat_le.mp hle
        omega
      · omega
    have hstored := h.store (o := o) 0 (o + 1).toNat fun i => by omega
    have hstep := ih (by omega) hstored
    rw [moveUp, hread, UInt32.add_assoc, UInt32.add_assoc]
    exact hstep

/-- Copying downwards, when the source does not lie above the bytes that have been stored to. -/
lemma moveDown_changed (hs : src.toNat + n.toNat ≤ 2 ^ 32) (hd : dst.toNat + n.toNat ≤ 2 ^ 32)
    (hdir : src < dst) (k : ℕ) {o : UInt32} (ho : o.toNat = k) (hk : k ≤ n.toNat)
    (h : Changed dst (fun o => mem₀ (src + o)) k n.toNat mem₀ mem) :
    Changed dst (fun o => mem₀ (src + o)) 0 n.toNat mem₀
      (moveDown k (dst + o) (src + o) mem) := by
  induction k generalizing o mem with
  | zero => rwa [moveDown]
  | succ k ih =>
    have hnext : (o - 1).toNat = k := by
      have hlt := o.toNat_lt
      rw [UInt32.toNat_sub]
      show (2 ^ 32 - 1 + o.toNat) % _ = _
      omega
    have hread : mem (src + (o - 1)) = mem₀ (src + (o - 1)) := by
      refine h.read fun i hlo hi heq => ?_
      have hnat := congrArg UInt32.toNat heq
      rw [toNat_add_of_le hs (by omega), toNat_add_of_le hd (by omega)] at hnat
      have := UInt32.lt_iff_toNat_lt.mp hdir
      omega
    have hstored := h.store (o := o - 1) k n.toNat fun i => by omega
    have hstep := ih hnext (by omega) hstored
    rw [moveDown, add_sub_one, add_sub_one, hread]
    exact hstep

/-- **`memmove` moves the bytes whichever way the two ranges overlap**, returns the destination
and touches nothing else. -/
theorem memmove_moves (mem : Memory) (dst src n : UInt32) (hs : src.toNat + n.toNat ≤ 2 ^ 32)
    (hd : dst.toNat + n.toNat ≤ 2 ^ 32) :
    (memmove dst src n mem).1 = dst ∧
      (∀ o < n, (memmove dst src n mem).2 (dst + o) = mem (src + o)) ∧
      ∀ a : UInt32, ¬ (dst.toNat ≤ a.toNat ∧ a.toNat < dst.toNat + n.toNat) →
        (memmove dst src n mem).2 a = mem a := by
  unfold memmove
  split_ifs with hover
  · have hdown := moveDown_changed hs hd hover.1 n.toNat rfl Nat.le.refl
      (Changed.refl dst (fun o => mem (src + o)) n.toNat mem)
    exact ⟨rfl, hdown.bytes hd⟩
  · have hdir : dst ≤ src ∨ src.toNat + n.toNat ≤ dst.toNat := by
      by_cases hlt : src < dst
      · -- the end of the source does not wrap, since the destination ends above it
        right
        have hnot : ¬ src + n > dst := fun hgt => hover ⟨hlt, hgt⟩
        have hnat := UInt32.lt_iff_toNat_lt.mp hlt
        rw [gt_iff_lt, UInt32.lt_iff_toNat_lt, UInt32.toNat_add] at hnot
        omega
      · left
        rw [UInt32.le_iff_toNat_le]
        rw [UInt32.lt_iff_toNat_lt] at hlt
        omega
    have hup := moveUp_changed hs hd hdir n.toNat (o := 0) (Nat.zero_add _)
      (Changed.refl dst (fun o => mem (src + o)) 0 mem)
    rw [UInt32.add_zero, UInt32.add_zero] at hup
    exact ⟨rfl, hup.bytes hd⟩

/-- The source starts two bytes below the destination. -/
theorem memmove_moves_overlapping :
    (0x1000 : UInt32).toNat + (8 : UInt32).toNat ≤ 2 ^ 32 ∧
      (0x1002 : UInt32).toNat + (8 : UInt32).toNat ≤ 2 ^ 32 ∧
      ∀ o < (8 : UInt32), (memmove 0x1002 0x1000 8 UInt32.toUInt8).2 (0x1002 + o) =
        (0x1000 + o).toUInt8 :=
  ⟨by decide, by decide,
    (memmove_moves UInt32.toUInt8 0x1002 0x1000 8 (by decide) (by decide)).2.1⟩

/-! ## `memset` -/

lemma toNat_fill (c : Int32) : (c.toUInt32.toUInt8.toNat : ℤ) = c.toInt % 256 := by
  have hlow : c.toUInt32.toUInt8.toNat = c.toBitVec.toNat % 256 := rfl
  rw [hlow, ← Int32.toInt_toBitVec, BitVec.toInt_eq_toNat_cond]
  split <;> omega

lemma fillWord_bytes (c : Int32) :
    (fillWord (c &&& 0xFF)).toUInt32.toUInt8 = c.toUInt32.toUInt8 ∧
      ((fillWord (c &&& 0xFF)).toUInt32 >>> 8).toUInt8 = c.toUInt32.toUInt8 ∧
      ((fillWord (c &&& 0xFF)).toUInt32 >>> 16).toUInt8 = c.toUInt32.toUInt8 ∧
      ((fillWord (c &&& 0xFF)).toUInt32 >>> 24).toUInt8 = c.toUInt32.toUInt8 := by
  have key : ∀ n < 256, (fillWord (UInt32.ofNat n).toInt32).toUInt32.toUInt8.toNat = n ∧
      ((fillWord (UInt32.ofNat n).toInt32).toUInt32 >>> 8).toUInt8.toNat = n ∧
      ((fillWord (UInt32.ofNat n).toInt32).toUInt32 >>> 16).toUInt8.toNat = n ∧
      ((fillWord (UInt32.ofNat n).toInt32).toUInt32 >>> 24).toUInt8.toNat = n := by
    decide +kernel
  have hc : c &&& 0xFF = (UInt32.ofNat c.toUInt32.toUInt8.toNat).toInt32 := by
    have hand : c.toBitVec.toNat &&& 255 = c.toBitVec.toNat % 256 :=
      Nat.and_two_pow_sub_one_eq_mod c.toBitVec.toNat 8
    have hlow : c.toUInt32.toUInt8.toNat = c.toBitVec.toNat % 256 := rfl
    have hlt : c.toBitVec.toNat % 256 % 4294967296 = c.toBitVec.toNat % 256 := by omega
    apply Int32.toBitVec_inj.mp
    apply BitVec.eq_of_toNat_eq
    simpa [hlow, hlt] using hand
  rw [hc]
  simpa only [UInt8.toNat_inj] using key _ c.toUInt32.toUInt8.toNat_lt

lemma stosb_changed (data : UInt32) (k : ℕ) {o : UInt32} (ho : o.toNat + k < 2 ^ 32)
    (h : Changed dst (fun _ => data.toUInt8) 0 o.toNat mem₀ mem) :
    Changed dst (fun _ => data.toUInt8) 0 (o.toNat + k) mem₀ (stosb k (dst + o) data mem) := by
  induction k generalizing o mem with
  | zero => exact h
  | succ k ih =>
    have hnext : (o + 1).toNat = o.toNat + 1 := by
      rw [UInt32.toNat_add]
      show (o.toNat + 1) % _ = _
      omega
    have hstored := h.store (o := o) 0 (o + 1).toNat fun i => by omega
    have hstep := ih (by omega) hstored
    rw [stosb, UInt32.add_assoc, show o.toNat + (k + 1) = (o + 1).toNat + k by omega]
    exact hstep

lemma stosl_changed {data : UInt32} {b : UInt8} (h₀ : data.toUInt8 = b)
    (h₁ : (data >>> 8).toUInt8 = b) (h₂ : (data >>> 16).toUInt8 = b)
    (h₃ : (data >>> 24).toUInt8 = b) (k : ℕ) {o : UInt32} (ho : o.toNat + 4 * k < 2 ^ 32)
    (h : Changed dst (fun _ => b) 0 o.toNat mem₀ mem) :
    Changed dst (fun _ => b) 0 (o.toNat + 4 * k) mem₀ (stosl k (dst + o) data mem) := by
  induction k generalizing o mem with
  | zero => exact h
  | succ k ih =>
    have hnext : ∀ j : UInt32, j.toNat ≤ 4 → (o + j).toNat = o.toNat + j.toNat := by
      intro j hj
      rw [UInt32.toNat_add]
      omega
    have hone := hnext 1 (by decide)
    have htwo := hnext 2 (by decide)
    have hthree := hnext 3 (by decide)
    have hfour := hnext 4 (by decide)
    simp only [UInt32.reduceToNat] at hone htwo hthree hfour
    have hstored := (((h.store (o := o) 0 (o + 1).toNat fun i => by omega).store
      (o := o + 1) 0 (o + 2).toNat fun i => by omega).store
      (o := o + 2) 0 (o + 3).toNat fun i => by omega).store
      (o := o + 3) 0 (o + 4).toNat fun i => by omega
    have hstep := ih (by omega) hstored
    rw [stosl, storeWord, h₀, h₁, h₂, h₃, UInt32.add_assoc, UInt32.add_assoc, UInt32.add_assoc,
      UInt32.add_assoc, show o.toNat + 4 * (k + 1) = (o + 4).toNat + 4 * k by omega]
    exact hstep

/-- **`memset` stores `c` modulo 256 in each of the `n` bytes**, by words or by bytes, returns the
destination and touches nothing else. -/
theorem memset_fills (mem : Memory) (dst : UInt32) (c : Int32) (n : UInt32)
    (hd : dst.toNat + n.toNat ≤ 2 ^ 32) :
    (memset dst c n mem).1 = dst ∧
      (∀ o < n, (((memset dst c n mem).2 (dst + o)).toNat : ℤ) = c.toInt % 256) ∧
      ∀ a : UInt32, ¬ (dst.toNat ≤ a.toNat ∧ a.toNat < dst.toNat + n.toNat) →
        (memset dst c n mem).2 a = mem a := by
  have hfill : Changed dst (fun _ => c.toUInt32.toUInt8) 0 n.toNat mem (memset dst c n mem).2 := by
    have hstart := Changed.refl dst (fun _ => c.toUInt32.toUInt8) 0 mem
    have hn := n.toNat_lt
    unfold memset
    split_ifs with hword
    · obtain ⟨h₀, h₁, h₂, h₃⟩ := fillWord_bytes c
      have hmod : n.toNat % 4 = 0 := by
        have := congrArg UInt32.toNat hword.2
        rwa [UInt32.toNat_mod] at this
      have hquot : (n / 4).toNat = n.toNat / 4 := UInt32.toNat_div n 4
      have hwords := stosl_changed h₀ h₁ h₂ h₃ (n / 4).toNat (o := 0)
        (show 0 + 4 * (n / 4).toNat < 2 ^ 32 by omega) hstart
      rw [UInt32.add_zero, show (0 : UInt32).toNat + 4 * (n / 4).toNat = n.toNat by
        show 0 + 4 * (n / 4).toNat = n.toNat
        omega] at hwords
      exact hwords
    · have hbytes := stosb_changed c.toUInt32 n.toNat (o := 0)
        (show 0 + n.toNat < 2 ^ 32 by omega) hstart
      rw [UInt32.add_zero, show (0 : UInt32).toNat + n.toNat = n.toNat from Nat.zero_add _]
        at hbytes
      exact hbytes
  have hret : (memset dst c n mem).1 = dst := by
    unfold memset
    split_ifs <;> rfl
  obtain ⟨hin, hout⟩ := hfill.bytes hd
  refine ⟨hret, fun o ho => ?_, hout⟩
  rw [hin o ho, toNat_fill]

/-- A negative address, and the end of memory. -/
theorem memset_fills_last :
    (0xFFFFFFFC : UInt32).toNat + (4 : UInt32).toNat ≤ 2 ^ 32 ∧
      ∀ o < (4 : UInt32), (((memset 0xFFFFFFFC (-2) 4 fun _ => 0).2 (0xFFFFFFFC + o)).toNat : ℤ) =
        (-2 : Int32).toInt % 256 :=
  ⟨by decide, (memset_fills (fun _ => 0) 0xFFFFFFFC (-2) 4 (by decide)).2.1⟩

end Xv6
