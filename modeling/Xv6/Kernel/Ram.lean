import Mathlib.Tactic.Common

/-!
# Numbers in memory

Memory as the kernel and the boot loader address it, one byte at every 32-bit address, and the
little-endian numbers in it.  An address that is added to wraps around, as it does on the machine;
whoever needs that it does not says so.

`Xv6.Boot.Loader` reads ELF headers with these functions, `Xv6.Mp.Scan` the tables of the firmware.
-/

namespace Xv6

def ushortAt (mem : UInt32 → UInt8) (p : UInt32) : UInt32 :=
  (mem p).toUInt32 ||| (mem (p + 1)).toUInt32 <<< 8

def uintAt (mem : UInt32 → UInt8) (p : UInt32) : UInt32 :=
  ushortAt mem p ||| ushortAt mem (p + 2) <<< 16

lemma ushortAt_congr {mem mem' : UInt32 → UInt8} {p q : UInt32} (h₀ : mem p = mem' q)
    (h₁ : mem (p + 1) = mem' (q + 1)) : ushortAt mem p = ushortAt mem' q := by
  rw [ushortAt, ushortAt, h₀, h₁]

lemma uintAt_congr {mem mem' : UInt32 → UInt8} {p q : UInt32}
    (h : ∀ i : UInt32, i.toNat < 4 → mem (p + i) = mem' (q + i)) :
    uintAt mem p = uintAt mem' q := by
  have hbyte : ∀ i : UInt32, i.toNat < 2 → ∀ j : UInt32, j.toNat < 2 →
      mem (p + 2 * i + j) = mem' (q + 2 * i + j) := by
    intro i hi j hj
    rw [UInt32.add_assoc, UInt32.add_assoc]
    refine h _ ?_
    have htwo : (2 : UInt32).toNat = 2 := rfl
    rw [UInt32.toNat_add, UInt32.toNat_mul, htwo]
    omega
  have hlow : ushortAt mem p = ushortAt mem' q :=
    ushortAt_congr (by simpa using hbyte 0 (by decide) 0 (by decide))
      (by simpa using hbyte 0 (by decide) 1 (by decide))
  have hhigh : ushortAt mem (p + 2) = ushortAt mem' (q + 2) :=
    ushortAt_congr (by simpa using hbyte 1 (by decide) 0 (by decide))
      (by simpa using hbyte 1 (by decide) 1 (by decide))
  rw [uintAt, uintAt, hlow, hhigh]

end Xv6
