import Mathlib.Data.Fintype.Basic
import Mathlib.Data.Nat.Init
import Mathlib.Tactic.NormNum

/-!
# Fixed-length byte strings

`Bytes n` is a string of `n` bytes.  All reading goes through `get`, which answers `0` out of
range, and all writing through `blit`, which replaces a range; `get_blit` is the one fact the
other lemmas rest on.

* Little-endian numbers of any width are read by `le` and stored by `putLE`.  A store is read back
  modulo its width (`le_putLE_same`) and leaves every disjoint number alone
  (`le_putLE_of_disjoint`).
* Signed two-byte fields are read by `short` and stored by `putShort`, which reduces the number to
  the range of its type with `toShort`; a number of the range survives the trip.

A structure that is laid out in bytes is described by the offsets of its fields, so that one set of
lemmas serves every layer of a format, and that two fields do not overlap is a matter of numbers.
-/

namespace Lib

/-- A string of `n` bytes. -/
def Bytes (n : ℕ) := Fin n → UInt8

namespace Bytes

variable {n : ℕ}

/-- The all-zero string. -/
def zero : Bytes n := fun _ => 0

instance : Inhabited (Bytes n) := ⟨zero⟩

instance : DecidableEq (Bytes n) := inferInstanceAs (DecidableEq (Fin n → UInt8))

/-- Byte `i`, or `0` beyond the end. -/
def get (b : Bytes n) (i : ℕ) : UInt8 := if h : i < n then b ⟨i, h⟩ else 0

/-- Replace the `m` bytes from `o` on by `src 0, src 1, …`; bytes beyond the end are lost. -/
def blit (b : Bytes n) (o m : ℕ) (src : ℕ → UInt8) : Bytes n := fun j =>
  if o ≤ j.val ∧ j.val < o + m then src (j.val - o) else b j

@[simp] lemma get_zero (i : ℕ) : (zero : Bytes n).get i = 0 := by
  simp [get, zero]

lemma get_blit (b : Bytes n) (o m : ℕ) (src : ℕ → UInt8) (i : ℕ) :
    (b.blit o m src).get i =
      if o ≤ i ∧ i < o + m ∧ i < n then src (i - o) else b.get i := by
  unfold get blit
  by_cases hi : i < n
  · simp [hi]
  · simp [hi]

@[ext] lemma ext {a b : Bytes n} (h : ∀ i < n, a.get i = b.get i) : a = b := by
  funext j
  have hj := h j.val j.isLt
  simpa [get, j.isLt] using hj

lemma get_blit_of_mem {b : Bytes n} {o m i : ℕ} {src : ℕ → UInt8} (h₁ : o ≤ i)
    (h₂ : i < o + m) (h₃ : i < n) : (b.blit o m src).get i = src (i - o) := by
  rw [get_blit, if_pos ⟨h₁, h₂, h₃⟩]

lemma get_blit_of_not_mem {b : Bytes n} {o m i : ℕ} {src : ℕ → UInt8}
    (h : i < o ∨ o + m ≤ i) : (b.blit o m src).get i = b.get i := by
  rw [get_blit, if_neg (by omega)]

lemma blit_congr {b : Bytes n} {o m : ℕ} {f g : ℕ → UInt8} (h : ∀ j < m, f j = g j) :
    b.blit o m f = b.blit o m g := by
  funext j
  unfold blit
  split_ifs with hj
  · exact h _ (by omega)
  · rfl

/-! ## Little-endian numbers -/

/-- The number whose `k` little-endian bytes are `f 0, f 1, …`. -/
def leNat : ℕ → (ℕ → UInt8) → ℕ
  | 0, _ => 0
  | k + 1, f => (f 0).toNat + 256 * leNat k fun i => f (i + 1)

/-- Byte `i` of a number. -/
def leByte (v i : ℕ) : UInt8 := UInt8.ofNat (v / 256 ^ i)

lemma leNat_lt (k : ℕ) (f : ℕ → UInt8) : leNat k f < 256 ^ k := by
  induction k generalizing f with
  | zero => simp [leNat]
  | succ k ih =>
    have h₀ := (f 0).toNat_lt
    have h₁ := ih fun i => f (i + 1)
    rw [leNat, pow_succ]
    omega

lemma leNat_congr {k : ℕ} {f g : ℕ → UInt8} (h : ∀ i < k, f i = g i) :
    leNat k f = leNat k g := by
  induction k generalizing f g with
  | zero => rfl
  | succ k ih =>
    rw [leNat, leNat, h 0 (by omega), ih fun i hi => h (i + 1) (by omega)]

lemma leNat_leByte (k v : ℕ) : leNat k (leByte v) = v % 256 ^ k := by
  induction k generalizing v with
  | zero => simp [leNat, Nat.mod_one]
  | succ k ih =>
    have hshift : (fun i => leByte v (i + 1)) = leByte (v / 256) := by
      funext i
      rw [leByte, leByte, Nat.div_div_eq_div_mul, pow_succ, Nat.mul_comm (256 ^ i)]
    have hlow : (leByte v 0).toNat = v % 256 := by
      simp [leByte]
    rw [leNat, hlow, hshift, ih, pow_succ, Nat.mul_comm (256 ^ k), Nat.mod_mul]

lemma leNat_zero (k : ℕ) : leNat k (fun _ => 0) = 0 := by
  induction k with
  | zero => rfl
  | succ k ih => simp [leNat, ih]

/-- The `k`-byte little-endian number at offset `o`. -/
def le (b : Bytes n) (o k : ℕ) : ℕ := leNat k fun i => b.get (o + i)

/-- Store a `k`-byte little-endian number at offset `o`. -/
def putLE (b : Bytes n) (o k v : ℕ) : Bytes n := b.blit o k (leByte v)

lemma le_lt (b : Bytes n) (o k : ℕ) : b.le o k < 256 ^ k := leNat_lt k _

lemma le_congr {a b : Bytes n} {o k : ℕ} (h : ∀ i, o ≤ i → i < o + k → a.get i = b.get i) :
    a.le o k = b.le o k :=
  leNat_congr fun i hi => h (o + i) (by omega) (by omega)

@[simp] lemma le_zero (o k : ℕ) : (zero : Bytes n).le o k = 0 := by
  simp [le, leNat_zero]

lemma le_blit_of_disjoint {b : Bytes n} {o m o' k : ℕ} {src : ℕ → UInt8}
    (h : o' + k ≤ o ∨ o + m ≤ o') : (b.blit o m src).le o' k = b.le o' k :=
  le_congr fun i h₁ h₂ => get_blit_of_not_mem (by omega)

lemma le_blit_of_subset {b : Bytes n} {o m o' k : ℕ} {src : ℕ → UInt8} (h₁ : o ≤ o')
    (h₂ : o' + k ≤ o + m) (h₃ : o + m ≤ n) :
    (b.blit o m src).le o' k = leNat k fun i => src (o' - o + i) := by
  refine leNat_congr fun i hi => ?_
  rw [get_blit_of_mem (by omega) (by omega) (by omega)]
  congr 1
  omega

lemma le_putLE_same {b : Bytes n} {o k v : ℕ} (h : o + k ≤ n) :
    (b.putLE o k v).le o k = v % 256 ^ k := by
  rw [putLE, le_blit_of_subset le_rfl le_rfl h]
  simp only [Nat.sub_self, Nat.zero_add]
  exact leNat_leByte k v

lemma le_putLE_of_disjoint {b : Bytes n} {o k v o' k' : ℕ}
    (h : o' + k' ≤ o ∨ o + k ≤ o') : (b.putLE o k v).le o' k' = b.le o' k' :=
  le_blit_of_disjoint h

/-! ## Two-byte signed numbers -/

/-- Reduce an integer to the range of a two-byte signed field. -/
def toShort (x : ℤ) : ℤ := (x + 32768) % 65536 - 32768

/-- The two-byte signed number at offset `o`. -/
def short (b : Bytes n) (o : ℕ) : ℤ := toShort (b.le o 2)

/-- Store a two-byte signed number at offset `o`. -/
def putShort (b : Bytes n) (o : ℕ) (x : ℤ) : Bytes n := b.putLE o 2 (x % 65536).toNat

/-- `x` is a value of a two-byte signed field. -/
def IsShort (x : ℤ) : Prop := -32768 ≤ x ∧ x < 32768

lemma isShort_toShort (x : ℤ) : IsShort (toShort x) := by
  unfold IsShort toShort
  omega

lemma toShort_of_isShort {x : ℤ} (h : IsShort x) : toShort x = x := by
  unfold IsShort at h
  unfold toShort
  omega

lemma isShort_short (b : Bytes n) (o : ℕ) : IsShort (b.short o) := isShort_toShort _

lemma short_putShort_same {b : Bytes n} {o : ℕ} {x : ℤ} (h : o + 2 ≤ n) (hx : IsShort x) :
    (b.putShort o x).short o = x := by
  rw [short, putShort, le_putLE_same h]
  unfold IsShort at hx
  unfold toShort
  norm_num
  omega

lemma short_putShort_of_disjoint {b : Bytes n} {o o' : ℕ} {x : ℤ}
    (h : o' + 2 ≤ o ∨ o + 2 ≤ o') : (b.putShort o x).short o' = b.short o' := by
  rw [short, short, putShort, le_putLE_of_disjoint h]

end Bytes

end Lib
