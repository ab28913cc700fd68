import Xv6.Lib.Bytes
import Mathlib.Data.List.Nodup

/-!
# The page allocator

The model of `kalloc.c` on byte memory.  A free page holds the address of the next free page in
its first four bytes, so the free list lives inside the pages it lists; `Phys.Chain` reads it
back.

* `Phys` is the memory together with the head of the list; `kfree`, `kalloc`, `freerange` and
  `kinit` are the functions of the source.  `kfree` fills the page with ones before it links it, and
  panics on an address that is not aligned or in front of the end of the kernel.
* `Phys.Pool` says that the free pages and the pages handed out are distinct pages between the end
  of the kernel and `PHYSTOP`; `kinit` establishes it and `kalloc` and `kfree` keep it.
* `kinit_spec` says that after `kinit` every whole page of its range is free.

A store into a page that is handed out does not touch the list, since no two pages overlap
(`IsPage.disjoint`).  `Xv6.Vm.Pages` has the runs of the allocator, and `Xv6.Vm.Segments` the
processes that live in the pages.
-/

namespace Xv6

open Lib

abbrev PGSIZE : ℕ := 0x100000
abbrev KSTACKSIZE : ℕ := 4096
abbrev PHYSTOP : ℕ := 0xE000000

/-- The value of a 32-bit unsigned expression. -/
def u32 (x : ℕ) : ℕ := x % 2 ^ 32

lemma u32_of_lt {x : ℕ} (h : x < 2 ^ 32) : u32 x = x := Nat.mod_eq_of_lt h

/-- Physical memory and `kmem.freelist`. -/
structure Phys where
  mem : ℕ → UInt8
  freelist : ℕ

namespace Phys

/-- Load a 32-bit word. -/
def load (s : Phys) (a : ℕ) : ℕ := Bytes.leNat 4 fun i => s.mem (a + i)

/-- Store a 32-bit word. -/
def store (s : Phys) (a v : ℕ) : Phys :=
  { s with mem := fun x => if a ≤ x ∧ x < a + 4 then Bytes.leByte v (x - a) else s.mem x }

def memset (s : Phys) (a : ℕ) (c : UInt8) (n : ℕ) : Phys :=
  { s with mem := fun x => if a ≤ x ∧ x < a + n then c else s.mem x }

end Phys

/-- `kfree(v)`, where the kernel ends at `kend`; `none` is its panic. -/
def kfree (kend v : ℕ) (s : Phys) : Option Phys :=
  if v % PGSIZE ≠ 0 ∨ v < kend then none
  else
    let s := s.memset v 1 PGSIZE
    some { s.store v s.freelist with freelist := v }

def kalloc (s : Phys) : ℕ × Phys :=
  if s.freelist ≠ 0 then (s.freelist, { s with freelist := s.load s.freelist }) else (0, s)

def pgroundup (sz : ℕ) : ℕ := u32 (sz + PGSIZE - 1) / PGSIZE * PGSIZE

/-- The loop of `freerange`. -/
def freeLoop (kend vend : ℕ) : ℕ → ℕ → Phys → Option Phys
  | 0, _, s => some s
  | turns + 1, p, s =>
    if u32 (p + PGSIZE) ≤ vend then
      (kfree kend p s).bind (freeLoop kend vend turns (u32 (p + PGSIZE)))
    else some s

/-- `freerange(vstart, vend)`; a page fits a 32-bit address space 4096 times. -/
def freerange (kend vstart vend : ℕ) (s : Phys) : Option Phys :=
  freeLoop kend vend 4096 (pgroundup vstart) s

def kinit (kend vstart vend : ℕ) (s : Phys) : Option Phys := freerange kend vstart vend s

/-! ## The free list -/

namespace Phys

/-- The free list that starts at `head` consists of the given pages. -/
def Chain (s : Phys) : ℕ → List ℕ → Prop
  | head, [] => head = 0
  | head, p :: l => head = p ∧ p ≠ 0 ∧ Chain s (s.load p) l

lemma load_congr {s s' : Phys} {a : ℕ} (h : ∀ x, a ≤ x → x < a + 4 → s'.mem x = s.mem x) :
    s'.load a = s.load a :=
  Bytes.leNat_congr fun i hi => h (a + i) (by omega) (by omega)

@[simp]
lemma store_freelist (s : Phys) (a v : ℕ) : (s.store a v).freelist = s.freelist := rfl

@[simp]
lemma memset_freelist (s : Phys) (a n : ℕ) (c : UInt8) :
    (s.memset a c n).freelist = s.freelist := rfl

lemma store_mem {s : Phys} {a v x : ℕ} (hx : ¬ (a ≤ x ∧ x < a + 4)) :
    (s.store a v).mem x = s.mem x := if_neg hx

lemma memset_mem {s : Phys} {a n x : ℕ} {c : UInt8} (hx : ¬ (a ≤ x ∧ x < a + n)) :
    (s.memset a c n).mem x = s.mem x := if_neg hx

lemma load_store (s : Phys) (a v : ℕ) : (s.store a v).load a = u32 v := by
  have h : ∀ i < 4, (s.store a v).mem (a + i) = Bytes.leByte v i := by
    intro i hi
    simp only [store]
    rw [if_pos ⟨by omega, by omega⟩, Nat.add_sub_cancel_left]
  rw [load, Bytes.leNat_congr h, Bytes.leNat_leByte]
  rfl

lemma Chain.congr {s s' : Phys} {head : ℕ} {l : List ℕ} (h : s.Chain head l)
    (hm : ∀ p ∈ l, ∀ x, p ≤ x → x < p + 4 → s'.mem x = s.mem x) : s'.Chain head l := by
  induction l generalizing head with
  | nil => exact h
  | cons p l ih =>
    obtain ⟨hhead, hp, hrest⟩ := h
    refine ⟨hhead, hp, ?_⟩
    rw [load_congr (hm p List.mem_cons_self)]
    exact ih hrest fun q hq => hm q (List.mem_cons_of_mem p hq)

/-- An address where a page of the pool can start. -/
structure IsPage (kend p : ℕ) : Prop where
  aligned : p % PGSIZE = 0
  above : kend ≤ p
  below : p + PGSIZE ≤ PHYSTOP

lemma IsPage.disjoint {kend p q x : ℕ} (hp : IsPage kend p) (hq : IsPage kend q) (hne : p ≠ q)
    (hx : p ≤ x ∧ x < p + PGSIZE) : ¬ (q ≤ x ∧ x < q + PGSIZE) := by
  have h₁ := hp.aligned
  have h₂ := hq.aligned
  simp only [PGSIZE] at *
  omega

/-- The pages in `free` make up the free list, those in `used` have been handed out. -/
structure Pool (kend : ℕ) (s : Phys) (free used : List ℕ) : Prop where
  chain : s.Chain s.freelist free
  nodup : (free ++ used).Nodup
  page : ∀ p ∈ free ++ used, IsPage kend p

lemma Pool.of_mem {kend : ℕ} {s s' : Phys} {free used : List ℕ} {p : ℕ}
    (h : s.Pool kend free used) (hp : p ∈ used) (hf : s'.freelist = s.freelist)
    (hm : ∀ x, ¬ (p ≤ x ∧ x < p + PGSIZE) → s'.mem x = s.mem x) : s'.Pool kend free used := by
  refine ⟨?_, h.nodup, h.page⟩
  rw [hf]
  refine h.chain.congr fun q hq x h₁ h₂ => hm x ?_
  have hne : q ≠ p := by
    rintro rfl
    exact (List.disjoint_of_nodup_append h.nodup) hq hp
  have hpq := (h.page q (List.mem_append_left _ hq)).disjoint
    (h.page p (List.mem_append_right _ hp)) hne (x := x)
  apply hpq
  simp only [PGSIZE]
  omega

end Phys

lemma kalloc_cons {kend p : ℕ} {s : Phys} {free used : List ℕ}
    (h : s.Pool kend (p :: free) used) :
    ∃ m, kalloc s = (p, m) ∧ p ≠ 0 ∧ m.Pool kend free (p :: used) := by
  obtain ⟨hhead, hp, hrest⟩ := h.chain
  refine ⟨{ s with freelist := s.load p }, ?_, hp, ?_, ?_, ?_⟩
  · rw [kalloc, hhead, if_pos hp]
  · exact hrest.congr fun _ _ _ _ _ => rfl
  · exact (List.perm_middle.nodup_iff).mpr h.nodup
  · intro q hq
    exact h.page q ((List.perm_middle.mem_iff).mp hq)

lemma kalloc_nil {kend : ℕ} {s : Phys} {used : List ℕ} (h : s.Pool kend [] used) :
    kalloc s = (0, s) := by
  have hf : s.freelist = 0 := h.chain
  rw [kalloc, hf, if_neg (by simp)]

lemma kfree_spec {kend p : ℕ} {s : Phys} {free used : List ℕ} (h : s.Pool kend free used)
    (hp : Phys.IsPage kend p) (h0 : 0 < kend) (hnew : p ∉ free ++ used) :
    ∃ s', kfree kend p s = some s' ∧ s'.Pool kend (p :: free) used := by
  have hcond : ¬ (p % PGSIZE ≠ 0 ∨ p < kend) := by
    have h₁ := hp.aligned
    have h₂ := hp.above
    omega
  refine ⟨_, by rw [kfree, if_neg hcond], ⟨rfl, ?_, ?_⟩, ?_, ?_⟩
  · have := hp.above
    omega
  · -- the new link is the old head of the list, and no other link lies in the page
    have hhead : s.freelist < 2 ^ 32 := by
      cases free with
      | nil =>
        have hf : s.freelist = 0 := h.chain
        omega
      | cons q free =>
        have hq := (h.page q (by simp)).below
        have hf : s.freelist = q := h.chain.1
        simp only [PGSIZE, PHYSTOP] at hq
        omega
    have hload : Phys.load { (s.memset p 1 PGSIZE).store p (s.memset p 1 PGSIZE).freelist with
        freelist := p } p = s.freelist := by
      refine (Phys.load_congr fun _ _ _ => rfl).trans
        ((Phys.load_store (s.memset p 1 PGSIZE) p s.freelist).trans (u32_of_lt hhead))
    rw [hload]
    refine h.chain.congr fun q hq x h₁ h₂ => ?_
    have hne : q ≠ p := fun he => hnew (he ▸ List.mem_append_left _ hq)
    have hout := (h.page q (List.mem_append_left _ hq)).disjoint hp hne (x := x)
      (by simp only [PGSIZE]; omega)
    have hlink : ¬ (p ≤ x ∧ x < p + 4) := by
      simp only [PGSIZE] at hout
      omega
    exact (Phys.store_mem hlink).trans (Phys.memset_mem hout)
  · exact List.nodup_cons.mpr ⟨hnew, h.nodup⟩
  · intro q hq
    rcases List.mem_cons.mp hq with rfl | hq
    · exact hp
    · exact h.page q hq

/-- The multiples of `n` from `p` on, the highest first. -/
def multiplesFrom (n p k : ℕ) : List ℕ := (List.range k).reverse.map fun j => p + j * n

lemma multiplesFrom_succ (n p k : ℕ) :
    multiplesFrom n p (k + 1) = multiplesFrom n (p + n) k ++ [p] := by
  have hnext : ∀ j, p + (j + 1) * n = p + n + j * n := by
    intro j
    rw [Nat.succ_mul, Nat.add_assoc, Nat.add_comm n]
  simp only [multiplesFrom, List.range_succ_eq_map, List.reverse_cons, List.map_append,
    ← List.map_reverse, List.map_map, List.map_singleton, Nat.zero_mul, Nat.add_zero]
  exact congrArg (· ++ [p]) (List.map_congr_left fun j _ => hnext j)

/-- The pages below `vend` from `p` on, the highest first. -/
def pagesFrom (p vend : ℕ) : List ℕ := multiplesFrom PGSIZE p ((vend - p) / PGSIZE)

lemma pagesFrom_of_le {p vend : ℕ} (h : p + PGSIZE ≤ vend) :
    pagesFrom p vend = pagesFrom (p + PGSIZE) vend ++ [p] := by
  have hstep : (vend - p) / PGSIZE = (vend - (p + PGSIZE)) / PGSIZE + 1 := by
    rw [Nat.sub_add_eq, Nat.div_eq_sub_div (by decide) (by omega)]
  rw [pagesFrom, hstep, multiplesFrom_succ, pagesFrom]

lemma pagesFrom_of_lt {p vend : ℕ} (h : vend < p + PGSIZE) : pagesFrom p vend = [] := by
  have hlt : vend - p < PGSIZE := by
    simp only [PGSIZE] at h ⊢
    omega
  rw [pagesFrom, Nat.div_eq_of_lt hlt]
  rfl

lemma freeLoop_spec {kend vend turns p : ℕ} {s : Phys} {free : List ℕ}
    (h : s.Pool kend free []) (h0 : 0 < kend) (hp : kend ≤ p) (ha : p % PGSIZE = 0)
    (hend : vend ≤ PHYSTOP) (hturns : (vend - p) / PGSIZE ≤ turns) (hnowrap : p + PGSIZE < 2 ^ 32)
    (hfree : ∀ q ∈ free, q < p) :
    ∃ s', freeLoop kend vend turns p s = some s' ∧ s'.Pool kend (pagesFrom p vend ++ free) [] := by
  induction turns generalizing p s free with
  | zero =>
    have hlt : vend < p + PGSIZE := by
      simp only [PGSIZE] at hturns ⊢
      omega
    exact ⟨s, rfl, by simpa [pagesFrom_of_lt hlt] using h⟩
  | succ turns ih =>
    rw [freeLoop, u32_of_lt hnowrap]
    by_cases hle : p + PGSIZE ≤ vend
    · obtain ⟨s₁, hk, hpool⟩ := kfree_spec h ⟨ha, hp, hle.trans hend⟩ h0
        (by simpa using fun hq => absurd (hfree p hq) (lt_irrefl p))
      have hnext : (p + PGSIZE) % PGSIZE = 0 := by rw [Nat.add_mod_right, ha]
      have hturns' : (vend - (p + PGSIZE)) / PGSIZE ≤ turns := by
        simp only [PGSIZE] at hturns hle ⊢
        omega
      have hfree' : ∀ q ∈ p :: free, q < p + PGSIZE := by
        intro q hq
        rcases List.mem_cons.mp hq with rfl | hq
        · exact Nat.lt_add_of_pos_right (by decide)
        · exact (hfree q hq).trans_le (Nat.le_add_right p _)
      have hnowrap' : p + PGSIZE + PGSIZE < 2 ^ 32 := by
        simp only [PGSIZE, PHYSTOP] at hle hend ⊢
        omega
      rw [if_pos hle, hk, pagesFrom_of_le hle, List.append_assoc]
      exact ih hpool (hp.trans (Nat.le_add_right p _)) hnext hturns' hnowrap' hfree'
    · rw [if_neg hle, pagesFrom_of_lt (not_le.mp hle)]
      exact ⟨s, rfl, h⟩

lemma pgroundup_eq {vstart : ℕ} (h : vstart + PGSIZE ≤ 2 ^ 32) :
    pgroundup vstart = (vstart + PGSIZE - 1) / PGSIZE * PGSIZE := by
  rw [pgroundup, u32_of_lt (by simp only [PGSIZE] at *; omega)]

/-- `kinit` sets up the pool with every whole page between `vstart` and `vend`, if neither the
rounding nor the sum in the condition of the loop wraps around. -/
lemma kinit_pool {kend vstart vend : ℕ} {s : Phys} (hs : s.freelist = 0) (h0 : 0 < kend)
    (hstart : kend ≤ vstart) (hwrap : vstart + 2 * PGSIZE ≤ 2 ^ 32) (hend : vend ≤ PHYSTOP) :
    ∃ s', kinit kend vstart vend s = some s' ∧
      s'.Pool kend (pagesFrom (pgroundup vstart) vend) [] := by
  have hround : pgroundup vstart = (vstart + PGSIZE - 1) / PGSIZE * PGSIZE :=
    pgroundup_eq (by omega)
  have hempty : s.Pool kend [] [] := ⟨hs, by simp, by simp⟩
  have hloop : ∃ s', freeLoop kend vend 4096 (pgroundup vstart) s = some s' ∧
      s'.Pool kend (pagesFrom (pgroundup vstart) vend ++ []) [] := by
    apply freeLoop_spec hempty h0
    · rw [hround]
      simp only [PGSIZE]
      omega
    · rw [hround]
      exact Nat.mul_mod_left _ _
    · exact hend
    · simp only [PGSIZE, PHYSTOP] at *
      omega
    · rw [hround]
      simp only [PGSIZE] at *
      omega
    · simp
  rwa [List.append_nil] at hloop

/-- **`kinit`** sets up the pool with every whole page between `vstart` and `vend`. -/
theorem kinit_spec {kend vstart vend : ℕ} {s : Phys} (hs : s.freelist = 0) (h0 : 0 < kend)
    (hstart : kend ≤ vstart) (hstop : vstart ≤ PHYSTOP) (hend : vend ≤ PHYSTOP) :
    ∃ s', kinit kend vstart vend s = some s' ∧
      s'.Pool kend (pagesFrom (pgroundup vstart) vend) [] :=
  kinit_pool hs h0 hstart (by simp only [PGSIZE, PHYSTOP] at *; omega) hend

end Xv6
