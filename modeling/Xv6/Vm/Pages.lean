import Xv6.Vm.Kalloc
import Mathlib.Data.List.Perm.Basic

/-!
# Every page is free or held

Runs of the page allocator.  Next to the memory, `Heap` records which pages have been handed out and
not been given back; their holders may store what they like into them, but a page is only freed
while it is held.  `Heap.Whole` says that the free list and the held pages together are exactly the
whole pages between the two addresses that `kinit` was given, each of them once.

`freerange` compares `p + PGSIZE` with the end of the range, and this sum wraps around to zero for
the last page of the address space: `kinit_wraps` is a range that ends up in the panic of `kfree`.

`PageCall` are the events of such a run, and `Whole.call` is the step lemma: a page moves between
the free list and the held ones, or a holder writes into its page, where no link of the list is.
-/

namespace Xv6

/-- A use of the allocator or of its pages. -/
inductive PageCall
  | kalloc
  | kfree (p : ℕ)
  /-- The byte `b` is stored at the address `a`. -/
  | write (a : ℕ) (b : UInt8)

/-- Memory, and the pages that have been handed out. -/
structure Heap where
  phys : Phys
  held : List ℕ

namespace Heap

/-- A call; `none` is the panic of `kfree`. -/
def call (kend : ℕ) (h : Heap) : PageCall → Option Heap
  | .kalloc =>
    let (p, s) := kalloc h.phys
    some ⟨s, if p = 0 then h.held else p :: h.held⟩
  | .kfree p => (kfree kend p h.phys).map fun s => ⟨s, h.held.erase p⟩
  | .write a b => some { h with phys := { h.phys with mem := Function.update h.phys.mem a b } }

/-- Only held pages are freed and stored into. -/
def Allowed (h : Heap) : PageCall → Prop
  | .kalloc => True
  | .kfree p => p ∈ h.held
  | .write a _ => ∃ p ∈ h.held, p ≤ a ∧ a < p + PGSIZE

/-- What a sequence of allowed calls leads to. -/
inductive Reaches (kend : ℕ) (h : Heap) : Heap → Prop
  | refl : Reaches kend h h
  | step {h₁ h₂ : Heap} {c : PageCall} (hr : Reaches kend h h₁) (hc : h₁.Allowed c)
      (hcall : h₁.call kend c = some h₂) : Reaches kend h h₂

/-- The aligned pages inside of `[vstart, vend)`. -/
def PageIn (vstart vend p : ℕ) : Prop := p % PGSIZE = 0 ∧ vstart ≤ p ∧ p + PGSIZE ≤ vend

/-- The pages in `free` make up the free list, and with the held pages they are the pages of the
range. -/
structure Whole (kend vstart vend : ℕ) (h : Heap) (free : List ℕ) : Prop where
  pool : h.phys.Pool kend free h.held
  mem_iff : ∀ p, p ∈ free ++ h.held ↔ PageIn vstart vend p

variable {kend vstart vend : ℕ} {h h' : Heap} {free : List ℕ}

lemma Whole.kalloc (hw : h.Whole kend vstart vend free) :
    ∃ h' free', h.call kend .kalloc = some h' ∧ h'.Whole kend vstart vend free' := by
  cases free with
  | nil =>
    refine ⟨h, [], ?_, hw⟩
    simp only [call, kalloc_nil hw.pool, if_true]
  | cons p free =>
    obtain ⟨m, hk, hp, hpool⟩ := kalloc_cons hw.pool
    refine ⟨⟨m, p :: h.held⟩, free, ?_, hpool, fun q => ?_⟩
    · simp only [call, hk, if_neg hp]
    · rw [List.perm_middle.mem_iff]
      exact hw.mem_iff q

lemma Whole.kfree (hw : h.Whole kend vstart vend free) (h0 : 0 < kend) {p : ℕ}
    (hp : p ∈ h.held) :
    ∃ h', h.call kend (.kfree p) = some h' ∧ h'.Whole kend vstart vend (p :: free) := by
  have hperm : (free ++ h.held).Perm (p :: (free ++ h.held.erase p)) :=
    ((List.perm_cons_erase hp).append_left free).trans List.perm_middle
  have hnodup := hperm.nodup_iff.mp hw.pool.nodup
  have hrest : h.phys.Pool kend free (h.held.erase p) :=
    ⟨hw.pool.chain, (List.nodup_cons.mp hnodup).2, fun q hq =>
      hw.pool.page q (hperm.mem_iff.mpr (List.mem_cons_of_mem p hq))⟩
  obtain ⟨s', hk, hpool⟩ := kfree_spec hrest (hw.pool.page p (List.mem_append_right _ hp)) h0
    (List.nodup_cons.mp hnodup).1
  refine ⟨⟨s', h.held.erase p⟩, ?_, hpool, fun q => ?_⟩
  · rw [call, hk]
    rfl
  · rw [← hw.mem_iff q, hperm.mem_iff]
    rfl

lemma Whole.write (hw : h.Whole kend vstart vend free) {p a : ℕ} (hp : p ∈ h.held)
    (ha : p ≤ a ∧ a < p + PGSIZE) (b : UInt8) :
    ∃ h', h.call kend (.write a b) = some h' ∧ h'.Whole kend vstart vend free := by
  refine ⟨_, rfl, hw.pool.of_mem hp rfl fun x hx => ?_, hw.mem_iff⟩
  have hne : x ≠ a := by
    rintro rfl
    exact hx ha
  exact Function.update_of_ne hne _ _

lemma Whole.call (hw : h.Whole kend vstart vend free) (h0 : 0 < kend) {c : PageCall}
    (hc : h.Allowed c) :
    ∃ h' free', h.call kend c = some h' ∧ h'.Whole kend vstart vend free' := by
  cases c with
  | kalloc => exact hw.kalloc
  | kfree p =>
    obtain ⟨h', hk, hw'⟩ := hw.kfree h0 hc
    exact ⟨h', _, hk, hw'⟩
  | write a b =>
    obtain ⟨p, hp, ha⟩ := hc
    obtain ⟨h', hk, hw'⟩ := hw.write hp ha b
    exact ⟨h', _, hk, hw'⟩

lemma Whole.reaches (hw : h.Whole kend vstart vend free) (h0 : 0 < kend)
    (hr : Reaches kend h h') : ∃ free', h'.Whole kend vstart vend free' := by
  induction hr with
  | refl => exact ⟨free, hw⟩
  | step _ hc hcall ih =>
    obtain ⟨free', hw'⟩ := ih
    obtain ⟨h'', free'', hk, hw''⟩ := hw'.call h0 hc
    rw [Option.some.inj (hcall.symm.trans hk)]
    exact ⟨free'', hw''⟩

end Heap

/-! ## The range of `kinit` -/

lemma mem_multiplesFrom {n p k q : ℕ} : q ∈ multiplesFrom n p k ↔ ∃ j < k, q = p + j * n := by
  simp [multiplesFrom, eq_comm]

lemma mem_pagesFrom {vstart vend p : ℕ} (hwrap : vstart + PGSIZE ≤ 2 ^ 32) :
    p ∈ pagesFrom (pgroundup vstart) vend ↔ Heap.PageIn vstart vend p := by
  rw [pagesFrom, mem_multiplesFrom, pgroundup_eq hwrap, Heap.PageIn]
  simp only [PGSIZE]
  constructor
  · rintro ⟨j, hj, rfl⟩
    omega
  · rintro ⟨ha, hs, he⟩
    refine ⟨(p - (vstart + 0x100000 - 1) / 0x100000 * 0x100000) / 0x100000, ?_, ?_⟩ <;> omega

/-- **The page allocator neither loses nor duplicates pages.**  Whatever is done after `kinit` with
pages that are held, the free list is a finite list of different pages, each page of the range is
either free or held, `kalloc` fails only if no page is free, and `kfree` does not panic. -/
theorem pages_conserved (kend vstart vend : ℕ) (m : ℕ → UInt8) (h0 : 0 < kend)
    (hstart : kend ≤ vstart) (hwrap : vstart + 2 * PGSIZE - 1 < 2 ^ 32) (hend : vend ≤ PHYSTOP) :
    ∃ s, kinit kend vstart vend ⟨m, 0⟩ = some s ∧
      ∀ h, Heap.Reaches kend ⟨s, []⟩ h → ∃ free,
        h.phys.Chain h.phys.freelist free ∧ free.Nodup ∧ h.held.Nodup ∧ free.Disjoint h.held ∧
        (∀ p, p ∈ free ∨ p ∈ h.held ↔ Heap.PageIn vstart vend p) ∧
        ((kalloc h.phys).1 = 0 ↔ free = []) ∧
        ∀ p ∈ h.held, ∃ s', kfree kend p h.phys = some s' := by
  obtain ⟨s, hs, hpool⟩ := kinit_pool (s := ⟨m, 0⟩) rfl h0 hstart
    (by simp only [PGSIZE] at *; omega) hend
  have hw : Heap.Whole kend vstart vend ⟨s, []⟩ (pagesFrom (pgroundup vstart) vend) := by
    refine ⟨hpool, fun p => ?_⟩
    rw [List.append_nil]
    exact mem_pagesFrom (by simp only [PGSIZE] at *; omega)
  refine ⟨s, hs, fun h hr => ?_⟩
  obtain ⟨free, hw'⟩ := hw.reaches h0 hr
  obtain ⟨hfree, hheld, hdisj⟩ := List.nodup_append'.mp hw'.pool.nodup
  refine ⟨free, hw'.pool.chain, hfree, hheld, hdisj, fun p => ?_, ?_, fun p hp => ?_⟩
  · rw [← List.mem_append]
    exact hw'.mem_iff p
  · cases free with
    | nil => simp only [kalloc_nil hw'.pool]
    | cons p free =>
      obtain ⟨m', hk, hp, -⟩ := kalloc_cons hw'.pool
      simp only [hk, hp, reduceCtorEq]
  · obtain ⟨h', hk, -⟩ := hw'.kfree h0 hp
    obtain ⟨s', hs', -⟩ := Option.map_eq_some_iff.mp hk
    exact ⟨s', hs'⟩

/-- The range that `main` gives to `kinit`, for a kernel that ends at `0x111000`. -/
theorem pages_conserved_boot : ∃ s, kinit 0x111000 0x111000 PHYSTOP ⟨fun _ => 0, 0⟩ = some s ∧
    ∀ h, Heap.Reaches 0x111000 ⟨s, []⟩ h → ∃ free : List ℕ,
      (∀ p, p ∈ free ∨ p ∈ h.held ↔ Heap.PageIn 0x111000 PHYSTOP p) := by
  obtain ⟨s, hs, hall⟩ := pages_conserved 0x111000 0x111000 PHYSTOP (fun _ => 0) (by decide)
    (by decide) (by decide) (by decide)
  refine ⟨s, hs, fun h hr => ?_⟩
  obtain ⟨free, -, -, -, -, hmem, -⟩ := hall h hr
  exact ⟨free, hmem⟩

/-- **A range that starts in the last page of the address space makes `kinit` panic**: it frees that
page and goes on with the page at address zero. -/
theorem kinit_wraps : 0x111000 ≤ 0xFFF00000 ∧ 0xFFF00000 + PGSIZE - 1 < 2 ^ 32 ∧
    ∀ s, kinit 0x111000 0xFFF00000 PHYSTOP s = none := by
  refine ⟨by decide, by decide, fun s => ?_⟩
  have hstart : pgroundup 0xFFF00000 = 0xFFF00000 := by decide
  have hlast : u32 (0xFFF00000 + PGSIZE) = 0 := by decide
  obtain ⟨s', hs'⟩ : ∃ s', kfree 0x111000 0xFFF00000 s = some s' := by
    rw [kfree, if_neg (by decide)]
    exact ⟨_, rfl⟩
  have hzero : kfree 0x111000 0 s' = none := by rw [kfree, if_pos (by decide)]
  rw [kinit, freerange, hstart, freeLoop, hlast, if_pos (Nat.zero_le _), hs', Option.bind_some,
    freeLoop, if_pos (by decide), hzero]
  rfl

end Xv6
