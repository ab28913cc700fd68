import Xv6.Kernel.Param
import Xv6.Vm.Kalloc
import Mathlib.Logic.Function.Basic
import Mathlib.Data.List.FinRange

/-!
# Processes and their segments

`allocproc` gives every process one page of the pool: a user area, and the kernel stack in the
last 4 KB.  `switchuvm` installs a code and a data segment that start at the page.  The
hardware scales the limit of such a segment by 4 KB and takes it as inclusive, and the limit
that `switchuvm` encodes is that of the whole page, so the segment ends 4 KB behind the page
and has the kernel stack in it.

The proofs go through the pool of `Xv6.Vm.Kalloc`.  `ProcSys.Paged` is kept by every call of
`allocproc`: each process has a page of the pool to itself, with the stack at its end.  From it
follows, for any number of processes, what an offset reaches: below `PGSIZE - KSTACKSIZE` the user
area, and from there on the kernel stack.  Since `switchuvm` admits those offsets for every process,
there is no process that its segments keep to its user area (`segments_never_isolate`).
-/

namespace Xv6

open Lib

abbrev PROCSIZE : ℕ := 0x100

/-! ## Processes -/

/-- `enum procstate`. -/
inductive ProcState
  | UNUSED
  | EMBRYO
  | RUNNABLE
  | RUNNING
  deriving DecidableEq, Repr

/-- `struct proc`, as far as `allocproc` and `switchuvm` use it. -/
structure Proc where
  sz : ℕ
  offset : ℕ
  kstack : ℕ
  state : ProcState
  pid : ℕ
  tf : ℕ
  context : ℕ

/-- `ptable`, `nextpid` and the memory. -/
structure ProcSys where
  proc : Fin NPROC → Proc
  nextpid : ℕ
  phys : Phys

/-- The process table at boot, on a given memory. -/
def ProcSys.boot (s : Phys) : ProcSys where
  proc := fun _ => ⟨0, 0, 0, .UNUSED, 0, 0, 0⟩
  nextpid := 1
  phys := s

/-- Store a whole `struct proc`. -/
def ProcSys.setProc (s : ProcSys) (i : Fin NPROC) (p : Proc) : ProcSys :=
  { s with proc := Function.update s.proc i p }

/-- `sizeof(struct trapframe)` and `sizeof(struct context)`. -/
abbrev TRAPFRAMESIZE : ℕ := 76
abbrev CONTEXTSIZE : ℕ := 20

/-- The part of `allocproc` that carves up the page at `offset`. -/
def carve (trapret forkret offset : ℕ) (p : Proc) (m : Phys) : Proc × Phys :=
  let sp := offset + PGSIZE
  let kstack := sp - KSTACKSIZE
  let tf := sp - TRAPFRAMESIZE
  let sp := tf - 4
  let m := m.store sp trapret
  let context := sp - CONTEXTSIZE
  let m := (m.memset context 0 CONTEXTSIZE).store (context + 16) forkret
  ({ p with
      offset := offset, sz := PGSIZE - KSTACKSIZE, kstack := kstack, tf := tf
      context := context }, m)

/-- `allocproc()`, with the addresses of `trapret` and `forkret`. -/
def allocproc (trapret forkret : ℕ) (s : ProcSys) : Option (Fin NPROC) × ProcSys :=
  match (List.finRange NPROC).find? fun i => (s.proc i).state = .UNUSED with
  | none => (none, s)
  | some i =>
    let p := { s.proc i with state := .EMBRYO, pid := s.nextpid }
    let (offset, m) := kalloc s.phys
    if offset = 0 then
      (none, { s.setProc i { p with offset := 0, state := .UNUSED } with
        nextpid := s.nextpid + 1, phys := m })
    else
      let carved := carve trapret forkret offset p m
      (some i, { s.setProc i carved.1 with nextpid := s.nextpid + 1, phys := carved.2 })

/-- `n` calls of `allocproc`. -/
def allocprocs (trapret forkret : ℕ) : ℕ → ProcSys → ProcSys
  | 0, s => s
  | n + 1, s => allocprocs trapret forkret n (allocproc trapret forkret s).2

/-! ## Segments -/

/-- `struct segdesc`. -/
structure SegDesc where
  lim_15_0 : ℕ
  base_15_0 : ℕ
  base_23_16 : ℕ
  type : ℕ
  s : ℕ
  dpl : ℕ
  p : ℕ
  lim_19_16 : ℕ
  avl : ℕ
  rsv1 : ℕ
  db : ℕ
  g : ℕ
  base_31_24 : ℕ

/-- `SEG(type, base, lim, dpl)`; a bit field keeps the low bits of what is stored. -/
def SEG (type base lim dpl : ℕ) : SegDesc where
  lim_15_0 := lim / 2 ^ 12 % 2 ^ 16
  base_15_0 := base % 2 ^ 16
  base_23_16 := base / 2 ^ 16 % 2 ^ 8
  type := type
  s := 1
  dpl := dpl
  p := 1
  lim_19_16 := lim / 2 ^ 28 % 2 ^ 4
  avl := 0
  rsv1 := 0
  db := 1
  g := 1
  base_31_24 := base / 2 ^ 24 % 2 ^ 8

def SEG16 (type base lim dpl : ℕ) : SegDesc where
  lim_15_0 := lim % 2 ^ 16
  base_15_0 := base % 2 ^ 16
  base_23_16 := base / 2 ^ 16 % 2 ^ 8
  type := type
  s := 1
  dpl := dpl
  p := 1
  lim_19_16 := lim / 2 ^ 16 % 2 ^ 4
  avl := 0
  rsv1 := 0
  db := 1
  g := 0
  base_31_24 := base / 2 ^ 24 % 2 ^ 8

namespace SegDesc

/-- The base address the processor reads from a descriptor. -/
def base (d : SegDesc) : ℕ := d.base_31_24 * 2 ^ 24 + d.base_23_16 * 2 ^ 16 + d.base_15_0

/-- The 20-bit limit the processor reads from a descriptor. -/
def limit (d : SegDesc) : ℕ := d.lim_19_16 * 2 ^ 16 + d.lim_15_0

/-- The offsets that a segment admits. -/
def Admits (d : SegDesc) (a : ℕ) : Prop :=
  a ≤ if d.g = 1 then d.limit * 4096 + 4095 else d.limit

instance (d : SegDesc) (a : ℕ) : Decidable (d.Admits a) := inferInstanceAs (Decidable (_ ≤ _))

/-- The linear address of an offset. -/
def linear (d : SegDesc) (a : ℕ) : ℕ := u32 (d.base + a)

end SegDesc

/-- What `switchuvm` sets of a `struct cpu`: the descriptors `SEG_UCODE`, `SEG_UDATA` and
`SEG_TSS` of its table, and its task state. -/
structure Cpu where
  ucode : SegDesc
  udata : SegDesc
  tss : SegDesc
  ss0 : ℕ
  esp0 : ℕ
  iomb : ℕ

abbrev STA_X : ℕ := 0x8
abbrev STA_W : ℕ := 0x2
abbrev STA_R : ℕ := 0x2
abbrev STS_T32A : ℕ := 0x9
abbrev DPL_USER : ℕ := 3
abbrev SEG_KDATA : ℕ := 2

/-- `sizeof(struct taskstate)`. -/
abbrev TASKSTATESIZE : ℕ := 104

/-- `switchuvm(p)` on the CPU whose task state is at `ts`; `none` is its panic. -/
def switchuvm (ts : ℕ) (p : Proc) : Option Cpu :=
  if p.kstack = 0 then none
  else some
    { ucode := SEG (STA_X ||| STA_R) p.offset (PROCSIZE * 2 ^ 12) DPL_USER
      udata := SEG STA_W p.offset (PROCSIZE * 2 ^ 12) DPL_USER
      tss := { SEG16 STS_T32A ts (TASKSTATESIZE - 1) 0 with s := 0 }
      ss0 := SEG_KDATA * 2 ^ 3
      esp0 := p.kstack + KSTACKSIZE
      iomb := 0xFFFF }

lemma base_SEG {base : ℕ} (type lim dpl : ℕ) (h : base < 2 ^ 32) :
    (SEG type base lim dpl).base = base := by
  simp only [SegDesc.base, SEG]
  omega

/-- The offsets that the segments of `switchuvm` admit reach 4 KB past the page. -/
lemma admits_switchuvm (type base dpl a : ℕ) :
    (SEG type base (PROCSIZE * 2 ^ 12) dpl).Admits a ↔ a < PGSIZE + 4096 := by
  simp only [SegDesc.Admits, SegDesc.limit, SEG, PROCSIZE, PGSIZE, if_true]
  omega

/-! ## The pages of processes -/

/-- A process has one of the pages handed out, with its stack in the last 4 KB. -/
structure Proc.Laid (p : Proc) (used : List ℕ) : Prop where
  page : p.offset ∈ used
  sz : p.sz = PGSIZE - KSTACKSIZE
  kstack : p.kstack = p.offset + (PGSIZE - KSTACKSIZE)

/-- Every process has a page of its own. -/
structure ProcSys.Paged (kend : ℕ) (s : ProcSys) (free used : List ℕ) : Prop where
  pool : s.phys.Pool kend free used
  laid : ∀ i, (s.proc i).state ≠ .UNUSED → (s.proc i).Laid used
  distinct : ∀ i j, (s.proc i).state ≠ .UNUSED → (s.proc j).state ≠ .UNUSED → i ≠ j →
    (s.proc i).offset ≠ (s.proc j).offset

lemma carve_mem {trapret forkret offset x : ℕ} {p : Proc} {m : Phys}
    (hx : ¬ (offset ≤ x ∧ x < offset + PGSIZE)) :
    (carve trapret forkret offset p m).2.mem x = m.mem x := by
  have hroom : offset + 100 ≤ offset + PGSIZE := Nat.add_le_add_left (by decide) offset
  unfold carve
  generalize offset + PGSIZE = sp at hx hroom ⊢
  simp only [TRAPFRAMESIZE, CONTEXTSIZE]
  rw [Phys.store_mem (by omega), Phys.memset_mem (by omega), Phys.store_mem (by omega)]

lemma carve_pool {kend trapret forkret offset : ℕ} {m : Phys} {free used : List ℕ}
    (h : m.Pool kend free (offset :: used)) (p : Proc) :
    (carve trapret forkret offset p m).2.Pool kend free (offset :: used) := by
  have hfree : (carve trapret forkret offset p m).2.freelist = m.freelist := by
    rw [carve, Phys.store_freelist, Phys.memset_freelist, Phys.store_freelist]
  exact h.of_mem List.mem_cons_self hfree fun x hx => carve_mem hx

lemma carve_laid (trapret forkret offset : ℕ) (p : Proc) (m : Phys) (used : List ℕ) :
    (carve trapret forkret offset p m).1.Laid (offset :: used) := by
  refine ⟨List.mem_cons_self, rfl, ?_⟩
  exact Nat.add_sub_assoc (by decide) offset

/-- `allocproc` gives the first page of the pool to the first unused entry of the table. -/
lemma allocproc_cons {kend trapret forkret q : ℕ} {s : ProcSys} {free used : List ℕ}
    {i : Fin NPROC} (h : s.phys.Pool kend (q :: free) used)
    (hi : (List.finRange NPROC).find? (fun i => (s.proc i).state = .UNUSED) = some i) :
    ∃ p m, allocproc trapret forkret s =
        (some i, { s.setProc i p with nextpid := s.nextpid + 1, phys := m }) ∧
      p.state = .EMBRYO ∧ p.offset = q ∧ p.Laid (q :: used) ∧ m.Pool kend free (q :: used) := by
  obtain ⟨m, hk, hq, hpool⟩ := kalloc_cons h
  let p : Proc := { s.proc i with state := .EMBRYO, pid := s.nextpid }
  refine ⟨(carve trapret forkret q p m).1, (carve trapret forkret q p m).2, ?_, rfl, rfl,
    carve_laid trapret forkret q p m used, carve_pool hpool p⟩
  rw [allocproc, hi]
  simp only [hk, if_neg hq]
  rfl

namespace ProcSys.Paged

variable {kend trapret forkret : ℕ} {s : ProcSys} {free used : List ℕ}

lemma boot {m : Phys} (h : m.Pool kend free []) : (ProcSys.boot m).Paged kend free [] where
  pool := h
  laid _ hi := absurd rfl hi
  distinct _ _ hi := absurd rfl hi

lemma unuse (h : s.Paged kend free used) (i : Fin NPROC) {p : Proc} (hp : p.state = .UNUSED)
    (n : ℕ) : ({ s.setProc i p with nextpid := n } : ProcSys).Paged kend free used := by
  have hstate : ∀ j, (Function.update s.proc i p j).state ≠ .UNUSED →
      Function.update s.proc i p j = s.proc j := by
    intro j hj
    by_cases hji : j = i
    · rw [hji, Function.update_self] at hj
      exact absurd hp hj
    · exact Function.update_of_ne hji _ _
  constructor
  · exact h.pool
  · intro j hj
    simp only [ProcSys.setProc] at hj ⊢
    have hej := hstate j hj
    rw [hej] at hj ⊢
    exact h.laid j hj
  · intro j k hj hk hne
    simp only [ProcSys.setProc] at hj hk ⊢
    have hej := hstate j hj
    have hek := hstate k hk
    rw [hej] at hj ⊢
    rw [hek] at hk ⊢
    exact h.distinct j k hj hk hne

lemma use {q : ℕ} (h : s.Paged kend (q :: free) used) (i : Fin NPROC) {p : Proc}
    (hp : p.Laid (q :: used)) (hq : p.offset = q) {m : Phys} (hm : m.Pool kend free (q :: used))
    (n : ℕ) : ({ s.setProc i p with nextpid := n, phys := m } : ProcSys).Paged kend free
      (q :: used) := by
  have hfresh : ∀ j, (s.proc j).state ≠ .UNUSED → p.offset ≠ (s.proc j).offset := by
    intro j hj he
    have hmem := (h.laid j hj).page
    rw [← he, hq] at hmem
    exact (List.nodup_cons.mp h.pool.nodup).1 (List.mem_append_right _ hmem)
  constructor
  · exact hm
  · intro j hj
    simp only [ProcSys.setProc] at hj ⊢
    by_cases hji : j = i
    · rw [hji, Function.update_self]
      exact hp
    · rw [Function.update_of_ne hji] at hj ⊢
      obtain ⟨hpage, hsz, hkstack⟩ := h.laid j hj
      exact ⟨List.mem_cons_of_mem _ hpage, hsz, hkstack⟩
  · intro j k hj hk hne
    simp only [ProcSys.setProc] at hj hk ⊢
    by_cases hji : j = i
    · have hki : k ≠ i := fun hk => hne (hji.trans hk.symm)
      rw [Function.update_of_ne hki] at hk ⊢
      rw [hji, Function.update_self]
      exact hfresh k hk
    · rw [Function.update_of_ne hji] at hj ⊢
      by_cases hki : k = i
      · rw [hki, Function.update_self]
        exact (hfresh j hj).symm
      · rw [Function.update_of_ne hki] at hk ⊢
        exact h.distinct j k hj hk hne

lemma allocproc (h : s.Paged kend free used) :
    ∃ free' used', (Xv6.allocproc trapret forkret s).2.Paged kend free' used' := by
  cases hi : (List.finRange NPROC).find? fun i => (s.proc i).state = .UNUSED with
  | none =>
    rw [Xv6.allocproc, hi]
    exact ⟨free, used, h⟩
  | some i =>
    cases free with
    | nil =>
      rw [Xv6.allocproc, hi, kalloc_nil h.pool]
      exact ⟨[], used, h.unuse i rfl _⟩
    | cons q free =>
      obtain ⟨p, m, hp, -, hq, hlaid, hpool⟩ := allocproc_cons h.pool hi
      rw [hp]
      exact ⟨free, q :: used, h.use i hlaid hq hpool _⟩

lemma allocprocs (n : ℕ) (h : s.Paged kend free used) :
    ∃ free' used', (Xv6.allocprocs trapret forkret n s).Paged kend free' used' := by
  induction n generalizing s free used with
  | zero => exact ⟨free, used, h⟩
  | succ n ih =>
    obtain ⟨free₁, used₁, h₁⟩ := h.allocproc
    exact ih h₁

end ProcSys.Paged

/-- An address of the page of a process. -/
def Proc.InPage (p : Proc) (x : ℕ) : Prop := p.offset ≤ x ∧ x < p.offset + PGSIZE

/-- An address of the user area of a process. -/
def Proc.InUser (p : Proc) (x : ℕ) : Prop := p.offset ≤ x ∧ x < p.offset + p.sz

/-- An address of the kernel stack of a process. -/
def Proc.InKstack (p : Proc) (x : ℕ) : Prop := p.kstack ≤ x ∧ x < p.kstack + KSTACKSIZE

/-- **No process is kept to its user area by its segments.**  They admit the offsets below
`PGSIZE + 4096`.  Those below `PGSIZE - KSTACKSIZE` are the user area, and reach neither the kernel
stack nor the page of another process nor the kernel; the others are outside, and every byte of the
kernel stack is one of them. -/
theorem segments_never_isolate (kend vstart vend trapret forkret : ℕ) (m : ℕ → UInt8) (s : Phys)
    (h0 : 0 < kend) (hstart : kend ≤ vstart) (hstop : vstart ≤ PHYSTOP) (hend : vend ≤ PHYSTOP)
    (hinit : kinit kend vstart vend ⟨m, 0⟩ = some s) (n : ℕ) (i : Fin NPROC)
    (hi : ((allocprocs trapret forkret n (.boot s)).proc i).state ≠ .UNUSED)
    (ts : ℕ) (cpu : Cpu)
    (hcpu : switchuvm ts ((allocprocs trapret forkret n (.boot s)).proc i) = some cpu)
    (d : SegDesc) (hd : d = cpu.ucode ∨ d = cpu.udata) :
    (∃ a, d.Admits a ∧ ¬ ((allocprocs trapret forkret n (.boot s)).proc i).InUser (d.linear a)) ∧
    (∀ a, d.Admits a ↔ a < PGSIZE + 4096) ∧
    (∀ a, d.Admits a → (((allocprocs trapret forkret n (.boot s)).proc i).InUser (d.linear a) ↔
      a < PGSIZE - KSTACKSIZE)) ∧
    (∀ x, ((allocprocs trapret forkret n (.boot s)).proc i).InKstack x →
      ∃ a, d.Admits a ∧ d.linear a = x) ∧
    ∀ a < PGSIZE - KSTACKSIZE,
      ¬ ((allocprocs trapret forkret n (.boot s)).proc i).InKstack (d.linear a) ∧
      (∀ j ≠ i, ((allocprocs trapret forkret n (.boot s)).proc j).state ≠ .UNUSED →
        ¬ ((allocprocs trapret forkret n (.boot s)).proc j).InPage (d.linear a)) ∧
      kend ≤ d.linear a := by
  obtain ⟨s', hs', hpool⟩ := kinit_spec (s := ⟨m, 0⟩) rfl h0 hstart hstop hend
  obtain rfl : s' = s := Option.some.inj (hs'.symm.trans hinit)
  obtain ⟨free, used, hpaged⟩ : ∃ free used,
      (allocprocs trapret forkret n (.boot s')).Paged kend free used :=
    (ProcSys.Paged.boot hpool).allocprocs n
  generalize allocprocs trapret forkret n (.boot s') = t at *
  obtain ⟨hmem, hsz, hkstack⟩ := hpaged.laid i hi
  have hpage := hpaged.pool.page _ (List.mem_append_right _ hmem)
  obtain ⟨type, hseg⟩ : ∃ type, d = SEG type (t.proc i).offset (PROCSIZE * 2 ^ 12) DPL_USER := by
    have hk : (t.proc i).kstack ≠ 0 := by
      rw [hkstack]
      simp only [PGSIZE, KSTACKSIZE]
      omega
    rw [switchuvm, if_neg hk] at hcpu
    obtain rfl := Option.some.inj hcpu
    exact hd.elim (fun h => ⟨_, h⟩) fun h => ⟨_, h⟩
  have hbelow := hpage.below
  have hadm : ∀ a, d.Admits a ↔ a < PGSIZE + 4096 := by
    intro a
    rw [hseg]
    exact admits_switchuvm _ _ _ a
  -- no sum wraps: pages lie below `PHYSTOP`
  have hlin : ∀ a < PGSIZE + 4096, d.linear a = (t.proc i).offset + a := by
    intro a ha
    simp only [PGSIZE, PHYSTOP] at hbelow ha
    rw [SegDesc.linear, hseg, base_SEG _ _ _ (by omega), u32_of_lt (by omega)]
  have huser : ∀ a, d.Admits a → ((t.proc i).InUser (d.linear a) ↔ a < PGSIZE - KSTACKSIZE) := by
    intro a ha
    rw [hlin a ((hadm a).mp ha), Proc.InUser, hsz]
    omega
  have hfirst : d.Admits (PGSIZE - KSTACKSIZE) := (hadm _).mpr (by decide)
  refine ⟨⟨_, hfirst, fun h => ((huser _ hfirst).mp h).false⟩, hadm, huser, fun x hx => ?_,
    fun a ha => ?_⟩
  · rw [Proc.InKstack, hkstack] at hx
    have hlt : x - (t.proc i).offset < PGSIZE + 4096 := by
      simp only [PGSIZE, KSTACKSIZE] at hx ⊢
      omega
    refine ⟨x - (t.proc i).offset, (hadm _).mpr hlt, ?_⟩
    rw [hlin _ hlt]
    omega
  · rw [hlin a (ha.trans (by decide))]
    refine ⟨?_, ?_, ?_⟩
    · rw [Proc.InKstack, hkstack]
      omega
    · intro j hj hju
      refine hpage.disjoint (hpaged.pool.page _ (List.mem_append_right _ (hpaged.laid j hju).page))
        (hpaged.distinct i j hi hju hj.symm) ⟨by omega, ?_⟩
      simp only [PGSIZE, KSTACKSIZE] at ha ⊢
      omega
    · have := hpage.above
      omega

/-- Two processes on a pool of two pages: the second gets the page below that of the first. -/
lemma exists_two_procs : ∃ s,
    kinit 0x200000 0x200000 0x400000 ⟨fun _ => 0, 0⟩ = some s ∧
    ((allocprocs 0 0 2 (.boot s)).proc 0).state ≠ .UNUSED ∧
    ((allocprocs 0 0 2 (.boot s)).proc 0).offset = 0x300000 ∧
    ((allocprocs 0 0 2 (.boot s)).proc 1).state ≠ .UNUSED ∧
    ((allocprocs 0 0 2 (.boot s)).proc 1).offset = 0x200000 ∧
    ((allocprocs 0 0 2 (.boot s)).proc 1).sz = 0xFF000 ∧
    ((allocprocs 0 0 2 (.boot s)).proc 1).kstack = 0x2FF000 := by
  obtain ⟨s, hs, hpool⟩ : ∃ s, kinit 0x200000 0x200000 0x400000 ⟨fun _ => 0, 0⟩ = some s ∧
      s.Pool 0x200000 (pagesFrom (pgroundup 0x200000) 0x400000) [] :=
    kinit_spec rfl (by decide) (by decide) (by decide) (by decide)
  have hpages : pagesFrom (pgroundup 0x200000) 0x400000 = [0x300000, 0x200000] := by decide
  rw [hpages] at hpool
  obtain ⟨p, m, hp, hpstate, hpoff, -, hpool₁⟩ :
      ∃ p m, allocproc 0 0 (.boot s) =
        (some 0, { (ProcSys.boot s).setProc 0 p with nextpid := 2, phys := m }) ∧ _ :=
    allocproc_cons hpool rfl
  have hfirst : (List.finRange NPROC).find? (fun i =>
      (((ProcSys.boot s).setProc 0 p).proc i).state = .UNUSED) = some 1 := by
    rw [show List.finRange NPROC = 0 :: 1 :: (List.finRange NPROC).drop 2 from rfl]
    simp [List.find?, ProcSys.setProc, ProcSys.boot, hpstate]
  obtain ⟨q, m', hq, hqstate, hqoff, hqlaid, -⟩ :
      ∃ q m', allocproc 0 0 { (ProcSys.boot s).setProc 0 p with nextpid := 2, phys := m } =
        (some 1, { ((ProcSys.boot s).setProc 0 p).setProc 1 q with
          nextpid := 3, phys := m' }) ∧ _ :=
    allocproc_cons hpool₁ hfirst
  refine ⟨s, hs, ?_⟩
  rw [allocprocs, allocprocs, allocprocs, hp, hq]
  simp [ProcSys.setProc, hpstate, hpoff, hqstate, hqoff, hqlaid.sz, hqlaid.kstack,
    PGSIZE, KSTACKSIZE]

/-- The data segment of the second of two processes admits an offset outside its user area. -/
theorem segments_never_isolate_two_procs : ∃ s cpu a,
    switchuvm 0x104000 ((allocprocs 0 0 2 (.boot s)).proc 1) = some cpu ∧ cpu.udata.Admits a ∧
    ¬ ((allocprocs 0 0 2 (.boot s)).proc 1).InUser (cpu.udata.linear a) := by
  obtain ⟨s, hs, -, -, hstate, hoff, -, hkstack⟩ := exists_two_procs
  obtain ⟨cpu, hcpu⟩ : ∃ cpu,
      switchuvm 0x104000 ((allocprocs 0 0 2 (.boot s)).proc 1) = some cpu := by
    rw [switchuvm, hkstack]
    exact ⟨_, rfl⟩
  obtain ⟨⟨a, ha, hout⟩, -⟩ := segments_never_isolate 0x200000 0x200000 0x400000 0 0 (fun _ => 0) s
    (by decide) (by decide) (by decide) (by decide) hs 2 1 hstate 0x104000 cpu hcpu cpu.udata
    (Or.inr rfl)
  exact ⟨s, cpu, a, hcpu, ha, hout⟩

/-- **The segments do not isolate.**  The second of two processes reaches its own kernel stack,
which is outside its user area, and the page of the first process. -/
theorem segment_reaches_kstack : ∃ s cpu,
    kinit 0x200000 0x200000 0x400000 ⟨fun _ => 0, 0⟩ = some s ∧
    ((allocprocs 0 0 2 (.boot s)).proc 0).state ≠ .UNUSED ∧
    ((allocprocs 0 0 2 (.boot s)).proc 1).state ≠ .UNUSED ∧
    switchuvm 0x104000 ((allocprocs 0 0 2 (.boot s)).proc 1) = some cpu ∧
    cpu.udata.Admits 0xFF000 ∧
    ((allocprocs 0 0 2 (.boot s)).proc 1).InKstack (cpu.udata.linear 0xFF000) ∧
    ¬ ((allocprocs 0 0 2 (.boot s)).proc 1).InUser (cpu.udata.linear 0xFF000) ∧
    cpu.udata.Admits 0x100000 ∧
    ((allocprocs 0 0 2 (.boot s)).proc 0).InPage (cpu.udata.linear 0x100000) := by
  obtain ⟨s, hs, hp, hpoff, hq, hqoff, hqsz, hkstack⟩ := exists_two_procs
  obtain ⟨cpu, hcpu, hdata⟩ : ∃ cpu,
      switchuvm 0x104000 ((allocprocs 0 0 2 (.boot s)).proc 1) = some cpu ∧
      cpu.udata = SEG STA_W 0x200000 (PROCSIZE * 2 ^ 12) DPL_USER := by
    rw [switchuvm, hkstack, hqoff]
    exact ⟨_, rfl, rfl⟩
  refine ⟨s, cpu, hs, hp, hq, hcpu, ?_⟩
  rw [hdata, Proc.InKstack, Proc.InUser, Proc.InPage, hkstack, hqoff, hqsz, hpoff]
  decide

end Xv6
