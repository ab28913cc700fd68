import Xv6.Kernel.Ram
import Mathlib.Data.List.Basic
import Mathlib.Tactic.Ring

/-!
# The boot loader

`bootmain` loads the kernel, an ELF file that starts at sector 1 of the disk.  It reads the first
page of the file into scratch space and walks over the program headers there; `readseg` copies the
sectors of each segment as a whole, so it stores in front of the segment and behind it as well.

The loader says of this that it does not matter as segments are loaded in increasing order.  That is
so for what comes behind a segment.  What comes in front of it is stored over the segments that are
loaded already, over the program headers if these are near, and over the loader itself, which runs
at `start` with its stack below.  What a loader does that has overwritten itself is not modelled:
`bootmain` answers `none` then, for any extent of its code and stack (`Loader`).

Three conditions on the file say when all goes well.

* `Clear`: the sectors stay off the ends of the address space, and whenever the loader reads a field
  of a program header, it finds there what is in the file.
* `Segment.Spares`: neither sectors nor zeros are stored over the loader.
* `Benign`: where sectors of later segments lie over a byte of a segment, the last of them brings
  the same byte.

`boot_image` says that a file for which `Clear` holds is loaded if and only if the other two hold.
The proof follows the code: `readsegLoop_iff`, `readseg_iff`, `bootSegment_iff`, `bootLoop_iff` and
`bootmain_iff` say when each function returns and what it leaves in memory, in terms of
`Segment.load`.
-/

namespace Xv6

abbrev SECTSIZE : ℕ := 512

/-- `elf`, the scratch space. -/
abbrev SCRATCH : UInt32 := 0x10000

abbrev ELF_MAGIC : UInt32 := 0x464C457F

/-- `start` of `bootasm.S`. -/
abbrev START : ℕ := 0x7C00

/-- The memory that the loader itself uses: a part of the boot sector, from `start` on, for its
code, and a stack below. -/
structure Loader where
  code : ℕ
  stack : ℕ
  code_le : code ≤ SECTSIZE
  stack_le : stack ≤ START

namespace Loader

def Mem (l : Loader) (x : UInt32) : Prop := START ≤ x.toNat + l.stack ∧ x.toNat < START + l.code

instance (l : Loader) (x : UInt32) : Decidable (l.Mem x) := inferInstanceAs (Decidable (_ ∧ _))

/-- A store of `n` bytes goes over the loader. -/
def Hit (l : Loader) (a : UInt32) (n : ℕ) : Prop := ∃ i < n, l.Mem (a + UInt32.ofNat i)

instance (l : Loader) (a : UInt32) (n : ℕ) : Decidable (l.Hit a n) :=
  inferInstanceAs (Decidable (∃ i < n, _))

end Loader

/-! ## The code -/

section

variable (l : Loader) (disk : ℕ → UInt8)

def readsect (dst offset : UInt32) (mem : UInt32 → UInt8) : UInt32 → UInt8 := fun x =>
  if (x - dst).toNat < SECTSIZE then disk (SECTSIZE * offset.toNat + (x - dst).toNat) else mem x

/-- The loop of `readseg`; `none` if it has not ended after so many turns, or has stored over the
loader. -/
def readsegLoop (epa : UInt32) :
    ℕ → UInt32 → UInt32 → (UInt32 → UInt8) → Option (UInt32 → UInt8)
  | 0, _, _, _ => none
  | turns + 1, pa, offset, mem =>
    if pa < epa then
      if l.Hit pa SECTSIZE then none
      else readsegLoop epa turns (pa + 512) (offset + 1) (readsect disk pa offset mem)
    else some mem

/-- `readseg(pa, count, offset)`.  After `2 ^ 23` turns the address is the first one again, and the
loop does not end. -/
def readseg (pa count offset : UInt32) (mem : UInt32 → UInt8) : Option (UInt32 → UInt8) :=
  readsegLoop l disk (pa + count) (2 ^ 23 + 1) (pa - offset % 512) (offset / 512 + 1) mem

/-- `stosb(a, 0, n)`; `none` if it stores over the loader. -/
def stosbZero (a n : UInt32) (mem : UInt32 → UInt8) : Option (UInt32 → UInt8) :=
  if l.Hit a n.toNat then none
  else some fun x => if (x - a).toNat < n.toNat then 0 else mem x

/-- The turn of the loop of `bootmain` for the program header at `ph`. -/
def bootSegment (ph : UInt32) (mem : UInt32 → UInt8) : Option (UInt32 → UInt8) :=
  let pa := uintAt mem (ph + 12)
  (readseg l disk pa (uintAt mem (ph + 16)) (uintAt mem (ph + 4)) mem).bind fun mem =>
    -- the header is read again
    if uintAt mem (ph + 20) > uintAt mem (ph + 16) then
      stosbZero l (pa + uintAt mem (ph + 16)) (uintAt mem (ph + 20) - uintAt mem (ph + 16)) mem
    else some mem

def bootLoop (eph : UInt32) : ℕ → UInt32 → (UInt32 → UInt8) → Option (UInt32 → UInt8)
  | 0, _, _ => none
  | turns + 1, ph, mem =>
    if ph < eph then (bootSegment l disk ph mem).bind (bootLoop eph turns (ph + 32)) else some mem

/-- `bootmain()` up to the jump to the kernel.  `phnum` is a `ushort`. -/
def bootmain (mem : UInt32 → UInt8) : Option (UInt32 → UInt8) :=
  (readseg l disk SCRATCH 4096 0 mem).bind fun mem =>
    if uintAt mem SCRATCH ≠ ELF_MAGIC then some mem
    else
      let ph := SCRATCH + uintAt mem (SCRATCH + 28)
      bootLoop l disk (ph + 32 * ushortAt mem (SCRATCH + 44)) (2 ^ 16) ph mem

end

/-! ## The file -/

section

variable (disk : ℕ → UInt8)

/-- The file, as far as 32-bit offsets reach. -/
def kernelFile (n : UInt32) : UInt8 := disk (SECTSIZE + n.toNat)

/-- `elf->phoff`. -/
def phoff : UInt32 := uintAt (kernelFile disk) 28

/-- `elf->phnum`. -/
def phnum : ℕ := (ushortAt (kernelFile disk) 44).toNat

end

/-- What the loader uses of a program header. -/
structure Segment where
  off : UInt32
  paddr : UInt32
  filesz : UInt32
  memsz : UInt32
  deriving DecidableEq

/-- The program header at an offset in the file. -/
def segmentAt (disk : ℕ → UInt8) (n : UInt32) : Segment where
  off := uintAt (kernelFile disk) (n + 4)
  paddr := uintAt (kernelFile disk) (n + 12)
  filesz := uintAt (kernelFile disk) (n + 16)
  memsz := uintAt (kernelFile disk) (n + 20)

def headerAt (disk : ℕ → UInt8) (k : ℕ) : UInt32 := phoff disk + 32 * UInt32.ofNat k

def segments (disk : ℕ → UInt8) : List Segment :=
  (List.range (phnum disk)).map fun k => segmentAt disk (headerAt disk k)

namespace Segment

/-- How far the first sector begins in front of the segment. -/
def lead (s : Segment) : ℕ := s.off.toNat % SECTSIZE

def sectors (s : Segment) : ℕ := (s.lead + s.filesz.toNat + (SECTSIZE - 1)) / SECTSIZE

/-- The sectors that are copied include the address. -/
def Reaches (s : Segment) (x : UInt32) : Prop :=
  s.paddr.toNat ≤ x.toNat + s.lead ∧ x.toNat + s.lead < s.paddr.toNat + SECTSIZE * s.sectors

/-- The byte of the file that comes to an address. -/
def source (s : Segment) (x : UInt32) : ℕ := s.off.toNat + x.toNat - s.paddr.toNat

def Mem (s : Segment) (x : UInt32) : Prop :=
  s.paddr.toNat ≤ x.toNat ∧ x.toNat < s.paddr.toNat + s.memsz.toNat

def byte (disk : ℕ → UInt8) (s : Segment) (x : UInt32) : UInt8 :=
  if x.toNat < s.paddr.toNat + s.filesz.toNat then disk (SECTSIZE + s.source x) else 0

instance (s : Segment) (x : UInt32) : Decidable (s.Reaches x) :=
  inferInstanceAs (Decidable (_ ∧ _))

instance (s : Segment) (x : UInt32) : Decidable (s.Mem x) :=
  inferInstanceAs (Decidable (_ ∧ _))

/-- The sectors do not run over an end of the address space. -/
def Fits (s : Segment) : Prop :=
  s.lead ≤ s.paddr.toNat ∧ s.paddr.toNat + SECTSIZE * s.sectors < 2 ^ 32 + s.lead

/-- Nothing is stored over the loader. -/
def Spares (l : Loader) (s : Segment) : Prop := ∀ x, l.Mem x → ¬ s.Reaches x ∧ ¬ s.Mem x

end Segment

/-- An ELF file with its program headers in the first page and its segments in increasing order,
none of which overlaps another one or the scratch space. -/
structure WellFormed (disk : ℕ → UInt8) : Prop where
  magic : uintAt (kernelFile disk) 0 = ELF_MAGIC
  headers : (phoff disk).toNat + 32 * phnum disk ≤ 4096
  filesz : ∀ s ∈ segments disk, s.filesz.toNat ≤ s.memsz.toNat
  nowrap : ∀ s ∈ segments disk, s.paddr.toNat + s.memsz.toNat ≤ 2 ^ 32
  increasing : (segments disk).Pairwise fun s t => s.paddr.toNat ≤ t.paddr.toNat
  disjoint : (segments disk).Pairwise fun s t => ∀ x, ¬ (s.Mem x ∧ t.Mem x)
  scratch : ∀ s ∈ segments disk, ∀ x, s.Mem x → ¬ (0x10000 ≤ x.toNat ∧ x.toNat < 0x11000)

/-- If sectors of these segments lie over an address of the scratch space, the last of them brings
the byte of the file that belongs there. -/
def Keeps (disk : ℕ → UInt8) (segs : List Segment) (x : UInt32) : Prop :=
  ∀ front t behind, segs = front ++ t :: behind → t.Reaches x → (∀ u ∈ behind, ¬ u.Reaches x) →
    disk (SECTSIZE + t.source x) = kernelFile disk (x - SCRATCH)

/-- The sectors of each segment stay off the ends of the address space, and the fields of program
headers are as in the file when the loader reads them: `off`, `paddr` and `filesz` before the
sectors of the segment are copied, `filesz` again and `memsz` when they are there. -/
def Clear (disk : ℕ → UInt8) : Prop :=
  ∀ k < phnum disk, (segmentAt disk (headerAt disk k)).Fits ∧
    (∀ c : UInt32, 4 ≤ c.toNat ∧ c.toNat < 8 ∨ 12 ≤ c.toNat ∧ c.toNat < 20 →
      Keeps disk ((segments disk).take k) (SCRATCH + headerAt disk k + c)) ∧
    ∀ c : UInt32, 16 ≤ c.toNat → c.toNat < 24 →
      Keeps disk ((segments disk).take (k + 1)) (SCRATCH + headerAt disk k + c)

/-- Where sectors of later segments are stored over a byte of a segment, the last one of them brings
the same byte. -/
def Benign (disk : ℕ → UInt8) : Prop :=
  ∀ before s between t behind, segments disk = before ++ s :: (between ++ t :: behind) →
    ∀ x, s.Mem x → t.Reaches x → (∀ u ∈ behind, ¬ u.Reaches x) →
      disk (SECTSIZE + t.source x) = s.byte disk x

def Loaded (disk : ℕ → UInt8) (mem : UInt32 → UInt8) : Prop :=
  ∀ s ∈ segments disk, ∀ i : ℕ,
    (i < s.filesz.toNat → mem (s.paddr + UInt32.ofNat i) = disk (SECTSIZE + (s.off.toNat + i))) ∧
    (s.filesz.toNat ≤ i → i < s.memsz.toNat → mem (s.paddr + UInt32.ofNat i) = 0)

/-! ## One segment -/

/-- What loading a segment does to memory. -/
def Segment.load (disk : ℕ → UInt8) (mem : UInt32 → UInt8) (s : Segment) : UInt32 → UInt8 :=
  fun x =>
    if s.Mem x then s.byte disk x
    else if s.Reaches x then disk (SECTSIZE + s.source x) else mem x

variable {l : Loader} {disk : ℕ → UInt8} {mem mem' : UInt32 → UInt8}

/-- The test whether an address is one of the `n` addresses from `a` on. -/
lemma toNat_sub_lt_iff {x a : UInt32} {n : ℕ} (h : a.toNat + n ≤ 2 ^ 32) :
    (x - a).toNat < n ↔ a.toNat ≤ x.toNat ∧ x.toNat < a.toNat + n := by
  have hx := x.toNat_lt
  rw [UInt32.toNat_sub]
  omega

lemma Loader.hit_iff {a : UInt32} {n : ℕ} (h : a.toNat + n ≤ 2 ^ 32) :
    l.Hit a n ↔ ∃ x, l.Mem x ∧ a.toNat ≤ x.toNat ∧ x.toNat < a.toNat + n := by
  have hof : ∀ i < n, (UInt32.ofNat i).toNat = i := fun i hi =>
    UInt32.toNat_ofNat_of_lt' (by simp only [UInt32.size]; omega)
  constructor
  · rintro ⟨i, hi, hm⟩
    refine ⟨_, hm, ?_⟩
    rw [← toNat_sub_lt_iff h, UInt32.add_comm, UInt32.add_sub_cancel, hof i hi]
    exact hi
  · rintro ⟨x, hm, hx⟩
    have hlt := (toNat_sub_lt_iff h).mpr hx
    refine ⟨(x - a).toNat, hlt, ?_⟩
    rwa [UInt32.ofNat_toNat, UInt32.add_comm, UInt32.sub_add_cancel]

/-- The loop of `readseg` copies `r` sectors to the addresses from `b` on. -/
lemma readsegLoop_iff {b r turns : ℕ} {pa epa offset : UInt32} (hpa : pa.toNat = b)
    (hfit : b + SECTSIZE * r < 2 ^ 32) (hend : epa.toNat ≤ b + SECTSIZE * r)
    (hneed : ∀ i < r, b + SECTSIZE * i < epa.toNat) (hoff : offset.toNat + r < 2 ^ 32)
    (hturns : r < turns) :
    readsegLoop l disk epa turns pa offset mem = some mem' ↔
      (∀ x, l.Mem x → ¬ (b ≤ x.toNat ∧ x.toNat < b + SECTSIZE * r)) ∧ mem' = fun x =>
        if b ≤ x.toNat ∧ x.toNat < b + SECTSIZE * r then
          disk (SECTSIZE * offset.toNat + (x.toNat - b))
        else mem x := by
  simp only [SECTSIZE] at *
  induction r generalizing b turns pa offset mem with
  | zero =>
    obtain ⟨turns, rfl⟩ := Nat.exists_eq_succ_of_ne_zero (Nat.ne_of_gt hturns)
    have hge : ¬ pa < epa := by
      rw [UInt32.lt_iff_toNat_lt]
      omega
    have hnone : ∀ x : UInt32, ¬ (b ≤ x.toNat ∧ x.toNat < b + 512 * 0) := fun x => by omega
    simp only [readsegLoop, if_neg hge, hnone, if_false, not_false_eq_true, implies_true, true_and,
      Option.some.injEq, eq_comm]
  | succ r ih =>
    obtain ⟨turns, rfl⟩ := Nat.exists_eq_succ_of_ne_zero (Nat.ne_zero_of_lt hturns)
    have hlt : pa < epa := by
      rw [UInt32.lt_iff_toNat_lt]
      have := hneed 0 (Nat.succ_pos r)
      omega
    have hsize : (512 : UInt32).toNat = 512 := rfl
    have hone : (1 : UInt32).toNat = 1 := rfl
    have hpa' : (pa + 512).toNat = b + 512 := by
      rw [UInt32.toNat_add, hsize]
      omega
    have hoff' : (offset + 1).toNat = offset.toNat + 1 := by
      rw [UInt32.toNat_add, hone]
      omega
    have hneed' : ∀ i < r, b + 512 + 512 * i < epa.toNat := by
      intro i hi
      have := hneed (i + 1) (Nat.succ_lt_succ hi)
      omega
    -- the addresses are those of the first sector and those of the others
    have hsplit : ∀ x : UInt32, b ≤ x.toNat ∧ x.toNat < b + 512 * (r + 1) ↔
        (b ≤ x.toNat ∧ x.toNat < b + 512) ∨
          (b + 512 ≤ x.toNat ∧ x.toNat < b + 512 + 512 * r) := fun x => by omega
    have hhit : l.Hit pa 512 ↔ ∃ x, l.Mem x ∧ b ≤ x.toNat ∧ x.toNat < b + 512 := by
      rw [Loader.hit_iff (by omega), hpa]
    rw [readsegLoop, if_pos hlt]
    by_cases hh : l.Hit pa 512
    · obtain ⟨x, hm, hx⟩ := hhit.mp hh
      rw [if_pos hh]
      refine iff_of_false (fun h => nomatch h) fun h => h.1 x hm ((hsplit x).mpr (Or.inl hx))
    rw [if_neg hh, ih hpa' (by omega) (by omega) hneed' (by omega) (by omega)]
    refine and_congr (forall_congr' fun x => forall_congr' fun hm => ?_) (Eq.congr rfl ?_)
    · rw [hsplit, not_or, and_iff_right fun hx => hh (hhit.mpr ⟨x, hm, hx⟩)]
    · funext x
      have hsub : (x - pa).toNat < 512 ↔ b ≤ x.toNat ∧ x.toNat < b + 512 := by
        rw [toNat_sub_lt_iff (by omega), hpa]
      simp only [readsect, hoff', hsplit x]
      by_cases h₁ : b + 512 ≤ x.toNat ∧ x.toNat < b + 512 + 512 * r
      · rw [if_pos h₁, if_pos (Or.inr h₁)]
        exact congrArg disk (by omega)
      · rw [if_neg h₁]
        by_cases h₂ : b ≤ x.toNat ∧ x.toNat < b + 512
        · have hdist : (x - pa).toNat = x.toNat - b := by
            have hx := x.toNat_lt
            rw [UInt32.toNat_sub]
            omega
          rw [if_pos (hsub.mpr h₂), if_pos (Or.inl h₂), hdist]
        · rw [if_neg (fun h' => h₂ (hsub.mp h')), if_neg (not_or.mpr ⟨h₂, h₁⟩)]

/-- Memory when the sectors of a segment are there. -/
def Segment.copy (disk : ℕ → UInt8) (mem : UInt32 → UInt8) (s : Segment) : UInt32 → UInt8 :=
  fun x => if s.Reaches x then disk (SECTSIZE + s.source x) else mem x

/-- `readseg` copies the sectors of a segment. -/
lemma readseg_iff {s : Segment} (h : s.Fits) :
    readseg l disk s.paddr s.filesz s.off mem = some mem' ↔
      (∀ x, l.Mem x → ¬ s.Reaches x) ∧ mem' = s.copy disk mem := by
  obtain ⟨hlead, hfit⟩ := h
  have hsize : (512 : UInt32).toNat = 512 := rfl
  have hone : (1 : UInt32).toNat = 1 := rfl
  have hoff := s.off.toNat_lt
  have hmod : (s.off % 512).toNat = s.lead := by rw [UInt32.toNat_mod, hsize]; rfl
  have hsectors : s.lead + s.filesz.toNat ≤ 512 * s.sectors ∧
      512 * s.sectors < s.lead + s.filesz.toNat + 512 := by
    simp only [Segment.sectors, SECTSIZE]
    omega
  have hleadlt : s.lead < 512 := Nat.mod_lt _ (by decide)
  -- `pa -= offset % SECTSIZE` does not wrap
  have hpa : (s.paddr - s.off % 512).toNat = s.paddr.toNat - s.lead := by
    have := s.paddr.toNat_lt
    rw [UInt32.toNat_sub, hmod]
    omega
  have hepa : (s.paddr + s.filesz).toNat = s.paddr.toNat + s.filesz.toNat := by
    rw [UInt32.toNat_add]
    simp only [SECTSIZE] at hfit
    omega
  have hsector : (s.off / 512 + 1).toNat = s.off.toNat / 512 + 1 := by
    rw [UInt32.toNat_add, UInt32.toNat_div, hsize, hone]
    omega
  have hsplit : s.off.toNat = 512 * (s.off.toNat / 512) + s.lead :=
    (Nat.div_add_mod s.off.toNat 512).symm
  -- what is stored are the whole sectors that the segment has bytes in
  have hiff : ∀ x : UInt32, s.paddr.toNat - s.lead ≤ x.toNat ∧
      x.toNat < s.paddr.toNat - s.lead + SECTSIZE * s.sectors ↔ s.Reaches x := by
    intro x
    simp only [Segment.Reaches, SECTSIZE]
    omega
  simp only [SECTSIZE] at hfit
  rw [readseg, readsegLoop_iff (r := s.sectors) hpa]
  · simp only [hiff]
    refine and_congr_right fun _ => Eq.congr rfl (funext fun x => ?_)
    rw [Segment.copy]
    split_ifs with hx
    · rw [hsector]
      refine congrArg disk ?_
      simp only [Segment.Reaches, Segment.source, SECTSIZE] at hx ⊢
      omega
    · rfl
  · simp only [SECTSIZE]
    omega
  · simp only [SECTSIZE]
    omega
  · intro i hi
    simp only [SECTSIZE]
    omega
  · omega
  · omega

/-- The sectors include the part of the segment that is in the file. -/
lemma Segment.reaches_of_lt {s : Segment} {x : UInt32} (hlo : s.paddr.toNat ≤ x.toNat)
    (hhi : x.toNat < s.paddr.toNat + s.filesz.toNat) : s.Reaches x := by
  simp only [Segment.Reaches, Segment.sectors, SECTSIZE]
  omega

/-- The part of a segment that is not in the file. -/
def Segment.Zero (s : Segment) (x : UInt32) : Prop :=
  s.paddr.toNat + s.filesz.toNat ≤ x.toNat ∧ x.toNat < s.paddr.toNat + s.memsz.toNat

instance (s : Segment) (x : UInt32) : Decidable (s.Zero x) :=
  inferInstanceAs (Decidable (_ ∧ _))

/-- Zeros go to the rest of the segment. -/
lemma Segment.load_eq {s : Segment} :
    s.load disk mem = fun x => if s.Zero x then 0 else s.copy disk mem x := by
  funext x
  by_cases hm : s.Mem x
  · by_cases hz : s.Zero x
    · rw [Segment.load, if_pos hm, if_pos hz, Segment.byte, if_neg (Nat.not_lt.mpr hz.1)]
    · have hfile : x.toNat < s.paddr.toNat + s.filesz.toNat :=
        Nat.not_le.mp fun h => hz ⟨h, hm.2⟩
      rw [Segment.load, if_pos hm, if_neg hz, Segment.byte, if_pos hfile, Segment.copy,
        if_pos (Segment.reaches_of_lt hm.1 hfile)]
  · have hz : ¬ s.Zero x := fun hz => hm ⟨(Nat.le_add_right _ _).trans hz.1, hz.2⟩
    rw [Segment.load, if_neg hm, if_neg hz, Segment.copy]

/-- Sectors and zeros are all that is stored. -/
lemma Segment.spares_iff {s : Segment} :
    s.Spares l ↔ (∀ x, l.Mem x → ¬ s.Reaches x) ∧ ∀ x, l.Mem x → ¬ s.Zero x := by
  refine ⟨fun h => ⟨fun x hx => (h x hx).1, fun x hx hz => (h x hx).2 ?_⟩, fun h x hx => ?_⟩
  · exact ⟨(Nat.le_add_right _ _).trans hz.1, hz.2⟩
  · refine ⟨h.1 x hx, fun hm => ?_⟩
    by_cases hz : s.Zero x
    · exact h.2 x hx hz
    · exact h.1 x hx (Segment.reaches_of_lt hm.1 (Nat.not_le.mp fun hf => hz ⟨hf, hm.2⟩))

/-- The turn of the loop for a segment whose header is read as it is in the file. -/
lemma bootSegment_iff {s : Segment} {ph : UInt32} (hfits : s.Fits)
    (hle : s.filesz.toNat ≤ s.memsz.toNat) (hnowrap : s.paddr.toNat + s.memsz.toNat ≤ 2 ^ 32)
    (hoff : uintAt mem (ph + 4) = s.off) (hpaddr : uintAt mem (ph + 12) = s.paddr)
    (hfilesz : uintAt mem (ph + 16) = s.filesz)
    (hfilesz' : uintAt (s.copy disk mem) (ph + 16) = s.filesz)
    (hmemsz' : uintAt (s.copy disk mem) (ph + 20) = s.memsz) :
    bootSegment l disk ph mem = some mem' ↔ s.Spares l ∧ mem' = s.load disk mem := by
  -- the zeros, with the sizes that are read again after the sectors have been copied
  have hzero : s.filesz < s.memsz → (stosbZero l (s.paddr + s.filesz) (s.memsz - s.filesz)
      (s.copy disk mem) = some mem' ↔ (∀ x, l.Mem x → ¬ s.Zero x) ∧ mem' = s.load disk mem) := by
    intro hlt
    have hlt' := UInt32.lt_iff_toNat_lt.mp hlt
    have hend : (s.paddr + s.filesz).toNat = s.paddr.toNat + s.filesz.toNat := by
      rw [UInt32.toNat_add]
      omega
    have hlen := UInt32.toNat_sub_of_le _ _ (UInt32.le_of_lt hlt)
    have hiff : ∀ x, (s.paddr + s.filesz).toNat ≤ x.toNat ∧
        x.toNat < (s.paddr + s.filesz).toNat + (s.memsz - s.filesz).toNat ↔ s.Zero x := by
      intro x
      rw [hlen, hend, Segment.Zero]
      omega
    have hsum : (s.paddr + s.filesz).toNat + (s.memsz - s.filesz).toNat ≤ 2 ^ 32 := by omega
    have hhit : l.Hit (s.paddr + s.filesz) (s.memsz - s.filesz).toNat ↔
        ∃ x, l.Mem x ∧ s.Zero x := by
      rw [Loader.hit_iff hsum]
      simp only [hiff]
    have hstore : (fun x => if (x - (s.paddr + s.filesz)).toNat < (s.memsz - s.filesz).toNat then 0
        else s.copy disk mem x) = s.load disk mem := by
      rw [Segment.load_eq]
      funext x
      simp only [toNat_sub_lt_iff hsum, hiff]
    rw [stosbZero, hstore]
    by_cases hh : l.Hit (s.paddr + s.filesz) (s.memsz - s.filesz).toNat
    · obtain ⟨x, hx, hz⟩ := hhit.mp hh
      rw [if_pos hh]
      exact iff_of_false (fun h => nomatch h) fun h => h.1 x hx hz
    · rw [if_neg hh, Option.some.injEq, eq_comm, and_iff_right]
      exact fun x hx hz => hh (hhit.mpr ⟨x, hx, hz⟩)
  -- if `memsz` is not larger there are no zeros, and `load` is `copy`
  have hrest : s.filesz < s.memsz ∨ (∀ x, ¬ s.Zero x) ∧ s.load disk mem = s.copy disk mem := by
    by_cases hlt : s.filesz < s.memsz
    · exact Or.inl hlt
    · have hge : ¬ s.filesz.toNat < s.memsz.toNat := fun h => hlt (UInt32.lt_iff_toNat_lt.mpr h)
      have hnone : ∀ x, ¬ s.Zero x := fun x hz => hge (by have := hz.1; have := hz.2; omega)
      refine Or.inr ⟨hnone, ?_⟩
      rw [Segment.load_eq]
      funext x
      rw [if_neg (hnone x)]
  rw [bootSegment, hoff, hpaddr, hfilesz, Option.bind_eq_some_iff, Segment.spares_iff,
    and_assoc]
  constructor
  · rintro ⟨m, hread, hm⟩
    obtain ⟨hfar, rfl⟩ := (readseg_iff hfits).mp hread
    refine ⟨hfar, ?_⟩
    rw [hfilesz', hmemsz'] at hm
    rcases hrest with hlt | ⟨hnone, hload⟩
    · rw [if_pos hlt] at hm
      exact (hzero hlt).mp hm
    · refine ⟨fun x _ => hnone x, ?_⟩
      by_cases hlt : s.filesz < s.memsz
      · rw [if_pos hlt] at hm
        exact ((hzero hlt).mp hm).2
      · rw [if_neg hlt] at hm
        rw [hload, Option.some.inj hm]
  · rintro ⟨hfar, hz, rfl⟩
    refine ⟨s.copy disk mem, (readseg_iff hfits).mpr ⟨hfar, rfl⟩, ?_⟩
    rw [hfilesz', hmemsz']
    by_cases hlt : s.filesz < s.memsz
    · rw [if_pos hlt]
      exact (hzero hlt).mpr ⟨hz, rfl⟩
    · rw [if_neg hlt, (hrest.resolve_left hlt).2]

/-! ## What is left of each segment -/

/-- Segments that stay away from an address do not change it. -/
lemma foldl_load_of_not_reaches {x : UInt32} {segs : List Segment} (hm : ∀ t ∈ segs, ¬ t.Mem x)
    (hr : ∀ t ∈ segs, ¬ t.Reaches x) : segs.foldl (Segment.load disk) mem x = mem x := by
  induction segs generalizing mem with
  | nil => rfl
  | cons t segs ih =>
    rw [List.foldl_cons, ih (fun u hu => hm u (List.mem_cons_of_mem t hu))
      (fun u hu => hr u (List.mem_cons_of_mem t hu)), Segment.load,
      if_neg (hm t List.mem_cons_self), if_neg (hr t List.mem_cons_self)]

/-- The last segment whose sectors include an address decides what is there. -/
lemma foldl_load_of_reaches {x : UInt32} {between behind : List Segment} {t : Segment}
    (hm : ∀ u ∈ between ++ t :: behind, ¬ u.Mem x) (ht : t.Reaches x)
    (hr : ∀ u ∈ behind, ¬ u.Reaches x) :
    (between ++ t :: behind).foldl (Segment.load disk) mem x = disk (SECTSIZE + t.source x) := by
  have hbehind : ∀ u ∈ behind, ¬ u.Mem x := fun u hu =>
    hm u (List.mem_append_right _ (List.mem_cons_of_mem t hu))
  rw [List.foldl_append, List.foldl_cons, foldl_load_of_not_reaches hbehind hr, Segment.load,
    if_neg (hm t (List.mem_append_right _ List.mem_cons_self)), if_pos ht]

/-- There is a last segment whose sectors include an address, or there is none. -/
lemma exists_last_reaching (x : UInt32) (segs : List Segment) :
    (∀ u ∈ segs, ¬ u.Reaches x) ∨ ∃ between t behind, segs = between ++ t :: behind ∧
      t.Reaches x ∧ ∀ u ∈ behind, ¬ u.Reaches x := by
  induction segs with
  | nil => exact Or.inl fun u hu => absurd hu List.not_mem_nil
  | cons s segs ih =>
    rcases ih with hnone | ⟨between, t, behind, hl, ht, hr⟩
    · by_cases hs : s.Reaches x
      · exact Or.inr ⟨[], s, segs, rfl, hs, hnone⟩
      · refine Or.inl fun u hu => ?_
        rcases List.mem_cons.mp hu with rfl | hu
        · exact hs
        · exact hnone u hu
    · exact Or.inr ⟨s :: between, t, behind, by rw [hl]; rfl, ht, hr⟩

/-! ## All segments -/

/-- Memory with the first page of the file in the scratch space. -/
def firstPage (disk : ℕ → UInt8) (mem : UInt32 → UInt8) : UInt32 → UInt8 := fun x =>
  if (x - SCRATCH).toNat < 4096 then kernelFile disk (x - SCRATCH) else mem x

lemma firstPage_apply {c : UInt32} (hc : c.toNat < 4096) :
    firstPage disk mem (SCRATCH + c) = kernelFile disk c := by
  have hsub : SCRATCH + c - SCRATCH = c := by rw [UInt32.add_comm, UInt32.add_sub_cancel]
  rw [firstPage, hsub, if_pos hc]

/-- A byte of the scratch space is that of the file where the segments keep it. -/
lemma foldl_load_firstPage (hw : WellFormed disk) {segs : List Segment}
    (hsegs : ∀ s ∈ segs, s ∈ segments disk) {c : UInt32} (hc : c.toNat < 4096)
    (hkeep : Keeps disk segs (SCRATCH + c)) :
    segs.foldl (Segment.load disk) (firstPage disk mem) (SCRATCH + c) = kernelFile disk c := by
  have hscratch : (SCRATCH + c).toNat = 0x10000 + c.toNat := by
    rw [UInt32.toNat_add, show SCRATCH.toNat = 0x10000 from rfl]
    omega
  have hout : ∀ s ∈ segs, ¬ s.Mem (SCRATCH + c) := fun s hs hm =>
    hw.scratch s (hsegs s hs) _ hm ⟨by omega, by omega⟩
  rcases exists_last_reaching (SCRATCH + c) segs with hnone | ⟨front, t, behind, rfl, ht, hr⟩
  · rw [foldl_load_of_not_reaches hout hnone, firstPage_apply hc]
  · rw [foldl_load_of_reaches hout ht hr, hkeep front t behind rfl ht hr, UInt32.add_comm,
      UInt32.add_sub_cancel]

lemma toNat_headerAt (hw : WellFormed disk) {k : ℕ} (hk : k ≤ phnum disk) :
    (headerAt disk k).toNat = (phoff disk).toNat + 32 * k := by
  have hheaders := hw.headers
  have h32 : (32 : UInt32).toNat = 32 := rfl
  have hof : (UInt32.ofNat k).toNat = k :=
    UInt32.toNat_ofNat_of_lt' (by simp only [UInt32.size]; omega)
  rw [headerAt, UInt32.toNat_add, UInt32.toNat_mul, h32, hof]
  omega

lemma toNat_header (hw : WellFormed disk) {k : ℕ} (hk : k ≤ phnum disk) :
    (SCRATCH + headerAt disk k).toNat = 0x10000 + (phoff disk).toNat + 32 * k := by
  have hheaders := hw.headers
  rw [UInt32.toNat_add, toNat_headerAt hw hk, show SCRATCH.toNat = 0x10000 from rfl]
  omega

/-- A number in a program header, with some of the segments loaded. -/
lemma uintAt_header (mem : UInt32 → UInt8) (hw : WellFormed disk) {segs : List Segment}
    (hsegs : ∀ s ∈ segs, s ∈ segments disk) {k : ℕ} (hk : k < phnum disk) {c : UInt32}
    (hc : c.toNat + 4 ≤ 32)
    (hkeep : ∀ i : UInt32, i.toNat < 4 → Keeps disk segs (SCRATCH + headerAt disk k + (c + i))) :
    uintAt (segs.foldl (Segment.load disk) (firstPage disk mem)) (SCRATCH + headerAt disk k + c) =
      uintAt (kernelFile disk) (headerAt disk k + c) := by
  have hheaders := hw.headers
  have hheader := toNat_headerAt hw hk.le
  refine uintAt_congr fun i hi => ?_
  have hx : (headerAt disk k + c + i).toNat = (headerAt disk k).toNat + c.toNat + i.toNat := by
    rw [UInt32.toNat_add, UInt32.toNat_add]
    omega
  have haddr : SCRATCH + headerAt disk k + c + i = SCRATCH + (headerAt disk k + c + i) := by
    simp only [UInt32.add_assoc]
  rw [haddr]
  refine foldl_load_firstPage hw hsegs (by omega) ?_
  have := hkeep i hi
  simpa only [UInt32.add_assoc] using this

lemma mem_segments {k : ℕ} (hk : k < phnum disk) :
    segmentAt disk (headerAt disk k) ∈ segments disk :=
  List.mem_map.mpr ⟨k, List.mem_range.mpr hk, rfl⟩

lemma take_succ_segments {k : ℕ} (hk : k < phnum disk) : (segments disk).take (k + 1) =
    (segments disk).take k ++ [segmentAt disk (headerAt disk k)] := by
  rw [List.take_add_one, segments, List.getElem?_map, List.getElem?_range hk]
  rfl

/-- The turn of the loop for the `k`-th header, with the segments before it loaded. -/
lemma bootSegment_header (hw : WellFormed disk) (hc : Clear disk) {k : ℕ} (hk : k < phnum disk) :
    bootSegment l disk (SCRATCH + headerAt disk k)
        (((segments disk).take k).foldl (Segment.load disk) (firstPage disk mem)) = some mem' ↔
      (segmentAt disk (headerAt disk k)).Spares l ∧
        mem' = ((segments disk).take (k + 1)).foldl (Segment.load disk) (firstPage disk mem) := by
  obtain ⟨hfits, hbefore, hafter⟩ := hc k hk
  have hs := mem_segments hk
  have hsub : ∀ n, ∀ s ∈ (segments disk).take n, s ∈ segments disk := fun _ _ h =>
    List.mem_of_mem_take h
  have hsum : ∀ c i : UInt32, c.toNat + 4 ≤ 32 → i.toNat < 4 → (c + i).toNat = c.toNat + i.toNat :=
    fun c i hc hi => by
      rw [UInt32.toNat_add]
      omega
  have hread : ∀ c : UInt32, c = 4 ∨ c = 12 ∨ c = 16 →
      uintAt (((segments disk).take k).foldl (Segment.load disk) (firstPage disk mem))
        (SCRATCH + headerAt disk k + c) = uintAt (kernelFile disk) (headerAt disk k + c) := by
    intro c hc
    have hle : c.toNat = 4 ∨ c.toNat = 12 ∨ c.toNat = 16 := by
      rcases hc with rfl | rfl | rfl <;> simp
    refine uintAt_header mem hw (hsub k) hk (by omega) fun i hi => hbefore _ ?_
    rw [hsum c i (by omega) hi]
    omega
  -- when its sectors are there, its own header is read once more
  have hscratch : ∀ c : UInt32, c.toNat < 32 → (segmentAt disk (headerAt disk k)).copy disk
      (((segments disk).take k).foldl (Segment.load disk) (firstPage disk mem))
        (SCRATCH + headerAt disk k + c) =
      ((segments disk).take (k + 1)).foldl (Segment.load disk) (firstPage disk mem)
        (SCRATCH + headerAt disk k + c) := by
    intro c hc
    have hheader := toNat_header hw hk.le
    have hheaders := hw.headers
    have haddr : (SCRATCH + headerAt disk k + c).toNat =
        0x10000 + (phoff disk).toNat + 32 * k + c.toNat := by
      rw [UInt32.toNat_add, hheader]
      omega
    rw [take_succ_segments hk, List.foldl_append, List.foldl_cons, List.foldl_nil, Segment.load,
      if_neg fun hm => hw.scratch _ hs _ hm ⟨by omega, by omega⟩, Segment.copy]
  have hagain : ∀ c : UInt32, c = 16 ∨ c = 20 →
      uintAt ((segmentAt disk (headerAt disk k)).copy disk
        (((segments disk).take k).foldl (Segment.load disk) (firstPage disk mem)))
        (SCRATCH + headerAt disk k + c) = uintAt (kernelFile disk) (headerAt disk k + c) := by
    intro c hc
    have hle : c.toNat = 16 ∨ c.toNat = 20 := by rcases hc with rfl | rfl <;> simp
    rw [← uintAt_header mem hw (hsub (k + 1)) hk (by omega) fun i hi => hafter _ ?_ ?_]
    · refine uintAt_congr fun i hi => ?_
      rw [UInt32.add_assoc]
      exact hscratch _ (by rw [hsum c i (by omega) hi]; omega)
    · rw [hsum c i (by omega) hi]
      omega
    · rw [hsum c i (by omega) hi]
      omega
  rw [bootSegment_iff hfits (hw.filesz _ hs) (hw.nowrap _ hs) (hread 4 (by simp))
    (hread 12 (by simp)) (hread 16 (by simp)) (hagain 16 (by simp)) (hagain 20 (by simp)),
    take_succ_segments hk, List.foldl_append, List.foldl_cons, List.foldl_nil]

/-- The loop of `bootmain` loads the segments one after another. -/
lemma bootLoop_iff (l : Loader) (mem mem' : UInt32 → UInt8) (hw : WellFormed disk) (hc : Clear disk)
    {eph : UInt32} (heph : eph.toNat = 0x10000 + (phoff disk).toNat + 32 * phnum disk)
    {k r turns : ℕ}
    (hk : k + r = phnum disk) (hturns : r < turns) :
    bootLoop l disk eph turns (SCRATCH + headerAt disk k)
        (((segments disk).take k).foldl (Segment.load disk) (firstPage disk mem)) = some mem' ↔
      (∀ s ∈ (segments disk).drop k, s.Spares l) ∧
        mem' = (segments disk).foldl (Segment.load disk) (firstPage disk mem) := by
  have hlength : (segments disk).length = phnum disk := by simp [segments]
  induction r generalizing k turns with
  | zero =>
    obtain ⟨turns, rfl⟩ := Nat.exists_eq_succ_of_ne_zero (Nat.ne_of_gt hturns)
    have hge : ¬ SCRATCH + headerAt disk k < eph := by
      rw [UInt32.lt_iff_toNat_lt, toNat_header hw (by omega), heph]
      omega
    rw [bootLoop, if_neg hge, List.take_of_length_le (by omega), List.drop_of_length_le (by omega),
      Option.some.injEq, eq_comm, and_iff_right fun s hs => absurd hs List.not_mem_nil]
  | succ r ih =>
    obtain ⟨turns, rfl⟩ := Nat.exists_eq_succ_of_ne_zero (Nat.ne_zero_of_lt hturns)
    have hlt : k < phnum disk := by omega
    have hheader := toNat_header hw hlt.le
    have hltp : SCRATCH + headerAt disk k < eph := by
      rw [UInt32.lt_iff_toNat_lt, hheader, heph]
      omega
    have hnext : SCRATCH + headerAt disk k + 32 = SCRATCH + headerAt disk (k + 1) := by
      have hheaders := hw.headers
      rw [← UInt32.toNat_inj, UInt32.toNat_add, hheader, toNat_header hw hlt,
        show (32 : UInt32).toNat = 32 from rfl]
      omega
    have hdrop : (segments disk).drop k =
        segmentAt disk (headerAt disk k) :: (segments disk).drop (k + 1) := by
      rw [List.drop_eq_getElem_cons (by omega)]
      simp [segments]
    rw [bootLoop, if_pos hltp, Option.bind_eq_some_iff, hdrop, List.forall_mem_cons, and_assoc]
    simp only [bootSegment_header hw hc hlt]
    constructor
    · rintro ⟨m, ⟨hspares, rfl⟩, hm⟩
      rw [hnext] at hm
      exact ⟨hspares, (ih (by omega) (by omega)).mp hm⟩
    · rintro ⟨hspares, hrest⟩
      refine ⟨_, ⟨hspares, rfl⟩, ?_⟩
      rw [hnext]
      exact (ih (by omega) (by omega)).mpr hrest

lemma readseg_firstPage (l : Loader) (mem : UInt32 → UInt8) :
    readseg l disk SCRATCH 4096 0 mem = some (firstPage disk mem) := by
  have hfits : (Segment.mk 0 SCRATCH 4096 4096).Fits := ⟨Nat.zero_le _, by decide⟩
  have hs : SCRATCH.toNat = 0x10000 := rfl
  have hiff : ∀ x, (Segment.mk 0 SCRATCH 4096 4096).Reaches x ↔ (x - SCRATCH).toNat < 4096 := by
    intro x
    rw [toNat_sub_lt_iff (by decide)]
    exact Iff.rfl
  refine (readseg_iff hfits).mpr ⟨fun x hm hr => ?_, funext fun x => ?_⟩
  · have hlow := hm.2
    have hcode := l.code_le
    have hhigh := ((toNat_sub_lt_iff (by decide)).mp ((hiff x).mp hr)).1
    simp only [SECTSIZE, START] at hcode hlow
    omega
  · simp only [Segment.copy, firstPage, hiff]
    split_ifs with hx
    · obtain ⟨hlo, -⟩ := (toNat_sub_lt_iff (by decide)).mp hx
      have hsub : (x - SCRATCH).toNat = 0 + x.toNat - 0x10000 := by
        have := x.toNat_lt
        rw [UInt32.toNat_sub, hs]
        omega
      rw [kernelFile, hsub]
      rfl
    · rfl

lemma uintAt_firstPage {c : UInt32} (hc : c.toNat + 4 ≤ 4096) :
    uintAt (firstPage disk mem) (SCRATCH + c) = uintAt (kernelFile disk) c := by
  refine uintAt_congr fun i hi => ?_
  rw [UInt32.add_assoc]
  refine firstPage_apply ?_
  rw [UInt32.toNat_add]
  omega

lemma ushortAt_firstPage {c : UInt32} (hc : c.toNat + 2 ≤ 4096) :
    ushortAt (firstPage disk mem) (SCRATCH + c) = ushortAt (kernelFile disk) c := by
  have hone : (1 : UInt32).toNat = 1 := rfl
  refine ushortAt_congr (firstPage_apply (by omega)) ?_
  rw [UInt32.add_assoc]
  refine firstPage_apply ?_
  rw [UInt32.toNat_add, hone]
  omega

/-- `bootmain` loads the segments one after another, unless one of them is stored over the
loader. -/
lemma bootmain_iff (hw : WellFormed disk) (hc : Clear disk) :
    bootmain l disk mem = some mem' ↔ (∀ s ∈ segments disk, s.Spares l) ∧
      mem' = (segments disk).foldl (Segment.load disk) (firstPage disk mem) := by
  have hheaders := hw.headers
  have hmagic : uintAt (firstPage disk mem) SCRATCH = ELF_MAGIC := by
    have h : uintAt (firstPage disk mem) (SCRATCH + 0) = _ := uintAt_firstPage (by decide)
    rwa [UInt32.add_zero, hw.magic] at h
  have hstart : SCRATCH + phoff disk = SCRATCH + headerAt disk 0 := by
    rw [headerAt]
    simp
  have hnum : phnum disk < 2 ^ 16 := by omega
  have heph : (SCRATCH + phoff disk + 32 * ushortAt (kernelFile disk) 44).toNat
      = 0x10000 + (phoff disk).toNat + 32 * phnum disk := by
    have h32 : (32 : UInt32).toNat = 32 := rfl
    have hs : SCRATCH.toNat = 0x10000 := rfl
    have hn : (ushortAt (kernelFile disk) 44).toNat = phnum disk := rfl
    rw [UInt32.toNat_add, UInt32.toNat_add, UInt32.toNat_mul, h32, hs, hn]
    omega
  rw [bootmain, readseg_firstPage, Option.bind_some, hmagic, if_neg (not_not.mpr rfl),
    uintAt_firstPage (by decide), ushortAt_firstPage (by decide)]
  show bootLoop l disk (SCRATCH + phoff disk + 32 * ushortAt (kernelFile disk) 44) (2 ^ 16)
    (SCRATCH + phoff disk) (firstPage disk mem) = some mem' ↔ _
  have hloop := bootLoop_iff l mem mem' hw hc heph (Nat.zero_add _) hnum
  rwa [← hstart, List.take_zero, List.foldl_nil, List.drop_zero] at hloop

lemma loaded_iff (hw : WellFormed disk) {mem : UInt32 → UInt8} :
    Loaded disk mem ↔ ∀ s ∈ segments disk, ∀ x, s.Mem x → mem x = s.byte disk x := by
  have haddr : ∀ s ∈ segments disk, ∀ i < s.memsz.toNat,
      (s.paddr + UInt32.ofNat i).toNat = s.paddr.toNat + i := by
    intro s hs i hi
    have hnowrap := hw.nowrap s hs
    have hlt := s.memsz.toNat_lt
    have hof : (UInt32.ofNat i).toNat = i :=
      UInt32.toNat_ofNat_of_lt' (by simp only [UInt32.size]; omega)
    rw [UInt32.toNat_add, hof]
    omega
  constructor
  · intro h s hs x hx
    obtain ⟨hlo, hhi⟩ := hx
    have hi : x.toNat - s.paddr.toNat < s.memsz.toNat := by omega
    have hxi : s.paddr + UInt32.ofNat (x.toNat - s.paddr.toNat) = x := by
      rw [← UInt32.toNat_inj, haddr s hs _ hi]
      omega
    obtain ⟨hfile, hzero⟩ := h s hs (x.toNat - s.paddr.toNat)
    rw [hxi] at hfile hzero
    rw [Segment.byte]
    split_ifs with hlt
    · rw [hfile (by omega), Segment.source, Nat.add_sub_assoc hlo]
    · exact hzero (by omega) hi
  · intro h s hs i
    have hle := hw.filesz s hs
    refine ⟨fun hi => ?_, fun hlo hi => ?_⟩
    · have hx := haddr s hs i (by omega)
      rw [h s hs _ ⟨by omega, by omega⟩, Segment.byte, if_pos (by omega), Segment.source, hx]
      exact congrArg disk (by omega)
    · have hx := haddr s hs i hi
      rw [h s hs _ ⟨by omega, by omega⟩, Segment.byte, if_neg (by omega)]

/-- No harm is done if no sector of a later segment reaches back to an earlier one. -/
lemma benign_of_apart
    (h : (segments disk).Pairwise fun s t => ∀ x, s.Mem x → ¬ t.Reaches x) : Benign disk := by
  intro before s between t behind hl x hx ht _
  rw [hl, List.pairwise_append] at h
  exact absurd ht ((List.pairwise_cons.mp h.2.1).1 t (by simp) x hx)

/-- A disk with a kernel of two segments of 16 bytes each.  The second one begins in the file at
`0x1200 + lo`. -/
def twoSegments (lo : UInt8) : ℕ → UInt8
  -- the ELF header
  | 512 => 0x7f | 513 => 0x45 | 514 => 0x4c | 515 => 0x46
  | 540 => 52 | 556 => 2
  -- `off`, `paddr`, `filesz` and `memsz` of the first segment
  | 569 => 0x10 | 578 => 0x10 | 580 => 16 | 584 => 16
  -- and of the second one
  | 600 => lo | 601 => 0x12 | 608 => 0x10 | 610 => 0x10 | 612 => 16 | 616 => 16
  -- the first byte of the first segment
  | 4608 => 1
  | _ => 0

lemma segments_twoSegments {lo : UInt8} (h : lo = 0 ∨ lo = 0x20) :
    segments (twoSegments lo)
      = [⟨0x1000, 0x100000, 16, 16⟩, ⟨0x1200 + lo.toUInt32, 0x100010, 16, 16⟩] := by
  rcases h with rfl | rfl <;> decide +kernel

lemma wellFormed_twoSegments {lo : UInt8} (h : lo = 0 ∨ lo = 0x20) :
    WellFormed (twoSegments lo) := by
  have hs := segments_twoSegments h
  refine ⟨?_, ?_, ?_, ?_, ?_, ?_, ?_⟩
  · rcases h with rfl | rfl <;> decide +kernel
  · rcases h with rfl | rfl <;> decide +kernel
  · rw [hs]
    simp
  · rw [hs]
    simp
  · rw [hs]
    simp
  · rw [hs]
    simp [Segment.Mem]
    omega
  · intro s hmem x hx hscratch
    have hlow : 0x100000 ≤ s.paddr.toNat := by
      rw [hs] at hmem
      simp only [List.mem_cons, List.not_mem_nil, or_false] at hmem
      rcases hmem with rfl | rfl
      · decide
      · exact (show 0x100000 ≤ 0x100010 by decide)
    have := hx.1
    omega

/-- Both segments are in the second megabyte. -/
lemma far_twoSegments {lo : UInt8} (h : lo = 0 ∨ lo = 0x20) :
    ∀ s ∈ segments (twoSegments lo), s.Fits ∧
      ∀ x, s.Reaches x ∨ s.Mem x → 0xFFFF0 ≤ x.toNat := by
  intro s hmem
  have hlead : s.lead ≤ 0x20 ∧ s.sectors = 1 ∧ 0x100000 ≤ s.paddr.toNat ∧
      s.paddr.toNat ≤ 0x100010 ∧ (s.lead = 0 ∨ s.paddr.toNat = 0x100010) := by
    rw [segments_twoSegments h] at hmem
    simp only [List.mem_cons, List.not_mem_nil, or_false] at hmem
    rcases hmem with rfl | rfl
    · decide
    · rcases h with rfl | rfl <;> decide
  obtain ⟨hlead, hsectors, hlo, hhi, hfirst⟩ := hlead
  refine ⟨⟨by omega, by rw [hsectors]; simp only [SECTSIZE]; omega⟩, fun x hx => ?_⟩
  rcases hx with hx | hx
  · have := hx.1
    omega
  · have := hx.1
    omega

lemma clear_twoSegments {lo : UInt8} (h : lo = 0 ∨ lo = 0x20) : Clear (twoSegments lo) := by
  intro k hk
  -- no sector is stored to the scratch space
  have hkeeps : ∀ n (c : UInt32), c.toNat < 32 → Keeps (twoSegments lo)
      ((segments (twoSegments lo)).take n) (SCRATCH + headerAt (twoSegments lo) k + c) := by
    intro n c hc front t behind hl ht _
    have hmem : t ∈ (segments (twoSegments lo)).take n := by rw [hl]; simp
    have hfar := (far_twoSegments h t (List.mem_of_mem_take hmem)).2 _ (Or.inl ht)
    have hheaders := (wellFormed_twoSegments h).headers
    rw [UInt32.toNat_add, toNat_header (wellFormed_twoSegments h) hk.le] at hfar
    omega
  exact ⟨(far_twoSegments h _ (mem_segments hk)).1, fun c hc => hkeeps k c (by omega),
    fun c _ hc => hkeeps (k + 1) c (by omega)⟩

lemma spares_twoSegments {lo : UInt8} (h : lo = 0 ∨ lo = 0x20) (l : Loader) :
    ∀ s ∈ segments (twoSegments lo), s.Spares l := by
  intro s hs x hx
  have hlow : x.toNat < 0xFFFF0 := by
    have hcode := l.code_le
    have := hx.2
    simp only [SECTSIZE, START] at hcode this
    omega
  have hfar := (far_twoSegments h s hs).2 x
  exact ⟨fun hr => (hfar (Or.inl hr)).not_gt hlow, fun hm => (hfar (Or.inr hm)).not_gt hlow⟩

end Xv6
