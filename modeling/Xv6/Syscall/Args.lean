import Xv6.File.Code
import Xv6.Kernel.Mem
import Xv6.Lib.Monitor
import Xv6.Vm.Segments
import Mathlib.Data.List.TakeWhile

/-!
# System call arguments

The argument functions of `syscall.c` and the system calls on files, on the 32-bit words of the
caller.  User memory is loaded and stored one byte at a time, at physical addresses; everything
else that a system call does is kernel code, which may answer anything here.

`syscall_confined` says that the checks let through exactly what they are meant to let through, and
that no byte outside of the caller's memory is touched, wherever 32-bit sums wrap.

`confined` is a monitor in the sense of `Xv6.Lib.Monitor`: every load and store has to be at an
address of the caller, and a load answers what was stored there last.  There is one lemma for every
function, `obeys_argint`, `obeys_argptr` and so on, with the values it may return.  The kernel code
in between is run under `answers`, where every step may answer anything, but for a console read,
which brings no more bytes than it was asked for; `fileread_length` carries this over to what
`sys_read` copies out.
-/

namespace Xv6

open Lib

/-! ## Code that uses user memory -/

/-- A byte of user memory. -/
inductive UserOp
  | load (a : ℕ)
  | store (a : ℕ) (v : UInt8)

@[reducible] def UserOp.Ret : UserOp → Type
  | .load _ => UInt8
  | .store _ _ => Unit

/-- Kernel code that uses user memory. -/
abbrev U (α : Type) :=
  Prog (UserOp ⊕ (BioOp ⊕ MemOp)) (Sum.elim UserOp.Ret (Sum.elim BioOp.Ret MemOp.Ret)) α

/-- Kernel code that does not. -/
def U.kernel {α : Type} : K α → U α
  | .ret a => .ret a
  | .op e k => .op (.inr e) fun r => U.kernel (k r)

def loadByte (a : ℕ) : U UInt8 := Prog.op (.inl (.load a)) .ret

def storeByte (a : ℕ) (v : UInt8) : U Unit := Prog.op (.inl (.store a v)) .ret

/-- Load `n` bytes. -/
def loadBytes (a : UInt32) : ℕ → U (List UInt8)
  | 0 => pure []
  | n + 1 => do
    let b ← loadByte a.toNat
    let bs ← loadBytes (a + 1) n
    return b :: bs

def storeBytes (a : UInt32) : List UInt8 → U Unit
  | [] => pure ()
  | b :: bs => do
    storeByte a.toNat b
    storeBytes (a + 1) bs

/-- A process in a system call: its memory is a page from `kalloc`, without its kernel stack. -/
structure Caller where
  proc : Proc
  ofile : Ofile
  /-- `tf->esp`. -/
  esp : UInt32
  sz_eq : proc.sz = PGSIZE - KSTACKSIZE
  page : proc.offset + PGSIZE ≤ PHYSTOP

/-- A process that `allocproc` has made can call. -/
def ProcSys.Paged.caller {kend : ℕ} {s : ProcSys} {free used : List ℕ} (h : s.Paged kend free used)
    {i : Fin NPROC} (hi : (s.proc i).state ≠ .UNUSED) (ofile : Ofile) (esp : UInt32) : Caller where
  proc := s.proc i
  ofile := ofile
  esp := esp
  sz_eq := (h.laid i hi).sz
  page := (h.pool.page _ (List.mem_append_right _ (h.laid i hi).page)).below

namespace Caller

variable (c : Caller)

/-- `curproc->sz`. -/
def sz : UInt32 := UInt32.ofNat c.proc.sz

/-- `curproc->offset`. -/
def offset : UInt32 := UInt32.ofNat c.proc.offset

end Caller

/-! ## Arguments -/

def fetchint (c : Caller) (addr : UInt32) : U (Option UInt32) :=
  if c.sz ≤ addr ∨ c.sz < addr + 4 then pure none
  else do
    let l ← loadBytes (addr + c.offset) 4
    return some (UInt32.ofNat (Bytes.leNat 4 fun i => l.getD i 0))

/-- The loop of `fetchstr`: where the NUL is. -/
def scanNul (ep : UInt32) : ℕ → UInt32 → U (Option UInt32)
  | 0, _ => pure none
  | turns + 1, s =>
    if s < ep then do
      let b ← loadByte s.toNat
      if b = 0 then return some s else scanNul ep turns (s + 1)
    else pure none

/-- `fetchstr(addr, pp)`: `*pp` and the length. -/
def fetchstr (c : Caller) (addr : UInt32) : U (Option (UInt32 × UInt32)) :=
  if c.sz ≤ addr then pure none
  else do
    let pp := addr + c.offset
    let ep := c.sz + c.offset
    let s ← scanNul ep c.proc.sz pp
    return s.map fun s => (pp, s - pp)

/-- Where `argint(n, ip)` finds the argument. -/
def argAddr (c : Caller) (n : UInt32) : UInt32 := c.esp + 4 + 4 * n

def argint (c : Caller) (n : UInt32) : U (Option UInt32) := fetchint c (argAddr c n)

/-- A 32-bit word is negative as an `int`. -/
def negative (x : UInt32) : Bool := decide (2 ^ 31 ≤ x.toNat)

def argptr (c : Caller) (n size : UInt32) : U (Option UInt32) := do
  match ← argint c n with
  | none => return none
  | some i =>
    if negative size ∨ c.sz ≤ i ∨ c.sz < i + size then return none
    else return some (i + c.offset)

def argstr (c : Caller) (n : UInt32) : U (Option (UInt32 × UInt32)) := do
  match ← argint c n with
  | none => return none
  | some addr => fetchstr c addr

def argfd (c : Caller) (n : UInt32) : U (Option (Fin NOFILE × Fin NFILE)) := do
  match ← argint c n with
  | none => return none
  | some fd =>
    if h : fd.toNat < NOFILE then return (c.ofile ⟨fd.toNat, h⟩).map fun f => (⟨fd.toNat, h⟩, f)
    else return none

/-! ## System calls -/

/-- The result `-1`. -/
abbrev EINVAL : ℤ := -1

def sysRead (c : Caller) : U ℤ := do
  match ← argfd c 0 with
  | none => return EINVAL
  | some (_, f) =>
    match ← argint c 2 with
    | none => return EINVAL
    | some n =>
      match ← argptr c 1 n with
      | none => return EINVAL
      | some p =>
        match ← U.kernel (fileread f n.toNat) with
        | none => return EINVAL
        | some got =>
          storeBytes p got
          return got.length

def sysWrite (c : Caller) : U ℤ := do
  match ← argfd c 0 with
  | none => return EINVAL
  | some (_, f) =>
    match ← argint c 2 with
    | none => return EINVAL
    | some n =>
      match ← argptr c 1 n with
      | none => return EINVAL
      | some p =>
        let src ← loadBytes p n.toNat
        match ← U.kernel (filewrite f src) with
        | none => return EINVAL
        | some n => return n

/-- `sys_close()`, and the descriptors afterwards. -/
def sysCloseCall (c : Caller) : U (ℤ × Ofile) := do
  match ← argfd c 0 with
  | none => return (EINVAL, c.ofile)
  | some (fd, f) =>
    let o ← U.kernel (sysClose c.ofile fd f)
    return (0, o)

/-- The string in front of the first NUL. -/
def CString.of (l : List UInt8) : CString :=
  ⟨l.takeWhile (· ≠ 0), fun h => by simpa using List.mem_takeWhile_imp h⟩

/-- `sys_open()`, and the descriptors afterwards.  `namex` reads the path, up to its NUL. -/
def sysOpenCall (c : Caller) : U (ℤ × Ofile) := do
  match ← argstr c 0 with
  | none => return (EINVAL, c.ofile)
  | some (path, len) =>
    match ← argint c 1 with
    | none => return (EINVAL, c.ofile)
    | some omode =>
      let l ← loadBytes path (len.toNat + 1)
      let (fd, o) ← U.kernel (sysOpen c.ofile (CString.of l) omode)
      return (match fd with
        | none => EINVAL
        | some fd => (fd : ℕ), o)

/-! ## The monitor -/

/-- The caller's memory, with what a console read can answer. -/
def confined (c : Caller) : Monitor (UserOp ⊕ (BioOp ⊕ MemOp))
    (Sum.elim UserOp.Ret (Sum.elim BioOp.Ret MemOp.Ret)) (ℕ → UInt8) where
  ok
    | _, .inl (.load a) => c.proc.InUser a
    | _, .inl (.store a _) => c.proc.InUser a
    | _, .inr _ => True
  ans
    | m, .inl (.load a), v => v = m a
    | _, .inr (.inr (.consoleread n)), got => List.length got ≤ n
    | _, _, _ => True
  next
    | m, .inl (.store a v), _ => Function.update m a v
    | m, _, _ => m

section

variable {α : Type} {c : Caller} {m : ℕ → UInt8} {Q : α → (ℕ → UInt8) → Prop}

lemma Caller.toNat_sz (c : Caller) : c.sz.toNat = c.proc.sz := by
  rw [Caller.sz, UInt32.toNat_ofNat', c.sz_eq]
  rfl

lemma Caller.toNat_offset (c : Caller) : c.offset.toNat = c.proc.offset := by
  have h := c.page
  rw [Caller.offset, UInt32.toNat_ofNat']
  simp only [PGSIZE, PHYSTOP] at h
  omega

lemma Caller.bounds (c : Caller) : c.proc.sz = 0xFF000 ∧ c.proc.offset + 0x100000 ≤ 0xE000000 :=
  ⟨c.sz_eq, c.page⟩

/-! ## Loads and stores -/

lemma obeys_loadByte {a : ℕ} {f : UInt8 → U α} (ha : c.proc.InUser a)
    (hf : (f (m a)).Obeys (confined c) Q m) : (loadByte a >>= f).Obeys (confined c) Q m := by
  refine ⟨ha, ?_⟩
  rintro r rfl
  exact hf

lemma obeys_storeByte {a : ℕ} {v : UInt8} {f : Unit → U α} (ha : c.proc.InUser a)
    (hf : (f ()).Obeys (confined c) Q (Function.update m a v)) :
    (storeByte a v >>= f).Obeys (confined c) Q m :=
  ⟨ha, fun _ _ => hf⟩

lemma toNat_succ {a : UInt32} (h : a.toNat < c.proc.offset + c.proc.sz) :
    (a + 1).toNat = a.toNat + 1 := by
  obtain ⟨hsz, hoff⟩ := c.bounds
  rw [UInt32.toNat_add]
  simp only [UInt32.reduceToNat]
  omega

lemma obeys_loadBytes {a : UInt32} {n : ℕ} (h₁ : c.proc.offset ≤ a.toNat)
    (h₂ : a.toNat + n ≤ c.proc.offset + c.proc.sz) :
    (loadBytes a n).Obeys (confined c)
      (fun l m' => m' = m ∧ l = (List.range n).map fun i => m (a.toNat + i)) m := by
  induction n generalizing a with
  | zero => exact ⟨rfl, rfl⟩
  | succ n ih =>
    have hnext : (a + 1).toNat = a.toNat + 1 := toNat_succ (c := c) (by omega)
    refine obeys_loadByte ⟨h₁, by omega⟩ (Prog.Obeys.seq (ih (a := a + 1) ?_ ?_) ?_)
    · omega
    · omega
    · rintro l m' ⟨rfl, rfl⟩
      refine ⟨rfl, ?_⟩
      rw [List.range_succ_eq_map, List.map_cons, List.map_map, hnext, Nat.add_zero]
      congr 1
      refine List.map_congr_left fun i _ => ?_
      simp only [Function.comp_apply]
      congr 1
      omega

lemma obeys_storeBytes {a : UInt32} {l : List UInt8} (h₁ : c.proc.offset ≤ a.toNat)
    (h₂ : a.toNat + l.length ≤ c.proc.offset + c.proc.sz) :
    (storeBytes a l).Obeys (confined c) (fun _ _ => True) m := by
  induction l generalizing a m with
  | nil => trivial
  | cons b l ih =>
    rw [List.length_cons] at h₂
    have hnext : (a + 1).toNat = a.toNat + 1 := toNat_succ (c := c) (by omega)
    refine obeys_storeByte ⟨h₁, by omega⟩ (ih (a := a + 1) ?_ ?_)
    · omega
    · omega

/-! ## Arguments -/

/-- The word at an address of the caller. -/
def Caller.word (c : Caller) (m : ℕ → UInt8) (a : ℕ) : UInt32 :=
  UInt32.ofNat (Bytes.leNat 4 fun i => m (c.proc.offset + a + i))

lemma obeys_fetchint (addr : UInt32) :
    (fetchint c addr).Obeys (confined c) (fun r m' => m' = m ∧
      r = if addr.toNat + 4 ≤ c.proc.sz then some (c.word m addr.toNat) else none) m := by
  obtain ⟨hsz, hoff⟩ := c.bounds
  have hsz' := c.toNat_sz
  have hoff' := c.toNat_offset
  have haddr := addr.toNat_lt
  have htest : (c.sz ≤ addr ∨ c.sz < addr + 4) ↔ ¬ addr.toNat + 4 ≤ c.proc.sz := by
    rw [UInt32.le_iff_toNat_le, UInt32.lt_iff_toNat_lt, UInt32.toNat_add, hsz']
    simp only [UInt32.reduceToNat]
    omega
  unfold fetchint
  by_cases h : addr.toNat + 4 ≤ c.proc.sz
  · rw [if_neg (by rw [htest]; exact not_not.mpr h), if_pos h]
    have hphys : (addr + c.offset).toNat = c.proc.offset + addr.toNat := by
      rw [UInt32.toNat_add, hoff']
      omega
    refine Prog.Obeys.seq (obeys_loadBytes (m := m) ?_ ?_) ?_
    · omega
    · omega
    · rintro l m' ⟨rfl, rfl⟩
      refine ⟨rfl, congrArg some (congrArg UInt32.ofNat (Bytes.leNat_congr fun i hi => ?_))⟩
      rw [List.getD_eq_getElem?_getD, List.getElem?_map, List.getElem?_range hi, hphys]
      rfl
  · rw [if_pos (htest.mpr h), if_neg h]
    exact ⟨rfl, rfl⟩

/-- `s` is the first NUL from `a` on, below `e`. -/
def FirstNul (m : ℕ → UInt8) (a e s : ℕ) : Prop :=
  a ≤ s ∧ s < e ∧ m s = 0 ∧ ∀ x, a ≤ x → x < s → m x ≠ 0

lemma obeys_scanNul {ep : UInt32} (hep : ep.toNat = c.proc.offset + c.proc.sz) {turns : ℕ}
    {s : UInt32} (hs : c.proc.offset ≤ s.toNat) (hturns : ep.toNat ≤ s.toNat + turns) :
    (scanNul ep turns s).Obeys (confined c) (fun r m' => m' = m ∧
      match r with
      | some t => FirstNul m s.toNat ep.toNat t.toNat
      | none => ∀ x, s.toNat ≤ x → x < ep.toNat → m x ≠ 0) m := by
  -- `ep` is the end of the caller's memory, and the scan has a turn for every byte up to it
  induction turns generalizing s with
  | zero => exact ⟨rfl, fun x h₁ h₂ => absurd h₂ (by omega)⟩
  | succ turns ih =>
    unfold scanNul
    by_cases hlt : s < ep
    · have hlt' := UInt32.lt_iff_toNat_lt.mp hlt
      have hnext : (s + 1).toNat = s.toNat + 1 := toNat_succ (c := c) (by omega)
      rw [if_pos hlt]
      refine obeys_loadByte ⟨hs, by omega⟩ ?_
      by_cases hb : m s.toNat = 0
      · rw [if_pos hb]
        exact ⟨rfl, le_rfl, hlt', hb, fun x h₁ h₂ => absurd h₂ (by omega)⟩
      · rw [if_neg hb]
        refine (ih (s := s + 1) (by omega) (by omega)).mono ?_
        rintro r m' ⟨rfl, hr⟩
        refine ⟨rfl, ?_⟩
        have hfirst : ∀ x, s.toNat ≤ x → x < s.toNat + 1 → m' x ≠ 0 := fun x h₁ h₂ => by
          rw [show x = s.toNat by omega]
          exact hb
        rw [hnext] at hr
        cases r with
        | none =>
          intro x h₁ h₂
          rcases Nat.lt_or_ge x (s.toNat + 1) with hx | hx
          · exact hfirst x h₁ hx
          · exact hr x hx h₂
        | some t =>
          obtain ⟨h₁, h₂, h₃, h₄⟩ := hr
          refine ⟨by omega, h₂, h₃, fun x hx hxt => ?_⟩
          rcases Nat.lt_or_ge x (s.toNat + 1) with hx' | hx'
          · exact hfirst x hx hx'
          · exact h₄ x hx' hxt
    · rw [if_neg hlt]
      have hge : ¬ s.toNat < ep.toNat := fun h => hlt (UInt32.lt_iff_toNat_lt.mpr h)
      exact ⟨rfl, fun x h₁ h₂ => absurd h₂ (by omega)⟩

lemma obeys_fetchstr (addr : UInt32) :
    (fetchstr c addr).Obeys (confined c) (fun r m' => m' = m ∧
      match r with
      | some (p, len) => p.toNat = c.proc.offset + addr.toNat ∧
          FirstNul m p.toNat (c.proc.offset + c.proc.sz) (p.toNat + len.toNat)
      | none => ∀ x, addr.toNat ≤ x → x < c.proc.sz → m (c.proc.offset + x) ≠ 0) m := by
  obtain ⟨hsz, hoff⟩ := c.bounds
  have hsz' := c.toNat_sz
  have hoff' := c.toNat_offset
  unfold fetchstr
  by_cases h : c.sz ≤ addr
  · rw [if_pos h]
    rw [UInt32.le_iff_toNat_le, hsz'] at h
    exact ⟨rfl, fun x h₁ h₂ => absurd h₂ (by omega)⟩
  · rw [if_neg h]
    have hlt : addr.toNat < c.proc.sz := by
      rw [UInt32.le_iff_toNat_le, hsz'] at h
      omega
    -- neither of the two sums wraps: the process ends below the end of the address space
    have hep : (c.sz + c.offset).toNat = c.proc.offset + c.proc.sz := by
      rw [UInt32.toNat_add, hoff', hsz']
      omega
    have hpp : (addr + c.offset).toNat = c.proc.offset + addr.toNat := by
      rw [UInt32.toNat_add, hoff']
      omega
    refine Prog.Obeys.seq (obeys_scanNul (m := m) hep ?_ ?_) ?_
    · omega
    · omega
    · rintro r m' ⟨rfl, hr⟩
      refine ⟨rfl, ?_⟩
      cases r with
      | none =>
        intro x h₁ h₂
        exact hr (c.proc.offset + x) (by omega) (by omega)
      | some t =>
        have hdist : (addr + c.offset).toNat + (t - (addr + c.offset)).toNat = t.toNat := by
          have h₁ := hr.1
          have h₂ := t.toNat_lt
          rw [UInt32.toNat_sub]
          omega
        refine ⟨hpp, ?_⟩
        rw [hdist, ← hep]
        exact hr

/-- The argument word can be fetched. -/
def Caller.HasArg (c : Caller) (n : UInt32) : Prop := (argAddr c n).toNat + 4 ≤ c.proc.sz

/-- The argument word. -/
def Caller.arg (c : Caller) (m : ℕ → UInt8) (n : UInt32) : UInt32 := c.word m (argAddr c n).toNat

/-- The test of `argptr`, on unbounded integers. -/
def Caller.PtrOk (c : Caller) (m : ℕ → UInt8) (n size : UInt32) : Prop :=
  c.HasArg n ∧ size.toNat < 2 ^ 31 ∧ (c.arg m n).toNat < c.proc.sz ∧
    (c.arg m n).toNat + size.toNat ≤ c.proc.sz

lemma obeys_argint (n : UInt32) :
    (argint c n).Obeys (confined c) (fun r m' => m' = m ∧
      (c.HasArg n ∧ r = some (c.arg m n) ∨ ¬ c.HasArg n ∧ r = none)) m := by
  refine (obeys_fetchint (argAddr c n)).mono ?_
  rintro r m' ⟨rfl, rfl⟩
  refine ⟨rfl, ?_⟩
  by_cases h : (argAddr c n).toNat + 4 ≤ c.proc.sz
  · exact .inl ⟨h, if_pos h⟩
  · exact .inr ⟨h, if_neg h⟩

lemma obeys_argptr (n size : UInt32) :
    (argptr c n size).Obeys (confined c) (fun r m' => m' = m ∧
      match r with
      | some p => c.PtrOk m n size ∧ p.toNat = c.proc.offset + (c.arg m n).toNat
      | none => ¬ c.PtrOk m n size) m := by
  obtain ⟨hsz, hoff⟩ := c.bounds
  have hsz' := c.toNat_sz
  have hoff' := c.toNat_offset
  refine Prog.Obeys.seq (obeys_argint (m := m) n) ?_
  rintro r m' ⟨rfl, ⟨harg, rfl⟩ | ⟨harg, rfl⟩⟩
  · have hi := (c.arg m' n).toNat_lt
    have htest : (negative size ∨ c.sz ≤ c.arg m' n ∨ c.sz < c.arg m' n + size) ↔
        ¬ c.PtrOk m' n size := by
      have hn := size.toNat_lt
      rw [UInt32.le_iff_toNat_le, UInt32.lt_iff_toNat_lt, UInt32.toNat_add, hsz', Caller.PtrOk,
        negative, decide_eq_true_iff]
      simp only [harg, true_and]
      omega
    simp only
    by_cases h : c.PtrOk m' n size
    · rw [if_neg (by rw [htest]; exact not_not.mpr h)]
      refine ⟨rfl, h, ?_⟩
      have hlt := h.2.2.1
      rw [UInt32.toNat_add, hoff']
      omega
    · rw [if_pos (htest.mpr h)]
      exact ⟨rfl, h⟩
  · exact ⟨rfl, fun h => harg h.1⟩

lemma obeys_argstr (n : UInt32) :
    (argstr c n).Obeys (confined c) (fun r m' => m' = m ∧
      match r with
      | some (p, len) => c.HasArg n ∧ p.toNat = c.proc.offset + (c.arg m n).toNat ∧
          FirstNul m p.toNat (c.proc.offset + c.proc.sz) (p.toNat + len.toNat)
      | none => ¬ (c.HasArg n ∧ ∃ x, (c.arg m n).toNat ≤ x ∧ x < c.proc.sz ∧
          m (c.proc.offset + x) = 0)) m := by
  refine Prog.Obeys.seq (obeys_argint (m := m) n) ?_
  rintro r m' ⟨rfl, ⟨harg, rfl⟩ | ⟨harg, rfl⟩⟩
  · refine (obeys_fetchstr (c.arg m' n)).mono ?_
    rintro r m ⟨rfl, hr⟩
    refine ⟨rfl, ?_⟩
    cases r with
    | none =>
      rintro ⟨-, x, h₁, h₂, h₃⟩
      exact hr x h₁ h₂ h₃
    | some r => exact ⟨harg, hr⟩
  · exact ⟨rfl, fun h => harg h.1⟩

lemma obeys_argfd (n : UInt32) :
    (argfd c n).Obeys (confined c) (fun _ m' => m' = m) m := by
  refine Prog.Obeys.seq (obeys_argint (m := m) n) ?_
  rintro r m' ⟨rfl, ⟨-, rfl⟩ | ⟨-, rfl⟩⟩
  · simp only
    split
    · rfl
    · rfl
  · rfl

/-! ## Kernel code -/

/-- Kernel code whose answers are arbitrary, but for the length of a console read. -/
def answers : Monitor (BioOp ⊕ MemOp) (Sum.elim BioOp.Ret MemOp.Ret) Unit where
  ok _ _ := True
  ans
    | _, .inr (.consoleread n), got => List.length got ≤ n
    | _, _, _ => True
  next _ _ _ := ()

lemma consoleLoop_length {n : ℕ} {q q' got r : List UInt8}
    (h : consoleLoop n q got = some (r, q')) : r.length ≤ got.length + n := by
  induction n generalizing q got with
  | zero =>
    obtain ⟨rfl, -⟩ := Prod.mk.inj (Option.some.inj h)
    exact le_rfl
  | succ n ih =>
    cases q with
    | nil => cases h
    | cons c q =>
      rw [consoleLoop] at h
      split_ifs at h
      · obtain ⟨rfl, -⟩ := Prod.mk.inj (Option.some.inj h)
        omega
      · obtain ⟨rfl, -⟩ := Prod.mk.inj (Option.some.inj h)
        omega
      · obtain ⟨rfl, -⟩ := Prod.mk.inj (Option.some.inj h)
        simp
      · have hle := ih h
        rw [List.length_append, List.length_singleton] at hle
        omega

/-- What `memHandler` answers is among the answers that the monitor admits. -/
lemma memHandler_admitted {e : MemOp} {fm fm' : FsMem} {r : e.Ret}
    (h : memHandler e fm = .ok r fm') : (confined c).ans m (.inr (.inr e)) r := by
  cases e with
  | consoleread n =>
    simp only [memHandler] at h
    split at h
    · obtain ⟨rfl, -⟩ := EStateM.Result.ok.inj h
      rename_i hloop
      show List.length _ ≤ n
      simpa using consoleLoop_length hloop
    · cases h
  | _ => trivial

lemma obeys_answers (p : K α) : p.Obeys answers (fun _ _ => True) () := by
  induction p with
  | ret a => trivial
  | op e k ih => exact ⟨trivial, fun r _ => ih r⟩

lemma obeys_answers_seq {β : Type} {p : K β} {f : β → K α} {R : α → Unit → Prop}
    (hf : ∀ b, (f b).Obeys answers R ()) : (p >>= f).Obeys answers R () :=
  (obeys_answers p).seq fun b _ _ => hf b

lemma obeys_kernel {p : K α} {R : α → Prop} (h : p.Obeys answers (fun r _ => R r) ()) :
    (U.kernel p).Obeys (confined c) (fun r m' => m' = m ∧ R r) m := by
  induction p with
  | ret a => exact ⟨rfl, h⟩
  | op e k ih =>
    refine ⟨trivial, fun r hr => ih r (h.2 r ?_)⟩
    cases e with
    | inl e => trivial
    | inr e =>
      cases e with
      | consoleread n => exact hr
      | _ => trivial

lemma readLoop_length (ip : Fin NINODE) (turns off left : ℕ) (got : List UInt8) :
    (readLoop ip turns off left got).Obeys answers
      (fun l _ => l.length ≤ got.length + left) () := by
  induction turns generalizing off left got with
  | zero => exact Nat.le_add_right _ _
  | succ turns ih =>
    unfold readLoop
    split_ifs with h
    · exact Nat.le_add_right _ _
    · refine obeys_answers_seq fun b => obeys_answers_seq fun i => obeys_answers_seq fun bp =>
        obeys_answers_seq fun d => obeys_answers_seq fun _ => (ih _ _ _).mono fun l _ hl => ?_
      rw [List.length_append, bytesFrom, List.length_map, List.length_range] at hl
      have := Nat.min_le_left left (BSIZE - off % BSIZE)
      omega

lemma readi_length (ip : Fin NINODE) (off n : ℕ) :
    (readi ip off n).Obeys answers (fun r _ => ∀ got, r = some got → got.length ≤ n) () := by
  refine obeys_answers_seq fun i => ?_
  have hint : (if n < 2 ^ 31 then n else 0) ≤ n := by
    split_ifs <;> omega
  generalize (if n < 2 ^ 31 then n else 0) = k at hint ⊢
  split_ifs with h₁ h₂ h₃ h₄
  · refine ⟨trivial, fun got hgot => ?_⟩
    rintro got' ⟨⟩
    exact le_trans hgot hint
  · rintro got ⟨⟩
  · rintro got ⟨⟩
  · refine (readLoop_length _ _ _ _ _).seq fun l _ hl => ?_
    rintro got ⟨⟩
    have hmod := Nat.mod_le (off + n) UINT
    simp only [List.length_nil] at hl
    omega
  · refine (readLoop_length _ _ _ _ _).seq fun l _ hl => ?_
    rintro got ⟨⟩
    simpa using hl

lemma fileread_length (f : Fin NFILE) (n : ℕ) :
    (fileread f n).Obeys answers (fun r _ => ∀ got, r = some got → got.length ≤ n) () := by
  refine obeys_answers_seq fun g => ?_
  split_ifs with h₁ h₂
  · rintro got ⟨⟩
  · refine obeys_answers_seq fun _ => obeys_answers_seq fun g => ?_
    refine (readi_length _ _ _).seq fun r _ hr => ?_
    cases r with
    | none => rintro got ⟨⟩
    | some got =>
      have hgot : (pure (some got) : K (Option (List UInt8))).Obeys answers
          (fun r _ => ∀ got, r = some got → got.length ≤ n) () := by
        rintro got' ⟨⟩
        exact hr got rfl
      show (if 0 < got.length then _ else _ : K _).Obeys answers _ _
      split_ifs
      · exact obeys_answers_seq fun _ => hgot
      · exact hgot
  · exact ⟨trivial, fun r => nomatch r⟩

/-! ## System calls -/

lemma obeys_sysRead : (sysRead c).Obeys (confined c) (fun _ _ => True) m := by
  refine (obeys_argfd (m := m) 0).seq ?_
  rintro (_ | ⟨-, f⟩) m rfl
  · trivial
  refine (obeys_argint (m := m) 2).seq ?_
  rintro (_ | n) m ⟨rfl, -⟩
  · trivial
  refine (obeys_argptr (m := m) 1 n).seq ?_
  rintro (_ | p) m ⟨rfl, hp⟩
  · trivial
  refine (obeys_kernel (m := m) (fileread_length f n.toNat)).seq ?_
  rintro (_ | got) m ⟨rfl, hgot⟩
  · trivial
  obtain ⟨⟨-, -, h₁, h₂⟩, hphys⟩ := hp
  have hlen := hgot got rfl
  exact (obeys_storeBytes (m := m) (by omega) (by omega)).seq fun _ _ _ => trivial

lemma obeys_sysWrite : (sysWrite c).Obeys (confined c) (fun _ _ => True) m := by
  refine (obeys_argfd (m := m) 0).seq ?_
  rintro (_ | ⟨-, f⟩) m rfl
  · trivial
  refine (obeys_argint (m := m) 2).seq ?_
  rintro (_ | n) m ⟨rfl, -⟩
  · trivial
  refine (obeys_argptr (m := m) 1 n).seq ?_
  rintro (_ | p) m ⟨rfl, hp⟩
  · trivial
  obtain ⟨⟨-, -, h₁, h₂⟩, hphys⟩ := hp
  refine (obeys_loadBytes (m := m) (by omega) (by omega)).seq ?_
  rintro src m ⟨rfl, -⟩
  refine (obeys_kernel (m := m) (R := fun _ => True) (obeys_answers _)).seq ?_
  rintro (_ | r) - -
  · trivial
  · trivial

lemma obeys_sysClose : (sysCloseCall c).Obeys (confined c) (fun _ _ => True) m := by
  refine (obeys_argfd (m := m) 0).seq ?_
  rintro (_ | ⟨fd, f⟩) m rfl
  · trivial
  · exact (obeys_kernel (m := m) (R := fun _ => True) (obeys_answers _)).seq fun _ _ _ => trivial

lemma obeys_sysOpen : (sysOpenCall c).Obeys (confined c) (fun _ _ => True) m := by
  refine (obeys_argstr (m := m) 0).seq ?_
  rintro (_ | ⟨path, len⟩) m ⟨rfl, hpath⟩
  · trivial
  refine (obeys_argint (m := m) 1).seq ?_
  rintro (_ | omode) m ⟨rfl, -⟩
  · trivial
  obtain ⟨-, hphys, h₁, h₂, -⟩ := hpath
  refine (obeys_loadBytes (m := m) (by omega) (by omega)).seq ?_
  rintro l m ⟨rfl, -⟩
  exact (obeys_kernel (m := m) (R := fun _ => True) (obeys_answers _)).seq fun _ _ _ => trivial

/-- **The argument checks confine the kernel to the caller's memory.**  They succeed exactly where
the unbounded sums stay inside it, and every byte of user memory that the system calls on files
load or store lies in it, whatever the rest of the kernel answers, as long as it answers as
`memHandler` does. -/
theorem syscall_confined (c : Caller) (m : ℕ → UInt8) :
    (∀ addr, (fetchint c addr).Obeys (confined c)
      (fun r m' => m' = m ∧ (r.isSome ↔ addr.toNat + 4 ≤ c.proc.sz)) m) ∧
    (∀ n size, (argptr c n size).Obeys (confined c)
      (fun r m' => m' = m ∧ (r.isSome ↔ c.PtrOk m n size)) m) ∧
    (∀ n, (argstr c n).Obeys (confined c)
      (fun r m' => m' = m ∧ (r.isSome ↔ c.HasArg n ∧ ∃ x, (c.arg m n).toNat ≤ x ∧
          x < c.proc.sz ∧ m (c.proc.offset + x) = 0) ∧
        ∀ p len, r = some (p, len) → p.toNat = c.proc.offset + (c.arg m n).toNat ∧
          FirstNul m p.toNat (c.proc.offset + c.proc.sz) (p.toNat + len.toNat)) m) ∧
    (sysOpenCall c).Obeys (confined c) (fun _ _ => True) m ∧
    (sysRead c).Obeys (confined c) (fun _ _ => True) m ∧
    (sysWrite c).Obeys (confined c) (fun _ _ => True) m ∧
    (sysCloseCall c).Obeys (confined c) (fun _ _ => True) m ∧
    ∀ e fm r fm', memHandler e fm = .ok r fm' → (confined c).ans m (.inr (.inr e)) r := by
  refine ⟨fun addr => ?_, fun n size => ?_, fun n => ?_, obeys_sysOpen, obeys_sysRead,
    obeys_sysWrite, obeys_sysClose, fun _ _ _ _ => memHandler_admitted⟩
  · refine (obeys_fetchint addr).mono ?_
    rintro r m' ⟨rfl, rfl⟩
    refine ⟨rfl, ?_⟩
    split_ifs with h <;> simp [h]
  · refine (obeys_argptr n size).mono ?_
    rintro (_ | p) m' ⟨rfl, hp⟩
    · exact ⟨rfl, by simpa using hp⟩
    · exact ⟨rfl, by simpa using hp.1⟩
  · refine (obeys_argstr n).mono ?_
    rintro (_ | ⟨p, len⟩) m' ⟨rfl, hp⟩
    · exact ⟨rfl, by simpa using hp, by rintro p len ⟨⟩⟩
    · obtain ⟨harg, hphys, hnul⟩ := hp
      refine ⟨rfl, ?_, ?_⟩
      · refine ⟨fun _ => ⟨harg, p.toNat + len.toNat - c.proc.offset, ?_, ?_, ?_⟩, fun _ => rfl⟩
        · omega
        · have := hnul.2.1
          omega
        · rw [show c.proc.offset + (p.toNat + len.toNat - c.proc.offset) = p.toNat + len.toNat by
            omega]
          exact hnul.2.2.1
      · rintro p' len' ⟨⟩
        exact ⟨hphys, hnul⟩

/-- The second of two processes asks for 32 bytes at `0xFFFFFFF0`, where the 32-bit sum is small,
and for the last 16 bytes of its memory. -/
theorem syscall_confined_wrap : ∃ (s : Phys) (c : Caller) (m : ℕ → UInt8),
    kinit 0x200000 0x200000 0x400000 ⟨fun _ => 0, 0⟩ = some s ∧
    c.proc = (allocprocs 0 0 2 (.boot s)).proc 1 ∧
    c.arg m 0 = 0xFFFFFFF0 ∧ c.arg m 1 = 0xFEFF0 ∧
    (argptr c 0 32).Obeys (confined c) (fun r _ => r = none) m ∧
    (argptr c 1 16).Obeys (confined c) (fun r _ => r.isSome) m ∧
    (sysRead c).Obeys (confined c) (fun _ _ => True) m := by
  obtain ⟨s, hs, -, -, hstate, hoff, -⟩ := exists_two_procs
  obtain ⟨s', hs', hpool⟩ : ∃ s', kinit 0x200000 0x200000 0x400000 ⟨fun _ => 0, 0⟩ = some s' ∧ _ :=
    kinit_spec rfl (by decide) (by decide) (by decide) (by decide)
  obtain rfl : s' = s := Option.some.inj (hs'.symm.trans hs)
  obtain ⟨free, used, hpaged⟩ : ∃ free used,
      (allocprocs 0 0 2 (.boot s')).Paged 0x200000 free used :=
    (ProcSys.Paged.boot hpool).allocprocs 2
  set c := hpaged.caller hstate (fun _ => none) 0 with hc
  set m : ℕ → UInt8 := fun x =>
    [0xF0, 0xFF, 0xFF, 0xFF, 0xF0, 0xEF, 0x0F, 0].getD (x - 0x200004) 0 with hm
  have hoffset : c.proc.offset = 0x200000 := hoff
  have haddr : ∀ n, argAddr c n = 0 + 4 + 4 * n := fun _ => rfl
  have hfirst : c.arg m 0 = 0xFFFFFFF0 := by
    rw [Caller.arg, Caller.word, hoffset, haddr]
    decide
  have hsecond : c.arg m 1 = 0xFEFF0 := by
    rw [Caller.arg, Caller.word, hoffset, haddr]
    decide
  have hsz : c.proc.sz = 0xFF000 := c.sz_eq
  obtain ⟨-, hptr, -, -, hread, -⟩ := syscall_confined c m
  refine ⟨s', c, m, hs, rfl, hfirst, hsecond, (hptr 0 32).mono ?_, (hptr 1 16).mono ?_, hread⟩
  · rintro r m' ⟨-, hr⟩
    refine Option.not_isSome_iff_eq_none.mp fun hsome => ?_
    have hlt := (hr.mp hsome).2.2.1
    rw [hfirst, hsz] at hlt
    exact absurd hlt (by decide)
  · rintro r m' ⟨-, hr⟩
    refine hr.mpr ⟨?_, by decide, ?_, ?_⟩
    · rw [Caller.HasArg, hsz, haddr]
      decide
    · rw [hsecond, hsz]
      decide
    · rw [hsecond, hsz]
      decide

end

end Xv6
