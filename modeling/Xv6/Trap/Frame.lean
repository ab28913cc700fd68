import Xv6.Lib.X86
import Xv6.Vm.Segments

/-!
# Trap frames

The assembly around `trap`: the gates that `tvinit` sets, the entry points that `vectors.pl`
generates, `alltraps` and `trapret`.  Together with the processor they build a `struct trapframe` on
the kernel stack, pass its address to `trap`, and load the registers from it again.

The processor pushes an error code for some of the exceptions, and the old stack pointer only if it
interrupts user code.  `run_enter` says that the frame is there in all cases, with the registers of
the interrupted code, and that nothing else has been written but the two words of the call;
`run_leave` says that what comes back is in the frame, and `trap_transparent` puts the two together.

The frame is described as the list of words that the pushes have made, in the order of the struct
(`saved`), and `Trapframe.of` is this list read as a struct.  The instructions are followed with
`Xv6.Lib.X86`, at any position of the code and the stacks; `Loaded` asks only that the code stands
where the gates point to.
-/

namespace Xv6.Asm

open Lib.X86

/-! ## Gates -/

abbrev T_SYSCALL : BitVec 8 := 64

abbrev STS_IG32 : BitVec 4 := 0xE
abbrev STS_TG32 : BitVec 4 := 0xF

/-- `SEG_KCODE << 3`. -/
abbrev KCODE : BitVec 16 := 1 <<< 3

/-- `SEG_KDATA << 3`. -/
abbrev KDATA : BitVec 16 := 2 <<< 3

/-- `(SEG_UCODE << 3) | DPL_USER`. -/
abbrev UCODE : BitVec 16 := 3 <<< 3 ||| 3

/-- `(SEG_UDATA << 3) | DPL_USER`. -/
abbrev UDATA : BitVec 16 := 4 <<< 3 ||| 3

/-- `struct gatedesc`. -/
structure GateDesc where
  off_15_0 : BitVec 16
  cs : BitVec 16
  args : BitVec 5
  rsv1 : BitVec 3
  type : BitVec 4
  s : BitVec 1
  dpl : BitVec 2
  p : BitVec 1
  off_31_16 : BitVec 16

def SETGATE (istrap : Bool) (sel : BitVec 16) (off : Word) (d : BitVec 2) : GateDesc where
  off_15_0 := off.setWidth 16
  cs := sel
  args := 0
  rsv1 := 0
  type := if istrap then STS_TG32 else STS_IG32
  s := 0
  dpl := d
  p := 1
  off_31_16 := (off >>> 16).setWidth 16

/-- What the processor reads in a descriptor. -/
def GateDesc.gate (g : GateDesc) : Gate where
  offset := g.off_31_16 ++ g.off_15_0
  selector := g.cs
  interrupt := g.type = STS_IG32
  dpl := g.dpl.toNat

/-- The addresses of the code. -/
structure Symbols where
  vectors : BitVec 8 → Word
  alltraps : Word
  trap : Word
  /-- The address behind `call trap`. -/
  back : Word
  trapret : Word

/-- `tvinit()`: the table `idt`. -/
def tvinit (Y : Symbols) : BitVec 8 → GateDesc :=
  Function.update (fun i => SETGATE false KCODE (Y.vectors i) 0) T_SYSCALL
    (SETGATE true KCODE (Y.vectors T_SYSCALL) 3)

/-- The table as the processor reads it. -/
def idt (Y : Symbols) (v : BitVec 8) : Gate := (tvinit Y v).gate

lemma gate_SETGATE (istrap : Bool) (sel : BitVec 16) (off : Word) (d : BitVec 2) :
    (SETGATE istrap sel off d).gate = ⟨off, sel, !istrap, d.toNat⟩ := by
  have hoff : (off >>> 16).setWidth 16 ++ off.setWidth 16 = off := by
    refine BitVec.eq_of_getLsbD_eq fun i hi => ?_
    simp only [BitVec.getLsbD_append, BitVec.getLsbD_setWidth, BitVec.getLsbD_ushiftRight]
    split_ifs with h
    · rw [decide_eq_true h, Bool.true_and]
    · rw [decide_eq_true (by omega : i - 16 < 16), Bool.true_and]
      exact congrArg _ (by omega)
  cases istrap <;> simp [SETGATE, GateDesc.gate, hoff]

/-- **The gates**: an interrupt turns interrupts off, a system call does not, and only the latter
can be made by users. -/
lemma idt_eq (Y : Symbols) (v : BitVec 8) :
    idt Y v = ⟨Y.vectors v, KCODE, v ≠ T_SYSCALL, if v = T_SYSCALL then 3 else 0⟩ := by
  by_cases hv : v = T_SYSCALL
  · subst hv
    rw [idt, tvinit, Function.update_self, gate_SETGATE]
    rfl
  · rw [idt, tvinit, Function.update_of_ne hv, gate_SETGATE, if_neg hv, decide_eq_true hv]
    rfl

/-! ## The code -/

/-- The exceptions for which the processor pushes an error code. -/
def hasErr (v : BitVec 8) : Bool := v = 8 || (10 ≤ v && v ≤ 14) || v = 17

/-- The entry point of a vector. -/
def vectorOps (v : BitVec 8) : List Op :=
  (if !hasErr v then [.pushlImm 0] else []) ++ [.pushlImm (v.setWidth 32)]

/-- `alltraps`, up to `call trap`. -/
def alltrapsOps : List Op :=
  [.pushlSeg .ds, .pushlSeg .es, .pushlSeg .fs, .pushlSeg .gs, .pushal, .movwImm KDATA .eax,
    .movwSeg .eax .ds, .movwSeg .eax .es, .pushl .esp]

/-- `trapret`, up to `iret`. -/
def trapretOps : List Op :=
  [.popal, .poplSeg .gs, .poplSeg .fs, .poplSeg .es, .poplSeg .ds, .addl 8 .esp]

/-- The code is in memory. -/
structure Loaded (Y : Symbols) (code : Code) : Prop where
  vector : ∀ v, ∃ b, CodeAt code (Y.vectors v) ((vectorOps v).map .op ++ [.jmp Y.alltraps]) b
  alltraps : CodeAt code Y.alltraps (alltrapsOps.map .op ++ [.call Y.trap]) Y.back
  back : CodeAt code Y.back [.op (.addl 4 .esp)] Y.trapret
  trapret : ∃ b, CodeAt code Y.trapret (trapretOps.map .op ++ [.iret]) b

/-! ## The frame -/

/-- `struct trapframe`, without the padding. -/
@[ext] structure Trapframe where
  edi : Word
  esi : Word
  ebp : Word
  oesp : Word
  ebx : Word
  edx : Word
  ecx : Word
  eax : Word
  gs : BitVec 16
  fs : BitVec 16
  es : BitVec 16
  ds : BitVec 16
  trapno : Word
  err : Word
  eip : Word
  cs : BitVec 16
  eflags : Word
  esp : Word
  ss : BitVec 16

/-- The frame at an address. -/
def Trapframe.read (m : Mem) (tf : Word) : Trapframe where
  edi := get32 m tf
  esi := get32 m (tf + 4)
  ebp := get32 m (tf + 8)
  oesp := get32 m (tf + 12)
  ebx := get32 m (tf + 16)
  edx := get32 m (tf + 20)
  ecx := get32 m (tf + 24)
  eax := get32 m (tf + 28)
  gs := (get32 m (tf + 32)).setWidth 16
  fs := (get32 m (tf + 36)).setWidth 16
  es := (get32 m (tf + 40)).setWidth 16
  ds := (get32 m (tf + 44)).setWidth 16
  trapno := get32 m (tf + 48)
  err := get32 m (tf + 52)
  eip := get32 m (tf + 56)
  cs := (get32 m (tf + 60)).setWidth 16
  eflags := get32 m (tf + 64)
  esp := get32 m (tf + 68)
  ss := (get32 m (tf + 72)).setWidth 16

/-- The general registers in a frame, with a stack pointer. -/
def Trapframe.regs (f : Trapframe) (esp : Word) : Reg → Word
  | .eax => f.eax
  | .ecx => f.ecx
  | .edx => f.edx
  | .ebx => f.ebx
  | .esp => esp
  | .ebp => f.ebp
  | .esi => f.esi
  | .edi => f.edi

/-- The data segments in a frame, with those of the code and the stack. -/
def Trapframe.segs (f : Trapframe) (cs ss : BitVec 16) : Seg → BitVec 16
  | .cs => cs
  | .ss => ss
  | .ds => f.ds
  | .es => f.es
  | .fs => f.fs
  | .gs => f.gs

/-- The registers are those of a frame.  A frame of kernel code ends before `esp`: the stack goes on
behind it. -/
def Trapframe.load (f : Trapframe) (tf : Word) (s : Core) : Core :=
  { s with
    reg := f.regs (if 0 < rpl f.cs then f.esp else tf + 68)
    seg := f.segs f.cs (if 0 < rpl f.cs then f.ss else s.seg .ss)
    eip := f.eip
    eflags := f.eflags }

/-- The words above the frame of kernel code are not loaded. -/
lemma Trapframe.load_outer {f : Trapframe} {esp : Word} {ss : BitVec 16}
    (h : 0 < rpl f.cs → esp = f.esp ∧ ss = f.ss) (tf : Word) (s : Core) :
    ({ f with esp := esp, ss := ss } : Trapframe).load tf s = f.load tf s := by
  by_cases hcs : 0 < rpl f.cs
  · obtain ⟨rfl, rfl⟩ := h hcs
    rfl
  · simp only [load, if_neg hcs]
    rfl

lemma Trapframe.update_regs (f : Trapframe) (a b : Word) :
    Function.update (f.regs a) .esp b = f.regs b := by
  funext r
  cases r <;> rfl

lemma Trapframe.update_segs (f : Trapframe) (a b c d : BitVec 16) :
    Function.update (Function.update (f.segs a b) .cs c) .ss d = f.segs c d := by
  funext r
  cases r <;> rfl

section

variable {Y : Symbols} {code : Code} {s s' : Core} {v : BitVec 8}

/-- The kernel's segments start at 0. -/
structure Flat (s : Core) : Prop where
  code : s.base KCODE = 0
  data : s.base KDATA = 0

/-! ## Leaving -/

/-- Kernel code runs: the stack and code segments are the kernel's. -/
structure InKernel (s : Core) : Prop extends Flat s where
  cs : s.seg .cs = KCODE
  ss : s.seg .ss = KDATA

lemma InKernel.stack (h : InKernel s) (a : Word) : s.stack a = a := by
  rw [Core.stack, h.ss, h.data, zero_add]

lemma InKernel.pc (h : InKernel s) : s.pc = s.eip := by
  rw [Core.pc, h.cs, h.code, zero_add]

lemma InKernel.peek (h : InKernel s) (k : ℕ) :
    s.peek k = get32 s.mem (s.reg .esp + 4 * BitVec.ofNat 32 k) := by
  rw [Core.peek, h.stack]

lemma InKernel.cpl (h : InKernel s) : s.cpl = 0 := by
  rw [Core.cpl, h.cs]
  decide

/-- `trapret` pops the general registers and the segment registers, and stops at `eip`. -/
lemma execs_trapret (h : InKernel s) : execs s trapretOps =
    { s with
      reg := (Trapframe.read s.mem (s.reg .esp)).regs (s.reg .esp + 56)
      seg := (Trapframe.read s.mem (s.reg .esp)).segs (s.seg .cs) (s.seg .ss) } := by
  have hdata : s.base 16#16 = 0#32 := h.data
  rw [trapretOps]
  simp only [execs_cons, execs_nil, Op.exec, Core.drop, Core.peek, Core.stack, Core.setReg,
    Core.setSeg, h.ss, h.data, zero_add]
  ext1
  case reg =>
    funext r
    cases r <;> simp [Trapframe.read, Trapframe.regs, BitVec.add_assoc]
  case seg =>
    funext r
    cases r <;> simp [Trapframe.read, Trapframe.segs, BitVec.add_assoc, h.ss, hdata]
  all_goals rfl

lemma iret_eq (h : InKernel s) {tf : Word} (htf : s.reg .esp = tf + 56) {f : Trapframe}
    (hf : f = .read s.mem tf) : s.iret =
    { s with
      reg := Function.update s.reg .esp (if 0 < rpl f.cs then f.esp else tf + 68)
      seg := Function.update (Function.update s.seg .cs f.cs) .ss
        (if 0 < rpl f.cs then f.ss else s.seg .ss)
      eip := f.eip
      eflags := f.eflags } := by
  have h₀ : s.peek 0 = f.eip := by rw [hf, h.peek, htf]; exact congrArg _ (by grind)
  have h₁ : (s.peek 1).setWidth 16 = f.cs := by
    rw [hf, h.peek, htf]
    exact congrArg (fun a => (get32 s.mem a).setWidth 16) (by grind)
  have h₂ : s.peek 2 = f.eflags := by rw [hf, h.peek, htf]; exact congrArg _ (by grind)
  have h₃ : s.peek 3 = f.esp := by rw [hf, h.peek, htf]; exact congrArg _ (by grind)
  have h₄ : (s.peek 4).setWidth 16 = f.ss := by
    rw [hf, h.peek, htf]
    exact congrArg (fun a => (get32 s.mem a).setWidth 16) (by grind)
  have hesp : s.reg .esp + 4 * BitVec.ofNat 32 3 = tf + 68 := by rw [htf]; grind
  have hss : Function.update s.seg .cs f.cs .ss = s.seg .ss := Function.update_of_ne (by decide) _ _
  simp only [Core.iret, h.cpl, h₀, h₁, h₂, h₃, h₄, hesp, Core.drop, Core.setReg, Core.setSeg]
  by_cases hcs : 0 < rpl f.cs
  · simp only [if_pos hcs, Function.update_idem]
  · simp only [if_neg hcs, ← hss, Function.update_eq_self]

lemma run_to_iret (hload : Loaded Y code) (h : InKernel s) (heip : s.eip = Y.trapret) :
    ∃ F, s.run (idt Y) code trapretOps.length = some F ∧ InKernel F ∧
      (∃ len, code F.pc = some (.iret, len)) ∧ F.reg .esp = s.reg .esp + 56 ∧
      F.iret = (Trapframe.read s.mem (s.reg .esp)).load (s.reg .esp) s := by
  obtain ⟨b, hcode⟩ := hload.trapret
  rw [← heip, ← h.pc] at hcode
  obtain ⟨e, hrun, hat⟩ := run_ops (idt Y) 0 (by decide) hcode
  rw [execs_trapret h] at hrun hat
  obtain ⟨len, hiret, -⟩ := hat
  refine ⟨_, hrun, ⟨⟨h.code, h.data⟩, h.cs, h.ss⟩, ⟨len, hiret⟩, rfl, ?_⟩
  rw [iret_eq ?_ rfl rfl]
  · dsimp only
    rw [Trapframe.update_regs, Trapframe.update_segs]
    rfl
  · exact ⟨⟨h.code, h.data⟩, h.cs, h.ss⟩

/-- **What a trap comes back to** is in the frame. -/
lemma run_trapret (hload : Loaded Y code) (h : InKernel s) (heip : s.eip = Y.trapret) :
    s.run (idt Y) code 7 =
      some ((Trapframe.read s.mem (s.reg .esp)).load (s.reg .esp) s) := by
  obtain ⟨F, hrun, -, ⟨len, hcode⟩, -, hiret⟩ := run_to_iret hload h heip
  rw [show 7 = trapretOps.length + 1 from rfl, run_add hrun, Core.run, Core.step, hcode,
    Option.map_some, Option.bind_some, Instr.exec, hiret, Core.run]

/-! ## Entering -/

/-- Kernel code is on the kernel's stack segment, and user code gets there. -/
structure Stacked (s : Core) : Prop extends Flat s where
  ss0 : 0 < s.cpl → s.ss0 = KDATA
  ss : s.cpl = 0 → s.seg .ss = KDATA

/-- Where the frame ends: at the stack pointer of kernel code, and at that of the task state if user
code is interrupted. -/
def top (s : Core) : Word := if 0 < s.cpl then s.esp0 else s.reg .esp

/-- What the processor pushes only if user code is interrupted. -/
def outer (s : Core) : List Word :=
  if 0 < s.cpl then [(s.seg .ss).setWidth 32, s.reg .esp] else []

lemma length_outer_le (s : Core) : (outer s).length ≤ 2 := by
  rw [outer]
  split_ifs <;> simp

/-- `alltraps` pushes the segment registers and the general registers. -/
def alltrapsWords (s : Core) : List Word :=
  [(s.seg .ds).setWidth 32, (s.seg .es).setWidth 32, (s.seg .fs).setWidth 32,
    (s.seg .gs).setWidth 32, s.reg .eax, s.reg .ecx, s.reg .edx, s.reg .ebx, s.reg .esp - 4 * 4,
    s.reg .ebp, s.reg .esi, s.reg .edi]

/-- What is saved for `trap`, in the order of the pushes. -/
def saved (s : Core) (v : BitVec 8) (err : Word) : List Word :=
  outer s ++ [s.eflags, (s.seg .cs).setWidth 32, s.eip, err, v.setWidth 32] ++
    alltrapsWords (s.setReg .esp (top s - 4 * BitVec.ofNat 32 ((outer s).length + 5)))

/-- Where the frame is. -/
def frameAddr (s : Core) : Word := top s - 4 * BitVec.ofNat 32 ((outer s).length + 17)

/-- The kernel runs, and the words have been pushed on the stack for an interrupt of `s`; the other
registers are still those of `s`. -/
structure Grown (s : Core) (l : List Word) (s' : Core) : Prop extends InKernel s' where
  reg : ∀ r ≠ .esp, s'.reg r = s.reg r
  seg : ∀ r ≠ .cs, r ≠ .ss → s'.seg r = s.seg r
  esp : s'.reg .esp = top s - 4 * BitVec.ofNat 32 l.length
  stack : Pushed s.mem (top s) l s'.mem
  bases : s'.base = s.base ∧ s'.ss0 = s.ss0 ∧ s'.esp0 = s.esp0

lemma Grown.pushes {l k : List Word} (h : Grown s l s')
    (hl : 4 * (l.length + k.length) < 2 ^ 32) : Grown s (l ++ k) (s'.pushes k) := by
  obtain ⟨m, hpushes, hpushed⟩ := Core.exists_pushes (s := s') (l := k) (by omega)
  rw [h.toInKernel.stack, h.esp] at hpushed
  rw [hpushes]
  refine { h with
    reg := fun r hr => (Function.update_of_ne hr _ s'.reg).trans (h.reg r hr)
    esp := ?_
    stack := h.stack.append hpushed hl }
  show Function.update s'.reg .esp _ .esp = _
  rw [Function.update_self, h.esp, List.length_append, BitVec.ofNat_add]
  grind

lemma Grown.jump {l : List Word} (h : Grown s l s') (e f : Word) :
    Grown s l { s' with eip := e, eflags := f } :=
  { h with }

/-- The processor changes to the stack for the interrupt. -/
def onto (s : Core) : Core :=
  { s with
    reg := Function.update s.reg .esp (top s)
    seg := Function.update (Function.update s.seg .ss KDATA) .cs KCODE }

lemma grown_onto (h : Stacked s) : Grown s [] (onto s) := by
  have hss : Function.update (Function.update s.seg .ss KDATA) .cs KCODE .ss = KDATA := by
    rw [Function.update_of_ne (by decide), Function.update_self]
  have hesp : Function.update s.reg .esp (top s) .esp = top s - 4 * BitVec.ofNat 32 0 := by
    rw [Function.update_self]
    grind
  have hcs : Function.update (Function.update s.seg .ss KDATA) .cs KCODE .cs = KCODE :=
    Function.update_self ..
  have hseg : ∀ r ≠ .cs, r ≠ .ss →
      Function.update (Function.update s.seg .ss KDATA) .cs KCODE r = s.seg r := by
    intro r hcs hss
    rw [Function.update_of_ne hcs, Function.update_of_ne hss]
  exact ⟨⟨⟨h.code, h.data⟩, hcs, hss⟩, fun r hr => Function.update_of_ne hr _ s.reg, hseg, hesp,
    ⟨rfl, fun _ _ => rfl⟩, rfl, rfl, rfl⟩

lemma inner_eq (h : Stacked s) : (s.inner 0).setSeg .cs KCODE = (onto s).pushes (outer s) := by
  by_cases hcpl : 0 < s.cpl
  · rw [Core.inner, if_pos hcpl, h.ss0 hcpl, Core.pushes_setSeg_cs, outer, onto, top, if_pos hcpl,
      if_pos hcpl]
    rfl
  · rw [Core.inner, outer, onto, top, if_neg hcpl, if_neg hcpl, if_neg hcpl,
      ← h.ss (by omega), Function.update_eq_self, Function.update_eq_self]
    rfl

lemma grown_deliver (h : Stacked s) (v : BitVec 8) (err : Option Word) :
    Grown s (outer s ++ [s.eflags, (s.seg .cs).setWidth 32, s.eip] ++ err.toList)
      (s.deliver (idt Y) v err) := by
  have hrpl : rpl KCODE = 0 := by decide
  have hlen := length_outer_le s
  have herr : err.toList.length ≤ 1 := by cases err <;> simp
  have houter : Grown s (outer s) ((s.inner 0).setSeg .cs KCODE) := by
    rw [inner_eq h, ← List.nil_append (outer s)]
    exact (grown_onto h).pushes (by rw [List.length_nil]; omega)
  have hgrown := houter.pushes (k := [s.eflags, (s.seg .cs).setWidth 32, s.eip] ++ err.toList)
    (by rw [List.length_append]; simp only [List.length_cons, List.length_nil]; omega)
  rw [← Core.pushes_setSeg_cs, ← List.append_assoc] at hgrown
  rw [Core.deliver, idt_eq]
  simp only [hrpl]
  generalize ((s.inner 0).pushes _).setSeg .cs KCODE = X at hgrown ⊢
  exact hgrown.jump _ _

lemma setWidth_append_low (a b : BitVec 16) : (a ++ b).setWidth 16 = b := by
  refine BitVec.eq_of_getLsbD_eq fun i hi => ?_
  rw [BitVec.getLsbD_setWidth, BitVec.getLsbD_append, decide_eq_true hi, if_pos hi, Bool.true_and]

lemma execs_alltraps (s : Core) : execs s alltrapsOps =
    { s with
      reg := Function.update (Function.update s.reg .eax ((s.reg .eax).extractLsb' 16 16 ++ KDATA))
        .esp (s.reg .esp - 4 * 13)
      seg := Function.update (Function.update s.seg .ds KDATA) .es KDATA
      mem := (s.pushes (alltrapsWords s ++ [s.reg .esp - 4 * 12])).mem } := by
  have hpushes : execs s [.pushlSeg .ds, .pushlSeg .es, .pushlSeg .fs, .pushlSeg .gs, .pushal] =
      s.pushes (alltrapsWords s) := by
    have hnil : s = s.pushes [] := rfl
    rw [hnil]
    simp only [execs_cons, execs_nil, exec_pushlSeg_pushes, exec_pushal_pushes]
    rfl
  rw [show alltrapsOps = [.pushlSeg .ds, .pushlSeg .es, .pushlSeg .fs, .pushlSeg .gs, .pushal] ++
    [.movwImm KDATA .eax, .movwSeg .eax .ds, .movwSeg .eax .es, .pushl .esp] from rfl,
    execs_append, hpushes, Core.pushes_concat]
  obtain ⟨m, hm⟩ : ∃ m, s.pushes (alltrapsWords s) =
      { s with reg := Function.update s.reg .esp (s.reg .esp - 4 * 12), mem := m } :=
    ⟨_, Core.pushes_eq _⟩
  have hne : Reg.esp ≠ .eax := by decide
  have hss : Seg.ss ≠ .ds ∧ Seg.ss ≠ .es := by decide
  have hesp : s.reg .esp - 4 * 12 - 4 = s.reg .esp - 4 * 13 := by grind
  rw [hm]
  simp only [execs_cons, execs_nil, Op.exec, Core.setReg, Core.setSeg, Core.push, Core.stack,
    Function.update_self, Function.update_of_ne hne.symm,
    Function.update_of_ne hss.1, Function.update_of_ne hss.2, setWidth_append_low,
    Function.update_comm hne, Function.update_idem, hesp]

/-- Where `trap` starts: the frame is on the stack, with its address and the return address, and
nothing else has been written. -/
structure Entered (Y : Symbols) (s : Core) (v : BitVec 8) (err : Word) (s' : Core) : Prop
    extends InKernel s' where
  eip : s'.eip = Y.trap
  ds : s'.seg .ds = KDATA
  es : s'.seg .es = KDATA
  eflags : s'.eflags = if v = T_SYSCALL then s.eflags else s.eflags &&& ~~~ FL_IF
  esp : s'.reg .esp = frameAddr s - 8
  stack : Pushed s.mem (top s) (saved s v err ++ [frameAddr s, Y.back]) s'.mem
  bases : s'.base = s.base ∧ s'.ss0 = s.ss0 ∧ s'.esp0 = s.esp0

/-- What the entry point of a vector pushes. -/
def vectorWords (v : BitVec 8) : List Word := (if !hasErr v then [0] else []) ++ [v.setWidth 32]

lemma execs_vectorOps (s : Core) (v : BitVec 8) :
    execs s (vectorOps v) = s.pushes (vectorWords v) := by
  rw [vectorOps, vectorWords]
  cases hasErr v <;> rfl

lemma tame_vectorOps (v : BitVec 8) : ∀ o ∈ vectorOps v, o.tame := by
  rw [vectorOps]
  cases hasErr v <;> simp [Op.tame]

/-- The vectors push what the processor does not, so that the frames of all of them are alike. -/
lemma run_vector (hload : Loaded Y code) (h : Stacked s) (v : BitVec 8) {err : Option Word}
    (herr : err.isSome = hasErr v) : ∃ s',
    (s.deliver (idt Y) v err).run (idt Y) code ((vectorOps v).length + 1) = some s' ∧
    Grown s (outer s ++ [s.eflags, (s.seg .cs).setWidth 32, s.eip, err.getD 0, v.setWidth 32]) s' ∧
    s'.eip = Y.alltraps ∧
    s'.eflags = if v = T_SYSCALL then s.eflags else s.eflags &&& ~~~ FL_IF := by
  have hgrown := grown_deliver (Y := Y) h v err
  have heip : (s.deliver (idt Y) v err).eip = Y.vectors v := by rw [Core.deliver, idt_eq]
  have heflags : (s.deliver (idt Y) v err).eflags =
      if v = T_SYSCALL then s.eflags else s.eflags &&& ~~~ FL_IF := by
    rw [Core.deliver, idt_eq]
    simp only [decide_eq_true_eq, ite_not]
  have hwords : [s.eflags, (s.seg .cs).setWidth 32, s.eip, err.getD 0, v.setWidth 32] =
      [s.eflags, (s.seg .cs).setWidth 32, s.eip] ++ err.toList ++ vectorWords v := by
    rw [vectorWords, ← herr]
    cases err <;> rfl
  generalize s.deliver (idt Y) v err = D at *
  obtain ⟨b, hcode⟩ := hload.vector v
  rw [← heip, ← hgrown.toInKernel.pc] at hcode
  obtain ⟨e, hrun, hat⟩ := run_ops (idt Y) 1 (tame_vectorOps v) hcode
  rw [execs_vectorOps] at hrun hat
  obtain ⟨_, hjmp, -⟩ := run_instr (idt Y) 0 hat
  rw [hwords, ← List.append_assoc, ← List.append_assoc]
  refine ⟨_, hrun.trans hjmp, (hgrown.pushes ?_).jump Y.alltraps _, rfl, ?_⟩
  · have hlen := length_outer_le s
    have hwords : ([s.eflags, (s.seg .cs).setWidth 32, s.eip] ++ err.toList ++
        vectorWords v).length = 5 := by rw [← hwords]; rfl
    simp only [List.length_append] at hwords ⊢
    omega
  · rw [Core.pushes_eq]
    exact heflags

lemma run_alltraps {A : Core} {err : Word} (hload : Loaded Y code)
    (h : Grown s (outer s ++ [s.eflags, (s.seg .cs).setWidth 32, s.eip, err, v.setWidth 32]) A)
    (heip : A.eip = Y.alltraps)
    (heflags : A.eflags = if v = T_SYSCALL then s.eflags else s.eflags &&& ~~~ FL_IF) :
    ∃ s', A.run (idt Y) code 10 = some s' ∧ Entered Y s v err s' := by
  have hcode := hload.alltraps
  rw [← heip, ← h.toInKernel.pc] at hcode
  obtain ⟨e, hrun, hat⟩ := run_ops (idt Y) 1 (by decide) hcode
  rw [execs_alltraps] at hrun hat
  obtain ⟨next, hcall, hnext⟩ := run_instr (idt Y) 0 hat
  have hss : ∀ r, r = .cs ∨ r = .ss →
      Function.update (Function.update A.seg .ds KDATA) .es KDATA r = A.seg r := by
    rintro r (rfl | rfl) <;> rfl
  have hback : next = Y.back := by
    rw [← show _ = Y.back from hnext]
    simp only [hss _ (.inl rfl), h.cs, h.code, zero_add]
  have hesp : A.reg .esp = top s - 4 * BitVec.ofNat 32 ((outer s).length + 5) := by
    rw [h.esp, List.length_append]
    rfl
  have htf : A.reg .esp - 4 * 12 = frameAddr s := by
    rw [hesp, frameAddr, BitVec.ofNat_add, BitVec.ofNat_add]
    grind
  have hwords : saved s v err = outer s ++ [s.eflags, (s.seg .cs).setWidth 32, s.eip, err,
      v.setWidth 32] ++ alltrapsWords A := by
    rw [saved, ← hesp]
    simp [alltrapsWords, h.reg, h.seg]
  have hlen := length_outer_le s
  have hgrown := h.pushes (k := alltrapsWords A ++ [A.reg .esp - 4 * 12] ++ [Y.back])
    (by simp [alltrapsWords]; omega)
  rw [Core.pushes_concat, ← List.append_assoc, ← List.append_assoc, ← hwords, List.append_assoc,
    List.singleton_append] at hgrown
  refine ⟨_, hrun.trans hcall, ?_⟩
  simp only [Instr.exec, Core.push, Core.stack, hss _ (.inr rfl)]
  have hk := And.intro ((hss _ (.inl rfl)).trans h.cs) ((hss _ (.inr rfl)).trans h.ss)
  refine ⟨⟨⟨h.code, h.data⟩, hk.1, hk.2⟩, rfl, rfl, rfl, heflags, ?_, ?_, h.bases⟩
  · rw [← htf]
    simp only [Function.update_self]
    grind
  · have hmem := hgrown.stack
    rw [Core.push, Core.stack, Core.pushes_esp, Core.pushes_seg, Core.pushes_base, htf] at hmem
    simp only [Function.update_self, hback, htf]
    exact hmem

/-- The instructions from the vector to `trap`. -/
def enterCode (Y : Symbols) (v : BitVec 8) : List Instr :=
  (vectorOps v).map .op ++ .jmp Y.alltraps :: (alltrapsOps.map .op ++ [.call Y.trap])

/-- **The way into `trap`**, for every vector and from user code and kernel code alike. -/
lemma run_enter (hload : Loaded Y code) (h : Stacked s) (v : BitVec 8) {err : Option Word}
    (herr : err.isSome = hasErr v) : ∃ s',
    (s.deliver (idt Y) v err).run (idt Y) code (enterCode Y v).length = some s' ∧
    Entered Y s v (err.getD 0) s' := by
  obtain ⟨A, hrun, hgrown, heip, heflags⟩ := run_vector hload h v herr
  obtain ⟨s', hrun', hentered⟩ := run_alltraps hload hgrown heip heflags
  have hlen : (enterCode Y v).length = (vectorOps v).length + 1 + 10 := by
    rw [enterCode, List.length_append, List.length_map, List.length_cons]
    rfl
  exact ⟨s', hlen ▸ (run_add hrun).trans hrun', hentered⟩

/-! ## The frame on the stack -/

/-- The frame of an interrupt of `s`.  Behind the frame of kernel code its stack goes on. -/
def Trapframe.of (s : Core) (v : BitVec 8) (err esp : Word) (ss : BitVec 16) : Trapframe where
  edi := s.reg .edi
  esi := s.reg .esi
  ebp := s.reg .ebp
  oesp := frameAddr s + 32
  ebx := s.reg .ebx
  edx := s.reg .edx
  ecx := s.reg .ecx
  eax := s.reg .eax
  gs := s.seg .gs
  fs := s.seg .fs
  es := s.seg .es
  ds := s.seg .ds
  trapno := v.setWidth 32
  err := err
  eip := s.eip
  cs := s.seg .cs
  eflags := s.eflags
  esp := esp
  ss := ss

namespace Entered

variable {err : Word}

/-- The words of the frame, below which are its address and the return address. -/
lemma words_eq (h : Entered Y s v err s') :
    get32 s'.mem (frameAddr s - 8) = Y.back ∧ get32 s'.mem (frameAddr s - 4) = frameAddr s ∧
    words s'.mem (frameAddr s) ((outer s).length + 17) = (saved s v err).reverse := by
  have hlen : (saved s v err).length = (outer s).length + 17 := by
    rw [saved, List.length_append, List.length_append]
    rfl
  have haddr : top s - 4 * BitVec.ofNat 32 ((outer s).length + 17 + 2) = frameAddr s - 8 := by
    rw [frameAddr, BitVec.ofNat_add]
    grind
  have h₁ : frameAddr s - 8 + 4 = frameAddr s - 4 := by grind
  have h₂ : frameAddr s - 4 + 4 = frameAddr s := by grind
  have hwords := h.stack.words
  rw [List.length_append, hlen, List.length_cons, List.length_singleton, haddr, words, h₁, words,
    h₂, List.reverse_append] at hwords
  obtain ⟨hback, hrest⟩ := List.cons.inj hwords
  obtain ⟨htf, hsaved⟩ := List.cons.inj hrest
  exact ⟨hback, htf, hsaved⟩

lemma read_eq (h : Entered Y s v err s') : ∃ esp ss,
    Trapframe.read s'.mem (frameAddr s) = .of s v err esp ss ∧
    (0 < s.cpl → esp = s.reg .esp ∧ ss = s.seg .ss) := by
  have hrev : (saved s v err).reverse = [s.reg .edi, s.reg .esi, s.reg .ebp, frameAddr s + 32,
      s.reg .ebx, s.reg .edx, s.reg .ecx, s.reg .eax, (s.seg .gs).setWidth 32,
      (s.seg .fs).setWidth 32, (s.seg .es).setWidth 32, (s.seg .ds).setWidth 32, v.setWidth 32, err,
      s.eip, (s.seg .cs).setWidth 32, s.eflags] ++ (outer s).reverse := by
    have hoesp : top s - 4 * BitVec.ofNat 32 ((outer s).length + 5) - 4 * 4 = frameAddr s + 32 := by
      rw [frameAddr, BitVec.ofNat_add, BitVec.ofNat_add]
      grind
    simp only [saved, alltrapsWords, List.reverse_append, ← hoesp]
    simp
  have hget := fun k hk => get32_eq_of_words (k := k) h.words_eq.2.2 hk
  rw [hrev] at hget
  have hseg : ∀ a : BitVec 16, (a.setWidth 32).setWidth 16 = a := fun a => by simp
  refine ⟨get32 s'.mem (frameAddr s + 68), (get32 s'.mem (frameAddr s + 72)).setWidth 16, ?_, ?_⟩
  · have hword := fun k (hk : k < 17) => hget k (by omega)
    have hsel : ∀ {a : BitVec 16} {x : Word}, x = a.setWidth 32 → x.setWidth 16 = a :=
      fun hx => hx ▸ hseg _
    rw [Trapframe.read, Trapframe.of, Trapframe.mk.injEq]
    refine ⟨by simpa using hword 0 (by decide), hword 1 (by decide), hword 2 (by decide),
      hword 3 (by decide), hword 4 (by decide), hword 5 (by decide), hword 6 (by decide),
      hword 7 (by decide), hsel (hword 8 (by decide)), hsel (hword 9 (by decide)),
      hsel (hword 10 (by decide)), hsel (hword 11 (by decide)), hword 12 (by decide),
      hword 13 (by decide), hword 14 (by decide), hsel (hword 15 (by decide)),
      hword 16 (by decide), rfl, rfl⟩
  · intro hcpl
    have houter : outer s = [(s.seg .ss).setWidth 32, s.reg .esp] := if_pos hcpl
    rw [houter] at hget
    have hss : get32 s'.mem (frameAddr s + 72) = (s.seg .ss).setWidth 32 := hget 18 (by simp)
    exact ⟨hget 17 (by simp), by rw [hss, hseg]⟩

lemma mem_eq (h : Entered Y s v err s') {x : Word}
    (hx : 4 * ((outer s).length + 19) ≤ (top s - 1 - x).toNat) : s'.mem x = s.mem x := by
  have hlen : (saved s v err ++ [frameAddr s, Y.back]).length = (outer s).length + 19 := by
    rw [saved, List.length_append, List.length_append, List.length_append]
    rfl
  have houter := length_outer_le s
  have hframe := h.stack.frame x
  rw [hlen] at hframe
  generalize (outer s).length = k at *
  exact hframe (by bv_omega)

end Entered

/-- The frame of an interrupt of `s`, loaded: all registers are those of `s`, but for `eax`. -/
lemma load_of (h : Stacked s) (hk : s'.seg .ss = KDATA) {err esp r : Word} {ss : BitVec 16}
    (hesp : 0 < s.cpl → esp = s.reg .esp ∧ ss = s.seg .ss) :
    ({ Trapframe.of s v err esp ss with eax := r } : Trapframe).load (frameAddr s) s' =
      { s' with
        reg := Function.update s.reg .eax r, seg := s.seg, eip := s.eip, eflags := s.eflags } := by
  have hregs : (if 0 < s.cpl then esp else frameAddr s + 68) = s.reg .esp ∧
      (if 0 < s.cpl then ss else s'.seg .ss) = s.seg .ss := by
    by_cases hcpl : 0 < s.cpl
    · rw [if_pos hcpl, if_pos hcpl]
      exact hesp hcpl
    · rw [if_neg hcpl, if_neg hcpl, hk, h.ss (by omega), frameAddr, top, outer, if_neg hcpl,
        if_neg hcpl]
      refine ⟨?_, rfl⟩
      rw [List.length_nil]
      grind
  rw [Trapframe.load]
  congr 1
  · funext x
    cases x
    case esp => exact hregs.1
    all_goals rfl
  · funext x
    cases x
    case ss => exact hregs.2
    all_goals rfl

/-- `trap` has returned: it has kept to the calling convention and to the frame, in which it may
have set `eax`.  The last two words belong to the frame only if user code was interrupted. -/
structure Returned (Y : Symbols) (tf : Word) (s₁ : Core) (r : Word) (s₂ : Core) : Prop
    extends InKernel s₂ where
  eip : s₂.eip = Y.back
  esp : s₂.reg .esp = tf - 4
  frame : ∃ esp ss, Trapframe.read s₂.mem tf =
      { Trapframe.read s₁.mem tf with eax := r, esp := esp, ss := ss } ∧
    (0 < rpl (Trapframe.read s₁.mem tf).cs →
      esp = (Trapframe.read s₁.mem tf).esp ∧ ss = (Trapframe.read s₁.mem tf).ss)

lemma run_back (hload : Loaded Y code) (h : InKernel s) (heip : s.eip = Y.back) (n : ℕ) :
    s.run (idt Y) code (n + 1) =
      Core.run (idt Y) code n { s.setReg .esp (s.reg .esp + 4) with eip := Y.trapret } := by
  have hcode := hload.back
  rw [← heip, ← h.pc] at hcode
  obtain ⟨next, hadd, hnext⟩ := run_instr (idt Y) n hcode
  have hret : next = Y.trapret := by
    rw [← show _ = Y.trapret from hnext, h.cs, h.code, zero_add]
  rw [hadd, hret]
  rfl

lemma run_leave (hload : Loaded Y code) {tf r : Word} {s₁ s₂ : Core} (h : Returned Y tf s₁ r s₂) :
    s₂.run (idt Y) code 8 =
      some (({ Trapframe.read s₁.mem tf with eax := r } : Trapframe).load tf s₂) := by
  have htf : s₂.reg .esp + 4 = tf := by
    rw [h.esp]
    grind
  have hk : InKernel { s₂.setReg .esp tf with eip := Y.trapret } :=
    ⟨⟨h.code, h.data⟩, h.cs, h.ss⟩
  obtain ⟨esp, ss, hframe, houter⟩ := h.frame
  rw [run_back hload h.toInKernel h.eip, htf, run_trapret hload hk rfl]
  simp only [Core.setReg, Function.update_self]
  rw [hframe, ← Trapframe.load_outer (f := { Trapframe.read s₁.mem tf with eax := r }) houter]
  rfl

end

/-! ## A memory with the code in it -/

/-- What stands from one place to the next. -/
def vectorCode (Y : Symbols) (v : BitVec 8) : List Instr :=
  (vectorOps v).map .op ++ [.jmp Y.alltraps]

/-- Addresses for the code, every instruction taking one byte. -/
def imageSymbols : Symbols where
  vectors v := 4 * v.setWidth 32
  alltraps := 0x400
  trap := 0x1000
  back := 0x40A
  trapret := 0x40B

/-- The code at these addresses. -/
def image (a : Word) : Option (Instr × Word) :=
  (if a.toNat < 0x400 then (vectorCode imageSymbols (BitVec.ofNat 8 (a.toNat / 4)))[a.toNat % 4]?
    else (alltrapsOps.map .op ++ [.call imageSymbols.trap, .op (.addl 4 .esp)] ++
      trapretOps.map .op ++ [.iret])[a.toNat - 0x400]?).map fun i => (i, 1)

lemma image_vector (v : BitVec 8) {k : ℕ} {i : Instr}
    (hi : (vectorCode imageSymbols v)[k]? = some i) :
    image (imageSymbols.vectors v + BitVec.ofNat 32 k) = some (i, 1) := by
  have hk : k < 4 := by
    have hlen : (vectorCode imageSymbols v).length ≤ 3 := by
      rw [vectorCode, vectorOps]
      cases hasErr v <;> simp
    have := (List.getElem?_eq_some_iff.mp hi).1
    omega
  have haddr : (imageSymbols.vectors v + BitVec.ofNat 32 k).toNat = 4 * v.toNat + k := by
    show (4 * v.setWidth 32 + BitVec.ofNat 32 k).toNat = 4 * v.toNat + k
    bv_omega
  have hv := v.isLt
  have hdiv : (4 * v.toNat + k) / 4 = v.toNat := by omega
  have hmod : (4 * v.toNat + k) % 4 = k := by omega
  rw [image, haddr, if_pos (by omega), hdiv, hmod, BitVec.ofNat_toNat, BitVec.setWidth_eq, hi]
  rfl

lemma image_loaded : Loaded imageSymbols image where
  vector v := ⟨_, codeAt_of_getElem fun _ _ hi => image_vector v hi⟩
  alltraps := by repeat' first | rfl | refine ⟨1, rfl, ?_⟩
  back := ⟨1, rfl, rfl⟩
  trapret := ⟨0x412, by repeat' first | rfl | refine ⟨1, rfl, ?_⟩⟩

/-- **Traps are transparent.**  Whatever is interrupted, user code or kernel code, and for whatever
reason, `trap` is called in the kernel's segments and finds in its argument the frame with all
registers, the number of the trap and the error code; only the stack below the interrupted code has
been written.  When `trap` has returned, all registers are again what they were, but for `eax`,
which is that of the frame. -/
theorem trap_transparent (Y : Symbols) (code : Code) (hload : Loaded Y code) (s : Core)
    (h : Stacked s) (v : BitVec 8) (err : Option Word) (herr : err.isSome = hasErr v) :
    ∃ n s₁ tf, (s.deliver (idt Y) v err).run (idt Y) code n = some s₁ ∧ s₁.eip = Y.trap ∧
      InKernel s₁ ∧ s₁.seg .ds = KDATA ∧ s₁.seg .es = KDATA ∧ s₁.reg .esp = tf - 8 ∧
      get32 s₁.mem (tf - 8) = Y.back ∧ get32 s₁.mem (tf - 4) = tf ∧
      (∃ esp ss, Trapframe.read s₁.mem tf = .of s v (err.getD 0) esp ss ∧
        (0 < s.cpl → esp = s.reg .esp ∧ ss = s.seg .ss)) ∧
      (∀ x, 84 ≤ (top s - 1 - x).toNat → s₁.mem x = s.mem x) ∧
      ∀ r s₂, Returned Y tf s₁ r s₂ → s₂.run (idt Y) code 8 =
        some { s₂ with
          reg := Function.update s.reg .eax r
          seg := s.seg
          eip := s.eip
          eflags := s.eflags } := by
  obtain ⟨s₁, hrun, hin⟩ := run_enter hload h v herr
  obtain ⟨esp, ss, hread, hesp⟩ := hin.read_eq
  obtain ⟨hback, harg, -⟩ := hin.words_eq
  refine ⟨_, s₁, frameAddr s, hrun, hin.eip, hin.toInKernel, hin.ds, hin.es, hin.esp, hback, harg,
    ⟨esp, ss, hread, hesp⟩, fun x hx => hin.mem_eq ?_, ?_⟩
  · have hlen := length_outer_le s
    omega
  · intro r s₂ hret
    rw [run_leave hload hret, hread, load_of h hret.ss hesp]

/-- User code, with its stack for interrupts below 2 MB. -/
def userCore : Core where
  reg := fun _ => 0x1000
  seg := fun
    | .cs => UCODE
    | _ => UDATA
  eip := 0x20
  eflags := FL_IF
  mem := fun _ => 0
  base := fun sel => if sel = KCODE ∨ sel = KDATA then 0 else 0x100000
  ss0 := KDATA
  esp0 := 0x200000

/-- A clock tick during user code, with the frame that `trap` is called with. -/
theorem trap_transparent_tick : ∃ (n : ℕ) (s₁ s₂ s₃ : Core) (tf : Word),
    (userCore.deliver (idt imageSymbols) 32 none).run (idt imageSymbols) image n = some s₁ ∧
    s₁.eip = imageSymbols.trap ∧
    Trapframe.read s₁.mem tf = .of userCore 32 0 0x1000 UDATA ∧
    s₂.run (idt imageSymbols) image 8 = some s₃ ∧
    s₃.eip = 0x20 ∧ s₃.seg .cs = UCODE ∧ s₃.reg .eax = 0x1000 ∧ s₃.reg .esp = 0x1000 := by
  obtain ⟨n, s₁, tf, hrun, heip, hk, -, -, -, -, -, ⟨esp, ss, hread, hesp⟩, -, hback⟩ :=
    trap_transparent imageSymbols image image_loaded userCore
      ⟨⟨rfl, rfl⟩, fun _ => rfl, fun h => absurd h (by decide)⟩ 32 none rfl
  obtain ⟨rfl, rfl⟩ := hesp (by decide)
  have hreg : Function.update s₁.reg .esp (tf - 4) .esp = tf - 4 := Function.update_self ..
  -- `trap` leaves the frame as it is
  have hret : Returned imageSymbols tf s₁ 0x1000
      { s₁ with reg := Function.update s₁.reg .esp (tf - 4), eip := imageSymbols.back } := by
    refine ⟨⟨⟨hk.code, hk.data⟩, hk.cs, hk.ss⟩, rfl, hreg, ?_⟩
    refine ⟨0x1000, UDATA, ?_, ?_⟩
    · show Trapframe.read s₁.mem tf = _
      rw [hread]
      rfl
    · rw [hread]
      exact fun _ => ⟨rfl, rfl⟩
  exact ⟨n, s₁, _, _, tf, hrun, heip, hread, hback 0x1000 _ hret, rfl, rfl, rfl, rfl⟩

end Xv6.Asm
