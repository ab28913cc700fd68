import Mathlib.Data.BitVec
import Mathlib.Logic.Function.Basic
import Mathlib.Tactic.Common

/-!
# A fragment of the x86

The 32-bit processor, as far as code that saves and restores registers needs it: the general and
segment registers, stacks, interrupts with and without a change of the privilege level, and memory
with one byte at every linear address.  A segment is its base; limits are left to the user of this
file, and so are the encodings: `CodeAt` says that instructions stand behind each other in memory,
whatever their lengths are.

* `Core.deliver` is what the processor does before the first instruction of a handler, and
  `Core.iret` the way back.  Both look at the privilege levels, since the stack is changed only if
  they differ.
* Operations, which go on to the next instruction, are kept apart from instructions that jump.
  `run_ops` executes a list of operations at once.
* `Pushed m top l m'` says that `m'` is `m` with the words of `l` below `top` and nothing else
  changed, and `pushed_pushes` that this is what a list of pushes does.

Addresses are words, and a stack that runs below 0 goes on at the other end of memory.  So the
lemmas on memory measure distances: `put32_of_far` asks how far an address is behind the word, and
`Pushed` how far it is below the top.
-/

namespace Lib.X86

abbrev Word := BitVec 32

/-- Memory. -/
abbrev Mem := Word → BitVec 8

/-! ## Words in memory -/

section

/-- The word at an address. -/
def get32 (m : Mem) (a : Word) : Word := m (a + 3) ++ m (a + 2) ++ m (a + 1) ++ m a

/-- A word is stored. -/
def put32 (m : Mem) (a v : Word) : Mem := fun x =>
  if x = a then v.extractLsb' 0 8
  else if x = a + 1 then v.extractLsb' 8 8
  else if x = a + 2 then v.extractLsb' 16 8
  else if x = a + 3 then v.extractLsb' 24 8
  else m x

/-- Words behind each other. -/
def words (m : Mem) : Word → ℕ → List Word
  | _, 0 => []
  | a, n + 1 => get32 m a :: words m (a + 4) n

variable {m m' : Mem} {a b v x : Word} {n : ℕ}

lemma get32_put32_self (m : Mem) (a v : Word) : get32 (put32 m a v) a = v := by
  have h₁ : a + 1 ≠ a := by bv_omega
  have h₂ : a + 2 ≠ a ∧ a + 2 ≠ a + 1 := by constructor <;> bv_omega
  have h₃ : a + 3 ≠ a ∧ a + 3 ≠ a + 1 ∧ a + 3 ≠ a + 2 := by refine ⟨?_, ?_, ?_⟩ <;> bv_omega
  simp only [get32, put32, if_true, if_neg h₁, if_neg h₂.1, if_neg h₂.2, if_neg h₃.1,
    if_neg h₃.2.1, if_neg h₃.2.2]
  refine BitVec.eq_of_getLsbD_eq fun i hi => ?_
  have hbyte : ∀ k j : ℕ, j < 8 → i = k + j → (decide (j < 8) && v.getLsbD (k + j)) = v.getLsbD i :=
    fun k j hj hi => by rw [decide_eq_true hj, Bool.true_and, hi]
  simp only [BitVec.getLsbD_append, BitVec.getLsbD_extractLsb']
  split_ifs with h₀ h₁ h₂
  · exact hbyte 0 i h₀ (by omega)
  · exact hbyte 8 (i - 8) h₁ (by omega)
  · exact hbyte 16 (i - 8 - 8) h₂ (by omega)
  · exact hbyte 24 (i - 8 - 8 - 8) (by omega) (by omega)

lemma put32_of_far (m : Mem) (v : Word) (h : 4 ≤ (x - a).toNat) : put32 m a v x = m x := by
  have h₀ : x ≠ a := by bv_omega
  have h₁ : x ≠ a + 1 := by bv_omega
  have h₂ : x ≠ a + 2 := by bv_omega
  have h₃ : x ≠ a + 3 := by bv_omega
  simp only [put32, if_neg h₀, if_neg h₁, if_neg h₂, if_neg h₃]

lemma get32_congr (h : ∀ x, (x - a).toNat < 4 → m' x = m x) : get32 m' a = get32 m a := by
  rw [get32, get32, h a (by bv_omega), h (a + 1) (by bv_omega), h (a + 2) (by bv_omega),
    h (a + 3) (by bv_omega)]

lemma length_words (m : Mem) (a : Word) (n : ℕ) : (words m a n).length = n := by
  induction n generalizing a with
  | zero => rfl
  | succ n ih => rw [words, List.length_cons, ih]

lemma words_add (m : Mem) (a : Word) (n k : ℕ) :
    words m a (n + k) = words m a n ++ words m (a + 4 * BitVec.ofNat 32 n) k := by
  induction n generalizing a with
  | zero =>
    have hzero : a + 4 * BitVec.ofNat 32 0 = a := by grind
    rw [hzero, Nat.zero_add]
    rfl
  | succ n ih =>
    have hnext : a + 4 + 4 * BitVec.ofNat 32 n = a + 4 * BitVec.ofNat 32 (n + 1) := by
      rw [BitVec.ofNat_add]
      grind
    rw [Nat.add_right_comm, words, words, ih, hnext, List.cons_append]

lemma getElem?_words (m : Mem) (a : Word) {n k : ℕ} (hk : k < n) :
    (words m a n)[k]? = some (get32 m (a + 4 * BitVec.ofNat 32 k)) := by
  obtain ⟨j, rfl⟩ := Nat.exists_eq_add_of_lt hk
  rw [Nat.add_assoc, words_add, List.getElem?_append_right (length_words m a k).le, length_words,
    Nat.sub_self]
  rfl

lemma get32_eq_of_words {l : List Word} {k : ℕ} (h : words m a n = l) (hk : k < n) :
    get32 m (a + 4 * BitVec.ofNat 32 k) = l.getD k 0 := by
  rw [← h, List.getD_eq_getElem?_getD, getElem?_words m a hk, Option.getD_some]

lemma words_congr (hn : 4 * n ≤ 2 ^ 32) (h : ∀ x, (x - a).toNat < 4 * n → m' x = m x) :
    words m' a n = words m a n := by
  induction n generalizing a with
  | zero => rfl
  | succ n ih =>
    have hhead : get32 m' a = get32 m a := get32_congr fun x hx => h x (by omega)
    have htail : words m' (a + 4) n = words m (a + 4) n :=
      ih (by omega) fun x hx => h x (by bv_omega)
    rw [words, words, hhead, htail]

end

/-! ## The processor -/

inductive Reg
  | eax | ecx | edx | ebx | esp | ebp | esi | edi
  deriving DecidableEq, Repr

inductive Seg
  | cs | ss | ds | es | fs | gs
  deriving DecidableEq, Repr

/-- The interrupt flag. -/
abbrev FL_IF : Word := 0x200

/-- The privilege level of a selector. -/
def rpl (sel : BitVec 16) : ℕ := (sel &&& 3).toNat

/-- What the processor reads in an entry of the interrupt descriptor table. -/
structure Gate where
  offset : Word
  selector : BitVec 16
  /-- The gate is one that turns interrupts off. -/
  interrupt : Bool
  /-- The level from which code may name the gate in `int`. -/
  dpl : ℕ

/-- A processor with its registers and memory. -/
@[ext] structure Core where
  reg : Reg → Word
  seg : Seg → BitVec 16
  eip : Word
  eflags : Word
  mem : Mem
  /-- The bases of the segments. -/
  base : BitVec 16 → Word
  /-- The stack for interrupts of less privileged code. -/
  ss0 : BitVec 16
  esp0 : Word

namespace Core

variable (s : Core)

/-- The current privilege level. -/
def cpl : ℕ := rpl (s.seg .cs)

def setReg (r : Reg) (v : Word) : Core := { s with reg := Function.update s.reg r v }

def setSeg (r : Seg) (v : BitVec 16) : Core := { s with seg := Function.update s.seg r v }

/-- The linear address of an offset in the stack segment. -/
def stack (a : Word) : Word := s.base (s.seg .ss) + a

/-- The linear address of the next instruction. -/
def pc : Word := s.base (s.seg .cs) + s.eip

def push (v : Word) : Core :=
  { s with
    reg := Function.update s.reg .esp (s.reg .esp - 4)
    mem := put32 s.mem (s.stack (s.reg .esp - 4)) v }

/-- The word `k` words above the top of the stack. -/
def peek (k : ℕ) : Word := get32 s.mem (s.stack (s.reg .esp + 4 * BitVec.ofNat 32 k))

/-- The stack pointer moves up by `k` words. -/
def drop (k : ℕ) : Core := s.setReg .esp (s.reg .esp + 4 * BitVec.ofNat 32 k)

/-- Several pushes. -/
def pushes (l : List Word) : Core := l.foldl push s

end Core

/-- The operations of the fragment, in the order of operands of the assembler. -/
inductive Op
  | pushl (r : Reg)
  | pushlSeg (r : Seg)
  | pushlImm (v : Word)
  | pushal
  | poplSeg (r : Seg)
  | popal
  | movwImm (v : BitVec 16) (dst : Reg)
  | movwSeg (src : Reg) (dst : Seg)
  | addl (v : Word) (dst : Reg)

/-- What an operation does. -/
def Op.exec (s : Core) : Op → Core
  | pushl r => s.push (s.reg r)
  | pushlSeg r => s.push ((s.seg r).setWidth 32)
  | pushlImm v => s.push v
  | pushal => s.pushes [s.reg .eax, s.reg .ecx, s.reg .edx, s.reg .ebx, s.reg .esp, s.reg .ebp,
      s.reg .esi, s.reg .edi]
  | poplSeg r => (s.drop 1).setSeg r ((s.peek 0).setWidth 16)
  | popal =>
    ((((((((s.drop 8).setReg .edi (s.peek 0)).setReg .esi (s.peek 1)).setReg .ebp
      (s.peek 2)).setReg .ebx (s.peek 4)).setReg .edx (s.peek 5)).setReg .ecx (s.peek 6)).setReg
      .eax (s.peek 7))
  | movwImm v dst => s.setReg dst ((s.reg dst).extractLsb' 16 16 ++ v)
  | movwSeg src dst => s.setSeg dst ((s.reg src).setWidth 16)
  | addl v dst => s.setReg dst (s.reg dst + v)

/-- Instructions: operations, and what jumps. -/
inductive Instr
  | op (o : Op)
  | call (f : Word)
  | jmp (f : Word)
  | int (v : BitVec 8)
  | iret

variable (idt : BitVec 8 → Gate)

/-- The stack for an interrupt.  If less privileged code is interrupted, the stack is changed and
the old one is pushed. -/
def Core.inner (s : Core) (level : ℕ) : Core :=
  if level < s.cpl then
    ((s.setSeg .ss s.ss0).setReg .esp s.esp0).pushes [(s.seg .ss).setWidth 32, s.reg .esp]
  else s

/-- An interrupt is delivered; some exceptions push an error code. -/
def Core.deliver (s : Core) (v : BitVec 8) (err : Option Word) : Core :=
  let g := idt v
  let frame := [s.eflags, (s.seg .cs).setWidth 32, s.eip] ++ err.toList
  { (((s.inner (rpl g.selector)).pushes frame).setSeg .cs g.selector) with
    eip := g.offset
    eflags := if g.interrupt then s.eflags &&& ~~~ FL_IF else s.eflags }

/-- `iret`, back to less privileged code or not. -/
def Core.iret (s : Core) : Core :=
  let cs := (s.peek 1).setWidth 16
  let s' := { (s.drop 3).setSeg .cs cs with eip := s.peek 0, eflags := s.peek 2 }
  if s.cpl < rpl cs then (s'.setReg .esp (s.peek 3)).setSeg .ss ((s.peek 4).setWidth 16) else s'

/-- An instruction, with the offset of the next one.  Code may not name a gate that is meant for
more privileged code: that is a general protection fault, with the entry in its error code. -/
def Instr.exec (s : Core) (next : Word) : Instr → Core
  | op o => { o.exec s with eip := next }
  | call f => { s.push next with eip := f }
  | jmp f => { s with eip := f }
  | int v =>
    if (idt v).dpl < s.cpl then s.deliver idt 13 (some (8 * v.setWidth 32 + 2))
    else { s with eip := next }.deliver idt v none
  | iret => s.iret

/-- The instructions in memory, with their lengths. -/
abbrev Code := Word → Option (Instr × Word)

variable (code : Code)

/-- The next instruction is executed. -/
def Core.step (s : Core) : Option Core :=
  (code s.pc).map fun x => x.1.exec idt s (s.eip + x.2)

/-- Instructions are executed. -/
def Core.run : ℕ → Core → Option Core
  | 0, s => some s
  | n + 1, s => (s.step idt code).bind (run n)

/-- Instructions stand behind each other from one linear address to another. -/
def CodeAt : Word → List Instr → Word → Prop
  | a, [], b => a = b
  | a, i :: is, b => ∃ len, code a = some (i, len) ∧ CodeAt (a + len) is b

lemma codeAt_of_getElem {code : Code} {a : Word} {is : List Instr}
    (h : ∀ k i, is[k]? = some i → code (a + BitVec.ofNat 32 k) = some (i, 1)) :
    CodeAt code a is (a + BitVec.ofNat 32 is.length) := by
  induction is generalizing a with
  | nil =>
    show a = a + BitVec.ofNat 32 0
    grind
  | cons i is ih =>
    have hhead : code a = some (i, 1) := by simpa using h 0 i rfl
    have hnext : ∀ k : ℕ, a + 1 + BitVec.ofNat 32 k = a + BitVec.ofNat 32 (k + 1) := by
      intro k
      rw [BitVec.ofNat_add]
      grind
    refine ⟨1, hhead, ?_⟩
    rw [List.length_cons, ← hnext]
    exact ih fun k j hk => hnext k ▸ h (k + 1) j hk

/-! ## Registers -/

section

variable {idt : BitVec 8 → Gate} {code : Code} {s s' : Core}

namespace Core

@[simp] lemma setReg_reg (r r' : Reg) (v : Word) :
    (s.setReg r v).reg r' = if r' = r then v else s.reg r' := Function.update_apply ..

@[simp] lemma setReg_seg (r : Reg) (v : Word) : (s.setReg r v).seg = s.seg := rfl

@[simp] lemma setReg_mem (r : Reg) (v : Word) : (s.setReg r v).mem = s.mem := rfl

@[simp] lemma setReg_base (r : Reg) (v : Word) : (s.setReg r v).base = s.base := rfl

@[simp] lemma setSeg_seg (r r' : Seg) (v : BitVec 16) :
    (s.setSeg r v).seg r' = if r' = r then v else s.seg r' := Function.update_apply ..

end Core

/-! ## Pushes -/

/-- What pushes have left in memory: the words, the last one first, and nothing else. -/
structure Pushed (m : Mem) (top : Word) (l : List Word) (m' : Mem) : Prop where
  words : words m' (top - 4 * BitVec.ofNat 32 l.length) l.length = l.reverse
  frame : ∀ x, 4 * l.length ≤ (x - (top - 4 * BitVec.ofNat 32 l.length)).toNat → m' x = m x

lemma Pushed.push {m m' : Mem} {top v : Word} {l : List Word} (h : Pushed m top l m')
    (hl : 4 * (l.length + 1) < 2 ^ 32) :
    Pushed m top (l ++ [v]) (put32 m' (top - 4 * BitVec.ofNat 32 l.length - 4) v) := by
  set a := top - 4 * BitVec.ofNat 32 l.length with ha
  have hlen : (l ++ [v]).length = l.length + 1 := List.length_append
  have haddr : top - 4 * BitVec.ofNat 32 (l ++ [v]).length = a - 4 := by
    rw [hlen, BitVec.ofNat_add, ha]
    grind
  refine ⟨?_, fun x hx => ?_⟩
  · rw [haddr, hlen, X86.words, get32_put32_self, List.reverse_append, ← h.words]
    have hback : a - 4 + 4 = a := by grind
    rw [hback]
    refine congrArg (v :: ·) (words_congr (by omega) fun x hx => put32_of_far m' v ?_)
    bv_omega
  · rw [haddr, hlen] at hx
    rw [put32_of_far m' v (by bv_omega), h.frame x (by bv_omega)]

lemma Pushed.append {m m' m'' : Mem} {top : Word} {l l' : List Word} (h : Pushed m top l m')
    (h' : Pushed m' (top - 4 * BitVec.ofNat 32 l.length) l' m'')
    (hl : 4 * (l.length + l'.length) < 2 ^ 32) : Pushed m top (l ++ l') m'' := by
  set a := top - 4 * BitVec.ofNat 32 l.length with ha
  set b := a - 4 * BitVec.ofNat 32 l'.length with hb
  have hlen : (l ++ l').length = l.length + l'.length := List.length_append
  have haddr : top - 4 * BitVec.ofNat 32 (l ++ l').length = b := by
    rw [hlen, BitVec.ofNat_add, hb, ha]
    grind
  have hback : b + 4 * BitVec.ofNat 32 l'.length = a := by grind
  have hwords : X86.words m'' a l.length = l.reverse := by
    rw [← h.words]
    refine words_congr (by omega) fun x hx => h'.frame x ?_
    rw [← hb]
    bv_omega
  refine ⟨?_, fun x hx => ?_⟩
  · rw [haddr, hlen, Nat.add_comm, words_add, hback, hwords, List.reverse_append]
    exact congrArg (· ++ l.reverse) h'.words
  · rw [haddr, hlen] at hx
    rw [h'.frame x (by rw [← hb]; omega), h.frame x (by rw [← ha]; bv_omega)]

namespace Core

lemma pushes_concat (l : List Word) (v : Word) : s.pushes (l ++ [v]) = (s.pushes l).push v := by
  rw [pushes, pushes, List.foldl_append]
  rfl

lemma pushes_append (l l' : List Word) : s.pushes (l ++ l') = (s.pushes l).pushes l' :=
  List.foldl_append

lemma pushes_eq (l : List Word) : s.pushes l =
    { s with
      reg := Function.update s.reg .esp (s.reg .esp - 4 * BitVec.ofNat 32 l.length)
      mem := (s.pushes l).mem } := by
  induction l using List.reverseRecOn with
  | nil =>
    have hzero : s.reg .esp - 4 * BitVec.ofNat 32 0 = s.reg .esp := by grind
    rw [List.length_nil, hzero, Function.update_eq_self]
    rfl
  | append_singleton l v ih =>
    rw [pushes_concat, ih, push]
    have hesp : s.reg .esp - 4 * BitVec.ofNat 32 l.length - 4 =
        s.reg .esp - 4 * BitVec.ofNat 32 (l ++ [v]).length := by
      rw [List.length_append, List.length_singleton, BitVec.ofNat_add]
      grind
    simp only [Function.update_self, Function.update_idem, hesp]

@[simp] lemma pushes_seg (l : List Word) : (s.pushes l).seg = s.seg := by rw [pushes_eq]

@[simp] lemma pushes_base (l : List Word) : (s.pushes l).base = s.base := by rw [pushes_eq]

@[simp] lemma pushes_esp (l : List Word) :
    (s.pushes l).reg .esp = s.reg .esp - 4 * BitVec.ofNat 32 l.length := by
  rw [pushes_eq]
  exact Function.update_self Reg.esp _ s.reg

lemma pushes_reg (l : List Word) {r : Reg} (hr : r ≠ .esp) : (s.pushes l).reg r = s.reg r := by
  rw [pushes_eq]
  exact Function.update_of_ne hr _ s.reg

lemma pushes_eip (l : List Word) (e : Word) :
    ({ s with eip := e } : Core).pushes l = { s.pushes l with eip := e } := by
  induction l generalizing s with
  | nil => rfl
  | cons v l ih => exact ih (s := s.push v)

lemma pushes_setSeg_cs (l : List Word) (w : BitVec 16) :
    (s.pushes l).setSeg .cs w = (s.setSeg .cs w).pushes l := by
  induction l generalizing s with
  | nil => rfl
  | cons v l ih =>
    have hss : Function.update s.seg .cs w .ss = s.seg .ss := Function.update_of_ne (by decide) _ _
    have hpush : (s.push v).setSeg .cs w = (s.setSeg .cs w).push v := by
      simp only [push, setSeg, stack, hss]
    exact (ih (s := s.push v)).trans (congrArg (·.pushes l) hpush)

/-- **What is on the stack after pushes.** -/
lemma pushed_pushes {l : List Word} (hl : 4 * l.length < 2 ^ 32) :
    Pushed s.mem (s.stack (s.reg .esp)) l (s.pushes l).mem := by
  induction l using List.reverseRecOn with
  | nil => exact ⟨rfl, fun _ _ => rfl⟩
  | append_singleton l v ih =>
    rw [List.length_append, List.length_singleton] at hl
    have hpush := (ih (by omega)).push (v := v) (by omega)
    have haddr : (s.pushes l).stack ((s.pushes l).reg .esp - 4) =
        s.stack (s.reg .esp) - 4 * BitVec.ofNat 32 l.length - 4 := by
      rw [stack, pushes_seg, pushes_base, pushes_esp, stack]
      grind
    rw [pushes_concat, push, haddr]
    exact hpush

/-- Pushes change the stack pointer and memory, and leave the words on the stack. -/
lemma exists_pushes {l : List Word} (hl : 4 * l.length < 2 ^ 32) : ∃ m,
    s.pushes l =
      { s with
        reg := Function.update s.reg .esp (s.reg .esp - 4 * BitVec.ofNat 32 l.length), mem := m } ∧
    Pushed s.mem (s.stack (s.reg .esp)) l m :=
  ⟨_, pushes_eq l, pushed_pushes hl⟩

end Core

/-! ## Straight-line code -/

lemma exec_pushlSeg_pushes (l : List Word) (r : Seg) :
    Op.exec (s.pushes l) (.pushlSeg r) = s.pushes (l ++ [(s.seg r).setWidth 32]) := by
  rw [Op.exec, Core.pushes_seg, Core.pushes_concat]

lemma exec_pushal_pushes (l : List Word) : Op.exec (s.pushes l) .pushal =
    s.pushes (l ++ [s.reg .eax, s.reg .ecx, s.reg .edx, s.reg .ebx,
      s.reg .esp - 4 * BitVec.ofNat 32 l.length, s.reg .ebp, s.reg .esi, s.reg .edi]) := by
  rw [Op.exec, Core.pushes_append, Core.pushes_esp, Core.pushes_reg, Core.pushes_reg,
    Core.pushes_reg, Core.pushes_reg, Core.pushes_reg, Core.pushes_reg, Core.pushes_reg]
  all_goals decide

/-- The state after operations. -/
def execs (s : Core) (os : List Op) : Core := os.foldl Op.exec s

@[simp] lemma execs_nil : execs s [] = s := rfl

@[simp] lemma execs_cons (o : Op) (os : List Op) : execs s (o :: os) = execs (o.exec s) os := rfl

lemma execs_append (os os' : List Op) : execs s (os ++ os') = execs (execs s os) os' :=
  List.foldl_append

/-- Operations load no code segment and no descriptor table. -/
def Op.tame : Op → Bool
  | .poplSeg r | .movwSeg _ r => r ≠ .cs
  | _ => true

lemma Op.exec_keeps {o : Op} (h : o.tame) : (o.exec s).seg .cs = s.seg .cs ∧
    (o.exec s).base = s.base := by
  cases o with
  | poplSeg r | movwSeg _ r =>
    have hr : Seg.cs ≠ r := Ne.symm (of_decide_eq_true h)
    exact ⟨(Core.setSeg_seg ..).trans (if_neg hr), rfl⟩
  | _ => exact ⟨rfl, rfl⟩

lemma Op.exec_eip (o : Op) (e : Word) :
    o.exec { s with eip := e } = { o.exec s with eip := e } := by
  cases o with
  | pushal => exact Core.pushes_eip _ e
  | popal => simp only [Op.exec, Core.setReg, Core.drop, Core.peek, Core.stack]
  | _ => rfl

lemma execs_eip (os : List Op) (e : Word) :
    execs { s with eip := e } os = { execs s os with eip := e } := by
  induction os generalizing s with
  | nil => rfl
  | cons o os ih =>
    rw [execs, List.foldl_cons, Op.exec_eip]
    exact ih

lemma run_add {n k : ℕ} {s s' : Core} (h : s.run idt code n = some s') :
    s.run idt code (n + k) = s'.run idt code k := by
  induction n generalizing s with
  | zero =>
    obtain rfl : s = s' := Option.some.inj h
    rw [Nat.zero_add]
  | succ n ih =>
    rw [Core.run] at h
    obtain ⟨s₁, hstep, hrun⟩ := Option.bind_eq_some_iff.mp h
    rw [Nat.add_right_comm, Core.run, hstep, Option.bind_some, ih hrun]

variable (idt) in
lemma run_instr {i : Instr} {is : List Instr} {b : Word} (n : ℕ)
    (h : CodeAt code s.pc (i :: is) b) :
    ∃ next, s.run idt code (n + 1) = (i.exec idt s next).run idt code n ∧
      CodeAt code (s.base (s.seg .cs) + next) is b := by
  obtain ⟨len, hcode, hrest⟩ := h
  have hstep : s.step idt code = some (i.exec idt s (s.eip + len)) := by
    rw [Core.step, hcode, Option.map_some]
  have hpc : s.base (s.seg .cs) + (s.eip + len) = s.pc + len := by
    rw [Core.pc, BitVec.add_assoc]
  exact ⟨s.eip + len, by rw [Core.run, hstep, Option.bind_some], hpc ▸ hrest⟩

variable (idt) in
/-- **Operations behind each other are executed.** -/
lemma run_ops {os : List Op} {is : List Instr} {b : Word} (n : ℕ) (ht : ∀ o ∈ os, o.tame)
    (h : CodeAt code s.pc (os.map .op ++ is) b) :
    ∃ e, s.run idt code (os.length + n) = ({ execs s os with eip := e } : Core).run idt code n ∧
      CodeAt code ({ execs s os with eip := e } : Core).pc is b := by
  induction os generalizing s with
  | nil => exact ⟨s.eip, by rw [List.length_nil, Nat.zero_add]; rfl, h⟩
  | cons o os ih =>
    obtain ⟨next, hstep, hrest⟩ := run_instr idt (os.length + n) h
    obtain ⟨hcs, hbase⟩ := Op.exec_keeps (s := s) (ht o List.mem_cons_self)
    have hpc : ({ o.exec s with eip := next } : Core).pc = s.base (s.seg .cs) + next := by
      rw [Core.pc, hcs, hbase]
    obtain ⟨e, hrun, hat⟩ := ih (s := { o.exec s with eip := next })
      (fun o' ho' => ht o' (List.mem_cons_of_mem o ho')) (hpc ▸ hrest)
    rw [execs_eip] at hrun hat
    refine ⟨e, ?_, hat⟩
    rw [List.length_cons, Nat.add_right_comm, hstep]
    exact hrun

end

end Lib.X86
