import Xv6.Kernel.Mem
import Mathlib.Data.List.Basic

/-!
# The console input ring

`consoleintr` edits a line in a ring of `INPUT_BUF` bytes, and `consoleread` takes committed lines
out of it.  The three indices of the ring are 32-bit numbers that are never reduced modulo the
size of the ring and wrap after enough input.

`Line` is what the ring is for: a queue of committed bytes and a line that is still edited.
`Holds` says that a ring holds a line, and `console_refines` says that any sequence of received
characters and reads does to the ring what it does to the line.

`Input.window` is the list of bytes between two indices.  The proofs about it are about differences
of indices, which stay below `INPUT_BUF` when the indices themselves wrap; that `INPUT_BUF` divides
`2 ^ 32` is used once, in `slot_eq`.  Reads run here without being interrupted;
`Xv6.Console.Preempted` is about those that are.
-/

namespace Xv6

open Lib

/-! ## The ring -/

abbrev INPUT_BUF : ℕ := 128

/-- `struct input`, and what `consputc` has sent to the serial port. -/
structure Input where
  buf : ℕ → UInt8
  /-- Read index. -/
  r : UInt32
  /-- Write index. -/
  w : UInt32
  /-- Edit index. -/
  e : UInt32
  uart : List UInt8

/-- `C('D')`. -/
abbrev ctrlD : UInt8 := 4
/-- `C('P')`. -/
abbrev ctrlP : UInt8 := 16
/-- `C('U')`. -/
abbrev ctrlU : UInt8 := 21
/-- `C('H')`. -/
abbrev ctrlH : UInt8 := 8
/-- `'\x7f'`. -/
abbrev delete : UInt8 := 0x7f
/-- `'\n'`. -/
abbrev newline : UInt8 := 10
/-- `'\r'`. -/
abbrev carriageReturn : UInt8 := 13

namespace Input

/-- The slot of an index, `i % INPUT_BUF`. -/
def slot (i : UInt32) : ℕ := i.toNat % INPUT_BUF

def byte (s : Input) (i : UInt32) : UInt8 := s.buf (slot i)

/-- `input.e--; consputc(BACKSPACE)`. -/
def rubOut (s : Input) : Input :=
  { s with e := s.e - 1, uart := s.uart ++ [8, 32, 8] }

/-- The loop of `C('U')`, which makes at most `e - w` turns. -/
def killLine : ℕ → Input → Input
  | 0, s => s
  | turns + 1, s =>
    if s.e ≠ s.w ∧ s.byte (s.e - 1) ≠ newline then killLine turns s.rubOut else s

/-- `input.buf[input.e++ % INPUT_BUF] = c; consputc(c)`. -/
def store (c : UInt8) (s : Input) : Input :=
  { s with buf := Function.update s.buf (slot s.e) c, e := s.e + 1, uart := s.uart ++ [c] }

/-- The `default` case of `consoleintr`. -/
def put (c : UInt8) (s : Input) : Input :=
  if c ≠ 0 ∧ (s.e - s.r).toNat < INPUT_BUF then
    let c := if c = carriageReturn then newline else c
    let s := s.store c
    if c = newline ∨ c = ctrlD ∨ s.e = s.r + 128 then { s with w := s.e } else s
  else s

/-- One turn of the loop of `consoleintr`; the flag is `doprocdump`. -/
def consoleintrChar (s : Input × Bool) (c : UInt8) : Input × Bool :=
  if c = ctrlP then (s.1, true)
  else if c = ctrlU then (killLine (s.1.e - s.1.w).toNat s.1, s.2)
  else if c = ctrlH ∨ c = delete then (if s.1.e ≠ s.1.w then s.1.rubOut else s.1, s.2)
  else (s.1.put c, s.2)

/-- `consoleintr` on the characters that `getc` delivers; the flag says whether `procdump` is
called in the end. -/
def consoleintr (cs : List UInt8) (s : Input) : Input × Bool :=
  cs.foldl consoleintrChar (s, false)

/-- The loop of `consoleread`, with the bytes stored so far.  `none` means that it waits for
input. -/
def readLoop (target : ℕ) : ℕ → Input → List UInt8 → Option (List UInt8 × Input)
  | 0, s, got => some (got, s)
  | n + 1, s, got =>
    if s.r = s.w then none
    else
      let c := s.byte s.r
      let s := { s with r := s.r + 1 }
      if c = ctrlD then
        some (got, if n + 1 < target then { s with r := s.r - 1 } else s)
      else if c = newline then some (got ++ [c], s)
      else readLoop target n s (got ++ [c])

/-- `consoleread(ip, dst, n)`: the bytes stored at `dst`, whose number is the result. -/
def consoleread (n : ℤ) (s : Input) : Option (List UInt8 × Input) :=
  readLoop n.toNat n.toNat s []

def boot : Input := ⟨fun _ => 0, 0, 0, 0, []⟩

end Input

/-! ## The line discipline -/

/-- Committed bytes, and the line that is being edited. -/
structure Line where
  queue : List UInt8
  edit : List UInt8

namespace Line

def put (c : UInt8) (l : Line) : Line :=
  if c ≠ 0 ∧ l.queue.length + l.edit.length < INPUT_BUF then
    let c := if c = carriageReturn then newline else c
    let edit := l.edit ++ [c]
    if c = newline ∨ c = ctrlD ∨ l.queue.length + edit.length = INPUT_BUF then
      ⟨l.queue ++ edit, []⟩
    else ⟨l.queue, edit⟩
  else l

def receive (l : Line) (c : UInt8) : Line :=
  if c = ctrlP then l
  else if c = ctrlU then { l with edit := [] }
  else if c = ctrlH ∨ c = delete then { l with edit := l.edit.dropLast }
  else l.put c

/-- Up to `n` bytes, up to and including a newline, or up to a `^D`, which is taken only when it
comes first.  `none` means that there is not enough input. -/
def read (n : ℕ) (l : Line) : Option (List UInt8 × Line) :=
  (consoleLoop n l.queue []).map fun x => (x.1, { l with queue := x.2 })

end Line

/-! ## What the ring holds -/

/-- The first `n` bytes from the read index on. -/
def Input.window (s : Input) (n : ℕ) : List UInt8 :=
  (List.range n).map fun i => s.buf ((s.r.toNat + i) % INPUT_BUF)

structure Holds (s : Input) (l : Line) : Prop where
  bytes : l.queue ++ l.edit = s.window (s.e - s.r).toNat
  queue : (s.w - s.r).toNat = l.queue.length
  room : (s.e - s.r).toNat ≤ INPUT_BUF
  /-- The line that is being edited has not been ended. -/
  line : newline ∉ l.edit

namespace Input

variable {s : Input} {l : Line} {n : ℕ}

@[simp] lemma length_window (s : Input) (n : ℕ) : (s.window n).length = n := by
  simp [window]

lemma window_succ (s : Input) (n : ℕ) :
    s.window (n + 1) = s.window n ++ [s.buf ((s.r.toNat + n) % INPUT_BUF)] := by
  simp [window, List.range_succ]

lemma slot_eq (a b : UInt32) : slot b = (a.toNat + (b - a).toNat) % INPUT_BUF := by
  have ha := a.toNat_lt
  have hb := b.toNat_lt
  rw [slot, UInt32.toNat_sub]
  simp only [INPUT_BUF]
  omega

lemma window_cons (s : Input) (n : ℕ) :
    s.window (n + 1) = s.byte s.r :: ({ s with r := s.r + 1 } : Input).window n := by
  have hmod : ∀ i, ((s.r + 1).toNat + i) % INPUT_BUF = (s.r.toNat + (i + 1)) % INPUT_BUF := by
    intro i
    have hr := s.r.toNat_lt
    simp only [UInt32.toNat_add, UInt32.reduceToNat, INPUT_BUF]
    omega
  simp only [window, List.range_succ_eq_map, List.map_cons, List.map_map, Function.comp_def, byte,
    slot, hmod, Nat.add_zero, Nat.succ_eq_add_one]

lemma window_update {s' : Input} {c : UInt8} (hn : n < INPUT_BUF) (hr : s'.r = s.r)
    (hbuf : s'.buf = Function.update s.buf ((s.r.toNat + n) % INPUT_BUF) c) :
    s'.window n = s.window n := by
  refine List.map_congr_left fun i hi => ?_
  have hi' := List.mem_range.mp hi
  rw [hr, hbuf]
  refine Function.update_of_ne ?_ _ _
  simp only [INPUT_BUF] at hn ⊢
  omega

end Input

namespace Holds

variable {s : Input} {l : Line}

lemma length (h : Holds s l) : (s.e - s.r).toNat = l.queue.length + l.edit.length := by
  have hlen := congrArg List.length h.bytes
  rw [List.length_append, Input.length_window] at hlen
  exact hlen.symm

lemma edit_eq_nil_iff (h : Holds s l) : s.e = s.w ↔ l.edit = [] := by
  have hlen := h.length
  have hq := h.queue
  rw [← List.length_eq_zero_iff, ← UInt32.toNat_inj]
  rw [UInt32.toNat_sub] at hlen hq
  have := s.e.toNat_lt
  have := s.w.toNat_lt
  have := s.r.toNat_lt
  have := h.room
  have := h.length
  omega

lemma queue_eq_nil_iff (h : Holds s l) : s.r = s.w ↔ l.queue = [] := by
  have hq := h.queue
  rw [← List.length_eq_zero_iff, ← UInt32.toNat_inj]
  rw [UInt32.toNat_sub] at hq
  have := s.w.toNat_lt
  have := s.r.toNat_lt
  omega

lemma length_edit (h : Holds s l) : (s.e - s.w).toNat = l.edit.length := by
  have hlen := h.length
  have hq := h.queue
  have hroom := h.room
  rw [UInt32.toNat_sub] at hlen hq ⊢
  have := s.e.toNat_lt
  have := s.w.toNat_lt
  have := s.r.toNat_lt
  rw [UInt32.toNat_sub] at hroom
  simp only [INPUT_BUF] at hroom
  omega

lemma byte_last (h : Holds s l) {c : UInt8} (hc : l.edit.getLast? = some c) :
    s.byte (s.e - 1) = c := by
  obtain ⟨es, hes⟩ := List.getLast?_eq_some_iff.mp hc
  have hlen := h.length
  rw [hes, List.length_append, List.length_singleton] at hlen
  obtain ⟨n, hn⟩ : ∃ n, (s.e - s.r).toNat = n + 1 := ⟨_, by rw [hlen]; rfl⟩
  have hbytes := h.bytes
  rw [hes, hn, Input.window_succ, ← List.append_assoc] at hbytes
  obtain ⟨-, hlast⟩ := List.append_inj' hbytes rfl
  have hslot : Input.slot (s.e - 1) = (s.r.toNat + n) % INPUT_BUF := by
    rw [Input.slot_eq s.r]
    congr 2
    rw [UInt32.toNat_sub] at hn ⊢
    simp only [UInt32.toNat_sub, UInt32.reduceToNat]
    have := s.e.toNat_lt
    have := s.r.toNat_lt
    omega
  rw [Input.byte, hslot]
  exact (List.cons.inj hlast).1.symm

lemma rubOut (h : Holds s l) (hne : l.edit ≠ []) :
    Holds s.rubOut { l with edit := l.edit.dropLast } := by
  have hlen := h.length
  have hpos : 0 < l.edit.length := List.length_pos_iff.mpr hne
  have hdist : (s.rubOut.e - s.r).toNat = (s.e - s.r).toNat - 1 := by
    rw [UInt32.toNat_sub] at hlen
    simp only [Input.rubOut, UInt32.toNat_sub, UInt32.reduceToNat]
    have := s.e.toNat_lt
    have := s.r.toNat_lt
    omega
  obtain ⟨n, hn⟩ : ∃ n, (s.e - s.r).toNat = n + 1 := ⟨(s.e - s.r).toNat - 1, by omega⟩
  refine ⟨?_, h.queue, ?_, fun hmem => h.line (List.mem_of_mem_dropLast hmem)⟩
  · show l.queue ++ l.edit.dropLast = s.window (s.rubOut.e - s.r).toNat
    have hbytes := congrArg List.dropLast h.bytes
    rw [List.dropLast_append_of_ne_nil hne, hn, Input.window_succ, List.dropLast_concat] at hbytes
    rw [hdist, hn, hbytes]
    rfl
  · show (s.rubOut.e - s.r).toNat ≤ INPUT_BUF
    rw [hdist]
    exact (Nat.sub_le _ _).trans h.room

lemma killLine {turns : ℕ} (h : Holds s l) (hturns : l.edit.length = turns) :
    Holds (s.killLine turns) { l with edit := [] } := by
  induction turns generalizing s l with
  | zero =>
    have hnil : l.edit = [] := List.length_eq_zero_iff.mp hturns
    rw [← hnil]
    exact h
  | succ turns ih =>
    have hne : l.edit ≠ [] := by
      intro hnil
      rw [hnil] at hturns
      cases hturns
    have hlast : s.byte (s.e - 1) ≠ newline := by
      rw [h.byte_last (List.getLast?_eq_some_getLast hne)]
      intro he
      exact h.line (he ▸ List.getLast_mem hne)
    rw [Input.killLine, if_pos ⟨fun he => hne (h.edit_eq_nil_iff.mp he), hlast⟩]
    have hlen : l.edit.dropLast.length = turns := by
      rw [List.length_dropLast, hturns]
      rfl
    exact ih (l := { l with edit := l.edit.dropLast }) (h.rubOut hne) hlen

lemma window_store (h : Holds s l) (hroom : l.queue.length + l.edit.length < INPUT_BUF)
    (c : UInt8) : ((s.store c).e - s.r).toNat = l.queue.length + l.edit.length + 1 ∧
      l.queue ++ (l.edit ++ [c]) = (s.store c).window ((s.store c).e - s.r).toNat := by
  have hlen := h.length
  have hdist : ((s.store c).e - s.r).toNat = (s.e - s.r).toNat + 1 := by
    rw [UInt32.toNat_sub] at hlen
    simp only [Input.store, UInt32.toNat_sub, UInt32.toNat_add, UInt32.reduceToNat]
    have := s.e.toNat_lt
    have := s.r.toNat_lt
    simp only [INPUT_BUF] at hroom
    omega
  have hbuf : (s.store c).buf = Function.update s.buf
      ((s.r.toNat + (s.e - s.r).toNat) % INPUT_BUF) c := by
    rw [← Input.slot_eq s.r s.e]
    rfl
  have hwindow : (s.store c).window (s.e - s.r).toNat = s.window (s.e - s.r).toNat :=
    Input.window_update (hlen ▸ hroom) rfl hbuf
  refine ⟨hdist.trans (congrArg (· + 1) hlen), ?_⟩
  rw [hdist, Input.window_succ, hwindow, ← h.bytes, hbuf]
  rw [show (s.store c).r = s.r from rfl, Function.update_self, List.append_assoc]

lemma put (h : Holds s l) (c : UInt8) : Holds (s.put c) (l.put c) := by
  unfold Input.put Line.put
  rw [h.length]
  by_cases hput : c ≠ 0 ∧ l.queue.length + l.edit.length < INPUT_BUF
  swap
  · rwa [if_neg hput, if_neg hput]
  rw [if_pos hput, if_pos hput]
  generalize (if c = carriageReturn then newline else c) = c
  obtain ⟨hdist, hbytes⟩ := h.window_store hput.2 c
  have hroom : ((s.store c).e - s.r).toNat ≤ INPUT_BUF := by
    rw [hdist]
    exact hput.2
  -- the ring is full for the code when it is full for the line
  have hfull : (s.store c).e = (s.store c).r + 128 ↔
      l.queue.length + (l.edit ++ [c]).length = INPUT_BUF := by
    show (s.store c).e = s.r + 128 ↔ _
    rw [← UInt32.toNat_inj, List.length_append, List.length_singleton]
    have hsub := hdist
    rw [UInt32.toNat_sub] at hsub
    simp only [UInt32.toNat_add, UInt32.reduceToNat, INPUT_BUF]
    have := (s.store c).e.toNat_lt
    have := s.r.toNat_lt
    have := hput.2
    simp only [INPUT_BUF] at this
    omega
  simp only [hfull]
  by_cases hcommit : c = newline ∨ c = ctrlD ∨
      l.queue.length + (l.edit ++ [c]).length = INPUT_BUF
  · rw [if_pos hcommit, if_pos hcommit]
    refine ⟨?_, ?_, hroom, List.not_mem_nil⟩
    · rw [List.append_nil]
      exact hbytes
    · show ((s.store c).e - s.r).toNat = _
      rw [hdist]
      simp only [List.length_append, List.length_singleton]
      omega
  · rw [if_neg hcommit, if_neg hcommit]
    refine ⟨hbytes, h.queue, hroom, ?_⟩
    intro hmem
    rcases List.mem_append.mp hmem with hmem | hmem
    · exact h.line hmem
    · exact hcommit (Or.inl (List.mem_singleton.mp hmem).symm)

lemma receive (h : Holds s l) (c : UInt8) (dump : Bool) :
    Holds (Input.consoleintrChar (s, dump) c).1 (l.receive c) := by
  unfold Input.consoleintrChar Line.receive
  split_ifs with hP hU hH hne
  · exact h
  · exact h.killLine h.length_edit.symm
  · exact h.rubOut fun hnil => hne (h.edit_eq_nil_iff.mpr hnil)
  · have hnil : l.edit = [] := h.edit_eq_nil_iff.mp (not_not.mp hne)
    rw [hnil, List.dropLast_nil, ← hnil]
    exact h
  · exact h.put c

lemma consoleintr (h : Holds s l) (cs : List UInt8) :
    Holds (Input.consoleintr cs s).1 (cs.foldl Line.receive l) := by
  unfold Input.consoleintr
  generalize false = dump
  induction cs generalizing s l dump with
  | nil => exact h
  | cons c cs ih => exact ih (h.receive c dump) _

lemma pop (h : Holds s l) {c : UInt8} {q : List UInt8} (hq : l.queue = c :: q) :
    s.byte s.r = c ∧ Holds { s with r := s.r + 1 } { l with queue := q } := by
  have hlen := h.length
  rw [hq, List.length_cons] at hlen
  obtain ⟨n, hn⟩ : ∃ n, (s.e - s.r).toNat = n + 1 := ⟨q.length + l.edit.length, by omega⟩
  have hbytes := h.bytes
  rw [hq, hn, Input.window_cons, List.cons_append] at hbytes
  obtain ⟨hc, hrest⟩ := List.cons.inj hbytes
  have hqueue := h.queue
  rw [hq, List.length_cons] at hqueue
  have hroom := h.room
  have hdist : ∀ x : UInt32, 0 < (x - s.r).toNat →
      (x - (s.r + 1)).toNat = (x - s.r).toNat - 1 := by
    intro x hx
    rw [UInt32.toNat_sub] at hx
    simp only [UInt32.toNat_sub, UInt32.toNat_add, UInt32.reduceToNat]
    have := x.toNat_lt
    have := s.r.toNat_lt
    omega
  refine ⟨hc.symm, ?_, ?_, ?_, h.line⟩
  · show q ++ l.edit = ({ s with r := s.r + 1 } : Input).window (s.e - (s.r + 1)).toNat
    rw [hdist s.e (by omega), hn]
    exact hrest
  · show (s.w - (s.r + 1)).toNat = q.length
    rw [hdist s.w (by omega)]
    omega
  · show (s.e - (s.r + 1)).toNat ≤ INPUT_BUF
    rw [hdist s.e (by omega)]
    omega

/-- The loop of `consoleread` takes from the ring what the line discipline takes from the queue. -/
lemma readLoop {target n : ℕ} {got : List UInt8} (h : Holds s l)
    (htarget : target = n + got.length) :
    Option.Rel (fun x y => x.1 = y.1 ∧ Holds x.2 { l with queue := y.2 })
      (s.readLoop target n got) (consoleLoop n l.queue got) := by
  induction n generalizing s l got with
  | zero => exact .some ⟨rfl, h⟩
  | succ n ih =>
    cases hq : l.queue with
    | nil =>
      rw [Input.readLoop, if_pos (h.queue_eq_nil_iff.mpr hq)]
      exact .none
    | cons c q =>
      have hne : s.r ≠ s.w := fun he => nomatch hq.symm.trans (h.queue_eq_nil_iff.mp he)
      obtain ⟨hbyte, hpop⟩ := h.pop hq
      rw [Input.readLoop, if_neg hne]
      simp only [consoleLoop, hbyte]
      by_cases hD : c = ctrlD
      · rw [if_pos hD, if_pos hD]
        refine .some ⟨rfl, ?_⟩
        by_cases hgot : got = []
        · rw [if_pos hgot, if_neg (by rw [htarget, hgot]; exact lt_irrefl _)]
          exact hpop
        · -- `^D` behind other bytes is put back
          have hpos := List.length_pos_iff.mpr hgot
          have hback : s.r + 1 - 1 = s.r := by
            rw [← UInt32.toNat_inj]
            simp only [UInt32.toNat_sub, UInt32.toNat_add, UInt32.reduceToNat]
            have := s.r.toNat_lt
            omega
          rw [if_neg hgot, if_pos (by omega), ← hq]
          simp only [hback]
          exact h
      · rw [if_neg hD, if_neg hD]
        by_cases hnl : c = newline
        · rw [if_pos hnl, if_pos hnl]
          exact .some ⟨rfl, hpop⟩
        · rw [if_neg hnl, if_neg hnl]
          refine ih hpop ?_
          rw [htarget, List.length_append, List.length_singleton]
          omega

lemma consoleread (h : Holds s l) (n : ℤ) :
    Option.Rel (fun x y => x.1 = y.1 ∧ Holds x.2 y.2) (s.consoleread n) (l.read n.toNat) := by
  have hloop := h.readLoop
    (show n.toNat = n.toNat + ([] : List UInt8).length from rfl)
  unfold Input.consoleread Line.read
  revert hloop
  generalize s.readLoop n.toNat n.toNat [] = x
  generalize consoleLoop n.toNat l.queue [] = y
  intro hloop
  cases hloop with
  | some hxy => exact .some hxy
  | none => exact .none

end Holds

/-! ## Sequences of characters and reads -/

/-- What happens to the console: an interrupt that delivers characters, or a read. -/
inductive ConsoleOp
  | intr (cs : List UInt8)
  | read (n : ℤ)

/-- What the reads return, and the ring in the end; `none` if a read waits for input. -/
def Input.run : List ConsoleOp → Input → Option (List (List UInt8) × Input)
  | [], s => some ([], s)
  | .intr cs :: ops, s => Input.run ops (Input.consoleintr cs s).1
  | .read n :: ops, s =>
    (s.consoleread n).bind fun x => (Input.run ops x.2).map fun y => (x.1 :: y.1, y.2)

/-- What the reads return, and the line in the end; `none` if a read waits for input. -/
def Line.run : List ConsoleOp → Line → Option (List (List UInt8) × Line)
  | [], l => some ([], l)
  | .intr cs :: ops, l => Line.run ops (cs.foldl Line.receive l)
  | .read n :: ops, l =>
    (l.read n.toNat).bind fun x => (Line.run ops x.2).map fun y => (x.1 :: y.1, y.2)

lemma Holds.run {s : Input} {l : Line} (h : Holds s l) (ops : List ConsoleOp) :
    Option.Rel (fun x y => x.1 = y.1 ∧ Holds x.2 y.2) (s.run ops) (l.run ops) := by
  induction ops generalizing s l with
  | nil => exact .some ⟨rfl, h⟩
  | cons op ops ih =>
    cases op with
    | intr cs => exact ih (h.consoleintr cs)
    | read n =>
      have hread := h.consoleread n
      simp only [Input.run, Line.run]
      revert hread
      generalize s.consoleread n = x
      generalize l.read n.toNat = y
      intro hread
      cases hread with
      | none => exact .none
      | some hxy =>
        obtain ⟨hbytes, hholds⟩ := hxy
        have hrest := ih hholds
        simp only [Option.bind_some]
        revert hrest
        generalize Input.run ops _ = u
        generalize Line.run ops _ = v
        intro hrest
        cases hrest with
        | none => exact .none
        | some huv => exact .some ⟨congrArg₂ List.cons hbytes huv.1, huv.2⟩

/-- **The console ring refines the line discipline**, whatever is typed and read, also after its
indices have wrapped. -/
theorem console_refines (ops : List ConsoleOp) :
    Option.Rel (fun x y => x.1 = y.1 ∧ Holds x.2 y.2) (Input.boot.run ops)
      (Line.run ops ⟨[], []⟩) :=
  Holds.run ⟨rfl, rfl, Nat.zero_le _, List.not_mem_nil⟩ ops

end Xv6
