import Xv6.Console.Ring

/-!
# Reads that are interrupted

`consoleread` runs with interrupts enabled, so that `consoleintr` can add to the ring at any time.
`Console` is the ring together with a reader that stands somewhere in `consoleread`; a step is a
received character, a step of the reader, or the start of another call.  Two histories are kept next
to it: the bytes that `consoleintr` has committed, and those that a reader has taken for good.

The reader goes on statement by statement, but for `c = input.buf[input.r++ % INPUT_BUF]`, which
stores `input.r` and then loads the byte.  There are two times at which it has moved `input.r` over
a byte that is not delivered (`Console.Owes`): between this store and the load, and when it has
found a `^D` behind other bytes and is about to move `input.r` back.  The interrupt handler sees the
slot of this byte as free.  If it fills the ring the byte is lost, and after `input.r--` the ring
holds one byte more than it has room for (`eof_overwritten`).  As long as it leaves that one slot
alone, every byte that is committed and not delivered stands in the ring (`undelivered_kept`).

The proof relates the ring to the queue of `Xv6.Console.Ring`: `Console.Sound` says that the
committed bytes are those delivered, then the byte that is owed, then the queue.
-/

namespace Xv6

open Lib

/-! ## The reader, statement by statement -/

/-- The statement of `consoleread` that comes next. -/
inductive ReadPc
  /-- No call is running. -/
  | idle
  /-- `while(n > 0)`. -/
  | loop
  /-- `while(input.r == input.w);`. -/
  | spin
  /-- `input.r++` of `c = input.buf[input.r++ % INPUT_BUF];`. -/
  | take
  /-- `c = input.buf[i % INPUT_BUF]`, with the index before that. -/
  | load (i : UInt32)
  /-- `if(c == C('D'))`. -/
  | eof (c : UInt8)
  /-- `if(n < target)`. -/
  | short
  /-- `input.r--;`. -/
  | back
  /-- `*dst++ = c;`. -/
  | store (c : UInt8)
  /-- `--n;`. -/
  | count (c : UInt8)
  /-- `if(c == '\n')`. -/
  | line (c : UInt8)
  deriving DecidableEq

structure Console where
  input : Input
  pc : ReadPc
  n : ℤ
  target : ℤ
  /-- What the call has stored at `dst`. -/
  dst : List UInt8
  /-- All bytes that have been committed, in order. -/
  committed : List UInt8
  /-- All bytes that readers have taken and do not put back. -/
  delivered : List UInt8

inductive ConsoleStep
  /-- `consoleintr` receives a character. -/
  | intr (c : UInt8)
  /-- `consoleread(ip, dst, n)` is called. -/
  | call (n : ℤ)
  /-- The next statement of the call. -/
  | read
  deriving DecidableEq

/-- The bytes that are committed when the ring goes from `s` to `s'`. -/
def Input.newly (s s' : Input) : List UInt8 :=
  (List.range (s'.w - s.w).toNat).map fun i => s'.buf ((s.w.toNat + i) % INPUT_BUF)

namespace Console

def boot : Console := ⟨.boot, .idle, 0, 0, [], [], []⟩

/-- The reader executes a statement. -/
def read (s : Console) : Console :=
  match s.pc with
  | .idle => s
  | .loop => { s with pc := if 0 < s.n then .spin else .idle }
  | .spin => { s with pc := if s.input.r = s.input.w then .spin else .take }
  | .take => { s with input := { s.input with r := s.input.r + 1 }, pc := .load s.input.r }
  | .load i =>
    let c := s.input.byte i
    { s with
      pc := .eof c
      delivered := if c = ctrlD ∧ s.n < s.target then s.delivered else s.delivered ++ [c] }
  | .eof c => { s with pc := if c = ctrlD then .short else .store c }
  | .short => { s with pc := if s.n < s.target then .back else .idle }
  | .back => { s with input := { s.input with r := s.input.r - 1 }, pc := .idle }
  | .store c => { s with dst := s.dst ++ [c], pc := .count c }
  | .count c => { s with n := s.n - 1, pc := .line c }
  | .line c => { s with pc := if c = newline then .idle else .loop }

/-- A step.  A call has to wait until the one that runs has returned. -/
def step (s : Console) : ConsoleStep → Console
  | .intr c =>
    let input := (Input.consoleintrChar (s.input, false) c).1
    { s with input := input, committed := s.committed ++ s.input.newly input }
  | .call n =>
    if s.pc = .idle then { s with pc := .loop, n := n, target := n, dst := [] } else s
  | .read => s.read

end Console

/-- The reader has moved `input.r` over a byte that is not delivered: it has not loaded it yet, or
it is a `^D` that it is going to put back. -/
def ReadPc.Owes (short : Prop) : ReadPc → Prop
  | .load _ => True
  | .eof c => c = ctrlD ∧ short
  | .short | .back => short
  | .idle | .loop | .spin | .take | .store _ | .count _ | .line _ => False

instance (short : Prop) [Decidable short] : ∀ pc : ReadPc, Decidable (pc.Owes short)
  | .load _ => inferInstanceAs (Decidable True)
  | .eof _ => inferInstanceAs (Decidable (_ ∧ _))
  | .short | .back => inferInstanceAs (Decidable short)
  | .idle | .loop | .spin | .take | .store _ | .count _ | .line _ =>
    inferInstanceAs (Decidable False)

namespace Console

def Owes (s : Console) : Prop := s.pc.Owes (s.n < s.target)

instance (s : Console) : Decidable s.Owes := inferInstanceAs (Decidable (s.pc.Owes _))

/-- The index of the first byte that is not delivered. -/
def base (s : Console) : UInt32 := if s.Owes then s.input.r - 1 else s.input.r

/-- What the ring holds where the committed bytes that are not delivered should be. -/
def undelivered (s : Console) : List UInt8 :=
  ({ s.input with r := s.base } : Input).window (s.input.w - s.base).toNat

end Console

/-- The characters that `consoleintr` stores if it finds room. -/
def Input.Stores (c : UInt8) : Prop :=
  c ≠ 0 ∧ c ≠ ctrlP ∧ c ≠ ctrlU ∧ c ≠ ctrlH ∧ c ≠ delete

instance (c : UInt8) : Decidable (Input.Stores c) := inferInstanceAs (Decidable (_ ∧ _))

/-- While a byte is owed, characters do not take the last free slot of the ring. -/
def ConsoleStep.Spares (s : Console) : ConsoleStep → Prop
  | .intr c => s.Owes → Input.Stores c → (s.input.e - s.input.r).toNat + 1 < INPUT_BUF
  | _ => True

instance (s : Console) : ∀ x : ConsoleStep, Decidable (x.Spares s)
  | .intr _ => inferInstanceAs (Decidable (_ → _ → _))
  | .call _ | .read => inferInstanceAs (Decidable True)

/-- All steps of a run spare the slot. -/
def Console.Spared : List ConsoleStep → Console → Prop
  | [], _ => True
  | x :: xs, s => x.Spares s ∧ Console.Spared xs (s.step x)

instance instDecidableSpared :
    ∀ (xs : List ConsoleStep) (s : Console), Decidable (Console.Spared xs s)
  | [], _ => inferInstanceAs (Decidable True)
  | x :: xs, s =>
    have := instDecidableSpared xs (s.step x)
    inferInstanceAs (Decidable (_ ∧ _))

/-! ## The invariant -/

section

variable {i : Input} {l : Line} {s : Console} {c : UInt8}

lemma Holds.queue_eq (h : Holds i l) : l.queue = i.window (i.w - i.r).toNat := by
  have hle : (i.w - i.r).toNat ≤ (i.e - i.r).toNat := by
    rw [h.queue, h.length]
    exact Nat.le_add_right _ _
  calc l.queue = (l.queue ++ l.edit).take l.queue.length := List.take_left.symm
    _ = (i.window (i.e - i.r).toNat).take (i.w - i.r).toNat := by rw [h.bytes, h.queue]
    _ = i.window (i.w - i.r).toNat := by
      rw [Input.window, ← List.map_take, List.take_range, min_eq_left hle, Input.window]

lemma Holds.newly {i' : Input} {l' : Line} {more : List UInt8} (h : Holds i l) (h' : Holds i' l')
    (hr : i'.r = i.r) (hq : l'.queue = l.queue ++ more) : i.newly i' = more := by
  have hlen : (i'.w - i.w).toNat = more.length := by
    have h₁ := h.queue
    have h₂ := h'.queue
    have h₃ := h'.room
    have h₄ := h'.length
    rw [hq, List.length_append] at h₂ h₄
    rw [hr] at h₂ h₃ h₄
    rw [UInt32.toNat_sub] at h₁ h₂ ⊢
    have := i.r.toNat_lt
    have := i.w.toNat_lt
    have := i'.w.toNat_lt
    simp only [INPUT_BUF] at h₃
    omega
  have hmod : ∀ j,
      (i.w.toNat + j) % INPUT_BUF = (i.r.toNat + (l.queue.length + j)) % INPUT_BUF := by
    intro j
    have h₁ := h.queue
    rw [UInt32.toNat_sub] at h₁
    have := i.r.toNat_lt
    have := i.w.toNat_lt
    simp only [INPUT_BUF]
    omega
  have hw := h'.queue_eq
  rw [h'.queue, hq, Input.window, List.length_append, List.range_add, List.map_append,
    List.map_map] at hw
  obtain ⟨-, hmore⟩ := List.append_inj hw (by simp)
  rw [Input.newly, hlen]
  refine Eq.trans ?_ hmore.symm
  simp only [hmod, hr, Function.comp_def]

/-- A character adds to the queue, and only characters that are stored take room. -/
lemma Line.exists_receive (l : Line) (c : UInt8) : ∃ more, (l.receive c).queue = l.queue ++ more ∧
    ((l.receive c).queue.length + (l.receive c).edit.length ≤ l.queue.length + l.edit.length ∨
      Input.Stores c ∧ (l.receive c).queue.length + (l.receive c).edit.length =
        l.queue.length + l.edit.length + 1) := by
  unfold Line.receive
  split_ifs with hP hU hH
  · exact ⟨[], by simp, Or.inl le_rfl⟩
  · exact ⟨[], by simp, Or.inl (by simp)⟩
  · exact ⟨[], by simp, Or.inl (by simp)⟩
  · rw [not_or] at hH
    unfold Line.put
    by_cases hput : c ≠ 0 ∧ l.queue.length + l.edit.length < INPUT_BUF
    swap
    · rw [if_neg hput]
      exact ⟨[], by simp, Or.inl le_rfl⟩
    have hstores : Input.Stores c := ⟨hput.1, hP, hU, hH.1, hH.2⟩
    rw [if_pos hput]
    generalize (if c = carriageReturn then newline else c) = c'
    by_cases hc : c' = newline ∨ c' = ctrlD ∨
        l.queue.length + (l.edit ++ [c']).length = INPUT_BUF
    · simp only [if_pos hc]
      exact ⟨_, rfl, Or.inr ⟨hstores, by simp; omega⟩⟩
    · simp only [if_neg hc]
      exact ⟨[], by simp, Or.inr ⟨hstores, by simp; omega⟩⟩

lemma Input.killLine_spec (turns : ℕ) (i : Input) :
    (i.killLine turns).r = i.r ∧ (i.killLine turns).buf = i.buf := by
  induction turns generalizing i with
  | zero => exact ⟨rfl, rfl⟩
  | succ turns ih =>
    rw [killLine]
    split_ifs
    · exact ih i.rubOut
    · exact ⟨rfl, rfl⟩

lemma Input.put_cases (i : Input) (c : UInt8) :
    i.put c = i ∨ c ≠ 0 ∧ ∃ c' w, i.put c = { i.store c' with w := w } := by
  unfold put
  by_cases hput : c ≠ 0 ∧ (i.e - i.r).toNat < INPUT_BUF
  swap
  · exact Or.inl (if_neg hput)
  rw [if_pos hput]
  generalize (if c = carriageReturn then newline else c) = c'
  refine Or.inr ⟨hput.1, c', ?_⟩
  by_cases hw : c' = newline ∨ c' = ctrlD ∨ (i.store c').e = (i.store c').r + 128
  · exact ⟨_, if_pos hw⟩
  · exact ⟨_, if_neg hw⟩

lemma Input.consoleintrChar_cases (i : Input) (b : Bool) (c : UInt8) :
    (consoleintrChar (i, b) c).1.r = i.r ∧ ((consoleintrChar (i, b) c).1.buf = i.buf ∨
      Stores c ∧ ∃ c', (consoleintrChar (i, b) c).1.buf = Function.update i.buf (slot i.e) c') := by
  unfold consoleintrChar
  split_ifs with hP hU hH
  · exact ⟨rfl, Or.inl rfl⟩
  · exact (i.killLine_spec _).imp_right Or.inl
  · exact ⟨rfl, Or.inl rfl⟩
  · exact ⟨rfl, Or.inl rfl⟩
  · rw [not_or] at hH
    simp only
    rcases i.put_cases c with he | ⟨hz, c', w, he⟩
    · rw [he]
      exact ⟨rfl, Or.inl rfl⟩
    · rw [he]
      exact ⟨rfl, Or.inr ⟨⟨hz, hP, hU, hH.1, hH.2⟩, c', rfl⟩⟩

lemma Input.byte_before (b : Bool) (hroom : (i.e - i.r).toNat + 1 < INPUT_BUF ∨ ¬ Stores c) :
    (consoleintrChar (i, b) c).1.byte (i.r - 1) = i.byte (i.r - 1) := by
  obtain ⟨-, hbuf | ⟨hst, c', hbuf⟩⟩ := i.consoleintrChar_cases b c
  · rw [byte, hbuf, byte]
  · have hlt := hroom.resolve_right (not_not.mpr hst)
    rw [byte, hbuf, byte]
    refine Function.update_of_ne ?_ _ _
    rw [UInt32.toNat_sub] at hlt
    simp only [slot, UInt32.toNat_sub, UInt32.reduceToNat, INPUT_BUF] at hlt ⊢
    have := i.r.toNat_lt
    have := i.e.toNat_lt
    omega

end

/-- What holds in every state of a run that spares the slot. -/
structure Console.Sound (s : Console) (l : Line) : Prop where
  holds : Holds s.input l
  history : s.committed =
    s.delivered ++ (if s.Owes then [s.input.byte (s.input.r - 1)] else []) ++ l.queue
  /-- There is a slot for the byte that is owed. -/
  owed : s.Owes → (s.input.e - s.input.r).toNat < INPUT_BUF
  load : ∀ i, s.pc = .load i → i = s.input.r - 1
  back : s.pc = .back → s.n < s.target
  take : s.pc = .take → s.input.r ≠ s.input.w

namespace Console.Sound

variable {s : Console} {l : Line}

/-- Going back by one slot. -/
private lemma toNat_sub_pred {x r : UInt32} (hx : (x - r).toNat < INPUT_BUF) :
    (x - (r - 1)).toNat = (x - r).toNat + 1 := by
  rw [UInt32.toNat_sub] at hx
  simp only [UInt32.toNat_sub, UInt32.reduceToNat, INPUT_BUF] at hx ⊢
  have := x.toNat_lt
  have := r.toNat_lt
  omega

private lemma ne_write {i i' : Input} {l l' : Line} {more : List UInt8} (h : Holds i l)
    (h' : Holds i' l') (hq : l'.queue = l.queue ++ more) (hne : i.r ≠ i.w) : i'.r ≠ i'.w := by
  intro he
  refine hne (h.queue_eq_nil_iff.mpr ?_)
  have hnil := h'.queue_eq_nil_iff.mp he
  rw [hq] at hnil
  exact (List.append_eq_nil_iff.mp hnil).1

lemma intr (h : s.Sound l) (c : UInt8) (hc : (ConsoleStep.intr c).Spares s) :
    (s.step (.intr c)).Sound (l.receive c) := by
  obtain ⟨more, hq, hlen⟩ := l.exists_receive c
  have hholds := h.holds.receive c false
  have hr := (s.input.consoleintrChar_cases false c).1
  have hroom : s.Owes → (s.input.e - s.input.r).toNat + 1 < INPUT_BUF ∨ ¬ Input.Stores c :=
    fun howe => or_iff_not_imp_right.mpr fun hst => hc howe (not_not.mp hst)
  have hbyte : s.Owes → (Input.consoleintrChar (s.input, false) c).1.byte (s.input.r - 1) =
      s.input.byte (s.input.r - 1) := fun howe => Input.byte_before false (hroom howe)
  have hstep : s.step (.intr c) = { s with
      input := (Input.consoleintrChar (s.input, false) c).1
      committed :=
        s.committed ++ s.input.newly (Input.consoleintrChar (s.input, false) c).1 } := rfl
  rw [hstep]
  generalize (Input.consoleintrChar (s.input, false) c).1 = i at *
  refine ⟨hholds, ?_, fun howe => ?_, fun j hj => (h.load j hj).trans (by rw [hr]), h.back,
    fun htake => ne_write h.holds hholds hq (h.take htake)⟩
  · -- the handler appends to the queue, and leaves the byte that is owed alone
    have howed : (if s.Owes then [i.byte (i.r - 1)] else []) =
        if s.Owes then [s.input.byte (s.input.r - 1)] else [] := by
      split_ifs with howe
      · rw [hr, hbyte howe]
      · rfl
    show s.committed ++ s.input.newly i =
      s.delivered ++ (if s.Owes then [i.byte (i.r - 1)] else []) ++ _
    rw [howed, h.holds.newly hholds hr hq, h.history, hq, List.append_assoc, List.append_assoc]
  · have hlt := h.owed howe
    have hroom := hroom howe
    show (i.e - i.r).toNat < INPUT_BUF
    rw [hholds.length]
    rw [h.holds.length] at hlt hroom
    rcases hlen with hlen | ⟨hst, hlen⟩
    · omega
    · have := hroom.resolve_right (not_not.mpr hst)
      omega

/-- A statement that leaves the ring alone. -/
private lemma pass (h : s.Sound l) {pc : ReadPc} {n : ℤ} {dst : List UInt8} {target : ℤ}
    (howe : ({ s with pc := pc, n := n, dst := dst, target := target } : Console).Owes ↔ s.Owes)
    (hload : ∀ i, pc ≠ .load i) (hback : pc = .back → n < target)
    (htake : pc = .take → s.input.r ≠ s.input.w) :
    ({ s with pc := pc, n := n, dst := dst, target := target } : Console).Sound l where
  holds := h.holds
  history := h.history.trans (by simp only [howe])
  owed ho := h.owed (howe.mp ho)
  load i hi := absurd hi (hload i)
  back := hback
  take := htake

/-- `input.r++`: the first byte of the queue is owed from now on. -/
private lemma taken (h : s.Sound l) (hpc : s.pc = .take) : ∃ l', s.read.Sound l' := by
  obtain ⟨c, q, hq⟩ := List.exists_cons_of_ne_nil fun hnil =>
    h.take hpc (h.holds.queue_eq_nil_iff.mpr hnil)
  obtain ⟨hbyte, hpop⟩ := h.holds.pop hq
  have hnot : ¬ s.Owes := by simp [Owes, hpc, ReadPc.Owes]
  have hhist := h.history
  rw [if_neg hnot, hq, List.append_nil] at hhist
  have hread : s.read =
      { s with input := { s.input with r := s.input.r + 1 }, pc := .load s.input.r } := by
    rw [read, hpc]
  refine ⟨{ l with queue := q }, ?_⟩
  rw [hread]
  refine ⟨hpop, ?_, fun _ => ?_, fun i hi => ?_, fun hb => ReadPc.noConfusion hb,
    fun ht => ReadPc.noConfusion ht⟩
  · refine hhist.trans ?_
    show _ = s.delivered ++ (if True then [s.input.byte (s.input.r + 1 - 1)] else []) ++ q
    rw [if_pos trivial, UInt32.add_sub_cancel, hbyte, List.append_assoc, List.singleton_append]
  · have hroom := h.holds.room
    have hlen := h.holds.length
    rw [hq, List.length_cons] at hlen
    show (s.input.e - (s.input.r + 1)).toNat < INPUT_BUF
    have hlen' := hpop.length
    simp only at hlen'
    omega
  · rw [← ReadPc.load.inj hi]
    exact (UInt32.add_sub_cancel _ _).symm

/-- The byte is loaded; from now on it is owed only if it is a `^D` that is to be put back. -/
private lemma loaded (h : s.Sound l) {i : UInt32} (hpc : s.pc = .load i) : s.read.Sound l := by
  obtain rfl := h.load i hpc
  have howe : s.Owes := by simp [Owes, hpc, ReadPc.Owes]
  have hhist := h.history
  rw [if_pos howe] at hhist
  set c := s.input.byte (s.input.r - 1)
  have hread : s.read = { s with
      pc := .eof c
      delivered := if c = ctrlD ∧ s.n < s.target then s.delivered else s.delivered ++ [c] } := by
    rw [read, hpc]
  rw [hread]
  refine ⟨h.holds, hhist.trans ?_, fun _ => h.owed howe, fun _ hi => ReadPc.noConfusion hi,
    fun hb => ReadPc.noConfusion hb, fun ht => ReadPc.noConfusion ht⟩
  show _ = (if c = ctrlD ∧ s.n < s.target then s.delivered else s.delivered ++ [c]) ++
    (if c = ctrlD ∧ s.n < s.target then [c] else []) ++ l.queue
  by_cases hD : c = ctrlD ∧ s.n < s.target
  · rw [if_pos hD, if_pos hD]
  · rw [if_neg hD, if_neg hD, List.append_nil]

/-- `input.r--;`. -/
private lemma putBack (h : s.Sound l) (hpc : s.pc = .back) : ∃ l', s.read.Sound l' := by
  have howe : s.Owes := by
    simp only [Owes, hpc, ReadPc.Owes]
    exact h.back hpc
  have hlt := h.owed howe
  have hw : (s.input.w - s.input.r).toNat < INPUT_BUF := by
    rw [h.holds.queue]
    rw [h.holds.length] at hlt
    omega
  have hholds : Holds { s.input with r := s.input.r - 1 }
      { l with queue := s.input.byte (s.input.r - 1) :: l.queue } := by
    refine ⟨?_, ?_, ?_, h.holds.line⟩
    · show s.input.byte (s.input.r - 1) :: l.queue ++ l.edit = _
      rw [show (({ s.input with r := s.input.r - 1 } : Input).e -
        ({ s.input with r := s.input.r - 1 } : Input).r).toNat = (s.input.e - s.input.r).toNat + 1
        from toNat_sub_pred hlt, Input.window_cons, List.cons_append, h.holds.bytes]
      simp only [UInt32.sub_add_cancel]
      rfl
    · show (s.input.w - (s.input.r - 1)).toNat = (_ :: l.queue).length
      rw [toNat_sub_pred hw, h.holds.queue, List.length_cons]
    · show (s.input.e - (s.input.r - 1)).toNat ≤ INPUT_BUF
      rw [toNat_sub_pred hlt]
      exact hlt
  have hhist := h.history
  rw [if_pos howe, List.append_assoc, List.singleton_append] at hhist
  have hread : s.read = { s with input := { s.input with r := s.input.r - 1 }, pc := .idle } := by
    rw [read, hpc]
  refine ⟨{ l with queue := s.input.byte (s.input.r - 1) :: l.queue }, ?_⟩
  rw [hread]
  refine ⟨hholds, hhist.trans ?_, fun ho => absurd ho id, fun _ hi => ReadPc.noConfusion hi,
    fun hb => ReadPc.noConfusion hb, fun ht => ReadPc.noConfusion ht⟩
  show _ = s.delivered ++ (if False then _ else []) ++ _
  rw [if_neg id, List.append_nil]

lemma statement (h : s.Sound l) : ∃ l', s.read.Sound l' := by
  cases hpc : s.pc with
  | take => exact h.taken hpc
  | load i => exact ⟨l, h.loaded hpc⟩
  | back => exact h.putBack hpc
  | spin =>
    refine ⟨l, ?_⟩
    rw [read, hpc]
    refine h.pass ?_ ?_ ?_ ?_ <;> split_ifs with hne <;> simp [Owes, ReadPc.Owes, hpc, hne]
  | idle =>
    refine ⟨l, ?_⟩
    rw [read, hpc]
    exact h
  | loop | line c =>
    refine ⟨l, ?_⟩
    rw [read, hpc]
    refine h.pass ?_ ?_ ?_ ?_ <;> split_ifs <;> simp [Owes, ReadPc.Owes, hpc]
  | eof c =>
    refine ⟨l, ?_⟩
    rw [read, hpc]
    refine h.pass ?_ ?_ ?_ ?_ <;> split_ifs with hc <;> simp [Owes, ReadPc.Owes, hpc, hc]
  | short =>
    refine ⟨l, ?_⟩
    rw [read, hpc]
    refine h.pass ?_ ?_ ?_ ?_ <;> split_ifs with hn <;> simp [Owes, ReadPc.Owes, hpc, hn]
  | store c | count c =>
    refine ⟨l, ?_⟩
    rw [read, hpc]
    exact h.pass (by simp [Owes, ReadPc.Owes, hpc]) (by simp) (by simp) (by simp)

lemma step (h : s.Sound l) (x : ConsoleStep) (hx : x.Spares s) : ∃ l', (s.step x).Sound l' := by
  cases x with
  | intr c => exact ⟨_, h.intr c hx⟩
  | read => exact h.statement
  | call n =>
    refine ⟨l, ?_⟩
    by_cases hpc : s.pc = .idle
    · rw [Console.step, if_pos hpc]
      exact h.pass (by simp [Owes, ReadPc.Owes, hpc]) (by simp) (by simp) (by simp)
    · rw [Console.step, if_neg hpc]
      exact h

lemma run (h : s.Sound l) (xs : List ConsoleStep) (hxs : Console.Spared xs s) :
    ∃ l', (xs.foldl Console.step s).Sound l' := by
  induction xs generalizing s l with
  | nil => exact ⟨l, h⟩
  | cons x xs ih =>
    obtain ⟨l', h'⟩ := h.step x hxs.1
    exact ih h' hxs.2

lemma committed_eq (h : s.Sound l) : s.committed = s.delivered ++ s.undelivered := by
  rw [h.history, List.append_assoc, undelivered, base]
  congr 1
  by_cases howe : s.Owes
  · simp only [if_pos howe]
    have hw : (s.input.w - s.input.r).toNat < INPUT_BUF := by
      have hlt := h.owed howe
      rw [h.holds.queue]
      rw [h.holds.length] at hlt
      omega
    rw [toNat_sub_pred hw, Input.window_cons, List.singleton_append, h.holds.queue_eq]
    simp only [UInt32.sub_add_cancel]
    rfl
  · simp only [if_neg howe, List.nil_append]
    exact h.holds.queue_eq

end Console.Sound

/-! ## Runs -/

/-- **Input survives interrupts inside a read**, if no character takes the slot of a byte that the
reader has moved over and not delivered: the ring never holds more than it has room for, and every
byte that has been committed and not been delivered is still in it. -/
theorem undelivered_kept (xs : List ConsoleStep) (hxs : Console.Spared xs .boot) :
    let s := xs.foldl Console.step .boot
    (s.input.e - s.input.r).toNat ≤ INPUT_BUF ∧ s.committed = s.delivered ++ s.undelivered := by
  have hboot : Console.boot.Sound ⟨[], []⟩ :=
    { holds := ⟨rfl, rfl, Nat.zero_le _, List.not_mem_nil⟩
      history := rfl
      owed := fun h => absurd h (by decide)
      load := fun _ h => ReadPc.noConfusion h
      back := fun h => ReadPc.noConfusion h
      take := fun h => ReadPc.noConfusion h }
  obtain ⟨l, h⟩ := hboot.run xs hxs
  exact ⟨h.holds.room, h.committed_eq⟩

/-- `a` and `^D` are typed and read.  Other characters come between the store of `input.r` and the
load of the `a`, and while the `^D` is about to be put back. -/
def eofRun (early late : List UInt8) : List ConsoleStep :=
  [.intr 97, .intr ctrlD, .call 2] ++ List.replicate 3 .read ++ early.map .intr ++
    List.replicate 10 .read ++ late.map .intr ++ List.replicate 3 .read

/-- One character at each of the two times. -/
theorem undelivered_kept_eof : Console.Spared (eofRun [98] [99]) .boot ∧
    let s := (eofRun [98] [99]).foldl Console.step .boot
    (s.input.e - s.input.r).toNat ≤ INPUT_BUF ∧ s.committed = s.delivered ++ s.undelivered := by
  have hspared : Console.Spared (eofRun [98] [99]) .boot := by decide +kernel
  exact ⟨hspared, undelivered_kept _ hspared⟩

/-- **The interrupt handler overwrites a `^D` that is about to be put back.**  With 128 characters
typed at that moment the ring ends up with a byte more than it has room for, and the `^D` is
lost. -/
theorem eof_overwritten :
    let s := (eofRun [] (List.replicate 128 98)).foldl Console.step .boot
    (s.input.e - s.input.r).toNat = 129 ∧ s.input.byte s.input.r = 98 ∧
      s.committed ≠ s.delivered ++ s.undelivered := by
  decide +kernel

end Xv6
