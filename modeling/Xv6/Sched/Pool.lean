import Xv6.Ide.Queue
import Xv6.Bio.Rules
import Xv6.Sched.Lag

/-!
# Processes on the block store

`Pool` is the system of `Xv6.Sched.System` one level up: the processes share the block store of
`Xv6.Bio.Account` instead of the buffer cache and the driver, and `bread` and `bwrite` are single
steps again.

`Sim` relates the two.  A process inside `bread` has made its step in the pool already, when it
called `bget`; a process inside `bwrite` makes its step when `idestart` sends the data to the
drive, so that the drives of the two levels always agree.  `Sim.step` says that every step of the
system is a step of the pool or none, provided that

* the system is `Calm`: while a process is inside a transfer of a block, no other process takes
  a step that names the block, and the drive reports no error;
* the pool is `Safe`: no process is about to use a buffer it does not hold, or to read a block
  that the drives do not have.
-/

namespace Xv6

open Lib

variable {ι κ ρ : Type} [DecidableEq ι]

/-! ## The pool -/

/-- The processes and the block store they share. -/
structure Pool (ι κ ρ : Type) where
  a : Account
  fm : FsMem
  proc : ι → Process κ ρ

namespace Pool

/-- Replace a process. -/
def setProc (P : Pool ι κ ρ) (i : ι) (p : Process κ ρ) : Pool ι κ ρ :=
  { P with proc := Function.update P.proc i p }

/-- The processes are about to start. -/
def boot (a : Account) (fm : FsMem) (todo : ι → List κ) : Pool ι κ ρ :=
  ⟨a, fm, fun i => ⟨todo i, 0, none, none⟩⟩

/-- The record of a buffer step of process `i` that leaves the store in `a`. -/
def record (P : Pool ι κ ρ) (i : ι) (e : BioOp) (a : Account) : List (Event ι κ ρ) :=
  match e with
  | .bread _ | .bwrite _ => []
  | e =>
    match e.target with
    | some k => [.did i (P.proc i).calls e (P.a.mem k) (a.mem k)]
    | none => [.did i (P.proc i).calls e Bytes.zero Bytes.zero]

/-- A step of process `i`, with what happened in it. -/
inductive Step (body : κ → K ρ) (P : Pool ι κ ρ) (i : ι) :
    Pool ι κ ρ → List (Event ι κ ρ) → Prop
  /-- The process begins its next call. -/
  | call {c : κ} {todo : List κ} (hcur : (P.proc i).cur = none)
      (htodo : (P.proc i).todo = c :: todo) :
      Step body P i (P.setProc i ⟨todo, (P.proc i).calls + 1, some (c, body c), none⟩)
        [.called i ((P.proc i).calls + 1) c]
  /-- It takes a buffer step. -/
  | bio {c : κ} {e : BioOp} {code : e.Ret → K ρ} {r : e.Ret} {a : Account}
      (hcur : (P.proc i).cur = some (c, .op (.inl e) code)) (he : accountHandler e P.a = .ok r a) :
      Step body P i { P.setProc i { P.proc i with cur := some (c, code r) } with a := a }
        (P.record i e a)
  /-- It takes a memory step. -/
  | mem {c : κ} {e : MemOp} {code : e.Ret → K ρ} {r : e.Ret} {fm : FsMem}
      (hcur : (P.proc i).cur = some (c, .op (.inr e) code)) (he : memHandler e P.fm = .ok r fm) :
      Step body P i { P.setProc i { P.proc i with cur := some (c, code r) } with fm := fm } []
  /-- Its call returns. -/
  | ret {c : κ} {v : ρ} (hcur : (P.proc i).cur = some (c, .ret v)) :
      Step body P i (P.setProc i { P.proc i with cur := none })
        [.returned i (P.proc i).calls c v]

namespace Step

variable {body : κ → K ρ} {P P' : Pool ι κ ρ} {i j : ι} {ev : List (Event ι κ ρ)}

lemma proc_of_ne (h : P.Step body i P' ev) (hj : j ≠ i) : P'.proc j = P.proc j := by
  cases h <;> exact Function.update_of_ne hj _ _

omit [DecidableEq ι] in
lemma who_record {e : BioOp} {a : Account} {x : Event ι κ ρ} (hx : x ∈ P.record i e a) :
    x.who = i := by
  unfold record at hx
  split at hx
  · cases hx
  · cases hx
  · split at hx <;> rw [List.mem_singleton.mp hx] <;> rfl

lemma who (h : P.Step body i P' ev) {x : Event ι κ ρ} (hx : x ∈ ev) : x.who = i := by
  cases h with
  | call => rw [List.mem_singleton.mp hx]; rfl
  | bio => exact who_record hx
  | mem => cases hx
  | ret => rw [List.mem_singleton.mp hx]; rfl

end Step

/-- A step of the pool that is a whole block transfer. -/
def Transfer (body : κ → K ρ) (P P' : Pool ι κ ρ) : Prop :=
  ∃ i c e code k, (P.proc i).cur = some (c, .op (.inl e) code) ∧ (e = .bread k ∨ e = .bwrite k) ∧
    P.Step body i P' []

/-- No process is about to misuse a buffer or to read a block that the drives do not have. -/
def Safe (P : Pool ι κ ρ) : Prop :=
  ∀ i c e code, (P.proc i).cur = some (c, .op (.inl e) code) →
    (∀ a, accountHandler e P.a ≠ .error .stray a) ∧ ∀ k, e = .bread k → P.a.InRange k

end Pool

/-! ## The simulation -/

/-- The buffer a process inside a block transfer is at. -/
def Io.buf : Io → Fin NBUF
  | .test b | .call b | .wait b _ => b

/-- The block that a process is inside a transfer of. -/
def Process.onBlock (p : Process κ ρ) : Option BufRef :=
  match p.io, p.cur with
  | some _, some (_, .op (.inl (.bread k)) _) => some k
  | some _, some (_, .op (.inl (.bwrite k)) _) => some k
  | _, _ => none

/-- No process takes a step that names a block inside whose transfer another process is, and the
drive reports no error. -/
def Calm (s : Sys ι κ ρ) (l : Label ι) : Prop :=
  (∀ i c e code, l = .go i → (s.proc i).cur = some (c, .op (.inl e) code) →
    ∀ j ≠ i, ∀ k ∈ e.blocks, (s.proc j).onBlock ≠ some k) ∧ l ≠ .intr true

/-- The buffer that a read request leaves behind. -/
def Machine.filled (m : Machine) (b : Fin NBUF) : Buf :=
  if (m.buf b).valid then m.buf b
  else { m.buf b with valid := true, data := m.disk (drive (m.buf b).key) }

/-- A process of the system, its counterpart in the pool, and what is known of the buffer that
the process is at.  `ma` is the cache as the pool sees it, and `st` is the buffer whose request
the drive is working on. -/
inductive ProcSim (m : Machine) (st : Option (Fin NBUF)) (ma : Machine) (p : Process κ ρ) :
    Process κ ρ → Prop
  /-- Outside block transfers. -/
  | out (hio : p.io = none) : ProcSim m st ma p p
  /-- Inside `bread`: the pool is past it. -/
  | read (io : Io) {c : κ} {k : BufRef} {code : Unit → K ρ} (hio : p.io = some io)
      (hcur : p.cur = some (c, .op (.inl (.bread k)) code)) (hk : m.lookup k = some io.buf)
      (hr : (m.buf io.buf).refcnt ≠ 0) (hma : ma.buf io.buf = m.filled io.buf)
      (hd : (m.buf io.buf).valid = false → (m.buf io.buf).dirty = false)
      (hv : io = .call io.buf ∨ io = .wait io.buf false → (m.buf io.buf).valid = false) :
      ProcSim m st ma p { p with cur := some (c, code ()), io := none }
  /-- Inside `bwrite`, before `idestart`: the pool is not past it. -/
  | write (io : Io) {c : κ} {k : BufRef} {code : Unit → K ρ} {x : Bool} (hio : p.io = some io)
      (hcur : p.cur = some (c, .op (.inl (.bwrite k)) code)) (hk : m.lookup k = some io.buf)
      (hr : (m.buf io.buf).refcnt ≠ 0) (hv : (m.buf io.buf).valid = true)
      (hma : ma.buf io.buf = { m.buf io.buf with dirty := x }) (hd : (m.buf io.buf).dirty = true)
      (hs : io = .call io.buf ∨ io = .wait io.buf false ∧ st ≠ some io.buf) :
      ProcSim m st ma p { p with io := none }
  /-- Inside `bwrite`, after `idestart`: the pool is past it. -/
  | sent (io : Io) {c : κ} {k : BufRef} {code : Unit → K ρ} {served : Bool}
      (hio : p.io = some io) (hcur : p.cur = some (c, .op (.inl (.bwrite k)) code))
      (hk : m.lookup k = some io.buf) (hr : (m.buf io.buf).refcnt ≠ 0)
      (hv : (m.buf io.buf).valid = true)
      (hma : ma.buf io.buf = { m.buf io.buf with dirty := false })
      (hd : served = false → (m.buf io.buf).dirty = true ∧ st = some io.buf)
      (hs : io = .wait io.buf served) :
      ProcSim m st ma p { p with cur := some (c, code ()), io := none }

/-- The buffers of outstanding transfers. -/
def Sys.busy (s : Sys ι κ ρ) : Set (Fin NBUF) :=
  { b | ∃ i io, (s.proc i).io = some io ∧ io.buf = b }

/-- The system `s` and the pool `P`: `ma` is the cache in which the transfers that the pool is
past have been served, `l` is the request queue, and `st` is the buffer whose request the drive
is working on. -/
structure Sim (s : Sys ι κ ρ) (P : Pool ι κ ρ) (ma : Machine) (l : List (Fin NBUF))
    (st : Option (Fin NBUF)) : Prop where
  plays : Plays P.a ma
  fm : P.fm = s.fm
  lag : Lag s.busy s.m ma
  proc : ∀ i, ProcSim s.m st ma (s.proc i) (P.proc i)
  /-- At most one process is at a buffer. -/
  own : ∀ i j io io', (s.proc i).io = some io → (s.proc j).io = some io' → io.buf = io'.buf → i = j
  chain : s.queue.Chain s.queue.idequeue l
  nodup : l.Nodup
  mem : ∀ b, b ∈ l ↔ ∃ i, s.Waits i b

/-- The system is simulated by the pool. -/
def Simulates (P : Pool ι κ ρ) (s : Sys ι κ ρ) : Prop :=
  ∃ ma l, Sim s P ma l s.queue.idequeue

end Xv6
