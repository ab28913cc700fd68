import Xv6.Bio.Cache
import Xv6.Kernel.Mem

/-!
# Processes on the one CPU

Several processes run kernel code, and the timer may take the CPU away from a process before
any of its steps.  `Sys` is the machine together with the request queue of `ide.c` and the
processes; a process works off a list of calls, and `body` says which code a call runs.

Here `bread` and `bwrite` are not single steps.  A process inside one of them is between `bget`
and the test of `B_VALID`, or about to enter the section of `iderw` between `pushcli` and
`popcli`, or in the loop that waits for the interrupt, and other processes and `ideintr` run
in between (`Io`).  Every other step of kernel code is one step here as well.

`Sys.step` is one step of the system: a process begins or finishes a call or takes one step of
its code, or the disk interrupts.  It returns the events that happened, and `Runs` collects them
along a run.  `Sys.run` makes the steps of a given list of labels, and is how runs with a fixed
schedule are evaluated (`Runs.run`).

The request queue is a list through the `qnext` fields of the buffers, walked with the pointer to a
pointer of the source.  That walk is the one place where the kernel may not come back: on a list
that is a loop, `IdeQueue.walk` runs out of turns and the process is blocked.
-/

namespace Xv6

open Lib

/-! ## The request queue -/

/-- `idequeue` and the `qnext` fields of the buffers. -/
structure IdeQueue where
  idequeue : Option (Fin NBUF)
  qnext : Fin NBUF → Option (Fin NBUF)

namespace IdeQueue

/-- `*pp`, where `pp` is `&idequeue` if it is `none`, and `&b->qnext` if it is `some b`. -/
def deref (q : IdeQueue) : Option (Fin NBUF) → Option (Fin NBUF)
  | none => q.idequeue
  | some b => q.qnext b

/-- `*pp = b`. -/
def assign (q : IdeQueue) (b : Fin NBUF) : Option (Fin NBUF) → IdeQueue
  | none => { q with idequeue := some b }
  | some c => { q with qnext := Function.update q.qnext c (some b) }

/-- `for(pp=&idequeue; *pp; pp=&(*pp)->qnext)`, up to a number of tests of `*pp`. -/
def walk (q : IdeQueue) : ℕ → Option (Fin NBUF) → Option (Option (Fin NBUF))
  | 0, _ => none
  | turns + 1, pp =>
    match q.deref pp with
    | none => some pp
    | some b => q.walk turns (some b)

/-- Append `b`.  A loop over `NBUF` buffers that has not ended after `NBUF + 1` tests has met a
buffer twice and never ends. -/
def append (q : IdeQueue) (b : Fin NBUF) : Option IdeQueue :=
  let q := { q with qnext := Function.update q.qnext b none }
  (q.walk (NBUF + 1) none).map (q.assign b)

/-- The queue at boot. -/
def empty : IdeQueue := ⟨none, fun _ => none⟩

end IdeQueue

/-! ## The driver -/

/-- `idestart(b)`; a write takes the data from the buffer at once. -/
def idestart (b : Fin NBUF) (m : Machine) : Except Halt Machine :=
  if FSSIZE ≤ (m.buf b).blockno then .error (.panic .incorrectBlockno)
  else if (m.buf b).dirty then
    .ok { m with disk := Function.update m.disk (drive (m.buf b).key) (m.buf b).data }
  else .ok m

/-- The section of `iderw(b)` between `pushcli` and `popcli`. -/
def iderwSection (b : Fin NBUF) (m : Machine) (q : IdeQueue) : Except Halt (Machine × IdeQueue) :=
  if (m.buf b).valid ∧ (m.buf b).dirty = false then .error (.panic .iderwNothingToDo)
  else if (m.buf b).dev ≠ 0 ∧ m.havedisk1 = false then .error (.panic .ideDisk1NotPresent)
  else
    match q.append b with
    | none => .error .blocked
    | some q =>
      if q.idequeue = some b then (idestart b m).map fun m => (m, q) else .ok (m, q)

/-- The buffer that `ideintr` has taken off the queue; `err` is an error of the drive. -/
def ideDone (err : Bool) (m : Machine) (b : Buf) : Buf :=
  { b with
    data := if b.dirty = false ∧ err = false then m.disk (drive b.key) else b.data
    valid := true
    dirty := false }

def ideintr (err : Bool) (m : Machine) (q : IdeQueue) : Except Halt (Machine × IdeQueue) :=
  match q.idequeue with
  | none => .ok (m, q)
  | some b =>
    let q := { q with idequeue := q.qnext b }
    let m := m.setBuf b (ideDone err m (m.buf b))
    match q.idequeue with
    | none => .ok (m, q)
    | some c => (idestart c m).map fun m => (m, q)

/-! ## Processes -/

/-- Where a process is inside `bread` or `bwrite`. -/
inductive Io
  /-- `bget` has returned `b`, and `B_VALID` is tested next. -/
  | test (b : Fin NBUF)
  /-- `iderw(b)` is called next. -/
  | call (b : Fin NBUF)
  /-- In the loop at the end of `iderw(b)`.  The flag does not exist in the kernel: it says
  whether `ideintr` has served `b` since it was put on the queue. -/
  | wait (b : Fin NBUF) (served : Bool)
  deriving DecidableEq

/-- A process: the calls it still makes, how many it has begun, the call it is in with the rest
of its code, and where it is inside a block transfer. -/
structure Process (κ ρ : Type) where
  todo : List κ
  calls : ℕ
  cur : Option (κ × K ρ)
  io : Option Io

/-- The interrupt has served `b`. -/
def Process.serve {κ ρ : Type} (b : Fin NBUF) (p : Process κ ρ) : Process κ ρ :=
  match p.io with
  | some (.wait c _) => if c = b then { p with io := some (.wait b true) } else p
  | _ => p

/-- The machine, the request queue and the processes. -/
structure Sys (ι κ ρ : Type) where
  m : Machine
  fm : FsMem
  queue : IdeQueue
  proc : ι → Process κ ρ
  /-- The system has stopped for good. -/
  halted : Option Halt

/-- What a step of the system is. -/
inductive Label (ι : Type)
  /-- A process begins its next call. -/
  | call (i : ι)
  /-- A process takes one step of its code. -/
  | go (i : ι)
  /-- The call of a process returns. -/
  | ret (i : ι)
  /-- The disk interrupts. -/
  | intr (err : Bool)

/-- What the history of a run records; `i` and `n` name the process and its call. -/
inductive Event (ι κ ρ : Type)
  /-- A call has begun. -/
  | called (i : ι) (n : ℕ) (c : κ)
  /-- A call has done a buffer step other than a block transfer; if the step reads or changes
  data, the buffer held `old` before and `new` after it. -/
  | did (i : ι) (n : ℕ) (e : BioOp) (old new : Block)
  /-- A call has returned. -/
  | returned (i : ι) (n : ℕ) (c : κ) (v : ρ)

/-- The process of an event. -/
def Event.who {ι κ ρ : Type} : Event ι κ ρ → ι
  | .called i _ _ | .did i _ _ _ _ | .returned i _ _ _ => i

/-- The blocks a buffer step names. -/
def BioOp.blocks : BioOp → List BufRef
  | .bread k | .brelse k | .bwrite k | .data k | .store k _ | .logAdd k | .markDirty k => [k]
  | .copy dst src => [dst, src]
  | .log | .setLog _ => []

/-- The block whose data a buffer step reads or changes. -/
def BioOp.target : BioOp → Option BufRef
  | .data k | .store k _ | .copy k _ => some k
  | _ => none

/-- The data of the buffer that caches a block. -/
def Machine.cached (m : Machine) (k : BufRef) : Block :=
  match m.lookup k with
  | some i => (m.buf i).data
  | none => Bytes.zero

namespace Sys

variable {ι κ ρ : Type} [DecidableEq ι]

/-- Replace a process. -/
def setProc (s : Sys ι κ ρ) (i : ι) (p : Process κ ρ) : Sys ι κ ρ :=
  { s with proc := Function.update s.proc i p }

/-- The system halts. -/
def halt (s : Sys ι κ ρ) (x : Halt) : Sys ι κ ρ := { s with halted := some x }

/-- The record of a buffer step of process `i` that leaves the machine in `m`. -/
def record (s : Sys ι κ ρ) (i : ι) (e : BioOp) (m : Machine) : Event ι κ ρ :=
  match e.target with
  | some k => .did i (s.proc i).calls e (s.m.cached k) (m.cached k)
  | none => .did i (s.proc i).calls e Bytes.zero Bytes.zero

/-- The block transfer of process `i` is over, and `code` comes next. -/
def ioDone (s : Sys ι κ ρ) (i : ι) (c : κ) (code : K ρ) : Sys ι κ ρ :=
  s.setProc i { s.proc i with cur := some (c, code), io := none }

/-- One step of process `i` inside a block transfer. -/
def ioStep (s : Sys ι κ ρ) (i : ι) (c : κ) (code : K ρ) : Io → Sys ι κ ρ
  | .test b =>
    if (s.m.buf b).valid then s.ioDone i c code
    else s.setProc i { s.proc i with io := some (.call b) }
  | .call b =>
    match iderwSection b s.m s.queue with
    | .error x => s.halt x
    | .ok (m, q) =>
      { s.setProc i { s.proc i with io := some (.wait b false) } with m := m, queue := q }
  | .wait b _ =>
    if (s.m.buf b).valid ∧ (s.m.buf b).dirty = false then s.ioDone i c code else s

/-- One step of the code of process `i`, which is in the call `c`. -/
def goStep (s : Sys ι κ ρ) (i : ι) (c : κ) :
    (e : BioOp ⊕ MemOp) → (Sum.elim BioOp.Ret MemOp.Ret e → K ρ) →
      Sys ι κ ρ × List (Event ι κ ρ)
  | .inl (.bread k), code =>
    match (s.proc i).io with
    | some io => (s.ioStep i c (code ()) io, [])
    | none =>
      match bget k s.m with
      | .error x _ => (s.halt x, [])
      | .ok b m => ({ s.setProc i { s.proc i with io := some (.test b) } with m := m }, [])
  | .inl (.bwrite k), code =>
    match (s.proc i).io with
    | some io => (s.ioStep i c (code ()) io, [])
    | none =>
      match holding k (fun b m => .ok b (m.setBuf b { m.buf b with dirty := true })) s.m with
      | .error x _ => (s.halt x, [])
      | .ok b m => ({ s.setProc i { s.proc i with io := some (.call b) } with m := m }, [])
  | .inl e, code =>
    match cacheHandler e s.m with
    | .error x _ => (s.halt x, [])
    | .ok r m =>
      ({ s.setProc i { s.proc i with cur := some (c, code r) } with m := m }, [s.record i e m])
  | .inr e, code =>
    match memHandler e s.fm with
    | .error x _ => (s.halt x, [])
    | .ok r fm => ({ s.setProc i { s.proc i with cur := some (c, code r) } with fm := fm }, [])

/-- One step of the system, with what happened in it. -/
def step (body : κ → K ρ) (s : Sys ι κ ρ) (l : Label ι) :
    Option (Sys ι κ ρ × List (Event ι κ ρ)) :=
  if s.halted.isSome then none
  else
    match l with
    | .call i =>
      match (s.proc i).cur, (s.proc i).todo with
      | none, c :: todo =>
        some (s.setProc i ⟨todo, (s.proc i).calls + 1, some (c, body c), none⟩,
          [.called i ((s.proc i).calls + 1) c])
      | _, _ => none
    | .go i =>
      match (s.proc i).cur with
      | some (c, .op e code) => some (s.goStep i c e code)
      | _ => none
    | .ret i =>
      match (s.proc i).cur with
      | some (c, .ret v) =>
        some (s.setProc i { s.proc i with cur := none }, [.returned i (s.proc i).calls c v])
      | _ => none
    | .intr err =>
      match s.queue.idequeue, ideintr err s.m s.queue with
      | none, _ => some (s, [])
      | some _, .error x => some (s.halt x, [])
      | some b, .ok (m, q) =>
        some ({ s with m := m, queue := q, proc := fun i => (s.proc i).serve b }, [])

/-- The processes are about to start on a freshly booted machine. -/
def boot (m : Machine) (fm : FsMem) (todo : ι → List κ) : Sys ι κ ρ where
  m := m
  fm := fm
  queue := .empty
  proc := fun i => ⟨todo i, 0, none, none⟩
  halted := none

end Sys

/-- `Runs body Ok s₀ s h`: the system can get from `s₀` to `s` by steps that are in `Ok`, and
`h` is what happened, the latest event first. -/
inductive Runs {ι κ ρ : Type} [DecidableEq ι] (body : κ → K ρ)
    (Ok : Sys ι κ ρ → List (Event ι κ ρ) → Label ι → Prop) (s₀ : Sys ι κ ρ) :
    Sys ι κ ρ → List (Event ι κ ρ) → Prop
  | refl : Runs body Ok s₀ s₀ []
  | step {s s' : Sys ι κ ρ} {h ev : List (Event ι κ ρ)} (l : Label ι) (hs : Runs body Ok s₀ s h)
      (hl : Ok s h l) (hstep : s.step body l = some (s', ev)) : Runs body Ok s₀ s' (ev ++ h)

/-- Take the steps of a list, one after the other, as long as they pass a test, and collect the
events. -/
def Sys.run {ι κ ρ : Type} [DecidableEq ι] (body : κ → K ρ)
    (ok : Sys ι κ ρ → List (Event ι κ ρ) → Label ι → Bool) :
    List (Label ι) → Sys ι κ ρ × List (Event ι κ ρ) → Option (Sys ι κ ρ × List (Event ι κ ρ))
  | [], s => some s
  | l :: ls, s =>
    if ok s.1 s.2 l then
      (s.1.step body l).bind fun r => Sys.run body ok ls (r.1, r.2 ++ s.2)
    else none

lemma Runs.run {ι κ ρ : Type} [DecidableEq ι] {body : κ → K ρ}
    {Ok : Sys ι κ ρ → List (Event ι κ ρ) → Label ι → Prop}
    {ok : Sys ι κ ρ → List (Event ι κ ρ) → Label ι → Bool} {s₀ : Sys ι κ ρ} {ls : List (Label ι)}
    {s : Sys ι κ ρ} {h : List (Event ι κ ρ)} {r : Sys ι κ ρ × List (Event ι κ ρ)}
    (hs : Runs body Ok s₀ s h) (hok : ∀ s h l, ok s h l = true → Ok s h l)
    (hr : Sys.run body ok ls (s, h) = some r) : Runs body Ok s₀ r.1 r.2 := by
  induction ls generalizing s h with
  | nil =>
    obtain rfl := Option.some.inj hr
    exact hs
  | cons l ls ih =>
    rw [Sys.run] at hr
    split_ifs at hr with hl
    obtain ⟨⟨s', ev⟩, hstep, hrest⟩ := Option.bind_eq_some_iff.mp hr
    exact ih (hs.step l (hok s h l hl) hstep) hrest

end Xv6
