import Xv6.Vm.Segments
import Mathlib.Data.List.Basic
import Mathlib.Logic.Function.Basic

/-!
# Interrupt-disable nesting across context switches

`pushcli` and `popcli` count, in `cpu.ncli`, how often the kernel has switched interrupts off, and
keep in `cpu.intena` whether they were on before.  Both are fields of the cpu, while the sections
they delimit belong to a kernel thread: the scheduler opens one that the process it switches to
closes in `forkret`, or that `yield` has opened on its side of the switch.

A thread is the stack of its activations: the code of a system call, of an interrupt handler, of
`yield`, of the scheduler.  Kernel code is arbitrary except that its sections are properly nested;
`pushcli`, `popcli`, `sched`, `yield`, `forkret` and `scheduler` go statement by statement, as an
interrupt may come wherever the flag is on.

`nesting` says, of every state that can be reached, that the count is the depth of the running
thread, that interrupts are on only outside of all sections, that threads are switched at depth one
with interrupts off, and that a section of a process leaves the flag as it found it.

The invariant has three parts.  `Running` ties `ncli` and the flag to the stack of the thread that
runs, whose lower activations are all outside of sections (`Stack`): an interrupt cannot have come
elsewhere.  `Parked` says where a thread waits that does not run, at depth one and with interrupts
off, and `Kept` that `intena` is the flag before the outermost section, which holds across a switch
since `sched` saves and restores it.  Every function has a lemma that it keeps the invariant, and
`Inv.step` puts them together.
-/

namespace Xv6.Irq

/-! ## Threads -/

/-- A section that is open: with the flag before its `pushcli`, or handed over by the scheduler. -/
inductive Opened
  | own (before : Bool)
  | handed

/-- How far a thread is in `pushcli` or `popcli`. -/
inductive Point
  | code
  /-- `eflags = readeflags()` is done. -/
  | push₁ (eflags : Bool)
  /-- `cli()` is done. -/
  | push₂ (eflags : Bool)
  /-- `intena` is set. -/
  | push₃ (eflags : Bool)
  /-- The flag has been tested. -/
  | pop₁
  /-- `ncli` has been decremented, which closes the section. -/
  | pop₂ (c : Opened)

/-- Statements of `yield` and of `sched`. -/
inductive YieldPc
  | push
  | setState
  | testState
  | testFlag
  | saveIntena
  | swtch (intena : Bool)
  | restoreIntena (intena : Bool)
  | pop
  | done

/-- Statements of `scheduler`. -/
inductive SchedulerPc (n : ℕ)
  | sti
  | push
  | scan (k : ℕ)
  | chosen (k : Fin n)
  | switchuvm (k : Fin n)
  | swtch (k : Fin n)

/-- The code that an activation runs, or to which its pending `pushcli` or `popcli` returns. -/
inductive Routine (n : ℕ)
  | main
  | scheduler (pc : SchedulerPc n)
  | syscall
  /-- `trap` of an interrupt or of an exception. -/
  | trap (timer : Bool)
  /-- `trap` has called `yield`. -/
  | yield (pc : YieldPc)
  | forkret
  | trapret

/-- An activation. -/
structure Frame (n : ℕ) where
  routine : Routine n
  point : Point
  opened : List Opened
  /-- The flag that `iret` restores. -/
  saved : Bool

/-- The fields of `struct cpu` for the nesting, with the interrupt flag of the processor. -/
structure Cpu (n : ℕ) where
  intr : Bool
  ncli : ℤ
  intena : Bool
  proc : Option (Fin n)

/-- The panics of `popcli` and `sched`. -/
inductive Panic
  | popcliInterruptible
  | popcli
  | schedRunning
  | schedInterruptible

/-- One processor.  The thread `none` is that of `main` and of the scheduler; a process whose
thread has no activation is in user mode. -/
structure State (n : ℕ) where
  cpu : Cpu n
  run : Option (Fin n)
  frames : Option (Fin n) → List (Frame n)
  procstate : Fin n → ProcState
  panicked : Option Panic

/-- What happens next. -/
inductive Label (n : ℕ)
  /-- The next statement of `pushcli`, `popcli`, `scheduler`, `yield`, `forkret` or `trapret`. -/
  | next
  /-- Kernel code calls `pushcli`. -/
  | push
  /-- Kernel code calls `popcli`. -/
  | pop
  /-- Kernel code clears the flag, as `panic` does. -/
  | cli
  /-- Kernel code is at its end. -/
  | leave
  /-- `main` enables interrupts. -/
  | sti
  /-- `main` takes a process from the table. -/
  | embryo (i : Fin n)
  /-- `main` completes a process. -/
  | runnable (i : Fin n)
  /-- An interrupt. -/
  | irq (timer : Bool)
  /-- User code makes a system call. -/
  | syscall
  /-- User code causes an exception. -/
  | fault

/-! ## Steps -/

namespace Routine

variable {n : ℕ}

/-- The code between the sections is arbitrary. -/
def Free : Routine n → Bool
  | main | syscall | trap _ | scheduler (.switchuvm _) => true
  | _ => false

/-- The sections that the code finds open. -/
def base : Routine n → ℕ
  | scheduler (.switchuvm _) => 1
  | _ => 0

end Routine

namespace State

variable {n : ℕ}

/-- The running thread gets a stack, and the cpu new values. -/
def put (s : State n) (cpu : Cpu n) (fs : List (Frame n)) : State n :=
  { s with cpu := cpu, frames := Function.update s.frames s.run fs }

/-- The kernel panics. -/
def panic (s : State n) (p : Panic) : State n := { s with panicked := some p }

/-- The call of `pushcli`, with its first statement. -/
def pushcli (s : State n) (f : Frame n) (fs : List (Frame n)) : State n :=
  s.put s.cpu ({ f with point := .push₁ s.cpu.intr } :: fs)

/-- The call of `popcli`, with its first statement. -/
def popcli (s : State n) (f : Frame n) (fs : List (Frame n)) : State n :=
  if s.cpu.intr then s.panic .popcliInterruptible
  else s.put s.cpu ({ f with point := .pop₁ } :: fs)

def iret (s : State n) (f : Frame n) (fs : List (Frame n)) : State n :=
  s.put { s.cpu with intr := f.saved } fs

/-- The processor enters the kernel.  A trap gate leaves the flag alone, an interrupt gate clears
it. -/
def enter (s : State n) (r : Routine n) (gate : Bool) : State n :=
  s.put { s.cpu with intr := s.cpu.intr && gate }
    (⟨r, .code, [], s.cpu.intr⟩ :: s.frames s.run)

/-- The next statement of `scheduler`. -/
def scheduler (s : State n) (f : Frame n) (fs : List (Frame n)) : SchedulerPc n → Option (State n)
  | .sti => some (s.put { s.cpu with intr := true } ({ f with routine := .scheduler .push } :: fs))
  | .push => some (s.pushcli { f with routine := .scheduler (.scan 0) } fs)
  | .scan k =>
    if h : k < n then
      if s.procstate ⟨k, h⟩ = .RUNNABLE then
        some (s.put { s.cpu with proc := some ⟨k, h⟩ }
          ({ f with routine := .scheduler (.chosen ⟨k, h⟩) } :: fs))
      else some (s.put s.cpu ({ f with routine := .scheduler (.scan (k + 1)) } :: fs))
    else some (s.popcli { f with routine := .scheduler .sti } fs)
  | .chosen k =>
    some { s.put s.cpu ({ f with routine := .scheduler (.switchuvm k) } :: fs) with
      procstate := Function.update s.procstate k .RUNNING }
  | .switchuvm _ => none
  | .swtch k =>
    some { s.put s.cpu ({ f with routine := .scheduler (.scan (k + 1)) } :: fs) with run := some k }

/-- The next statement of `yield` and `sched`. -/
def yield (s : State n) (f : Frame n) (fs : List (Frame n)) : YieldPc → Option (State n)
  | .push => some (s.pushcli { f with routine := .yield .setState } fs)
  | .setState =>
    s.cpu.proc.map fun p =>
      { s.put s.cpu ({ f with routine := .yield .testState } :: fs) with
        procstate := Function.update s.procstate p .RUNNABLE }
  | .testState =>
    s.cpu.proc.map fun p =>
      if s.procstate p = .RUNNING then s.panic .schedRunning
      else s.put s.cpu ({ f with routine := .yield .testFlag } :: fs)
  | .testFlag =>
    some (if s.cpu.intr then s.panic .schedInterruptible
      else s.put s.cpu ({ f with routine := .yield .saveIntena } :: fs))
  | .saveIntena => some (s.put s.cpu ({ f with routine := .yield (.swtch s.cpu.intena) } :: fs))
  | .swtch b =>
    some { s.put s.cpu ({ f with routine := .yield (.restoreIntena b) } :: fs) with run := none }
  | .restoreIntena b =>
    some (s.put { s.cpu with intena := b } ({ f with routine := .yield .pop } :: fs))
  | .pop => some (s.popcli { f with routine := .yield .done } fs)
  | .done => some (s.iret f fs)

/-- The next statement. -/
def next (s : State n) (f : Frame n) (fs : List (Frame n)) : Option (State n) :=
  match f.point with
  | .push₁ e => some (s.put { s.cpu with intr := false } ({ f with point := .push₂ e } :: fs))
  | .push₂ e =>
    some (s.put { s.cpu with intena := if s.cpu.ncli = 0 then e else s.cpu.intena }
      ({ f with point := .push₃ e } :: fs))
  | .push₃ e =>
    some (s.put { s.cpu with ncli := s.cpu.ncli + 1 }
      ({ f with point := .code, opened := .own e :: f.opened } :: fs))
  | .pop₁ =>
    if s.cpu.ncli - 1 < 0 then some (s.panic .popcli)
    else
      match f.opened with
      | [] => none
      | c :: opened =>
        some (s.put { s.cpu with ncli := s.cpu.ncli - 1 }
          ({ f with point := .pop₂ c, opened := opened } :: fs))
  | .pop₂ _ =>
    some (s.put { s.cpu with
      intr := if s.cpu.ncli = 0 ∧ s.cpu.intena then true else s.cpu.intr }
      ({ f with point := .code } :: fs))
  | .code =>
    match f.routine with
    | .scheduler pc => s.scheduler f fs pc
    | .yield pc => s.yield f fs pc
    | .forkret => some (s.popcli { f with routine := .trapret } fs)
    | .trapret => some (s.iret f fs)
    | _ => none

/-- The end of code that is not fixed here. -/
def leave (s : State n) (f : Frame n) (fs : List (Frame n)) : Option (State n) :=
  match f.routine with
  | .main => some (s.put { s.cpu with proc := none } ({ f with routine := .scheduler .sti } :: fs))
  | .scheduler (.switchuvm k) =>
    some (s.put s.cpu ({ f with routine := .scheduler (.swtch k) } :: fs))
  | .syscall => some (s.iret f fs)
  | .trap timer =>
    if timer ∧ ∃ p, s.cpu.proc = some p ∧ s.procstate p = .RUNNING then
      some (s.put s.cpu ({ f with routine := .yield .push } :: fs))
    else some (s.iret f fs)
  | _ => none

/-- A step in which the kernel runs. -/
def kernelStep (s : State n) (f : Frame n) (fs : List (Frame n)) : Label n → Option (State n)
  | .next => s.next f fs
  | l =>
    match f.point with
    | .code =>
      if f.routine.Free then
        match l with
        | .push => some (s.pushcli f fs)
        | .pop => if f.routine.base < f.opened.length then some (s.popcli f fs) else none
        | .cli => some (s.put { s.cpu with intr := false } (f :: fs))
        | .leave => if f.opened.length = f.routine.base then s.leave f fs else none
        | .sti =>
          match f.routine, f.opened with
          | .main, [] => some (s.put { s.cpu with intr := true } (f :: fs))
          | _, _ => none
        | .embryo i =>
          match f.routine with
          | .main =>
            if s.procstate i = .UNUSED then
              some { s with procstate := Function.update s.procstate i .EMBRYO }
            else none
          | _ => none
        | .runnable i =>
          match f.routine with
          | .main =>
            if s.procstate i = .EMBRYO then
              some { s with
                procstate := Function.update s.procstate i .RUNNABLE
                frames := Function.update s.frames (some i) [⟨.forkret, .code, [.handed], true⟩] }
            else none
          | _ => none
        | _ => none
      else none
    | _ => none

/-- One step. -/
def step (s : State n) (l : Label n) : Option (State n) :=
  match s.panicked with
  | some _ => none
  | none =>
    match l with
    | .irq timer => if s.cpu.intr then some (s.enter (.trap timer) false) else none
    | _ =>
      match s.frames s.run with
      | [] =>
        match l with
        | .syscall => some (s.enter .syscall true)
        | .fault => some (s.enter (.trap false) false)
        | _ => none
      | f :: fs => s.kernelStep f fs l

/-- The kernel starts in `main` with interrupts off. -/
def boot (n : ℕ) : State n where
  cpu := ⟨false, 0, false, none⟩
  run := none
  frames t := if t = none then [⟨.main, .code, [], false⟩] else []
  procstate _ := .UNUSED
  panicked := none

/-- Steps one after another. -/
def runs (s : State n) (ls : List (Label n)) : Option (State n) := ls.foldlM step s

end State

/-! ## What holds of a thread -/

variable {n : ℕ} {s : State n} {f : Frame n} {fs : List (Frame n)} {t : Option (Fin n)}

/-- The open sections of a thread. -/
def depth (fs : List (Frame n)) : ℕ := (fs.map fun f => f.opened.length).sum

/-- The `popcli` that matches an outermost `pushcli` of a process is about to end; before that
`pushcli` the flag was `b`. -/
def State.Closes (s : State n) (b : Bool) : Prop :=
  s.run ≠ none ∧ depth (s.frames s.run) = 0 ∧
    ∃ f fs, s.frames s.run = f :: fs ∧ f.point = .pop₂ (.own b)

/-! ## The invariant -/

namespace Frame

/-- The open sections once the pending call has returned. -/
def level (f : Frame n) : ℕ :=
  match f.point with
  | .push₁ _ | .push₂ _ | .push₃ _ => f.opened.length + 1
  | .pop₁ => f.opened.length - 1
  | _ => f.opened.length

/-- The activation is in a `pushcli`. -/
def Pushing (f : Frame n) : Prop :=
  match f.point with
  | .push₁ _ | .push₂ _ | .push₃ _ => True
  | _ => False

/-- The activation is in a `popcli`. -/
def Popping (f : Frame n) : Prop :=
  match f.point with
  | .pop₁ | .pop₂ _ => True
  | _ => False

/-- The sections that are open at each statement of the code that is fixed here. -/
def Fits (f : Frame n) : Prop :=
  match f.routine with
  | .main | .syscall | .trap _ => True
  | .scheduler (.switchuvm _) => 1 ≤ f.opened.length ∧ (f.point = .pop₁ → 2 ≤ f.opened.length)
  | .scheduler .sti | .yield .done | .trapret => ¬ f.Pushing ∧ f.level = 0
  | .scheduler (.scan _) | .yield .setState => ¬ f.Popping ∧ f.level = 1
  | .scheduler .push | .yield .push => f.point = .code ∧ f.opened = []
  | .forkret => f.point = .code ∧ f.opened = [.handed]
  | _ => f.point = .code ∧ f.opened.length = 1

/-- An activation that runs with the given flag. -/
structure Ok (flag : Bool) (f : Frame n) : Prop where
  fits : f.Fits
  /-- Interrupts are on only outside of all sections. -/
  off : flag = true → f.opened = [] ∧ (f.point = .code ∨ ∃ e, f.point = .push₁ e)
  pop : f.point = .pop₁ → f.opened ≠ []

/-- The `intena` that the end of the section will find: `sched` keeps it in a local variable. -/
def intena (f : Frame n) (x : Bool) : Bool :=
  match f.routine with
  | .yield (.swtch b) | .yield (.restoreIntena b) => b
  | _ => x

/-- `intena` is the flag before the outermost section. -/
def Kept (x : Bool) (f : Frame n) : Prop :=
  ∀ b, f.opened.getLast? = some (.own b) ∨
      (f.opened = [] ∧ (f.point = .push₃ b ∨ f.point = .pop₂ (.own b))) →
    f.intena x = b

end Frame

namespace Routine

/-- The code of `main` and of the scheduler, which has nothing below it. -/
def Bottom : Routine n → Bool
  | main | scheduler _ => true
  | _ => false

/-- The threads that run the code. -/
def Of (t : Option (Fin n)) : Routine n → Prop
  | main | scheduler _ => t = none
  | trap _ => True
  | _ => t ≠ none

/-- The process has given up its state `RUNNING`. -/
def Asleep : Routine n → Prop
  | yield .testState | yield .testFlag | yield .saveIntena | yield (.swtch _) => True
  | _ => False

end Routine

/-- A stack whose top runs with the given flag.  Only code with interrupts on is interrupted. -/
def Stack (t : Option (Fin n)) : Bool → List (Frame n) → Prop
  | flag, [] => t ≠ none ∧ flag = true
  | flag, f :: fs =>
    f.Ok flag ∧ f.routine.Of t ∧
      if f.routine.Bottom then fs = [] else f.saved = true ∧ Stack t true fs

/-- What holds of the top of the running thread. -/
structure Top (t : Option (Fin n)) (cpu : Cpu n) (ps : Fin n → ProcState) (f : Frame n) :
    Prop where
  kept : t ≠ none → f.Kept cpu.intena
  asleep : ∀ i, t = some i → f.routine.Asleep → ps i = .RUNNABLE
  /-- In the scheduler's thread `cpu.proc` is the process chosen, or one that does not run. -/
  idle : t = none → ∀ i, cpu.proc = some i → ps i = .RUNNING →
    f.routine = .scheduler (.switchuvm i) ∨ f.routine = .scheduler (.swtch i)
  chosen : ∀ k, f.routine = .scheduler (.chosen k) → cpu.proc = some k ∧ ps k = .RUNNABLE
  picked : ∀ k, f.routine = .scheduler (.switchuvm k) ∨ f.routine = .scheduler (.swtch k) →
    cpu.proc = some k ∧ ps k = .RUNNING

/-- What holds of the running thread. -/
structure Running (t : Option (Fin n)) (cpu : Cpu n) (ps : Fin n → ProcState)
    (fs : List (Frame n)) : Prop where
  depth : cpu.ncli = depth fs
  stack : Stack t cpu.intr fs
  proc : ∀ i, t = some i → cpu.proc = some i
  top : ∀ f rest, fs = f :: rest → Top t cpu ps f

/-- What holds of a thread that waits to be switched to. -/
structure Parked (t : Option (Fin n)) (fs : List (Frame n)) : Prop where
  stack : Stack t false fs
  depth : depth fs = 1
  code : ∃ f rest, fs = f :: rest ∧ f.point = .code ∧ (∀ x, t ≠ none → f.Kept x) ∧
    (t = none → ∃ k, f.routine = .scheduler (.scan k)) ∧
    (t ≠ none → f.routine = .forkret ∨ ∃ b, f.routine = .yield (.restoreIntena b))

/-- **The invariant.** -/
structure Inv (s : State n) : Prop where
  calm : s.panicked = none
  running : Running s.run s.cpu s.procstate (s.frames s.run)
  sleeper : s.run ≠ none → Parked none (s.frames none)
  parked : ∀ i, s.run ≠ some i → s.procstate i = .RUNNABLE ∨ s.procstate i = .RUNNING →
    Parked (some i) (s.frames (some i))

/-! ## The running thread -/

variable {cpu cpu' : Cpu n} {ps ps' : Fin n → ProcState} {f' : Frame n} {x x' : Bool}

lemma Stack.depth_eq_zero (h : Stack t true fs) : depth fs = 0 := by
  induction fs with
  | nil => rfl
  | cons f fs ih =>
    obtain ⟨hok, -, hrest⟩ := h
    have hopen := (hok.off rfl).1
    split_ifs at hrest with hb
    · simp [depth, hopen, hrest]
    · have := ih hrest.2
      simpa [depth, hopen] using this

lemma Stack.depth_cons {flag : Bool} (h : Stack t flag (f :: fs)) :
    depth (f :: fs) = f.opened.length := by
  obtain ⟨-, -, hrest⟩ := h
  have hzero : depth fs = 0 := by
    split_ifs at hrest with hb
    · rw [hrest]
      rfl
    · exact hrest.2.depth_eq_zero
  simp only [depth, List.map_cons, List.sum_cons] at hzero ⊢
  omega

lemma Running.ncli (h : Running t cpu ps (f :: fs)) : cpu.ncli = f.opened.length := by
  rw [h.depth, h.stack.depth_cons]

lemma Stack.replace {flag flag' : Bool} (h : Stack t flag (f :: fs)) (hok : f'.Ok flag')
    (hof : f'.routine.Of t) (hbottom : f'.routine.Bottom = f.routine.Bottom)
    (hsaved : f'.saved = f.saved) : Stack t flag' (f' :: fs) := by
  refine ⟨hok, hof, ?_⟩
  rw [hbottom, hsaved]
  exact h.2.2

lemma Running.replace (h : Running t cpu ps (f :: fs)) (hok : f'.Ok cpu'.intr)
    (hncli : cpu'.ncli = f'.opened.length) (hproc : t ≠ none → cpu'.proc = cpu.proc)
    (hof : f'.routine.Of t) (hbottom : f'.routine.Bottom = f.routine.Bottom)
    (hsaved : f'.saved = f.saved) (htop : Top t cpu' ps' f') :
    Running t cpu' ps' (f' :: fs) := by
  have hstack := h.stack.replace hok hof hbottom hsaved
  refine ⟨?_, hstack, ?_, ?_⟩
  · rw [hncli, hstack.depth_cons]
  · intro i hi
    rw [hproc (by rw [hi]; exact Option.some_ne_none i), h.proc i hi]
  · intro g rest hg
    cases hg
    exact htop

lemma Top.same (h : Top t cpu ps f) (hr : f'.routine = f.routine) (hproc : cpu'.proc = cpu.proc)
    (hkept : t ≠ none → f'.Kept cpu'.intena) : Top t cpu' ps f' where
  kept := hkept
  asleep i hi ha := h.asleep i hi (hr ▸ ha)
  idle ht i hi hps := by
    rw [hr]
    exact h.idle ht i (hproc ▸ hi) hps
  chosen k hk := by
    rw [hproc]
    exact h.chosen k (hr ▸ hk)
  picked k hk := by
    rw [hproc]
    exact h.picked k (hr ▸ hk)

lemma Top.process (ht : t ≠ none) (hof : f.routine.Of t) (hkept : f.Kept cpu.intena)
    (ha : ∀ i, t = some i → f.routine.Asleep → ps i = .RUNNABLE) : Top t cpu ps f where
  kept _ := hkept
  asleep := ha
  idle h := absurd h ht
  chosen k hk := by
    rw [hk] at hof
    exact absurd hof ht
  picked k hk := by
    rcases hk with hk | hk <;> rw [hk] at hof <;> exact absurd hof ht

lemma Top.of_on (hok : f.Ok true) (hidle : t = none → ∀ i, cpu.proc = some i → ps i ≠ .RUNNING) :
    Top t cpu ps f := by
  obtain ⟨hfits, hoff, -⟩ := hok
  obtain ⟨hopen, hpoint⟩ := hoff rfl
  have hlen : f.opened.length = 0 := by rw [hopen]; rfl
  constructor
  · intro _ b hb
    rcases hb with hb | ⟨-, hb⟩
    · rw [hopen] at hb
      exact absurd hb (by simp)
    · rcases hpoint with hp | ⟨e, hp⟩ <;> rw [hp] at hb <;> rcases hb with hb | hb <;> cases hb
  · intro i _ ha
    unfold Frame.Fits at hfits
    unfold Routine.Asleep at ha
    split at ha <;> simp_all
  · intro ht i hi hps
    exact absurd hps (hidle ht i hi)
  · intro k hk
    simp only [Frame.Fits, hk] at hfits
    omega
  · intro k hk
    rcases hk with hk | hk <;> simp only [Frame.Fits, hk] at hfits <;> omega

lemma Top.waiting (ht : t = none) (hidle : ∀ i, cpu.proc = some i → ps i ≠ .RUNNING)
    (hf : ∀ k, f.routine ≠ .scheduler (.chosen k) ∧ f.routine ≠ .scheduler (.switchuvm k) ∧
      f.routine ≠ .scheduler (.swtch k)) : Top t cpu ps f where
  kept h := absurd ht h
  asleep i hi := by
    rw [ht] at hi
    cases hi
  idle _ i hi hps := absurd hps (hidle i hi)
  chosen k hk := absurd hk (hf k).1
  picked k hk := by
    rcases hk with hk | hk
    · exact absurd hk (hf k).2.1
    · exact absurd hk (hf k).2.2

lemma Top.not_running (h : Top t cpu ps f) (ht : t = none)
    (hf : ∀ k, f.routine ≠ .scheduler (.switchuvm k) ∧ f.routine ≠ .scheduler (.swtch k))
    (i : Fin n) (hi : cpu.proc = some i) : ps i ≠ .RUNNING := by
  intro hps
  rcases h.idle ht i hi hps with hr | hr
  · exact (hf i).1 hr
  · exact (hf i).2 hr

/-! ## What becomes of `intena` -/

namespace Frame

/-- `intena` is not looked for in a local variable within `pushcli` and `popcli`. -/
lemma Ok.intena_eq {flag : Bool} (h : f.Ok flag) (hp : f.point ≠ .code) : f.intena x = x := by
  have hfits := h.fits
  unfold Fits at hfits
  unfold intena
  split <;> simp_all

lemma Ok.flag_off {flag : Bool} (h : f.Ok flag) (hc : f.point ≠ .code)
    (hp : ∀ e, f.point ≠ .push₁ e) : flag ≠ true := by
  intro hon
  rcases (h.off hon).2 with hq | ⟨e, hq⟩
  · exact hc hq
  · exact hp e hq

lemma Kept.same (h : f.Kept x) (ho : f'.opened = f.opened) (hi : f'.intena x' = f.intena x)
    (hp : ∀ b, f'.point ≠ .push₃ b ∧ f'.point ≠ .pop₂ (.own b)) : f'.Kept x' := by
  intro b hb
  rw [hi]
  refine h b ?_
  rcases hb with hb | ⟨-, hb | hb⟩
  · exact .inl (ho ▸ hb)
  · exact absurd hb (hp b).1
  · exact absurd hb (hp b).2

lemma Kept.store {e : Bool} (h : f.Kept x) (hx : f.opened = [] → x' = e)
    (hx' : f.opened ≠ [] → x' = x) (hi : ∀ y, f.intena y = y) :
    ({ f with point := .push₃ e } : Frame n).Kept x' := by
  intro b hb
  show f.intena x' = b
  rw [hi]
  rcases hb with hb | ⟨hopen, hb⟩
  · have hne : f.opened ≠ [] := by
      intro hnil
      rw [show ({ f with point := .push₃ e } : Frame n).opened = f.opened from rfl, hnil] at hb
      cases hb
    rw [hx' hne, ← hi x]
    exact h b (.inl hb)
  · rw [hx hopen]
    rcases hb with hb | hb
    · exact Point.push₃.inj hb
    · cases hb

lemma Kept.push {e : Bool} (h : f.Kept x) (hp : f.point = .push₃ e) :
    ({ f with point := .code, opened := .own e :: f.opened } : Frame n).Kept x := by
  intro b hb
  refine h b ?_
  rcases hb with hb | ⟨hopen, -⟩
  · simp only [List.getLast?_cons, Option.some.injEq] at hb
    cases hopen : f.opened with
    | nil =>
      rw [hopen, List.getLast?_nil] at hb
      cases hb
      exact .inr ⟨rfl, .inl hp⟩
    | cons c cs =>
      left
      rw [hopen] at hb
      rw [← hb]
      simp [List.getLast?_cons]
  · cases hopen

lemma Kept.pop {c : Opened} {cs : List Opened} (h : f.Kept x) (ho : f.opened = c :: cs) :
    ({ f with point := .pop₂ c, opened := cs } : Frame n).Kept x := by
  intro b hb
  refine h b (.inl ?_)
  rw [ho, List.getLast?_cons]
  rcases hb with hb | ⟨hopen, hb | hb⟩
  · rw [show ({ f with point := .pop₂ c, opened := cs } : Frame n).opened = cs from rfl] at hb
    rw [hb]
    rfl
  · cases hb
  · rw [show cs = [] from hopen]
    exact congrArg some (Point.pop₂.inj hb)

end Frame

/-! ## Steps keep the invariant -/

namespace Inv

lemma putStates (h : Inv s) (hrun : Running s.run cpu' ps' fs)
    (hps : ∀ i, s.run ≠ some i → ps' i = .RUNNABLE ∨ ps' i = .RUNNING →
      s.procstate i = .RUNNABLE ∨ s.procstate i = .RUNNING) :
    Inv { s.put cpu' fs with procstate := ps' } where
  calm := h.calm
  running := by
    show Running s.run cpu' ps' (Function.update s.frames s.run fs s.run)
    rwa [Function.update_self]
  sleeper (hne : s.run ≠ none) := by
    show Parked none (Function.update s.frames s.run fs none)
    rw [Function.update_of_ne hne.symm]
    exact h.sleeper hne
  parked i (hne : s.run ≠ some i) hi := by
    show Parked (some i) (Function.update s.frames s.run fs (some i))
    rw [Function.update_of_ne hne.symm]
    exact h.parked i hne (hps i hne hi)

lemma put (h : Inv s) (hrun : Running s.run cpu' s.procstate fs) : Inv (s.put cpu' fs) :=
  h.putStates hrun fun _ _ hi => hi

lemma run (h : Inv s) (hfs : s.frames s.run = f :: fs) :
    Running s.run s.cpu s.procstate (f :: fs) :=
  hfs ▸ h.running

lemma not_running (h : Inv s) (hon : s.cpu.intr = true) (ht : s.run = none) (i : Fin n)
    (hi : s.cpu.proc = some i) : s.procstate i ≠ .RUNNING := by
  intro hps
  cases hfs : s.frames s.run with
  | nil =>
    have hstack := h.running.stack
    rw [hfs] at hstack
    exact hstack.1 ht
  | cons f fs =>
    have hrun := h.run hfs
    have hok := hrun.stack.1
    have hlen : f.opened.length = 0 := by
      rw [(hok.off hon).1]
      rfl
    have hfits := hok.fits
    rcases (hrun.top f fs rfl).idle ht i hi hps with hr | hr <;>
      simp only [Frame.Fits, hr] at hfits <;> omega

lemma pushcli {r : Routine n} (h : Inv s) (hfs : s.frames s.run = f :: fs)
    (hof : r.Of s.run) (hb : r.Bottom = f.routine.Bottom)
    (hfits : Frame.Fits { f with routine := r, point := .push₁ s.cpu.intr })
    (htop : Top s.run s.cpu s.procstate { f with routine := r, point := .push₁ s.cpu.intr }) :
    Inv (s.pushcli { f with routine := r } fs) := by
  have hrun := h.run hfs
  refine h.put (hrun.replace ⟨hfits, ?_, ?_⟩ hrun.ncli (fun _ => rfl) hof hb rfl htop)
  · intro hon
    exact ⟨(hrun.stack.1.off hon).1, .inr ⟨_, rfl⟩⟩
  · rintro ⟨⟩

lemma popcli {r : Routine n} (h : Inv s) (hfs : s.frames s.run = f :: fs)
    (hopen : f.opened ≠ []) (hof : r.Of s.run) (hb : r.Bottom = f.routine.Bottom)
    (hfits : Frame.Fits { f with routine := r, point := .pop₁ })
    (htop : Top s.run s.cpu s.procstate { f with routine := r, point := .pop₁ }) :
    Inv (s.popcli { f with routine := r } fs) := by
  have hrun := h.run hfs
  have hoff : ¬ s.cpu.intr = true := fun hon => hopen (hrun.stack.1.off hon).1
  rw [State.popcli, if_neg hoff]
  refine h.put (hrun.replace ⟨hfits, ?_, ?_⟩ hrun.ncli (fun _ => rfl) hof hb rfl htop)
  · intro hon
    exact absurd hon hoff
  · exact fun _ => hopen

lemma iret (h : Inv s) (hfs : s.frames s.run = f :: fs) (hb : f.routine.Bottom = false)
    (hopen : f.opened = [])
    (hidle : s.run = none → ∀ i, s.cpu.proc = some i → s.procstate i ≠ .RUNNING) :
    Inv (s.iret f fs) := by
  have hrun := h.run hfs
  obtain ⟨-, -, hrest⟩ := hrun.stack
  rw [hb, if_neg Bool.false_ne_true] at hrest
  obtain ⟨hsaved, hstack⟩ := hrest
  refine h.put ⟨?_, ?_, hrun.proc, ?_⟩
  · show s.cpu.ncli = _
    rw [hrun.ncli, hopen, hstack.depth_eq_zero]
    rfl
  · show Stack _ f.saved _
    rwa [hsaved]
  · intro g rest hg
    rw [hg] at hstack
    exact Top.of_on hstack.1 hidle

lemma enter {r : Routine n} (h : Inv s) (hon : s.cpu.intr = true) (gate : Bool)
    (hr : r = .syscall ∧ s.run ≠ none ∨ ∃ timer, r = .trap timer) : Inv (s.enter r gate) := by
  have hstack : Stack s.run true (s.frames s.run) := hon ▸ h.running.stack
  have hok : Frame.Ok (s.cpu.intr && gate) ⟨r, .code, [], s.cpu.intr⟩ := by
    refine ⟨?_, fun _ => ⟨rfl, .inl rfl⟩, by rintro ⟨⟩⟩
    rcases hr with ⟨rfl, -⟩ | ⟨timer, rfl⟩ <;> trivial
  have hof : r.Of s.run := by
    rcases hr with ⟨rfl, hne⟩ | ⟨timer, rfl⟩
    · exact hne
    · trivial
  have hb : r.Bottom = false := by
    rcases hr with ⟨rfl, -⟩ | ⟨timer, rfl⟩ <;> rfl
  refine h.put ⟨?_, ⟨hok, hof, ?_⟩, h.running.proc, ?_⟩
  · rw [h.running.depth]
    simp [depth]
  · rw [hb]
    exact ⟨hon, hstack⟩
  · intro g rest hg
    cases hg
    refine Top.of_on ⟨hok.fits, fun _ => ⟨rfl, .inl rfl⟩, by rintro ⟨⟩⟩ ?_
    exact h.not_running hon

lemma micro (h : Inv s) (hfs : s.frames s.run = f :: fs) (hr : f'.routine = f.routine)
    (hsaved : f'.saved = f.saved) (hproc : cpu'.proc = s.cpu.proc)
    (hok : f'.Ok cpu'.intr) (hncli : cpu'.ncli = f'.opened.length)
    (hkept : s.run ≠ none → f'.Kept cpu'.intena) : Inv (s.put cpu' (f' :: fs)) := by
  have hrun := h.run hfs
  refine h.put (hrun.replace hok hncli (fun _ => hproc) ?_ ?_ hsaved ?_)
  · rw [hr]
    exact hrun.stack.2.1
  · rw [hr]
  · exact (hrun.top f fs rfl).same hr hproc hkept

lemma next_point {s' : State n} (h : Inv s) (hfs : s.frames s.run = f :: fs)
    (hp : f.point ≠ .code) (hs : s.next f fs = some s') : Inv s' := by
  have hrun := h.run hfs
  have hok := hrun.stack.1
  have hncli := hrun.ncli
  have hfits := hok.fits
  have hin : ∀ y, f.intena y = y := fun y => hok.intena_eq hp
  have hkept := (hrun.top f fs rfl).kept
  unfold State.next at hs
  cases hpt : f.point with
  | code => exact absurd hpt hp
  | push₁ e =>
    simp only [hpt, Option.some.injEq] at hs
    subst hs
    refine h.micro hfs rfl rfl rfl ⟨?_, ?_, by rintro ⟨⟩⟩ hncli fun ht => ?_
    · unfold Frame.Fits at hfits ⊢
      split <;> simp_all [Frame.Pushing, Frame.Popping, Frame.level]
    · rintro ⟨⟩
    · refine (hkept ht).same rfl rfl fun b => ⟨?_, ?_⟩ <;> rintro ⟨⟩
  -- `if(cpu->ncli == 0) cpu->intena = eflags & FL_IF`: a store only outside of all sections
  | push₂ e =>
    simp only [hpt, Option.some.injEq] at hs
    subst hs
    have hoff := hok.flag_off hp (by rw [hpt]; rintro e' ⟨⟩)
    refine h.micro hfs rfl rfl rfl ⟨?_, ?_, by rintro ⟨⟩⟩ hncli fun ht => ?_
    · unfold Frame.Fits at hfits ⊢
      split <;> simp_all [Frame.Pushing, Frame.Popping, Frame.level]
    · exact fun hon => absurd hon hoff
    · refine (hkept ht).store ?_ ?_ hin
      · intro hopen
        show (if s.cpu.ncli = 0 then e else _) = e
        rw [if_pos (by rw [hncli, hopen]; rfl)]
      · intro hopen
        show (if s.cpu.ncli = 0 then e else _) = _
        have hpos := List.length_pos_iff.mpr hopen
        rw [if_neg (by omega)]
  -- the count goes up, and with it the depth
  | push₃ e =>
    simp only [hpt, Option.some.injEq] at hs
    subst hs
    have hoff := hok.flag_off hp (by rw [hpt]; rintro e' ⟨⟩)
    refine h.micro hfs rfl rfl rfl ⟨?_, ?_, by rintro ⟨⟩⟩ ?_ fun ht => (hkept ht).push hpt
    · unfold Frame.Fits at hfits ⊢
      split <;> simp_all [Frame.Pushing, Frame.Popping, Frame.level]
    · exact fun hon => absurd hon hoff
    · show s.cpu.ncli + 1 = _
      rw [hncli]
      simp
  -- inside of a section the flag is off and the count positive: neither panic of `popcli` is met
  | pop₁ =>
    obtain ⟨c, cs, hopen⟩ := List.exists_cons_of_ne_nil (hok.pop hpt)
    have hlen : f.opened.length = cs.length + 1 := by rw [hopen]; rfl
    have hoff : s.cpu.intr ≠ true := by
      intro hon
      rw [(hok.off hon).1] at hopen
      cases hopen
    simp only [hpt, hopen] at hs
    rw [if_neg (by omega)] at hs
    cases hs
    refine h.micro hfs rfl rfl rfl ⟨?_, ?_, by rintro ⟨⟩⟩ ?_ fun ht => (hkept ht).pop hopen
    · unfold Frame.Fits at hfits ⊢
      split <;> simp_all [Frame.Pushing, Frame.Popping, Frame.level]
    · exact fun hon => absurd hon hoff
    · show s.cpu.ncli - 1 = (cs.length : ℤ)
      omega
  | pop₂ c =>
    simp only [hpt, Option.some.injEq] at hs
    subst hs
    have hoff := hok.flag_off hp (by rw [hpt]; rintro e' ⟨⟩)
    refine h.micro hfs rfl rfl rfl ⟨?_, ?_, by rintro ⟨⟩⟩ hncli fun ht => ?_
    · unfold Frame.Fits at hfits ⊢
      split <;> simp_all [Frame.Pushing, Frame.Popping, Frame.level]
    -- `sti` comes at count zero only, when no section is open
    · intro hon
      refine ⟨List.length_eq_zero_iff.mp (?_ : f.opened.length = 0), .inl rfl⟩
      by_contra hne
      change (if s.cpu.ncli = 0 ∧ s.cpu.intena then true else s.cpu.intr) = true at hon
      rw [if_neg (by rw [hncli]; omega)] at hon
      exact hoff hon
    · refine (hkept ht).same rfl rfl fun b => ⟨?_, ?_⟩ <;> rintro ⟨⟩

lemma swtch_process {k : Fin n} {opened : List Opened} {saved : Bool} (h : Inv s)
    (hfs : s.frames s.run = ⟨.scheduler (.swtch k), .code, opened, saved⟩ :: fs) :
    Inv { s.put s.cpu (⟨.scheduler (.scan (k + 1)), .code, opened, saved⟩ :: fs) with
      run := some k } := by
  have hrun := h.run hfs
  have ht : s.run = none := hrun.stack.2.1
  obtain ⟨hproc, hps⟩ := (hrun.top _ _ rfl).picked k (.inr rfl)
  obtain ⟨-, hlen : opened.length = 1⟩ := hrun.stack.1.fits
  have hoff : s.cpu.intr = false := by
    by_contra hon
    have hopen : opened = [] := (hrun.stack.1.off (eq_true_of_ne_false hon)).1
    rw [hopen] at hlen
    cases hlen
  have hpark := h.parked k (by rw [ht]; exact (Option.some_ne_none k).symm) (.inr hps)
  have hframes : ∀ i, Function.update s.frames s.run
      (⟨.scheduler (.scan (k + 1)), .code, opened, saved⟩ :: fs) (some i) = s.frames (some i) := by
    intro i
    rw [Function.update_of_ne]
    rw [ht]
    exact Option.some_ne_none i
  -- both threads are at depth one with the flag off, so that the count and the flag are taken over
  refine ⟨h.calm, ?_, fun _ => ?_, ?_⟩
  · show Running (some k) s.cpu s.procstate (Function.update s.frames s.run _ (some k))
    rw [hframes]
    obtain ⟨f, rest, hf, -, hkept, -, hr⟩ := hpark.code
    refine ⟨?_, ?_, ?_, ?_⟩
    · rw [hrun.ncli, hpark.depth]
      exact congrArg _ hlen
    · rw [hoff]
      exact hpark.stack
    · rintro i ⟨⟩
      exact hproc
    · intro g rest' hg
      rw [hf] at hg
      cases hg
      have hof := hpark.stack
      rw [hf] at hof
      refine Top.process (Option.some_ne_none k) hof.2.1 (hkept _ (Option.some_ne_none k)) ?_
      -- it goes on in `forkret` or behind its own `swtch`, and is not asleep in either
      rcases hr (Option.some_ne_none k) with hr | ⟨b, hr⟩ <;> intro i _ ha <;> rw [hr] at ha <;>
        exact ha.elim
  · show Parked none (Function.update s.frames s.run _ none)
    rw [ht, Function.update_self]
    have hstack := hrun.stack
    rw [ht] at hstack
    have hstack' : Stack none false (⟨.scheduler (.scan (k + 1)), .code, opened, saved⟩ :: fs) :=
      hstack.replace ⟨⟨id, hlen⟩, by rintro ⟨⟩, by rintro ⟨⟩⟩ rfl rfl rfl
    refine ⟨hstack', hstack'.depth_cons.trans hlen, _, _, rfl, rfl, ?_, fun _ => ⟨_, rfl⟩, ?_⟩
    · exact fun _ hne => absurd rfl hne
    · exact fun hne => absurd rfl hne
  · intro i hne hi
    show Parked (some i) (Function.update s.frames s.run _ (some i))
    rw [hframes]
    exact h.parked i (by rw [ht]; exact (Option.some_ne_none i).symm) hi

lemma swtch_scheduler {b : Bool} {opened : List Opened} {saved : Bool} (h : Inv s)
    (hfs : s.frames s.run = ⟨.yield (.swtch b), .code, opened, saved⟩ :: fs) :
    Inv { s.put s.cpu (⟨.yield (.restoreIntena b), .code, opened, saved⟩ :: fs) with
      run := none } := by
  have hrun := h.run hfs
  have ht : s.run ≠ none := hrun.stack.2.1
  obtain ⟨i, hi⟩ := Option.ne_none_iff_exists'.mp ht
  have hps := (hrun.top _ _ rfl).asleep i hi trivial
  obtain ⟨-, hlen : opened.length = 1⟩ := hrun.stack.1.fits
  have hoff : s.cpu.intr = false := by
    by_contra hon
    have hopen : opened = [] := (hrun.stack.1.off (eq_true_of_ne_false hon)).1
    rw [hopen] at hlen
    cases hlen
  have hpark := h.sleeper ht
  refine ⟨h.calm, ?_, fun hne => absurd rfl hne, ?_⟩
  · show Running none s.cpu s.procstate (Function.update s.frames s.run _ none)
    rw [Function.update_of_ne ht.symm]
    obtain ⟨f, rest, hf, -, -, hr, -⟩ := hpark.code
    obtain ⟨j, hr⟩ := hr rfl
    refine ⟨?_, ?_, by rintro i ⟨⟩, ?_⟩
    · rw [hrun.ncli, hpark.depth]
      exact congrArg _ hlen
    · rw [hoff]
      exact hpark.stack
    · intro g rest' hg
      rw [hf] at hg
      cases hg
      -- `cpu.proc` still is the process that has left; it has made itself `RUNNABLE`
      refine Top.waiting rfl ?_ ?_
      · intro j hj
        rw [hrun.proc i hi] at hj
        cases hj
        rw [hps]
        exact ProcState.noConfusion
      · intro k
        rw [hr]
        exact ⟨by rintro ⟨⟩, by rintro ⟨⟩, by rintro ⟨⟩⟩
  · intro j _ hj
    show Parked (some j) (Function.update s.frames s.run _ (some j))
    by_cases hij : s.run = some j
    · rw [← hij, Function.update_self]
      have hstack : Stack s.run false (⟨.yield (.restoreIntena b), .code, opened, saved⟩ :: fs) :=
        hrun.stack.replace ⟨⟨rfl, hlen⟩, by rintro ⟨⟩, by rintro ⟨⟩⟩ ht rfl rfl
      refine ⟨hstack, hstack.depth_cons.trans hlen, _, _, rfl, rfl, ?_, ?_, ?_⟩
      · intro x _
        refine ((hrun.top _ _ rfl).kept ht).same rfl rfl fun b => ⟨?_, ?_⟩ <;> rintro ⟨⟩
      · exact fun hnone => absurd hnone ht
      · exact fun _ => .inr ⟨b, rfl⟩
    · rw [Function.update_of_ne (Ne.symm hij)]
      exact h.parked j hij hj

lemma scheduler {pc : SchedulerPc n} {opened : List Opened} {saved : Bool} {s' : State n}
    (h : Inv s) (hfs : s.frames s.run = ⟨.scheduler pc, .code, opened, saved⟩ :: fs)
    (hs : s.scheduler ⟨.scheduler pc, .code, opened, saved⟩ fs pc = some s') : Inv s' := by
  have hrun := h.run hfs
  have ht : s.run = none := hrun.stack.2.1
  have hfits := hrun.stack.1.fits
  have htop := hrun.top _ _ rfl
  have hncli := hrun.ncli
  have hoff := hrun.stack.1.off
  cases pc with
  | sti =>
    cases hs
    have hopen : opened = [] := List.length_eq_zero_iff.mp hfits.2
    refine h.put (hrun.replace ⟨⟨rfl, hopen⟩, fun _ => ⟨hopen, .inl rfl⟩, by rintro ⟨⟩⟩ hncli
      (fun _ => rfl) ht rfl rfl (Top.waiting ht (htop.not_running ht ?_) ?_)) <;> simp
  | push =>
    cases hs
    have hopen : opened = [] := hfits.2
    refine h.pushcli hfs ht rfl ⟨id, by rw [hopen]; rfl⟩
      (Top.waiting ht (htop.not_running ht ?_) ?_) <;> simp
  -- the section is opened before the scan and closed behind the last process
  | scan k =>
    obtain ⟨-, hlen : opened.length = 1⟩ := hfits
    simp only [State.scheduler] at hs
    split_ifs at hs with hk hps
    · cases hs
      refine h.put (hrun.replace ⟨⟨rfl, hlen⟩, hoff, by rintro ⟨⟩⟩ hncli
        (fun hne => absurd ht hne) ht rfl rfl ⟨fun hne => absurd ht hne, ?_, ?_, ?_, ?_⟩)
      · rintro i - ⟨⟩
      · rintro - i ⟨⟩ hrunning
        rw [hps] at hrunning
        cases hrunning
      · rintro j ⟨⟩
        exact ⟨rfl, hps⟩
      · rintro j (⟨⟨⟩⟩ | ⟨⟨⟩⟩)
    · cases hs
      refine h.put (hrun.replace ⟨⟨id, hlen⟩, hoff, by rintro ⟨⟩⟩ hncli (fun _ => rfl) ht rfl rfl
        (Top.waiting ht (htop.not_running ht ?_) ?_)) <;> simp
    · cases hs
      have hne : opened ≠ [] := List.ne_nil_of_length_eq_add_one hlen
      refine h.popcli hfs hne ht rfl ⟨id, by simp only [Frame.level, hlen]⟩
        (Top.waiting ht (htop.not_running ht ?_) ?_) <;> simp
  -- from here on the process is `RUNNING`, while its thread is still parked
  | chosen k =>
    cases hs
    obtain ⟨-, hlen : opened.length = 1⟩ := hfits
    obtain ⟨hproc, hps⟩ := htop.chosen k rfl
    refine h.putStates (hrun.replace ⟨⟨hlen.ge, by rintro ⟨⟩⟩, hoff, by rintro ⟨⟩⟩ hncli
      (fun _ => rfl) ht rfl rfl ⟨fun hne => absurd ht hne, ?_, ?_, by rintro j ⟨⟩, ?_⟩) ?_
    · rintro i - ⟨⟩
    · intro _ i hi _
      rw [hproc] at hi
      cases hi
      exact .inl rfl
    · rintro j (⟨⟨⟩⟩ | ⟨⟨⟩⟩)
      exact ⟨hproc, Function.update_self _ _ _⟩
    · intro i _ hi
      by_cases hik : i = k
      · rw [hik]
        exact .inl hps
      · rwa [Function.update_of_ne hik] at hi
  | switchuvm k => cases hs
  | swtch k =>
    cases hs
    exact h.swtch_process hfs

lemma yield {pc : YieldPc} {opened : List Opened} {saved : Bool} {s' : State n}
    (h : Inv s) (hfs : s.frames s.run = ⟨.yield pc, .code, opened, saved⟩ :: fs)
    (hs : s.yield ⟨.yield pc, .code, opened, saved⟩ fs pc = some s') : Inv s' := by
  have hrun := h.run hfs
  have ht : s.run ≠ none := hrun.stack.2.1
  obtain ⟨i, hi⟩ := Option.ne_none_iff_exists'.mp ht
  have hproc := hrun.proc i hi
  have hfits := hrun.stack.1.fits
  have htop := hrun.top _ _ rfl
  have hkept := htop.kept ht
  have hncli := hrun.ncli
  have hoff := hrun.stack.1.off
  cases pc with
  | push =>
    cases hs
    have hopen : opened = [] := hfits.2
    refine h.pushcli hfs ht rfl ⟨id, by rw [hopen]; rfl⟩
      (Top.process ht ht (hkept.same rfl rfl ?_) ?_) <;> simp [Routine.Asleep]
  | setState =>
    simp only [State.yield] at hs
    rw [hproc] at hs
    cases hs
    obtain ⟨-, hlen : opened.length = 1⟩ := hfits
    refine h.putStates (hrun.replace ⟨⟨rfl, hlen⟩, hoff, by rintro ⟨⟩⟩ hncli (fun _ => rfl) ht rfl
      rfl (Top.process ht ht (hkept.same rfl rfl (by simp)) ?_)) ?_
    · intro j hj _
      rw [hi] at hj
      cases hj
      exact Function.update_self _ _ _
    · intro j hj hps
      have hne : j ≠ i := by
        rintro rfl
        exact hj hi
      rwa [Function.update_of_ne hne] at hps
  -- the state has been set, so that `sched` does not panic on a running process
  | testState =>
    have hps := htop.asleep i hi trivial
    simp only [State.yield] at hs
    rw [hproc, Option.map_some, if_neg (by rw [hps]; exact ProcState.noConfusion)] at hs
    cases hs
    refine h.put (hrun.replace ⟨hfits, hoff, by rintro ⟨⟩⟩ hncli (fun _ => rfl) ht rfl rfl
      (Top.process ht ht (hkept.same rfl rfl (by simp)) ?_))
    exact fun j hj _ => htop.asleep j hj trivial
  -- nor on the flag, which is off inside of the section that `yield` has opened
  | testFlag =>
    obtain ⟨-, hlen : opened.length = 1⟩ := hfits
    have hintr : ¬ s.cpu.intr = true := by
      intro hon
      have hopen : opened = [] := (hoff hon).1
      rw [hopen] at hlen
      cases hlen
    simp only [State.yield] at hs
    rw [if_neg hintr] at hs
    cases hs
    refine h.put (hrun.replace ⟨⟨rfl, hlen⟩, hoff, by rintro ⟨⟩⟩ hncli (fun _ => rfl) ht rfl rfl
      (Top.process ht ht (hkept.same rfl rfl (by simp)) ?_))
    exact fun j hj _ => htop.asleep j hj trivial
  | saveIntena =>
    cases hs
    refine h.put (hrun.replace ⟨hfits, hoff, by rintro ⟨⟩⟩ hncli (fun _ => rfl) ht rfl rfl
      (Top.process ht ht (hkept.same rfl rfl (by simp)) ?_))
    exact fun j hj _ => htop.asleep j hj trivial
  | swtch b =>
    cases hs
    exact h.swtch_scheduler hfs
  | restoreIntena b =>
    cases hs
    refine h.put (hrun.replace ⟨hfits, hoff, by rintro ⟨⟩⟩ hncli (fun _ => rfl) ht rfl rfl
      (Top.process ht ht (hkept.same rfl rfl (by simp)) ?_))
    rintro j - ⟨⟩
  | pop =>
    cases hs
    obtain ⟨-, hlen : opened.length = 1⟩ := hfits
    have hne : opened ≠ [] := List.ne_nil_of_length_eq_add_one hlen
    refine h.popcli hfs hne ht rfl ⟨id, by simp only [Frame.level, hlen]⟩
      (Top.process ht ht (hkept.same rfl rfl (by simp)) ?_)
    rintro j - ⟨⟩
  | done =>
    cases hs
    exact h.iret hfs rfl (List.length_eq_zero_iff.mp hfits.2) fun hnone => absurd hnone ht

/-- **The next statement of the code that is fixed here.** -/
lemma next {s' : State n} (h : Inv s) (hfs : s.frames s.run = f :: fs)
    (hs : s.next f fs = some s') : Inv s' := by
  by_cases hp : f.point = .code
  swap
  · exact h.next_point hfs hp hs
  obtain ⟨r, p, opened, saved⟩ := f
  cases hp
  have hrun := h.run hfs
  have hfits := hrun.stack.1.fits
  cases r with
  | scheduler pc => exact h.scheduler hfs hs
  | yield pc => exact h.yield hfs hs
  | forkret =>
    cases hs
    have ht : s.run ≠ none := hrun.stack.2.1
    obtain ⟨-, hopen : opened = [.handed]⟩ := hfits
    have hkept := (hrun.top _ _ rfl).kept ht
    refine h.popcli hfs ?_ ht rfl ⟨id, ?_⟩ (Top.process ht ht (hkept.same rfl rfl (by simp)) ?_)
    · rw [hopen]
      exact List.cons_ne_nil _ _
    · simp only [Frame.level, hopen]
      rfl
    · rintro j - ⟨⟩
  | trapret =>
    cases hs
    have ht : s.run ≠ none := hrun.stack.2.1
    exact h.iret hfs rfl (List.length_eq_zero_iff.mp hfits.2) fun hnone => absurd hnone ht
  | main => cases hs
  | syscall => cases hs
  | trap timer => cases hs

lemma leave {r : Routine n} {opened : List Opened} {saved : Bool} {s' : State n}
    (h : Inv s) (hfs : s.frames s.run = ⟨r, .code, opened, saved⟩ :: fs)
    (hlen : opened.length = r.base) (hs : s.leave ⟨r, .code, opened, saved⟩ fs = some s') :
    Inv s' := by
  have hrun := h.run hfs
  have htop := hrun.top _ _ rfl
  have hncli := hrun.ncli
  have hoff := hrun.stack.1.off
  cases r with
  | main =>
    cases hs
    have ht : s.run = none := hrun.stack.2.1
    refine h.put (hrun.replace ⟨⟨id, hlen⟩, hoff, by rintro ⟨⟩⟩ hncli (fun hne => absurd ht hne) ht
      rfl rfl (Top.waiting ht ?_ (by simp)))
    rintro i ⟨⟩
  | scheduler pc =>
    cases pc with
    | switchuvm k =>
      cases hs
      have ht : s.run = none := hrun.stack.2.1
      refine h.put (hrun.replace ⟨⟨rfl, hlen⟩, hoff, by rintro ⟨⟩⟩ hncli (fun _ => rfl) ht rfl rfl
        ⟨fun hne => absurd ht hne, ?_, ?_, by rintro j ⟨⟩, ?_⟩)
      · rintro i - ⟨⟩
      · intro _ i hi hps
        rcases htop.idle ht i hi hps with hr | hr <;> cases hr
        exact .inr rfl
      · rintro j (⟨⟨⟩⟩ | ⟨⟨⟩⟩)
        exact htop.picked k (.inl rfl)
    | sti => cases hs
    | push => cases hs
    | scan k => cases hs
    | chosen k => cases hs
    | swtch k => cases hs
  | syscall =>
    cases hs
    have ht : s.run ≠ none := hrun.stack.2.1
    exact h.iret hfs rfl (List.length_eq_zero_iff.mp hlen) fun hnone => absurd hnone ht
  | trap timer =>
    have hopen : opened = [] := List.length_eq_zero_iff.mp hlen
    have hidle := fun ht => htop.not_running ht (by simp)
    simp only [State.leave] at hs
    split_ifs at hs with hyield
    · cases hs
      obtain ⟨-, i, hi, hps⟩ := hyield
      -- in the scheduler's thread no process is RUNNING, so this is a process
      have ht : s.run ≠ none := fun hnone => hidle hnone i hi hps
      refine h.put (hrun.replace ⟨⟨rfl, hopen⟩, hoff, by rintro ⟨⟩⟩ hncli (fun _ => rfl) ht rfl rfl
        (Top.process ht ht ((htop.kept ht).same rfl rfl (by simp)) ?_))
      rintro j - ⟨⟩
    · cases hs
      exact h.iret hfs rfl hopen hidle
  | yield pc => cases hs
  | forkret => cases hs
  | trapret => cases hs

lemma main_states {opened : List Opened} {saved : Bool} {frames : Option (Fin n) → List (Frame n)}
    (h : Inv s) (hfs : s.frames s.run = ⟨.main, .code, opened, saved⟩ :: fs)
    (hframes : frames none = s.frames none) (hps : ∀ i, ps' i = s.procstate i ∨ ps' i ≠ .RUNNING)
    (hpark : ∀ i, ps' i = .RUNNABLE ∨ ps' i = .RUNNING → Parked (some i) (frames (some i))) :
    Inv { s with procstate := ps', frames := frames } := by
  have hrun := h.run hfs
  have ht : s.run = none := hrun.stack.2.1
  have htop := hrun.top _ _ rfl
  refine ⟨h.calm, ?_, fun hne => absurd ht hne, fun i _ hi => hpark i hi⟩
  show Running s.run s.cpu ps' (frames s.run)
  rw [ht, hframes, ← ht, hfs]
  refine ⟨hrun.depth, hrun.stack, hrun.proc, ?_⟩
  intro g rest hg
  cases hg
  refine Top.waiting ht ?_ (by simp)
  intro i hi
  rcases hps i with hsame | hne
  · rw [hsame]
    exact htop.not_running ht (by simp) i hi
  · exact hne

/-- **A step in which the kernel runs.** -/
lemma kernelStep {l : Label n} {s' : State n} (h : Inv s) (hfs : s.frames s.run = f :: fs)
    (hs : s.kernelStep f fs l = some s') : Inv s' := by
  by_cases hnext : l = .next
  · rw [hnext] at hs
    exact h.next hfs hs
  obtain ⟨r, p, opened, saved⟩ := f
  have hrun := h.run hfs
  have htop := hrun.top _ _ rfl
  have hok := hrun.stack.1
  have hof := hrun.stack.2.1
  -- the other labels are for code that may do anything, outside of `pushcli` and `popcli`
  have hfree : p = .code ∧ r.Free = true := by
    cases p <;> cases l <;> simp_all [State.kernelStep]
  obtain ⟨rfl, hfree⟩ := hfree
  have hkept : ∀ p', (∀ b, p' ≠ Point.push₃ b ∧ p' ≠ .pop₂ (.own b)) → s.run ≠ none →
      Frame.Kept s.cpu.intena ⟨r, p', opened, saved⟩ :=
    fun p' hp' ht => (htop.kept ht).same rfl rfl hp'
  cases l with
  | next => exact absurd rfl hnext
  | push =>
    simp only [State.kernelStep, hfree, if_true, Option.some.injEq] at hs
    subst hs
    refine h.pushcli hfs hof rfl ?_ (htop.same rfl rfl (hkept _ (by simp)))
    have hfits := hok.fits
    unfold Frame.Fits at hfits ⊢
    split <;> simp_all [Routine.Free]
  | pop =>
    simp only [State.kernelStep, hfree, if_true] at hs
    split_ifs at hs with hbase
    cases hs
    -- `base` keeps the section that belongs to the routine itself
    have hne : opened ≠ [] := List.length_pos_iff.mp (Nat.zero_lt_of_lt hbase)
    refine h.popcli hfs hne hof rfl ?_ (htop.same rfl rfl (hkept _ (by simp)))
    unfold Frame.Fits
    split <;> simp_all [Routine.Free, Routine.base]
    omega
  | cli =>
    simp only [State.kernelStep, hfree, if_true, Option.some.injEq] at hs
    subst hs
    exact h.micro hfs rfl rfl rfl ⟨hok.fits, by rintro ⟨⟩, by rintro ⟨⟩⟩ hrun.ncli htop.kept
  | leave =>
    simp only [State.kernelStep, hfree, if_true] at hs
    split_ifs at hs with hlen
    exact h.leave hfs hlen hs
  | sti =>
    cases r <;> cases opened <;> simp only [State.kernelStep, hfree, if_true, reduceCtorEq] at hs
    cases hs
    exact h.micro hfs rfl rfl rfl ⟨trivial, fun _ => ⟨rfl, .inl rfl⟩, by rintro ⟨⟩⟩ hrun.ncli
      htop.kept
  | embryo i =>
    cases r <;> simp only [State.kernelStep, hfree, if_true, reduceCtorEq] at hs
    split_ifs at hs with hps
    cases hs
    refine h.main_states hfs rfl ?_ ?_
    · intro j
      by_cases hj : j = i
      · rw [hj, Function.update_self]
        exact .inr ProcState.noConfusion
      · exact .inl (Function.update_of_ne hj _ _)
    · intro j hj
      have ht : s.run = none := hof
      by_cases hji : j = i
      · rw [hji, Function.update_self] at hj
        rcases hj with ⟨⟨⟩⟩ | ⟨⟨⟩⟩
      · rw [Function.update_of_ne hji] at hj
        exact h.parked j (by rw [ht]; exact (Option.some_ne_none j).symm) hj
  -- `main` makes a process runnable: its thread is parked in front of `forkret`, one section deep
  | runnable i =>
    cases r <;> simp only [State.kernelStep, hfree, if_true, reduceCtorEq] at hs
    split_ifs at hs with hps
    cases hs
    refine h.main_states hfs (Function.update_of_ne (Option.some_ne_none i).symm _ _) ?_ ?_
    · intro j
      by_cases hj : j = i
      · rw [hj, Function.update_self]
        exact .inr ProcState.noConfusion
      · exact .inl (Function.update_of_ne hj _ _)
    · intro j hj
      have ht : s.run = none := hof
      by_cases hji : j = i
      · rw [hji, Function.update_self]
        refine ⟨⟨⟨⟨rfl, rfl⟩, by rintro ⟨⟩, by rintro ⟨⟩⟩, Option.some_ne_none i, rfl,
          Option.some_ne_none i, rfl⟩, rfl, _, _, rfl, rfl, ?_, by rintro ⟨⟩, fun _ => .inl rfl⟩
        rintro x - b (hb | ⟨hb, -⟩)
        · cases hb
        · cases hb
      · rw [Function.update_of_ne hji] at hj
        rw [Function.update_of_ne (by simpa using hji)]
        exact h.parked j (by rw [ht]; exact (Option.some_ne_none j).symm) hj
  | irq timer => simp [State.kernelStep] at hs
  | syscall => simp [State.kernelStep] at hs
  | fault => simp [State.kernelStep] at hs

/-- **Every step keeps the invariant.** -/
lemma step {l : Label n} {s' : State n} (h : Inv s) (hs : s.step l = some s') : Inv s' := by
  unfold State.step at hs
  rw [h.calm] at hs
  by_cases hirq : ∃ timer, l = .irq timer
  · obtain ⟨timer, rfl⟩ := hirq
    simp only at hs
    split_ifs at hs with hon
    cases hs
    exact h.enter hon false (.inr ⟨timer, rfl⟩)
  · cases hfs : s.frames s.run with
    | nil =>
      have hstack := h.running.stack
      rw [hfs] at hstack
      obtain ⟨ht, hon⟩ := hstack
      cases l <;> simp only [hfs, reduceCtorEq, Option.some.injEq] at hs
      · exact absurd ⟨_, rfl⟩ hirq
      · subst hs
        exact h.enter hon true (.inl ⟨rfl, ht⟩)
      · subst hs
        exact h.enter hon false (.inr ⟨false, rfl⟩)
    | cons f fs =>
      refine h.kernelStep (l := l) hfs ?_
      cases l <;> simp only [hfs] at hs <;> first | exact hs | exact absurd ⟨_, rfl⟩ hirq

lemma boot (n : ℕ) : Inv (State.boot n) where
  calm := rfl
  running := by
    refine ⟨rfl, ⟨⟨trivial, by rintro ⟨⟩, by rintro ⟨⟩⟩, rfl, rfl⟩, by rintro i ⟨⟩, ?_⟩
    rintro f rest ⟨⟩
    exact Top.waiting rfl (by rintro i ⟨⟩) (by simp)
  sleeper h := absurd rfl h
  parked i _ h := by rcases h with ⟨⟨⟩⟩ | ⟨⟨⟩⟩

lemma runs {s' : State n} {ls : List (Label n)} (h : Inv s) (hs : s.runs ls = some s') :
    Inv s' := by
  induction ls generalizing s with
  | nil =>
    cases hs
    exact h
  | cons l ls ih =>
    simp only [State.runs, List.foldlM_cons] at hs
    obtain ⟨s₁, hstep, hrest⟩ := Option.bind_eq_some_iff.mp hs
    exact ih (h.step hstep) hrest

end Inv

/-! ## Where threads are switched -/

/-- The running thread is about to switch. -/
def Routine.Switches : Routine n → Prop
  | scheduler (.swtch _) | yield (.swtch _) => True
  | _ => False

namespace State

@[simp] lemma put_run (s : State n) : (s.put cpu fs).run = s.run := rfl

@[simp] lemma panic_run (s : State n) (p : Panic) : (s.panic p).run = s.run := rfl

@[simp] lemma pushcli_run (s : State n) : (s.pushcli f fs).run = s.run := rfl

@[simp] lemma popcli_run (s : State n) : (s.popcli f fs).run = s.run := by
  unfold popcli
  split <;> rfl

@[simp] lemma iret_run (s : State n) : (s.iret f fs).run = s.run := rfl

lemma scheduler_run {pc : SchedulerPc n} {s' : State n} (hs : s.scheduler f fs pc = some s')
    (hne : s'.run ≠ s.run) : (Routine.scheduler pc).Switches := by
  cases pc with
  | swtch k => trivial
  | scan k =>
    simp only [scheduler] at hs
    split_ifs at hs <;> cases hs <;> simp at hne
  | switchuvm k => cases hs
  | _ =>
    cases hs
    simp at hne

lemma yield_run {pc : YieldPc} {s' : State n} (hs : s.yield f fs pc = some s')
    (hne : s'.run ≠ s.run) : (Routine.yield pc : Routine n).Switches := by
  cases pc with
  | swtch b => trivial
  | setState =>
    obtain ⟨p, -, rfl⟩ := Option.map_eq_some_iff.mp hs
    exact absurd rfl hne
  | testState =>
    obtain ⟨p, -, rfl⟩ := Option.map_eq_some_iff.mp hs
    split_ifs at hne <;> exact absurd rfl hne
  | testFlag =>
    cases hs
    split_ifs at hne <;> exact absurd rfl hne
  | _ =>
    cases hs
    simp at hne

lemma next_run {s' : State n} (hs : s.next f fs = some s') (hne : s'.run ≠ s.run) :
    f.point = .code ∧ f.routine.Switches := by
  unfold next at hs
  cases hp : f.point with
  | code =>
    refine ⟨rfl, ?_⟩
    simp only [hp] at hs
    cases hr : f.routine with
    | scheduler pc =>
      rw [hr] at hs
      exact scheduler_run hs hne
    | yield pc =>
      rw [hr] at hs
      exact yield_run hs hne
    | _ =>
      rw [hr] at hs
      cases hs <;> simp at hne
  | pop₁ =>
    simp only [hp] at hs
    split_ifs at hs
    · cases hs
      simp at hne
    · split at hs <;> cases hs
      simp at hne
  | _ =>
    rw [hp] at hs
    cases hs
    simp at hne

lemma leave_run {s' : State n} (hs : s.leave f fs = some s') : s'.run = s.run := by
  unfold leave at hs
  split at hs
  all_goals try (split_ifs at hs)
  all_goals cases hs <;> rfl

lemma kernelStep_run {l : Label n} {s' : State n} (hs : s.kernelStep f fs l = some s')
    (hne : s'.run ≠ s.run) : f.point = .code ∧ f.routine.Switches := by
  cases l with
  | next => exact next_run hs hne
  | _ =>
    exfalso
    simp only [kernelStep] at hs
    repeat' split at hs
    all_goals first
      | exact hne (leave_run hs)
      | cases hs <;> simp at hne

lemma step_run {l : Label n} {s' : State n} (hs : s.step l = some s') (hne : s'.run ≠ s.run) :
    ∃ f fs, s.frames s.run = f :: fs ∧ f.point = .code ∧ f.routine.Switches := by
  unfold step at hs
  split at hs
  · cases hs
  split at hs
  · split_ifs at hs
    cases hs
    exact absurd rfl hne
  · split at hs
    · split at hs <;> cases hs <;> exact absurd rfl hne
    · rename_i f fs hfs
      exact ⟨f, fs, hfs, kernelStep_run hs hne⟩

end State

/-! ## The results -/

namespace Inv

lemma switch {l : Label n} {s' : State n} (h : Inv s) (hs : s.step l = some s')
    (hne : s'.run ≠ s.run) : s.cpu.ncli = 1 ∧ s.cpu.intr = false := by
  obtain ⟨f, fs, hfs, -, hswitch⟩ := State.step_run hs hne
  have hrun := h.run hfs
  have hlen : f.opened.length = 1 := by
    have hfits := hrun.stack.1.fits
    unfold Frame.Fits at hfits
    unfold Routine.Switches at hswitch
    split at hswitch <;> simp_all
  constructor
  · rw [hrun.ncli, hlen]
    rfl
  · by_contra hon
    rw [(hrun.stack.1.off (eq_true_of_ne_false hon)).1] at hlen
    cases hlen

lemma closes {l : Label n} {s' : State n} {b : Bool} (h : Inv s) (hb : s.Closes b)
    (hs : s.step l = some s') : s'.cpu.intr = b := by
  obtain ⟨ht, hdepth, f, fs, hfs, hp⟩ := hb
  have hrun := h.run hfs
  have hopen : f.opened = [] := by
    rw [hfs, hrun.stack.depth_cons] at hdepth
    exact List.length_eq_zero_iff.mp hdepth
  have hintena : s.cpu.intena = b := by
    have hkept := (hrun.top f fs rfl).kept ht b (.inr ⟨hopen, .inr hp⟩)
    rwa [hrun.stack.1.intena_eq (by rw [hp]; exact Point.noConfusion)] at hkept
  have hoff : s.cpu.intr = false := by
    by_contra hon
    rcases (hrun.stack.1.off (eq_true_of_ne_false hon)).2 with hq | ⟨e, hq⟩ <;> rw [hp] at hq <;>
      cases hq
  have hzero : s.cpu.ncli = 0 := by
    rw [hrun.ncli, hopen]
    rfl
  unfold State.step at hs
  rw [h.calm] at hs
  cases l with
  | next =>
    simp only [hfs, State.kernelStep, State.next, hp, Option.some.injEq] at hs
    subst hs
    show (if s.cpu.ncli = 0 ∧ s.cpu.intena then true else s.cpu.intr) = b
    rw [hintena, hoff]
    cases b <;> simp [hzero]
  | irq timer => simp [hoff] at hs
  | _ => simp [hfs, State.kernelStep, hp] at hs

end Inv

/-- **Interrupt-disable nesting is kept across context switches**, for any number of processes, any
properly nested kernel code and any interrupts. -/
theorem nesting {ls : List (Label n)} (hs : (State.boot n).runs ls = some s) :
    s.panicked = none ∧ s.cpu.ncli = depth (s.frames s.run) ∧
      (s.cpu.intr = true → s.cpu.ncli = 0) ∧
      ∀ l s', s.step l = some s' →
        (s'.run ≠ s.run → s.cpu.ncli = 1 ∧ s.cpu.intr = false) ∧
          ∀ b, s.Closes b → s'.cpu.intr = b := by
  have h : Inv s := (Inv.boot n).runs hs
  refine ⟨h.calm, h.running.depth, ?_, ?_⟩
  · intro hon
    rw [h.running.depth]
    have hstack := h.running.stack
    rw [hon] at hstack
    rw [hstack.depth_eq_zero]
    rfl
  · intro l s' hstep
    exact ⟨h.switch hstep, fun b hb => h.closes hb hstep⟩

/-- Boot with one process, which runs until a timer interrupt makes it yield; the last label is the
switch to the scheduler. -/
def oneSlice : List (Label 2) :=
  [.sti, .embryo ⟨0, Nat.two_pos⟩, .runnable ⟨0, Nat.two_pos⟩, .leave] ++ .replicate 7 .next ++
  [.push, .next, .next, .next, .pop, .next, .next, .leave, .next] ++ .replicate 4 .next ++
  [.syscall, .push, .next, .next, .next, .pop, .next, .next, .irq true, .leave] ++
  .replicate 9 .next

theorem nesting_oneSlice : ∃ s : State 2, (State.boot 2).runs oneSlice = some s ∧
    s.run = none ∧ s.panicked = none ∧ s.cpu.ncli = 1 := by
  have hsome : ((State.boot 2).runs oneSlice).isSome = true := by decide +kernel
  obtain ⟨s, hs⟩ := Option.isSome_iff_exists.mp hsome
  have hrun : ((State.boot 2).runs oneSlice).map State.run = some none := by decide +kernel
  have hdepth : ((State.boot 2).runs oneSlice).map (fun s => depth (s.frames s.run)) = some 1 := by
    decide +kernel
  rw [hs] at hrun hdepth
  obtain ⟨hcalm, hncli, -⟩ := nesting hs
  refine ⟨s, hs, Option.some.inj hrun, hcalm, ?_⟩
  rw [hncli]
  exact congrArg _ (Option.some.inj hdepth)

end Xv6.Irq
