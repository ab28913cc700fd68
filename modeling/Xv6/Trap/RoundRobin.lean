import Xv6.Lib.Rounds
import Xv6.Trap.Nesting
import Mathlib.Data.List.FinRange

/-!
# The scheduler goes round the table

What matters for the order in which processes run is little: `c->proc`, which thread runs, the
states of the processes, and where the scheduler is in its loop over the table, whether it runs or
waits to be switched back to.  `View` keeps this, and `View.Step` says how a step of the kernel can
change it, with a dispatch where the scheduler switches to a process.  `view_step` connects the two:
whatever happens in the model of the whole kernel, interrupts at any time included, the view makes
one of these steps.

The rest is about views.  A `RUNNING` process is `c->proc`, and it runs or the scheduler is about
to switch to it; so the scheduler finds no process `RUNNING` when it looks at the table, and the
dispatches go round the table.

`Turn` is the invariant that says so: the dispatches so far are whole rounds of the table, in the
sense of `Xv6.Lib.Rounds`, and the part of the next one up to where the scheduler stands.
-/

namespace Xv6.Irq

open Lib

variable {n : ℕ}

/-! ## The view of the scheduler -/

/-- What matters for the order in which processes run.  The scheduler has no place before `main`
calls it. -/
structure View (n : ℕ) where
  proc : Option (Fin n)
  run : Option (Fin n)
  procstate : Fin n → ProcState
  pc : Option (SchedulerPc n)

/-- Where the scheduler is, by the code at the bottom of its thread. -/
def Routine.schedulerPc : Routine n → Option (SchedulerPc n)
  | scheduler pc => some pc
  | _ => none

def schedulerPc (fs : List (Frame n)) : Option (SchedulerPc n) :=
  fs.getLast?.bind fun f => f.routine.schedulerPc

def State.view (s : State n) : View n :=
  ⟨s.cpu.proc, s.run, s.procstate, schedulerPc (s.frames none)⟩

/-- How a step can change the view, and the process that it dispatches. -/
inductive View.Step : View n → Option (Fin n) → View n → Prop
  | same (v : View n) : Step v none v
  | embryo {v : View n} (i : Fin n) : v.pc = none → v.run = none → v.procstate i = .UNUSED →
    Step v none { v with procstate := Function.update v.procstate i .EMBRYO }
  | runnable {v : View n} (i : Fin n) : v.pc = none → v.run = none → v.procstate i = .EMBRYO →
    Step v none { v with procstate := Function.update v.procstate i .RUNNABLE }
  | start {v : View n} : v.pc = none → v.run = none →
    Step v none { v with proc := none, pc := some .sti }
  | sti {v : View n} : v.pc = some .sti → Step v none { v with pc := some .push }
  | push {v : View n} : v.pc = some .push → Step v none { v with pc := some (.scan 0) }
  | skip {v : View n} (k : Fin n) : v.pc = some (.scan k) → v.run = none →
    v.procstate k ≠ .RUNNABLE → Step v none { v with pc := some (.scan (k + 1)) }
  | again {v : View n} (k : ℕ) : v.pc = some (.scan k) → n ≤ k →
    Step v none { v with pc := some .sti }
  | choose {v : View n} (k : Fin n) : v.pc = some (.scan k) → v.run = none →
    v.procstate k = .RUNNABLE → Step v none { v with proc := some k, pc := some (.chosen k) }
  | set {v : View n} (k : Fin n) : v.pc = some (.chosen k) → v.run = none → v.proc = some k →
    v.procstate k = .RUNNABLE →
    Step v none { v with
      procstate := Function.update v.procstate k .RUNNING, pc := some (.switchuvm k) }
  | switchuvm {v : View n} (k : Fin n) : v.pc = some (.switchuvm k) → v.run = none →
    Step v none { v with pc := some (.swtch k) }
  | swtch {v : View n} (k : Fin n) : v.pc = some (.swtch k) → v.run = none → v.proc = some k →
    v.procstate k = .RUNNING →
    Step v (some k) { v with run := some k, pc := some (.scan (k + 1)) }
  | giveUp {v : View n} (p : Fin n) : v.run = some p →
    Step v none { v with procstate := Function.update v.procstate p .RUNNABLE }
  | back {v : View n} (p : Fin n) : v.run = some p → v.procstate p = .RUNNABLE →
    Step v none { v with run := none }

lemma View.Step.of_eq {v v' : View n} (h : v' = v) : ∃ d, v.Step d v' := ⟨none, h ▸ .same v⟩

/-- A process is dispatched when the thread that runs is no longer the scheduler's. -/
lemma View.Step.dispatch {v v' : View n} {d : Option (Fin n)} (h : v.Step d v') :
    d = if v.run = none then v'.run else none := by
  cases h <;> simp_all

/-! ## One process is `RUNNING` -/

/-- A `RUNNING` process is `c->proc`, and it runs or the scheduler is about to switch to it. -/
structure View.Sole (v : View n) : Prop where
  running : ∀ i, v.procstate i = .RUNNING → v.proc = some i ∧
    (v.run = some i ∨ v.run = none ∧ (v.pc = some (.switchuvm i) ∨ v.pc = some (.swtch i)))
  live : ∀ i, v.run = some i → v.procstate i = .RUNNABLE ∨ v.procstate i = .RUNNING

namespace View

variable {v v' : View n} {d : Option (Fin n)}

lemma Sole.none_running (h : v.Sole) (hrun : v.run = none)
    (hpc : ∀ i, v.pc ≠ some (.switchuvm i) ∧ v.pc ≠ some (.swtch i)) (i : Fin n) :
    v.procstate i ≠ .RUNNING := by
  intro hi
  rcases (h.running i hi).2 with hr | ⟨-, hp | hp⟩
  · rw [hrun] at hr
    cases hr
  · exact (hpc i).1 hp
  · exact (hpc i).2 hp

lemma Sole.move (h : v.Sole) (hpc : ∀ i, v.pc ≠ some (.switchuvm i) ∧ v.pc ≠ some (.swtch i))
    (pc : Option (SchedulerPc n)) : Sole { v with pc := pc } := by
  refine ⟨fun i hi => ?_, h.live⟩
  obtain ⟨hproc, hr | ⟨hnone, -⟩⟩ := h.running i hi
  · exact ⟨hproc, .inl hr⟩
  · exact absurd hi (h.none_running hnone hpc i)

lemma Sole.setState (h : v.Sole) {i : Fin n} {st : ProcState} (hst : st ≠ .RUNNING)
    (hlive : v.run = some i → st = .RUNNABLE) :
    Sole { v with procstate := Function.update v.procstate i st } := by
  refine ⟨fun j (hj : Function.update v.procstate i st j = .RUNNING) => ?_, fun j hj => ?_⟩
  · by_cases hji : j = i
    · rw [hji, Function.update_self] at hj
      exact absurd hj hst
    · rw [Function.update_of_ne hji] at hj
      exact h.running j hj
  · show Function.update v.procstate i st j = _ ∨ Function.update v.procstate i st j = _
    by_cases hji : j = i
    · subst hji
      rw [Function.update_self]
      exact .inl (hlive hj)
    · rw [Function.update_of_ne hji]
      exact h.live j hj

lemma Sole.step (h : v.Sole) (hs : v.Step d v') : v'.Sole := by
  cases hs with
  | same => exact h
  | embryo i hpc hrun hi =>
    exact h.setState ProcState.noConfusion fun hr => by rw [hrun] at hr; cases hr
  | runnable i hpc hrun hi => exact h.setState ProcState.noConfusion fun _ => rfl
  | start hpc hrun =>
    exact ⟨fun j hj => absurd hj (h.none_running hrun (by simp [hpc]) j), h.live⟩
  | sti hpc => exact h.move (by simp [hpc]) _
  | push hpc => exact h.move (by simp [hpc]) _
  | skip k hpc hrun hk => exact h.move (by simp [hpc]) _
  | again k hpc hk => exact h.move (by simp [hpc]) _
  | choose k hpc hrun hk =>
    exact ⟨fun j hj => absurd hj (h.none_running hrun (by simp [hpc]) j), h.live⟩
  -- nobody was `RUNNING`, and now the process that `c->proc` names is
  | set k hpc hrun hproc hk =>
    have hno := h.none_running hrun (by simp [hpc])
    refine ⟨fun j (hj : Function.update v.procstate k .RUNNING j = .RUNNING) => ?_, fun j hj => ?_⟩
    · have hjk : j = k := by
        by_contra hjk
        rw [Function.update_of_ne hjk] at hj
        exact hno j hj
      subst hjk
      exact ⟨hproc, .inr ⟨hrun, .inl rfl⟩⟩
    · rw [show v.run = some j from hj] at hrun
      cases hrun
  | switchuvm k hpc hrun =>
    refine ⟨fun j hj => ?_, h.live⟩
    obtain ⟨hproc, hr | ⟨hnone, hp | hp⟩⟩ := h.running j hj
    · rw [hrun] at hr
      cases hr
    · rw [hpc] at hp
      cases hp
      exact ⟨hproc, .inr ⟨hnone, .inr rfl⟩⟩
    · rw [hpc] at hp
      cases hp
  | swtch k hpc hrun hproc hk =>
    refine ⟨fun j hj => ?_, fun j hj => ?_⟩
    · obtain ⟨hproc', -⟩ := h.running j hj
      exact ⟨hproc', .inl (hproc.symm.trans hproc')⟩
    · cases hj
      exact .inr hk
  | giveUp p hrun => exact h.setState ProcState.noConfusion fun _ => rfl
  -- a process switches back only after it has become `RUNNABLE`
  | back p hrun hp =>
    refine ⟨fun j hj => ?_, fun j hj => by cases hj⟩
    obtain ⟨-, hr | ⟨hnone, -⟩⟩ := h.running j hj
    · rw [hrun, Option.some.injEq] at hr
      subst hr
      exact absurd (hp.symm.trans hj) ProcState.noConfusion
    · rw [hrun] at hnone
      cases hnone

end View

/-! ## The dispatches go round the table -/

/-- How far the scheduler has come in the table. -/
def SchedulerPc.position : SchedulerPc n → ℕ
  | sti | push => 0
  | scan k => k
  | chosen k | switchuvm k | swtch k => k

variable {ready : Fin n → Bool} {ds : List (Fin n)} {v v' : View n} {d : Option (Fin n)}

/-- The first `k` entries of the table, without those that are not ready. -/
def upTo (ready : Fin n → Bool) (k : ℕ) : List (Fin n) := ((List.finRange n).take k).filter ready

lemma upTo_of_le {k : ℕ} (h : n ≤ k) : upTo ready k = (List.finRange n).filter ready := by
  rw [upTo, List.take_of_length_le (by rwa [List.length_finRange])]

lemma upTo_succ (k : Fin n) :
    upTo ready (k + 1) = upTo ready k ++ if ready k then [k] else [] := by
  have hk : (k : ℕ) < (List.finRange n).length := by
    rw [List.length_finRange]
    exact k.isLt
  rw [upTo, ← List.take_append_getElem hk, List.filter_append, upTo]
  simp [List.filter_singleton]

/-- The dispatches are a number of rounds, and one as far as the scheduler has come. -/
structure Turn (ready : Fin n → Bool) (ds : List (Fin n)) (v : View n) : Prop where
  states : ∀ i, ready i = true ↔ v.procstate i = .RUNNABLE ∨ v.procstate i = .RUNNING
  turn : ∃ pc m, v.pc = some pc ∧
    ds = (List.replicate m ((List.finRange n).filter ready)).flatten ++ upTo ready pc.position

namespace Turn

lemma move (h : Turn ready ds v) {pc pc' : SchedulerPc n} (hpc : v.pc = some pc)
    (hpc' : v'.pc = some pc') (hpos : pc'.position = pc.position)
    (hstate : v'.procstate = v.procstate) : Turn ready ds v' := by
  obtain ⟨hready, pc₀, m, hpc₀, hds⟩ := h
  rw [hpc, Option.some.injEq] at hpc₀
  subst hpc₀
  exact ⟨hstate ▸ hready, pc', m, hpc', by rw [hpos, hds]⟩

lemma setState (h : Turn ready ds v) {i : Fin n} {st : ProcState}
    (hst : st = .RUNNABLE ∨ st = .RUNNING)
    (hi : v.procstate i = .RUNNABLE ∨ v.procstate i = .RUNNING) (hpc : v'.pc = v.pc)
    (hstate : v'.procstate = Function.update v.procstate i st) : Turn ready ds v' := by
  refine ⟨fun j => ?_, ?_⟩
  · rw [hstate]
    by_cases hj : j = i
    · subst hj
      rw [Function.update_self, h.states]
      exact iff_of_true hi hst
    · rw [Function.update_of_ne hj, h.states]
  · rw [hpc]
    exact h.turn

lemma step (h : Turn ready ds v) (hsole : v.Sole) (hs : v.Step d v') :
    Turn ready (ds ++ d.toList) v' := by
  have hstart : v.pc ≠ none := by
    obtain ⟨pc, m, hpc, -⟩ := h.turn
    rw [hpc]
    exact Option.some_ne_none pc
  cases d with
  | some k =>
    cases hs with
    | swtch _ hpc hrun hproc hk =>
      obtain ⟨hready, pc, m, hpc', hds⟩ := h
      rw [hpc, Option.some.injEq] at hpc'
      subst hpc'
      refine ⟨hready, _, m, rfl, ?_⟩
      show ds ++ [k] = _ ++ upTo ready (k + 1)
      rw [upTo_succ, if_pos ((hready k).mpr (.inr hk)), ← List.append_assoc, hds]
      rfl
  | none =>
    rw [Option.toList_none, List.append_nil]
    cases hs with
    | same => exact h
    | embryo i hpc hrun hi => exact absurd hpc hstart
    | runnable i hpc hrun hi => exact absurd hpc hstart
    | start hpc hrun => exact absurd hpc hstart
    | sti hpc => exact h.move hpc rfl rfl rfl
    | push hpc => exact h.move hpc rfl rfl rfl
    | skip k hpc hrun hk =>
      have hno := hsole.none_running hrun (by simp [hpc]) k
      have hnot : ready k = false :=
        Bool.eq_false_iff.mpr fun hready => ((h.states k).mp hready).elim hk hno
      obtain ⟨hready, pc, m, hpc', hds⟩ := h
      rw [hpc, Option.some.injEq] at hpc'
      subst hpc'
      refine ⟨hready, _, m, rfl, ?_⟩
      show ds = _ ++ upTo ready (k + 1)
      rw [upTo_succ, hnot, if_neg Bool.false_ne_true, List.append_nil, hds]
      rfl
    | again k hpc hk =>
      -- a round is complete
      obtain ⟨hready, pc, m, hpc', hds⟩ := h
      rw [hpc, Option.some.injEq] at hpc'
      subst hpc'
      refine ⟨hready, _, m + 1, rfl, ?_⟩
      have hround : upTo ready (SchedulerPc.scan k : SchedulerPc n).position =
          (List.finRange n).filter ready := upTo_of_le hk
      rw [hds, hround, List.replicate_succ', List.flatten_append, List.flatten_singleton]
      exact (List.append_nil _).symm
    | choose k hpc hrun hk => exact h.move hpc rfl rfl rfl
    | set k hpc hrun hproc hk =>
      have hset : Turn ready ds
          { v with procstate := Function.update v.procstate k .RUNNING } :=
        h.setState (.inr rfl) (.inl hk) rfl rfl
      exact hset.move hpc rfl rfl rfl
    | switchuvm k hpc hrun => exact h.move hpc rfl rfl rfl
    | giveUp p hrun => exact h.setState (.inl rfl) (hsole.live p hrun) rfl rfl
    | back p hrun hp => exact ⟨h.states, h.turn⟩

/-- Between two consecutive dispatches of a process every other that is ready is dispatched once,
and nothing else. -/
lemma between (h : Turn ready ds v) {as bs cs : List (Fin n)} {p q : Fin n}
    (hds : ds = as ++ p :: bs ++ p :: cs) (hp : p ∉ bs) (hq : q ≠ p) :
    bs.count q = if ready q then 1 else 0 := by
  have hnodup : ((List.finRange n).filter ready).Nodup := (List.nodup_finRange n).filter _
  obtain ⟨-, pc, m, -, hturn⟩ := h
  have hrounds : Rounds ((List.finRange n).filter ready) ds := by
    refine ⟨m + 1, ?_⟩
    rw [hturn, List.replicate_succ', List.flatten_append, List.flatten_singleton]
    exact (List.prefix_append_right_inj _).mpr ((List.take_prefix _ _).filter _)
  rw [hds] at hrounds
  rw [hrounds.between hnodup hp hq]
  simp [List.mem_filter, List.mem_finRange]

end Turn

/-! ## The kernel makes these steps -/

section

variable {s s' : State n} {f f' : Frame n} {fs : List (Frame n)} {cpu' : Cpu n}

lemma schedulerPc_cons (h : fs ≠ []) : schedulerPc (f :: fs) = schedulerPc fs := by
  rw [schedulerPc, List.getLast?_cons_of_ne_nil h, schedulerPc]

/-- The code on top of a stack does not matter for the place of the scheduler, unless it is the
scheduler's. -/
lemma schedulerPc_congr (h : f'.routine.schedulerPc = f.routine.schedulerPc) :
    schedulerPc (f' :: fs) = schedulerPc (f :: fs) := by
  by_cases hfs : fs = []
  · rw [hfs]
    exact h
  · rw [schedulerPc_cons hfs, schedulerPc_cons hfs]

namespace State

lemma view_put (hproc : cpu'.proc = s.cpu.proc)
    (hpc : s.run = none → schedulerPc fs = schedulerPc (s.frames s.run)) :
    (s.put cpu' fs).view = s.view := by
  have hplace : schedulerPc (Function.update s.frames s.run fs none) =
      schedulerPc (s.frames none) := by
    by_cases hrun : s.run = none
    · rw [hrun, Function.update_self, hpc hrun, hrun]
    · rw [Function.update_of_ne (Ne.symm hrun)]
  show View.mk cpu'.proc s.run s.procstate _ = _
  rw [hproc]
  exact congrArg _ hplace

lemma view_top (hfs : s.frames s.run = f :: fs) (hproc : cpu'.proc = s.cpu.proc)
    (hpc : f'.routine.schedulerPc = f.routine.schedulerPc) :
    (s.put cpu' (f' :: fs)).view = s.view :=
  view_put hproc fun _ => by rw [hfs, schedulerPc_congr hpc]

lemma view_popcli (hfs : s.frames s.run = f :: fs)
    (hpc : f'.routine.schedulerPc = f.routine.schedulerPc) :
    (s.popcli f' fs).view = s.view := by
  unfold popcli
  split_ifs
  · rfl
  · exact view_top hfs rfl hpc

lemma view_scheduler (hrun : s.run = none) : (s.put cpu' [f']).view =
    { s.view with proc := cpu'.proc, pc := f'.routine.schedulerPc } := by
  show View.mk cpu'.proc s.run s.procstate (schedulerPc (Function.update s.frames s.run _ none)) = _
  rw [hrun, Function.update_self, view, hrun]
  rfl

end State

lemma Stack.of {t : Option (Fin n)} {flag : Bool} (h : Stack t flag fs) :
    ∀ f ∈ fs, f.routine.Of t := by
  induction fs generalizing flag with
  | nil => exact fun f hf => absurd hf List.not_mem_nil
  | cons g fs ih =>
    obtain ⟨-, hof, hrest⟩ := h
    refine List.forall_mem_cons.mpr ⟨hof, ?_⟩
    split_ifs at hrest
    · rw [hrest]
      exact fun f hf => absurd hf List.not_mem_nil
    · exact ih hrest.2

namespace Inv

lemma frames_ne_nil (h : Inv s) (hrun : s.run = none) : s.frames s.run ≠ [] := by
  intro hnil
  have hstack := h.running.stack
  rw [hnil] at hstack
  exact hstack.1 hrun

lemma below_ne_nil (h : Inv s) (hfs : s.frames s.run = f :: fs) (hb : f.routine.Bottom = false)
    (hrun : s.run = none) : fs ≠ [] := by
  rintro rfl
  have hstack := (h.run hfs).stack.2.2
  rw [if_neg (by rw [hb]; exact Bool.false_ne_true)] at hstack
  exact hstack.2.1 hrun

lemma alone_of_bottom (h : Inv s) (hfs : s.frames s.run = f :: fs)
    (hof : f.routine.Of s.run → s.run = none) (hb : f.routine.Bottom = true) :
    s.run = none ∧ fs = [] ∧ s.view.pc = f.routine.schedulerPc := by
  obtain ⟨-, hrun, hrest⟩ := (h.run hfs).stack
  rw [if_pos hb] at hrest
  refine ⟨hof hrun, hrest, ?_⟩
  show schedulerPc (s.frames none) = _
  rw [← hof hrun, hfs, hrest]
  rfl

lemma alone (h : Inv s) {pc : SchedulerPc n} (hfs : s.frames s.run = f :: fs)
    (hr : f.routine = .scheduler pc) :
    s.run = none ∧ fs = [] ∧ s.view.pc = some pc := by
  have halone := h.alone_of_bottom hfs (by rw [hr]; exact id) (by rw [hr]; rfl)
  rwa [hr] at halone

lemma alone_main (h : Inv s) (hfs : s.frames s.run = f :: fs) (hr : f.routine = .main) :
    s.run = none ∧ fs = [] ∧ s.view.pc = none := by
  have halone := h.alone_of_bottom hfs (by rw [hr]; exact id) (by rw [hr]; rfl)
  rwa [hr] at halone

lemma view_iret (h : Inv s) (hfs : s.frames s.run = f :: fs) (hb : f.routine.Bottom = false) :
    (s.iret f fs).view = s.view := by
  refine State.view_put rfl fun hrun => ?_
  rw [hfs, schedulerPc_cons (h.below_ne_nil hfs hb hrun)]

lemma view_enter (h : Inv s) (r : Routine n) (gate : Bool) : (s.enter r gate).view = s.view :=
  State.view_put rfl fun hrun => schedulerPc_cons (h.frames_ne_nil hrun)

lemma view_scheduler {pc : SchedulerPc n} (h : Inv s) (hfs : s.frames s.run = f :: fs)
    (hr : f.routine = .scheduler pc) (hp : f.point = .code) (hs : s.scheduler f fs pc = some s') :
    ∃ d, s.view.Step d s'.view := by
  obtain ⟨hrun, rfl, hpc⟩ := h.alone hfs hr
  have hfr := h.run hfs
  have htop := hfr.top _ _ rfl
  cases pc with
  | sti =>
    cases hs
    rw [State.view_scheduler hrun]
    exact ⟨none, .sti hpc⟩
  | push =>
    cases hs
    rw [State.pushcli, State.view_scheduler hrun]
    exact ⟨none, .push hpc⟩
  | scan k =>
    simp only [State.scheduler] at hs
    split_ifs at hs with hk hps
    · cases hs
      rw [State.view_scheduler hrun]
      exact ⟨none, .choose ⟨k, hk⟩ hpc hrun hps⟩
    · cases hs
      rw [State.view_scheduler hrun]
      exact ⟨none, .skip ⟨k, hk⟩ hpc hrun hps⟩
    · cases hs
      have hlen : f.opened.length = 1 := by
        have hfits := hfr.stack.1.fits
        simp only [Frame.Fits, hr, Frame.level, hp] at hfits
        exact hfits.2
      have hoff : ¬ s.cpu.intr = true := by
        intro hon
        rw [(hfr.stack.1.off hon).1] at hlen
        cases hlen
      rw [State.popcli, if_neg hoff, State.view_scheduler hrun]
      exact ⟨none, .again k hpc (Nat.le_of_not_lt hk)⟩
  | chosen k =>
    cases hs
    obtain ⟨hproc, hps⟩ := htop.chosen k hr
    refine ⟨none, ?_⟩
    show s.view.Step none { (s.put s.cpu _).view with procstate := _ }
    rw [State.view_scheduler hrun]
    exact .set k hpc hrun hproc hps
  | switchuvm k => cases hs
  | swtch k =>
    cases hs
    obtain ⟨hproc, hps⟩ := htop.picked k (.inr hr)
    refine ⟨some k, ?_⟩
    show s.view.Step (some k) { (s.put s.cpu _).view with run := some k }
    rw [State.view_scheduler hrun]
    exact .swtch k hpc hrun hproc hps

lemma view_yield {pc : YieldPc} (h : Inv s) (hfs : s.frames s.run = f :: fs)
    (hr : f.routine = .yield pc) (hs : s.yield f fs pc = some s') : ∃ d, s.view.Step d s'.view := by
  have hfr := h.run hfs
  have htop := hfr.top _ _ rfl
  have hpc : f.routine.schedulerPc = none := by rw [hr]; rfl
  have ht : s.run ≠ none := by
    have hof := hfr.stack.2.1
    rwa [hr] at hof
  obtain ⟨i, hi⟩ := Option.ne_none_iff_exists'.mp ht
  have hproc := hfr.proc i hi
  -- only two statements show: the process becomes `RUNNABLE`, and the thread is switched
  cases pc with
  | push =>
    cases hs
    exact View.Step.of_eq (State.view_top hfs rfl hpc.symm)
  | setState =>
    simp only [State.yield, hproc, Option.map_some, Option.some.injEq] at hs
    subst hs
    have hview : (s.put s.cpu ({ f with routine := .yield .testState } :: fs)).view = s.view :=
      State.view_top hfs rfl hpc.symm
    refine ⟨none, ?_⟩
    show s.view.Step none { (s.put s.cpu _).view with procstate := _ }
    rw [hview]
    exact .giveUp i hi
  | testState =>
    simp only [State.yield, hproc, Option.map_some, Option.some.injEq] at hs
    subst hs
    split_ifs
    · exact View.Step.of_eq rfl
    · exact View.Step.of_eq (State.view_top hfs rfl hpc.symm)
  | testFlag =>
    cases hs
    split_ifs
    · exact View.Step.of_eq rfl
    · exact View.Step.of_eq (State.view_top hfs rfl hpc.symm)
  | saveIntena =>
    cases hs
    exact View.Step.of_eq (State.view_top hfs rfl hpc.symm)
  | swtch b =>
    cases hs
    have hview : (s.put s.cpu ({ f with routine := .yield (.restoreIntena b) } :: fs)).view =
        s.view := State.view_top hfs rfl hpc.symm
    refine ⟨none, ?_⟩
    show s.view.Step none { (s.put s.cpu _).view with run := none }
    rw [hview]
    exact .back i hi (htop.asleep i hi (by rw [hr]; trivial))
  | restoreIntena b =>
    cases hs
    exact View.Step.of_eq (State.view_top hfs rfl hpc.symm)
  | pop =>
    cases hs
    exact View.Step.of_eq (State.view_popcli hfs hpc.symm)
  | done =>
    cases hs
    exact View.Step.of_eq (h.view_iret hfs (by rw [hr]; rfl))

lemma view_next (h : Inv s) (hfs : s.frames s.run = f :: fs) (hs : s.next f fs = some s') :
    ∃ d, s.view.Step d s'.view := by
  unfold State.next at hs
  cases hp : f.point with
  | code =>
    simp only [hp] at hs
    cases hr : f.routine with
    | scheduler pc =>
      rw [hr] at hs
      exact h.view_scheduler hfs hr hp hs
    | yield pc =>
      rw [hr] at hs
      exact h.view_yield hfs hr hs
    | forkret =>
      rw [hr] at hs
      cases hs
      exact View.Step.of_eq (State.view_popcli hfs (by rw [hr]; rfl))
    | trapret =>
      rw [hr] at hs
      cases hs
      exact View.Step.of_eq (h.view_iret hfs (by rw [hr]; rfl))
    | _ =>
      rw [hr] at hs
      cases hs
  | pop₁ =>
    simp only [hp] at hs
    split_ifs at hs
    · cases hs
      exact View.Step.of_eq rfl
    · split at hs <;> cases hs
      exact View.Step.of_eq (State.view_top hfs rfl rfl)
  | _ =>
    rw [hp] at hs
    cases hs
    exact View.Step.of_eq (State.view_top hfs rfl rfl)

lemma view_leave (h : Inv s) (hfs : s.frames s.run = f :: fs) (hs : s.leave f fs = some s') :
    ∃ d, s.view.Step d s'.view := by
  unfold State.leave at hs
  cases hr : f.routine with
  | main =>
    rw [hr] at hs
    cases hs
    obtain ⟨hrun, rfl, hpc⟩ := h.alone_main hfs hr
    rw [State.view_scheduler hrun]
    exact ⟨none, .start hpc hrun⟩
  | scheduler pc =>
    obtain ⟨hrun, rfl, hpc⟩ := h.alone hfs hr
    rw [hr] at hs
    cases pc <;> cases hs
    rw [State.view_scheduler hrun]
    exact ⟨none, .switchuvm _ hpc hrun⟩
  | syscall =>
    rw [hr] at hs
    cases hs
    exact View.Step.of_eq (h.view_iret hfs (by rw [hr]; rfl))
  | trap timer =>
    simp only [hr] at hs
    split_ifs at hs <;> cases hs
    · exact View.Step.of_eq (State.view_top hfs rfl (by rw [hr]; rfl))
    · exact View.Step.of_eq (h.view_iret hfs (by rw [hr]; rfl))
  | _ =>
    rw [hr] at hs
    cases hs

lemma view_kernelStep {l : Label n} (h : Inv s) (hfs : s.frames s.run = f :: fs)
    (hs : s.kernelStep f fs l = some s') : ∃ d, s.view.Step d s'.view := by
  by_cases hnext : l = .next
  · rw [hnext] at hs
    exact h.view_next hfs hs
  have hfree : f.point = .code ∧ f.routine.Free = true := by
    cases hp : f.point <;> cases hf : f.routine.Free <;> cases l <;>
      simp_all [State.kernelStep]
  obtain ⟨hp, hf⟩ := hfree
  cases l with
  | next => exact absurd rfl hnext
  | push =>
    simp only [State.kernelStep, hp, hf, if_true, Option.some.injEq] at hs
    subst hs
    exact View.Step.of_eq (State.view_top hfs rfl rfl)
  | pop =>
    simp only [State.kernelStep, hp, hf, if_true] at hs
    split_ifs at hs
    cases hs
    exact View.Step.of_eq (State.view_popcli hfs rfl)
  | cli =>
    simp only [State.kernelStep, hp, hf, if_true, Option.some.injEq] at hs
    subst hs
    exact View.Step.of_eq (State.view_top hfs rfl rfl)
  | leave =>
    simp only [State.kernelStep, hp, hf, if_true] at hs
    split_ifs at hs
    exact h.view_leave hfs hs
  | sti =>
    simp only [State.kernelStep, hp, hf, if_true] at hs
    split at hs <;> cases hs
    exact View.Step.of_eq (State.view_top hfs rfl rfl)
  | embryo i =>
    simp only [State.kernelStep, hp, hf, if_true] at hs
    split at hs
    · rename_i hr
      split_ifs at hs with hps
      cases hs
      obtain ⟨hrun, -, hpc⟩ := h.alone_main hfs hr
      exact ⟨none, .embryo i hpc hrun hps⟩
    · cases hs
  | runnable i =>
    simp only [State.kernelStep, hp, hf, if_true] at hs
    split at hs
    · rename_i hr
      split_ifs at hs with hps
      cases hs
      obtain ⟨hrun, -, hpc⟩ := h.alone_main hfs hr
      exact ⟨none, .runnable i hpc hrun hps⟩
    · cases hs
  | irq timer => simp [State.kernelStep, hp] at hs
  | syscall => simp [State.kernelStep, hp] at hs
  | fault => simp [State.kernelStep, hp] at hs

/-- **Every step of the kernel is a step of the view.** -/
lemma view_step {l : Label n} (h : Inv s) (hs : s.step l = some s') :
    ∃ d, s.view.Step d s'.view := by
  unfold State.step at hs
  rw [h.calm] at hs
  by_cases hirq : ∃ timer, l = .irq timer
  · obtain ⟨timer, rfl⟩ := hirq
    simp only at hs
    split_ifs at hs
    cases hs
    exact View.Step.of_eq (h.view_enter _ _)
  · cases hfs : s.frames s.run with
    | nil =>
      cases l <;> simp only [hfs, reduceCtorEq, Option.some.injEq] at hs
      · exact absurd ⟨_, rfl⟩ hirq
      · subst hs
        exact View.Step.of_eq (h.view_enter _ _)
      · subst hs
        exact View.Step.of_eq (h.view_enter _ _)
    | cons f fs =>
      refine h.view_kernelStep (l := l) hfs ?_
      cases l <;> simp only [hfs] at hs <;> first | exact hs | exact absurd ⟨_, rfl⟩ hirq

end Inv

/-! ## Whole runs -/

namespace State

/-- The process that a step dispatches: the scheduler's thread ran, and now that of a process. -/
def dispatched (s s' : State n) : Option (Fin n) := if s.run = none then s'.run else none

/-- The processes dispatched in a run, in order. -/
def dispatches : State n → List (Label n) → List (Fin n)
  | _, [] => []
  | s, l :: ls =>
    match s.step l with
    | none => []
    | some s' => (dispatched s s').toList ++ dispatches s' ls

/-- `scheduler` starts. -/
def Starts (s : State n) : Prop :=
  s.run = none ∧ ∃ saved, s.frames none = [⟨.scheduler .sti, .code, [], saved⟩]

/-- The scheduler has set the process to `RUNNING` and not yet switched to it; no interrupt can
come. -/
def SwitchesTo (s : State n) (i : Fin n) : Prop :=
  s.run = none ∧ s.cpu.intr = false ∧ ∃ f, s.frames none = [f] ∧
    (f.routine = .scheduler (.switchuvm i) ∨ f.routine = .scheduler (.swtch i))

end State

namespace Inv

lemma view_step_dispatched {l : Label n} (h : Inv s) (hs : s.step l = some s') :
    s.view.Step (s.dispatched s') s'.view := by
  obtain ⟨d, hd⟩ := h.view_step hs
  have heq : d = s.dispatched s' := hd.dispatch
  exact heq ▸ hd

lemma sole_runs {ls : List (Label n)} (h : Inv s) (hsole : s.view.Sole)
    (hs : s.runs ls = some s') : s'.view.Sole := by
  induction ls generalizing s with
  | nil =>
    cases hs
    exact hsole
  | cons l ls ih =>
    simp only [State.runs, List.foldlM_cons] at hs
    obtain ⟨s₁, hstep, hrest⟩ := Option.bind_eq_some_iff.mp hs
    exact ih (h.step hstep) (hsole.step (h.view_step_dispatched hstep)) hrest

lemma turn_runs {ls : List (Label n)} (h : Inv s) (hsole : s.view.Sole)
    (hturn : Turn ready ds s.view) (hs : s.runs ls = some s') :
    Turn ready (ds ++ s.dispatches ls) s'.view := by
  induction ls generalizing s ds with
  | nil =>
    cases hs
    rwa [State.dispatches, List.append_nil]
  | cons l ls ih =>
    simp only [State.runs, List.foldlM_cons] at hs
    obtain ⟨s₁, hstep, hrest⟩ := Option.bind_eq_some_iff.mp hs
    have hview := h.view_step_dispatched hstep
    have hrec := ih (h.step hstep) (hsole.step hview) (hturn.step hsole hview) hrest
    rw [State.dispatches, hstep]
    rwa [List.append_assoc] at hrec

lemma of_none (h : Inv s) : ∀ f ∈ s.frames none, f.routine.Of none := by
  by_cases hrun : s.run = none
  · exact (hrun ▸ h.running.stack).of
  · exact (h.sleeper hrun).stack.of

/-- A process that is `RUNNING` but not running is one that the scheduler switches to. -/
lemma switchesTo {i : Fin n} (h : Inv s) (hrun : s.run = none) (hproc : s.cpu.proc = some i)
    (hi : s.procstate i = .RUNNING) : s.SwitchesTo i := by
  refine ⟨hrun, ?_, ?_⟩
  · by_contra hon
    exact h.not_running (eq_true_of_ne_false hon) hrun i hproc hi
  · obtain ⟨f, fs, hfs⟩ := List.exists_cons_of_ne_nil (h.frames_ne_nil hrun)
    have hr := ((h.run hfs).top f fs rfl).idle hrun i hproc hi
    have hnil : fs = [] := by
      rcases hr with hr | hr <;> exact (h.alone hfs hr).2.1
    rw [hnil, hrun] at hfs
    exact ⟨f, hfs, hr⟩

end Inv

lemma sole_boot (n : ℕ) : (State.boot n).view.Sole :=
  ⟨fun _ hi => (nomatch hi), fun _ hi => (nomatch hi)⟩

/-- **The scheduler dispatches round-robin**, whatever processes are `RUNNABLE` when it starts and
whenever interrupts come.  A `RUNNING` process is `c->proc`, and it runs or the scheduler is about
to switch to it; the scheduler's thread never yields; and between two consecutive dispatches of a
process every other is dispatched once. -/
theorem dispatch_round_robin {s₀ : State n} {ls₀ ls : List (Label n)}
    (hboot : (State.boot n).runs ls₀ = some s₀) (hstart : s₀.Starts) (hs : s₀.runs ls = some s) :
    (∀ i, s.procstate i = .RUNNING → s.cpu.proc = some i ∧ (s.run = some i ∨ s.SwitchesTo i)) ∧
      (∀ i j, s.procstate i = .RUNNING → s.procstate j = .RUNNING → i = j) ∧
      (∀ f ∈ s.frames none, ∀ pc, f.routine ≠ .yield pc) ∧
      ∀ as bs cs p, s₀.dispatches ls = as ++ p :: bs ++ p :: cs → p ∉ bs →
        ∀ q, q ≠ p → bs.count q = if s₀.procstate q = .RUNNABLE then 1 else 0 := by
  have hinv₀ : Inv s₀ := (Inv.boot n).runs hboot
  have hinv : Inv s := hinv₀.runs hs
  have hsole₀ : s₀.view.Sole := (Inv.boot n).sole_runs (sole_boot n) hboot
  have hsole : s.view.Sole := hinv₀.sole_runs hsole₀ hs
  refine ⟨?_, ?_, ?_, ?_⟩
  · intro i hi
    obtain ⟨hproc, hrun⟩ := hsole.running i hi
    refine ⟨hproc, hrun.imp id fun hwait => ?_⟩
    exact hinv.switchesTo hwait.1 hproc hi
  · intro i j hi hj
    have hij := (hsole.running i hi).1.symm.trans (hsole.running j hj).1
    exact Option.some.inj hij
  · intro f hf pc hr
    have hof := hinv.of_none f hf
    rw [hr] at hof
    exact hof rfl
  · intro as bs cs p hds hp q hq
    obtain ⟨hrun, saved, hfs⟩ := hstart
    have hpc : s₀.view.pc = some .sti := by
      show schedulerPc (s₀.frames none) = _
      rw [hfs]
      rfl
    have hidle := hsole₀.none_running hrun (by simp [hpc])
    have hturn : Turn (fun i => decide (s₀.procstate i = .RUNNABLE)) [] s₀.view := by
      refine ⟨fun i => ?_, .sti, 0, hpc, rfl⟩
      rw [decide_eq_true_iff]
      exact ⟨.inl, fun hi => hi.resolve_right (hidle i)⟩
    have hbetween := (hinv₀.turn_runs hsole₀ hturn hs).between (by rw [List.nil_append, hds]) hp hq
    simpa only [decide_eq_true_eq] using hbetween

/-- `main` makes two processes and calls the scheduler. -/
def twoProcesses : List (Label 2) :=
  [.embryo ⟨0, Nat.two_pos⟩, .runnable ⟨0, Nat.two_pos⟩, .embryo ⟨1, Nat.one_lt_two⟩,
    .runnable ⟨1, Nat.one_lt_two⟩, .leave]

/-- Each of the two gets a slice, and the first is dispatched again. -/
def twoSlices : List (Label 2) :=
  let dispatch := [.next, .next, .leave, .next]
  let slice := dispatch ++ .replicate 4 .next ++ [.irq true, .leave] ++ .replicate 9 .next
  .replicate 5 .next ++ slice ++ slice ++ .replicate 8 .next ++ dispatch

theorem dispatch_round_robin_twoSlices : ∃ s₀ s : State 2,
    (State.boot 2).runs twoProcesses = some s₀ ∧ s₀.Starts ∧ s₀.runs twoSlices = some s ∧
      s₀.dispatches twoSlices = [0, 1, 0] ∧ ∀ q : Fin 2, q ≠ 0 → [1].count q = 1 := by
  have hstart : ((State.boot 2).runs twoProcesses).map (fun s => (s.run, s.frames none)) =
      some (none, [⟨.scheduler .sti, .code, [], false⟩]) := rfl
  obtain ⟨s₀, hs₀, hstart⟩ := Option.map_eq_some_iff.mp hstart
  have hruns : ((State.boot 2).runs twoProcesses).bind (fun s => (s.runs twoSlices).map State.run) =
      some (some 0) := by decide +kernel
  have hds : ((State.boot 2).runs twoProcesses).map (fun s => s.dispatches twoSlices) =
      some [0, 1, 0] := by decide +kernel
  have hready : ((State.boot 2).runs twoProcesses).map (fun s => s.procstate 1) =
      some .RUNNABLE := by decide +kernel
  rw [hs₀, Option.bind_some, Option.map_eq_some_iff] at hruns
  rw [hs₀, Option.map_some, Option.some.injEq] at hds hready
  obtain ⟨s, hs, -⟩ := hruns
  have hstarts : s₀.Starts := ⟨congrArg Prod.fst hstart, false, congrArg Prod.snd hstart⟩
  refine ⟨s₀, s, hs₀, hstarts, hs, hds, fun q hq => ?_⟩
  obtain ⟨-, -, -, hbetween⟩ := dispatch_round_robin hs₀ hstarts hs
  obtain rfl : q = 1 := by omega
  have hcount := hbetween [] [1] [] 0 hds (by decide) 1 hq
  rwa [if_pos hready] at hcount

/-- A process is `RUNNING` while the scheduler's thread still runs. -/
theorem running_before_swtch : ∃ (ls₀ ls : List (Label 1)) (s₀ s : State 1),
    (State.boot 1).runs ls₀ = some s₀ ∧ s₀.Starts ∧ s₀.runs ls = some s ∧
      s.procstate 0 = .RUNNING ∧ s.run = none := by
  have hstart : ((State.boot 1).runs [.embryo 0, .runnable 0, .leave]).map
      (fun s => (s.run, s.frames none)) =
        some (none, [⟨.scheduler .sti, .code, [], false⟩]) := rfl
  obtain ⟨s₀, hs₀, hstart⟩ := Option.map_eq_some_iff.mp hstart
  have hruns : ((State.boot 1).runs [.embryo 0, .runnable 0, .leave]).bind
      (fun s => (s.runs (.replicate 7 .next)).map fun s => (s.procstate 0, s.run)) =
        some (.RUNNING, none) := by decide +kernel
  rw [hs₀, Option.bind_some, Option.map_eq_some_iff] at hruns
  obtain ⟨s, hs, hrun⟩ := hruns
  exact ⟨_, _, s₀, s, hs₀, ⟨congrArg Prod.fst hstart, false, congrArg Prod.snd hstart⟩, hs,
    congrArg Prod.fst hrun, congrArg Prod.snd hrun⟩

end

end Xv6.Irq
