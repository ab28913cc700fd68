import Xv6.Sched.System
import Mathlib.Data.Fintype.Card

/-!
# The request queue of the disk driver

`iderw` appends a buffer to a list that is threaded through the buffers themselves, and
`ideintr` takes the first one off.  Both run with interrupts off, but nothing keeps a process
from appending a buffer that is on the list already: buffers have no locks, `bget` hands the
same buffer to every process that reads its block, and each of them finds it invalid until the
first request has been served.

`queue_wellFormed` says that in a run in which every call of `iderw` finds its buffer off the
queue, the queue always is a list without repetitions that has every buffer with an unserved
request on it.  `double_read_loops` is the run of two readers of one block that ties the queue
into a loop.
-/

namespace Xv6

open Lib

namespace IdeQueue

/-- The buffers met when `qnext` is followed from `p` are those of a list, in its order, and
the last one's `qnext` is null. -/
def Chain (q : IdeQueue) : Option (Fin NBUF) → List (Fin NBUF) → Prop
  | p, [] => p = none
  | p, b :: l => p = some b ∧ Chain q (q.qnext b) l

variable {q : IdeQueue} {p : Option (Fin NBUF)} {b : Fin NBUF} {l : List (Fin NBUF)}

lemma Chain.congr {q' : IdeQueue} (h : q.Chain p l) (hq : ∀ c ∈ l, q'.qnext c = q.qnext c) :
    q'.Chain p l := by
  induction l generalizing p with
  | nil => exact h
  | cons c l ih =>
    obtain ⟨hp, hrest⟩ := h
    refine ⟨hp, ?_⟩
    rw [hq c List.mem_cons_self]
    exact ih hrest fun d hd => hq d (List.mem_cons_of_mem c hd)

lemma Chain.unique {l' : List (Fin NBUF)} (h : q.Chain p l) (h' : q.Chain p l') : l = l' := by
  induction l generalizing p l' with
  | nil =>
    cases l' with
    | nil => rfl
    | cons c l' => exact absurd (h.symm.trans h'.1) (by simp)
  | cons b l ih =>
    cases l' with
    | nil => exact absurd (h'.symm.trans h.1) (by simp)
    | cons c l' =>
      obtain rfl : b = c := Option.some.inj (h.1.symm.trans h'.1)
      rw [ih h.2 h'.2]

lemma length_le (hnd : l.Nodup) : l.length ≤ NBUF := by
  have h := hnd.length_le_card
  rwa [Fintype.card_fin] at h

lemma Chain.walk {turns : ℕ} {pp : Option (Fin NBUF)} (h : q.Chain (q.deref pp) l)
    (hturns : l.length < turns) : q.walk turns pp = some (l.getLast?.or pp) := by
  induction l generalizing turns pp with
  | nil =>
    obtain ⟨turns, rfl⟩ := Nat.exists_eq_succ_of_ne_zero (Nat.ne_of_gt hturns)
    have hnull : q.deref pp = none := h
    simp [IdeQueue.walk, hnull]
  | cons c l ih =>
    obtain ⟨turns, rfl⟩ := Nat.exists_eq_succ_of_ne_zero (Nat.ne_of_gt (Nat.zero_lt_of_lt hturns))
    have hlast : (c :: l).getLast?.or pp = l.getLast?.or (some c) := by
      rw [List.getLast?_cons]
      cases l.getLast? <;> rfl
    rw [IdeQueue.walk, h.1, hlast]
    exact ih h.2 (Nat.lt_of_succ_lt_succ hturns)

lemma Chain.snoc {c : Fin NBUF} (h : q.Chain p l) (hnd : l.Nodup) (hc : l.getLast? = some c)
    (hb : b ∉ l) (hnull : q.qnext b = none) : (q.assign b (some c)).Chain p (l ++ [b]) := by
  induction l generalizing p with
  | nil => cases hc
  | cons d l ih =>
    obtain ⟨hp, hrest⟩ := h
    obtain ⟨hd, hnd⟩ := List.nodup_cons.mp hnd
    refine ⟨hp, ?_⟩
    cases l with
    | nil =>
      obtain rfl : d = c := by simpa using hc
      have hne : b ≠ d := fun he => hb (he ▸ List.mem_cons_self)
      simp only [assign, Function.update_self]
      exact ⟨rfl, (Function.update_of_ne hne _ _).trans hnull⟩
    | cons e l =>
      have hlast : (e :: l).getLast? = some c := by rwa [List.getLast?_cons_cons] at hc
      have hne : d ≠ c := by
        rintro rfl
        exact hd (List.mem_of_getLast? hlast)
      have hkeep : (q.assign b (some c)).qnext d = q.qnext d := Function.update_of_ne hne _ _
      rw [hkeep]
      exact ih hrest hnd hlast fun hm => hb (List.mem_cons_of_mem d hm)

/-- **Appending a buffer that is off the queue** puts it at the end. -/
lemma append_spec (h : q.Chain q.idequeue l) (hnd : l.Nodup) (hb : b ∉ l) :
    ∃ q', q.append b = some q' ∧ q'.Chain q'.idequeue (l ++ [b]) := by
  -- `b->qnext = 0` does not touch the chain
  have hclear : Chain { q with qnext := Function.update q.qnext b none } q.idequeue l := by
    refine h.congr fun c hc => Function.update_of_ne ?_ _ _
    rintro rfl
    exact hb hc
  have hnull : Function.update q.qnext b none b = none := Function.update_self ..
  have hwalk : IdeQueue.walk { q with qnext := Function.update q.qnext b none } (NBUF + 1) none =
      some (l.getLast?.or none) := hclear.walk (Nat.lt_succ_of_le (length_le hnd))
  rw [append]
  simp only [hwalk, Option.map_some]
  cases hlast : l.getLast? with
  | none =>
    rw [List.getLast?_eq_none_iff.mp hlast]
    exact ⟨_, rfl, rfl, hnull⟩
  | some c =>
    exact ⟨_, rfl, hclear.snoc hnd hlast hb hnull⟩

end IdeQueue

section Queue

variable {ι κ ρ : Type} [DecidableEq ι]

/-- Process `i` waits for a request for `b` that has not been served. -/
def Sys.Waits (s : Sys ι κ ρ) (i : ι) (b : Fin NBUF) : Prop :=
  (s.proc i).io = some (.wait b false)

/-- The queue is a list without repetitions, and every buffer with an unserved request is on
it. -/
def Sys.QueueWf (s : Sys ι κ ρ) : Prop :=
  ∃ l, s.queue.Chain s.queue.idequeue l ∧ l.Nodup ∧ ∀ i b, s.Waits i b → b ∈ l

/-- If the step is one into the section of `iderw(b)`, then `b` is off the queue. -/
def OffQueue (s : Sys ι κ ρ) (_ : List (Event ι κ ρ)) (l : Label ι) : Prop :=
  ∀ i b, l = .go i → (s.proc i).io = some (.call b) →
    ∀ bs, s.queue.Chain s.queue.idequeue bs → b ∉ bs

/-- What a step does to the queue and to the waiting processes. -/
inductive QueueStep (s s' : Sys ι κ ρ) : Label ι → Prop
  /-- Nothing is appended and nothing is served. -/
  | keep {l : Label ι} (hq : s'.queue = s.queue) (hw : ∀ i b, s'.Waits i b → s.Waits i b) :
      QueueStep s s' l
  /-- `iderw(b)` appends its buffer. -/
  | append {i : ι} {b : Fin NBUF} (hio : (s.proc i).io = some (.call b))
      (hq : s.queue.append b = some s'.queue)
      (hw : ∀ j c, s'.Waits j c → s.Waits j c ∨ c = b) : QueueStep s s' (.go i)
  /-- `ideintr` serves the first buffer. -/
  | serve {err : Bool} {b : Fin NBUF} (hb : s.queue.idequeue = some b)
      (hq : s'.queue = { s.queue with idequeue := s.queue.qnext b })
      (hw : ∀ i c, s'.Waits i c → s.Waits i c ∧ c ≠ b) : QueueStep s s' (.intr err)

lemma Sys.waits_of_setProc {s s' : Sys ι κ ρ} {i : ι} {p : Process κ ρ}
    (hproc : s'.proc = Function.update s.proc i p)
    (hp : ∀ b, p.io = some (.wait b false) → s.Waits i b) (j : ι) (b : Fin NBUF)
    (h : s'.Waits j b) : s.Waits j b := by
  unfold Sys.Waits at h
  rw [hproc] at h
  by_cases hj : j = i
  · rw [hj, Function.update_self] at h
    exact hj ▸ hp b h
  · rwa [Function.update_of_ne hj] at h

lemma iderwSection_ok {b : Fin NBUF} {m m' : Machine} {q q' : IdeQueue}
    (h : iderwSection b m q = .ok (m', q')) :
    q.append b = some q' ∧
      (q'.idequeue = some b ∧ idestart b m = .ok m' ∨ q'.idequeue ≠ some b ∧ m' = m) := by
  unfold iderwSection at h
  split_ifs at h
  cases ha : q.append b with
  | none => simp [ha] at h
  | some q₁ =>
    simp only [ha] at h
    split_ifs at h with hhead
    · cases hs : idestart b m with
      | error x => simp [hs, Except.map] at h
      | ok m₁ =>
        simp only [hs, Except.map] at h
        cases h
        exact ⟨rfl, Or.inl ⟨hhead, rfl⟩⟩
    · cases h
      exact ⟨rfl, Or.inr ⟨hhead, rfl⟩⟩

lemma ioStep_queue (s : Sys ι κ ρ) (i : ι) (c : κ) (code : K ρ) {io : Io}
    (hio : (s.proc i).io = some io) : QueueStep s (s.ioStep i c code io) (.go i) := by
  cases io with
  | test b =>
    simp only [Sys.ioStep]
    split_ifs
    · exact .keep rfl (Sys.waits_of_setProc rfl (by simp))
    · exact .keep rfl (Sys.waits_of_setProc rfl (by simp))
  | call b =>
    simp only [Sys.ioStep]
    cases hs : iderwSection b s.m s.queue with
    | error x => exact .keep rfl fun _ _ h => h
    | ok r =>
      obtain ⟨m, q⟩ := r
      refine .append hio (iderwSection_ok hs).1 fun j d hw => ?_
      unfold Sys.Waits at hw ⊢
      by_cases hj : j = i
      · simp only [Sys.setProc, hj, Function.update_self] at hw
        exact Or.inr (by simpa using hw.symm)
      · simp only [Sys.setProc, Function.update_of_ne hj] at hw
        exact Or.inl hw
  | wait b served =>
    simp only [Sys.ioStep]
    split_ifs
    · exact .keep rfl (Sys.waits_of_setProc rfl (by simp))
    · exact .keep rfl fun _ _ h => h

lemma goStep_queue (s : Sys ι κ ρ) (i : ι) (c : κ) (e : BioOp ⊕ MemOp)
    (code : Sum.elim BioOp.Ret MemOp.Ret e → K ρ) :
    QueueStep s (s.goStep i c e code).1 (.go i) := by
  -- the steps other than block transfers leave `io` as it is
  have hsame : ∀ {s' : Sys ι κ ρ} {cur : Option (κ × K ρ)}, s'.queue = s.queue →
      s'.proc = Function.update s.proc i { s.proc i with cur := cur } → QueueStep s s' (.go i) :=
    fun hq hproc => .keep hq (Sys.waits_of_setProc hproc fun _ h => h)
  have hhalt : ∀ x, QueueStep s (s.halt x) (.go i) := fun x => .keep rfl fun _ _ h => h
  unfold Sys.goStep
  split
  · split
    · exact ioStep_queue s i c _ ‹_›
    · split
      · exact hhalt _
      · exact .keep rfl (Sys.waits_of_setProc rfl (by simp))
  · split
    · exact ioStep_queue s i c _ ‹_›
    · split
      · exact hhalt _
      · exact .keep rfl (Sys.waits_of_setProc rfl (by simp))
  · split
    · exact hhalt _
    · exact hsame rfl rfl
  · split
    · exact hhalt _
    · exact hsame rfl rfl

lemma ideintr_queue {err : Bool} {b : Fin NBUF} {m m' : Machine} {q q' : IdeQueue}
    (hb : q.idequeue = some b) (h : ideintr err m q = .ok (m', q')) :
    q' = { q with idequeue := q.qnext b } := by
  unfold ideintr at h
  simp only [hb] at h
  cases hn : q.qnext b with
  | none =>
    simp only [hn] at h
    cases h
    rfl
  | some c =>
    simp only [hn] at h
    cases hs : idestart c (m.setBuf b (ideDone err m (m.buf b))) with
    | error x => simp [hs, Except.map] at h
    | ok m₁ =>
      simp only [hs, Except.map] at h
      cases h
      rfl

/-- A process still waits after an interrupt only if another buffer was served. -/
lemma waits_serve {p : Process κ ρ} {b c : Fin NBUF}
    (h : (p.serve b).io = some (.wait c false)) : p.io = some (.wait c false) ∧ c ≠ b := by
  unfold Process.serve at h
  split at h
  · split_ifs at h with hcb
    · simp at h
    · rename_i d served hio
      rw [hio] at h ⊢
      obtain ⟨rfl, rfl⟩ : d = c ∧ served = false := by simpa using h
      exact ⟨rfl, hcb⟩
  · rename_i hne
    exact absurd h (hne c false)

/-- **What a step does to the queue.** -/
lemma step_queue {body : κ → K ρ} {s s' : Sys ι κ ρ} {l : Label ι} {ev : List (Event ι κ ρ)}
    (h : s.step body l = some (s', ev)) : QueueStep s s' l := by
  unfold Sys.step at h
  split_ifs at h
  cases l with
  | call i =>
    simp only at h
    split at h
    · cases h
      exact .keep rfl (Sys.waits_of_setProc rfl (by simp))
    · cases h
  | go i =>
    simp only at h
    split at h
    · rename_i c e code _
      obtain rfl : (s.goStep i c e code).1 = s' := by rw [Option.some.inj h]
      exact goStep_queue s i c e code
    · cases h
  | ret i =>
    simp only at h
    split at h
    · cases h
      exact .keep rfl (Sys.waits_of_setProc rfl fun _ hw => hw)
    · cases h
  -- a spurious interrupt and one that panics leave the queue alone
  | intr err =>
    simp only at h
    split at h
    · cases h
      exact .keep rfl fun _ _ hw => hw
    · cases h
      exact .keep rfl fun _ _ hw => hw
    · rename_i b m q hb hi
      cases h
      exact .serve hb (ideintr_queue hb hi) fun i c hw => waits_serve hw

omit [DecidableEq ι] in
lemma QueueStep.queueWf {s s' : Sys ι κ ρ} {l : Label ι} {h : List (Event ι κ ρ)}
    (hstep : QueueStep s s' l) (hoff : OffQueue s h l) (hwf : s.QueueWf) : s'.QueueWf := by
  obtain ⟨bs, hchain, hnd, hwait⟩ := hwf
  cases hstep with
  | keep hq hw =>
    refine ⟨bs, ?_, hnd, fun i b hb => hwait i b (hw i b hb)⟩
    rwa [hq]
  | @append i b hio hq hw =>
    have hb : b ∉ bs := hoff i b rfl hio bs hchain
    obtain ⟨q', hq', hchain'⟩ := IdeQueue.append_spec hchain hnd hb
    obtain rfl : q' = s'.queue := Option.some.inj (hq'.symm.trans hq)
    refine ⟨bs ++ [b], hchain', ?_, fun j c hc => ?_⟩
    · exact List.nodup_append_comm.mp (List.nodup_cons.mpr ⟨hb, hnd⟩)
    · rcases hw j c hc with hc | rfl
      · exact List.mem_append_left _ (hwait j c hc)
      · exact List.mem_append_right _ (List.mem_singleton_self c)
  | @serve err b hb hq hw =>
    cases bs with
    | nil => exact absurd (hb.symm.trans hchain) (by simp)
    | cons c bs =>
      obtain ⟨hc, hrest⟩ := hchain
      obtain rfl : b = c := Option.some.inj (hb.symm.trans hc)
      refine ⟨bs, ?_, (List.nodup_cons.mp hnd).2, fun i d hd => ?_⟩
      · rw [hq]
        exact hrest.congr fun _ _ => rfl
      · obtain ⟨hd, hne⟩ := hw i d hd
        exact (List.mem_cons.mp (hwait i d hd)).resolve_left hne

/-- **The request queue is well formed** in every state of a run in which no process enters
`iderw` with a buffer that is on the queue. -/
theorem queue_wellFormed (body : κ → K ρ) (m : Machine) (fm : FsMem) (todo : ι → List κ)
    (s : Sys ι κ ρ) (h : List (Event ι κ ρ)) (hrun : Runs body OffQueue (.boot m fm todo) s h) :
    s.QueueWf := by
  induction hrun with
  | refl => exact ⟨[], rfl, List.nodup_nil, fun i b hb => by cases hb⟩
  | step l _ hoff hstep ih => exact (step_queue hstep).queueWf hoff ih

end Queue

/-- Two processes that read one block each. -/
def twoReaders (b₀ b₁ : ℕ) (i : Fin 2) : List ℕ := [if (i : ℕ) = 0 then b₀ else b₁]

/-- Read a block and return its number. -/
def readBlock (b : ℕ) : K ℕ := do
  let _ ← bread ROOTDEV b
  return b

/-- The machine right after boot, with empty drives. -/
def bootMachine : Machine := binit (fun _ => Bytes.zero) true ⟨0, 0, 0, ⟨0, fun _ => 0⟩⟩

/-- Each reader in turn calls `bget`, finds the buffer invalid, and enters `iderw`. -/
def readInTurn : List (Label (Fin 2)) :=
  (List.finRange 2).flatMap fun i => [.call i, .go i, .go i, .go i]

/-- The queue has at most one buffer, and it is not the one of the step. -/
def offShortQueue (s : Sys (Fin 2) ℕ ℕ) (_ : List (Event (Fin 2) ℕ ℕ)) : Label (Fin 2) → Bool
  | .go i =>
    match (s.proc i).io, s.queue.idequeue with
    | some (.call b), some c => c ≠ b ∧ s.queue.qnext c = none
    | _, _ => true
  | _ => true

lemma offQueue_of_offShortQueue {s : Sys (Fin 2) ℕ ℕ} {h : List (Event (Fin 2) ℕ ℕ)}
    {l : Label (Fin 2)} (hs : offShortQueue s h l = true) : OffQueue s h l := by
  rintro i b rfl hio bs hchain
  cases hq : s.queue.idequeue with
  | none =>
    rw [hq] at hchain
    cases bs with
    | nil => simp
    | cons c bs => exact absurd hchain.1 (by simp)
  | some c =>
    obtain ⟨hcb, hnull⟩ : c ≠ b ∧ s.queue.qnext c = none := by
      simpa [offShortQueue, hio, hq] using hs
    have hone : s.queue.Chain s.queue.idequeue [c] := ⟨hq, hnull⟩
    rw [hchain.unique hone]
    simpa using hcb.symm

/-- Two readers of different blocks queue up. -/
theorem queue_wellFormed_two_readers : ∃ (s : Sys (Fin 2) ℕ ℕ) (h : List (Event (Fin 2) ℕ ℕ)),
    Runs readBlock OffQueue (.boot bootMachine (.boot []) (twoReaders 5 6)) s h ∧
    s.Waits 0 0 ∧ s.Waits 1 1 ∧ s.QueueWf := by
  have hrun : ((Sys.run readBlock offShortQueue readInTurn
      (.boot bootMachine (.boot []) (twoReaders 5 6), [])).map fun r =>
        ((r.1.proc 0).io, (r.1.proc 1).io)) =
        some (some (.wait 0 false), some (.wait 1 false)) := by
    decide
  obtain ⟨r, hr, hio⟩ := Option.map_eq_some_iff.mp hrun
  have hruns := Runs.refl.run (fun _ _ _ => offQueue_of_offShortQueue) hr
  exact ⟨r.1, r.2, hruns, congrArg Prod.fst hio, congrArg Prod.snd hio,
    queue_wellFormed readBlock bootMachine (.boot []) (twoReaders 5 6) r.1 r.2 hruns⟩

lemma IdeQueue.not_chain_of_loop {q : IdeQueue} {b : Fin NBUF} (h : q.qnext b = some b)
    (bs : List (Fin NBUF)) : ¬ q.Chain (some b) bs := by
  induction bs with
  | nil => exact Option.some_ne_none b
  | cons c bs ih =>
    rintro ⟨hc, hrest⟩
    rw [← Option.some.inj hc, h] at hrest
    exact ih hrest

/-- **Two readers of one block tie the queue into a loop**: the second `iderw` sets
`b->qnext = b`. -/
theorem double_read_loops : ∃ (s : Sys (Fin 2) ℕ ℕ) (h : List (Event (Fin 2) ℕ ℕ)),
    Runs readBlock (fun _ _ _ => True) (.boot bootMachine (.boot []) (twoReaders 5 5)) s h ∧
    ¬ s.QueueWf := by
  have hrun : ((Sys.run readBlock (fun _ _ _ => true) readInTurn
      (.boot bootMachine (.boot []) (twoReaders 5 5), [])).map fun r =>
        (r.1.queue.idequeue, r.1.queue.qnext 0)) = some (some 0, some 0) := by
    decide
  obtain ⟨r, hr, hq⟩ := Option.map_eq_some_iff.mp hrun
  have hhead : r.1.queue.idequeue = some 0 := congrArg Prod.fst hq
  have hnext : r.1.queue.qnext 0 = some 0 := congrArg Prod.snd hq
  refine ⟨r.1, r.2, Runs.refl.run (fun _ _ _ _ => trivial) hr, ?_⟩
  rintro ⟨bs, hchain, -, -⟩
  rw [hhead] at hchain
  exact IdeQueue.not_chain_of_loop hnext bs hchain

end Xv6
