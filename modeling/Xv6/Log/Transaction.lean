import Xv6.Log.Crash

/-!
# Sequences of transactions

A transaction modifies a list of blocks, passing each to `log_write`, and ends with `end_op`.
Transactions that run one after another are atomic and durable (`crash_atomic`): after a crash
at any point, any number of interrupted recoveries and one that completes, the blocks outside
the log hold what a prefix of the transactions made of them, and every transaction whose
`end_op` had returned is in that prefix.

The prefix is found by induction over the transactions (`kwp_transactions`): one that has not
committed has changed nothing that a recovery would see.  Recoveries that are interrupted are a
relation of their own, `CrashInRecovery`, and what would be recovered is invariant along it.
-/

namespace Xv6

open Lib

/-- One modification of a block. -/
structure Update where
  blockno : ℕ
  change : Block → Block

/-- `bp = bread(...)`, a change of `bp->data`, `log_write(bp)`, `brelse(bp)`. -/
def modify (dev : ℕ) (u : Update) : K Unit := do
  let bp ← bread dev u.blockno
  bstore bp u.change
  logWrite bp
  brelse bp

def modifyAll (dev : ℕ) : List Update → K Unit
  | [] => pure ()
  | u :: us => do
    modify dev u
    modifyAll dev us

/-- `begin_op()`, any modifications, `end_op()`. -/
def transaction (dev : ℕ) (us : List Update) : K Unit := do
  beginOp
  modifyAll dev us
  endOp

/-- Transactions one after another. -/
def transactions (dev : ℕ) : List (List Update) → K Unit
  | [] => pure ()
  | t :: ts => do
    transaction dev t
    transactions dev ts

/-! ## What transactions are meant to do -/

/-- The contents of all blocks after one modification. -/
def Update.apply (dev : ℕ) (c : BufRef → Block) (u : Update) : BufRef → Block :=
  Function.update c ⟨dev, u.blockno⟩ (u.change (c ⟨dev, u.blockno⟩))

/-- The contents of all blocks after a transaction. -/
def contentsAfter (dev : ℕ) (c : BufRef → Block) (us : List Update) : BufRef → Block :=
  us.foldl (Update.apply dev) c

/-- The contents of all blocks after a sequence of transactions. -/
def contentsAfterAll (dev : ℕ) (c : BufRef → Block) (ts : List (List Update)) :
    BufRef → Block :=
  ts.foldl (contentsAfter dev) c

/-- A transaction that stays out of the log area. -/
def LogArea.Avoids (g : LogArea) (us : List Update) : Prop :=
  ∀ u ∈ us, ¬ g.Mem ⟨g.dev, u.blockno⟩

/-- The contents `c` and `c'` agree outside the log area. -/
def LogArea.Agree (g : LogArea) (c c' : BufRef → Block) : Prop := ∀ k, ¬ g.Mem k → c k = c' k

lemma LogArea.Agree.apply {g : LogArea} {c c' : BufRef → Block} (h : g.Agree c c') {u : Update}
    (hu : ¬ g.Mem ⟨g.dev, u.blockno⟩) : g.Agree (u.apply g.dev c) (u.apply g.dev c') := by
  intro k hk
  by_cases he : k = ⟨g.dev, u.blockno⟩
  · simp only [Update.apply, he, Function.update_self, h _ hu]
  · simp only [Update.apply, Function.update_of_ne he, h k hk]

/-! ## What they do -/

section

variable {C : (BufRef → Block) → Finset BufRef → Prop} {a : Account} {fm : FsMem} {g : LogArea}
  {lh : LogHeader} {c : BufRef → Block}

lemma kwp_modify {u : Update} (h : g.Books lh a) (hheld : a.held = [])
    (hu : ¬ g.Mem ⟨g.dev, u.blockno⟩) (hC : ∀ dirty, C a.disk dirty) :
    kwp C (fun x _ _ => x ≠ .stray) (modify g.dev u)
      (fun _ a' fm' => fm' = fm ∧ (∃ lh', g.Books lh' a') ∧
      a'.held = [] ∧ a'.disk = a.disk ∧ a'.mem = u.apply g.dev a.mem) a fm := by
  have hp : ∀ p, Halt.panic p ≠ .stray := fun p hp => nomatch hp
  refine kwp_bread (k := ⟨g.dev, u.blockno⟩) g.dev_lt (hC _) (fun _ => hp _) (fun _ _ => hp _)
    (fun _ => hp _) fun hrange _ => ?_
  rw [hheld]
  refine kwp_bstore (hC _) (by simp) ?_
  refine kwp_logWrite (hC _) (by simp [Account.write]) (fun _ => hp _) fun hfull => ?_
  have hpend : (if ⟨g.dev, u.blockno⟩ ∈ a.dirty then a.pend
      else insert ⟨g.dev, u.blockno⟩ a.pend).erase ⟨g.dev, u.blockno⟩ = ∅ := by
    rw [h.pend]
    split_ifs <;> simp
  refine kwp_last (kwp_brelse (hC _) (by simp [Account.write, Account.pin])
    (fun hk => absurd hk (by simp [Account.pin])) (kwp_ret (hC _) ⟨rfl, ⟨lh.add u.blockno, ?_⟩,
      ?_, rfl, rfl⟩))
  · have hfull' : ¬ (g.log lh).full := h.tidy.log ▸ hfull
    refine ⟨⟨?_, h.tidy.present, h.tidy.listed.add hfull' hrange.2.2 hu, fun k hk => ?_,
      fun k hk => ⟨fun hk' => ?_, fun hk' => ?_⟩⟩, hpend, ?_, fun k hk => ?_⟩
    · simp only [Account.pin, Account.write, h.tidy.log, Log.add]
      rfl
    · exact absurd hk (by simp only [Account.pin, Account.write]; simp [hpend])
    · rcases Finset.mem_insert.mp hk' with rfl | hk'
      · exact hu hk
      · exact (h.tidy.area k hk).1 hk'
    · exact absurd hk' (by simp only [Account.pin, Account.write]; simp [hpend])
    · rw [LogArea.homes_add]
      exact Finset.insert_subset_insert _ h.dirty
    · simp only [Account.pin, Account.write, Finset.mem_insert, not_or] at hk ⊢
      rw [Function.update_of_ne hk.1, h.clean k hk.2]
  · simp [Account.pin, Account.write]

/-- The modifications of a transaction change the store and nothing on the drives. -/
lemma kwp_modifyAll {us : List Update} (h : g.Books lh a) (hheld : a.held = [])
    (hus : g.Avoids us) (hc : g.Agree a.mem c) (hC : ∀ dirty, C a.disk dirty) :
    kwp C (fun x _ _ => x ≠ .stray) (modifyAll g.dev us)
      (fun _ a' fm' => fm' = fm ∧ (∃ lh', g.Books lh' a') ∧
      a'.held = [] ∧ a'.disk = a.disk ∧ g.Agree a'.mem (contentsAfter g.dev c us)) a fm := by
  induction us generalizing a lh c with
  | nil => exact kwp_ret (hC _) ⟨rfl, ⟨lh, h⟩, hheld, rfl, hc⟩
  | cons u us ih =>
    have hu := hus u List.mem_cons_self
    refine kwp_seq (kwp_modify h hheld hu hC) ?_
    rintro - a₁ fm₁ ⟨rfl, ⟨lh₁, h₁⟩, hheld₁, hdisk₁, hmem₁⟩
    have hc₁ : g.Agree a₁.mem (u.apply g.dev c) := hmem₁ ▸ hc.apply hu
    rw [← hdisk₁] at hC ⊢
    exact ih h₁ hheld₁ (fun v hv => hus v (List.mem_cons_of_mem _ hv)) hc₁ hC

/-- **A transaction** moves the drives from its contents before to its contents after. -/
lemma kwp_transaction {us : List Update} (h : g.Rests a) (hus : g.Avoids us)
    (hc : g.Agree a.mem c)
    (hC : ∀ d dirty, g.Recovers d c ∨ g.Recovers d (contentsAfter g.dev c us) → C d dirty) :
    kwp C (fun x _ _ => x ≠ .stray) (transaction g.dev us) (fun _ a' fm' => fm' = fm ∧ g.Rests a' ∧
      g.Agree a'.mem (contentsAfter g.dev c us)) a fm := by
  have hold : g.Recovers a.disk c := h.recovers.congr_right fun k _ hk => (hc k hk).symm
  obtain ⟨lh, hn, hb⟩ := h.books
  show kwp C _ (modifyAll g.dev us >>= fun _ => endOp) _ a fm
  refine kwp_seq (kwp_modifyAll hb h.held hus hc fun _ => hC _ _ (Or.inl hold)) ?_
  rintro - a₁ fm₁ ⟨rfl, ⟨lh₁, h₁⟩, hheld₁, hdisk₁, hc₁⟩
  have hbefore : ∀ k, ¬ g.Mem k → c k = a₁.disk k := fun k hk => by
    rw [hdisk₁, ← h.mem_eq_disk, hc k hk]
  refine kwp_mono (kwp_commit h₁ hheld₁ (hdisk₁ ▸ h.header) (fun _ _ _ hx => nomatch hx)
    fun d dirty _ _ hd => hC d dirty (hd.imp (fun hr => hr.congr_right fun k _ hk => hbefore k hk)
      fun hr => hr.congr_right fun k _ hk => (hc₁ k hk).symm)) ?_
  rintro - a₂ fm₂ ⟨rfl, hrest, hframe⟩
  exact ⟨rfl, hrest, fun k hk => (hframe k hk).trans (hc₁ k hk)⟩

/-- **A sequence of transactions** shows on the drives as one of its prefixes. -/
lemma kwp_transactions {ts : List (List Update)} (h : g.Rests a)
    (hts : ∀ t ∈ ts, g.Avoids t) (hc : g.Agree a.mem c)
    (hC : ∀ d dirty, (∃ j ≤ ts.length, g.Recovers d (contentsAfterAll g.dev c (ts.take j))) →
      C d dirty) :
    kwp C (fun x _ _ => x ≠ .stray) (transactions g.dev ts) (fun _ a' fm' => fm' = fm ∧ g.Rests a' ∧
      g.Agree a'.mem (contentsAfterAll g.dev c ts)) a fm := by
  induction ts generalizing a c with
  | nil =>
    refine kwp_ret (hC _ _ ⟨0, le_rfl, ?_⟩) ⟨rfl, h, hc⟩
    exact h.recovers.congr_right fun k _ hk => (hc k hk).symm
  | cons t ts ih =>
    refine kwp_seq (kwp_transaction h (hts t List.mem_cons_self) hc fun d dirty hd =>
      hC d dirty ?_) ?_
    · rcases hd with hd | hd
      · exact ⟨0, Nat.zero_le _, hd⟩
      · exact ⟨1, by simp, hd⟩
    · rintro - a₁ fm₁ ⟨rfl, h₁, hc₁⟩
      refine ih h₁ (fun t' ht' => hts t' (List.mem_cons_of_mem _ ht')) hc₁
        fun d dirty hd => hC d dirty ?_
      obtain ⟨j, hj, hd⟩ := hd
      exact ⟨j + 1, by simpa using hj, hd⟩

end

/-! ## Crashes -/

/-- The kernel after a boot on the given drives, when `initlog` has read the superblock. -/
def LogArea.boot (g : LogArea) (havedisk1 : Bool) (fm : FsMem) (d : BufRef → Block) :
    Machine × FsMem :=
  (binit d havedisk1 (g.log .empty), fm)

/-- The kernel boots on drives with contents `d`, and `recover_from_log` is interrupted when
they hold `d'`. -/
def LogArea.CrashInRecovery (g : LogArea) (havedisk1 : Bool) (fm : FsMem)
    (d d' : BufRef → Block) : Prop :=
  ∃ s, Prog.Visits kernelHandler recoverFromLog (g.boot havedisk1 fm d) s ∧ s.1.disk = d'

section

variable {g : LogArea} {havedisk1 : Bool} {fm : FsMem}

lemma LogArea.Recovers.crashes {c d d' : BufRef → Block} (hpres : g.dev ≠ 0 → havedisk1 = true)
    (h : g.Recovers d c)
    (hcrash : Relation.ReflTransGen (g.CrashInRecovery havedisk1 fm) d d') : g.Recovers d' c := by
  induction hcrash with
  | refl => exact h
  | tail _ hstep ih =>
    obtain ⟨s, hs, rfl⟩ := hstep
    obtain ⟨d₁, -, hd₁, hsame⟩ := kwp_kernel_visits
      (kwp_recoverFromLog (C := fun d _ => g.Recovers d c) hpres ih fun _ h _ => h) (fun _ _ => id)
      (Plays.init _ _ _) hs
    exact hd₁.congr hsame

lemma LogArea.Recovers.recover {c d : BufRef → Block} (hpres : g.dev ≠ 0 → havedisk1 = true)
    (h : g.Recovers d c) :
    ∃ s, recoverFromLog.run kernelHandler (g.boot havedisk1 fm d) = .ok () s ∧
      headerN (s.1.disk g.header) = 0 ∧
      ∀ k : BufRef, k.dev < 2 → ¬ g.Mem k → s.1.disk k = c k := by
  have hkwp : kwp (fun d _ => g.Recovers d c) _ recoverFromLog _ _ fm :=
    kwp_recoverFromLog hpres h fun _ h _ => h
  rcases kwp_kernel hkwp (fun _ _ => id) (Plays.init _ _ _) with
    ⟨r, a, m, fm', hr, hplays, rfl, hrest, hc⟩ | ⟨x, a, s, -, hx, -⟩
  · refine ⟨(m, fm'), hr, ?_, fun k hk hm => ?_⟩
    · rw [hplays.disk _ g.dev_lt]
      exact hrest.header
    · rw [hplays.disk k hk, hc k hk hm]
  · exact hx.elim

/-- **Crash atomicity and durability of the redo log.**  `done` are the transactions whose
`end_op` has returned, the crash hits while those of `rest` run, and interrupted recoveries
take the drives to `d`. -/
theorem crash_atomic (g : LogArea) (havedisk1 : Bool) (fm : FsMem)
    (hpres : g.dev ≠ 0 → havedisk1 = true) (d₀ : BufRef → Block)
    (hzero : headerN (d₀ g.header) = 0) (done rest : List (List Update))
    (hout : ∀ t ∈ done ++ rest, g.Avoids t) (s₁ s : Machine × FsMem)
    (hdone : (transactions g.dev done).run kernelHandler (g.boot havedisk1 fm d₀) = .ok () s₁)
    (hcrash : Prog.Visits kernelHandler (transactions g.dev rest) s₁ s) (d : BufRef → Block)
    (hrec : Relation.ReflTransGen (g.CrashInRecovery havedisk1 fm) s.1.disk d) :
    ∃ s', recoverFromLog.run kernelHandler (g.boot havedisk1 fm d) = .ok () s' ∧
      headerN (s'.1.disk g.header) = 0 ∧
      ∃ j ≤ rest.length, ∀ k : BufRef, k.dev < 2 → ¬ g.Mem k →
        s'.1.disk k = contentsAfterAll g.dev d₀ (done ++ rest.take j) k := by
  have hstray : ∀ (_ : Account) (_ : FsMem), ¬ ((Halt.stray : Halt) ≠ .stray) :=
    fun _ _ h => h rfl
  have hboot := LogArea.rests_init hpres hzero
  -- the transactions of `done` have returned
  have hkwp : kwp (fun _ _ => True) _ (transactions g.dev done) _ _ fm :=
    kwp_transactions hboot (fun t ht => hout t (List.mem_append_left _ ht)) (fun _ _ => rfl)
      fun _ _ _ => trivial
  rcases kwp_kernel hkwp hstray (Plays.init _ _ _) with
    ⟨r, a₁, m₁, fm₁, hr, hplays, rfl, hrest, hc⟩ | ⟨x, a₁, t, ht, -⟩
  swap
  · exact nomatch hdone.symm.trans ht
  obtain ⟨-, rfl⟩ := EStateM.Result.ok.inj (hdone.symm.trans hr)
  -- those of `rest` are interrupted
  obtain ⟨d₂, -, ⟨j, hj, hd₂⟩, hsame⟩ := kwp_kernel_visits (kwp_transactions
    (C := fun d _ => ∃ j ≤ rest.length, g.Recovers d (contentsAfterAll g.dev _ (rest.take j)))
    hrest (fun t ht => hout t (List.mem_append_right _ ht)) hc fun _ _ h => h) hstray hplays hcrash
  obtain ⟨s', hs', hzero', hcont⟩ := ((hd₂.congr hsame).crashes hpres hrec).recover hpres
  refine ⟨s', hs', hzero', j, hj, fun k hk hm => ?_⟩
  rw [hcont k hk hm, contentsAfterAll, contentsAfterAll, ← List.foldl_append]
  rfl

/-- The log area that `mkfs` lays out. -/
def mkfsLogArea : LogArea := ⟨1, 2, 30, by norm_num, by norm_num, by norm_num⟩

/-- Block 100 is filled. -/
def fillOne : List (List Update) := [[⟨100, fun _ _ => 1⟩]]

/-- Blocks 100 and 101 are filled. -/
def fillTwo : List (List Update) := [[⟨100, fun _ _ => 2⟩, ⟨101, fun _ _ => 2⟩]]

/-- The first byte of a block on the second drive. -/
def firstByte (s : Machine × FsMem) (b : ℕ) : UInt8 := (s.1.disk ⟨1, b⟩).get 0

/-- The second transaction has written its header, and neither of its blocks. -/
def Committed (s : Machine × FsMem) : Prop :=
  headerN (s.1.disk mkfsLogArea.header) = 2 ∧ firstByte s 100 = 1 ∧ firstByte s 101 = 0

/-- The recovery has written one of the blocks. -/
def HalfInstalled (s : Machine × FsMem) : Prop :=
  headerN (s.1.disk mkfsLogArea.header) = 2 ∧ firstByte s 100 = 2 ∧ firstByte s 101 = 0

instance : DecidablePred Committed := fun _ => inferInstanceAs (Decidable (_ ∧ _))

instance : DecidablePred HalfInstalled := fun _ => inferInstanceAs (Decidable (_ ∧ _))

/-- The power fails while the second transaction commits, and again in the recovery. -/
theorem crash_atomic_twice : ∃ s₁ s t s',
    (transactions 1 fillOne).run kernelHandler
      (mkfsLogArea.boot true (.boot []) fun _ => Bytes.zero) = .ok () s₁ ∧
    Prog.Visits kernelHandler (transactions 1 fillTwo) s₁ s ∧ Committed s ∧
    Prog.Visits kernelHandler recoverFromLog (mkfsLogArea.boot true (.boot []) s.1.disk) t ∧
    HalfInstalled t ∧
    recoverFromLog.run kernelHandler (mkfsLogArea.boot true (.boot []) t.1.disk) = .ok () s' ∧
    headerN (s'.1.disk mkfsLogArea.header) = 0 ∧
    ∃ j ≤ 1, ∀ k : BufRef, k.dev < 2 → ¬ mkfsLogArea.Mem k →
      s'.1.disk k = contentsAfterAll 1 (fun _ => Bytes.zero) (fillOne ++ fillTwo.take j) k := by
  have heval : Prog.wp kernelHandler (fun _ _ => False) (transactions 1 fillOne) (fun _ s₁ =>
      let s := Prog.after kernelHandler 42 (transactions 1 fillTwo) s₁
      Committed s ∧ HalfInstalled (Prog.after kernelHandler 20 recoverFromLog
        (mkfsLogArea.boot true (.boot []) s.1.disk)))
      (mkfsLogArea.boot true (.boot []) fun _ => Bytes.zero) := by
    decide +kernel
  obtain ⟨_, s₁, hrun, hcommitted, hhalf⟩ := Prog.exists_ok_of_wp heval
  have hs := Prog.visits_after (h := kernelHandler) 42 (transactions 1 fillTwo) s₁
  have ht := Prog.visits_after (h := kernelHandler) 20 recoverFromLog
    (mkfsLogArea.boot true (.boot [])
    (Prog.after kernelHandler 42 (transactions 1 fillTwo) s₁).1.disk)
  obtain ⟨s', hs', hzero, hcont⟩ := crash_atomic mkfsLogArea true (.boot []) (fun _ => rfl)
    (fun _ => Bytes.zero) (by simp [headerN, Bytes.le_zero]) fillOne fillTwo
    (by simp [LogArea.Avoids, LogArea.Mem, mkfsLogArea, fillOne, fillTwo]) s₁ _ hrun hs _
    (.single ⟨_, ht, rfl⟩)
  exact ⟨s₁, _, _, s', hrun, hs, hcommitted, ht, hhalf, hs', hzero, hcont⟩

end

end Xv6
