import Xv6.Log.Transaction
import Xv6.Sched.Grip

/-!
# Operations that overlap

Several processes run file-system operations, `begin_op`, modifications, `end_op`, and the timer
may switch between them at any step.  The design comment of `log.c` asks that a commit happens
only when no operation is half done.  `begin_op` does nothing, so the log does not see to that;
it is up to the processes.

An operation is *engaged* from its first change of a buffer to the return of its `end_op`.
`commit_whole` says that the log keeps its promises in every run in which at most one operation
is engaged: a header on the drive never lists a block of an operation that has not reached
`end_op`, and `install_trans` copies nothing but what `write_log` has put into a slot for the
same header.  `half_done_commit` is a run of two processes in which the drive gets a header that
lists the block of an operation in its middle.
-/

namespace Xv6

open Lib

/-! ## Processes that run operations -/

/-- The two halves of an operation. -/
inductive LogCall
  /-- `begin_op()` and the modifications. -/
  | body (us : List Update)
  /-- `end_op()`. -/
  | ending

/-- The calls of a process that runs operations one after another. -/
def logCalls (ops : List (List Update)) : List LogCall :=
  ops.flatMap fun us => [.body us, .ending]

/-- The code of a call. -/
def logCode (dev : ℕ) : LogCall → K Unit
  | .body us => do
    beginOp
    modifyAll dev us
  | .ending => endOp

/-- The process is in an operation that has not reached `end_op`. -/
def Process.Open (p : Process LogCall Unit) : Prop :=
  (∃ us code, p.cur = some (.body us, code)) ∨ p.cur = none ∧ ∃ cs, p.todo = .ending :: cs

/-- The step changes a buffer or adds a block to the log. -/
def BioOp.Modifies : BioOp → Prop
  | .store _ _ | .logAdd _ => True
  | _ => False

/-- Between its first change of a buffer and the return of its `end_op`. -/
def Engaged {ι : Type} (proc : ι → Process LogCall Unit) (h : List (Event ι LogCall Unit))
    (i : ι) : Prop :=
  (∃ code, (proc i).cur = some (.ending, code)) ∨
  (proc i).Open ∧ ∃ e old new, e.Modifies ∧ .did i (proc i).calls e old new ∈ h

/-- While an operation is engaged, no other process changes a buffer or enters `end_op`. -/
def OneEngaged {ι : Type} (s : Sys ι LogCall Unit) (h : List (Event ι LogCall Unit))
    (l : Label ι) : Prop :=
  ∀ i j, j ≠ i → Engaged s.proc h j →
    (∀ c k f code, l = .go i → (s.proc i).cur ≠ some (c, .op (.inl (.store k f)) code)) ∧
    (∀ cs, l = .call i → (s.proc i).todo ≠ .ending :: cs)

/-- The event changes the block or the header of the log. -/
def Event.Disturbs {ι κ ρ : Type} (k : BufRef) : Event ι κ ρ → Prop
  | .did _ _ (.store b _) _ _ | .did _ _ (.copy b _) _ _ => b = k
  | .did _ _ (.logAdd _) _ _ | .did _ _ (.setLog _) _ _ => True
  | _ => False

/-- Call `n` of process `i` has filled the slot `src` from the block `dst`, and neither the slot
nor the header has changed since. -/
def Logged {ι κ ρ : Type} (h : List (Event ι κ ρ)) (i : ι) (n : ℕ) (src dst : BufRef) : Prop :=
  ∃ h₁ h₂ old new, h = h₁ ++ .did i n (.copy src dst) old new :: h₂ ∧ ∀ ev ∈ h₁, ¬ ev.Disturbs src

lemma Logged.cons {ι κ ρ : Type} {h : List (Event ι κ ρ)} {i : ι} {n : ℕ} {src dst : BufRef}
    {ev : Event ι κ ρ} (hl : Logged h i n src dst) (hev : ¬ ev.Disturbs src) :
    Logged (ev :: h) i n src dst := by
  obtain ⟨h₁, h₂, old, new, rfl, hd⟩ := hl
  refine ⟨ev :: h₁, h₂, old, new, rfl, fun ev' hev' => ?_⟩
  rcases List.mem_cons.mp hev' with rfl | hev'
  · exact hev
  · exact hd ev' hev'

/-- What the design comment of `log.c` asks for: a header on the drive lists no block of an
operation that has not reached `end_op`, and what is copied from a slot to a home block was put
there from that block, for the same header. -/
def WholeCommits {ι : Type} (g : LogArea) (s : Sys ι LogCall Unit)
    (h : List (Event ι LogCall Unit)) : Prop :=
  (∀ t < headerN (s.m.disk g.header), ∀ i, (s.proc i).Open → ∀ k old new,
    .did i (s.proc i).calls (.logAdd k) old new ∈ h →
      k.blockno ≠ headerBlock (s.m.disk g.header) t) ∧
  ∀ i c dst src code, (s.proc i).cur = some (c, .op (.inl (.copy dst src)) code) →
    g.Mem src → ¬ g.Mem dst → Logged h i (s.proc i).calls src dst

/-! ## The code holds what it uses -/

/-- A loop over the header, for a monitor that takes no notice of reading `log`. -/
lemma obeys_forLog {L : Type} {M : Monitor (BioOp ⊕ MemOp) (Sum.elim BioOp.Ret MemOp.Ret) L}
    {body : ℕ → K Unit} (I : ℕ → L → Prop)
    (hlog : ∀ i l, I i l → M.ok l (.inl .log) ∧ ∀ r, M.next l (.inl .log) r = l)
    (hbody : ∀ i l r, I i l → M.ans l (.inl .log) r → i < (Log.lh r).n →
      (body i).Obeys M (fun _ => I (i + 1)) l)
    {turns tail : ℕ} {l : L} (h0 : I tail l) :
    (forLog body turns tail).Obeys M (fun _ l' => ∃ j, I j l' ∧
      (j = tail + turns ∨ ∃ r, M.ans l' (.inl .log) r ∧ (Log.lh r).n ≤ j)) l := by
  induction turns generalizing tail l with
  | zero => exact ⟨tail, h0, Or.inl rfl⟩
  | succ turns ih =>
    obtain ⟨hok, hnext⟩ := hlog tail l h0
    refine ⟨hok, fun r hr => ?_⟩
    rw [hnext]
    show Prog.Obeys M (if tail < (Log.lh r).n then _ else _) _ _
    split
    · rename_i hlt
      refine (hbody tail l r h0 hr hlt).seq fun _ l' h' => (ih h').mono ?_
      rintro - l'' ⟨j, hj, hend⟩
      exact ⟨j, hj, hend.imp_left fun h => by omega⟩
    · rename_i hge
      exact ⟨tail, h0, Or.inr ⟨r, hr, Nat.not_lt.mp hge⟩⟩

lemma grip_forLog {body : ℕ → K Unit} {I : Grip → Prop} {turns tail : ℕ} {l : Grip}
    (hbody : ∀ i l, I l → (body i).Obeys grip (fun _ => I) l) (h0 : I l) :
    (forLog body turns tail).Obeys grip (fun _ => I) l :=
  (obeys_forLog (fun _ => I) (fun _ _ _ => ⟨trivial, fun _ => rfl⟩)
    (fun i l _ hl _ _ => hbody i l hl) h0).mono fun _ _ h => h.choose_spec.1

lemma Neat.forLog {body : ℕ → K Unit} (hbody : ∀ i, Neat (body i)) (turns tail : ℕ) :
    Neat (forLog body turns tail) := by
  intro l hl
  refine grip_forLog (I := fun l' => l'.held = l.held ∧ l'.pend ⊆ l.pend) (fun i l' h' => ?_)
    ⟨rfl, subset_rfl⟩
  have hl' : l'.Firm := fun k hk => h'.1 ▸ hl k (h'.2 hk)
  exact (hbody i l' hl').mono fun _ l'' h'' => ⟨h''.1.trans h'.1, h''.2.trans h'.2⟩

/-- Two buffers, the first of which is filled from the second or the other way round, written
and given up. -/
lemma neat_transfer {dev b : ℕ} {c : Log → ℕ} {f : BufRef → BufRef → K Unit}
    (hf : ∀ (k k' : BufRef) (l : Grip), l.Firm → (f k k').Obeys grip
      (fun _ l' => l'.held = l.held ∧ l'.pend ⊆ l.pend) { l with held := k' :: k :: l.held }) :
    Neat (bread dev b >>= fun k => Xv6.getLog >>= fun log => bread log.dev (c log) >>= f k) := by
  intro l hl
  refine grip_bread (grip_bio trivial fun log => grip_bread ?_)
  exact hf _ _ l hl

lemma neat_installBlock (tail : ℕ) : Neat (installBlock tail) := by
  refine Neat.getLog.bind fun log => neat_transfer fun k k' l hl => ?_
  refine grip_bio (e := .copy k' k) ⟨by simp, by simp⟩ fun _ => ?_
  refine grip_bio (e := .bwrite k') (by simp [Grip.Ok, Grip.next]) fun _ => ?_
  refine grip_bio (e := .brelse k) ⟨by simp [Grip.next], fun hk => ?_⟩ fun _ => ?_
  · simp only [Grip.next, Finset.erase_insert_eq_erase, Finset.mem_erase] at hk
    have hheld := hl k hk.2
    simp [Grip.next, hk.1.symm, hheld]
  · refine grip_last (e := .brelse k') ⟨?_, fun hk => ?_⟩ fun _ => ⟨?_, ?_⟩
    · by_cases hkk : k' = k <;> simp [Grip.next, hkk]
    · simp [Grip.next] at hk
    · by_cases hkk : k' = k <;> simp [Grip.next, hkk]
    · simp only [Grip.next, Finset.erase_insert_eq_erase]
      exact Finset.erase_subset _ _

lemma neat_logBlock (tail : ℕ) : Neat (logBlock tail) := by
  refine Neat.getLog.bind fun log => neat_transfer fun k k' l hl => ?_
  refine grip_bio (e := .copy k k') ⟨by simp, by simp⟩ fun _ => ?_
  refine grip_bio (e := .bwrite k) (by simp [Grip.Ok, Grip.next]) fun _ => ?_
  refine grip_bio (e := .brelse k') ⟨by simp [Grip.next], fun hk => ?_⟩ fun _ => ?_
  · simp only [Grip.next, Finset.erase_insert_eq_erase, Finset.mem_erase] at hk
    simp [Grip.next, hl k' hk.2]
  · refine grip_last (e := .brelse k) ⟨by simp [Grip.next], fun hk => ?_⟩ fun _ => ⟨?_, ?_⟩
    · simp [Grip.next] at hk
    · simp [Grip.next]
    · simp only [Grip.next, Finset.erase_insert_eq_erase]
      exact Finset.erase_subset _ _

lemma grip_fillHead (l : Grip) :
    fillHead.Obeys grip (fun k l' => l'.held = k :: l.held ∧ l'.pend ⊆ insert k l.pend) l := by
  refine grip_bio (e := .log) trivial fun log => grip_bread (grip_bio (e := .log) trivial
    fun log' => grip_bio (e := .store _ _) (by simp [Grip.Ok, Grip.next]) fun _ => ?_)
  refine (grip_forLog (I := fun l' => l'.held = ⟨log.dev, log.start⟩ :: l.held ∧
    l'.pend ⊆ insert ⟨log.dev, log.start⟩ l.pend) (fun i l' h' => ?_)
      ⟨rfl, subset_rfl⟩).seq fun _ l' h' => ⟨h'.1, h'.2⟩
  refine grip_bio (e := .log) trivial fun _ => grip_last (e := .store _ _) ?_ fun _ => ⟨h'.1, ?_⟩
  · show _ ∈ l'.held
    rw [h'.1]
    exact List.mem_cons_self
  · exact Finset.insert_subset (Finset.mem_insert_self _ _) h'.2

lemma neat_writeHead : Neat writeHead := by
  intro l hl
  refine (grip_fillHead l).seq fun k l' h' => ?_
  obtain ⟨hheld, hpend⟩ := h'
  have hpend' : l'.pend.erase k ⊆ l.pend := Finset.subset_insert_iff.mp hpend
  refine grip_bio (e := .bwrite k) (by simp [Grip.Ok, hheld]) fun _ => ?_
  refine grip_last (e := .brelse k) ⟨by simp [Grip.next, hheld], fun hk => ?_⟩ fun _ => ⟨?_, ?_⟩
  · exact absurd rfl (Finset.mem_erase.mp hk).1
  · simp [Grip.next, hheld]
  · exact hpend'

lemma neat_endOp : Neat endOp := by
  refine Neat.getLog.bind fun log => ?_
  split
  · exact (Neat.forLog neat_logBlock _ _).bind fun _ => neat_writeHead.bind fun _ =>
      (Neat.forLog neat_installBlock _ _).bind fun _ => (Neat.setLog _).bind fun _ =>
        neat_writeHead
  · exact Neat.pure ()

lemma neat_modify (dev : ℕ) (u : Update) : Neat (modify dev u) := by
  intro l hl
  refine grip_bread (grip_bio (e := .store _ _) (by simp [Grip.Ok]) fun _ => ?_)
  refine grip_bio (e := .logAdd _) (by simp [Grip.Ok, Grip.next]) fun _ => ?_
  refine grip_bio (e := .markDirty _) (by simp [Grip.Ok, Grip.next]) fun _ => ?_
  refine grip_last (e := .brelse _) ⟨by simp [Grip.next], fun hk => ?_⟩ fun _ => ⟨?_, ?_⟩
  · simp [Grip.next] at hk
  · simp [Grip.next]
  · simp only [Grip.next, Finset.erase_insert_eq_erase]
    exact Finset.erase_subset _ _

lemma neat_logCode (dev : ℕ) (c : LogCall) : Neat (logCode dev c) := by
  cases c with
  | body us =>
    show Neat (modifyAll dev us)
    induction us with
    | nil => exact Neat.pure ()
    | cons u us ih => exact (neat_modify dev u).bind fun _ => ih
  | ending => exact neat_endOp

/-! ## What the code does to the log -/

/-- What a body may do; the state says whether it has changed a buffer. -/
def bodyMonitor (g : LogArea) :
    Monitor (BioOp ⊕ MemOp) (Sum.elim BioOp.Ret MemOp.Ret) Bool where
  ok l
    | .inl (.bread k) => k.dev = g.dev ∧ k.blockno < FSSIZE
    | .inl (.store _ _) => True
    | .inl (.logAdd k) => l = true ∧ k.dev = g.dev ∧ k.blockno < FSSIZE ∧ ¬ g.Mem k
    | .inl (.markDirty _) | .inl (.brelse _) => l = true
    | _ => False
  ans _ _ _ := True
  next l e _ :=
    match e with
    | .inl (.store _ _) => true
    | _ => l

/-- The updates of an operation are of blocks of the drive outside the log. -/
def LogArea.Admits (g : LogArea) (us : List Update) : Prop :=
  ∀ u ∈ us, u.blockno < FSSIZE ∧ ¬ g.Mem ⟨g.dev, u.blockno⟩

lemma body_obeys {g : LogArea} {us : List Update} (hus : g.Admits us) (b : Bool) :
    (modifyAll g.dev us).Obeys (bodyMonitor g) (fun _ _ => True) b := by
  induction us generalizing b with
  | nil => trivial
  | cons u us ih =>
    obtain ⟨hlt, hout⟩ := hus u List.mem_cons_self
    have hrest := ih fun v hv => hus v (List.mem_cons_of_mem u hv)
    refine ⟨⟨rfl, hlt⟩, fun _ _ => ⟨trivial, fun _ _ => ⟨⟨rfl, rfl, hlt, hout⟩, fun _ _ => ?_⟩⟩⟩
    exact ⟨rfl, fun _ _ => ⟨rfl, fun _ _ => hrest true⟩⟩

/-- The log as its committer sees it: the header in memory, the header block in the cache and on
the drive, and the block each block was last filled from. -/
structure CommitView where
  lh : LogHeader
  head : Block
  drive : Block
  src : BufRef → Option BufRef

/-- What a commit may do. -/
def commitMonitor (g : LogArea) :
    Monitor (BioOp ⊕ MemOp) (Sum.elim BioOp.Ret MemOp.Ret) CommitView where
  ok l
    | .inl (.bread k) => k.dev = g.dev ∧ k.blockno < FSSIZE
    | .inl (.copy dst src) => dst ≠ g.header ∧ (¬ g.Mem dst → l.src src = some dst)
    | .inl (.setLog f) => f (g.log l.lh) = g.log (f (g.log l.lh)).lh
    | .inl (.logAdd _) | .inr _ => False
    | _ => True
  ans
    | l, .inl .log, r => r = g.log l.lh
    | _, _, _ => True
  next l e _ :=
    match e with
    | .inl (.store k f) => { l with
        head := if k = g.header then f l.head else l.head
        src := Function.update l.src k none }
    | .inl (.copy dst src) => { l with src := Function.update l.src dst (some src) }
    | .inl (.bwrite k) => { l with drive := if k = g.header then l.head else l.drive }
    | .inl (.setLog f) => { l with lh := (f (g.log l.lh)).lh, src := fun _ => none }
    | _ => l

section Commit

variable {g : LogArea} {lh : LogHeader} {l : CommitView}

/-- The first `j` slots are filled from their home blocks. -/
def CommitView.Filled (g : LogArea) (lh : LogHeader) (j : ℕ) (l : CommitView) : Prop :=
  l.lh = lh ∧ ∀ t < j, l.src (g.slot t) = some (g.home lh t)

lemma logBlock_obeys (hlist : g.Listed lh) {i : ℕ} (hi : i < lh.n) (hl : l.Filled g lh i) :
    (logBlock i).Obeys (commitMonitor g) (fun _ => CommitView.Filled g lh (i + 1)) l := by
  obtain ⟨rfl, hsrc⟩ := hl
  have hmem : g.Mem (g.slot i) := LogArea.mem_slot (by have := hlist.room; omega)
  have hlt : (g.slot i).blockno < FSSIZE := by
    have := hmem.2.2
    have := g.fits
    omega
  refine ⟨trivial, fun log hlog => ?_⟩
  obtain rfl : log = g.log l.lh := hlog
  refine ⟨⟨rfl, hlt⟩, fun _ _ => ⟨trivial, fun log hlog => ?_⟩⟩
  obtain rfl : log = g.log l.lh := hlog
  refine ⟨⟨rfl, hlist.range i hi⟩, fun _ _ => ⟨⟨LogArea.slot_ne_header, fun hn => ?_⟩, ?_⟩⟩
  · exact absurd hmem hn
  · refine fun _ _ => ⟨trivial, fun _ _ => ⟨trivial, fun _ _ => ⟨trivial, fun _ _ => ⟨rfl, ?_⟩⟩⟩⟩
    intro t ht
    show Function.update l.src (g.slot i) (some (g.home l.lh i)) (g.slot t) = _
    by_cases hti : t = i
    · rw [hti, Function.update_self]
    · rw [Function.update_of_ne fun he => hti (LogArea.slot_injective he)]
      exact hsrc t (by omega)

lemma installBlock_obeys (hlist : g.Listed lh) {i : ℕ} (hi : i < lh.n) (hl : l.Filled g lh lh.n) :
    (installBlock i).Obeys (commitMonitor g) (fun _ => CommitView.Filled g lh lh.n) l := by
  obtain ⟨rfl, hsrc⟩ := hl
  have hmem : ∀ t < l.lh.n, g.Mem (g.slot t) := fun t ht =>
    LogArea.mem_slot (by have := hlist.room; omega)
  have hout := hlist.outside i hi
  have hlt : (g.slot i).blockno < FSSIZE := by
    have := (hmem i hi).2.2
    have := g.fits
    omega
  refine ⟨trivial, fun log hlog => ?_⟩
  obtain rfl : log = g.log l.lh := hlog
  refine ⟨⟨rfl, hlt⟩, fun _ _ => ⟨trivial, fun log hlog => ?_⟩⟩
  obtain rfl : log = g.log l.lh := hlog
  refine ⟨⟨rfl, hlist.range i hi⟩, fun _ _ => ⟨⟨LogArea.ne_header hout, fun _ => hsrc i hi⟩, ?_⟩⟩
  refine fun _ _ => ⟨trivial, fun _ _ => ⟨trivial, fun _ _ => ⟨trivial, fun _ _ => ⟨rfl, ?_⟩⟩⟩⟩
  intro t ht
  have hne : g.slot t ≠ g.home l.lh i := fun he => hout (he ▸ hmem t ht)
  exact (Function.update_of_ne hne _ _).trans (hsrc t ht)

/-- `write_head` puts the count of the header on the drive and leaves the slots alone. -/
lemma writeHead_obeys (hlist : g.Listed lh) {j : ℕ} (hl : l.Filled g lh j) :
    writeHead.Obeys (commitMonitor g)
      (fun _ l' => l'.Filled g lh j ∧ headerN l'.drive = lh.n) l := by
  obtain ⟨rfl, hsrc⟩ := hl
  have hn : l.lh.n < 2 ^ 31 := lt_of_le_of_lt hlist.count (by norm_num)
  have hlt : g.header.blockno < FSSIZE := by
    have := g.fits
    have := g.size_pos
    show g.start < FSSIZE
    omega
  have hkeep : ∀ {f : BufRef → Option BufRef}, (∀ t < j, f (g.slot t) = some (g.home l.lh t)) →
      ∀ t < j, Function.update f g.header none (g.slot t) = some (g.home l.lh t) := fun hf t ht =>
    (Function.update_of_ne LogArea.slot_ne_header _ _).trans (hf t ht)
  refine Prog.Obeys.seq (J := fun k l' => k = g.header ∧ CommitView.Filled g l.lh j l' ∧
    headerN l'.head = l.lh.n) ?_ ?_
  · refine obeys_bio (e := .log) trivial fun log hlog => ?_
    obtain rfl : log = g.log l.lh := hlog
    refine obeys_bread ⟨rfl, hlt⟩ fun _ _ => obeys_bio (e := .log) trivial fun log hlog => ?_
    obtain rfl : log = g.log l.lh := hlog
    refine obeys_bio (e := .store _ _) trivial fun _ _ => ?_
    -- the loop keeps the count that was stored in front of it
    refine Prog.Obeys.seq (J := fun _ l' => CommitView.Filled g l.lh j l' ∧
      headerN l'.head = l.lh.n) ?_ fun _ l' h' => ⟨rfl, h'⟩
    refine (obeys_forLog (fun _ l' => CommitView.Filled g l.lh j l' ∧ headerN l'.head = l.lh.n)
      ?_ ?_ ?_).mono fun _ _ h => h.choose_spec.1
    · exact fun _ _ _ => ⟨trivial, fun _ => rfl⟩
    · rintro i l' - ⟨⟨hlh, hsrc'⟩, hcount⟩ - -
      refine ⟨trivial, fun log _ => ⟨trivial, fun _ _ => ⟨⟨hlh, hkeep hsrc'⟩, ?_⟩⟩⟩
      show headerN (if g.header = g.header then _ else _) = _
      rw [if_pos rfl, headerN_putHeaderBlock]
      exact hcount
    · refine ⟨⟨rfl, hkeep hsrc⟩, ?_⟩
      show headerN (if g.header = g.header then _ else _) = _
      rw [if_pos rfl]
      exact headerN_putHeaderN hn _
  · rintro k l' ⟨rfl, hfill, hcount⟩
    refine ⟨trivial, fun _ _ => ⟨trivial, fun _ _ => ⟨hfill, ?_⟩⟩⟩
    show headerN (if g.header = g.header then _ else _) = _
    rwa [if_pos rfl]

/-- **`end_op` alone on the log** copies to home blocks what it has put into their slots, and
leaves the log empty. -/
lemma endOp_obeys (hlist : g.Listed l.lh) (hdrive : headerN l.drive = 0) :
    endOp.Obeys (commitMonitor g) (fun _ l' => l'.lh.n = 0 ∧ headerN l'.drive = 0) l := by
  generalize hlh : l.lh = lh at hlist
  have hloop : ∀ {j : ℕ} {l' : CommitView}, l'.lh = lh → (j = 0 + INTTURNS ∨
      ∃ r, (commitMonitor g).ans l' (.inl .log) r ∧ (Log.lh r).n ≤ j) → lh.n ≤ j := by
    rintro j l' hl' (rfl | ⟨r, hr, hle⟩)
    · exact hlist.turns
    · obtain rfl : r = g.log l'.lh := hr
      rwa [hl'] at hle
  refine ⟨trivial, fun log hlog => ?_⟩
  obtain rfl : log = g.log l.lh := hlog
  show Prog.Obeys _ (if l.lh.n > 0 then _ else _) _ l
  split
  swap
  · exact ⟨by omega, hdrive⟩
  refine Prog.Obeys.seq (J := fun _ => CommitView.Filled g lh lh.n) ?_ fun _ l₁ h₁ => ?_
  · refine (obeys_forLog (fun j l' => j ≤ lh.n ∧ CommitView.Filled g lh j l')
      (fun _ _ _ => ⟨trivial, fun _ => rfl⟩) ?_ ⟨Nat.zero_le _, hlh, ?_⟩).mono ?_
    · rintro i l' r ⟨-, hfill⟩ hr hlt
      obtain rfl : r = g.log l'.lh := hr
      have hi : i < lh.n := hfill.1 ▸ hlt
      exact (logBlock_obeys hlist hi hfill).mono fun _ _ h => ⟨hi, h⟩
    · intro t ht
      exact absurd ht (Nat.not_lt_zero t)
    · rintro - l' ⟨j, ⟨hj, hfill⟩, hend⟩
      rwa [le_antisymm hj (hloop hfill.1 hend)] at hfill
  refine (writeHead_obeys hlist h₁).seq fun _ l₂ h₂ => ?_
  refine Prog.Obeys.seq (J := fun _ => CommitView.Filled g lh lh.n) ?_ fun _ l₃ h₃ => ?_
  · refine (obeys_forLog (fun _ => CommitView.Filled g lh lh.n)
      (fun _ _ _ => ⟨trivial, fun _ => rfl⟩) ?_ h₂.1).mono fun _ _ h => h.choose_spec.1
    intro i l' r hfill hr hlt
    obtain rfl : r = g.log l'.lh := hr
    exact installBlock_obeys hlist (hfill.1 ▸ hlt) hfill
  refine ⟨rfl, fun _ _ => ?_⟩
  have hzero : g.Listed { lh with n := 0 } := LogArea.listed_zero rfl
  refine (writeHead_obeys (j := 0) hzero ⟨?_, fun t ht => absurd ht (Nat.not_lt_zero t)⟩).mono ?_
  · show ({ l₃.lh with n := 0 } : LogHeader) = { lh with n := 0 }
    rw [h₃.1]
  · rintro - l' ⟨⟨hlh', -⟩, hcount⟩
    exact ⟨by rw [hlh'], hcount⟩

end Commit

/-! ## The invariant -/

section Invariant

variable {ι : Type} {g : LogArea}

/-- The calls a process has yet to make fit the one it is in. -/
def LogArea.Aligned (g : LogArea) (p : Process LogCall Unit) : Prop :=
  ∃ ops : List (List Update), (∀ us ∈ ops, g.Admits us) ∧
    match p.cur with
    | none => p.todo = logCalls ops ∨ p.todo = .ending :: logCalls ops
    | some (.body _, _) => p.todo = .ending :: logCalls ops
    | some (.ending, _) => p.todo = logCalls ops

/-- The view of the committer, who is in call `n` of process `i`, is right: it sees the log as it
is, and what it takes for the source of a slot has been logged. -/
structure CommitView.Right (g : LogArea) (a : Account) (h : List (Event ι LogCall Unit)) (i : ι)
    (n : ℕ) (l : CommitView) : Prop where
  log : a.log = g.log l.lh
  head : a.mem g.header = l.head
  drive : a.disk g.header = l.drive
  src : ∀ src dst, l.src src = some dst → Logged h i n src dst

/-- Process `i` is in `end_op`, with `p` to run. -/
def LogArea.Commits (g : LogArea) (P : Pool ι LogCall Unit) (h : List (Event ι LogCall Unit))
    (i : ι) (p : K Unit) : Prop :=
  ∃ l : CommitView,
    p.Obeys (commitMonitor g) (fun _ l' => l'.lh.n = 0 ∧ headerN l'.drive = 0) l ∧
    l.Right g P.a h i (P.proc i).calls

/-- What holds along a run in which at most one operation is engaged.  Every process is where its
list of calls says and its code keeps to the monitors of its part, `body` or `ending`; and as long
as no `end_op` is under way, the header on the drive is empty and the one in memory lists what may
be listed. -/
structure LogInv [Fintype ι] (g : LogArea) (P : Pool ι LogCall Unit)
    (h : List (Event ι LogCall Unit)) : Prop where
  grip : ∃ G, P.Gripped G
  present : g.dev ≠ 0 → P.a.havedisk1 = true
  aligned : ∀ i, g.Aligned (P.proc i)
  past : ∀ i n e old new, .did i n e old new ∈ h → n ≤ (P.proc i).calls
  body : ∀ i us p, (P.proc i).cur = some (.body us, p) →
    ∃ b, p.Obeys (bodyMonitor g) (fun _ _ => True) b ∧ (b = true → Engaged P.proc h i)
  one : ∀ i j, Engaged P.proc h i → Engaged P.proc h j → i = j
  rest : (∀ i p, (P.proc i).cur ≠ some (.ending, p)) →
    (∃ lh, P.a.log = g.log lh ∧ g.Listed lh) ∧ headerN (P.a.disk g.header) = 0
  ending : ∀ i p, (P.proc i).cur = some (.ending, p) → g.Commits P h i p

lemma engaged_congr {proc proc' : ι → Process LogCall Unit} {h ev : List (Event ι LogCall Unit)}
    {i j : ι} (hproc : proc' j = proc j) (hev : ∀ x ∈ ev, x.who = i) (hj : j ≠ i) :
    Engaged proc' (ev ++ h) j ↔ Engaged proc h j := by
  have hmem : ∀ n e old new, (.did j n e old new ∈ ev ++ h ↔ .did j n e old new ∈ h) := by
    intro n e old new
    rw [List.mem_append]
    refine or_iff_right fun hx => hj ?_
    exact hev _ hx
  simp only [Engaged, hproc, hmem]

lemma Logged.append {κ ρ : Type} {h ev : List (Event ι κ ρ)} {i : ι} {n : ℕ} {src dst : BufRef}
    (hl : Logged h i n src dst) (hev : ∀ x ∈ ev, ¬ x.Disturbs src) :
    Logged (ev ++ h) i n src dst := by
  induction ev with
  | nil => exact hl
  | cons x ev ih =>
    exact (ih fun y hy => hev y (List.mem_cons_of_mem x hy)).cons (hev x List.mem_cons_self)

variable {P P' : Pool ι LogCall Unit} {h ev : List (Event ι LogCall Unit)} {i : ι}

lemma engaged_of_ending {p : K Unit} (hcur : (P.proc i).cur = some (.ending, p)) :
    Engaged P.proc h i :=
  Or.inl ⟨p, hcur⟩

lemma engaged_iff_of_body {us : List Update} {p : K Unit}
    (hcur : (P.proc i).cur = some (.body us, p)) :
    Engaged P.proc h i ↔ ∃ e old new, e.Modifies ∧ .did i (P.proc i).calls e old new ∈ h := by
  constructor
  · rintro (⟨code, hcode⟩ | ⟨-, hstore⟩)
    · exact nomatch hcur.symm.trans hcode
    · exact hstore
  · intro hstore
    exact Or.inr ⟨Or.inl ⟨us, p, hcur⟩, hstore⟩

/-- The record of a buffer step is about that step and the call it is taken in. -/
lemma eq_of_mem_record {e e' : BioOp} {a : Account} {n : ℕ} {old new : Block}
    (hx : .did i n e' old new ∈ P.record i e a) : n = (P.proc i).calls ∧ e' = e := by
  cases e with
  | bread b | bwrite b => cases hx
  | store b f | brelse b | data b | copy b c | logAdd b | markDirty b | log | setLog f =>
    cases List.mem_singleton.mp hx
    exact ⟨rfl, rfl⟩

variable [DecidableEq ι] [Fintype ι]

/-- A step of process `i` keeps the invariant if it does so for the process itself, and leaves
the log alone while another process is in `end_op`. -/
lemma LogInv.update (hinv : LogInv g P h) (hstep : P.Step (logCode g.dev) i P' ev)
    (hhd : P'.a.havedisk1 = P.a.havedisk1) (haligned : g.Aligned (P'.proc i))
    (hcalls : (P.proc i).calls ≤ (P'.proc i).calls)
    (hnow : ∀ n e old new, .did i n e old new ∈ ev → n ≤ (P'.proc i).calls)
    (hbody : ∀ us p, (P'.proc i).cur = some (.body us, p) →
      ∃ b, p.Obeys (bodyMonitor g) (fun _ _ => True) b ∧ (b = true → Engaged P'.proc (ev ++ h) i))
    (hone : Engaged P'.proc (ev ++ h) i →
      Engaged P.proc h i ∨ ∀ j ≠ i, ¬ Engaged P.proc h j)
    (hrest : (∀ j p, (P'.proc j).cur ≠ some (.ending, p)) →
      (∃ lh, P'.a.log = g.log lh ∧ g.Listed lh) ∧ headerN (P'.a.disk g.header) = 0)
    (hending : ∀ p, (P'.proc i).cur = some (.ending, p) → g.Commits P' (ev ++ h) i p)
    (hothers : ∀ j ≠ i, ∀ p, (P.proc j).cur = some (.ending, p) → P'.a.log = P.a.log ∧
      P'.a.mem g.header = P.a.mem g.header ∧ P'.a.disk g.header = P.a.disk g.header ∧
      ∀ x ∈ ev, ∀ k, ¬ x.Disturbs k) : LogInv g P' (ev ++ h) := by
  have hframe : ∀ j ≠ i, P'.proc j = P.proc j := fun j hj => hstep.proc_of_ne hj
  have heng : ∀ j ≠ i, (Engaged P'.proc (ev ++ h) j ↔ Engaged P.proc h j) := fun j hj =>
    engaged_congr (hframe j hj) (fun x hx => hstep.who hx) hj
  -- two engaged operations: the step would have to engage `i` while another one is engaged already
  have hpair : ∀ j ≠ i, Engaged P'.proc (ev ++ h) i → ¬ Engaged P'.proc (ev ++ h) j := by
    intro j hj hi hj'
    rcases hone hi with hi | hnone
    · exact hj (hinv.one j i ((heng j hj).mp hj') hi)
    · exact hnone j hj ((heng j hj).mp hj')
  constructor
  case grip =>
    obtain ⟨G, hG⟩ := hinv.grip
    exact hG.step (neat_logCode g.dev) hstep
  case present =>
    rw [hhd]
    exact hinv.present
  case aligned =>
    intro j
    by_cases hj : j = i
    · rwa [hj]
    · rw [hframe j hj]
      exact hinv.aligned j
  case past =>
    intro j n e old new hx
    by_cases hj : j = i
    · subst hj
      rcases List.mem_append.mp hx with hx | hx
      · exact hnow n e old new hx
      · exact (hinv.past j n e old new hx).trans hcalls
    · rw [hframe j hj]
      rcases List.mem_append.mp hx with hx | hx
      · exact absurd (hstep.who hx) hj
      · exact hinv.past j n e old new hx
  case body =>
    intro j us p hcur
    by_cases hj : j = i
    · subst hj
      exact hbody us p hcur
    · rw [hframe j hj] at hcur
      obtain ⟨b, hb, heb⟩ := hinv.body j us p hcur
      exact ⟨b, hb, fun hbt => (heng j hj).mpr (heb hbt)⟩
  case one =>
    intro j k hj hk
    by_cases hji : j = i
    · by_cases hki : k = i
      · rw [hji, hki]
      · exact absurd hk (hpair k hki (hji ▸ hj))
    · by_cases hki : k = i
      · exact absurd hj (hpair j hji (hki ▸ hk))
      · exact hinv.one j k ((heng j hji).mp hj) ((heng k hki).mp hk)
  case rest => exact hrest
  case ending =>
    intro j p hcur
    by_cases hj : j = i
    · subst hj
      exact hending p hcur
    · have hcur' := hcur
      rw [hframe j hj] at hcur'
      -- an `end_op` in its middle sees the log and the header unchanged, and nobody has touched its
      -- blocks
      obtain ⟨l, hobeys, hview⟩ := hinv.ending j p hcur'
      obtain ⟨hlog', hhead', hdrive', hquiet⟩ := hothers j hj p hcur'
      refine ⟨l, hobeys, hlog'.trans hview.log, hhead'.trans hview.head,
        hdrive'.trans hview.drive, fun src dst hs => ?_⟩
      rw [hframe j hj]
      exact (hview.src src dst hs).append fun x hx => hquiet x hx src

lemma LogInv.bodyStep (hinv : LogInv g P h) {us : List Update} {e : BioOp} {code : e.Ret → K Unit}
    {r : e.Ret} {a : Account} (hcur : (P.proc i).cur = some (.body us, .op (.inl e) code))
    (he : accountHandler e P.a = .ok r a)
    (hcond : ∀ k f, e = .store k f → ∀ j ≠ i, ¬ Engaged P.proc h j) :
    LogInv g { P.setProc i { P.proc i with cur := some (.body us, code r) } with a := a }
      (P.record i e a ++ h) := by
  set P' : Pool ι LogCall Unit :=
    { P.setProc i { P.proc i with cur := some (.body us, code r) } with a := a }
  have hstep : P.Step (logCode g.dev) i P' (P.record i e a) := .bio hcur he
  have hproc : P'.proc i = { P.proc i with cur := some (.body us, code r) } :=
    Function.update_self ..
  have hcur' : (P'.proc i).cur = some (.body us, code r) := by rw [hproc]
  have hcalls : (P'.proc i).calls = (P.proc i).calls := by rw [hproc]
  obtain ⟨b, ⟨hok, hnext⟩, hb⟩ := hinv.body i us _ hcur
  have hafter : a = P.a.after e := eq_after_of_ok he
  -- nobody else is in `end_op` when this process changes anything
  have halone : (∃ k, e = .bread k) ∨ ∀ j ≠ i, ¬ Engaged P.proc h j := by
    cases e with
    | bread k => exact Or.inl ⟨k, rfl⟩
    | store k f => exact Or.inr (hcond k f rfl)
    | logAdd k =>
      exact Or.inr fun j hj hj' => hj (hinv.one j i hj' (hb hok.1))
    | markDirty k | brelse k =>
      exact Or.inr fun j hj hj' => hj (hinv.one j i hj' (hb hok))
    | bwrite k | data k | copy k c | log | setLog f => exact hok.elim
  refine hinv.update hstep ?_ ?_ hcalls.ge (fun n e' old new hx => ?_) ?_ ?_ ?_ ?_ ?_
  · show a.havedisk1 = _
    rw [hafter]
    cases e <;> rfl
  · obtain ⟨ops, hops, hmatch⟩ := hinv.aligned i
    rw [hcur] at hmatch
    refine ⟨ops, hops, ?_⟩
    rw [hproc]
    exact hmatch
  · rw [hcalls]
    exact (eq_of_mem_record hx).1.le
  · intro us' p hp
    cases hcur'.symm.trans hp
    refine ⟨_, hnext r trivial, fun hbt => (engaged_iff_of_body hcur').mpr ?_⟩
    rw [hcalls]
    have hmono : b = true → ∃ e' old new, e'.Modifies ∧
        .did i (P.proc i).calls e' old new ∈ P.record i e a ++ h := fun hbt => by
      obtain ⟨e', old, new, hm, hx⟩ := (engaged_iff_of_body hcur).mp (hb hbt)
      exact ⟨e', old, new, hm, List.mem_append_right _ hx⟩
    cases e with
    | store k f => exact ⟨.store k f, _, _, trivial, List.mem_append_left _ List.mem_cons_self⟩
    | bread k | logAdd k | markDirty k | brelse k => exact hmono hbt
    | bwrite k | data k | copy k c | log | setLog f => exact hok.elim
  · intro heng
    obtain ⟨e', old, new, hm, hx⟩ := (engaged_iff_of_body hcur').mp heng
    rw [hcalls] at hx
    rcases List.mem_append.mp hx with hx | hx
    · obtain rfl := (eq_of_mem_record hx).2
      cases e' with
      | store k f => exact Or.inr (hcond k f rfl)
      | logAdd k => exact Or.inl (hb hok.1)
      | bread k | brelse k | bwrite k | data k | copy k c | markDirty k | log | setLog f =>
        exact hm.elim
    · exact Or.inl ((engaged_iff_of_body hcur).mpr ⟨e', old, new, hm, hx⟩)
  · intro hnone
    have hnone' : ∀ j p, (P.proc j).cur ≠ some (.ending, p) := by
      intro j p hj
      by_cases hji : j = i
      · rw [hji, hcur] at hj
        cases hj
      · exact hnone j p (by rw [hstep.proc_of_ne hji]; exact hj)
    obtain ⟨⟨lh, hlog, hlist⟩, hzero⟩ := hinv.rest hnone'
    show (∃ lh, a.log = _ ∧ _) ∧ headerN (a.disk g.header) = 0
    cases e with
    | logAdd k =>
      obtain ⟨-, hdev, hlt, hout⟩ := hok
      have hk : (⟨g.dev, k.blockno⟩ : BufRef) = k := by rw [← hdev]
      have hfull : ¬ P.a.log.full := by
        intro hfull
        simp only [accountHandler, asHolder, if_pos hfull] at he
        split_ifs at he
      rw [hafter]
      refine ⟨⟨lh.add k.blockno, ?_, hlist.add (hlog ▸ hfull) hlt (hk ▸ hout)⟩, hzero⟩
      show P.a.log.add k.blockno = _
      rw [hlog]
      rfl
    | bread k | store k f | markDirty k | brelse k =>
      rw [hafter]
      exact ⟨⟨lh, hlog, hlist⟩, hzero⟩
    | bwrite k | data k | copy k c | log | setLog f => exact hok.elim
  · intro p hp
    cases hcur'.symm.trans hp
  · intro j hj p hj'
    rcases halone with ⟨k, rfl⟩ | hnone
    · have ha : P'.a = P.a.after (.bread k) := hafter
      rw [ha]
      exact ⟨rfl, rfl, rfl, fun x hx => absurd hx List.not_mem_nil⟩
    · exact absurd (engaged_of_ending hj') (hnone j hj)

omit [DecidableEq ι] [Fintype ι] in
lemma CommitView.Right.step {l : CommitView} {e : BioOp} {a : Account}
    (hl : l.Right g P.a h i (P.proc i).calls) (r : e.Ret) (hok : (commitMonitor g).ok l (.inl e)) :
    ((commitMonitor g).next l (.inl e) r).Right g (P.a.after e) (P.record i e a ++ h) i
      (P.proc i).calls := by
  have hquiet : (∀ x ∈ P.record i e a, ∀ k, ¬ x.Disturbs k) → ∀ src dst, l.src src = some dst →
      Logged (P.record i e a ++ h) i (P.proc i).calls src dst := fun hq src dst hs =>
    (hl.src src dst hs).append fun x hx => hq x hx src
  cases e with
  | bread k => exact ⟨hl.log, hl.head, hl.drive, hquiet fun x hx => nomatch hx⟩
  | brelse k | data k | markDirty k | log =>
    refine ⟨hl.log, hl.head, hl.drive, hquiet fun x hx k => ?_⟩
    rw [List.mem_singleton.mp hx]
    exact id
  -- the view follows the header on the drive
  | bwrite k =>
    refine ⟨hl.log, hl.head, ?_, hquiet fun x hx => nomatch hx⟩
    show Function.update P.a.disk k (P.a.mem k) g.header = if k = g.header then l.head else l.drive
    by_cases hk : k = g.header
    · rw [if_pos hk, hk, Function.update_self]
      exact hl.head
    · rw [if_neg hk, Function.update_of_ne (Ne.symm hk)]
      exact hl.drive
  -- a store into a block ends that it is a copy of another one
  | store k f =>
    refine ⟨hl.log, ?_, hl.drive, fun src dst hs => ?_⟩
    · show Function.update P.a.mem k (f (P.a.mem k)) g.header =
        if k = g.header then f l.head else l.head
      by_cases hk : k = g.header
      · rw [if_pos hk, hk, Function.update_self, hl.head]
      · rw [if_neg hk, Function.update_of_ne (Ne.symm hk)]
        exact hl.head
    · have hs' : Function.update l.src k none src = some dst := hs
      have hne : src ≠ k := by
        rintro rfl
        rw [Function.update_self] at hs'
        cases hs'
      rw [Function.update_of_ne hne] at hs'
      exact (hl.src src dst hs').cons (Ne.symm hne)
  | copy k c =>
    obtain ⟨hne, -⟩ := hok
    refine ⟨hl.log, ?_, hl.drive, fun src dst hs => ?_⟩
    · exact (Function.update_of_ne hne.symm _ _).trans hl.head
    · have hs' : Function.update l.src k (some c) src = some dst := hs
      by_cases hsk : src = k
      · subst hsk
        rw [Function.update_self] at hs'
        cases hs'
        exact ⟨[], h, _, _, rfl, fun x hx => nomatch hx⟩
      · rw [Function.update_of_ne hsk] at hs'
        exact (hl.src src dst hs').cons (Ne.symm hsk)
  -- `commit` does not call `log_write`
  | logAdd k => exact hok.elim
  | setLog f =>
    refine ⟨?_, hl.head, hl.drive, fun src dst hs => nomatch hs⟩
    show f P.a.log = _
    rw [hl.log]
    exact hok

lemma LogInv.endingStep (hinv : LogInv g P h) {e : BioOp} {code : e.Ret → K Unit}
    {r : e.Ret} {a : Account} (hcur : (P.proc i).cur = some (.ending, .op (.inl e) code))
    (he : accountHandler e P.a = .ok r a) :
    LogInv g { P.setProc i { P.proc i with cur := some (.ending, code r) } with a := a }
      (P.record i e a ++ h) := by
  set P' : Pool ι LogCall Unit :=
    { P.setProc i { P.proc i with cur := some (.ending, code r) } with a := a }
  have hstep : P.Step (logCode g.dev) i P' (P.record i e a) := .bio hcur he
  have hproc : P'.proc i = { P.proc i with cur := some (.ending, code r) } :=
    Function.update_self ..
  have hcur' : (P'.proc i).cur = some (.ending, code r) := by rw [hproc]
  have hcalls : (P'.proc i).calls = (P.proc i).calls := by rw [hproc]
  have ha : P'.a = P.a.after e := eq_after_of_ok he
  obtain ⟨l, ⟨hok, hnext⟩, hview⟩ := hinv.ending i _ hcur
  -- an `end_op` in progress is engaged, so that it is the only one
  refine hinv.update hstep ?_ ?_ hcalls.ge (fun n e' old new hx => ?_) ?_ ?_ ?_ ?_ ?_
  · rw [ha]
    cases e <;> rfl
  · obtain ⟨ops, hops, hmatch⟩ := hinv.aligned i
    rw [hcur] at hmatch
    refine ⟨ops, hops, ?_⟩
    rw [hproc]
    exact hmatch
  · rw [hcalls]
    exact (eq_of_mem_record hx).1.le
  · intro us p hp
    exact nomatch hcur'.symm.trans hp
  · exact fun _ => Or.inl (engaged_of_ending hcur)
  · exact fun hnone => absurd hcur' (hnone i _)
  · intro p hp
    cases hcur'.symm.trans hp
    have hans : (commitMonitor g).ans l (.inl e) r := by
      cases e with
      | log =>
        obtain ⟨rfl, -⟩ := EStateM.Result.ok.inj he
        exact hview.log
      | bread k | brelse k | bwrite k | data k | store k f | copy k c | logAdd k | markDirty k
      | setLog f => trivial
    refine ⟨_, hnext r hans, ?_⟩
    have hview' := hview.step r (a := a) hok
    rw [← ha, ← hcalls] at hview'
    exact hview'
  · intro j hj p hj'
    exact absurd (hinv.one j i (engaged_of_ending hj') (engaged_of_ending hcur)) hj

lemma logCalls_cons (us : List Update) (ops : List (List Update)) :
    logCalls (us :: ops) = .body us :: .ending :: logCalls ops := rfl

lemma logCalls_ne_ending (ops : List (List Update)) (cs : List LogCall) :
    logCalls ops ≠ .ending :: cs := by
  intro hc
  cases ops with
  | nil => cases hc
  | cons us ops => cases (List.cons.inj (logCalls_cons us ops ▸ hc)).1

lemma LogInv.callStep (hinv : LogInv g P h) {c : LogCall} {todo : List LogCall}
    (hcur : (P.proc i).cur = none) (htodo : (P.proc i).todo = c :: todo)
    (hcond : c = .ending → ∀ j ≠ i, ¬ Engaged P.proc h j) :
    LogInv g (P.setProc i ⟨todo, (P.proc i).calls + 1, some (c, logCode g.dev c), none⟩)
      ([.called i ((P.proc i).calls + 1) c] ++ h) := by
  set P' : Pool ι LogCall Unit :=
    P.setProc i ⟨todo, (P.proc i).calls + 1, some (c, logCode g.dev c), none⟩
  have hstep : P.Step (logCode g.dev) i P' [.called i ((P.proc i).calls + 1) c] :=
    .call hcur htodo
  have hproc : P'.proc i = ⟨todo, (P.proc i).calls + 1, some (c, logCode g.dev c), none⟩ :=
    Function.update_self ..
  have hcur' : (P'.proc i).cur = some (c, logCode g.dev c) := by rw [hproc]
  have hcalls : (P'.proc i).calls = (P.proc i).calls + 1 := by rw [hproc]
  have hothers : ∀ j p, (P.proc j).cur = some (.ending, p) → j ≠ i := by
    rintro j p hj rfl
    exact nomatch hcur.symm.trans hj
  obtain ⟨ops, hops, hmatch⟩ := hinv.aligned i
  rw [hcur, htodo] at hmatch
  have hquiet : ∀ x ∈ [(.called i ((P.proc i).calls + 1) c : Event ι LogCall Unit)], ∀ k,
      ¬ x.Disturbs k := by
    intro x hx k
    rw [List.mem_singleton.mp hx]
    exact id
  refine hinv.update hstep rfl ?_ (by omega) (fun n e old new hx => ?_) ?_ ?_ ?_ ?_
    fun j hj p hp => ⟨rfl, rfl, rfl, hquiet⟩
  · cases c with
    | body us =>
      rcases hmatch with hm | hm
      · cases ops with
        | nil => cases hm
        | cons us' ops =>
          rw [logCalls_cons] at hm
          refine ⟨ops, fun us hus => hops us (List.mem_cons_of_mem us' hus), ?_⟩
          rw [hproc]
          exact (List.cons.inj hm).2
      · cases (List.cons.inj hm).1
    | ending =>
      rcases hmatch with hm | hm
      · exact absurd hm.symm (logCalls_ne_ending ops todo)
      · refine ⟨ops, hops, ?_⟩
        rw [hproc]
        exact (List.cons.inj hm).2
  · exact nomatch List.mem_singleton.mp hx
  · intro us p hp
    cases hcur'.symm.trans hp
    refine ⟨false, body_obeys ?_ false, fun hb => nomatch hb⟩
    rcases hmatch with hm | hm
    · cases ops with
      | nil => cases hm
      | cons us' ops =>
        rw [logCalls_cons] at hm
        cases (List.cons.inj hm).1
        exact hops us List.mem_cons_self
    · cases (List.cons.inj hm).1
  · intro heng
    cases c with
    | ending => exact Or.inr (hcond rfl)
    | body us =>
      -- the call is new, so that it has changed nothing yet
      obtain ⟨e, old, new, -, hx⟩ := (engaged_iff_of_body hcur').mp heng
      rw [hcalls] at hx
      rcases List.mem_append.mp hx with hx | hx
      · exact nomatch List.mem_singleton.mp hx
      · have := hinv.past i _ _ _ _ hx
        omega
  · intro hnone
    refine hinv.rest fun j p hj => hnone j p ?_
    rw [hstep.proc_of_ne (hothers j p hj)]
    exact hj
  · intro p hp
    cases hcur'.symm.trans hp
    have hnone : ∀ j p, (P.proc j).cur ≠ some (.ending, p) := fun j p hj =>
      hcond rfl j (hothers j p hj) (engaged_of_ending hj)
    obtain ⟨⟨lh, hlog, hlist⟩, hzero⟩ := hinv.rest hnone
    exact ⟨⟨lh, P.a.mem g.header, P.a.disk g.header, fun _ => none⟩, endOp_obeys hlist hzero,
      hlog, rfl, rfl, fun src dst hs => nomatch hs⟩

lemma LogInv.retStep (hinv : LogInv g P h) {c : LogCall}
    (hcur : (P.proc i).cur = some (c, .ret ())) :
    LogInv g (P.setProc i { P.proc i with cur := none })
      ([.returned i (P.proc i).calls c ()] ++ h) := by
  set P' : Pool ι LogCall Unit := P.setProc i { P.proc i with cur := none }
  have hstep : P.Step (logCode g.dev) i P' [.returned i (P.proc i).calls c ()] := .ret hcur
  have hproc : P'.proc i = { P.proc i with cur := none } := Function.update_self ..
  have hcur' : (P'.proc i).cur = none := by rw [hproc]
  obtain ⟨ops, hops, hmatch⟩ := hinv.aligned i
  rw [hcur] at hmatch
  have hquiet : ∀ x ∈ [(.returned i (P.proc i).calls c () : Event ι LogCall Unit)], ∀ k,
      ¬ x.Disturbs k := by
    intro x hx k
    rw [List.mem_singleton.mp hx]
    exact id
  -- returning changes neither the store nor what has been logged
  refine hinv.update hstep rfl ?_ (by rw [hproc]) (fun n e old new hx => ?_) ?_ ?_ ?_ ?_
    fun j hj p hp => ⟨rfl, rfl, rfl, hquiet⟩
  · refine ⟨ops, hops, ?_⟩
    rw [hproc]
    cases c with
    | body us => exact Or.inr hmatch
    | ending => exact Or.inl hmatch
  · exact nomatch List.mem_singleton.mp hx
  · intro us p hp
    exact nomatch hcur'.symm.trans hp
  -- an operation stays engaged when its body returns, and not when its `end_op` does
  · rintro (⟨p, hp⟩ | ⟨hopen, e, old, new, hm, hx⟩)
    · exact nomatch hcur'.symm.trans hp
    · cases c with
      | body us =>
        refine Or.inl ((engaged_iff_of_body hcur).mpr ⟨e, old, new, hm, ?_⟩)
        rw [hproc] at hx
        rcases List.mem_append.mp hx with hx | hx
        · exact nomatch List.mem_singleton.mp hx
        · exact hx
      | ending =>
        rcases hopen with ⟨us, p, hp⟩ | ⟨-, cs, hcs⟩
        · exact nomatch hcur'.symm.trans hp
        · rw [hproc] at hcs
          exact absurd (hmatch.symm.trans hcs) (logCalls_ne_ending ops cs)
  · intro hnone
    cases c with
    | body us =>
      refine hinv.rest fun j p hj => ?_
      by_cases hji : j = i
      · rw [hji, hcur] at hj
        cases hj
      · exact hnone j p (by rw [hstep.proc_of_ne hji]; exact hj)
    | ending =>
      obtain ⟨l, ⟨hn, hzero⟩, hview⟩ := hinv.ending i _ hcur
      exact ⟨⟨l.lh, hview.log, LogArea.listed_zero hn⟩, hview.drive ▸ hzero⟩
  · intro p hp
    exact nomatch hcur'.symm.trans hp

/-- **Every step of the pool keeps the invariant**, if the process is alone when it starts to
change buffers or enters `end_op`. -/
lemma LogInv.step (hinv : LogInv g P h) (hstep : P.Step (logCode g.dev) i P' ev)
    (hstore : ∀ c k f code, (P.proc i).cur = some (c, .op (.inl (.store k f)) code) →
      ∀ j ≠ i, ¬ Engaged P.proc h j)
    (hend : ∀ cs, (P.proc i).cur = none → (P.proc i).todo = .ending :: cs →
      ∀ j ≠ i, ¬ Engaged P.proc h j) : LogInv g P' (ev ++ h) := by
  cases hstep with
  | @call c todo hcur htodo =>
    refine hinv.callStep hcur htodo fun hc => ?_
    exact hend todo hcur (hc ▸ htodo)
  | @bio c e code r a hcur he =>
    cases c with
    | body us =>
      refine hinv.bodyStep hcur he ?_
      rintro k f rfl
      exact hstore _ k f code hcur
    | ending => exact hinv.endingStep hcur he
  | @mem c e code r fm hcur he =>
    cases c with
    | body us =>
      obtain ⟨b, ⟨hok, -⟩, -⟩ := hinv.body i us _ hcur
      exact hok.elim
    | ending =>
      obtain ⟨l, ⟨hok, -⟩, -⟩ := hinv.ending i _ hcur
      exact hok.elim
  | ret hcur => exact hinv.retStep hcur

/-! ## Runs -/

lemma LogInv.safe (hinv : LogInv g P h) : P.Safe := by
  obtain ⟨G, hG⟩ := hinv.grip
  refine hG.safe fun i c k code hcur => ?_
  have hk : k.dev = g.dev ∧ k.blockno < FSSIZE := by
    cases c with
    | body us =>
      obtain ⟨b, ⟨hok, -⟩, -⟩ := hinv.body i us _ hcur
      exact hok
    | ending =>
      obtain ⟨l, ⟨hok, -⟩, -⟩ := hinv.ending i _ hcur
      exact hok
  refine ⟨hk.1 ▸ g.dev_lt, fun h0 => hinv.present (hk.1 ▸ h0), hk.2⟩

omit [DecidableEq ι] in
lemma LogInv.boot {havedisk1 : Bool} (hpres : g.dev ≠ 0 → havedisk1 = true) (fm : FsMem)
    {d₀ : BufRef → Block} (hzero : headerN (d₀ g.header) = 0) {ops : ι → List (List Update)}
    (hops : ∀ i, ∀ us ∈ ops i, g.Admits us) :
    LogInv g (Pool.boot (Account.init d₀ havedisk1 (g.log .empty)) fm fun i => logCalls (ops i))
      [] where
  grip := ⟨_, .boot rfl rfl fm _⟩
  present := hpres
  aligned i := ⟨ops i, hops i, Or.inl rfl⟩
  past i n e old new hx := nomatch hx
  body i us p hcur := nomatch hcur
  one i j hi := by
    rcases hi with ⟨p, hp⟩ | ⟨-, e, old, new, -, hx⟩
    · exact nomatch hp
    · exact nomatch hx
  rest _ := ⟨⟨.empty, rfl, LogArea.listed_zero rfl⟩, hzero⟩
  ending i p hcur := nomatch hcur

omit [DecidableEq ι] [Fintype ι] in
/-- Whether a process is in the middle of an operation is the same in the pool. -/
lemma open_iff {s : Sys ι LogCall Unit} (hsim : Simulates P s) (i : ι) :
    (P.proc i).Open ↔ (s.proc i).Open := by
  obtain ⟨htodo, -, hfst⟩ := hsim.call_eq i
  have hbody : (∃ us code, (P.proc i).cur = some (.body us, code)) ↔
      ∃ us code, (s.proc i).cur = some (.body us, code) := by
    constructor
    · rintro ⟨us, code, hcur⟩
      rw [hcur] at hfst
      obtain ⟨⟨c, code'⟩, hcur', rfl⟩ := Option.map_eq_some_iff.mp hfst.symm
      exact ⟨us, code', hcur'⟩
    · rintro ⟨us, code, hcur⟩
      rw [hcur] at hfst
      obtain ⟨⟨c, code'⟩, hcur', rfl⟩ := Option.map_eq_some_iff.mp hfst
      exact ⟨us, code', hcur'⟩
  have hnone : (P.proc i).cur = none ↔ (s.proc i).cur = none := by
    rw [← Option.map_eq_none_iff (f := Prod.fst), hfst, Option.map_eq_none_iff]
  rw [Process.Open, Process.Open, hbody, hnone, htodo]

omit [DecidableEq ι] [Fintype ι] in
lemma engaged_iff {s : Sys ι LogCall Unit} (hsim : Simulates P s) (i : ι) :
    Engaged P.proc h i ↔ Engaged s.proc h i := by
  obtain ⟨-, hcalls, hfst⟩ := hsim.call_eq i
  have hend : (∃ code, (P.proc i).cur = some (.ending, code)) ↔
      ∃ code, (s.proc i).cur = some (.ending, code) := by
    constructor
    · rintro ⟨code, hcur⟩
      rw [hcur] at hfst
      obtain ⟨⟨c, code'⟩, hcur', rfl⟩ := Option.map_eq_some_iff.mp hfst.symm
      exact ⟨code', hcur'⟩
    · rintro ⟨code, hcur⟩
      rw [hcur] at hfst
      obtain ⟨⟨c, code'⟩, hcur', rfl⟩ := Option.map_eq_some_iff.mp hfst
      exact ⟨code', hcur'⟩
  rw [Engaged, Engaged, hend, open_iff hsim, hcalls]

/-- The invariant holds along every run in which at most one operation is engaged. -/
lemma LogInv.of_runs {havedisk1 : Bool} (hpres : g.dev ≠ 0 → havedisk1 = true) {fm : FsMem}
    {d₀ : BufRef → Block} (hzero : headerN (d₀ g.header) = 0) {ops : ι → List (List Update)}
    (hops : ∀ i, ∀ us ∈ ops i, g.Admits us) {s : Sys ι LogCall Unit}
    (hrun : Runs (logCode g.dev) (fun s h l => Calm s l ∧ OneEngaged s h l)
      (Sys.boot (binit d₀ havedisk1 (g.log .empty)) fm fun i => logCalls (ops i)) s h) :
    ∃ P, Simulates P s ∧ LogInv g P h := by
  refine hrun.simulates (Plays.init d₀ havedisk1 _) (fun s h l hl => hl.1)
    (LogInv.boot hpres fm hzero hops) (fun P h hP => hP.safe) ?_ ?_
  · rintro P P' h hP ⟨i, c, e, code, k, hcur, he, hstep⟩
    refine hP.step hstep (fun c' k' f code' hcur' => ?_) fun cs hnone => ?_
    · cases hcur.symm.trans hcur'
      rcases he with he | he <;> cases he
    · exact nomatch hcur.symm.trans hnone
  · intro s s' P P' h ev i l hP hsim hl hs hi hproc hstep
    refine hP.step hstep (fun c k f code hcur j hj hj' => ?_) fun cs hcur htodo j hj hj' => ?_
    · rw [hproc] at hcur
      have hl' : l = .go i := by
        rcases hi with rfl | hi | rfl
        · simp [Sys.step, hcur] at hs
        · exact hi
        · simp [Sys.step, hcur] at hs
      exact (hl.2 i j hj ((engaged_iff hsim j).mp hj')).1 c k f code hl' hcur
    · rw [hproc] at hcur htodo
      have hl' : l = .call i := by
        rcases hi with hi | rfl | rfl
        · exact hi
        · simp [Sys.step, hcur] at hs
        · simp [Sys.step, hcur] at hs
      exact (hl.2 i j hj ((engaged_iff hsim j).mp hj')).2 cs hl' htodo

/-- **The log never commits a half-done operation** in a run in which at most one operation is
engaged at a time. -/
theorem commit_whole (g : LogArea) (havedisk1 : Bool) (fm : FsMem)
    (hpres : g.dev ≠ 0 → havedisk1 = true) (d₀ : BufRef → Block)
    (hzero : headerN (d₀ g.header) = 0) (ops : ι → List (List Update))
    (hops : ∀ i, ∀ us ∈ ops i, g.Admits us) (s : Sys ι LogCall Unit)
    (h : List (Event ι LogCall Unit))
    (hrun : Runs (logCode g.dev) (fun s h l => Calm s l ∧ OneEngaged s h l)
      (Sys.boot (binit d₀ havedisk1 (g.log .empty)) fm fun i => logCalls (ops i)) s h) :
    WholeCommits g s h := by
  obtain ⟨P, hsim, hinv⟩ := LogInv.of_runs hpres hzero hops hrun
  constructor
  · intro t ht i hopen k old new hx
    -- the header is not empty, so that some process is in `end_op`
    have hend : ∃ j p, (P.proc j).cur = some (.ending, p) := by
      by_contra hnone
      have hrest := (hinv.rest fun j p hj => hnone ⟨j, p, hj⟩).2
      rw [← hsim.disk (k := g.header) g.dev_lt] at hrest
      rw [hrest] at ht
      exact absurd ht (Nat.not_lt_zero t)
    obtain ⟨j, p, hj⟩ := hend
    have hi : Engaged P.proc h i := (engaged_iff hsim i).mpr
      (Or.inr ⟨hopen, .logAdd k, old, new, trivial, hx⟩)
    obtain rfl := hinv.one i j hi (engaged_of_ending hj)
    rcases (open_iff hsim i).mpr hopen with ⟨us, code, hcur⟩ | ⟨hcur, -⟩
    · exact nomatch hcur.symm.trans hj
    · exact nomatch hcur.symm.trans hj
  · intro i c dst src code hcur hsrc hdst
    have hproc : P.proc i = s.proc i := by
      refine hsim.proc_eq (fun c' k code' hcur' => ?_) fun c' k code' hcur' => ?_
      · cases hcur.symm.trans hcur'
      · cases hcur.symm.trans hcur'
    rw [← hproc] at hcur ⊢
    cases c with
    | body us =>
      obtain ⟨b, ⟨hok, -⟩, -⟩ := hinv.body i us _ hcur
      exact hok.elim
    | ending =>
      obtain ⟨l, ⟨hok, -⟩, hview⟩ := hinv.ending i _ hcur
      exact hview.src src dst (hok.2 hdst)

end Invariant

/-! ## Two runs -/

/-- The machine after a boot on empty drives, when `initlog` has read the superblock. -/
def logMachine : Machine := binit (fun _ => Bytes.zero) true (mkfsLogArea.log .empty)

/-- The steps of a `bread` or a `bwrite` that goes to the drive, from the first inside it on. -/
def transferSteps {ι : Type} (i : ι) : List (Label ι) := [.go i, .go i, .intr false, .go i]

instance : DecidablePred BioOp.Modifies := fun e => by
  cases e <;> unfold BioOp.Modifies <;> infer_instance

section

variable {s : Sys (Fin 2) LogCall Unit} {h : List (Event (Fin 2) LogCall Unit)} {l : Label (Fin 2)}
  {j : Fin 2}

/-- A test whether a process has no operation engaged. -/
def apart (s : Sys (Fin 2) LogCall Unit) (h : List (Event (Fin 2) LogCall Unit))
    (j : Fin 2) : Bool :=
  let fresh := h.all fun ev => match ev with
    | .did i n e _ _ => !(i = j && n = (s.proc j).calls && e.Modifies)
    | _ => true
  match (s.proc j).cur, (s.proc j).todo with
  | some (.ending, _), _ => false
  | some (.body _, _), _ | none, .ending :: _ => fresh
  | none, _ => true

/-- A test whether a step of one of two processes is calm and leaves one operation engaged. -/
def heeds (s : Sys (Fin 2) LogCall Unit) (h : List (Event (Fin 2) LogCall Unit)) :
    Label (Fin 2) → Bool
  | .intr err => !err
  | .ret _ => true
  | .go i =>
    match (s.proc i).cur with
    | some (_, .op (.inl e) _) =>
      (e.blocks.all fun k => (s.proc (1 - i)).onBlock ≠ some k) &&
        match e with
        | .store _ _ => apart s h (1 - i)
        | _ => true
    | _ => true
  | .call i =>
    match (s.proc i).todo with
    | .ending :: _ => apart s h (1 - i)
    | _ => true

lemma not_engaged_of_apart (ht : apart s h j = true) : ¬ Engaged s.proc h j := by
  rintro (⟨code, hcur⟩ | ⟨⟨us, code, hcur⟩ | ⟨hcur, cs, htodo⟩, e, old, new, he, hev⟩)
  · simp [apart, hcur] at ht
  · simp only [apart, hcur, List.all_eq_true] at ht
    exact absurd (ht _ hev) (by simp [he])
  · simp only [apart, hcur, htodo, List.all_eq_true] at ht
    exact absurd (ht _ hev) (by simp [he])

lemma heeds_spec (hl : heeds s h l = true) : Calm s l ∧ OneEngaged s h l := by
  have hother : ∀ {i j : Fin 2}, j ≠ i → j = 1 - i := by decide
  refine ⟨⟨fun i c e code hgo hcur j hj k hk => ?_, ?_⟩, fun i j hj hengaged =>
    ⟨fun c k f code hgo hcur => ?_, fun cs hcall htodo => ?_⟩⟩
  · subst hgo
    simp only [heeds, hcur, Bool.and_eq_true, List.all_eq_true, decide_eq_true_eq] at hl
    exact hother hj ▸ hl.1 k hk
  · rintro rfl
    cases hl
  · subst hgo
    simp only [heeds, hcur, Bool.and_eq_true] at hl
    exact not_engaged_of_apart hl.2 (hother hj ▸ hengaged)
  · subst hcall
    simp only [heeds, htodo] at hl
    exact not_engaged_of_apart hl (hother hj ▸ hengaged)

end

/-- Steps of a process, with the disk interrupting behind each of them. -/
def busySteps {ι : Type} (i : ι) (n : ℕ) : List (Label ι) :=
  (List.replicate n [.go i, .intr false]).flatten

/-- Two operations at a time. -/
def twoOps (i : Fin 2) : List (List Update) := [[⟨100 + i, fun _ _ => 1⟩]]

/-- Both processes read their blocks, process 0 commits, and process 1 gets as far as the disk write
of `write_head`. -/
def twoCommits : List (Label (Fin 2)) :=
  [.call 0, .call 1, .go 0, .go 1, .go 0, .go 1, .go 0, .go 1, .intr false, .intr false,
    .go 0, .go 1] ++
  busySteps 0 4 ++ [.ret 0, .call 0] ++ busySteps 0 57 ++ [.ret 0] ++
  busySteps 1 4 ++ [.ret 1, .call 1] ++ busySteps 1 30

/-- The count and the first entry of the header on the drive, and the first bytes of the blocks. -/
def twoCommitsView (s : Sys (Fin 2) LogCall Unit) : ℕ × ℕ × UInt8 × UInt8 :=
  (headerN (s.m.disk mkfsLogArea.header), headerBlock (s.m.disk mkfsLogArea.header) 0,
    (s.m.disk ⟨1, 100⟩).get 0, (s.m.disk ⟨1, 101⟩).get 0)

/-- Two processes: the operation of one is on the drive, that of the other is being committed. -/
theorem commit_whole_two : ∃ (s : Sys (Fin 2) LogCall Unit) (h : List (Event (Fin 2) LogCall Unit)),
    Runs (logCode 1) (fun s h l => Calm s l ∧ OneEngaged s h l)
      (.boot logMachine (.boot []) fun i => logCalls (twoOps i)) s h ∧
    twoCommitsView s = (1, 101, 1, 0) ∧ WholeCommits mkfsLogArea s h := by
  have hrun : ((Sys.run (logCode 1) heeds twoCommits (.boot logMachine (.boot [])
      fun i => logCalls (twoOps i), [])).map fun r => twoCommitsView r.1) =
      some (1, 101, 1, 0) := by
    decide +kernel
  obtain ⟨r, hr, hview⟩ := Option.map_eq_some_iff.mp hrun
  have hruns : Runs (logCode 1) (fun s h l => Calm s l ∧ OneEngaged s h l)
      (.boot logMachine (.boot []) fun i => logCalls (twoOps i)) r.1 r.2 :=
    Runs.refl.run (fun _ _ _ hl => heeds_spec hl) hr
  refine ⟨r.1, r.2, hruns, hview, commit_whole mkfsLogArea true (.boot []) (fun _ => rfl)
    (fun _ => Bytes.zero) (by simp [headerN, Bytes.le_zero]) twoOps ?_ r.1 r.2 hruns⟩
  intro i us hus u hu
  obtain rfl := List.mem_singleton.mp hus
  obtain rfl := List.mem_singleton.mp hu
  simp only [LogArea.Mem, mkfsLogArea, FSSIZE]
  omega

/-- Process 0 gets as far as the `log_write` of block 100.  Then process 1, whose operation
changes nothing, runs `end_op` up to the disk write of `write_head`. -/
def halfDone : List (Label (Fin 2)) :=
  [.call 0, .go 0] ++ transferSteps 0 ++ [.go 0, .go 0] ++
  [.call 1, .ret 1, .call 1, .go 1, .go 1, .go 1, .go 1] ++ transferSteps 1 ++
  [.go 1, .go 1, .go 1, .go 1] ++ transferSteps 1 ++ [.go 1, .go 1, .go 1, .go 1, .go 1] ++
  transferSteps 1 ++ [.go 1, .go 1, .go 1, .go 1, .go 1, .go 1, .go 1, .go 1]

/-- The count and the first entry of the header on the drive, whether process 0 is in the body of
its first call, and whether it has logged block 100 in it. -/
def halfDoneView (r : Sys (Fin 2) LogCall Unit × List (Event (Fin 2) LogCall Unit)) :
    ℕ × ℕ × Bool × Bool :=
  (headerN (r.1.m.disk mkfsLogArea.header), headerBlock (r.1.m.disk mkfsLogArea.header) 0,
    (match (r.1.proc 0).cur with | some (.body _, _) => (r.1.proc 0).calls = 1 | _ => false),
    r.2.any fun ev => match ev with | .did 0 1 (.logAdd k) _ _ => k.blockno = 100 | _ => false)

/-- **A commit of somebody else's half-done operation.**  Process 0 is in its body, and the header
on the drive lists the block that it has logged. -/
theorem half_done_commit : ∃ (s : Sys (Fin 2) LogCall Unit) (h : List (Event (Fin 2) LogCall Unit)),
    Runs (logCode 1) (fun _ _ _ => True) (.boot logMachine (.boot [])
      fun i => logCalls (if i = 0 then [[⟨100, id⟩]] else [[]])) s h ∧
    ¬ WholeCommits mkfsLogArea s h := by
  have hrun : ((Sys.run (logCode 1) (fun _ _ _ => true) halfDone (.boot logMachine (.boot [])
      fun i => logCalls (if i = 0 then [[⟨100, id⟩]] else [[]]), [])).map halfDoneView) =
        some (1, 100, true, true) := by
    decide +kernel
  obtain ⟨r, hr, hview⟩ := Option.map_eq_some_iff.mp hrun
  refine ⟨r.1, r.2, Runs.refl.run (fun _ _ _ _ => trivial) hr, fun hwhole => ?_⟩
  simp only [halfDoneView, Prod.mk.injEq] at hview
  obtain ⟨hn, hblock, hbody, hadd⟩ := hview
  obtain ⟨⟨us, code⟩, hcur, hcalls⟩ : ∃ c : List Update × K Unit,
      (r.1.proc 0).cur = some (.body c.1, c.2) ∧ (r.1.proc 0).calls = 1 := by
    split at hbody
    · rename_i us code hcur
      exact ⟨(us, code), hcur, by simpa using hbody⟩
    · cases hbody
  obtain ⟨ev, hev, hmatch⟩ := List.any_eq_true.mp hadd
  split at hmatch
  · rename_i k old new
    have hne := hwhole.1 0 (by omega) 0 (Or.inl ⟨us, code, hcur⟩) k old new
      (by rw [hcalls]; exact hev)
    rw [hblock] at hne
    exact hne (by simpa using hmatch)
  · cases hmatch

end Xv6
