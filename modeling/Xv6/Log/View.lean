import Xv6.Log.Transaction

/-!
# The buffer cache and the disk as one block store

A client of the buffer cache reads blocks, changes the ones it holds, hands changes to
`log_write` or `bwrite` before it lets go of the buffer, and calls `commit`.  `Client` keeps what
follows from the history of its calls alone: the last contents given to every block, the
buffers it holds, those with changes it still has to hand over, and the blocks it has logged
since the last commit.

`Machine.view` reads a block through the cache.  `client_view` says that a client always sees
the last contents it gave to a block, that recycling buffers changes no view, and that a logged
block stays in the cache, and its home location as it was, until `commit` has written the log
header.
-/

namespace Xv6

open Lib

namespace Machine

/-- The buffers that are held or dirty. -/
def busy (m : Machine) : Finset (Fin NBUF) :=
  Finset.univ.filter fun i => (m.buf i).refcnt ≠ 0 ∨ (m.buf i).dirty = true

end Machine

namespace Plays

variable {a : Account} {m : Machine} {k : BufRef}

lemma view_bget (h : Plays a m) {i : Fin NBUF} {m' : Machine} (hg : bget k m = .ok i m')
    {k' : BufRef} (hk' : k'.dev < 2) : m'.view k' = m.view k' := by
  unfold bget at hg
  cases hl : m.lookup k with
  | some j =>
    simp only [hl] at hg
    obtain ⟨rfl, rfl⟩ := EStateM.Result.ok.inj hg
    -- only a reference count changes
    have hkey : ∀ x, ((m.setBuf j { m.buf j with refcnt := (m.buf j).refcnt + 1 }).buf x).key =
        (m.buf x).key ∧
        ((m.setBuf j { m.buf j with refcnt := (m.buf j).refcnt + 1 }).buf x).valid =
          (m.buf x).valid ∧
        ((m.setBuf j { m.buf j with refcnt := (m.buf j).refcnt + 1 }).buf x).data =
          (m.buf x).data := fun x => by
      by_cases hx : x = j
      · subst hx
        simp [Buf.key]
      · rw [Machine.setBuf_buf_of_ne hx]
        exact ⟨rfl, rfl, rfl⟩
    simp only [Machine.view, Machine.setBuf_lru, Machine.setBuf_disk, hkey]
  | none =>
    simp only [hl] at hg
    cases hv : m.victim with
    | none =>
      simp only [hv] at hg
      cases hg
    | some j =>
      simp only [hv] at hg
      obtain ⟨rfl, rfl⟩ := EStateM.Result.ok.inj hg
      obtain ⟨hr, hd⟩ := victim_spec hv
      rw [h.view_eq hk', Machine.view, Machine.setBuf_lru]
      cases hf : m.lru.find? fun x => ((m.setBuf j _).buf x).key = k' ∧
          ((m.setBuf j _).buf x).valid = true with
      | some x =>
        obtain ⟨hkey, hval⟩ := by simpa using List.find?_some hf
        have hx : x ≠ j := by
          rintro rfl
          rw [Machine.setBuf_buf_self] at hval
          cases hval
        rw [Machine.setBuf_buf_of_ne hx] at hkey hval
        subst hkey
        simp only [Machine.setBuf_buf_of_ne hx]
        exact h.data _ x (h.lookup_of_valid hval) hval
      | none =>
        have hun : ¬ (k' ∈ a.held ∨ k' ∈ a.dirty) := fun hin => by
          obtain ⟨x, hx, hxv⟩ := h.live k' hin
          have hxj : x ≠ j := by
            rintro rfl
            rcases hin with hh | hh
            · rw [h.refcnt k' x hx] at hr
              exact List.count_eq_zero.mp hr hh
            · rw [(h.dirty k' x hx).mpr hh] at hd
              cases hd
          have := List.find?_eq_none.mp hf x (h.all x)
          simp [Machine.setBuf_buf_of_ne hxj, Machine.key_of_lookup hx, hxv] at this
        simp only [Machine.setBuf_disk, drive_of_lt hk', h.disk k' hk', h.mem_eq_disk hk' hun]

lemma card_used_le (h : Plays a m) : a.used.card ≤ m.busy.card := by
  have hlook : ∀ k ∈ a.used, ∃ i ∈ m.busy, m.lookup k = some i := fun k hk => by
    have hk' : k ∈ a.held ∨ k ∈ a.dirty := by simpa [Account.used] using hk
    obtain ⟨i, hi, -⟩ := h.live k hk'
    refine ⟨i, ?_, hi⟩
    rw [Machine.busy, Finset.mem_filter]
    refine ⟨Finset.mem_univ i, hk'.imp (fun hh => ?_) (h.dirty k i hi).mpr⟩
    rw [h.refcnt k i hi]
    exact (List.count_pos_iff.mpr hh).ne'
  choose! f hf hl using hlook
  refine Finset.card_le_card_of_injOn f hf fun k₁ h₁ k₂ h₂ he => ?_
  exact key_inj (hl k₁ h₁) (he ▸ hl k₂ h₂)

lemma pinned (h : Plays a m) (hk : k ∈ a.dirty) :
    ∃ i, m.lookup k = some i ∧ (m.buf i).valid = true ∧ (m.buf i).dirty = true := by
  obtain ⟨i, hi, hv⟩ := h.live k (Or.inr hk)
  exact ⟨i, hi, hv, (h.dirty k i hi).mpr hk⟩

end Plays

/-! ## Clients -/

/-- What a client of the cache can call. -/
inductive ClientOp
  | bread (k : BufRef)
  /-- Change the data of a held buffer in place. -/
  | modify (k : BufRef) (f : Block → Block)
  | logWrite (k : BufRef)
  | bwrite (k : BufRef)
  | brelse (k : BufRef)
  | commit

/-- The code behind a call. -/
def ClientOp.code : ClientOp → K Unit
  | bread k => do let _ ← Xv6.bread k.dev k.blockno
  | modify k f => bstore k f
  | logWrite k => Xv6.logWrite k
  | bwrite k => Xv6.bwrite k
  | brelse k => Xv6.brelse k
  | commit => Xv6.commit

/-- `commit()` up to its first write of the log header. -/
def commitToHead : K (Option BufRef) := do
  let log ← getLog
  if log.lh.n > 0 then
    writeLog
    let buf ← fillHead
    return some buf
  else return none

/-- The rest of `commit()`. -/
def commitFromHead : Option BufRef → K Unit
  | some buf => do
    bwrite buf
    brelse buf
    installTrans
    clearCount
    writeHead
  | none => pure ()

lemma commit_eq : commit = commitToHead >>= commitFromHead := by
  refine congrArg (getLog >>= ·) (funext fun log => ?_)
  show (if log.lh.n > 0 then _ else _) = (if log.lh.n > 0 then _ else _) >>= _
  split_ifs
  · simp only [writeHead, Prog.bind_assoc', Prog.pure_eq, Prog.ret_bind, commitFromHead]
  · rfl

/-- The part of a call that precedes the commit of what was logged before. -/
def ClientOp.uncommitted : ClientOp → K Unit
  | .commit => do let _ ← commitToHead
  | op => op.code

/-- What is known of a client from the history of its calls. -/
structure Client where
  /-- The last contents given to every block. -/
  contents : BufRef → Block
  held : List BufRef
  /-- Changed, and not passed to `log_write` or `bwrite` since. -/
  pending : Finset BufRef
  /-- Passed to `log_write`, and not to `bwrite` since, and not committed since. -/
  logged : Finset BufRef

namespace Client

/-- Before its first call, on drives with the given contents. -/
def init (d : BufRef → Block) : Client := ⟨d, [], ∅, ∅⟩

/-- What a client may call: it uses buffers it holds, gives up no pending change, and leaves
the log area to the log. -/
def Allows (γ : Client) (g : LogArea) : ClientOp → Prop
  | .bread k => k.dev < 2
  | .modify k _ => k ∈ γ.held ∧ ¬ g.Mem k
  | .logWrite k => k ∈ γ.held ∧ ¬ g.Mem ⟨g.dev, k.blockno⟩
  | .bwrite k => k ∈ γ.held
  | .brelse k => k ∈ γ.held ∧ k ∉ γ.pending
  | .commit => True

/-- The effect of a call. -/
def next (γ : Client) : ClientOp → Client
  | .bread k => { γ with held := k :: γ.held }
  | .modify k f => { γ with
      contents := Function.update γ.contents k (f (γ.contents k)), pending := insert k γ.pending }
  | .logWrite k => { γ with pending := γ.pending.erase k, logged := insert k γ.logged }
  | .bwrite k => { γ with pending := γ.pending.erase k, logged := γ.logged.erase k }
  | .brelse k => { γ with held := γ.held.erase k }
  | .commit => { γ with logged := ∅ }

end Client

/-- The states a client and the machine reach after a boot, by calls that return. -/
inductive ClientRun (g : LogArea) (havedisk1 : Bool) (fm : FsMem) (d : BufRef → Block) :
    Client → Machine → Prop
  | boot : ClientRun g havedisk1 fm d (.init d) (binit d havedisk1 (g.log .empty))
  | call {γ : Client} {m m' : Machine} (op : ClientOp) (h : ClientRun g havedisk1 fm d γ m)
      (hop : γ.Allows g op) (hr : op.code.run kernelHandler (m, fm) = .ok () (m', fm)) :
      ClientRun g havedisk1 fm d (γ.next op) m'

/-- The store that the machine plays, as far as the client can tell. -/
structure Client.Knows (g : LogArea) (havedisk1 : Bool) (γ : Client) (a : Account) : Prop where
  tidy : ∃ lh, g.Tidy lh a
  hd : a.havedisk1 = havedisk1
  contents : ∀ k, ¬ g.Mem k → a.mem k = γ.contents k
  held : a.held = γ.held
  pending : a.pend ⊆ γ.pending
  logged : γ.logged ⊆ a.dirty
  range : ∀ k ∈ a.held, a.InRange k

namespace Client.Knows

variable {C : (BufRef → Block) → Finset BufRef → Prop} {g : LogArea} {havedisk1 : Bool}
  {γ : Client} {a : Account} {fm : FsMem}

lemma init (hpres : g.dev ≠ 0 → havedisk1 = true) (d : BufRef → Block) :
    (Client.init d).Knows g havedisk1 (Account.init d havedisk1 (g.log .empty)) where
  tidy := ⟨.empty, rfl, hpres, LogArea.listed_zero rfl,
    fun k hk => absurd hk (Finset.notMem_empty k),
    fun k _ => ⟨Finset.notMem_empty k, Finset.notMem_empty k⟩⟩
  hd := rfl
  contents _ _ := rfl
  held := rfl
  pending := Finset.empty_subset _
  logged := Finset.empty_subset _
  range _ hk := absurd hk List.not_mem_nil

private lemma panic_ne_stray (p : Panic) : Halt.panic p ≠ .stray := fun h => nomatch h

lemma kwp_bread (h : γ.Knows g havedisk1 a) {k : BufRef} (hk : k.dev < 2)
    (hC : C a.disk a.dirty) :
    kwp C (fun x _ _ => x ≠ .stray) (ClientOp.bread k).code (fun _ a' fm' => fm' = fm ∧
      (γ.next (.bread k)).Knows g havedisk1 a') a fm := by
  obtain ⟨lh, ht⟩ := h.tidy
  refine Xv6.kwp_bread hk hC (fun _ => panic_ne_stray _) (fun _ _ => panic_ne_stray _)
    (fun _ => panic_ne_stray _) fun hr _ => kwp_ret hC ⟨rfl, ⟨lh, ?_⟩, h.hd, h.contents, ?_,
      h.pending, h.logged, fun k' hk' => ?_⟩
  · exact ⟨ht.log, ht.present, ht.listed, fun k' hk' => List.mem_cons_of_mem _ (ht.pend k' hk'),
      ht.area⟩
  · exact congrArg (k :: ·) h.held
  · rcases List.mem_cons.mp hk' with rfl | hk'
    · exact hr
    · exact h.range k' hk'

lemma kwp_modify (h : γ.Knows g havedisk1 a) {k : BufRef} {f : Block → Block} (hk : k ∈ γ.held)
    (hm : ¬ g.Mem k) (hC : C a.disk a.dirty) :
    kwp C (fun x _ _ => x ≠ .stray) (ClientOp.modify k f).code (fun _ a' fm' => fm' = fm ∧
      (γ.next (.modify k f)).Knows g havedisk1 a') a fm := by
  obtain ⟨lh, ht⟩ := h.tidy
  have hk' : k ∈ a.held := h.held ▸ hk
  have hpend : (a.write k (f (a.mem k))).pend ⊆ insert k a.pend := by
    simp only [Account.write]
    split_ifs
    · exact Finset.subset_insert _ _
    · exact subset_rfl
  refine kwp_last (kwp_bstore hC hk' (kwp_ret hC ⟨rfl, ⟨lh, ht.log, ht.present, ht.listed,
    fun x hx => ?_, fun x hx => ⟨(ht.area x hx).1, fun hx' => ?_⟩⟩, h.hd, fun x hx => ?_, h.held,
    hpend.trans (Finset.insert_subset_insert _ h.pending), h.logged, h.range⟩))
  · rcases Finset.mem_insert.mp (hpend hx) with rfl | hx
    · exact hk'
    · exact ht.pend x hx
  · rcases Finset.mem_insert.mp (hpend hx') with rfl | hx'
    · exact hm hx
    · exact (ht.area x hx).2 hx'
  · by_cases he : x = k
    · simp only [Account.write, next, he, Function.update_self, h.contents k hm]
    · simp only [Account.write, next, Function.update_of_ne he, h.contents x hx]

lemma kwp_logWrite (h : γ.Knows g havedisk1 a) {k : BufRef} (hk : k ∈ γ.held)
    (hm : ¬ g.Mem ⟨g.dev, k.blockno⟩) (hC : C a.disk a.dirty)
    (hC' : C a.disk (insert k a.dirty)) :
    kwp C (fun x _ _ => x ≠ .stray) (ClientOp.logWrite k).code (fun _ a' fm' => fm' = fm ∧
      (γ.next (.logWrite k)).Knows g havedisk1 a') a fm := by
  obtain ⟨lh, ht⟩ := h.tidy
  have hk' : k ∈ a.held := h.held ▸ hk
  have hmk : ¬ g.Mem k := fun hmk => hm (by rwa [← hmk.1])
  refine kwp_last (Xv6.kwp_logWrite hC hk' (fun _ => panic_ne_stray _) fun hfull =>
    kwp_ret hC' ⟨rfl, ⟨lh.add k.blockno, ?_⟩, h.hd, h.contents, h.held,
      Finset.erase_subset_erase _ h.pending, Finset.insert_subset_insert _ h.logged, h.range⟩)
  refine ⟨?_, ht.present, ht.listed.add (ht.log ▸ hfull) (h.range k hk').2.2 hm,
    fun x hx => ht.pend x (Finset.mem_of_mem_erase hx), fun x hx => ⟨fun hx' => ?_, fun hx' => ?_⟩⟩
  · simp only [Account.pin, ht.log, Log.add]
    rfl
  · rcases Finset.mem_insert.mp hx' with rfl | hx'
    · exact hmk hx
    · exact (ht.area x hx).1 hx'
  · exact (ht.area x hx).2 (Finset.mem_of_mem_erase hx')

lemma kwp_bwrite (h : γ.Knows g havedisk1 a) {k : BufRef} (hk : k ∈ γ.held)
    (hC : C a.disk a.dirty) (hC' : C (Function.update a.disk k (a.mem k)) (a.dirty.erase k)) :
    kwp C (fun x _ _ => x ≠ .stray) (ClientOp.bwrite k).code (fun _ a' fm' => fm' = fm ∧
      (γ.next (.bwrite k)).Knows g havedisk1 a') a fm := by
  obtain ⟨lh, ht⟩ := h.tidy
  refine kwp_last (Xv6.kwp_bwrite hC (h.held ▸ hk) (kwp_ret hC' ⟨rfl, ⟨lh, ht.log, ht.present,
    ht.listed, fun x hx => ht.pend x (Finset.mem_of_mem_erase hx), fun x hx =>
      ⟨fun hx' => (ht.area x hx).1 (Finset.mem_of_mem_erase hx'),
        fun hx' => (ht.area x hx).2 (Finset.mem_of_mem_erase hx')⟩⟩, h.hd, h.contents, h.held,
    Finset.erase_subset_erase _ h.pending, Finset.erase_subset_erase _ h.logged, h.range⟩))

lemma kwp_brelse (h : γ.Knows g havedisk1 a) {k : BufRef} (hk : k ∈ γ.held)
    (hp : k ∉ γ.pending) (hC : C a.disk a.dirty) :
    kwp C (fun x _ _ => x ≠ .stray) (ClientOp.brelse k).code (fun _ a' fm' => fm' = fm ∧
      (γ.next (.brelse k)).Knows g havedisk1 a') a fm := by
  obtain ⟨lh, ht⟩ := h.tidy
  have hp' : k ∉ a.pend := fun hk' => hp (h.pending hk')
  refine kwp_last (Xv6.kwp_brelse hC (h.held ▸ hk) (fun hk' => absurd hk' hp') (kwp_ret hC
    ⟨rfl, ⟨lh, ht.log, ht.present, ht.listed, fun x hx => ?_, ht.area⟩, h.hd, h.contents,
      congrArg (List.erase · k) h.held, h.pending, h.logged,
      fun x hx => h.range x (List.mem_of_mem_erase hx)⟩))
  refine (List.mem_erase_of_ne ?_).mpr (ht.pend x hx)
  rintro rfl
  exact hp' hx

lemma kwp_commit (h : γ.Knows g havedisk1 a) :
    kwp (fun _ _ => True) (fun x _ _ => x ≠ .stray) ClientOp.commit.code (fun _ a' fm' => fm' = fm ∧
      (γ.next .commit).Knows g havedisk1 a') a fm := by
  obtain ⟨lh, ht⟩ := h.tidy
  rcases Nat.eq_zero_or_pos lh.n with hn | hpos
  · refine kwp_getLog ht.log trivial ?_
    rw [if_neg (show ¬ (g.log lh).lh.n > 0 by simp [LogArea.log, hn])]
    exact kwp_ret trivial ⟨rfl, ⟨lh, ht⟩, h.hd, h.contents, h.held, h.pending,
      Finset.empty_subset _, h.range⟩
  · refine kwp_mono (kwp_commit_pos ht hpos (fun _ _ => Or.inr fun _ _ => panic_ne_stray _)
      (Or.inr fun _ _ => panic_ne_stray _) (fun _ _ => trivial) (fun _ _ _ _ _ _ => trivial)
      fun _ _ _ _ _ _ => trivial) ?_
    rintro - a' fm' ⟨rfl, ht', hheld, -, hp, hhd, -, hmem, -⟩
    refine ⟨rfl, ⟨_, ht'⟩, hhd.trans h.hd, fun k hk => (hmem k hk).trans (h.contents k hk),
      hheld.trans h.held, ?_, Finset.empty_subset _, fun k hk => ?_⟩
    · rw [hp]
      exact Finset.sdiff_subset.trans h.pending
    · rw [Account.InRange, hhd]
      exact h.range k (hheld ▸ hk)

/-- Until the header is written, a logged block stays pinned and its home as it was. -/
lemma kwp_commitToHead (h : γ.Knows g havedisk1 a) {k : BufRef} (hk : k ∈ γ.logged) :
    kwp (fun d dirty => k ∈ dirty ∧ d k = a.disk k) (fun x _ _ => x ≠ .stray)
      (ClientOp.uncommitted .commit) (fun _ _ _ => True) a fm := by
  obtain ⟨lh, ht⟩ := h.tidy
  have hk' := h.logged hk
  have hm : ¬ g.Mem k := fun hm => (ht.area k hm).1 hk'
  have hne : ∀ j < lh.n, k ≠ g.slot j := fun j hj he => hm (he ▸ ht.mem_slot hj)
  refine kwp_seq (M := fun _ a' _ => k ∈ a'.dirty ∧ a'.disk k = a.disk k) ?_
    fun _ a' _ hC => kwp_ret hC trivial
  refine kwp_getLog ht.log ⟨hk', rfl⟩ ?_
  split_ifs
  · refine kwp_seq (kwp_writeLog ht (fun _ _ => Or.inr fun _ _ => panic_ne_stray _)
      fun d hd => ⟨hk', hd k hne⟩) ?_
    rintro - a₁ fm₁ ⟨ht₁, rfl, -, hd₁, -, -, -, hframe⟩
    have hC₁ : k ∈ a₁.dirty ∧ a₁.disk k = a.disk k := ⟨hd₁ ▸ hk', (hframe k hne).2⟩
    refine kwp_seq (kwp_fillHead ht₁ (Or.inr fun _ _ => panic_ne_stray _) hC₁) ?_
    rintro _ a₂ fm₂ ⟨rfl, rfl, d, -, rfl⟩
    exact kwp_ret hC₁ hC₁
  · exact kwp_ret ⟨hk', rfl⟩ ⟨hk', rfl⟩

lemma kwp_code (h : γ.Knows g havedisk1 a) {op : ClientOp} (hop : γ.Allows g op) :
    kwp (fun _ _ => True) (fun x _ _ => x ≠ .stray) op.code (fun _ a' fm' => fm' = fm ∧
      (γ.next op).Knows g havedisk1 a') a fm := by
  cases op with
  | bread k => exact h.kwp_bread hop trivial
  | modify k f => exact h.kwp_modify hop.1 hop.2 trivial
  | logWrite k => exact h.kwp_logWrite hop.1 hop.2 trivial trivial
  | bwrite k => exact h.kwp_bwrite hop trivial trivial
  | brelse k => exact h.kwp_brelse hop.1 hop.2 trivial
  | commit => exact h.kwp_commit

/-- No call but a `bwrite` of the block itself disturbs a logged block before its commit. -/
lemma kwp_uncommitted (h : γ.Knows g havedisk1 a) {op : ClientOp} (hop : γ.Allows g op)
    {k : BufRef} (hk : k ∈ γ.logged) (hne : op ≠ .bwrite k) :
    kwp (fun d dirty => k ∈ dirty ∧ d k = a.disk k) (fun x _ _ => x ≠ .stray) op.uncommitted
      (fun _ _ _ => True) a fm := by
  have hC : k ∈ a.dirty ∧ a.disk k = a.disk k := ⟨h.logged hk, rfl⟩
  cases op with
  | bread k' => exact kwp_mono (h.kwp_bread hop hC) fun _ _ _ _ => trivial
  | modify k' f => exact kwp_mono (h.kwp_modify hop.1 hop.2 hC) fun _ _ _ _ => trivial
  | logWrite k' =>
    exact kwp_mono (h.kwp_logWrite hop.1 hop.2 hC ⟨Finset.mem_insert_of_mem hC.1, rfl⟩)
      fun _ _ _ _ => trivial
  | bwrite k' =>
    have hkk : k ≠ k' := fun he => hne (he ▸ rfl)
    exact kwp_mono (h.kwp_bwrite hop hC ⟨Finset.mem_erase.mpr ⟨hkk, hC.1⟩,
      Function.update_of_ne hkk _ _⟩) fun _ _ _ _ => trivial
  | brelse k' => exact kwp_mono (h.kwp_brelse hop.1 hop.2 hC) fun _ _ _ _ => trivial
  | commit => exact h.kwp_commitToHead hk

end Client.Knows

/-! ## What a client sees -/

/-- Along every run the machine plays a store that agrees with what the client knows. -/
lemma ClientRun.exists_plays {g : LogArea} {havedisk1 : Bool} {fm : FsMem} {d : BufRef → Block}
    {γ : Client} {m : Machine} (hpres : g.dev ≠ 0 → havedisk1 = true)
    (h : ClientRun g havedisk1 fm d γ m) : ∃ a, Plays a m ∧ γ.Knows g havedisk1 a := by
  induction h with
  | boot => exact ⟨_, Plays.init d havedisk1 _, .init hpres d⟩
  | call op _ hop hr ih =>
    obtain ⟨a, hplays, hknows⟩ := ih
    have hkwp : kwp _ _ op.code _ a fm := hknows.kwp_code hop
    rcases kwp_kernel hkwp (fun _ _ h => h rfl) hplays with
      ⟨_, a', m', fm', hr', hplays', -, hknows'⟩ | ⟨x, a', s, hr', -⟩
    · obtain ⟨-, he⟩ := EStateM.Result.ok.inj (hr.symm.trans hr')
      obtain ⟨rfl, -⟩ := Prod.mk.inj he
      exact ⟨a', hplays', hknows'⟩
    · exact nomatch hr.symm.trans hr'

/-- **The buffer cache and the disk refine a plain block store.**  After any run of a client on
the two drives, whose log area is left to the log:

* the view of every block outside the log area is the last contents given to it;
* `bread` returns the view of its block whenever not all buffers are held or dirty;
* recycling a buffer changes no view;
* a block passed to `log_write`, and not to `bwrite` since, is cached and marked dirty, and its
  home location unchanged, throughout every call, up to the point where `commit` writes the log
  header. -/
theorem client_view (g : LogArea) (havedisk1 : Bool) (fm : FsMem) (d : BufRef → Block)
    (hpres : g.dev ≠ 0 → havedisk1 = true) (γ : Client) (m : Machine)
    (h : ClientRun g havedisk1 fm d γ m) :
    (∀ k : BufRef, k.dev < 2 → ¬ g.Mem k → m.view k = γ.contents k) ∧
    (∀ k : BufRef, k.dev < 2 → (k.dev ≠ 0 → havedisk1 = true) → k.blockno < FSSIZE →
      m.busy.card < NBUF → ∃ m', (bread k.dev k.blockno >>= bdata).run kernelHandler (m, fm) =
        .ok (m.view k) (m', fm)) ∧
    (∀ k i m', bget k m = .ok i m' → ∀ k' : BufRef, k'.dev < 2 → m'.view k' = m.view k') ∧
    ∀ op k, γ.Allows g op → k ∈ γ.logged → op ≠ .bwrite k → k.dev < 2 →
      ∀ t, Prog.Reaches kernelHandler op.uncommitted (m, fm) t → t.1.disk k = m.disk k ∧
        ∃ i, t.1.lookup k = some i ∧ (t.1.buf i).valid = true ∧ (t.1.buf i).dirty = true := by
  obtain ⟨a, hplays, hknows⟩ := h.exists_plays hpres
  refine ⟨fun k hk hm => ?_, fun k hk hk1 hno hbusy => ?_, fun k i m' hg k' hk' => ?_,
    fun op k hop hk hne hdev t ht => ?_⟩
  · rw [hplays.view_eq hk, hknows.contents k hm]
  · have hfit : a.Fits k := calc
      (insert k a.used).card ≤ a.used.card + 1 := Finset.card_insert_le _ _
      _ ≤ m.busy.card + 1 := Nat.add_le_add_right hplays.card_used_le 1
      _ ≤ NBUF := hbusy
    have hkwp : kwp (fun _ _ => True) (fun _ _ _ => False) (bread k.dev k.blockno >>= bdata)
        (fun r _ fm' => r = a.mem k ∧ fm' = fm) a fm := by
      refine kwp_bread_inRange ⟨hk, fun h0 => hknows.hd ▸ hk1 h0, hno⟩ trivial
        (fun hb => absurd hfit hb) ?_
      exact kwp_last (kwp_bdata trivial List.mem_cons_self (kwp_ret trivial ⟨rfl, rfl⟩))
    rcases kwp_kernel hkwp (fun _ _ => id) hplays with
      ⟨r, a', m', fm', hr, -, rfl, rfl⟩ | ⟨x, a', s, -, hx, -⟩
    · exact ⟨m', by rw [hplays.view_eq hk]; exact hr⟩
    · exact hx.elim
  · exact hplays.view_bget hg hk'
  · obtain ⟨a', ⟨hd, hdisk⟩, hplays'⟩ := kwp_kernel_reaches (hknows.kwp_uncommitted hop hk hne)
      (fun _ _ h => h rfl) hplays ht
    refine ⟨?_, hplays'.pinned hd⟩
    rw [hplays'.disk k hdev, hdisk, hplays.disk k hdev]

lemma exists_clientRun_logged :
    ∃ γ m, ClientRun mkfsLogArea true (.boot []) (fun _ => Bytes.zero) γ m ∧
      ⟨1, 100⟩ ∈ γ.logged ∧ ⟨1, 100⟩ ∈ γ.held ∧ γ.contents ⟨1, 100⟩ = (fun _ => 1) ∧
      m.disk ⟨1, 100⟩ = Bytes.zero ∧
      ∃ m', (ClientOp.bwrite ⟨1, 100⟩).code.run kernelHandler (m, .boot []) =
        .ok () (m', .boot []) ∧ m'.disk ⟨1, 100⟩ = fun _ => 1 := by
  have h₀ : ClientRun mkfsLogArea true (.boot []) (fun _ => Bytes.zero) _ _ := .boot
  have h₁ := h₀.call (.bread ⟨1, 100⟩) (by show (1 : ℕ) < 2; norm_num)
    (run_bio_bind (e := .bread ⟨1, 100⟩) rfl)
  have h₂ := h₁.call (.modify ⟨1, 100⟩ fun _ _ => 1) ⟨List.mem_cons_self, by decide⟩
    (run_bio rfl)
  have h₃ := h₂.call (.logWrite ⟨1, 100⟩) ⟨List.mem_cons_self, by decide⟩
    ((run_bio_bind (e := .logAdd ⟨1, 100⟩) rfl).trans (run_bio rfl))
  exact ⟨_, _, h₃, Finset.mem_insert_self _ _, List.mem_cons_self, rfl, rfl, _, run_bio rfl, rfl⟩

theorem client_view_logged :
    ∃ γ m, ClientRun mkfsLogArea true (.boot []) (fun _ => Bytes.zero) γ m ∧
      ⟨1, 100⟩ ∈ γ.logged ∧ m.view ⟨1, 100⟩ = (fun _ => 1 : Block) := by
  obtain ⟨γ, m, h, hlog, -, hc, -⟩ := exists_clientRun_logged
  have hview := client_view mkfsLogArea true (.boot []) _ (fun _ => rfl) γ m h
  exact ⟨γ, m, h, hlog, by rw [hview.1 ⟨1, 100⟩ (by norm_num) (by decide), hc]⟩

/-- A logged block can reach its home location before any commit: by `bwrite`. -/
theorem logged_block_written_home :
    ∃ γ m m', ClientRun mkfsLogArea true (.boot []) (fun _ => Bytes.zero) γ m ∧
      ⟨1, 100⟩ ∈ γ.logged ∧ γ.Allows mkfsLogArea (.bwrite ⟨1, 100⟩) ∧
      (ClientOp.bwrite ⟨1, 100⟩).code.run kernelHandler (m, .boot []) = .ok () (m', .boot []) ∧
      m'.disk ⟨1, 100⟩ ≠ m.disk ⟨1, 100⟩ := by
  obtain ⟨γ, m, h, hlog, hheld, -, hdisk, m', hr, hdisk'⟩ := exists_clientRun_logged
  refine ⟨γ, m, m', h, hlog, hheld, hr, fun he => ?_⟩
  have h01 : (1 : UInt8) = 0 := congrFun (hdisk'.symm.trans (he.trans hdisk)) ⟨0, by norm_num⟩
  exact absurd h01 (by decide)

end Xv6
