import Xv6.File.Shown

/-!
# Code that only looks

`readi`, `dirlookup` and `isdirempty` call `bmap`, which allocates a block where a file has a hole.
Files have no holes, so they allocate none: `rwp L p Q v fm` says of code that it leaves the volume
alone, passes no block to `log_write` and does not run out of blocks.  That holds of the three
functions whatever they are called with, as long as the entry of the inode cache is up to date.
-/

namespace Xv6

open Lib

section

variable {α β : Type} {L : Layout} {v : Vol} {fm : FsMem} {ip : Fin NINODE} {i : ℕ}

/-- The specification of code that leaves the volume alone. -/
def rwp (L : Layout) (p : K α) (Q : α → FsMem → Prop) (v : Vol) (fm : FsMem) : Prop :=
  ∀ a, L.Shows v a → a.dirty = ∅ →
    kwp (fun _ dirty => dirty = ∅) (fun x _ _ => x ≠ .stray ∧ x ≠ .panic .ballocOutOfBlocks) p
      (fun r a' fm' => L.Shows v a' ∧ a'.dirty = ∅ ∧ Q r fm') a fm

variable {Q Q' : α → FsMem → Prop}

lemma rwp_ret {r : α} (h : Q r fm) : rwp L (pure r) Q v fm :=
  fun _ hv hz => kwp_ret hz ⟨hv, hz, h⟩

lemma rwp_seq {p : K β} {f : β → K α} {M : β → FsMem → Prop} (hp : rwp L p M v fm)
    (hf : ∀ r fm', M r fm' → rwp L (f r) Q v fm') : rwp L (p >>= f) Q v fm := by
  intro a hv hz
  refine kwp_seq (hp a hv hz) ?_
  rintro r a' fm' ⟨hv', hz', hM⟩
  exact hf r fm' hM a' hv' hz'

lemma rwp_mono {p : K α} (hp : rwp L p Q v fm) (hQ : ∀ r fm', Q r fm' → Q' r fm') :
    rwp L p Q' v fm := by
  intro a hv hz
  refine kwp_mono (hp a hv hz) ?_
  rintro r a' fm' ⟨hv', hz', h⟩
  exact ⟨hv', hz', hQ r fm' h⟩

/-- A memory step that answers, or halts for a reason other than that blocks run out. -/
lemma rwp_mem {e : MemOp} {f : e.Ret → K α}
    (herr : ∀ x m, memHandler e fm = .error x m → x ≠ .stray ∧ x ≠ .panic .ballocOutOfBlocks)
    (hf : ∀ r m, memHandler e fm = .ok r m → rwp L (f r) Q v m) : rwp L (mem e >>= f) Q v fm := by
  intro a hv hz
  cases he : memHandler e fm with
  | ok r m =>
    have hs : storeHandler (.inr e) (a, fm) = .ok r (a, m) := by
      simp only [Handler.sum, he]
    exact Prog.wpc_op_ok hz hs (hf r m he a hv hz)
  | error x m =>
    have hs : storeHandler (.inr e) (a, fm) = .error x (a, m) := by
      simp only [Handler.sum, he]
    exact Prog.wpc_op_error hz hz hs (herr x m he)

lemma rwp_readInode {f : Inode → K α} (hf : rwp L (f (fm.icache ip)) Q v fm) :
    rwp L (readInode ip >>= f) Q v fm := by
  refine rwp_mem (e := .inode ip) (fun x m he => nomatch he) fun r m he => ?_
  obtain ⟨rfl, rfl⟩ := EStateM.Result.ok.inj he
  exact hf

lemma rwp_panic {p : Panic} (hp : p ≠ .ballocOutOfBlocks) : rwp L (panic p : K α) Q v fm := by
  intro a hv hz
  have hs : storeHandler (.inr (.panic p)) (a, fm) = .error (.panic p) (a, fm) := rfl
  exact Prog.wpc_op_error hz hz hs ⟨Halt.noConfusion, fun h => hp (Halt.panic.inj h)⟩

lemma rwp_of_fwp {p : K α} (hlim : L.limit = some 0) (hs : ¬ L.scarce)
    (h : fwp L (fun _ => True) p (fun r v' fm' => v' = v ∧ Q r fm') v fm) : rwp L p Q v fm := by
  intro a hv hz
  have hnone : ∀ x, ¬ L.Halts x := fun x hx => by
    cases x with
    | panic p =>
      cases p <;>
        first | exact hx | exact hs hx | exact hs hx.1 | exact nomatch hlim.symm.trans hx
    | blocked => exact hs hx.1
    | stray => exact hx
  have hdirty : ∀ {dirty : Finset BufRef}, L.Room dirty.card → dirty = ∅ := fun hroom =>
    Finset.card_eq_zero.mp (Nat.le_zero.mp (hroom 0 hlim))
  have hkwp := h a hv trivial
  refine ⟨fun t ht => hdirty (hkwp.1 t ht).1, ?_⟩
  cases hrun : p.run storeHandler (a, fm) with
  | ok r s' =>
    obtain ⟨v', hv', -, rfl, hQ⟩ := Prog.wp_ok hkwp.2 hrun
    exact Prog.wp_of_run_ok hrun ⟨hv', hdirty (hkwp.1 s' (Prog.visits_of_run_ok hrun)).1, hQ⟩
  | error x s' => exact absurd (kwp_error hkwp hrun).1 (hnone x)

/-! ## The functions -/

/-- A volume on which nothing needs room in the log, and a memory whose entry `ip` is up to date. -/
structure Looking (L : Layout) (v : Vol) (fm : FsMem) (ip : Fin NINODE) : Prop where
  limit : L.limit = some 0
  scarce : ¬ L.scarce
  held : v.held = []
  pend : v.pend = ∅
  caches : fm.Caches ip (fm.icache ip).inum
  within : L.Within v.blk (fm.icache ip).din
  full : (fm.icache ip).din.Full v.blk

lemma Looking.congr {fm' : FsMem} (h : Looking L v fm ip) (hic : fm'.icache = fm.icache) :
    Looking L v fm' ip where
  limit := h.limit
  scarce := h.scarce
  held := h.held
  pend := h.pend
  caches := by
    have hc := h.caches
    rwa [FsMem.Caches, ← hic] at hc
  within := hic ▸ h.within
  full := hic ▸ h.full

lemma rwp_readi (h : Looking L v fm ip) {off m : ℕ} (hm : m < UINT) :
    rwp L (readi ip off m) (fun _ fm' => fm'.icache = fm.icache) v fm := by
  by_cases ht : (fm.icache ip).din.type = T_DEV
  · refine rwp_readInode ?_
    rw [if_pos ht]
    by_cases hdev : hasDevice (fm.icache ip).din.major = true
    · rw [if_pos hdev]
      refine rwp_mem (fun x q he => ?_) fun r q he => ?_
      all_goals
        simp only [memHandler] at he
        split at he
      · cases he
      · obtain ⟨rfl, -⟩ := EStateM.Result.error.inj he
        exact ⟨Halt.noConfusion, Halt.noConfusion⟩
      · obtain ⟨-, rfl⟩ := EStateM.Result.ok.inj he
        exact rwp_ret rfl
      · cases he
    · rw [if_neg hdev]
      exact rwp_ret rfl
  · refine rwp_of_fwp h.limit h.scarce ?_
    have hheld : v.held.length ≤ 1 := by rw [h.held]; exact Nat.zero_le 1
    refine fwp_mono (fwp_readi h.caches rfl h.within h.pend hheld h.full ht hm) ?_
    rintro r v' fm' ⟨rfl, rfl, -⟩
    exact ⟨rfl, rfl⟩

/-- A turn of a loop over the entries of a directory: an entry is read and handed on. -/
private lemma rwp_entry {stop : K α} {body : Option (List UInt8) → K α} {off : ℕ}
    (h : Looking L v fm ip)
    (hbody : ∀ r fm', Looking L v fm' ip → rwp L (body r) Q v fm')
    (hstop : rwp L stop Q v fm) :
    rwp L (readInode ip >>= fun i => if off < i.din.size then readi ip off DIRENTSIZE >>= body
      else stop) Q v fm := by
  refine rwp_readInode ?_
  split_ifs
  · exact rwp_seq (rwp_readi h (by decide)) fun r fm' hic => hbody r fm' (h.congr hic)
  · exact hstop

private lemma rwp_dirlookupFrom {name : Name} (turns : ℕ) {off : ℕ} (h : Looking L v fm ip) :
    rwp L (dirlookupFrom ip name turns off) (fun _ _ => True) v fm := by
  induction turns generalizing off fm with
  | zero => exact rwp_ret trivial
  | succ turns ih =>
    refine rwp_entry h (fun r fm' h' => ?_) (rwp_ret trivial)
    cases r with
    | none => exact rwp_panic Panic.noConfusion
    | some l =>
      dsimp only
      split_ifs with hlen hmatch
      · exact rwp_panic Panic.noConfusion
      · refine rwp_readInode (rwp_mem (fun x q he => ?_) fun jp q _ => rwp_ret trivial)
        simp only [memHandler] at he
        split at he
        · cases he
        · cases he
        · obtain ⟨rfl, -⟩ := EStateM.Result.error.inj he
          exact ⟨Halt.noConfusion, fun hx => Panic.noConfusion (Halt.panic.inj hx)⟩
      · exact ih h'

lemma rwp_dirlookup {name : Name} (h : Looking L v fm ip) :
    rwp L (dirlookup ip name) (fun _ _ => True) v fm := by
  refine rwp_readInode ?_
  split_ifs
  · exact rwp_panic Panic.noConfusion
  · exact rwp_dirlookupFrom _ h

private lemma rwp_isdiremptyFrom (turns : ℕ) {off : ℕ} (h : Looking L v fm ip) :
    rwp L (isdiremptyFrom ip turns off) (fun _ _ => True) v fm := by
  induction turns generalizing off fm with
  | zero => exact rwp_ret trivial
  | succ turns ih =>
    refine rwp_entry h (fun r fm' h' => ?_) (rwp_ret trivial)
    cases r with
    | none => exact rwp_panic Panic.noConfusion
    | some l =>
      dsimp only
      split_ifs
      · exact rwp_panic Panic.noConfusion
      · exact rwp_ret trivial
      · exact ih h'

lemma rwp_isdirempty (h : Looking L v fm ip) :
    rwp L (isdirempty ip) (fun _ _ => True) v fm := rwp_isdiremptyFrom _ h

/-! ## On the machine -/

/-- The code passes no block to `log_write`, leaves the blocks behind the log as the buffer cache
shows them, and does not run out of blocks. -/
structure World.Looks (L : Layout) (w : World) (p : K α) : Prop where
  ledger : ∀ q, Prog.Reaches (Handler.track kernelHandler ledger) p ((w.machine, w.mem), ∅) q →
    q.2 = ∅
  blocks : ∀ r m fm, p.run kernelHandler (w.machine, w.mem) = .ok r (m, fm) →
    ∀ b, L.Out b → m.view (onDev b) = w.blk b
  halts : ∀ x q, p.run kernelHandler (w.machine, w.mem) = .error x q →
    x ≠ .panic .ballocOutOfBlocks

/-- The layout for code that logs nothing and needs no resources. -/
def Layout.silent (L : Layout) : Layout :=
  (L.limited (some 0) (fun _ hn hpos => absurd (Option.some.inj hn) hpos.ne)
    (fun _ hn => Option.some.inj hn ▸ Nat.le_of_ble_eq_true rfl)).ample

variable {O : ℕ → Prop} {w : World} {ino : Inos} {s : Fs}

lemma World.Sound.logged (h : w.Sound L O ino v s) : v.logged = ∅ := by
  obtain ⟨t, hold, hs⟩ := h.settled
  exact h.rep.logged_eq_empty hs.holds

lemma World.Sound.looking (h : w.Sound L O ino v s) (hr : 0 < (w.mem.icache ip).ref)
    (hv : (w.mem.icache ip).valid = true) : Looking L.silent v w.mem ip := by
  obtain ⟨hdev, hino⟩ := h.din_eq hr hv
  rw [h.inos_eq] at hino
  exact ⟨rfl, id, h.rep.held, h.rep.pend, ⟨hr, hdev, rfl⟩, h.rep.owns.within hino, h.rep.full hino⟩

/-- **Code that only looks**, from a sound world. -/
lemma World.Sound.looks (h : w.Sound L O ino v s) {p : K α}
    (hp : rwp L.silent p (fun _ _ => True) v w.mem) : w.Looks L p := by
  obtain ⟨a, hplays, hshows⟩ := h.on
  have hdirty := hshows.dirty_eq_empty h.logged
  have hshows' : L.silent.Shows v a :=
    { hshows with room := fun n hn => by rw [h.logged]; exact Nat.zero_le _ }
  have hkwp := hp a hshows' hdirty
  have hstray : ∀ (_ : Account) (_ : FsMem),
      ¬ (Halt.stray ≠ .stray ∧ Halt.stray ≠ .panic .ballocOutOfBlocks) := fun _ _ hx => hx.1 rfl
  refine ⟨fun q hq => ?_, fun r m fm hrun b hb => ?_, fun x q hrun => ?_⟩
  · obtain ⟨a', ha', -, hy⟩ := kwp_kernel_ledger hkwp hstray hplays hdirty hq
    exact hy.trans ha'
  · rcases kwp_kernel hkwp hstray hplays with
      ⟨r', a', m', fm', hrun', hplays', hv', -⟩ | ⟨x, a', t, hrun', -⟩
    · obtain ⟨-, hpair⟩ := EStateM.Result.ok.inj (hrun.symm.trans hrun')
      obtain ⟨rfl, -⟩ := Prod.mk.inj hpair
      rw [h.blk_eq hb, hplays'.view_eq (by norm_num [onDev]), hv'.mem b hb]
    · cases hrun.symm.trans hrun'
  · rcases kwp_kernel hkwp hstray hplays with ⟨_, _, _, _, hrun', -⟩ | ⟨x', a', t, hrun', hx', -⟩
    · cases hrun.symm.trans hrun'
    · obtain ⟨rfl, -⟩ := EStateM.Result.error.inj (hrun.symm.trans hrun')
      exact hx'.2

end

end Xv6
