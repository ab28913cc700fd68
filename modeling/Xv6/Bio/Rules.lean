import Xv6.Bio.Refinement
import Xv6.Kernel.Mem

/-!
# Rules for kernel code on the block store

Kernel code is verified against the block store.  `kwp C A p Q a fm` says that the code `p`,
started in the store `a` with the memory `fm`,

* leaves the drives and the set of pinned blocks in `C` wherever it can be interrupted,
* halts, if it halts, for a reason in `A`, and
* returns in `Q`.

There is one rule for every buffer step, and `kwp_seq` and `kwp_mono` put them together, so that a
proof about a function follows its code.  The first of the three items is what crash safety needs:
a crash can come between any two steps, and only the drives survive it.

The theorems at the end carry a finished proof over to the buffer cache of `bio.c`: what the code
returns and how it halts (`kwp_kernel`), what the drives go through (`kwp_kernel_visits`,
`kwp_kernel_reaches`), and which blocks have been passed to `log_write` and not been written home
since (`kwp_kernel_ledger`).
-/

namespace Xv6

open Lib

/-- Kernel code on the block store. -/
abbrev storeHandler : Handler (BioOp ⊕ MemOp) (Sum.elim BioOp.Ret MemOp.Ret) Halt
    (Account × FsMem) :=
  accountHandler.sum memHandler

/-- Kernel code on the buffer cache. -/
abbrev kernelHandler : Handler (BioOp ⊕ MemOp) (Sum.elim BioOp.Ret MemOp.Ret) Halt
    (Machine × FsMem) :=
  cacheHandler.sum memHandler

lemma run_bio_bind {α : Type} {e : BioOp} {r : e.Ret} {m m' : Machine} {fm : FsMem}
    {f : e.Ret → K α} (he : cacheHandler e m = .ok r m') :
    (bio e >>= f).run kernelHandler (m, fm) = (f r).run kernelHandler (m', fm) :=
  Prog.run_op_ok kernelHandler (e := .inl e) (r := r) (by simp only [Handler.sum, he])

lemma run_bio {e : BioOp} {r : e.Ret} {m m' : Machine} {fm : FsMem}
    (he : cacheHandler e m = .ok r m') :
    (bio e).run kernelHandler (m, fm) = .ok r (m', fm) :=
  Prog.run_op_ok kernelHandler (e := .inl e) (r := r) (by simp only [Handler.sum, he])

lemma run_mem_bind {α : Type} {e : MemOp} {r : e.Ret} {m : Machine} {fm fm' : FsMem}
    {f : e.Ret → K α} (he : memHandler e fm = .ok r fm') :
    (mem e >>= f).run kernelHandler (m, fm) = (f r).run kernelHandler (m, fm') :=
  Prog.run_op_ok kernelHandler (e := .inr e) (r := r) (by simp only [Handler.sum, he])

/-- The specification of kernel code on the block store: `C` holds of the drives and the pinned
blocks in every state that the code visits, `A` of a halt, and `Q` of the result.  A crash condition
that says nothing is `fun _ _ => True`, and code that does not halt has `fun _ _ _ => False`. -/
def kwp {α : Type} (C : (BufRef → Block) → Finset BufRef → Prop)
    (A : Halt → Account → FsMem → Prop) (p : K α) (Q : α → Account → FsMem → Prop) (a : Account)
    (fm : FsMem) : Prop :=
  Prog.wpc storeHandler (fun s => C s.1.disk s.1.dirty) (fun x s => A x s.1 s.2) p
    (fun r s => Q r s.1 s.2) (a, fm)

section Rules

variable {α β : Type} {C : (BufRef → Block) → Finset BufRef → Prop}
  {A : Halt → Account → FsMem → Prop} {Q Q' : α → Account → FsMem → Prop} {a : Account}
  {fm : FsMem} {k : BufRef}

lemma kwp_ret {r : α} (hC : C a.disk a.dirty) (hQ : Q r a fm) : kwp C A (pure r) Q a fm :=
  Prog.wpc_ret hC hQ

lemma kwp_seq {p : K β} {f : β → K α} {M : β → Account → FsMem → Prop} (hp : kwp C A p M a fm)
    (hf : ∀ b a' fm', M b a' fm' → kwp C A (f b) Q a' fm') : kwp C A (p >>= f) Q a fm :=
  Prog.wpc_seq hp fun b s => hf b s.1 s.2

lemma kwp_mono {p : K α} (hp : kwp C A p Q a fm)
    (hQ : ∀ r a' fm', Q r a' fm' → Q' r a' fm') : kwp C A p Q' a fm :=
  Prog.wpc_mono hp (fun _ h => h) fun r s => hQ r s.1 s.2

lemma kwp_last {p : K α} (hp : kwp C A (p >>= fun r => pure r) Q a fm) : kwp C A p Q a fm := by
  rwa [show (p >>= fun r => pure r) = p from Prog.bind_ret' p] at hp

private lemma kwp_bio_ok {e : BioOp} {r : e.Ret} {a' : Account} {f : e.Ret → K α}
    (hC : C a.disk a.dirty) (he : accountHandler e a = .ok r a') (hf : kwp C A (f r) Q a' fm) :
    kwp C A (bio e >>= f) Q a fm := by
  have hs : storeHandler (.inl e) (a, fm) = .ok r (a', fm) := by
    simp only [Handler.sum, he]
  exact Prog.wpc_op_ok hC hs hf

private lemma kwp_bio_error {e : BioOp} {x : Halt} {f : e.Ret → K α}
    (hC : C a.disk a.dirty) (he : accountHandler e a = .error x a) (hx : A x a fm) :
    kwp C A (bio e >>= f) Q a fm := by
  have hs : storeHandler (.inl e) (a, fm) = .error x (a, fm) := by
    simp only [Handler.sum, he]
  exact Prog.wpc_op_error hC hC hs hx

lemma kwp_bread {f : BufRef → K α} (hdev : k.dev < 2) (hC : C a.disk a.dirty)
    (hfit : ¬ a.Fits k → A (.panic .bgetNoBuffers) a fm)
    (hone : k.dev ≠ 0 → a.havedisk1 = false → A (.panic .ideDisk1NotPresent) a fm)
    (hno : FSSIZE ≤ k.blockno → A (.panic .incorrectBlockno) a fm)
    (hf : a.InRange k → a.Fits k → kwp C A (f k) Q { a with held := k :: a.held } fm) :
    kwp C A (bread k.dev k.blockno >>= f) Q a fm := by
  show kwp C A (bio (.bread k) >>= fun _ => f k) Q a fm
  have hA : accountHandler (.bread k) a =
      if ¬ a.Fits k then .error (.panic .bgetNoBuffers) a
      else if k.dev ≠ 0 ∧ a.havedisk1 = false then .error (.panic .ideDisk1NotPresent) a
      else if FSSIZE ≤ k.blockno then .error (.panic .incorrectBlockno) a
      else .ok () { a with held := k :: a.held } := by
    simp only [accountHandler, if_neg (Nat.not_le.mpr hdev)]
  by_cases h1 : a.Fits k
  · rw [if_neg (not_not.mpr h1)] at hA
    by_cases h2 : k.dev ≠ 0 ∧ a.havedisk1 = false
    · rw [if_pos h2] at hA
      exact kwp_bio_error hC hA (hone h2.1 h2.2)
    · rw [if_neg h2] at hA
      by_cases h3 : FSSIZE ≤ k.blockno
      · rw [if_pos h3] at hA
        exact kwp_bio_error hC hA (hno h3)
      · rw [if_neg h3] at hA
        refine kwp_bio_ok hC hA (hf ⟨hdev, fun h0 => ?_, Nat.not_le.mp h3⟩ h1)
        exact Bool.eq_true_of_not_eq_false fun hh => h2 ⟨h0, hh⟩
  · rw [if_pos h1] at hA
    exact kwp_bio_error hC hA (hfit h1)

lemma kwp_bread_inRange {f : BufRef → K α} (hk : a.InRange k) (hC : C a.disk a.dirty)
    (hfit : ¬ a.Fits k → A (.panic .bgetNoBuffers) a fm)
    (hf : kwp C A (f k) Q { a with held := k :: a.held } fm) :
    kwp C A (bread k.dev k.blockno >>= f) Q a fm := by
  refine kwp_bread hk.1 hC hfit (fun h0 hh => ?_) (fun hno => ?_) fun _ _ => hf
  · rw [hk.2.1 h0] at hh
    cases hh
  · exact absurd hk.2.2 (Nat.not_lt.mpr hno)

lemma kwp_brelse {f : Unit → K α} (hC : C a.disk a.dirty) (hk : k ∈ a.held)
    (hp : k ∈ a.pend → k ∈ a.held.erase k)
    (hf : kwp C A (f ()) Q { a with held := a.held.erase k } fm) :
    kwp C A (brelse k >>= f) Q a fm := by
  refine kwp_bio_ok hC (e := .brelse k) (r := ()) ?_ hf
  simp only [accountHandler, asHolder, if_pos hk]
  rw [if_neg]
  rintro ⟨h1, h2⟩
  exact h2 (hp h1)

lemma kwp_bwrite {f : Unit → K α} (hC : C a.disk a.dirty) (hk : k ∈ a.held)
    (hf : kwp C A (f ()) Q (a.flush k) fm) : kwp C A (bwrite k >>= f) Q a fm :=
  kwp_bio_ok hC (e := .bwrite k) (r := ()) (by simp only [accountHandler, asHolder, if_pos hk]) hf

lemma kwp_bdata {f : Block → K α} (hC : C a.disk a.dirty) (hk : k ∈ a.held)
    (hf : kwp C A (f (a.mem k)) Q a fm) : kwp C A (bdata k >>= f) Q a fm :=
  kwp_bio_ok hC (e := .data k) (r := a.mem k)
    (by simp only [accountHandler, asHolder, if_pos hk]) hf

lemma kwp_bstore {g : Block → Block} {f : Unit → K α} (hC : C a.disk a.dirty) (hk : k ∈ a.held)
    (hf : kwp C A (f ()) Q (a.write k (g (a.mem k))) fm) : kwp C A (bstore k g >>= f) Q a fm :=
  kwp_bio_ok hC (e := .store k g) (r := ())
    (by simp only [accountHandler, asHolder, if_pos hk]) hf

lemma kwp_bcopy {src : BufRef} {f : Unit → K α} (hC : C a.disk a.dirty) (hk : k ∈ a.held)
    (hs : src ∈ a.held) (hf : kwp C A (f ()) Q (a.write k (a.mem src)) fm) :
    kwp C A (bcopy k src >>= f) Q a fm :=
  kwp_bio_ok hC (e := .copy k src) (r := ())
    (by simp only [accountHandler, asHolder, if_pos hk, if_pos hs]) hf

lemma kwp_getLog {L : Log} {f : Log → K α} (hL : a.log = L) (hC : C a.disk a.dirty)
    (hf : kwp C A (f L) Q a fm) : kwp C A (getLog >>= f) Q a fm :=
  kwp_bio_ok hC (e := .log) (r := L) (by rw [← hL]; rfl) hf

lemma kwp_setLog {g : Log → Log} {f : Unit → K α} (hC : C a.disk a.dirty)
    (hf : kwp C A (f ()) Q { a with log := g a.log } fm) : kwp C A (setLog g >>= f) Q a fm :=
  kwp_bio_ok hC (e := .setLog g) (r := ()) rfl hf

lemma kwp_logWrite {f : Unit → K α} (hC : C a.disk a.dirty) (hk : k ∈ a.held)
    (hfull : a.log.full → A (.panic .tooBigTransaction) a fm)
    (hf : ¬ a.log.full →
      kwp C A (f ()) Q ({ a with log := a.log.add k.blockno }.pin k) fm) :
    kwp C A (logWrite k >>= f) Q a fm := by
  show kwp C A (bio (.logAdd k) >>= fun _ => bio (.markDirty k) >>= f) Q a fm
  have hA : accountHandler (.logAdd k) a =
      if a.log.full then .error (.panic .tooBigTransaction) a
      else .ok () { a with log := a.log.add k.blockno } := by
    simp only [accountHandler, asHolder, if_pos hk]
  by_cases h1 : a.log.full
  · rw [if_pos h1] at hA
    exact kwp_bio_error hC hA (hfull h1)
  · rw [if_neg h1] at hA
    refine kwp_bio_ok hC hA (kwp_bio_ok hC (e := .markDirty k) (r := ()) ?_ (hf h1))
    simp only [accountHandler, asHolder, if_pos hk]

end Rules

/-! ## From the store to the cache -/

section Transfer

variable {α : Type} {C : (BufRef → Block) → Finset BufRef → Prop}
  {A : Halt → Account → FsMem → Prop} {p : K α} {Q : α → Account → FsMem → Prop} {a : Account}
  {m : Machine} {fm : FsMem}

lemma kernel_step (e : BioOp ⊕ MemOp) (s : Account × FsMem) (t : Machine × FsMem)
    (h : relFst Plays s t) :
    Prog.SimResult (relFst Plays) (relFst SameDisk) (· ≠ .stray) (storeHandler e s)
      (kernelHandler e t) :=
  Handler.sum_sim (fun _ _ h => h.disk) Plays.step e s t h

lemma kwp_error {x : Halt} {s : Account × FsMem} (h : kwp C A p Q a fm)
    (hr : p.run storeHandler (a, fm) = .error x s) : A x s.1 s.2 :=
  Prog.wp_error (A := fun x s => A x s.1 s.2) h.2 hr

/-- **Code that is verified on the store behaves the same on the cache.**  Where it halts for want
of something on the drive, the cache still plays the store. -/
theorem kwp_kernel (h : kwp C A p Q a fm) (hA : ∀ a fm, ¬ A .stray a fm) (hplays : Plays a m) :
    (∃ r a' m' fm', p.run kernelHandler (m, fm) = .ok r (m', fm') ∧ Plays a' m' ∧ Q r a' fm') ∨
      ∃ x a' t, p.run kernelHandler (m, fm) = .error x t ∧ A x a' t.2 ∧
        (x.AboveStore → Plays a' t.1) := by
  cases hr : p.run storeHandler (a, fm) with
  | ok r s =>
    have hsim := Prog.run_sim kernel_step p (s := (a, fm)) (t := (m, fm)) ⟨hplays, rfl⟩
    rw [hr] at hsim
    obtain ⟨⟨m', fm'⟩, ht, hrel, rfl : s.2 = fm'⟩ := hsim
    exact Or.inl ⟨r, s.1, m', s.2, ht, hrel,
      Prog.wp_ok (Q := fun r s => Q r s.1 s.2) h.2 hr⟩
  | error x s =>
    have hx : A x s.1 s.2 := kwp_error h hr
    obtain ⟨e, s₀, t₀, t, ⟨hplays₀, hfm⟩, hs, ht, hrun⟩ := Prog.error_sim kernel_step p
      (s := (a, fm)) (t := (m, fm)) ⟨hplays, rfl⟩ (fun hs => hA _ _ (hs ▸ hx)) hr
    obtain ⟨a₀, fm₀⟩ := s₀
    obtain ⟨m₀, fm₁⟩ := t₀
    obtain rfl : fm₀ = fm₁ := hfm
    obtain ⟨a', fm', m', rfl, rfl, hstore⟩ : ∃ a' fm' m', s = (a', fm') ∧ t = (m', fm') ∧
        (x.AboveStore → Plays a' m') := by
      cases e with
      | inl e =>
        obtain ⟨a', ha, rfl⟩ := Handler.sum_inl_error hs
        obtain ⟨m', -, rfl⟩ := Handler.sum_inl_error ht
        exact ⟨a', fm₀, m', rfl, rfl, fun habove => absurd habove (not_aboveStore ha)⟩
      | inr e =>
        obtain ⟨fm', hm, rfl⟩ := Handler.sum_inr_error hs
        obtain ⟨fm'', hm', rfl⟩ := Handler.sum_inr_error ht
        obtain ⟨-, rfl⟩ := EStateM.Result.error.inj (hm.symm.trans hm')
        exact ⟨a₀, fm', m₀, rfl, rfl, fun _ => hplays₀⟩
    exact Or.inr ⟨x, a', _, hrun, hx, hstore⟩

/-- **Interruptions on the cache leave the drives as interruptions on the store do.** -/
theorem kwp_kernel_visits (h : kwp C A p Q a fm) (hA : ∀ a fm, ¬ A .stray a fm) (hplays : Plays a m)
    {t : Machine × FsMem} (ht : Prog.Visits kernelHandler p (m, fm) t) :
    ∃ d dirty, C d dirty ∧ ∀ k : BufRef, k.dev < 2 → t.1.disk k = d k := by
  obtain ⟨s, hs, hsame, -⟩ := Prog.visits_sim kernel_step
    (fun _ _ hr => ⟨hr.1.disk, hr.2⟩) (s := (a, fm)) (t := (m, fm)) ⟨hplays, rfl⟩
    (fun x s' hx => fun hs => hA _ _ (hs ▸ kwp_error h hx)) ht
  exact ⟨s.1.disk, s.1.dirty, h.1 s hs, hsame⟩

/-- **Between two steps the cache plays a store that the specification admits.** -/
theorem kwp_kernel_reaches (h : kwp C A p Q a fm) (hA : ∀ a fm, ¬ A .stray a fm)
    (hplays : Plays a m) {t : Machine × FsMem} (ht : Prog.Reaches kernelHandler p (m, fm) t) :
    ∃ a', C a'.disk a'.dirty ∧ Plays a' t.1 := by
  obtain ⟨s, hs, hrel, -⟩ := Prog.reaches_sim kernel_step (s := (a, fm)) (t := (m, fm))
    ⟨hplays, rfl⟩ (fun x s' hx => fun hs => hA _ _ (hs ▸ kwp_error h hx)) ht
  exact ⟨s.1, h.1 s hs.visits, hrel⟩

/-- The blocks passed to `log_write` whose home has not been written since. -/
def ledger : BioOp ⊕ MemOp → Finset BufRef → Finset BufRef
  | .inl (.markDirty k), y => insert k y
  | .inl (.bwrite k), y => y.erase k
  | _, y => y

lemma ledger_eq (e : BioOp ⊕ MemOp) (s : Account × FsMem) (r : Sum.elim BioOp.Ret MemOp.Ret e)
    (s' : Account × FsMem) (y : Finset BufRef) (he : storeHandler e s = .ok r s')
    (hy : y = s.1.dirty) : ledger e y = s'.1.dirty := by
  subst hy
  cases e with
  | inl e =>
    simp only [Handler.sum] at he
    cases ha : accountHandler e s.1 with
    | ok r' a' =>
      rw [ha] at he
      obtain ⟨rfl, rfl⟩ := EStateM.Result.ok.inj he
      rw [eq_after_of_ok ha]
      cases e <;> rfl
    | error x a' =>
      rw [ha] at he
      cases he
  | inr e =>
    simp only [Handler.sum] at he
    cases hm : memHandler e s.2 with
    | ok r' m' =>
      rw [hm] at he
      obtain ⟨rfl, rfl⟩ := EStateM.Result.ok.inj he
      rfl
    | error x m' =>
      rw [hm] at he
      cases he

/-- **Between two steps the blocks passed to `log_write` are the dirty ones of a store that the
specification admits.** -/
theorem kwp_kernel_ledger (h : kwp C A p Q a fm) (hA : ∀ a fm, ¬ A .stray a fm)
    (hplays : Plays a m) (hclean : a.dirty = ∅) {t : (Machine × FsMem) × Finset BufRef}
    (ht : Prog.Reaches (Handler.track kernelHandler ledger) p ((m, fm), ∅) t) :
    ∃ a', C a'.disk a'.dirty ∧ Plays a' t.1.1 ∧ t.2 = a'.dirty := by
  obtain ⟨s, hs, hrel, hy⟩ := Prog.reaches_sim (Handler.track_sim kernel_step ledger_eq)
    (s := (a, fm)) (t := ((m, fm), ∅)) ⟨⟨hplays, rfl⟩, hclean.symm⟩
    (fun x s' hx => fun hs => hA _ _ (hs ▸ kwp_error h hx)) ht
  exact ⟨s.1, h.1 s hs.visits, hrel.1, hy⟩

/-- Two stores that a cache plays have the same dirty blocks. -/
lemma Plays.dirty_unique {a' : Account} (h : Plays a m) (h' : Plays a' m) : a.dirty = a'.dirty := by
  refine Finset.Subset.antisymm (fun k hk => ?_) fun k hk => ?_
  · obtain ⟨i, hi, -⟩ := h.live k (Or.inr hk)
    exact (h'.dirty k i hi).mp ((h.dirty k i hi).mpr hk)
  · obtain ⟨i, hi, -⟩ := h'.live k (Or.inr hk)
    exact (h.dirty k i hi).mp ((h'.dirty k i hi).mpr hk)

lemma reaches_mem {e : MemOp} {r : e.Ret} {fm' : FsMem} {f : e.Ret → K α}
    {q : Machine × FsMem} (he : memHandler e fm = .ok r fm')
    (hq : Prog.Reaches kernelHandler (f r) (m, fm') q) :
    Prog.Reaches kernelHandler (mem e >>= f) (m, fm) q := by
  have hk : kernelHandler (.inr e) (m, fm) = .ok r (m, fm') := by simp only [Handler.sum, he]
  exact .step hk hq

end Transfer

end Xv6
