import Xv6.Lib.Monitor
import Xv6.Sched.Simulation
import Mathlib.Algebra.BigOperators.Group.Finset.Piecewise
import Mathlib.Algebra.Order.BigOperators.Group.Finset

/-!
# The buffers a process holds

Kernel code uses the buffers it holds and no others, and gives every one of them up in the end.
That is a fact about the code of one function, whatever the other processes do, and `grip` is the
monitor for it: it keeps the list of buffers that a process holds, and of those it has changed
and not yet pinned or written.

* `Neat p` says that `p` keeps to this and ends as it began.  It is closed under sequencing, and is
  shown for the code of `log.c` in `Xv6.Log.Overlap`.
* `account_grip` and `account_not_stray` compare the monitor with the block store, which keeps the
  same books for all holders together: a step that the monitor admits is not refused as stray.

`Pool.Gripped` adds the processes up: the references of the block store are those of the
processes together.  It is kept by every step of the pool (`Pool.Gripped.step`), and it is the
larger part of `Pool.Safe`.  Since the monitor asks nothing of the answers that the code gets, what
other processes write into a block in between does not matter.
-/

namespace Xv6

open Lib

/-- The buffers a process holds, and those it has changed since they were last pinned or
written. -/
structure Grip where
  held : List BufRef
  pend : Finset BufRef

/-- Nothing is held. -/
def Grip.empty : Grip := ⟨[], ∅⟩

/-- Changed buffers are held. -/
def Grip.Firm (l : Grip) : Prop := ∀ k ∈ l.pend, k ∈ l.held

/-- The grip after a buffer step. -/
def Grip.next (l : Grip) : BioOp → Grip
  | .bread k => { l with held := k :: l.held }
  | .brelse k => { l with held := l.held.erase k }
  | .bwrite k | .markDirty k => { l with pend := l.pend.erase k }
  | .store k _ | .copy k _ => { l with pend := insert k l.pend }
  | .data _ | .logAdd _ | .log | .setLog _ => l

/-- The buffer step uses what is held, and gives up nothing that has changes nobody knows of. -/
def Grip.Ok (l : Grip) : BioOp → Prop
  | .brelse k => k ∈ l.held ∧ (k ∈ l.pend → k ∈ l.held.erase k)
  | .bwrite k | .data k | .store k _ | .logAdd k | .markDirty k => k ∈ l.held
  | .copy dst src => dst ∈ l.held ∧ src ∈ l.held
  | .bread _ | .log | .setLog _ => True

/-- The monitor of the buffers a process holds. -/
def grip : Monitor (BioOp ⊕ MemOp) (Sum.elim BioOp.Ret MemOp.Ret) Grip where
  ok l
    | .inl e => l.Ok e
    | .inr _ => True
  ans _ _ _ := True
  next l e _ :=
    match e with
    | .inl e => l.next e
    | .inr _ => l

/-- Code that gives up what it takes. -/
def Neat {α : Type} (p : K α) : Prop :=
  ∀ l : Grip, l.Firm → p.Obeys grip (fun _ l' => l'.held = l.held ∧ l'.pend ⊆ l.pend) l

/-! ## The monitor on one process -/

namespace Grip

variable {l l' : Grip} {e : BioOp} {k : BufRef}

lemma Firm.next (h : l.Firm) (hok : l.Ok e) : (l.next e).Firm := by
  intro k hk
  cases e with
  | bread b => exact List.mem_cons_of_mem b (h k hk)
  | brelse b =>
    by_cases hkb : k = b
    · rw [hkb] at hk ⊢
      exact hok.2 hk
    · exact (List.mem_erase_of_ne hkb).mpr (h k hk)
  | bwrite b | markDirty b => exact h k (Finset.mem_of_mem_erase hk)
  | store b f =>
    rcases Finset.mem_insert.mp hk with rfl | hk
    · exact hok
    · exact h k hk
  | copy b c =>
    rcases Finset.mem_insert.mp hk with rfl | hk
    · exact hok.1
    · exact h k hk
  | data b | logAdd b | log | setLog f => exact h k hk

/-- A step adds or drops the same reference in any two lists that both have it. -/
lemma count_next (hok : l.Ok e) (hok' : l'.Ok e) (k : BufRef) :
    (l.next e).held.count k + l'.held.count k = (l'.next e).held.count k + l.held.count k := by
  cases e with
  | bread b =>
    simp only [Grip.next, List.count_cons]
    omega
  | brelse b =>
    simp only [Grip.next, List.count_erase]
    have hb : 0 < l.held.count b := List.count_pos_iff.mpr hok.1
    have hb' : 0 < l'.held.count b := List.count_pos_iff.mpr hok'.1
    by_cases hkb : b = k
    · subst hkb
      simp only [beq_self_eq_true, if_true]
      omega
    · simp [hkb]
      omega
  | bwrite b | markDirty b | store b f | copy b c | data b | logAdd b | log | setLog f =>
    exact Nat.add_comm _ _

end Grip

section Monitor

variable {α L : Type} {M : Monitor (BioOp ⊕ MemOp) (Sum.elim BioOp.Ret MemOp.Ret) L}
  {Q : α → L → Prop} {l : L}

lemma obeys_bio {e : BioOp} {f : e.Ret → K α} (hok : M.ok l (.inl e))
    (hf : ∀ r, M.ans l (.inl e) r → (f r).Obeys M Q (M.next l (.inl e) r)) :
    (bio e >>= f).Obeys M Q l :=
  ⟨hok, hf⟩

lemma obeys_bread {dev blockno : ℕ} {f : BufRef → K α}
    (hok : M.ok l (.inl (.bread ⟨dev, blockno⟩)))
    (hf : ∀ r, M.ans l (.inl (.bread ⟨dev, blockno⟩)) r →
      (f ⟨dev, blockno⟩).Obeys M Q (M.next l (.inl (.bread ⟨dev, blockno⟩)) r)) :
    (bread dev blockno >>= f).Obeys M Q l :=
  ⟨hok, hf⟩

end Monitor

section Rules

variable {α : Type} {Q : α → Grip → Prop} {l : Grip} {e : BioOp}

lemma grip_bio {f : e.Ret → K α} (hok : l.Ok e) (hf : ∀ r, (f r).Obeys grip Q (l.next e)) :
    (bio e >>= f).Obeys grip Q l :=
  obeys_bio hok fun r _ => hf r

lemma grip_last {Q : e.Ret → Grip → Prop} (hok : l.Ok e) (hQ : ∀ r, Q r (l.next e)) :
    (bio e).Obeys grip Q l :=
  ⟨hok, fun r _ => hQ r⟩

lemma grip_bread {dev blockno : ℕ} {f : BufRef → K α}
    (hf : (f ⟨dev, blockno⟩).Obeys grip Q { l with held := ⟨dev, blockno⟩ :: l.held }) :
    (bread dev blockno >>= f).Obeys grip Q l :=
  obeys_bread trivial fun _ _ => hf

end Rules

namespace Neat

variable {α β : Type}

lemma pure (a : α) : Neat (pure a : K α) := fun _ _ => ⟨rfl, subset_rfl⟩

lemma bind {p : K α} {f : α → K β} (hp : Neat p) (hf : ∀ a, Neat (f a)) : Neat (p >>= f) := by
  intro l hl
  refine (hp l hl).seq fun a l' h' => ?_
  have hl' : l'.Firm := fun k hk => h'.1 ▸ hl k (h'.2 hk)
  exact (hf a l' hl').mono fun _ l'' h'' => ⟨h''.1.trans h'.1, h''.2.trans h'.2⟩

lemma getLog : Neat getLog := fun _ _ => ⟨trivial, fun _ _ => ⟨rfl, subset_rfl⟩⟩

lemma setLog (f : Log → Log) : Neat (setLog f) :=
  fun _ _ => ⟨trivial, fun _ _ => ⟨rfl, subset_rfl⟩⟩

end Neat

lemma account_grip {e : BioOp} {a a' : Account} {r : e.Ret} (he : accountHandler e a = .ok r a') :
    Grip.Ok ⟨a.held, a.pend⟩ e ∧ a'.held = (Grip.next ⟨a.held, a.pend⟩ e).held ∧
      a'.pend ⊆ (Grip.next ⟨a.held, a.pend⟩ e).pend := by
  cases e with
  | bread k =>
    simp only [accountHandler] at he
    split_ifs at he
    obtain ⟨-, rfl⟩ := EStateM.Result.ok.inj he
    exact ⟨trivial, rfl, subset_rfl⟩
  | brelse k =>
    simp only [accountHandler, asHolder] at he
    split_ifs at he with hk hp
    obtain ⟨-, rfl⟩ := EStateM.Result.ok.inj he
    refine ⟨⟨hk, fun h => ?_⟩, rfl, subset_rfl⟩
    by_contra hc
    exact hp ⟨h, hc⟩
  | bwrite k =>
    simp only [accountHandler, asHolder] at he
    split_ifs at he with hk
    obtain ⟨-, rfl⟩ := EStateM.Result.ok.inj he
    exact ⟨hk, rfl, subset_rfl⟩
  | data k =>
    simp only [accountHandler, asHolder] at he
    split_ifs at he with hk
    obtain ⟨-, rfl⟩ := EStateM.Result.ok.inj he
    exact ⟨hk, rfl, subset_rfl⟩
  | store k f =>
    simp only [accountHandler, asHolder] at he
    split_ifs at he with hk
    obtain ⟨-, rfl⟩ := EStateM.Result.ok.inj he
    refine ⟨hk, rfl, ?_⟩
    simp only [Account.write, Grip.next]
    split_ifs
    · exact Finset.subset_insert _ _
    · exact subset_rfl
  | copy k src =>
    simp only [accountHandler, asHolder] at he
    split_ifs at he with hk hs
    obtain ⟨-, rfl⟩ := EStateM.Result.ok.inj he
    refine ⟨⟨hk, hs⟩, rfl, ?_⟩
    simp only [Account.write, Grip.next]
    split_ifs
    · exact Finset.subset_insert _ _
    · exact subset_rfl
  | logAdd k =>
    simp only [accountHandler, asHolder] at he
    split_ifs at he with hk
    obtain ⟨-, rfl⟩ := EStateM.Result.ok.inj he
    exact ⟨hk, rfl, subset_rfl⟩
  | markDirty k =>
    simp only [accountHandler, asHolder] at he
    split_ifs at he with hk
    obtain ⟨-, rfl⟩ := EStateM.Result.ok.inj he
    exact ⟨hk, rfl, subset_rfl⟩
  | log =>
    obtain ⟨-, rfl⟩ := EStateM.Result.ok.inj he
    exact ⟨trivial, rfl, subset_rfl⟩
  | setLog f =>
    obtain ⟨-, rfl⟩ := EStateM.Result.ok.inj he
    exact ⟨trivial, rfl, subset_rfl⟩

lemma account_not_stray {e : BioOp} {a : Account} (hok : Grip.Ok ⟨a.held, a.pend⟩ e)
    (hdev : ∀ k, e = .bread k → k.dev < 2) (a' : Account) :
    accountHandler e a ≠ .error .stray a' := by
  intro he
  cases e with
  | bread k =>
    have hk := hdev k rfl
    simp only [accountHandler, if_neg (Nat.not_le.mpr hk)] at he
    split_ifs at he <;> cases he
  | brelse k =>
    simp only [accountHandler, asHolder, if_pos hok.1] at he
    rw [if_neg fun h => h.2 (hok.2 h.1)] at he
    cases he
  | bwrite k | data k | store k f | markDirty k =>
    have hk : k ∈ a.held := hok
    simp only [accountHandler, asHolder, if_pos hk] at he
    cases he
  | copy k src =>
    simp only [accountHandler, asHolder, if_pos hok.1, if_pos hok.2] at he
    cases he
  | logAdd k =>
    have hk : k ∈ a.held := hok
    simp only [accountHandler, asHolder, if_pos hk] at he
    split_ifs at he
    cases he
  | log | setLog f => cases he

/-! ## The processes together -/

variable {ι κ ρ : Type} [Fintype ι]

/-- `G` is what the processes hold: their code uses no more than that, and the references of the
block store are theirs. -/
structure Pool.Gripped (P : Pool ι κ ρ) (G : ι → Grip) : Prop where
  code : ∀ i c p, (P.proc i).cur = some (c, p) → p.Obeys grip (fun _ l => l.held = []) (G i)
  idle : ∀ i, (P.proc i).cur = none → (G i).held = []
  firm : ∀ i, (G i).Firm
  count : ∀ k, P.a.held.count k = ∑ i, (G i).held.count k
  pend : ∀ k ∈ P.a.pend, ∃ i, k ∈ (G i).pend

namespace Pool.Gripped

variable {P P' : Pool ι κ ρ} {G : ι → Grip} {i : ι} {k : BufRef}

lemma boot {a : Account} (hheld : a.held = []) (hpend : a.pend = ∅) (fm : FsMem)
    (todo : ι → List κ) : (Pool.boot a fm todo : Pool ι κ ρ).Gripped fun _ => .empty where
  code i c p hcur := nomatch hcur
  idle _ _ := rfl
  firm _ k hk := absurd hk (Finset.notMem_empty k)
  count k := by
    show a.held.count k = _
    simp [hheld, Grip.empty]
  pend k hk := by
    have hk' : k ∈ a.pend := hk
    rw [hpend] at hk'
    exact absurd hk' (Finset.notMem_empty k)

lemma count_le (h : P.Gripped G) (i : ι) (k : BufRef) :
    (G i).held.count k ≤ P.a.held.count k := by
  rw [h.count]
  exact Finset.single_le_sum (f := fun i => (G i).held.count k) (fun _ _ => Nat.zero_le _)
    (Finset.mem_univ i)

lemma mem_held (h : P.Gripped G) (hk : k ∈ (G i).held) : k ∈ P.a.held :=
  List.count_pos_iff.mp (lt_of_lt_of_le (List.count_pos_iff.mpr hk) (h.count_le i k))

variable [DecidableEq ι]

private lemma sum_update (f : ι → ℕ) (i : ι) (x : ℕ) :
    ∑ j, Function.update f i x j + f i = ∑ j, f j + x := by
  have h := Finset.sum_update_of_mem (Finset.mem_univ i) f x
  have h' := Finset.add_sum_erase Finset.univ f (Finset.mem_univ i)
  rw [h, ← h', Finset.sdiff_singleton_eq_erase]
  omega

lemma count_add_le (h : P.Gripped G) {j : ι} (hj : j ≠ i) (k : BufRef) :
    (G i).held.count k + (G j).held.count k ≤ P.a.held.count k := by
  rw [h.count, ← Finset.add_sum_erase Finset.univ _ (Finset.mem_univ i)]
  refine Nat.add_le_add_left ?_ _
  exact Finset.single_le_sum (f := fun i => (G i).held.count k) (fun _ _ => Nat.zero_le _)
    (Finset.mem_erase.mpr ⟨hj, Finset.mem_univ j⟩)

lemma ok (h : P.Gripped G) {e : BioOp} (hok : (G i).Ok e) : Grip.Ok ⟨P.a.held, P.a.pend⟩ e := by
  cases e with
  | brelse k =>
    obtain ⟨hk, hp⟩ := hok
    refine ⟨h.mem_held hk, fun hpend => ?_⟩
    -- a change that is still pending is known to a process that keeps the buffer
    have htwo : 2 ≤ P.a.held.count k := by
      obtain ⟨j, hj⟩ := h.pend k hpend
      have hone : 0 < (G i).held.count k := List.count_pos_iff.mpr hk
      by_cases hji : j = i
      · rw [hji] at hj
        have h2 : 0 < ((G i).held.erase k).count k := List.count_pos_iff.mpr (hp hj)
        rw [List.count_erase_self] at h2
        have := h.count_le i k
        omega
      · have h2 : 0 < (G j).held.count k := List.count_pos_iff.mpr (h.firm j k hj)
        have := h.count_add_le hji k
        omega
    refine List.count_pos_iff.mp ?_
    show 0 < (P.a.held.erase k).count k
    rw [List.count_erase_self]
    omega
  | bwrite k | data k | store k f | logAdd k | markDirty k => exact h.mem_held hok
  | copy k src => exact ⟨h.mem_held hok.1, h.mem_held hok.2⟩
  | bread k | log | setLog f => trivial

lemma safe (h : P.Gripped G) (hread : ∀ i c k code,
    (P.proc i).cur = some (c, .op (.inl (.bread k)) code) → P.a.InRange k) : P.Safe := by
  intro i c e code hcur
  have hok : (G i).Ok e := (h.code i c _ hcur).1
  constructor
  · refine account_not_stray (h.ok hok) ?_
    rintro k rfl
    exact (hread i c k code hcur).1
  · rintro k rfl
    exact hread i c k code hcur

private lemma update (h : P.Gripped G) {p : Process κ ρ} {l : Grip} {a : Account}
    (hproc : P'.proc = Function.update P.proc i p) (ha : P'.a = a)
    (hcode : ∀ c q, p.cur = some (c, q) → q.Obeys grip (fun _ l => l.held = []) l)
    (hidle : p.cur = none → l.held = []) (hfirm : l.Firm)
    (hcount : ∀ k, a.held.count k + (G i).held.count k = P.a.held.count k + l.held.count k)
    (hpend : ∀ k ∈ a.pend, k ∈ l.pend ∨ k ∈ P.a.pend ∧ k ∉ (G i).pend) :
    P'.Gripped (Function.update G i l) where
  code j c q hq := by
    by_cases hj : j = i
    · subst hj
      rw [hproc, Function.update_self] at hq
      rw [Function.update_self]
      exact hcode c q hq
    · rw [hproc, Function.update_of_ne hj] at hq
      rw [Function.update_of_ne hj]
      exact h.code j c q hq
  idle j hj' := by
    by_cases hj : j = i
    · subst hj
      rw [hproc, Function.update_self] at hj'
      rw [Function.update_self]
      exact hidle hj'
    · rw [hproc, Function.update_of_ne hj] at hj'
      rw [Function.update_of_ne hj]
      exact h.idle j hj'
  firm j := by
    by_cases hj : j = i
    · subst hj
      rwa [Function.update_self]
    · rw [Function.update_of_ne hj]
      exact h.firm j
  count k := by
    -- the sum over all processes changes by what this one changes
    have hsum := sum_update (fun j => (G j).held.count k) i (l.held.count k)
    have hnew : ∑ j, (Function.update G i l j).held.count k =
        ∑ j, Function.update (fun j => (G j).held.count k) i (l.held.count k) j := by
      refine Finset.sum_congr rfl fun j _ => ?_
      by_cases hj : j = i
      · subst hj
        simp
      · simp [hj]
    rw [ha, hnew]
    have hk := hcount k
    have hP := h.count k
    omega
  pend k hk := by
    rw [ha] at hk
    rcases hpend k hk with hl | ⟨hP, hG⟩
    · exact ⟨i, by rwa [Function.update_self]⟩
    · obtain ⟨j, hj⟩ := h.pend k hP
      have hji : j ≠ i := by
        rintro rfl
        exact hG hj
      exact ⟨j, by rwa [Function.update_of_ne hji]⟩

/-- **Every step of the pool keeps the books.** -/
theorem step {body : κ → K ρ} {ev : List (Event ι κ ρ)} (h : P.Gripped G)
    (hbody : ∀ c, Neat (body c)) (hstep : P.Step body i P' ev) : ∃ G', P'.Gripped G' := by
  cases hstep with
  | @call c todo hcur htodo =>
    refine ⟨_, h.update (l := .empty) rfl rfl ?_ (fun _ => rfl) (fun k hk => ?_) (fun k => ?_)
      fun k hk => ?_⟩
    · intro c' q hq
      obtain ⟨rfl, rfl⟩ := Prod.mk.inj (Option.some.inj hq)
      refine (hbody c .empty fun k hk => ?_).mono fun _ l' hl => hl.1
      exact absurd hk (Finset.notMem_empty k)
    · exact absurd hk (Finset.notMem_empty k)
    · rw [h.idle i hcur]
      rfl
    · refine Or.inr ⟨hk, fun hG => ?_⟩
      have := h.firm i k hG
      rw [h.idle i hcur] at this
      exact absurd this List.not_mem_nil
  -- the store counts the references of all processes, and only those of this one change
  | @bio c e code r a hcur he =>
    obtain ⟨hok, hcode⟩ := h.code i c _ hcur
    have hok' : (G i).Ok e := hok
    obtain ⟨hokP, hheld, hpend⟩ := account_grip he
    refine ⟨_, h.update (l := (G i).next e) rfl rfl ?_ (fun hc => nomatch hc)
      ((h.firm i).next hok') (fun k => ?_) fun k hk => ?_⟩
    · intro c' q hq
      obtain ⟨rfl, rfl⟩ := Prod.mk.inj (Option.some.inj hq)
      exact hcode r trivial
    · have hcount := Grip.count_next hokP hok' k
      rw [hheld, hcount, Nat.add_comm]
    -- a block that is still changed and not this process's to write back was somebody else's before
    · by_cases hG : k ∈ ((G i).next e).pend
      · exact Or.inl hG
      · refine Or.inr ?_
        have hk' := hpend hk
        cases e with
        | bwrite b | markDirty b =>
          simp only [Grip.next, Finset.mem_erase, not_and] at hG hk'
          exact ⟨hk'.2, hG hk'.1⟩
        | store b f | copy b c =>
          simp only [Grip.next, Finset.mem_insert, not_or] at hG hk'
          exact ⟨hk'.resolve_left hG.1, hG.2⟩
        | bread b | brelse b | data b | logAdd b | log | setLog f => exact ⟨hk', hG⟩
  | @mem c e code r fm hcur he =>
    obtain ⟨-, hcode⟩ := h.code i c _ hcur
    refine ⟨_, h.update (l := G i) rfl rfl ?_ (fun hc => nomatch hc) (h.firm i)
      (fun _ => rfl) fun k hk => ?_⟩
    · intro c' q hq
      obtain ⟨rfl, rfl⟩ := Prod.mk.inj (Option.some.inj hq)
      exact hcode r trivial
    · by_cases hG : k ∈ (G i).pend
      · exact Or.inl hG
      · exact Or.inr ⟨hk, hG⟩
  | @ret c v hcur =>
    have hnil : (G i).held = [] := h.code i c _ hcur
    refine ⟨_, h.update (l := G i) rfl rfl (fun c' q hq => nomatch hq) (fun _ => hnil) (h.firm i)
      (fun _ => rfl) fun k hk => ?_⟩
    by_cases hG : k ∈ (G i).pend
    · exact Or.inl hG
    · exact Or.inr ⟨hk, hG⟩

end Pool.Gripped

end Xv6
