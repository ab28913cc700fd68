import Xv6.Lib.Threads
import Mathlib.Data.Fin.VecNotation
import Mathlib.Data.Finset.Max
import Mathlib.Tactic.Ring

/-!
# Transfers between accounts

The model of `transfer` of `dead-fix.c`: any number of threads, each with one transaction, on any
number of accounts.  A thread locks both accounts, the one with the smaller `id` first, moves the
money if there is more than enough of it, and unlocks both.  Locking and unlocking are one step
each, and so is every access to a balance.

Between `dst->balance += amount` and `src->balance -= amount` the money is there twice.  A
`settled` balance leaves out what is still owed; in terms of settled balances the transfer is made
at once, by the first of the two statements, and their sum never changes.

`Inv` says what each thread has locked and knows at its program point, and that the sum of settled
balances is that of the start.  `Inv.step` goes through the points of the code.  That somebody can
always go on (`Inv.progress`) is the argument from the order of locks: if nobody could, the holder
of any lock would wait for one with a greater `id`, and there is one with the greatest.
-/

namespace Xv6

open Lib

namespace Transfer

/-! ## The code -/

structure Txn (κ : Type) where
  src : κ
  dst : κ
  amount : ℤ
  ne : src ≠ dst
  nonneg : 0 ≤ amount

/-- The accounts at first, and the transaction of each thread. -/
structure Bank (ι κ : Type) [Fintype κ] where
  id : κ → ℤ
  balance : κ → ℤ
  txn : ι → Txn κ
  id_injective : Function.Injective id
  balance_nonneg : ∀ a, 0 ≤ balance a
  total_lt : ∑ a, balance a < 2 ^ 31

/-- The locks and the balances of the accounts. -/
structure Shared (ι κ : Type) where
  lock : κ → Option ι
  balance : κ → ℤ

/-- What a thread does next. -/
inductive Point
  /-- `pthread_mutex_lock` of the account with the smaller `id`. -/
  | lock₁
  /-- `pthread_mutex_lock` of the other. -/
  | lock₂
  /-- `if(t->src->balance > t->amount)`. -/
  | test
  /-- `t->dst->balance` is read. -/
  | readDst
  /-- `t->dst->balance = k + t->amount`. -/
  | writeDst (k : ℤ)
  /-- `t->src->balance` is read. -/
  | readSrc
  /-- `t->src->balance = k - t->amount`. -/
  | writeSrc (k : ℤ)
  /-- `pthread_mutex_unlock(&t->src->lock)`. -/
  | unlockSrc
  /-- `pthread_mutex_unlock(&t->dst->lock)`. -/
  | unlockDst
  | done
  deriving DecidableEq

/-- The value of an `int` expression. -/
def int32 (x : ℤ) : ℤ := x.bmod (2 ^ 32)

variable {ι κ : Type} [Fintype κ] (B : Bank ι κ)

/-- The account that a thread locks first. -/
def Bank.first (i : ι) : κ :=
  if B.id (B.txn i).src < B.id (B.txn i).dst then (B.txn i).src else (B.txn i).dst

/-- The account that a thread locks second. -/
def Bank.second (i : ι) : κ :=
  if B.id (B.txn i).src < B.id (B.txn i).dst then (B.txn i).dst else (B.txn i).src

section

variable [DecidableEq κ]

/-- `pthread_mutex_lock`, which needs a free lock. -/
def Shared.acquire (m : Shared ι κ) (a : κ) (i : ι) : Option (Shared ι κ) :=
  if m.lock a |>.isNone then some { m with lock := Function.update m.lock a (some i) } else none

/-- `pthread_mutex_unlock`. -/
def Shared.release (m : Shared ι κ) (a : κ) : Shared ι κ :=
  { m with lock := Function.update m.lock a none }

/-- A balance is written. -/
def Shared.setBalance (m : Shared ι κ) (a : κ) (x : ℤ) : Shared ι κ :=
  { m with balance := Function.update m.balance a x }

/-- `transfer`. -/
def Bank.code (i : ι) (_ : Unit) (m : Shared ι κ) : Point → Option (Shared ι κ × Point)
  | .lock₁ => (m.acquire (B.first i) i).map fun m => (m, .lock₂)
  | .lock₂ => (m.acquire (B.second i) i).map fun m => (m, .test)
  | .test =>
    some (m, if (B.txn i).amount < m.balance (B.txn i).src then .readDst else .unlockSrc)
  | .readDst => some (m, .writeDst (m.balance (B.txn i).dst))
  | .writeDst k => some (m.setBalance (B.txn i).dst (int32 (k + (B.txn i).amount)), .readSrc)
  | .readSrc => some (m, .writeSrc (m.balance (B.txn i).src))
  | .writeSrc k => some (m.setBalance (B.txn i).src (int32 (k - (B.txn i).amount)), .unlockSrc)
  | .unlockSrc => some (m.release (B.txn i).src, .unlockDst)
  | .unlockDst => some (m.release (B.txn i).dst, .done)
  | .done => none

end

/-- `main`: the locks are free, and every thread starts. -/
def Bank.init : Threads ι (Shared ι κ) Point where
  shared := { lock := fun _ => none, balance := B.balance }
  loc := fun _ => .lock₁

/-! ## What a thread has and knows -/

/-- The accounts that a thread has locked. -/
def Bank.Holds (i : ι) : Point → κ → Prop
  | .lock₁, _ | .done, _ => False
  | .lock₂, a => a = B.first i
  | .unlockDst, a => a = (B.txn i).dst
  | _, a => a = (B.txn i).src ∨ a = (B.txn i).dst

/-- What a thread knows about the balances. -/
def Bank.Knows (balance : κ → ℤ) (i : ι) : Point → Prop
  | .readDst | .readSrc => (B.txn i).amount < balance (B.txn i).src
  | .writeDst k => (B.txn i).amount < balance (B.txn i).src ∧ k = balance (B.txn i).dst
  | .writeSrc k => (B.txn i).amount < balance (B.txn i).src ∧ k = balance (B.txn i).src
  | _ => True

/-- The thread has both of its accounts locked. -/
def both : Point → Bool
  | .test | .readDst | .writeDst _ | .readSrc | .writeSrc _ | .unlockSrc => true
  | _ => false

/-- The thread has put the money in, and not taken it out. -/
def owes : Point → Bool
  | .readSrc | .writeSrc _ => true
  | _ => false

variable {B} {m m' : Shared ι κ} {loc : ι → Point} {i j : ι} {a : κ} {pc b : Point}

lemma Bank.holds_of_both (h : both pc = true) :
    B.Holds i pc a ↔ a = (B.txn i).src ∨ a = (B.txn i).dst := by
  cases pc <;> first | exact Iff.rfl | cases h

lemma Bank.id_first_lt_second : B.id (B.first i) < B.id (B.second i) := by
  unfold first second
  split_ifs with h
  · exact h
  · exact lt_of_le_of_ne (not_lt.mp h) fun he => (B.txn i).ne (B.id_injective he).symm

lemma Bank.first_or_second :
    a = B.second i ∨ a = B.first i ↔ a = (B.txn i).src ∨ a = (B.txn i).dst := by
  unfold first second
  split_ifs
  · exact or_comm
  · exact Iff.rfl

/-- What a thread knows depends on the balances of the accounts that it has locked. -/
lemma Bank.Knows.congr {balance balance' : κ → ℤ} (h : B.Knows balance i pc)
    (hb : ∀ a, B.Holds i pc a → balance' a = balance a) : B.Knows balance' i pc := by
  have hboth : both pc = true → balance' (B.txn i).src = balance (B.txn i).src ∧
      balance' (B.txn i).dst = balance (B.txn i).dst := fun hp =>
    ⟨hb _ ((holds_of_both hp).mpr (.inl rfl)), hb _ ((holds_of_both hp).mpr (.inr rfl))⟩
  cases pc with
  | readDst | writeDst | readSrc | writeSrc =>
    obtain ⟨hsrc, hdst⟩ := hboth rfl
    simpa only [Knows, hsrc, hdst] using h
  | _ => trivial

lemma int32_of_bounds {x : ℤ} (h₁ : -2 ^ 31 ≤ x) (h₂ : x < 2 ^ 31) : int32 x = x := by
  exact Int.bmod_eq_of_le (by norm_num at *; omega) (by norm_num at *; omega)

/-! ## The invariant -/

variable [DecidableEq κ]

variable (B) in
/-- What is owed to an account: only the thread that has locked it can owe. -/
def Bank.owed (lock : κ → Option ι) (loc : ι → Point) (a : κ) : ℤ :=
  (lock a).elim 0 fun i =>
    if owes (loc i) = true ∧ (B.txn i).src = a then (B.txn i).amount else 0

variable (B) in
/-- The balance of an account without what is still owed to it. -/
def Bank.settled (m : Shared ι κ) (loc : ι → Point) (a : κ) : ℤ :=
  m.balance a - B.owed m.lock loc a

variable (B) in
/-- **The invariant.** -/
structure Inv (m : Shared ι κ) (loc : ι → Point) : Prop where
  locks : ∀ a i, m.lock a = some i ↔ B.Holds i (loc i) a
  knows : ∀ i, B.Knows m.balance i (loc i)
  nonneg : ∀ a, 0 ≤ m.balance a
  total : ∑ a, B.settled m loc a = ∑ a, B.balance a

lemma inv_init : Inv B B.init.shared B.init.loc where
  locks _ i := ⟨fun h => absurd h.symm (Option.some_ne_none i), False.elim⟩
  knows _ := trivial
  nonneg := B.balance_nonneg
  total := Finset.sum_congr rfl fun _ _ => sub_zero _

lemma Bank.settled_setBalance {x : ℤ} {a' : κ} : B.settled (m.setBalance a x) loc a' =
    Function.update m.balance a x a' - B.owed m.lock loc a' := rfl

lemma Bank.owed_of_lock {lock : κ → Option ι} (h : lock a = some i) :
    B.owed lock loc a =
      if owes (loc i) = true ∧ (B.txn i).src = a then (B.txn i).amount else 0 := by
  rw [owed, h]
  rfl

lemma Bank.owed_eq_zero {lock : κ → Option ι} (h : ∀ i, lock a = some i → owes (loc i) = false) :
    B.owed lock loc a = 0 := by
  cases hl : lock a with
  | none =>
    rw [owed, hl]
    rfl
  | some i =>
    rw [owed_of_lock hl, if_neg]
    rintro ⟨ho, -⟩
    rw [h i hl] at ho
    cases ho

lemma Inv.settled_nonneg (h : Inv B m loc) (a : κ) : 0 ≤ B.settled m loc a := by
  have ha := h.nonneg a
  rw [Bank.settled]
  cases hl : m.lock a with
  | none =>
    rw [Bank.owed_eq_zero fun i hi => by rw [hl] at hi; cases hi]
    omega
  | some i =>
    rw [Bank.owed_of_lock hl]
    split_ifs with ho
    · obtain ⟨ho, rfl⟩ := ho
      have hknows := h.knows i
      generalize loc i = pc at hknows ho
      cases pc with
      | readSrc => exact (sub_pos.mpr hknows).le
      | writeSrc k => exact (sub_pos.mpr hknows.1).le
      | _ => cases ho
    · omega

lemma Inv.settled_add_le (h : Inv B m loc) {a a' : κ} (hne : a ≠ a') :
    B.settled m loc a + B.settled m loc a' < 2 ^ 31 := by
  have hle : ∑ x ∈ {a, a'}, B.settled m loc x ≤ ∑ x, B.settled m loc x :=
    Finset.sum_le_sum_of_subset_of_nonneg (Finset.subset_univ _) fun x _ _ => h.settled_nonneg x
  rw [Finset.sum_pair hne, h.total] at hle
  exact hle.trans_lt B.total_lt

lemma Inv.lock_of_both (h : Inv B m loc) (hi : loc i = pc) (hpc : both pc = true) :
    m.lock (B.txn i).src = some i ∧ m.lock (B.txn i).dst = some i ∧
      ∀ a, a ≠ (B.txn i).src → a ≠ (B.txn i).dst → m.lock a ≠ some i := by
  have hlock : ∀ a, m.lock a = some i ↔ a = (B.txn i).src ∨ a = (B.txn i).dst := by
    intro a
    rw [h.locks, hi, Bank.holds_of_both hpc]
  refine ⟨(hlock _).mpr (.inl rfl), (hlock _).mpr (.inr rfl), fun a hsrc hdst ha => ?_⟩
  exact ((hlock a).mp ha).elim hsrc hdst

/-! ## Steps keep the invariant -/

section

variable [DecidableEq ι]

lemma Bank.owed_update {lock : κ → Option ι} (h : owes b = owes (loc i)) :
    B.owed lock (Function.update loc i b) a = B.owed lock loc a := by
  have howes : ∀ j, owes (Function.update loc i b j) = owes (loc j) := by
    intro j
    by_cases hj : j = i
    · rw [hj, Function.update_self, h]
    · rw [Function.update_of_ne hj]
  simp only [owed, howes]

/-- A thread that does not owe locks or unlocks an account, and the debts stay. -/
lemma Inv.owed_relock (h : Inv B m loc) {lock : κ → Option ι}
    (hlocks : ∀ a j, lock a = some j ↔ B.Holds j (Function.update loc i b j) a)
    (hpc : owes (loc i) = false) (hb : owes b = false) :
    B.owed lock (Function.update loc i b) a = B.owed m.lock loc a := by
  have hother : ∀ j, j ≠ i → (lock a = some j ↔ m.lock a = some j) := by
    intro j hj
    rw [hlocks, h.locks, Function.update_of_ne hj]
  rw [Bank.owed_update (hb.trans hpc.symm)]
  by_cases hmine : ∃ j, j ≠ i ∧ m.lock a = some j
  · obtain ⟨j, hj, hl⟩ := hmine
    rw [Bank.owed_of_lock hl, Bank.owed_of_lock ((hother j hj).mpr hl)]
  · have hzero : ∀ l : κ → Option ι, (∀ j, j ≠ i → l a ≠ some j) → B.owed l loc a = 0 := by
      intro l hl
      refine Bank.owed_eq_zero fun j hj => ?_
      by_cases hji : j = i
      · rwa [hji]
      · exact absurd hj (hl j hji)
    rw [hzero lock fun j hj hl => hmine ⟨j, hj, (hother j hj).mp hl⟩,
      hzero m.lock fun j hj hl => hmine ⟨j, hj, hl⟩]

lemma Inv.same (h : Inv B m loc) (hi : loc i = pc) (hpc : both pc = true) (hb : both b = true)
    (howes : owes b = owes pc) (hknows : B.Knows m.balance i b) :
    Inv B m (Function.update loc i b) where
  locks a j := by
    rw [h.locks]
    by_cases hj : j = i
    · subst hj
      rw [Function.update_self, hi, Bank.holds_of_both hpc, Bank.holds_of_both hb]
    · rw [Function.update_of_ne hj]
  knows := (Function.forall_update_iff loc fun j pc => B.Knows m.balance j pc).mpr
    ⟨hknows, fun j _ => h.knows j⟩
  nonneg := h.nonneg
  total := by
    rw [← h.total]
    refine Finset.sum_congr rfl fun a _ => ?_
    rw [Bank.settled, Bank.settled, Bank.owed_update (by rw [howes, hi])]

lemma Inv.relock (h : Inv B m loc) {lock : κ → Option ι}
    (hlocks : ∀ a j, lock a = some j ↔ B.Holds j (Function.update loc i b j) a)
    (hpc : owes (loc i) = false) (hb : owes b = false) (hknows : B.Knows m.balance i b) :
    Inv B { m with lock := lock } (Function.update loc i b) where
  locks := hlocks
  knows := (Function.forall_update_iff loc fun j pc => B.Knows m.balance j pc).mpr
    ⟨hknows, fun j _ => h.knows j⟩
  nonneg := h.nonneg
  total := by
    rw [← h.total]
    refine Finset.sum_congr rfl fun a _ => ?_
    rw [Bank.settled, Bank.settled, h.owed_relock hlocks hpc hb]

lemma Inv.acquire (h : Inv B m loc) (hi : loc i = pc) (hs : m.acquire a i = some m')
    (hholds : ∀ x, B.Holds i b x ↔ x = a ∨ B.Holds i pc x) (hpc : owes pc = false)
    (hb : owes b = false) (hknows : B.Knows m.balance i b) :
    Inv B m' (Function.update loc i b) := by
  unfold Shared.acquire at hs
  split_ifs at hs with hfree
  cases hs
  have hnone : m.lock a = none := Option.isNone_iff_eq_none.mp hfree
  refine h.relock (fun x j => ?_) (by rw [hi, hpc]) hb hknows
  by_cases hj : j = i
  · subst hj
    rw [Function.update_self, hholds]
    by_cases hx : x = a
    · simp [hx]
    · rw [Function.update_of_ne hx, h.locks, hi]
      exact ⟨.inr, fun hc => hc.resolve_left hx⟩
  · rw [Function.update_of_ne hj, ← h.locks]
    by_cases hx : x = a
    · subst hx
      rw [Function.update_self, hnone]
      simp [Ne.symm hj]
    · rw [Function.update_of_ne hx]

lemma Inv.release (h : Inv B m loc) (hi : loc i = pc) (hmine : B.Holds i pc a)
    (hholds : ∀ x, B.Holds i b x ↔ x ≠ a ∧ B.Holds i pc x) (hpc : owes pc = false)
    (hb : owes b = false) (hknows : B.Knows m.balance i b) :
    Inv B (m.release a) (Function.update loc i b) := by
  have hlock : m.lock a = some i := (h.locks a i).mpr (by rwa [hi])
  refine h.relock (fun x j => ?_) (by rw [hi, hpc]) hb hknows
  by_cases hj : j = i
  · subst hj
    rw [Function.update_self, hholds]
    by_cases hx : x = a
    · simp [hx]
    · rw [Function.update_of_ne hx, h.locks, hi]
      exact ⟨fun hc => ⟨hx, hc⟩, fun hc => hc.2⟩
  · rw [Function.update_of_ne hj, ← h.locks]
    by_cases hx : x = a
    · subst hx
      rw [Function.update_self, hlock]
      simp [Ne.symm hj]
    · rw [Function.update_of_ne hx]

lemma Inv.setBalance (h : Inv B m loc) (hi : loc i = pc) (hpc : both pc = true)
    (hb : both b = true) {x : ℤ} (ha : a = (B.txn i).src ∨ a = (B.txn i).dst) (hx : 0 ≤ x)
    (hknows : B.Knows (Function.update m.balance a x) i b)
    (htotal : ∑ a', B.settled (m.setBalance a x) (Function.update loc i b) a' =
      ∑ a', B.settled m loc a') :
    Inv B (m.setBalance a x) (Function.update loc i b) where
  locks a' j := by
    show m.lock a' = some j ↔ _
    rw [h.locks]
    by_cases hj : j = i
    · subst hj
      rw [Function.update_self, hi, Bank.holds_of_both hpc, Bank.holds_of_both hb]
    · rw [Function.update_of_ne hj]
  knows := by
    refine (Function.forall_update_iff loc fun j pc =>
      B.Knows (Function.update m.balance a x) j pc).mpr ⟨hknows, fun j hj => ?_⟩
    refine (h.knows j).congr fun a' ha' => Function.update_of_ne ?_ x m.balance
    rintro rfl
    have hmine : m.lock a' = some i :=
      (h.locks a' i).mpr (by rwa [hi, Bank.holds_of_both hpc])
    rw [(h.locks a' j).mpr ha', Option.some.injEq] at hmine
    exact hj hmine
  nonneg := (Function.forall_update_iff m.balance fun _ y => 0 ≤ y).mpr
    ⟨hx, fun a' _ => h.nonneg a'⟩
  total := htotal.trans h.total

lemma Bank.owed_other {lock : κ → Option ι} (h : lock a ≠ some i) :
    B.owed lock (Function.update loc i b) a = B.owed lock loc a := by
  cases hl : lock a with
  | none => rw [owed, owed, hl]; rfl
  | some j =>
    have hj : j ≠ i := fun hji => h (hji ▸ hl)
    rw [owed_of_lock hl, owed_of_lock hl, Function.update_of_ne hj]

/-- `t->dst->balance += t->amount`: the settled balances are those after the whole transfer. -/
lemma Inv.writeDst (h : Inv B m loc) {k : ℤ} (hi : loc i = .writeDst k) :
    Inv B (m.setBalance (B.txn i).dst (int32 (k + (B.txn i).amount)))
      (Function.update loc i .readSrc) := by
  obtain ⟨hlt, rfl⟩ : (B.txn i).amount < m.balance (B.txn i).src ∧
      k = m.balance (B.txn i).dst := by simpa only [hi, Bank.Knows] using h.knows i
  obtain ⟨hsrc, hdst, hothers⟩ := h.lock_of_both hi rfl
  have hne := (B.txn i).ne
  have hamount := (B.txn i).nonneg
  have howed : ∀ a, m.lock a = some i → B.owed m.lock loc a = 0 := fun a ha => by
    rw [Bank.owed_of_lock ha, if_neg fun hc => by rw [hi] at hc; exact Bool.noConfusion hc.1]
  have hbound := h.settled_add_le hne
  rw [Bank.settled, Bank.settled, howed _ hsrc, howed _ hdst] at hbound
  have hnonneg := h.nonneg (B.txn i).dst
  rw [int32_of_bounds (by omega) (by omega)]
  refine h.setBalance hi rfl rfl (.inr rfl) (by omega) ?_ ?_
  · show (B.txn i).amount < Function.update m.balance _ _ (B.txn i).src
    rwa [Function.update_of_ne hne]
  · have hchange : ∀ a, B.settled (m.setBalance (B.txn i).dst
          (m.balance (B.txn i).dst + (B.txn i).amount)) (Function.update loc i .readSrc) a =
        B.settled m loc a + ((if a = (B.txn i).dst then (B.txn i).amount else 0) -
          if a = (B.txn i).src then (B.txn i).amount else 0) := by
      intro a
      rw [Bank.settled_setBalance, Bank.settled]
      by_cases had : a = (B.txn i).dst
      · subst had
        rw [if_pos rfl, if_neg hne.symm, Function.update_self, howed _ hdst,
          Bank.owed_of_lock hdst, if_neg fun hc => hne hc.2]
        ring
      · rw [if_neg had, Function.update_of_ne had]
        by_cases has : a = (B.txn i).src
        · subst has
          rw [if_pos rfl, howed _ hsrc, Bank.owed_of_lock hsrc, Function.update_self,
            if_pos ⟨rfl, rfl⟩]
          ring
        · rw [if_neg has, Bank.owed_other (hothers a has had)]
          ring
    simp only [hchange, Finset.sum_add_distrib, Finset.sum_sub_distrib, Finset.sum_ite_eq',
      Finset.mem_univ, if_true]
    ring

lemma Inv.writeSrc (h : Inv B m loc) {k : ℤ} (hi : loc i = .writeSrc k) :
    Inv B (m.setBalance (B.txn i).src (int32 (k - (B.txn i).amount)))
      (Function.update loc i .unlockSrc) := by
  obtain ⟨hlt, rfl⟩ : (B.txn i).amount < m.balance (B.txn i).src ∧
      k = m.balance (B.txn i).src := by simpa only [hi, Bank.Knows] using h.knows i
  obtain ⟨hsrc, hdst, hothers⟩ := h.lock_of_both hi rfl
  have hne := (B.txn i).ne
  have howed : B.owed m.lock loc (B.txn i).src = (B.txn i).amount := by
    rw [Bank.owed_of_lock hsrc, hi, if_pos ⟨rfl, rfl⟩]
  have hbound := h.settled_add_le hne
  have hpos := h.settled_nonneg (B.txn i).dst
  rw [Bank.settled, howed] at hbound
  rw [int32_of_bounds (by omega) (by omega)]
  refine h.setBalance hi rfl rfl (.inl rfl) (by omega) trivial (Finset.sum_congr rfl fun a _ => ?_)
  rw [Bank.settled_setBalance, Bank.settled]
  by_cases has : a = (B.txn i).src
  · subst has
    rw [Function.update_self, howed, Bank.owed_of_lock hsrc, Function.update_self,
      if_neg fun hc => Bool.noConfusion hc.1, sub_zero]
  · rw [Function.update_of_ne has]
    by_cases had : a = (B.txn i).dst
    · subst had
      rw [Bank.owed_of_lock hdst, Bank.owed_of_lock hdst, if_neg fun hc => hne hc.2,
        if_neg fun hc => hne hc.2]
    · rw [Bank.owed_other (hothers a has had)]

lemma Inv.step (h : Inv B m loc) (hs : B.code i () m (loc i) = some (m', b)) :
    Inv B m' (Function.update loc i b) := by
  have hknows := h.knows i
  generalize hi : loc i = pc at hs hknows
  cases pc with
  | lock₁ =>
    obtain ⟨m₁, hm, hs⟩ := Option.map_eq_some_iff.mp hs
    cases hs
    exact h.acquire hi hm (fun x => (or_iff_left id).symm) rfl rfl trivial
  | lock₂ =>
    obtain ⟨m₁, hm, hs⟩ := Option.map_eq_some_iff.mp hs
    cases hs
    exact h.acquire hi hm (fun x => Bank.first_or_second.symm) rfl rfl trivial
  -- the balance cannot change any more: both accounts are locked
  | test =>
    cases hs
    split_ifs with hlt
    · exact h.same hi rfl rfl rfl hlt
    · exact h.same hi rfl rfl rfl trivial
  | readDst =>
    cases hs
    exact h.same hi rfl rfl rfl ⟨hknows, rfl⟩
  -- the money is there twice from here on, and settled balances say that it has moved
  | writeDst k =>
    cases hs
    exact h.writeDst hi
  | readSrc =>
    cases hs
    exact h.same hi rfl rfl rfl ⟨hknows, rfl⟩
  | writeSrc k =>
    cases hs
    exact h.writeSrc hi
  | unlockSrc =>
    cases hs
    refine h.release hi (.inl rfl) (fun x => ?_) rfl rfl trivial
    show x = (B.txn i).dst ↔ x ≠ (B.txn i).src ∧ (x = (B.txn i).src ∨ x = (B.txn i).dst)
    have hne := (B.txn i).ne
    constructor
    · rintro rfl
      exact ⟨hne.symm, .inr rfl⟩
    · exact fun hc => hc.2.resolve_left hc.1
  | unlockDst =>
    cases hs
    exact h.release hi rfl (fun x => ⟨False.elim, fun hc => hc.1 hc.2⟩) rfl rfl trivial
  | done => cases hs

end

/-! ## No deadlock, and no money lost -/

/-- A thread that is not done can move, or waits for an account that is locked. -/
lemma Bank.code_or_waits (hpc : pc ≠ .done) :
    (∃ r, B.code i () m pc = some r) ∨
      (pc = .lock₁ ∧ m.lock (B.first i) ≠ none) ∨ (pc = .lock₂ ∧ m.lock (B.second i) ≠ none) := by
  cases pc with
  | lock₁ =>
    by_cases hfree : m.lock (B.first i) = none
    · exact .inl ⟨_, Option.map_eq_some_iff.mpr
        ⟨_, if_pos (Option.isNone_iff_eq_none.mpr hfree), rfl⟩⟩
    · exact .inr (.inl ⟨rfl, hfree⟩)
  | lock₂ =>
    by_cases hfree : m.lock (B.second i) = none
    · exact .inl ⟨_, Option.map_eq_some_iff.mpr
        ⟨_, if_pos (Option.isNone_iff_eq_none.mpr hfree), rfl⟩⟩
    · exact .inr (.inr ⟨rfl, hfree⟩)
  | done => exact absurd rfl hpc
  | _ => exact .inl ⟨_, rfl⟩

/-- If no thread can move, whoever has an account locked waits for one with a greater `id`. -/
lemma Inv.waits_above (h : Inv B m loc) (hstuck : ∀ i r, B.code i () m (loc i) ≠ some r)
    (ha : m.lock a ≠ none) : ∃ a', m.lock a' ≠ none ∧ B.id a < B.id a' := by
  obtain ⟨j, hj⟩ := Option.ne_none_iff_exists'.mp ha
  have hholds := (h.locks a j).mp hj
  have hdone : loc j ≠ .done := fun hd => by
    rw [hd] at hholds
    exact hholds
  rcases Bank.code_or_waits (B := B) (m := m) (i := j) hdone with ⟨r, hr⟩ | ⟨hpc, -⟩ | ⟨hpc, hl⟩
  · exact absurd hr (hstuck j r)
  · rw [hpc] at hholds
    exact hholds.elim
  · rw [hpc] at hholds
    obtain rfl : a = B.first j := hholds
    exact ⟨B.second j, hl, Bank.id_first_lt_second⟩

lemma Inv.progress (h : Inv B m loc) (hi : loc i ≠ .done) :
    ∃ j r, B.code j () m (loc j) = some r := by
  by_contra hno
  have hstuck : ∀ i r, B.code i () m (loc i) ≠ some r := fun j r hr => hno ⟨j, r, hr⟩
  -- the locked accounts are finitely many, and one of them has the greatest `id`
  obtain ⟨a, ha⟩ : ∃ a, m.lock a ≠ none := by
    rcases Bank.code_or_waits (B := B) (m := m) (i := i) hi with ⟨r, hr⟩ | ⟨-, hl⟩ | ⟨-, hl⟩
    · exact absurd hr (hstuck i r)
    · exact ⟨_, hl⟩
    · exact ⟨_, hl⟩
  have hlocked : (Finset.univ.filter fun a => (m.lock a).isSome = true).Nonempty :=
    ⟨a, Finset.mem_filter.mpr ⟨Finset.mem_univ a, Option.isSome_iff_ne_none.mpr ha⟩⟩
  obtain ⟨top, htop, hmax⟩ := Finset.exists_max_image _ B.id hlocked
  obtain ⟨a', ha', hlt⟩ :=
    h.waits_above hstuck (Option.isSome_iff_ne_none.mp (Finset.mem_filter.mp htop).2)
  have hle := hmax a' (Finset.mem_filter.mpr
    ⟨Finset.mem_univ a', Option.isSome_iff_ne_none.mpr ha'⟩)
  omega

/-- **Transfers do not deadlock and lose no money.**  While a thread is not done, some thread can
move; when all are done, the balances add up to what they were at first; and no balance is ever
negative. -/
theorem transfers_conserve [DecidableEq ι] {xs : List (ι × Unit)}
    {s : Threads ι (Shared ι κ) Point} (hs : B.init.runs B.code xs = some s) :
    ((∃ i, s.loc i ≠ .done) → s.CanStep B.code) ∧
      ((∀ i, s.loc i = .done) → ∑ a, s.shared.balance a = ∑ a, B.balance a) ∧
      ∀ a, 0 ≤ s.shared.balance a := by
  have h : Inv B s.shared s.loc := Threads.runs_invariant (I := fun s => Inv B s.shared s.loc)
    (fun _ _ _ _ _ h hs => h.step hs) inv_init hs
  refine ⟨?_, fun hdone => ?_, h.nonneg⟩
  · rintro ⟨i, hi⟩
    obtain ⟨j, ⟨m, b⟩, hr⟩ := h.progress hi
    exact ⟨(j, ()), _, Threads.step_of_code hr⟩
  · rw [← h.total]
    refine Finset.sum_congr rfl fun a _ => ?_
    rw [Bank.settled, Bank.owed_eq_zero fun i _ => by rw [hdone i]; rfl, sub_zero]

/-- Two accounts, and a transfer each way. -/
def exchange : Bank Bool Bool where
  id a := if a then 1 else 0
  balance _ := 1000
  txn i := ⟨i, !i, 10, by simp, by decide⟩
  id_injective := by decide
  balance_nonneg := by decide
  total_lt := by decide

/-- One transfer is made after the other. -/
theorem transfers_conserve_exchange : ∃ s : Threads Bool (Shared Bool Bool) Point,
    exchange.init.runs exchange.code
        (List.replicate 9 (false, ()) ++ List.replicate 9 (true, ())) = some s ∧
      ((∃ i, s.loc i ≠ .done) → s.CanStep exchange.code) ∧
      ((∀ i, s.loc i = .done) → ∑ a, s.shared.balance a = ∑ a, exchange.balance a) ∧
      ∀ a, 0 ≤ s.shared.balance a := by
  have hrun : (exchange.init.runs exchange.code
      (List.replicate 9 (false, ()) ++ List.replicate 9 (true, ()))).isSome = true := by decide
  obtain ⟨s, hs⟩ := Option.isSome_iff_exists.mp hrun
  exact ⟨s, hs, transfers_conserve hs⟩

end Transfer

end Xv6
