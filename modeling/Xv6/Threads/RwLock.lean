import Xv6.Lib.Threads
import Mathlib.Data.Fin.VecNotation
import Mathlib.Tactic.Common

/-!
# The lock for readers and writers

The model of `rw-using-sems.c`: any number of threads go through sections, each of them for reading
or for writing, and take and release the lock around each.  A semaphore operation is one step, and
so is each access to `rw->readers`, which `rw->readers++` makes two of.

The readers hold `writelock` together: the first of them waits for it and the last posts it,
usually another one.  `held` says from the count of readers, and from whether one is just about to
take or to post `writelock`, whether they have it.

The count is an `int`, and an integer here: `readers_le_card` bounds it by the number of threads, so
that `rw->readers++` does not overflow unless there are 2³¹ of them.
-/

namespace Xv6

open Lib

namespace RwLock

/-! ## The code -/

/-- `rwlock_t`. -/
structure Shared where
  lock : ℕ
  writelock : ℕ
  readers : ℤ

/-- A section, with the lock around it. -/
inductive Section
  | read
  | write

/-- What a thread does next. -/
inductive Point
  | idle
  /-- `sem_wait(&rw->lock)`. -/
  | acquireRead₁
  /-- `rw->readers` is read. -/
  | acquireRead₂
  /-- `rw->readers = k + 1`. -/
  | acquireRead₃ (k : ℤ)
  /-- `if(rw->readers == 1)`. -/
  | acquireRead₄
  /-- `sem_wait(&rw->writelock)`. -/
  | acquireRead₅
  /-- `sem_post(&rw->lock)`. -/
  | acquireRead₆
  /-- In a section for reading; `rwlock_release_readlock` starts with `sem_wait(&rw->lock)`. -/
  | reading
  /-- `rw->readers` is read. -/
  | releaseRead₂
  /-- `rw->readers = k - 1`. -/
  | releaseRead₃ (k : ℤ)
  /-- `if(rw->readers == 0)`. -/
  | releaseRead₄
  /-- `sem_post(&rw->writelock)`. -/
  | releaseRead₅
  /-- `sem_post(&rw->lock)`. -/
  | releaseRead₆
  /-- `sem_wait(&rw->writelock)`. -/
  | acquireWrite
  /-- In a section for writing; `rwlock_release_writelock` is `sem_post(&rw->writelock)`. -/
  | writing

/-- The sections that a thread has not started, and what it does next. -/
structure Local where
  todo : List Section
  point : Point

/-- The next step of a thread. -/
def next (m : Shared) (l : Local) : Option (Shared × Local) :=
  match l.point with
  | .idle =>
    match l.todo with
    | [] => none
    | .read :: todo => some (m, ⟨todo, .acquireRead₁⟩)
    | .write :: todo => some (m, ⟨todo, .acquireWrite⟩)
  | .acquireRead₁ =>
    (semWait m.lock).map fun v => ({ m with lock := v }, { l with point := .acquireRead₂ })
  | .acquireRead₂ => some (m, { l with point := .acquireRead₃ m.readers })
  | .acquireRead₃ k => some ({ m with readers := k + 1 }, { l with point := .acquireRead₄ })
  | .acquireRead₄ =>
    some (m, { l with point := if m.readers = 1 then .acquireRead₅ else .acquireRead₆ })
  | .acquireRead₅ =>
    (semWait m.writelock).map fun v =>
      ({ m with writelock := v }, { l with point := .acquireRead₆ })
  | .acquireRead₆ => some ({ m with lock := m.lock + 1 }, { l with point := .reading })
  | .reading =>
    (semWait m.lock).map fun v => ({ m with lock := v }, { l with point := .releaseRead₂ })
  | .releaseRead₂ => some (m, { l with point := .releaseRead₃ m.readers })
  | .releaseRead₃ k => some ({ m with readers := k - 1 }, { l with point := .releaseRead₄ })
  | .releaseRead₄ =>
    some (m, { l with point := if m.readers = 0 then .releaseRead₅ else .releaseRead₆ })
  | .releaseRead₅ =>
    some ({ m with writelock := m.writelock + 1 }, { l with point := .releaseRead₆ })
  | .releaseRead₆ => some ({ m with lock := m.lock + 1 }, { l with point := .idle })
  | .acquireWrite =>
    (semWait m.writelock).map fun v => ({ m with writelock := v }, { l with point := .writing })
  | .writing => some ({ m with writelock := m.writelock + 1 }, { l with point := .idle })

variable {ι : Type}

/-- What a thread does. -/
def code (_ : ι) (_ : Unit) (m : Shared) (l : Local) : Option (Shared × Local) := next m l

/-- `rwlock_init`, and the sections of each thread. -/
def init (sections : ι → List Section) : Threads ι Shared Local where
  shared := { lock := 1, writelock := 1, readers := 0 }
  loc := fun i => ⟨sections i, .idle⟩

/-! ## The invariant -/

/-- The thread has `lock`. -/
def locks (l : Local) : Bool :=
  match l.point with
  | .acquireRead₂ | .acquireRead₃ _ | .acquireRead₄ | .acquireRead₅ | .acquireRead₆
  | .releaseRead₂ | .releaseRead₃ _ | .releaseRead₄ | .releaseRead₅ | .releaseRead₆ => true
  | _ => false

/-- The thread is counted in `readers`. -/
def counted (l : Local) : Bool :=
  match l.point with
  | .acquireRead₄ | .acquireRead₅ | .acquireRead₆ | .reading | .releaseRead₂
  | .releaseRead₃ _ => true
  | _ => false

/-- The thread has counted itself, and not found out whether it is the first. -/
def enters (l : Local) : Bool :=
  match l.point with
  | .acquireRead₄ | .acquireRead₅ => true
  | _ => false

/-- The thread has counted itself out, and not found out whether it is the last. -/
def leaves (l : Local) : Bool :=
  match l.point with
  | .releaseRead₄ | .releaseRead₅ => true
  | _ => false

/-- The thread is in a section for reading. -/
def reads (l : Local) : Bool :=
  match l.point with
  | .reading => true
  | _ => false

/-- The thread is in a section for writing. -/
def writes (l : Local) : Bool :=
  match l.point with
  | .writing => true
  | _ => false

/-- Whether the readers have `writelock`, where so many threads enter and leave. -/
def held (readers : ℤ) (entering leaving : ℕ) : ℕ :=
  if readers = 0 then leaving else if readers = 1 ∧ 0 < entering then 0 else 1

section

variable {readers : ℤ} {entering leaving : ℕ}

lemma held_of_zero (h : readers = 0) : held readers entering leaving = leaving := if_pos h

lemma held_of_first (h : readers = 1) (hpos : 0 < entering) :
    held readers entering leaving = 0 := by
  rw [held, if_neg (by omega), if_pos ⟨h, hpos⟩]

lemma held_of_many (h : readers ≠ 0) (hfirst : readers = 1 → entering = 0) :
    held readers entering leaving = 1 := by
  rw [held, if_neg h, if_neg]
  rintro ⟨hone, hpos⟩
  exact hpos.ne' (hfirst hone)

end

/-- What a thread knows about `readers`. -/
def Fresh (readers : ℤ) (l : Local) : Prop :=
  match l.point with
  | .acquireRead₃ k | .releaseRead₃ k => k = readers
  | .acquireRead₅ => readers = 1
  | .releaseRead₅ => readers = 0
  | _ => True

variable [Fintype ι]

/-- **The invariant.** -/
structure Inv (m : Shared) (loc : ι → Local) : Prop where
  lock : m.lock + countAt locks loc = 1
  readers : m.readers = countAt counted loc
  writelock : m.writelock + countAt writes loc +
    held m.readers (countAt enters loc) (countAt leaves loc) = 1
  fresh : ∀ i, Fresh m.readers (loc i)

variable {m : Shared} {loc : ι → Local} {i : ι} {a b : Local}

lemma inv_init (sections : ι → List Section) :
    Inv (init sections).shared (init sections).loc := by
  have hzero : ∀ p : Local → Bool, (∀ todo, p ⟨todo, .idle⟩ = false) →
      countAt p (init sections).loc = 0 :=
    fun p hp => countAt_eq_zero fun i => hp (sections i)
  constructor
  · rw [hzero _ fun _ => rfl]
    rfl
  · rw [hzero _ fun _ => rfl]
    rfl
  · rw [hzero _ fun _ => rfl, hzero _ fun _ => rfl, hzero _ fun _ => rfl]
    rfl
  · exact fun _ => trivial

lemma Fresh.congr {readers readers' : ℤ} (h : Fresh readers a)
    (hr : readers' = readers ∨ locks a = false) : Fresh readers' a := by
  obtain ⟨todo, point⟩ := a
  cases point <;> simp_all [Fresh, locks]

lemma Inv.readers_pos (h : Inv m loc) (hi : loc i = a) (hc : counted a = true) :
    1 ≤ m.readers := by
  have hpos : 0 < countAt counted loc := countAt_pos (i := i) (by rw [hi, hc])
  have := h.readers
  omega

variable [DecidableEq ι]

lemma Inv.alone (h : Inv m loc) (hi : loc i = a) (hlock : locks a = true) :
    countAt enters loc = (enters a).toNat ∧ countAt leaves loc = (leaves a).toNat := by
  subst hi
  have hle : countAt locks loc ≤ 1 := le_of_add_le_right h.lock.le
  refine ⟨countAt_eq_of_le_one hle hlock fun l => ?_, countAt_eq_of_le_one hle hlock fun l => ?_⟩
  · obtain ⟨todo, point⟩ := l
    cases point <;> simp [enters, locks]
  · obtain ⟨todo, point⟩ := l
    cases point <;> simp [leaves, locks]

/-! ## Steps keep the invariant -/

lemma Inv.move (h : Inv m loc) (hi : loc i = a) {m' : Shared}
    (hlock : m'.lock + (locks b).toNat = m.lock + (locks a).toNat)
    (hreaders : m'.readers + (counted a).toNat = m.readers + (counted b).toNat)
    (hwrite : m'.writelock + (writes b).toNat + held m'.readers
        (countAt enters (Function.update loc i b)) (countAt leaves (Function.update loc i b)) =
      m.writelock + (writes a).toNat + held m.readers (countAt enters loc) (countAt leaves loc))
    (hfresh : Fresh m'.readers b) (hothers : m'.readers = m.readers ∨ locks a = true) :
    Inv m' (Function.update loc i b) := by
  subst hi
  have hcount := fun p => countAt_update p loc i b
  obtain ⟨lock, readers, writelock, fresh⟩ := h
  refine ⟨?_, ?_, ?_, ?_⟩
  · have := hcount locks
    omega
  · have := hcount counted
    omega
  · have := hcount writes
    omega
  · refine (Function.forall_update_iff loc fun _ l => Fresh m'.readers l).mpr ⟨hfresh, ?_⟩
    intro j hj
    refine (fresh j).congr (hothers.imp_right fun hmine =>
      Bool.eq_false_iff.mpr fun hlocks => hj ?_)
    exact eq_of_countAt_le_one (le_of_add_le_right lock.le) hlocks hmine

/-- A step that leaves `readers` alone, and is not between counting and acting on it. -/
lemma Inv.outside (h : Inv m loc) (hi : loc i = a) {lock writelock : ℕ}
    (hlock : lock + (locks b).toNat = m.lock + (locks a).toNat)
    (hwrite : writelock + (writes b).toNat = m.writelock + (writes a).toNat)
    (hcounted : counted b = counted a) (henters : enters b = enters a)
    (hleaves : leaves b = leaves a) (hfresh : Fresh m.readers b) :
    Inv { m with lock := lock, writelock := writelock } (Function.update loc i b) := by
  have he := countAt_update enters loc i b
  have hl := countAt_update leaves loc i b
  rw [hi, henters, Nat.add_right_cancel_iff] at he
  rw [hi, hleaves, Nat.add_right_cancel_iff] at hl
  refine h.move hi hlock ?_ ?_ hfresh (.inl rfl)
  · rw [hcounted]
  · rw [he, hl, hwrite]

lemma Inv.inside (h : Inv m loc) (hi : loc i = a) (hmine : locks a = true) {m' : Shared}
    (hlock : m'.lock + (locks b).toNat = m.lock + (locks a).toNat)
    (hreaders : m'.readers + (counted a).toNat = m.readers + (counted b).toNat)
    (hwrite : m'.writelock + (writes b).toNat +
        held m'.readers (enters b).toNat (leaves b).toNat =
      m.writelock + (writes a).toNat + held m.readers (enters a).toNat (leaves a).toNat)
    (hfresh : Fresh m'.readers b) : Inv m' (Function.update loc i b) := by
  obtain ⟨henters, hleaves⟩ := h.alone hi hmine
  have he := countAt_update enters loc i b
  have hl := countAt_update leaves loc i b
  rw [hi, henters, Nat.add_comm, Nat.add_left_cancel_iff] at he
  rw [hi, hleaves, Nat.add_comm, Nat.add_left_cancel_iff] at hl
  refine h.move hi hlock hreaders ?_ hfresh (.inr hmine)
  rw [he, hl, henters, hleaves, hwrite]

lemma Inv.step {m' : Shared} (h : Inv m loc) (hs : next m (loc i) = some (m', b)) :
    Inv m' (Function.update loc i b) := by
  have hfresh := h.fresh i
  generalize hi : loc i = l at hs hfresh
  obtain ⟨todo, point⟩ := l
  cases point with
  | idle =>
    cases todo with
    | nil => cases hs
    | cons c todo =>
      cases c <;> cases hs
      · exact h.outside hi rfl rfl rfl rfl rfl trivial
      · exact h.outside hi rfl rfl rfl rfl rfl trivial
  | acquireRead₁ =>
    obtain ⟨v, hv, hs⟩ := Option.map_eq_some_iff.mp hs
    cases hs
    exact h.outside hi (semWait_eq_some.mp hv).symm rfl rfl rfl rfl trivial
  | acquireRead₂ =>
    cases hs
    exact h.outside hi rfl rfl rfl rfl rfl rfl
  -- the first reader is counted before it has `writelock`, and `held` is told that it is about to
  -- wait
  | acquireRead₃ k =>
    cases hs
    obtain rfl : k = m.readers := hfresh
    have hnonneg : 0 ≤ m.readers := by
      have := h.readers
      omega
    refine h.inside hi rfl rfl (by simp [counted]) ?_ trivial
    show m.writelock + 0 + held (m.readers + 1) 1 0 = m.writelock + 0 + held m.readers 0 0
    by_cases hfirst : m.readers = 0
    · rw [held_of_first (by omega) Nat.one_pos, held_of_zero hfirst]
    · rw [held_of_many (by omega) (by omega), held_of_many hfirst fun _ => rfl]
  | acquireRead₄ =>
    cases hs
    have hpos := h.readers_pos hi rfl
    by_cases hone : m.readers = 1
    · rw [if_pos hone]
      exact h.inside hi rfl rfl rfl rfl hone
    · rw [if_neg hone]
      refine h.inside hi rfl rfl rfl ?_ trivial
      show m.writelock + 0 + held m.readers 0 0 = m.writelock + 0 + held m.readers 1 0
      rw [held_of_many (by omega) fun _ => rfl, held_of_many (by omega) (absurd · hone)]
  -- the first reader takes `writelock` for all of them
  | acquireRead₅ =>
    obtain ⟨v, hv, hs⟩ := Option.map_eq_some_iff.mp hs
    cases hs
    have hone : m.readers = 1 := hfresh
    have hval := semWait_eq_some.mp hv
    refine h.inside hi rfl rfl rfl ?_ trivial
    show v + 0 + held m.readers 0 0 = m.writelock + 0 + held m.readers 1 0
    rw [held_of_first hone Nat.one_pos, held_of_many (by omega) fun _ => rfl, hval]
  | acquireRead₆ =>
    cases hs
    exact h.outside hi rfl rfl rfl rfl rfl trivial
  | reading =>
    obtain ⟨v, hv, hs⟩ := Option.map_eq_some_iff.mp hs
    cases hs
    exact h.outside hi (semWait_eq_some.mp hv).symm rfl rfl rfl rfl trivial
  | releaseRead₂ =>
    cases hs
    exact h.outside hi rfl rfl rfl rfl rfl rfl
  -- the last reader is no longer counted, and still has to post `writelock`
  | releaseRead₃ k =>
    cases hs
    have hpos := h.readers_pos hi rfl
    obtain rfl : k = m.readers := hfresh
    refine h.inside hi rfl rfl (by simp [counted]) ?_ trivial
    show m.writelock + 0 + held (m.readers - 1) 0 1 = m.writelock + 0 + held m.readers 0 0
    have hmany : held m.readers 0 0 = 1 := held_of_many (by omega) fun _ => rfl
    rw [hmany]
    by_cases hlast : m.readers - 1 = 0
    · rw [held_of_zero hlast]
    · rw [held_of_many hlast fun _ => rfl]
  | releaseRead₄ =>
    cases hs
    by_cases hzero : m.readers = 0
    · rw [if_pos hzero]
      exact h.inside hi rfl rfl rfl rfl hzero
    · rw [if_neg hzero]
      refine h.inside hi rfl rfl rfl ?_ trivial
      show m.writelock + 0 + held m.readers 0 0 = m.writelock + 0 + held m.readers 0 1
      rw [held_of_many hzero fun _ => rfl, held_of_many hzero fun _ => rfl]
  | releaseRead₅ =>
    cases hs
    have hzero : m.readers = 0 := hfresh
    refine h.inside hi rfl rfl rfl ?_ trivial
    show m.writelock + 1 + 0 + held m.readers 0 0 = m.writelock + 0 + held m.readers 0 1
    rw [held_of_zero hzero, held_of_zero hzero]
  | releaseRead₆ =>
    cases hs
    exact h.outside hi rfl rfl rfl rfl rfl trivial
  | acquireWrite =>
    obtain ⟨v, hv, hs⟩ := Option.map_eq_some_iff.mp hs
    cases hs
    exact h.outside hi rfl (semWait_eq_some.mp hv).symm rfl rfl rfl trivial
  | writing =>
    cases hs
    exact h.outside hi rfl rfl rfl rfl rfl trivial

/-! ## Exclusion and progress -/

lemma Inv.held_of_reads (h : Inv m loc) (hi : reads (loc i) = true) :
    held m.readers (countAt enters loc) (countAt leaves loc) = 1 := by
  have hcounted : ∀ l, reads l = true → counted l = true := by
    rintro ⟨todo, point⟩
    cases point <;> simp [reads, counted]
  have hpos := h.readers_pos rfl (hcounted _ hi)
  refine held_of_many (by omega) fun hone => ?_
  -- one that enters would be counted next to the one that reads
  by_contra henters
  obtain ⟨j, hj⟩ := exists_of_countAt_pos (Nat.pos_of_ne_zero henters)
  have hentered : ∀ l, enters l = true → counted l = true ∧ reads l = false := by
    rintro ⟨todo, point⟩
    cases point <;> simp [enters, counted, reads]
  have hle : countAt counted loc ≤ 1 := by
    have := h.readers
    omega
  have heq := eq_of_countAt_le_one hle (hcounted _ hi) (hentered _ hj).1
  rw [heq, (hentered _ hj).2] at hi
  cases hi

lemma next_of_locks {l : Local} (hl : locks l = true)
    (hw : l.point = .acquireRead₅ → 0 < m.writelock) : ∃ r, next m l = some r := by
  obtain ⟨todo, point⟩ := l
  cases point with
  | acquireRead₅ =>
    exact ⟨_, Option.map_eq_some_iff.mpr ⟨_, if_pos (hw rfl), rfl⟩⟩
  | acquireRead₂ | acquireRead₃ | acquireRead₄ | acquireRead₆ | releaseRead₂ | releaseRead₃
  | releaseRead₄ | releaseRead₅ | releaseRead₆ => exact ⟨_, rfl⟩
  | idle | acquireRead₁ | reading | acquireWrite | writing => cases hl

lemma next_of_writes {l : Local} (hl : writes l = true) : ∃ r, next m l = some r := by
  obtain ⟨todo, point⟩ := l
  cases point <;> first | exact ⟨_, rfl⟩ | cases hl

lemma next_of_reads {l : Local} (hl : reads l = true) (hlock : 0 < m.lock) :
    ∃ r, next m l = some r := by
  obtain ⟨todo, point⟩ := l
  cases point with
  | reading => exact ⟨_, Option.map_eq_some_iff.mpr ⟨_, if_pos hlock, rfl⟩⟩
  | _ => cases hl

omit [DecidableEq ι] in
lemma Inv.progress_locked (h : Inv m loc) (hi : locks (loc i) = true) :
    ∃ j r, next m (loc j) = some r := by
  by_cases hwait : (loc i).point = .acquireRead₅ ∧ m.writelock = 0
  · obtain ⟨hpoint, hzero⟩ := hwait
    have hone : m.readers = 1 := by
      have := h.fresh i
      rwa [Fresh, hpoint] at this
    have henters : enters (loc i) = true := by
      rw [enters, hpoint]
    have hwrite := h.writelock
    rw [hzero, held_of_first hone (countAt_pos henters)] at hwrite
    obtain ⟨j, hj⟩ := exists_of_countAt_pos (by omega : 0 < countAt writes loc)
    exact ⟨j, next_of_writes hj⟩
  · refine ⟨i, next_of_locks hi fun hpoint => ?_⟩
    exact Nat.pos_of_ne_zero fun hzero => hwait ⟨hpoint, hzero⟩

omit [DecidableEq ι] in
/-- If no thread has `lock`, one that has not gone through its sections can move, or one that it
waits for. -/
lemma Inv.progress_unlocked (h : Inv m loc) (hno : countAt locks loc = 0)
    (hi : loc i ≠ ⟨[], .idle⟩) : ∃ j r, next m (loc j) = some r := by
  have hlock : 0 < m.lock := by
    have := h.lock
    omega
  have hfree := eq_false_of_countAt_eq_zero hno i
  have hwrites : 0 < countAt writes loc → ∃ j r, next m (loc j) = some r := by
    intro hpos
    obtain ⟨j, hj⟩ := exists_of_countAt_pos hpos
    exact ⟨j, next_of_writes hj⟩
  -- a reader that is counted and outside of the lock can take the lock
  have hreads : 0 < countAt counted loc → ∃ j r, next m (loc j) = some r := by
    intro hpos
    obtain ⟨j, hj⟩ := exists_of_countAt_pos hpos
    have hjfree := eq_false_of_countAt_eq_zero hno j
    refine ⟨j, next_of_reads ?_ hlock⟩
    generalize loc j = l at hj hjfree
    obtain ⟨todo, point⟩ := l
    cases point <;> simp_all [counted, locks, reads]
  generalize hl : loc i = l at hi hfree
  obtain ⟨todo, point⟩ := l
  cases point with
  | idle =>
    cases todo with
    | nil => exact absurd rfl hi
    | cons c todo => exact ⟨i, by rw [hl]; cases c <;> exact ⟨_, rfl⟩⟩
  | acquireRead₁ =>
    exact ⟨i, _, by rw [hl]; exact Option.map_eq_some_iff.mpr ⟨_, if_pos hlock, rfl⟩⟩
  | reading => exact ⟨i, by rw [hl]; exact next_of_reads rfl hlock⟩
  | writing => exact ⟨i, by rw [hl]; exact next_of_writes rfl⟩
  | acquireWrite =>
    -- `writelock` is taken: a writer has it, or the readers do
    by_cases hzero : m.writelock = 0
    · have hwrite := h.writelock
      have hleaves : countAt leaves loc ≤ countAt locks loc := by
        refine countAt_mono ?_
        rintro ⟨todo, point⟩
        cases point <;> simp [leaves, locks]
      have hreaders := h.readers
      by_cases hnone : countAt writes loc = 0
      · refine hreads ?_
        rw [hzero, hnone, held] at hwrite
        split_ifs at hwrite <;> omega
      · exact hwrites (Nat.pos_of_ne_zero hnone)
    · exact ⟨i, _, by
        rw [hl]
        exact Option.map_eq_some_iff.mpr ⟨_, if_pos (Nat.pos_of_ne_zero hzero), rfl⟩⟩
  | acquireRead₂ | acquireRead₃ | acquireRead₄ | acquireRead₅ | acquireRead₆ | releaseRead₂
  | releaseRead₃ | releaseRead₄ | releaseRead₅ | releaseRead₆ => cases hfree

omit [DecidableEq ι] in
lemma Inv.progress (h : Inv m loc) (hi : loc i ≠ ⟨[], .idle⟩) :
    ∃ j r, next m (loc j) = some r := by
  by_cases hno : countAt locks loc = 0
  · exact h.progress_unlocked hno hi
  · obtain ⟨j, hj⟩ := exists_of_countAt_pos (Nat.pos_of_ne_zero hno)
    exact h.progress_locked hj

lemma inv_of_runs {sections : ι → List Section} {xs : List (ι × Unit)}
    {s : Threads ι Shared Local} (hs : (init sections).runs code xs = some s) :
    Inv s.shared s.loc :=
  Threads.runs_invariant (I := fun s => Inv s.shared s.loc)
    (fun _ _ _ _ _ h hs => h.step hs) (inv_init sections) hs

/-- **The count of readers fits its `int`**, as far as the threads can be counted by one. -/
theorem readers_le_card {sections : ι → List Section} {xs : List (ι × Unit)}
    {s : Threads ι Shared Local} (hs : (init sections).runs code xs = some s) :
    s.shared.readers ≤ Fintype.card ι := by
  rw [(inv_of_runs hs).readers]
  exact Int.ofNat_le.mpr countAt_le_card

/-- **The lock excludes.**  At most one thread is in a section for writing, and then none is in one
for reading; `readers` is never negative and the semaphores are 0 or 1; and unless all threads have
gone through their sections, one of them can move. -/
theorem rwlock_excludes {sections : ι → List Section} {xs : List (ι × Unit)}
    {s : Threads ι Shared Local} (hs : (init sections).runs code xs = some s) :
    (∀ i j, writes (s.loc i) = true → writes (s.loc j) = true → i = j) ∧
      (∀ i j, writes (s.loc i) = true → reads (s.loc j) = false) ∧
      0 ≤ s.shared.readers ∧ s.shared.lock ≤ 1 ∧ s.shared.writelock ≤ 1 ∧
      ((∀ i, s.loc i = ⟨[], .idle⟩) ∨ s.CanStep code) := by
  have h := inv_of_runs hs
  have hlock := h.lock
  have hwrite := h.writelock
  have hreaders := h.readers
  refine ⟨fun i j hi hj => eq_of_countAt_le_one (by omega) hi hj, fun i j hi => ?_, by omega,
    by omega, by omega, ?_⟩
  · refine Bool.eq_false_iff.mpr fun hj => ?_
    have hpos := countAt_pos hi
    have hheld := h.held_of_reads hj
    omega
  · by_cases hdone : ∀ i, s.loc i = ⟨[], .idle⟩
    · exact .inl hdone
    · obtain ⟨i, hi⟩ := not_forall.mp hdone
      obtain ⟨j, ⟨m, b⟩, hr⟩ := h.progress hi
      exact .inr ⟨(j, ()), _, Threads.step_of_code hr⟩

/-- A thread that reads and one that writes. -/
def readerAndWriter : Fin 2 → List Section := ![[.read], [.write]]

/-- The first reads, and the second waits until it has read. -/
theorem rwlock_excludes_readerAndWriter : ∃ s : Threads (Fin 2) Shared Local,
    (init readerAndWriter).runs code
        (List.replicate 7 (0, ()) ++ [(1, ())] ++ List.replicate 6 (0, ()) ++ [(1, ())]) = some s ∧
      (∀ i j, writes (s.loc i) = true → writes (s.loc j) = true → i = j) ∧
      (∀ i j, writes (s.loc i) = true → reads (s.loc j) = false) ∧
      0 ≤ s.shared.readers ∧ s.shared.lock ≤ 1 ∧ s.shared.writelock ≤ 1 ∧
      ((∀ i, s.loc i = ⟨[], .idle⟩) ∨ s.CanStep code) := by
  have hrun : ((init readerAndWriter).runs code (List.replicate 7 (0, ()) ++ [(1, ())] ++
      List.replicate 6 (0, ()) ++ [(1, ())])).isSome = true := by decide
  obtain ⟨s, hs⟩ := Option.isSome_iff_exists.mp hrun
  exact ⟨s, hs, rwlock_excludes hs⟩

end RwLock

end Xv6
