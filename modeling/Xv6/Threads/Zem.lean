import Xv6.Lib.Threads
import Mathlib.Data.Fin.VecNotation
import Mathlib.Tactic.Common

/-!
# The semaphore made of a lock and a condition variable

The model of `sems-using-lock-cv.c`: any number of threads call `zem_wait` and `zem_post`, each in
an order of its own.  The operations on the lock are one step each, `pthread_cond_wait` releases
the lock and puts the thread to sleep in one step, and a thread that sleeps wakes up when it is
signalled, or for no reason.  `s->value++` reads `value` and writes it.

`zem_wait` does not decrement `value`, so that it is a latch: once `value` is positive, every
`zem_wait` returns.  `zem_counts_iff` says for which programs this is as good as a semaphore: those
in which, however far each thread has come, not more waits than `value` allows have been made
anyway, except that nothing at all is made before a thread starts with a post if `value` starts
at 0.

`value` is an `int`, and an integer here: `value_le` bounds it by its first value and all posts of
the threads, so that `s->value++` does not overflow if these are less than 2³¹ together.
-/

namespace Xv6

open Lib

namespace Zem

/-! ## The code -/

inductive Call
  | wait
  | post
  deriving DecidableEq

/-- `zem_t`: the queue of `cond` is the list of the threads that sleep. -/
structure Shared (ι : Type) where
  value : ℤ
  cond : List ι
  locked : Bool

/-- What a thread does next. -/
inductive Point
  | idle
  /-- `pthread_mutex_lock(&s->lock)` of `zem_wait`. -/
  | wait₁
  /-- `while(s->value <= 0)`. -/
  | wait₂
  /-- `pthread_cond_wait` releases the lock. -/
  | wait₃
  /-- `pthread_cond_wait` sleeps. -/
  | wait₄
  /-- `pthread_cond_wait` takes the lock again. -/
  | wait₅
  /-- `pthread_mutex_unlock(&s->lock)` of `zem_wait`. -/
  | wait₆
  /-- `pthread_mutex_lock(&s->lock)` of `zem_post`. -/
  | post₁
  /-- `s->value` is read. -/
  | post₂
  /-- `s->value = k + 1`. -/
  | post₃ (k : ℤ)
  /-- `pthread_cond_signal(&s->cond)`. -/
  | post₄
  /-- `pthread_mutex_unlock(&s->lock)` of `zem_post`. -/
  | post₅

/-- The calls that a thread has not started and those that it has made, and what it does next.  A
wait is made when it returns, a post when it has incremented `value`. -/
structure Local where
  todo : List Call
  made : List Call
  point : Point

/-- The next step of a thread, a wake-up for no reason, or a signal to a thread. -/
inductive Act (ι : Type)
  | next
  | wake
  | signal (j : Option ι)

variable {ι : Type} [DecidableEq ι]

/-- `pthread_mutex_lock`, which needs a free lock. -/
def Shared.lock (m : Shared ι) : Option (Shared ι) :=
  if m.locked then none else some { m with locked := true }

/-- `pthread_mutex_unlock`. -/
def Shared.unlock (m : Shared ι) : Shared ι := { m with locked := false }

/-- The next step of a thread. -/
def next (i : ι) (m : Shared ι) (l : Local) : Option (Shared ι × Local) :=
  match l.point with
  | .idle =>
    match l.todo with
    | [] => none
    | .wait :: todo => some (m, { l with todo := todo, point := .wait₁ })
    | .post :: todo => some (m, { l with todo := todo, point := .post₁ })
  | .wait₁ => m.lock.map fun m => (m, { l with point := .wait₂ })
  | .wait₂ => some (m, { l with point := if m.value ≤ 0 then .wait₃ else .wait₆ })
  | .wait₃ => some ({ m.unlock with cond := i :: m.cond }, { l with point := .wait₄ })
  | .wait₄ => if i ∈ m.cond then none else some (m, { l with point := .wait₅ })
  | .wait₅ => m.lock.map fun m => (m, { l with point := .wait₂ })
  | .wait₆ => some (m.unlock, { l with made := l.made ++ [.wait], point := .idle })
  | .post₁ => m.lock.map fun m => (m, { l with point := .post₂ })
  | .post₂ => some (m, { l with point := .post₃ m.value })
  | .post₃ k =>
    some ({ m with value := k + 1 }, { l with made := l.made ++ [.post], point := .post₄ })
  | .post₄ => none
  | .post₅ => some (m.unlock, { l with point := .idle })

/-- What a thread does.  A signal goes to a thread that sleeps, or to none if none does. -/
def code (i : ι) (act : Act ι) (m : Shared ι) (l : Local) : Option (Shared ι × Local) :=
  match act, l.point with
  | .next, _ => next i m l
  | .wake, .wait₄ => some ({ m with cond := m.cond.erase i }, { l with point := .wait₅ })
  | .signal none, .post₄ => if m.cond = [] then some (m, { l with point := .post₅ }) else none
  | .signal (some j), .post₄ =>
    if j ∈ m.cond then some ({ m with cond := m.cond.erase j }, { l with point := .post₅ })
    else none
  | _, _ => none

/-- `zem_init`, and the calls of each thread. -/
def init (v : ℕ) (prog : ι → List Call) : Threads ι (Shared ι) Local where
  shared := { value := v, cond := [], locked := false }
  loc := fun i => ⟨prog i, [], .idle⟩

variable [Fintype ι]

/-- How often a call has been made. -/
def total (c : Call) (loc : ι → Local) : ℕ := ∑ i, (loc i).made.count c

/-! ## The invariant -/

/-- The thread has the lock. -/
def inside (l : Local) : Bool :=
  match l.point with
  | .wait₂ | .wait₃ | .wait₆ | .post₂ | .post₃ _ | .post₄ | .post₅ => true
  | _ => false

/-- The call that the thread is in and has not made. -/
def Point.pending : Point → List Call
  | .wait₁ | .wait₂ | .wait₃ | .wait₄ | .wait₅ | .wait₆ => [.wait]
  | .post₁ | .post₂ | .post₃ _ => [.post]
  | _ => []

/-- What a thread knows about `value`. -/
def Knows (value : ℤ) (l : Local) : Prop :=
  match l.point with
  | .post₃ k => k = value
  | .wait₆ => 0 < value
  | _ => True

/-- **The invariant.** -/
structure Inv (v : ℕ) (prog : ι → List Call) (m : Shared ι) (loc : ι → Local) : Prop where
  lock : countAt inside loc = m.locked.toNat
  value : m.value = v + total .post loc
  knows : ∀ i, Knows m.value (loc i)
  calls : ∀ i, (loc i).made ++ ((loc i).point.pending ++ (loc i).todo) = prog i
  /-- Whoever makes the first call makes a post, unless `value` is positive from the start. -/
  first : ∀ i, (loc i).made ≠ [] → 0 < v ∨ ∃ j, (loc j).made.head? = some .post

variable {v : ℕ} {prog : ι → List Call} {m m' : Shared ι} {loc : ι → Local} {i : ι} {a b : Local}

omit [DecidableEq ι] in
lemma inv_init : Inv v prog (init v prog).shared (init v prog).loc where
  lock := countAt_eq_zero fun _ => rfl
  value := by
    show (v : ℤ) = v + ((∑ i : ι, 0 : ℕ) : ℤ)
    simp
  knows _ := trivial
  calls _ := rfl
  first _ h := absurd rfl h

omit [DecidableEq ι] [Fintype ι] in
lemma Knows.congr {value value' : ℤ} (h : Knows value a)
    (hv : value' = value ∨ inside a = false) : Knows value' a := by
  obtain ⟨todo, made, point⟩ := a
  cases point <;> simp_all [Knows, inside]

lemma Inv.move (h : Inv v prog m loc) (hi : loc i = a)
    (hlock : m'.locked.toNat + (inside a).toNat = m.locked.toNat + (inside b).toNat)
    (hvalue : m'.value + a.made.count .post = m.value + b.made.count .post)
    (hothers : m'.value = m.value ∨ inside a = true) (hknows : Knows m'.value b)
    (hcalls : b.made ++ (b.point.pending ++ b.todo) = a.made ++ (a.point.pending ++ a.todo))
    (hfirst : ∀ c, a.made.head? = some c → b.made.head? = some c)
    (hnew : b.made ≠ [] → 0 < v ∨ (∃ j, (loc j).made.head? = some .post) ∨
      b.made.head? = some .post) :
    Inv v prog m' (Function.update loc i b) := by
  subst hi
  have hhead : ∀ j, (loc j).made.head? = some .post →
      (Function.update loc i b j).made.head? = some .post := by
    intro j hj
    by_cases hji : j = i
    · subst hji
      rw [Function.update_self]
      exact hfirst _ hj
    · rwa [Function.update_of_ne hji]
  constructor
  · have hcount := countAt_update inside loc i b
    have := h.lock
    omega
  · have hsum := sum_update (fun l : Local => l.made.count .post) loc i b
    have := h.value
    simp only [total] at *
    omega
  · refine (Function.forall_update_iff loc fun _ l => Knows m'.value l).mpr ⟨hknows, fun j hj => ?_⟩
    refine (h.knows j).congr (hothers.imp_right fun hmine =>
      Bool.eq_false_iff.mpr fun hin => hj ?_)
    have hle : countAt inside loc ≤ 1 := by
      rw [h.lock]
      exact Bool.toNat_le m.locked
    exact eq_of_countAt_le_one hle hin hmine
  · refine (Function.forall_update_iff loc fun j l =>
      l.made ++ (l.point.pending ++ l.todo) = prog j).mpr ⟨?_, fun j _ => h.calls j⟩
    rw [hcalls, h.calls]
  · intro j hj
    by_cases hji : j = i
    · subst hji
      rw [Function.update_self] at hj
      rcases hnew hj with hv | ⟨k, hk⟩ | hpost
      · exact .inl hv
      · exact .inr ⟨k, hhead k hk⟩
      · exact .inr ⟨j, by rwa [Function.update_self]⟩
    · rw [Function.update_of_ne hji] at hj
      rcases h.first j hj with hv | ⟨k, hk⟩
      · exact .inl hv
      · exact .inr ⟨k, hhead k hk⟩

lemma Inv.pass (h : Inv v prog m loc) (hi : loc i = a) (hmade : b.made = a.made)
    (hlock : m'.locked.toNat + (inside a).toNat = m.locked.toNat + (inside b).toNat)
    (hvalue : m'.value = m.value) (hknows : Knows m.value b)
    (hcalls : b.point.pending ++ b.todo = a.point.pending ++ a.todo) :
    Inv v prog m' (Function.update loc i b) := by
  refine h.move hi hlock (by rw [hvalue, hmade]) (.inl hvalue) (hvalue ▸ hknows)
    (by rw [hmade, hcalls]) (fun c hc => by rwa [hmade]) fun hne => ?_
  rw [hmade, ← hi] at hne
  exact (h.first i hne).imp_right .inl

omit [DecidableEq ι] [Fintype ι] in
lemma Shared.lock_eq_some (h : m.lock = some m') :
    m.locked = false ∧ m' = { m with locked := true } := by
  unfold Shared.lock at h
  split_ifs at h with hl
  cases h
  exact ⟨Bool.eq_false_iff.mpr hl, rfl⟩

omit [DecidableEq ι] in
/-- If `value` is positive, it was so from the start or a thread has started with a post. -/
lemma Inv.first_of_pos (h : Inv v prog m loc) (hpos : 0 < m.value) :
    0 < v ∨ ∃ j, (loc j).made.head? = some .post := by
  by_cases hv : 0 < v
  · exact .inl hv
  · have htotal : total .post loc ≠ 0 := by
      have := h.value
      omega
    obtain ⟨i, -, hi⟩ := Finset.exists_ne_zero_of_sum_ne_zero htotal
    refine h.first i fun hnil => hi ?_
    rw [hnil, List.count_nil]

lemma Inv.next (h : Inv v prog m loc) (hs : next i m (loc i) = some (m', b)) :
    Inv v prog m' (Function.update loc i b) := by
  have hknows := h.knows i
  generalize hi : loc i = l at hs hknows
  obtain ⟨todo, made, point⟩ := l
  -- a thread takes the lock
  have hlock : ∀ p : Point, p.pending = point.pending → inside ⟨todo, made, point⟩ = false →
      inside ⟨todo, made, p⟩ = true → Knows m.value ⟨todo, made, p⟩ →
      m.lock.map (fun m => (m, (⟨todo, made, p⟩ : Local))) = some (m', b) →
      Inv v prog m' (Function.update loc i b) := by
    intro p hp hout hin hk hs
    obtain ⟨m₁, hm, hs⟩ := Option.map_eq_some_iff.mp hs
    cases hs
    obtain ⟨hfree, rfl⟩ := Shared.lock_eq_some hm
    refine h.pass hi rfl ?_ rfl hk (by rw [hp])
    rw [hfree, hout, hin]
    rfl
  -- a thread with the lock finds it taken
  have hlocked : inside ⟨todo, made, point⟩ = true → m.locked = true := by
    intro hin
    have hpos : 0 < countAt inside loc := countAt_pos (i := i) (by rw [hi, hin])
    rw [h.lock] at hpos
    cases hm : m.locked with
    | true => rfl
    | false => exact absurd hpos (by rw [hm]; exact lt_irrefl 0)
  cases point with
  | idle =>
    cases todo with
    | nil => cases hs
    | cons c todo => cases c <;> cases hs <;> exact h.pass hi rfl rfl rfl trivial rfl
  | wait₁ => exact hlock .wait₂ rfl rfl rfl trivial hs
  | wait₂ =>
    cases hs
    split_ifs with hle
    · exact h.pass hi rfl rfl rfl trivial rfl
    · exact h.pass hi rfl rfl rfl (not_le.mp hle) rfl
  | wait₃ =>
    cases hs
    refine h.pass hi rfl ?_ rfl trivial rfl
    rw [hlocked rfl]
    rfl
  | wait₄ =>
    change (if i ∈ m.cond then none else some (m, _)) = some (m', b) at hs
    split_ifs at hs
    cases hs
    exact h.pass hi rfl rfl rfl trivial rfl
  | wait₅ => exact hlock .wait₂ rfl rfl rfl trivial hs
  | wait₆ =>
    cases hs
    refine h.move hi ?_ ?_ (.inl rfl) trivial ?_ ?_ ?_
    · rw [hlocked rfl]
      rfl
    · simp [Shared.unlock]
    · simp [Point.pending]
    · intro c hc
      simp [List.head?_append, hc]
    · intro _
      exact (h.first_of_pos hknows).imp_right .inl
  | post₁ => exact hlock .post₂ rfl rfl rfl trivial hs
  | post₂ =>
    cases hs
    exact h.pass hi rfl rfl rfl rfl rfl
  | post₃ k =>
    cases hs
    obtain rfl : k = m.value := hknows
    refine h.move hi rfl ?_ (.inr rfl) trivial ?_ ?_ ?_
    · simp
      omega
    · simp [Point.pending]
    · intro c hc
      simp [List.head?_append, hc]
    · intro _
      by_cases hmade : made = []
      · exact .inr (.inr (by simp [hmade]))
      · exact (h.first i (by rwa [hi])).imp_right .inl
  | post₄ => cases hs
  | post₅ =>
    cases hs
    refine h.pass hi rfl ?_ rfl trivial rfl
    rw [hlocked rfl]
    rfl

lemma Inv.code {act : Act ι} (h : Inv v prog m loc) (hs : code i act m (loc i) = some (m', b)) :
    Inv v prog m' (Function.update loc i b) := by
  cases act with
  | next => exact h.next hs
  | wake =>
    generalize hi : loc i = l at hs
    obtain ⟨todo, made, point⟩ := l
    cases point <;> cases hs
    exact h.pass hi rfl rfl rfl trivial rfl
  | signal j =>
    generalize hi : loc i = l at hs
    obtain ⟨todo, made, point⟩ := l
    cases point with
    | post₄ =>
      cases j with
      | none =>
        change (if m.cond = [] then some (m, _) else none) = some (m', b) at hs
        split_ifs at hs
        cases hs
        exact h.pass hi rfl rfl rfl trivial rfl
      | some j =>
        change (if j ∈ m.cond then some (_, _) else none) = some (m', b) at hs
        split_ifs at hs
        cases hs
        exact h.pass hi rfl rfl rfl trivial rfl
    | _ => cases j <;> cases hs

/-! ## Runs that make calls one after the other -/

variable (prog) in
/-- Each thread has made so many of its calls, and no other is on the way. -/
def rest (n : ι → ℕ) (i : ι) : Local := ⟨(prog i).drop (n i), (prog i).take (n i), .idle⟩

variable (v prog) in
/-- No call is on the way. -/
def quiet (n : ι → ℕ) : Threads ι (Shared ι) Local where
  shared := { value := v + total .post (rest prog n), cond := [], locked := false }
  loc := rest prog n

omit [Fintype ι] in
lemma solo_call (i : ι) (todo made : List Call) {c : Call} {value : ℤ}
    (hpos : 0 < value ∨ c = .post) :
    ∃ acts, Threads.solo Zem.code i acts (⟨value, [], false⟩, ⟨c :: todo, made, .idle⟩) =
      some (⟨value + ([c].count .post : ℕ), [], false⟩, ⟨todo, made ++ [c], .idle⟩) := by
  cases c with
  | wait =>
    have hnot : ¬ value ≤ 0 := not_le.mpr (hpos.resolve_right Call.noConfusion)
    refine ⟨[.next, .next, .next, .next], ?_⟩
    simp [Threads.solo, Zem.code, Zem.next, Shared.lock, Shared.unlock, hnot]
  | post =>
    refine ⟨[.next, .next, .next, .next, .signal none, .next], ?_⟩
    simp [Threads.solo, Zem.code, Zem.next, Shared.lock, Shared.unlock]

variable {n n' : ι → ℕ}

omit [Fintype ι] in
lemma rest_update : rest prog (Function.update n i (n i + 1)) = Function.update (rest prog n) i
    ⟨(prog i).drop (n i + 1), (prog i).take (n i + 1), .idle⟩ := by
  funext j
  by_cases hj : j = i
  · subst hj
    rw [rest, Function.update_self, Function.update_self]
  · rw [rest, Function.update_of_ne hj, Function.update_of_ne hj, rest]

lemma quiet_value (hi : n i < (prog i).length) :
    (quiet v prog (Function.update n i (n i + 1))).shared.value =
      (quiet v prog n).shared.value + ([(prog i)[n i]].count .post : ℕ) := by
  have hsum := sum_update (fun l : Local => l.made.count .post) (rest prog n) i
    ⟨(prog i).drop (n i + 1), (prog i).take (n i + 1), .idle⟩
  show (v : ℤ) + (total .post (rest prog _) : ℕ) = v + (total .post (rest prog n) : ℕ) + _
  rw [rest_update]
  simp only [total, rest, ← List.take_append_getElem hi, List.count_append] at hsum ⊢
  omega

lemma quiet_call (hi : n i < (prog i).length)
    (hpos : 0 < (quiet v prog n).shared.value ∨ (prog i)[n i] = .post) :
    ∃ xs, (quiet v prog n).runs Zem.code xs =
      some (quiet v prog (Function.update n i (n i + 1))) := by
  have hloc : (quiet v prog n).loc i =
      ⟨(prog i)[n i] :: (prog i).drop (n i + 1), (prog i).take (n i), .idle⟩ :=
    congrArg (fun todo => (⟨todo, (prog i).take (n i), .idle⟩ : Local))
      (List.drop_eq_getElem_cons hi)
  obtain ⟨acts, hacts⟩ := solo_call i ((prog i).drop (n i + 1)) ((prog i).take (n i)) hpos
  refine ⟨acts.map fun a => (i, a), ?_⟩
  rw [Threads.runs_solo, hloc]
  refine (congrArg (Option.map _) hacts).trans (congrArg some ?_)
  rw [← quiet_value hi, List.take_append_getElem hi]
  exact congrArg (Threads.mk _) rest_update.symm

lemma quiet_calls (hle : ∀ i, n i ≤ n' i) (hlen : ∀ i, n' i ≤ (prog i).length)
    (hpos : 0 < (quiet v prog n).shared.value) :
    ∃ xs, (quiet v prog n).runs Zem.code xs = some (quiet v prog n') := by
  -- one call after the other, until none is left to be made
  obtain ⟨k, hk⟩ : ∃ k, ∑ i, n' i = ∑ i, n i + k :=
    Nat.exists_eq_add_of_le (Finset.sum_le_sum fun i _ => hle i)
  induction k generalizing n with
  | zero =>
    have heq := (Finset.sum_eq_sum_iff_of_le fun i _ => hle i).mp hk.symm
    exact ⟨[], by rw [show n = n' from funext fun i => heq i (Finset.mem_univ i)]; rfl⟩
  | succ k ih =>
    obtain ⟨i, -, hi⟩ := Finset.exists_lt_of_sum_lt (by omega : ∑ i, n i < ∑ i, n' i)
    have hlt : n i < (prog i).length := hi.trans_le (hlen i)
    obtain ⟨xs, hxs⟩ := quiet_call hlt (.inl hpos)
    have hle' : ∀ j, Function.update n i (n i + 1) j ≤ n' j :=
      (Function.forall_update_iff n fun j x => x ≤ n' j).mpr ⟨hi, fun j _ => hle j⟩
    have hsum := sum_update id n i (n i + 1)
    simp only [id] at hsum
    have hvalue := quiet_value (v := v) hlt
    obtain ⟨ys, hys⟩ := ih hle' (by omega) (by omega)
    exact ⟨xs ++ ys, by rw [Threads.runs_append, hxs, Option.bind_some, hys]⟩

/-! ## Counting -/

/-- In whatever way the threads have made calls, and provided that any can be made at all, not more
of them are waits than a semaphore allows. -/
def Covered (v : ℕ) (prog : ι → List Call) : Prop :=
  ∀ n : ι → ℕ, (0 < v ∨ ∃ i, ((prog i).take (n i)).head? = some .post) →
    ∑ i, ((prog i).take (n i)).count .wait ≤ v + ∑ i, ((prog i).take (n i)).count .post

omit [DecidableEq ι] in
lemma Inv.counts (h : Inv v prog m loc) (hcov : Covered v prog) :
    total .wait loc ≤ v + total .post loc := by
  have htake : ∀ i, (prog i).take (loc i).made.length = (loc i).made := by
    intro i
    rw [← h.calls i, List.take_left]
  by_cases hnone : ∀ i, (loc i).made = []
  · have hzero : total .wait loc = 0 :=
      Finset.sum_eq_zero fun i _ => by rw [hnone i, List.count_nil]
    omega
  · obtain ⟨i, hi⟩ := not_forall.mp hnone
    have hcov' := hcov fun i => (loc i).made.length
    simp only [htake] at hcov'
    exact hcov' (h.first i hi)

omit [DecidableEq ι] [Fintype ι] in
lemma rest_min (n : ι → ℕ) : rest prog (fun i => min (n i) (prog i).length) = rest prog n := by
  funext i
  rcases le_total (n i) (prog i).length with hle | hle
  · simp only [rest, min_eq_left hle]
  · simp only [rest, min_eq_right hle, List.take_length, List.take_of_length_le hle,
      List.drop_length, List.drop_of_length_le hle]

omit [DecidableEq ι] in
lemma init_eq_quiet : init v prog = quiet v prog fun _ => 0 := by
  have hzero : total .post (rest prog fun _ => 0) = 0 := Finset.sum_eq_zero fun _ _ => rfl
  rw [quiet, hzero]
  simp [init]
  rfl

/-- The threads can make any calls, provided that one of them can be made at all. -/
lemma exists_run (n : ι → ℕ) (hn : 0 < v ∨ ∃ i, ((prog i).take (n i)).head? = some .post) :
    ∃ xs, (init v prog).runs Zem.code xs = some (quiet v prog n) := by
  have hquiet : quiet v prog n = quiet v prog fun i => min (n i) (prog i).length := by
    rw [quiet, quiet, rest_min]
  rw [hquiet, init_eq_quiet]
  rcases hn with hv | ⟨i, hi⟩
  · refine quiet_calls (fun i => Nat.zero_le _) (fun i => min_le_right _ _) ?_
    show (0 : ℤ) < v + (_ : ℕ)
    omega
  · -- this thread starts, and then `value` is positive
    have hne : (prog i).take (n i) ≠ [] := by
      rintro hnil
      rw [hnil] at hi
      cases hi
    obtain ⟨hn, hprog⟩ : n i ≠ 0 ∧ prog i ≠ [] := by
      simpa [List.take_eq_nil_iff, not_or] using hne
    have hlt : 0 < (prog i).length := List.length_pos_iff.mpr hprog
    have hpost : (prog i)[0] = .post := by
      rw [List.head?_take, if_neg hn, List.head?_eq_getElem?, List.getElem?_eq_getElem hlt,
        Option.some.injEq] at hi
      exact hi
    obtain ⟨xs, hxs⟩ := quiet_call (v := v) (n := fun _ => 0) hlt (.inr hpost)
    have hpos : 0 < (quiet v prog (Function.update (fun _ => 0) i (0 + 1))).shared.value := by
      rw [quiet_value (n := fun _ => 0) hlt, hpost]
      show (0 : ℤ) < v + (_ : ℕ) + (1 : ℕ)
      omega
    have hle : ∀ j, Function.update (fun _ => 0) i (0 + 1) j ≤ min (n j) (prog j).length :=
      (Function.forall_update_iff _ fun j x => x ≤ min (n j) (prog j).length).mpr
        ⟨by omega, fun j _ => Nat.zero_le _⟩
    obtain ⟨ys, hys⟩ := quiet_calls hle (fun i => min_le_right _ _) hpos
    exact ⟨xs ++ ys, by rw [Threads.runs_append, hxs, Option.bind_some, hys]⟩

lemma inv_of_runs {xs : List (ι × Act ι)} {s : Threads ι (Shared ι) Local}
    (hs : (init v prog).runs Zem.code xs = some s) : Inv v prog s.shared s.loc :=
  Threads.runs_invariant (I := fun s => Inv v prog s.shared s.loc)
    (fun _ _ _ _ _ h hs => h.code hs) inv_init hs

/-- **The value fits its `int`**, as far as its first value and all posts do together. -/
theorem value_le {xs : List (ι × Act ι)} {s : Threads ι (Shared ι) Local}
    (hs : (init v prog).runs Zem.code xs = some s) :
    0 ≤ s.shared.value ∧ s.shared.value ≤ (v + ∑ i, (prog i).count .post : ℕ) := by
  have h := inv_of_runs hs
  have hle : total .post s.loc ≤ ∑ i, (prog i).count .post := by
    refine Finset.sum_le_sum fun i _ => ?_
    rw [← h.calls i, List.count_append]
    exact Nat.le_add_right _ _
  have hvalue := h.value
  omega

/-- **What the semaphore needs to count.**  In every run the waits that have returned are at most
`v` and the posts that have incremented `value`, if and only if the calls are covered. -/
theorem zem_counts_iff (v : ℕ) (prog : ι → List Call) :
    (∀ xs s, (init v prog).runs Zem.code xs = some s →
      total .wait s.loc ≤ v + total .post s.loc) ↔ Covered v prog := by
  constructor
  · intro hall n hn
    obtain ⟨xs, hxs⟩ := exists_run n hn
    exact hall xs _ hxs
  · intro hcov xs s hs
    exact (inv_of_runs hs).counts hcov

/-- One thread posts, and two wait. -/
def postAndWaits : Fin 3 → List Call := ![[.post], [.wait], [.wait]]

/-- Both waits return. -/
theorem zem_overcounts : ∃ xs s, (init 0 postAndWaits).runs Zem.code xs = some s ∧
    ¬ total .wait s.loc ≤ 0 + total .post s.loc := by
  have hrun : ((init 0 postAndWaits).runs Zem.code
      ([.next, .next, .next, .next, .signal none, .next].map (fun a => (0, a)) ++
        List.replicate 4 (1, .next) ++ List.replicate 4 (2, .next))).map
      (fun s => (total .wait s.loc, total .post s.loc)) = some (2, 1) := by decide
  obtain ⟨s, hs, htotal⟩ := Option.map_eq_some_iff.mp hrun
  rw [Prod.mk.injEq] at htotal
  exact ⟨_, s, hs, by rw [htotal.1, htotal.2]; decide⟩

end Zem

end Xv6
