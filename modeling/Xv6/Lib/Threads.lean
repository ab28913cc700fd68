import Mathlib.Algebra.BigOperators.Group.Finset.Piecewise
import Mathlib.Algebra.Order.BigOperators.Group.Finset
import Mathlib.Data.Fintype.BigOperators

/-!
# Interleaved threads

A system of threads is a shared state and a place in the code for each thread.  The code says what
a thread does next, as a function of the shared state and of its place: nothing if it has to wait,
and otherwise the new shared state and its new place.  Where there is a choice, an action settles
it.  A run is a list of moves, each of one thread.

What the threads of a system hold between them is counted: `countAt` is the number of threads whose
place satisfies a test, and one move of one thread changes it by the difference between its two
places.  An invariant that equates counts with the shared state is so kept by every move that
changes both alike.
-/

namespace Lib

/-- A shared state, and where each thread is. -/
structure Threads (ι σ α : Type) where
  shared : σ
  loc : ι → α

namespace Threads

variable {ι σ α β : Type} [DecidableEq ι] {code : ι → β → σ → α → Option (σ × α)}
  {s s' : Threads ι σ α}

/-- A thread moves, as the action says. -/
def step (code : ι → β → σ → α → Option (σ × α)) (s : Threads ι σ α) (x : ι × β) :
    Option (Threads ι σ α) :=
  (code x.1 x.2 s.shared (s.loc x.1)).map fun r => ⟨r.1, Function.update s.loc x.1 r.2⟩

/-- The threads move one after the other. -/
def runs (code : ι → β → σ → α → Option (σ × α)) (s : Threads ι σ α) (xs : List (ι × β)) :
    Option (Threads ι σ α) :=
  xs.foldlM (step code) s

/-- Some thread can move. -/
def CanStep (code : ι → β → σ → α → Option (σ × α)) (s : Threads ι σ α) : Prop :=
  ∃ x s', s.step code x = some s'

lemma step_of_code {i : ι} {a : β} {m : σ} {b : α} (h : code i a s.shared (s.loc i) = some (m, b)) :
    s.step code (i, a) = some ⟨m, Function.update s.loc i b⟩ := by
  rw [step, h]
  rfl

lemma exists_of_step {x : ι × β} (h : s.step code x = some s') :
    ∃ m b, code x.1 x.2 s.shared (s.loc x.1) = some (m, b) ∧
      s' = ⟨m, Function.update s.loc x.1 b⟩ := by
  obtain ⟨⟨m, b⟩, hc, rfl⟩ := Option.map_eq_some_iff.mp h
  exact ⟨m, b, hc, rfl⟩

lemma runs_cons (x : ι × β) (xs : List (ι × β)) :
    s.runs code (x :: xs) = (s.step code x).bind fun s' => s'.runs code xs := rfl

lemma runs_append (xs ys : List (ι × β)) :
    s.runs code (xs ++ ys) = (s.runs code xs).bind fun s' => s'.runs code ys :=
  List.foldlM_append

/-- A thread moves as the actions say, and no other does. -/
def solo (code : ι → β → σ → α → Option (σ × α)) (i : ι) (acts : List β) (r : σ × α) :
    Option (σ × α) :=
  acts.foldlM (fun r a => code i a r.1 r.2) r

lemma runs_solo (i : ι) (acts : List β) :
    s.runs code (acts.map fun a => (i, a)) =
      (solo code i acts (s.shared, s.loc i)).map fun r => ⟨r.1, Function.update s.loc i r.2⟩ := by
  induction acts generalizing s with
  | nil =>
    show some s = some ⟨s.shared, Function.update s.loc i (s.loc i)⟩
    rw [Function.update_eq_self]
  | cons a acts ih =>
    rw [List.map_cons, runs_cons, solo, List.foldlM_cons]
    cases hc : code i a s.shared (s.loc i) with
    | none =>
      rw [step, hc]
      rfl
    | some r =>
      rw [step_of_code hc, Option.bind_some, ih]
      simp only [Function.update_self, Function.update_idem]
      rfl

/-- **The rule for invariants**: what every move keeps holds at the end of every run. -/
lemma runs_invariant {I : Threads ι σ α → Prop}
    (hstep : ∀ (s : Threads ι σ α) i a m b, I s → code i a s.shared (s.loc i) = some (m, b) →
      I ⟨m, Function.update s.loc i b⟩)
    {xs : List (ι × β)} (h : I s) (hs : s.runs code xs = some s') : I s' := by
  induction xs generalizing s with
  | nil =>
    cases hs
    exact h
  | cons x xs ih =>
    rw [runs_cons, Option.bind_eq_some_iff] at hs
    obtain ⟨t, ht, hs⟩ := hs
    obtain ⟨m, b, hc, rfl⟩ := exists_of_step ht
    exact ih (hstep s x.1 x.2 m b h hc) hs

end Threads

/-! ## Counting threads -/

variable {ι α : Type} [Fintype ι] {p q : α → Bool} {loc : ι → α} {i j : ι} {b : α}

lemma sum_update [DecidableEq ι] (f : α → ℕ) (loc : ι → α) (i : ι) (b : α) :
    ∑ j, f (Function.update loc i b j) + f (loc i) = ∑ j, f (loc j) + f b := by
  have hrest : ∀ j ∈ Finset.univ.erase i, f (Function.update loc i b j) = f (loc j) := by
    intro j hj
    rw [Function.update_of_ne (Finset.ne_of_mem_erase hj)]
  rw [← Finset.add_sum_erase _ _ (Finset.mem_univ i),
    ← Finset.add_sum_erase Finset.univ (fun j => f (loc j)) (Finset.mem_univ i),
    Finset.sum_congr rfl hrest, Function.update_self]
  omega

/-- The number of threads whose place satisfies a test. -/
def countAt (p : α → Bool) (loc : ι → α) : ℕ := ∑ i, (p (loc i)).toNat

lemma countAt_update [DecidableEq ι] (p : α → Bool) (loc : ι → α) (i : ι) (b : α) :
    countAt p (Function.update loc i b) + (p (loc i)).toNat = countAt p loc + (p b).toNat :=
  sum_update (fun a => (p a).toNat) loc i b

lemma toNat_decide (a : Prop) [Decidable a] : (decide a).toNat = if a then 1 else 0 := by
  by_cases h : a <;> simp [h]

lemma countAt_pos (h : p (loc i) = true) : 0 < countAt p loc := by
  have hle : (p (loc i)).toNat ≤ countAt p loc :=
    Finset.single_le_sum (f := fun j => (p (loc j)).toNat) (fun _ _ => Nat.zero_le _)
      (Finset.mem_univ i)
  rw [h] at hle
  exact hle

lemma exists_of_countAt_pos (h : 0 < countAt p loc) : ∃ i, p (loc i) = true := by
  by_contra hno
  refine h.ne' (Finset.sum_eq_zero fun i _ => ?_)
  rw [Bool.eq_false_iff.mpr fun hi => hno ⟨i, hi⟩]
  rfl

lemma countAt_eq_zero (h : ∀ i, p (loc i) = false) : countAt p loc = 0 :=
  Finset.sum_eq_zero fun i _ => by rw [h i]; rfl

lemma eq_false_of_countAt_eq_zero (h : countAt p loc = 0) (i : ι) : p (loc i) = false := by
  by_contra hne
  exact (countAt_pos (eq_true_of_ne_false hne)).ne' h

lemma countAt_le_card : countAt p loc ≤ Fintype.card ι := by
  calc countAt p loc ≤ ∑ _i : ι, 1 := Finset.sum_le_sum fun i _ => Bool.toNat_le (p (loc i))
    _ = Fintype.card ι := by simp

lemma countAt_mono (h : ∀ a, p a = true → q a = true) : countAt p loc ≤ countAt q loc := by
  refine Finset.sum_le_sum fun i _ => ?_
  cases hp : p (loc i) with
  | false => exact Nat.zero_le _
  | true => rw [h _ hp]

lemma eq_of_countAt_le_one [DecidableEq ι] (h : countAt p loc ≤ 1) (hi : p (loc i) = true)
    (hj : p (loc j) = true) : i = j := by
  by_contra hne
  have hsum := Finset.add_sum_erase Finset.univ (fun j => (p (loc j)).toNat) (Finset.mem_univ i)
  have hle : (p (loc j)).toNat ≤ ∑ k ∈ Finset.univ.erase i, (p (loc k)).toNat :=
    Finset.single_le_sum (f := fun k => (p (loc k)).toNat) (fun _ _ => Nat.zero_le _)
      (Finset.mem_erase.mpr ⟨Ne.symm hne, Finset.mem_univ j⟩)
  rw [countAt] at h
  simp only [hi, hj, Bool.toNat_true] at hsum hle
  omega

/-- Of the threads only one passes the first test, so that it alone may pass the second. -/
lemma countAt_eq_of_le_one [DecidableEq ι] (h : countAt p loc ≤ 1) (hi : p (loc i) = true)
    (hqp : ∀ a, q a = true → p a = true) : countAt q loc = (q (loc i)).toNat := by
  refine Finset.sum_eq_single_of_mem i (Finset.mem_univ i) fun j _ hj => ?_
  rw [Bool.eq_false_iff.mpr fun hq => hj (eq_of_countAt_le_one h (hqp _ hq) hi)]
  rfl

/-! ## Semaphores -/

/-- Wait for a semaphore, which needs a positive value. -/
def semWait (value : ℕ) : Option ℕ := if 0 < value then some (value - 1) else none

lemma semWait_eq_some {value v : ℕ} : semWait value = some v ↔ value = v + 1 := by
  unfold semWait
  split_ifs with hpos
  · rw [Option.some.injEq]
    omega
  · simp only [false_iff]
    omega

end Lib
