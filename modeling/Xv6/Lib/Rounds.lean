import Mathlib.Data.List.Rotate
import Mathlib.Data.List.Nodup

/-!
# Going round a list

A sequence that goes round a list without repetitions, again and again, visits every other element
exactly once between two consecutive visits of the same one.

* `Rounds order ds` says that `ds` is a number of whole rounds and the beginning of one more.  It is
  closed under taking beginnings, so that it can be the invariant of a run that is not over.
* `Rounds.getElem?` reads it as an equation: the element at position `i` is the one at `i` modulo
  the length of the list.
* `Rounds.eq_rotate` and `Rounds.between`: from one visit of an element to the next, the sequence is
  the list, rotated to start there.
-/

namespace Lib

variable {α : Type} {order ds as bs cs : List α} {p q : α}

/-- The sequence is a number of rounds, and the beginning of one more. -/
def Rounds (order ds : List α) : Prop := ∃ m, ds <+: (List.replicate m order).flatten

lemma getElem?_rounds (order : List α) (m i : ℕ) {x : α}
    (h : (List.replicate m order).flatten[i]? = some x) : order[i % order.length]? = some x := by
  induction m generalizing i with
  | zero => simp at h
  | succ m ih =>
    rw [List.replicate_succ, List.flatten_cons] at h
    by_cases hi : i < order.length
    · rw [List.getElem?_append_left hi] at h
      rwa [Nat.mod_eq_of_lt hi]
    · rw [List.getElem?_append_right (not_lt.mp hi)] at h
      rw [Nat.mod_eq_sub_mod (not_lt.mp hi)]
      exact ih _ h

lemma Rounds.getElem? (h : Rounds order ds) {i : ℕ} {x : α} (hx : ds[i]? = some x) :
    order[i % order.length]? = some x := by
  obtain ⟨m, t, ht⟩ := h
  refine getElem?_rounds order m i ?_
  have hi : i < ds.length := by
    by_contra hge
    rw [List.getElem?_eq_none (not_lt.mp hge)] at hx
    cases hx
  rw [← ht, List.getElem?_append_left hi, hx]

lemma Rounds.eq_rotate (hnodup : order.Nodup) (h : Rounds order (as ++ p :: bs ++ p :: cs))
    (hp : p ∉ bs) : p :: bs = order.rotate as.length := by
  have hat : ∀ j x, (p :: bs ++ p :: cs)[j]? = some x →
      order[(as.length + j) % order.length]? = some x := by
    intro j x hj
    refine h.getElem? ?_
    rw [List.append_assoc, List.getElem?_append_right (by omega), Nat.add_sub_cancel_left, hj]
  have hfirst : order[as.length % order.length]? = some p := hat 0 p rfl
  have hsecond : order[(as.length + (bs.length + 1)) % order.length]? = some p :=
    hat (bs.length + 1) p (by simp)
  have hpos : 0 < order.length := by
    by_contra hzero
    rw [List.length_eq_zero_iff.mp (by omega : order.length = 0)] at hfirst
    cases hfirst
  have hlen : bs.length + 1 = order.length := by
    have hmod : as.length % order.length = (as.length + (bs.length + 1)) % order.length :=
      (List.getElem?_inj (Nat.mod_lt _ hpos) hnodup).mp (hfirst.trans hsecond.symm)
    have hdvd : order.length ∣ bs.length + 1 := by
      have hzero := Nat.sub_mod_eq_zero_of_mod_eq hmod.symm
      rw [Nat.add_sub_cancel_left] at hzero
      exact Nat.dvd_of_mod_eq_zero hzero
    -- after one round the element would come again
    by_contra hne
    have hlt : order.length < bs.length + 1 :=
      lt_of_le_of_ne (Nat.le_of_dvd (Nat.succ_pos _) hdvd) (Ne.symm hne)
    have hback : (p :: bs ++ p :: cs)[order.length]? = some bs[order.length - 1] := by
      rw [List.getElem?_append_left (by simpa using hlt), List.getElem?_cons, if_neg hpos.ne',
        List.getElem?_eq_getElem]
    have hagain := hat _ _ hback
    rw [Nat.add_mod_right, hfirst, Option.some.injEq] at hagain
    exact hp (hagain ▸ List.getElem_mem _)
  refine List.ext_getElem? fun j => ?_
  by_cases hj : j < order.length
  · have hmem : j < (p :: bs).length := by rwa [List.length_cons, hlen]
    rw [List.getElem?_rotate hj, Nat.add_comm,
      hat j (p :: bs)[j] (by rw [List.getElem?_append_left hmem, List.getElem?_eq_getElem hmem]),
      List.getElem?_eq_getElem hmem]
  · rw [List.getElem?_eq_none (by rw [List.length_cons, hlen]; omega),
      List.getElem?_eq_none (by rw [List.length_rotate]; omega)]

/-- Between two consecutive visits of an element every other is visited once, and nothing else. -/
lemma Rounds.between [DecidableEq α] (hnodup : order.Nodup)
    (h : Rounds order (as ++ p :: bs ++ p :: cs)) (hp : p ∉ bs) (hq : q ≠ p) :
    bs.count q = if q ∈ order then 1 else 0 := by
  have hcount : (p :: bs).count q = order.count q := by
    rw [h.eq_rotate hnodup hp]
    exact (List.rotate_perm order _).count_eq q
  rw [List.count_cons_of_ne hq.symm] at hcount
  rw [hcount, hnodup.count]

end Lib
