import Mathlib.Data.Finset.Card
import Mathlib.Order.Interval.Finset.Nat

/-!
# Allocation maps

`Marked lo hi mark O spare` relates a map of marks over the units below `hi` to who uses them: the
units below `lo` are always in use, a unit from `lo` on is marked exactly if it has an owner or is
spare, that is, taken by somebody who has not handed it to an owner yet.  No unit has two owners.

A unit goes through the states in a circle, one lemma each.

* `take` marks a free unit and makes it spare.
* `assign` gives a spare unit an owner.
* `drop` takes units from their owners, and makes them spare again.
* `give` clears the mark of a spare unit.

Code that allocates is seldom done in one step: between the mark and the place where the number of
the unit is stored it may do other things, and the set `spare` is what the invariant looks like
there.  `card_free_add` counts the free units, for code that promises not to run out of them.
-/

namespace Lib

variable {ι : Type*}

/-- The marks are those of the units in use. -/
structure Marked (lo hi : ℕ) (mark : ℕ → Bool) (O : ℕ → ι → Prop) (spare : Finset ℕ) :
    Prop where
  range : ∀ {b p}, O b p → lo ≤ b ∧ b < hi
  unique : ∀ {b p q}, O b p → O b q → p = q
  spare_range : ∀ {b}, b ∈ spare → lo ≤ b ∧ b < hi
  spare_free : ∀ {b p}, b ∈ spare → ¬ O b p
  mark_iff : ∀ {b}, b < hi → (mark b = true ↔ b < lo ∨ b ∈ spare ∨ ∃ p, O b p)

namespace Marked

variable {lo hi b : ℕ} {mark mark' : ℕ → Bool} {O O' : ℕ → ι → Prop} {spare : Finset ℕ}

lemma free (h : Marked lo hi mark O spare) (hb : b < hi) (hm : mark b = false) :
    lo ≤ b ∧ b ∉ spare ∧ ∀ p, ¬ O b p := by
  have hnot : ¬ (b < lo ∨ b ∈ spare ∨ ∃ p, O b p) := fun hor => by
    rw [(h.mark_iff hb).mpr hor] at hm
    exact Bool.noConfusion hm
  push Not at hnot
  exact hnot

lemma congr (h : Marked lo hi mark O spare) (hm : ∀ c < hi, mark' c = mark c)
    (hO : ∀ c p, O' c p ↔ O c p) : Marked lo hi mark' O' spare where
  range hb := h.range ((hO _ _).mp hb)
  unique hp hq := h.unique ((hO _ _).mp hp) ((hO _ _).mp hq)
  spare_range := h.spare_range
  spare_free hb hp := h.spare_free hb ((hO _ _).mp hp)
  mark_iff hb := by
    rw [hm _ hb, h.mark_iff hb]
    simp only [hO]

lemma take (h : Marked lo hi mark O spare) (hb : b < hi) (hm : mark b = false)
    (hm' : ∀ c < hi, mark' c = (mark c || decide (c = b))) :
    Marked lo hi mark' O (insert b spare) where
  range := h.range
  unique := h.unique
  spare_range hc := by
    rcases Finset.mem_insert.mp hc with rfl | hc
    · exact ⟨(h.free hb hm).1, hb⟩
    · exact h.spare_range hc
  spare_free hc := by
    rcases Finset.mem_insert.mp hc with rfl | hc
    · exact (h.free hb hm).2.2 _
    · exact h.spare_free hc
  mark_iff {c} hc := by
    rw [hm' c hc, Bool.or_eq_true, h.mark_iff hc, decide_eq_true_iff, Finset.mem_insert]
    tauto

lemma give (h : Marked lo hi mark O spare) (hb : b ∈ spare)
    (hm' : ∀ c < hi, mark' c = (mark c && !decide (c = b))) :
    Marked lo hi mark' O (spare.erase b) where
  range := h.range
  unique := h.unique
  spare_range hc := h.spare_range (Finset.mem_of_mem_erase hc)
  spare_free hc := h.spare_free (Finset.mem_of_mem_erase hc)
  mark_iff {c} hc := by
    rw [hm' c hc]
    by_cases he : c = b
    · subst he
      have hlo := (h.spare_range hb).1
      have hfree : ¬ ∃ p, O c p := fun ⟨p, hp⟩ => h.spare_free hb hp
      simp [hfree, Nat.not_lt.mpr hlo]
    · simp [he, h.mark_iff hc]

lemma assign (h : Marked lo hi mark O spare) (hb : b ∈ spare) {p : ι}
    (hO : ∀ c q, O' c q ↔ O c q ∨ (c = b ∧ q = p)) : Marked lo hi mark O' (spare.erase b) where
  range hc := by
    rcases (hO _ _).mp hc with hc | ⟨rfl, -⟩
    · exact h.range hc
    · exact h.spare_range hb
  unique hp hq := by
    rcases (hO _ _).mp hp with hp | ⟨rfl, rfl⟩ <;> rcases (hO _ _).mp hq with hq | ⟨he, rfl⟩
    · exact h.unique hp hq
    · exact absurd (he ▸ hp) (h.spare_free hb)
    · exact absurd hq (h.spare_free hb)
    · rfl
  spare_range hc := h.spare_range (Finset.mem_of_mem_erase hc)
  spare_free {c} {q} hc hq := by
    obtain ⟨hne, hc⟩ := Finset.mem_erase.mp hc
    rcases (hO c q).mp hq with hq | ⟨rfl, -⟩
    · exact h.spare_free hc hq
    · exact hne rfl
  mark_iff {c} hc := by
    rw [h.mark_iff hc]
    by_cases he : c = b
    · subst he
      have hown : ∃ q, O' c q := ⟨p, (hO c p).mpr (Or.inr ⟨rfl, rfl⟩)⟩
      simp [hb, hown]
    · simp [he, hO]

lemma drop (h : Marked lo hi mark O spare) {T : Finset ℕ} (hT : ∀ c ∈ T, ∃ p, O c p)
    (hO : ∀ c q, O' c q ↔ O c q ∧ c ∉ T) : Marked lo hi mark O' (spare ∪ T) where
  range hc := h.range ((hO _ _).mp hc).1
  unique hp hq := h.unique ((hO _ _).mp hp).1 ((hO _ _).mp hq).1
  spare_range hc := by
    rcases Finset.mem_union.mp hc with hc | hc
    · exact h.spare_range hc
    · obtain ⟨p, hp⟩ := hT _ hc
      exact h.range hp
  spare_free hc hp := by
    rcases Finset.mem_union.mp hc with hc | hc
    · exact h.spare_free hc ((hO _ _).mp hp).1
    · exact ((hO _ _).mp hp).2 hc
  mark_iff {c} hc := by
    rw [h.mark_iff hc, Finset.mem_union]
    simp only [hO]
    by_cases hcT : c ∈ T
    · simp [hcT, hT c hcT]
    · simp [hcT]

lemma card_free_add (h : Marked lo hi mark O ∅) {S : Finset ι} {u : ι → ℕ}
    (hS : ∀ b p, O b p ↔ p ∈ S ∧ u p = b) :
    ((Finset.range hi).filter fun b => mark b = false).card + S.card = hi - lo := by
  have hinj : Set.InjOn u S := fun p hp q hq he =>
    h.unique ((hS _ p).mpr ⟨hp, rfl⟩) ((hS _ q).mpr ⟨hq, he.symm⟩)
  have hused : S.image u = (Finset.Ico lo hi).filter fun b => ¬ mark b = false := by
    ext b
    simp only [Finset.mem_image, Finset.mem_filter, Finset.mem_Ico, Bool.not_eq_false]
    constructor
    · rintro ⟨p, hp, rfl⟩
      have hO := (hS _ p).mpr ⟨hp, rfl⟩
      have hr := h.range hO
      exact ⟨hr, (h.mark_iff hr.2).mpr (Or.inr (Or.inr ⟨p, hO⟩))⟩
    · rintro ⟨hr, hm⟩
      rcases (h.mark_iff hr.2).mp hm with hlo | hsp | ⟨p, hO⟩
      · exact absurd hlo (Nat.not_lt.mpr hr.1)
      · exact absurd hsp (Finset.notMem_empty b)
      · exact ⟨p, (hS b p).mp hO⟩
  have hfree : (Finset.range hi).filter (fun b => mark b = false) =
      (Finset.Ico lo hi).filter fun b => mark b = false := by
    ext b
    simp only [Finset.mem_filter, Finset.mem_range, Finset.mem_Ico]
    exact ⟨fun ⟨hb, hm⟩ => ⟨⟨(h.free hb hm).1, hb⟩, hm⟩, fun ⟨hb, hm⟩ => ⟨hb.2, hm⟩⟩
  rw [hfree, ← Finset.card_image_of_injOn hinj, hused,
    Finset.card_filter_add_card_filter_not, Nat.card_Ico]

end Marked

end Lib
