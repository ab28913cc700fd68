import Xv6.Lib.Links
import Mathlib.Data.List.Induction

/-!
# Descents along labels

Every node of a tree of labelled links has at most one child for a label, `child v k`.  The descent
along a list of labels starts at the root and goes from child to child, and `descend child r` is the
partial map from lists of labels to nodes that the tree stands for.

* `descend_of_path` and `path_of_descend` connect it with the paths of `Xv6.Lib.Links`, and
  `descend_unique` and `exists_descend` say that it is a bijection onto the nodes of the tree.
* `descend_update` is the one rule for changes.  A child that has no children itself is put in,
  taken out or replaced by changing `child` at one place; the map then changes at one list of
  labels, and everywhere else it is what it was.

The rule asks for no children on either side of the change.  Moving a whole subtree would change the
map at all of its lists, and nothing here does that.
-/

namespace Lib

variable {V K : Type} {child child' : V → K → Option V} {att : V → Prop} {r p v : V} {k : K}
  {ks q : List K}

/-- The node that a list of labels leads to. -/
def descend (child : V → K → Option V) (r : V) (ks : List K) : Option V := ks.foldlM child r

@[simp] lemma descend_nil : descend child r [] = some r := rfl

lemma descend_concat :
    descend child r (ks ++ [k]) = (descend child r ks).bind fun v => child v k := by
  rw [descend, List.foldlM_append]
  cases h : ks.foldlM child r with
  | none => simp [descend, h]
  | some v => simp [descend, h]

lemma path_of_descend (h : descend child r ks = some v) :
    Path (fun p k c => child p k = some c) r ks v := by
  induction ks using List.reverseRecOn generalizing v with
  | nil =>
    obtain rfl := Option.some.inj h
    exact .nil
  | append_singleton ks k ih =>
    rw [descend_concat, Option.bind_eq_some_iff] at h
    obtain ⟨p, hp, hc⟩ := h
    exact (ih hp).snoc hc

lemma descend_of_path (h : Path (fun p k c => child p k = some c) r ks v) :
    descend child r ks = some v := by
  induction h with
  | nil => rfl
  | snoc _ hl ih => rw [descend_concat, ih, Option.bind_some, hl]

namespace Rooted

variable (h : Rooted att (fun p k c => child p k = some c) r)

include h

lemma descend_unique {ks' : List K} (hw : descend child r ks = some v)
    (hw' : descend child r ks' = some v) : ks = ks' :=
  h.path_unique (path_of_descend hw) (path_of_descend hw')

lemma exists_descend (hv : att v) : ∃ ks, descend child r ks = some v := by
  obtain ⟨ks, hks⟩ := h.exists_path hv
  exact ⟨ks, descend_of_path hks⟩

lemma att_of_descend (hw : descend child r ks = some v) : att v := by
  cases path_of_descend hw with
  | nil => exact h.root
  | snoc _ hl => exact h.target hl

/-- **One child changes.**  Neither the old one nor the new one has children. -/
theorem descend_update [DecidableEq V] [DecidableEq K] {o : Option V}
    (hp : descend child r q = some p)
    (hchild : ∀ p' k', child' p' k' = if p' = p ∧ k' = k then o else child p' k')
    (hold : ∀ x, child p k = some x → ∀ k', child x k' = none)
    (hnew : ∀ x, o = some x → ∀ k', child' x k' = none) (ks : List K) :
    descend child' r ks = if ks = q ++ [k] then o else descend child r ks := by
  induction ks using List.reverseRecOn with
  | nil => rw [if_neg (by simp), descend_nil, descend_nil]
  | append_singleton ks k' ih =>
    rw [descend_concat, ih, descend_concat]
    by_cases hks : ks = q ++ [k]
    · -- behind the child that changes there was nothing, and there is nothing
      have hne : ks ++ [k'] ≠ q ++ [k] := by
        rw [hks]
        intro he
        simpa using congrArg List.length he
      have hwas : (descend child r ks).bind (fun v => child v k') = none := by
        rw [hks, descend_concat, hp, Option.bind_some, Option.bind_eq_none_iff]
        exact fun x hx => hold x hx k'
      rw [if_pos hks, if_neg hne, hwas, Option.bind_eq_none_iff]
      exact fun x hx => hnew x hx k'
    · rw [if_neg hks]
      cases hw : descend child r ks with
      | none =>
        have hne : ks ++ [k'] ≠ q ++ [k] := fun he => by
          obtain ⟨rfl, -⟩ := List.append_inj' he rfl
          rw [hp] at hw
          cases hw
        rw [if_neg hne]
        rfl
      | some v =>
        rw [Option.bind_some, Option.bind_some, hchild]
        refine if_congr ?_ rfl rfl
        constructor
        · rintro ⟨rfl, rfl⟩
          rw [h.descend_unique hw hp]
        · intro he
          obtain ⟨rfl, hk⟩ := List.append_inj' he rfl
          exact ⟨Option.some.inj (hw.symm.trans hp), by simpa using hk⟩

end Rooted

end Lib
