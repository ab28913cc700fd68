import Mathlib.Data.List.Chain
import Mathlib.Data.List.Nodup
import Mathlib.Logic.Function.Basic
import Mathlib.Tactic.Common

/-!
# Circular doubly linked lists

Nodes are threaded by a forward and a backward pointer each.  `Ring p h l` says that the pointers
run from the node `h` through those of `l`, in this order, and back to `h`, in both directions; it
is the chain of neighbours along `h :: l ++ [h]`.

* A walk follows one of the two pointers until it comes back to `h`.  `Ring.walk_next` and
  `Ring.walk_prev` say that it searches the list, or the reversed list.
* `unlink` and `pushFront` are sequences of single stores, as programs make them, and each is read
  in the memory that the stores before it have left.  `Ring.unlink` and `Ring.pushFront` say what
  they do to the list.

The two neighbours of a node may be one and the same node, or the head.  `joined_unlink` does not
tell these cases apart: whoever were neighbours and are not the node that goes still are.
-/

namespace Lib

/-- The two pointers of every node. -/
structure Pointers (V : Type) where
  next : V → V
  prev : V → V

namespace Pointers

variable {V : Type}

/-- Two neighbours. -/
def Joined (p : Pointers V) (a b : V) : Prop := p.next a = b ∧ p.prev b = a

/-- The pointers run from `h` through the nodes of `l` and back to `h`. -/
structure Ring (p : Pointers V) (h : V) (l : List V) : Prop where
  nodup : (h :: l).Nodup
  joined : (h :: (l ++ [h])).IsChain p.Joined

lemma ring_nil {p : Pointers V} {h : V} (hnext : p.next h = h) (hprev : p.prev h = h) :
    p.Ring h [] :=
  ⟨List.nodup_singleton h, List.isChain_pair.mpr ⟨hnext, hprev⟩⟩

/-- The same list in the other direction. -/
def swap (p : Pointers V) : Pointers V := ⟨p.prev, p.next⟩

lemma Ring.swap {p : Pointers V} {h : V} {l : List V} (hr : p.Ring h l) :
    p.swap.Ring h l.reverse := by
  have hnodup := List.nodup_cons.mp hr.nodup
  refine ⟨List.nodup_cons.mpr ⟨by simpa using hnodup.1, List.nodup_reverse.mpr hnodup.2⟩, ?_⟩
  have hrev : h :: (l.reverse ++ [h]) = (h :: (l ++ [h])).reverse := by simp
  rw [hrev, List.isChain_reverse]
  exact hr.joined.imp fun a b hab => ⟨hab.2, hab.1⟩

lemma Ring.prev_next {p : Pointers V} {h a : V} {l : List V} (hr : p.Ring h l) (ha : a ∈ h :: l) :
    p.prev (p.next a) = a := by
  obtain ⟨l₁, l₂, hl⟩ := List.append_of_mem ha
  have hchain := hr.joined
  rw [← List.cons_append, hl, List.append_assoc, List.cons_append] at hchain
  have hright := hchain.right_of_append
  cases l₂ with
  | nil => exact (List.isChain_cons_cons.mp hright).1.1 ▸ (List.isChain_cons_cons.mp hright).1.2
  | cons b l₂ =>
    exact (List.isChain_cons_cons.mp hright).1.1 ▸ (List.isChain_cons_cons.mp hright).1.2

lemma Ring.next_prev {p : Pointers V} {h a : V} {l : List V} (hr : p.Ring h l) (ha : a ∈ h :: l) :
    p.next (p.prev a) = a :=
  hr.swap.prev_next (by simpa using ha)

/-! ## Walks -/

variable [DecidableEq V]

/-- Follow a pointer from `b` until a node passes the test or the walk is back at `h`; `none` if
it is still under way after so many turns. -/
def walk (follow : V → V) (h : V) (test : V → Bool) : ℕ → V → Option (Option V)
  | 0, _ => none
  | turns + 1, b =>
    if b = h then some none
    else if test b then some (some b)
    else walk follow h test turns (follow b)

lemma walk_chain {p : Pointers V} {h a : V} {l : List V} {test : V → Bool} {turns : ℕ}
    (hchain : (a :: (l ++ [h])).IsChain p.Joined) (hh : h ∉ l) (hturns : l.length < turns) :
    walk p.next h test turns (p.next a) = some (l.find? test) := by
  induction l generalizing a turns with
  | nil =>
    obtain ⟨turns, rfl⟩ := Nat.exists_eq_succ_of_ne_zero (Nat.ne_of_gt hturns)
    rw [(List.isChain_cons_cons.mp hchain).1.1, walk, if_pos rfl]
    rfl
  | cons b l ih =>
    obtain ⟨turns, rfl⟩ := Nat.exists_eq_succ_of_ne_zero (Nat.ne_zero_of_lt hturns)
    obtain ⟨⟨hb, -⟩, hrest⟩ := List.isChain_cons_cons.mp hchain
    have hne : b ≠ h := fun he => hh (he ▸ List.mem_cons_self)
    rw [hb, walk, if_neg hne, List.find?_cons]
    cases htest : test b with
    | true => rfl
    | false =>
      exact ih hrest (fun hm => hh (List.mem_cons_of_mem b hm)) (Nat.lt_of_succ_lt_succ hturns)

lemma Ring.walk_next {p : Pointers V} {h : V} {l : List V} (hr : p.Ring h l) (test : V → Bool)
    {turns : ℕ} (hturns : l.length < turns) :
    walk p.next h test turns (p.next h) = some (l.find? test) :=
  walk_chain hr.joined (List.nodup_cons.mp hr.nodup).1 hturns

lemma Ring.walk_prev {p : Pointers V} {h : V} {l : List V} (hr : p.Ring h l) (test : V → Bool)
    {turns : ℕ} (hturns : l.length < turns) :
    walk p.prev h test turns (p.prev h) = some (l.reverse.find? test) :=
  hr.swap.walk_next test (by rwa [List.length_reverse])

/-! ## Changes -/

/-- `a->next = b`. -/
def setNext (p : Pointers V) (a b : V) : Pointers V :=
  { p with next := Function.update p.next a b }

/-- `a->prev = b`. -/
def setPrev (p : Pointers V) (a b : V) : Pointers V :=
  { p with prev := Function.update p.prev a b }

/-- Take the node `x` out of its list. -/
def unlink (p : Pointers V) (x : V) : Pointers V :=
  let p := p.setPrev (p.next x) (p.prev x)
  p.setNext (p.prev x) (p.next x)

/-- Put the node `x` in behind `h`. -/
def pushFront (p : Pointers V) (h x : V) : Pointers V :=
  let p := p.setNext x (p.next h)
  let p := p.setPrev x h
  let p := p.setPrev (p.next h) x
  p.setNext h x

lemma joined_unlink {p : Pointers V} {x : V} (hpn : p.prev (p.next x) = x)
    (hnp : p.next (p.prev x) = x) (hne : p.next x ≠ x) {a b : V} (ha : a ≠ x) (hb : b ≠ x)
    (hab : p.Joined a b) : (p.unlink x).Joined a b := by
  have hprev : Function.update p.prev (p.next x) (p.prev x) x = p.prev x :=
    Function.update_of_ne hne.symm _ _
  obtain ⟨rfl, hab⟩ := hab
  refine ⟨?_, ?_⟩
  · simp only [unlink, setNext, setPrev, hprev]
    refine Function.update_of_ne (fun he => hb ?_) _ _
    rw [he, hnp]
  · simp only [unlink, setNext, setPrev]
    refine (Function.update_of_ne (fun he => ha ?_) _ _).trans hab
    rw [← hab, he, hpn]

/-- **A node is taken out.** -/
theorem Ring.unlink {p : Pointers V} {h x : V} {l₁ l₂ : List V}
    (hr : p.Ring h (l₁ ++ x :: l₂)) : (p.unlink x).Ring h (l₁ ++ l₂) := by
  have hmem : x ∈ h :: (l₁ ++ x :: l₂) := by simp
  have hpn := hr.prev_next hmem
  have hnp := hr.next_prev hmem
  have hnodup := hr.nodup
  have hx₁ : x ∉ h :: l₁ := by
    intro hx
    rw [← List.cons_append] at hnodup
    exact (List.nodup_append'.mp hnodup).2.2 hx List.mem_cons_self
  have hx₂ : x ∉ l₂ ++ [h] := by
    simp only [List.mem_append, List.mem_singleton, not_or]
    refine ⟨?_, fun he => hx₁ (he ▸ List.mem_cons_self)⟩
    exact (List.nodup_cons.mp (List.nodup_append'.mp (List.nodup_cons.mp hnodup).2).2.1).1
  have hchain := hr.joined
  rw [List.append_assoc, ← List.cons_append, List.isChain_append] at hchain
  obtain ⟨hleft, hright, hseam⟩ := hchain
  rw [List.cons_append, List.isChain_cons] at hright
  obtain ⟨hfirst, hright⟩ := hright
  have hne : p.next x ≠ x := by
    obtain ⟨y, hy⟩ : ∃ y, y ∈ (l₂ ++ [h]).head? := by cases l₂ <;> simp
    rw [(hfirst y hy).1]
    exact fun he => hx₂ (he ▸ List.mem_of_mem_head? hy)
  have hframe : ∀ l : List V, x ∉ l → l.IsChain p.Joined → l.IsChain (p.unlink x).Joined := by
    intro l hl hc
    refine List.IsChain.imp_of_mem_imp (fun a b ha hb hab => ?_) hc
    exact joined_unlink hpn hnp hne (fun he => hl (he ▸ ha)) (fun he => hl (he ▸ hb)) hab
  refine ⟨?_, ?_⟩
  · exact hnodup.sublist ((List.Sublist.append_left (List.sublist_cons_self x l₂) l₁).cons_cons h)
  · rw [List.append_assoc, ← List.cons_append, List.isChain_append]
    refine ⟨hframe _ hx₁ hleft, hframe _ hx₂ hright, fun u hu w hw => ?_⟩
    -- the new neighbours are those of `x`
    obtain ⟨-, rfl⟩ := hseam u hu x (by simp)
    obtain ⟨rfl, -⟩ := hfirst w hw
    have hprev : Function.update p.prev (p.next x) (p.prev x) x = p.prev x :=
      Function.update_of_ne hne.symm _ _
    refine ⟨?_, ?_⟩
    · simp only [Pointers.unlink, setNext, setPrev, hprev, Function.update_self]
    · simp only [Pointers.unlink, setNext, setPrev, Function.update_self]

/-- **A node is put in behind `h`.** -/
theorem Ring.pushFront {p : Pointers V} {h x : V} {l : List V} (hr : p.Ring h l)
    (hx : x ∉ h :: l) : (p.pushFront h x).Ring h (x :: l) := by
  have hxh : x ≠ h := fun he => hx (he ▸ List.mem_cons_self)
  have hnodup := List.nodup_cons.mp hr.nodup
  have hxl : x ∉ l ++ [h] := by
    simp only [List.mem_append, List.mem_singleton, not_or]
    exact ⟨fun hm => hx (List.mem_cons_of_mem h hm), hxh⟩
  obtain ⟨hfirst, hrest⟩ := List.isChain_cons.mp hr.joined
  obtain ⟨z, t, hz⟩ : ∃ z t, l ++ [h] = z :: t := by cases l <;> simp
  have hnext : p.next h = z := (hfirst z (by rw [hz]; rfl)).1
  have hzx : z ≠ x := fun he => hxl (by rw [hz, he]; exact List.mem_cons_self)
  -- the pointers after all stores
  have hnext' : ∀ a,
      (p.pushFront h x).next a = if a = h then x else if a = x then z else p.next a := by
    intro a
    simp only [Pointers.pushFront, setNext, setPrev, Function.update_apply, hnext]
  have hprev' : ∀ b,
      (p.pushFront h x).prev b = if b = z then x else if b = x then h else p.prev b := by
    intro b
    simp only [Pointers.pushFront, setNext, setPrev, Function.update_apply, hnext, if_neg hxh.symm]
  refine ⟨?_, ?_⟩
  · exact (List.Perm.swap x h l).nodup_iff.mpr (List.nodup_cons.mpr ⟨hx, hr.nodup⟩)
  · rw [List.cons_append, hz, List.isChain_cons_cons, List.isChain_cons_cons]
    refine ⟨⟨?_, ?_⟩, ⟨?_, ?_⟩, ?_⟩
    · rw [hnext', if_pos rfl]
    · rw [hprev', if_neg hzx.symm, if_pos rfl]
    · rw [hnext', if_neg hxh, if_pos rfl]
    · rw [hprev', if_pos rfl]
    rw [hz] at hrest hxl
    have hzt : z ∉ t := by
      have : (l ++ [h]).Nodup := by
        rw [List.nodup_append_comm]
        exact hr.nodup
      rw [hz] at this
      exact (List.nodup_cons.mp this).1
    refine List.IsChain.imp_of_mem_tail_imp (fun a b ha hb hab => ?_) hrest
    have hax : a ≠ x := fun he => hxl (he ▸ ha)
    have hbx : b ≠ x := fun he => hxl (he ▸ List.mem_cons_of_mem z hb)
    have hbz : b ≠ z := fun he => hzt (he ▸ hb)
    have hah : a ≠ h := by
      rintro rfl
      exact hbz (hab.1.symm.trans hnext)
    exact ⟨by rw [hnext', if_neg hah, if_neg hax]; exact hab.1,
      by rw [hprev', if_neg hbz, if_neg hbx]; exact hab.2⟩

end Pointers

end Lib
