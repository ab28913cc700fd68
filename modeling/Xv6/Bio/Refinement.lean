import Xv6.Bio.Account
import Mathlib.Data.Fintype.Card
import Mathlib.Data.List.Count

/-!
# The buffer cache plays the block store

`Plays a m` relates the block store `a` to a state `m` of the cache, and `Plays.step` shows
that every step of kernel code keeps them related, as long as the books of `a` balance.  By
`Lib.Prog.run_sim` that carries over to all kernel code, and by `Plays.init` it holds from
`binit` on.

A buffer is *reachable* when a lookup of its own block finds it.  After `binit` all buffers
are assigned to block `0` of drive `0`, so unreachable buffers exist; the relation asks of
them that they are idle and not valid, and recycling keeps it that way.

The step that takes work is `bread`.

* A block that is cached is found where it is, and its buffer has the contents of the store
  (`cacheHandler_bread_valid`) or is filled from the drive, which has them (`Plays.mem_eq_disk`).
* Otherwise a buffer is recycled.  One exists if and only if the store finds room for another block
  (`Plays.exists_victim`, `Plays.bget_of_not_fits`), and since it is neither referred to nor dirty,
  its old block has the same contents on the drive and nothing is lost (`Plays.recycle`).

All other steps change one buffer that is held, and go through `Plays.of_setBuf`.
-/

namespace Xv6

open Lib

/-! ## Lookups -/

/-- The first match in a list from which one element has been moved to the front. -/
private lemma find?_move_front {α : Type} [DecidableEq α] (l : List α) (x : α) (p : α → Bool) :
    (x :: l.erase x).find? p = if p x then some x else l.find? p := by
  rw [List.find?_cons]
  by_cases hx : p x
  · simp [hx]
  · simp only [hx, Bool.false_eq_true, if_false]
    induction l with
    | nil => simp
    | cons y l ih =>
      by_cases hy : y = x
      · subst hy
        simp [hx]
      · rw [List.erase_cons_tail (by simpa using hy), List.find?_cons, List.find?_cons, ih]

/-- Excluding an element does not change a first match that is another element. -/
private lemma find?_and_ne {α : Type} {l : List α} {x y : α} {p q : α → Bool}
    (hq : ∀ z, z ≠ x → q z = p z) (hx : q x = false) (hy : l.find? p = some y) (hne : y ≠ x) :
    l.find? q = some y := by
  induction l with
  | nil => simp at hy
  | cons z l ih =>
    rw [List.find?_cons] at hy ⊢
    by_cases hz : z = x
    · subst hz
      rw [hx]
      by_cases hp : p z
      · simp only [hp] at hy
        exact absurd (Option.some.inj hy).symm hne
      · simp only [hp] at hy
        exact ih hy
    · rw [hq z hz]
      by_cases hp : p z
      · simpa only [hp] using hy
      · simp only [hp] at hy ⊢
        exact ih hy

namespace Machine

variable {m : Machine} {k k' : BufRef} {i j : Fin NBUF}

lemma key_eq_iff (b : Buf) (k : BufRef) :
    b.key = k ↔ b.dev = k.dev ∧ b.blockno = k.blockno := by
  cases k
  simp [Buf.key]

lemma lookup_eq (m : Machine) (k : BufRef) :
    m.lookup k = m.lru.find? fun i => (m.buf i).key = k := by
  unfold lookup
  congr 1
  funext i
  exact decide_eq_decide.mpr (key_eq_iff _ _).symm

lemma key_of_lookup (h : m.lookup k = some i) : (m.buf i).key = k := by
  rw [lookup_eq] at h
  simpa using List.find?_some h

lemma key_ne_of_lookup_none (hall : ∀ i, i ∈ m.lru) (h : m.lookup k = none) (i : Fin NBUF) :
    (m.buf i).key ≠ k := by
  rw [lookup_eq, List.find?_eq_none] at h
  simpa using h i (hall i)

lemma lookup_congr {m' : Machine} (hl : m'.lru = m.lru)
    (hk : ∀ i, (m'.buf i).key = (m.buf i).key) (k : BufRef) : m'.lookup k = m.lookup k := by
  rw [lookup_eq, lookup_eq, hl]
  congr 1
  funext i
  rw [hk]

lemma lookup_setBuf {b : Buf} (hb : b.key = (m.buf i).key) (k : BufRef) :
    (m.setBuf i b).lookup k = m.lookup k := by
  apply lookup_congr
  · rfl
  · intro j
    by_cases hj : j = i
    · subst hj
      simp [setBuf, hb]
    · simp [setBuf, Function.update_of_ne hj]

@[simp] lemma setBuf_buf_self (m : Machine) (i : Fin NBUF) (b : Buf) :
    (m.setBuf i b).buf i = b := by
  simp [setBuf]

lemma setBuf_buf_of_ne {b : Buf} (h : j ≠ i) : (m.setBuf i b).buf j = m.buf j := by
  simp [setBuf, Function.update_of_ne h]

/-- A buffer that is assigned to a block nobody cached is the one found for it. -/
lemma lookup_setBuf_self {b : Buf} (hall : ∀ i, i ∈ m.lru) (hk : m.lookup k = none)
    (hb : b.key = k) : (m.setBuf i b).lookup k = some i := by
  cases hl : (m.setBuf i b).lookup k with
  | none =>
    refine absurd ?_ (key_ne_of_lookup_none (m := m.setBuf i b) hall hl i)
    rw [setBuf_buf_self, hb]
  | some j =>
    by_contra hji
    have hj : j ≠ i := fun hj => hji (by rw [hj])
    have hkj := key_of_lookup hl
    rw [setBuf_buf_of_ne hj] at hkj
    exact key_ne_of_lookup_none hall hk j hkj

lemma lookup_setBuf_of_ne {b : Buf} (hb : b.key ≠ k) (hji : j ≠ i) (hj : m.lookup k = some j) :
    (m.setBuf i b).lookup k = some j := by
  rw [lookup_eq] at hj ⊢
  refine find?_and_ne (fun z hz => ?_) ?_ hj hji
  · rw [setBuf_buf_of_ne hz]
  · rw [setBuf_buf_self]
    simpa using hb

lemma lookup_moveFront (hi : m.lookup (m.buf i).key = some i) (k : BufRef) :
    ({ m with lru := i :: m.lru.erase i } : Machine).lookup k = m.lookup k := by
  rw [lookup_eq, lookup_eq, find?_move_front]
  split_ifs with hk
  · obtain rfl : (m.buf i).key = k := by simpa using hk
    rw [← lookup_eq, hi]
  · rfl

@[simp] lemma setBuf_lru (m : Machine) (i : Fin NBUF) (b : Buf) :
    (m.setBuf i b).lru = m.lru := rfl

@[simp] lemma setBuf_disk (m : Machine) (i : Fin NBUF) (b : Buf) :
    (m.setBuf i b).disk = m.disk := rfl

@[simp] lemma setBuf_havedisk1 (m : Machine) (i : Fin NBUF) (b : Buf) :
    (m.setBuf i b).havedisk1 = m.havedisk1 := rfl

end Machine

/-! ## The relation -/

/-- A buffer nobody holds and whose contents mean nothing. -/
def Buf.Idle (b : Buf) : Prop := b.refcnt = 0 ∧ b.dirty = false ∧ b.valid = false

def Account.InRange (a : Account) (k : BufRef) : Prop :=
  k.dev < 2 ∧ (k.dev ≠ 0 → a.havedisk1 = true) ∧ k.blockno < FSSIZE

/-- The cache `m` plays the block store `a`.  A block that is held or dirty has a valid buffer,
which is found by a lookup, with the contents and the count of references of the store (`live`,
`data`, `refcnt`).  What is neither dirty nor changed has the same contents in the store and on the
drive (`clean`), so that it need not be cached.  Buffers that no lookup finds are idle
(`shadow`). -/
structure Plays (a : Account) (m : Machine) : Prop where
  log : m.log = a.log
  hd : m.havedisk1 = a.havedisk1
  disk : ∀ k, k.dev < 2 → m.disk k = a.disk k
  all : ∀ i, i ∈ m.lru
  shadow : ∀ i, m.lookup (m.buf i).key ≠ some i → (m.buf i).Idle
  refcnt : ∀ k i, m.lookup k = some i → (m.buf i).refcnt = a.held.count k
  dirty : ∀ k i, m.lookup k = some i → ((m.buf i).dirty = true ↔ k ∈ a.dirty)
  data : ∀ k i, m.lookup k = some i → (m.buf i).valid = true → (m.buf i).data = a.mem k
  range : ∀ k i, m.lookup k = some i → (m.buf i).valid = true → a.InRange k
  live : ∀ k, k ∈ a.held ∨ k ∈ a.dirty → ∃ i, m.lookup k = some i ∧ (m.buf i).valid = true
  clean : ∀ k, k.dev < 2 → k ∉ a.dirty → k ∉ a.pend → a.mem k = a.disk k
  pend : ∀ k ∈ a.pend, k ∈ a.held

/-- What is left of the relation where the machine halts: the drives. -/
def SameDisk (a : Account) (m : Machine) : Prop := ∀ k, k.dev < 2 → m.disk k = a.disk k

namespace Plays

variable {a a' : Account} {m m' : Machine} {k : BufRef} {i : Fin NBUF}

lemma init (disk : BufRef → Block) (havedisk1 : Bool) (log : Log) :
    Plays (Account.init disk havedisk1 log) (binit disk havedisk1 log) where
  log := rfl
  hd := rfl
  disk _ _ := rfl
  all i := by simp [binit]
  shadow i _ := ⟨rfl, rfl, rfl⟩
  refcnt k i _ := by simp [Account.init, binit]
  dirty k i _ := by simp [Account.init, binit]
  data k i _ h := by simp [binit] at h
  range k i _ h := by simp [binit] at h
  live k h := by simp [Account.init] at h
  clean k _ _ _ := rfl
  pend k h := by simp [Account.init] at h

lemma key_inj {k' : BufRef} (hk : m.lookup k = some i) (hk' : m.lookup k' = some i) : k = k' :=
  (Machine.key_of_lookup hk).symm.trans (Machine.key_of_lookup hk')

lemma of_update (h : Plays a m) (hk : m.lookup k = some i)
    (hlook : ∀ k', m'.lookup k' = m.lookup k') (hall : ∀ j, j ∈ m'.lru)
    (hbuf : ∀ j, j ≠ i → m'.buf j = m.buf j)
    (hlog : m'.log = a'.log) (hhd : m'.havedisk1 = a'.havedisk1)
    (hhd' : a'.havedisk1 = a.havedisk1)
    (hdisk : ∀ k', k'.dev < 2 → m'.disk k' = a'.disk k')
    (hcount : ∀ k', k' ≠ k → a'.held.count k' = a.held.count k')
    (hdirty : ∀ k', k' ≠ k → (k' ∈ a'.dirty ↔ k' ∈ a.dirty))
    (hpend : ∀ k', k' ≠ k → (k' ∈ a'.pend ↔ k' ∈ a.pend))
    (hmem : ∀ k', k' ≠ k → a'.mem k' = a.mem k')
    (hdsk : ∀ k', k' ≠ k → a'.disk k' = a.disk k')
    (hkey : (m'.buf i).key = k) (hvalid : (m'.buf i).valid = true)
    (hdata : (m'.buf i).data = a'.mem k) (hrc : (m'.buf i).refcnt = a'.held.count k)
    (hdk : (m'.buf i).dirty = true ↔ k ∈ a'.dirty) (hrange : a.InRange k)
    (hclean : k ∉ a'.dirty → k ∉ a'.pend → a'.mem k = a'.disk k)
    (hpk : k ∈ a'.pend → k ∈ a'.held) : Plays a' m' := by
  -- a block other than `k` is found in a buffer other than `i`
  have hne : ∀ k' j, k' ≠ k → m.lookup k' = some j → j ≠ i := fun k' j hk' hj hji =>
    hk' (key_inj (hji ▸ hj) hk)
  have hmemh : ∀ k', k' ≠ k → (k' ∈ a'.held ↔ k' ∈ a.held) := fun k' hk' => by
    rw [← List.count_pos_iff, ← List.count_pos_iff, hcount k' hk']
  refine ⟨hlog, hhd, hdisk, hall, fun j hj => ?_, fun k' j hj => ?_, fun k' j hj => ?_,
    fun k' j hj hv => ?_, fun k' j hj hv => ?_, fun k' hk' => ?_, fun k' hd hd' hp' => ?_,
    fun k' hk' => ?_⟩
  · by_cases hji : j = i
    · subst hji
      rw [hkey, hlook] at hj
      exact absurd hk hj
    · rw [hbuf j hji, hlook] at hj
      rw [hbuf j hji]
      exact h.shadow j hj
  · rw [hlook] at hj
    by_cases hkk : k' = k
    · subst hkk
      obtain rfl := Option.some.inj (hk.symm.trans hj)
      exact hrc
    · rw [hbuf j (hne k' j hkk hj), hcount k' hkk]
      exact h.refcnt k' j hj
  · rw [hlook] at hj
    by_cases hkk : k' = k
    · subst hkk
      obtain rfl := Option.some.inj (hk.symm.trans hj)
      exact hdk
    · rw [hbuf j (hne k' j hkk hj), hdirty k' hkk]
      exact h.dirty k' j hj
  · rw [hlook] at hj
    by_cases hkk : k' = k
    · subst hkk
      obtain rfl := Option.some.inj (hk.symm.trans hj)
      exact hdata
    · rw [hbuf j (hne k' j hkk hj)] at hv ⊢
      rw [hmem k' hkk]
      exact h.data k' j hj hv
  · rw [hlook] at hj
    have hr : a.InRange k' := by
      by_cases hkk : k' = k
      · rwa [hkk]
      · rw [hbuf j (hne k' j hkk hj)] at hv
        exact h.range k' j hj hv
    exact ⟨hr.1, fun h0 => hhd' ▸ hr.2.1 h0, hr.2.2⟩
  · by_cases hkk : k' = k
    · subst hkk
      exact ⟨i, (hlook k').trans hk, hvalid⟩
    · rw [hmemh k' hkk, hdirty k' hkk] at hk'
      obtain ⟨j, hj, hv⟩ := h.live k' hk'
      exact ⟨j, (hlook k').trans hj, by rwa [hbuf j (hne k' j hkk hj)]⟩
  · by_cases hkk : k' = k
    · subst hkk
      exact hclean hd' hp'
    · rw [hdirty k' hkk] at hd'
      rw [hpend k' hkk] at hp'
      rw [hmem k' hkk, hdsk k' hkk]
      exact h.clean k' hd hd' hp'
  · by_cases hkk : k' = k
    · subst hkk
      exact hpk hk'
    · rw [hpend k' hkk] at hk'
      exact (hmemh k' hkk).mpr (h.pend k' hk')

/-- The log structure is the same on both sides, and nothing else depends on it. -/
lemma setLog (h : Plays a m) (L : Log) : Plays { a with log := L } { m with log := L } where
  log := rfl
  hd := h.hd
  disk := h.disk
  all := h.all
  shadow := h.shadow
  refcnt := h.refcnt
  dirty := h.dirty
  data := h.data
  range := h.range
  live := h.live
  clean := h.clean
  pend := h.pend

/-! ## Recycling -/

lemma exists_victim (h : Plays a m) (hfit : a.Fits k) (hk : m.lookup k = none) :
    ∃ i, m.victim = some i := by
  by_contra hno
  have hv : m.victim = none := by
    cases hv : m.victim with
    | none => rfl
    | some i => exact (hno ⟨i, hv⟩).elim
  -- every buffer is then held or pinned, hence reachable, and no two cache one block
  have hbusy : ∀ i, (m.buf i).refcnt ≠ 0 ∨ (m.buf i).dirty = true := by
    intro i
    rw [Machine.victim, List.find?_eq_none] at hv
    have hi := hv i (by simpa using h.all i)
    simp only [decide_eq_true_eq, not_and, Bool.not_eq_false] at hi
    by_cases hr : (m.buf i).refcnt = 0
    · exact Or.inr (hi hr)
    · exact Or.inl hr
  have hreach : ∀ i, m.lookup (m.buf i).key = some i := by
    intro i
    by_contra hs
    obtain ⟨hr, hd, -⟩ := h.shadow i hs
    rcases hbusy i with hb | hb
    · exact hb hr
    · rw [hd] at hb
      cases hb
  have hinj : Function.Injective fun i => (m.buf i).key := by
    intro i j hij
    have hj := hreach j
    rw [← show (m.buf i).key = (m.buf j).key from hij, hreach i] at hj
    exact Option.some.inj hj
  have hused : ∀ i, (m.buf i).key ∈ a.used := by
    intro i
    rw [Account.used, Finset.mem_union, List.mem_toFinset]
    rcases hbusy i with hb | hb
    · rw [h.refcnt _ i (hreach i)] at hb
      exact Or.inl (List.count_pos_iff.mp (Nat.pos_of_ne_zero hb))
    · exact Or.inr ((h.dirty _ i (hreach i)).mp hb)
  have hknot : k ∉ a.used := by
    intro hk'
    rw [Account.used, Finset.mem_union, List.mem_toFinset] at hk'
    obtain ⟨i, hi, -⟩ := h.live k hk'
    rw [hk] at hi
    cases hi
  have hcard : NBUF ≤ a.used.card := by
    calc NBUF = (Finset.univ.image fun i => (m.buf i).key).card := by
          rw [Finset.card_image_of_injective _ hinj, Finset.card_univ, Fintype.card_fin]
      _ ≤ a.used.card := by
          apply Finset.card_le_card
          intro x hx
          obtain ⟨i, -, rfl⟩ := Finset.mem_image.mp hx
          exact hused i
  unfold Account.Fits at hfit
  rw [Finset.card_insert_of_notMem hknot] at hfit
  omega

/-- A read beyond the books finds its block in no buffer, and no buffer to recycle. -/
lemma bget_of_not_fits (h : Plays a m) (hfit : ¬ a.Fits k) :
    bget k m = .error (.panic .bgetNoBuffers) m := by
  -- a set of blocks that all are found in buffers outside `t` has at most as many members
  have hcard : ∀ (s : Finset BufRef) (t : Finset (Fin NBUF)),
      (∀ k' ∈ s, ∃ i, i ∉ t ∧ m.lookup k' = some i) → s.card + t.card ≤ NBUF := by
    intro s t hs
    choose! f hft hf using hs
    calc s.card + t.card ≤ tᶜ.card + t.card := by
          refine Nat.add_le_add_right (Finset.card_le_card_of_injOn f ?_ ?_) _
          · intro k' hk'
            simpa using hft k' hk'
          · intro k₁ h₁ k₂ h₂ he
            exact key_inj (hf k₁ h₁) (he ▸ hf k₂ h₂)
      _ = NBUF := by rw [add_comm, Finset.card_add_card_compl, Fintype.card_fin]
  have hused : ∀ k' ∈ a.used, ∃ i, m.lookup k' = some i := fun k' hk' => by
    obtain ⟨i, hi, -⟩ := h.live k' (by simpa [Account.used] using hk')
    exact ⟨i, hi⟩
  have hlook : m.lookup k = none := by
    cases hl : m.lookup k with
    | none => rfl
    | some i =>
      refine absurd (hcard (insert k a.used) ∅ fun k' hk' => ?_)
        (by simpa [Account.Fits] using hfit)
      rcases Finset.mem_insert.mp hk' with rfl | hk'
      · exact ⟨i, by simp, hl⟩
      · obtain ⟨j, hj⟩ := hused k' hk'
        exact ⟨j, by simp, hj⟩
  have hvic : m.victim = none := by
    cases hv : m.victim with
    | none => rfl
    | some i =>
      have hv' : (m.buf i).refcnt = 0 ∧ (m.buf i).dirty = false := by
        simpa using List.find?_some hv
      have hle := hcard a.used {i} fun k' hk' => by
        obtain ⟨j, hj⟩ := hused k' hk'
        refine ⟨j, ?_, hj⟩
        -- the recyclable buffer is neither held nor pinned
        rw [Finset.mem_singleton]
        rintro rfl
        rcases (by simpa [Account.used] using hk' : k' ∈ a.held ∨ k' ∈ a.dirty) with hh | hd
        · rw [h.refcnt k' j hj] at hv'
          exact List.count_eq_zero.mp hv'.1 hh
        · rw [(h.dirty k' j hj).mpr hd] at hv'
          exact nomatch hv'.2
      rw [Finset.card_singleton] at hle
      exact absurd ((Finset.card_insert_le k a.used).trans hle) hfit
  simp only [bget, hlook, hvic]

lemma victim_spec {m : Machine} {i : Fin NBUF} (hv : m.victim = some i) :
    (m.buf i).refcnt = 0 ∧ (m.buf i).dirty = false := by
  simpa using List.find?_some hv

lemma recycle (h : Plays a m) (hk : m.lookup k = none) (hv : m.victim = some i)
    (hrange : a.InRange k) {b : Buf} (hkey : b.key = k) (hvalid : b.valid = true)
    (hdirty : b.dirty = false) (hrc : b.refcnt = 1) (hdata : b.data = a.mem k) :
    Plays { a with held := k :: a.held } (m.setBuf i b) := by
  obtain ⟨hi0, hid⟩ := victim_spec hv
  have hkeys := Machine.key_ne_of_lookup_none h.all hk
  have hother : ∀ j, j ≠ i → (m.setBuf i b).buf j = m.buf j := fun j hj =>
    Machine.setBuf_buf_of_ne hj
  have hunused : k ∉ a.held ∧ k ∉ a.dirty := by
    constructor <;>
    · intro hk'
      obtain ⟨j, hj, -⟩ := h.live k (by tauto)
      rw [hk] at hj
      cases hj
  have hself : (m.setBuf i b).lookup k = some i := Machine.lookup_setBuf_self h.all hk hkey
  -- a reachable buffer other than the recycled one stays reachable
  have hkeep : ∀ k' j, k' ≠ k → j ≠ i → m.lookup k' = some j →
      (m.setBuf i b).lookup k' = some j := fun k' j hkk hji hj =>
    Machine.lookup_setBuf_of_ne (by rw [hkey]; exact hkk.symm) hji hj
  -- what a lookup finds now was found before, or was hidden behind the recycled buffer
  have hcases : ∀ k' j, k' ≠ k → (m.setBuf i b).lookup k' = some j →
      j ≠ i ∧ (m.lookup k' = some j ∨ (m.lookup k' = some i ∧ (m.buf j).Idle)) := by
    intro k' j hkk hj
    have hkj := Machine.key_of_lookup hj
    have hji : j ≠ i := by
      rintro rfl
      rw [Machine.setBuf_buf_self, hkey] at hkj
      exact hkk hkj.symm
    rw [hother j hji] at hkj
    refine ⟨hji, ?_⟩
    cases hl : m.lookup k' with
    | none => exact absurd hkj (Machine.key_ne_of_lookup_none h.all hl j)
    | some j' =>
      by_cases hj' : j' = j
      · exact Or.inl (by rw [hj'])
      · have hji' : j' = i := by
          by_contra hne
          rw [hkeep k' j' hkk hne hl] at hj
          exact hj' (Option.some.inj hj)
        refine Or.inr ⟨by rw [hji'], h.shadow j ?_⟩
        rw [hkj, hl]
        exact fun hjj => hj' (Option.some.inj hjj)
  have hcnt : ∀ k', k' ≠ k → (k :: a.held).count k' = a.held.count k' := fun k' hkk =>
    List.count_cons_of_ne fun h => hkk h.symm
  refine ⟨h.log, h.hd, h.disk, h.all, fun j hj => ?_, fun k' j hj => ?_, fun k' j hj => ?_,
    fun k' j hj hjv => ?_, fun k' j hj hjv => ?_, fun k' hk' => ?_, h.clean, fun k' hk' => ?_⟩
  · by_cases hji : j = i
    · subst hji
      rw [Machine.setBuf_buf_self, hkey] at hj
      exact absurd hself hj
    · rw [hother j hji] at hj ⊢
      apply h.shadow j
      intro hl
      exact hj (hkeep _ j (hkeys j) hji hl)
  · by_cases hkk : k' = k
    · subst hkk
      obtain rfl := Option.some.inj (hself.symm.trans hj)
      rw [Machine.setBuf_buf_self, hrc, List.count_cons_self,
        List.count_eq_zero_of_not_mem hunused.1]
    · obtain ⟨hji, hl | ⟨hl, hidle⟩⟩ := hcases k' j hkk hj
      · rw [hother j hji, h.refcnt k' j hl]
        exact (hcnt k' hkk).symm
      · rw [hother j hji, hidle.1]
        have := h.refcnt k' i hl
        rw [hi0] at this
        rw [this]
        exact (hcnt k' hkk).symm
  · by_cases hkk : k' = k
    · subst hkk
      obtain rfl := Option.some.inj (hself.symm.trans hj)
      rw [Machine.setBuf_buf_self, hdirty]
      simpa using hunused.2
    · obtain ⟨hji, hl | ⟨hl, hidle⟩⟩ := hcases k' j hkk hj
      · rw [hother j hji]
        exact h.dirty k' j hl
      · rw [hother j hji, hidle.2.1, ← hid]
        exact h.dirty k' i hl
  · by_cases hkk : k' = k
    · subst hkk
      obtain rfl := Option.some.inj (hself.symm.trans hj)
      rw [Machine.setBuf_buf_self, hdata]
    · obtain ⟨hji, hl | ⟨-, hidle⟩⟩ := hcases k' j hkk hj
      · rw [hother j hji] at hjv ⊢
        exact h.data k' j hl hjv
      · rw [hother j hji, hidle.2.2] at hjv
        cases hjv
  · by_cases hkk : k' = k
    · rwa [hkk]
    · obtain ⟨hji, hl | ⟨-, hidle⟩⟩ := hcases k' j hkk hj
      · rw [hother j hji] at hjv
        exact h.range k' j hl hjv
      · rw [hother j hji, hidle.2.2] at hjv
        cases hjv
  · by_cases hkk : k' = k
    · subst hkk
      exact ⟨i, hself, by rw [Machine.setBuf_buf_self, hvalid]⟩
    · have hk'' : k' ∈ a.held ∨ k' ∈ a.dirty := by
        rcases hk' with hk' | hk'
        · exact Or.inl ((List.mem_cons.mp hk').resolve_left hkk)
        · exact Or.inr hk'
      obtain ⟨j, hj, hjv⟩ := h.live k' hk''
      have hji : j ≠ i := by
        rintro rfl
        rcases hk'' with hh | hh
        · have := h.refcnt k' j hj
          rw [hi0] at this
          exact absurd (List.count_pos_iff.mpr hh) (by omega)
        · rw [(h.dirty k' j hj).mpr hh] at hid
          cases hid
      exact ⟨j, hkeep k' j hkk hji hj, by rwa [hother j hji]⟩
  · exact List.mem_cons_of_mem _ (h.pend k' hk')

/-! ## The steps -/

lemma holding_eq (h : Plays a m) (hk : k ∈ a.held) :
    ∃ i, m.lookup k = some i ∧ (m.buf i).valid = true ∧ 0 < (m.buf i).refcnt ∧
      ∀ {α : Type} (f : Fin NBUF → EStateM Halt Machine α), holding k f m = f i m := by
  obtain ⟨i, hi, hv⟩ := h.live k (Or.inl hk)
  have hr : 0 < (m.buf i).refcnt := by
    rw [h.refcnt k i hi]
    exact List.count_pos_iff.mpr hk
  refine ⟨i, hi, hv, hr, fun f => ?_⟩
  simp only [holding, hi, if_pos hr]

lemma mem_eq_disk (h : Plays a m) (hd : k.dev < 2) (hk : ¬ (k ∈ a.held ∨ k ∈ a.dirty)) :
    a.mem k = a.disk k :=
  h.clean k hd (fun hk' => hk (Or.inr hk')) fun hk' => hk (Or.inl (h.pend k hk'))

lemma drive_of_lt (hd : k.dev < 2) : drive k = k := by
  cases k
  simp only [drive, BufRef.mk.injEq, and_true]
  exact Nat.mod_eq_of_lt hd

/-- A step that changes one held block and its buffer, and neither the order of the buffers
nor the log. -/
lemma of_setBuf (h : Plays a m) (hk : m.lookup k = some i) (hrange : a.InRange k) {b : Buf}
    (hkey : b.key = k) (hlog : a'.log = a.log) (hhd : a'.havedisk1 = a.havedisk1)
    (hdisk : a'.disk = a.disk)
    (hcount : ∀ k', k' ≠ k → a'.held.count k' = a.held.count k')
    (hdirty : ∀ k', k' ≠ k → (k' ∈ a'.dirty ↔ k' ∈ a.dirty))
    (hpend : ∀ k', k' ≠ k → (k' ∈ a'.pend ↔ k' ∈ a.pend))
    (hmem : ∀ k', k' ≠ k → a'.mem k' = a.mem k') (hvalid : b.valid = true)
    (hdata : b.data = a'.mem k) (hrc : b.refcnt = a'.held.count k)
    (hdk : b.dirty = true ↔ k ∈ a'.dirty)
    (hclean : k ∉ a'.dirty → k ∉ a'.pend → a'.mem k = a'.disk k)
    (hpk : k ∈ a'.pend → k ∈ a'.held) : Plays a' (m.setBuf i b) := by
  have hlook : ∀ k', (m.setBuf i b).lookup k' = m.lookup k' := fun k' =>
    Machine.lookup_setBuf (hkey.trans (Machine.key_of_lookup hk).symm) k'
  refine h.of_update hk hlook h.all (fun j hj => Machine.setBuf_buf_of_ne hj)
    (h.log.trans hlog.symm) (h.hd.trans hhd.symm) hhd (fun k' hd => ?_) hcount hdirty hpend hmem
    (fun _ _ => by rw [hdisk]) ?_ ?_ ?_ ?_ ?_ hrange hclean hpk
  · rw [hdisk]
    exact h.disk k' hd
  all_goals rw [Machine.setBuf_buf_self]; assumption

lemma get_apply {ε σ : Type} (s : σ) : (get : EStateM ε σ σ) s = .ok s s := rfl

lemma set_apply {ε σ : Type} (s s' : σ) : (set s' : EStateM ε σ PUnit) s = .ok .unit s' := rfl

lemma cacheHandler_bread_valid {m m₁ : Machine} {k : BufRef} {i : Fin NBUF}
    (hg : bget k m = .ok i m₁) (hv : (m₁.buf i).valid = true) :
    cacheHandler (.bread k) m = .ok () m₁ := by
  simp [cacheHandler, breadBuf, bind, EStateM.bind, hg, get_apply, hv, pure, EStateM.pure]

lemma cacheHandler_bread_invalid {m m₁ : Machine} {k : BufRef} {i : Fin NBUF}
    (hg : bget k m = .ok i m₁) (hv : (m₁.buf i).valid = false) (hd : (m₁.buf i).dirty = false)
    (hkey : (m₁.buf i).key = k) :
    cacheHandler (.bread k) m =
      if k.dev ≠ 0 ∧ m₁.havedisk1 = false then .error (.panic .ideDisk1NotPresent) m₁
      else if FSSIZE ≤ k.blockno then .error (.panic .incorrectBlockno) m₁
      else .ok () (m₁.setBuf i { m₁.buf i with valid := true, data := m₁.disk (drive k) }) := by
  simp only [cacheHandler, breadBuf, bind, EStateM.bind, hg, get_apply, hv, if_true]
  subst hkey
  simp only [iderw, hv, hd, Bool.false_eq_true, false_and, if_false, Buf.key]
  split_ifs <;> rfl

lemma bread_step (h : Plays a m) :
    Prog.SimResult Plays SameDisk (· ≠ .stray) (accountHandler (.bread k) a)
      (cacheHandler (.bread k) m) := by
  by_cases hdev : 2 ≤ k.dev
  · simp only [accountHandler, if_pos hdev]
    exact fun hx => absurd rfl hx
  by_cases hfit : ¬ a.Fits k
  · simp only [accountHandler, if_neg hdev, if_pos hfit]
    refine fun _ => ⟨m, ?_, h.disk⟩
    simp only [cacheHandler, breadBuf, bind, EStateM.bind, h.bget_of_not_fits hfit]
  have hA : accountHandler (.bread k) a =
      if k.dev ≠ 0 ∧ a.havedisk1 = false then .error (.panic .ideDisk1NotPresent) a
      else if FSSIZE ≤ k.blockno then .error (.panic .incorrectBlockno) a
      else .ok () { a with held := k :: a.held } := by
    simp only [accountHandler, if_neg hdev, if_neg hfit]
  rw [not_not] at hfit
  rw [Nat.not_le] at hdev
  rw [hA]
  cases hl : m.lookup k with
  | some i =>
    have hg : bget k m =
        .ok i (m.setBuf i { m.buf i with refcnt := (m.buf i).refcnt + 1 }) := by
      simp only [bget, hl]
    have hcnt : (m.buf i).refcnt + 1 = (k :: a.held).count k := by
      rw [List.count_cons_self, h.refcnt k i hl]
    have hother : ∀ k', k' ≠ k → (k :: a.held).count k' = a.held.count k' := fun k' hkk =>
      List.count_cons_of_ne fun h => hkk h.symm
    cases hv : (m.buf i).valid with
    | true =>
      obtain ⟨-, hr1, hr2⟩ := h.range k i hl hv
      rw [if_neg (by rintro ⟨h0, h1⟩; rw [hr1 h0] at h1; cases h1), if_neg (by omega),
        cacheHandler_bread_valid hg (by rw [Machine.setBuf_buf_self, hv])]
      refine ⟨_, rfl, h.of_setBuf hl (h.range k i hl hv) (Machine.key_of_lookup hl) rfl rfl rfl
        hother (fun _ _ => Iff.rfl) (fun _ _ => Iff.rfl) (fun _ _ => rfl) hv
        (h.data k i hl hv) hcnt (h.dirty k i hl) (fun hd hp => h.clean k hdev hd hp)
        fun _ => List.mem_cons_self⟩
    | false =>
      -- nobody holds or pins a buffer whose contents were never read
      have hun : ¬ (k ∈ a.held ∨ k ∈ a.dirty) := by
        intro hk
        obtain ⟨j, hj, hjv⟩ := h.live k hk
        obtain rfl := Option.some.inj (hl.symm.trans hj)
        rw [hv] at hjv
        cases hjv
      have hd : (m.buf i).dirty = false := by
        rw [← Bool.not_eq_true, h.dirty k i hl]
        exact fun hk => hun (Or.inr hk)
      rw [cacheHandler_bread_invalid hg (by rw [Machine.setBuf_buf_self, hv])
        (by rw [Machine.setBuf_buf_self, hd])
        (by rw [Machine.setBuf_buf_self]; exact Machine.key_of_lookup hl)]
      simp only [Machine.setBuf_havedisk1, h.hd, Machine.setBuf_buf_self]
      split_ifs with h2 h3
      · exact fun _ => ⟨_, rfl, h.disk⟩
      · exact fun _ => ⟨_, rfl, h.disk⟩
      · refine ⟨_, rfl, ?_⟩
        have hrange : a.InRange k :=
          ⟨hdev, fun h0 => by simpa [h0] using h2, by omega⟩
        rw [show (m.setBuf i { m.buf i with refcnt := (m.buf i).refcnt + 1 }).setBuf i
            { m.buf i with
              refcnt := (m.buf i).refcnt + 1, valid := true
              data := (m.setBuf i { m.buf i with refcnt := (m.buf i).refcnt + 1 }).disk
                (drive k) } =
            m.setBuf i { m.buf i with
              refcnt := (m.buf i).refcnt + 1, valid := true, data := m.disk (drive k) } by
          simp [Machine.setBuf]]
        refine h.of_setBuf hl hrange (Machine.key_of_lookup hl) rfl rfl rfl
          hother (fun _ _ => Iff.rfl) (fun _ _ => Iff.rfl) (fun _ _ => rfl) rfl ?_ hcnt
          (h.dirty k i hl) (fun hd hp => h.clean k hdev hd hp) fun _ => List.mem_cons_self
        rw [drive_of_lt hdev, h.disk k hdev, h.mem_eq_disk hdev hun]
  | none =>
    obtain ⟨i, hvi⟩ := h.exists_victim hfit hl
    have hun : ¬ (k ∈ a.held ∨ k ∈ a.dirty) := by
      intro hk
      obtain ⟨j, hj, -⟩ := h.live k hk
      rw [hl] at hj
      cases hj
    have hg : bget k m = .ok i (m.setBuf i { m.buf i with
        dev := k.dev, blockno := k.blockno, valid := false, dirty := false, refcnt := 1 }) := by
      simp only [bget, hl, hvi]
    rw [cacheHandler_bread_invalid hg (by rw [Machine.setBuf_buf_self])
      (by rw [Machine.setBuf_buf_self]) (by rw [Machine.setBuf_buf_self]; rfl)]
    simp only [Machine.setBuf_havedisk1, h.hd, Machine.setBuf_buf_self]
    split_ifs with h2 h3
    · exact fun _ => ⟨_, rfl, h.disk⟩
    · exact fun _ => ⟨_, rfl, h.disk⟩
    · refine ⟨_, rfl, ?_⟩
      have hrange : a.InRange k :=
        ⟨hdev, fun h0 => by simpa [h0] using h2, by omega⟩
      have hset : ∀ b b' : Buf, (m.setBuf i b).setBuf i b' = m.setBuf i b' := fun b b' => by
        simp [Machine.setBuf]
      rw [hset]
      refine h.recycle hl hvi hrange rfl rfl rfl rfl ?_
      rw [Machine.setBuf_disk, drive_of_lt hdev, h.disk k hdev, h.mem_eq_disk hdev hun]

lemma holder_step {α : Type} (h : Plays a m) {f : EStateM Halt Account α}
    {g : Fin NBUF → EStateM Halt Machine α}
    (hs : ∀ i, k ∈ a.held → m.lookup k = some i → (m.buf i).valid = true → a.InRange k →
      Prog.SimResult Plays SameDisk (· ≠ .stray) (f a) (g i m)) :
    Prog.SimResult Plays SameDisk (· ≠ .stray) (asHolder k f a) (holding k g m) := by
  by_cases hk : k ∈ a.held
  · obtain ⟨i, hi, hv, -, hh⟩ := h.holding_eq hk
    rw [hh, asHolder, if_pos hk]
    exact hs i hk hi hv (h.range k i hi hv)
  · rw [asHolder, if_neg hk]
    exact fun hx => absurd rfl hx

lemma brelse_step (h : Plays a m) :
    Prog.SimResult Plays SameDisk (· ≠ .stray) (accountHandler (.brelse k) a)
      (cacheHandler (.brelse k) m) := by
  simp only [accountHandler, cacheHandler]
  refine h.holder_step fun i hk hi hv hrange => ?_
  by_cases hst : k ∈ a.pend ∧ k ∉ a.held.erase k
  · rw [if_pos hst]
    exact fun hx => absurd rfl hx
  rw [if_neg hst]
  have hkey := Machine.key_of_lookup hi
  have hrc : (m.buf i).refcnt - 1 = (a.held.erase k).count k := by
    rw [List.count_erase_self, h.refcnt k i hi]
  have hcount : ∀ k', k' ≠ k → (a.held.erase k).count k' = a.held.count k' := fun k' hkk =>
    List.count_erase_of_ne hkk
  have hpk : k ∈ a.pend → k ∈ a.held.erase k := fun hp => by
    by_contra hno
    exact hst ⟨hp, hno⟩
  have hset : Plays { a with held := a.held.erase k }
      (m.setBuf i { m.buf i with refcnt := (m.buf i).refcnt - 1 }) :=
    h.of_setBuf hi hrange hkey rfl rfl rfl hcount (fun _ _ => Iff.rfl) (fun _ _ => Iff.rfl)
      (fun _ _ => rfl) hv (h.data k i hi hv) hrc (h.dirty k i hi)
      (fun hd hp => h.clean k hrange.1 hd hp) hpk
  simp only [brelseBuf]
  split_ifs with h0
  · refine ⟨_, rfl, ?_⟩
    -- moving the buffer of `k` to the front changes no lookup
    refine h.of_update hi (fun k' => ?_) (fun j => ?_) (fun j hj => ?_) h.log h.hd rfl h.disk
      hcount (fun _ _ => Iff.rfl) (fun _ _ => Iff.rfl) (fun _ _ => rfl) (fun _ _ => rfl)
      ?_ ?_ ?_ ?_ ?_ hrange (fun hd hp => h.clean k hrange.1 hd hp) hpk
    · have hl : ∀ k', (m.setBuf i { m.buf i with refcnt := (m.buf i).refcnt - 1 }).lookup k' =
          m.lookup k' := Machine.lookup_setBuf rfl
      refine (Machine.lookup_moveFront ?_ k').trans (hl k')
      rw [hl, Machine.setBuf_buf_self]
      exact (congrArg m.lookup hkey).trans hi
    · by_cases hj : j = i
      · simp [hj]
      · simpa [hj] using (List.mem_erase_of_ne hj).mpr (h.all j)
    · exact Machine.setBuf_buf_of_ne hj
    · simpa [Machine.setBuf, Buf.key] using hkey
    · simpa [Machine.setBuf] using hv
    · simpa [Machine.setBuf] using h.data k i hi hv
    · simpa [Machine.setBuf] using hrc
    · simpa [Machine.setBuf] using h.dirty k i hi
  · exact ⟨_, rfl, hset⟩

lemma bwriteBuf_eq (h : Plays a m) (hi : m.lookup k = some i) (hrange : a.InRange k) :
    bwriteBuf i m = .ok () { (m.setBuf i { m.buf i with valid := true, dirty := false }) with
      disk := Function.update m.disk k (m.buf i).data } := by
  have hkey := Machine.key_of_lookup hi
  obtain ⟨hdev, hno⟩ := (Machine.key_eq_iff _ _).mp hkey
  have h1 : ¬ ((m.buf i).dev ≠ 0 ∧ m.havedisk1 = false) := by
    rw [hdev, h.hd]
    rintro ⟨h0, h1⟩
    rw [hrange.2.1 h0] at h1
    cases h1
  have h2 : ¬ FSSIZE ≤ (m.buf i).blockno := by
    rw [hno]
    exact Nat.not_le.mpr hrange.2.2
  have h3 : drive ⟨(m.buf i).dev, (m.buf i).blockno⟩ = k := by
    rw [show (⟨(m.buf i).dev, (m.buf i).blockno⟩ : BufRef) = k from hkey,
      drive_of_lt hrange.1]
  simp only [bwriteBuf, bind, EStateM.bind, get_apply, set_apply, iderw, Machine.setBuf_buf_self,
    Machine.setBuf_havedisk1,
    Bool.true_eq_false, and_false, if_false, if_neg h1, if_neg h2, if_true, Buf.key, h3]
  simp [Machine.setBuf]

lemma bwrite_step (h : Plays a m) :
    Prog.SimResult Plays SameDisk (· ≠ .stray) (accountHandler (.bwrite k) a)
      (cacheHandler (.bwrite k) m) := by
  simp only [accountHandler, cacheHandler]
  refine h.holder_step fun i hk hi hv hrange => ?_
  have hkey := Machine.key_of_lookup hi
  rw [h.bwriteBuf_eq hi hrange]
  refine ⟨_, rfl, ?_⟩
  refine h.of_update hi (fun k' => ?_) h.all (fun j hj => Machine.setBuf_buf_of_ne hj) h.log h.hd
    rfl (fun k' hd => ?_) (fun _ _ => rfl) (fun k' hkk => ?_) (fun k' hkk => ?_) (fun _ _ => rfl)
    (fun k' hkk => ?_) ?_ ?_ ?_ ?_ ?_ hrange (fun _ _ => ?_) (fun hp => ?_)
  · exact Machine.lookup_setBuf (b := { m.buf i with valid := true, dirty := false }) rfl k'
  · simp only [Account.flush]
    by_cases hkk : k' = k
    · rw [hkk, Function.update_self, Function.update_self, h.data k i hi hv]
    · rw [Function.update_of_ne hkk, Function.update_of_ne hkk, h.disk k' hd]
  · simp [Account.flush, hkk]
  · simp [Account.flush, hkk]
  · simp [Account.flush, Function.update_of_ne hkk]
  · simpa [Machine.setBuf, Buf.key] using hkey
  · simp [Machine.setBuf]
  · simpa [Machine.setBuf, Account.flush] using h.data k i hi hv
  · simpa [Machine.setBuf, Account.flush] using h.refcnt k i hi
  · simp [Machine.setBuf, Account.flush]
  · simp [Account.flush]
  · simp [Account.flush] at hp

lemma write (h : Plays a m) (hk : k ∈ a.held) (hi : m.lookup k = some i)
    (hv : (m.buf i).valid = true) (hrange : a.InRange k) (d : Block) :
    Plays (a.write k d) (m.setBuf i { m.buf i with data := d }) := by
  refine h.of_setBuf hi hrange (Machine.key_of_lookup hi) rfl rfl rfl (fun _ _ => rfl)
    (fun _ _ => Iff.rfl) (fun k' hkk => ?_) (fun k' hkk => ?_) hv ?_ (h.refcnt k i hi)
    (h.dirty k i hi) (fun hd hp => ?_) fun _ => hk
  · simp only [Account.write]
    split_ifs
    · rfl
    · simp [hkk]
  · simp [Account.write, Function.update_of_ne hkk]
  · simp [Account.write]
  · have hd' : k ∉ a.dirty := hd
    simp [Account.write, hd'] at hp

lemma copy_step {src : BufRef} (h : Plays a m) :
    Prog.SimResult Plays SameDisk (· ≠ .stray) (accountHandler (.copy k src) a)
      (cacheHandler (.copy k src) m) := by
  simp only [accountHandler, cacheHandler]
  refine h.holder_step fun i hk hi hv hrange => ?_
  refine h.holder_step fun j _ hj hjv _ => ⟨_, rfl, ?_⟩
  rw [h.data src j hj hjv]
  exact h.write hk hi hv hrange (a.mem src)

lemma logAdd_step (h : Plays a m) :
    Prog.SimResult Plays SameDisk (· ≠ .stray) (accountHandler (.logAdd k) a)
      (cacheHandler (.logAdd k) m) := by
  simp only [accountHandler, cacheHandler]
  refine h.holder_step fun i _ _ _ _ => ?_
  rw [h.log]
  split_ifs
  · exact fun _ => ⟨_, rfl, h.disk⟩
  · exact ⟨_, rfl, h.setLog _⟩

lemma markDirty_step (h : Plays a m) :
    Prog.SimResult Plays SameDisk (· ≠ .stray) (accountHandler (.markDirty k) a)
      (cacheHandler (.markDirty k) m) := by
  simp only [accountHandler, cacheHandler]
  refine h.holder_step fun i hk hi hv hrange => ⟨_, rfl, ?_⟩
  refine h.of_setBuf hi hrange (Machine.key_of_lookup hi) rfl rfl rfl (fun _ _ => rfl)
    (fun k' hkk => ?_) (fun k' hkk => ?_) (fun _ _ => rfl) hv (h.data k i hi hv)
    (h.refcnt k i hi) ?_ (fun hd => ?_) fun hp => ?_
  · simp [Account.pin, hkk]
  · simp [Account.pin, hkk]
  · simp [Account.pin]
  · exact absurd (Finset.mem_insert_self k a.dirty) hd
  · simp [Account.pin] at hp

/-- **Every step of kernel code is played by the cache.** -/
theorem step (e : BioOp) (a : Account) (m : Machine) (h : Plays a m) :
    Prog.SimResult Plays SameDisk (· ≠ .stray) (accountHandler e a) (cacheHandler e m) := by
  cases e with
  | bread k => exact h.bread_step
  | brelse k => exact h.brelse_step
  | bwrite k => exact h.bwrite_step
  | data k =>
    simp only [accountHandler, cacheHandler]
    refine h.holder_step fun i _ hi hv _ => ⟨m, ?_, h⟩
    rw [h.data k i hi hv]
  | store k f =>
    simp only [accountHandler, cacheHandler]
    refine h.holder_step fun i hk hi hv hrange => ⟨_, rfl, ?_⟩
    rw [h.data k i hi hv]
    exact h.write hk hi hv hrange _
  | copy dst src => exact h.copy_step
  | logAdd k => exact h.logAdd_step
  | markDirty k => exact h.markDirty_step
  | log => exact ⟨m, by rw [← h.log]; rfl, h⟩
  | setLog f =>
    refine ⟨_, rfl, ?_⟩
    rw [h.log]
    exact h.setLog _

lemma ok_of_cache {e : BioOp} {r : e.Ret} (h : Plays a m)
    (hns : ∀ a', accountHandler e a ≠ .error .stray a') (he : cacheHandler e m = .ok r m') :
    ∃ a', accountHandler e a = .ok r a' ∧ Plays a' m' := by
  have hstep := Plays.step e a m h
  cases ha : accountHandler e a with
  | ok r' a' =>
    rw [ha, he] at hstep
    obtain ⟨m₁, hm, hplays⟩ := hstep
    obtain ⟨rfl, rfl⟩ := EStateM.Result.ok.inj hm
    exact ⟨a', rfl, hplays⟩
  | error x a' =>
    rw [ha, he] at hstep
    obtain ⟨m₁, hm, -⟩ := hstep fun hx => hns a' (by rw [ha, hx])
    cases hm

lemma lookup_of_valid (h : Plays a m) {i : Fin NBUF} (hv : (m.buf i).valid = true) :
    m.lookup (m.buf i).key = some i := by
  by_contra hs
  rw [(h.shadow i hs).2.2] at hv
  cases hv

lemma view_eq (h : Plays a m) (hk : k.dev < 2) : m.view k = a.mem k := by
  unfold Machine.view
  cases hf : m.lru.find? fun i => (m.buf i).key = k ∧ (m.buf i).valid = true with
  | some i =>
    obtain ⟨rfl, hv⟩ : (m.buf i).key = k ∧ (m.buf i).valid = true := by
      simpa using List.find?_some hf
    exact h.data _ i (h.lookup_of_valid hv) hv
  | none =>
    -- a block without a valid buffer is neither held nor pinned
    have hun : ¬ (k ∈ a.held ∨ k ∈ a.dirty) := fun hk' => by
      obtain ⟨i, hi, hv⟩ := h.live k hk'
      have := List.find?_eq_none.mp hf i (h.all i)
      simp [Machine.key_of_lookup hi, hv] at this
    simp only [drive_of_lt hk, h.disk k hk, h.mem_eq_disk hk hun]

end Plays

end Xv6
