import Xv6.Log.Code
import Xv6.Bio.Rules
import Mathlib.Data.Finset.Range

/-!
# What the transfers of the log do

`LogArea` is the region of a drive that holds the log: a header block followed by slots.  The
specifications below say, for each function of `log.c`, what it does to the block store, and
which contents of the drives can be seen while it runs.  A program is interrupted between two
disk writes at most, and every disk write here is an `Account.settle`: the current contents of
one block reach the drive.

* `LogArea.Listed` says that a header lists blocks of the drive outside the area, no more than there
  are slots, and `LogArea.Tidy` that the store has such a header in memory and that nobody has the
  blocks of the area pinned or changed.
* `kwp_writeLog`, `kwp_writeHead` and `kwp_installTrans` are the three transfers of a commit, and
  `kwp_readHead` begins a recovery.  `HeaderIs` says that a block is a header on the drive.
* `kwp_commit_pos` puts the transfers of a commit together.

The loops are verified with one rule, `kwp_forLog`: an invariant that is indexed by the number of
turns made.  The order of the writes matters to the proof about crashes in `Xv6.Log.Crash`, which
knows the transfers only by these specifications.
-/

namespace Xv6

open Lib

/-- The part of a drive that holds the log. -/
structure LogArea where
  dev : ℕ
  start : ℕ
  size : ℕ
  dev_lt : dev < 2
  size_pos : 0 < size
  fits : start + size ≤ FSSIZE

namespace LogArea

variable (g : LogArea)

def header : BufRef := ⟨g.dev, g.start⟩

/-- The block that holds the logged copy of entry `i`. -/
def slot (i : ℕ) : BufRef := ⟨g.dev, g.start + i + 1⟩

/-- The block that entry `i` of a header is a copy of. -/
def home (lh : LogHeader) (i : ℕ) : BufRef := ⟨g.dev, lh.block i⟩

/-- The blocks of the area. -/
def Mem (k : BufRef) : Prop := k.dev = g.dev ∧ g.start ≤ k.blockno ∧ k.blockno < g.start + g.size

instance (k : BufRef) : Decidable (g.Mem k) := inferInstanceAs (Decidable (_ ∧ _))

/-- The global `log` after `initlog` has read the superblock. -/
def log (lh : LogHeader) : Log := ⟨g.start, g.size, g.dev, lh⟩

/-- A header whose entries have slots in the area and homes outside of it. -/
structure Listed (lh : LogHeader) : Prop where
  room : lh.n < g.size
  count : lh.n ≤ LOGSIZE
  range : ∀ i < lh.n, lh.block i < FSSIZE
  outside : ∀ i < lh.n, ¬ g.Mem (g.home lh i)

/-- The block store between two steps of the log: `log` lists `lh`, and nobody has the blocks of
the area pinned or changed. -/
structure Tidy (lh : LogHeader) (a : Account) : Prop where
  log : a.log = g.log lh
  present : g.dev ≠ 0 → a.havedisk1 = true
  listed : g.Listed lh
  pend : ∀ k ∈ a.pend, k ∈ a.held
  area : ∀ k, g.Mem k → k ∉ a.dirty ∧ k ∉ a.pend

end LogArea

/-- The contents of a block and of its drive change together. -/
def Account.settle (a : Account) (k : BufRef) (d : Block) : Account :=
  { a with
    mem := Function.update a.mem k d
    disk := Function.update a.disk k d
    dirty := a.dirty.erase k
    pend := a.pend.erase k }

lemma Account.flush_write (a : Account) (k : BufRef) (d : Block) :
    (a.write k d).flush k = a.settle k d := by
  simp only [flush, write, settle, Function.update_self]
  congr 1
  split_ifs
  · rfl
  · exact Finset.erase_insert_eq_erase _ _

/-- The buffers suffice for the blocks `s` and `t` next to those in use. -/
def Account.Room (a : Account) (s t : BufRef) : Prop :=
  (insert s (insert t a.used)).card ≤ NBUF

lemma Account.Room.mono {a a' : Account} {s t : BufRef} (h : a.Room s t)
    (hu : a'.used ⊆ a.used) : a'.Room s t :=
  (Finset.card_le_card (Finset.insert_subset_insert _ (Finset.insert_subset_insert _ hu))).trans h

lemma Account.used_settle_subset (a : Account) (k : BufRef) (d : Block) :
    (a.settle k d).used ⊆ a.used :=
  Finset.union_subset_union_right (Finset.erase_subset _ _)

namespace LogArea

variable {g : LogArea} {lh : LogHeader} {a : Account} {k : BufRef} {i : ℕ}

lemma mem_header : g.Mem g.header :=
  ⟨rfl, le_rfl, Nat.lt_add_of_pos_right g.size_pos⟩

lemma ne_header (hk : ¬ g.Mem k) : k ≠ g.header := fun he => hk (he ▸ mem_header)

lemma mem_slot (hi : i + 1 < g.size) : g.Mem (g.slot i) :=
  ⟨rfl, by simp only [slot]; omega, by simp only [slot]; omega⟩

lemma slot_ne_header : g.slot i ≠ g.header := by
  simp only [slot, header, ne_eq, BufRef.mk.injEq, true_and]
  omega

lemma slot_injective : Function.Injective g.slot := by
  intro i j hij
  simp only [slot, BufRef.mk.injEq, true_and] at hij
  omega

lemma listed_zero (h : lh.n = 0) : g.Listed lh where
  room := h ▸ g.size_pos
  count := h ▸ Nat.zero_le _
  range i hi := absurd hi (by omega)
  outside i hi := absurd hi (by omega)

lemma Listed.turns (h : g.Listed lh) : lh.n ≤ 0 + INTTURNS :=
  h.count.trans (by norm_num)

namespace Tidy

lemma inRange_of_mem (h : g.Tidy lh a) (hk : g.Mem k) : a.InRange k := by
  obtain ⟨hdev, -, hlt⟩ := hk
  refine ⟨hdev ▸ g.dev_lt, fun h0 => h.present (hdev ▸ h0), ?_⟩
  have := g.fits
  omega

lemma inRange_home (h : g.Tidy lh a) (hi : i < lh.n) : a.InRange (g.home lh i) :=
  ⟨g.dev_lt, h.present, h.listed.range i hi⟩

lemma mem_slot (h : g.Tidy lh a) (hi : i < lh.n) : g.Mem (g.slot i) :=
  LogArea.mem_slot (by have := h.listed.room; omega)

lemma slot_ne_home {j : ℕ} (h : g.Tidy lh a) (hi : i < lh.n) (hj : j < lh.n) :
    g.slot i ≠ g.home lh j := fun he =>
  h.listed.outside j hj (he ▸ h.mem_slot hi)

lemma settle (h : g.Tidy lh a) (k : BufRef) (d : Block) : g.Tidy lh (a.settle k d) where
  log := h.log
  present := h.present
  listed := h.listed
  pend k' hk' := h.pend k' (Finset.mem_of_mem_erase hk')
  area k' hk' := ⟨fun hd => (h.area k' hk').1 (Finset.mem_of_mem_erase hd),
    fun hp => (h.area k' hk').2 (Finset.mem_of_mem_erase hp)⟩

end Tidy

end LogArea

/-- The blocks a header lists. -/
def LogArea.homes (g : LogArea) (lh : LogHeader) : Finset BufRef :=
  (Finset.range lh.n).image (g.home lh)

lemma LogArea.mem_homes {g : LogArea} {lh : LogHeader} {k : BufRef} :
    k ∈ g.homes lh ↔ ∃ j < lh.n, k = g.home lh j := by
  simp only [LogArea.homes, Finset.mem_image, Finset.mem_range]
  exact exists_congr fun j => and_congr_right fun _ => eq_comm

lemma LogArea.card_homes_le (g : LogArea) (lh : LogHeader) : (g.homes lh).card ≤ lh.n :=
  Finset.card_image_le.trans (by simp)

/-! ## Absorption -/

namespace LogHeader

variable {lh : LogHeader} {b : ℕ}

lemma add_of_mem (h : ∃ i < lh.n, lh.block i = b) : lh.add b = lh := by
  obtain ⟨i, hi, hb⟩ := h
  cases hf : (List.range lh.n).find? fun i => lh.block i = b with
  | none =>
    have := List.find?_eq_none.mp hf i (List.mem_range.mpr hi)
    simp [hb] at this
  | some j =>
    have hj : j < lh.n := List.mem_range.mp (List.mem_of_find?_eq_some hf)
    have hjb : lh.block j = b := by simpa using List.find?_some hf
    simp only [add, hf, Option.getD_some, if_neg hj.ne]
    rw [← hjb, Function.update_eq_self]

lemma add_of_forall_ne (h : ∀ i < lh.n, lh.block i ≠ b) :
    lh.add b = ⟨lh.n + 1, Function.update lh.block lh.n b⟩ := by
  have hf : ((List.range lh.n).find? fun i => lh.block i = b) = none := by
    rw [List.find?_eq_none]
    intro i hi
    simpa using h i (List.mem_range.mp hi)
  simp only [add, hf, Option.getD_none, if_true]

end LogHeader

lemma LogArea.Listed.add {g : LogArea} {lh : LogHeader} {b : ℕ} (h : g.Listed lh)
    (hfull : ¬ (g.log lh).full) (hb : b < FSSIZE) (hout : ¬ g.Mem ⟨g.dev, b⟩) :
    g.Listed (lh.add b) := by
  by_cases hmem : ∃ i < lh.n, lh.block i = b
  · rwa [LogHeader.add_of_mem hmem]
  · rw [LogHeader.add_of_forall_ne fun i hi he => hmem ⟨i, hi, he⟩]
    simp only [Log.full, LogArea.log, not_or, Nat.not_le] at hfull
    have hcase : ∀ i < lh.n + 1, Function.update lh.block lh.n b i = b ∨
        i < lh.n ∧ Function.update lh.block lh.n b i = lh.block i := fun i hi => by
      by_cases he : i = lh.n
      · exact Or.inl (by rw [he, Function.update_self])
      · exact Or.inr ⟨by omega, Function.update_of_ne he _ _⟩
    refine ⟨by simp only; omega, by simp only; omega, fun i hi => ?_, fun i hi => ?_⟩
    · simp only
      rcases hcase i hi with he | ⟨hi', he⟩
      · rwa [he]
      · rw [he]
        exact h.range i hi'
    · simp only [LogArea.home]
      rcases hcase i hi with he | ⟨hi', he⟩
      · rwa [he]
      · rw [he]
        exact h.outside i hi'

lemma LogArea.homes_add (g : LogArea) (lh : LogHeader) (b : ℕ) :
    g.homes (lh.add b) = insert ⟨g.dev, b⟩ (g.homes lh) := by
  by_cases hmem : ∃ i < lh.n, lh.block i = b
  · rw [LogHeader.add_of_mem hmem, Finset.insert_eq_of_mem]
    obtain ⟨i, hi, rfl⟩ := hmem
    exact LogArea.mem_homes.mpr ⟨i, hi, rfl⟩
  · rw [LogHeader.add_of_forall_ne fun i hi he => hmem ⟨i, hi, he⟩]
    simp only [LogArea.homes, Finset.range_add_one, Finset.image_insert]
    congr 1
    · simp only [LogArea.home, Function.update_self]
    · refine Finset.image_congr fun i hi => ?_
      have hi' : i < lh.n := by simpa using hi
      simp only [LogArea.home, Function.update_of_ne hi'.ne]

/-! ## Loops over the header -/

section Transfers

variable {C : (BufRef → Block) → Finset BufRef → Prop} {A : Halt → Account → FsMem → Prop}
  {a : Account} {fm : FsMem} {g : LogArea} {lh : LogHeader} {i : ℕ}

lemma kwp_forLog {body : ℕ → K Unit} {n : ℕ} (I : ℕ → Account → FsMem → Prop)
    (hI : ∀ i a fm, I i a fm → a.log.lh.n = n ∧ C a.disk a.dirty)
    (hbody : ∀ i < n, ∀ a fm, I i a fm → kwp C A (body i) (fun _ => I (i + 1)) a fm)
    {turns tail : ℕ} (hturns : n ≤ tail + turns) (htail : tail ≤ n) (h0 : I tail a fm) :
    kwp C A (forLog body turns tail) (fun _ => I n) a fm := by
  induction turns generalizing tail a fm with
  | zero =>
    obtain rfl : tail = n := by omega
    exact kwp_ret (hI _ _ _ h0).2 h0
  | succ turns ih =>
    obtain ⟨hn, hC⟩ := hI _ _ _ h0
    refine kwp_getLog rfl hC ?_
    rw [hn]
    split_ifs with hlt
    · refine kwp_seq (hbody tail hlt a fm h0) fun _ a' fm' h' => ?_
      exact ih (by omega) hlt h'
    · obtain rfl : tail = n := by omega
      exact kwp_ret hC h0

/-! ## Transfers -/

lemma kwp_bread_pair {f : BufRef → BufRef → K Unit} {Q : Unit → Account → FsMem → Prop}
    (h : g.Tidy lh a) (hi : i < lh.n) (hC : C a.disk a.dirty)
    (hA : a.Room (g.slot i) (g.home lh i) ∨ (∀ a fm, A (.panic .bgetNoBuffers) a fm))
    (hf : kwp C A (f (g.slot i) (g.home lh i)) Q
      { a with held := g.home lh i :: g.slot i :: a.held } fm) :
    kwp C A (getLog >>= fun log => bread log.dev (log.start + i + 1) >>= fun sbuf =>
      getLog >>= fun log => bread log.dev (log.lh.block i) >>= fun hbuf => f sbuf hbuf)
      Q a fm := by
  refine kwp_getLog h.log hC ?_
  refine kwp_bread_inRange (k := g.slot i) (h.inRange_of_mem (h.mem_slot hi)) hC
    (fun hb => hA.resolve_left (fun hroom => hb ?_) _ _) ?_
  · exact (Finset.card_le_card (Finset.insert_subset_insert _ (Finset.subset_insert _ _))).trans
      hroom
  refine kwp_getLog h.log hC ?_
  refine kwp_bread_inRange (k := g.home lh i) (h.inRange_home hi) hC
    (fun hb => hA.resolve_left (fun hroom => hb ?_) _ _) hf
  refine (Finset.card_le_card fun x hx => ?_).trans hroom
  simp only [Account.used, List.toFinset_cons, Finset.mem_insert, Finset.mem_union] at hx ⊢
  tauto

lemma kwp_installBlock (h : g.Tidy lh a) (hi : i < lh.n) (hC : C a.disk a.dirty)
    (hA : a.Room (g.slot i) (g.home lh i) ∨ (∀ a fm, A (.panic .bgetNoBuffers) a fm))
    (hC' : C (Function.update a.disk (g.home lh i) (a.mem (g.slot i)))
      (a.dirty.erase (g.home lh i))) :
    kwp C A (installBlock i)
      (fun _ a' fm' => a' = a.settle (g.home lh i) (a.mem (g.slot i)) ∧ fm' = fm) a fm := by
  have hne := h.slot_ne_home hi hi
  have hsp := (h.area _ (h.mem_slot hi)).2
  refine kwp_bread_pair h hi hC hA ?_
  refine kwp_bcopy hC (by simp) (by simp) ?_
  refine kwp_bwrite hC (by simp [Account.write]) ?_
  rw [Account.flush_write]
  refine kwp_brelse hC' (by simp [Account.settle]) (by simp [Account.settle, hsp]) ?_
  refine kwp_last (kwp_brelse hC' ?_ (by simp [Account.settle]) (kwp_ret hC' ⟨?_, rfl⟩))
  · simp [Account.settle, List.erase_cons_tail, hne.symm]
  · simp [Account.settle, List.erase_cons_tail, hne.symm]

lemma kwp_logBlock (h : g.Tidy lh a) (hi : i < lh.n) (hC : C a.disk a.dirty)
    (hA : a.Room (g.slot i) (g.home lh i) ∨ (∀ a fm, A (.panic .bgetNoBuffers) a fm))
    (hC' : C (Function.update a.disk (g.slot i) (a.mem (g.home lh i))) a.dirty) :
    kwp C A (logBlock i)
      (fun _ a' fm' => a' = a.settle (g.slot i) (a.mem (g.home lh i)) ∧ fm' = fm) a fm := by
  have hne := h.slot_ne_home hi hi
  have hC'' : C (Function.update a.disk (g.slot i) (a.mem (g.home lh i)))
      (a.dirty.erase (g.slot i)) := by
    rwa [Finset.erase_eq_of_notMem (h.area _ (h.mem_slot hi)).1]
  refine kwp_bread_pair h hi hC hA ?_
  refine kwp_bcopy hC (by simp) (by simp) ?_
  refine kwp_bwrite hC (by simp [Account.write]) ?_
  rw [Account.flush_write]
  refine kwp_brelse hC'' (by simp [Account.settle]) (fun hp => ?_) ?_
  · have hh := h.pend _ (Finset.mem_of_mem_erase hp)
    simp [Account.settle, hh]
  refine kwp_last (kwp_brelse hC'' (by simp [Account.settle]) (by simp [Account.settle])
    (kwp_ret hC'' ⟨?_, rfl⟩))
  simp [Account.settle]

/-- **`write_log()`** copies the current contents of the listed blocks to their slots. -/
lemma kwp_writeLog (h : g.Tidy lh a)
    (hA : ∀ i < lh.n, a.Room (g.slot i) (g.home lh i) ∨ (∀ a fm, A (.panic .bgetNoBuffers) a fm))
    (hC : ∀ d, (∀ k, (∀ j < lh.n, k ≠ g.slot j) → d k = a.disk k) → C d a.dirty) :
    kwp C A writeLog (fun _ a' fm' => g.Tidy lh a' ∧ fm' = fm ∧ a'.held = a.held ∧
      a'.dirty = a.dirty ∧ a'.pend = a.pend ∧ a'.havedisk1 = a.havedisk1 ∧
      (∀ j < lh.n, a'.mem (g.slot j) = a.mem (g.home lh j) ∧
        a'.disk (g.slot j) = a.mem (g.home lh j)) ∧
      ∀ k, (∀ j < lh.n, k ≠ g.slot j) → a'.mem k = a.mem k ∧ a'.disk k = a.disk k) a fm := by
  -- the slots below `i` hold the current contents of their home blocks, in the cache and on the
  -- drive
  let I : ℕ → Account → FsMem → Prop := fun i a' fm' =>
    g.Tidy lh a' ∧ fm' = fm ∧ a'.held = a.held ∧ a'.dirty = a.dirty ∧ a'.pend = a.pend ∧
      a'.havedisk1 = a.havedisk1 ∧
      (∀ j < i, a'.mem (g.slot j) = a.mem (g.home lh j) ∧
        a'.disk (g.slot j) = a.mem (g.home lh j)) ∧
      ∀ k, (∀ j < lh.n, k ≠ g.slot j) → a'.mem k = a.mem k ∧ a'.disk k = a.disk k
  refine kwp_forLog (n := lh.n) I (fun i a' fm' hI => ?_) (fun i hi a' fm' hI => ?_)
    h.listed.turns (Nat.zero_le _) ⟨h, rfl, rfl, rfl, rfl, rfl,
      fun j hj => absurd hj (Nat.not_lt_zero j), fun _ _ => ⟨rfl, rfl⟩⟩
  · obtain ⟨ht, -, -, hd, -, -, -, hframe⟩ := hI
    exact ⟨by rw [ht.log]; rfl, hd ▸ hC _ fun k hk => (hframe k hk).2⟩
  · obtain ⟨ht, rfl, hh, hd, hp, hhd, hslots, hframe⟩ := hI
    have hmem : a'.mem (g.home lh i) = a.mem (g.home lh i) :=
      (hframe _ fun j hj he => h.slot_ne_home hj hi he.symm).1
    have hused : a'.used = a.used := by rw [Account.used, hh, hd, Account.used]
    have hframe' : ∀ k, (∀ j < lh.n, k ≠ g.slot j) → ∀ d,
        Function.update a'.disk (g.slot i) d k = a.disk k := fun k hk d => by
      rw [Function.update_of_ne (hk i hi), (hframe k hk).2]
    refine kwp_mono (kwp_logBlock ht hi (hd ▸ hC _ fun k hk => (hframe k hk).2)
      ((hA i hi).imp_left fun hr => hr.mono hused.subset)
      (hd ▸ hC _ fun k hk => hframe' k hk _)) ?_
    rintro - a'' fm'' ⟨rfl, rfl⟩
    obtain ⟨hsd, hsp⟩ := h.area _ (h.mem_slot hi)
    refine ⟨ht.settle _ _, rfl, hh, ?_, ?_, hhd, fun j hj => ?_,
      fun k hk => ⟨?_, hframe' k hk _⟩⟩
    · simp only [Account.settle, hd, Finset.erase_eq_of_notMem hsd]
    · simp only [Account.settle, hp, Finset.erase_eq_of_notMem hsp]
    · simp only [Account.settle]
      rcases Nat.lt_succ_iff_lt_or_eq.mp hj with hj | rfl
      · have hne : g.slot j ≠ g.slot i := fun he => by
          have := LogArea.slot_injective he
          omega
        rw [Function.update_of_ne hne, Function.update_of_ne hne]
        exact hslots j hj
      · rw [Function.update_self, Function.update_self, hmem]
        exact ⟨rfl, rfl⟩
    · simp only [Account.settle]
      rw [Function.update_of_ne (hk i hi), (hframe k hk).1]

/-- **`install_trans()`** copies the slots to the listed blocks.  Here `c` is what the listed
blocks are to contain. -/
lemma kwp_installTrans {c : BufRef → Block} (h : g.Tidy lh a)
    (hA : ∀ i < lh.n, a.Room (g.slot i) (g.home lh i) ∨ (∀ a fm, A (.panic .bgetNoBuffers) a fm))
    (hc : ∀ j < lh.n, a.mem (g.slot j) = c (g.home lh j))
    (hC : ∀ d dirty, dirty ⊆ a.dirty → (∀ k, d k = a.disk k ∨ k ∈ g.homes lh ∧ d k = c k) →
      C d dirty) :
    kwp C A installTrans (fun _ a' fm' => g.Tidy lh a' ∧ fm' = fm ∧ a'.held = a.held ∧
      a'.dirty = a.dirty \ g.homes lh ∧ a'.pend = a.pend \ g.homes lh ∧
      a'.havedisk1 = a.havedisk1 ∧ (∀ k ∈ g.homes lh, a'.mem k = c k ∧ a'.disk k = c k) ∧
      ∀ k, k ∉ g.homes lh → a'.mem k = a.mem k ∧ a'.disk k = a.disk k) a fm := by
  -- the home blocks of the first `i` entries; a block may be listed twice
  let done : ℕ → Finset BufRef := fun i => (Finset.range i).image (g.home lh)
  have hsucc : ∀ i, done (i + 1) = insert (g.home lh i) (done i) := fun i => by
    simp only [done, Finset.range_add_one, Finset.image_insert]
  have hmem : ∀ j < lh.n, g.home lh j ∈ g.homes lh := fun j hj =>
    LogArea.mem_homes.mpr ⟨j, hj, rfl⟩
  let I : ℕ → Account → FsMem → Prop := fun i a' fm' =>
    g.Tidy lh a' ∧ fm' = fm ∧ a'.held = a.held ∧ a'.dirty = a.dirty \ done i ∧
      a'.pend = a.pend \ done i ∧ a'.havedisk1 = a.havedisk1 ∧
      (∀ k ∈ done i, a'.mem k = c k ∧ a'.disk k = c k) ∧
      (∀ k, a'.disk k = a.disk k ∨ k ∈ g.homes lh ∧ a'.disk k = c k) ∧
      ∀ k, k ∉ g.homes lh → a'.mem k = a.mem k ∧ a'.disk k = a.disk k
  refine kwp_mono (kwp_forLog (n := lh.n) I (fun i a' fm' hI => ?_) (fun i hi a' fm' hI => ?_)
    h.listed.turns (Nat.zero_le _) ⟨h, rfl, rfl, by simp [done], by simp [done], rfl,
      by simp [done], fun _ => Or.inl rfl, fun _ _ => ⟨rfl, rfl⟩⟩) ?_
  · obtain ⟨ht, -, -, hd, -, -, -, hold, -⟩ := hI
    exact ⟨by rw [ht.log]; rfl, hC _ _ (hd ▸ Finset.sdiff_subset) hold⟩
  · obtain ⟨ht, rfl, hh, hd, hp, hhd, hhomes, hold, hframe⟩ := hI
    have hsub : a'.dirty ⊆ a.dirty := hd ▸ Finset.sdiff_subset
    -- slots are not home blocks, so that those still to be copied are as they were
    have hslot : a'.mem (g.slot i) = c (g.home lh i) := by
      rw [(hframe _ fun hs => ?_).1, hc i hi]
      obtain ⟨j, hj, he⟩ := LogArea.mem_homes.mp hs
      exact h.slot_ne_home hi hj he
    have hused : a'.used ⊆ a.used := by
      rw [Account.used, hh, hd, Account.used]
      exact Finset.union_subset_union_right Finset.sdiff_subset
    have hne : ∀ k, k ∉ g.homes lh → k ≠ g.home lh i := fun k hk he => hk (he ▸ hmem i hi)
    -- a crash after this write finds this home block copied, and the others as before
    have hold' : ∀ k, Function.update a'.disk (g.home lh i) (a'.mem (g.slot i)) k = a.disk k ∨
        k ∈ g.homes lh ∧ Function.update a'.disk (g.home lh i) (a'.mem (g.slot i)) k = c k := by
      intro k
      by_cases he : k = g.home lh i
      · subst he
        exact Or.inr ⟨hmem i hi, by rw [Function.update_self, hslot]⟩
      · rw [Function.update_of_ne he]
        exact hold k
    refine kwp_mono (kwp_installBlock ht hi (hC _ _ hsub hold)
      ((hA i hi).imp_left fun hr => hr.mono hused)
      (hC _ _ ((Finset.erase_subset _ _).trans hsub) hold')) ?_
    rintro - a'' fm'' ⟨rfl, rfl⟩
    refine ⟨ht.settle _ _, rfl, hh, ?_, ?_, hhd, fun k hk => ?_, hold',
      fun k hk => ⟨?_, (hold' k).resolve_right fun h => hk h.1⟩⟩
    · simp only [Account.settle, hd, hsucc, Finset.sdiff_insert]
    · simp only [Account.settle, hp, hsucc, Finset.sdiff_insert]
    · simp only [Account.settle, hslot]
      by_cases he : k = g.home lh i
      · rw [he, Function.update_self, Function.update_self]
        exact ⟨rfl, rfl⟩
      · rw [Function.update_of_ne he, Function.update_of_ne he]
        rw [hsucc, Finset.mem_insert] at hk
        exact hhomes k (hk.resolve_left he)
    · simp only [Account.settle]
      rw [Function.update_of_ne (hne k hk), (hframe k hk).1]
  · rintro - a' fm' ⟨ht, hfm, hh, hd, hp, hhd, hhomes, -, hframe⟩
    exact ⟨ht, hfm, hh, hd, hp, hhd, hhomes, hframe⟩

/-! ## The header block -/

/-- A block that holds a given header. -/
def HeaderIs (d : Block) (lh : LogHeader) : Prop :=
  headerN d = lh.n ∧ ∀ i < lh.n, headerBlock d i = lh.block i

lemma headerN_putHeaderN {n : ℕ} (hn : n < 2 ^ 31) (d : Block) : headerN (putHeaderN n d) = n := by
  have h : (putHeaderN n d).le 0 4 = n := by
    rw [putHeaderN, Bytes.le_putLE_same (by norm_num), Nat.mod_eq_of_lt (by omega)]
  rw [headerN, h, if_pos hn]

lemma headerN_putHeaderBlock (i b : ℕ) (d : Block) :
    headerN (putHeaderBlock i b d) = headerN d := by
  have h : (putHeaderBlock i b d).le 0 4 = d.le 0 4 := Bytes.le_putLE_of_disjoint (by omega)
  rw [headerN, h, headerN]

lemma headerBlock_putHeaderBlock {i b : ℕ} (hi : i ≤ LOGSIZE) (hb : b < FSSIZE) (d : Block) :
    headerBlock (putHeaderBlock i b d) i = b := by
  simp only [LOGSIZE, MAXOPBLOCKS, FSSIZE] at hi hb
  rw [headerBlock, putHeaderBlock, Bytes.le_putLE_same (by simp only [BSIZE]; omega)]
  exact Nat.mod_eq_of_lt (by omega)

lemma headerBlock_putHeaderBlock_of_ne {i j b : ℕ} (h : j ≠ i) (d : Block) :
    headerBlock (putHeaderBlock i b d) j = headerBlock d j :=
  Bytes.le_putLE_of_disjoint (by omega)

lemma Account.write_write (a : Account) (k : BufRef) (d d' : Block) :
    (a.write k d).write k d' = a.write k d' := by
  simp only [Account.write, Function.update_idem]
  congr 1
  split_ifs <;> simp

lemma kwp_fillHead (h : g.Tidy lh a)
    (hA : a.Fits g.header ∨ (∀ a fm, A (.panic .bgetNoBuffers) a fm)) (hC : C a.disk a.dirty) :
    kwp C A fillHead (fun b a' fm' => b = g.header ∧ fm' = fm ∧ ∃ d, HeaderIs d lh ∧
      a' = { a with held := g.header :: a.held }.write g.header d) a fm := by
  have hn : lh.n < 2 ^ 31 := lt_of_le_of_lt h.listed.count (by norm_num)
  let b : Account := { a with held := g.header :: a.held }
  let I : ℕ → Account → FsMem → Prop := fun i a' fm' => fm' = fm ∧
    ∃ d, headerN d = lh.n ∧ (∀ j < i, headerBlock d j = lh.block j) ∧ a' = b.write g.header d
  refine kwp_getLog h.log hC ?_
  refine kwp_bread_inRange (k := g.header) (h.inRange_of_mem LogArea.mem_header) hC
    (fun hb => hA.resolve_left hb _ _) ?_
  refine kwp_getLog h.log hC ?_
  refine kwp_bstore hC (by simp) ?_
  refine kwp_seq (M := fun _ => I lh.n) (kwp_forLog (n := lh.n) I (fun i a' fm' hI => ?_)
    (fun i hi a' fm' hI => ?_) h.listed.turns (Nat.zero_le _)
    ⟨rfl, _, headerN_putHeaderN hn _, fun j hj => absurd hj (Nat.not_lt_zero j), rfl⟩) ?_
  · obtain ⟨-, d, -, -, rfl⟩ := hI
    exact ⟨by simp only [Account.write, b, h.log]; rfl, hC⟩
  · obtain ⟨rfl, d, hdn, hdb, rfl⟩ := hI
    refine kwp_getLog h.log hC ?_
    refine kwp_last (kwp_bstore hC (by simp [Account.write, b]) ?_)
    rw [Account.write_write]
    refine kwp_ret hC ⟨rfl, _, ?_, fun j hj => ?_, rfl⟩
    · rw [headerN_putHeaderBlock]
      simpa [Account.write] using hdn
    · simp only [Account.write, Function.update_self]
      by_cases hji : j = i
      · rw [hji]
        exact headerBlock_putHeaderBlock (hi.le.trans h.listed.count) (h.listed.range i hi) _
      · rw [headerBlock_putHeaderBlock_of_ne hji]
        exact hdb j (by omega)
  · rintro - a' fm' ⟨rfl, d, hdn, hdb, rfl⟩
    exact kwp_ret hC ⟨rfl, rfl, d, ⟨hdn, hdb⟩, rfl⟩

/-- **`write_head()`** puts the in-memory header on the drive. -/
lemma kwp_writeHead (h : g.Tidy lh a)
    (hA : a.Fits g.header ∨ (∀ a fm, A (.panic .bgetNoBuffers) a fm)) (hC : C a.disk a.dirty)
    (hC' : ∀ d, HeaderIs d lh → C (Function.update a.disk g.header d) a.dirty) :
    kwp C A writeHead (fun _ a' fm' => fm' = fm ∧
      ∃ d, HeaderIs d lh ∧ a' = a.settle g.header d) a fm := by
  refine kwp_seq (kwp_fillHead h hA hC) ?_
  rintro _ a' fm' ⟨rfl, rfl, d, hd, rfl⟩
  have hC'' : C (Function.update a.disk g.header d) (a.dirty.erase g.header) := by
    rw [Finset.erase_eq_of_notMem (h.area _ LogArea.mem_header).1]
    exact hC' d hd
  refine kwp_bwrite hC (by simp [Account.write]) ?_
  rw [Account.flush_write]
  refine kwp_last (kwp_brelse hC'' (by simp [Account.settle]) (by simp [Account.settle])
    (kwp_ret hC'' ⟨rfl, d, hd, ?_⟩))
  simp [Account.settle]

/-- **`read_head()`** takes over the header of the drive. -/
lemma kwp_readHead (h : g.Tidy lh a) (hfit : a.Fits g.header) (hC : C a.disk a.dirty) :
    kwp C A readHead (fun _ a' fm' => fm' = fm ∧
      ∃ lh', HeaderIs (a.mem g.header) lh' ∧ a' = { a with log := g.log lh' }) a fm := by
  let I : ℕ → Account → FsMem → Prop := fun i a' fm' => fm' = fm ∧
    ∃ bl : ℕ → ℕ, (∀ j < i, bl j = headerBlock (a.mem g.header) j) ∧
      a' = { a with
        held := g.header :: a.held, log := g.log ⟨headerN (a.mem g.header), bl⟩ }
  have hturns : headerN (a.mem g.header) ≤ 0 + INTTURNS := by
    unfold headerN INTTURNS
    split_ifs <;> omega
  refine kwp_getLog h.log hC ?_
  refine kwp_bread_inRange (k := g.header) (h.inRange_of_mem LogArea.mem_header) hC
    (fun hb => absurd hfit hb) ?_
  refine kwp_bdata hC (by simp) ?_
  refine kwp_setLog hC ?_
  refine kwp_seq (M := fun _ => I (headerN (a.mem g.header))) (kwp_forLog I
    (fun i a' fm' hI => ?_) (fun i hi a' fm' hI => ?_) hturns (Nat.zero_le _)
    ⟨rfl, lh.block, fun j hj => absurd hj (Nat.not_lt_zero j), ?_⟩) ?_
  · obtain ⟨-, bl, -, rfl⟩ := hI
    exact ⟨rfl, hC⟩
  · obtain ⟨rfl, bl, hbl, rfl⟩ := hI
    refine kwp_last (kwp_setLog hC (kwp_ret hC ⟨rfl, _, fun j hj => ?_, rfl⟩))
    simp only [LogArea.log]
    by_cases hji : j = i
    · rw [hji, Function.update_self]
    · rw [Function.update_of_ne hji, hbl j (by omega)]
  · rw [h.log]
    rfl
  · rintro - a' fm' ⟨rfl, bl, hbl, rfl⟩
    have hp := (h.area _ LogArea.mem_header).2
    refine kwp_last (kwp_brelse hC (by simp) (fun hk => absurd hk hp) (kwp_ret hC ⟨rfl,
      ⟨headerN (a.mem g.header), bl⟩, ⟨rfl, fun j hj => (hbl j hj).symm⟩, ?_⟩))
    simp

/-! ## Commit -/

lemma LogArea.Tidy.clearCount (h : g.Tidy lh a) :
    g.Tidy { lh with n := 0 } { a with log := { a.log with lh := { a.log.lh with n := 0 } } } where
  log := by rw [h.log]; rfl
  present := h.present
  listed := LogArea.listed_zero rfl
  pend := h.pend
  area := h.area

/-- The common end of `commit` and `recover_from_log`: the transaction is erased from the log. -/
lemma kwp_clear (h : g.Tidy lh a) (hA : a.Fits g.header ∨ (∀ a fm, A (.panic .bgetNoBuffers) a fm))
    (hC : C a.disk a.dirty)
    (hC' : ∀ d, headerN d = 0 → C (Function.update a.disk g.header d) a.dirty) :
    kwp C A (clearCount >>= fun _ => writeHead) (fun _ a' fm' => fm' = fm ∧
      g.Tidy { lh with n := 0 } a' ∧ ∃ d, headerN d = 0 ∧
      a' = { a with log := g.log { lh with n := 0 } }.settle g.header d) a fm := by
  have ht := h.clearCount
  refine kwp_setLog hC (kwp_mono (kwp_writeHead ht hA hC fun d hh => hC' d hh.1) ?_)
  rintro - a' fm' ⟨rfl, d, hh, rfl⟩
  refine ⟨rfl, ht.settle _ _, d, hh.1, ?_⟩
  rw [show { a.log with lh := { a.log.lh with n := 0 } } = g.log { lh with n := 0 } from ht.log]

/-- **`commit()`** of a log with entries.  The three conditions on interruptions are for the time
before the header is written, until it is cleared, and after that. -/
lemma kwp_commit_pos (h : g.Tidy lh a) (hpos : 0 < lh.n)
    (hA : ∀ i < lh.n, a.Room (g.slot i) (g.home lh i) ∨ (∀ a fm, A (.panic .bgetNoBuffers) a fm))
    (hA' : a.Fits g.header ∨ (∀ a fm, A (.panic .bgetNoBuffers) a fm))
    (hC₁ : ∀ d, (∀ k, (∀ j < lh.n, k ≠ g.slot j) → d k = a.disk k) → C d a.dirty)
    (hC₂ : ∀ d dirty, dirty ⊆ a.dirty → HeaderIs (d g.header) lh →
      (∀ j < lh.n, d (g.slot j) = a.mem (g.home lh j)) →
      (∀ k, ¬ g.Mem k → k ∉ g.homes lh → d k = a.disk k) → C d dirty)
    (hC₃ : ∀ d dirty, dirty ⊆ a.dirty → headerN (d g.header) = 0 →
      (∀ k ∈ g.homes lh, d k = a.mem k) → (∀ k, ¬ g.Mem k → k ∉ g.homes lh → d k = a.disk k) →
      C d dirty) :
    kwp C A commit (fun _ a' fm' => fm' = fm ∧ g.Tidy { lh with n := 0 } a' ∧
      a'.held = a.held ∧ a'.dirty = a.dirty \ g.homes lh ∧ a'.pend = a.pend \ g.homes lh ∧
      a'.havedisk1 = a.havedisk1 ∧ headerN (a'.disk g.header) = 0 ∧
      (∀ k, ¬ g.Mem k → a'.mem k = a.mem k) ∧
      (∀ k ∈ g.homes lh, a'.disk k = a.mem k) ∧
      (∀ k, ¬ g.Mem k → k ∉ g.homes lh → a'.disk k = a.disk k) ∧
      ∀ k, g.Mem k → a.mem k = a.disk k → a'.mem k = a'.disk k) a fm := by
  have hhome : ∀ k ∈ g.homes lh, ¬ g.Mem k := fun k hk => by
    obtain ⟨j, hj, rfl⟩ := LogArea.mem_homes.mp hk
    exact h.listed.outside j hj
  refine kwp_getLog h.log (hC₁ _ fun _ _ => rfl) ?_
  rw [if_pos (show (g.log lh).lh.n > 0 from hpos)]
  -- the slots are filled
  refine kwp_seq (kwp_writeLog h hA hC₁) ?_
  rintro - a₁ fm₁ ⟨h₁, rfl, hheld₁, hd₁, hp₁, hhd₁, hslots, hframe⟩
  have hout₁ : ∀ k, ¬ g.Mem k → a₁.mem k = a.mem k ∧ a₁.disk k = a.disk k := fun k hk =>
    hframe k fun j hj he => hk (he ▸ h.mem_slot hj)
  have hused₁ : a₁.used = a.used := by rw [Account.used, hheld₁, hd₁, Account.used]
  have hfits : ∀ a' : Account, a'.used ⊆ a.used →
      a'.Fits g.header ∨ (∀ a fm, A (.panic .bgetNoBuffers) a fm) :=
        fun a' hu => hA'.imp_left fun hf =>
    (Finset.card_le_card (Finset.insert_subset_insert _ hu)).trans hf
  -- the header is written
  refine kwp_seq (kwp_writeHead h₁ (hfits a₁ hused₁.subset)
    (hd₁ ▸ hC₁ _ fun k hk => (hframe k hk).2) fun d hh => hC₂ _ _ hd₁.subset ?_ (fun j hj => ?_)
      fun k hk _ => ?_) ?_
  · rwa [Function.update_self]
  · rw [Function.update_of_ne LogArea.slot_ne_header, (hslots j hj).2]
  · rw [Function.update_of_ne (LogArea.ne_header hk), (hout₁ k hk).2]
  rintro - a₂ fm₂ ⟨rfl, d₂, hh, rfl⟩
  have h₂ := h₁.settle g.header d₂
  have hu₂ := (a₁.used_settle_subset g.header d₂).trans hused₁.subset
  have hout₂ : ∀ k, ¬ g.Mem k → (a₁.settle g.header d₂).mem k = a.mem k ∧
      (a₁.settle g.header d₂).disk k = a.disk k := fun k hk => by
    simp only [Account.settle, Function.update_of_ne (LogArea.ne_header hk)]
    exact hout₁ k hk
  have hslot₂ : ∀ j < lh.n, (a₁.settle g.header d₂).mem (g.slot j) = a.mem (g.home lh j) ∧
      (a₁.settle g.header d₂).disk (g.slot j) = a.mem (g.home lh j) := fun j hj => by
    simp only [Account.settle, Function.update_of_ne LogArea.slot_ne_header]
    exact hslots j hj
  have hdirty₂ : (a₁.settle g.header d₂).dirty ⊆ a.dirty := hd₁ ▸ Finset.erase_subset _ _
  have hC₂' : ∀ d dirty, dirty ⊆ (a₁.settle g.header d₂).dirty →
      (∀ k, k ∉ g.homes lh → d k = (a₁.settle g.header d₂).disk k) →
      C d dirty := fun d dirty hsub hd => by
    refine hC₂ d dirty (hsub.trans hdirty₂) ?_ (fun j hj => ?_) fun k hk hne =>
      (hd k hne).trans (hout₂ k hk).2
    · rw [hd _ fun hk => hhome _ hk LogArea.mem_header]
      simpa [Account.settle] using hh
    · rw [hd _ fun hk => hhome _ hk (h.mem_slot hj), (hslot₂ j hj).2]
  -- the slots are installed
  refine kwp_seq (kwp_installTrans (c := a.mem) h₂
    (fun i hi => (hA i hi).imp_left fun hr => hr.mono hu₂) (fun j hj => (hslot₂ j hj).1)
    fun d dirty hsub hd => hC₂' d dirty hsub fun k hk => (hd k).resolve_right fun h => hk h.1) ?_
  rintro - a₃ fm₃ ⟨h₃, rfl, hheld₃, hd₃, hp₃, hhd₃, hhome₃, hframe₃⟩
  have hu₃ : a₃.used ⊆ a.used := by
    rw [Account.used, hheld₃, hd₃]
    exact (Finset.union_subset_union_right Finset.sdiff_subset).trans hu₂
  have hmem₃ : ∀ k, ¬ g.Mem k → a₃.mem k = a.mem k := fun k hk => by
    by_cases hin : k ∈ g.homes lh
    · exact (hhome₃ k hin).1
    · rw [(hframe₃ k hin).1, (hout₂ k hk).1]
  have hrest₃ : ∀ k, ¬ g.Mem k → k ∉ g.homes lh → a₃.disk k = a.disk k := fun k hk hin => by
    rw [(hframe₃ k hin).2, (hout₂ k hk).2]
  -- and the header is cleared
  have hsub₃ : a₃.dirty ⊆ (a₁.settle g.header d₂).dirty := hd₃ ▸ Finset.sdiff_subset
  refine kwp_mono (kwp_clear h₃ (hfits a₃ hu₃) (hC₂' _ _ hsub₃ fun k hk => (hframe₃ k hk).2)
    fun d hn => hC₃ _ _ (hsub₃.trans hdirty₂) ?_ (fun k hk => ?_) fun k hk hin => ?_) ?_
  · rwa [Function.update_self]
  · rw [Function.update_of_ne (LogArea.ne_header (hhome k hk)), (hhome₃ k hk).2]
  · rw [Function.update_of_ne (LogArea.ne_header hk), hrest₃ k hk hin]
  rintro - a₄ fm₄ ⟨rfl, h₄, d, hn, rfl⟩
  have harea := h.area _ LogArea.mem_header
  refine ⟨rfl, h₄, hheld₃.trans hheld₁, ?_, ?_, hhd₃.trans hhd₁, ?_, fun k hk => ?_, fun k hk => ?_,
    fun k hk hin => ?_, fun k hk he => ?_⟩
  · simp only [Account.settle, hd₃, hd₁]
    rw [Finset.erase_eq_of_notMem harea.1, Finset.erase_eq_of_notMem]
    exact fun hk => harea.1 (Finset.sdiff_subset hk)
  · simp only [Account.settle, hp₃, hp₁]
    rw [Finset.erase_eq_of_notMem harea.2, Finset.erase_eq_of_notMem]
    exact fun hk => harea.2 (Finset.sdiff_subset hk)
  · simpa [Account.settle] using hn
  · simp only [Account.settle, Function.update_of_ne (LogArea.ne_header hk), hmem₃ k hk]
  · simp only [Account.settle, Function.update_of_ne (LogArea.ne_header (hhome k hk)),
      (hhome₃ k hk).2]
  · simp only [Account.settle, Function.update_of_ne (LogArea.ne_header hk), hrest₃ k hk hin]
  · by_cases hhd : k = g.header
    · simp only [Account.settle, hhd, Function.update_self]
    obtain ⟨hm₃, hd₃'⟩ := hframe₃ k fun hin => hhome k hin hk
    simp only [Account.settle, Function.update_of_ne hhd] at hm₃ hd₃' ⊢
    rw [hm₃, hd₃']
    by_cases hsl : ∃ j < lh.n, k = g.slot j
    · obtain ⟨j, hj, rfl⟩ := hsl
      rw [(hslots j hj).1, (hslots j hj).2]
    · obtain ⟨hm₁, hd₁'⟩ := hframe k fun j hj he => hsl ⟨j, hj, he⟩
      rw [hm₁, hd₁', he]

end Transfers

end Xv6
