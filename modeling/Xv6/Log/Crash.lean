import Xv6.Log.Spec

/-!
# Crash atomicity of the redo log

`g.Recovers d c` says of the contents `d` of the drives that a recovery of the log area `g`
would leave the blocks outside the area with the contents `c`: listed blocks get what their
slots hold, all others keep what they have.  The argument is that

* no disk write of `recover_from_log` changes what would be recovered, so that it may be
  interrupted any number of times (`kwp_recoverFromLog`);
* the disk writes of `commit` change it once, when the header is written, and then from the
  contents before the transaction to those after it (`kwp_commit`).

The contents before and after are those of the block store, so the results hold for the buffer
cache as well.  A crash loses the cache and everything else in memory; the kernel then starts
over from `binit` on the drives as they are.
-/

namespace Xv6

open Lib

/-! ## What would be recovered -/

/-- Recovery of the area `g` on drives with contents `d` leaves `c` outside the area: listed blocks
get the contents of their slots, and all others have theirs already.  It is a statement about drives
alone, since a crash leaves nothing else. -/
def LogArea.Recovers (g : LogArea) (d c : BufRef → Block) : Prop :=
  ∃ lh, HeaderIs (d g.header) lh ∧ g.Listed lh ∧
    (∀ i < lh.n, d (g.slot i) = c (g.home lh i)) ∧
    ∀ k : BufRef, k.dev < 2 → ¬ g.Mem k → (∀ i < lh.n, k ≠ g.home lh i) → d k = c k

/-- A header without entries. -/
def LogHeader.empty : LogHeader := ⟨0, fun _ => 0⟩

namespace LogArea

variable {g : LogArea} {lh lh' : LogHeader} {d d' c : BufRef → Block}

lemma Listed.congr (h : g.Listed lh) (hn : lh'.n = lh.n)
    (hb : ∀ i < lh.n, lh'.block i = lh.block i) : g.Listed lh' where
  room := hn ▸ h.room
  count := hn ▸ h.count
  range i hi := by
    rw [hb i (hn ▸ hi)]
    exact h.range i (hn ▸ hi)
  outside i hi := by
    rw [home, hb i (hn ▸ hi)]
    exact h.outside i (hn ▸ hi)

namespace Recovers

lemma of_headerN (hn : headerN (d g.header) = 0)
    (hc : ∀ k : BufRef, k.dev < 2 → ¬ g.Mem k → d k = c k) : g.Recovers d c :=
  ⟨.empty, ⟨hn, fun i hi => absurd hi (Nat.not_lt_zero i)⟩, listed_zero rfl,
    fun i hi => absurd hi (Nat.not_lt_zero i), fun k hd hk _ => hc k hd hk⟩

lemma congr (h : g.Recovers d c) (hd : ∀ k : BufRef, k.dev < 2 → d' k = d k) :
    g.Recovers d' c := by
  obtain ⟨lh, hh, hl, hs, hr⟩ := h
  refine ⟨lh, (hd g.header g.dev_lt).symm ▸ hh, hl, fun i hi => ?_, fun k hk hm hne => ?_⟩
  · rw [hd _ g.dev_lt, hs i hi]
  · rw [hd k hk, hr k hk hm hne]

lemma congr_right {c' : BufRef → Block} (h : g.Recovers d c)
    (hc : ∀ k : BufRef, k.dev < 2 → ¬ g.Mem k → c' k = c k) : g.Recovers d c' := by
  obtain ⟨lh, hh, hl, hs, hr⟩ := h
  refine ⟨lh, hh, hl, fun i hi => ?_, fun k hk hm hne => ?_⟩
  · rw [hs i hi, hc (g.home lh i) g.dev_lt (hl.outside i hi)]
  · rw [hr k hk hm hne, hc k hk hm]

lemma of_headerIs (h : g.Recovers d c) (hh : HeaderIs (d g.header) lh) :
    g.Listed lh ∧ (∀ i < lh.n, d (g.slot i) = c (g.home lh i)) ∧
      ∀ k : BufRef, k.dev < 2 → ¬ g.Mem k → (∀ i < lh.n, k ≠ g.home lh i) → d k = c k := by
  obtain ⟨lh', hh', hl, hs, hr⟩ := h
  have hn : lh.n = lh'.n := hh.1.symm.trans hh'.1
  have hb : ∀ i < lh'.n, lh.block i = lh'.block i := fun i hi =>
    (hh.2 i (hn ▸ hi)).symm.trans (hh'.2 i hi)
  have hhome : ∀ i < lh'.n, g.home lh i = g.home lh' i := fun i hi => by
    rw [home, hb i hi, home]
  refine ⟨hl.congr hn hb, fun i hi => ?_, fun k hk hm hne => hr k hk hm fun i hi => ?_⟩
  · rw [hs i (hn ▸ hi), hhome i (hn ▸ hi)]
  · rw [← hhome i hi]
    exact hne i (hn ▸ hi)

end Recovers

end LogArea

/-! ## Commit and recovery -/

section

variable {C : (BufRef → Block) → Finset BufRef → Prop} {A : Halt → Account → FsMem → Prop}
  {a : Account} {fm : FsMem} {g : LogArea} {lh : LogHeader}

/-- The block store in the middle of a transaction: what differs from the drives is pinned, and
what is pinned is listed. -/
structure LogArea.Books (g : LogArea) (lh : LogHeader) (a : Account) : Prop where
  tidy : g.Tidy lh a
  pend : a.pend = ∅
  dirty : a.dirty ⊆ g.homes lh
  clean : ∀ k, k ∉ a.dirty → a.mem k = a.disk k

/-- The block store between two transactions: the log is empty, in memory and on the drive, and
nobody uses a buffer. -/
structure LogArea.Rests (g : LogArea) (a : Account) : Prop where
  books : ∃ lh, lh.n = 0 ∧ g.Books lh a
  held : a.held = []
  header : headerN (a.disk g.header) = 0

namespace LogArea

/-- While nobody uses a buffer, the log needs no more of them than it has entries, and one. -/
lemma Books.room (h : g.Books lh a) (hheld : a.held = []) (hn : lh.n < NBUF) {s t : BufRef}
    (ht : t = s ∨ t ∈ g.homes lh) : a.Room s t := by
  have hsub : insert s (insert t a.used) ⊆ insert s (g.homes lh) := fun x hx => by
    simp only [Account.used, hheld, List.toFinset_nil, Finset.empty_union,
      Finset.mem_insert] at hx ⊢
    rcases hx with rfl | rfl | hx
    · exact Or.inl rfl
    · exact ht
    · exact Or.inr (h.dirty hx)
  calc (insert s (insert t a.used)).card ≤ (insert s (g.homes lh)).card :=
        Finset.card_le_card hsub
    _ ≤ (g.homes lh).card + 1 := Finset.card_insert_le _ _
    _ ≤ lh.n + 1 := Nat.add_le_add_right (g.card_homes_le lh) 1
    _ ≤ NBUF := hn

lemma Rests.dirty_eq_empty (h : g.Rests a) : a.dirty = ∅ := by
  obtain ⟨lh, hn, hb⟩ := h.books
  refine Finset.subset_empty.mp (hb.dirty.trans fun k hk => ?_)
  obtain ⟨j, hj, -⟩ := mem_homes.mp hk
  omega

lemma Rests.mem_eq_disk (h : g.Rests a) (k : BufRef) : a.mem k = a.disk k := by
  obtain ⟨lh, -, hb⟩ := h.books
  exact hb.clean k (by simp [h.dirty_eq_empty])

lemma Rests.recovers (h : g.Rests a) : g.Recovers a.disk a.mem :=
  .of_headerN h.header fun k _ _ => (h.mem_eq_disk k).symm

lemma rests_init {d : BufRef → Block} {havedisk1 : Bool} (hpres : g.dev ≠ 0 → havedisk1 = true)
    (hzero : headerN (d g.header) = 0) :
    g.Rests (Account.init d havedisk1 (g.log .empty)) where
  books := ⟨.empty, rfl, ⟨rfl, hpres, listed_zero rfl,
    fun k hk => absurd hk (Finset.notMem_empty k),
    fun k _ => ⟨Finset.notMem_empty k, Finset.notMem_empty k⟩⟩, rfl, Finset.empty_subset _,
    fun _ _ => rfl⟩
  held := rfl
  header := hzero

end LogArea

/-- **`commit()`** takes the drives from the contents they had to the current contents of the
store, in one disk write. -/
lemma kwp_commit (h : g.Books lh a) (hheld : a.held = [])
    (hzero : headerN (a.disk g.header) = 0)
    (hA : NBUF ≤ lh.n → (∀ a fm, A (.panic .bgetNoBuffers) a fm))
    (hC : ∀ d dirty, dirty ⊆ a.dirty → (∀ k, ¬ g.Mem k → k ∉ g.homes lh → d k = a.disk k) →
      g.Recovers d a.disk ∨ g.Recovers d a.mem → C d dirty) :
    kwp C A commit (fun _ a' fm' => fm' = fm ∧ g.Rests a' ∧
      ∀ k, ¬ g.Mem k → a'.mem k = a.mem k) a fm := by
  have hclean : ∀ k, k ∉ g.homes lh → a.disk k = a.mem k := fun k hk =>
    (h.clean k fun hd => hk (h.dirty hd)).symm
  -- an empty transaction writes nothing
  rcases Nat.eq_zero_or_pos lh.n with hn | hpos
  · have hold : C a.disk a.dirty :=
      hC _ _ subset_rfl (fun _ _ _ => rfl) (Or.inl (.of_headerN hzero fun _ _ _ => rfl))
    refine kwp_getLog h.tidy.log hold ?_
    rw [if_neg (show ¬ (g.log lh).lh.n > 0 by simp [LogArea.log, hn])]
    exact kwp_ret hold ⟨rfl, ⟨⟨lh, hn, h⟩, hheld, hzero⟩, fun _ _ => rfl⟩
  have hA' : ∀ s t, t = s ∨ t ∈ g.homes lh → a.Room s t ∨
      (∀ a fm, A (.panic .bgetNoBuffers) a fm) :=
    fun s t ht => (Nat.lt_or_ge lh.n NBUF).imp (fun hn => h.room hheld hn ht) hA
  refine kwp_mono (kwp_commit_pos h.tidy hpos
    (fun i hi => hA' _ _ (Or.inr (LogArea.mem_homes.mpr ⟨i, hi, rfl⟩)))
    ((hA' g.header g.header (Or.inl rfl)).imp_left fun hr => ?_)
    (fun d hd => hC _ _ subset_rfl (fun k hk _ => hd k fun j hj he => hk (he ▸ h.tidy.mem_slot hj))
      (Or.inl ?_)) (fun d dirty hsub hh hs hd => hC _ _ hsub hd (Or.inr ?_))
    fun d dirty hsub hn hhome hd => hC _ _ hsub hd (Or.inr ?_)) ?_
  · simpa [Account.Room, Account.Fits] using hr
  -- while the slots are written, the header on the drive is still empty
  · refine .of_headerN ?_ fun k _ hk => hd k fun j hj he => hk (he ▸ h.tidy.mem_slot hj)
    rwa [hd _ fun j _ he => LogArea.slot_ne_header he.symm]
  -- from the write of the header on, the slots count and not the home blocks
  · refine ⟨lh, hh, h.tidy.listed, hs, fun k _ hk hne => ?_⟩
    have hk' : k ∉ g.homes lh := fun hk' => by
      obtain ⟨j, hj, he⟩ := LogArea.mem_homes.mp hk'
      exact hne j hj he
    rw [hd k hk hk', hclean k hk']
  -- when the header is cleared again, all home blocks have been written
  · refine .of_headerN hn fun k _ hk => ?_
    by_cases hin : k ∈ g.homes lh
    · exact hhome k hin
    · rw [hd k hk hin, hclean k hin]
  · rintro - a' fm' ⟨rfl, ht, hheld', hd', hp', -, hn', hmem, hhome, hdisk, harea⟩
    have hdirty : a'.dirty = ∅ := by rw [hd', Finset.sdiff_eq_empty_iff_subset]; exact h.dirty
    refine ⟨rfl, ⟨⟨_, rfl, ht, ?_, by simp [hdirty], fun k _ => ?_⟩, hheld'.trans hheld, hn'⟩, hmem⟩
    · rw [hp', h.pend, Finset.empty_sdiff]
    · by_cases hk : g.Mem k
      · exact harea k hk (h.clean k (h.tidy.area k hk).1)
      · by_cases hin : k ∈ g.homes lh
        · rw [hmem k hk, hhome k hin]
        · rw [hmem k hk, hdisk k hk hin, hclean k hin]

/-- **`recover_from_log()`**, on a freshly booted machine, never changes what would be recovered,
and returns with an empty log and the recovered contents in place.  On the way each block outside
the area holds either what it held before or what is recovered. -/
lemma kwp_recoverFromLog {d c : BufRef → Block} {havedisk1 : Bool}
    (hpres : g.dev ≠ 0 → havedisk1 = true) (h : g.Recovers d c)
    (hC : ∀ d', g.Recovers d' c →
      (∀ k : BufRef, k.dev < 2 → ¬ g.Mem k → d' k = d k ∨ d' k = c k) → C d' ∅) :
    kwp C (fun _ _ _ => False) recoverFromLog
      (fun _ a' fm' => fm' = fm ∧ g.Rests a' ∧
        ∀ k : BufRef, k.dev < 2 → ¬ g.Mem k → a'.disk k = c k)
      (Account.init d havedisk1 (g.log .empty)) fm := by
  let b : LogHeader → Account := fun lh => Account.init d havedisk1 (g.log lh)
  have hb : ∀ lh, g.Listed lh → g.Tidy lh (b lh) := fun lh hl =>
    ⟨rfl, hpres, hl, fun k hk => absurd hk (Finset.notMem_empty k),
      fun k _ => ⟨Finset.notMem_empty k, Finset.notMem_empty k⟩⟩
  have hfits : ∀ a' : Account, a'.used = ∅ → a'.Fits g.header := fun a' hu => by
    simpa [Account.Fits, hu] using show 1 ≤ NBUF by norm_num
  refine kwp_seq (kwp_readHead (hb .empty (LogArea.listed_zero rfl)) (hfits _ rfl)
    (hC d h fun _ _ _ => Or.inl rfl)) ?_
  rintro - a₁ fm₁ ⟨rfl, lh, hh, rfl⟩
  obtain ⟨hl, hs, hr⟩ := h.of_headerIs hh
  have h₁ := hb lh hl
  have hnot : ∀ k, (∀ j < lh.n, k ≠ g.home lh j) ↔ k ∉ g.homes lh := fun k => by
    rw [LogArea.mem_homes]
    push Not
    rfl
  -- as long as only home blocks change, the header and the slots say the same as before
  have hsame : ∀ d', (∀ k, k ∉ g.homes lh → d' k = d k) → g.Recovers d' c := by
    intro d' hd'
    refine ⟨lh, ?_, hl, fun i hi => ?_, fun k hk hm hne => ?_⟩
    · rw [hd' _ ((hnot _).mp fun j hj he => hl.outside j hj (he ▸ LogArea.mem_header))]
      exact hh
    · rw [hd' _ ((hnot _).mp fun j hj => h₁.slot_ne_home hi hj), hs i hi]
    · rw [hd' k ((hnot k).mp hne), hr k hk hm hne]
  -- while `install_trans` runs, some home blocks have been copied and others not
  have hmid : ∀ d', (∀ k, d' k = d k ∨ k ∈ g.homes lh ∧ d' k = c k) → C d' ∅ := fun d' hd' =>
    hC d' (hsame d' fun k hk => (hd' k).resolve_right fun h => hk h.1)
      fun k _ _ => (hd' k).imp_right And.right
  refine kwp_seq (kwp_installTrans (a := b lh) (c := c) h₁ (fun i hi => Or.inl ?_) hs
    fun d' dirty hsub hd' => Finset.subset_empty.mp hsub ▸ hmid d' hd') ?_
  · exact Finset.card_le_two.trans (by norm_num)
  rintro - a₂ fm₂ ⟨h₂, rfl, hheld₂, hd₂, hp₂, -, hhome₂, hframe₂⟩
  have hd₂ : a₂.dirty = ∅ := hd₂.trans (Finset.empty_sdiff _)
  have hp₂ : a₂.pend = ∅ := hp₂.trans (Finset.empty_sdiff _)
  have hheld₂ : a₂.held = [] := hheld₂
  have hdisk₂ : ∀ k : BufRef, k.dev < 2 → ¬ g.Mem k → a₂.disk k = c k := by
    intro k hk hm
    by_cases hin : k ∈ g.homes lh
    · exact (hhome₂ k hin).2
    · exact (hframe₂ k hin).2.trans (hr k hk hm ((hnot k).mpr hin))
  have hclean₂ : ∀ k, a₂.mem k = a₂.disk k := fun k => by
    by_cases hin : k ∈ g.homes lh
    · rw [(hhome₂ k hin).1, (hhome₂ k hin).2]
    · rw [(hframe₂ k hin).1, (hframe₂ k hin).2]
      rfl
  -- all of them have been copied when the header is cleared, so that it does not matter any more
  have hfinal : ∀ d' k, k.dev < 2 → ¬ g.Mem k → Function.update a₂.disk g.header d' k = c k :=
    fun d' k hk hm => by rw [Function.update_of_ne (LogArea.ne_header hm), hdisk₂ k hk hm]
  refine kwp_mono (kwp_clear h₂ (Or.inl (hfits _ (by simp [Account.used, hd₂, hheld₂]))) ?_
    fun d' hn => ?_) ?_
  · rw [hd₂]
    refine hmid _ fun k => ?_
    by_cases hin : k ∈ g.homes lh
    · exact Or.inr ⟨hin, (hhome₂ k hin).2⟩
    · exact Or.inl (hframe₂ k hin).2
  · rw [hd₂]
    refine hC _ (.of_headerN ?_ (hfinal d')) fun k hk hm => Or.inr (hfinal d' k hk hm)
    rwa [Function.update_self]
  rintro - a₃ fm₃ ⟨rfl, h₃, d₃, hn, rfl⟩
  refine ⟨rfl, ⟨⟨_, rfl, h₃, ?_, ?_, fun k _ => ?_⟩, hheld₂, ?_⟩, fun k hk hm => ?_⟩
  · simp [Account.settle, hp₂]
  · simp [Account.settle, hd₂]
  · by_cases hk : k = g.header
    · simp [Account.settle, hk]
    · simpa [Account.settle, Function.update_of_ne hk] using hclean₂ k
  · simpa [Account.settle] using hn
  · simp only [Account.settle, Function.update_of_ne (LogArea.ne_header hm)]
    exact hdisk₂ k hk hm

end

end Xv6
