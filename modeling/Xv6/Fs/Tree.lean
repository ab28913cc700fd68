import Xv6.Fs.Path
import Xv6.Lib.Links
import Mathlib.Order.Interval.Finset.Nat

/-!
# The directory tree

There are no hard links in this kernel: a node other than the root is named by exactly one entry,
besides the `.` and `..` of directories.  `σ.Tree N` says that the nodes with a link count form a
tree in this way, that every directory starts with its two dot entries, that no two entries in use
of a directory have the same name, and that the link counts are right: one for a file, and one more
than the number of subdirectories for a directory.  A node with no links is not part of the tree; it
lives on until its last reference is dropped, and of it the tree only says that the names in it, if
it is a directory, are still distinct.

The tree changes in four ways: an entry is added together with the node it names (`Tree.add`), an
entry is cleared and its node cut off (`Tree.remove`), a node that has been cut off is freed, and a
file is written (`Tree.keep`).

Acyclicity and reachability are those of `Lib.Rooted`, with positions of entries for labels.  For
each of the changes there is a structure that says what the operation does to the nodes (`Adds`,
`Removes`, `Keeps`), a series of lemmas that compute slots, links and subdirectories afterwards, and
one that puts them together.
-/

namespace Xv6

open Lib

/-! ## The tree of the nodes -/

namespace Nodes

variable (σ : Nodes)

/-- The node has a link. -/
def Att (i : ℕ) : Prop := ∃ n, σ i = some n ∧ 0 < n.nlink

/-- A directory with a link. -/
def DirAt (i : ℕ) : Prop := ∃ n, σ i = some n ∧ n.type = T_DIR ∧ 0 < n.nlink

/-- Entry `k` of a directory with a link. -/
def slot (i k : ℕ) : Option Dirent :=
  (σ i).bind fun n => if n.type = T_DIR ∧ 0 < n.nlink then n.entries[k]? else none

/-- Entry `k` of the directory `p`, which is none of the first two, names `c`. -/
def Link (p k c : ℕ) : Prop := 2 ≤ k ∧ c ≠ 0 ∧ ∃ name, σ.slot p k = some ⟨c, name⟩

open Classical in
/-- The subdirectories of a directory. -/
noncomputable def subdirs (N i : ℕ) : Finset ℕ :=
  (Finset.range N).filter fun c => σ.DirAt c ∧ ∃ k, σ.Link i k c

/-- The nodes form a directory tree, with numbers below `N`.  `rooted` is the tree itself, on nodes
with a link count; the other fields say how it is written down: dots first, no name twice, and the
link count of a directory one more than the number of its subdirectories. -/
structure Tree (N : ℕ) : Prop where
  pos : ∀ {i n}, σ i = some n → 0 < i
  lt : ∀ {i n}, σ i = some n → i < N
  root : σ.DirAt ROOTINO
  rooted : Rooted σ.Att σ.Link ROOTINO
  isDir : ∀ {i n}, σ i = some n → n.type = T_DIR → 0 < n.nlink → n.IsDir
  dot : ∀ {i}, σ.DirAt i → σ.slot i 0 = some ⟨i, Xv6.dot⟩
  dotdot : ∀ {i}, σ.DirAt i → ∃ p, σ.slot i 1 = some ⟨p, Xv6.dotdot⟩ ∧
    (i = ROOTINO ∧ p = ROOTINO ∨ ∃ k, σ.Link p k i)
  names : ∀ {i n} {j k : ℕ} {e e' : Dirent}, σ i = some n → n.type = T_DIR →
    n.entries[j]? = some e → n.entries[k]? = some e' → e.inum ≠ 0 → e'.inum ≠ 0 →
    e.name = e'.name → j = k
  nonneg : ∀ {i n}, σ i = some n → 0 ≤ n.nlink
  file : ∀ {i n}, σ i = some n → n.type ≠ T_DIR → n.nlink ≤ 1
  nlink : ∀ {i n}, σ i = some n → n.type = T_DIR → 0 < n.nlink →
    n.nlink = 1 + (σ.subdirs N i).card

end Nodes

section

variable {σ σ' : Nodes} {N i j k p c : ℕ} {n nc : Node} {e : Dirent} {name : Name}

namespace Nodes

lemma DirAt.att (h : σ.DirAt i) : σ.Att i := by
  obtain ⟨n, hn, -, hl⟩ := h
  exact ⟨n, hn, hl⟩

lemma slot_of (hn : σ i = some n) (ht : n.type = T_DIR) (hl : 0 < n.nlink) :
    σ.slot i k = n.entries[k]? := by
  rw [slot, hn, Option.bind_some, if_pos ⟨ht, hl⟩]

lemma slot_of_not (hn : ∀ n, σ i = some n → ¬ (n.type = T_DIR ∧ 0 < n.nlink)) :
    σ.slot i k = none := by
  rw [slot]
  cases h : σ i with
  | none => rfl
  | some n => exact if_neg (hn n h)

lemma slot_congr (h : σ' i = σ i) : σ'.slot i k = σ.slot i k := by
  rw [slot, h, slot]

lemma exists_of_slot (h : σ.slot i k = some e) :
    ∃ n, σ i = some n ∧ n.type = T_DIR ∧ 0 < n.nlink ∧ n.entries[k]? = some e := by
  obtain ⟨n, hn, he⟩ := Option.bind_eq_some_iff.mp h
  split_ifs at he with hd
  exact ⟨n, hn, hd.1, hd.2, he⟩

lemma DirAt.of_slot (h : σ.slot i k = some e) : σ.DirAt i := by
  obtain ⟨n, hn, ht, hl, -⟩ := exists_of_slot h
  exact ⟨n, hn, ht, hl⟩

lemma Link.dirAt (h : σ.Link p k c) : σ.DirAt p := by
  obtain ⟨-, -, name, hs⟩ := h
  exact .of_slot hs

lemma link_of_slot (hs : σ.slot i k = some e) (hk : 2 ≤ k) (he : e.inum ≠ 0) :
    σ.Link i k e.inum := ⟨hk, he, e.name, hs⟩

lemma mem_subdirs : c ∈ σ.subdirs N i ↔ c < N ∧ σ.DirAt c ∧ ∃ k, σ.Link i k c := by
  simp [subdirs]

namespace Tree

variable (h : σ.Tree N)

include h

lemma slot_names {e' : Dirent} (hs : σ.slot i j = some e) (hs' : σ.slot i k = some e')
    (hz : e.inum ≠ 0) (hz' : e'.inum ≠ 0) (he : e.name = e'.name) : j = k := by
  obtain ⟨n, hn, ht, hl, hj⟩ := exists_of_slot hs
  exact h.names hn ht hj ((slot_of hn ht hl).symm.trans hs') hz hz' he

lemma att_of_slot (hs : σ.slot i k = some e) (he : e.inum ≠ 0) : σ.Att e.inum := by
  have hd : σ.DirAt i := .of_slot hs
  match k, hs with
  | 0, hs =>
    obtain rfl := Option.some.inj ((h.dot hd).symm.trans hs)
    exact hd.att
  | 1, hs =>
    obtain ⟨p, hp, hcase⟩ := h.dotdot hd
    obtain rfl := Option.some.inj (hp.symm.trans hs)
    rcases hcase with ⟨-, rfl⟩ | ⟨k, hl⟩
    · exact h.root.att
    · exact hl.dirAt.att
  | k + 2, hs => exact h.rooted.target (link_of_slot hs (by omega) he)

lemma linked : σ.Linked where
  root := h.root
  dir := fun {i n} hn ht hl => by
    refine ⟨h.isDir hn ht hl, fun e he hz => ?_⟩
    obtain ⟨k, hk⟩ := List.mem_iff_getElem?.mp he
    exact h.att_of_slot ((slot_of hn ht hl).trans hk) hz

lemma nlink_of_file (hn : σ i = some n) (ht : n.type ≠ T_DIR) (hl : 0 < n.nlink) : n.nlink = 1 := by
  have := h.file hn ht
  omega

lemma nlink_of_leaf (hn : σ i = some n) (ht : n.type = T_DIR) (hl : 0 < n.nlink)
    (hleaf : ∀ k c, ¬ σ.Link i k c) : n.nlink = 1 := by
  have hempty : σ.subdirs N i = ∅ := by
    refine Finset.eq_empty_of_forall_notMem fun c hc => ?_
    obtain ⟨-, -, k, hk⟩ := mem_subdirs.mp hc
    exact hleaf k c hk
  rw [h.nlink hn ht hl, hempty]
  rfl

lemma nlink_le (hn : σ i = some n) : n.nlink ≤ N := by
  have hi := h.lt hn
  by_cases ht : n.type = T_DIR
  · by_cases hl : 0 < n.nlink
    · rw [h.nlink hn ht hl]
      -- the directory is none of its subdirectories
      have hsub : σ.subdirs N i ⊆ (Finset.range N).erase i := fun c hc => by
        obtain ⟨hlt, -, k, hk⟩ := mem_subdirs.mp hc
        exact Finset.mem_erase.mpr ⟨(h.rooted.irrefl hk).symm, Finset.mem_range.mpr hlt⟩
      have hcard := Finset.card_le_card hsub
      rw [Finset.card_erase_of_mem (Finset.mem_range.mpr hi), Finset.card_range] at hcard
      omega
    · omega
  · have := h.file hn ht
    omega

lemma freeSlot_le (hn : σ i = some n) (ht : n.type = T_DIR) (hl : 0 < n.nlink) :
    freeSlot n.entries ≤ N := by
  have hlink : ∀ j, j < freeSlot n.entries → 2 ≤ j → ∃ c, σ.Link i j c := fun j hj h2 => by
    obtain ⟨e, he, hz⟩ := inum_of_lt_freeSlot hj
    exact ⟨_, link_of_slot ((slot_of hn ht hl).trans he) h2 hz⟩
  choose! f hf using hlink
  have hroot : 2 ≤ N := by
    obtain ⟨m, hm, -⟩ := h.root
    exact h.lt hm
  -- entries in use behind the dots name different nodes, and neither 0 nor the root
  have hcard : (Finset.Ico 2 (freeSlot n.entries)).card ≤ (Finset.Ico 2 N).card := by
    refine Finset.card_le_card_of_injOn f (fun j hj => ?_) fun j hj j' hj' he => ?_
    · obtain ⟨h2, hlt⟩ := Finset.mem_Ico.mp hj
      have hl' := hf j hlt h2
      obtain ⟨m, hm, -⟩ := h.rooted.target hl'
      have h0 := h.pos hm
      have h1 : f j ≠ ROOTINO := fun he => h.rooted.not_root (he ▸ hl')
      have hN := h.lt hm
      exact Finset.mem_coe.mpr (Finset.mem_Ico.mpr ⟨by simp only [ROOTINO] at h1; omega, hN⟩)
    · obtain ⟨h2, hlt⟩ := Finset.mem_Ico.mp hj
      obtain ⟨h2', hlt'⟩ := Finset.mem_Ico.mp hj'
      exact (h.rooted.unique (hf j hlt h2) (he ▸ hf j' hlt' h2')).2
  rw [Nat.card_Ico, Nat.card_Ico] at hcard
  omega

end Tree

/-! ## Nodes outside the tree, and the contents of files -/

/-- The nodes with a link keep all that matters to the tree, and no node is new. -/
structure Keeps (σ σ' : Nodes) : Prop where
  back : ∀ {i n'}, σ' i = some n' → ∃ n, σ i = some n ∧ n'.type = n.type ∧ n'.nlink = n.nlink ∧
    (n.type = T_DIR → n'.data = n.data)
  stay : ∀ {i n}, σ i = some n → 0 < n.nlink → ∃ n', σ' i = some n'

namespace Keeps

lemma forth (hk : Keeps σ σ') (hn : σ i = some n) (hl : 0 < n.nlink) :
    ∃ n', σ' i = some n' ∧ n'.type = n.type ∧ n'.nlink = n.nlink ∧
      (n.type = T_DIR → n'.data = n.data) := by
  obtain ⟨n', hn'⟩ := hk.stay hn hl
  obtain ⟨m, hm, hrest⟩ := hk.back hn'
  obtain rfl := Option.some.inj (hn.symm.trans hm)
  exact ⟨n', hn', hrest⟩

lemma att (hk : Keeps σ σ') (i : ℕ) : σ'.Att i ↔ σ.Att i := by
  constructor
  · rintro ⟨n', hn', hl⟩
    obtain ⟨n, hn, -, hnl, -⟩ := hk.back hn'
    exact ⟨n, hn, hnl ▸ hl⟩
  · rintro ⟨n, hn, hl⟩
    obtain ⟨n', hn', -, hnl, -⟩ := hk.forth hn hl
    exact ⟨n', hn', hnl ▸ hl⟩

lemma dirAt (hk : Keeps σ σ') (i : ℕ) : σ'.DirAt i ↔ σ.DirAt i := by
  constructor
  · rintro ⟨n', hn', ht, hl⟩
    obtain ⟨n, hn, ht', hnl, -⟩ := hk.back hn'
    exact ⟨n, hn, ht' ▸ ht, hnl ▸ hl⟩
  · rintro ⟨n, hn, ht, hl⟩
    obtain ⟨n', hn', ht', hnl, -⟩ := hk.forth hn hl
    exact ⟨n', hn', ht' ▸ ht, hnl ▸ hl⟩

lemma slot (hk : Keeps σ σ') (i k : ℕ) : σ'.slot i k = σ.slot i k := by
  by_cases hd : σ.DirAt i
  · obtain ⟨n, hn, ht, hl⟩ := hd
    obtain ⟨n', hn', ht', hnl, hdata⟩ := hk.forth hn hl
    rw [slot_of hn ht hl, slot_of hn' (ht'.trans ht) (hnl ▸ hl), Node.entries,
      hdata ht, Node.entries]
  · rw [slot_of_not fun n hn hn' => hd ⟨n, hn, hn'⟩,
      slot_of_not fun n hn hn' => hd ((hk.dirAt i).mp ⟨n, hn, hn'⟩)]

lemma link (hk : Keeps σ σ') (p k c : ℕ) : σ'.Link p k c ↔ σ.Link p k c := by
  simp only [Link, hk.slot]

lemma subdirs (hk : Keeps σ σ') (N i : ℕ) : σ'.subdirs N i = σ.subdirs N i := by
  ext c
  simp only [mem_subdirs, hk.dirAt, hk.link]

end Keeps

/-- **Freeing a node without links and writing a file leave the tree alone.** -/
lemma Tree.keep (h : σ.Tree N) (hk : Keeps σ σ') : σ'.Tree N where
  pos hn' := by
    obtain ⟨n, hn, -⟩ := hk.back hn'
    exact h.pos hn
  lt hn' := by
    obtain ⟨n, hn, -⟩ := hk.back hn'
    exact h.lt hn
  root := (hk.dirAt _).mpr h.root
  rooted := h.rooted.congr hk.att hk.link
  isDir hn' ht hl := by
    obtain ⟨n, hn, ht', hnl, hdata⟩ := hk.back hn'
    have ht'' := ht'.symm.trans ht
    exact ⟨ht, hdata ht'' ▸ (h.isDir hn ht'' (hnl ▸ hl)).whole⟩
  dot hd := by
    rw [hk.slot]
    exact h.dot ((hk.dirAt _).mp hd)
  dotdot hd := by
    obtain ⟨p, hp, hcase⟩ := h.dotdot ((hk.dirAt _).mp hd)
    exact ⟨p, (hk.slot _ _).trans hp, hcase.imp_right fun ⟨k, hl⟩ => ⟨k, (hk.link _ _ _).mpr hl⟩⟩
  names hn' ht h₁ h₂ := by
    obtain ⟨n, hn, ht', -, hdata⟩ := hk.back hn'
    have ht'' := ht'.symm.trans ht
    rw [Node.entries, hdata ht''] at h₁ h₂
    exact h.names hn ht'' h₁ h₂
  nonneg hn' := by
    obtain ⟨n, hn, -, hnl, -⟩ := hk.back hn'
    exact hnl ▸ h.nonneg hn
  file hn' ht := by
    obtain ⟨n, hn, ht', hnl, -⟩ := hk.back hn'
    exact hnl ▸ h.file hn (ht' ▸ ht)
  nlink hn' ht hl := by
    obtain ⟨n, hn, ht', hnl, -⟩ := hk.back hn'
    rw [hk.subdirs, hnl]
    exact h.nlink hn (ht' ▸ ht) (hnl ▸ hl)

lemma keeps_free (hn : σ i = some n) (hl : n.nlink = 0) : Keeps σ (Function.update σ i none) where
  back := fun {j n'} hn' => by
    have hne : j ≠ i := by
      rintro rfl
      rw [Function.update_self] at hn'
      cases hn'
    rw [Function.update_of_ne hne] at hn'
    exact ⟨n', hn', rfl, rfl, fun _ => rfl⟩
  stay := fun {j m} hm hpos => by
    have hne : j ≠ i := by
      rintro rfl
      obtain rfl := Option.some.inj (hm.symm.trans hn)
      omega
    exact ⟨m, (Function.update_of_ne hne _ _).trans hm⟩

lemma keeps_data (hn : σ i = some n) (ht : n.type ≠ T_DIR) (data : List UInt8) :
    Keeps σ (Function.update σ i (some { n with data := data })) where
  back := fun {j n'} hn' => by
    by_cases hne : j = i
    · subst hne
      rw [Function.update_self] at hn'
      obtain rfl := Option.some.inj hn'
      exact ⟨n, hn, rfl, rfl, fun h => absurd h ht⟩
    · rw [Function.update_of_ne hne] at hn'
      exact ⟨n', hn', rfl, rfl, fun _ => rfl⟩
  stay := fun {j m} hm _ => by
    by_cases hne : j = i
    · subst hne
      exact ⟨_, Function.update_self ..⟩
    · exact ⟨m, (Function.update_of_ne hne _ _).trans hm⟩

/-! ## A new node -/

/-- The nodes `σ'` are the nodes `σ` and a new node `nc`, named in entry `k` of the directory
`p`. -/
structure Adds (N : ℕ) (σ σ' : Nodes) (p k c : ℕ) (name : Name) (nc : Node) : Prop where
  old : σ c = none
  pos : 0 < c
  lt : c < N
  two_le : 2 ≤ k
  free : ∀ e, σ.slot p k = some e → e.inum = 0
  fresh : ∀ j e, σ.slot p j = some e → e.inum ≠ 0 → e.name ≠ name
  new : σ' c = some nc
  nlink : nc.nlink = 1
  dots : nc.type = T_DIR → nc.IsDir ∧ nc.entries = [⟨c, Xv6.dot⟩, ⟨p, Xv6.dotdot⟩]
  parent : ∃ np np', σ p = some np ∧ np.type = T_DIR ∧ 0 < np.nlink ∧ σ' p = some np' ∧ np'.IsDir ∧
    np'.nlink = np.nlink + (if nc.type = T_DIR then 1 else 0) ∧
    ∀ j, np'.entries[j]? = if j = k then some ⟨c, name⟩ else np.entries[j]?
  other : ∀ i, i ≠ p → i ≠ c → σ' i = σ i

namespace Adds

variable (ha : Adds N σ σ' p k c name nc)

include ha

lemma parent_ne : p ≠ c := by
  rintro rfl
  obtain ⟨np, -, hnp, -⟩ := ha.parent
  exact nomatch ha.old.symm.trans hnp

lemma dirAt_parent : σ.DirAt p := by
  obtain ⟨np, -, hnp, ht, hl, -⟩ := ha.parent
  exact ⟨np, hnp, ht, hl⟩

lemma not_att : ¬ σ.Att c := by
  rintro ⟨n, hn, -⟩
  exact nomatch ha.old.symm.trans hn

lemma back (hn' : σ' i = some n) : (i = c ∧ n = nc) ∨ (i = p ∧ n.IsDir ∧ 0 < n.nlink) ∨
    (i ≠ c ∧ i ≠ p ∧ σ i = some n) := by
  by_cases hic : i = c
  · subst hic
    exact Or.inl ⟨rfl, Option.some.inj (hn'.symm.trans ha.new)⟩
  by_cases hip : i = p
  · subst hip
    obtain ⟨np, np', -, -, hl, hnp', hd, hnl, -⟩ := ha.parent
    obtain rfl := Option.some.inj (hn'.symm.trans hnp')
    exact Or.inr (Or.inl ⟨rfl, hd, by rw [hnl]; split_ifs <;> omega⟩)
  · exact Or.inr (Or.inr ⟨hic, hip, (ha.other i hip hic).symm.trans hn'⟩)

lemma att_iff : σ'.Att i ↔ i = c ∨ σ.Att i := by
  constructor
  · rintro ⟨n, hn, hl⟩
    rcases ha.back hn with ⟨rfl, -⟩ | ⟨rfl, -⟩ | ⟨-, -, hn⟩
    · exact Or.inl rfl
    · exact Or.inr ha.dirAt_parent.att
    · exact Or.inr ⟨n, hn, hl⟩
  · rintro (rfl | ⟨n, hn, hl⟩)
    · exact ⟨nc, ha.new, by rw [ha.nlink]; exact one_pos⟩
    · by_cases hip : i = p
      · subst hip
        obtain ⟨np, np', hnp, -, hl', hnp', -, hnl, -⟩ := ha.parent
        exact ⟨np', hnp', by rw [hnl]; split_ifs <;> omega⟩
      · have hic : i ≠ c := fun he => ha.not_att (he ▸ ⟨n, hn, hl⟩)
        exact ⟨n, (ha.other i hip hic).trans hn, hl⟩

lemma dirAt_iff : σ'.DirAt i ↔ (i = c ∧ nc.type = T_DIR) ∨ σ.DirAt i := by
  constructor
  · rintro ⟨n, hn, ht, hl⟩
    rcases ha.back hn with ⟨rfl, rfl⟩ | ⟨rfl, -⟩ | ⟨-, -, hn⟩
    · exact Or.inl ⟨rfl, ht⟩
    · exact Or.inr ha.dirAt_parent
    · exact Or.inr ⟨n, hn, ht, hl⟩
  · rintro (⟨rfl, ht⟩ | ⟨n, hn, ht, hl⟩)
    · exact ⟨nc, ha.new, ht, by rw [ha.nlink]; exact one_pos⟩
    · by_cases hip : i = p
      · subst hip
        obtain ⟨np, np', -, -, hl', hnp', hd, hnl, -⟩ := ha.parent
        exact ⟨np', hnp', hd.type, by rw [hnl]; split_ifs <;> omega⟩
      · have hic : i ≠ c := fun he => ha.not_att (he ▸ ⟨n, hn, hl⟩)
        exact ⟨n, (ha.other i hip hic).trans hn, ht, hl⟩

lemma slot_parent : σ'.slot p j = if j = k then some ⟨c, name⟩ else σ.slot p j := by
  obtain ⟨np, np', hnp, ht, hl, hnp', hd, hnl, hent⟩ := ha.parent
  rw [slot_of hnp' hd.type (by rw [hnl]; split_ifs <;> omega), slot_of hnp ht hl, hent]

lemma slot_new : σ'.slot c j =
    if nc.type = T_DIR then [(⟨c, Xv6.dot⟩ : Dirent), ⟨p, Xv6.dotdot⟩][j]? else none := by
  split_ifs with ht
  · rw [slot_of ha.new ht (by rw [ha.nlink]; exact one_pos), (ha.dots ht).2]
  · exact slot_of_not fun n hn hd => ht (Option.some.inj (ha.new.symm.trans hn) ▸ hd.1)

lemma slot_other (hip : i ≠ p) (hic : i ≠ c) : σ'.slot i j = σ.slot i j :=
  slot_congr (ha.other i hip hic)

lemma slot_cases (hs : σ'.slot i j = some e) : (i = p ∧ j = k ∧ e = ⟨c, name⟩) ∨
    (i = c ∧ nc.type = T_DIR ∧ (j = 0 ∧ e = ⟨c, Xv6.dot⟩ ∨ j = 1 ∧ e = ⟨p, Xv6.dotdot⟩)) ∨
    (i ≠ c ∧ ¬ (i = p ∧ j = k) ∧ σ.slot i j = some e) := by
  by_cases hic : i = c
  · subst hic
    rw [ha.slot_new] at hs
    split_ifs at hs with ht
    refine Or.inr (Or.inl ⟨rfl, ht, ?_⟩)
    match j, hs with
    | 0, hs => exact Or.inl ⟨rfl, (Option.some.inj hs).symm⟩
    | 1, hs => exact Or.inr ⟨rfl, (Option.some.inj hs).symm⟩
    | j + 2, hs => cases hs
  by_cases hip : i = p
  · subst hip
    rw [ha.slot_parent] at hs
    split_ifs at hs with hj
    · exact Or.inl ⟨rfl, hj, (Option.some.inj hs).symm⟩
    · exact Or.inr (Or.inr ⟨hic, fun hh => hj hh.2, hs⟩)
  · exact Or.inr (Or.inr ⟨hic, fun hh => hip hh.1, (ha.slot_other hip hic).symm.trans hs⟩)

lemma slot_of_old (hs : σ.slot i j = some e) (he : e.inum ≠ 0) : σ'.slot i j = some e := by
  have hic : i ≠ c := fun he' => ha.not_att (he' ▸ (DirAt.of_slot hs).att)
  by_cases hip : i = p
  · subst hip
    rw [ha.slot_parent, if_neg, hs]
    rintro rfl
    exact he (ha.free e hs)
  · exact (ha.slot_other hip hic).trans hs

lemma link_iff {p' k' c' : ℕ} :
    σ'.Link p' k' c' ↔ (p' = p ∧ k' = k ∧ c' = c) ∨ σ.Link p' k' c' := by
  constructor
  · rintro ⟨hk', hc', name', hs⟩
    rcases ha.slot_cases hs with ⟨rfl, rfl, he⟩ | ⟨-, -, ⟨rfl, -⟩ | ⟨rfl, -⟩⟩ | ⟨-, -, hs⟩
    · exact Or.inl ⟨rfl, rfl, congrArg Dirent.inum he⟩
    · omega
    · omega
    · exact Or.inr ⟨hk', hc', name', hs⟩
  · rintro (⟨rfl, rfl, rfl⟩ | ⟨hk', hc', name', hs⟩)
    · exact ⟨ha.two_le, ha.pos.ne', name, by rw [ha.slot_parent, if_pos rfl]⟩
    · exact ⟨hk', hc', name', ha.slot_of_old hs hc'⟩

lemma subdirs_other (hip : i ≠ p) (h : σ.Tree N) : σ'.subdirs N i = σ.subdirs N i := by
  ext x
  simp only [mem_subdirs, ha.dirAt_iff, ha.link_iff]
  constructor
  · rintro ⟨hx, hd, k', ⟨rfl, -⟩ | hl⟩
    · exact absurd rfl hip
    · refine ⟨hx, hd.resolve_left ?_, k', hl⟩
      rintro ⟨rfl, -⟩
      exact ha.not_att (h.rooted.target hl)
  · rintro ⟨hx, hd, k', hl⟩
    exact ⟨hx, Or.inr hd, k', Or.inr hl⟩

lemma card_subdirs_parent (h : σ.Tree N) :
    (σ'.subdirs N p).card = (σ.subdirs N p).card + if nc.type = T_DIR then 1 else 0 := by
  have hc : c ∉ σ.subdirs N p := fun hc => ha.not_att (mem_subdirs.mp hc).2.1.att
  have hmem : ∀ x, x ∈ σ'.subdirs N p ↔ (x = c ∧ nc.type = T_DIR) ∨ x ∈ σ.subdirs N p := by
    intro x
    simp only [mem_subdirs, ha.dirAt_iff, ha.link_iff]
    constructor
    · rintro ⟨hx, hd, k', ⟨-, -, rfl⟩ | hl⟩
      · exact Or.inl ⟨rfl, (hd.resolve_right fun hd => ha.not_att hd.att).2⟩
      · refine Or.inr ⟨hx, hd.resolve_left ?_, k', hl⟩
        rintro ⟨rfl, -⟩
        exact ha.not_att (h.rooted.target hl)
    · rintro (⟨rfl, ht⟩ | ⟨hx, hd, k', hl⟩)
      · exact ⟨ha.lt, Or.inl ⟨rfl, ht⟩, k, Or.inl (by simp)⟩
      · exact ⟨hx, Or.inr hd, k', Or.inr hl⟩
  split_ifs with ht
  · rw [← Finset.card_insert_of_notMem hc]
    congr 1
    ext x
    rw [hmem, Finset.mem_insert]
    simp [ht]
  · rw [Nat.add_zero]
    congr 1
    ext x
    rw [hmem]
    simp [ht]

lemma slot_names (h : σ.Tree N) {k' : ℕ} {e' : Dirent} (h₁ : σ'.slot i j = some e)
    (h₂ : σ'.slot i k' = some e') (hz₁ : e.inum ≠ 0) (hz₂ : e'.inum ≠ 0) (he : e.name = e'.name) :
    j = k' := by
  rcases ha.slot_cases h₁ with ⟨rfl, rfl, rfl⟩ | ⟨rfl, -, hj⟩ | ⟨hic, hnew, hs₁⟩
  · rcases ha.slot_cases h₂ with ⟨-, rfl, -⟩ | ⟨hpc, -⟩ | ⟨-, -, hs₂⟩
    · rfl
    · exact absurd hpc ha.parent_ne
    · exact absurd he.symm (ha.fresh _ _ hs₂ hz₂)
  · rcases ha.slot_cases h₂ with ⟨hpc, -⟩ | ⟨-, -, hk'⟩ | ⟨hne, -⟩
    · exact absurd hpc.symm ha.parent_ne
    · have hdots : Xv6.dot ≠ Xv6.dotdot := by decide
      rcases hj with ⟨rfl, rfl⟩ | ⟨rfl, rfl⟩ <;> rcases hk' with ⟨rfl, rfl⟩ | ⟨rfl, rfl⟩
      · rfl
      · exact absurd he hdots
      · exact absurd he.symm hdots
      · rfl
    · exact absurd rfl hne
  · rcases ha.slot_cases h₂ with ⟨rfl, rfl, rfl⟩ | ⟨hic', -⟩ | ⟨-, -, hs₂⟩
    · exact absurd he (ha.fresh _ _ hs₁ hz₁)
    · exact absurd hic' hic
    · exact h.slot_names hs₁ hs₂ hz₁ hz₂ he

end Adds

/-- **A new node.** -/
lemma Tree.add (h : σ.Tree N) (ha : Adds N σ σ' p k c name nc) : σ'.Tree N where
  pos hn := by
    rcases ha.back hn with ⟨rfl, -⟩ | ⟨rfl, -⟩ | ⟨-, -, hn⟩
    · exact ha.pos
    · obtain ⟨np, -, hnp, -⟩ := ha.parent
      exact h.pos hnp
    · exact h.pos hn
  lt hn := by
    rcases ha.back hn with ⟨rfl, -⟩ | ⟨rfl, -⟩ | ⟨-, -, hn⟩
    · exact ha.lt
    · obtain ⟨np, -, hnp, -⟩ := ha.parent
      exact h.lt hnp
    · exact h.lt hn
  root := ha.dirAt_iff.mpr (Or.inr h.root)
  rooted := (h.rooted.add (k := k) ha.not_att ha.dirAt_parent.att).congr (fun _ => ha.att_iff)
    fun _ _ _ => ha.link_iff
  isDir hn ht hl := by
    rcases ha.back hn with ⟨-, rfl⟩ | ⟨-, hd, -⟩ | ⟨-, -, hn⟩
    · exact (ha.dots ht).1
    · exact hd
    · exact h.isDir hn ht hl
  dot hd := by
    rcases ha.dirAt_iff.mp hd with ⟨rfl, ht⟩ | hd
    · rw [ha.slot_new, if_pos ht]
      rfl
    · exact ha.slot_of_old (h.dot hd) (by
        obtain ⟨n, hn, -⟩ := hd
        exact (h.pos hn).ne')
  dotdot hd := by
    rcases ha.dirAt_iff.mp hd with ⟨rfl, ht⟩ | hd
    · refine ⟨p, by rw [ha.slot_new, if_pos ht]; rfl, Or.inr ⟨k, ?_⟩⟩
      exact ha.link_iff.mpr (Or.inl ⟨rfl, rfl, rfl⟩)
    · obtain ⟨q, hq, hcase⟩ := h.dotdot hd
      have hq0 : q ≠ 0 := by
        rcases hcase with ⟨-, rfl⟩ | ⟨k', hl⟩
        · decide
        · obtain ⟨n, hn, -⟩ := hl.dirAt
          exact (h.pos hn).ne'
      exact ⟨q, ha.slot_of_old hq hq0,
        hcase.imp_right fun ⟨k', hl⟩ => ⟨k', ha.link_iff.mpr (Or.inr hl)⟩⟩
  names {i n j k e e'} hn ht h₁ h₂ := by
    by_cases hl : 0 < n.nlink
    · exact ha.slot_names h ((slot_of hn ht hl).trans h₁) ((slot_of hn ht hl).trans h₂)
    -- a directory without links is an old one
    rcases ha.back hn with ⟨-, rfl⟩ | ⟨-, -, hpos⟩ | ⟨-, -, hn⟩
    · exact absurd (ha.nlink ▸ one_pos) hl
    · exact absurd hpos hl
    · exact h.names hn ht h₁ h₂
  nonneg hn := by
    rcases ha.back hn with ⟨-, rfl⟩ | ⟨-, -, hl⟩ | ⟨-, -, hn⟩
    · rw [ha.nlink]
      exact zero_le_one
    · exact hl.le
    · exact h.nonneg hn
  file hn ht := by
    rcases ha.back hn with ⟨-, rfl⟩ | ⟨-, hd, -⟩ | ⟨-, -, hn⟩
    · exact ha.nlink.le
    · exact absurd hd.type ht
    · exact h.file hn ht
  nlink := fun {i n} hn ht hl => by
    rcases ha.back hn with ⟨rfl, rfl⟩ | ⟨rfl, -⟩ | ⟨hic, hip, hn⟩
    · have hempty : σ'.subdirs N i = ∅ := by
        rw [ha.subdirs_other ha.parent_ne.symm h]
        refine Finset.eq_empty_of_forall_notMem fun x hx => ?_
        obtain ⟨-, -, k', hl'⟩ := mem_subdirs.mp hx
        exact ha.not_att hl'.dirAt.att
      rw [hempty, ha.nlink]
      rfl
    · obtain ⟨np, np', hnp, ht', hl', hnp', -, hnl, -⟩ := ha.parent
      obtain rfl := Option.some.inj (hn.symm.trans hnp')
      rw [hnl, ha.card_subdirs_parent h, h.nlink hnp ht' hl']
      push_cast
      split_ifs <;> omega
    · rw [ha.subdirs_other hip h]
      exact h.nlink hn ht hl

/-! ## A node is cut off -/

/-- In `σ'` the entry `k` of the directory `p` has been cleared, and the node `nc` that it named in
`σ` has no link any more. -/
structure Removes (σ σ' : Nodes) (p k c : ℕ) (nc : Node) : Prop where
  link : σ.Link p k c
  node : σ c = some nc
  leaf : nc.type = T_DIR → ∀ e ∈ nc.entries.drop 2, e.inum = 0
  gone : σ' c = some { nc with nlink := 0 }
  parent : ∃ np np', σ p = some np ∧ σ' p = some np' ∧ np'.IsDir ∧
    np'.nlink = np.nlink - (if nc.type = T_DIR then 1 else 0) ∧
    ∃ e, e.inum = 0 ∧ ∀ j, np'.entries[j]? = if j = k then some e else np.entries[j]?
  other : ∀ i, i ≠ p → i ≠ c → σ' i = σ i

namespace Removes

variable (hr : Removes σ σ' p k c nc) (h : σ.Tree N)

include hr

lemma not_link {k' x : ℕ} : ¬ σ.Link c k' x := by
  rintro ⟨hk', hx, name, hs⟩
  obtain ⟨n, hn, ht, -, he⟩ := exists_of_slot hs
  obtain rfl := Option.some.inj (hr.node.symm.trans hn)
  refine hx (hr.leaf ht ⟨x, name⟩ (List.mem_iff_getElem?.mpr ⟨k' - 2, ?_⟩))
  rw [List.getElem?_drop, Nat.add_sub_cancel' hk']
  exact he

include h

lemma parent_ne : p ≠ c := h.rooted.irrefl hr.link

lemma pos : 0 < nc.nlink := by
  obtain ⟨n, hn, hl⟩ := h.rooted.target hr.link
  exact Option.some.inj (hr.node.symm.trans hn) ▸ hl

lemma parent_spec : ∃ np np', σ p = some np ∧ np.type = T_DIR ∧ 0 < np.nlink ∧ σ' p = some np' ∧
    np'.IsDir ∧ 0 < np'.nlink ∧ np'.nlink = np.nlink - (if nc.type = T_DIR then 1 else 0) ∧
    ∃ e, e.inum = 0 ∧ ∀ j, np'.entries[j]? = if j = k then some e else np.entries[j]? := by
  obtain ⟨np, np', hnp, hnp', hd, hnl, hent⟩ := hr.parent
  obtain ⟨n, hn, ht, hl⟩ := hr.link.dirAt
  obtain rfl := Option.some.inj (hnp.symm.trans hn)
  refine ⟨np, np', hnp, ht, hl, hnp', hd, ?_, hnl, hent⟩
  rw [hnl]
  split_ifs with hdir
  · have hmem : c ∈ σ.subdirs N p :=
      mem_subdirs.mpr ⟨h.lt hr.node, ⟨nc, hr.node, hdir, hr.pos h⟩, k, hr.link⟩
    have hcard := Finset.card_pos.mpr ⟨c, hmem⟩
    rw [h.nlink hnp ht hl]
    omega
  · omega

lemma back (hn' : σ' i = some n) : (i = c ∧ n = { nc with nlink := 0 }) ∨
    (i = p ∧ n.IsDir ∧ 0 < n.nlink) ∨ (i ≠ c ∧ i ≠ p ∧ σ i = some n) := by
  by_cases hic : i = c
  · subst hic
    exact Or.inl ⟨rfl, Option.some.inj (hn'.symm.trans hr.gone)⟩
  by_cases hip : i = p
  · subst hip
    obtain ⟨np, np', -, -, -, hnp', hd, hl', -⟩ := hr.parent_spec h
    obtain rfl := Option.some.inj (hn'.symm.trans hnp')
    exact Or.inr (Or.inl ⟨rfl, hd, hl'⟩)
  · exact Or.inr (Or.inr ⟨hic, hip, (hr.other i hip hic).symm.trans hn'⟩)

lemma att_iff : σ'.Att i ↔ σ.Att i ∧ i ≠ c := by
  constructor
  · rintro ⟨n, hn, hl⟩
    rcases hr.back h hn with ⟨rfl, rfl⟩ | ⟨rfl, -⟩ | ⟨hic, -, hn⟩
    · exact absurd hl (lt_irrefl 0)
    · exact ⟨hr.link.dirAt.att, hr.parent_ne h⟩
    · exact ⟨⟨n, hn, hl⟩, hic⟩
  · rintro ⟨⟨n, hn, hl⟩, hic⟩
    by_cases hip : i = p
    · subst hip
      obtain ⟨np, np', -, -, -, hnp', -, hl', -⟩ := hr.parent_spec h
      exact ⟨np', hnp', hl'⟩
    · exact ⟨n, (hr.other i hip hic).trans hn, hl⟩

lemma dirAt_iff : σ'.DirAt i ↔ σ.DirAt i ∧ i ≠ c := by
  constructor
  · rintro ⟨n, hn, ht, hl⟩
    rcases hr.back h hn with ⟨rfl, rfl⟩ | ⟨rfl, -⟩ | ⟨hic, -, hn⟩
    · exact absurd hl (lt_irrefl 0)
    · exact ⟨hr.link.dirAt, hr.parent_ne h⟩
    · exact ⟨⟨n, hn, ht, hl⟩, hic⟩
  · rintro ⟨⟨n, hn, ht, hl⟩, hic⟩
    by_cases hip : i = p
    · subst hip
      obtain ⟨np, np', -, -, -, hnp', hd, hl', -⟩ := hr.parent_spec h
      exact ⟨np', hnp', hd.type, hl'⟩
    · exact ⟨n, (hr.other i hip hic).trans hn, ht, hl⟩

lemma slot_iff (he : e.inum ≠ 0) :
    σ'.slot i j = some e ↔ σ.slot i j = some e ∧ i ≠ c ∧ ¬ (i = p ∧ j = k) := by
  by_cases hic : i = c
  · subst hic
    have hnone : σ'.slot i j = none := slot_of_not fun n hn hd => by
      obtain rfl := Option.some.inj (hr.gone.symm.trans hn)
      exact absurd hd.2 (lt_irrefl 0)
    simp [hnone]
  by_cases hip : i = p
  · subst hip
    obtain ⟨np, np', hnp, ht, hl, hnp', hd, hl', -, e₀, hz, hent⟩ := hr.parent_spec h
    rw [slot_of hnp' hd.type hl', slot_of hnp ht hl, hent]
    by_cases hj : j = k
    · rw [if_pos hj]
      constructor
      · intro heq
        exact absurd (Option.some.inj heq ▸ hz) he
      · rintro ⟨-, -, hne⟩
        exact absurd ⟨rfl, hj⟩ hne
    · rw [if_neg hj]
      exact ⟨fun heq => ⟨heq, hic, fun hh => hj hh.2⟩, fun hh => hh.1⟩
  · rw [slot_congr (hr.other i hip hic)]
    exact ⟨fun heq => ⟨heq, hic, fun hh => hip hh.1⟩, fun hh => hh.1⟩

lemma link_iff {p' k' c' : ℕ} : σ'.Link p' k' c' ↔ σ.Link p' k' c' ∧ c' ≠ c := by
  constructor
  · rintro ⟨hk', hc', name', hs⟩
    obtain ⟨hs, -, hne⟩ := (hr.slot_iff h (e := ⟨c', name'⟩) hc').mp hs
    have hl : σ.Link p' k' c' := ⟨hk', hc', name', hs⟩
    exact ⟨hl, fun he => hne (h.rooted.unique hl (he ▸ hr.link))⟩
  · rintro ⟨⟨hk', hc', name', hs⟩, hne⟩
    refine ⟨hk', hc', name', (hr.slot_iff h (e := ⟨c', name'⟩) hc').mpr ⟨hs, ?_, ?_⟩⟩
    · rintro rfl
      exact hr.not_link ⟨hk', hc', name', hs⟩
    · rintro ⟨rfl, rfl⟩
      obtain ⟨-, -, name, hs'⟩ := hr.link
      exact hne (congrArg Dirent.inum (Option.some.inj (hs.symm.trans hs')))

lemma subdirs_eq : σ'.subdirs N i = (σ.subdirs N i).erase c := by
  ext x
  simp only [Finset.mem_erase, mem_subdirs, hr.dirAt_iff h, hr.link_iff h]
  constructor
  · rintro ⟨hx, ⟨hd, hne⟩, k', hl, -⟩
    exact ⟨hne, hx, hd, k', hl⟩
  · rintro ⟨hne, hx, hd, k', hl⟩
    exact ⟨hx, ⟨hd, hne⟩, k', hl, hne⟩

lemma card_subdirs_parent : ((σ'.subdirs N p).card : ℤ) =
    (σ.subdirs N p).card - if nc.type = T_DIR then 1 else 0 := by
  rw [hr.subdirs_eq h]
  split_ifs with ht
  · have hmem : c ∈ σ.subdirs N p :=
      mem_subdirs.mpr ⟨h.lt hr.node, ⟨nc, hr.node, ht, hr.pos h⟩, k, hr.link⟩
    have hpos := Finset.card_pos.mpr ⟨c, hmem⟩
    rw [Finset.card_erase_of_mem hmem]
    omega
  · have hmem : c ∉ σ.subdirs N p := fun hc => by
      obtain ⟨n, hn, ht', -⟩ := (mem_subdirs.mp hc).2.1
      exact ht (Option.some.inj (hr.node.symm.trans hn) ▸ ht')
    rw [Finset.erase_eq_of_notMem hmem, sub_zero]

lemma subdirs_other (hip : i ≠ p) : σ'.subdirs N i = σ.subdirs N i := by
  rw [hr.subdirs_eq h]
  refine Finset.erase_eq_of_notMem fun hc => ?_
  obtain ⟨-, -, k', hl⟩ := mem_subdirs.mp hc
  exact hip (h.rooted.unique hl hr.link).1

end Removes

/-- **A node is cut off.** -/
lemma Tree.remove (h : σ.Tree N) (hr : Removes σ σ' p k c nc) : σ'.Tree N where
  pos hn := by
    rcases hr.back h hn with ⟨rfl, -⟩ | ⟨rfl, -⟩ | ⟨-, -, hn⟩
    · exact h.pos hr.node
    · obtain ⟨np, -, hnp, -⟩ := hr.parent
      exact h.pos hnp
    · exact h.pos hn
  lt hn := by
    rcases hr.back h hn with ⟨rfl, -⟩ | ⟨rfl, -⟩ | ⟨-, -, hn⟩
    · exact h.lt hr.node
    · obtain ⟨np, -, hnp, -⟩ := hr.parent
      exact h.lt hnp
    · exact h.lt hn
  root := (hr.dirAt_iff h).mpr ⟨h.root, fun he => h.rooted.not_root (he ▸ hr.link)⟩
  rooted := (h.rooted.remove hr.link fun _ _ => hr.not_link).congr (fun _ => hr.att_iff h)
    fun _ _ _ => hr.link_iff h
  isDir hn ht hl := by
    rcases hr.back h hn with ⟨-, rfl⟩ | ⟨-, hd, -⟩ | ⟨-, -, hn⟩
    · exact absurd hl (lt_irrefl 0)
    · exact hd
    · exact h.isDir hn ht hl
  dot := fun {i} hd => by
    obtain ⟨hd, hic⟩ := (hr.dirAt_iff h).mp hd
    have hi : i ≠ 0 := by
      obtain ⟨n, hn, -⟩ := hd
      exact (h.pos hn).ne'
    refine (hr.slot_iff h (e := ⟨i, Xv6.dot⟩) hi).mpr ⟨h.dot hd, hic, fun hh => ?_⟩
    have := hr.link.1
    omega
  dotdot := fun {i} hd => by
    obtain ⟨hd, hic⟩ := (hr.dirAt_iff h).mp hd
    obtain ⟨q, hq, hcase⟩ := h.dotdot hd
    have hq0 : q ≠ 0 := by
      rcases hcase with ⟨-, rfl⟩ | ⟨k', hl⟩
      · decide
      · obtain ⟨n, hn, -⟩ := hl.dirAt
        exact (h.pos hn).ne'
    refine ⟨q, (hr.slot_iff h (e := ⟨q, Xv6.dotdot⟩) hq0).mpr ⟨hq, hic, fun hh => ?_⟩,
      hcase.imp_right fun ⟨k', hl⟩ => ⟨k', (hr.link_iff h).mpr ⟨hl, hic⟩⟩⟩
    have := hr.link.1
    omega
  names {i n j k e e'} hn ht h₁ h₂ hz₁ hz₂ he := by
    by_cases hl : 0 < n.nlink
    · exact h.slot_names ((hr.slot_iff h hz₁).mp ((slot_of hn ht hl).trans h₁)).1
        ((hr.slot_iff h hz₂).mp ((slot_of hn ht hl).trans h₂)).1 hz₁ hz₂ he
    -- a directory that is cut off keeps its entries
    rcases hr.back h hn with ⟨-, rfl⟩ | ⟨-, -, hpos⟩ | ⟨-, -, hn⟩
    · exact h.names hr.node ht h₁ h₂ hz₁ hz₂ he
    · exact absurd hpos hl
    · exact h.names hn ht h₁ h₂ hz₁ hz₂ he
  nonneg hn := by
    rcases hr.back h hn with ⟨-, rfl⟩ | ⟨-, -, hl⟩ | ⟨-, -, hn⟩
    · exact le_rfl
    · exact hl.le
    · exact h.nonneg hn
  file hn ht := by
    rcases hr.back h hn with ⟨-, rfl⟩ | ⟨-, hd, -⟩ | ⟨-, -, hn⟩
    · exact zero_le_one
    · exact absurd hd.type ht
    · exact h.file hn ht
  nlink := fun {i n} hn ht hl => by
    rcases hr.back h hn with ⟨-, rfl⟩ | ⟨rfl, -⟩ | ⟨hic, hip, hn⟩
    · exact absurd hl (lt_irrefl 0)
    · obtain ⟨np, np', hnp, ht', hl', hnp', -, -, hnl, -⟩ := hr.parent_spec h
      obtain rfl := Option.some.inj (hn.symm.trans hnp')
      rw [hnl, hr.card_subdirs_parent h, h.nlink hnp ht' hl']
      omega
    · rw [hr.subdirs_other h hip]
      exact h.nlink hn ht hl

end Nodes

end

end Xv6
