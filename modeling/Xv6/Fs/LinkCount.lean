import Xv6.Fs.Tree
import Mathlib.Data.Set.Card

/-!
# Link counts

In a directory tree the link count of a node is the number of entries in use that name it, those
named `.` aside.  A node other than the root is named once by its parent, a directory in addition by
the `..` of each of its subdirectories, and the root by its own `..`.

`Nodes.Tree` states the link counts in terms of the tree: one for a file, and one more than the
number of subdirectories for a directory.  Here the entries are counted themselves (`Names`), and
`nlink_eq_ncard` says that the two agree.  The proof sorts the entries that name a
node by what they are, a child entry of the parent or the `..` of a subdirectory (`names_iff`), and
maps the subdirectories to their second entries.
-/

namespace Xv6

namespace Nodes

/-- Entry `q.2` of the directory `q.1` names the node `i`, and is not `.`. -/
def Names (σ : Nodes) (i : ℕ) (q : ℕ × ℕ) : Prop :=
  ∃ e, σ.slot q.1 q.2 = some e ∧ e.inum = i ∧ e.name ≠ dot

/-- Entry `k` of the directory `p`, which is neither `.` nor `..`, names the node `c`. -/
def Child (σ : Nodes) (p k c : ℕ) : Prop :=
  c ≠ 0 ∧ ∃ name, name ≠ dot ∧ name ≠ dotdot ∧ σ.slot p k = some ⟨c, name⟩

variable {σ : Nodes} {N i p k c : ℕ} {n : Node}

namespace Tree

lemma name_ne_dots (h : σ.Tree N) (hk : 2 ≤ k) {e : Dirent} (hs : σ.slot p k = some e)
    (he : e.inum ≠ 0) : e.name ≠ Xv6.dot ∧ e.name ≠ Xv6.dotdot := by
  have hd : σ.DirAt p := .of_slot hs
  have hpos : ∀ {i}, σ.Att i → i ≠ 0 := fun ⟨_, hn, _⟩ => (h.pos hn).ne'
  obtain ⟨q, hq, hcase⟩ := h.dotdot hd
  have hq0 : q ≠ 0 := by
    rcases hcase with ⟨-, rfl⟩ | ⟨k', hl⟩
    · decide
    · exact hpos hl.dirAt.att
  refine ⟨fun hname => ?_, fun hname => ?_⟩
  · have := h.slot_names hs (h.dot hd) he (hpos hd.att) hname
    omega
  · have := h.slot_names hs hq he hq0 hname
    omega

lemma child_iff (h : σ.Tree N) : σ.Child p k c ↔ σ.Link p k c := by
  constructor
  · rintro ⟨hc, name, hdot, hdotdot, hs⟩
    have hd : σ.DirAt p := .of_slot hs
    refine ⟨?_, hc, name, hs⟩
    by_contra hlt
    rcases (by omega : k = 0 ∨ k = 1) with rfl | rfl
    · exact hdot (congrArg Dirent.name (Option.some.inj (hs.symm.trans (h.dot hd))))
    · obtain ⟨q, hq, -⟩ := h.dotdot hd
      exact hdotdot (congrArg Dirent.name (Option.some.inj (hs.symm.trans hq)))
  · rintro ⟨hk, hc, name, hs⟩
    obtain ⟨h₁, h₂⟩ := h.name_ne_dots hk hs hc
    exact ⟨hc, name, h₁, h₂, hs⟩

lemma names_iff (h : σ.Tree N) (hi : i ≠ 0) :
    σ.Names i (p, k) ↔ σ.Link p k i ∨
      k = 1 ∧ (p = ROOTINO ∧ i = ROOTINO ∨ p ∈ σ.subdirs N i) := by
  constructor
  · rintro ⟨e, hs, rfl, hname⟩
    have hd : σ.DirAt p := .of_slot hs
    match k, hs with
    | 0, hs =>
      have hdot := Option.some.inj (hs.symm.trans (h.dot hd))
      exact absurd (congrArg Dirent.name hdot) hname
    | 1, hs =>
      obtain ⟨q, hq, hcase⟩ := h.dotdot hd
      obtain rfl := Option.some.inj (hs.symm.trans hq)
      refine Or.inr ⟨rfl, hcase.imp_right fun ⟨k', hl⟩ => ?_⟩
      obtain ⟨m, hm, -⟩ := hd.att
      exact mem_subdirs.mpr ⟨h.lt hm, hd, k', hl⟩
    | k + 2, hs => exact Or.inl (link_of_slot hs (Nat.le_add_left 2 k) hi)
  · rintro (⟨hk, -, name, hs⟩ | ⟨rfl, hcase⟩)
    · exact ⟨_, hs, rfl, (h.name_ne_dots hk hs hi).1⟩
    · have hd : σ.DirAt p := by
        rcases hcase with ⟨rfl, -⟩ | hsub
        · exact h.root
        · exact (mem_subdirs.mp hsub).2.1
      obtain ⟨q, hq, hparent⟩ := h.dotdot hd
      refine ⟨_, hq, ?_, show Xv6.dotdot ≠ Xv6.dot by decide⟩
      rcases hcase with ⟨rfl, rfl⟩ | hsub
      · rcases hparent with ⟨-, rfl⟩ | ⟨k', hl⟩
        · rfl
        · exact absurd hl h.rooted.not_root
      · obtain ⟨-, -, k', hl⟩ := mem_subdirs.mp hsub
        rcases hparent with ⟨rfl, -⟩ | ⟨k'', hl'⟩
        · exact absurd hl h.rooted.not_root
        · exact (h.rooted.unique hl' hl).1

/-- The entries that name a node of the tree: one, and the `..` of the subdirectories. -/
lemma ncard_names (h : σ.Tree N) (hi : σ.Att i) :
    {q | σ.Names i q}.ncard = 1 + (σ.subdirs N i).card := by
  obtain ⟨n, hn, hl⟩ := hi
  have hpos := (h.pos hn).ne'
  -- the one that is not a `..` of a subdirectory
  obtain ⟨q, hq, hone⟩ : ∃ q : ℕ × ℕ, q ∉ (σ.subdirs N i).image (·, 1) ∧
      ∀ r, σ.Names i r ↔ r = q ∨ r ∈ (σ.subdirs N i).image (·, 1) := by
    by_cases hroot : i = ROOTINO
    · subst hroot
      refine ⟨(ROOTINO, 1), ?_, fun ⟨p, k⟩ => ?_⟩
      · simp only [Finset.mem_image, Prod.mk.injEq, and_true, exists_eq_right, mem_subdirs, not_and,
          not_exists]
        exact fun _ _ _ => h.rooted.not_root
      · rw [h.names_iff hpos]
        simp only [Prod.mk.injEq, Finset.mem_image]
        constructor
        · rintro (hl | ⟨rfl, ⟨rfl, -⟩ | hsub⟩)
          · exact absurd hl h.rooted.not_root
          · exact Or.inl ⟨rfl, rfl⟩
          · exact Or.inr ⟨p, hsub, rfl, rfl⟩
        · rintro (⟨rfl, rfl⟩ | ⟨c, hsub, rfl, rfl⟩)
          · exact Or.inr ⟨rfl, Or.inl ⟨rfl, trivial⟩⟩
          · exact Or.inr ⟨rfl, Or.inr hsub⟩
    · obtain ⟨p, k, hlink⟩ := h.rooted.linked ⟨n, hn, hl⟩ hroot
      refine ⟨(p, k), ?_, fun ⟨p', k'⟩ => ?_⟩
      · have hk := hlink.1
        simp only [Finset.mem_image, Prod.mk.injEq, not_exists, not_and]
        intro c _ _ hk1
        omega
      · rw [h.names_iff hpos]
        simp only [Prod.mk.injEq, Finset.mem_image]
        constructor
        · rintro (hl' | ⟨rfl, ⟨-, he⟩ | hsub⟩)
          · exact Or.inl (h.rooted.unique hl' hlink)
          · exact absurd he hroot
          · exact Or.inr ⟨p', hsub, rfl, rfl⟩
        · rintro (⟨rfl, rfl⟩ | ⟨c, hsub, rfl, rfl⟩)
          · exact Or.inl hlink
          · exact Or.inr ⟨rfl, Or.inr hsub⟩
  have hset : {q | σ.Names i q} = ↑(insert q ((σ.subdirs N i).image (·, 1))) := by
    ext r
    simpa using hone r
  rw [hset, Set.ncard_coe_finset, Finset.card_insert_of_notMem hq,
    Finset.card_image_of_injective _ (Prod.mk_left_injective 1), Nat.add_comm]

/-- **The link count of a node is the number of entries that name it.** -/
theorem nlink_eq_ncard (h : σ.Tree N) (hn : σ i = some n) :
    n.nlink = {q | σ.Names i q}.ncard := by
  by_cases hl : 0 < n.nlink
  · rw [h.ncard_names ⟨n, hn, hl⟩]
    by_cases ht : n.type = T_DIR
    · rw [h.nlink hn ht hl]
      push_cast
      rfl
    · have hempty : σ.subdirs N i = ∅ := by
        refine Finset.eq_empty_of_forall_notMem fun c hc => ?_
        obtain ⟨-, -, k, hk⟩ := mem_subdirs.mp hc
        obtain ⟨m, hm, ht', -⟩ := hk.dirAt
        exact ht (Option.some.inj (hn.symm.trans hm) ▸ ht')
      rw [h.nlink_of_file hn ht hl, hempty]
      rfl
  · have hnone : {q | σ.Names i q} = ∅ := by
      refine Set.eq_empty_of_forall_notMem fun q hq => ?_
      obtain ⟨e, hs, rfl, -⟩ := hq
      obtain ⟨m, hm, hl'⟩ := h.att_of_slot hs (h.pos hn).ne'
      exact hl (Option.some.inj (hn.symm.trans hm) ▸ hl')
    have hnonneg := h.nonneg hn
    rw [hnone, Set.ncard_empty]
    omega

end Tree

end Nodes

end Xv6
