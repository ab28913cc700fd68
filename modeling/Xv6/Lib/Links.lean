import Mathlib.Logic.Basic
import Mathlib.Logic.Function.Basic
import Mathlib.Data.Nat.Init

/-!
# Trees of labelled links

A node `p` links to a node `c` under a label `k`.  `Rooted att link r` says that the nodes in `att`
form a tree with the root `r`: everything but the root has exactly one link to it, and links go up
in some rank.  The rank is what keeps out cycles that hang in the air; it is existential, so that
nobody has to maintain one.

* `existsUnique_path`: every node of the tree is reached by exactly one list of labels.
* `Rooted.add` and `Rooted.remove`: a tree grows by a new leaf and shrinks by a leaf that is cut
  off.  That is all that happens to the trees of this development: nothing is ever moved.

Nodes and labels are arbitrary types.  `Xv6.Lib.Descent` turns such a tree into a partial map from
lists of labels to nodes.
-/

namespace Lib

variable {V K : Type} {att : V → Prop} {link : V → K → V → Prop} {r p c : V} {k : K}

/-- The nodes in `att` form a tree with the root `r`. -/
structure Rooted (att : V → Prop) (link : V → K → V → Prop) (r : V) : Prop where
  root : att r
  source : ∀ {p k c}, link p k c → att p
  target : ∀ {p k c}, link p k c → att c
  not_root : ∀ {p k}, ¬ link p k r
  unique : ∀ {p k p' k' c}, link p k c → link p' k' c → p = p' ∧ k = k'
  linked : ∀ {c}, att c → c ≠ r → ∃ p k, link p k c
  ranked : ∃ rank : V → ℕ, ∀ {p k c}, link p k c → rank p < rank c

/-- `ks` are the labels on the way from `r` to a node. -/
inductive Path (link : V → K → V → Prop) (r : V) : List K → V → Prop
  | nil : Path link r [] r
  | snoc {ks : List K} {p : V} {k : K} {c : V} (h : Path link r ks p) (hl : link p k c) :
    Path link r (ks ++ [k]) c

namespace Rooted

lemma congr {att' : V → Prop} {link' : V → K → V → Prop} (h : Rooted att link r)
    (ha : ∀ v, att' v ↔ att v) (hl : ∀ p k c, link' p k c ↔ link p k c) : Rooted att' link' r := by
  obtain rfl : att' = att := funext fun v => propext (ha v)
  obtain rfl : link' = link := funext fun p => funext fun k => funext fun c => propext (hl p k c)
  exact h

lemma add (h : Rooted att link r) (hc : ¬ att c) (hp : att p) :
    Rooted (fun v => v = c ∨ att v)
      (fun p' k' c' => (p' = p ∧ k' = k ∧ c' = c) ∨ link p' k' c') r where
  root := Or.inr h.root
  source := by
    rintro p' k' c' (⟨rfl, -, -⟩ | hl)
    · exact Or.inr hp
    · exact Or.inr (h.source hl)
  target := by
    rintro p' k' c' (⟨-, -, rfl⟩ | hl)
    · exact Or.inl rfl
    · exact Or.inr (h.target hl)
  not_root := by
    rintro p' k' (⟨-, -, rfl⟩ | hl)
    · exact hc h.root
    · exact h.not_root hl
  unique := by
    rintro p₁ k₁ p₂ k₂ c' (⟨rfl, rfl, rfl⟩ | h₁) (⟨rfl, rfl, he⟩ | h₂)
    · exact ⟨rfl, rfl⟩
    · exact absurd (h.target h₂) hc
    · exact absurd (he ▸ h.target h₁) hc
    · exact h.unique h₁ h₂
  linked := by
    rintro v (rfl | hv) hr
    · exact ⟨p, k, Or.inl ⟨rfl, rfl, rfl⟩⟩
    · obtain ⟨p', k', hl⟩ := h.linked hv hr
      exact ⟨p', k', Or.inr hl⟩
  ranked := by
    classical
    obtain ⟨rank, hrank⟩ := h.ranked
    -- no link leaves the new node, so its rank only has to be above that of `p`
    refine ⟨Function.update rank c (rank p + 1), ?_⟩
    rintro p' k' c' (⟨rfl, -, rfl⟩ | hl)
    · have hne : p' ≠ c' := fun he => hc (he ▸ hp)
      rw [Function.update_self, Function.update_of_ne hne]
      exact Nat.lt_succ_self _
    · have hp' : p' ≠ c := fun he => hc (he ▸ h.source hl)
      have hc' : c' ≠ c := fun he => hc (he ▸ h.target hl)
      rw [Function.update_of_ne hp', Function.update_of_ne hc']
      exact hrank hl

lemma remove (h : Rooted att link r) (hl : link p k c) (hleaf : ∀ k' v, ¬ link c k' v) :
    Rooted (fun v => att v ∧ v ≠ c) (fun p' k' c' => link p' k' c' ∧ c' ≠ c) r where
  root := ⟨h.root, fun he => h.not_root (he ▸ hl)⟩
  source := fun {p' k' c'} h' => ⟨h.source h'.1, fun he => hleaf k' c' (he ▸ h'.1)⟩
  target h' := ⟨h.target h'.1, h'.2⟩
  not_root h' := h.not_root h'.1
  unique h₁ h₂ := h.unique h₁.1 h₂.1
  linked := by
    rintro v ⟨hv, hne⟩ hr
    obtain ⟨p', k', hl'⟩ := h.linked hv hr
    exact ⟨p', k', hl', hne⟩
  ranked := by
    obtain ⟨rank, hrank⟩ := h.ranked
    exact ⟨rank, fun h' => hrank h'.1⟩

lemma irrefl (h : Rooted att link r) (hl : link p k c) : p ≠ c := by
  rintro rfl
  obtain ⟨rank, hrank⟩ := h.ranked
  exact Nat.lt_irrefl _ (hrank hl)

lemma exists_path (h : Rooted att link r) (hc : att c) : ∃ ks, Path link r ks c := by
  obtain ⟨rank, hrank⟩ := h.ranked
  induction hn : rank c using Nat.strong_induction_on generalizing c with
  | _ n ih =>
    by_cases hr : c = r
    · exact ⟨[], hr ▸ .nil⟩
    · obtain ⟨p, k, hl⟩ := h.linked hc hr
      obtain ⟨ks, hks⟩ := ih (rank p) (hn ▸ hrank hl) (h.source hl) rfl
      exact ⟨ks ++ [k], hks.snoc hl⟩

lemma path_unique (h : Rooted att link r) {ks ks' : List K} (hp : Path link r ks c)
    (hp' : Path link r ks' c) : ks = ks' := by
  induction hp generalizing ks' with
  | nil =>
    cases hp' with
    | nil => rfl
    | snoc _ hl => exact absurd hl h.not_root
  | snoc _ hl ih =>
    cases hp' with
    | nil => exact absurd hl h.not_root
    | snoc hq hl' =>
      obtain ⟨rfl, rfl⟩ := h.unique hl hl'
      rw [ih hq]

/-- **Every node of the tree is reached by exactly one path.** -/
theorem existsUnique_path (h : Rooted att link r) (hc : att c) : ∃! ks, Path link r ks c := by
  obtain ⟨ks, hks⟩ := h.exists_path hc
  exact ⟨ks, hks, fun ks' hks' => h.path_unique hks' hks⟩

end Rooted

end Lib
