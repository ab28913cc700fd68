import Xv6.Fs.Map
import Xv6.Fs.Path
import Mathlib.Data.List.TakeWhile

/-!
# Paths as lists of names

The components of a path are the runs of bytes between its slashes, each cut to `DIRSIZ` bytes.
`skipelem` takes them off one by one, wherever the slashes are, and so the walk of `namex` is a fold
over the components that looks each of them up in the directory reached so far.

* `components` splits the whole path at once, and `components_of_skipelem` says that `skipelem` is
  its first step; `skipelem_eq_none_iff` says when there is none.
* `Nodes.follow` and `Nodes.followParent` are the folds for `namei` and `nameiparent`.
* `Nodes.walk_false` and `Nodes.walk_true` say that the walk of `Xv6.Fs.Path`, which calls
  `skipelem`, is the fold.

`nameiparent` stops in front of the last component, and whether a component is the last one is seen
from the rest of the path, which may still have slashes (`components_dropWhile_eq_nil_iff`).
-/

namespace Xv6

open Lib

/-! ## Components -/

/-- The maximal runs of bytes other than `'/'`, each cut to `DIRSIZ` bytes. -/
def components (path : List UInt8) : List (List UInt8) :=
  ((path.splitOnP (· = slash)).filter (· ≠ [])).map (List.take DIRSIZ)

section

variable {p q path path' elem : List UInt8} {name name' : Name}

@[simp] lemma components_nil : components [] = [] := rfl

lemma components_append_slash (p q : List UInt8) :
    components (p ++ slash :: q) = components p ++ components q := by
  have hsplit : (p ++ slash :: q).splitOnP (· = slash) =
      p.splitOnP (· = slash) ++ q.splitOnP (· = slash) :=
    List.splitOnP_append_cons p q (by simp)
  rw [components, hsplit, List.filter_append, List.map_append]
  rfl

@[simp] lemma components_slash (q : List UInt8) : components (slash :: q) = components q :=
  components_append_slash [] q

lemma components_of_notMem (h : slash ∉ p) (hne : p ≠ []) : components p = [p.take DIRSIZ] := by
  have hsplit : p.splitOnP (· = slash) = [p] :=
    List.splitOnP_eq_singleton fun x hx => decide_eq_false fun he => h (he ▸ hx)
  rw [components, hsplit]
  simp [hne]

lemma components_dropWhile (p : List UInt8) :
    components (p.dropWhile (· = slash)) = components p := by
  induction p with
  | nil => rfl
  | cons c p ih =>
    by_cases hc : c = slash
    · rw [List.dropWhile_cons_of_pos (by simpa using hc), ih, hc, components_slash]
    · rw [List.dropWhile_cons_of_neg (by simpa using hc)]

lemma components_takeWhile (h : p.takeWhile (· ≠ slash) ≠ []) :
    components p = (p.takeWhile (· ≠ slash)).take DIRSIZ ::
      components (p.dropWhile (· ≠ slash)) := by
  have hnot : slash ∉ p.takeWhile (· ≠ slash) := fun hin => by
    simpa using List.mem_takeWhile_imp hin
  have hone := components_of_notMem hnot h
  conv_lhs => rw [← List.takeWhile_append_dropWhile (p := (· ≠ slash)) (l := p)]
  cases hr : p.dropWhile (· ≠ slash) with
  | nil =>
    rw [List.append_nil, hone]
    rfl
  | cons c rest =>
    have hc : c = slash := by
      have := List.head?_dropWhile_not (fun c => decide (c ≠ slash)) p
      rw [hr] at this
      simpa using this
    rw [hc, components_append_slash, hone, components_slash]
    rfl

/-! ## skipelem -/

lemma text_moveName (h : 0 ∉ elem) (name : Name) :
    (moveName elem name).text = elem.take DIRSIZ := by
  set l := (List.range DIRSIZ).map (moveName elem name).get with hl
  have hget : ∀ j < DIRSIZ, (moveName elem name).get j =
      if j < elem.length then elem.getD j 0 else if j = elem.length then 0 else name.get j :=
    fun j hj => by
      simp only [Bytes.get, dif_pos hj, moveName]
  have hlen : l.length = DIRSIZ := by simp [hl]
  have htake : l.take elem.length = elem.take DIRSIZ := by
    refine List.ext_getElem (by simp [hlen, Nat.min_comm]) fun j h₁ h₂ => ?_
    simp only [List.length_take] at h₁ h₂
    simp only [List.getElem_take, hl, List.getElem_map, List.getElem_range]
    rw [hget j (by omega), if_pos (by omega), List.getD_eq_getElem _ _ (by omega)]
  have hpos : ∀ c ∈ elem.take DIRSIZ, decide (c ≠ 0) = true := fun c hc =>
    decide_eq_true fun hz => h (hz ▸ (List.take_sublist _ _).subset hc)
  rw [Name.text, ← hl, ← List.take_append_drop elem.length l, htake,
    List.takeWhile_append_of_pos hpos]
  refine (congrArg _ ?_).trans (List.append_nil _)
  rcases Nat.lt_or_ge elem.length l.length with hlt | hge
  · rw [List.drop_eq_getElem_cons hlt, List.takeWhile_cons_of_neg]
    simp only [hl, List.getElem_map, List.getElem_range]
    rw [hget _ (hlen ▸ hlt), if_neg (lt_irrefl _), if_pos rfl]
    simp
  · rw [List.drop_eq_nil_of_le hge, List.takeWhile_nil]

lemma takeWhile_ne_nil {c : UInt8} {rest : List UInt8}
    (h : path.dropWhile (· = slash) = c :: rest) : (c :: rest).takeWhile (· ≠ slash) ≠ [] := by
  have hc : c ≠ slash := by
    have := List.head?_dropWhile_not (fun c => decide (c = slash)) path
    rw [h] at this
    simpa using this
  rw [List.takeWhile_cons_of_pos (by simpa using hc)]
  exact List.cons_ne_nil _ _

lemma components_dropWhile_eq_nil_iff :
    path.dropWhile (· = slash) = [] ↔ components path = [] := by
  rw [← components_dropWhile path]
  cases hs : path.dropWhile (· = slash) with
  | nil => simp
  | cons c rest =>
    rw [components_takeWhile (takeWhile_ne_nil hs)]
    simp

lemma skipelem_eq_none_iff : skipelem path name = none ↔ components path = [] := by
  rw [skipelem, ← components_dropWhile_eq_nil_iff]
  cases path.dropWhile (· = slash) <;> simp

/-- **`skipelem` takes off the first component.** -/
lemma components_of_skipelem (h : skipelem path name = some (name', path')) (hz : 0 ∉ path) :
    components path = name'.text :: components path' ∧ 0 ∉ path' ∧
      (path' = [] ↔ components path' = []) := by
  rw [skipelem] at h
  cases hs : path.dropWhile (· = slash) with
  | nil => simp [hs] at h
  | cons c rest =>
    simp only [hs, Option.some.injEq, Prod.mk.injEq] at h
    obtain ⟨rfl, rfl⟩ := h
    have hsub : c :: rest ⊆ path := hs ▸ (List.dropWhile_sublist _).subset
    refine ⟨?_, fun hin => hz (hsub ?_), ?_⟩
    · rw [← components_dropWhile path, hs, components_takeWhile (takeWhile_ne_nil hs),
        components_dropWhile, text_moveName fun hin => hz (hsub ?_)]
      exact (List.takeWhile_sublist _).subset hin
    · exact (List.dropWhile_sublist _).subset ((List.dropWhile_sublist _).subset hin)
    · rw [components_dropWhile, components_dropWhile_eq_nil_iff]

end

/-! ## The fold -/

/-- The inode that a directory names. -/
def Nodes.lookup (σ : Nodes) (i : ℕ) (c : List UInt8) : Option ℕ :=
  (σ i).bind fun n => if n.type = T_DIR then n.dict c else none

/-- The inode that a list of names leads to. -/
def Nodes.follow (σ : Nodes) (cs : List (List UInt8)) (i : ℕ) : Option ℕ := cs.foldlM σ.lookup i

/-- The directory that all but the last of a list of names lead to, and the last. -/
def Nodes.followParent (σ : Nodes) (cs : List (List UInt8)) (i : ℕ) : Option (ℕ × List UInt8) := do
  let c ← cs.getLast?
  let j ← σ.follow cs.dropLast i
  let n ← σ j
  if n.type = T_DIR then some (j, c) else none

section

variable {σ : Nodes} {i : ℕ} {n : Node} {turns : ℕ} {path : List UInt8} {name : Name}

lemma Node.map_inum_find (n : Node) (name : Name) :
    (n.find name).map Dirent.inum = n.dict name.text := by
  have hp : (fun e : Dirent => decide (e.Matches name)) =
      fun e => decide (e.inum ≠ 0 ∧ e.name.text = name.text) := funext fun e =>
    decide_eq_decide.mpr (and_congr_right fun _ => namecmp_eq_zero_iff.trans eq_comm)
  rw [Node.find, findName, ← List.find?_eq_bind_findIdx?_getElem?, hp]
  rfl

/-- **The walk to a node is a fold over the components.** -/
lemma Nodes.walk_false (hturns : path.length < turns) (hz : 0 ∉ path) :
    (σ.walk false turns path name i).map Prod.fst = σ.follow (components path) i := by
  induction turns generalizing path name i with
  | zero => exact absurd hturns (Nat.not_lt_zero _)
  | succ turns ih =>
    rw [Nodes.walk]
    cases hs : skipelem path name with
    | none =>
      rw [skipelem_eq_none_iff.mp hs]
      rfl
    | some q =>
      obtain ⟨name', path'⟩ := q
      obtain ⟨hcs, hz', -⟩ := components_of_skipelem hs hz
      have hlt : path'.length < turns := (length_skipelem hs).trans_le (Nat.lt_succ_iff.mp hturns)
      rw [hcs, Nodes.follow, List.foldlM_cons, Nodes.lookup]
      cases hi : σ i with
      | none => rfl
      | some n =>
        simp only [Option.bind_some]
        by_cases ht : n.type = T_DIR
        · rw [if_neg (not_not.mpr ht), if_neg (by simp), if_pos ht, ← n.map_inum_find name']
          cases n.find name' with
          | none => rfl
          | some e => exact ih hlt hz'
        · rw [if_pos ht, if_neg ht]
          rfl

lemma Nodes.followParent_cons_cons (σ : Nodes) (c c' : List UInt8)
    (cs : List (List UInt8)) (i : ℕ) :
    σ.followParent (c :: c' :: cs) i = (σ.lookup i c).bind (σ.followParent (c' :: cs)) := by
  simp only [followParent, List.getLast?_cons_cons, List.dropLast_cons_cons, follow,
    List.foldlM_cons]
  cases σ.lookup i c with
  | none => simp
  | some j => rfl

/-- **The walk to the last directory.** -/
lemma Nodes.walk_true (hturns : path.length < turns) (hz : 0 ∉ path) :
    (σ.walk true turns path name i).map (fun x => (x.1, x.2.text)) =
      σ.followParent (components path) i := by
  induction turns generalizing path name i with
  | zero => exact absurd hturns (Nat.not_lt_zero _)
  | succ turns ih =>
    rw [Nodes.walk]
    cases hs : skipelem path name with
    | none =>
      rw [skipelem_eq_none_iff.mp hs]
      rfl
    | some q =>
      obtain ⟨name', path'⟩ := q
      obtain ⟨hcs, hz', hnil⟩ := components_of_skipelem hs hz
      have hlt : path'.length < turns := (length_skipelem hs).trans_le (Nat.lt_succ_iff.mp hturns)
      rw [hcs]
      cases hp : components path' with
      -- the last component: `nameiparent` stops at the directory and leaves the name in the buffer
      | nil =>
        have hpath := hnil.mpr hp
        cases hi : σ i with
        | none => simp [followParent, follow, hi]
        | some n => by_cases ht : n.type = T_DIR <;> simp [followParent, follow, hi, ht, hpath]
      | cons c cs =>
        have hpath : path' ≠ [] := fun h => by simp [h] at hp
        rw [followParent_cons_cons, ← hp, Nodes.lookup]
        cases hi : σ i with
        | none => rfl
        | some n =>
          simp only [Option.bind_some]
          by_cases ht : n.type = T_DIR
          · rw [if_neg (not_not.mpr ht), if_neg (by simp [hpath]), if_pos ht,
              ← n.map_inum_find name']
            cases n.find name' with
            | none => rfl
            | some e => exact ih hlt hz'
          · rw [if_pos ht, if_neg ht]
            rfl

end

end Xv6
