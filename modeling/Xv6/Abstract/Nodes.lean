import Xv6.Abstract.Volume
import Xv6.Lib.Descent

/-!
# The volume that nodes stand for

A directory of the tree has its entries besides the dots as children, by their texts, and the paths
of the volume are the descents from the root along children.  What the operations do to the nodes is
stated in terms of entries, link counts and bytes of directories; here it is stated again in terms
of the volume.  Walking along the texts of a path, with `.` and `..` among them, is the same as
following the entries of the directories.

Two entries of one directory never have the same text, `σ.Distinct`.  `dirlink` sees to that, as
it looks the name up first.

`Nodes.volume` is the volume, and `Lib.descend` its map from paths to nodes.  An operation changes
`child` at one place, and by `Lib.descend_update` the volume at one path.
-/

namespace Xv6

open Lib

/-- What a node is to the users. -/
def Node.object (n : Node) : Object :=
  if n.type = T_DIR then .dir else if n.type = T_DEV then .dev n.major n.minor else .file n.data

namespace Nodes

variable (σ : Nodes)

/-- The node that a directory of the tree has under a text, besides the dots. -/
def child (p : ℕ) (c : Text) : Option ℕ :=
  if c = dot.text ∨ c = dotdot.text then none
  else (σ p).bind fun n => if n.type = T_DIR ∧ 0 < n.nlink then n.dict c else none

def volume : Volume where
  name := descend σ.child ROOTINO
  object i := (σ i).map Node.object

/-- No two entries in use of a directory have the same text. -/
def Distinct : Prop := ∀ p j k e e', σ.slot p j = some e → σ.slot p k = some e' → e.inum ≠ 0 →
  e'.inum ≠ 0 → e.name.text = e'.name.text → j = k

end Nodes

section

variable {σ σ' : Nodes} {N p c i k : ℕ} {n nc : Node} {name : Name} {x : Text} {q : List Text}

lemma text_dot : dot.text = [46] := by decide +kernel

lemma text_dotdot : dotdot.text = [46, 46] := by decide +kernel

namespace Nodes

lemma volume_name (σ : Nodes) (q : List Text) : σ.volume.name q = descend σ.child ROOTINO q := rfl

lemma volume_name_nil (σ : Nodes) : σ.volume.name [] = some ROOTINO := rfl

lemma volume_object (σ : Nodes) (i : ℕ) : σ.volume.object i = (σ i).map Node.object := rfl

/-! ## Children -/

lemma child_of_ne (hd : x ≠ dot.text) (hdd : x ≠ dotdot.text) (hn : σ p = some n)
    (ht : n.type = T_DIR) (hl : 0 < n.nlink) : σ.child p x = n.dict x := by
  rw [child, if_neg (by tauto), hn, Option.bind_some, if_pos ⟨ht, hl⟩]

lemma exists_slot_of_child (h : σ.child p x = some i) :
    x ≠ dot.text ∧ x ≠ dotdot.text ∧ i ≠ 0 ∧ ∃ k name, σ.slot p k = some ⟨i, name⟩ ∧
      name.text = x := by
  unfold child at h
  split_ifs at h with hx
  rw [not_or] at hx
  obtain ⟨n, hn, hd⟩ := Option.bind_eq_some_iff.mp h
  split_ifs at hd with hdir
  obtain ⟨k, hz, name, he, ht⟩ := Node.exists_names hd
  exact ⟨hx.1, hx.2, hz, k, name, (slot_of hn hdir.1 hdir.2).trans he, ht⟩

lemma Distinct.dict_eq_some (hu : σ.Distinct) (hn : σ p = some n) (ht : n.type = T_DIR)
    (hl : 0 < n.nlink) : n.dict x = some i ↔ ∃ k, n.Names k x i := by
  have hunique : n.Unique := by
    rintro j k x i i' ⟨hz, name, he, rfl⟩ ⟨hz', name', he', ht'⟩
    exact hu p j k _ _ ((slot_of hn ht hl).trans he) ((slot_of hn ht hl).trans he') hz hz' ht'.symm
  exact hunique.dict_eq_some_iff

namespace Tree

variable (h : σ.Tree N) (hu : σ.Distinct)

include h in
lemma two_le_of_slot (hs : σ.slot p k = some ⟨i, name⟩) (hd : name.text ≠ Xv6.dot.text)
    (hdd : name.text ≠ Xv6.dotdot.text) : 2 ≤ k := by
  have hdir : σ.DirAt p := .of_slot hs
  match k, hs with
  | 0, hs =>
    have he := Option.some.inj ((h.dot hdir).symm.trans hs)
    exact absurd (congrArg (fun e : Dirent => e.name.text) he).symm hd
  | 1, hs =>
    obtain ⟨r, hr, -⟩ := h.dotdot hdir
    have he := Option.some.inj (hr.symm.trans hs)
    exact absurd (congrArg (fun e : Dirent => e.name.text) he).symm hdd
  | k + 2, _ => exact Nat.le_add_left 2 k

include h in
lemma exists_dotdot (hd : σ.DirAt p) : ∃ r, r ≠ 0 ∧ σ.slot p 1 = some ⟨r, Xv6.dotdot⟩ ∧
    (p = ROOTINO ∧ r = ROOTINO ∨ ∃ k, σ.Link r k p) := by
  obtain ⟨r, hr, hcase⟩ := h.dotdot hd
  refine ⟨r, ?_, hr, hcase⟩
  rcases hcase with ⟨-, rfl⟩ | ⟨k', hlink⟩
  · decide
  · obtain ⟨m, hm, -⟩ := hlink.dirAt
    exact (h.pos hm).ne'

include h hu in
/-- **The children of a directory are what its links name.** -/
lemma child_eq_some : σ.child p x = some i ↔
    ∃ k name, 2 ≤ k ∧ i ≠ 0 ∧ σ.slot p k = some ⟨i, name⟩ ∧ name.text = x := by
  constructor
  · intro hc
    obtain ⟨hd, hdd, hz, k, name, hs, rfl⟩ := exists_slot_of_child hc
    exact ⟨k, name, h.two_le_of_slot hs hd hdd, hz, hs, rfl⟩
  · rintro ⟨k, name, hk, hz, hs, rfl⟩
    have hdir : σ.DirAt p := .of_slot hs
    obtain ⟨n, hn, ht, hl⟩ := id hdir
    have hdot : name.text ≠ Xv6.dot.text := fun he => by
      have hp0 : p ≠ 0 := (h.pos hn).ne'
      have := hu _ _ _ _ _ hs (h.dot hdir) hz hp0 he
      omega
    have hdotdot : name.text ≠ Xv6.dotdot.text := fun he => by
      obtain ⟨r, hr0, hr, -⟩ := h.exists_dotdot hdir
      have := hu _ _ _ _ _ hs hr hz hr0 he
      omega
    rw [child_of_ne hdot hdotdot hn ht hl, hu.dict_eq_some hn ht hl]
    exact ⟨k, hz, name, (slot_of hn ht hl).symm.trans hs, rfl⟩

include h hu in
lemma rooted_child : Rooted σ.Att (fun p x i => σ.child p x = some i) ROOTINO where
  root := h.root.att
  source hc := by
    obtain ⟨k, name, -, -, hs, -⟩ := (h.child_eq_some hu).mp hc
    exact (DirAt.of_slot hs).att
  target hc := by
    obtain ⟨k, name, hk, hz, hs, -⟩ := (h.child_eq_some hu).mp hc
    exact h.rooted.target ⟨hk, hz, name, hs⟩
  not_root hc := by
    obtain ⟨k, name, hk, hz, hs, -⟩ := (h.child_eq_some hu).mp hc
    exact h.rooted.not_root ⟨hk, hz, name, hs⟩
  unique hc hc' := by
    obtain ⟨k, name, hk, hz, hs, rfl⟩ := (h.child_eq_some hu).mp hc
    obtain ⟨k', name', hk', -, hs', rfl⟩ := (h.child_eq_some hu).mp hc'
    obtain ⟨rfl, rfl⟩ := h.rooted.unique ⟨hk, hz, name, hs⟩ ⟨hk', hz, name', hs'⟩
    exact ⟨rfl, congrArg (fun e : Dirent => e.name.text) (Option.some.inj (hs.symm.trans hs'))⟩
  linked := fun {c} hc hr => by
    obtain ⟨p, k, hk, hz, name, hs⟩ := h.rooted.linked hc hr
    exact ⟨p, name.text, (h.child_eq_some hu).mpr ⟨k, name, hk, hz, hs, rfl⟩⟩
  ranked := by
    obtain ⟨rank, hrank⟩ := h.rooted.ranked
    refine ⟨rank, fun {p x c} hc => ?_⟩
    obtain ⟨k, name, hk, hz, hs, -⟩ := (h.child_eq_some hu).mp hc
    exact hrank ⟨hk, hz, name, hs⟩

include h hu in
lemma separate : σ.volume.Separate := fun hq hq' => (h.rooted_child hu).descend_unique hq hq'

include h hu in
lemma exists_name_iff : (∃ q, σ.volume.name q = some i) ↔ σ.Att i :=
  ⟨fun ⟨_, hq⟩ => (h.rooted_child hu).att_of_descend hq, (h.rooted_child hu).exists_descend⟩

end Tree

/-! ## Names with dots -/

section

variable (h : σ.Tree N) (hu : σ.Distinct)

include h hu

lemma view_eq_dir (hq : σ.volume.name q = some p) :
    σ.volume.view q = some .dir ↔ σ.DirAt p := by
  obtain ⟨n, hn, hl⟩ := (h.exists_name_iff hu).mp ⟨q, hq⟩
  rw [Volume.view, hq, Option.bind_some, volume_object, hn, Option.map_some, Option.some_inj,
    Node.object]
  constructor
  · intro ho
    split_ifs at ho with ht ht'
    exact ⟨n, hn, ht, hl⟩
  · rintro ⟨m, hm, ht, -⟩
    obtain rfl := Option.some.inj (hn.symm.trans hm)
    rw [if_pos ht]

omit h in
lemma lookup_of_slot {e : Dirent} (hs : σ.slot p k = some e) (hz : e.inum ≠ 0) :
    σ.lookup p e.name.text = some e.inum := by
  obtain ⟨n, hn, ht, hl, he⟩ := exists_of_slot hs
  rw [lookup, hn, Option.bind_some, if_pos ht, hu.dict_eq_some hn ht hl]
  exact ⟨k, hz, e.name, he, rfl⟩

lemma lookup_dotdot (hq : σ.volume.name q = some p) (hd : σ.DirAt p) :
    σ.lookup p dotdot.text = σ.volume.name q.dropLast := by
  obtain ⟨r, hr0, hr, hcase⟩ := h.exists_dotdot hd
  rw [lookup_of_slot hu hr hr0]
  rcases hcase with ⟨rfl, rfl⟩ | ⟨k, hlink⟩
  · rw [(h.rooted_child hu).descend_unique hq descend_nil]
    rfl
  · obtain ⟨hk, hz, name, hs⟩ := hlink
    have hchild := (h.child_eq_some hu).mpr ⟨k, name, hk, hz, hs, rfl⟩
    obtain ⟨ks, hks⟩ := (h.rooted_child hu).exists_descend (DirAt.of_slot hs).att
    have hdescend : descend σ.child ROOTINO (ks ++ [name.text]) = some p := by
      rw [descend_concat, hks, Option.bind_some, hchild]
    rw [(h.rooted_child hu).descend_unique hq hdescend, List.dropLast_concat]
    exact hks.symm

/-- **One name, with dots, is one look into a directory.** -/
lemma step_name (hq : σ.volume.name q = some p) (x : Text) :
    (σ.volume.step q x).bind σ.volume.name = σ.lookup p x := by
  obtain ⟨n, hn, hl⟩ := (h.exists_name_iff hu).mp ⟨q, hq⟩
  unfold Volume.step
  by_cases hd : σ.DirAt p
  · rw [if_pos ((view_eq_dir h hu hq).mpr hd)]
    obtain ⟨m, hm, ht, -⟩ := id hd
    obtain rfl := Option.some.inj (hn.symm.trans hm)
    split_ifs with hx hx' hsome
    · rw [Option.bind_some, hq, hx]
      exact (lookup_of_slot hu (h.dot hd) (h.pos hn).ne').symm
    · rw [Option.bind_some, hx', lookup_dotdot h hu hq hd]
    all_goals
      have hname : σ.volume.name (q ++ [x]) = σ.lookup p x := by
        rw [volume_name, descend_concat, ← volume_name, hq, Option.bind_some,
          child_of_ne hx hx' hn ht hl, lookup, hn, Option.bind_some, if_pos ht]
    · rw [Option.bind_some, hname]
    · rw [← hname, Option.bind_none]
      exact (Option.not_isSome_iff_eq_none.mp hsome).symm
  · rw [if_neg fun hv => hd ((view_eq_dir h hu hq).mp hv), Option.bind_none, lookup, hn,
      Option.bind_some, if_neg fun ht => hd ⟨n, hn, ht, hl⟩]

lemma exists_name_of_step {q' : List Text} (hq : σ.volume.name q = some p)
    (hs : σ.volume.step q x = some q') : ∃ i, σ.volume.name q' = some i := by
  unfold Volume.step at hs
  split_ifs at hs with hv hx hx' hsome
  · exact Option.some.inj hs ▸ ⟨p, hq⟩
  · rw [← Option.some.inj hs, ← lookup_dotdot h hu hq ((view_eq_dir h hu hq).mp hv)]
    obtain ⟨r, hr0, hr, -⟩ := h.exists_dotdot ((view_eq_dir h hu hq).mp hv)
    exact ⟨r, lookup_of_slot hu hr hr0⟩
  · exact Option.some.inj hs ▸ Option.isSome_iff_exists.mp hsome

lemma foldlM_step (hq : σ.volume.name q = some p) (cs : List Text) :
    (cs.foldlM σ.volume.step q).bind σ.volume.name = σ.follow cs p := by
  induction cs generalizing q p with
  | nil => exact hq
  | cons c cs ih =>
    have hstep := step_name h hu hq c
    rw [List.foldlM_cons, follow, List.foldlM_cons, ← hstep]
    cases hs : σ.volume.step q c with
    | none => rfl
    | some q' =>
      obtain ⟨i, hi⟩ := exists_name_of_step h hu hq hs
      simp only [Option.bind_some, hi, Option.bind_eq_bind]
      exact ih hi

/-- **Paths with dots are resolved on the volume as on the nodes.** -/
lemma find_name (cs : List Text) :
    (σ.volume.find cs).bind σ.volume.name = σ.follow cs ROOTINO :=
  foldlM_step h hu σ.volume_name_nil cs

lemma exists_name_of_find {cs : List Text} (hf : σ.volume.find cs = some q) :
    ∃ i, σ.volume.name q = some i := by
  induction cs using List.reverseRecOn generalizing q with
  | nil => exact ⟨ROOTINO, Option.some.inj hf ▸ σ.volume_name_nil⟩
  | append_singleton cs c ih =>
    rw [Volume.find, List.foldlM_append] at hf
    obtain ⟨q', hq', hs⟩ := Option.bind_eq_some_iff.mp hf
    obtain ⟨i, hi⟩ := ih hq'
    rw [List.foldlM_cons] at hs
    obtain ⟨q'', hs', hnil⟩ := Option.bind_eq_some_iff.mp hs
    obtain rfl := Option.some.inj hnil
    exact exists_name_of_step h hu hi hs'

lemma findParent_name (cs : List Text) :
    ((σ.volume.findParent cs).bind fun x => (σ.volume.name x.1).map fun p => (p, x.2)) =
      σ.followParent cs ROOTINO := by
  unfold Volume.findParent followParent
  cases cs.getLast? with
  | none => rfl
  | some c =>
    simp only [Option.bind_eq_bind, Option.bind_some]
    rw [← find_name h hu]
    cases hf : σ.volume.find cs.dropLast with
    | none => rfl
    | some q =>
      obtain ⟨p, hp⟩ := exists_name_of_find h hu hf
      obtain ⟨n, hn, hl⟩ := (h.exists_name_iff hu).mp ⟨q, hp⟩
      simp only [Option.bind_some, hp, hn]
      by_cases ht : n.type = T_DIR
      · rw [if_pos ht, if_pos ((view_eq_dir h hu hp).mpr ⟨n, hn, ht, hl⟩), Option.bind_some, hp]
        rfl
      · have hv : σ.volume.view q ≠ some .dir := fun hv => by
          obtain ⟨m, hm, ht', -⟩ := (view_eq_dir h hu hp).mp hv
          exact ht (Option.some.inj (hn.symm.trans hm) ▸ ht')
        rw [if_neg ht, if_neg hv]
        rfl

variable {path : CString}

lemma findParent_of_none (hp : σ.parent path = none) :
    σ.volume.findParent (components path.bytes) = none := by
  have hfollow : (σ.parent path).map (fun x => (x.1, x.2.text)) =
      σ.followParent (components path.bytes) ROOTINO :=
    walk_true (Nat.lt_succ_self _) path.nonzero
  rw [hp, ← findParent_name h hu] at hfollow
  cases hf : σ.volume.findParent (components path.bytes) with
  | none => rfl
  | some x =>
    rw [hf] at hfollow
    have hview : ∃ i, σ.volume.name x.1 = some i := by
      unfold Volume.findParent at hf
      simp only [Option.bind_eq_bind, Option.bind_eq_some_iff] at hf
      obtain ⟨c, -, q, hq, hx⟩ := hf
      split_ifs at hx
      exact Option.some.inj hx ▸ exists_name_of_find h hu hq
    obtain ⟨i, hi⟩ := hview
    rw [Option.bind_some, hi] at hfollow
    cases hfollow

lemma exists_findParent (hp : σ.parent path = some (p, name)) :
    ∃ q, σ.volume.findParent (components path.bytes) = some (q, name.text) ∧
      σ.volume.name q = some p := by
  have hfollow : (σ.parent path).map (fun x => (x.1, x.2.text)) =
      σ.followParent (components path.bytes) ROOTINO :=
    walk_true (Nat.lt_succ_self _) path.nonzero
  rw [hp, ← findParent_name h hu] at hfollow
  obtain ⟨⟨q, c⟩, hq, hx⟩ := Option.bind_eq_some_iff.mp hfollow.symm
  obtain ⟨i, hi, he⟩ := Option.map_eq_some_iff.mp hx
  obtain ⟨rfl, rfl⟩ := Prod.mk.inj he
  exact ⟨q, hq, hi⟩

end

/-! ## Changes of the nodes -/

lemma Keeps.volume_name (hk : Keeps σ σ') (q : List Text) :
    σ'.volume.name q = σ.volume.name q := by
  have hchild : σ'.child = σ.child := by
    funext p x
    unfold child
    by_cases hd : σ.DirAt p
    · obtain ⟨n, hn, ht, hl⟩ := hd
      obtain ⟨n', hn', ht', hl', hdata⟩ := hk.forth hn hl
      rw [hn, hn', Option.bind_some, Option.bind_some, ht', hl', Node.dict, Node.dict, Node.entries,
        Node.entries, hdata ht]
    · refine if_congr Iff.rfl rfl ?_
      have hnone : ∀ {τ : Nodes}, ¬ τ.DirAt p → ((τ p).bind fun n =>
          if n.type = T_DIR ∧ 0 < n.nlink then n.dict x else none) = none := fun {τ} hτ => by
        refine Option.bind_eq_none_iff.mpr fun n hn => if_neg fun hh => hτ ⟨n, hn, hh⟩
      rw [hnone hd, hnone fun hd' => hd ((hk.dirAt p).mp hd')]
  rw [Nodes.volume_name, hchild, Nodes.volume_name]

lemma Keeps.distinct (hk : Keeps σ σ') (hu : σ.Distinct) : σ'.Distinct := by
  intro p j k e e' hj hk'
  exact hu p j k e e' ((hk.slot p j).symm.trans hj) ((hk.slot p k).symm.trans hk')

lemma volume_update_data (hn : σ i = some n) (ht : n.type ≠ T_DIR) (ht' : n.type ≠ T_DEV)
    (data : List UInt8) :
    volume (Function.update σ i (some { n with data := data })) = σ.volume.store i data := by
  refine Volume.ext (funext (keeps_data hn ht data).volume_name) (funext fun j => ?_)
  rw [volume_object, Volume.store_object, volume_object, Function.update_apply, apply_ite
    (Option.map _)]
  refine if_congr Iff.rfl ?_ rfl
  rw [Option.map_some, Node.object, if_neg ht, if_neg ht']

lemma volume_update_none (hn : σ i = some n) (hl : n.nlink = 0) :
    volume (Function.update σ i none) = σ.volume.free i := by
  refine Volume.ext (funext (keeps_free hn hl).volume_name) (funext fun j => ?_)
  rw [volume_object, Volume.free_object, volume_object, Function.update_apply, apply_ite
    (Option.map _)]
  rfl

namespace Adds

variable (ha : Adds N σ σ' p k c name nc) (hu : σ.Distinct)
  (hfresh : ∀ j e, σ.slot p j = some e → e.inum ≠ 0 → e.name.text ≠ name.text)

include ha hu hfresh

lemma distinct : σ'.Distinct := by
  intro p' j k' e e' hj hk hz hz' ht
  rcases ha.slot_cases hj with ⟨rfl, rfl, rfl⟩ | ⟨rfl, -, hj'⟩ | ⟨hc, -, hj'⟩
  · rcases ha.slot_cases hk with ⟨-, rfl, -⟩ | ⟨he, -, -⟩ | ⟨-, -, hk'⟩
    · rfl
    · exact absurd he ha.parent_ne
    · exact absurd ht.symm (hfresh k' e' hk' hz')
  · rcases ha.slot_cases hk with ⟨he, -, -⟩ | ⟨-, -, hk'⟩ | ⟨hc, -, -⟩
    · exact absurd he.symm ha.parent_ne
    · have hne : dot.text ≠ dotdot.text := by
        rw [text_dot, text_dotdot]
        decide
      rcases hj' with ⟨rfl, rfl⟩ | ⟨rfl, rfl⟩ <;> rcases hk' with ⟨rfl, rfl⟩ | ⟨rfl, rfl⟩
      · rfl
      · exact absurd ht hne
      · exact absurd ht.symm hne
      · rfl
    · exact absurd rfl hc
  · rcases ha.slot_cases hk with ⟨rfl, rfl, rfl⟩ | ⟨rfl, -, -⟩ | ⟨-, -, hk'⟩
    · exact absurd ht (hfresh j e hj' hz)
    · exact absurd rfl hc
    · exact hu p' j k' e e' hj' hk' hz hz' ht

lemma child (h : σ.Tree N) (p' : ℕ) (x : Text) :
    σ'.child p' x = if p' = p ∧ x = name.text then some c else σ.child p' x := by
  have h' := h.add ha
  have hu' := ha.distinct hu hfresh
  refine Option.ext fun i => ?_
  rw [h'.child_eq_some hu']
  split_ifs with hx
  · obtain ⟨rfl, rfl⟩ := hx
    constructor
    · rintro ⟨k', name', hk', hz, hs, ht⟩
      rcases ha.slot_cases hs with ⟨-, -, he⟩ | ⟨he, -, -⟩ | ⟨-, -, hs'⟩
      · exact congrArg (fun e : Dirent => some e.inum) he.symm
      · exact absurd he ha.parent_ne
      · exact absurd ht (hfresh k' _ hs' hz)
    · intro he
      obtain rfl := Option.some.inj he
      exact ⟨k, name, ha.two_le, ha.pos.ne', by rw [ha.slot_parent, if_pos rfl], rfl⟩
  · rw [h.child_eq_some hu]
    constructor
    · rintro ⟨k', name', hk', hz, hs, rfl⟩
      rcases ha.slot_cases hs with ⟨rfl, -, he⟩ | ⟨-, -, ⟨rfl, -⟩ | ⟨rfl, -⟩⟩ | ⟨-, -, hs'⟩
      · exact absurd ⟨rfl, congrArg (fun e : Dirent => e.name.text) he⟩ hx
      · omega
      · omega
      · exact ⟨k', name', hk', hz, hs', rfl⟩
    · rintro ⟨k', name', hk', hz, hs, rfl⟩
      exact ⟨k', name', hk', hz, ha.slot_of_old hs hz, rfl⟩

/-- **A new node puts a new path into the volume.** -/
lemma volume (h : σ.Tree N) (hq : σ.volume.name q = some p) :
    σ'.volume = σ.volume.put (q ++ [name.text]) c nc.object := by
  have hchild := ha.child hu hfresh h
  have hleaf : ∀ x, σ.child c x = none := fun x => by
    cases hc : σ.child c x with
    | none => rfl
    | some i => exact absurd ((h.rooted_child hu).source hc) ha.not_att
  refine Volume.ext (funext fun ks => ?_) (funext fun i => ?_)
  · rw [volume_name, (h.rooted_child hu).descend_update hq hchild, Volume.put_name, volume_name]
    · intro x hx
      obtain ⟨k', name', -, hz, hs, ht⟩ := (h.child_eq_some hu).mp hx
      exact absurd ht (hfresh k' _ hs hz)
    · intro x hx k'
      obtain rfl := Option.some.inj hx
      rw [hchild, if_neg fun hh => ha.parent_ne hh.1.symm, hleaf]
  · rw [volume_object, Volume.put_object]
    split_ifs with hi
    · rw [hi, ha.new, Option.map_some]
    · by_cases hip : i = p
      · obtain ⟨np, np', hnp, ht, -, hnp', hd, -⟩ := ha.parent
        rw [hip, hnp', volume_object, hnp, Option.map_some, Option.map_some,
          Node.object, Node.object, if_pos hd.type, if_pos ht]
      · rw [ha.other i hip hi, volume_object]

end Adds

namespace Removes

variable (hr : Removes σ σ' p k c nc) (h : σ.Tree N) (hu : σ.Distinct)

include hr h hu

lemma distinct : σ'.Distinct := by
  intro p' j k' e e' hj hk hz hz' ht
  exact hu p' j k' e e' ((hr.slot_iff h hz).mp hj).1 ((hr.slot_iff h hz').mp hk).1 hz hz' ht

lemma child (hs : σ.slot p k = some ⟨c, name⟩) (p' : ℕ) (x : Text) :
    σ'.child p' x = if p' = p ∧ x = name.text then none else σ.child p' x := by
  have hz : c ≠ 0 := hr.link.2.1
  have hchild : σ.child p name.text = some c :=
    (h.child_eq_some hu).mpr ⟨k, name, hr.link.1, hz, hs, rfl⟩
  refine Option.ext fun i => ?_
  rw [(h.remove hr).child_eq_some (hr.distinct h hu)]
  split_ifs with hx
  · obtain ⟨rfl, rfl⟩ := hx
    refine iff_of_false ?_ (by simp)
    rintro ⟨k', name', hk', hz', hs', ht⟩
    obtain ⟨hs', -, hne⟩ := (hr.slot_iff h (e := ⟨i, name'⟩) hz').mp hs'
    exact hne ⟨rfl, hu _ _ _ _ _ hs' hs hz' hz ht⟩
  · rw [h.child_eq_some hu]
    constructor
    · rintro ⟨k', name', hk', hz', hs', rfl⟩
      exact ⟨k', name', hk', hz', ((hr.slot_iff h (e := ⟨i, name'⟩) hz').mp hs').1, rfl⟩
    · rintro ⟨k', name', hk', hz', hs', rfl⟩
      refine ⟨k', name', hk', hz', (hr.slot_iff h (e := ⟨i, name'⟩) hz').mpr ⟨hs', ?_, ?_⟩, rfl⟩
      · rintro rfl
        exact hr.not_link ⟨hk', hz', name', hs'⟩
      · rintro ⟨rfl, rfl⟩
        have he := Option.some.inj (hs.symm.trans hs')
        exact hx ⟨rfl, (congrArg (fun e : Dirent => e.name.text) he).symm⟩

/-- **A node that is cut off takes its path out of the volume.** -/
lemma volume (hs : σ.slot p k = some ⟨c, name⟩) (hq : σ.volume.name q = some p) :
    σ'.volume = σ.volume.erase (q ++ [name.text]) := by
  have hchild := hr.child h hu hs
  refine Volume.ext (funext fun ks => ?_) (funext fun i => ?_)
  · rw [volume_name, (h.rooted_child hu).descend_update hq hchild, Volume.erase_name, volume_name]
    · intro x hx k'
      have hc : σ.child p name.text = some c :=
        (h.child_eq_some hu).mpr ⟨k, name, hr.link.1, hr.link.2.1, hs, rfl⟩
      obtain rfl := Option.some.inj (hc.symm.trans hx)
      cases hx' : σ.child c k' with
      | none => rfl
      | some i =>
        obtain ⟨j, name', hj, hz, hs', -⟩ := (h.child_eq_some hu).mp hx'
        exact absurd ⟨hj, hz, name', hs'⟩ hr.not_link
    · intro x hx
      cases hx
  · rw [volume_object, Volume.erase_object, volume_object]
    by_cases hic : i = c
    · rw [hic, hr.gone, hr.node]
      rfl
    by_cases hip : i = p
    · obtain ⟨np, np', hnp, ht, -, hnp', hd, -⟩ := hr.parent_spec h
      rw [hip, hnp', hnp, Option.map_some, Option.map_some, Node.object, Node.object,
        if_pos hd.type, if_pos ht]
    · rw [hr.other i hip hic]

end Removes

end Nodes

end

end Xv6
