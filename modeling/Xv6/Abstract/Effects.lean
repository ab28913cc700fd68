import Xv6.Abstract.Nodes

/-!
# Creating, opening and unlinking on the volume

What `create`, `open` and `unlink` do to the nodes is what `Volume.Creates`, `Volume.Opens` and
`Volume.Removable` say of the volume.  Besides the tree this takes `σ.Plain`: no directory has a
text twice, and there are no nodes but directories, files and devices.  Every operation keeps it.

Names are where the two levels differ.  The code compares `DIRSIZ` bytes and walks through `.` and
`..` as entries like the others; the volume has texts, and paths without dots.  `lookup_text` and
`exists_step` are about one component of a path, `Makes.volume`, `Opens.volume`, `Unlinks.volume`
and `Closes.volume` about whole calls.  `Layout.Presents` says what drives present to a user, after
a recovery if need be.
-/

namespace Xv6

open Lib

/-- No directory has a text twice, and a node is a directory, a file or a device. -/
structure Nodes.Plain (σ : Nodes) : Prop where
  distinct : σ.Distinct
  typed : ∀ {i n}, σ i = some n → n.type = T_DIR ∨ n.type = T_FILE ∨ n.type = T_DEV

section

variable {σ σ' : Nodes} {N p c i k : ℕ} {n np nc : Node} {name : Name} {e : Dirent} {t : Table}
  {path : CString} {type major minor : ℤ} {omode : UInt32} {x : Option ℕ} {q : List Text}

/-! ## Objects -/

namespace Node

lemma isFile_object (ht : n.type = T_DIR ∨ n.type = T_FILE ∨ n.type = T_DEV) :
    n.object.IsFile ↔ n.type = T_FILE := by
  unfold object
  rcases ht with ht | ht | ht <;> simp [ht, Object.IsFile]

lemma object_eq_dir : n.object = .dir ↔ n.type = T_DIR := by
  unfold object
  split_ifs <;> simp_all

lemma object_congr {m : Node} (ht : n.type = m.type) (hmajor : n.major = m.major)
    (hminor : n.minor = m.minor) (hdata : m.type ≠ T_DIR → n.data = m.data) :
    n.object = m.object := by
  unfold object
  rw [ht, hmajor, hminor]
  refine ite_congr rfl (fun _ => rfl) fun hd => ?_
  rw [hdata hd]

end Node

namespace Nodes

lemma Plain.keeps (hp : σ.Plain) (hk : Keeps σ σ') : σ'.Plain where
  distinct := hk.distinct hp.distinct
  typed hn := by
    obtain ⟨m, hm, ht, -⟩ := hk.back hn
    exact ht ▸ hp.typed hm

lemma Plain.adds (hp : σ.Plain) (ha : Adds N σ σ' p k c name nc)
    (hfresh : ∀ j e, σ.slot p j = some e → e.inum ≠ 0 → e.name.text ≠ name.text)
    (ht : nc.type = T_DIR ∨ nc.type = T_FILE ∨ nc.type = T_DEV) : σ'.Plain where
  distinct := ha.distinct hp.distinct hfresh
  typed hn := by
    rcases ha.back hn with ⟨-, rfl⟩ | ⟨-, hd, -⟩ | ⟨-, -, hn'⟩
    · exact ht
    · exact Or.inl hd.type
    · exact hp.typed hn'

lemma Plain.removes (hp : σ.Plain) (h : σ.Tree N) (hr : Removes σ σ' p k c nc) : σ'.Plain where
  distinct := hr.distinct h hp.distinct
  typed hn := by
    rcases hr.back h hn with ⟨-, he⟩ | ⟨-, hd, -⟩ | ⟨-, -, hn'⟩
    · have ht := hp.typed hr.node
      rwa [he]
    · exact Or.inl hd.type
    · exact hp.typed hn'

/-! ## Looking names up -/

section

variable (h : σ.Tree N) (hu : σ.Distinct)

lemma lookup_text (hn : σ p = some n) (ht : n.type = T_DIR) :
    σ.lookup p name.text = (n.find name).map Dirent.inum := by
  rw [lookup, hn, Option.bind_some, if_pos ht, n.map_inum_find]

lemma find_of_findName (hk : findName name n.entries = some k) (he : n.entries[k]? = some e) :
    n.find name = some e := by
  rw [Node.find, hk, Option.bind_some, he]

lemma find_of_none (hk : findName name n.entries = none) : n.find name = none := by
  rw [Node.find, hk, Option.bind_none]

include h hu

lemma step_eq_none (hq : σ.volume.name q = some p) {y : Text} (hl : σ.lookup p y = none) :
    σ.volume.step q y = none := by
  have hstep := step_name h hu hq y
  rw [hl] at hstep
  cases hs : σ.volume.step q y with
  | none => rfl
  | some q' =>
    obtain ⟨j, hj⟩ := exists_name_of_step h hu hq hs
    rw [hs, Option.bind_some, hj] at hstep
    cases hstep

lemma exists_step (hq : σ.volume.name q = some p) {y : Text} (hl : σ.lookup p y = some i) :
    ∃ q', σ.volume.step q y = some q' ∧ σ.volume.name q' = some i :=
  Option.bind_eq_some_iff.mp ((step_name h hu hq y).trans hl)

end

/-! ## Creating -/

lemma fresh_text (hn : σ p = some n) (ht : n.type = T_DIR) (hl : 0 < n.nlink)
    (hnone : findName name n.entries = none) (j : ℕ) (e : Dirent) (hs : σ.slot p j = some e)
    (hz : e.inum ≠ 0) : e.name.text ≠ (strncpy name).text := by
  rw [text_strncpy]
  intro he
  rw [slot_of hn ht hl] at hs
  exact findName_eq_none_iff.mp hnone e (List.mem_of_getElem? hs)
    ⟨hz, namecmp_eq_zero_iff.mpr he.symm⟩

lemma Makes.plain (h : σ.Tree N) (hp : σ.Plain)
    (hm : σ.Makes N path type major minor x σ')
    (ht : type = T_DIR ∨ type = T_FILE ∨ type = T_DEV) : σ'.Plain := by
  obtain ⟨hc, -⟩ := hm
  cases hc with
  | missing | taken | found => exact hp
  | new hpar hnp hnone htype _ _ ha =>
    obtain ⟨np, hnp', hl, hdir⟩ := h.linked.parent hpar
    obtain rfl := Option.some.inj (hnp.symm.trans hnp')
    exact hp.adds ha (fresh_text hnp hdir hl hnone) (htype ▸ ht)

/-- **`create` on the volume.** -/
lemma Makes.volume (h : σ.Tree N) (hp : σ.Plain) (hm : σ.Makes N path type major minor x σ')
    (ht : type = T_DIR ∨ type = T_FILE ∨ type = T_DEV) :
    σ.volume.Creates path (⟨type, major, minor, 1, []⟩ : Node).object x σ'.volume := by
  obtain ⟨hc, hblank⟩ := hm
  have hu := hp.distinct
  have hfile : (⟨type, major, minor, 1, []⟩ : Node).object.IsFile ↔ type = T_FILE :=
    Node.isFile_object ht
  cases hc with
  | missing hpar => exact .missing (findParent_of_none h hu hpar)
  | taken hpar hnp hk he hn hnot =>
    obtain ⟨q, hfp, hq⟩ := exists_findParent h hu hpar
    obtain ⟨np, hnp', hl, hdir⟩ := h.linked.parent hpar
    obtain rfl := Option.some.inj (hnp.symm.trans hnp')
    obtain ⟨q', hs, hq'⟩ := exists_step h hu hq
      ((lookup_text hnp hdir).trans (congrArg (Option.map Dirent.inum) (find_of_findName hk he)))
    refine .taken hfp hs hq' (by rw [volume_object, hn]; rfl) ?_
    rwa [hfile, Node.isFile_object (hp.typed hn)]
  | found hpar hnp hk he hn ht' hn' =>
    obtain ⟨q, hfp, hq⟩ := exists_findParent h hu hpar
    obtain ⟨np, hnp', hl, hdir⟩ := h.linked.parent hpar
    obtain rfl := Option.some.inj (hnp.symm.trans hnp')
    obtain ⟨q', hs, hq'⟩ := exists_step h hu hq
      ((lookup_text hnp hdir).trans (congrArg (Option.map Dirent.inum) (find_of_findName hk he)))
    refine .found hfp hs hq' (by rw [volume_object, hn]; rfl) ?_
    rw [hfile, Node.isFile_object (hp.typed hn)]
    exact ⟨ht', hn'⟩
  -- the search failed, so that the text is new in its directory and the path new on the volume
  | new hpar hnp hnone htype hmajor hminor ha =>
    obtain ⟨q, hfp, hq⟩ := exists_findParent h hu hpar
    obtain ⟨np, hnp', hl, hdir⟩ := h.linked.parent hpar
    obtain rfl := Option.some.inj (hnp.symm.trans hnp')
    have hvol := ha.volume hu (fresh_text hnp hdir hl hnone) h hq
    rw [text_strncpy, Node.object_congr (m := ⟨type, major, minor, 1, []⟩) htype hmajor hminor
      fun hne => hblank ha.old ha.new (htype ▸ hne)] at hvol
    rw [hvol]
    refine .new hfp (step_eq_none h hu hq ?_) (by rw [volume_object, ha.old]; rfl)
    rw [lookup_text hnp hdir, find_of_none hnone]
    rfl

/-! ## Opening -/

lemma resolve_eq (h : σ.Tree N) (hu : σ.Distinct) :
    (σ.volume.find (components path.bytes)).bind σ.volume.name = σ.resolve path := by
  rw [find_name h hu]
  exact (walk_false (Nat.lt_succ_self _) path.nonzero).symm

lemma Opens.volume (h : σ.Tree N) (hp : σ.Plain) (ho : σ.Opens N path omode x σ') :
    σ.volume.Opens path omode x σ'.volume ∧ σ'.Plain := by
  obtain ⟨hto, hfound, hblank⟩ := ho
  unfold OpensTo at hto
  unfold Volume.Opens
  split_ifs at hto ⊢ with hcreate
  · have hm : σ.Makes N path T_FILE 0 0 x σ' := ⟨hto, hblank⟩
    exact ⟨hm.volume h hp (Or.inr (Or.inl rfl)), hm.plain h hp (Or.inr (Or.inl rfl))⟩
  · subst hto
    refine ⟨⟨rfl, ?_⟩, hp⟩
    rw [hfound (not_not.mp hcreate), resolve_eq h hp.distinct, openable]
    refine congrArg (fun f => Option.filter f (σ'.resolve path)) (funext fun i => ?_)
    refine decide_eq_decide.mpr (or_congr_left (not_congr ?_))
    rw [volume_object]
    cases σ' i with
    | none => simp
    | some n => simp [Node.object_eq_dir]

/-! ## Unlinking -/

section

variable (h : σ.Tree N) (hu : σ.Distinct)

include h hu

lemma forall_name_eq_none (hq : σ.volume.name q = some i) (hn : σ i = some n)
    (ht : n.type = T_DIR) :
    (∀ y, σ.volume.name (q ++ [y]) = none) ↔ ∀ e ∈ n.entries.drop 2, e.inum = 0 := by
  obtain ⟨m, hm, hl⟩ := (h.exists_name_iff hu).mp ⟨q, hq⟩
  obtain rfl := Option.some.inj (hn.symm.trans hm)
  have hname : ∀ y, σ.volume.name (q ++ [y]) = σ.child i y := fun y => by
    rw [volume_name, descend_concat, ← volume_name, hq, Option.bind_some]
  constructor
  · intro hnone e he
    by_contra hz
    obtain ⟨k, hk⟩ := List.mem_iff_getElem?.mp he
    rw [List.getElem?_drop] at hk
    have hc := (h.child_eq_some hu).mpr
      ⟨2 + k, e.name, Nat.le_add_right 2 k, hz, (slot_of hn ht hl).trans hk, rfl⟩
    rw [← hname, hnone] at hc
    cases hc
  · intro hzero y
    rw [hname]
    cases hc : σ.child i y with
    | none => rfl
    | some j =>
      obtain ⟨k, name, hk, hz, hs, -⟩ := (h.child_eq_some hu).mp hc
      rw [slot_of hn ht hl] at hs
      refine absurd (hzero ⟨j, name⟩ (List.mem_iff_getElem?.mpr ⟨k - 2, ?_⟩)) hz
      rw [List.getElem?_drop, Nat.add_sub_cancel' hk]
      exact hs

lemma name_concat (hq : σ.volume.name q = some p) (hnp : σ p = some np) (hdir : np.type = T_DIR)
    (hd : name.text ≠ dot.text) (hdd : name.text ≠ dotdot.text) :
    σ.volume.name (q ++ [name.text]) = (np.find name).map Dirent.inum := by
  obtain ⟨m, hm, hl⟩ := (h.exists_name_iff hu).mp ⟨q, hq⟩
  obtain rfl := Option.some.inj (hnp.symm.trans hm)
  rw [volume_name, descend_concat, ← volume_name, hq, Option.bind_some,
    child_of_ne hd hdd hnp hdir hl, np.map_inum_find]

lemma exists_removable (hr : σ.Unlinkable path) : ∃ q i, σ.volume.Removable path q ∧
    σ.volume.name q = some i ∧ σ.target path = some i := by
  obtain ⟨p, name, np, k, e, n, hp, hdots, hnp, hk, he, hn, hleaf⟩ := hr
  obtain ⟨q, hfp, hq⟩ := exists_findParent h hu hp
  obtain ⟨np', hnp', hl, hdir⟩ := h.linked.parent hp
  obtain rfl := Option.some.inj (hnp.symm.trans hnp')
  rw [namecmp_eq_zero_iff, namecmp_eq_zero_iff, not_or] at hdots
  have hname := name_concat h hu hq hnp hdir hdots.1 hdots.2
  rw [find_of_findName hk he, Option.map_some] at hname
  refine ⟨q ++ [name.text], e.inum, ⟨q, name.text, hfp, rfl, hdots.1, hdots.2, ?_, ?_⟩, hname, ?_⟩
  · rw [hname]
    rfl
  · intro hview
    obtain ⟨m, hm, ht, -⟩ := (view_eq_dir h hu hname).mp hview
    obtain rfl := Option.some.inj (hn.symm.trans hm)
    exact (forall_name_eq_none h hu hname hn ht).mpr (hleaf ht)
  · rw [target, hp, Option.bind_some, hnp, Option.bind_some, find_of_findName hk he]
    rfl

lemma unlinkable_of_removable (hr : σ.volume.Removable path q) : σ.Unlinkable path := by
  obtain ⟨q, y, hfp, rfl, hd, hdd, hsome, hempty⟩ := hr
  cases hpar : σ.parent path with
  | none =>
    rw [findParent_of_none h hu hpar] at hfp
    cases hfp
  | some x =>
    obtain ⟨p, name⟩ := x
    obtain ⟨q', hfp', hq⟩ := exists_findParent h hu hpar
    obtain ⟨rfl, rfl⟩ := Prod.mk.inj (Option.some.inj (hfp.symm.trans hfp'))
    obtain ⟨np, hnp, hl, hdir⟩ := h.linked.parent hpar
    obtain ⟨i, hi⟩ := Option.isSome_iff_exists.mp hsome
    have hname := name_concat h hu hq hnp hdir hd hdd
    rw [hi] at hname
    obtain ⟨e, he, hei⟩ := Option.map_eq_some_iff.mp hname.symm
    obtain ⟨k, hk, hek⟩ := Option.bind_eq_some_iff.mp he
    obtain ⟨n, hn, hln⟩ := (h.exists_name_iff hu).mp ⟨_, hi⟩
    refine ⟨p, name, np, k, e, n, hpar, ?_, hnp, hk, hek, hei ▸ hn, fun ht => ?_⟩
    · rw [namecmp_eq_zero_iff, namecmp_eq_zero_iff]
      tauto
    · exact (forall_name_eq_none h hu hi hn ht).mp
        (hempty ((view_eq_dir h hu hi).mpr ⟨n, hn, ht, hln⟩))

lemma name_injective {q' : List Text} (hq : σ.volume.name q = some i)
    (hq' : σ.volume.name q' = some i) : q' = q :=
  (h.rooted_child hu).descend_unique hq' hq

lemma Removes.volume_of_name (hr : Removes σ σ' p k c nc) (hq : σ.volume.name q = some c) :
    σ'.volume = σ.volume.erase q := by
  obtain ⟨hk, hz, name, hs⟩ := hr.link
  obtain ⟨r, hrp⟩ := (h.exists_name_iff hu).mpr (DirAt.of_slot hs).att
  have hname : σ.volume.name (r ++ [name.text]) = some c := by
    rw [volume_name, descend_concat, ← volume_name, hrp, Option.bind_some]
    exact (h.child_eq_some hu).mpr ⟨k, name, hk, hz, hs, rfl⟩
  rw [name_injective h hu hname hq]
  exact hr.volume h hu hs hrp

end

lemma Unlinks.volume (h : σ.Tree N) (hp : σ.Plain) (hl : σ.Unlinks t path true σ')
    (hr : σ.Unlinkable path) : σ'.Plain ∧ ∃ q i, σ.volume.Removable path q ∧
      σ.volume.name q = some i ∧ (t.Opens i ∧ σ'.volume = σ.volume.erase q ∨
        ¬ t.Opens i ∧ σ'.volume = (σ.volume.erase q).free i) := by
  obtain ⟨q, i, hrem, hi, htarget⟩ := exists_removable h hp.distinct hr
  cases hl with
  | keep ht hr ho =>
    obtain rfl := Option.some.inj (htarget.symm.trans ht)
    exact ⟨hp.removes h hr, q, i, hrem, hi, Or.inl ⟨ho, hr.volume_of_name h hp.distinct hi⟩⟩
  | free ht hr ho =>
    obtain rfl := Option.some.inj (htarget.symm.trans ht)
    refine ⟨(hp.removes h hr).keeps (keeps_free hr.gone rfl), q, i, hrem, hi, Or.inr ⟨ho, ?_⟩⟩
    rw [volume_update_none hr.gone rfl, hr.volume_of_name h hp.distinct hi]

/-! ## Closing -/

lemma Closes.plain (hp : σ.Plain) (hc : σ.Closes t i σ') : σ'.Plain := by
  cases hc with
  | keep => exact hp
  | free hn hz _ => exact hp.keeps (keeps_free hn hz)

lemma Closes.volume (h : σ.Tree N) (hp : σ.Plain) (hc : σ.Closes t i σ') :
    ((∃ q, σ.volume.name q = some i) ∨ t.Opens i) ∧ σ'.volume = σ.volume ∨
      ¬ ((∃ q, σ.volume.name q = some i) ∨ t.Opens i) ∧ σ'.volume = σ.volume.free i := by
  rw [h.exists_name_iff hp.distinct]
  cases hc with
  | keep hn hl => exact Or.inl ⟨hl.imp_left fun hpos => ⟨_, hn, hpos⟩, rfl⟩
  | free hn hz ho =>
    refine Or.inr ⟨?_, volume_update_none hn hz⟩
    rintro (⟨m, hm, hl⟩ | hopen)
    · exact hl.ne' (Option.some.inj (hn.symm.trans hm) ▸ hz)
    · exact ho hopen

end Nodes

end

/-! ## Drives -/

/-- The drives recover to a volume on which the paths stand for these objects. -/
def Layout.Presents (L : Layout) (view : List Text → Option Object) (d : BufRef → Block) : Prop :=
  L.Image (L.OnDisk fun σ => σ.Tree L.sb.ninodes ∧ σ.Plain ∧ σ.volume.view = view) d

end Xv6
