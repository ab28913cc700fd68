import Xv6.Abstract.Effects

/-!
# Calls on the machine

`FsCall.exec` is the code of a call, with its reply and the descriptors afterwards.  `Mirrors L a σ
t hold` says that the nodes `σ` and the open files `t` are what a user sees as the state `a`.  From
such a state the code of every call does what `State.Does` says, and wherever the machine crashes on
the way the drive recovers to nodes that show one of the outcomes of `State.Survives`.

The work is in the three layers below, and here they meet.  `Xv6.File.Ops` says what the code does
to nodes and open files, `Xv6.Abstract.Effects` what that is on the volume, and `State.of` forgets
the rest.  A node without links is still an object as long as a handle is on it, which is why the
open files are part of `Mirrors`.  `nwp_exec` goes through the calls one by one.
-/

namespace Xv6

open Lib

/-! ## The code of a call -/

/-- The code of a call, which returns the reply and the descriptors afterwards. -/
def FsCall.exec (o : Fin NPROC → Ofile) : FsCall → K (Reply × (Fin NPROC → Ofile))
  | openFile path omode => do
    let r ← Xv6.openFile path omode
    return (.file r, o)
  | fileread f n => do
    let r ← Xv6.fileread f n
    return (.bytes r, o)
  | filewrite f src => do
    let r ← Xv6.filewrite f src
    return (.count r, o)
  | fileclose f => do
    Xv6.fileclose f
    return (.done, o)
  | unlink path => do
    let b ← Xv6.unlink path
    return (.ok b, o)
  | mkdir path => do
    let b ← Xv6.mkdir path
    return (.ok b, o)
  | mknod path major minor => do
    let b ← Xv6.mknod path major minor
    return (.ok b, o)
  | sysOpen p path omode => do
    let r ← Xv6.sysOpen (o p) path omode
    return (.fd r.1, Function.update o p r.2)
  | sysRead p fd n =>
    match o p fd with
    | none => return (.bytes none, o)
    | some f => do
      let r ← Xv6.fileread f n
      return (.bytes r, o)
  | sysWrite p fd src =>
    match o p fd with
    | none => return (.count none, o)
    | some f => do
      let r ← Xv6.filewrite f src
      return (.count r, o)
  | sysClose p fd =>
    match o p fd with
    | none => return (.ok false, o)
    | some f => do
      let t ← Xv6.sysClose (o p) fd f
      return (.ok true, Function.update o p t)
  | pinit _ => do
    let _ ← namei rootPath
    return (.done, o)

/-! ## What the nodes and the open files show -/

/-- An open file. -/
def Table.handle (t : Table) (f : Fin NFILE) : Handle where
  id := t.inum f
  off := (t.file f).off
  readable := (t.file f).readable
  writable := (t.file f).writable

/-- The state that nodes, open files and descriptors stand for. -/
def State.of (σ : Nodes) (t : Table) (o : Fin NPROC → Ofile) : State where
  toVolume := σ.volume
  handle f := if (t.file f).type = .inode then some (t.handle f) else none
  ofile := o

/-- The state is that of the nodes and the open files.  The descriptors are the one part that the
nodes do not determine: they belong to the processes, and the kernel code gets them as an
argument. -/
structure Mirrors (L : Layout) (a : State) (σ : Nodes) (t : Table) (hold : List Ref) : Prop where
  state : a = .of σ t a.ofile
  steady : Steady L t σ hold
  plain : σ.Plain

/-- The state is that of the file system. -/
def Mirrored (L : Layout) (a : State) (s : Fs) : Prop :=
  ∃ t hold, s.Holds t s.node hold ∅ 0 ∧ Mirrors L a s.node t hold

/-- Nodes that the drive may recover to if the machine crashes during a call. -/
def Layout.Left (L : Layout) (a : State) (c : FsCall) (σ : Nodes) : Prop :=
  σ.Tree L.sb.ninodes ∧ σ.Plain ∧ a.Survives c σ.volume.view

section

variable {α : Type} {L : Layout} {a a' : State} {c : FsCall} {r : Reply} {s s' : Fs} {σ σ' : Nodes}
  {t t' : Table} {hold : List Ref} {o : Fin NPROC → Ofile} {f : Fin NFILE} {g : File} {i m off : ℕ}
  {n : Node} {path : CString} {omode : UInt32} {x : Option ℕ} {type major minor : ℤ}
  {src : List UInt8} {ip : Fin NINODE}

namespace State

lemma of_handle (hf : (t.file f).type = .inode) : (of σ t o).handle f = some (t.handle f) :=
  if_pos hf

lemma of_handle_none (hf : (t.file f).type = .none) : (of σ t o).handle f = none :=
  if_neg (by rw [hf]; exact nofun)

lemma of_handle_isSome : ((of σ t o).handle f).isSome ↔ (t.file f).type = .inode := by
  by_cases hf : (t.file f).type = .inode
  · rw [of_handle hf]
    exact iff_of_true rfl hf
  · rw [show (of σ t o).handle f = none from if_neg hf]
    exact iff_of_false Bool.false_ne_true hf

lemma of_held : (of σ t o).Held i ↔ t.Opens i := by
  constructor
  · rintro ⟨f, h, hf, rfl⟩
    have hi := of_handle_isSome.mp (hf ▸ rfl : ((of σ t o).handle f).isSome)
    rw [of_handle hi] at hf
    exact ⟨f, hi, Option.some.inj hf ▸ rfl⟩
  · rintro ⟨f, hf, rfl⟩
    exact ⟨f, t.handle f, of_handle hf, rfl⟩

lemma of_set (hg : g.type = .inode) : of σ (t.set f g i) o =
    (of σ t o).setHandle f (some ⟨i, g.off, g.readable, g.writable⟩) := by
  refine State.ext rfl rfl (funext fun f' => ?_) rfl
  by_cases hne : f' = f
  · subst hne
    rw [of_handle (by rwa [Table.file_set]), Table.handle, Table.file_set, Table.inum_set,
      setHandle_handle, if_pos rfl]
  · rw [setHandle_handle, if_neg hne]
    simp only [of, Table.handle, Table.file_set_of_ne hne, Table.inum_set_of_ne hne]

lemma of_set_none (hg : g.type = .none) :
    of σ (t.set f g i) o = (of σ t o).setHandle f none := by
  refine State.ext rfl rfl (funext fun f' => ?_) rfl
  by_cases hne : f' = f
  · subst hne
    rw [of_handle_none (by rwa [Table.file_set]), setHandle_handle, if_pos rfl]
  · rw [setHandle_handle, if_neg hne]
    simp only [of, Table.handle, Table.file_set_of_ne hne, Table.inum_set_of_ne hne]

lemma of_seek (hf : (t.file f).type = .inode) :
    of σ (t.seek f off) o = (of σ t o).seek f (t.handle f) off :=
  of_set (g := { t.file f with off := off }) hf

lemma of_withVolume (σ σ' : Nodes) : (of σ t o).withVolume σ'.volume = of σ' t o := rfl

end State

namespace Mirrors

lemma mirrored (h : Mirrors L a σ t hold) (hs : s.Holds t σ hold ∅ 0) : Mirrored L a s :=
  ⟨t, hold, hs.node.symm ▸ hs, hs.node.symm ▸ h⟩

lemma volume (h : Mirrors L a σ t hold) : a.toVolume = σ.volume := congrArg State.toVolume h.state

lemma handle (h : Mirrors L a σ t hold) (hf : (t.file f).type = .inode) :
    a.handle f = some (t.handle f) := by
  rw [h.state]
  exact State.of_handle hf

lemma handle_none (h : Mirrors L a σ t hold) (hf : (t.file f).type = .none) :
    a.handle f = none := by
  rw [h.state]
  exact State.of_handle_none hf

lemma isSome (h : Mirrors L a σ t hold) : (a.handle f).isSome ↔ (t.file f).type = .inode := by
  rw [h.state]
  exact State.of_handle_isSome

lemma object (h : Mirrors L a σ t hold) (hn : σ i = some n) : a.object i = some n.object := by
  rw [h.volume, Nodes.volume_object, hn]
  rfl

lemma held (h : Mirrors L a σ t hold) : a.Held i ↔ t.Opens i := by
  rw [h.state]
  exact State.of_held

lemma linked (h : Mirrors L a σ t hold) (hn : σ i = some n) : a.Linked i ↔ 0 < n.nlink := by
  rw [State.Linked, h.volume, h.steady.tree.exists_name_iff h.plain.distinct]
  constructor
  · rintro ⟨m, hm, hl⟩
    exact Option.some.inj (hn.symm.trans hm) ▸ hl
  · exact fun hl => ⟨n, hn, hl⟩

lemma left (h : Mirrors L a' σ' t' hold) (hd : a.Does c r a') : L.Left a c σ' :=
  ⟨h.steady.tree, h.plain, h.volume ▸ .after (.all c) hd⟩

lemma left_self (h : Mirrors L a σ t hold) (c : FsCall) : L.Left a c σ :=
  ⟨h.steady.tree, h.plain, h.volume ▸ .before⟩

/-! ## Effects -/

lemma withVolume (h : Mirrors L a σ t hold) (hst : Steady L t σ' hold) (hp : σ'.Plain) :
    Mirrors L (a.withVolume σ'.volume) σ' t hold := by
  refine ⟨?_, hst, hp⟩
  rw [h.state]
  rfl

lemma makes (h : Mirrors L a σ t hold) (hm : σ.Makes L.sb.ninodes path type major minor x σ')
    (ht : type = T_DIR ∨ type = T_FILE ∨ type = T_DEV) :
    a.Creates path (⟨type, major, minor, 1, []⟩ : Node).object x σ'.volume ∧
      Mirrors L (a.withVolume σ'.volume) σ' t hold := by
  have htree := h.steady.tree
  rw [h.volume]
  exact ⟨hm.volume htree h.plain ht,
    h.withVolume (h.steady.creates hm.creates) (hm.plain htree h.plain ht)⟩

lemma opens (h : Mirrors L a σ t hold) (ho : σ.Opens L.sb.ninodes path omode x σ') :
    a.Opens path omode x σ'.volume ∧ Mirrors L (a.withVolume σ'.volume) σ' t hold := by
  obtain ⟨hvol, hp⟩ := ho.volume h.steady.tree h.plain
  rw [h.volume]
  exact ⟨hvol, h.withVolume (h.steady.opens ho) hp⟩

lemma opened (h : Mirrors L a σ t hold) (ho : σ.Opens L.sb.ninodes path omode (some i) σ')
    (ip : Fin NINODE) : Mirrors L ((a.withVolume σ'.volume).setHandle f (some (.opened i omode))) σ'
      (t.set f (openedFile ip omode) i) hold := by
  have h' := (h.opens ho).2
  refine ⟨?_, h.steady.opened ho ip, h'.plain⟩
  rw [h'.state, State.of_set rfl]
  rfl

lemma seek {off : ℕ} (h : Mirrors L a σ t hold) (hf : (t.file f).type = .inode)
    (hoff : ∀ n, σ (t.inum f) = some n → n.type ≠ T_DEV → off ≤ n.data.length) :
    Mirrors L (a.seek f (t.handle f) off) σ (t.seek f off) hold := by
  refine ⟨?_, h.steady.seek hoff, h.plain⟩
  rw [h.state, State.seek, State.setHandle, State.of_seek hf]
  rfl

lemma write (h : Mirrors L a σ t hold) (hf : (t.file f).type = .inode)
    (hw : (t.file f).writable = true) (hn : σ (t.inum f) = some n) (ht : n.type ≠ T_DEV)
    (src : List UInt8) :
    Mirrors L (a.withVolume (a.store (t.inum f) (overlay n.data (t.file f).off src)))
      (Function.update σ (t.inum f) (some (n.writeAt (t.file f).off src))) t hold := by
  have hdir := h.steady.writable f n hf hw hn
  have hp := h.plain.keeps (Nodes.keeps_data hn hdir (overlay n.data (t.file f).off src))
  have h' := h.withVolume (h.steady.write hf hw hn src) hp
  rwa [Node.writeAt, Nodes.volume_update_data hn hdir ht, ← h.volume] at h'

lemma closes (h : Mirrors L a σ t hold) (hg : g.type = .none) (href : g.ref = 0)
    (hc : σ.Closes (t.set f g (t.inum f)) (t.inum f) σ') :
    Mirrors L ((a.setHandle f none).collect (t.inum f)) σ' (t.set f g (t.inum f)) hold := by
  have hst := h.steady.closes hg href hc
  have hp := hc.plain h.plain
  have hclosed : a.setHandle f none = .of σ (t.set f g (t.inum f)) a.ofile := by
    rw [State.of_set_none hg, ← h.state]
  have hheld : (a.setHandle f none).Held (t.inum f) ↔ (t.set f g (t.inum f)).Opens (t.inum f) := by
    rw [hclosed]
    exact State.of_held
  have hlinked : (a.setHandle f none).Linked (t.inum f) ↔
      ∃ q, σ.volume.name q = some (t.inum f) := by
    rw [hclosed]
    rfl
  unfold State.collect
  rw [hlinked, hheld]
  rcases hc.volume h.steady.tree h.plain with ⟨hkeep, hvol⟩ | ⟨hfree, hvol⟩
  · rw [if_pos hkeep]
    refine ⟨?_, hst, hp⟩
    rw [hclosed, ← State.of_withVolume σ σ', hvol]
    rfl
  · rw [if_neg hfree]
    refine ⟨?_, hst, hp⟩
    rw [hclosed, ← State.of_withVolume σ σ', hvol]
    rfl

lemma unlinks (h : Mirrors L a σ t hold) (hu : σ.Unlinks t path true σ') (hr : σ.Unlinkable path) :
    ∃ q i, a.Removable path q ∧ a.name q = some i ∧
      Mirrors L ((a.withVolume (a.erase q)).collect i) σ' t hold := by
  obtain ⟨hp, q, i, hrem, hi, hcase⟩ := hu.volume h.steady.tree h.plain hr
  have hst := h.steady.unlinks hu
  rw [h.volume]
  refine ⟨q, i, hrem, hi, ?_⟩
  have hlinked : ¬ (a.withVolume (σ.volume.erase q)).Linked i := by
    rintro ⟨q', hq'⟩
    rw [State.withVolume, Volume.erase_name] at hq'
    split_ifs at hq' with he
    exact he (Nodes.name_injective h.steady.tree h.plain.distinct hi hq')
  have hheld : (a.withVolume (σ.volume.erase q)).Held i ↔ t.Opens i := h.held
  unfold State.collect
  rcases hcase with ⟨ho, hvol⟩ | ⟨ho, hvol⟩
  · rw [if_pos (Or.inr (hheld.mpr ho)), ← hvol]
    exact h.withVolume hst hp
  · rw [if_neg fun hh => hh.elim hlinked (ho ∘ hheld.mp)]
    show Mirrors L (a.withVolume ((σ.volume.erase q).free i)) σ' t hold
    rw [← hvol]
    exact h.withVolume hst hp

end Mirrors

/-! ## The code -/

/-- The call has been answered, and the file system shows the state afterwards. -/
def Answers (L : Layout) (a : State) (c : FsCall) (x : Reply × (Fin NPROC → Ofile))
    (s : Fs) : Prop :=
  ∃ a', a.Does c x.1 a' ∧ a'.ofile = x.2 ∧ Mirrored L a' s

section

variable (h : Mirrors L a σ t hold) (hs : s.Holds t σ hold ∅ 0)

include h hs

private lemma nwp_fileread_does [L.Scarce] {D : (ℕ → Block) → Prop} (hf : (t.file f).type = .inode)
    (hm : m < 2 ^ 31) : nwp L D (fileread f m) (fun r s' => ∃ a',
      a.Does (.fileread f m) (.bytes r) a' ∧ a'.ofile = a.ofile ∧ Mirrored L a' s') s := by
  obtain ⟨n, hn⟩ := h.steady.live f hf
  have hhandle := h.handle hf
  by_cases hr : (t.file f).readable = false
  · refine nwp_mono (nwp_fileread_refused hs hr) ?_
    rintro r s' ⟨rfl, rfl⟩
    exact ⟨a, .readRefused hhandle hr, rfl, h.mirrored hs⟩
  rw [Bool.not_eq_false] at hr
  -- a device answers what it likes; its offset is not looked at
  by_cases ht : n.type = T_DEV
  · refine nwp_mono (nwp_fileread_dev hs hf hr hn ht) ?_
    rintro r s' ⟨off, h'⟩
    refine ⟨_, .readOther hhandle hr (h.object hn) ?_, rfl, (h.seek hf fun n' hn' ht' =>
      absurd (Option.some.inj (hn.symm.trans hn') ▸ ht) ht').mirrored h'⟩
    rw [Node.isFile_object (h.plain.typed hn), ht]
    decide
  refine nwp_of_rep fun ino v fm hrep => ?_
  have hmax := hrep.length_le (hs.node ▸ hn)
  refine nwp_mono (nwp_fileread_file hs hf hr hn ht (hm.trans (by decide))) ?_
  rintro r s' ⟨hread, h'⟩
  have hmirror := (h.seek hf fun n' hn' _ => by
    obtain rfl := Option.some.inj (hn.symm.trans hn')
    rw [hread]
    exact off_add_readAt_le (h.steady.offset f n hf hn ht)).mirrored h'
  by_cases hdir : n.type = T_DIR
  · refine ⟨_, .readOther hhandle hr (h.object hn) ?_, rfl, hmirror⟩
    rw [Node.isFile_object (h.plain.typed hn), hdir]
    decide
  have hobject : a.object (t.handle f).id = some (.file n.data) := by
    show a.object (t.inum f) = _
    rw [h.object hn, Node.object, if_neg hdir, if_neg ht]
  have hlinked : a.Linked (t.handle f).id ↔ 0 < n.nlink := h.linked hn
  rw [readAt] at hread
  -- `readi` fails for a file without links, although it is open
  split_ifs at hread with hbad
  · subst hread
    refine ⟨a, .readFail hhandle hr hobject ?_, rfl, h.mirrored ?_⟩
    · rw [hlinked]
      show ¬ 0 < n.nlink ∨ n.data.length < (t.file f).off
      simp only [MAXFILE, NDIRECT, NINDIRECT, BSIZE, UINT] at hmax hbad
      omega
    · rwa [Option.getD_none, List.length_nil, Nat.add_zero, Table.seek_self] at h'
  · subst hread
    rw [not_or, not_or, Nat.not_lt] at hbad
    exact ⟨_, .read hhandle hr hobject (hlinked.mpr (by omega)) hbad.1 rfl, rfl, hmirror⟩

private lemma nwp_filewrite_does [L.Scarce] {P : Nodes → Prop} (hL : L.Room MAXOPBLOCKS)
    (hf : (t.file f).type = .inode) (hP : P σ)
    (hpre : ∀ {src' r a' σ'}, src' <+: src → a.Does (.filewrite f src') r a' →
      Mirrors L a' σ' (t.seek f ((t.file f).off + src'.length)) hold → P σ') :
    nwp L (L.OnDisk P) (filewrite f src) (fun r s' => ∃ a',
      a.Does (.filewrite f src) (.count r) a' ∧ a'.ofile = a.ofile ∧ Mirrored L a' s') s := by
  obtain ⟨n, hn⟩ := h.steady.live f hf
  have hhandle := h.handle hf
  by_cases hw : (t.file f).writable = false
  · refine nwp_mono (nwp_filewrite_refused hs hw) ?_
    rintro r s' ⟨rfl, rfl⟩
    exact ⟨a, .writeRefused hhandle hw, rfl, h.mirrored hs⟩
  rw [Bool.not_eq_false] at hw
  have hdir := h.steady.writable f n hf hw hn
  by_cases ht : n.type = T_DEV
  · refine nwp_mono (nwp_filewrite_dev hs hf hw hn ht (Layout.durable_onDisk hP)) ?_
    rintro r s' ⟨off, h'⟩
    have hobject : a.object (t.handle f).id = some (.dev n.major n.minor) := by
      show a.object (t.inum f) = _
      rw [h.object hn, Node.object, if_neg hdir, if_pos ht]
    exact ⟨_, .writeDevice hhandle hw hobject, rfl, (h.seek hf fun n' hn' ht' =>
      absurd (Option.some.inj (hn.symm.trans hn') ▸ ht) ht').mirrored h'⟩
  have hobject : a.object (t.handle f).id = some (.file n.data) := by
    show a.object (t.inum f) = _
    rw [h.object hn, Node.object, if_neg hdir, if_neg ht]
  have hwrite : ∀ (src : List UInt8) (k : ℕ), k ≤ src.length →
      Mirrors L ((a.withVolume (a.store (t.handle f).id
        (overlay n.data (t.handle f).off (src.take k)))).seek f (t.handle f) ((t.handle f).off + k))
      (Function.update σ (t.inum f) (some (n.writeAt (t.file f).off (src.take k))))
      (t.seek f ((t.file f).off + k)) hold := fun src k hk =>
    (h.write hf hw hn ht _).seek hf fun n' hn' _ => by
      rw [Function.update_self] at hn'
      obtain rfl := Option.some.inj hn'
      exact off_add_written_le (h.steady.offset f n hf hn ht) hk
  refine nwp_mono (nwp_filewrite_upTo hs hL hf hw hn ht rfl (Or.inl Layout.Scarce.scarce)
    fun src' hsrc hall => Layout.durable_onDisk ?_) ?_
  · have hd : a.Does (.filewrite f src') _ _ := .write hhandle hw hobject hall.symm
    have hm := hwrite src' src'.length le_rfl
    rw [List.take_length] at hd hm
    exact hpre hsrc hd hm
  · rintro r s' ⟨rfl, h'⟩
    exact ⟨_, .write hhandle hw hobject rfl, rfl, (hwrite _ _ written_le).mirrored h'⟩

private lemma nwp_fileclose_does {P : Nodes → Prop} (hL : L.Room MAXOPBLOCKS)
    (hf : (t.file f).type = .inode)
    (hP : ∀ {a' σ' t'}, a.Does (.fileclose f) .done a' → Mirrors L a' σ' t' hold → P σ') :
    nwp L (L.OnDisk P) (fileclose f) (fun _ s' => ∃ a',
      a.Does (.fileclose f) .done a' ∧ a'.ofile = a.ofile ∧ Mirrored L a' s') s := by
  have hd : a.Does (.fileclose f) .done _ := .closed (h.handle hf)
  refine nwp_mono (nwp_fileclose_nodes hs h.steady hL hf fun g σ' hg href hc =>
    hP hd (h.closes hg href hc)) ?_
  rintro - s' ⟨σ', g, hg, href, hc, h'⟩
  exact ⟨_, hd, State.collect_ofile _ _, (h.closes hg href hc).mirrored h'⟩

omit hs

private lemma left_openFile (ho : σ.Opens L.sb.ninodes path omode x σ') :
    L.Left a (.openFile path omode) σ' := by
  obtain ⟨hopens, h'⟩ := h.opens ho
  cases x with
  | none => exact h'.left (.openFail hopens)
  | some i =>
    by_cases hfull : ∀ f, (a.handle f).isSome
    · exact h'.left (.openFull hopens hfull)
    · obtain ⟨f, hf⟩ := not_forall.mp hfull
      exact (h.opened ho 0).left (.opened hopens (Option.not_isSome_iff_eq_none.mp hf))

private lemma left_sysOpen (p : Fin NPROC) (ho : σ.Opens L.sb.ninodes path omode x σ') :
    L.Left a (.sysOpen p path omode) σ' := by
  obtain ⟨hopens, h'⟩ := h.opens ho
  cases x with
  | none => exact h'.left (.sysOpenFail hopens)
  | some i =>
    by_cases hfull : ∀ f, (a.handle f).isSome
    · exact h'.left (.sysOpenFull hopens (Or.inl hfull))
    obtain ⟨f, hf⟩ := not_forall.mp hfull
    cases hfd : fdalloc (a.ofile p) f with
    | none =>
      exact h'.left (.sysOpenFull hopens (Or.inr fun fd =>
        Option.isSome_iff_ne_none.mpr (fdalloc_eq_none hfd fd)))
    | some y =>
      obtain ⟨hfree, hleast, -⟩ := fdalloc_eq_some hfd
      exact ⟨h'.steady.tree, h'.plain,
        .after (.all _) (.sysOpened hopens (Option.not_isSome_iff_eq_none.mp hf) hfree hleast)⟩

end

private lemma Mirrors.setSlot (h : Mirrors L a σ t hold) (p : Fin NPROC) (fd : Fin NOFILE)
    (y : Option (Fin NFILE)) : Mirrors L (a.setSlot p fd y) σ t hold := by
  refine ⟨?_, h.steady, h.plain⟩
  rw [h.state]
  rfl

private lemma Mirrored.setSlot (h : Mirrored L a s) (p : Fin NPROC) (fd : Fin NOFILE)
    (y : Option (Fin NFILE)) : Mirrored L (a.setSlot p fd y) s := by
  obtain ⟨t, hold, hs, h⟩ := h
  exact ⟨t, hold, hs, h.setSlot p fd y⟩

/-- **The code of a call does what the call should do**, and a crash leaves what it may leave. -/
lemma nwp_exec [L.Scarce] (h : Mirrored L a s) (hv : a.Valid) (hL : L.Room MAXOPBLOCKS)
    (hc : a.Legal c) :
    nwp L (L.OnDisk (L.Left a c)) (c.exec a.ofile) (Answers L a c) s := by
  obtain ⟨t, hold, hs, h⟩ := h
  -- the files that a legal call names are open
  have hlive : ∀ {f}, a.Private f → (t.file f).type = .inode := fun hp => h.isSome.mp hp.1
  have hslot : ∀ {p fd f}, a.ofile p fd = some f → (t.file f).type = .inode :=
    fun hfd => h.isSome.mp (hv.live hfd)
  have hfull : (∀ f, (t.file f).ref ≠ 0) → ∀ f, (a.handle f).isSome := fun href f =>
    h.isSome.mpr ((h.steady.table f).resolve_right fun hh => href f hh.2).1
  cases c with
  | openFile path omode =>
    refine nwp_seq (nwp_openFile_nodes hs h.steady hL (.inl Layout.Scarce.scarce) fun x σ' ho =>
      left_openFile h ho) ?_
    rintro (_ | f) s' ⟨x, t', σ', ho, h', hr⟩
    · obtain ⟨rfl, rfl | href⟩ := hr
      · exact nwp_ret ⟨_, .openFail (h.opens ho).1, rfl, (h.opens ho).2.mirrored h'⟩
      · cases x with
        | none => exact nwp_ret ⟨_, .openFail (h.opens ho).1, rfl, (h.opens ho).2.mirrored h'⟩
        | some i =>
          exact nwp_ret ⟨_, .openFull (h.opens ho).1 (hfull href), rfl, (h.opens ho).2.mirrored h'⟩
    · obtain ⟨hf, ip, i, rfl, rfl⟩ := hr
      exact nwp_ret ⟨_, .opened (h.opens ho).1 (h.handle_none hf), rfl,
        (h.opened ho ip).mirrored h'⟩
  | fileread f m =>
    refine nwp_seq (nwp_fileread_does h hs (hlive hc.1) hc.2) ?_
    rintro r s' ⟨a', hd, ho, h'⟩
    exact nwp_ret ⟨a', hd, ho, h'⟩
  | filewrite f src =>
    refine nwp_seq (nwp_filewrite_does h hs hL (hlive hc) (h.left_self _) fun hsrc hd h' =>
      ⟨h'.steady.tree, h'.plain, h'.volume ▸ .after (.write hsrc) hd⟩) ?_
    rintro r s' ⟨a', hd, ho, h'⟩
    exact nwp_ret ⟨a', hd, ho, h'⟩
  | fileclose f =>
    refine nwp_seq (nwp_fileclose_does h hs hL (hlive hc) fun hd h' => h'.left hd) ?_
    rintro - s' ⟨a', hd, ho, h'⟩
    exact nwp_ret ⟨a', hd, ho, h'⟩
  | unlink path =>
    refine nwp_seq (nwp_unlink hs h.steady.tree hL (.inl Layout.Scarce.scarce) h.steady.hold
      (h.left_self _) fun σ' hu hr => ?_) ?_
    · obtain ⟨q, i, hrem, hi, h'⟩ := h.unlinks hu hr
      exact h'.left (.unlinked hrem hi)
    rintro (_ | _) s' ⟨hr, σ', hu, h'⟩
    · have hnot : ∀ q, ¬ a.Removable path q := fun q hq =>
        Bool.false_ne_true (hr.mpr (Nodes.unlinkable_of_removable h.steady.tree h.plain.distinct
          (h.volume ▸ hq)))
      cases hu
      exact nwp_ret ⟨a, .unlinkFail hnot, rfl, h.mirrored h'⟩
    · obtain ⟨q, i, hrem, hi, hm⟩ := h.unlinks hu (hr.mp rfl)
      exact nwp_ret ⟨_, .unlinked hrem hi, State.collect_ofile _ _, hm.mirrored h'⟩
  | mkdir path =>
    refine nwp_seq (nwp_mkdir_nodes hs h.steady.tree hL (.inl Layout.Scarce.scarce) fun x σ' hm =>
      (h.makes hm (Or.inl rfl)).2.left (.mkdir (h.makes hm (Or.inl rfl)).1)) ?_
    rintro b s' ⟨x, σ', rfl, hm, h'⟩
    exact nwp_ret ⟨_, .mkdir (h.makes hm (Or.inl rfl)).1, rfl,
      (h.makes hm (Or.inl rfl)).2.mirrored h'⟩
  | mknod path major minor =>
    refine nwp_seq (nwp_mknod_nodes hs h.steady.tree hL (.inl Layout.Scarce.scarce) fun x σ' hm =>
      (h.makes hm (Or.inr (Or.inr rfl))).2.left (.mknod (h.makes hm (Or.inr (Or.inr rfl))).1)) ?_
    rintro b s' ⟨x, σ', rfl, hm, h'⟩
    exact nwp_ret ⟨_, .mknod (h.makes hm (Or.inr (Or.inr rfl))).1, rfl,
      (h.makes hm (Or.inr (Or.inr rfl))).2.mirrored h'⟩
  | sysOpen p path omode =>
    refine nwp_seq (nwp_sysOpen_nodes hs h.steady hL (.inl Layout.Scarce.scarce) fun x σ' ho =>
      left_sysOpen h p ho) ?_
    rintro r s' ⟨x, t', σ', ho, h',
      ⟨rfl, rfl, hwhy⟩ | ⟨fd, f, ip, i, hf, rfl, rfl, hfd, hleast, rfl⟩⟩
    · refine nwp_ret ⟨a.withVolume σ'.volume, ?_, (Function.update_eq_self _ _).symm,
        (h.opens ho).2.mirrored h'⟩
      cases x with
      | none => exact .sysOpenFail (h.opens ho).1
      | some i =>
        refine .sysOpenFull (h.opens ho).1 ?_
        refine (hwhy.resolve_left (Option.some_ne_none i)).imp hfull fun hfds fd => ?_
        exact Option.isSome_iff_ne_none.mpr (hfds fd)
    · exact nwp_ret ⟨_, .sysOpened (h.opens ho).1 (h.handle_none hf) hfd hleast, rfl,
        ((h.opened ho ip).setSlot p fd (some f)).mirrored h'⟩
  | sysRead p fd m =>
    rw [FsCall.exec]
    cases hfd : a.ofile p fd with
    | none => exact nwp_ret ⟨a, .sysReadFail hfd, rfl, h.mirrored hs⟩
    | some f =>
      refine nwp_seq (nwp_fileread_does h hs (hslot hfd) hc) ?_
      rintro r s' ⟨a', hd, ho, h'⟩
      exact nwp_ret ⟨a', .sysRead hfd hd, ho, h'⟩
  | sysWrite p fd src =>
    rw [FsCall.exec]
    cases hfd : a.ofile p fd with
    | none => exact nwp_ret ⟨a, .sysWriteFail hfd, rfl, h.mirrored hs⟩
    | some f =>
      refine nwp_seq (nwp_filewrite_does h hs hL (hslot hfd) (h.left_self _) fun hsrc hd h' =>
        ⟨h'.steady.tree, h'.plain, h'.volume ▸ .after (.sysWrite hsrc) (.sysWrite hfd hd)⟩) ?_
      rintro r s' ⟨a', hd, ho, h'⟩
      exact nwp_ret ⟨a', .sysWrite hfd hd, ho, h'⟩
  | sysClose p fd =>
    rw [FsCall.exec]
    cases hfd : a.ofile p fd with
    | none => exact nwp_ret ⟨a, .sysCloseFail hfd, rfl, h.mirrored hs⟩
    | some f =>
      refine nwp_seq (M := fun o s' => o = Function.update (a.ofile p) fd none ∧ ∃ a',
        a.Does (.fileclose f) .done a' ∧ a'.ofile = a.ofile ∧ Mirrored L a' s') ?_ ?_
      · refine nwp_seq (nwp_fileclose_does h hs hL (hslot hfd) fun hd h' =>
          (h'.setSlot p fd none).left (.sysClose hfd hd)) fun _ s' hs' => nwp_ret ⟨rfl, hs'⟩
      rintro o s' ⟨rfl, a', hd, ho, h'⟩
      refine nwp_ret ⟨_, .sysClose hfd hd, ?_, h'.setSlot p fd none⟩
      rw [State.setSlot, ho]
  | pinit p =>
    refine nwp_seq (nwp_namei rootPath hs h.steady.tree.linked (.inl Layout.Scarce.scarce)) ?_
    rintro (_ | ip) s' hx
    · rw [Nodes.resolve_root] at hx
      cases hx.1
    · obtain ⟨i, b, hi, h'⟩ := hx
      rw [Nodes.resolve_root, Option.some.injEq] at hi
      subst hi
      refine nwp_ret ⟨a, .pinit, rfl, Mirrors.mirrored ⟨h.state, ?_, h.plain⟩ h'⟩
      exact { h.steady with
        hold := fun r hr => (List.mem_cons.mp hr).elim (fun he => he ▸ rfl) (h.steady.hold r) }

end

end Xv6
