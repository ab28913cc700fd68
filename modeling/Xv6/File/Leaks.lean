import Xv6.File.Invariants

/-!
# What a crash leaves behind

A crash in the middle of a call leaves drives that recover to the nodes before the call, after it,
or between two of its operations.  As long as no open file is unlinked all of these have links, and
after a reboot nothing is lost.

`unlink` of an open file leaves an inode without links, which `fileclose` frees.  If the machine
crashes before that, the inode stays allocated: no path leads to it, and the kernel that boots next
has no reference whose end would free it.
-/

namespace Xv6

open Lib

/-- Nothing is lost: every inode in use has a link and can be reached from the root directory, and
every marked data block belongs to an inode in use. -/
structure Layout.NoLeak (L : Layout) (blk : ℕ → Block) : Prop where
  linked : ∀ i d, L.inos blk i = some d → 1 ≤ d.nlink
  reachable : ∀ i d, L.inos blk i = some d → ∃ ks, Path (L.nodes blk).Child ROOTINO ks i
  marked : ∀ b, L.datastart ≤ b → b < L.sb.size → bit (blk L.bmapblock) b = true →
    ∃ p, Own blk (L.inos blk) b p

/-- The call does not unlink an open file. -/
def World.sparesOpen (L : Layout) (w : World) (c : FsCall) : Prop :=
  ∀ path, c = .unlink path → ∀ i, (L.nodes w.blk).target path = some i → ¬ w.mem.Opens i

section

variable {L : Layout} {O : ℕ → Prop} {d : BufRef → Block} {input : List UInt8} {w w₀ : World}
  {c : FsCall} {ino : Inos} {v : Vol} {s : Fs}

/-! ## Without unlinked open files -/

namespace World.Sound

lemma admits (h : w.Sound L O ino v s) (hc : w.sparesOpen L c) : c.Admits (fun _ => False) s :=
  fun path he i hi ho => hc path he i (h.nodes_eq ▸ hi) (h.opens_iff.mpr ho)

lemma noLeak (h : w.Sound L (fun _ => False) ino v s) : L.NoLeak w.blk := by
  obtain ⟨t, hold, hs⟩ := h.settled
  have htree := hs.quiet.tree
  have hatt : ∀ {i d}, L.inos w.blk i = some d → s.node.Att i ∧ 1 ≤ d.nlink := fun {i d} hi => by
    have hn : s.node i = some (d.node w.blk) := by
      rw [← h.nodes_eq, Layout.nodes, hi]
      rfl
    have hne : (d.node w.blk).nlink ≠ 0 := fun hz => (hs.quiet.orphan hn hz).2
    have hpos : 0 < (d.node w.blk).nlink := lt_of_le_of_ne (htree.nonneg hn) (Ne.symm hne)
    exact ⟨⟨_, hn, hpos⟩, hpos⟩
  have hchild : (L.nodes w.blk).Child = s.node.Link := by
    rw [h.nodes_eq]
    funext p k c
    exact propext htree.child_iff
  refine ⟨fun i d hi => (hatt hi).2, fun i d hi => ?_, fun b hb hsize hbit => ?_⟩
  · rw [hchild]
    exact (htree.rooted.existsUnique_path (hatt hi).1).exists
  · rcases (h.sane.owns.owned.marked b hsize).mp hbit with hlt | hown
    · exact absurd hb (Nat.not_le.mpr hlt)
    · exact hown.exists

end World.Sound

lemma World.Steps.linked (hw : w₀.Steps (World.sparesOpen L) w) (hb : w₀.Boots d input)
    (hd : L.Consistent d) : ∃ ino v s, w.Sound L.loose (fun _ => False) ino v s :=
  hw.sound (L.room_loose _) (fun hs hc => hs.admits hc) (hb.sound hd.limited)

/-- **Wherever the machine crashes, nothing is lost**, from the image that `mkfs` builds for an
empty list of files, if no call unlinks an open file. -/
theorem crash_loses_nothing {st : Mkfs.State} (hst : Mkfs.main [] = some st)
    (hd : ∀ b, d (onDev b) = st.img b) (hb : w₀.Boots d input)
    (hw : w₀.Steps (World.sparesOpen Mkfs.layout) w) (hc : c.Legal w.session)
    (hopen : w.sparesOpen Mkfs.layout c) {q : Machine × FsMem}
    (hq : Prog.Visits kernelHandler (c.code w.session) (w.machine, w.mem) q)
    (input' : List UInt8) :
    (∃ w' : World, w'.Boots q.1.disk input') ∧
      ∀ w' : World, w'.Boots q.1.disk input' → Mkfs.layout.NoLeak w'.blk := by
  obtain ⟨ino, v, s, h⟩ := hw.linked hb (Mkfs.consistent_main_nil hst hd)
  have himage := h.image (Mkfs.layout.room_loose _) hc (h.admits hopen) hq
  refine ⟨World.exists_boots himage input', fun w' hw' => ?_⟩
  obtain ⟨ino', v', s', h'⟩ := hw'.sound himage
  have hleak := h'.noLeak
  exact ⟨hleak.linked, hleak.reachable, hleak.marked⟩

/-- A crash while a new file is being written: the cache shows its bytes, the drives do not have
them. -/
theorem crash_loses_nothing_writing : ∃ (w₀ w₁ : World) (f : Fin NFILE) (q : Machine × FsMem)
    (w' : World), w₀.Fresh ∧ w₀.Calls (.openFile (Mkfs.bytePath 0) (O_CREATE ||| O_RDWR)) w₁ ∧
      Prog.Visits kernelHandler ((FsCall.filewrite f [65, 66, 67]).code w₁.session)
        (w₁.machine, w₁.mem) q ∧
      Mkfs.layout.nodes (fun b => q.1.view (onDev b)) ≠ Mkfs.layout.nodes w₁.blk ∧
      w'.Boots q.1.disk [] ∧ Mkfs.layout.NoLeak w'.blk := by
  obtain ⟨st, w₀, w₁, f, ip, c, n, σ, hst, hboots, hopen, hS, hk, ht, hn, ha⟩ := Mkfs.exists_opened
  obtain ⟨q, hq, hnodes, -⟩ := hk.writing [65, 66, 67] (by decide) (by decide) ha ht hn
  have hvisits : Prog.Visits kernelHandler ((FsCall.filewrite f [65, 66, 67]).code w₁.session)
      (w₁.machine, w₁.mem) q := Prog.Reaches.visits (.bind hq)
  have hsteps : w₀.Steps (World.sparesOpen Mkfs.layout) w₁ :=
    .call _ .refl hopen.1 (fun path he => by cases he) hopen.2
  obtain ⟨⟨w', hw'⟩, hleak⟩ := crash_loses_nothing (c := .filewrite f [65, 66, 67]) hst
    (fun _ => rfl) hboots hsteps (show f ∈ w₁.session.kernel from hS ▸ List.mem_cons_self)
    (fun path he => by cases he) hvisits []
  refine ⟨w₀, w₁, f, q, w', ⟨st, _, [], hst, fun _ => rfl, hboots⟩, hopen, hvisits, fun he => ?_,
    hw', hleak w' hw'⟩
  have hc := congrFun ((hnodes.symm.trans he).trans hk.nodes) c
  rw [ha.new, Function.update_self, Option.some.injEq] at hc
  exact absurd ((congrArg Node.data hc).trans hn) (List.cons_ne_nil _ _)

end

/-! ## An open file that is unlinked -/

/-- **A crash after an open file has been unlinked**: the inode stays in use, and no path leads to
it. -/
theorem unlinked_open_file_leaks : ∃ (st : Mkfs.State) (d : BufRef → Block) (w₀ w₁ w₂ w₃ : World),
    Mkfs.main [] = some st ∧ (∀ b, d (onDev b) = st.img b) ∧ w₀.Boots d [] ∧
      w₀.call (.openFile (Mkfs.bytePath 0) (O_CREATE ||| O_RDWR)) =
        .ok w₁.session (w₁.machine, w₁.mem) ∧
      w₁.call (.unlink (Mkfs.bytePath 0)) = .ok w₂.session (w₂.machine, w₂.mem) ∧
      w₃.Boots w₂.machine.disk [] ∧ ¬ Mkfs.layout.NoLeak w₃.blk := by
  obtain ⟨st, w₀, w₁, f, ip, c, n, σ, hst, hboots, hopen, -, hk₁, -, -, ha⟩ := Mkfs.exists_opened
  obtain ⟨q, σ', hrun, hk₂, hgone⟩ := hk₁.unlink ha
  obtain ⟨m₃, blk, hrun₃, hon₃, hD⟩ := mountFs_kernel hk₂.image []
  refine ⟨st, _, w₀, w₁, ⟨q.1, q.2, w₁.session⟩, ⟨m₃, _, .empty⟩, hst, fun _ => rfl,
    hboots, hopen.2, Prog.run_bind_ok _ hrun, ⟨hrun₃, rfl⟩, fun hleak => ?_⟩
  have hnode : Mkfs.layout.nodes blk c = some { n with nlink := 0 } :=
    (congrFun hD.nodes_eq c).trans hgone
  obtain ⟨d', hd', hnode⟩ := Option.map_eq_some_iff.mp hnode
  have hinos := congrFun (Layout.inos_congr fun b (hb : Mkfs.layout.Out b) => hon₃.view_eq hb) c
  have hpos := hleak.linked c d' (hinos.trans hd')
  have hzero : d'.nlink = 0 := congrArg Node.nlink hnode
  omega

end Xv6
