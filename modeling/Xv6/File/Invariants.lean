import Xv6.File.ReadOnly
import Xv6.File.Worlds
import Xv6.Fs.LinkCount

/-!
# Invariants of the file system

What holds after any sequence of operations and system calls that do not overlap, on a volume that
was consistent when it was mounted.

* `references_counted`: every reference to an open file or an inode has its holder.
* `call_fits_log`: an operation logs no more blocks than the log and the buffer cache have room for.
  On a volume with a shorter log it can panic (`short_log_panics`).
* `only_resource_panics`: only running out of blocks, inodes or entries of the inode cache makes a
  call panic.
* `directory_tree`: the nodes with links are a directory tree, and the link counts are its.
* `blocks_owned` and `no_holes`: the blocks of files are the marked ones, and files have no holes.

All of them are read off `World.Sound`, which calls keep (`Xv6.File.Runs`), and are stated in terms
of the machine by `Xv6.File.Shown`.  The image that `mkfs` builds for an empty list of files is
consistent, and each statement is followed by a run on it that has something to say.
-/

namespace Xv6

open Lib

section

variable {L : Layout} {d : BufRef → Block} {input : List UInt8} {w w₀ : World} {c : FsCall}

/-! ## References -/

/-- **Every reference has its holder.** After any sequence of calls, the count of an entry of the
file table is the number of kernel users and descriptors that have it, and the count of an entry of
the inode cache is the number of open files and working directories that refer to it; an inode has
one entry at most. -/
theorem references_counted (hd : L.Consistent d) (hw : w.Runs d input) :
    (∀ b, (w.machine.buf b).refcnt = 0) ∧
      (∀ f, (w.mem.ftable f).ref = w.session.holders f ∧
        ((w.mem.ftable f).ref = 0 → (w.mem.ftable f).type = .none)) ∧
      (∀ ip jp, 0 < (w.mem.icache ip).ref → 0 < (w.mem.icache jp).ref →
        (w.mem.icache ip).dev = (w.mem.icache jp).dev →
          (w.mem.icache ip).inum = (w.mem.icache jp).inum → ip = jp) ∧
      ∀ ip, (w.mem.icache ip).ref = (Finset.univ.filter fun f => (w.mem.ftable f).type = .inode ∧
        (w.mem.ftable f).ip = ip).card + w.session.dwellers ip := by
  obtain ⟨ino, v, s, h⟩ := hw.sound_loose hd
  exact ⟨h.refcnt, fun f => ⟨(h.file_ref f).1, (h.file_ref f).2.mp⟩,
    fun ip jp hip hjp _ he => h.entry_unique hip hjp he, h.entry_ref⟩

/-- A file has been made and is open: it has one holder, and its inode is in the cache. -/
theorem references_counted_open : ∃ (w₀ w : World) (f : Fin NFILE) (ip : Fin NINODE), w₀.Fresh ∧
    w₀.Calls (.openFile (Mkfs.bytePath 0) (O_CREATE ||| O_RDWR)) w ∧ (w.mem.ftable f).ip = ip ∧
    (w.mem.ftable f).ref = w.session.holders f ∧ w.session.holders f = 1 ∧
    0 < (w.mem.icache ip).ref ∧
    (w.mem.icache ip).ref = (Finset.univ.filter fun f => (w.mem.ftable f).type = .inode ∧
      (w.mem.ftable f).ip = ip).card + w.session.dwellers ip := by
  obtain ⟨st, w₀, w, f, ip, c, n, σ, hst, hboots, hopen, hS, hk, ht, -, ha⟩ := Mkfs.exists_opened
  have h := references_counted (Mkfs.consistent_main_nil hst fun _ => rfl)
    ⟨w₀, hboots, hopen.steps .refl⟩
  obtain ⟨-, -, hf, -⟩ := Mkfs.openFirst_spec f ip ha ht
  have hip : (w.mem.ftable f).ip = ip := by
    rw [show w.mem.ftable = _ from hk.ftable, Table.file_set]
    rfl
  have hentry := (hk.entry hf).1
  rw [Table.file_set] at hentry
  refine ⟨w₀, w, f, ip, ⟨st, _, [], hst, fun _ => rfl, hboots⟩, hopen, hip, (h.2.1 f).1, ?_,
    hentry, h.2.2.2 ip⟩
  rw [hS]
  simp [Session.holders, Session.empty, countAt]

/-! ## Transactions -/

/-- **An operation fits the log and the buffer cache.** At every point of every call, the blocks
passed to `log_write` and not yet written home are no more than `MAXOPBLOCKS`, which the log and the
buffers have room for. -/
theorem call_fits_log (hlog : MAXOPBLOCKS + 1 < L.sb.nlog) (hd : L.Consistent d)
    (hw : w.Runs d input) (hc : c.Legal w.session) :
    (∀ q, Prog.Reaches (Handler.track kernelHandler ledger) (c.code w.session)
      ((w.machine, w.mem), ∅) q → q.2.card ≤ MAXOPBLOCKS) ∧
    ∀ x q, w.call c = .error x q → x ≠ .panic .tooBigTransaction ∧ x ≠ .panic .bgetNoBuffers := by
  have hL : (L.tight hlog).Room MAXOPBLOCKS := (L.room_tight hlog).mpr le_rfl
  obtain ⟨ino, v, s, h⟩ := hw.sound (L := L.tight hlog) hL hd.limited
  refine ⟨fun q hq => (L.room_tight hlog).mp (h.ledger hL hc (c.admits_true s) hq),
    fun x q hx => ?_⟩
  have hhalts := h.halts hL hc (c.admits_true s) hx
  constructor
  · rintro rfl
    cases hhalts
  · rintro rfl
    cases hhalts

/-- A write to a new file: blocks are passed to `log_write`, and they fit. -/
theorem call_fits_log_write : ∃ (w₀ w : World) (f : Fin NFILE), w₀.Fresh ∧
    w₀.Calls (.openFile (Mkfs.bytePath 0) (O_CREATE ||| O_RDWR)) w ∧
    (∃ q, Prog.Reaches (Handler.track kernelHandler ledger)
      ((FsCall.filewrite f [65, 66, 67]).code w.session) ((w.machine, w.mem), ∅) q ∧
        q.2.Nonempty ∧ q.2.card ≤ MAXOPBLOCKS) ∧
    ∀ x q, w.call (.filewrite f [65, 66, 67]) = .error x q →
      x ≠ .panic .tooBigTransaction ∧ x ≠ .panic .bgetNoBuffers := by
  obtain ⟨st, w₀, w, f, ip, c, n, σ, hst, hboots, hopen, hS, hk, ht, hn, ha⟩ := Mkfs.exists_opened
  have h := call_fits_log (c := .filewrite f [65, 66, 67]) (by decide)
    (Mkfs.consistent_main_nil hst fun _ => rfl) ⟨w₀, hboots, hopen.steps .refl⟩
    (show f ∈ w.session.kernel from hS ▸ List.mem_cons_self)
  obtain ⟨q, -, -, -, y, hy, hreach⟩ :=
    hk.writing [65, 66, 67] (by decide) (by decide) ha ht hn
  exact ⟨w₀, w, f, ⟨st, _, [], hst, fun _ => rfl, hboots⟩, hopen,
    ⟨(q, y), .bind hreach, hy, h.1 _ (.bind hreach)⟩, h.2⟩

namespace Mkfs

/-- A superblock with a log of four blocks. -/
def shortSb : Superblock := { sb with nlog := 4 }

lemma shortSb_log_end : shortSb.logstart + shortSb.nlog ≤ shortSb.inodestart := by decide

lemma shortSb_log_pos : 0 < shortSb.nlog := by decide

lemma shortSb_limit_log : ∀ n ∈ (none : Option ℕ), 0 < n → n + 1 < shortSb.nlog := by simp

lemma shortSb_limit_buf : ∀ n ∈ (none : Option ℕ), n + 3 ≤ NBUF := by simp

/-- The layout that it describes. -/
def shortLayout : Layout :=
  { layout with
    sb := shortSb
    limit := none
    log_end := shortSb_log_end
    log_pos := shortSb_log_pos
    limit_log := shortSb_limit_log
    limit_buf := shortSb_limit_buf }

/-- The image without files, with that superblock. -/
def shortImage (st : Mkfs.State) (k : BufRef) : Block :=
  Function.update st.img 1 (sbBlock shortSb) k.blockno

lemma consistent_shortImage {st : Mkfs.State} (h : main [] = some st) :
    shortLayout.Consistent (shortImage st) := by
  obtain ⟨⟨ino, howns, hfull, hlive, hnodes⟩, -, hlog⟩ := onDisk_main_nil h
  have hsb : superblockAt (shortImage st (onDev 1)) = shortSb := by
    rw [shortImage, onDev, Function.update_self]
    decide +kernel
  have hheader : headerN (shortImage st shortLayout.log.header) = 0 := by
    show headerN (st.img sb.logstart) = 0
    simp [hlog, headerN]
  refine ⟨hsb, _, .of_headerN hheader fun _ _ _ => rfl, hsb, st.img,
    ⟨ino, { howns with }, hfull, hlive, hnodes.symm ▸ safe_emptyNodes⟩, fun b hb => ?_⟩
  exact Function.update_of_ne ((by decide : 1 < 32).trans_le hb.1).ne' _ _

end Mkfs

/-- **Without room in the log** the first directory is too big a transaction. -/
theorem short_log_panics : ∃ st w q, Mkfs.main [] = some st ∧
    Mkfs.shortLayout.Consistent (Mkfs.shortImage st) ∧ World.Boots (Mkfs.shortImage st) [] w ∧
    w.call (.mkdir (Mkfs.bytePath 0)) = .error (.panic .tooBigTransaction) q := by
  obtain ⟨st, hst⟩ := Mkfs.exists_main_nil
  have heval : ∀ st ∈ Mkfs.main [], Prog.wp kernelHandler (fun _ _ => False) mountFs
      (fun _ q => Prog.wp kernelHandler (fun x _ => x = .panic .tooBigTransaction)
        (mkdir (Mkfs.bytePath 0)) (fun _ _ => False) q)
      (binit (Mkfs.shortImage st) true .zero, .boot []) := by
    decide +kernel
  obtain ⟨_, q, hmount, hpanic⟩ := Prog.exists_ok_of_wp (heval st hst)
  obtain ⟨_, q', hrun, rfl⟩ := Prog.exists_error_of_wp hpanic
  exact ⟨st, ⟨q.1, q.2, .empty⟩, q', hst, Mkfs.consistent_shortImage hst, ⟨hmount, rfl⟩,
    Prog.run_bind_error _ hrun⟩

/-! ## Panics -/

/-- **Only running out of resources makes an operation panic**, from the image that `mkfs` builds
for an empty list of files. -/
theorem only_resource_panics {st : Mkfs.State} (hst : Mkfs.main [] = some st)
    (hd : ∀ b, d (onDev b) = st.img b) (input : List UInt8) :
    (∃ w : World, w.Boots d input) ∧
      ∀ (w : World) (c : FsCall) (p : Panic) (q : Machine × FsMem), w.Runs d input →
        c.Legal w.session → w.call c = .error (.panic p) q →
          p = .ballocOutOfBlocks ∨ p = .iallocNoInodes ∨ p = .igetNoInodes := by
  have hcons := Mkfs.consistent_main_nil hst hd
  refine ⟨World.exists_boots hcons input, fun w c p q hw hc hrun => ?_⟩
  have hlog : MAXOPBLOCKS + 1 < Mkfs.layout.sb.nlog := by decide
  have hL := (Mkfs.layout.room_tight hlog).mpr le_rfl
  obtain ⟨ino, v, s, h⟩ := hw.sound hL hcons.limited
  have hhalts := h.halts hL hc (c.admits_true s) hrun
  cases p with
  | ballocOutOfBlocks => exact Or.inl rfl
  | iallocNoInodes => exact Or.inr (Or.inl rfl)
  | igetNoInodes => exact Or.inr (Or.inr rfl)
  | dirlink =>
    have hroom : ¬ MAXFILE * BSIZE / DIRENTSIZE < Mkfs.sb.ninodes + 2 := by decide
    exact absurd hhalts.2 hroom
  | _ => cases hhalts

/-- A kernel that makes one file after another until it panics. -/
theorem only_resource_panics_crowd : ∃ (w₀ w₁ w : World) (j : Fin 52) (p : Panic)
    (q : Machine × FsMem), w₀.Fresh ∧
    w₀.Calls (.openFile (Mkfs.bytePath 0) (O_CREATE ||| O_RDWR)) w₁ ∧
    w₁.Steps World.anyCall w ∧
    w.call (.openFile (Mkfs.bytePath j) (O_CREATE ||| O_RDWR)) = .error (.panic p) q ∧
    (p = .ballocOutOfBlocks ∨ p = .iallocNoInodes ∨ p = .igetNoInodes) := by
  obtain ⟨st, w₀, w₁, w, j, p, q, hst, hboots, hopen, h₁, h₀, hrun⟩ := Mkfs.exists_crowd
  exact ⟨w₀, w₁, w, j, p, q, ⟨st, _, [], hst, fun _ => rfl, hboots⟩, hopen, h₁, hrun,
    (only_resource_panics hst (fun _ => rfl) []).2 w (.openFile _ _) p q ⟨w₀, hboots, h₀⟩ trivial
      hrun⟩

/-! ## The directory tree -/

/-- **The link counts are those of a directory tree**, from the image that `mkfs` builds for an
empty list of files. -/
theorem directory_tree {st : Mkfs.State} (hst : Mkfs.main [] = some st)
    (hd : ∀ b, d (onDev b) = st.img b) (hw : w.Runs d input) {σ : Nodes}
    (hσ : σ = Mkfs.layout.nodes w.blk) :
    (∀ i n, σ i = some n → n.nlink = {q | σ.Names i q}.ncard) ∧
      (∀ p k e, σ.slot p k = some e → e.inum ≠ 0 → ∃ n, σ e.inum = some n) ∧
      (∀ i n, σ i = some n → n.type = T_DIR → ∀ (j k : ℕ) (e e' : Dirent),
        n.entries[j]? = some e → n.entries[k]? = some e' → e.inum ≠ 0 → e'.inum ≠ 0 →
        e.name = e'.name → j = k) ∧
      (∀ i, σ.DirAt i → σ.slot i 0 = some ⟨i, dot⟩ ∧ ∃ p, σ.slot i 1 = some ⟨p, dotdot⟩ ∧
        (i = ROOTINO ∧ p = ROOTINO ∨ ∃ k, σ.Child p k i)) ∧
      (∀ i, σ.DirAt i → ∃! ks, Path σ.Child ROOTINO ks i) ∧
      ∀ i n, σ i = some n → n.nlink = 0 → w.mem.Opens i := by
  obtain ⟨ino, v, s, h⟩ := hw.sound_loose (Mkfs.consistent_main_nil hst hd)
  obtain rfl : σ = s.node := hσ.trans h.nodes_eq
  obtain ⟨t, hold, hs⟩ := h.settled
  have htree := hs.quiet.tree
  have hchild : s.node.Child = s.node.Link := by
    funext p k c
    exact propext htree.child_iff
  rw [hchild]
  refine ⟨fun i n hn => htree.nlink_eq_ncard hn, fun p k e hs' he => ?_,
    fun i n hn ht j k e e' hj hk hz hz' he => htree.names hn ht hj hk hz hz' he,
    fun i hi => ⟨htree.dot hi, htree.dotdot hi⟩,
    fun i hi => htree.rooted.existsUnique_path hi.att, fun i n hn hz => ?_⟩
  · obtain ⟨n, hn, -⟩ := htree.att_of_slot hs' he
    exact ⟨n, hn⟩
  · obtain ⟨⟨f, hf, rfl⟩, -⟩ := hs.quiet.orphan hn hz
    refine h.opens_iff.mpr ⟨f, ?_, ?_⟩
    · rw [hs.holds.file, hf]
    · rw [hs.holds.file, hs.holds.fileInum f hf]

/-- A directory is made, opened and unlinked: it is open, and has its two names once each. -/
theorem directory_tree_orphan : ∃ (w₀ w₁ w₂ w : World) (c : ℕ) (n : Node), w₀.Fresh ∧
    w₀.Calls (.mkdir (Mkfs.bytePath 0)) w₁ ∧
    w₁.Calls (.openFile (Mkfs.bytePath 0) O_RDONLY) w₂ ∧ w₂.Calls (.unlink (Mkfs.bytePath 0)) w ∧
    Mkfs.layout.nodes w.blk c = some n ∧ n.type = T_DIR ∧ n.nlink = 0 ∧ w.mem.Opens c ∧
    ∀ (j k : ℕ) (e e' : Dirent), n.entries[j]? = some e → n.entries[k]? = some e' → e.inum ≠ 0 →
      e'.inum ≠ 0 → e.name = e'.name → j = k := by
  obtain ⟨st, w₀, w₁, w₂, w, t, c, n, σ, hst, hboots, h₁, h₂, h₃, hk, hc, ht, hz⟩ :=
    Mkfs.exists_orphan
  have hnode : Mkfs.layout.nodes w.blk c = some n := (congrFun hk.nodes c).trans hc
  have h := directory_tree hst (fun _ => rfl)
    ⟨w₀, hboots, h₃.steps (h₂.steps (h₁.steps .refl))⟩ rfl
  exact ⟨w₀, w₁, w₂, w, c, n, ⟨st, _, [], hst, fun _ => rfl, hboots⟩, h₁, h₂, h₃, hnode, ht, hz,
    h.2.2.2.2.2 c n hnode hz, h.2.2.1 c n hnode ht⟩

/-! ## Blocks -/

/-- **The marked blocks are those of the files**, each in one place: after any sequence of calls, a
block of data is marked in the free map if and only if it is in one position of one inode. -/
theorem blocks_owned (h₀ : (L = Mkfs.layout ∧ w₀.Fresh) ∨ w₀.Consistent L)
    (hw : w₀.Steps World.anyCall w) : L.Owned w.blk := by
  have h : w₀.Consistent L := by
    rcases h₀ with ⟨rfl, h⟩ | h
    · exact h.consistent
    · exact h
  obtain ⟨ino, v, s, hs⟩ := h.steps hw
  have howned := hs.sane.owns.owned
  exact ⟨howned.marked, howned.range, howned.unique⟩

/-- A file has been made and written to: its block is marked. -/
theorem blocks_owned_written : ∃ (w₀ w₁ w : World) (f : Fin NFILE) (c b : ℕ), w₀.Fresh ∧
    w₀.Calls (.openFile (Mkfs.bytePath 0) (O_CREATE ||| O_RDWR)) w₁ ∧
    w₁.Calls (.filewrite f [65, 66, 67]) w ∧ Mkfs.layout.Owned w.blk ∧
    Own w.blk (Mkfs.layout.inos w.blk) b (c, .data 0) ∧
    bit (w.blk Mkfs.layout.bmapblock) b = true := by
  obtain ⟨st, w₀, w₁, w, f, ip, c, n, σ, hst, hboots, h₁, h₂, hk, ht, -, ha⟩ :=
    Mkfs.exists_written [65, 66, 67] (by decide)
  have hfresh : w₀.Fresh := ⟨st, _, [], hst, fun _ => rfl, hboots⟩
  have hsteps := h₂.steps (h₁.steps .refl)
  have howned := blocks_owned (Or.inl ⟨rfl, hfresh⟩) hsteps
  have hnode := (congrFun (show Mkfs.layout.nodes w.blk = _ from hk.nodes) c).trans
    (Function.update_self ..)
  obtain ⟨d, hd, hnode⟩ := Option.map_eq_some_iff.mp hnode
  obtain ⟨ino, v, s, hs⟩ := hfresh.consistent.steps hsteps
  have hsize : d.size = 3 := by
    have hlength : (d.content w.blk).length = d.size := Dinode.length_content
    rw [← hlength]
    exact congrArg (List.length ∘ Node.data) hnode
  have hne : d.addr w.blk (.data 0) ≠ 0 := ((hs.sane.full hd).data 0).mpr (by rw [hsize]; decide)
  have hown : Own w.blk (Mkfs.layout.inos w.blk) (d.addr w.blk (.data 0)) (c, .data 0) :=
    ⟨hne, d, hd, rfl⟩
  exact ⟨w₀, w₁, w, f, c, _, hfresh, h₁, h₂, howned, hown,
    (howned.marked _ (howned.range hown).2).mpr
      (Or.inr ⟨_, hown, fun q hq => howned.unique hq hown⟩)⟩

/-! ## Holes -/

/-- Files have the blocks that their sizes ask for, and the inode cache agrees with the blocks. -/
structure World.NoHoles (L : Layout) (w : World) : Prop where
  filled : ∀ i d, L.inos w.blk i = some d → d.type = T_FILE ∨ d.type = T_DIR →
    ∀ k, d.addr w.blk (.data k) ≠ 0 ↔ k < nblocks d.size
  cached : ∀ ip, 0 < (w.mem.icache ip).ref → (w.mem.icache ip).valid = true →
    (w.mem.icache ip).din = L.dinode w.blk (w.mem.icache ip).inum

/-- **Files have no holes and the inode cache is up to date**, so that reading allocates nothing. -/
theorem no_holes (h₀ : (L = Mkfs.layout ∧ w₀.Fresh) ∨ w₀.Consistent L)
    (hw : w₀.Steps World.anyCall w) :
    w.NoHoles L ∧ ∀ ip, 0 < (w.mem.icache ip).ref → (w.mem.icache ip).valid = true →
      (∀ off n, n < UINT → w.Looks L (readi ip off n)) ∧ (∀ name, w.Looks L (dirlookup ip name)) ∧
        w.Looks L (isdirempty ip) := by
  have h : w₀.Consistent L := by
    rcases h₀ with ⟨rfl, h⟩ | h
    · exact h.consistent
    · exact h
  obtain ⟨ino, v, s, hs⟩ := h.steps hw
  refine ⟨⟨fun i d hi _ => (hs.sane.full hi).data, fun ip hr hv => ?_⟩, fun ip hr hv => ?_⟩
  · exact (Layout.inos_eq_some.mp (hs.din_eq hr hv).2).2.1.symm
  · have hlook := hs.looking hr hv
    have hof : ∀ {α : Type} {p : K α}, w.Looks L.loose p → w.Looks L p := fun h =>
      ⟨h.ledger, h.blocks, h.halts⟩
    refine ⟨fun off n hn => hof (hs.looks (rwp_mono (rwp_readi hlook hn) fun _ _ _ => trivial)),
      fun name => hof (hs.looks (rwp_dirlookup hlook)), hof (hs.looks (rwp_isdirempty hlook))⟩

/-- A file has been made and written to, and is read. -/
theorem no_holes_written : ∃ (w₀ w₁ w : World) (f : Fin NFILE) (ip : Fin NINODE), w₀.Fresh ∧
    w₀.Calls (.openFile (Mkfs.bytePath 0) (O_CREATE ||| O_RDWR)) w₁ ∧
    w₁.Calls (.filewrite f [65, 66, 67]) w ∧ w.NoHoles Mkfs.layout ∧
    w.Looks Mkfs.layout (readi ip 0 3) ∧
    ∃ q, (readi ip 0 3).run kernelHandler (w.machine, w.mem) = .ok (some [65, 66, 67]) q := by
  obtain ⟨st, w₀, w₁, w, f, ip, c, n, σ, hst, hboots, h₁, h₂, hk, ht, -, ha⟩ :=
    Mkfs.exists_written [65, 66, 67] (by decide)
  have hfresh : w₀.Fresh := ⟨st, _, [], hst, fun _ => rfl, hboots⟩
  obtain ⟨hholes, hlooks⟩ := no_holes (Or.inl ⟨rfl, hfresh⟩) (h₂.steps (h₁.steps .refl))
  set t := (Mkfs.openFirst f ip c).seek f ([65, 66, 67] : List UInt8).length with htable
  have hfile : t.file f = { openedFile ip (O_CREATE ||| O_RDWR) with off := 3 } := by
    rw [htable, Table.seek, Table.file_set, Table.file_set]
    rfl
  have hf : (t.file f).type = .inode := by rw [hfile]; rfl
  have hip : (t.file f).ip = ip := by rw [hfile]; rfl
  have hinum : t.inum f = c := Table.file_seek.2.2.2.trans (Table.inum_set ..)
  obtain ⟨href, hvalid, -⟩ := hk.entry hf
  rw [hip] at href hvalid
  obtain ⟨r, q, t', σ', hrun, -, rfl⟩ := hk.run (p := readi ip 0 3)
    (R := fun r _ _ => r = some [65, 66, 67]) fun s hs hq => by
      have hh := hs.has_file hf (by rw [hinum, Function.update_self])
      rw [hip] at hh
      refine nwp_mono (nwp_readi hh (by rw [ht]; decide) (by decide)) ?_
      rintro r s' ⟨rfl, rfl⟩
      refine ⟨t, _, hs, hq, if_neg ?_⟩
      simp [ha.nlink, UINT]
  exact ⟨w₀, w₁, w, f, ip, hfresh, h₁, h₂, hholes,
    (hlooks ip href hvalid).1 0 3 (by decide), q, hrun⟩

end

end Xv6
