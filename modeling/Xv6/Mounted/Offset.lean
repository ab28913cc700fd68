import Xv6.File.Departures
import Xv6.File.Invariants

/-!
# The offset of an open file

`filewrite` writes a prefix of its bytes at the offset of the file and `fileread` delivers the bytes
that come next; both move the offset by as much as they wrote or read.  A write that does not fit
into the largest file stops at the last of its chunks that does.

`offset_follows_data` says so of one write, and of any sequence of reads from the start of the file:
what they deliver, put together (`delivered`), is a prefix of the data, and a read that delivers
nothing has asked for nothing or is at the end.  `Node.reads` are the answers of such a sequence.

The sequence is one induction over the lengths of the reads, `nwp_filereads`, with `Table.seek` for
the offset reached.  On a volume whose log is too short a write panics (`short_log_write_panics`).
-/

namespace Xv6

open Lib

section

variable {L : Layout} {D : (ℕ → Block) → Prop} {s s' : Fs} {t : Table} {σ : Nodes}
  {hold : List Ref} {M : Finset ℕ} {d : ℕ} {f : Fin NFILE} {n : Node}

/-! ## Reading an open file -/

/-- Calls of `fileread` one after another. -/
def filereads (f : Fin NFILE) : List ℕ → K (List (Option (List UInt8)))
  | [] => pure []
  | m :: ms => do
    let r ← fileread f m
    let rs ← filereads f ms
    return r :: rs

/-- The bytes that such calls have stored. -/
def delivered (rs : List (Option (List UInt8))) : List UInt8 := (rs.map fun r => r.getD []).flatten

/-- What such calls return, from the offset `off` on. -/
def Node.reads (n : Node) (readable : Bool) : ℕ → List ℕ → List (Option (List UInt8))
  | _, [] => []
  | off, m :: ms =>
    let r := if readable then readAt n off m else none
    r :: n.reads readable (off + (r.getD []).length) ms

@[simp] lemma delivered_cons (r : Option (List UInt8)) (rs : List (Option (List UInt8))) :
    delivered (r :: rs) = r.getD [] ++ delivered rs := by
  simp [delivered]

lemma nwp_filereads {ms : List ℕ} (h : s.Holds t σ hold M d) (hf : (t.file f).type = .inode)
    (hn : σ (t.inum f) = some n) (ht : n.type ≠ T_DEV) (hms : ∀ m ∈ ms, m < UINT) :
    nwp L D (filereads f ms) (fun rs s' =>
      rs = n.reads (t.file f).readable (t.file f).off ms ∧
        s'.Holds (t.seek f ((t.file f).off + (delivered rs).length)) σ hold M d) s := by
  induction ms generalizing t s with
  | nil =>
    refine nwp_ret ⟨rfl, ?_⟩
    rwa [show delivered [] = [] from rfl, List.length_nil, Nat.add_zero, Table.seek_self]
  | cons m ms ih =>
    have hstep : nwp L D (fileread f m) (fun r s' =>
        r = (if (t.file f).readable then readAt n (t.file f).off m else none) ∧
          s'.Holds (t.seek f ((t.file f).off + (r.getD []).length)) σ hold M d) s := by
      by_cases hr : (t.file f).readable = true
      · rw [if_pos hr]
        exact nwp_fileread_file h hf hr hn ht (hms m (List.mem_cons_self ..))
      · rw [if_neg hr]
        refine nwp_mono (nwp_fileread_refused h (by simpa using hr)) ?_
        rintro r s' ⟨rfl, rfl⟩
        refine ⟨rfl, ?_⟩
        rwa [Option.getD_none, List.length_nil, Nat.add_zero, Table.seek_self]
    refine nwp_seq hstep ?_
    rintro r s₁ ⟨hr, h₁⟩
    have hfile : (t.seek f ((t.file f).off + (r.getD []).length)).file f =
        { t.file f with off := (t.file f).off + (r.getD []).length } := t.file_set f _ _
    refine nwp_seq (ih h₁ (Table.file_seek.1.trans hf) (by rwa [Table.file_seek.2.2.2])
      fun m' hm' => hms m' (List.mem_cons_of_mem _ hm')) ?_
    rintro rs s₂ ⟨hrs, h₂⟩
    rw [hfile] at hrs h₂
    refine nwp_ret ⟨?_, ?_⟩
    · rw [Node.reads, ← hr, hrs]
    · rwa [Table.seek_seek, Nat.add_assoc, ← List.length_append, ← delivered_cons] at h₂

section

variable {readable : Bool} {off : ℕ} {ms : List ℕ}

lemma readAt_append_drop {m : ℕ} {got : List UInt8} (h : readAt n off m = some got) :
    got ++ n.data.drop (off + got.length) = n.data.drop off := by
  rw [readAt] at h
  split_ifs at h
  obtain rfl := Option.some.inj h
  rcases Nat.le_total m (n.data.drop off).length with hle | hle
  · rw [List.length_take, Nat.min_eq_left hle, ← List.drop_drop, List.take_append_drop]
  · have hend : n.data.length ≤ off + (n.data.length - off) := by omega
    rw [List.take_of_length_le hle, List.length_drop, List.drop_eq_nil_of_le hend,
      List.append_nil]

/-- **Together they deliver the bytes in order.** -/
lemma Node.delivered_reads_append (n : Node) (readable : Bool) (off : ℕ) (ms : List ℕ) :
    delivered (n.reads readable off ms) ++
      n.data.drop (off + (delivered (n.reads readable off ms)).length) = n.data.drop off := by
  induction ms generalizing off with
  | nil => rfl
  | cons m ms ih =>
    rw [reads, delivered_cons, List.append_assoc, List.length_append, ← Nat.add_assoc, ih]
    split_ifs
    · cases hr : readAt n off m with
      | none => rfl
      | some got => exact readAt_append_drop hr
    · rfl

lemma Node.length_delivered_reads_le (n : Node) (readable : Bool) (ms : List ℕ)
    (hoff : off ≤ n.data.length) :
    off + (delivered (n.reads readable off ms)).length ≤ n.data.length := by
  have happend := congrArg List.length (n.delivered_reads_append readable off ms)
  rw [List.length_append, List.length_drop, List.length_drop] at happend
  omega

lemma Node.take_reads (j : ℕ) : (n.reads readable off ms).take j =
    n.reads readable off (ms.take j) := by
  induction ms generalizing off j with
  | nil => simp [reads]
  | cons m ms ih =>
    cases j with
    | zero => rfl
    | succ j => rw [reads, List.take_succ_cons, List.take_succ_cons, reads, ih]

lemma Node.reads_eq_empty {j : ℕ} (hj : (n.reads readable off ms)[j]? = some (some [])) :
    ms[j]? = some 0 ∨
      n.data.length ≤ off + (delivered ((n.reads readable off ms).take j)).length := by
  induction ms generalizing off j with
  | nil => cases hj
  | cons m ms ih =>
    rw [reads] at hj ⊢
    cases j with
    | zero =>
      rw [List.getElem?_cons_zero, Option.some.injEq] at hj
      split_ifs at hj
      rw [readAt] at hj
      split_ifs at hj
      have hnil := congrArg List.length (Option.some.inj hj)
      rw [List.length_take, List.length_drop, List.length_nil] at hnil
      rw [List.getElem?_cons_zero, Option.some.injEq, List.take_zero]
      show m = 0 ∨ n.data.length ≤ off + 0
      omega
    | succ j =>
      rw [List.getElem?_cons_succ] at hj ⊢
      rw [List.take_succ_cons, delivered_cons, List.length_append, ← Nat.add_assoc]
      exact ih hj

lemma Node.none_notMem_reads (hl : 0 < n.nlink) (hoff : off ≤ n.data.length)
    (hlen : n.data.length ≤ MAXFILE * BSIZE) (hms : ∀ m ∈ ms, m < 2 ^ 31) :
    none ∉ n.reads true off ms := by
  induction ms generalizing off with
  | nil => exact List.not_mem_nil
  | cons m ms ih =>
    have hm := hms m (List.mem_cons_self ..)
    have hgood : ¬ (n.data.length < off ∨ UINT ≤ off + m ∨ n.nlink < 1) := by
      simp only [UINT, MAXFILE, NDIRECT, NINDIRECT, BSIZE] at *
      omega
    have hread : readAt n off m = some ((n.data.drop off).take m) := if_neg hgood
    rw [reads, if_pos rfl, hread, List.mem_cons]
    rintro (hnone | hin)
    · cases hnone
    · refine ih (length_readAt hread) (fun m' hm' => hms m' (List.mem_cons_of_mem _ hm')) hin

end

/-! ## The offset of an open file -/

lemma written_spec {size off len : ℕ} (hoff : off ≤ size) (hsize : size ≤ MAXFILE * BSIZE) :
    (off + len ≤ MAXFILE * BSIZE ∧ written size off len = len) ∨
      (MAXFILE * BSIZE < off + len ∧
        IsGreatest {j | WRITEMAX ∣ j ∧ off + j ≤ MAXFILE * BSIZE} (written size off len)) := by
  rw [written, if_neg (Nat.not_lt.mpr hoff)]
  split_ifs with hfit
  · exact Or.inl ⟨hfit, rfl⟩
  · refine Or.inr ⟨Nat.not_le.mp hfit, ⟨Nat.dvd_mul_left _ _, ?_⟩, ?_⟩
    · have hle := Nat.div_mul_le_self (MAXFILE * BSIZE - off) WRITEMAX
      omega
    · rintro j ⟨⟨q, rfl⟩, hj⟩
      rw [Nat.mul_comm WRITEMAX]
      refine Nat.mul_le_mul_right _ ((Nat.le_div_iff_mul_le (by decide)).mpr ?_)
      rw [Nat.mul_comm]
      omega

/-- The write has written `k` bytes: all of them, or the last chunk that fits. -/
def Wrote (off len k : ℕ) : Prop :=
  (off + len ≤ MAXFILE * BSIZE ∧ k = len) ∨
    (MAXFILE * BSIZE < off + len ∧ IsGreatest {j | WRITEMAX ∣ j ∧ off + j ≤ MAXFILE * BSIZE} k)

section

variable {m : Machine} {fm : FsMem} (hlim : L.limit ≠ none) (hm : L.Mounted s m fm)
  (hs : s.Holds t σ hold ∅ 0) (hf : (t.file f).type = .inode) (hn : σ (t.inum f) = some n)
  (ht : n.type ≠ T_DEV)

include hlim hm hs hf hn ht

lemma run_filewrite (hL : L.Room MAXOPBLOCKS) (hw : (t.file f).writable = true)
    (hoff : (t.file f).off ≤ n.data.length) (src : List UInt8) : ∃ k,
    Wrote (t.file f).off src.length k ∧ (L.Spare σ n.data.length ((t.file f).off + k) →
      ∃ m' fm' s', (filewrite f src).run kernelHandler (m, fm) =
          .ok (if k = src.length then some src.length else none) (m', fm') ∧ L.Mounted s' m' fm' ∧
        s'.Holds (t.seek f ((t.file f).off + k))
          (Function.update σ (t.inum f) (some (n.writeAt (t.file f).off (src.take k)))) hold ∅ 0 ∧
        (t.file f).off + k ≤ (n.writeAt (t.file f).off (src.take k)).data.length) := by
  have hlen : n.data.length ≤ MAXFILE * BSIZE := by
    obtain ⟨v, ino, -, hr⟩ := hm
    exact hr.length_le (hs.node ▸ hn)
  refine ⟨_, written_spec hoff hlen, fun hspare => ?_⟩
  obtain ⟨r, m', fm', s', hrun, hm', rfl, hs'⟩ := nwp_returns (nwp_filewrite_file hs hL hf hw hn
    ht rfl (Or.inr hspare) fun _ _ _ => trivial) hlim hm
  refine ⟨m', fm', s', hrun, hm', hs', ?_⟩
  rw [Node.writeAt, length_overlay hoff, List.length_take, Nat.min_eq_left written_le]
  exact le_max_right _ _

lemma run_filereads (hoff : (t.file f).off = 0) (hl : 0 < n.nlink) {sizes : List ℕ}
    (hsizes : ∀ m ∈ sizes, m < UINT) :
    ∃ got m' fm' s', (filereads f sizes).run kernelHandler (m, fm) = .ok got (m', fm') ∧
      L.Mounted s' m' fm' ∧ s'.Holds (t.seek f (delivered got).length) σ hold ∅ 0 ∧
      delivered got <+: n.data ∧
      (∀ j, got[j]? = some (some []) →
        sizes[j]? = some 0 ∨ (delivered (got.take j)).length = n.data.length) ∧
      ((t.file f).readable = true → (∀ m ∈ sizes, m < 2 ^ 31) → none ∉ got) := by
  have hlen : n.data.length ≤ MAXFILE * BSIZE := by
    obtain ⟨v, ino, -, hr⟩ := hm
    exact hr.length_le (hs.node ▸ hn)
  obtain ⟨got, m', fm', s', hrun, hm', hgot, hs'⟩ :=
    nwp_returns (nwp_filereads hs hf hn ht hsizes) hlim hm
  rw [hoff, Nat.zero_add] at hs'
  rw [hoff] at hgot
  have happend := n.delivered_reads_append (t.file f).readable 0 sizes
  rw [Nat.zero_add, List.drop_zero, ← hgot] at happend
  refine ⟨got, m', fm', s', hrun, hm', hs', ⟨_, happend⟩, fun j hj => ?_, fun hr hms => ?_⟩
  · rw [hgot] at hj ⊢
    refine (Node.reads_eq_empty hj).imp_right fun hle => le_antisymm ?_ ?_
    · rw [Node.take_reads]
      have hle' := n.length_delivered_reads_le (t.file f).readable (sizes.take j)
        (Nat.zero_le n.data.length)
      rwa [Nat.zero_add] at hle'
    · rwa [Nat.zero_add] at hle
  · rw [hgot, hr]
    exact Node.none_notMem_reads hl (Nat.zero_le _) hlen hms

end

end

/-- **`filewrite` and `fileread` move the offset along with the data**, from every state that calls
lead to, on a volume whose log has more than `MAXOPBLOCKS + 1` blocks. -/
theorem offset_follows_data {L : Layout} (hlog : MAXOPBLOCKS + 1 < L.sb.nlog) {d : BufRef → Block}
    (hd : L.Consistent d) {input : List UInt8} {w : World} (hw : w.Runs d input) {f : Fin NFILE}
    {g : File} (hg : w.mem.ftable f = g) (hf : g.type = .inode) {i : ℕ}
    (hi : (w.mem.icache g.ip).inum = i) {n : Node} (hn : L.nodes w.blk i = some n)
    (ht : n.type = T_FILE) :
    g.off ≤ n.data.length ∧
    (g.writable = true → ∀ src : List UInt8, ∃ k, Wrote g.off src.length k ∧
      (L.Spare (L.nodes w.blk) n.data.length (g.off + k) → ∃ q,
        (filewrite f src).run kernelHandler (w.machine, w.mem) =
          .ok (if k = src.length then some src.length else none) q ∧
        q.2.ftable f = { g with off := g.off + k } ∧
        L.nodes (fun b => q.1.view (onDev b)) =
          Function.update (L.nodes w.blk) i (some (n.writeAt g.off (src.take k))) ∧
        g.off + k ≤ (n.writeAt g.off (src.take k)).data.length)) ∧
    (g.off = 0 → 0 < n.nlink → ∀ sizes : List ℕ, (∀ m ∈ sizes, m < UINT) → ∃ got q,
      (filereads f sizes).run kernelHandler (w.machine, w.mem) = .ok got q ∧
        q.2.ftable f = { g with off := (delivered got).length } ∧
        L.nodes (fun b => q.1.view (onDev b)) = L.nodes w.blk ∧ delivered got <+: n.data ∧
        (∀ j, got[j]? = some (some []) →
          sizes[j]? = some 0 ∨ (delivered (got.take j)).length = n.data.length) ∧
        (g.readable = true → (∀ m ∈ sizes, m < 2 ^ 31) → none ∉ got)) := by
  have hL : (L.tight hlog).Room MAXOPBLOCKS := (L.room_tight hlog).mpr le_rfl
  obtain ⟨ino, v, s, h⟩ := hw.sound hL hd.limited
  obtain ⟨t, hold, hset⟩ := h.settled
  obtain rfl : t.file f = g := by rw [← hset.holds.file, h.rep.ft, hg]
  have hnodes : L.nodes w.blk = s.node := h.nodes_eq
  have hmounted : (L.tight hlog).Mounted s w.machine w.mem := ⟨v, ino, h.on, h.rep⟩
  have hinum : t.inum f = i := by
    obtain ⟨n', hn'⟩ := hset.quiet.live f hf
    rw [← hi, ← h.rep.inum_eq, (hset.holds.has_file hf hn').isAt.2]
  have hnode : s.node (t.inum f) = some n := by rw [hinum, ← hnodes, hn]
  have hdev : n.type ≠ T_DEV := by
    rw [ht]
    decide
  have hoff := hset.quiet.offset f n hf hnode hdev
  -- both results are read off the machine in the same way
  have hafter : ∀ {m' fm' s' off σ'}, (L.tight hlog).Mounted s' m' fm' →
      s'.Holds (t.seek f off) σ' hold ∅ 0 → fm'.ftable f = { t.file f with off := off } ∧
        L.nodes (fun b => m'.view (onDev b)) = σ' := by
    rintro m' fm' s' off σ' ⟨v', ino', hon', hr'⟩ hs'
    refine ⟨by rw [← hr'.ft, hs'.file, Table.seek, Table.file_set], ?_⟩
    exact (hr'.nodes_eq hs'.stale fun b hb => hon'.view_eq hb).trans hs'.node
  refine ⟨hoff, fun hwr src => ?_, fun hzero hl sizes hsizes => ?_⟩
  · obtain ⟨k, hk, hrun⟩ := run_filewrite (Option.some_ne_none _) hmounted hset.holds
      hf hnode hdev hL hwr hoff src
    refine ⟨k, hk, fun hspare => ?_⟩
    obtain ⟨m', fm', s', hrun, hm', hs', hle⟩ := hrun (hnodes ▸ hspare)
    obtain ⟨hfile, hnodes'⟩ := hafter hm' hs'
    exact ⟨(m', fm'), hrun, hfile, by rw [hnodes', hnodes, hinum], hle⟩
  · obtain ⟨got, m', fm', s', hrun, hm', hs', hgot⟩ := run_filereads
      (Option.some_ne_none _) hmounted hset.holds hf hnode hdev hzero hl hsizes
    obtain ⟨hfile, hnodes'⟩ := hafter hm' hs'
    exact ⟨got, (m', fm'), hrun, hfile, hnodes'.trans hnodes.symm, hgot⟩

/-- Three bytes are in a file that is opened again: 2000 bytes go over them in two chunks, or they
are read in four calls. -/
theorem offset_follows_data_reopened : ∃ (w₀ w₁ w₂ w : World) (f f' : Fin NFILE) (i : ℕ),
    w₀.Fresh ∧ w₀.Calls (.openFile (Mkfs.bytePath 0) (O_CREATE ||| O_RDWR)) w₁ ∧
    w₁.Calls (.filewrite f [65, 66, 67]) w₂ ∧ w₂.Calls (.openFile (Mkfs.bytePath 0) O_RDWR) w ∧
    (∃ q n, (filewrite f' (List.replicate 2000 68)).run kernelHandler (w.machine, w.mem) =
        .ok (some 2000) q ∧ (q.2.ftable f').off = 2000 ∧
      Mkfs.layout.nodes (fun b => q.1.view (onDev b)) i = some n ∧
      n.data = List.replicate 2000 68) ∧
    ∃ got q, (filereads f' [2, 0, 5, 1]).run kernelHandler (w.machine, w.mem) = .ok got q ∧
      (q.2.ftable f').off = (delivered got).length ∧ delivered got <+: [65, 66, 67] ∧
      none ∉ got := by
  obtain ⟨st, w₀, w₁, w₂, w, f, f', ip, c, n, σ, t, hst, hboots, h₁, h₂, h₃, hk, ht, hn, ha⟩ :=
    Mkfs.exists_reopened [65, 66, 67] (by decide)
  have hfile : w.mem.ftable f' = openedFile ip O_RDWR := by
    rw [show w.mem.ftable = _ from hk.ftable, Table.file_set]
  have hinode : ((t.set f' (openedFile ip O_RDWR) c).file f').type = .inode := by
    rw [Table.file_set]
    rfl
  have hinum := (hk.entry hinode).2.2
  rw [Table.file_set, Table.inum_set] at hinum
  have hnodes : Mkfs.layout.nodes w.blk =
      Function.update σ c (some { n with data := [65, 66, 67] }) :=
    hk.nodes
  have hnode : Mkfs.layout.nodes w.blk c = some { n with data := [65, 66, 67] } := by
    rw [hnodes, Function.update_self]
  obtain ⟨-, hwrite, hread⟩ := offset_follows_data (by decide)
    (Mkfs.consistent_main_nil hst fun _ => rfl)
    ⟨w₀, hboots, h₃.steps (h₂.steps (h₁.steps .refl))⟩ hfile rfl hinum hnode ht
  obtain ⟨src, hsrc, hlen⟩ : ∃ src : List UInt8, List.replicate 2000 68 = src ∧ src.length = 2000 :=
    ⟨_, rfl, List.length_replicate⟩
  rw [hsrc]
  obtain ⟨k, hwrote, hwrite⟩ := hwrite rfl src
  obtain rfl : k = src.length := by
    rcases hwrote with ⟨-, hk⟩ | ⟨hbig, -⟩
    · exact hk
    · rw [hlen] at hbig
      exact absurd hbig (show ¬ MAXFILE * BSIZE < 0 + 2000 by decide)
  have hoff : (openedFile ip O_RDWR).off + src.length = 2000 := by rw [hlen]; rfl
  have hspare : Mkfs.layout.Spare σ n.data.length 2000 := Mkfs.spare_first (by decide) ha hn
  rw [hoff, hnodes, if_pos rfl, hlen] at hwrite
  obtain ⟨q, hrun, hfile', hq, -⟩ :=
    hwrite (hspare.update _ ha.lt ha.new (by simp [hn]) (by simp [hn]))
  obtain ⟨got, q', hrun', hread', -, hgot, -, hnone⟩ := hread rfl (by simp [ha.nlink]) [2, 0, 5, 1]
    (by decide)
  refine ⟨w₀, w₁, w₂, w, f, f', c, ⟨st, _, [], hst, fun _ => rfl, hboots⟩, h₁, h₂, h₃,
    ⟨q, _, hrun, by rw [hfile'], by rw [hq, Function.update_self], ?_⟩,
    got, q', hrun', by rw [hread'], hgot, hnone rfl (by decide)⟩
  rw [← hlen, List.take_length]
  show overlay [65, 66, 67] 0 src = src
  have hdrop : ([65, 66, 67] : List UInt8).drop src.length = [] :=
    List.drop_of_length_le (by simp [hlen])
  simp [overlay, hdrop]

/-- **Without room in the log** a write of two blocks to a new file is too big a transaction, while
the volume has blocks for it. -/
theorem short_log_write_panics : ∃ (st : Mkfs.State) (w₀ w : World) (f : Fin NFILE)
    (q : Machine × FsMem), Mkfs.main [] = some st ∧
    Mkfs.shortLayout.Consistent (Mkfs.shortImage st) ∧ w₀.Boots (Mkfs.shortImage st) [] ∧
    w₀.Calls (.openFile (Mkfs.bytePath 0) (O_CREATE ||| O_RDWR)) w ∧
    (∀ b ∈ [900, 901], bit (w.blk Mkfs.shortLayout.bmapblock) b = false) ∧
    (filewrite f (List.replicate 513 65)).run kernelHandler (w.machine, w.mem) =
      .error (.panic .tooBigTransaction) q := by
  obtain ⟨st, hst⟩ := Mkfs.exists_main_nil
  have heval : ∀ st ∈ Mkfs.main [], Prog.wp kernelHandler (fun _ _ => False) mountFs
      (fun _ q => Prog.wp kernelHandler (fun _ _ => False)
        (openFile (Mkfs.bytePath 0) (O_CREATE ||| O_RDWR))
        (fun r q => r = some 0 ∧
          (∀ b ∈ [900, 901], bit (q.1.view (onDev Mkfs.shortLayout.bmapblock)) b = false) ∧
          Prog.wp kernelHandler (fun x _ => x = .panic .tooBigTransaction)
            (filewrite 0 (List.replicate 513 65)) (fun _ _ => False) q) q)
      (binit (Mkfs.shortImage st) true .zero, .boot []) := by
    decide +kernel
  obtain ⟨_, q, hmount, hopen⟩ := Prog.exists_ok_of_wp (heval st hst)
  obtain ⟨_, q₁, hrun₁, rfl, hbits, hpanic⟩ := Prog.exists_ok_of_wp hopen
  obtain ⟨_, q', hrun, rfl⟩ := Prog.exists_error_of_wp hpanic
  exact ⟨st, ⟨q.1, q.2, .empty⟩, ⟨q₁.1, q₁.2, { Session.empty with kernel := [0] }⟩, 0, q', hst,
    Mkfs.consistent_shortImage hst, ⟨hmount, rfl⟩, ⟨trivial, Prog.run_bind_ok _ hrun₁⟩, hbits, hrun⟩

end Xv6
