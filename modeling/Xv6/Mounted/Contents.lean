import Xv6.Mounted.Offset

/-!
# Contents of files

What `readi` and `writei` do to any inode in memory that agrees with the drive, at any point of an
operation.  A write replaces the bytes it covers, and the other inodes keep their contents, sizes
and addresses.  The blocks that one operation changes stay in the buffer cache and are listed in the
log until the operation ends, so a write that is too long for them panics; `filewrite` calls
`writei` with pieces that are short enough.

`contents_replaced` is stated for any volume in use (`Layout.Ready`), with no tree and no references
assumed, and says in which cases the write panics.  `fwp_dichotomy` is how: the same code is
verified under every limit on what it logs and without one, and what comes out has to be the same.
-/

namespace Xv6

open Lib

/-- The blocks of the files are the marked ones and no file has a hole, and the inode has been read
into an entry of the cache, which agrees with the drive. -/
structure Layout.Ready (L : Layout) (v : Vol) (fm : FsMem) (ip : Fin NINODE) (i : ℕ) (d : Dinode) :
    Prop where
  sane : L.Sane v.blk
  sb : fm.sb = L.sb
  entry : fm.Caches ip i
  din : (fm.icache ip).din = d
  inode : L.inos v.blk i = some d
  pend : v.pend = ∅
  held : v.held.length ≤ 1

/-- The bytes from `off` on are replaced, and the other inodes are as they were. -/
structure Layout.Replaced (L : Layout) (i off : ℕ) (src : List UInt8) (v v' : Vol)
    (d d' : Dinode) : Prop where
  sane : L.Sane v'.blk
  inode : L.inos v'.blk i = some d'
  content : d'.content v'.blk = overlay (d.content v.blk) off src
  size : d'.size = max d.size (off + src.length)
  other : ∀ j ≠ i, L.inos v'.blk j = L.inos v.blk j
  same : ∀ j ≠ i, ∀ d₁, L.inos v.blk j = some d₁ →
    d₁.content v'.blk = d₁.content v.blk ∧ ∀ s, d₁.addr v'.blk s = d₁.addr v.blk s

/-- The log and the buffer cache have room for `k` blocks. -/
def Layout.HasRoom (L : Layout) (k : ℕ) : Prop := (0 < k → k + 1 < L.sb.nlog) ∧ k + 3 ≤ NBUF

/-- The operation has outgrown the log or the buffer cache. -/
def Outgrown (x : Halt) : Prop := x = .panic .tooBigTransaction ∨ x = .panic .bgetNoBuffers

section

variable {L : Layout} {v v' : Vol} {m : Machine} {fm : FsMem} {ip : Fin NINODE} {i off n : ℕ}
  {d d' : Dinode} {src : List UInt8}

/-! ## Layouts with other limits -/

section

variable {α : Type} {p : K α} {Q : α → Vol → FsMem → Prop} {limit : Option ℕ}
  {hlog : ∀ n ∈ limit, 0 < n → n + 1 < L.sb.nlog} {hbuf : ∀ n ∈ limit, n + 3 ≤ NBUF}

lemma Layout.Ready.limited (h : L.Ready v fm ip i d) :
    (L.limited limit hlog hbuf).ample.Ready v fm ip i d :=
  { h with sane := ⟨{ h.sane.owns with }, h.sane.full⟩ }

lemma Layout.Written.of_limited
    (h : (L.limited limit hlog hbuf).ample.Written i off src (L.inos v.blk) v v' d d') :
    L.Written i off src (L.inos v.blk) v v' d d' :=
  { h with owns := { h.owns with } }

lemma Layout.On.limited (hm : L.loose.On v m) (hroom : ∀ n ∈ limit, v.logged.card ≤ n) :
    (L.limited limit hlog hbuf).ample.On v m :=
  hm.imp fun _ ⟨hplays, hv⟩ => ⟨hplays, { hv with room := hroom }⟩

lemma Layout.On.of_limited (hm : (L.limited limit hlog hbuf).ample.On v m) : L.loose.On v m :=
  hm.imp fun _ ⟨hplays, hv⟩ => ⟨hplays, { hv with room := fun _ h => nomatch h }⟩

lemma Layout.Halts.outgrown {x : Halt} (hx : (L.limited limit hlog hbuf).ample.Halts x) :
    limit = none ∧ Outgrown x := by
  cases x with
  | panic p =>
    cases p with
    | tooBigTransaction => exact ⟨hx, Or.inl rfl⟩
    | bgetNoBuffers => exact ⟨hx, Or.inr rfl⟩
    | dirlink => exact hx.1.elim
    | _ => exact hx.elim
  | blocked => exact hx.1.elim
  | stray => exact hx.elim

/-- **Code that does not run out of resources** ends as specified, or panics because no limit keeps
it from outgrowing the log and the buffers. -/
lemma fwp_limited (h : fwp (L.limited limit hlog hbuf).ample (fun _ => True) p Q v fm)
    (hm : L.loose.On v m) (hroom : ∀ n ∈ limit, v.logged.card ≤ n) :
    (∃ r m' v' fm', p.run kernelHandler (m, fm) = .ok r (m', fm') ∧ L.loose.On v' m' ∧
        Q r v' fm') ∨
      ∃ x q, p.run kernelHandler (m, fm) = .error x q ∧ limit = none ∧ Outgrown x := by
  rcases fwp_kernel h (hm.limited hroom) trivial with
    ⟨r, m', v', fm', hrun, hm', -, hQ⟩ | ⟨x, q, hrun, hx⟩
  · exact Or.inl ⟨r, m', v', fm', hrun, hm'.of_limited, hQ⟩
  · exact Or.inr ⟨x, q, hrun, Layout.Halts.outgrown hx.1⟩

end

/-- Code that meets its specification under every limit that admits `k` blocks. -/
lemma fwp_dichotomy {α : Type} {p : K α} {Q : α → Vol → FsMem → Prop} {k : ℕ}
    (h : ∀ limit hlog hbuf, (L.limited limit hlog hbuf).ample.Room k →
      fwp (L.limited limit hlog hbuf).ample (fun _ => True) p Q v fm)
    (hm : L.loose.On v m) (hk : v.logged.card ≤ k) :
    ((∃ r m' v' fm', p.run kernelHandler (m, fm) = .ok r (m', fm') ∧ L.loose.On v' m' ∧
        Q r v' fm') ∨
      ∃ x q, p.run kernelHandler (m, fm) = .error x q ∧ Outgrown x) ∧
    (L.HasRoom k → ∀ x q, p.run kernelHandler (m, fm) ≠ .error x q) := by
  constructor
  · have hnone : ∀ {P : ℕ → Prop}, ∀ n ∈ none, P n := fun n hn => absurd hn (Option.not_mem_none n)
    rcases fwp_limited (h none hnone hnone hnone) hm hnone with hret | ⟨x, q, hrun, -, hx⟩
    · exact Or.inl hret
    · exact Or.inr ⟨x, q, hrun, hx⟩
  · rintro ⟨hlog, hbuf⟩ x q hrun
    have hsome : ∀ {P : ℕ → Prop}, P k → ∀ n ∈ some k, P n := fun hP n hn =>
      Option.some.inj hn ▸ hP
    rcases fwp_limited (h (some k) (hsome hlog) (hsome hbuf) (hsome le_rfl)) hm (hsome hk) with
      ⟨r, m', v', fm', hrun', -⟩ | ⟨-, -, -, hnone, -⟩
    · cases hrun.symm.trans hrun'
    · exact absurd hnone (Option.some_ne_none k)

/-! ## Writing -/

lemma run_writei_refused (hd : (fm.icache ip).din = d) (ht : d.type ≠ T_DEV) (hoff : off < UINT)
    (hlen : src.length < UINT)
    (hbad : d.size < off ∨ UINT ≤ off + src.length ∨ MAXFILE * BSIZE < off + src.length) :
    (writei ip src off).run kernelHandler (m, fm) = .ok none (m, fm) := by
  have hnode : (readInode ip).run kernelHandler (m, fm) = .ok (fm.icache ip) (m, fm) := rfl
  rw [writei, Prog.run_bind_ok _ hnode, hd, if_neg ht]
  split_ifs with hcode hmax
  · rfl
  · rfl
  · exfalso
    simp only [UINT, MAXFILE, NDIRECT, NINDIRECT, BSIZE] at *
    omega

lemma Layout.Written.replaced (hw : L.Written i off src (L.inos v.blk) v v' d d')
    (h : L.Ready v fm ip i d) : L.Replaced i off src v v' d d' := by
  have hlt : i < L.sb.ninodes := h.sane.owns.lt h.inode
  have hsize : d'.size = max d.size (off + src.length) := by
    obtain ⟨a, ha⟩ := hw.fields
    rw [ha]
  have htype : d'.type ≠ 0 := hw.owns.type (Function.update_self ..)
  have hinos : L.inos v'.blk = Function.update (L.inos v.blk) i (some d') := by
    funext j
    by_cases hj : j = i
    · subst hj
      rw [Function.update_self, Layout.inos_eq_some]
      exact ⟨hlt, (hw.dinode j hlt).trans (if_pos rfl), htype⟩
    · rw [Function.update_of_ne hj]
      unfold Layout.inos
      split_ifs with hjlt
      · rw [hw.dinode j hjlt, if_neg hj]
      · rfl
  refine ⟨⟨hinos ▸ hw.owns, fun {j d₁} hj => ?_⟩, by rw [hinos, Function.update_self], hw.content,
    hsize, fun j hj => by rw [hinos, Function.update_of_ne hj], fun j hj d₁ hd₁ => ?_⟩
  · rw [hinos] at hj
    by_cases hji : j = i
    · rw [hji, Function.update_self] at hj
      exact Option.some.inj hj ▸ hw.full
    · rw [Function.update_of_ne hji] at hj
      exact (hw.same j d₁ hji hj).full (h.sane.full hj)
  · have hsame := hw.same j d₁ hj hd₁
    exact ⟨hsame.content (h.sane.full hd₁), hsame.addr⟩

lemma Layout.Ready.fwp_writei (h : L.Ready v fm ip i d) (ht : d.type ≠ T_DEV) (hoff : off ≤ d.size)
    (hend : off + src.length ≤ MAXFILE * BSIZE) {limit : Option ℕ}
    {hlog : ∀ n ∈ limit, 0 < n → n + 1 < L.sb.nlog} {hbuf : ∀ n ∈ limit, n + 3 ≤ NBUF}
    (hroom : (L.limited limit hlog hbuf).ample.Room
      (v.logged.card + 2 + 2 * touched off src.length))
    (hfree : occupied (max (nblocks d.size) (nblocks (off + src.length))) ≤
      L.free v.blk + occupied (nblocks d.size)) :
    fwp (L.limited limit hlog hbuf).ample (fun _ => True) (writei ip src off)
      (fun r v' fm' => r = some src.length ∧ ∃ d',
        L.Written i off src (L.inos v.blk) v v' d d' ∧
        fm' = fm.setInode ip { fm.icache ip with din := d' }) v fm := by
  have h' : (L.limited limit hlog hbuf).ample.Ready v fm ip i d := h.limited
  refine fwp_mono (Xv6.fwp_writei h'.sb h'.entry h'.din h'.inode h'.sane.owns h'.pend h'.held
    (h'.sane.full h'.inode) (Layout.inos_eq_some.mp h'.inode).2.1 ht hoff hend (hroom.mono ?_)
    (Or.inr hfree)) fun r v' fm' ⟨hr, d', hw, hfm⟩ => ⟨hr, d', hw.of_limited, hfm⟩
  exact Nat.add_le_add_right
    ((Finset.card_union_le ..).trans (Nat.add_le_add_left Finset.card_le_two _)) _

/-! ## Reading -/

lemma Layout.Ready.fwp_readi (h : L.Ready v fm ip i d) (ht : d.type ≠ T_DEV) (hl : 1 ≤ d.nlink)
    (hn : n < UINT) :
    fwp L (fun _ => True) (readi ip off n) (fun r v' fm' => v' = v ∧ fm' = fm ∧
      r = if d.size < off ∨ UINT ≤ off + n then none
        else some (((d.content v.blk).drop off).take n)) v fm := by
  refine fwp_mono (Xv6.fwp_readi h.entry h.din (h.sane.owns.within h.inode) h.pend h.held
    (h.sane.full h.inode) ht hn) ?_
  rintro r v' fm' ⟨rfl, rfl, rfl⟩
  refine ⟨rfl, rfl, if_congr ?_ rfl rfl⟩
  have : ¬ d.nlink < 1 := not_lt.mpr hl
  tauto

end

/-! ## A file of the empty image -/

namespace Mkfs

/-- An inode without blocks. -/
def blank (type : ℤ) : Dinode := { Dinode.new type with nlink := 1 }

lemma addr_blank (type : ℤ) (blk : ℕ → Block) (s : Slot) : (blank type).addr blk s = 0 :=
  Dinode.addr_emptied (d := blank type) blk s

lemma fits_blank {type : ℤ} (h : Bytes.IsShort type) : (blank type).Fits :=
  { Dinode.new_fits h with nlink := by norm_num [blank, Bytes.IsShort] }

/-- The inode has been read into the cache. -/
def blankMem (ip : Fin NINODE) (type : ℤ) : FsMem :=
  (FsMem.mounted sb []).setInode ip ⟨ROOTDEV, 2, 1, true, blank type⟩

lemma blankMem_icache (ip : Fin NINODE) (type : ℤ) :
    (blankMem ip type).icache ip = ⟨ROOTDEV, 2, 1, true, blank type⟩ :=
  Function.update_self ..

lemma exists_ready (ip : Fin NINODE) {type : ℤ} (ht : type ≠ 0) (hshort : Bytes.IsShort type) :
    ∃ blk m, layout.loose.On (.mounted blk) m ∧
      layout.Ready (.mounted blk) (blankMem ip type) ip 2 (blank type) ∧
      layout.free blk = 940 := by
  obtain ⟨blk, ino, m, hi, hinos, howns, hfull, hfree, hon⟩ :=
    exists_withInode (d := blank type) ht (fits_blank hshort) (addr_blank type)
  have hsane : layout.Sane blk := by
    refine ⟨hinos ▸ howns, fun {i d} hd => ?_⟩
    rw [hinos] at hd
    by_cases h2 : i = 2
    · rw [h2, hi] at hd
      exact Option.some.inj hd ▸ Dinode.full_of_size_eq_zero rfl (addr_blank type blk)
    · exact hfull i d h2 hd
  refine ⟨blk, m, ?_, ⟨hsane, rfl, ?_, ?_, hinos ▸ hi, rfl, Nat.zero_le 1⟩, hfree⟩
  · obtain ⟨a, hplays, hv⟩ := hon
    exact ⟨a, hplays, { hv with room := fun _ h => nomatch h }⟩
  · rw [FsMem.Caches, blankMem_icache]
    exact ⟨Nat.one_pos, rfl, rfl⟩
  · rw [blankMem_icache]

lemma exists_readyFile (ip : Fin NINODE) : ∃ blk m, layout.loose.On (.mounted blk) m ∧
    layout.Ready (.mounted blk) (blankMem ip T_FILE) ip 2 (blank T_FILE) ∧ layout.free blk = 940 :=
  exists_ready ip (by decide) (by norm_num [Bytes.IsShort])

end Mkfs

/-! ## The contents -/

/-- **The contents of files.** -/
theorem contents_replaced {L : Layout} {v : Vol} {m : Machine} {fm : FsMem} {ip : Fin NINODE}
    {i : ℕ} {d : Dinode} (hm : L.loose.On v m) (h : L.Ready v fm ip i d) (ht : d.type ≠ T_DEV)
    {off : ℕ} (hoff : off < UINT) :
    (∀ src : List UInt8, src.length < UINT →
      ((d.size < off ∨ UINT ≤ off + src.length ∨ MAXFILE * BSIZE < off + src.length) →
        (writei ip src off).run kernelHandler (m, fm) = .ok none (m, fm)) ∧
      (off ≤ d.size → off + src.length ≤ MAXFILE * BSIZE →
        occupied (max (nblocks d.size) (nblocks (off + src.length))) ≤
          L.free v.blk + occupied (nblocks d.size) →
        ((∃ m' v' d', (writei ip src off).run kernelHandler (m, fm) =
              .ok (some src.length) (m', fm.setInode ip { fm.icache ip with din := d' }) ∧
            L.loose.On v' m' ∧ L.Replaced i off src v v' d d') ∨
          ∃ x q, (writei ip src off).run kernelHandler (m, fm) = .error x q ∧ Outgrown x) ∧
        (L.HasRoom (v.logged.card + 2 + 2 * touched off src.length) →
          ∀ x q, (writei ip src off).run kernelHandler (m, fm) ≠ .error x q))) ∧
    (1 ≤ d.nlink → ∀ n < UINT,
      ((∃ m', (readi ip off n).run kernelHandler (m, fm) =
            .ok (if d.size < off ∨ UINT ≤ off + n then none
              else some (((d.content v.blk).drop off).take n)) (m', fm) ∧ L.loose.On v m') ∨
        ∃ x q, (readi ip off n).run kernelHandler (m, fm) = .error x q ∧ Outgrown x) ∧
      (L.HasRoom v.logged.card →
        ∀ x q, (readi ip off n).run kernelHandler (m, fm) ≠ .error x q)) := by
  refine ⟨fun src hlen => ⟨run_writei_refused h.din ht hoff hlen, fun hin hend hfree => ?_⟩,
    fun hl n hn => ?_⟩
  · obtain ⟨hret, hroom⟩ := fwp_dichotomy (k := v.logged.card + 2 + 2 * touched off src.length)
      (fun _ _ _ hk => h.fwp_writei ht hin hend hk hfree) hm (by omega)
    refine ⟨hret.imp_left ?_, hroom⟩
    rintro ⟨_, m', v', _, hrun, hm', rfl, d', hw, rfl⟩
    exact ⟨m', v', d', hrun, hm', hw.replaced h⟩
  · obtain ⟨hret, hroom⟩ := fwp_dichotomy (k := v.logged.card)
      (fun _ _ _ _ => h.limited.fwp_readi ht hl hn) hm le_rfl
    refine ⟨hret.imp_left ?_, hroom⟩
    rintro ⟨_, m', v', _, hrun, hm', rfl, rfl, rfl⟩
    exact ⟨m', hrun, hm'⟩

/-- Three bytes are written to a file without blocks. -/
theorem contents_replaced_three : ∃ (v v' : Vol) (m m' : Machine) (fm fm' : FsMem)
    (ip : Fin NINODE) (d' : Dinode), Mkfs.layout.Ready v fm ip 2 (Mkfs.blank T_FILE) ∧
      (writei ip [65, 66, 67] 0).run kernelHandler (m, fm) = .ok (some 3) (m', fm') ∧
      Mkfs.layout.Replaced 2 0 [65, 66, 67] v v' (Mkfs.blank T_FILE) d' := by
  obtain ⟨blk, m, hm, h, hfree⟩ := Mkfs.exists_readyFile ⟨0, by decide⟩
  have hwrite := (contents_replaced hm h (by decide) (show 0 < UINT by decide)).1 [65, 66, 67]
    (by decide)
  have hspare : occupied (max (nblocks (Mkfs.blank T_FILE).size) (nblocks (0 + 3))) ≤
      Mkfs.layout.free blk + occupied (nblocks (Mkfs.blank T_FILE).size) := by
    rw [hfree]
    decide
  obtain ⟨hret, hroom⟩ := hwrite.2 (Nat.zero_le _) (by decide) hspare
  have hfits : Mkfs.layout.HasRoom (0 + 2 + 2 * touched 0 3) := ⟨fun _ => by decide, by decide⟩
  rcases hret with ⟨m', v', d', hrun, -, hreplaced⟩ | ⟨x, q, hrun, -⟩
  · exact ⟨_, v', m, m', _, _, _, d', h, hrun, hreplaced⟩
  · exact absurd hrun (hroom hfits x q)

/-! ## A write that is too long -/

namespace Mkfs

lemma exists_unlike (blk : ℕ → Block) : ∃ x : Block, ∀ b < FSSIZE, blk b ≠ x := by
  have hbyte : ∀ y z : UInt8, ∃ c, c ≠ y ∧ c ≠ z := fun y z => by
    obtain ⟨c, -, hc⟩ := Finset.exists_mem_notMem_of_card_lt_card (s := {y, z})
      (t := {0, 1, 2}) (Finset.card_le_two.trans_lt (by decide))
    exact ⟨c, by simpa using hc⟩
  -- byte `j` tells the contents from those of two blocks
  choose f hf using fun j : Fin BSIZE => hbyte ((blk (2 * j)).get j) ((blk (2 * j + 1)).get j)
  refine ⟨f, fun b hb he => ?_⟩
  have hj : b / 2 < BSIZE := by
    simp only [FSSIZE, BSIZE] at *
    omega
  have hget : (blk b).get (b / 2) = f ⟨b / 2, hj⟩ := by
    rw [he]
    exact dif_pos hj
  rcases Nat.even_or_odd' b with ⟨k, rfl | rfl⟩
  · have hk : 2 * k / 2 = k := by omega
    simp only [hk] at hget
    exact (hf ⟨k, hk ▸ hj⟩).1 hget.symm
  · have hk : (2 * k + 1) / 2 = k := by omega
    simp only [hk] at hget
    exact (hf ⟨k, hk ▸ hj⟩).2 hget.symm

/-- Copies of a block, one behind the other. -/
def copies (n : ℕ) (x : Block) : List UInt8 :=
  (List.range (n * BSIZE)).map fun j => x.get (j % BSIZE)

@[simp] lemma length_copies (n : ℕ) (x : Block) : (copies n x).length = n * BSIZE := by
  simp [copies]

lemma getD_copies {n j : ℕ} {x : Block} (hj : j < n * BSIZE) :
    (copies n x).getD j 0 = x.get (j % BSIZE) := by
  simp [copies, List.getD_eq_getElem?_getD, hj]

end Mkfs

lemma Layout.Written.mem_logged {L : Layout} {i n : ℕ} {x : Block} {ino : Inos} {v v' : Vol}
    {d d' : Dinode} {m' : Machine} (hw : L.Written i 0 (Mkfs.copies n x) ino v v' d d')
    (hm : L.loose.On v' m') (hp : v.pend = ∅) (hd : d.size = 0) (hx : ∀ b < L.sb.size, v.old b ≠ x)
    {k : ℕ} (hk : k < n) : d'.addr v'.blk (.data k) ≠ 0 ∧ d'.addr v'.blk (.data k) ∈ v'.logged := by
  have hsize : d'.size = n * BSIZE := by
    obtain ⟨a, rfl⟩ := hw.fields
    simp [hd]
  have hcontent : d'.content v'.blk = Mkfs.copies n x := by
    rw [hw.content, List.eq_nil_of_length_eq_zero (Dinode.length_content.trans hd)]
    simp [overlay]
  have hne : d'.addr v'.blk (.data k) ≠ 0 := by
    refine (hw.full.data k).mpr (hk.trans_le ?_)
    rw [hsize, nblocks]
    simp only [BSIZE]
    omega
  refine ⟨hne, ?_⟩
  have hrange := hw.owns.range_addr (Function.update_self ..) hne
  have hnew : v'.blk (d'.addr v'.blk (.data k)) = x := by
    refine Bytes.ext fun r hr => ?_
    have hj : k * BSIZE + r < n * BSIZE := by
      calc k * BSIZE + r < (k + 1) * BSIZE := by rw [Nat.add_mul, one_mul]; omega
        _ ≤ n * BSIZE := Nat.mul_le_mul_right _ hk
    have hbyte : (d'.content v'.blk).getD (k * BSIZE + r) 0 = _ :=
      Dinode.getD_content (hj.trans_eq hsize.symm)
    rw [hcontent, Mkfs.getD_copies hj, Dinode.byteAt, Nat.mul_comm k, Nat.mul_add_mod,
      Nat.mul_add_div (by decide), Nat.mod_eq_of_lt hr, Nat.div_eq_of_lt hr, Nat.add_zero] at hbyte
    exact hbyte.symm
  obtain ⟨a, -, hv⟩ := hm
  have hout : L.loose.Out (d'.addr v'.blk (.data k)) := L.out_data hrange.1 hrange.2
  have hdirty : onDev (d'.addr v'.blk (.data k)) ∈ a.dirty := by
    by_contra hnot
    have hpend : onDev (d'.addr v'.blk (.data k)) ∉ a.pend := fun h => by
      have := hv.pend h
      rw [hw.pend, hp] at this
      simp at this
    have hclean := hv.clean _ hnot hpend
    rw [hv.mem _ hout, hv.old _ hout, hnew, hw.old] at hclean
    exact hx _ hrange.2 hclean.symm
  obtain ⟨b, hb, he⟩ := Finset.mem_image.mp (hv.dirty hdirty)
  exact onDev_injective he ▸ hb

lemma Layout.On.card_logged_le {L : Layout} {v : Vol} {m : Machine} (hm : L.On v m) :
    v.logged.card ≤ LOGSIZE := by
  obtain ⟨a, -, hv⟩ := hm
  obtain ⟨lh, -, hlist, -, hn⟩ := hv.log
  exact hn ▸ hlist.count

/-- A write of 32 blocks to a file without blocks, at the start of an operation. -/
lemma Mkfs.run_long_write : ∃ (v : Vol) (m : Machine) (fm : FsMem) (ip : Fin NINODE)
    (src : List UInt8), layout.loose.On v m ∧ layout.Ready v fm ip 2 (blank T_FILE) ∧
      v.logged = ∅ ∧ src.length ≤ MAXFILE * BSIZE ∧
      occupied (max (nblocks (blank T_FILE).size) (nblocks src.length)) ≤
        layout.free v.blk + occupied (nblocks (blank T_FILE).size) ∧
      ∃ x q, (writei ip src 0).run kernelHandler (m, fm) = .error x q ∧ Outgrown x := by
  obtain ⟨blk, m, hm, h, hfree⟩ := Mkfs.exists_readyFile ⟨0, by decide⟩
  obtain ⟨x, hx⟩ := Mkfs.exists_unlike blk
  have hmax : 0 + (Mkfs.copies 32 x).length ≤ MAXFILE * BSIZE := by
    rw [Mkfs.length_copies]
    decide
  have hroom : occupied (max (nblocks (Mkfs.blank T_FILE).size)
      (nblocks (0 + (Mkfs.copies 32 x).length))) ≤
        Mkfs.layout.free blk + occupied (nblocks (Mkfs.blank T_FILE).size) := by
    rw [hfree, Mkfs.length_copies]
    decide
  have ht : (Mkfs.blank T_FILE).type ≠ T_DEV := by decide
  refine ⟨_, m, _, _, Mkfs.copies 32 x, hm, h, rfl, (Nat.zero_add _).symm.trans_le hmax,
    Nat.zero_add (Mkfs.copies 32 x).length ▸ hroom, ?_⟩
  obtain ⟨hret, -⟩ := fwp_dichotomy (k := _)
    (fun _ _ _ hk => h.fwp_writei ht (Nat.zero_le _) hmax hk hroom) hm (by simp [Vol.mounted])
  refine hret.resolve_left ?_
  rintro ⟨_, m', v', _, hrun, hm', -, d', hw, -⟩
  have hlogged := fun {k} (hk : k < 32) => hw.mem_logged hm' h.pend rfl
    (fun b hb => hx b (hb.trans_le Mkfs.layout.size_le)) hk
  -- the blocks are different ones
  have hinj : Set.InjOn (fun k => d'.addr v'.blk (.data k)) (Finset.range 32 : Finset ℕ) := by
    intro k hk k' hk' he
    have hk32 : k < 32 := by simpa using hk
    exact Slot.data.inj (hw.owns.addr_inj (Function.update_self ..) (Function.update_self ..)
      (hlogged hk32).1 he).2
  have hcard := Finset.card_le_card_of_injOn _ (t := v'.logged)
    (fun k hk => (hlogged (by simpa using hk)).2) hinj
  rw [Finset.card_range] at hcard
  exact absurd (hcard.trans hm'.card_logged_le) (by decide)

lemma Mkfs.run_read_device : ∃ (v : Vol) (m : Machine) (fm : FsMem) (ip : Fin NINODE),
    layout.loose.On v m ∧ layout.Ready v fm ip 2 (blank T_DEV) ∧
      (readi ip 0 0).run kernelHandler (m, fm) = .ok none (m, fm) := by
  obtain ⟨blk, m, hm, h, -⟩ := exists_ready ⟨0, by decide⟩ (show T_DEV ≠ 0 by decide)
    (by norm_num [Bytes.IsShort])
  refine ⟨_, m, _, _, hm, h, ?_⟩
  have hnode : (readInode ⟨0, by decide⟩).run kernelHandler (m, blankMem ⟨0, by decide⟩ T_DEV) =
      .ok ((blankMem ⟨0, by decide⟩ T_DEV).icache ⟨0, by decide⟩)
        (m, blankMem ⟨0, by decide⟩ T_DEV) := rfl
  rw [readi, Prog.run_bind_ok _ hnode, blankMem_icache]
  rfl

/-- A write can be too long for the log although the blocks are there, and a device is not read by
its size. -/
theorem long_write_panics :
    (∃ (v : Vol) (m : Machine) (fm : FsMem) (ip : Fin NINODE) (src : List UInt8),
      Mkfs.layout.loose.On v m ∧ Mkfs.layout.Ready v fm ip 2 (Mkfs.blank T_FILE) ∧
      v.logged = ∅ ∧ src.length ≤ MAXFILE * BSIZE ∧
      occupied (max (nblocks (Mkfs.blank T_FILE).size) (nblocks src.length)) ≤
        Mkfs.layout.free v.blk + occupied (nblocks (Mkfs.blank T_FILE).size) ∧
      ∃ x q, (writei ip src 0).run kernelHandler (m, fm) = .error x q ∧ Outgrown x) ∧
    (Mkfs.blank T_DEV).nlink = 1 ∧
    ∃ (v : Vol) (m : Machine) (fm : FsMem) (ip : Fin NINODE),
      Mkfs.layout.loose.On v m ∧ Mkfs.layout.Ready v fm ip 2 (Mkfs.blank T_DEV) ∧
      (readi ip 0 0).run kernelHandler (m, fm) = .ok none (m, fm) :=
  ⟨Mkfs.run_long_write, rfl, Mkfs.run_read_device⟩

end Xv6
