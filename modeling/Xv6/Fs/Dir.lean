import Xv6.Fs.Nodes

/-!
# Directories

The data of a directory is an array of entries.  `n.entries` reads it, and a write of one entry
replaces that entry or adds one behind the last (`setSlot`).

The loops of `dirlookup`, `dirlink` and `isdirempty` read the entries one after another.  What they
return is a search in the list: the first entry in use with the name (`findName`), the first entry
that is not in use (`freeSlot`), and whether there is an entry in use behind the first two.

A slot is written at the offset that the search came to, either inside the data or at its end, and
both are `Node.putDirent`.  The rules `nwp_dirlookup` and `nwp_dirlink` are on nodes; their
counterparts `Layout.Rep.fwp_dirlookup` and `Layout.Rep.fwp_dirlink_present` keep the memory and the
volume in sight, for code that runs in the middle of an operation.
-/

namespace Xv6

open Lib

/-! ## Names -/

lemma strncmp_eq_zero_iff {n : ℕ} {p q : ℕ → UInt8} :
    strncmp n p q = 0 ↔ ∀ i < n, (∀ j < i, p j ≠ 0) → p i = q i := by
  induction n generalizing p q with
  | zero => simp [strncmp]
  | succ n ih =>
    rw [strncmp]
    split_ifs with h
    · rw [ih]
      constructor
      · intro hrec i hi hp
        cases i with
        | zero => exact h.2
        | succ i => exact hrec i (by omega) fun j hj => hp (j + 1) (by omega)
      · intro hall i hi hp
        refine hall (i + 1) (by omega) fun j hj => ?_
        cases j with
        | zero => exact h.1
        | succ j => exact hp j (by omega)
    · constructor
      · intro hsub i hi hp
        have heq : p 0 = q 0 := UInt8.toNat_inj.mp (by omega)
        cases i with
        | zero => exact heq
        | succ i => exact absurd ⟨hp 0 (by omega), heq⟩ h
      · intro hall
        rw [hall 0 (by omega) fun j hj => absurd hj (Nat.not_lt_zero j)]
        exact sub_self _

lemma namecmp_strncpy (name : Name) : namecmp name (strncpy name) = 0 := by
  refine strncmp_eq_zero_iff.mpr fun i hi hp => ?_
  simp only [Bytes.get, dif_pos hi, strncpy]
  exact (if_pos hp).symm

lemma namecmp_dotdot_dot : namecmp dotdot dot ≠ 0 := by decide

lemma strncpy_dot : strncpy dot = dot := by decide

lemma strncpy_dotdot : strncpy dotdot = dotdot := by decide

/-! ## Entries -/

/-- The entries in the data of a directory. -/
def direntsOf (l : List UInt8) : List Dirent :=
  (List.range (l.length / DIRENTSIZE)).map fun k =>
    Dirent.ofBytes ((l.drop (DIRENTSIZE * k)).take DIRENTSIZE)

def Node.entries (n : Node) : List Dirent := direntsOf n.data

/-- A directory holds whole entries. -/
structure Node.IsDir (n : Node) : Prop where
  type : n.type = T_DIR
  whole : DIRENTSIZE ∣ n.data.length

/-- Entry `k` is replaced, or added behind the last. -/
def setSlot (es : List Dirent) (k : ℕ) (e : Dirent) : List Dirent :=
  es.take k ++ e :: es.drop (k + 1)

section

variable {l a b : List UInt8} {es : List Dirent} {e : Dirent} {k : ℕ}

@[simp] lemma length_direntsOf : (direntsOf l).length = l.length / DIRENTSIZE := by
  simp [direntsOf]

lemma direntsOf_append (h : DIRENTSIZE ∣ a.length) :
    direntsOf (a ++ b) = direntsOf a ++ direntsOf b := by
  obtain ⟨m, hm⟩ := h
  have hlen : (a ++ b).length / DIRENTSIZE = m + b.length / DIRENTSIZE := by
    rw [List.length_append, hm]
    simp only [DIRENTSIZE]
    omega
  have hm' : a.length / DIRENTSIZE = m := by
    rw [hm]
    simp only [DIRENTSIZE]
    omega
  rw [direntsOf, direntsOf, direntsOf, hlen, hm', List.range_add, List.map_append, List.map_map]
  congr 1
  · refine List.map_congr_left fun k hk => ?_
    have hk' := List.mem_range.mp hk
    rw [List.drop_append_of_le_length (by simp only [DIRENTSIZE] at *; omega),
      List.take_append_of_le_length (by simp only [List.length_drop, DIRENTSIZE] at *; omega)]
  · refine List.map_congr_left fun k _ => ?_
    show Dirent.ofBytes (((a ++ b).drop (DIRENTSIZE * (m + k))).take DIRENTSIZE) = _
    rw [Nat.mul_add, ← hm, List.drop_append, List.drop_eq_nil_of_le (Nat.le_add_right _ _),
      Nat.add_sub_cancel_left, List.nil_append]

lemma direntsOf_bytes (he : e.inum < 65536) : direntsOf e.bytes = [e] := by
  have hone : direntsOf e.bytes = [Dirent.ofBytes (e.bytes.take DIRENTSIZE)] := by
    simp [direntsOf]
  rw [hone, List.take_of_length_le (Dirent.length_bytes e).le, Dirent.ofBytes_bytes e he]

lemma direntsOf_take (hk : DIRENTSIZE * k ≤ l.length) :
    direntsOf (l.take (DIRENTSIZE * k)) = (direntsOf l).take k ∧
      direntsOf (l.drop (DIRENTSIZE * k)) = (direntsOf l).drop k := by
  have hlen : (l.take (DIRENTSIZE * k)).length = DIRENTSIZE * k := by
    rw [List.length_take, Nat.min_eq_left hk]
  have happ := direntsOf_append (b := l.drop (DIRENTSIZE * k)) (Dvd.intro k hlen.symm)
  rw [List.take_append_drop] at happ
  have hk' : (direntsOf (l.take (DIRENTSIZE * k))).length = k := by
    rw [length_direntsOf, hlen]
    exact Nat.mul_div_cancel_left k (by norm_num)
  rw [happ]
  exact ⟨(List.take_left' hk').symm, (List.drop_left' hk').symm⟩

lemma direntsOf_overlay (hdiv : DIRENTSIZE ∣ l.length) (hk : k ≤ (direntsOf l).length)
    (he : e.inum < 65536) :
    direntsOf (overlay l (DIRENTSIZE * k) e.bytes) = setSlot (direntsOf l) k e := by
  rw [length_direntsOf] at hk
  have hle : DIRENTSIZE * k ≤ l.length := by
    simp only [DIRENTSIZE] at *
    omega
  have hlen : (l.take (DIRENTSIZE * k)).length = DIRENTSIZE * k := by
    rw [List.length_take, Nat.min_eq_left hle]
  have hrest : direntsOf (l.drop (DIRENTSIZE * k + DIRENTSIZE)) = (direntsOf l).drop (k + 1) := by
    by_cases hlt : DIRENTSIZE * (k + 1) ≤ l.length
    · exact (direntsOf_take hlt).2
    · have h₁ : l.drop (DIRENTSIZE * k + DIRENTSIZE) = [] :=
        List.drop_eq_nil_of_le (Nat.not_le.mp hlt).le
      rw [h₁, List.drop_eq_nil_of_le]
      · rfl
      · rw [length_direntsOf]
        simp only [DIRENTSIZE] at *
        omega
  rw [overlay, Dirent.length_bytes, List.append_assoc, direntsOf_append (Dvd.intro k hlen.symm),
    direntsOf_append (Dvd.intro 1 (by simp)), direntsOf_bytes he, (direntsOf_take hle).1, hrest]
  rfl

lemma getElem?_setSlot (hk : k ≤ es.length) (j : ℕ) :
    (setSlot es k e)[j]? = if j = k then some e else es[j]? := by
  have hlen : (es.take k).length = k := by rw [List.length_take, Nat.min_eq_left hk]
  rcases Nat.lt_trichotomy j k with hj | rfl | hj
  · rw [if_neg hj.ne, setSlot, List.getElem?_append_left (by omega), List.getElem?_take_of_lt hj]
  · rw [if_pos rfl, setSlot, List.getElem?_append_right hlen.le, hlen, Nat.sub_self]
    rfl
  · obtain ⟨m, rfl⟩ : ∃ m, j = k + 1 + m := ⟨j - (k + 1), by omega⟩
    rw [if_neg hj.ne', setSlot, List.getElem?_append_right (by omega), hlen,
      show k + 1 + m - k = m + 1 by omega, List.getElem?_cons_succ, List.getElem?_drop]

end

/-- A directory after a write of its entry `k`. -/
def Node.putDirent (n : Node) (k : ℕ) (e : Dirent) : Node :=
  { n with data := overlay n.data (DIRENTSIZE * k) e.bytes }

section

variable {n : Node} {k : ℕ} {e : Dirent}

namespace Node

lemma length_entries (n : Node) : n.entries.length = n.data.length / DIRENTSIZE := length_direntsOf

lemma IsDir.length_data (h : n.IsDir) : n.data.length = DIRENTSIZE * n.entries.length := by
  rw [length_entries, Nat.mul_div_cancel' h.whole]

lemma IsDir.le_length (h : n.IsDir) (hk : k ≤ n.entries.length) :
    DIRENTSIZE * k ≤ n.data.length := by
  rw [h.length_data]
  exact Nat.mul_le_mul_left _ hk

lemma entries_putDirent (h : n.IsDir) (hk : k ≤ n.entries.length) (he : e.inum < 65536) :
    (n.putDirent k e).entries = setSlot n.entries k e :=
  direntsOf_overlay h.whole hk he

lemma IsDir.putDirent (h : n.IsDir) (hk : k ≤ n.entries.length) : (n.putDirent k e).IsDir where
  type := h.type
  whole := by
    have hle := h.le_length hk
    show DIRENTSIZE ∣ (overlay n.data (DIRENTSIZE * k) e.bytes).length
    rw [length_overlay hle, Dirent.length_bytes]
    obtain ⟨m, hm⟩ := h.whole
    rcases le_total n.data.length (DIRENTSIZE * k + DIRENTSIZE) with hle' | hle'
    · rw [max_eq_right hle']
      exact ⟨k + 1, rfl⟩
    · rw [max_eq_left hle', hm]
      exact ⟨m, rfl⟩

@[simp] lemma putDirent_type : (n.putDirent k e).type = n.type := rfl

@[simp] lemma putDirent_nlink : (n.putDirent k e).nlink = n.nlink := rfl

end Node

end

/-! ## Searches -/

/-- The entry is in use and has the name. -/
def Dirent.Matches (name : Name) (e : Dirent) : Prop := e.inum ≠ 0 ∧ namecmp name e.name = 0

instance (name : Name) : DecidablePred (Dirent.Matches name) :=
  fun e => inferInstanceAs (Decidable (e.inum ≠ 0 ∧ namecmp name e.name = 0))

/-- The first entry in use with the name. -/
def findName (name : Name) (es : List Dirent) : Option ℕ := es.findIdx? fun e => e.Matches name

/-- The first entry that is not in use, or the end of the list. -/
def freeSlot (es : List Dirent) : ℕ := es.findIdx fun e => e.inum = 0

section

variable {name : Name} {es : List Dirent} {e : Dirent} {k : ℕ}

lemma findName_eq_none_iff : findName name es = none ↔ ∀ e ∈ es, ¬ e.Matches name := by
  simp [findName, List.findIdx?_eq_none_iff]

lemma findName_eq_some (h : findName name es = some k) : ∃ e, es[k]? = some e ∧ e.Matches name := by
  obtain ⟨hk, hm, -⟩ := List.findIdx?_eq_some_iff_getElem.mp h
  exact ⟨es[k], List.getElem?_eq_getElem hk, by simpa using hm⟩

lemma findName_of_first (he : es[k]? = some e) (hm : e.Matches name)
    (hb : ∀ j < k, ∀ e, es[j]? = some e → ¬ e.Matches name) : findName name es = some k := by
  obtain ⟨hk, rfl⟩ := List.getElem?_eq_some_iff.mp he
  refine List.findIdx?_eq_some_iff_getElem.mpr ⟨hk, by simpa using hm, fun j hj => ?_⟩
  simpa using hb j hj _ (List.getElem?_eq_getElem (hj.trans hk))

lemma freeSlot_le : freeSlot es ≤ es.length := List.findIdx_le_length

lemma inum_of_lt_freeSlot {j : ℕ} (hj : j < freeSlot es) : ∃ e, es[j]? = some e ∧ e.inum ≠ 0 := by
  have hlen := hj.trans_le freeSlot_le
  refine ⟨es[j], List.getElem?_eq_getElem hlen, ?_⟩
  simpa using List.not_of_lt_findIdx hj

lemma inum_freeSlot (h : es[freeSlot es]? = some e) : e.inum = 0 := by
  obtain ⟨hk, rfl⟩ := List.getElem?_eq_some_iff.mp h
  exact of_decide_eq_true (List.findIdx_getElem (w := hk))

lemma freeSlot_eq (hb : ∀ j < k, ∃ e, es[j]? = some e ∧ e.inum ≠ 0)
    (hk : ∀ e, es[k]? = some e → e.inum = 0) : freeSlot es = k := by
  refine Nat.le_antisymm (Nat.not_lt.mp fun hlt => ?_) (Nat.not_lt.mp fun hlt => ?_)
  · obtain ⟨e, he, hz⟩ := inum_of_lt_freeSlot hlt
    exact hz (hk e he)
  · obtain ⟨e, he, hz⟩ := hb _ hlt
    exact hz (inum_freeSlot he)

end

/-! ## The loops over a directory -/

lemma nwp_of_rep {α : Type} {L : Layout} {D : (ℕ → Block) → Prop} {p : K α}
    {Q : α → Fs → Prop} {s : Fs}
    (h : ∀ ino v fm, L.Rep ino s v fm → nwp L D p Q s) : nwp L D p Q s :=
  fun ino v fm hr => h ino v fm hr ino v fm hr

lemma Layout.Rep.length_le {L : Layout} {ino : Inos} {s : Fs} {v : Vol} {fm : FsMem}
    {i : ℕ} {n : Node}
    (h : L.Rep ino s v fm) (hn : s.node i = some n) : n.data.length ≤ MAXFILE * BSIZE := by
  obtain ⟨d, hd, rfl⟩ := h.ino_of_node hn
  show (d.content v.blk).length ≤ MAXFILE * BSIZE
  rw [Dinode.length_content]
  exact nblocks_le.mp (h.full hd).le

section

variable {α : Type} {L : Layout} {D : (ℕ → Block) → Prop} {Q : α → Fs → Prop} {s : Fs}
  {dp : Fin NINODE} {i k : ℕ} {n : Node} {name : Name}

lemma Layout.Rep.fwp_dirent {ino : Inos} {v : Vol} {fm : FsMem} {R : α → Vol → FsMem → Prop}
    {stop : K α} {body : Option (List UInt8) → K α} (hr : L.Rep ino s v fm) (hh : s.Has dp i n)
    (hd : n.IsDir) (hl : 0 < n.nlink) (hstop : n.entries.length ≤ k → fwp L D stop R v fm)
    (hbody : ∀ l, l.length = DIRENTSIZE → n.entries[k]? = some (Dirent.ofBytes l) →
      fwp L D (body (some l)) R v fm) :
    fwp L D (readInode dp >>= fun i =>
      if DIRENTSIZE * k < i.din.size then readi dp (DIRENTSIZE * k) DIRENTSIZE >>= body else stop)
      R v fm := by
  obtain ⟨hdin, rfl⟩ := hr.din hh
  have hmax := hr.length_le hh.node
  have hlen := hd.length_data
  have hsize : (fm.icache dp).din.size = ((fm.icache dp).din.node v.blk).data.length :=
    Dinode.length_content.symm
  refine fwp_readInode ?_
  rw [hsize]
  -- the loops test the offset against the size, and sizes are multiples of an entry
  split_ifs with hlt
  · have hk : k < ((fm.icache dp).din.node v.blk).entries.length := by
      simp only [DIRENTSIZE] at *
      omega
    have ht : (fm.icache dp).din.type ≠ T_DEV := by
      rw [show (fm.icache dp).din.type = T_DIR from hd.type]
      decide
    refine fwp_seq (fwp_readi (hr.caches hh.isAt) rfl (hr.owns.within hdin) hr.pend (hr.held_le 1)
      (hr.full hdin) ht (by norm_num)) ?_
    rintro r v' fm' ⟨rfl, rfl, rfl⟩
    rw [if_neg]
    · refine hbody _ ?_ ?_
      · show ((((fm'.icache dp).din.node v'.blk).data.drop (DIRENTSIZE * k)).take
          DIRENTSIZE).length = _
        rw [List.length_take, List.length_drop, Nat.min_eq_left]
        simp only [DIRENTSIZE] at *
        omega
      · rw [Node.entries, direntsOf, List.getElem?_map, List.getElem?_range]
        · rfl
        · rw [← Node.length_entries]
          exact hk
    · have hl' : ¬ (fm'.icache dp).din.nlink < 1 := not_lt.mpr hl
      rw [hsize]
      simp only [DIRENTSIZE, MAXFILE, NDIRECT, NINDIRECT, BSIZE, UINT] at *
      omega
  · refine hstop ?_
    simp only [DIRENTSIZE] at *
    omega

lemma nwp_dirent {stop : K α} {body : Option (List UInt8) → K α} (hh : s.Has dp i n) (hd : n.IsDir)
    (hl : 0 < n.nlink) (hstop : n.entries.length ≤ k → nwp L D stop Q s)
    (hbody : ∀ l, l.length = DIRENTSIZE → n.entries[k]? = some (Dirent.ofBytes l) →
      nwp L D (body (some l)) Q s) :
    nwp L D (readInode dp >>= fun i =>
      if DIRENTSIZE * k < i.din.size then readi dp (DIRENTSIZE * k) DIRENTSIZE >>= body else stop)
      Q s :=
  fun ino v fm hr => hr.fwp_dirent hh hd hl (fun hle => hstop hle ino v fm hr)
    fun l hlen he => hbody l hlen he ino v fm hr

/-- What `dirlookup` does to the memory in a directory with the entries `es`. -/
inductive FsMem.Finds (fm : FsMem) (name : Name) (es : List Dirent) :
    Option (Fin NINODE × ℕ) → FsMem → Prop
  | missing (h : findName name es = none) : Finds fm name es none fm
  | found {k : ℕ} {e : Dirent} {ip : Fin NINODE} {fm' : FsMem} (h : findName name es = some k)
      (he : es[k]? = some e) (hg : Got fm e.inum ip fm') :
      Finds fm name es (some (ip, DIRENTSIZE * k)) fm'

private lemma fwp_dirlookupFrom {ino : Inos} {v : Vol} {fm : FsMem} {turns : ℕ}
    (hr : L.Rep ino s v fm) (hh : s.Has dp i n) (hd : n.IsDir) (hl : 0 < n.nlink)
    (hget : ∀ e ∈ n.entries, e.Matches name → L.scarce ∨ s.CanGet e.inum)
    (hturns : n.entries.length ≤ k + turns)
    (hbefore : ∀ j < k, ∀ e, n.entries[j]? = some e → ¬ e.Matches name) :
    fwp L D (dirlookupFrom dp name turns (DIRENTSIZE * k))
      (fun r v' fm' => v' = v ∧ fm.Finds name n.entries r fm') v fm := by
  have hmissing : n.entries.length ≤ k → fm.Finds name n.entries none fm := fun hle => by
    refine .missing (findName_eq_none_iff.mpr fun e he => ?_)
    obtain ⟨j, hj, rfl⟩ := List.mem_iff_getElem.mp he
    exact hbefore j (hj.trans_le hle) _ (List.getElem?_eq_getElem hj)
  induction turns generalizing k with
  | zero => exact fwp_ret ⟨rfl, hmissing hturns⟩
  | succ turns ih =>
    refine hr.fwp_dirent hh hd hl (fun hle => fwp_ret ⟨rfl, hmissing hle⟩) fun l hlen he => ?_
    show fwp L D (if l.length ≠ DIRENTSIZE then _ else if (Dirent.ofBytes l).Matches name then _
      else _) _ v fm
    rw [if_neg (not_not.mpr hlen)]
    split_ifs with hm
    · refine fwp_readInode ?_
      rw [(hr.caches hh.isAt).2.1]
      exact fwp_iget ((hget _ (List.mem_of_getElem? he) hm).imp_right hr.canGet_iff.mp)
        fun ip fm' hg => fwp_ret ⟨rfl, .found (findName_of_first he hm hbefore) he hg⟩
    · have hbefore' : ∀ j < k + 1, ∀ e, n.entries[j]? = some e → ¬ e.Matches name :=
        fun j hj e he' => by
        rcases Nat.lt_succ_iff_lt_or_eq.mp hj with hj | rfl
        · exact hbefore j hj e he'
        · exact Option.some.inj (he.symm.trans he') ▸ hm
      refine ih (k := k + 1) (by omega) hbefore' fun hle => ?_
      refine .missing (findName_eq_none_iff.mpr fun e he' => ?_)
      obtain ⟨j, hj, rfl⟩ := List.mem_iff_getElem.mp he'
      exact hbefore' j (hj.trans_le hle) _ (List.getElem?_eq_getElem hj)

lemma Layout.Rep.length_entries_le {ino : Inos} {v : Vol} {fm : FsMem} (h : L.Rep ino s v fm)
    (hn : s.node i = some n) : n.entries.length ≤ OFFTURNS := by
  have := h.length_le hn
  rw [Node.length_entries]
  simp only [DIRENTSIZE, MAXFILE, NDIRECT, NINDIRECT, BSIZE, OFFTURNS] at *
  omega

/-- **`dirlookup(dp, name, poff)`**, whatever the entries name. -/
lemma Layout.Rep.fwp_dirlookup {ino : Inos} {v : Vol} {fm : FsMem} (hr : L.Rep ino s v fm)
    (hh : s.Has dp i n) (hd : n.IsDir) (hl : 0 < n.nlink)
    (hget : ∀ e ∈ n.entries, e.Matches name → L.scarce ∨ s.CanGet e.inum) :
    fwp L D (dirlookup dp name) (fun r v' fm' => v' = v ∧ fm.Finds name n.entries r fm') v fm := by
  have ht : (fm.icache dp).din.type = T_DIR := by
    rw [← hd.type, ← (hr.din hh).2]
    rfl
  refine fwp_readInode ?_
  rw [if_neg (not_not.mpr ht)]
  refine fwp_dirlookupFrom (k := 0) hr hh hd hl hget ?_ fun j hj => absurd hj (Nat.not_lt_zero j)
  exact (hr.length_entries_le hh.node).trans (Nat.le_add_left _ _)

/-- What `dirlookup` does in a directory with the entries `es`. -/
inductive Fs.Finds (s : Fs) (name : Name) (es : List Dirent) : Option (Fin NINODE × ℕ) → Fs → Prop
  | missing (h : findName name es = none) : Finds s name es none s
  | found {k : ℕ} {e : Dirent} {ip : Fin NINODE} {s' : Fs} (h : findName name es = some k)
      (he : es[k]? = some e) (hg : s.Gets e.inum ip s') :
      Finds s name es (some (ip, DIRENTSIZE * k)) s'

/-- **`dirlookup(dp, name, poff)`** of an entry that names an inode in use. -/
lemma nwp_dirlookup (hh : s.Has dp i n) (hd : n.IsDir) (hl : 0 < n.nlink)
    (hlive : ∀ e ∈ n.entries, e.Matches name →
      s.node e.inum ≠ none ∧ (L.scarce ∨ s.CanGet e.inum)) :
    nwp L D (dirlookup dp name) (s.Finds name n.entries) s := by
  intro ino v fm hr
  refine fwp_mono (hr.fwp_dirlookup hh hd hl fun e he hm => (hlive e he hm).2) ?_
  rintro r v' fm' ⟨rfl, hf⟩
  cases hf with
  | missing hnone => exact ⟨ino, s, hr, .missing hnone⟩
  | found hk he hg =>
    obtain ⟨e', he', hm⟩ := findName_eq_some hk
    obtain rfl := Option.some.inj (he.symm.trans he')
    obtain ⟨m, hm'⟩ := Option.ne_none_iff_exists'.mp (hlive _ (List.mem_of_getElem? he) hm).1
    obtain ⟨s', hg', hr'⟩ := hr.got hm' hg
    exact ⟨ino, s', hr', .found hk he hg'⟩

private lemma nwp_emptyFrom {turns : ℕ} (hh : s.Has dp i n) (hd : n.IsDir) (hl : 0 < n.nlink)
    (hk : k ≤ n.entries.length) (hturns : n.entries.length ≤ k + turns)
    (hbefore : ∀ j < k, ∃ e, n.entries[j]? = some e ∧ e.inum ≠ 0) :
    nwp L D (emptyFrom dp turns (DIRENTSIZE * k))
      (fun r s' => s' = s ∧ r = DIRENTSIZE * freeSlot n.entries) s := by
  have hend : n.entries.length ≤ k → freeSlot n.entries = k := fun hle =>
    freeSlot_eq hbefore fun e he => absurd (List.getElem?_eq_none hle ▸ he) (by simp)
  induction turns generalizing k with
  | zero => exact nwp_ret ⟨rfl, by rw [hend hturns]⟩
  | succ turns ih =>
    refine nwp_dirent hh hd hl (fun hle => nwp_ret ⟨rfl, by rw [hend hle]⟩) fun l hlen he => ?_
    show nwp L D
      (if l.length ≠ DIRENTSIZE then _ else if (Dirent.ofBytes l).inum = 0 then _ else _) _ s
    rw [if_neg (not_not.mpr hlen)]
    split_ifs with hz
    · refine nwp_ret ⟨rfl, ?_⟩
      rw [freeSlot_eq hbefore fun e he' => Option.some.inj (he.symm.trans he') ▸ hz]
    · have hbefore' : ∀ j < k + 1, ∃ e, n.entries[j]? = some e ∧ e.inum ≠ 0 := fun j hj => by
        rcases Nat.lt_succ_iff_lt_or_eq.mp hj with hj | rfl
        · exact hbefore j hj
        · exact ⟨_, he, hz⟩
      refine ih (k := k + 1) (List.getElem?_eq_some_iff.mp he).1 (by omega) hbefore' fun hle => ?_
      exact freeSlot_eq hbefore' fun e he' => absurd (List.getElem?_eq_none hle ▸ he') (by simp)

lemma touched_dirent (k : ℕ) : touched (DIRENTSIZE * k) DIRENTSIZE = 1 := by
  rw [touched, if_neg (by norm_num)]
  simp only [nblocks, DIRENTSIZE, BSIZE]
  omega

lemma nwp_writei_dirent {e : Dirent} (hh : s.Has dp i n) (hs : i ∉ s.stale) (hd : n.IsDir)
    (hk : k ≤ n.entries.length) (hend : DIRENTSIZE * k + DIRENTSIZE ≤ MAXFILE * BSIZE)
    (hroom : L.Room ((s.metas ∪ {L.bmapblock, L.iblock i}).card + (s.datas + 2)))
    (hfree : L.scarce ∨ L.Spare s.node n.data.length (DIRENTSIZE * k + DIRENTSIZE)) :
    nwp L D (writei dp e.bytes (DIRENTSIZE * k)) (fun r s' => r = some DIRENTSIZE ∧
      s' = { s.logs {L.bmapblock, L.iblock i} 2 with
        node := Function.update s.node i (some (n.putDirent k e)) }) s := by
  have ht : n.type ≠ T_DEV := by
    rw [hd.type]
    decide
  have hlen := Dirent.length_bytes e
  have hw : nwp L D (writei dp e.bytes (DIRENTSIZE * k)) _ s :=
    nwp_writei hh hs ht (hd.le_length hk) (hlen.symm ▸ hend)
      (by rw [hlen, touched_dirent]; exact hroom) (by rw [hlen]; exact hfree)
  rw [hlen, touched_dirent] at hw
  exact hw

/-- **`dirlink(dp, name, inum)`** of a name that the directory does not have. -/
lemma nwp_dirlink {inum : ℕ} (hh : s.Has dp i n) (hs : i ∉ s.stale) (hd : n.IsDir)
    (hl : 0 < n.nlink) (hnone : findName name n.entries = none)
    (hend : DIRENTSIZE * freeSlot n.entries + DIRENTSIZE ≤ MAXFILE * BSIZE ∨
      L.Halts (.panic .dirlink))
    (hroom : L.Room ((s.metas ∪ {L.bmapblock, L.iblock i}).card + (s.datas + 2)))
    (hfree : L.scarce ∨
      L.Spare s.node n.data.length (DIRENTSIZE * freeSlot n.entries + DIRENTSIZE)) :
    nwp L D (dirlink dp name inum) (fun r s' => r = true ∧
      s' = { s.logs {L.bmapblock, L.iblock i} 2 with
        node := Function.update s.node i
          (some (n.putDirent (freeSlot n.entries) ⟨inum, strncpy name⟩)) }) s := by
  refine nwp_of_rep fun ino v fm hr => ?_
  refine nwp_seq (nwp_dirlookup hh hd hl fun e he hm =>
    absurd hm (findName_eq_none_iff.mp hnone e he)) fun r s' hr' => ?_
  cases hr' with
  | found h => exact nomatch hnone.symm.trans h
  | missing =>
    refine nwp_seq (nwp_emptyFrom (k := 0) hh hd hl (Nat.zero_le _)
      ((hr.length_entries_le hh.node).trans (Nat.le_add_left _ _))
      fun j hj => absurd hj (Nat.not_lt_zero j)) ?_
    rintro off s' ⟨rfl, rfl⟩
    rcases Nat.lt_or_ge (MAXFILE * BSIZE) (DIRENTSIZE * freeSlot n.entries + DIRENTSIZE)
      with hbig | hsmall
    · have ht : n.type ≠ T_DEV := by
        rw [hd.type]
        decide
      refine nwp_seq (nwp_writei_none hh ht (by rw [Dirent.length_bytes]; norm_num)
        (Or.inr (by rw [Dirent.length_bytes]; exact hbig))) ?_
      rintro r s' ⟨rfl, rfl⟩
      exact nwp_panic_dirlink (hend.resolve_left (Nat.not_le.mpr hbig))
    · refine nwp_seq (nwp_writei_dirent hh hs hd freeSlot_le hsmall hroom hfree) ?_
      rintro r s' ⟨rfl, rfl⟩
      exact nwp_ret ⟨rfl, rfl⟩

/-- **`dirlink(dp, name, inum)`** of a name that the directory has gives the inode back. -/
lemma Layout.Rep.fwp_dirlink_present {ino : Inos} {v : Vol} {fm : FsMem} (inum : ℕ)
    (hr : L.Rep ino s v fm) (hh : s.Has dp i n) (hd : n.IsDir) (hl : 0 < n.nlink)
    (hget : ∀ e ∈ n.entries, e.Matches name → L.scarce ∨ s.CanGet e.inum)
    (hsome : findName name n.entries ≠ none) :
    fwp L D (dirlink dp name inum) (fun r v' fm' => r = false ∧ v' = v ∧ ∃ s', L.Rep ino s' v fm' ∧
      s'.node = s.node ∧ s'.stale = s.stale ∧ ∀ ip, (s'.ic ip).ref = (s.ic ip).ref) v fm := by
  refine fwp_seq (hr.fwp_dirlookup hh hd hl hget) ?_
  rintro r v' fm' ⟨rfl, hf⟩
  cases hf with
  | missing hnone => exact absurd hnone hsome
  | found _ _ hg =>
    refine fwp_seq (fwp_iput_drop hg.not_last) ?_
    rintro - v'' fm'' ⟨rfl, rfl⟩
    exact fwp_ret ⟨rfl, rfl, hr.got_drop hg⟩

private lemma nwp_isdiremptyFrom {turns : ℕ} (hh : s.Has dp i n) (hd : n.IsDir) (hl : 0 < n.nlink)
    (hturns : n.entries.length ≤ k + turns) :
    nwp L D (isdiremptyFrom dp turns (DIRENTSIZE * k))
      (fun r s' => s' = s ∧ r = decide (∀ e ∈ n.entries.drop k, e.inum = 0)) s := by
  have hend : n.entries.length ≤ k → true = decide (∀ e ∈ n.entries.drop k, e.inum = 0) :=
    fun hle => by
    rw [List.drop_eq_nil_of_le hle]
    rfl
  induction turns generalizing k with
  | zero => exact nwp_ret ⟨rfl, hend hturns⟩
  | succ turns ih =>
    refine nwp_dirent hh hd hl (fun hle => nwp_ret ⟨rfl, hend hle⟩) fun l hlen he => ?_
    show nwp L D
      (if l.length ≠ DIRENTSIZE then _ else if (Dirent.ofBytes l).inum ≠ 0 then _ else _) _ s
    obtain ⟨hk, he'⟩ := List.getElem?_eq_some_iff.mp he
    have hcons := List.drop_eq_getElem_cons hk
    rw [if_neg (not_not.mpr hlen)]
    split_ifs with hz
    · refine nwp_ret ⟨rfl, ?_⟩
      rw [hcons, he']
      exact (decide_eq_false fun hall => hz (hall _ (List.mem_cons_self ..))).symm
    · refine nwp_mono (ih (k := k + 1) (by omega) fun hle => ?_) ?_
      · rw [List.drop_eq_nil_of_le hle]
        rfl
      · rintro r s' ⟨rfl, rfl⟩
        refine ⟨rfl, decide_eq_decide.mpr ?_⟩
        rw [hcons, he', List.forall_mem_cons]
        exact ⟨fun h => ⟨not_not.mp hz, h⟩, fun h => h.2⟩

lemma nwp_isdirempty (hh : s.Has dp i n) (hd : n.IsDir) (hl : 0 < n.nlink) :
    nwp L D (isdirempty dp)
      (fun r s' => s' = s ∧ r = decide (∀ e ∈ n.entries.drop 2, e.inum = 0)) s := by
  refine nwp_of_rep fun ino v fm hr => ?_
  exact nwp_isdiremptyFrom (k := 2) hh hd hl
    ((hr.length_entries_le hh.node).trans (Nat.le_add_left _ _))

end

end Xv6
