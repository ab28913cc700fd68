import Xv6.Fs.Owner

/-!
# The contents of a file

`d.content blk` is the list of bytes of the file with the dinode `d`, found through its block
addresses as `bmap` does.  It is meaningful for a file without holes, which `d.Filled blk n` states:
exactly the first `n` blocks are there, and the indirect block if one of them needs it.

* `Dinode.Full` is a file that is filled as far as its size says.
* `d.Same blk blk'` says that the block at every address of the file is as it was.  Then so are the
  addresses, the contents, and whether the file is full.
* `overlay old off new` is what a write does to the contents, for bytes at an offset that is not
  behind the end.  Overlays in a row are one overlay (`overlay_overlay`).

`nblocks` turns sizes into numbers of blocks.  It rounds up, so that a file which grows inside its
last block needs no other one.
-/

namespace Xv6

open Lib

/-! ## Numbers of blocks -/

/-- The number of blocks of `n` bytes. -/
def nblocks (n : ℕ) : ℕ := (n + BSIZE - 1) / BSIZE

lemma nblocks_mono {m n : ℕ} (h : m ≤ n) : nblocks m ≤ nblocks n := by
  simp only [nblocks, BSIZE]
  omega

lemma nblocks_le {k n : ℕ} : nblocks n ≤ k ↔ n ≤ k * BSIZE := by
  simp only [nblocks, BSIZE]
  omega

lemma nblocks_max (m n : ℕ) : nblocks (max m n) = max (nblocks m) (nblocks n) :=
  (show Monotone nblocks from fun _ _ => nblocks_mono).map_max

@[simp] lemma nblocks_zero : nblocks 0 = 0 := rfl

/-- How many blocks a file with `n` blocks of data takes, with its indirect block. -/
def occupied (n : ℕ) : ℕ := n + if NDIRECT < n then 1 else 0

lemma occupied_mono {m n : ℕ} (h : m ≤ n) : occupied m ≤ occupied n := by
  simp only [occupied]
  split_ifs <;> omega

/-! ## Files without holes -/

namespace Dinode

/-- The first `n` blocks are there, and no others. -/
structure Filled (blk : ℕ → Block) (d : Dinode) (n : ℕ) : Prop where
  le : n ≤ MAXFILE
  data : ∀ k, d.addr blk (.data k) ≠ 0 ↔ k < n
  ind : d.indirect ≠ 0 ↔ NDIRECT < n

/-- The blocks are those that the size asks for. -/
def Full (blk : ℕ → Block) (d : Dinode) : Prop := d.Filled blk (nblocks d.size)

def byteAt (blk : ℕ → Block) (d : Dinode) (j : ℕ) : UInt8 :=
  (blk (d.addr blk (.data (j / BSIZE)))).get (j % BSIZE)

def content (blk : ℕ → Block) (d : Dinode) : List UInt8 := (List.range d.size).map (d.byteAt blk)

/-- The blocks of the file are as they were. -/
def Same (blk blk' : ℕ → Block) (d : Dinode) : Prop :=
  ∀ s, d.addr blk s ≠ 0 → blk' (d.addr blk s) = blk (d.addr blk s)

variable {blk blk' blk'' : ℕ → Block} {d d' : Dinode} {n : ℕ}

@[simp] lemma length_content : (d.content blk).length = d.size := by
  simp [content]

lemma getElem_content {j : ℕ} (hj : j < (d.content blk).length) :
    (d.content blk)[j] = d.byteAt blk j := by
  simp [content]

lemma Full.size_le (h : d.Full blk) : d.size ≤ MAXFILE * BSIZE := nblocks_le.mp h.le

lemma filled_zero (h : ∀ s, d.addr blk s = 0) : d.Filled blk 0 where
  le := Nat.zero_le _
  data k := by simp [h]
  ind := by simpa [addr_ind] using h .ind

lemma full_of_size_eq_zero (hs : d.size = 0) (h : ∀ s, d.addr blk s = 0) : d.Full blk := by
  rw [Full, hs]
  exact filled_zero h

lemma Filled.congr (h : d.Filled blk n) (ha : ∀ s, d'.addr blk' s = d.addr blk s) :
    d'.Filled blk' n where
  le := h.le
  data k := by rw [ha, h.data]
  ind := by rw [show d'.indirect = d'.addr blk' .ind from rfl, ha]; exact h.ind

namespace Same

lemma refl (blk : ℕ → Block) (d : Dinode) : d.Same blk blk := fun _ _ => rfl

lemma addr (h : d.Same blk blk') (s : Slot) : d.addr blk' s = d.addr blk s :=
  addr_congr rfl (fun hd => h .ind hd) s

lemma trans (h : d.Same blk blk') (h' : d.Same blk' blk'') : d.Same blk blk'' := fun s hs => by
  have h₁ := h' s (by rwa [h.addr])
  rw [h.addr] at h₁
  exact h₁.trans (h s hs)

lemma filled (h : d.Same blk blk') (hf : d.Filled blk n) : d.Filled blk' n := hf.congr h.addr

lemma full (h : d.Same blk blk') (hf : d.Full blk) : d.Full blk' := h.filled hf

lemma byteAt (h : d.Same blk blk') (hf : d.Filled blk n) {j : ℕ} (hj : j < n * BSIZE) :
    d.byteAt blk' j = d.byteAt blk j := by
  have hmap : d.addr blk (.data (j / BSIZE)) ≠ 0 :=
    (hf.data _).mpr (Nat.div_lt_of_lt_mul (by rwa [Nat.mul_comm]))
  rw [Dinode.byteAt, h.addr, h _ hmap, Dinode.byteAt]

lemma content (h : d.Same blk blk') (hf : d.Full blk) : d.content blk' = d.content blk :=
  List.map_congr_left fun _ hj =>
    h.byteAt hf ((List.mem_range.mp hj).trans_le (nblocks_le.mp le_rfl))

lemma put {c : ℕ} (h : ∀ s, d.addr blk s ≠ 0 → d.addr blk s ≠ c) (x : Block) :
    d.Same blk (Function.update blk c x) := fun s hs => Function.update_of_ne (h s hs) _ _

end Same

end Dinode

namespace Layout.Owns

variable {L : Layout} {blk : ℕ → Block} {ino : Inos} {spare : Finset ℕ} {i j b : ℕ} {d d' : Dinode}

lemma same_of_lt (h : L.Owns blk ino spare) (hi : ino i = some d) (hb : b < L.datastart)
    (x : Block) : d.Same blk (Function.update blk b x) :=
  .put (fun _ hs he => Nat.not_lt.mpr (h.range_addr hi hs).1 (he ▸ hb)) x

lemma same_of_spare (h : L.Owns blk ino spare) (hi : ino i = some d) (hb : b ∈ spare)
    (x : Block) : d.Same blk (Function.update blk b x) :=
  .put (fun s _ he => h.marked.spare_free hb (p := (i, s))
    ((own_some hi).mpr ⟨h.spare_ne_zero hb, he⟩)) x

lemma same_of_data (h : L.Owns blk ino spare) (hi : ino i = some d) {blk' : ℕ → Block}
    (hb : ∀ b, L.bmapblock ≤ b → blk' b = blk b) : d.Same blk blk' := fun _ hs =>
  hb _ ((bmapblock_lt L).le.trans (h.range_addr hi hs).1)

lemma of_data (h : L.Owns blk ino spare) {blk' : ℕ → Block}
    (hb : ∀ b, L.bmapblock ≤ b → blk' b = blk b) : L.Owns blk' ino spare where
  lt := h.lt
  type := h.type
  fits := h.fits
  marked := by
    refine h.marked.congr (fun _ _ => by rw [hb _ le_rfl]) fun _ _ => own_congr fun i d hi hd => ?_
    exact h.same_of_data hi hb .ind hd

lemma same_of_ne (h : L.Owns blk ino spare) (hi : ino i = some d) (hj : ino j = some d')
    (hne : i ≠ j) (s : Slot) (x : Block) :
    d.Same blk (Function.update blk (d'.addr blk s) x) :=
  .put (fun _ ht he => hne (h.addr_inj hi hj ht he).1) x

end Layout.Owns

/-! ## Overlays -/

/-- The contents after a write of `src` at `off`. -/
def overlay (old : List UInt8) (off : ℕ) (src : List UInt8) : List UInt8 :=
  old.take off ++ src ++ old.drop (off + src.length)

section

variable {old src : List UInt8} {off : ℕ}

lemma length_overlay (h : off ≤ old.length) :
    (overlay old off src).length = max old.length (off + src.length) := by
  simp only [overlay, List.length_append, List.length_take, List.length_drop]
  omega

lemma getD_overlay (h : off ≤ old.length) (j : ℕ) :
    (overlay old off src).getD j 0 =
      if off ≤ j ∧ j < off + src.length then src.getD (j - off) 0 else old.getD j 0 := by
  simp only [overlay, List.getD_eq_getElem?_getD, List.append_assoc]
  by_cases h₁ : j < off
  · rw [List.getElem?_append_left (by simp; omega), List.getElem?_take_of_lt h₁, if_neg (by omega)]
  rw [List.getElem?_append_right (by simp; omega)]
  have hlen : (old.take off).length = off := by simp [h]
  rw [hlen]
  by_cases h₂ : j < off + src.length
  · rw [List.getElem?_append_left (by omega), if_pos ⟨by omega, h₂⟩]
  · rw [List.getElem?_append_right (by omega), List.getElem?_drop, if_neg (by omega)]
    congr 2
    omega

@[simp] lemma overlay_nil : overlay old off [] = old := by
  simp [overlay]

lemma overlay_length : overlay old old.length src = old ++ src := by
  simp [overlay]

lemma overlay_overlay {src' : List UInt8} (h : off ≤ old.length) :
    overlay (overlay old off src) (off + src.length) src' = overlay old off (src ++ src') := by
  have hlen : (old.take off ++ src).length = off + src.length := by
    rw [List.length_append, List.length_take, Nat.min_eq_left h]
  rw [overlay, overlay, overlay, ← hlen, List.take_left, List.drop_append, hlen,
    Nat.add_sub_cancel_left, List.drop_eq_nil_of_le (by omega), List.nil_append, List.drop_drop,
    List.length_append]
  simp only [List.append_assoc, Nat.add_assoc]

lemma ext_getD {l m : List UInt8} (hl : l.length = m.length)
    (h : ∀ j < l.length, l.getD j 0 = m.getD j 0) : l = m := by
  refine List.ext_getElem hl fun j h₁ h₂ => ?_
  have hj := h j h₁
  rwa [List.getD_eq_getElem _ _ h₁, List.getD_eq_getElem _ _ h₂] at hj

lemma Dinode.getD_content {blk : ℕ → Block} {d : Dinode} {j : ℕ} (hj : j < d.size) :
    (d.content blk).getD j 0 = d.byteAt blk j := by
  rw [List.getD_eq_getElem _ _ (by simpa using hj), getElem_content]

lemma Dinode.content_eq_overlay {blk blk' : ℕ → Block} {d d' : Dinode} (hoff : off ≤ d.size)
    (hsize : d'.size = max d.size (off + src.length))
    (h : ∀ j < d'.size, d'.byteAt blk' j =
      if off ≤ j ∧ j < off + src.length then src.getD (j - off) 0 else d.byteAt blk j) :
    d'.content blk' = overlay (d.content blk) off src := by
  have hoff' : off ≤ (d.content blk).length := by simpa using hoff
  refine ext_getD (by rw [length_content, length_overlay hoff', length_content, hsize])
    fun j hj => ?_
  rw [length_content] at hj
  rw [getD_content hj, h j hj, getD_overlay hoff']
  split_ifs with hin
  · rfl
  · rw [getD_content (by omega)]

end

end Xv6
