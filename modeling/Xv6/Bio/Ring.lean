import Xv6.Bio.Cache
import Xv6.Lib.Ring
import Mathlib.Data.List.Perm.Basic

/-!
# The ring of buffers

The list of `bio.c` as it is stored: every buffer and `bcache.head` have a `next` and a `prev`
pointer, `brelse` takes its buffer out and puts it in again behind the head, and `bget` walks along
`next` in search of a block and along `prev` in search of a buffer to recycle.

`Trace` records beside the cache when the references to each buffer were last given up.  The
position in the list is all that `bget` knows of that, and `buffer_ring` says that it is enough: the
recycled buffer is the one that has been unused for the longest time.  The flags of buffers are
changed by the disk driver and the log and may be anything.

At the end, `Bcache.Shows` relates the cache to the one of `Machine`, which has a list in place of
the pointers.
-/

namespace Xv6

open Lib

/-- A buffer, without its data and its place in the queue of the disk driver. -/
structure CacheBuf where
  valid : Bool
  dirty : Bool
  dev : UInt32
  blockno : UInt32
  refcnt : UInt32

/-- A pointer to a buffer; `none` is `&bcache.head`. -/
abbrev BufPtr : Type := Option (Fin NBUF)

structure Bcache where
  links : Pointers BufPtr
  buf : Fin NBUF → CacheBuf

/-- The test of the buffer at a pointer that is not `&bcache.head`. -/
def BufPtr.test (f : Fin NBUF → Bool) (b : BufPtr) : Bool := b.elim false f

namespace Bcache

def setBuf (s : Bcache) (i : Fin NBUF) (b : CacheBuf) : Bcache :=
  { s with buf := Function.update s.buf i b }

/-- After `binit()`, whatever the pointers were before. -/
def binit (p : Pointers BufPtr) : Bcache where
  links := (List.finRange NBUF).foldl (fun p i => p.pushFront none (some i))
    ((p.setPrev none none).setNext none none)
  buf := fun _ => ⟨false, false, 0, 0, 0⟩

/-- `b->dev == dev && b->blockno == blockno`. -/
def caches (s : Bcache) (dev blockno : UInt32) (i : Fin NBUF) : Bool :=
  decide ((s.buf i).dev = dev ∧ (s.buf i).blockno = blockno)

/-- `b->refcnt == 0 && (b->flags & B_DIRTY) == 0`. -/
def recyclable (s : Bcache) (i : Fin NBUF) : Bool :=
  decide ((s.buf i).refcnt = 0 ∧ (s.buf i).dirty = false)

def hit (s : Bcache) (i : Fin NBUF) : Bcache :=
  s.setBuf i { s.buf i with refcnt := (s.buf i).refcnt + 1 }

def recycle (s : Bcache) (dev blockno : UInt32) (i : Fin NBUF) : Bcache :=
  s.setBuf i ⟨false, false, dev, blockno, 1⟩

/-- `bget(dev, blockno)`: the buffer, or `none` for the panic.  The result is `none` if one of the
walks is still under way after `NBUF + 1` turns. -/
def bget (s : Bcache) (dev blockno : UInt32) : Option (Option (Fin NBUF) × Bcache) :=
  match Pointers.walk s.links.next none (BufPtr.test (s.caches dev blockno)) (NBUF + 1)
      (s.links.next none) with
  | none => none
  | some (some (some i)) => some (some i, s.hit i)
  | some _ =>
    match Pointers.walk s.links.prev none (BufPtr.test s.recyclable) (NBUF + 1)
        (s.links.prev none) with
    | none => none
    | some (some (some i)) => some (some i, s.recycle dev blockno i)
    | some _ => some (none, s)

def brelse (s : Bcache) (i : Fin NBUF) : Bcache :=
  let s := s.setBuf i { s.buf i with refcnt := (s.buf i).refcnt - 1 }
  if (s.buf i).refcnt = 0 then
    { s with links := (s.links.unlink (some i)).pushFront none (some i) }
  else s

/-- The pointers go through the buffers in the order of `l`. -/
def Threads (s : Bcache) (l : List (Fin NBUF)) : Prop :=
  s.links.Ring none (l.map some) ∧ l.Perm (List.finRange NBUF)

section

variable {s : Bcache} {l : List (Fin NBUF)} {i : Fin NBUF}

lemma Threads.nodup (h : s.Threads l) : l.Nodup := h.2.nodup_iff.mpr (List.nodup_finRange NBUF)

lemma Threads.mem (h : s.Threads l) (i : Fin NBUF) : i ∈ l :=
  h.2.mem_iff.mpr (List.mem_finRange i)

lemma Threads.length (h : s.Threads l) : (l.map some).length < NBUF + 1 := by
  rw [List.length_map, h.2.length_eq, List.length_finRange]
  exact Nat.lt_succ_self NBUF

lemma binit_threads (p : Pointers BufPtr) :
    (binit p).Threads (List.finRange NBUF).reverse := by
  have hfold : ∀ (l done : List (Fin NBUF)) (q : Pointers BufPtr),
      (done.reverse ++ l).Nodup → q.Ring none (done.map some) →
      (l.foldl (fun p i => p.pushFront none (some i)) q).Ring none
        ((l.reverse ++ done).map some) := by
    intro l
    induction l with
    | nil => exact fun done q _ hq => hq
    | cons i l ih =>
      intro done q hnodup hq
      have hi : i ∉ done := by
        intro hi
        exact (List.nodup_append'.mp hnodup).2.2 (List.mem_reverse.mpr hi) List.mem_cons_self
      have := ih (i :: done) (q.pushFront none (some i)) (by simpa using hnodup)
        (hq.pushFront (by simpa using hi))
      rwa [List.reverse_cons, List.append_assoc, List.singleton_append]
  refine ⟨?_, List.reverse_perm _⟩
  have := hfold (List.finRange NBUF) [] ((p.setPrev none none).setNext none none)
    (List.nodup_finRange NBUF)
    (Pointers.ring_nil (by simp [Pointers.setNext]) (by simp [Pointers.setNext, Pointers.setPrev]))
  rwa [List.append_nil] at this

lemma find?_map_some (l : List (Fin NBUF)) (f : Fin NBUF → Bool) :
    (l.map some).find? (BufPtr.test f) = (l.find? f).map some := by
  rw [List.find?_map]
  rfl

lemma Threads.bget (h : s.Threads l) (dev blockno : UInt32) :
    s.bget dev blockno = some (match l.find? (s.caches dev blockno) with
      | some i => (some i, s.hit i)
      | none =>
        match l.reverse.find? s.recyclable with
        | some i => (some i, s.recycle dev blockno i)
        | none => (none, s)) := by
  rw [Bcache.bget, h.1.walk_next _ h.length, h.1.walk_prev _ h.length, ← List.map_reverse,
    find?_map_some, find?_map_some]
  cases l.find? (s.caches dev blockno) with
  | some i => rfl
  | none => cases l.reverse.find? s.recyclable <;> rfl

lemma Threads.brelse (h : s.Threads l) (i : Fin NBUF) :
    (s.brelse i).Threads (if (s.buf i).refcnt - 1 = 0 then i :: l.erase i else l) := by
  unfold Bcache.brelse
  simp only [setBuf, Function.update_self]
  by_cases hz : (s.buf i).refcnt - 1 = 0
  · rw [if_pos hz, if_pos hz]
    obtain ⟨l₁, l₂, hl⟩ := List.append_of_mem (h.mem i)
    have hnodup := h.nodup
    rw [hl] at hnodup
    have hi₁ : i ∉ l₁ := fun hi => (List.nodup_append'.mp hnodup).2.2 hi List.mem_cons_self
    have herase : l.erase i = l₁ ++ l₂ := by
      rw [hl, List.erase_append_right _ hi₁, List.erase_cons_head]
    have hi : i ∉ l₁ ++ l₂ := (List.nodup_cons.mp (List.perm_middle.nodup_iff.mp hnodup)).1
    have hring := h.1
    rw [hl, List.map_append, List.map_cons] at hring
    refine ⟨?_, ?_⟩
    · rw [herase, List.map_cons, List.map_append]
      refine hring.unlink.pushFront ?_
      simpa using hi
    · exact (List.perm_cons_erase (h.mem i)).symm.trans h.2
  · rw [if_neg hz, if_neg hz]
    exact h

lemma Threads.setBuf (h : s.Threads l) (i : Fin NBUF) (b : CacheBuf) :
    (s.setBuf i b).Threads l := h

end

end Bcache

/-! ## Histories -/

/-- A call, or a change of the flags of a buffer. -/
inductive BioCall
  | bget (dev blockno : UInt32)
  | brelse (i : Fin NBUF)
  | setFlags (i : Fin NBUF) (valid dirty : Bool)

/-- The cache, and when each buffer was released by its last holder; zero if it never was. -/
structure Trace where
  cache : Bcache
  clock : ℕ
  released : Fin NBUF → ℕ

namespace Trace

def init (p : Pointers BufPtr) : Trace := ⟨.binit p, 0, fun _ => 0⟩

/-- The time goes on when a buffer is released by its last holder. -/
def release (t : Trace) (i : Fin NBUF) : Trace :=
  if (t.cache.buf i).refcnt - 1 = 0 then
    { t with clock := t.clock + 1, released := Function.update t.released i (t.clock + 1) }
  else t

/-- A step of a history, which ends with a panic. -/
def step (t : Trace) : BioCall → Option Trace
  | .bget dev blockno =>
    match t.cache.bget dev blockno with
    | some (some _, s) => some { t with cache := s }
    | _ => none
  | .brelse i => some { t.release i with cache := t.cache.brelse i }
  | .setFlags i valid dirty =>
    some { t with cache := t.cache.setBuf i { t.cache.buf i with valid := valid, dirty := dirty } }

/-- Only held buffers are released. -/
def Allowed (t : Trace) : BioCall → Prop
  | .brelse i => 1 ≤ (t.cache.buf i).refcnt
  | _ => True

inductive Reaches (p : Pointers BufPtr) : Trace → Prop
  | init : Reaches p (init p)
  | step {t t' : Trace} {c : BioCall} (hr : Reaches p t) (hc : t.Allowed c)
      (ht : t.step c = some t') : Reaches p t'

/-- The last holder of `a` released it before the last holder of `b` did, or there was none for
either. -/
def Older (t : Trace) (a b : Fin NBUF) : Prop :=
  t.released a < t.released b ∨ t.released a = 0 ∧ t.released b = 0

/-- The list is in the order of the releases, the latest first, and no block is cached twice. -/
structure Sound (t : Trace) (l : List (Fin NBUF)) : Prop where
  threads : t.cache.Threads l
  aged : l.Pairwise fun a b => t.Older b a
  past : ∀ i, t.released i ≤ t.clock
  unique : ∀ i j, (t.cache.buf i).dev ≠ 0 → (t.cache.buf i).dev = (t.cache.buf j).dev →
    (t.cache.buf i).blockno = (t.cache.buf j).blockno → i = j

variable {t t' : Trace} {l : List (Fin NBUF)}

lemma sound_init (p : Pointers BufPtr) : (init p).Sound (List.finRange NBUF).reverse where
  threads := Bcache.binit_threads p
  aged := List.pairwise_of_forall fun _ _ => Or.inr ⟨rfl, rfl⟩
  past _ := Nat.le_refl 0
  unique _ _ h := absurd rfl h

lemma Sound.setBuf (h : t.Sound l) {i : Fin NBUF} {b : CacheBuf}
    (hdev : b.dev = (t.cache.buf i).dev) (hblockno : b.blockno = (t.cache.buf i).blockno) :
    Sound { t with cache := t.cache.setBuf i b } l := by
  have hsame : ∀ j, (Function.update t.cache.buf i b j).dev = (t.cache.buf j).dev ∧
      (Function.update t.cache.buf i b j).blockno = (t.cache.buf j).blockno := by
    intro j
    by_cases hj : j = i
    · rw [hj, Function.update_self]
      exact ⟨hdev, hblockno⟩
    · rw [Function.update_of_ne hj]
      exact ⟨rfl, rfl⟩
  refine ⟨h.threads, h.aged, h.past, fun j k h₁ h₂ h₃ => ?_⟩
  simp only [Bcache.setBuf, (hsame _).1, (hsame _).2] at h₁ h₂ h₃
  exact h.unique j k h₁ h₂ h₃

lemma Sound.recycle (h : t.Sound l) {dev blockno : UInt32}
    (hnone : l.find? (t.cache.caches dev blockno) = none) (i : Fin NBUF) :
    Sound { t with cache := t.cache.recycle dev blockno i } l := by
  have habsent : ∀ j, ¬ ((t.cache.buf j).dev = dev ∧ (t.cache.buf j).blockno = blockno) := by
    intro j hj
    exact List.find?_eq_none.mp hnone j (h.threads.mem j) (decide_eq_true hj)
  refine ⟨h.threads, h.aged, h.past, fun j k h₁ h₂ h₃ => ?_⟩
  simp only [Bcache.recycle, Bcache.setBuf] at h₁ h₂ h₃
  by_cases hj : j = i
  · by_cases hk : k = i
    · rw [hj, hk]
    · rw [hj, Function.update_self, Function.update_of_ne hk] at h₂ h₃
      exact absurd ⟨h₂.symm, h₃.symm⟩ (habsent k)
  · by_cases hk : k = i
    · rw [hk, Function.update_of_ne hj, Function.update_self] at h₂ h₃
      exact absurd ⟨h₂, h₃⟩ (habsent j)
    · rw [Function.update_of_ne hj] at h₁
      rw [Function.update_of_ne hj, Function.update_of_ne hk] at h₂ h₃
      exact h.unique j k h₁ h₂ h₃

lemma Sound.brelse (h : t.Sound l) (i : Fin NBUF) :
    ∃ l', Sound { t.release i with cache := t.cache.brelse i } l' := by
  have hunique := (h.setBuf (i := i)
    (b := { t.cache.buf i with refcnt := (t.cache.buf i).refcnt - 1 }) rfl rfl).unique
  have hthreads := h.threads.brelse i
  unfold release
  unfold Bcache.brelse at hthreads ⊢
  simp only [Bcache.setBuf, Function.update_self] at hthreads hunique ⊢
  by_cases hz : (t.cache.buf i).refcnt - 1 = 0
  · simp only [if_pos hz] at hthreads ⊢
    refine ⟨i :: l.erase i, hthreads, ?_, fun j => ?_, hunique⟩
    · have hother : ∀ j ∈ l.erase i, Function.update t.released i (t.clock + 1) j = t.released j :=
        fun j hj => Function.update_of_ne (h.threads.nodup.mem_erase_iff.mp hj).1 _ _
      refine List.pairwise_cons.mpr ⟨fun j hj => Or.inl ?_, ?_⟩
      · simp only [Function.update_self, hother j hj]
        exact Nat.lt_succ_of_le (h.past j)
      · refine (h.aged.sublist List.erase_sublist).imp_of_mem fun ha hb hab => ?_
        unfold Older
        simp only [hother _ ha, hother _ hb]
        exact hab
    · simp only [Function.update_apply]
      split_ifs
      · exact Nat.le_refl _
      · exact (h.past j).trans (Nat.le_succ _)
  · simp only [if_neg hz] at hthreads ⊢
    exact ⟨l, hthreads, h.aged, h.past, hunique⟩

lemma Sound.step (h : t.Sound l) {c : BioCall} (ht : t.step c = some t') : ∃ l', t'.Sound l' := by
  cases c with
  | bget dev blockno =>
    rw [Trace.step, h.threads.bget] at ht
    cases hfind : l.find? (t.cache.caches dev blockno) with
    | some i =>
      simp only [hfind, Option.some.injEq] at ht
      exact ⟨l, ht ▸ h.setBuf rfl rfl⟩
    | none =>
      cases hvictim : l.reverse.find? t.cache.recyclable with
      | some i =>
        simp only [hfind, hvictim, Option.some.injEq] at ht
        exact ⟨l, ht ▸ h.recycle hfind i⟩
      | none =>
        simp only [hfind, hvictim, reduceCtorEq] at ht
  | brelse i =>
    rw [← Option.some.inj ht]
    exact h.brelse i
  | setFlags i valid dirty =>
    rw [← Option.some.inj ht]
    exact ⟨l, h.setBuf rfl rfl⟩

lemma Reaches.sound {p : Pointers BufPtr} (hr : Reaches p t) : ∃ l, t.Sound l := by
  induction hr with
  | init => exact ⟨_, sound_init p⟩
  | step _ _ ht ih =>
    obtain ⟨l, hl⟩ := ih
    exact hl.step ht

/-- The last buffer of the list that can be recycled is older than the others. -/
lemma Sound.victim (h : t.Sound l) {i j : Fin NBUF}
    (hi : l.reverse.find? t.cache.recyclable = some i) (hj : t.cache.recyclable j = true)
    (hne : j ≠ i) : t.Older i j := by
  obtain ⟨-, l₁, l₂, hl, hl₁⟩ := List.find?_eq_some_iff_append.mp hi
  have hmem : j ∈ l₁ ++ i :: l₂ := by
    rw [← hl]
    exact List.mem_reverse.mpr (h.threads.mem j)
  have haged : (l₁ ++ i :: l₂).Pairwise t.Older := by
    rw [← hl, List.pairwise_reverse]
    exact h.aged
  rcases List.mem_append.mp hmem with hj₁ | hj₂
  · have := hl₁ j hj₁
    rw [hj] at this
    exact absurd this (by decide)
  · rcases List.mem_cons.mp hj₂ with rfl | hj₂
    · exact absurd rfl hne
    · exact (List.pairwise_cons.mp (List.pairwise_append.mp haged).2.1).1 j hj₂

end Trace

/-- **The buffers form one ring, and `bget` recycles the least recently used one.**  After any
history, the pointers go through every buffer once and back to the head, in both directions, no
block of a device other than zero is in two buffers, and `bget` ends: with the buffer of the block
if there is one, else with the buffer that can be recycled and has been released before all others,
else in the panic. -/
theorem buffer_ring (p : Pointers BufPtr) (t : Trace) (hr : Trace.Reaches p t) :
    (∃ l : List (Fin NBUF), t.cache.links.Ring none (l.map some) ∧ l.Perm (List.finRange NBUF)) ∧
    (∀ b, t.cache.links.prev (t.cache.links.next b) = b ∧
      t.cache.links.next (t.cache.links.prev b) = b) ∧
    (∀ i j, (t.cache.buf i).dev ≠ 0 → (t.cache.buf i).dev = (t.cache.buf j).dev →
      (t.cache.buf i).blockno = (t.cache.buf j).blockno → i = j) ∧
    ∀ dev blockno,
      ((∃ i, t.cache.caches dev blockno i) → ∃ i, t.cache.caches dev blockno i ∧
        t.cache.bget dev blockno = some (some i, t.cache.hit i)) ∧
      ((¬ ∃ i, t.cache.caches dev blockno i) →
        (∀ i s, t.cache.bget dev blockno = some (some i, s) → t.cache.recyclable i ∧
          s = t.cache.recycle dev blockno i ∧ ∀ j, t.cache.recyclable j → j ≠ i → t.Older i j) ∧
        ((∃ i, t.cache.recyclable i) → ∃ i s, t.cache.bget dev blockno = some (some i, s)) ∧
        ((¬ ∃ i, t.cache.recyclable i) → t.cache.bget dev blockno = some (none, t.cache))) := by
  obtain ⟨l, hl⟩ := hr.sound
  have hall : ∀ b : BufPtr, b ∈ none :: l.map some := by
    rintro (_ | i)
    · exact List.mem_cons_self
    · exact List.mem_cons_of_mem _ (List.mem_map_of_mem (hl.threads.mem i))
  refine ⟨⟨l, hl.threads⟩, fun b => ⟨hl.threads.1.prev_next (hall b),
    hl.threads.1.next_prev (hall b)⟩, hl.unique, fun dev blockno => ⟨?_, ?_⟩⟩
  -- the walk along `next` searches the list, the one along `prev` the list from its end
  · rintro ⟨j, hj⟩
    obtain ⟨i, hfind⟩ := Option.isSome_iff_exists.mp
      (List.find?_isSome.mpr ⟨j, hl.threads.mem j, hj⟩)
    refine ⟨i, List.find?_some hfind, ?_⟩
    rw [hl.threads.bget, hfind]
  · intro habsent
    have hfind : l.find? (t.cache.caches dev blockno) = none :=
      List.find?_eq_none.mpr fun i _ hi => habsent ⟨i, hi⟩
    have hget := hl.threads.bget dev blockno
    rw [hfind] at hget
    cases hvictim : l.reverse.find? t.cache.recyclable with
    | some i =>
      rw [hvictim] at hget
      refine ⟨fun i' s hs => ?_, fun _ => ⟨_, _, hget⟩, fun hnone => ?_⟩
      · obtain ⟨hi, rfl⟩ := Prod.mk.inj (Option.some.inj (hget.symm.trans hs))
        obtain rfl := Option.some.inj hi
        exact ⟨List.find?_some hvictim, rfl, fun j hj hne => hl.victim hvictim hj hne⟩
      · exact absurd ⟨i, List.find?_some hvictim⟩ hnone
    | none =>
      rw [hvictim] at hget
      refine ⟨fun i s hs => ?_, fun hsome => ?_, fun _ => hget⟩
      · exact absurd (congrArg Prod.fst (Option.some.inj (hget.symm.trans hs))) (by simp)
      · obtain ⟨i, hi⟩ := hsome
        exact absurd hi (List.find?_eq_none.mp hvictim i
          (List.mem_reverse.mpr (hl.threads.mem i)))

/-- A block is read and released, and its buffer is the first of the ring. -/
theorem buffer_ring_released : ∃ t, Trace.Reaches ⟨id, id⟩ t ∧ t.cache.links.next none = some 0 ∧
    t.released 0 = 1 ∧ ∀ b, t.cache.links.prev (t.cache.links.next b) = b := by
  have hfind : (List.finRange NBUF).reverse.find? ((Bcache.binit ⟨id, id⟩).caches 1 5) = none :=
    List.find?_eq_none.mpr fun _ _ => Bool.noConfusion
  have hvictim : (List.finRange NBUF).reverse.reverse.find? (Bcache.binit ⟨id, id⟩).recyclable
      = some 0 := rfl
  have hread : (Trace.init ⟨id, id⟩).step (.bget 1 5)
      = some ⟨(Bcache.binit ⟨id, id⟩).recycle 1 5 0, 0, fun _ => 0⟩ := by
    rw [Trace.step, Trace.init, (Bcache.binit_threads _).bget, hfind, hvictim]
  have hget : Trace.Reaches ⟨id, id⟩ ⟨(Bcache.binit ⟨id, id⟩).recycle 1 5 0, 0, fun _ => 0⟩ :=
    .step (c := .bget 1 5) .init trivial hread
  have hr := hget.step (c := .brelse 0) (show (1 : UInt32) ≤ 1 by decide) rfl
  exact ⟨_, hr, rfl, rfl, fun b => ((buffer_ring ⟨id, id⟩ _ hr).2.1 b).1⟩

/-! ## The list of the machine -/

namespace Bcache

/-- The ring is the list of the machine, and the buffers agree. -/
structure Shows (s : Bcache) (m : Machine) : Prop where
  threads : s.Threads m.lru
  valid : ∀ i, (m.buf i).valid = (s.buf i).valid
  dirty : ∀ i, (m.buf i).dirty = (s.buf i).dirty
  dev : ∀ i, (m.buf i).dev = (s.buf i).dev.toNat
  blockno : ∀ i, (m.buf i).blockno = (s.buf i).blockno.toNat
  refcnt : ∀ i, (m.buf i).refcnt = (s.buf i).refcnt.toNat

variable {s : Bcache} {m : Machine}

lemma shows_binit (p : Pointers BufPtr) (disk : BufRef → Block) (havedisk1 : Bool) (log : Log) :
    (binit p).Shows (Xv6.binit disk havedisk1 log) where
  threads := binit_threads p
  valid _ := rfl
  dirty _ := rfl
  dev _ := rfl
  blockno _ := rfl
  refcnt _ := rfl

lemma Shows.setBuf (h : s.Shows m) (i : Fin NBUF) {b : CacheBuf} {c : Buf}
    (hvalid : c.valid = b.valid) (hdirty : c.dirty = b.dirty) (hdev : c.dev = b.dev.toNat)
    (hblockno : c.blockno = b.blockno.toNat) (hrefcnt : c.refcnt = b.refcnt.toNat) :
    (s.setBuf i b).Shows (m.setBuf i c) := by
  refine ⟨h.threads, fun j => ?_, fun j => ?_, fun j => ?_, fun j => ?_, fun j => ?_⟩
  all_goals
    simp only [Bcache.setBuf, Machine.setBuf]
    by_cases hj : j = i
  · simpa [hj] using hvalid
  · simpa [hj] using h.valid j
  · simpa [hj] using hdirty
  · simpa [hj] using h.dirty j
  · simpa [hj] using hdev
  · simpa [hj] using h.dev j
  · simpa [hj] using hblockno
  · simpa [hj] using h.blockno j
  · simpa [hj] using hrefcnt
  · simpa [hj] using h.refcnt j

lemma Shows.lookup (h : s.Shows m) (dev blockno : UInt32) :
    m.lookup ⟨dev.toNat, blockno.toNat⟩ = m.lru.find? (s.caches dev blockno) := by
  unfold Machine.lookup
  congr 1
  funext i
  rw [h.dev, h.blockno, caches, decide_eq_decide, UInt32.toNat_inj, UInt32.toNat_inj]

lemma Shows.victim (h : s.Shows m) : m.victim = m.lru.reverse.find? s.recyclable := by
  unfold Machine.victim
  congr 1
  funext i
  have hzero : (s.buf i).refcnt.toNat = 0 ↔ (s.buf i).refcnt = 0 := by
    rw [← UInt32.toNat_inj]
    rfl
  rw [h.refcnt, h.dirty, recyclable, decide_eq_decide, hzero]

/-- **The `bget` of the machine is the one on the ring**, as long as no count of references
overflows. -/
theorem Shows.bget (h : s.Shows m) (dev blockno : UInt32)
    (hcount : ∀ i, (s.buf i).refcnt.toNat + 1 < 2 ^ 32) :
    match Xv6.bget ⟨dev.toNat, blockno.toNat⟩ m with
    | .ok i m' => ∃ s', s.bget dev blockno = some (some i, s') ∧ s'.Shows m'
    | .error _ _ => s.bget dev blockno = some (none, s) := by
  rw [Xv6.bget, h.lookup, h.victim, h.threads.bget]
  cases hfind : m.lru.find? (s.caches dev blockno) with
  | some i =>
    refine ⟨_, rfl, h.setBuf i (h.valid i) (h.dirty i) (h.dev i) (h.blockno i) ?_⟩
    have hone : (1 : UInt32).toNat = 1 := rfl
    rw [UInt32.toNat_add, hone, Nat.mod_eq_of_lt (hcount i)]
    exact congrArg (· + 1) (h.refcnt i)
  | none =>
    cases hvictim : m.lru.reverse.find? s.recyclable with
    | some i => exact ⟨_, rfl, h.setBuf i rfl rfl rfl rfl rfl⟩
    | none => rfl

/-- **So is its `brelse`.** -/
theorem Shows.brelse (h : s.Shows m) (i : Fin NBUF) (hheld : 1 ≤ (s.buf i).refcnt) :
    ∃ m', brelseBuf i m = .ok () m' ∧ (s.brelse i).Shows m' := by
  have hcount : (m.buf i).refcnt - 1 = ((s.buf i).refcnt - 1).toNat := by
    rw [UInt32.toNat_sub_of_le _ _ hheld, h.refcnt]
    rfl
  have hset := h.setBuf i (b := { s.buf i with refcnt := (s.buf i).refcnt - 1 })
    (c := { m.buf i with refcnt := (m.buf i).refcnt - 1 })
    (h.valid i) (h.dirty i) (h.dev i) (h.blockno i) hcount
  have hthreads := h.threads.brelse i
  have hzero : (m.buf i).refcnt - 1 = 0 ↔ (s.buf i).refcnt - 1 = 0 := by
    rw [hcount, ← UInt32.toNat_inj]
    rfl
  unfold brelseBuf
  unfold Bcache.brelse at hthreads ⊢
  simp only [Bcache.setBuf, Function.update_self, hzero] at hthreads ⊢
  by_cases hz : (s.buf i).refcnt - 1 = 0
  · simp only [if_pos hz] at hthreads ⊢
    exact ⟨_, rfl, hthreads, hset.valid, hset.dirty, hset.dev, hset.blockno, hset.refcnt⟩
  · simp only [if_neg hz] at hthreads ⊢
    exact ⟨_, rfl, hset⟩

end Bcache

end Xv6
