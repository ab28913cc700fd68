import Xv6.Lib.Threads
import Mathlib.Data.List.Infix
import Mathlib.Data.List.Nodup
import Mathlib.Tactic.Common

/-!
# The pipe with many writers and many readers

The model of `sem-mpmc.c`: any number of threads call `pipe_write` and `pipe_read`, each as often
and with whatever bytes it likes.  A semaphore operation is one step, and so is each access to
`buf`, `reader` and `writer`.

The history is kept next to the variables of the program: `stored` are the bytes in the order in
which the writers store them, `stamp` says which store the byte of a slot is from, and `taken` are
the bytes that the readers take, each with the stamp of its slot.  A writer stores and a reader
takes with its lock in hand, so that this is the order in which they hold the locks.

`Inv` counts threads.  A slot is free, reserved by a writer that has not stored yet, unread, or
given back by a reader that has not posted yet; a stored byte is announced by `read_slots`, claimed
by a reader, or about to be announced.
-/

namespace Xv6

open Lib

namespace Pipe

/-! ## The code -/

abbrev SZ : ℕ := 10

/-- The variables of the program, and the history. -/
structure Shared where
  buf : ℕ → UInt8
  reader : ℕ
  writer : ℕ
  writeSlots : ℕ
  readSlots : ℕ
  readLock : ℕ
  writeLock : ℕ
  stored : List UInt8
  stamp : ℕ → Option ℕ
  taken : List (Option ℕ × UInt8)

/-- What a thread does next. -/
inductive Point
  | idle
  /-- `sem_wait(&write_slots)`. -/
  | write₁ (c : UInt8)
  /-- `sem_wait(&write_lock)`. -/
  | write₂ (c : UInt8)
  /-- `writer` is read. -/
  | write₃ (c : UInt8)
  /-- `buf[k] = c`. -/
  | write₄ (c : UInt8) (k : ℕ)
  /-- `writer` is read again. -/
  | write₅
  /-- `writer = (k + 1)%SZ`. -/
  | write₆ (k : ℕ)
  /-- `sem_post(&write_lock)`. -/
  | write₇
  /-- `sem_post(&read_slots)`. -/
  | write₈
  /-- `sem_wait(&read_slots)`. -/
  | read₁
  /-- `sem_wait(&read_lock)`. -/
  | read₂
  /-- `reader` is read. -/
  | read₃
  /-- `c = buf[k]`. -/
  | read₄ (k : ℕ)
  /-- `reader` is read again. -/
  | read₅ (c : UInt8)
  /-- `reader = (k + 1)%SZ`. -/
  | read₆ (c : UInt8) (k : ℕ)
  /-- `sem_post(&read_lock)`. -/
  | read₇ (c : UInt8)
  /-- `sem_post(&write_slots)`, and `c` is returned. -/
  | read₈ (c : UInt8)

/-- A call, or the next step of one. -/
inductive Act
  | pipeWrite (c : UInt8)
  | pipeRead
  | next

/-- The next step of a call. -/
def next (m : Shared) : Point → Option (Shared × Point)
  | .idle => none
  | .write₁ c => (semWait m.writeSlots).map fun v => ({ m with writeSlots := v }, .write₂ c)
  | .write₂ c => (semWait m.writeLock).map fun v => ({ m with writeLock := v }, .write₃ c)
  | .write₃ c => some (m, .write₄ c m.writer)
  | .write₄ c k =>
    some ({ m with
      buf := Function.update m.buf k c
      stored := m.stored ++ [c]
      stamp := Function.update m.stamp k (some m.stored.length) }, .write₅)
  | .write₅ => some (m, .write₆ m.writer)
  | .write₆ k => some ({ m with writer := (k + 1) % SZ }, .write₇)
  | .write₇ => some ({ m with writeLock := m.writeLock + 1 }, .write₈)
  | .write₈ => some ({ m with readSlots := m.readSlots + 1 }, .idle)
  | .read₁ => (semWait m.readSlots).map fun v => ({ m with readSlots := v }, .read₂)
  | .read₂ => (semWait m.readLock).map fun v => ({ m with readLock := v }, .read₃)
  | .read₃ => some (m, .read₄ m.reader)
  | .read₄ k =>
    some ({ m with taken := m.taken ++ [(m.stamp k, m.buf k)] }, .read₅ (m.buf k))
  | .read₅ c => some (m, .read₆ c m.reader)
  | .read₆ c k => some ({ m with reader := (k + 1) % SZ }, .read₇ c)
  | .read₇ c => some ({ m with readLock := m.readLock + 1 }, .read₈ c)
  | .read₈ _ => some ({ m with writeSlots := m.writeSlots + 1 }, .idle)

variable {ι : Type}

/-- What a thread does. -/
def code (_ : ι) : Act → Shared → Point → Option (Shared × Point)
  | .pipeWrite c, m, .idle => some (m, .write₁ c)
  | .pipeRead, m, .idle => some (m, .read₁)
  | .next, m, pc => next m pc
  | _, _, _ => none

/-- `main`: nothing is stored, and the semaphores have their first values. -/
def init (ι : Type) : Threads ι Shared Point where
  shared := {
    buf := fun _ => 0, reader := 0, writer := 0
    writeSlots := SZ, readSlots := 0, readLock := 1, writeLock := 1
    stored := [], stamp := fun _ => none, taken := [] }
  loc := fun _ => .idle

/-! ## The invariant -/

/-- A writer that has a slot and has not stored to it. -/
def reserves : Point → Bool
  | .write₂ _ | .write₃ _ | .write₄ _ _ => true
  | _ => false

/-- A writer that has stored a byte and not announced it. -/
def announces : Point → Bool
  | .write₅ | .write₆ _ | .write₇ | .write₈ => true
  | _ => false

/-- A reader that has a byte coming. -/
def claims : Point → Bool
  | .read₂ | .read₃ | .read₄ _ => true
  | _ => false

/-- A reader that has taken a byte and not given its slot back. -/
def frees : Point → Bool
  | .read₅ _ | .read₆ _ _ | .read₇ _ | .read₈ _ => true
  | _ => false

/-- The thread has `write_lock`. -/
def locksWrite : Point → Bool
  | .write₃ _ | .write₄ _ _ | .write₅ | .write₆ _ | .write₇ => true
  | _ => false

/-- The thread has `read_lock`. -/
def locksRead : Point → Bool
  | .read₃ | .read₄ _ | .read₅ _ | .read₆ _ _ | .read₇ _ => true
  | _ => false

/-- The thread has stored its byte, and `writer` is still the slot of it. -/
def behindWrite : Point → Bool
  | .write₅ | .write₆ _ => true
  | _ => false

/-- The thread has taken its byte, and `reader` is still the slot of it. -/
def behindRead : Point → Bool
  | .read₅ _ | .read₆ _ _ => true
  | _ => false

/-- The index that a thread has read is still the one in memory. -/
def Fresh (reader writer : ℕ) : Point → Prop
  | .write₄ _ k | .write₆ k => k = writer
  | .read₄ k | .read₆ _ k => k = reader
  | _ => True

/-- What the buffer has to do with the history. -/
structure History (buf : ℕ → UInt8) (stamp : ℕ → Option ℕ) (stored : List UInt8)
    (taken : List (Option ℕ × UInt8)) : Prop where
  unread : ∀ j b, taken.length ≤ j → stored[j]? = some b →
    buf (j % SZ) = b ∧ stamp (j % SZ) = some j
  stamp : ∀ k j, stamp k = some j → j < stored.length ∧ j % SZ = k
  bytes : taken.map Prod.snd <+: stored
  order : taken.map Prod.fst = (List.range taken.length).map some

variable [Fintype ι]

/-- **The invariant.** -/
structure Inv (m : Shared) (loc : ι → Point) : Prop where
  slots : m.writeSlots + countAt reserves loc + countAt frees loc + m.stored.length =
    SZ + m.taken.length
  bytes : m.readSlots + countAt claims loc + countAt announces loc + m.taken.length =
    m.stored.length
  writeLock : m.writeLock + countAt locksWrite loc = 1
  readLock : m.readLock + countAt locksRead loc = 1
  writer : (m.writer + countAt behindWrite loc) % SZ = m.stored.length % SZ
  writer_lt : m.writer < SZ
  reader : (m.reader + countAt behindRead loc) % SZ = m.taken.length % SZ
  reader_lt : m.reader < SZ
  fresh : ∀ i, Fresh m.reader m.writer (loc i)
  history : History m.buf m.stamp m.stored m.taken

lemma inv_init : Inv (init ι).shared (init ι).loc := by
  have hzero : ∀ p : Point → Bool, p .idle = false → countAt p (init ι).loc = 0 :=
    fun p hp => countAt_eq_zero fun _ => hp
  constructor
  all_goals try rw [hzero _ rfl, hzero _ rfl]; rfl
  all_goals try rw [hzero _ rfl]; rfl
  · exact Nat.zero_lt_succ 9
  · exact Nat.zero_lt_succ 9
  · exact fun _ => trivial
  · constructor
    · intro j b _ hj
      cases hj
    · intro k j hj
      cases hj
    · exact List.nil_prefix
    · rfl

/-! ## The history -/

variable {m : Shared} {loc : ι → Point} {i : ι} {b : Point}

section

variable {buf : ℕ → UInt8} {stamp : ℕ → Option ℕ} {stored : List UInt8}
  {taken : List (Option ℕ × UInt8)}

lemma History.store (h : History buf stamp stored taken) (c : UInt8)
    (hlt : stored.length < taken.length + SZ) :
    History (Function.update buf (stored.length % SZ) c)
      (Function.update stamp (stored.length % SZ) (some stored.length)) (stored ++ [c]) taken where
  unread j b hj hb := by
    rcases Nat.lt_trichotomy j stored.length with hlow | rfl | hhigh
    · rw [List.getElem?_append_left hlow] at hb
      have hne : j % SZ ≠ stored.length % SZ := by
        simp only [SZ] at hlt ⊢
        omega
      rw [Function.update_of_ne hne, Function.update_of_ne hne]
      exact h.unread j b hj hb
    · rw [List.getElem?_concat_length, Option.some.injEq] at hb
      rw [Function.update_self, Function.update_self]
      exact ⟨hb, rfl⟩
    · rw [List.getElem?_eq_none (by simp; omega)] at hb
      cases hb
  stamp k j hk := by
    rw [List.length_append, List.length_singleton]
    by_cases hne : k = stored.length % SZ
    · subst hne
      rw [Function.update_self, Option.some.injEq] at hk
      subst hk
      exact ⟨Nat.lt_succ_self _, rfl⟩
    · rw [Function.update_of_ne hne] at hk
      obtain ⟨hlow, hmod⟩ := h.stamp k j hk
      exact ⟨Nat.lt_succ_of_lt hlow, hmod⟩
  bytes := h.bytes.trans (List.prefix_append _ _)
  order := h.order

lemma History.take (h : History buf stamp stored taken) (hlt : taken.length < stored.length) :
    History buf stamp stored
      (taken ++ [(stamp (taken.length % SZ), buf (taken.length % SZ))]) := by
  obtain ⟨hbuf, hstamp⟩ := h.unread _ _ le_rfl (List.getElem?_eq_getElem hlt)
  rw [hbuf, hstamp]
  constructor
  · intro j b hj hb
    rw [List.length_append] at hj
    exact h.unread j b (by omega) hb
  · exact h.stamp
  · have htake := List.prefix_iff_eq_take.mp h.bytes
    rw [List.length_map] at htake
    rw [List.map_append, htake, List.map_singleton, List.take_append_getElem hlt]
    exact List.take_prefix _ _
  · rw [List.map_append, h.order, List.length_append, List.length_singleton, List.range_succ,
      List.map_append]
    rfl

end

lemma Fresh.congr {reader writer reader' writer' : ℕ} (h : Fresh reader writer b)
    (hreader : reader' = reader ∨ locksRead b = false)
    (hwriter : writer' = writer ∨ locksWrite b = false) : Fresh reader' writer' b := by
  cases b <;> simp_all [Fresh, locksRead, locksWrite]

/-! ## Steps keep the invariant -/

variable [DecidableEq ι]

/-- What a step has to do for the invariant to be kept: whatever it adds to one side of an equation
it adds to the other. -/
lemma Inv.move (h : Inv m loc) {a : Point} (hi : loc i = a) {m' : Shared}
    (hslots : m'.writeSlots + (reserves b).toNat + (frees b).toNat + m'.stored.length +
        m.taken.length =
      m.writeSlots + (reserves a).toNat + (frees a).toNat + m.stored.length + m'.taken.length)
    (hbytes : m'.readSlots + (claims b).toNat + (announces b).toNat + m'.taken.length +
        m.stored.length =
      m.readSlots + (claims a).toNat + (announces a).toNat + m.taken.length + m'.stored.length)
    (hwrite : m'.writeLock + (locksWrite b).toNat = m.writeLock + (locksWrite a).toNat)
    (hread : m'.readLock + (locksRead b).toNat = m.readLock + (locksRead a).toNat)
    (hwriter : (m'.writer + (behindWrite b).toNat + m.stored.length) % SZ =
      (m.writer + (behindWrite a).toNat + m'.stored.length) % SZ) (hwriter_lt : m'.writer < SZ)
    (hreader : (m'.reader + (behindRead b).toNat + m.taken.length) % SZ =
      (m.reader + (behindRead a).toNat + m'.taken.length) % SZ) (hreader_lt : m'.reader < SZ)
    (hfresh : Fresh m'.reader m'.writer b)
    (hothers : ∀ j, j ≠ i → Fresh m'.reader m'.writer (loc j))
    (hhistory : History m'.buf m'.stamp m'.stored m'.taken) :
    Inv m' (Function.update loc i b) := by
  -- each count changes by what the thread that moves contributes to it
  subst hi
  have hcount := fun p => countAt_update p loc i b
  have hlen := h.slots
  have hlen' := h.bytes
  have hwrite' := h.writeLock
  have hread' := h.readLock
  have hwriter' := h.writer
  have hreader' := h.reader
  simp only [SZ] at *
  constructor
  · have := hcount reserves
    have := hcount frees
    simp only [SZ]
    omega
  · have := hcount claims
    have := hcount announces
    omega
  · have := hcount locksWrite
    omega
  · have := hcount locksRead
    omega
  · have := hcount behindWrite
    simp only [SZ]
    omega
  · exact hwriter_lt
  · have := hcount behindRead
    simp only [SZ]
    omega
  · exact hreader_lt
  · exact (Function.forall_update_iff loc fun _ pc => Fresh m'.reader m'.writer pc).mpr
      ⟨hfresh, hothers⟩
  · exact hhistory

lemma Inv.semaphores (h : Inv m loc) {a : Point} (hi : loc i = a)
    {writeSlots readSlots readLock writeLock : ℕ}
    (hslots : writeSlots + (reserves b).toNat + (frees b).toNat =
      m.writeSlots + (reserves a).toNat + (frees a).toNat)
    (hbytes : readSlots + (claims b).toNat + (announces b).toNat =
      m.readSlots + (claims a).toNat + (announces a).toNat)
    (hwrite : writeLock + (locksWrite b).toNat = m.writeLock + (locksWrite a).toNat)
    (hread : readLock + (locksRead b).toNat = m.readLock + (locksRead a).toNat)
    (hwriter : behindWrite b = behindWrite a) (hreader : behindRead b = behindRead a)
    (hfresh : Fresh m.reader m.writer b) :
    Inv { m with
      writeSlots := writeSlots, readSlots := readSlots
      readLock := readLock, writeLock := writeLock } (Function.update loc i b) := by
  refine h.move hi ?_ ?_ hwrite hread ?_ h.writer_lt ?_ h.reader_lt hfresh
    (fun j _ => h.fresh j) h.history
  · rw [hslots]
  · rw [hbytes]
  · rw [hwriter]
  · rw [hreader]

lemma Inv.slot_free (h : Inv m loc) {c : UInt8} {k : ℕ} (hi : loc i = .write₄ c k) :
    k = m.stored.length % SZ ∧ m.stored.length < m.taken.length + SZ := by
  have hfresh := h.fresh i
  rw [hi] at hfresh
  have hreserves : 0 < countAt reserves loc := countAt_pos (i := i) (by rw [hi]; rfl)
  have hbehind : countAt behindWrite loc = 0 := by
    have hone := countAt_eq_of_le_one (q := behindWrite) (i := i)
      (le_of_add_le_right h.writeLock.le) (by rw [hi]; rfl)
        (fun a => by cases a <;> simp [behindWrite, locksWrite])
    rw [hone, hi]
    rfl
  have hwriter := h.writer
  have hslots := h.slots
  rw [hbehind, Nat.add_zero, Nat.mod_eq_of_lt h.writer_lt] at hwriter
  exact ⟨hfresh.trans hwriter, by omega⟩

lemma Inv.slot_unread (h : Inv m loc) {k : ℕ} (hi : loc i = .read₄ k) :
    k = m.taken.length % SZ ∧ m.taken.length < m.stored.length := by
  have hfresh := h.fresh i
  rw [hi] at hfresh
  have hclaims : 0 < countAt claims loc := countAt_pos (i := i) (by rw [hi]; rfl)
  have hbehind : countAt behindRead loc = 0 := by
    have hone := countAt_eq_of_le_one (q := behindRead) (i := i) (le_of_add_le_right h.readLock.le)
      (by rw [hi]; rfl) (fun a => by cases a <;> simp [behindRead, locksRead])
    rw [hone, hi]
    rfl
  have hreader := h.reader
  have hbytes := h.bytes
  rw [hbehind, Nat.add_zero, Nat.mod_eq_of_lt h.reader_lt] at hreader
  exact ⟨hfresh.trans hreader, by omega⟩

lemma Inv.store (h : Inv m loc) {c : UInt8} {k : ℕ} (hi : loc i = .write₄ c k) :
    Inv { m with
      buf := Function.update m.buf k c
      stored := m.stored ++ [c]
      stamp := Function.update m.stamp k (some m.stored.length) }
      (Function.update loc i .write₅) := by
  obtain ⟨rfl, hlt⟩ := h.slot_free hi
  refine h.move hi ?_ ?_ rfl rfl ?_ h.writer_lt rfl h.reader_lt trivial (fun j _ => h.fresh j)
    (h.history.store c hlt)
  all_goals
    simp only [List.length_append, List.length_singleton, reserves, frees, claims, announces,
      behindWrite, Bool.toNat_true, Bool.toNat_false]
  · omega
  · omega
  · rw [Nat.add_zero, Nat.add_assoc, Nat.add_comm 1]
    rfl

lemma Inv.take (h : Inv m loc) {k : ℕ} (hi : loc i = .read₄ k) :
    Inv { m with taken := m.taken ++ [(m.stamp k, m.buf k)] }
      (Function.update loc i (.read₅ (m.buf k))) := by
  obtain ⟨rfl, hlt⟩ := h.slot_unread hi
  refine h.move hi ?_ ?_ rfl rfl rfl h.writer_lt ?_ h.reader_lt trivial (fun j _ => h.fresh j)
    (h.history.take hlt)
  all_goals
    simp only [List.length_append, List.length_singleton, reserves, frees, claims, announces,
      behindRead, Bool.toNat_true, Bool.toNat_false]
  · omega
  · omega
  · rw [Nat.add_zero, Nat.add_assoc, Nat.add_comm 1]
    rfl

lemma Inv.setWriter (h : Inv m loc) {k : ℕ} (hi : loc i = .write₆ k) :
    Inv { m with writer := (k + 1) % SZ } (Function.update loc i .write₇) := by
  have hk : k = m.writer := by simpa only [hi, Fresh] using h.fresh i
  subst hk
  refine h.move hi rfl rfl rfl rfl ?_ (Nat.mod_lt _ (by decide)) rfl h.reader_lt trivial ?_
    h.history
  · show ((m.writer + 1) % SZ + 0 + m.stored.length) % SZ = _
    rw [Nat.add_zero, Nat.mod_add_mod]
    rfl
  · intro j hj
    refine (h.fresh j).congr (.inl rfl) (.inr (Bool.eq_false_iff.mpr fun hlock => hj ?_))
    exact eq_of_countAt_le_one (le_of_add_le_right h.writeLock.le) hlock (by rw [hi]; rfl)

lemma Inv.setReader (h : Inv m loc) {c : UInt8} {k : ℕ} (hi : loc i = .read₆ c k) :
    Inv { m with reader := (k + 1) % SZ } (Function.update loc i (.read₇ c)) := by
  have hk : k = m.reader := by simpa only [hi, Fresh] using h.fresh i
  subst hk
  refine h.move hi rfl rfl rfl rfl rfl h.writer_lt ?_ (Nat.mod_lt _ (by decide)) trivial ?_
    h.history
  · show ((m.reader + 1) % SZ + 0 + m.taken.length) % SZ = _
    rw [Nat.add_zero, Nat.mod_add_mod]
    rfl
  · intro j hj
    refine (h.fresh j).congr (.inr (Bool.eq_false_iff.mpr fun hlock => hj ?_)) (.inl rfl)
    exact eq_of_countAt_le_one (le_of_add_le_right h.readLock.le) hlock (by rw [hi]; rfl)

lemma Inv.next {m' : Shared} (h : Inv m loc) (hs : next m (loc i) = some (m', b)) :
    Inv m' (Function.update loc i b) := by
  cases hi : loc i with
  | idle =>
    rw [hi] at hs
    cases hs
  | write₁ c =>
    rw [hi, Pipe.next, Option.map_eq_some_iff] at hs
    obtain ⟨v, hv, hs⟩ := hs
    cases hs
    have := semWait_eq_some.mp hv
    exact h.semaphores hi (by simp [reserves, frees]; omega) rfl rfl rfl rfl rfl trivial
  | write₂ c =>
    rw [hi, Pipe.next, Option.map_eq_some_iff] at hs
    obtain ⟨v, hv, hs⟩ := hs
    cases hs
    have := semWait_eq_some.mp hv
    exact h.semaphores hi rfl rfl (by simp [locksWrite]; omega) rfl rfl rfl trivial
  | write₃ c =>
    rw [hi] at hs
    cases hs
    exact h.semaphores hi rfl rfl rfl rfl rfl rfl rfl
  | write₄ c k =>
    rw [hi] at hs
    cases hs
    exact h.store hi
  | write₅ =>
    rw [hi] at hs
    cases hs
    exact h.semaphores hi rfl rfl rfl rfl rfl rfl rfl
  | write₆ k =>
    rw [hi] at hs
    cases hs
    exact h.setWriter hi
  | write₇ =>
    rw [hi] at hs
    cases hs
    exact h.semaphores hi rfl rfl rfl rfl rfl rfl trivial
  | write₈ =>
    rw [hi] at hs
    cases hs
    exact h.semaphores hi rfl rfl rfl rfl rfl rfl trivial
  | read₁ =>
    rw [hi, Pipe.next, Option.map_eq_some_iff] at hs
    obtain ⟨v, hv, hs⟩ := hs
    cases hs
    have := semWait_eq_some.mp hv
    exact h.semaphores hi rfl (by simp [claims, announces]; omega) rfl rfl rfl rfl trivial
  | read₂ =>
    rw [hi, Pipe.next, Option.map_eq_some_iff] at hs
    obtain ⟨v, hv, hs⟩ := hs
    cases hs
    have := semWait_eq_some.mp hv
    exact h.semaphores hi rfl rfl rfl (by simp [locksRead]; omega) rfl rfl trivial
  | read₃ =>
    rw [hi] at hs
    cases hs
    exact h.semaphores hi rfl rfl rfl rfl rfl rfl rfl
  | read₄ k =>
    rw [hi] at hs
    cases hs
    exact h.take hi
  | read₅ c =>
    rw [hi] at hs
    cases hs
    exact h.semaphores hi rfl rfl rfl rfl rfl rfl rfl
  | read₆ c k =>
    rw [hi] at hs
    cases hs
    exact h.setReader hi
  | read₇ c =>
    rw [hi] at hs
    cases hs
    exact h.semaphores hi rfl rfl rfl rfl rfl rfl trivial
  | read₈ c =>
    rw [hi] at hs
    cases hs
    exact h.semaphores hi rfl rfl rfl rfl rfl rfl trivial

lemma Inv.code {m' : Shared} {act : Act} (h : Inv m loc)
    (hs : code i act m (loc i) = some (m', b)) : Inv m' (Function.update loc i b) := by
  cases act with
  | next => exact h.next hs
  | pipeWrite c =>
    cases hi : loc i <;> rw [hi] at hs <;> cases hs
    exact h.semaphores hi rfl rfl rfl rfl rfl rfl trivial
  | pipeRead =>
    cases hi : loc i <;> rw [hi] at hs <;> cases hs
    exact h.semaphores hi rfl rfl rfl rfl rfl rfl trivial

/-! ## The queue -/

/-- The slot holds a byte that no reader has taken. -/
def Unread (m : Shared) (k : ℕ) : Prop := ∃ j, m.stamp k = some j ∧ some j ∉ m.taken.map Prod.fst

/-- **The pipe is a queue.**  The bytes that readers take are, in this order, the first of those
that writers store; no thread stores to a slot that holds an unread byte; no byte is taken twice;
and at most `SZ` bytes are stored and not taken. -/
theorem pipe_fifo {xs : List (ι × Act)} {s : Threads ι Shared Point}
    (hs : (init ι).runs code xs = some s) :
    s.shared.taken.map Prod.snd <+: s.shared.stored ∧
      (∀ i c k, s.loc i = .write₄ c k → ¬ Unread s.shared k) ∧
      (s.shared.taken.map Prod.fst).Nodup ∧
      s.shared.stored.length ≤ s.shared.taken.length + SZ := by
  have h : Inv s.shared s.loc := Threads.runs_invariant (I := fun s => Inv s.shared s.loc)
    (fun _ _ _ _ _ h hs => h.code hs) inv_init hs
  have hslots := h.slots
  refine ⟨h.history.bytes, ?_, ?_, by omega⟩
  · rintro i c k hi ⟨j, hstamp, hj⟩
    obtain ⟨rfl, hlt⟩ := h.slot_free hi
    obtain ⟨hlow, hmod⟩ := h.history.stamp _ _ hstamp
    rw [h.history.order] at hj
    have hge : s.shared.taken.length ≤ j := by
      by_contra hge
      exact hj (List.mem_map.mpr ⟨j, List.mem_range.mpr (not_le.mp hge), rfl⟩)
    simp only [SZ] at hlt hmod
    omega
  · rw [h.history.order]
    exact List.nodup_range.map (Option.some_injective ℕ)

/-- Threads 0 and 1 write and threads 2 and 3 read.  Both writers have a slot before thread 1 has
`write_lock` first; the first byte is taken while the second is being stored; and in the end a
writer is about to store a third byte while a reader is about to take the second. -/
def overlap : List (Fin 4 × Act) :=
  [[(0, .pipeWrite 97), (1, .pipeWrite 98), (0, .next)], List.replicate 4 (1, .next),
    [(2, .pipeRead)], List.replicate 4 (1, .next),
    [(0, .next), (2, .next), (0, .next), (2, .next), (0, .next), (2, .next), (3, .pipeRead)],
    [(2, .next), (0, .next), (2, .next), (0, .next), (0, .next), (0, .next)],
    [(3, .next), (1, .pipeWrite 99), (2, .next), (2, .next), (1, .next), (1, .next)],
    [(3, .next), (1, .next), (3, .next)]].flatten

theorem pipe_fifo_overlap : ∃ s : Threads (Fin 4) Shared Point,
    (init (Fin 4)).runs code overlap = some s ∧
      (s.shared.taken = [(some 0, 98)] ∧ s.shared.stored = [98, 97] ∧
        s.loc 1 = .write₄ 99 2 ∧ s.loc 3 = .read₄ 1) ∧
      s.shared.taken.map Prod.snd <+: s.shared.stored ∧
      (∀ i c k, s.loc i = .write₄ c k → ¬ Unread s.shared k) ∧
      (s.shared.taken.map Prod.fst).Nodup ∧
      s.shared.stored.length ≤ s.shared.taken.length + SZ := by
  have hrun : ((init (Fin 4)).runs code overlap).map
      (fun s => (s.shared.taken, s.shared.stored, s.loc 1, s.loc 3)) =
      some ([(some 0, 98)], [98, 97], .write₄ 99 2, .read₄ 1) := rfl
  obtain ⟨s, hs, hvals⟩ := Option.map_eq_some_iff.mp hrun
  simp only [Prod.mk.injEq] at hvals
  exact ⟨s, hs, hvals, pipe_fifo hs⟩

end Pipe

end Xv6
