import Xv6.Bio.Refinement
import Xv6.Sched.System

/-!
# Caches that differ in the buffers of outstanding requests

While requests are outstanding, the cache differs from the one in which they have been served
already, but only in the contents and flags of the buffers they are for.  Steps on other buffers
do the same to both.

* `Lag D m ma` says that `m` and `ma` differ in this way, in no buffers but those in `D`.
* `Lag.cacheHandler` is the main fact: a step of kernel code that does not name one of those blocks
  gives the same answer on both sides and leaves caches that differ in the same buffers.
* `Untouched` says what such a step leaves alone: the buffers in `D`, the drives, and which buffer
  caches a block.

The two sides recycle the same buffer although flags differ, since the buffers of outstanding
requests are referred to and not candidates on either side (`Lag.victim`).

`Xv6.Sched.Simulation` has the cache of the system on one side and, on the other, the one that plays
the store of the pool.
-/

namespace Xv6

open Lib

/-- The caches differ at most in the contents and flags of the buffers in `D`. -/
structure Lag (D : Set (Fin NBUF)) (m ma : Machine) : Prop where
  lru : ma.lru = m.lru
  log : ma.log = m.log
  hd : ma.havedisk1 = m.havedisk1
  disk : ma.disk = m.disk
  key : ∀ b, (ma.buf b).key = (m.buf b).key
  refcnt : ∀ b, (ma.buf b).refcnt = (m.buf b).refcnt
  same : ∀ b, b ∉ D → ma.buf b = m.buf b

/-- A step that changes no buffer in `D`, no drive, and not which buffer caches a block. -/
structure Untouched (D : Set (Fin NBUF)) (m m' : Machine) : Prop where
  disk : m'.disk = m.disk
  lookup : ∀ k, m'.lookup k = m.lookup k
  buf : ∀ b ∈ D, m'.buf b = m.buf b

variable {D : Set (Fin NBUF)} {m ma m' : Machine} {i : Fin NBUF} {k : BufRef}

lemma Untouched.refl (m : Machine) : Untouched D m m := ⟨rfl, fun _ => rfl, fun _ _ => rfl⟩

lemma Untouched.setLog (m : Machine) (L : Log) : Untouched D m { m with log := L } :=
  ⟨rfl, fun _ => rfl, fun _ _ => rfl⟩

lemma Untouched.setBuf {b : Buf} (hi : i ∉ D) (hb : b.key = (m.buf i).key) :
    Untouched D m (m.setBuf i b) where
  disk := rfl
  lookup := Machine.lookup_setBuf hb
  buf _ hj := Machine.setBuf_buf_of_ne fun he => hi (he ▸ hj)

lemma Plays.cached {a : Account} (h : Plays a m) (hk : k ∈ a.held) : m.cached k = a.mem k := by
  obtain ⟨i, hi, hv⟩ := h.live k (Or.inl hk)
  rw [Machine.cached, hi]
  exact h.data k i hi hv

lemma held_of_target {a a' : Account} {e : BioOp} {r : e.Ret}
    (he : accountHandler e a = .ok r a') (hk : e.target = some k) : k ∈ a.held ∧ k ∈ a'.held := by
  have hheld : ∀ {α : Type} {f : EStateM Halt Account α} {r : α},
      asHolder k f a = .ok r a' → k ∈ a.held ∧ f a = .ok r a' := by
    intro α f r hf
    unfold asHolder at hf
    split_ifs at hf with hmem
    exact ⟨hmem, hf⟩
  cases e with
  | data k' =>
    obtain rfl := Option.some.inj hk
    obtain ⟨hmem, hf⟩ := hheld he
    obtain ⟨-, rfl⟩ := EStateM.Result.ok.inj hf
    exact ⟨hmem, hmem⟩
  | store k' f =>
    obtain rfl := Option.some.inj hk
    simp only [accountHandler] at he
    obtain ⟨hmem, hf⟩ := hheld he
    obtain ⟨-, rfl⟩ := EStateM.Result.ok.inj hf
    exact ⟨hmem, hmem⟩
  | copy dst src =>
    obtain rfl := Option.some.inj hk
    simp only [accountHandler] at he
    obtain ⟨hmem, hf⟩ := hheld he
    unfold asHolder at hf
    split_ifs at hf
    obtain ⟨-, rfl⟩ := EStateM.Result.ok.inj hf
    exact ⟨hmem, hmem⟩
  | _ => cases hk

namespace Lag

lemma lookup (h : Lag D m ma) (k : BufRef) : ma.lookup k = m.lookup k :=
  Machine.lookup_congr h.lru h.key k

lemma cached (h : Lag D m ma) (hD : ∀ b, m.lookup k = some b → b ∉ D) :
    ma.cached k = m.cached k := by
  unfold Machine.cached
  rw [h.lookup]
  cases hl : m.lookup k with
  | none => rfl
  | some b => simp only [h.same b (hD b hl)]

lemma setBuf (h : Lag D m ma) (i : Fin NBUF) (b : Buf) :
    Lag D (m.setBuf i b) (ma.setBuf i b) := by
  have hall : ∀ {p : Buf → Buf → Prop}, p b b → (∀ j, p (ma.buf j) (m.buf j)) →
      ∀ j, p ((ma.setBuf i b).buf j) ((m.setBuf i b).buf j) := by
    intro p hb hp j
    by_cases hj : j = i
    · rw [hj, Machine.setBuf_buf_self, Machine.setBuf_buf_self]
      exact hb
    · rw [Machine.setBuf_buf_of_ne hj, Machine.setBuf_buf_of_ne hj]
      exact hp j
  refine ⟨h.lru, h.log, h.hd, h.disk, ?_, ?_, ?_⟩
  · exact hall (p := fun x y => x.key = y.key) rfl h.key
  · exact hall (p := fun x y => x.refcnt = y.refcnt) rfl h.refcnt
  · intro j hj
    by_cases hji : j = i
    · rw [hji, Machine.setBuf_buf_self, Machine.setBuf_buf_self]
    · rw [Machine.setBuf_buf_of_ne hji, Machine.setBuf_buf_of_ne hji]
      exact h.same j hj

lemma mono {D' : Set (Fin NBUF)} (h : Lag D m ma) (hD : D ⊆ D') : Lag D' m ma :=
  ⟨h.lru, h.log, h.hd, h.disk, h.key, h.refcnt, fun b hb => h.same b fun hb' => hb (hD hb')⟩

lemma setBuf_right {b : Buf} (h : Lag D m ma) (hi : i ∈ D) (hk : b.key = (m.buf i).key)
    (hr : b.refcnt = (m.buf i).refcnt) : Lag D m (ma.setBuf i b) := by
  refine ⟨h.lru, h.log, h.hd, h.disk, fun j => ?_, fun j => ?_, fun j hj => ?_⟩
  · by_cases hj : j = i
    · rw [hj, Machine.setBuf_buf_self, hk]
    · rw [Machine.setBuf_buf_of_ne hj, h.key]
  · by_cases hj : j = i
    · rw [hj, Machine.setBuf_buf_self, hr]
    · rw [Machine.setBuf_buf_of_ne hj, h.refcnt]
  · have hji : j ≠ i := fun he => hj (he ▸ hi)
    rw [Machine.setBuf_buf_of_ne hji, h.same j hj]

lemma setBuf_left {b : Buf} (h : Lag D m ma) (hi : i ∈ D) (hk : b.key = (m.buf i).key)
    (hr : b.refcnt = (m.buf i).refcnt) : Lag D (m.setBuf i b) ma := by
  refine ⟨h.lru, h.log, h.hd, h.disk, fun j => ?_, fun j => ?_, fun j hj => ?_⟩
  · by_cases hj : j = i
    · rw [hj, Machine.setBuf_buf_self, hk, h.key]
    · rw [Machine.setBuf_buf_of_ne hj, h.key]
  · by_cases hj : j = i
    · rw [hj, Machine.setBuf_buf_self, hr, h.refcnt]
    · rw [Machine.setBuf_buf_of_ne hj, h.refcnt]
  · have hji : j ≠ i := fun he => hj (he ▸ hi)
    rw [Machine.setBuf_buf_of_ne hji, h.same j hj]

lemma holding {α : Type} {f : Fin NBUF → EStateM Halt Machine α} {r : α} (h : Lag D m ma)
    (hD : ∀ b, m.lookup k = some b → b ∉ D) (hf : holding k f m = .ok r m') :
    ∃ i, m.lookup k = some i ∧ i ∉ D ∧ ma.buf i = m.buf i ∧ f i m = .ok r m' ∧
      ∀ {β : Type} (g : Fin NBUF → EStateM Halt Machine β), Xv6.holding k g ma = g i ma := by
  unfold Xv6.holding at hf
  cases hl : m.lookup k with
  | none => simp [hl] at hf
  | some i =>
    simp only [hl] at hf
    split_ifs at hf with hr
    refine ⟨i, rfl, hD i hl, h.same i (hD i hl), hf, fun g => ?_⟩
    rw [Xv6.holding, h.lookup, hl]
    simp only [h.refcnt, if_pos hr]

/-- **A step on other buffers** has the same answer and the same effect in both caches. -/
theorem cacheHandler {e : BioOp} {r : e.Ret} (h : Lag D m ma)
    (hD : ∀ k ∈ e.blocks, ∀ b, m.lookup k = some b → b ∉ D) (hread : ∀ k, e ≠ .bread k)
    (hwrite : ∀ k, e ≠ .bwrite k) (he : Xv6.cacheHandler e m = .ok r m') :
    ∃ ma', Xv6.cacheHandler e ma = .ok r ma' ∧ Lag D m' ma' ∧ Untouched D m m' ∧
      Untouched D ma ma' := by
  cases e with
  | bread k => exact absurd rfl (hread k)
  | bwrite k => exact absurd rfl (hwrite k)
  | brelse k =>
    simp only [Xv6.cacheHandler] at he ⊢
    obtain ⟨i, hl, hi, hbuf, hf, hg⟩ := h.holding (hD k List.mem_cons_self) he
    have hla := (h.lookup k).trans hl
    rw [hg]
    simp only [brelseBuf, hbuf] at hf ⊢
    let b : Buf := { m.buf i with refcnt := (m.buf i).refcnt - 1 }
    have hset := h.setBuf i b
    have hu : Untouched D m (m.setBuf i b) := .setBuf hi rfl
    have hua : Untouched D ma (ma.setBuf i b) := .setBuf hi (by rw [hbuf]; rfl)
    split_ifs at hf ⊢ with h0
    · -- the last reference is gone, and the buffer moves to the front
      obtain ⟨-, rfl⟩ := EStateM.Result.ok.inj hf
      have hmove : ∀ {x : Machine}, x.lookup k = some i → (x.buf i).key = k →
          Untouched D x (x.setBuf i b) → b.key = (x.buf i).key → ∀ k',
          ({ x.setBuf i b with lru := i :: (x.setBuf i b).lru.erase i } : Machine).lookup k' =
            x.lookup k' := by
        intro x hx hkey hux hb k'
        refine (Machine.lookup_moveFront ?_ k').trans (hux.lookup k')
        rw [hux.lookup, Machine.setBuf_buf_self, hb, hkey, hx]
      refine ⟨_, rfl, ⟨?_, hset.log, hset.hd, hset.disk, hset.key, hset.refcnt, hset.same⟩,
        ⟨hu.disk, ?_, hu.buf⟩, ⟨hua.disk, ?_, hua.buf⟩⟩
      · simp only [h.lru]
      · exact hmove hl (Machine.key_of_lookup hl) hu rfl
      · exact hmove hla (Machine.key_of_lookup hla) hua (by rw [hbuf]; rfl)
    · obtain ⟨-, rfl⟩ := EStateM.Result.ok.inj hf
      exact ⟨_, rfl, hset, hu, hua⟩
  | data k =>
    simp only [Xv6.cacheHandler] at he ⊢
    obtain ⟨i, -, -, hbuf, hf, hg⟩ := h.holding (hD k List.mem_cons_self) he
    obtain ⟨rfl, rfl⟩ := EStateM.Result.ok.inj hf
    refine ⟨ma, ?_, h, .refl m, .refl ma⟩
    refine (hg _).trans ?_
    simp only [hbuf]
  | store k f =>
    simp only [Xv6.cacheHandler] at he ⊢
    obtain ⟨i, -, hi, hbuf, hf, hg⟩ := h.holding (hD k List.mem_cons_self) he
    obtain ⟨-, rfl⟩ := EStateM.Result.ok.inj hf
    refine ⟨_, ?_, h.setBuf i _, .setBuf hi rfl, .setBuf hi ?_⟩
    · refine (hg _).trans ?_
      simp only [hbuf]
    · rw [hbuf]
      rfl
  | copy dst src =>
    simp only [Xv6.cacheHandler] at he ⊢
    obtain ⟨i, -, hi, hbuf, hf, hg⟩ := h.holding (hD dst List.mem_cons_self) he
    obtain ⟨j, -, -, hbufj, hfj, hgj⟩ :=
      h.holding (hD src (List.mem_cons_of_mem _ List.mem_cons_self)) hf
    obtain ⟨-, rfl⟩ := EStateM.Result.ok.inj hfj
    refine ⟨_, ?_, h.setBuf i _, .setBuf hi rfl, .setBuf hi ?_⟩
    · refine (hg _).trans ((hgj _).trans ?_)
      simp only [hbuf, hbufj]
    · rw [hbuf]
      rfl
  | logAdd k =>
    simp only [Xv6.cacheHandler] at he ⊢
    obtain ⟨i, -, -, -, hf, hg⟩ := h.holding (hD k List.mem_cons_self) he
    split_ifs at hf with hfull
    obtain ⟨-, rfl⟩ := EStateM.Result.ok.inj hf
    refine ⟨{ ma with log := ma.log.add k.blockno }, ?_,
      ⟨h.lru, ?_, h.hd, h.disk, h.key, h.refcnt, h.same⟩, .setLog m _, .setLog ma _⟩
    · refine (hg _).trans ?_
      simp only [h.log, if_neg hfull]
    · simp only [h.log]
  | markDirty k =>
    simp only [Xv6.cacheHandler] at he ⊢
    obtain ⟨i, -, hi, hbuf, hf, hg⟩ := h.holding (hD k List.mem_cons_self) he
    obtain ⟨-, rfl⟩ := EStateM.Result.ok.inj hf
    refine ⟨_, ?_, h.setBuf i _, .setBuf hi rfl, .setBuf hi ?_⟩
    · refine (hg _).trans ?_
      simp only [hbuf]
    · rw [hbuf]
      rfl
  | log =>
    obtain ⟨rfl, rfl⟩ := EStateM.Result.ok.inj he
    refine ⟨ma, ?_, h, .refl m, .refl ma⟩
    simp only [Xv6.cacheHandler, h.log]
  | setLog f =>
    obtain ⟨-, rfl⟩ := EStateM.Result.ok.inj he
    refine ⟨{ ma with log := f ma.log }, rfl,
      ⟨h.lru, ?_, h.hd, h.disk, h.key, h.refcnt, h.same⟩, .setLog m _, .setLog ma _⟩
    simp only [h.log]

/-- Buffers that are held are not recycled, so both caches recycle the same one. -/
lemma victim (h : Lag D m ma) (hr : ∀ b ∈ D, (m.buf b).refcnt ≠ 0) : ma.victim = m.victim := by
  unfold Machine.victim
  rw [h.lru]
  congr 1
  funext b
  by_cases hb : b ∈ D
  · have hm := hr b hb
    have hma := hm
    rw [← h.refcnt b] at hma
    simp [hm, hma]
  · rw [h.same b hb]

/-- **`bget`** of a block whose buffer is not in `D` picks the same buffer in both caches. -/
lemma bget {b : Fin NBUF} (h : Lag D m ma) (hall : ∀ i, i ∈ m.lru)
    (hD : ∀ b, m.lookup k = some b → b ∉ D) (hr : ∀ b ∈ D, (m.buf b).refcnt ≠ 0)
    (hg : bget k m = .ok b m') :
    ∃ ma', Xv6.bget k ma = .ok b ma' ∧ Lag D m' ma' ∧ b ∉ D ∧ m'.lookup k = some b ∧
      (m'.buf b).refcnt ≠ 0 ∧ m'.disk = m.disk ∧ m'.havedisk1 = m.havedisk1 ∧
      (∀ c, c ≠ b → m'.buf c = m.buf c ∧ ma'.buf c = ma.buf c) ∧
      (∀ k' c, c ∈ D → m.lookup k' = some c → m'.lookup k' = some c) ∧
      (m.lookup k = none → (m'.buf b).dirty = false) ∧
      (m.lookup k ≠ none → m.lookup k = some b ∧ (m'.buf b).dirty = (m.buf b).dirty ∧
        (m'.buf b).valid = (m.buf b).valid) := by
  unfold Xv6.bget at hg ⊢
  rw [h.lookup]
  cases hl : m.lookup k with
  -- the block is cached: the same buffer on both sides, and not one of an outstanding request
  | some i =>
    simp only [hl] at hg ⊢
    obtain ⟨rfl, rfl⟩ := EStateM.Result.ok.inj hg
    have hi := hD i hl
    refine ⟨_, rfl, ?_, hi, ?_, ?_, rfl, rfl, ?_, ?_, by simp, by simp⟩
    · rw [h.same i hi]
      exact h.setBuf i _
    · rw [Machine.lookup_setBuf (by rfl), hl]
    · simp
    · exact fun c hc => ⟨Machine.setBuf_buf_of_ne hc, Machine.setBuf_buf_of_ne hc⟩
    · intro k' c _ hc
      rwa [Machine.lookup_setBuf (by rfl)]
  | none =>
    simp only [hl] at hg ⊢
    -- a buffer is recycled: the two sides choose the same one
    rw [h.victim hr]
    cases hv : m.victim with
    | none => simp [hv] at hg
    | some i =>
      simp only [hv] at hg ⊢
      obtain ⟨rfl, rfl⟩ := EStateM.Result.ok.inj hg
      have hi : i ∉ D := fun hi => hr i hi (Plays.victim_spec hv).1
      refine ⟨_, rfl, ?_, hi, ?_, ?_, rfl, rfl, ?_, ?_, ?_, by simp⟩
      · rw [h.same i hi]
        exact h.setBuf i _
      · exact Machine.lookup_setBuf_self hall hl rfl
      · simp
      · exact fun c hc => ⟨Machine.setBuf_buf_of_ne hc, Machine.setBuf_buf_of_ne hc⟩
      · intro k' c hc hk'
        refine Machine.lookup_setBuf_of_ne ?_ (fun he => hi (he ▸ hc)) hk'
        rintro rfl
        exact absurd (hl.symm.trans hk') (by simp)
      · simp

/-- **`idestart`** for a write request is where the served cache takes the whole `bwrite`. -/
lemma flush {a : Account} {c : Fin NBUF} {x : Bool} (h : Lag D m ma) (hplays : Plays a ma)
    (hk : m.lookup k = some c) (hc : c ∈ D) (hv : (m.buf c).valid = true)
    (hd : (m.buf c).dirty = true) (hma : ma.buf c = { m.buf c with dirty := x })
    (hns : ∀ a', accountHandler (.bwrite k) a ≠ .error .stray a') (hs : idestart c m = .ok m') :
    m' = { m with disk := Function.update m.disk k (m.buf c).data } ∧
    ∃ a' ma', accountHandler (.bwrite k) a = .ok () a' ∧ Plays a' ma' ∧ Lag D m' ma' ∧
      ma'.buf c = { m.buf c with dirty := false } ∧ ∀ b, b ≠ c → ma'.buf b = ma.buf b := by
  have hka : ma.lookup k = some c := (h.lookup k).trans hk
  have hrange : a.InRange k := hplays.range k c hka (by rw [hma]; exact hv)
  have hheld : k ∈ a.held := by
    by_contra hno
    exact hns a (by simp [accountHandler, asHolder, hno])
  obtain ⟨c', hc', -, -, hh⟩ := hplays.holding_eq hheld
  obtain rfl : c = c' := Option.some.inj (hka.symm.trans hc')
  have hm' : m' = { m with disk := Function.update m.disk k (m.buf c).data } := by
    unfold idestart at hs
    rw [if_pos hd] at hs
    split_ifs at hs
    rw [← Except.ok.inj hs, Machine.key_of_lookup hk, Plays.drive_of_lt hrange.1]
  have hwrite : Xv6.cacheHandler (.bwrite k) ma = .ok ()
      { (ma.setBuf c { ma.buf c with valid := true, dirty := false }) with
        disk := Function.update ma.disk k (ma.buf c).data } :=
    (hh _).trans (hplays.bwriteBuf_eq hka hrange)
  obtain ⟨a', ha, hplays'⟩ := hplays.ok_of_cache hns hwrite
  refine ⟨hm', a', _, ha, hplays', ?_, ?_, fun b hb => Machine.setBuf_buf_of_ne hb⟩
  · have hset : Lag D m (ma.setBuf c { ma.buf c with valid := true, dirty := false }) :=
      h.setBuf_right hc (h.key c) (h.refcnt c)
    rw [hm']
    refine ⟨hset.lru, hset.log, hset.hd, ?_, hset.key, hset.refcnt, hset.same⟩
    simp only [h.disk, hma]
  · have hself : ∀ (y : Machine) (z : Buf), (y.setBuf c z).buf c = z := fun y z =>
      Machine.setBuf_buf_self y c z
    simp only [hself, hma, hv]

end Lag

end Xv6
