import Xv6.Sched.Pool

/-!
# The pool simulates the system

`Xv6.Sched.Pool` says what it means for a pool of processes on the block store to follow the system
of `Xv6.Sched.System`.  Here it is shown that it does, one kind of step after the other.

* A step outside of transfers is the same step on both sides, by `Plays.step` on the cache in which
  all outstanding requests have been served and `Lag.cacheHandler` between this one and the real one
  (`Sim.bio`).
* Entering `bread` is the read of the pool, and what follows in the system is none (`Sim.bget`,
  `Sim.enter`).  Entering `bwrite` is none, and the request to the drive is the write (`Sim.start`).
* An interrupt changes nothing in the pool, unless the next request of the queue is a write, which
  is then sent to the drive (`Sim.ideintr`).

`Simulates.step` puts these together, and `Runs.simulates` is the rule for whole runs: an invariant
of the pool that implies its safety and is kept by its steps holds of a pool that simulates the
system, all along a run of the system whose steps are calm.

A process inside a transfer that somebody else's step does not concern stays related as it was when
the step spares what it relies on: its buffer on both sides, that it caches its block, and what the
drive has there (`Framed`, `ProcSim.frame`).
-/

namespace Xv6

open Lib

variable {ι κ ρ : Type} [DecidableEq ι]

/-! ## Framing -/

/-- What a process inside a transfer of `b` depends on stays as it is. -/
structure Framed (m : Machine) (st : Option (Fin NBUF)) (ma m' : Machine)
    (st' : Option (Fin NBUF)) (ma' : Machine) (b : Fin NBUF) : Prop where
  buf : m'.buf b = m.buf b
  abuf : ma'.buf b = ma.buf b
  lookup : ∀ k, m.lookup k = some b → m'.lookup k = some b
  disk : m'.disk (drive (m.buf b).key) = m.disk (drive (m.buf b).key)
  started : st' = some b ↔ st = some b

lemma ProcSim.frame {m ma m' ma' : Machine} {st st' : Option (Fin NBUF)}
    {p p' : Process κ ρ} (h : ProcSim m st ma p p')
    (hf : ∀ io, p.io = some io → Framed m st ma m' st' ma' io.buf) : ProcSim m' st' ma' p p' := by
  cases h with
  | out hio => exact .out hio
  | read io hio hcur hk hr hma hd hv =>
    obtain ⟨hb, hab, hl, hdisk, -⟩ := hf _ hio
    refine .read io hio hcur (hl _ hk) (by rwa [hb]) ?_ (by rwa [hb]) (by rwa [hb])
    rw [hab, hma]
    simp only [Machine.filled, hb, hdisk]
  | write io hio hcur hk hr hv hma hd hs =>
    obtain ⟨hb, hab, hl, -, hhead⟩ := hf _ hio
    exact .write io hio hcur (hl _ hk) (by rwa [hb]) (by rwa [hb]) (by rw [hab, hma, hb])
      (by rwa [hb]) (hs.imp_right fun hs => ⟨hs.1, fun hq => hs.2 (hhead.mp hq)⟩)
  | sent io hio hcur hk hr hv hma hd hs =>
    obtain ⟨hb, hab, hl, -, hhead⟩ := hf _ hio
    exact .sent io hio hcur (hl _ hk) (by rwa [hb]) (by rwa [hb]) (by rw [hab, hma, hb])
      (fun h => by rw [hb]; exact ⟨(hd h).1, hhead.mpr (hd h).2⟩) hs

lemma ProcSim.refcnt {m ma : Machine} {st : Option (Fin NBUF)} {p p' : Process κ ρ} {io : Io}
    (h : ProcSim m st ma p p') (hio : p.io = some io) : (m.buf io.buf).refcnt ≠ 0 := by
  cases h with
  | out hio' => exact absurd (hio'.symm.trans hio) (by simp)
  | read _ hio' _ _ hr => rwa [Option.some.inj (hio.symm.trans hio')]
  | write _ hio' _ _ hr => rwa [Option.some.inj (hio.symm.trans hio')]
  | sent _ hio' _ _ hr => rwa [Option.some.inj (hio.symm.trans hio')]

lemma ProcSim.onBlock {m ma : Machine} {st : Option (Fin NBUF)} {p p' : Process κ ρ} {io : Io}
    (h : ProcSim m st ma p p') (hio : p.io = some io) :
    ∃ k, p.onBlock = some k ∧ m.lookup k = some io.buf := by
  cases h with
  | out hio' => exact absurd (hio'.symm.trans hio) (by simp)
  | @read _ c k _ hio' hcur hk =>
    obtain rfl := Option.some.inj (hio.symm.trans hio')
    exact ⟨k, by simp [Process.onBlock, hio, hcur], hk⟩
  | @write _ c k _ _ hio' hcur hk =>
    obtain rfl := Option.some.inj (hio.symm.trans hio')
    exact ⟨k, by simp [Process.onBlock, hio, hcur], hk⟩
  | @sent _ c k _ _ hio' hcur hk =>
    obtain rfl := Option.some.inj (hio.symm.trans hio')
    exact ⟨k, by simp [Process.onBlock, hio, hcur], hk⟩

/-- A process that does not wait before and after changes nothing about who waits. -/
lemma Sys.exists_waits_setProc {s : Sys ι κ ρ} {i : ι} {p : Process κ ρ}
    (hi : ∀ b, (s.proc i).io ≠ some (.wait b false)) (hp : ∀ b, p.io ≠ some (.wait b false))
    (x : Fin NBUF) : (∃ j, s.Waits j x) ↔ ∃ j, (s.setProc i p).Waits j x := by
  refine exists_congr fun j => ?_
  by_cases hj : j = i
  · simp [Sys.Waits, Sys.setProc, hj, hi, hp]
  · simp [Sys.Waits, Sys.setProc, Function.update_of_ne hj]

namespace Sim

variable {s : Sys ι κ ρ} {P : Pool ι κ ρ} {ma : Machine} {l : List (Fin NBUF)}
  {st : Option (Fin NBUF)} {i : ι}

omit [DecidableEq ι] in
lemma refcnt_of_busy (h : Sim s P ma l st) {b : Fin NBUF} (hb : b ∈ s.busy) :
    (s.m.buf b).refcnt ≠ 0 := by
  obtain ⟨j, io, hio, rfl⟩ := hb
  exact (h.proc j).refcnt hio

omit [DecidableEq ι] in
/-- A block that no other process is inside a transfer of is not in a busy buffer. -/
lemma not_busy (h : Sim s P ma l st) {k : BufRef} {b : Fin NBUF} (hi : (s.proc i).io = none)
    (hcalm : ∀ j ≠ i, (s.proc j).onBlock ≠ some k) (hk : s.m.lookup k = some b) :
    b ∉ s.busy := by
  rintro ⟨j, io, hio, rfl⟩
  have hji : j ≠ i := by
    rintro rfl
    exact absurd (hi.symm.trans hio) (by simp)
  obtain ⟨k', hk', hl⟩ := (h.proc j).onBlock hio
  rw [Plays.key_inj hl hk] at hk'
  exact hcalm j hji hk'

omit [DecidableEq ι] in
lemma proc_eq (h : Sim s P ma l st) (hi : (s.proc i).io = none) : P.proc i = s.proc i := by
  have hp := h.proc i
  generalize P.proc i = p' at hp
  cases hp with
  | out _ => rfl
  | read _ hio => exact absurd (hi.symm.trans hio) (by simp)
  | write _ hio => exact absurd (hi.symm.trans hio) (by simp)
  | sent _ hio => exact absurd (hi.symm.trans hio) (by simp)

omit [DecidableEq ι] in
lemma io_eq_none (h : Sim s P ma l st)
    (hread : ∀ c k code, (s.proc i).cur ≠ some (c, .op (.inl (.bread k)) code))
    (hwrite : ∀ c k code, (s.proc i).cur ≠ some (c, .op (.inl (.bwrite k)) code)) :
    (s.proc i).io = none := by
  have hp := h.proc i
  generalize P.proc i = p' at hp
  cases hp with
  | out hio => exact hio
  | read _ _ hcur => exact absurd hcur (hread _ _ _)
  | write _ _ hcur => exact absurd hcur (hwrite _ _ _)
  | sent _ _ hcur => exact absurd hcur (hwrite _ _ _)

/-! ## Steps outside transfers -/

/-- A process outside transfers moves on, and the store changes away from the busy buffers. -/
lemma replace (h : Sim s P ma l st) (hi : (s.proc i).io = none) {p : Process κ ρ}
    (hp : p.io = none) {m' ma' : Machine} {a' : Account} {fm' pfm : FsMem} (hplays : Plays a' ma')
    (hfm : pfm = fm') (hlag : Lag s.busy m' ma') (hu : Untouched s.busy s.m m')
    (hua : Untouched s.busy ma ma') :
    Sim { s.setProc i p with m := m', fm := fm' } { P.setProc i p with a := a', fm := pfm }
      ma' l st := by
  have hio : ∀ j, (Function.update s.proc i p j).io = (s.proc j).io := by
    intro j
    by_cases hj : j = i
    · rw [hj, Function.update_self, hp, hi]
    · rw [Function.update_of_ne hj]
  have hbusy : ({ s.setProc i p with m := m', fm := fm' } : Sys ι κ ρ).busy = s.busy := by
    simp only [Sys.busy, Sys.setProc, hio]
  refine ⟨hplays, hfm, by rwa [hbusy], fun j => ?_, ?_, h.chain, h.nodup, ?_⟩
  · by_cases hj : j = i
    · simp only [Sys.setProc, Pool.setProc, hj, Function.update_self]
      exact .out hp
    · simp only [Sys.setProc, Pool.setProc, Function.update_of_ne hj]
      refine (h.proc j).frame fun io hio => ?_
      have hb : io.buf ∈ s.busy := ⟨j, io, hio, rfl⟩
      exact ⟨hu.buf _ hb, hua.buf _ hb, fun k hk => (hu.lookup k).trans hk,
        by rw [hu.disk], Iff.rfl⟩
  · simp only [Sys.setProc, hio]
    exact h.own
  · simp only [Sys.Waits, Sys.setProc, hio]
    exact h.mem

lemma bio (h : Sim s P ma l st) (body : κ → K ρ) {c : κ} {e : BioOp} {code : e.Ret → K ρ}
    {r : e.Ret} {m' : Machine} (hi : (s.proc i).io = none)
    (hcur : (s.proc i).cur = some (c, .op (.inl e) code))
    (hcalm : ∀ j ≠ i, ∀ k ∈ e.blocks, (s.proc j).onBlock ≠ some k) (hsafe : P.Safe)
    (hread : ∀ k, e ≠ .bread k) (hwrite : ∀ k, e ≠ .bwrite k)
    (he : cacheHandler e s.m = .ok r m') :
    ∃ P' ma', P.Step body i P' [s.record i e m'] ∧
      Sim { s.setProc i { s.proc i with cur := some (c, code r) } with m := m' } P' ma' l st := by
  have hproc := h.proc_eq hi
  have hcur' : (P.proc i).cur = some (c, .op (.inl e) code) := by rw [hproc, hcur]
  have hD : ∀ k ∈ e.blocks, ∀ b, s.m.lookup k = some b → b ∉ s.busy := fun k hk b hb =>
    h.not_busy hi (fun j hj => hcalm j hj k hk) hb
  obtain ⟨ma', hma, hlag, hu, hua⟩ := h.lag.cacheHandler hD hread hwrite he
  obtain ⟨a', ha, hplays⟩ := h.plays.ok_of_cache (hsafe i c e code hcur').1 hma
  refine ⟨_, ma', ?_, h.replace hi (p := { s.proc i with cur := some (c, code r) }) hi hplays
    h.fm hlag hu hua⟩
  have hrecord : P.record i e a' = [s.record i e m'] := by
    have htarget : ∀ k, e.target = some k → k ∈ e.blocks := by
      cases e <;> simp [BioOp.target, BioOp.blocks]
    have hmem : ∀ k, e.target = some k → P.a.mem k = s.m.cached k ∧ a'.mem k = m'.cached k := by
      intro k hk
      obtain ⟨hheld, hheld'⟩ := held_of_target ha hk
      rw [← h.plays.cached hheld, ← hplays.cached hheld', h.lag.cached (hD k (htarget k hk)),
        hlag.cached fun b hb => hD k (htarget k hk) b ((hu.lookup k).symm.trans hb)]
      exact ⟨rfl, rfl⟩
    cases e with
    | bread k => exact absurd rfl (hread k)
    | bwrite k => exact absurd rfl (hwrite k)
    | data k => simp [Pool.record, Sys.record, BioOp.target, hproc, hmem k rfl]
    | store k f => simp [Pool.record, Sys.record, BioOp.target, hproc, hmem k rfl]
    | copy dst src => simp [Pool.record, Sys.record, BioOp.target, hproc, hmem dst rfl]
    | _ => simp [Pool.record, Sys.record, BioOp.target, hproc]
  have hstep : P.Step body i _ _ := .bio hcur' ha
  rw [hrecord, hproc] at hstep
  exact hstep

/-! ## Entering a transfer -/

lemma enter (h : Sim s P ma l st) (hi : (s.proc i).io = none) {p p' : Process κ ρ} {io : Io}
    (hp : p.io = some io) (hb : io.buf ∉ s.busy) (hw : ∀ b, io ≠ .wait b false) {m' ma' : Machine}
    {a' : Account} (hplays : Plays a' ma') (hlag : Lag (insert io.buf s.busy) m' ma')
    (hf : ∀ b ∈ s.busy, Framed s.m st ma m' st ma' b) (hsim : ProcSim m' st ma' p p') :
    Sim { s.setProc i p with m := m' } { P.setProc i p' with a := a' } ma' l st := by
  have hio : ∀ j io', (Function.update s.proc i p j).io = some io' →
      j = i ∧ io' = io ∨ j ≠ i ∧ (s.proc j).io = some io' := by
    intro j io' hj
    by_cases hji : j = i
    · rw [hji, Function.update_self, hp] at hj
      exact Or.inl ⟨hji, (Option.some.inj hj).symm⟩
    · rw [Function.update_of_ne hji] at hj
      exact Or.inr ⟨hji, hj⟩
  have hbusy : ({ s.setProc i p with m := m' } : Sys ι κ ρ).busy = insert io.buf s.busy := by
    ext b
    constructor
    · rintro ⟨j, io', hj, rfl⟩
      rcases hio j io' hj with ⟨-, rfl⟩ | ⟨-, hj⟩
      · exact Or.inl rfl
      · exact Or.inr ⟨j, io', hj, rfl⟩
    · rintro (rfl | ⟨j, io', hj, rfl⟩)
      · exact ⟨i, io, by simp [Sys.setProc, hp], rfl⟩
      · have hji : j ≠ i := by
          rintro rfl
          exact absurd (hi.symm.trans hj) (by simp)
        exact ⟨j, io', by simp [Sys.setProc, Function.update_of_ne hji, hj], rfl⟩
  refine ⟨hplays, h.fm, by rwa [hbusy], fun j => ?_, fun j j' io₁ io₂ h₁ h₂ he => ?_, h.chain,
    h.nodup, fun b => ?_⟩
  · by_cases hj : j = i
    · simp only [Sys.setProc, Pool.setProc, hj, Function.update_self]
      exact hsim
    · simp only [Sys.setProc, Pool.setProc, Function.update_of_ne hj]
      exact (h.proc j).frame fun io' hio' => hf _ ⟨j, io', hio', rfl⟩
  · rcases hio j io₁ h₁ with ⟨hj, rfl⟩ | ⟨-, h₁'⟩ <;>
      rcases hio j' io₂ h₂ with ⟨hj', rfl⟩ | ⟨-, h₂'⟩
    · rw [hj, hj']
    · exact absurd ⟨j', io₂, h₂', he.symm⟩ hb
    · exact absurd ⟨j, io₁, h₁', he⟩ hb
    · exact h.own j j' io₁ io₂ h₁' h₂' he
  · exact (h.mem b).trans (Sys.exists_waits_setProc (by simp [hi]) (by simpa [hp] using hw) b)

/-- **`bget`** is the step of `bread` in the pool. -/
lemma bget (h : Sim s P ma l st) (body : κ → K ρ) {c : κ} {k : BufRef} {code : Unit → K ρ}
    {b : Fin NBUF} {m' : Machine} (hi : (s.proc i).io = none)
    (hcur : (s.proc i).cur = some (c, .op (.inl (.bread k)) code))
    (hcalm : ∀ j ≠ i, (s.proc j).onBlock ≠ some k) (hsafe : P.Safe)
    (hg : bget k s.m = .ok b m') :
    ∃ P' ma', P.Transfer body P' ∧
      Sim { s.setProc i { s.proc i with io := some (.test b) } with m := m' } P' ma' l st := by
  have hproc := h.proc_eq hi
  have hcur' : (P.proc i).cur = some (c, .op (.inl (.bread k)) code) := by rw [hproc, hcur]
  obtain ⟨hns, hrange⟩ := hsafe i c (.bread k) code hcur'
  have hrange := hrange k rfl
  have hD : ∀ b, s.m.lookup k = some b → b ∉ s.busy := fun b hb => h.not_busy hi hcalm hb
  have hall : ∀ b, b ∈ s.m.lru := fun b => h.lag.lru ▸ h.plays.all b
  obtain ⟨ma₁, hga, hlag, hb, hl, hr, hdisk, hhd, hother, hlook, hmiss, hhit⟩ :=
    h.lag.bget hall hD (fun b => h.refcnt_of_busy) hg
  have hkey := Machine.key_of_lookup hl
  have hsame : ma₁.buf b = m'.buf b := hlag.same b hb
  -- a buffer whose contents were never read is clean
  have hclean : (m'.buf b).valid = false → (m'.buf b).dirty = false := by
    intro hv
    by_cases hk : s.m.lookup k = none
    · exact hmiss hk
    · obtain ⟨hk, hd, hv'⟩ := hhit hk
      have hka := (h.lag.lookup k).trans hk
      rw [hd, ← Bool.not_eq_true]
      intro hdirty
      rw [← h.lag.same b hb] at hdirty hv'
      obtain ⟨b', hb', hvb⟩ := h.plays.live k (Or.inr ((h.plays.dirty k b hka).mp hdirty))
      obtain rfl := Option.some.inj (hka.symm.trans hb')
      rw [← hv', hv] at hvb
      cases hvb
  obtain ⟨ma', hma, hfill, hoth, hlag'⟩ : ∃ ma', cacheHandler (.bread k) ma = .ok () ma' ∧
      ma'.buf b = m'.filled b ∧ (∀ c ≠ b, ma'.buf c = ma₁.buf c) ∧
      Lag (insert b s.busy) m' ma' := by
    cases hv : (m'.buf b).valid with
    | true =>
      refine ⟨ma₁, Plays.cacheHandler_bread_valid hga (by rw [hsame, hv]), ?_, fun _ _ => rfl, ?_⟩
      · rw [hsame, Machine.filled, if_pos hv]
      · exact hlag.mono (Set.subset_insert b s.busy)
    | false =>
      have hread := Plays.cacheHandler_bread_invalid hga (by rw [hsame, hv])
        (by rw [hsame, hclean hv]) (by rw [hsame, hkey])
      have hone : ¬ (k.dev ≠ 0 ∧ ma₁.havedisk1 = false) := by
        rintro ⟨h0, h1⟩
        rw [hlag.hd, hhd, ← h.lag.hd, h.plays.hd, hrange.2.1 h0] at h1
        cases h1
      rw [if_neg hone, if_neg (Nat.not_le.mpr hrange.2.2)] at hread
      refine ⟨_, hread, ?_, fun x hx => Machine.setBuf_buf_of_ne hx, ?_⟩
      · rw [Machine.setBuf_buf_self, hsame, Machine.filled, if_neg (by simp [hv]), hkey, hlag.disk]
      · refine (hlag.mono (Set.subset_insert b s.busy)).setBuf_right (Set.mem_insert b s.busy) ?_ ?_
        · exact hlag.key b
        · exact hlag.refcnt b
  obtain ⟨a', ha, hplays⟩ := h.plays.ok_of_cache hns hma
  have hstep : P.Step body i _ _ := .bio hcur' ha
  rw [hproc] at hstep
  refine ⟨_, ma', ⟨i, c, .bread k, code, k, hcur', Or.inl rfl, hstep⟩, ?_⟩
  refine h.enter hi (p := { s.proc i with io := some (.test b) }) rfl hb (by simp) hplays hlag' ?_
    ?_
  · intro x hx
    have hxb : x ≠ b := fun he => hb (he ▸ hx)
    refine ⟨(hother x hxb).1, ?_, fun k' hk' => hlook k' x hx hk', by rw [hdisk], Iff.rfl⟩
    rw [hoth x hxb, (hother x hxb).2]
  · have hp : ({ s.proc i with cur := some (c, code ()) } : Process κ ρ) =
        { ({ s.proc i with io := some (.test b) } : Process κ ρ) with
          cur := some (c, code ()), io := none } := by
      simp [hi]
    rw [hp]
    exact .read (.test b) rfl hcur hl hr hfill hclean (by simp [Io.buf])

/-- The first statement of **`bwrite`** is no step in the pool. -/
lemma bwrite (h : Sim s P ma l st) {c : κ} {k : BufRef} {code : Unit → K ρ}
    {b : Fin NBUF} {m' : Machine} (hi : (s.proc i).io = none)
    (hcur : (s.proc i).cur = some (c, .op (.inl (.bwrite k)) code))
    (hcalm : ∀ j ≠ i, (s.proc j).onBlock ≠ some k) (hsafe : P.Safe)
    (hg : holding k (fun b m => .ok b (m.setBuf b { m.buf b with dirty := true })) s.m =
      .ok b m') :
    Sim { s.setProc i { s.proc i with io := some (.call b) } with m := m' } P ma l st := by
  have hproc := h.proc_eq hi
  have hcur' : (P.proc i).cur = some (c, .op (.inl (.bwrite k)) code) := by rw [hproc, hcur]
  have hns := (hsafe i c (.bwrite k) code hcur').1
  have hD : ∀ b, s.m.lookup k = some b → b ∉ s.busy := fun b hb => h.not_busy hi hcalm hb
  obtain ⟨b', hl, hb, hbuf, hf, -⟩ := h.lag.holding hD hg
  obtain ⟨rfl, rfl⟩ := EStateM.Result.ok.inj hf
  -- who writes a buffer holds it, so its contents are valid
  have hheld : k ∈ P.a.held := by
    by_contra hno
    exact hns P.a (by simp [accountHandler, asHolder, hno])
  obtain ⟨x, hx, hv⟩ := h.plays.live k (Or.inl hheld)
  obtain rfl : b' = x := Option.some.inj (hl.symm.trans ((h.lag.lookup k).symm.trans hx))
  rw [hbuf] at hv
  have hrc : (s.m.buf b').refcnt ≠ 0 := by
    rw [← h.lag.refcnt, h.plays.refcnt k b' hx]
    exact Nat.ne_of_gt (List.count_pos_iff.mpr hheld)
  have hself : ∀ y : Buf, (s.m.setBuf b' y).buf b' = y := fun y => Machine.setBuf_buf_self _ _ _
  have hP : P = { P.setProc i { s.proc i with io := none } with a := P.a } := by
    have hp : ({ s.proc i with io := none } : Process κ ρ) = P.proc i := by rw [hproc, ← hi]
    simp [Pool.setProc, hp]
  rw [hP]
  refine h.enter hi (p := { s.proc i with io := some (.call b') }) rfl hb (by simp) h.plays ?_ ?_ ?_
  · exact (h.lag.mono (Set.subset_insert b' s.busy)).setBuf_left (Set.mem_insert b' s.busy) rfl rfl
  · intro x hx
    have hxb : x ≠ b' := fun he => hb (he ▸ hx)
    refine ⟨Machine.setBuf_buf_of_ne hxb, rfl, fun k' hk' => ?_, rfl, Iff.rfl⟩
    rwa [Machine.lookup_setBuf (by rfl)]
  · refine .write (.call b') (x := (s.m.buf b').dirty) rfl hcur ?_ ?_ ?_ ?_ ?_
      (Or.inl rfl)
    · simp only [Io.buf]
      rw [Machine.lookup_setBuf (by rfl), hl]
    · simp only [Io.buf, hself]
      exact hrc
    · simp only [Io.buf, hself]
      exact hv
    · simp only [Io.buf, hself]
      exact hbuf
    · simp only [Io.buf, hself]

/-! ## Inside a transfer -/

lemma move (h : Sim s P ma l st) {io io' : Io} (hio : (s.proc i).io = some io)
    {p : Process κ ρ} (hp : p.io = some io') (hb : io'.buf = io.buf)
    (hsim : ProcSim s.m st ma p (P.proc i)) {q' : IdeQueue} {l' : List (Fin NBUF)}
    (hchain : q'.Chain q'.idequeue l') (hnd : l'.Nodup)
    (hmem : ∀ b, b ∈ l' ↔ ∃ j, ({ s.setProc i p with queue := q' } : Sys ι κ ρ).Waits j b) :
    Sim { s.setProc i p with queue := q' } P ma l' st := by
  have hio' : ∀ j x, (Function.update s.proc i p j).io = some x →
      ∃ y, (s.proc j).io = some y ∧ y.buf = x.buf := by
    intro j x hj
    by_cases hji : j = i
    · rw [hji, Function.update_self, hp] at hj
      obtain rfl := Option.some.inj hj
      exact ⟨io, hji ▸ hio, hb.symm⟩
    · rw [Function.update_of_ne hji] at hj
      exact ⟨x, hj, rfl⟩
  have hbusy : ({ s.setProc i p with queue := q' } : Sys ι κ ρ).busy = s.busy := by
    ext b
    constructor
    · rintro ⟨j, x, hj, rfl⟩
      obtain ⟨y, hy, hyx⟩ := hio' j x hj
      exact ⟨j, y, hy, hyx⟩
    · rintro ⟨j, x, hj, rfl⟩
      by_cases hji : j = i
      · refine ⟨i, io', by simp [Sys.setProc, hp], ?_⟩
        rw [hji, hio] at hj
        rw [hb, Option.some.inj hj]
      · exact ⟨j, x, by simpa [Sys.setProc, Function.update_of_ne hji] using hj, rfl⟩
  refine ⟨h.plays, h.fm, by rw [hbusy]; exact h.lag, fun j => ?_, fun j j' x x' hx hx' he => ?_,
    hchain, hnd, hmem⟩
  · by_cases hj : j = i
    · simp only [Sys.setProc, hj, Function.update_self]
      exact hsim
    · simp only [Sys.setProc, Function.update_of_ne hj]
      exact h.proc j
  · obtain ⟨y, hy, hyx⟩ := hio' j x hx
    obtain ⟨y', hy', hyx'⟩ := hio' j' x' hx'
    exact h.own j j' y y' hy hy' (by rw [hyx, hyx', he])

lemma leave (h : Sim s P ma l st) {io : Io} (hio : (s.proc i).io = some io)
    (hw : ∀ b, io ≠ .wait b false) {p : Process κ ρ} (hp : p.io = none) (hP : P.proc i = p)
    (heq : ma.buf io.buf = s.m.buf io.buf) : Sim (s.setProc i p) P ma l st := by
  have hio' : ∀ j x, (Function.update s.proc i p j).io = some x → j ≠ i ∧
      (s.proc j).io = some x := by
    intro j x hj
    by_cases hji : j = i
    · rw [hji, Function.update_self, hp] at hj
      cases hj
    · rw [Function.update_of_ne hji] at hj
      exact ⟨hji, hj⟩
  have hbusy : (s.setProc i p).busy ⊆ s.busy := by
    rintro b ⟨j, x, hj, rfl⟩
    exact ⟨j, x, (hio' j x hj).2, rfl⟩
  refine ⟨h.plays, h.fm, ⟨h.lag.lru, h.lag.log, h.lag.hd, h.lag.disk, h.lag.key, h.lag.refcnt,
    fun b hb => ?_⟩, fun j => ?_, fun j j' x x' hx hx' => ?_, h.chain, h.nodup, fun b => ?_⟩
  · by_cases hbi : b = io.buf
    · rw [hbi]
      exact heq
    · refine h.lag.same b ?_
      rintro ⟨j, x, hj, rfl⟩
      have hji : j ≠ i := by
        rintro rfl
        rw [hio] at hj
        exact hbi (by rw [Option.some.inj hj])
      exact hb ⟨j, x, by simpa [Sys.setProc, Function.update_of_ne hji] using hj, rfl⟩
  · by_cases hj : j = i
    · simp only [Sys.setProc, hj, Function.update_self]
      rw [hP]
      exact .out hp
    · simp only [Sys.setProc, Function.update_of_ne hj]
      exact h.proc j
  · exact h.own j j' x x' (hio' j x hx).2 (hio' j' x' hx').2
  · exact (h.mem b).trans (Sys.exists_waits_setProc (by simpa [hio] using hw) (by simp [hp]) b)

omit [DecidableEq ι] in
lemma range_of_lookup (h : Sim s P ma l st) {io : Io} (hio : (s.proc i).io = some io) {k : BufRef}
    (hk : s.m.lookup k = some io.buf) : P.a.InRange k := by
  have hv : (ma.buf io.buf).valid = true := by
    have hp := h.proc i
    generalize P.proc i = p' at hp
    cases hp with
    | out hio' => exact absurd (hio'.symm.trans hio) (by simp)
    | read _ hio' _ _ _ hma =>
      obtain rfl := Option.some.inj (hio.symm.trans hio')
      rw [hma, Machine.filled]
      split_ifs with hv
      · exact hv
      · rfl
    | write _ hio' _ _ _ hv hma =>
      obtain rfl := Option.some.inj (hio.symm.trans hio')
      rw [hma]
      exact hv
    | sent _ hio' _ _ _ hv hma =>
      obtain rfl := Option.some.inj (hio.symm.trans hio')
      rw [hma]
      exact hv
  exact h.plays.range k io.buf ((h.lag.lookup k).trans hk) hv

/-- **`idestart`** for the first request of the queue: if it is a write, the writer takes its step
in the pool. -/
lemma start (h : Sim s P ma l none) (body : κ → K ρ) (hsafe : P.Safe) {c : Fin NBUF} {m' : Machine}
    (hc : c ∈ l) (hs : idestart c s.m = .ok m') :
    ∃ P' ma', (P' = P ∨ P.Transfer body P') ∧ Sim { s with m := m' } P' ma' l (some c) := by
  obtain ⟨i, hi⟩ := (h.mem c).mp hc
  have hne : ∀ j ≠ i, ∀ io, (s.proc j).io = some io → io.buf ≠ c := by
    intro j hj io hio he
    exact hj (h.own j i io _ hio hi (by rw [he, Io.buf]))
  have hstarted : ∀ j ≠ i, ∀ io, (s.proc j).io = some io →
      (some c = some io.buf ↔ none = some io.buf) := by
    intro j hj io hio
    simpa using fun he : c = io.buf => hne j hj io hio he.symm
  have hproc := h.proc i
  generalize hp' : P.proc i = p' at hproc
  cases hproc with
  | out hio => exact absurd (hio.symm.trans hi) (by simp)
  | sent io hio _ _ _ _ _ hd hs' =>
    obtain rfl := Option.some.inj (hi.symm.trans hio)
    obtain rfl : false = _ := by simpa [Io.buf] using hs'
    exact absurd (hd rfl).2 (by simp)
  | @read io c₀ k code hio hcur hk hr hma hd hv =>
    obtain rfl := Option.some.inj (hi.symm.trans hio)
    -- a read request changes nothing yet
    have hm' : m' = s.m := by
      have hclean : (s.m.buf c).dirty = false := hd (hv (Or.inr rfl))
      unfold idestart at hs
      simp only [hclean, Bool.false_eq_true, if_false] at hs
      split_ifs at hs
      exact (Except.ok.inj hs).symm
    refine ⟨P, ma, Or.inl rfl, ?_⟩
    rw [hm']
    refine ⟨h.plays, h.fm, h.lag, fun j => ?_, h.own, h.chain, h.nodup, h.mem⟩
    by_cases hj : j = i
    · rw [hj, hp']
      exact .read (.wait c false) hio hcur hk hr hma hd hv
    · exact (h.proc j).frame fun io hio => ⟨rfl, rfl, fun _ hk => hk, rfl, hstarted j hj io hio⟩
  | @write io c₀ k code x hio hcur hk hr hv hma hd hs' =>
    obtain rfl := Option.some.inj (hi.symm.trans hio)
    simp only [Io.buf] at hk hr hv hma hd
    have hcur' : (P.proc i).cur = some (c₀, .op (.inl (.bwrite k)) code) := by rw [hp', hcur]
    obtain ⟨rfl, a', ma', ha, hplays, hlag, hself, hother⟩ :=
      h.lag.flush h.plays hk ⟨i, _, hi, rfl⟩ hv hd hma (hsafe i c₀ (.bwrite k) code hcur').1 hs
    refine ⟨_, ma', Or.inr ⟨i, c₀, .bwrite k, code, k, hcur', Or.inr rfl, .bio hcur' ha⟩, ?_⟩
    refine ⟨hplays, h.fm, hlag, fun j => ?_, h.own, h.chain, h.nodup, h.mem⟩
    by_cases hj : j = i
    · simp only [Pool.setProc, hj, Function.update_self, hp']
      exact .sent (.wait c false) hi hcur hk hr hv hself (fun _ => ⟨hd, rfl⟩) rfl
    · simp only [Pool.setProc, Function.update_of_ne hj]
      refine (h.proc j).frame fun io hio => ⟨rfl, hother _ (hne j hj io hio), fun _ hk => hk, ?_,
        hstarted j hj io hio⟩
      obtain ⟨k', -, hk'⟩ := (h.proc j).onBlock hio
      have hkk : k' ≠ k := by
        rintro rfl
        exact hne j hj io hio (Option.some.inj (hk'.symm.trans hk))
      rw [Machine.key_of_lookup hk', Plays.drive_of_lt (h.range_of_lookup hio hk').1]
      exact Function.update_of_ne hkk _ _

/-! ## The interrupt -/

lemma serve_eq (h : Sim s P ma l st) {b : Fin NBUF} (hi : s.Waits i b) :
    (fun j => (s.proc j).serve b) =
      Function.update s.proc i { s.proc i with io := some (.wait b true) } := by
  funext j
  by_cases hj : j = i
  · rw [hj, Function.update_self]
    simp [Process.serve, show (s.proc i).io = some (.wait b false) from hi]
  · rw [Function.update_of_ne hj, Process.serve]
    split
    · rename_i c served hio
      have hcb : c ≠ b := fun he => hj (h.own j i _ _ hio hi (by rw [he]; rfl))
      rw [if_neg hcb]
    · rfl

omit [DecidableEq ι] in
lemma proc_pop (h : Sim s P ma l s.queue.idequeue) {b : Fin NBUF}
    (hb : s.queue.idequeue = some b) (hi : s.Waits i b) :
    ProcSim (s.m.setBuf b (ideDone false s.m (s.m.buf b))) none ma
      { s.proc i with io := some (.wait b true) } (P.proc i) := by
  have hself := Machine.setBuf_buf_self s.m b (ideDone false s.m (s.m.buf b))
  have hlook : ∀ k, (s.m.setBuf b (ideDone false s.m (s.m.buf b))).lookup k = s.m.lookup k :=
    Machine.lookup_setBuf rfl
  have hproc := h.proc i
  generalize P.proc i = p' at hproc
  cases hproc with
  | out hio => exact absurd (hio.symm.trans hi) (by simp)
  | read io hio hcur hk hr hma hd hv =>
    obtain rfl := Option.some.inj (hi.symm.trans hio)
    have hinv : (s.m.buf b).valid = false := hv (Or.inr rfl)
    simp only [Io.buf] at hk hr hma hd
    refine .read (.wait b true) rfl hcur ((hlook _).trans hk) ?_ ?_ ?_ ?_
    · simp only [Io.buf, hself]
      exact hr
    · simp only [Io.buf, Machine.filled, hma, hinv, hd hinv, ideDone]
      simp
    · simp [Io.buf, ideDone]
    · simp [Io.buf]
  | write io hio _ _ _ _ _ _ hs =>
    obtain rfl := Option.some.inj (hi.symm.trans hio)
    simp [Io.buf, hb] at hs
  | sent io hio hcur hk hr hv hma hd hs =>
    obtain rfl := Option.some.inj (hi.symm.trans hio)
    simp only [Io.buf] at hk hr hv hma hd hs
    obtain rfl : false = _ := by simpa using hs
    refine .sent (.wait b true) rfl hcur ((hlook _).trans hk) ?_ ?_ ?_ ?_ rfl
    · simp only [Io.buf, hself]
      exact hr
    · simp [Io.buf, ideDone]
    · simp only [Io.buf, hma, ideDone, hv, (hd rfl).1]
      simp
    · simp

/-- **`ideintr`** takes the first request off the queue. -/
lemma pop (h : Sim s P ma l s.queue.idequeue) {b : Fin NBUF} (hb : s.queue.idequeue = some b) :
    ∃ l', l = b :: l' ∧
      Sim { s with
        m := s.m.setBuf b (ideDone false s.m (s.m.buf b))
        queue := { s.queue with idequeue := s.queue.qnext b }
        proc := fun i => (s.proc i).serve b } P ma l' none := by
  cases l with
  | nil => exact absurd (hb.symm.trans h.chain) (by simp)
  | cons b' l =>
    obtain ⟨hb', hrest⟩ := h.chain
    obtain rfl : b = b' := Option.some.inj (hb.symm.trans hb')
    obtain ⟨hbl, hnd⟩ := List.nodup_cons.mp h.nodup
    -- exactly one process waits for the first request, and it is the one that is served
    obtain ⟨i, hi⟩ := (h.mem b).mp List.mem_cons_self
    have hne : ∀ j ≠ i, ∀ io, (s.proc j).io = some io → io.buf ≠ b := by
      intro j hj io hio he
      exact hj (h.own j i io _ hio hi (by rw [he]; rfl))
    have hio' : ∀ j io, (Function.update s.proc i
        { s.proc i with io := some (.wait b true) } j).io = some io →
        j = i ∧ io = .wait b true ∨ j ≠ i ∧ (s.proc j).io = some io := by
      intro j io hj
      by_cases hji : j = i
      · rw [hji, Function.update_self] at hj
        exact Or.inl ⟨hji, (Option.some.inj hj).symm⟩
      · rw [Function.update_of_ne hji] at hj
        exact Or.inr ⟨hji, hj⟩
    refine ⟨l, rfl, ?_⟩
    rw [h.serve_eq hi]
    have hbusy : ({ s with
        m := s.m.setBuf b (ideDone false s.m (s.m.buf b))
        queue := { s.queue with idequeue := s.queue.qnext b }
        proc := Function.update s.proc i { s.proc i with io := some (.wait b true) } } :
          Sys ι κ ρ).busy = s.busy := by
      ext x
      constructor
      · rintro ⟨j, io, hj, rfl⟩
        rcases hio' j io hj with ⟨rfl, rfl⟩ | ⟨-, hj⟩
        · exact ⟨j, _, hi, rfl⟩
        · exact ⟨j, io, hj, rfl⟩
      · rintro ⟨j, io, hj, rfl⟩
        by_cases hji : j = i
        · rw [hji] at hj
          obtain rfl := Option.some.inj (hi.symm.trans hj)
          exact ⟨i, .wait b true, by simp, rfl⟩
        · exact ⟨j, io, by simpa [Function.update_of_ne hji] using hj, rfl⟩
    refine ⟨h.plays, h.fm, ?_, fun j => ?_, fun j j' io io' hj hj' he => ?_, ?_, hnd, fun x => ?_⟩
    · rw [hbusy]
      exact h.lag.setBuf_left ⟨i, _, hi, rfl⟩ rfl rfl
    · by_cases hj : j = i
      · rw [hj]
        simp only [Function.update_self]
        exact h.proc_pop hb hi
      · simp only [Function.update_of_ne hj]
        refine (h.proc j).frame fun io hio => ⟨Machine.setBuf_buf_of_ne (hne j hj io hio), rfl,
          fun k hk => ?_, rfl, ?_⟩
        · rwa [Machine.lookup_setBuf (by rfl)]
        · rw [hb]
          simpa using fun he : b = io.buf => hne j hj io hio he.symm
    · rcases hio' j io hj with ⟨hji, rfl⟩ | ⟨hji, hj⟩ <;>
        rcases hio' j' io' hj' with ⟨hji', rfl⟩ | ⟨hji', hj'⟩
      · rw [hji, hji']
      · exact absurd he.symm (hne j' hji' io' hj')
      · exact absurd he (hne j hji io hj)
      · exact h.own j j' io io' hj hj' he
    · exact hrest.congr fun _ _ => rfl
    · constructor
      · intro hx
        obtain ⟨j, hj⟩ := (h.mem x).mp (List.mem_cons_of_mem b hx)
        have hji : j ≠ i := by
          rintro rfl
          have hxb : x = b := by simpa [Sys.Waits, show (s.proc j).io = _ from hi] using hj.symm
          exact hbl (hxb ▸ hx)
        exact ⟨j, by simpa [Sys.Waits, Function.update_of_ne hji] using hj⟩
      · rintro ⟨j, hj⟩
        rcases hio' j _ hj with ⟨-, he⟩ | ⟨hji, hj⟩
        · simp at he
        · exact (List.mem_cons.mp ((h.mem x).mpr ⟨j, hj⟩)).resolve_left (hne j hji _ hj)

/-! ## All steps -/

omit [DecidableEq ι] in
lemma halt (h : Sim s P ma l st) (x : Halt) : Sim (s.halt x) P ma l st :=
  ⟨h.plays, h.fm, h.lag, h.proc, h.own, h.chain, h.nodup, h.mem⟩

/-- **`iderw`** puts the buffer on the queue, and starts the drive if it is idle. -/
lemma iderw (h : Sim s P ma l s.queue.idequeue) (body : κ → K ρ) (hsafe : P.Safe)
    {b : Fin NBUF} (hio : (s.proc i).io = some (.call b)) {m' : Machine} {q' : IdeQueue}
    (hs : iderwSection b s.m s.queue = .ok (m', q')) :
    ∃ P' ma' l', (P' = P ∨ P.Transfer body P') ∧
      Sim { s.setProc i { s.proc i with io := some (.wait b false) } with m := m', queue := q' }
        P' ma' l' q'.idequeue := by
  -- whoever waits for `b` is at `b`, and no other process is
  have hb : b ∉ l := by
    intro hb
    obtain ⟨j, hj⟩ := (h.mem b).mp hb
    obtain rfl := h.own j i _ _ hj hio rfl
    exact absurd (hio.symm.trans hj) (by simp)
  obtain ⟨q, hq, hchain⟩ := IdeQueue.append_spec h.chain h.nodup hb
  obtain ⟨happ, hstart⟩ := iderwSection_ok hs
  obtain rfl : q = q' := Option.some.inj (hq.symm.trans happ)
  have hst : s.queue.idequeue ≠ some b := by
    intro he
    cases l with
    | nil => exact absurd (he.symm.trans h.chain) (by simp)
    | cons c l =>
      obtain rfl : b = c := Option.some.inj (he.symm.trans h.chain.1)
      exact hb List.mem_cons_self
  have hproc : ProcSim s.m s.queue.idequeue ma
      { s.proc i with io := some (.wait b false) } (P.proc i) := by
    have hp := h.proc i
    generalize P.proc i = p' at hp
    cases hp with
    | out hio' => exact absurd (hio'.symm.trans hio) (by simp)
    | read _ hio' hcur hk hr hma hd hv =>
      obtain rfl := Option.some.inj (hio.symm.trans hio')
      exact .read (.wait b false) rfl hcur hk hr hma hd fun _ => hv (Or.inl rfl)
    | write _ hio' hcur hk hr hv hma hd hs =>
      obtain rfl := Option.some.inj (hio.symm.trans hio')
      exact .write (.wait b false) rfl hcur hk hr hv hma hd (Or.inr ⟨rfl, hst⟩)
    | sent _ hio' _ _ _ _ _ _ hs =>
      obtain rfl := Option.some.inj (hio.symm.trans hio')
      cases hs
  have hmem : ∀ x, x ∈ l ++ [b] ↔ ∃ j, ({ s.setProc i { s.proc i with
      io := some (.wait b false) } with queue := q } : Sys ι κ ρ).Waits j x := by
    intro x
    rw [List.mem_append, List.mem_singleton, h.mem]
    constructor
    · rintro (⟨j, hj⟩ | rfl)
      · have hji : j ≠ i := by
          rintro rfl
          exact absurd (hio.symm.trans hj) (by simp)
        exact ⟨j, by simpa [Sys.Waits, Sys.setProc, Function.update_of_ne hji] using hj⟩
      · exact ⟨i, by simp [Sys.Waits, Sys.setProc]⟩
    · rintro ⟨j, hj⟩
      by_cases hji : j = i
      · rw [hji] at hj
        exact Or.inr (by simpa [Sys.Waits, Sys.setProc] using hj.symm)
      · exact Or.inl ⟨j, by simpa [Sys.Waits, Sys.setProc, Function.update_of_ne hji] using hj⟩
  have hnd : (l ++ [b]).Nodup :=
    List.nodup_append_comm.mp (List.nodup_cons.mpr ⟨hb, h.nodup⟩)
  have hsim := h.move hio rfl (p := { s.proc i with io := some (.wait b false) }) rfl hproc hchain
    hnd hmem
  cases l with
  -- an empty queue: the request is the first one and `idestart` sends it off
  | nil =>
    have hnone : s.queue.idequeue = none := h.chain
    have hhead : q.idequeue = some b := hchain.1
    rw [hnone] at hsim
    obtain ⟨-, hstart⟩ := hstart.resolve_right fun hne => hne.1 hhead
    obtain ⟨P', ma', hP, hsim⟩ := hsim.start body hsafe (List.mem_singleton_self b) hstart
    rw [hhead]
    exact ⟨P', ma', _, hP, hsim⟩
  -- the drive is busy with the first request, and this one waits
  | cons c l =>
    have hhead : q.idequeue = s.queue.idequeue := hchain.1.trans h.chain.1.symm
    obtain ⟨-, rfl⟩ := hstart.resolve_left fun he => hst (hhead ▸ he.1)
    rw [hhead]
    exact ⟨P, ma, _, Or.inl rfl, hsim⟩

/-- **`ideintr`** serves the first request, and starts the next one. -/
lemma ideintr (h : Sim s P ma l s.queue.idequeue) (body : κ → K ρ) (hsafe : P.Safe)
    {b : Fin NBUF} (hb : s.queue.idequeue = some b) {m' : Machine} {q' : IdeQueue}
    (hs : ideintr false s.m s.queue = .ok (m', q')) :
    ∃ P' ma' l', (P' = P ∨ P.Transfer body P') ∧
      Sim { s with m := m', queue := q', proc := fun i => (s.proc i).serve b } P' ma' l'
        q'.idequeue := by
  obtain ⟨l', -, hsim⟩ := h.pop hb
  obtain rfl := ideintr_queue hb hs
  simp only [Xv6.ideintr, hb] at hs
  cases hn : s.queue.qnext b with
  | none =>
    simp only [hn] at hs hsim ⊢
    obtain ⟨rfl, -⟩ := Prod.mk.inj (Except.ok.inj hs)
    exact ⟨P, ma, l', Or.inl rfl, hsim⟩
  | some c =>
    simp only [hn] at hs hsim ⊢
    have hc : c ∈ l' := by
      have hchain := hsim.chain
      cases l' with
      | nil => exact absurd hchain (by simp [IdeQueue.Chain])
      | cons d l' =>
        obtain rfl : c = d := Option.some.inj hchain.1
        exact List.mem_cons_self
    cases hi : idestart c (s.m.setBuf b (ideDone false s.m (s.m.buf b))) with
    | error x => simp [hi, Except.map] at hs
    | ok m₁ =>
      simp only [hi, Except.map] at hs
      obtain ⟨rfl, -⟩ := Prod.mk.inj (Except.ok.inj hs)
      obtain ⟨P', ma', hP, hsim'⟩ := hsim.start body hsafe hc hi
      exact ⟨P', ma', l', hP, hsim'⟩

lemma ioStep_bread (h : Sim s P ma l s.queue.idequeue) (body : κ → K ρ) (hsafe : P.Safe) {io : Io}
    (hio : (s.proc i).io = some io) {c : κ} {k : BufRef} {code : Unit → K ρ}
    (hcur : (s.proc i).cur = some (c, .op (.inl (.bread k)) code)) :
    ∃ P', (P' = P ∨ P.Transfer body P') ∧ Simulates P' (s.ioStep i c (code ()) io) := by
  obtain ⟨hP, hk, hr, hma, hd, hv⟩ :
      P.proc i = { s.proc i with cur := some (c, code ()), io := none } ∧
      s.m.lookup k = some io.buf ∧ (s.m.buf io.buf).refcnt ≠ 0 ∧
      ma.buf io.buf = s.m.filled io.buf ∧
      ((s.m.buf io.buf).valid = false → (s.m.buf io.buf).dirty = false) ∧
      (io = .call io.buf ∨ io = .wait io.buf false → (s.m.buf io.buf).valid = false) := by
    have hp := h.proc i
    generalize P.proc i = p' at hp
    cases hp with
    | out hio' => exact absurd (hio'.symm.trans hio) (by simp)
    | read _ hio' hcur' hk hr hma hd hv =>
      obtain rfl := Option.some.inj (hio.symm.trans hio')
      cases hcur.symm.trans hcur'
      exact ⟨rfl, hk, hr, hma, hd, hv⟩
    | write _ _ hcur' => cases hcur.symm.trans hcur'
    | sent _ _ hcur' => cases hcur.symm.trans hcur'
  -- the pool has read the block already, and its buffer is what the real one has become
  have hdone : (s.m.buf io.buf).valid = true → (∀ b, io ≠ .wait b false) →
      Simulates P (s.ioDone i c (code ())) := by
    intro hval hw
    refine ⟨ma, l, h.leave hio hw rfl hP ?_⟩
    rw [hma, Machine.filled, if_pos hval]
  cases io with
  | test b =>
    simp only [Sys.ioStep]
    split_ifs with hval
    · exact ⟨P, Or.inl rfl, hdone hval (by simp)⟩
    · have hproc : ProcSim s.m s.queue.idequeue ma { s.proc i with io := some (.call b) }
          (P.proc i) := by
        rw [hP]
        exact .read (.call b) rfl hcur hk hr hma hd fun _ => by simpa [Io.buf] using hval
      refine ⟨P, Or.inl rfl, ma, l, h.move hio (p := { s.proc i with io := some (.call b) }) rfl rfl
        hproc h.chain h.nodup fun x => (h.mem x).trans ?_⟩
      exact Sys.exists_waits_setProc (by simp [hio]) (by simp) x
  | call b =>
    simp only [Sys.ioStep]
    cases hs : iderwSection b s.m s.queue with
    | error x => exact ⟨P, Or.inl rfl, ma, l, h.halt x⟩
    | ok mq =>
      obtain ⟨P', ma', l', hP', hsim⟩ := h.iderw body hsafe hio hs
      exact ⟨P', hP', ma', l', hsim⟩
  | wait b served =>
    simp only [Sys.ioStep]
    split_ifs with hval
    -- the buffer is valid only when the request has been served
    · have hserved : served ≠ false := by
        rintro rfl
        rw [show (s.m.buf b).valid = false from hv (Or.inr rfl)] at hval
        simp at hval
      exact ⟨P, Or.inl rfl, hdone hval.1 (by simpa using hserved)⟩
    · exact ⟨P, Or.inl rfl, ma, l, h⟩

lemma ioStep_bwrite (h : Sim s P ma l s.queue.idequeue) (body : κ → K ρ) (hsafe : P.Safe) {io : Io}
    (hio : (s.proc i).io = some io) {c : κ} {k : BufRef} {code : Unit → K ρ}
    (hcur : (s.proc i).cur = some (c, .op (.inl (.bwrite k)) code)) :
    ∃ P', (P' = P ∨ P.Transfer body P') ∧ Simulates P' (s.ioStep i c (code ()) io) := by
  -- a write that the drive has finished is one that the pool is past
  have hwait : ∀ b, io ≠ .test b ∧ ((s.m.buf io.buf).dirty = false →
      (∀ b, io ≠ .wait b false) ∧
      P.proc i = { s.proc i with cur := some (c, code ()), io := none } ∧
      ma.buf io.buf = s.m.buf io.buf) := by
    intro b
    have hp := h.proc i
    generalize P.proc i = p' at hp
    cases hp with
    | out hio' => exact absurd (hio'.symm.trans hio) (by simp)
    | read _ _ hcur' => cases hcur.symm.trans hcur'
    | write _ hio' _ _ _ _ _ hd hs =>
      obtain rfl := Option.some.inj (hio.symm.trans hio')
      refine ⟨?_, fun hclean => absurd hd (by simp [hclean])⟩
      rintro rfl
      simp at hs
    | sent _ hio' hcur' _ _ _ hma hd hs =>
      obtain rfl := Option.some.inj (hio.symm.trans hio')
      cases hcur.symm.trans hcur'
      refine ⟨?_, fun hclean => ⟨?_, rfl, ?_⟩⟩
      · rintro rfl
        cases hs
      · rintro b rfl
        obtain rfl : false = _ := by simpa [Io.buf] using hs
        rw [(hd rfl).1] at hclean
        cases hclean
      · rw [hma, ← hclean]
  cases io with
  | test b => exact absurd rfl (hwait b).1
  | call b =>
    simp only [Sys.ioStep]
    cases hs : iderwSection b s.m s.queue with
    | error x => exact ⟨P, Or.inl rfl, ma, l, h.halt x⟩
    | ok mq =>
      obtain ⟨P', ma', l', hP', hsim⟩ := h.iderw body hsafe hio hs
      exact ⟨P', hP', ma', l', hsim⟩
  | wait b served =>
    simp only [Sys.ioStep]
    split_ifs with hval
    · obtain ⟨hw, hP, heq⟩ := (hwait b).2 hval.2
      exact ⟨P, Or.inl rfl, ma, l, h.leave hio hw rfl hP heq⟩
    · exact ⟨P, Or.inl rfl, ma, l, h⟩

end Sim

/-- The step of the pool that a step of the system is: none or a whole block transfer, or the same
step of the same process. -/
def Follows (body : κ → K ρ) (s : Sys ι κ ρ) (lab : Label ι) (P P' : Pool ι κ ρ)
    (ev : List (Event ι κ ρ)) : Prop :=
  ev = [] ∧ (P' = P ∨ P.Transfer body P') ∨
  ∃ i, (lab = .call i ∨ lab = .go i ∨ lab = .ret i) ∧ P.proc i = s.proc i ∧ P.Step body i P' ev

namespace Simulates

variable {s s' : Sys ι κ ρ} {P : Pool ι κ ρ} {i : ι}

lemma goStep (h : Simulates P s) (body : κ → K ρ) (hsafe : P.Safe) (hcalm : Calm s (.go i))
    {c : κ} {e : BioOp ⊕ MemOp} {code : Sum.elim BioOp.Ret MemOp.Ret e → K ρ}
    (hcur : (s.proc i).cur = some (c, .op e code)) :
    ∃ P', Simulates P' (s.goStep i c e code).1 ∧
      Follows body s (.go i) P P' (s.goStep i c e code).2 := by
  obtain ⟨ma, l, h⟩ := h
  have hcalm' : ∀ {e : BioOp} {code : e.Ret → K ρ},
      (s.proc i).cur = some (c, .op (.inl e) code) →
      ∀ j ≠ i, ∀ k ∈ e.blocks, (s.proc j).onBlock ≠ some k := fun hcur => hcalm.1 i c _ _ rfl hcur
  have hhalt : ∀ x, ∃ P', Simulates P' (s.halt x) ∧ Follows body s (.go i) P P' [] := fun x =>
    ⟨P, ⟨ma, l, h.halt x⟩, Or.inl ⟨rfl, Or.inl rfl⟩⟩
  -- the four kinds of steps: `bread`, `bwrite`, any other buffer step, a step on the memory
  unfold Sys.goStep
  split
  · rename_i k code
    split
    · rename_i io hio
      obtain ⟨P', hP', hsim⟩ := h.ioStep_bread body hsafe hio hcur
      exact ⟨P', hsim, Or.inl ⟨rfl, hP'⟩⟩
    · rename_i hio
      split
      · exact hhalt _
      · rename_i b m' hg
        obtain ⟨P', ma', hP', hsim⟩ := h.bget body hio hcur
          (fun j hj => hcalm' hcur j hj k List.mem_cons_self) hsafe hg
        exact ⟨P', ⟨ma', l, hsim⟩, Or.inl ⟨rfl, Or.inr hP'⟩⟩
  · rename_i k code
    split
    · rename_i io hio
      obtain ⟨P', hP', hsim⟩ := h.ioStep_bwrite body hsafe hio hcur
      exact ⟨P', hsim, Or.inl ⟨rfl, hP'⟩⟩
    · rename_i hio
      split
      · exact hhalt _
      · rename_i b m' hg
        exact ⟨P, ⟨ma, l, h.bwrite hio hcur
          (fun j hj => hcalm' hcur j hj k List.mem_cons_self) hsafe hg⟩, Or.inl ⟨rfl, Or.inl rfl⟩⟩
  · rename_i e code hread hwrite
    split
    · exact hhalt _
    · rename_i r m' he
      have hread' : ∀ k, e ≠ .bread k := fun k hk => by
        subst hk
        exact hread k code HEq.rfl rfl
      have hwrite' : ∀ k, e ≠ .bwrite k := fun k hk => by
        subst hk
        exact hwrite k code HEq.rfl rfl
      -- only `bread` and `bwrite` have an inside
      have hio : (s.proc i).io = none := by
        refine h.io_eq_none (fun c' k code' hcur' => ?_) fun c' k code' hcur' => ?_
        · cases hcur.symm.trans hcur'
          exact hread' k rfl
        · cases hcur.symm.trans hcur'
          exact hwrite' k rfl
      obtain ⟨P', ma', hP', hsim⟩ := h.bio body hio hcur (hcalm' hcur) hsafe hread' hwrite' he
      exact ⟨P', ⟨ma', l, hsim⟩, Or.inr ⟨i, Or.inr (Or.inl rfl), h.proc_eq hio, hP'⟩⟩
  · rename_i e code
    split
    · exact hhalt _
    · rename_i r fm' he
      have hio : (s.proc i).io = none := by
        refine h.io_eq_none (fun c' k code' hcur' => ?_) fun c' k code' hcur' => ?_
        · cases hcur.symm.trans hcur'
        · cases hcur.symm.trans hcur'
      have hproc := h.proc_eq hio
      have hstep : P.Step body i _ [] := .mem (hproc ▸ hcur) (by rw [h.fm]; exact he)
      rw [hproc] at hstep
      refine ⟨_, ⟨ma, l, ?_⟩, Or.inr ⟨i, Or.inr (Or.inl rfl), hproc, hstep⟩⟩
      exact h.replace hio (p := { s.proc i with cur := some (c, code r) }) hio h.plays rfl h.lag
        (.refl s.m) (.refl ma)

/-- **The pool simulates the system**: in a calm step from a state in which the pool is safe, the
pool stays, or some process takes a whole block transfer, or the same process takes the same
step. -/
theorem step {body : κ → K ρ} {lab : Label ι} {ev : List (Event ι κ ρ)} (h : Simulates P s)
    (hsafe : P.Safe) (hcalm : Calm s lab) (hstep : s.step body lab = some (s', ev)) :
    ∃ P', Simulates P' s' ∧ Follows body s lab P P' ev := by
  unfold Sys.step at hstep
  split_ifs at hstep
  cases lab with
  | call i =>
    obtain ⟨ma, l, h⟩ := h
    simp only at hstep
    split at hstep
    · rename_i c todo hcur htodo
      obtain ⟨rfl, rfl⟩ := Prod.mk.inj (Option.some.inj hstep)
      have hio := h.io_eq_none (i := i) (by simp [hcur]) (by simp [hcur])
      have hproc := h.proc_eq hio
      have hP : P.Step body i _ _ := .call (hproc ▸ hcur) (hproc ▸ htodo)
      rw [hproc] at hP
      refine ⟨_, ⟨ma, l, ?_⟩, Or.inr ⟨i, Or.inl rfl, hproc, hP⟩⟩
      exact h.replace hio (p := ⟨todo, (s.proc i).calls + 1, some (c, body c), none⟩) rfl h.plays
        h.fm h.lag (.refl s.m) (.refl ma)
    · cases hstep
  | go i =>
    simp only at hstep
    split at hstep
    · rename_i c e code hcur
      obtain ⟨P', hsim, hfollow⟩ := h.goStep body hsafe hcalm hcur
      rw [Option.some.inj hstep] at hsim hfollow
      exact ⟨P', hsim, hfollow⟩
    · cases hstep
  | ret i =>
    obtain ⟨ma, l, h⟩ := h
    simp only at hstep
    split at hstep
    · rename_i c v hcur
      obtain ⟨rfl, rfl⟩ := Prod.mk.inj (Option.some.inj hstep)
      have hio := h.io_eq_none (i := i) (by simp [hcur]) (by simp [hcur])
      have hproc := h.proc_eq hio
      have hP : P.Step body i _ _ := .ret (hproc ▸ hcur)
      rw [hproc] at hP
      refine ⟨_, ⟨ma, l, ?_⟩, Or.inr ⟨i, Or.inr (Or.inr rfl), hproc, hP⟩⟩
      exact h.replace hio (p := { s.proc i with cur := none }) hio h.plays h.fm h.lag
        (.refl s.m) (.refl ma)
    · cases hstep
  | intr err =>
    obtain ⟨ma, l, h⟩ := h
    obtain rfl : err = false := by simpa using hcalm.2
    simp only at hstep
    split at hstep
    · obtain ⟨rfl, rfl⟩ := Prod.mk.inj (Option.some.inj hstep)
      exact ⟨P, ⟨ma, l, h⟩, Or.inl ⟨rfl, Or.inl rfl⟩⟩
    · obtain ⟨rfl, rfl⟩ := Prod.mk.inj (Option.some.inj hstep)
      exact ⟨P, ⟨ma, l, h.halt _⟩, Or.inl ⟨rfl, Or.inl rfl⟩⟩
    · rename_i b m' q' hb hs
      obtain ⟨rfl, rfl⟩ := Prod.mk.inj (Option.some.inj hstep)
      obtain ⟨P', ma', l', hP', hsim⟩ := h.ideintr body hsafe hb hs
      exact ⟨P', ⟨ma', l', hsim⟩, Or.inl ⟨rfl, hP'⟩⟩

/-! ## Runs -/

omit [DecidableEq ι] in
lemma boot {a : Account} {m : Machine} (h : Plays a m) (fm : FsMem) (todo : ι → List κ) :
    Simulates (Pool.boot a fm todo : Pool ι κ ρ) (Sys.boot m fm todo) := by
  have hio : ∀ i io, ((Sys.boot m fm todo : Sys ι κ ρ).proc i).io ≠ some io :=
    fun i io hio => nomatch hio
  refine ⟨m, [], ⟨h, rfl, ⟨rfl, rfl, rfl, rfl, fun _ => rfl, fun _ => rfl, fun _ _ => rfl⟩,
    fun i => .out rfl, fun i j io io' h => absurd h (hio i io), rfl, List.nodup_nil, fun b => ?_⟩⟩
  constructor
  · intro hb
    exact absurd hb List.not_mem_nil
  · rintro ⟨i, hi⟩
    exact absurd hi (hio i _)

omit [DecidableEq ι] in
lemma disk (h : Simulates P s) {k : BufRef} (hk : k.dev < 2) : s.m.disk k = P.a.disk k := by
  obtain ⟨ma, l, h⟩ := h
  rw [← h.lag.disk, h.plays.disk k hk]

omit [DecidableEq ι] in
lemma call_eq (h : Simulates P s) (i : ι) :
    (P.proc i).todo = (s.proc i).todo ∧ (P.proc i).calls = (s.proc i).calls ∧
      (P.proc i).cur.map Prod.fst = (s.proc i).cur.map Prod.fst := by
  obtain ⟨ma, l, h⟩ := h
  have hproc := h.proc i
  revert hproc
  generalize P.proc i = p
  intro hproc
  cases hproc with
  | out hio => exact ⟨rfl, rfl, rfl⟩
  | read io hio hcur => exact ⟨rfl, rfl, by rw [hcur]; rfl⟩
  | write io hio hcur => exact ⟨rfl, rfl, rfl⟩
  | sent io hio hcur => exact ⟨rfl, rfl, by rw [hcur]; rfl⟩

omit [DecidableEq ι] in
/-- A process that is not at a block transfer is at the same point on both sides. -/
lemma proc_eq (h : Simulates P s)
    (hread : ∀ c k code, (s.proc i).cur ≠ some (c, .op (.inl (.bread k)) code))
    (hwrite : ∀ c k code, (s.proc i).cur ≠ some (c, .op (.inl (.bwrite k)) code)) :
    P.proc i = s.proc i := by
  obtain ⟨ma, l, h⟩ := h
  exact h.proc_eq (h.io_eq_none hread hwrite)

end Simulates

/-- **Invariants of runs.**  What holds of the pool at boot and is kept by its steps holds of a
pool that simulates the system, all along a run whose steps are calm. -/
theorem Runs.simulates {body : κ → K ρ} {Ok : Sys ι κ ρ → List (Event ι κ ρ) → Label ι → Prop}
    {Inv : Pool ι κ ρ → List (Event ι κ ρ) → Prop} {a : Account} {m : Machine} {fm : FsMem}
    {todo : ι → List κ} {s : Sys ι κ ρ} {h : List (Event ι κ ρ)} (hplays : Plays a m)
    (hcalm : ∀ s h l, Ok s h l → Calm s l) (hboot : Inv (Pool.boot a fm todo) [])
    (hsafe : ∀ P h, Inv P h → P.Safe)
    (htransfer : ∀ P P' h, Inv P h → P.Transfer body P' → Inv P' h)
    (hstep : ∀ (s s' : Sys ι κ ρ) P P' h ev i l, Inv P h → Simulates P s → Ok s h l →
      s.step body l = some (s', ev) → (l = .call i ∨ l = .go i ∨ l = .ret i) →
      P.proc i = s.proc i → P.Step body i P' ev → Inv P' (ev ++ h))
    (hrun : Runs body Ok (Sys.boot m fm todo) s h) : ∃ P, Simulates P s ∧ Inv P h := by
  induction hrun with
  | refl => exact ⟨_, .boot hplays fm todo, hboot⟩
  | @step s s' h ev l hrun hl hs ih =>
    obtain ⟨P, hsim, hinv⟩ := ih
    obtain ⟨P', hsim', hfollow⟩ := hsim.step (hsafe P h hinv) (hcalm s h l hl) hs
    refine ⟨P', hsim', ?_⟩
    rcases hfollow with ⟨rfl, rfl | ht⟩ | ⟨i, hi, hproc, hP⟩
    · exact hinv
    · exact htransfer P P' h hinv ht
    · exact hstep s s' P P' h ev i l hinv hsim hl hs hi hproc hP

end Xv6
