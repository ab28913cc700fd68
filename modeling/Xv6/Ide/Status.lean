import Xv6.Bio.Refinement

/-!
# Errors of the drive

`Xv6.Bio.Cache` is about a disk that reports no errors.  Here the drive answers every poll of its
status register as it likes, and `idewait`, `idestart` and `ideintr` do with the answers what the
source does.  There is one process, so that a request is served before the next one is made.

`Driver` keeps, next to the machine, the last transfer of every buffer: the block it was made from
or to, and the data that went over.  `valid_own_block` says that the data of a valid buffer is that
of its last transfer, and that this was one of its own block, as long as no read is answered by an
error; a read that is answered by one breaks this at once, since `ideintr` sets `B_VALID` whether or
not it has read anything.
-/

namespace Xv6

open Lib

/-! ## The status register -/

abbrev IDE_BSY : UInt8 := 0x80
abbrev IDE_DRDY : UInt8 := 0x40
abbrev IDE_DF : UInt8 := 0x20
abbrev IDE_ERR : UInt8 := 0x01

/-- The reply ends the loop of `idewait`. -/
def Ready (r : UInt8) : Prop := r &&& (IDE_BSY ||| IDE_DRDY) = IDE_DRDY

/-- The reply reports an error. -/
def Faulty (r : UInt8) : Prop := r &&& (IDE_DF ||| IDE_ERR) ≠ 0

instance (r : UInt8) : Decidable (Ready r) := inferInstanceAs (Decidable (_ = _))
instance (r : UInt8) : Decidable (Faulty r) := inferInstanceAs (Decidable (_ ≠ _))

/-- `idewait(checkerr)` on the replies to come: whether it returns 0, or `none` if the drive never
gets ready. -/
def idewait (checkerr : Bool) : List UInt8 → Option Bool
  | [] => none
  | r :: rs => if Ready r then some (!(checkerr && decide (Faulty r))) else idewait checkerr rs

/-- What the drive replies during one request: to the polls of `idestart`, and to those of
`ideintr`. -/
structure Replies where
  start : List UInt8
  finish : List UInt8

/-! ## Requests -/

/-- The machine, and the last transfer of every buffer. -/
structure Driver where
  m : Machine
  last : Fin NBUF → Option (BufRef × Block)

namespace Driver

/-- Buffer `i` becomes `b`, and a transfer of its data is noted. -/
def transfer (s : Driver) (i : Fin NBUF) (b : Buf) : Driver :=
  ⟨s.m.setBuf i b, Function.update s.last i (some (b.key, b.data))⟩

/-- The commands of `idestart(b)` and the interrupt that ends the request. -/
def request (rep : Replies) (i : Fin NBUF) (s : Driver) : Except Halt Driver :=
  let b := s.m.buf i
  match idewait false rep.start with
  | none => .error .blocked
  | some _ =>
    if b.dirty = true then
      -- the interrupt of a write does not look at the status
      let s := s.transfer i { b with valid := true, dirty := false }
      .ok { s with m := { s.m with disk := Function.update s.m.disk (drive b.key) b.data } }
    else
      match idewait true rep.finish with
      | none => .error .blocked
      | some true => .ok (s.transfer i { b with valid := true, data := s.m.disk (drive b.key) })
      | some false => .ok { s with m := s.m.setBuf i { b with valid := true } }

def iderw (rep : Replies) (i : Fin NBUF) (s : Driver) : Except Halt Driver :=
  if (s.m.buf i).valid = true ∧ (s.m.buf i).dirty = false then
    .error (.panic .iderwNothingToDo)
  else if (s.m.buf i).dev ≠ 0 ∧ s.m.havedisk1 = false then .error (.panic .ideDisk1NotPresent)
  else if FSSIZE ≤ (s.m.buf i).blockno then .error (.panic .incorrectBlockno)
  else s.request rep i

end Driver

/-- What a process does with the cache.  `bwrite` comes after any changes of the data by the
holder. -/
inductive BufCall
  | bread (k : BufRef) (rep : Replies)
  | bwrite (i : Fin NBUF) (data : Block) (rep : Replies)
  | brelse (i : Fin NBUF)

namespace Driver

/-- One call.  Only buffers that are held are written or released. -/
def call (s : Driver) : BufCall → Except Halt Driver
  | .bread k rep =>
    match bget k s.m with
    | .error x _ => .error x
    | .ok i m =>
      if (m.buf i).valid = false then iderw rep i { s with m := m } else .ok { s with m := m }
  | .bwrite i data rep =>
    if 0 < (s.m.buf i).refcnt then
      iderw rep i { s with m := s.m.setBuf i { s.m.buf i with data := data, dirty := true } }
    else .error .stray
  | .brelse i =>
    if 0 < (s.m.buf i).refcnt then
      match brelseBuf i s.m with
      | .error x _ => .error x
      | .ok _ m => .ok { s with m := m }
    else .error .stray

/-- Calls one after another. -/
def run : List BufCall → Driver → Except Halt Driver
  | [], s => .ok s
  | c :: cs, s => (s.call c).bind (run cs)

def boot (disk : BufRef → Block) (havedisk1 : Bool) (log : Log) : Driver :=
  ⟨binit disk havedisk1 log, fun _ => none⟩

/-- The data of a valid buffer is that of its last transfer, which was one of its own block. -/
def Own (s : Driver) : Prop :=
  ∀ i, (s.m.buf i).valid = true → s.last i = some ((s.m.buf i).key, (s.m.buf i).data)

end Driver

/-- A read that has to ask the drive is not answered by an error. -/
def BufCall.Clean (s : Driver) : BufCall → Prop
  | .bread k rep => (∀ i, s.m.lookup k = some i → (s.m.buf i).valid = false) →
      ∀ r, rep.finish.find? (Ready ·) = some r → ¬ Faulty r
  | _ => True

/-- All calls of a run are clean. -/
def Driver.Clean : List BufCall → Driver → Prop
  | [], _ => True
  | c :: cs, s => c.Clean s ∧ ∀ s', s.call c = .ok s' → Driver.Clean cs s'

/-! ## What a request does -/

section

variable {s s' : Driver} {i : Fin NBUF} {rep : Replies} {k : BufRef}

lemma idewait_eq (checkerr : Bool) (rs : List UInt8) :
    idewait checkerr rs =
      (rs.find? (Ready ·)).map fun r => !(checkerr && decide (Faulty r)) := by
  induction rs with
  | nil => rfl
  | cons r rs ih =>
    rw [idewait, List.find?_cons]
    by_cases hr : Ready r
    · simp [hr]
    · simp [hr, ih]

/-- The second wait succeeds exactly if the reply it ends on reports no error. -/
lemma idewait_true {rs : List UInt8} {ok : Bool} (h : idewait true rs = some ok) :
    ok = true ↔ ∀ r, rs.find? (Ready ·) = some r → ¬ Faulty r := by
  rw [idewait_eq] at h
  obtain ⟨r, hr, hok⟩ := Option.map_eq_some_iff.mp h
  simp [← hok, hr]

namespace Driver

/-- **All that a request can do.** -/
lemma iderw_cases (h : s.iderw rep i = .ok s') :
    ((s.m.buf i).dirty = true ∧ s'.m.lru = s.m.lru ∧
      s'.m.buf = (s.m.setBuf i { s.m.buf i with valid := true, dirty := false }).buf ∧
      s'.last = Function.update s.last i (some ((s.m.buf i).key, (s.m.buf i).data))) ∨
    ((s.m.buf i).dirty = false ∧ ∃ ok, idewait true rep.finish = some ok ∧
      s' = if ok then s.transfer i { s.m.buf i with
          valid := true, data := s.m.disk (drive (s.m.buf i).key) }
        else { s with m := s.m.setBuf i { s.m.buf i with valid := true } }) := by
  have hreq : s.request rep i = .ok s' := by
    unfold iderw at h
    split_ifs at h
    exact h
  unfold request at hreq
  cases hw : idewait false rep.start with
  | none => simp [hw] at hreq
  | some b =>
    simp only [hw] at hreq
    by_cases hd : (s.m.buf i).dirty = true
    · rw [if_pos hd] at hreq
      obtain rfl := Except.ok.inj hreq
      exact Or.inl ⟨hd, rfl, rfl, rfl⟩
    · rw [if_neg hd] at hreq
      cases hf : idewait true rep.finish with
      | none => simp [hf] at hreq
      | some ok =>
        refine Or.inr ⟨Bool.eq_false_iff.mpr hd, ok, rfl, ?_⟩
        cases ok <;> simp only [hf] at hreq <;> exact (Except.ok.inj hreq).symm

/-- With replies that report no error the request is the one of `Xv6.Bio.Cache`. -/
theorem iderw_refines {ok : Bool} (hs : idewait false rep.start = some ok)
    (hf : idewait true rep.finish = some true) :
    (s.iderw rep i).toOption.map Driver.m = match Xv6.iderw i s.m with
      | .ok _ m => some m
      | .error _ _ => none := by
  unfold iderw Xv6.iderw request
  simp only [hs, hf]
  split_ifs <;> rfl

/-- What holds between two calls, as long as no read has failed. -/
structure Wf (s : Driver) : Prop where
  all : ∀ i, i ∈ s.m.lru
  own : s.Own
  /-- A buffer that is not valid has never been used. -/
  blank : ∀ i, (s.m.buf i).valid = false → s.last i = none ∧ (s.m.buf i).dirty = false

namespace Wf

lemma update (h : s.Wf) {b : Buf} (hlru : s'.m.lru = s.m.lru)
    (hbuf : s'.m.buf = (s.m.setBuf i b).buf) (hvalid : b.valid = true)
    (hlast : s'.last = Function.update s.last i (some (b.key, b.data))) : s'.Wf where
  all j := hlru ▸ h.all j
  own j hj := by
    rw [hbuf] at hj ⊢
    by_cases hji : j = i
    · rw [hji, hlast, Function.update_self, Machine.setBuf_buf_self]
    · rw [Machine.setBuf_buf_of_ne hji] at hj ⊢
      rw [hlast, Function.update_of_ne hji]
      exact h.own j hj
  blank j hj := by
    rw [hbuf] at hj
    by_cases hji : j = i
    · rw [hji, Machine.setBuf_buf_self, hvalid] at hj
      cases hj
    · rw [Machine.setBuf_buf_of_ne hji] at hj
      rw [hbuf, hlast, Function.update_of_ne hji, Machine.setBuf_buf_of_ne hji]
      exact h.blank j hj

lemma count (h : s.Wf) {m : Machine} (hall : ∀ i, i ∈ m.lru)
    (hbuf : ∀ j, ∃ n, m.buf j = { s.m.buf j with refcnt := n }) :
    ({ s with m := m } : Driver).Wf where
  all := hall
  own j hj := by
    obtain ⟨n, hj'⟩ := hbuf j
    show s.last j = some ((m.buf j).key, (m.buf j).data)
    rw [hj'] at hj ⊢
    exact h.own j hj
  blank j hj := by
    obtain ⟨n, hj'⟩ := hbuf j
    show s.last j = none ∧ (m.buf j).dirty = false
    rw [hj'] at hj ⊢
    exact h.blank j hj

end Wf

lemma buf_setRefcnt (m : Machine) (i j : Fin NBUF) (n : ℕ) :
    ∃ n', (m.setBuf i { m.buf i with refcnt := n }).buf j = { m.buf j with refcnt := n' } := by
  by_cases hji : j = i
  · rw [hji, Machine.setBuf_buf_self]
    exact ⟨n, rfl⟩
  · rw [Machine.setBuf_buf_of_ne hji]
    exact ⟨_, rfl⟩

/-- A read of a buffer that is not valid: its last transfer, if there was one, was of another
block. -/
lemma read_request {m : Machine} (h : s.Wf) (hlru : m.lru = s.m.lru)
    (hother : ∀ j ≠ i, m.buf j = s.m.buf j)
    (hlast : ∀ d, s.last i ≠ some ((m.buf i).key, d)) (hdirty : (m.buf i).dirty = false)
    (hr : iderw rep i { s with m := m } = .ok s') :
    (s'.Own ↔ ∀ r, rep.finish.find? (Ready ·) = some r → ¬ Faulty r) ∧ (s'.Own → s'.Wf) := by
  rcases iderw_cases hr with ⟨hd, -⟩ | ⟨-, ok, hok, rfl⟩
  · rw [hdirty] at hd
    cases hd
  rw [← idewait_true hok]
  cases ok with
  | true =>
    have hwf : (transfer { s with m := m } i { m.buf i with
        valid := true, data := m.disk (drive (m.buf i).key) }).Wf := by
      refine h.update (b := { m.buf i with valid := true, data := m.disk (drive (m.buf i).key) })
        hlru ?_ rfl rfl
      funext j
      by_cases hji : j = i
      · simp [transfer, hji]
      · simp [transfer, Machine.setBuf_buf_of_ne hji, hother j hji]
    exact ⟨iff_of_true hwf.own rfl, fun _ => hwf⟩
  | false =>
    have hnot : ¬ ({ s with m := m.setBuf i { m.buf i with valid := true } } : Driver).Own := by
      intro hown
      have hi := hown i (by simp)
      rw [show (({ s with m := m.setBuf i { m.buf i with valid := true } } : Driver).m.buf i) =
        { m.buf i with valid := true } from Machine.setBuf_buf_self _ _ _] at hi
      exact hlast _ hi
    exact ⟨iff_of_false hnot (by simp), fun hown => absurd hown hnot⟩

/-! ## Calls -/

/-- `bget` returns a buffer that it has found, or recycles one for a block that has none. -/
lemma bget_cases {m : Machine} (h : bget k s.m = .ok i m) :
    (s.m.lookup k = some i ∧
      m = s.m.setBuf i { s.m.buf i with refcnt := (s.m.buf i).refcnt + 1 }) ∨
    (s.m.lookup k = none ∧ m = s.m.setBuf i { s.m.buf i with
        dev := k.dev, blockno := k.blockno, valid := false, dirty := false, refcnt := 1 }) := by
  unfold bget at h
  cases hl : s.m.lookup k with
  | some j =>
    simp only [hl, EStateM.Result.ok.injEq] at h
    obtain ⟨rfl, rfl⟩ := h
    exact Or.inl ⟨rfl, rfl⟩
  | none =>
    simp only [hl] at h
    cases hv : s.m.victim with
    | some j =>
      simp only [hv, EStateM.Result.ok.injEq] at h
      obtain ⟨rfl, rfl⟩ := h
      exact Or.inr ⟨rfl, rfl⟩
    | none =>
      simp only [hv] at h
      cases h

lemma brelse_wf (h : s.Wf) (hc : s.call (.brelse i) = .ok s') : s'.Wf := by
  simp only [call, brelseBuf] at hc
  by_cases hpos : 0 < (s.m.buf i).refcnt
  swap
  · rw [if_neg hpos] at hc
    cases hc
  rw [if_pos hpos] at hc
  by_cases hz : (s.m.buf i).refcnt - 1 = 0
  · rw [if_pos hz] at hc
    obtain rfl := Except.ok.inj hc
    refine h.count (fun j => ?_) (buf_setRefcnt s.m i · _)
    by_cases hji : j = i
    · exact hji ▸ List.mem_cons_self
    · exact List.mem_cons_of_mem _ ((List.mem_erase_of_ne hji).mpr (h.all j))
  · rw [if_neg hz] at hc
    obtain rfl := Except.ok.inj hc
    exact h.count h.all (buf_setRefcnt s.m i · _)

lemma bwrite_wf (h : s.Wf) {data : Block} (hc : s.call (.bwrite i data rep) = .ok s') : s'.Wf := by
  simp only [call] at hc
  by_cases hpos : 0 < (s.m.buf i).refcnt
  swap
  · rw [if_neg hpos] at hc
    cases hc
  rw [if_pos hpos] at hc
  rcases iderw_cases hc with ⟨-, hlru, hbuf, hlast⟩ | ⟨hd, -⟩
  · refine h.update (i := i) hlru ?_ rfl ?_ (b := { s.m.buf i with
      data := data, valid := true, dirty := false })
    · rw [hbuf]
      funext j
      by_cases hji : j = i
      · simp [hji]
      · simp [Machine.setBuf_buf_of_ne hji]
    · rw [hlast, Machine.setBuf_buf_self]
      rfl
  · simp at hd

lemma bread_own (h : s.Wf) (hc : s.call (.bread k rep) = .ok s') :
    (s'.Own ↔ (BufCall.bread k rep).Clean s) ∧ (s'.Own → s'.Wf) := by
  simp only [call] at hc
  cases hg : bget k s.m with
  | error x m => simp [hg] at hc
  | ok i m =>
    simp only [hg] at hc
    rcases bget_cases hg with ⟨hl, rfl⟩ | ⟨hl, rfl⟩
    · rw [Machine.setBuf_buf_self] at hc
      by_cases hv : (s.m.buf i).valid = false
      · rw [if_pos hv] at hc
        obtain ⟨hnone, hdirty⟩ := h.blank i hv
        have hreq := read_request h (by rfl) (fun j hj => Machine.setBuf_buf_of_ne hj)
          (by simp [hnone]) (by simpa using hdirty) hc
        refine ⟨hreq.1.trans ⟨fun hr _ => hr, fun hr => hr fun j hj => ?_⟩, hreq.2⟩
        obtain rfl := Option.some.inj (hl.symm.trans hj)
        exact hv
      · rw [if_neg hv] at hc
        obtain rfl := Except.ok.inj hc
        have hwf := h.count (m := s.m.setBuf i { s.m.buf i with
          refcnt := (s.m.buf i).refcnt + 1 }) h.all (buf_setRefcnt s.m i · _)
        exact ⟨iff_of_true hwf.own fun hno => absurd (hno i hl) hv, fun _ => hwf⟩
    · rw [Machine.setBuf_buf_self, if_pos rfl] at hc
      -- the recycled buffer held another block, or none
      have hlast : ∀ d, s.last i ≠ some (k, d) := by
        intro d he
        cases hv : (s.m.buf i).valid with
        | false => exact nomatch (h.blank i hv).1.symm.trans he
        | true =>
          have hkey := congrArg Prod.fst (Option.some.inj ((h.own i hv).symm.trans he))
          exact Machine.key_ne_of_lookup_none h.all hl i hkey
      have hreq := read_request h (by rfl) (fun j hj => Machine.setBuf_buf_of_ne hj)
        (fun d => by rw [Machine.setBuf_buf_self]; exact hlast d) (by simp) hc
      refine ⟨hreq.1.trans ⟨fun hr _ => hr, fun hr => hr fun j hj => ?_⟩, hreq.2⟩
      exact nomatch hl.symm.trans hj

/-- **One call**: the data of valid buffers stays their own exactly if the call is clean. -/
lemma call_own (h : s.Wf) {c : BufCall} (hc : s.call c = .ok s') :
    (s'.Own ↔ c.Clean s) ∧ (s'.Own → s'.Wf) := by
  cases c with
  | brelse i => exact ⟨iff_of_true (brelse_wf h hc).own trivial, fun _ => brelse_wf h hc⟩
  | bwrite i data rep => exact ⟨iff_of_true (bwrite_wf h hc).own trivial, fun _ => bwrite_wf h hc⟩
  | bread k rep => exact bread_own h hc

/-- **A run of clean calls.** -/
lemma run_wf (h : s.Wf) {cs : List BufCall} (hcs : Clean cs s) (hrun : run cs s = .ok s') :
    s'.Wf := by
  induction cs generalizing s with
  | nil => exact Except.ok.inj hrun ▸ h
  | cons c cs ih =>
    rw [run] at hrun
    cases hc : s.call c with
    | error x => simp [hc, Except.bind] at hrun
    | ok s₁ =>
      rw [hc] at hrun
      have hown := call_own h hc
      exact ih (hown.2 (hown.1.mpr hcs.1)) (hcs.2 s₁ hc) hrun

lemma boot_wf (disk : BufRef → Block) (havedisk1 : Bool) (log : Log) :
    (boot disk havedisk1 log).Wf where
  all i := by simp [boot, binit]
  own i hi := by simp [boot, binit] at hi
  blank i _ := ⟨rfl, rfl⟩

end Driver

end

/-! ## Runs -/

/-- **A valid buffer holds its own block** after every run of calls in which no read was answered by
an error, and the next call keeps it so exactly if that holds of it as well. -/
theorem valid_own_block (disk : BufRef → Block) (havedisk1 : Bool) (log : Log) (cs : List BufCall)
    (s : Driver) (hcs : Driver.Clean cs (.boot disk havedisk1 log))
    (hrun : Driver.run cs (.boot disk havedisk1 log) = .ok s) :
    s.Own ∧ ∀ c s', s.call c = .ok s' → (s'.Own ↔ c.Clean s) := by
  have hwf := Driver.run_wf (Driver.boot_wf disk havedisk1 log) hcs hrun
  exact ⟨hwf.own, fun c s' hc => (Driver.call_own hwf hc).1⟩

/-- The drive is ready at once, and reports an error if `r` says so. -/
def replying (r : UInt8) : Replies := ⟨[IDE_DRDY], [r]⟩

/-- Drives whose blocks are filled with their numbers. -/
def numbered (k : BufRef) : Block := fun _ => UInt8.ofNat k.blockno

/-- Block 5 is read and released, all other buffers are used up, and block 6 is read while the drive
replies `r`. -/
def recycleRun (r : UInt8) : List BufCall :=
  [.bread ⟨1, 5⟩ (replying IDE_DRDY), .brelse 0] ++
    (List.range 29).map (fun j => .bread ⟨1, 100 + j⟩ (replying IDE_DRDY)) ++
    [.bread ⟨1, 6⟩ (replying r)]

lemma BufCall.clean_replying (k : BufRef) (s : Driver) :
    (BufCall.bread k (replying IDE_DRDY)).Clean s := by
  intro _ r hr
  obtain rfl := List.mem_singleton.mp (List.mem_of_find?_eq_some hr)
  decide

/-- Calls that are clean in every state. -/
lemma Driver.clean_of_forall {cs : List BufCall} (h : ∀ c ∈ cs, ∀ s, c.Clean s) (s : Driver) :
    Driver.Clean cs s := by
  induction cs generalizing s with
  | nil => trivial
  | cons c cs ih =>
    exact ⟨h c List.mem_cons_self s,
      fun s' _ => ih (fun c' hc' => h c' (List.mem_cons_of_mem c hc')) s'⟩

/-- A drive that reports no error: the buffer that held block 5 is recycled, and holds block 6. -/
theorem valid_own_block_recycled :
    ∃ s, Driver.run (recycleRun IDE_DRDY) (.boot numbered true .zero) = .ok s ∧ s.Own ∧
      (s.m.buf 0).key = ⟨1, 6⟩ ∧ (s.m.buf 0).valid = true ∧
      (s.m.buf 0).data = numbered ⟨1, 6⟩ := by
  have hclean : Driver.Clean (recycleRun IDE_DRDY) (.boot numbered true .zero) := by
    refine Driver.clean_of_forall (fun c hc s => ?_) _
    simp only [recycleRun, List.mem_append, List.mem_cons, List.mem_map, List.not_mem_nil,
      or_false] at hc
    rcases hc with ((rfl | rfl) | ⟨j, -, rfl⟩) | rfl
    · exact BufCall.clean_replying _ s
    · trivial
    · exact BufCall.clean_replying _ s
    · exact BufCall.clean_replying _ s
  have hrun : (match Driver.run (recycleRun IDE_DRDY) (.boot numbered true .zero) with
      | .ok s => decide ((s.m.buf 0).key = ⟨1, 6⟩ ∧ (s.m.buf 0).valid = true ∧
          (s.m.buf 0).data = numbered ⟨1, 6⟩)
      | .error _ => false) = true := by
    decide +kernel
  cases hs : Driver.run (recycleRun IDE_DRDY) (.boot numbered true .zero) with
  | error x =>
    rw [hs] at hrun
    cases hrun
  | ok s =>
    rw [hs] at hrun
    exact ⟨s, rfl, (valid_own_block numbered true .zero _ s hclean hs).1, of_decide_eq_true hrun⟩

/-- **A failed read passes for a good one.**  The buffer of block 6 is valid, and holds what it held
when it was the buffer of block 5. -/
theorem failed_read_valid :
    ∃ s, Driver.run (recycleRun (IDE_DRDY ||| IDE_ERR)) (.boot numbered true .zero) = .ok s ∧
      (s.m.buf 0).key = ⟨1, 6⟩ ∧ (s.m.buf 0).valid = true ∧
      (s.m.buf 0).data = numbered ⟨1, 5⟩ ∧ ¬ s.Own := by
  have hrun : (match Driver.run (recycleRun (IDE_DRDY ||| IDE_ERR)) (.boot numbered true .zero) with
      | .ok s => decide ((s.m.buf 0).key = ⟨1, 6⟩ ∧ (s.m.buf 0).valid = true ∧
          (s.m.buf 0).data = numbered ⟨1, 5⟩ ∧
          s.last 0 ≠ some ((s.m.buf 0).key, (s.m.buf 0).data))
      | .error _ => false) = true := by
    decide +kernel
  cases hs : Driver.run (recycleRun (IDE_DRDY ||| IDE_ERR)) (.boot numbered true .zero) with
  | error x =>
    rw [hs] at hrun
    cases hrun
  | ok s =>
    rw [hs] at hrun
    obtain ⟨hkey, hvalid, hdata, hlast⟩ := of_decide_eq_true hrun
    exact ⟨s, rfl, hkey, hvalid, hdata, fun hown => hlast (hown 0 hvalid)⟩

end Xv6
