import Xv6.Kernel.Ram
import Mathlib.Data.List.Basic
import Mathlib.Order.Basic
import Mathlib.Tactic.Common

/-!
# The scan of the MP table

`mpinit` looks for a configuration table that the firmware has left in memory and walks over its
entries, whose first byte says how long each of them is.  Addresses are 32-bit numbers, and nothing
is assumed of the table besides what `mpconfig` checks.

The loop has no step of its own: every case of its `switch` moves on by the size of an entry, except
for the one of an unknown type, whose `break` leaves the `switch` and not the loop.  `MpTable` says
that the bytes from an address on are entries of known types up to the end of the table, and
`mp_scan` that the loop comes to an end exactly on such tables, and what it leaves behind then.
-/

namespace Xv6

/-! ## Finding the table -/

/-- `sum(addr, len)`. -/
def byteSum (mem : UInt32 → UInt8) (addr : UInt32) (len : ℕ) : UInt8 :=
  (List.range len).foldl (fun s i => s + mem (addr + UInt32.ofNat i)) 0

/-- `memcmp(p, s, n) == 0`. -/
def SameBytes (mem : UInt32 → UInt8) (p : UInt32) (s : List UInt8) : Prop :=
  (List.range s.length).map (fun i => mem (p + UInt32.ofNat i)) = s

instance (mem : UInt32 → UInt8) (p : UInt32) (s : List UInt8) : Decidable (SameBytes mem p s) :=
  inferInstanceAs (Decidable (_ = _))

/-- `"_MP_"`. -/
abbrev mpSignature : List UInt8 := [0x5f, 0x4d, 0x50, 0x5f]

/-- `"PCMP"`. -/
abbrev mpconfSignature : List UInt8 := [0x50, 0x43, 0x4d, 0x50]

/-- The loop of `mpsearch1`. -/
def mpsearchFrom (mem : UInt32 → UInt8) (e : UInt32) : ℕ → UInt32 → Option UInt32
  | 0, _ => none
  | turns + 1, p =>
    if p < e then
      if SameBytes mem p mpSignature ∧ byteSum mem p 16 = 0 then some p
      else mpsearchFrom mem e turns (p + 16)
    else none

/-- `mpsearch1(a, len)`, for lengths that are multiples of `sizeof(struct mp)`. -/
def mpsearch1 (mem : UInt32 → UInt8) (a : UInt32) (len : ℕ) : Option UInt32 :=
  mpsearchFrom mem (a + UInt32.ofNat len) (len / 16) a

def mpsearch (mem : UInt32 → UInt8) : Option UInt32 :=
  let p := ushortAt mem 0x40e <<< 4
  let mp :=
    if p ≠ 0 then mpsearch1 mem p 1024
    else mpsearch1 mem (ushortAt mem 0x413 * 1024 - 1024) 1024
  mp.or (mpsearch1 mem 0xF0000 0x10000)

/-- `mpconfig(&mp)`: `mp` and the table. -/
def mpconfig (mem : UInt32 → UInt8) : Option (UInt32 × UInt32) :=
  match mpsearch mem with
  | none => none
  | some mp =>
    let conf := uintAt mem (mp + 4)
    if conf = 0 then none
    else if ¬ SameBytes mem conf mpconfSignature then none
    else if mem (conf + 6) ≠ 1 ∧ mem (conf + 6) ≠ 4 then none
    else if byteSum mem conf (ushortAt mem (conf + 4)).toNat ≠ 0 then none
    else some (mp, conf)

/-! ## The entries -/

abbrev MPPROC : UInt8 := 0
abbrev MPBUS : UInt8 := 1
abbrev MPIOAPIC : UInt8 := 2
abbrev MPIOINTR : UInt8 := 3
abbrev MPLINTR : UInt8 := 4

/-- Most CPUs. -/
abbrev NCPU : ℕ := 8

/-- The globals and locals that `mpinit` stores into. -/
structure MpState where
  lapic : UInt32
  ncpu : ℕ
  /-- `cpus[i].apicid`. -/
  apicid : ℕ → UInt8
  ioapicid : UInt8
  ismp : Bool

/-- The case of `MPPROC`. -/
def MpState.addCpu (s : MpState) (id : UInt8) : MpState :=
  if s.ncpu < NCPU then
    { s with apicid := Function.update s.apicid s.ncpu id, ncpu := s.ncpu + 1 }
  else s

/-- The loop of `mpinit` up to the address `e`; `none` if it has not ended after so many turns. -/
def mpLoop (mem : UInt32 → UInt8) (e : UInt32) : ℕ → UInt32 → MpState → Option MpState
  | 0, _, _ => none
  | turns + 1, p, s =>
    if p < e then
      if mem p = MPPROC then mpLoop mem e turns (p + 20) (s.addCpu (mem (p + 1)))
      else if mem p = MPIOAPIC then mpLoop mem e turns (p + 8) { s with ioapicid := mem (p + 1) }
      else if mem p = MPBUS ∨ mem p = MPIOINTR ∨ mem p = MPLINTR then mpLoop mem e turns (p + 8) s
      -- `break` leaves the `switch`
      else mpLoop mem e turns p { s with ismp := false }
    else some s

/-- How `mpinit` ends. -/
inductive MpOutcome
  /-- `panic("Expect to run on an SMP")`. -/
  | notSmp
  /-- `panic("Didn't find a suitable machine")`. -/
  | unsuitable
  /-- It returns, and has masked external interrupts if `imcr` is set. -/
  | booted (s : MpState) (imcr : Bool)

/-- The state in front of the loop. -/
def MpState.init (lapic : UInt32) : MpState := ⟨lapic, 0, fun _ => 0, 0, true⟩

/-- The first address behind the table. -/
def tableEnd (mem : UInt32 → UInt8) (conf : UInt32) : UInt32 := conf + ushortAt mem (conf + 4)

/-- `mpinit()`; `none` if its loop has not ended after so many turns. -/
def mpinit (mem : UInt32 → UInt8) (turns : ℕ) : Option MpOutcome :=
  match mpconfig mem with
  | none => some .notSmp
  | some (mp, conf) =>
    (mpLoop mem (tableEnd mem conf) turns (conf + 44) (.init (uintAt mem (conf + 36)))).map fun s =>
      if s.ismp = false then .unsuitable else .booted s (decide (mem (mp + 12) ≠ 0))

/-! ## What a table says -/

/-- An entry of a known type. -/
inductive MpEntry
  | proc (apicid : UInt8)
  | ioapic (apicno : UInt8)
  | other

/-- The entry at an address, if its type is known, and its size. -/
def mpEntry (mem : UInt32 → UInt8) (p : UInt32) : Option (MpEntry × UInt32) :=
  if mem p = MPPROC then some (.proc (mem (p + 1)), 20)
  else if mem p = MPIOAPIC then some (.ioapic (mem (p + 1)), 8)
  else if mem p = MPBUS ∨ mem p = MPIOINTR ∨ mem p = MPLINTR then some (.other, 8)
  else none

/-- The bytes from `p` on are the entries of a list, the last of which reaches the end. -/
inductive MpTable (mem : UInt32 → UInt8) (e : UInt32) : UInt32 → List MpEntry → Prop
  | done {p : UInt32} (h : ¬ p < e) : MpTable mem e p []
  | entry {p size : UInt32} {x : MpEntry} {es : List MpEntry} (h : p < e)
      (hx : mpEntry mem p = some (x, size)) (hes : MpTable mem e (p + size) es) :
      MpTable mem e p (x :: es)

/-- What an entry does to the globals. -/
def MpState.apply (s : MpState) : MpEntry → MpState
  | .proc id => s.addCpu id
  | .ioapic id => { s with ioapicid := id }
  | .other => s

/-- The ids of the processors among the entries. -/
def apicids : List MpEntry → List UInt8
  | [] => []
  | .proc id :: es => id :: apicids es
  | .ioapic _ :: es | .other :: es => apicids es

/-! ## The loop -/

section

variable {mem : UInt32 → UInt8} {e p size : UInt32} {s s' : MpState} {x : MpEntry}
  {es : List MpEntry} {turns : ℕ}

lemma mpLoop_end (h : ¬ p < e) : mpLoop mem e (turns + 1) p s = some s := by
  rw [mpLoop, if_neg h]

lemma mpLoop_entry (h : p < e) (hx : mpEntry mem p = some (x, size)) :
    mpLoop mem e (turns + 1) p s = mpLoop mem e turns (p + size) (s.apply x) := by
  rw [mpLoop, if_pos h]
  unfold mpEntry at hx
  split_ifs at hx ⊢ with h₁ h₂ h₃
  all_goals
    obtain ⟨rfl, rfl⟩ := Prod.mk.inj (Option.some.inj hx)
    rfl

lemma mpLoop_unknown (h : p < e) (hx : mpEntry mem p = none) : mpLoop mem e turns p s = none := by
  induction turns generalizing s with
  | zero => rfl
  | succ turns ih =>
    rw [mpLoop, if_pos h]
    unfold mpEntry at hx
    split_ifs at hx ⊢
    exact ih

/-- A loop that never ends behind an entry does not end in front of it. -/
lemma mpLoop_entry_none (h : p < e) (hx : mpEntry mem p = some (x, size))
    (hnext : ∀ turns s, mpLoop mem e turns (p + size) s = none) (turns : ℕ) (s : MpState) :
    mpLoop mem e turns p s = none := by
  cases turns with
  | zero => rfl
  | succ turns => rw [mpLoop_entry h hx, hnext]

lemma MpTable.mpLoop (h : MpTable mem e p es) (s : MpState) :
    ∃ turns, Xv6.mpLoop mem e turns p s = some (es.foldl MpState.apply s) := by
  induction h generalizing s with
  | done hp => exact ⟨1, mpLoop_end hp⟩
  | entry hp hx _ ih =>
    obtain ⟨turns, ht⟩ := ih (s.apply _)
    exact ⟨turns + 1, (mpLoop_entry hp hx).trans ht⟩

lemma exists_table (h : mpLoop mem e turns p s = some s') : ∃ es, MpTable mem e p es := by
  induction turns generalizing p s with
  | zero => cases h
  | succ turns ih =>
    by_cases hp : p < e
    swap
    · exact ⟨[], .done hp⟩
    cases hx : mpEntry mem p with
    | none => exact nomatch (mpLoop_unknown hp hx).symm.trans h
    | some y =>
      obtain ⟨x, size⟩ := y
      rw [mpLoop_entry hp hx] at h
      obtain ⟨es, hes⟩ := ih h
      exact ⟨x :: es, .entry hp hx hes⟩

/-! ## The CPUs -/

/-- The CPUs that are recorded are those that were, followed by the ids of the table, as far as
there is room. -/
lemma foldl_apply (es : List MpEntry) (ids : List UInt8) (hn : s.ncpu = min NCPU ids.length)
    (hids : ∀ i < s.ncpu, ids[i]? = some (s.apicid i)) :
    (es.foldl MpState.apply s).ismp = s.ismp ∧
    (es.foldl MpState.apply s).ncpu = min NCPU (ids.length + (apicids es).length) ∧
    ∀ i < (es.foldl MpState.apply s).ncpu,
      (ids ++ apicids es)[i]? = some ((es.foldl MpState.apply s).apicid i) := by
  induction es generalizing s ids with
  | nil =>
    refine ⟨rfl, hn, fun i hi => ?_⟩
    rw [apicids, List.append_nil]
    exact hids i hi
  | cons x es ih =>
    cases x with
    | ioapic id => exact ih (s := { s with ioapicid := id }) ids hn hids
    | other => exact ih ids hn hids
    | proc id =>
      have hlen : (ids ++ [id]).length = ids.length + 1 := by simp
      have key : (s.addCpu id).ncpu = min NCPU (ids ++ [id]).length ∧
          (s.addCpu id).ismp = s.ismp ∧
          ∀ i < (s.addCpu id).ncpu, (ids ++ [id])[i]? = some ((s.addCpu id).apicid i) := by
        unfold MpState.addCpu
        -- `cpus` has room for `NCPU` processors, and a further one is left out
        by_cases hroom : s.ncpu < NCPU
        · have hids' : s.ncpu = ids.length := by omega
          rw [if_pos hroom]
          refine ⟨by simp only; omega, rfl, fun i hi => ?_⟩
          by_cases he : i = s.ncpu
          · simp [he, hids']
          · have hi' : i < s.ncpu := by simp only at hi; omega
            simp only [Function.update_of_ne he]
            rw [List.getElem?_append_left (hids' ▸ hi'), hids i hi']
        · rw [if_neg hroom]
          refine ⟨by omega, rfl, fun i hi => ?_⟩
          have hi' : i < ids.length := by omega
          rw [List.getElem?_append_left hi', hids i hi]
      obtain ⟨hn', hismp, hids'⟩ := key
      obtain ⟨h₁, h₂, h₃⟩ := ih (ids ++ [id]) hn' hids'
      refine ⟨h₁.trans hismp, ?_, fun i hi => ?_⟩
      · rw [List.foldl_cons, MpState.apply, h₂, hlen]
        simp only [apicids, List.length_cons]
        omega
      · have := h₃ i hi
        rwa [List.append_assoc, List.singleton_append] at this

end

/-! ## The scan -/

/-- **The scan of an accepted table ends exactly if the table consists of entries of known types**,
and then the machine is found suitable and the first `NCPU` processors of the table are recorded in
its order. -/
theorem mp_scan (mem : UInt32 → UInt8) (mp conf : UInt32) (h : mpconfig mem = some (mp, conf)) :
    ((∃ turns o, mpinit mem turns = some o) ↔
      ∃ es, MpTable mem (tableEnd mem conf) (conf + 44) es) ∧
    ∀ es, MpTable mem (tableEnd mem conf) (conf + 44) es → ∃ turns s imcr,
      mpinit mem turns = some (.booted s imcr) ∧ s.ncpu = min NCPU (apicids es).length ∧
        ∀ i < s.ncpu, (apicids es)[i]? = some (s.apicid i) := by
  have hrun : ∀ es, MpTable mem (tableEnd mem conf) (conf + 44) es → ∃ turns s imcr,
      mpinit mem turns = some (.booted s imcr) ∧ s.ncpu = min NCPU (apicids es).length ∧
        ∀ i < s.ncpu, (apicids es)[i]? = some (s.apicid i) := by
    intro es hes
    obtain ⟨turns, ht⟩ := hes.mpLoop (.init (uintAt mem (conf + 36)))
    obtain ⟨hismp, hn, hids⟩ := foldl_apply (s := .init (uintAt mem (conf + 36))) es [] rfl
      fun i hi => absurd hi (Nat.not_lt_zero i)
    rw [List.length_nil, Nat.zero_add] at hn
    refine ⟨turns, _, decide (mem (mp + 12) ≠ 0), ?_, hn, hids⟩
    rw [mpinit, h]
    simp only [ht, Option.map_some]
    rw [if_neg (by rw [hismp]; exact Bool.noConfusion)]
  refine ⟨⟨?_, ?_⟩, hrun⟩
  · rintro ⟨turns, o, ho⟩
    rw [mpinit, h] at ho
    obtain ⟨s, hs, -⟩ := Option.map_eq_some_iff.mp ho
    exact exists_table hs
  · rintro ⟨es, hes⟩
    obtain ⟨turns, s, imcr, hs, -⟩ := hrun es hes
    exact ⟨turns, _, hs⟩

/-- A table with two processors, an I/O APIC and an entry of type `t`, as the firmware may leave
it. -/
def firmware (t : UInt8) : UInt32 → UInt8
  -- the floating pointer
  | 0xF0000 => 0x5f | 0xF0001 => 0x4d | 0xF0002 => 0x50 | 0xF0003 => 0x5f
  | 0xF0005 => 0x20 | 0xF0008 => 1 | 0xF0009 => 4 | 0xF000a => 0x80
  -- the header of the table, with its length and checksum
  | 0x2000 => 0x50 | 0x2001 => 0x43 | 0x2002 => 0x4d | 0x2003 => 0x50
  | 0x2004 => 93 | 0x2006 => 4 | 0x2007 => 0x62 - t
  -- two processors of 20 bytes each, the I/O APIC of 8, and the last entry
  | 0x202c => MPPROC | 0x202d => 3
  | 0x2040 => MPPROC | 0x2041 => 5
  | 0x2054 => MPIOAPIC | 0x2055 => 3
  | 0x205c => t
  | _ => 0

lemma mpconfig_firmware (t : UInt8) (h : t = MPBUS ∨ t = 0xff) :
    mpconfig (firmware t) = some (0xF0000, 0x2000) := by
  rcases h with rfl | rfl <;> decide +kernel

/-- Both processors of a table that ends with a bus are recorded, in its order. -/
theorem mp_scan_two_procs :
    ∃ turns s imcr, mpinit (firmware MPBUS) turns = some (.booted s imcr) ∧
      s.ncpu = 2 ∧ s.apicid 0 = 3 ∧ s.apicid 1 = 5 := by
  have hproc₀ : mpEntry (firmware MPBUS) 0x202c = some (.proc 3, 20) := rfl
  have hproc₁ : mpEntry (firmware MPBUS) 0x2040 = some (.proc 5, 20) := rfl
  have hioapic : mpEntry (firmware MPBUS) 0x2054 = some (.ioapic 3, 8) := rfl
  have hbus : mpEntry (firmware MPBUS) 0x205c = some (.other, 8) := rfl
  have htable : MpTable (firmware MPBUS) (tableEnd (firmware MPBUS) 0x2000) (0x2000 + 44)
      [.proc 3, .proc 5, .ioapic 3, .other] :=
    .entry (by decide) hproc₀ <| .entry (by decide) hproc₁ <| .entry (by decide) hioapic <|
      .entry (by decide) hbus <| .done (by decide)
  obtain ⟨turns, s, imcr, hs, hn, hids⟩ := (mp_scan (firmware MPBUS) 0xF0000 0x2000
    (mpconfig_firmware _ (Or.inl rfl))).2 _ htable
  have hn : s.ncpu = 2 := hn
  exact ⟨turns, s, imcr, hs, hn, (Option.some.inj (hids 0 (by omega))).symm,
    (Option.some.inj (hids 1 (by omega))).symm⟩

/-- **A table with an entry of an unknown type is accepted, and its scan never ends.** -/
theorem mp_scan_stuck : mpconfig (firmware 0xff) = some (0xF0000, 0x2000) ∧
    ∀ turns, mpinit (firmware 0xff) turns = none := by
  refine ⟨mpconfig_firmware _ (Or.inr rfl), fun turns => ?_⟩
  have hproc₀ : mpEntry (firmware 0xff) 0x202c = some (.proc 3, 20) := rfl
  have hproc₁ : mpEntry (firmware 0xff) 0x2040 = some (.proc 5, 20) := rfl
  have hioapic : mpEntry (firmware 0xff) 0x2054 = some (.ioapic 3, 8) := rfl
  have hlast : mpEntry (firmware 0xff) 0x205c = none := rfl
  rw [mpinit, mpconfig_firmware _ (Or.inr rfl)]
  exact Option.map_eq_none_iff.mpr <|
    mpLoop_entry_none (by decide) hproc₀ (mpLoop_entry_none (by decide) hproc₁
      (mpLoop_entry_none (by decide) hioapic fun _ _ => mpLoop_unknown (by decide) hlast)) turns _

end Xv6
