import Xv6.Console.Printf

/-!
# Numbers read back

What `printint` of `console.c` emits is read back here by a reader that knows nothing of the
printer: `parseNat` takes the digits of a base from the left, lower-case only, and `parseInt` an
optional minus in front of them.  `Plain` numerals have a digit, and no zero in front of others.
Reading and being plain determine a numeral, so that a printed number that reads back and is plain
is the numeral of the number.

`cprintint_numeral` says this for both bases and every 32-bit word, the most negative one included:
its negation overflows to itself, and the digits that are then taken of it as an unsigned number are
those of its absolute value.  It also says that the text fits into the 16 bytes of `buf`.
-/

namespace Xv6

/-! ## Reading a numeral -/

def digitValue (c : UInt8) : Option ℕ :=
  if chr '0' ≤ c ∧ c ≤ chr '9' then some (c.toNat - (chr '0').toNat)
  else if chr 'a' ≤ c ∧ c ≤ chr 'f' then some (c.toNat - (chr 'a').toNat + 10)
  else none

/-- A further digit is read. -/
def parseDigit (base n : ℕ) (c : UInt8) : Option ℕ :=
  (digitValue c).bind fun d => if d < base then some (n * base + d) else none

/-- The number that digits stand for, the highest first. -/
def parseNat (base : ℕ) (cs : List UInt8) : Option ℕ :=
  if cs = [] then none else cs.foldlM (parseDigit base) 0

/-- The number that digits stand for, with a minus in front of a negative one. -/
def parseInt (base : ℕ) : List UInt8 → Option ℤ
  | [] => none
  | c :: cs =>
    if c = chr '-' then (parseNat base cs).map fun n : ℕ => -(n : ℤ)
    else (parseNat base (c :: cs)).map fun n : ℕ => (n : ℤ)

/-- Digits without a leading zero, unless that is all there is. -/
def Plain (base : ℕ) (cs : List UInt8) : Prop :=
  cs ≠ [] ∧ (∀ c ∈ cs, ∃ d < base, digitValue c = some d) ∧
    (cs.head? = some (chr '0') → cs = [chr '0'])

/-! ## The digits of a number -/

variable {base n : ℕ}

def digitChar (d : ℕ) : UInt8 := lowerDigits.getD d 0

/-- The digits of a number as characters, the highest first. -/
def numeralChars (base n : ℕ) : List UInt8 := ((numeral base n).map digitChar).reverse

lemma digitValue_digitChar : ∀ d < 16, digitValue (digitChar d) = some d := by decide

lemma digitChar_eq_zero : ∀ d < 16, digitChar d = chr '0' → d = 0 := by decide

lemma digitChar_ne_minus : ∀ d < 16, digitChar d ≠ chr '-' := by decide

lemma numeral_ne_nil : numeral base n ≠ [] := by
  unfold numeral
  split_ifs with h
  · exact List.cons_ne_nil 0 []
  · exact Nat.digits_ne_nil_iff_ne_zero.mpr h

lemma numeralChars_ne_nil : numeralChars base n ≠ [] := by
  simpa [numeralChars] using numeral_ne_nil

lemma ofDigits_numeral (base n : ℕ) : Nat.ofDigits base (numeral base n) = n := by
  unfold numeral
  split_ifs with h
  · rw [h]
    simp
  · exact Nat.ofDigits_digits base n

lemma foldlM_parseDigit (hb : base ≤ 16) {ds : List ℕ} (hds : ∀ d ∈ ds, d < base) :
    ((ds.map digitChar).reverse).foldlM (parseDigit base) 0 = some (Nat.ofDigits base ds) := by
  induction ds with
  | nil => rfl
  | cons d ds ih =>
    have hd : d < base := hds d List.mem_cons_self
    have hvalue : digitValue (digitChar d) = some d := digitValue_digitChar d (hd.trans_le hb)
    have hrest := ih fun e he => hds e (List.mem_cons_of_mem d he)
    rw [List.map_cons, List.reverse_cons, List.foldlM_append, hrest]
    simp [parseDigit, hvalue, hd, Nat.ofDigits_cons, Nat.mul_comm, Nat.add_comm]

variable (hb : 1 < base) (hb' : base ≤ 16)

include hb hb'

lemma parseNat_numeralChars : parseNat base (numeralChars base n) = some n := by
  rw [parseNat, if_neg numeralChars_ne_nil, numeralChars,
    foldlM_parseDigit hb' fun d hd => numeral_lt hb hd, ofDigits_numeral]

lemma head?_numeralChars (h : (numeralChars base n).head? = some (chr '0')) :
    numeralChars base n = [chr '0'] := by
  rw [numeralChars, List.head?_reverse, List.getLast?_map, Option.map_eq_some_iff] at h
  obtain ⟨d, hlast, hd⟩ := h
  have hmem : d ∈ numeral base n := List.mem_of_getLast? hlast
  have hzero : d = 0 := digitChar_eq_zero d ((numeral_lt hb hmem).trans_le hb') hd
  by_cases hn : n = 0
  · rw [numeralChars, numeral, if_pos hn]
    rfl
  · rw [numeral, if_neg hn, List.getLast?_eq_some_getLast (Nat.digits_ne_nil_iff_ne_zero.mpr hn),
      Option.some.injEq] at hlast
    exact absurd (hlast.trans hzero) (Nat.getLast_digit_ne_zero base hn)

lemma plain_numeralChars : Plain base (numeralChars base n) := by
  refine ⟨numeralChars_ne_nil, fun c hc => ?_, head?_numeralChars hb hb'⟩
  obtain ⟨d, hd, rfl⟩ := List.mem_map.mp (List.mem_reverse.mp hc)
  have hlt := numeral_lt hb hd
  exact ⟨d, hlt, digitValue_digitChar d (hlt.trans_le hb')⟩

lemma parseInt_numeralChars : parseInt base (numeralChars base n) = some (n : ℤ) := by
  have hparse := parseNat_numeralChars (n := n) hb hb'
  cases hcs : numeralChars base n with
  | nil => exact absurd hcs numeralChars_ne_nil
  | cons c cs =>
    have hmem : c ∈ numeralChars base n := by
      rw [hcs]
      exact List.mem_cons_self
    obtain ⟨d, hd, rfl⟩ := List.mem_map.mp (List.mem_reverse.mp hmem)
    have hlt := (numeral_lt hb hd).trans_le hb'
    rw [hcs] at hparse
    rw [parseInt, if_neg (digitChar_ne_minus d hlt), hparse]
    rfl

omit hb' in
lemma length_numeralChars_le {k : ℕ} (hk : k ≠ 0) (hn : n < base ^ k) :
    (numeralChars base n).length ≤ k := by
  rw [numeralChars, List.length_reverse, List.length_map, numeral]
  split_ifs with h
  · exact Nat.one_le_iff_ne_zero.mpr hk
  · exact (Nat.digits_length_le_iff hb n).mpr hn

omit hb hb'

/-! ## `printint` -/

lemma decimal_eq (n : ℤ) :
    decimal n = (if n < 0 then [chr '-'] else []) ++ numeralChars 10 n.natAbs := by
  rw [decimal, numeralChars, ← map_decimal_digits (Or.inl rfl)]
  rfl

lemma cprintint_hex_eq (w : UInt32) : cprintint w 16 false = numeralChars 16 w.toNat := by
  rw [cprintint_hex, numeralChars, List.map_reverse, List.map_map]
  rfl

lemma natAbs_toSigned_lt (w : UInt32) : (toSigned w).natAbs < 10 ^ 10 := by
  have hlt := w.toNat_lt
  unfold toSigned
  split_ifs <;> omega

/-- **`printint` prints the number.**  With base 10 and the sign asked for it prints a minus for a
negative number and then a plain numeral, which together read back as the number; with base 16 and
no sign it prints a plain numeral that reads back as the unsigned number.  The index of `buf` ends
as the number of characters, which stays below the 16 at which the loop would be cut off. -/
theorem cprintint_numeral (w : UInt32) :
    (∃ ds, cprintint w 10 true = (if toSigned w < 0 then [chr '-'] else []) ++ ds ∧
        Plain 10 ds ∧ parseInt 10 (cprintint w 10 true) = some (toSigned w)) ∧
      (Plain 16 (cprintint w 16 false) ∧ parseNat 16 (cprintint w 16 false) = some w.toNat) ∧
      (cprintint w 10 true).length < 16 ∧ (cprintint w 16 false).length < 16 := by
  rw [cprintint_signed, decimal_eq, cprintint_hex_eq]
  have hplain : Plain 10 (numeralChars 10 (toSigned w).natAbs) :=
    plain_numeralChars (by norm_num) (by norm_num)
  have hlen : (numeralChars 10 (toSigned w).natAbs).length ≤ 10 :=
    length_numeralChars_le (by norm_num) (by norm_num) (natAbs_toSigned_lt w)
  have hhex : (numeralChars 16 w.toNat).length ≤ 8 :=
    length_numeralChars_le (by norm_num) (by norm_num) (w.toNat_lt.trans_le (by norm_num))
  refine ⟨⟨_, rfl, hplain, ?_⟩, ⟨plain_numeralChars (by norm_num) (by norm_num),
    parseNat_numeralChars (by norm_num) (by norm_num)⟩, ?_, by omega⟩
  · split_ifs with hneg
    · rw [List.singleton_append, parseInt, if_pos rfl,
        parseNat_numeralChars (by norm_num) (by norm_num), Option.map_some]
      exact congrArg some (by omega)
    · rw [List.nil_append, parseInt_numeralChars (by norm_num) (by norm_num)]
      exact congrArg some (by omega)
  · rw [List.length_append]
    split_ifs <;> simp only [List.length_singleton, List.length_nil] <;> omega

end Xv6
