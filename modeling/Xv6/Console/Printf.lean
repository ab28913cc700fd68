import Mathlib.Data.Nat.Digits.Lemmas
import Mathlib.Tactic.Common

/-!
# The two formatters

The kernel prints through `cprintf` and user programs through `printf`, and each has a scanner of
its own: `cprintf` looks one character ahead and leaves its loop at a `%` that ends the format,
`printf` remembers in `state` whether the last character was a `%`.

A format is a list of bytes that ends with the first NUL or with the list.  The arguments are the
words that follow the format on the stack, whatever they are, and `str p` stands for the bytes in
front of the NUL of the string at the address `p`.

`formatted` says what a format stands for in terms of its `tokens`, with the digits that `%x` and
`%p` print left open.  Both formatters print this, each with its own digits, unless the format has
the directive `%c`, which `cprintf` does not know.
-/

namespace Xv6

abbrev chr (c : Char) : UInt8 := UInt8.ofNat c.toNat

/-- The bytes of a string literal. -/
abbrev chrs (s : String) : List UInt8 := s.toList.map chr

/-! ## Numbers -/

/-- The `do` loop of either `printint`, which fills a buffer with room for so many characters. -/
def pushDigits (digits : List UInt8) (base : UInt32) : ℕ → UInt32 → List UInt8
  | 0, _ => []
  | room + 1, x =>
    digits.getD (x % base).toNat 0 ::
      if x / base ≠ 0 then pushDigits digits base room (x / base) else []

/-- `digits` of `console.c`. -/
def lowerDigits : List UInt8 := chrs "0123456789abcdef"

/-- `digits` of `printf.c`. -/
def upperDigits : List UInt8 := chrs "0123456789ABCDEF"

/-- `xx < 0`. -/
def belowZero (xx : UInt32) : Bool := decide (2 ^ 31 ≤ xx.toNat)

/-- `printint(xx, base, sign)` of `console.c`: what it sends to `consputc`. -/
def cprintint (xx base : UInt32) (sign : Bool) : List UInt8 :=
  -- `sign` is assigned in the condition
  let sign := sign && belowZero xx
  let x := if sign then -xx else xx
  let buf := pushDigits lowerDigits base 16 x
  let buf := if sign then buf ++ [chr '-'] else buf
  buf.reverse

/-- `printint(fd, xx, base, sgn)` of `printf.c`: what it writes to `fd`. -/
def printint (xx base : UInt32) (sgn : Bool) : List UInt8 :=
  let (neg, x) := if sgn && belowZero xx then (true, -xx) else (false, xx)
  let buf := pushDigits upperDigits base 16 x
  let buf := if neg then buf ++ [chr '-'] else buf
  buf.reverse

/-! ## The scanners -/

/-- What has been printed, and how many arguments have been taken. -/
structure Printed where
  out : List UInt8
  argp : ℕ

def Printed.put (s : Printed) (bs : List UInt8) : Printed := { s with out := s.out ++ bs }

/-- `argp++`. -/
def Printed.next (s : Printed) : Printed := { s with argp := s.argp + 1 }

section

variable (str : UInt32 → List UInt8) (args : ℕ → UInt32)

/-- What `%s` prints for a pointer. -/
def stringAt (p : UInt32) : List UInt8 := if p = 0 then chrs "(null)" else str p

/-- The `switch` of `cprintf`. -/
def cprintfDirective (c : UInt8) (s : Printed) : Printed :=
  if c = chr 'd' then (s.put (cprintint (args s.argp) 10 true)).next
  else if c = chr 'x' ∨ c = chr 'p' then (s.put (cprintint (args s.argp) 16 false)).next
  else if c = chr 's' then (s.put (stringAt str (args s.argp))).next
  else if c = chr '%' then s.put [chr '%']
  else (s.put [chr '%']).put [c]

/-- The loop of `cprintf`, on the rest of the format. -/
def cprintfLoop : List UInt8 → Printed → Printed
  | [], s => s
  | c :: fmt, s =>
    if c = 0 then s
    else if c ≠ chr '%' then cprintfLoop fmt (s.put [c])
    else
      match fmt with
      | [] => s
      | c :: fmt =>
        if c = 0 then s
        else cprintfLoop fmt (cprintfDirective str args c s)

def cprintf (fmt : List UInt8) : Printed := cprintfLoop str args fmt ⟨[], 0⟩

/-- What `printf` does in the state `'%'`. -/
def printfDirective (c : UInt8) (s : Printed) : Printed :=
  if c = chr 'd' then (s.put (printint (args s.argp) 10 true)).next
  else if c = chr 'x' ∨ c = chr 'p' then (s.put (printint (args s.argp) 16 false)).next
  else if c = chr 's' then s.next.put (stringAt str (args s.argp))
  else if c = chr 'c' then (s.put [(args s.argp).toUInt8]).next
  else if c = chr '%' then s.put [c]
  else (s.put [chr '%']).put [c]

/-- The loop of `printf`, on the rest of the format; `state` is set after a `%`. -/
def printfLoop : List UInt8 → Bool → Printed → Printed
  | [], _, s => s
  | c :: fmt, state, s =>
    if c = 0 then s
    else if state = false then
      if c = chr '%' then printfLoop fmt true s else printfLoop fmt false (s.put [c])
    else printfLoop fmt false (printfDirective str args c s)

def printf (fmt : List UInt8) : Printed := printfLoop str args fmt false ⟨[], 0⟩

/-! ## What a format stands for -/

inductive Token
  | char (c : UInt8)
  | directive (c : UInt8)
  deriving DecidableEq

/-- The parts of a format; a `%` at its end stands for nothing. -/
def tokens : List UInt8 → List Token
  | [] => []
  | c :: fmt =>
    if c = 0 then []
    else if c ≠ chr '%' then .char c :: tokens fmt
    else
      match fmt with
      | [] => []
      | c :: fmt => if c = 0 then [] else .directive c :: tokens fmt

/-- A printed byte, or a digit of a hexadecimal numeral. -/
inductive Piece
  | byte (b : UInt8)
  | hex (d : ℕ)

/-- The byte that is printed, given the digits. -/
def Piece.render (digits : List UInt8) : Piece → UInt8
  | .byte b => b
  | .hex d => digits.getD d 0

/-- The digits of a number, the last one first. -/
def numeral (base n : ℕ) : List ℕ := if n = 0 then [0] else Nat.digits base n

/-- The number that a word stands for as an `int`. -/
def toSigned (w : UInt32) : ℤ := if belowZero w then w.toNat - 2 ^ 32 else w.toNat

def decimal (n : ℤ) : List UInt8 :=
  (if n < 0 then [chr '-'] else []) ++
    ((numeral 10 n.natAbs).map fun d => UInt8.ofNat (48 + d)).reverse

/-- Whether a part takes an argument. -/
def Token.takes : Token → Bool
  | .char _ => false
  | .directive c => decide (c = chr 'd' ∨ c = chr 'x' ∨ c = chr 'p' ∨ c = chr 's')

/-- What a part stands for, given the next argument. -/
def Token.pieces (arg : UInt32) : Token → List Piece
  | .char c => [.byte c]
  | .directive c =>
    if c = chr 'd' then (decimal (toSigned arg)).map .byte
    else if c = chr 'x' ∨ c = chr 'p' then ((numeral 16 arg.toNat).map .hex).reverse
    else if c = chr 's' then (stringAt str arg).map .byte
    else if c = chr '%' then [.byte c]
    else [.byte (chr '%'), .byte c]

/-- What the parts stand for, if `i` arguments have been taken. -/
def formatted : List Token → ℕ → List Piece
  | [], _ => []
  | t :: ts, i => t.pieces str (args i) ++ formatted ts (i + t.takes.toNat)

/-- How many arguments the parts take. -/
def taken (ts : List Token) : ℕ := ts.countP Token.takes

end

/-! ## The digits -/

/-- The loop of `printint` pushes the digits of the number, if the buffer has room for them. -/
lemma pushDigits_eq (digits : List UInt8) {base : UInt32} (hb : 1 < base.toNat) (room : ℕ)
    {x : UInt32} (hx : x.toNat < base.toNat ^ (room + 1)) :
    pushDigits digits base (room + 1) x = (numeral base.toNat x.toNat).map (digits.getD · 0) := by
  have hzero : ∀ y : UInt32, y = 0 ↔ y.toNat = 0 := fun y => by rw [← UInt32.toNat_inj]; rfl
  have hlast : ∀ y : UInt32, y.toNat < base.toNat → numeral base.toNat y.toNat = [y.toNat] := by
    intro y hy
    unfold numeral
    split_ifs with h0
    · rw [h0]
    · exact Nat.digits_of_lt _ _ h0 hy
  induction room generalizing x with
  | zero =>
    rw [Nat.zero_add, pow_one] at hx
    have hdiv : x / base = 0 := by rw [hzero, UInt32.toNat_div, Nat.div_eq_of_lt hx]
    rw [pushDigits, if_neg (not_not.mpr hdiv), hlast x hx, UInt32.toNat_mod, Nat.mod_eq_of_lt hx]
    rfl
  | succ room ih =>
    rw [pushDigits, UInt32.toNat_mod]
    by_cases hlt : x.toNat < base.toNat
    · have hdiv : x / base = 0 := by rw [hzero, UInt32.toNat_div, Nat.div_eq_of_lt hlt]
      rw [if_neg (not_not.mpr hdiv), hlast x hlt, Nat.mod_eq_of_lt hlt]
      rfl
    · have hpos : 0 < x.toNat / base.toNat := Nat.div_pos (not_lt.mp hlt) (by omega)
      have hdiv : x / base ≠ 0 := by rw [Ne, hzero, UInt32.toNat_div]; omega
      have hrest : (x / base).toNat < base.toNat ^ (room + 1) := by
        rw [UInt32.toNat_div]
        exact Nat.div_lt_of_lt_mul (by rwa [pow_succ'] at hx)
      have hnum : numeral base.toNat x.toNat
          = x.toNat % base.toNat :: numeral base.toNat (x.toNat / base.toNat) := by
        rw [numeral, numeral, if_neg (by omega), if_neg (by omega), Nat.digits_def' hb (by omega)]
      rw [if_pos hdiv, ih hrest, hnum, UInt32.toNat_div]
      rfl

lemma pushDigits_word (digits : List UInt8) {base : UInt32} (hb : base = 10 ∨ base = 16)
    (x : UInt32) :
    pushDigits digits base 16 x = (numeral base.toNat x.toNat).map (digits.getD · 0) := by
  have hx := x.toNat_lt
  refine pushDigits_eq digits ?_ 15 ?_
  · rcases hb with rfl | rfl <;> decide
  · rcases hb with rfl | rfl
    · exact hx.trans (by decide)
    · exact hx.trans (by decide)

lemma numeral_lt {base n d : ℕ} (hb : 1 < base) (h : d ∈ numeral base n) : d < base := by
  unfold numeral at h
  split_ifs at h
  · rw [List.mem_singleton.mp h]
    omega
  · exact Nat.digits_lt_base hb h

lemma map_decimal_digits {digits : List UInt8} (h : digits = lowerDigits ∨ digits = upperDigits)
    (n : ℕ) :
    (numeral 10 n).map (digits.getD · 0) = (numeral 10 n).map fun d => UInt8.ofNat (48 + d) := by
  refine List.map_congr_left fun d hd => ?_
  have hlt : d < 10 := numeral_lt (by norm_num) hd
  clear hd
  rcases h with rfl | rfl
  · revert d
    decide
  · revert d
    decide

lemma toNat_neg_of_belowZero {w : UInt32} (h : belowZero w = true) :
    (-w).toNat = (toSigned w).natAbs ∧ toSigned w < 0 := by
  have hge : 2 ^ 31 ≤ w.toNat := of_decide_eq_true h
  have hlt := w.toNat_lt
  rw [toSigned, if_pos h, UInt32.toNat_neg, UInt32.size]
  omega

lemma toSigned_of_not_belowZero {w : UInt32} (h : belowZero w = false) :
    w.toNat = (toSigned w).natAbs ∧ ¬ toSigned w < 0 := by
  rw [toSigned, if_neg (by rw [h]; exact Bool.noConfusion)]
  omega

lemma cprintint_signed (w : UInt32) : cprintint w 10 true = decimal (toSigned w) := by
  unfold cprintint decimal
  simp only [Bool.true_and, pushDigits_word _ (Or.inl rfl)]
  rw [show (10 : UInt32).toNat = 10 from rfl, map_decimal_digits (Or.inl rfl)]
  cases h : belowZero w with
  | true =>
    obtain ⟨hn, hneg⟩ := toNat_neg_of_belowZero h
    simp only [if_true, hn, if_pos hneg, List.reverse_append, List.reverse_singleton]
  | false =>
    obtain ⟨hn, hneg⟩ := toSigned_of_not_belowZero h
    simp only [Bool.false_eq_true, if_false, hn, if_neg hneg, List.nil_append]

lemma printint_signed (w : UInt32) : printint w 10 true = decimal (toSigned w) := by
  unfold printint decimal
  simp only [Bool.true_and]
  cases h : belowZero w with
  | true =>
    obtain ⟨hn, hneg⟩ := toNat_neg_of_belowZero h
    simp only [if_true, pushDigits_word _ (Or.inl rfl), if_pos hneg, List.reverse_append,
      List.reverse_singleton]
    rw [show (10 : UInt32).toNat = 10 from rfl, map_decimal_digits (Or.inr rfl), hn]
  | false =>
    obtain ⟨hn, hneg⟩ := toSigned_of_not_belowZero h
    simp only [Bool.false_eq_true, if_false, pushDigits_word _ (Or.inl rfl), if_neg hneg,
      List.nil_append]
    rw [show (10 : UInt32).toNat = 10 from rfl, map_decimal_digits (Or.inr rfl), hn]

lemma cprintint_hex (w : UInt32) :
    cprintint w 16 false = (((numeral 16 w.toNat).map Piece.hex).reverse).map
      (Piece.render lowerDigits) := by
  simp only [cprintint, Bool.false_and, Bool.false_eq_true, if_false,
    pushDigits_word _ (Or.inr rfl), List.map_reverse, List.map_map]
  rfl

lemma printint_hex (w : UInt32) :
    printint w 16 false = (((numeral 16 w.toNat).map Piece.hex).reverse).map
      (Piece.render upperDigits) := by
  simp only [printint, Bool.false_and, Bool.false_eq_true, if_false,
    pushDigits_word _ (Or.inr rfl), List.map_reverse, List.map_map]
  rfl

/-! ## The directives -/

section

variable {str : UInt32 → List UInt8} {args : ℕ → UInt32}

/-- A part is printed with the given digits. -/
def Printed.token (str : UInt32 → List UInt8) (args : ℕ → UInt32) (digits : List UInt8)
    (s : Printed) (t : Token) : Printed :=
  ⟨s.out ++ (t.pieces str (args s.argp)).map (Piece.render digits), s.argp + t.takes.toNat⟩

lemma map_render_byte (digits bs : List UInt8) :
    (bs.map Piece.byte).map (Piece.render digits) = bs := by
  rw [List.map_map]
  exact List.map_id bs

lemma token_char (digits : List UInt8) (c : UInt8) (s : Printed) :
    s.token str args digits (.char c) = s.put [c] := rfl

lemma token_signed (digits : List UInt8) (s : Printed) :
    s.token str args digits (.directive (chr 'd'))
      = (s.put (decimal (toSigned (args s.argp)))).next := by
  rw [Printed.token, Token.pieces, if_pos rfl, map_render_byte]
  rfl

lemma token_hex (digits : List UInt8) (s : Printed) {c : UInt8} (hc : c = chr 'x' ∨ c = chr 'p') :
    s.token str args digits (.directive c)
      = (s.put ((((numeral 16 (args s.argp).toNat).map Piece.hex).reverse).map
          (Piece.render digits))).next := by
  rcases hc with rfl | rfl <;> rfl

lemma token_string (digits : List UInt8) (s : Printed) :
    s.token str args digits (.directive (chr 's'))
      = (s.put (stringAt str (args s.argp))).next := by
  have : (Token.directive (chr 's')).pieces str (args s.argp)
      = (stringAt str (args s.argp)).map .byte := rfl
  rw [Printed.token, this, map_render_byte]
  rfl

lemma token_percent (digits : List UInt8) (s : Printed) :
    s.token str args digits (.directive (chr '%')) = s.put [chr '%'] := rfl

lemma token_unknown (digits : List UInt8) (s : Printed) {c : UInt8} (hd : c ≠ chr 'd')
    (hx : ¬ (c = chr 'x' ∨ c = chr 'p')) (hs : c ≠ chr 's') (hp : c ≠ chr '%') :
    s.token str args digits (.directive c) = (s.put [chr '%']).put [c] := by
  have htakes : (Token.directive c).takes = false := decide_eq_false (by tauto)
  rw [Printed.token, Token.pieces, if_neg hd, if_neg hx, if_neg hs, if_neg hp, htakes]
  simp [Printed.put, Piece.render]

lemma cprintfDirective_eq (c : UInt8) (s : Printed) :
    cprintfDirective str args c s = s.token str args lowerDigits (.directive c) := by
  unfold cprintfDirective
  split_ifs with hd hx hs hp
  · rw [hd, token_signed, cprintint_signed]
  · rw [token_hex _ _ hx, cprintint_hex]
  · rw [hs, token_string]
  · rw [hp, token_percent]
  · rw [token_unknown _ _ hd hx hs hp]

lemma printfDirective_eq {c : UInt8} (hc : c ≠ chr 'c') (s : Printed) :
    printfDirective str args c s = s.token str args upperDigits (.directive c) := by
  unfold printfDirective
  rw [if_neg hc]
  split_ifs with hd hx hs hp
  · rw [hd, token_signed, printint_signed]
  · rw [token_hex _ _ hx, printint_hex]
  · rw [hs, token_string]
    rfl
  · rw [hp, token_percent]
  · rw [token_unknown _ _ hd hx hs hp]

/-! ## The loops -/

lemma cprintfLoop_eq (fmt : List UInt8) (s : Printed) :
    cprintfLoop str args fmt s = (tokens fmt).foldl (Printed.token str args lowerDigits) s := by
  fun_induction tokens fmt generalizing s with
  | case1 => rfl
  | case2 fmt =>
    rw [cprintfLoop.eq_def]
    rfl
  | case3 c fmt h0 hc ih =>
    rw [cprintfLoop.eq_def]
    simp only [if_neg h0, if_pos hc, List.foldl_cons, token_char]
    exact ih _
  | case4 c h0 hc =>
    rw [cprintfLoop.eq_def]
    simp only [if_neg h0, if_neg hc]
    rfl
  | case5 c h0 hc fmt =>
    rw [cprintfLoop.eq_def]
    simp only [if_neg h0, if_neg hc, if_true]
    rfl
  | case6 c h0 hc d fmt hd ih =>
    rw [cprintfLoop.eq_def]
    simp only [if_neg h0, if_neg hc, if_neg hd, List.foldl_cons, cprintfDirective_eq]
    exact ih _

lemma printfLoop_eq (fmt : List UInt8) (hfmt : Token.directive (chr 'c') ∉ tokens fmt)
    (s : Printed) :
    printfLoop str args fmt false s
      = (tokens fmt).foldl (Printed.token str args upperDigits) s := by
  fun_induction tokens fmt generalizing s with
  | case1 => rfl
  | case2 fmt => rfl
  | case3 c fmt h0 hc ih =>
    rw [printfLoop, if_neg h0, if_pos rfl, if_neg hc, ih (fun h => hfmt (List.mem_cons_of_mem _ h))]
    rfl
  | case4 c h0 hc => rw [printfLoop, if_neg h0, if_pos rfl, if_pos (not_not.mp hc)]; rfl
  | case5 c h0 hc fmt => rw [printfLoop, if_neg h0, if_pos rfl, if_pos (not_not.mp hc)]; rfl
  | case6 c h0 hc d fmt hd ih =>
    -- the directive takes two turns
    have hne : d ≠ chr 'c' := fun h => hfmt (h ▸ List.mem_cons_self)
    rw [printfLoop, if_neg h0, if_pos rfl, if_pos (not_not.mp hc), printfLoop, if_neg hd,
      if_neg Bool.noConfusion, printfDirective_eq hne,
      ih (fun h => hfmt (List.mem_cons_of_mem _ h))]
    rfl

lemma foldl_token (digits : List UInt8) (ts : List Token) (s : Printed) :
    ts.foldl (Printed.token str args digits) s
      = ⟨s.out ++ (formatted str args ts s.argp).map (Piece.render digits),
        s.argp + taken ts⟩ := by
  induction ts generalizing s with
  | nil => simp [formatted, taken]
  | cons t ts ih =>
    rw [List.foldl_cons, ih]
    simp only [Printed.token, formatted, taken, List.map_append, List.append_assoc,
      List.countP_cons]
    congr 1
    cases t.takes
    · simp
    · simp
      omega

end

/-- **`cprintf` and `printf` print the same and take the same arguments**, up to the digits of the
hexadecimal numerals, if the format does not have the directive `%c`. -/
theorem printf_agree (str : UInt32 → List UInt8) (args : ℕ → UInt32) (fmt : List UInt8)
    (hfmt : Token.directive (chr 'c') ∉ tokens fmt) :
    cprintf str args fmt
      = ⟨(formatted str args (tokens fmt) 0).map (Piece.render lowerDigits),
        taken (tokens fmt)⟩ ∧
    printf str args fmt
      = ⟨(formatted str args (tokens fmt) 0).map (Piece.render upperDigits),
        taken (tokens fmt)⟩ := by
  refine ⟨?_, ?_⟩
  · rw [cprintf, cprintfLoop_eq, foldl_token]
    simp
  · rw [printf, printfLoop_eq fmt hfmt, foldl_token]
    simp

/-- A format that ends inside of a directive. -/
theorem printf_agree_unended :
    (cprintf (fun _ => []) (fun _ => 0xbeef) (chrs "%x 100%")).argp
      = (printf (fun _ => []) (fun _ => 0xbeef) (chrs "%x 100%")).argp ∧
    (cprintf (fun _ => []) (fun _ => 0xbeef) (chrs "%x 100%")).out = chrs "beef 100" ∧
    (printf (fun _ => []) (fun _ => 0xbeef) (chrs "%x 100%")).out = chrs "BEEF 100" := by
  obtain ⟨hk, hu⟩ :=
    printf_agree (fun _ => []) (fun _ => 0xbeef) (chrs "%x 100%") (by decide +kernel)
  refine ⟨?_, by decide +kernel, by decide +kernel⟩
  rw [hk, hu]

end Xv6
