import Mathlib.Data.Nat.Cast.Field
import Tabula.Number.Reader
import Tabula.Proofs.Number.Shortest

/-!
# Texts of numbers

The text of a number is read back: as the integer that it is (`read?_int`), or as a number that
rounds to the double that it is (`read?_write`). What rounds to a double tells its place on the
number line (`RoundsTo.orderKey_eq`). So numbers that computations yield are one number when they
are written alike (`orderKey_eq_of_text`), whether as integers or as doubles.
-/

set_option autoImplicit false

namespace Tabula

open Binary (ofPlace middle Rounds)

namespace Double

/-! ## Digits -/

theorem digitsValue_eq (cs : List Char) : digitsValue cs = Nat.ofDigitChars 10 cs 0 := by
  rw [Nat.ofDigitChars_eq_foldl, digitsValue]
  congr 1
  funext n c
  rw [Nat.mul_comm]

theorem digitsValue_toDigits (n : ℕ) : digitsValue (Nat.toDigits 10 n) = n := by
  rw [digitsValue_eq, Nat.ofDigitChars_ten_toDigits]

/-- Zeros at the end are powers of ten. -/
theorem digitsValue_append_zeros (n k : ℕ) :
    digitsValue (Nat.toDigits 10 n ++ List.replicate k '0') = n * 10 ^ k := by
  rw [digitsValue_eq, Nat.ofDigitChars_append, Nat.ofDigitChars_ten_toDigits,
    Nat.ofDigitChars_replicate_zero, Nat.mul_comm]

/-- Zeros at the beginning are nothing. -/
theorem digitsValue_zeros_append (n k : ℕ) :
    digitsValue (List.replicate k '0' ++ Nat.toDigits 10 n) = n := by
  rw [digitsValue_eq, Nat.ofDigitChars_append, Nat.ofDigitChars_replicate_zero, Nat.mul_zero,
    Nat.ofDigitChars_ten_toDigits]

theorem isDigit_toDigits (n : ℕ) : ∀ c ∈ Nat.toDigits 10 n, c.isDigit = true :=
  fun _ hc => Nat.isDigit_of_mem_toDigits (by decide) (by decide) hc

theorem isDigit_zeros (k : ℕ) : ∀ c ∈ List.replicate k '0', c.isDigit = true :=
  fun _ hc => (List.mem_replicate.mp hc).2 ▸ rfl

theorem isDigit_append {cs ds : List Char} (hcs : ∀ c ∈ cs, c.isDigit = true)
    (hds : ∀ c ∈ ds, c.isDigit = true) : ∀ c ∈ cs ++ ds, c.isDigit = true :=
  fun c hc => (List.mem_append.mp hc).elim (hcs c) (hds c)

/-! ## Reading decimals -/

def Writes (cs : List Char) (q : ℚ) : Prop := ∃ d, unsigned? cs = some d ∧ d.value = q

variable {whole fraction tail : List Char} {e : ℤ}

theorem span_digits (hwhole : ∀ c ∈ whole, c.isDigit = true)
    (htail : ∀ c ∈ tail.head?, c.isDigit = false) :
    (whole ++ tail).span Char.isDigit = (whole, tail) := by
  rw [List.span_eq_takeWhile_dropWhile, List.takeWhile_append_of_pos hwhole,
    List.dropWhile_append_of_pos hwhole]
  cases tail with
  | nil => simp
  | cons c tail => simp [htail c rfl]

/-- A decimal without a point. -/
theorem writes_whole (hwhole : ∀ c ∈ whole, c.isDigit = true) (hne : whole ≠ [])
    (htail : ∀ c ∈ tail.head?, c.isDigit = false ∧ c ≠ '.') (he : exponentOf? tail = some e) :
    Writes (whole ++ tail) (digitsValue whole * 10 ^ e) := by
  have hspan := span_digits hwhole fun c hc => (htail c hc).1
  refine ⟨{ digits := digitsValue whole, exponent := e }, ?_, rfl⟩
  rw [unsigned?]
  simp only [hspan, hne, false_and, if_false]
  split
  next => exact absurd rfl (htail '.' rfl).2
  next =>
      simp only [he, List.append_nil, Option.map_some, List.length_nil, Nat.cast_zero, sub_zero]

/-- A decimal with a point. -/
theorem writes_point (hwhole : ∀ c ∈ whole, c.isDigit = true) (hne : whole ≠ [])
    (hfraction : ∀ c ∈ fraction, c.isDigit = true) (htail : ∀ c ∈ tail.head?, c.isDigit = false)
    (he : exponentOf? tail = some e) :
    Writes (whole ++ '.' :: (fraction ++ tail))
      (digitsValue (whole ++ fraction) * 10 ^ (e - fraction.length)) := by
  have hspan : (whole ++ '.' :: (fraction ++ tail)).span Char.isDigit
      = (whole, '.' :: (fraction ++ tail)) :=
    span_digits hwhole fun c hc => by
      obtain rfl := Option.some.inj hc
      rfl
  refine ⟨{ digits := digitsValue (whole ++ fraction), exponent := e - fraction.length }, ?_, rfl⟩
  rw [unsigned?]
  simp only [hspan, span_digits hfraction htail, he, hne, false_and, if_false, Option.map_some]

/-- A decimal with a point and no exponent. -/
theorem writes_fraction (hwhole : ∀ c ∈ whole, c.isDigit = true) (hne : whole ≠ [])
    (hfraction : ∀ c ∈ fraction, c.isDigit = true) :
    Writes (whole ++ '.' :: fraction)
      (digitsValue (whole ++ fraction) * 10 ^ (-(fraction.length : ℤ))) := by
  have h := @writes_point whole fraction [] 0 hwhole hne hfraction (by simp) rfl
  rwa [List.append_nil, zero_sub] at h

/-- An exponent with its sign. -/
theorem exponentOf?_eq (e : ℤ) :
    exponentOf? ('e' :: (if e < 0 then '-' else '+') :: Nat.toDigits 10 e.natAbs) = some e := by
  have hdigits : (Nat.toDigits 10 e.natAbs).all Char.isDigit = true :=
    List.all_eq_true.mpr (isDigit_toDigits _)
  have hsign : splitSign ((if e < 0 then '-' else '+') :: Nat.toDigits 10 e.natAbs)
      = (decide (e < 0), Nat.toDigits 10 e.natAbs) := by
    split
    next h => rw [decide_eq_true h, splitSign]
    next h => rw [decide_eq_false h, splitSign]
  rw [exponentOf?]
  simp only [hsign, hdigits, Nat.toDigits_ne_nil, digitsValue_toDigits, ne_eq, not_false_iff,
    true_or, and_self, if_true, decide_eq_true_eq]
  split <;> congr 1 <;> omega

theorem unsigned?_eq_none {c : Char} {rest : List Char} (hdigit : c.isDigit = false)
    (hpoint : c ≠ '.') : unsigned? (c :: rest) = none := by
  have hspan := @span_digits [] (c :: rest) (by simp) fun c' hc' => by
    obtain rfl := Option.some.inj hc'
    exact hdigit
  rw [List.nil_append] at hspan
  rw [unsigned?]
  simp only [hspan]
  split
  next heq => exact absurd (List.cons.inj heq).1 hpoint
  next => simp

/-- What is read as an unsigned decimal has no sign. -/
theorem splitSign_of_unsigned? {cs : List Char} {d : Decimal} (h : unsigned? cs = some d) :
    splitSign cs = (false, cs) := by
  unfold splitSign
  split
  next =>
      rw [unsigned?_eq_none (by decide) (by decide)] at h
      cases h
  next =>
      rw [unsigned?_eq_none (by decide) (by decide)] at h
      cases h
  next => rfl

def read? (cs : List Char) : Option ℚ :=
  (unsigned? (splitSign cs).2).map fun d => if (splitSign cs).1 then -d.value else d.value

theorem Writes.read? {cs : List Char} {q : ℚ} (h : Writes cs q) : read? cs = some q := by
  obtain ⟨d, hd, rfl⟩ := h
  rw [Double.read?, splitSign_of_unsigned? hd, hd]
  rfl

theorem Writes.read?_negative {cs : List Char} {q : ℚ} (h : Writes cs q) :
    Double.read? ('-' :: cs) = some (-q) := by
  obtain ⟨d, hd, rfl⟩ := h
  rw [Double.read?, splitSign, hd]
  rfl

theorem read?_eq_none {c : Char} {rest : List Char} (hdigit : c.isDigit = false) (hpoint : c ≠ '.')
    (hminus : c ≠ '-') (hplus : c ≠ '+') : read? (c :: rest) = none := by
  have hsign : splitSign (c :: rest) = (false, c :: rest) := by
    unfold splitSign
    split
    next heq => exact absurd (List.cons.inj heq).1 hminus
    next heq => exact absurd (List.cons.inj heq).1 hplus
    next => rfl
  rw [read?, hsign, unsigned?_eq_none hdigit hpoint]
  rfl

theorem read?_int (i : ℤ) : read? (toString i).toList = some (i : ℚ) := by
  have hdigits (n : ℕ) : Writes (n.repr).toList n := by
    have h := @writes_whole _ [] 0 (isDigit_toDigits n) Nat.toDigits_ne_nil (by simp) rfl
    rwa [List.append_nil, digitsValue_toDigits, zpow_zero, mul_one, ← Nat.toList_repr] at h
  rw [Int.toString_eq_repr, Int.repr_eq_if]
  split
  next h =>
      rw [(hdigits _).read?]
      exact congrArg some (by exact_mod_cast Int.toNat_of_nonneg h)
  next h =>
      have hneg : -((-i).toNat : ℤ) = i := by omega
      rw [String.toList_append]
      exact (hdigits _).read?_negative.trans (congrArg some (by exact_mod_cast hneg))

end Double

namespace Layout

open Double

/-! ## Layouts -/

/-- Digits and zeros before the point. -/
theorem writes_integral (n k : ℕ) :
    Writes (Nat.toDigits 10 n ++ List.replicate k '0' ++ '.' :: ['0']) (n * 10 ^ (k : ℤ)) := by
  have hne : Nat.toDigits 10 n ≠ [] := Nat.toDigits_ne_nil
  have hwhole := isDigit_append (isDigit_toDigits n) (isDigit_zeros k)
  have hwrites := writes_fraction hwhole (by simp [hne]) (isDigit_zeros 1)
  have hzeros : digitsValue (Nat.toDigits 10 n ++ List.replicate k '0' ++ List.replicate 1 '0')
      = n * 10 ^ (k + 1) := by
    rw [List.append_assoc, List.replicate_append_replicate, digitsValue_append_zeros]
  have hpower : ((n * 10 ^ (k + 1) : ℕ) : ℚ) * 10 ^ (-((1 : ℕ) : ℤ)) = n * 10 ^ (k : ℤ) := by
    rw [Nat.cast_mul, Nat.cast_pow, Nat.cast_ofNat, mul_assoc, ← zpow_natCast,
      ← zpow_add₀ (by norm_num)]
    congr 2
    push_cast
    ring
  rwa [hzeros, List.length_replicate, hpower] at hwrites

/-- Digits on both sides of the point. -/
theorem writes_mixed (n : ℕ) {i : ℕ} (hi : i ≠ 0) :
    Writes ((Nat.toDigits 10 n).take i ++ '.' :: (Nat.toDigits 10 n).drop i)
      (n * 10 ^ (-((Nat.toDigits 10 n).length - i : ℕ) : ℤ)) := by
  have hne : Nat.toDigits 10 n ≠ [] := Nat.toDigits_ne_nil
  have htake : ∀ c ∈ (Nat.toDigits 10 n).take i, c.isDigit = true :=
    fun c hc => isDigit_toDigits n c (List.mem_of_mem_take hc)
  have hdrop : ∀ c ∈ (Nat.toDigits 10 n).drop i, c.isDigit = true :=
    fun c hc => isDigit_toDigits n c (List.mem_of_mem_drop hc)
  have hwrites := writes_fraction htake (by simp [hne, hi]) hdrop
  rwa [List.take_append_drop, digitsValue_toDigits, List.length_drop] at hwrites

/-- Zeros and digits after the point. -/
theorem writes_fractional (n k : ℕ) :
    Writes ('0' :: '.' :: (List.replicate k '0' ++ Nat.toDigits 10 n))
      (n * 10 ^ (-(k + (Nat.toDigits 10 n).length : ℕ) : ℤ)) := by
  have hfraction := isDigit_append (isDigit_zeros k) (isDigit_toDigits n)
  have hwrites := writes_fraction (isDigit_zeros 1) (by simp) hfraction
  rwa [← List.append_assoc, List.replicate_append_replicate, digitsValue_zeros_append,
    List.length_append, List.length_replicate] at hwrites

theorem writes_positionalText (d : Decimal) : Writes (json.positionalText d).toList d.value := by
  rw [positionalText, Decimal.value]
  split
  next h =>
      have hexp : (d.exponent.toNat : ℤ) = d.exponent := Int.toNat_of_nonneg h
      have hwrites := writes_integral d.digits d.exponent.toNat
      rw [hexp] at hwrites
      simp only [String.toList_append, String.toList_ofList, zeros]
      exact hwrites
  next h =>
      dsimp only
      split
      next hplaces =>
          -- the point stands among the digits
          generalize hi : (Nat.toDigits 10 d.digits).length - (-d.exponent).toNat = i
          have hexp : -(((Nat.toDigits 10 d.digits).length - i : ℕ) : ℤ) = d.exponent := by omega
          have hwrites := @writes_mixed d.digits i (by omega)
          rw [hexp] at hwrites
          simp only [String.toList_append, String.toList_ofList, List.append_assoc]
          exact hwrites
      next hplaces =>
          -- zeros stand between the point and the digits
          generalize hk : (-d.exponent).toNat - (Nat.toDigits 10 d.digits).length = k
          have hexp : -((k + (Nat.toDigits 10 d.digits).length : ℕ) : ℤ) = d.exponent := by omega
          have hwrites := writes_fractional d.digits k
          rw [hexp] at hwrites
          simp only [String.toList_append, String.toList_ofList, zeros]
          exact hwrites

theorem writes_scientificText (d : Decimal) : Writes (json.scientificText d).toList d.value := by
  have hdigits := isDigit_toDigits d.digits
  have hvalue := digitsValue_toDigits d.digits
  have hleading : d.leading = d.exponent + ((Nat.toDigits 10 d.digits).length : ℤ) - 1 := rfl
  have htext (mantissa : String) : (mantissa ++ "e" ++ (if d.leading < 0 then "-" else "+")
      ++ toString d.leading.natAbs).toList = mantissa.toList
        ++ 'e' :: (if d.leading < 0 then '-' else '+') :: Nat.toDigits 10 d.leading.natAbs := by
    rw [Nat.toString_eq_ofList_toDigits]
    simp only [String.toList_append, String.toList_ofList, List.append_assoc]
    split <;> rfl
  have htail (c : Char) (hc : c ∈ ('e' :: (if d.leading < 0 then '-' else '+')
      :: Nat.toDigits 10 d.leading.natAbs).head?) : c.isDigit = false ∧ c ≠ '.' := by
    obtain rfl := Option.some.inj hc
    decide
  have hexponent := exponentOf?_eq d.leading
  rw [scientificText, Decimal.value]
  -- one digit stands alone, several have the point after the first
  split
  next c heq =>
      rw [heq] at hdigits hvalue hleading
      have hexp : d.leading = d.exponent := by
        rw [hleading, List.length_singleton]
        omega
      have hwrites := writes_whole hdigits (by simp) htail hexponent
      rw [hvalue] at hwrites
      have hmantissa := htext (String.singleton c)
      rw [String.toList_singleton] at hmantissa
      rw [← hexp]
      exact hmantissa ▸ hwrites
  next c rest hrest heq =>
      rw [heq] at hdigits hvalue hleading
      obtain ⟨hfirst, hmore⟩ := List.forall_mem_cons.mp hdigits
      have hexp : d.leading - rest.length = d.exponent := by
        rw [hleading, List.length_cons]
        omega
      have hwrites := writes_point (List.forall_mem_singleton.mpr hfirst) (by simp) hmore
        (fun c hc => (htail c hc).1) hexponent
      rw [List.singleton_append, List.singleton_append, hvalue, hexp] at hwrites
      have hpoint : (String.singleton c ++ "." ++ String.ofList rest).toList
          = c :: '.' :: rest := by
        simp only [String.toList_append, String.toList_singleton, String.toList_ofList]
        rfl
      have hmantissa := htext (String.singleton c ++ "." ++ String.ofList rest)
      rw [hpoint] at hmantissa
      exact hmantissa ▸ hwrites
  next heq => exact absurd heq Nat.toDigits_ne_nil

/-- **The text of a double without its sign** writes its decimal, in either notation. -/
theorem writes_magnitude (d : Decimal) : Writes (if json.positional d.leading then
    json.positionalText d else json.scientificText d).toList d.value := by
  split
  next => exact writes_positionalText d
  next => exact writes_scientificText d

end Layout

namespace Double

/-! ## What rounds to a double -/

def signed (x : Float) (q : ℚ) : ℚ := if (Binary.ofFloat x).negative then -q else q

/-- Whether a number rounds to a double: to zero only itself, to any other double what has its sign
and rounds to it in magnitude. -/
def RoundsTo (x : Float) (q : ℚ) : Prop :=
  match place x with
  | 0 => q = 0
  | n + 1 => Rounds n (signed x q)

theorem roundsTo_of_zero {x : Float} (h : place x = 0) {q : ℚ} : RoundsTo x q ↔ q = 0 := by
  rw [RoundsTo, h]

theorem roundsTo_of_succ {x : Float} {n : ℕ} (h : place x = n + 1) {q : ℚ} :
    RoundsTo x q ↔ Rounds n (signed x q) := by
  rw [RoundsTo, h]

theorem signed_signed (x : Float) (q : ℚ) : signed x (signed x q) = q := by
  unfold signed
  split
  next => exact neg_neg q
  next => rfl

/-- What rounds to a double, by the side of zero on which the double stands. -/
theorem RoundsTo.side {x : Float} {q : ℚ} (h : RoundsTo x q) :
    (orderKey x = 0 ∧ q = 0) ∨ (∃ k : ℕ, orderKey x = k + 1 ∧ Rounds k q)
      ∨ ∃ k : ℕ, orderKey x = -(k + 1) ∧ Rounds k (-q) := by
  have hkey := Double.orderKey_eq x
  cases hplace : place x with
  | zero =>
      rw [hplace] at hkey
      exact Or.inl ⟨by simpa using hkey, (roundsTo_of_zero hplace).mp h⟩
  | succ k =>
      have hk := (roundsTo_of_succ hplace).mp h
      rw [hplace, Nat.cast_succ] at hkey
      rw [signed] at hk
      cases hsign : (Binary.ofFloat x).negative with
      | false =>
          rw [hsign] at hkey hk
          exact Or.inr (Or.inl ⟨k, hkey, hk⟩)
      | true =>
          rw [hsign] at hkey hk
          exact Or.inr (Or.inr ⟨k, hkey, hk⟩)

/-- **Rounding keeps the order.** -/
theorem RoundsTo.orderKey_le {x y : Float} {p q : ℚ} (hx : RoundsTo x p) (hy : RoundsTo y q)
    (h : p ≤ q) : orderKey x ≤ orderKey y := by
  rcases hx.side with ⟨hkx, hp⟩ | ⟨k, hkx, hk⟩ | ⟨k, hkx, hk⟩
  · rcases hy.side with ⟨hky, -⟩ | ⟨l, hky, -⟩ | ⟨l, hky, hl⟩
    · omega
    · omega
    · have := hl.pos
      linarith
  · rcases hy.side with ⟨hky, hq⟩ | ⟨l, hky, hl⟩ | ⟨l, hky, hl⟩
    · have := hk.pos
      linarith
    · have := hk.le_of_le hl h
      omega
    · have := hk.pos
      have := hl.pos
      linarith
  · rcases hy.side with ⟨hky, -⟩ | ⟨l, hky, -⟩ | ⟨l, hky, hl⟩
    · omega
    · omega
    · have := hl.le_of_le hk (neg_le_neg h)
      omega

/-- **What rounds to doubles tells their place** on the number line. -/
theorem RoundsTo.orderKey_eq {x y : Float} {q : ℚ} (hx : RoundsTo x q) (hy : RoundsTo y q) :
    orderKey x = orderKey y :=
  le_antisymm (hx.orderKey_le hy le_rfl) (hy.orderKey_le hx le_rfl)

theorem roundsTo_value (x : Float) : RoundsTo x (value x) := by
  have hmagnitude : (Binary.ofFloat x).magnitude = (ofPlace (place x)).magnitude := by
    rw [ofFloat_eq]
    rfl
  have hvalue : value x = signed x (ofPlace (place x)).magnitude := by
    rw [value, Binary.value, hmagnitude, signed]
  cases hplace : place x with
  | zero =>
      rw [roundsTo_of_zero hplace, hvalue, hplace, Binary.magnitude_ofPlace_zero, signed, neg_zero,
        ite_self]
  | succ n =>
      rw [roundsTo_of_succ hplace, hvalue, signed_signed, hplace]
      exact Binary.rounds_magnitude n

/-- **The text of a double is read back** as a number that rounds to it. -/
theorem read?_write (x : Float) :
    ∃ q, read? (Layout.json.write x).toList = some q ∧ RoundsTo x q := by
  generalize hd : Decimal.shortest x Layout.json.tie = d
  have hmagnitude := Layout.writes_magnitude d
  have hread : read? (Layout.json.write x).toList = some (signed x d.value) := by
    rw [Layout.write, hd, String.toList_append, signed]
    split
    next => exact hmagnitude.read?_negative
    next => exact hmagnitude.read?
  refine ⟨signed x d.value, hread, ?_⟩
  cases hplace : place x with
  | zero =>
      have hmantissa : (Binary.ofFloat x).mantissa = 0 := by
        rw [ofFloat_eq, hplace]
        rfl
      have hzero : d.value = 0 := by
        rw [← hd, Decimal.shortest, if_pos hmantissa, Decimal.value, Nat.cast_zero, zero_mul]
      rw [roundsTo_of_zero hplace, hzero, signed, neg_zero, ite_self]
  | succ n =>
      rw [roundsTo_of_succ hplace, signed_signed, ← hd]
      exact Decimal.rounds_shortest hplace _

theorem value_of_integer? {x : Float} {i : ℤ} (h : integer? x = some i) : value x = i := by
  have hsigned (b : Binary) (m : ℕ) :
      ((b.signed m : ℤ) : ℚ) = if b.negative then -(m : ℚ) else m := by
    unfold Binary.signed
    split <;> push_cast <;> rfl
  have hinteger : (Binary.ofFloat x).integer? = some i := by
    unfold integer? at h
    split at h
    next => exact h
    next => cases h
  rw [value, Binary.value, Binary.magnitude]
  generalize Binary.ofFloat x = b at hinteger
  unfold Binary.integer? at hinteger
  -- a power of two is multiplied by, or divides the mantissa
  split at hinteger
  next hexp =>
      rw [← Option.some.inj hinteger, hsigned, Nat.cast_mul, Nat.pow_eq, Nat.cast_pow,
        Nat.cast_ofNat, ← zpow_natCast, Int.toNat_of_nonneg hexp]
  next hexp =>
      dsimp only at hinteger
      split at hinteger
      next hmod =>
          have hpow : (2 : ℚ) ^ b.exponent = ((Nat.pow 2 (-b.exponent).toNat : ℕ) : ℚ)⁻¹ := by
            rw [Nat.pow_eq, Nat.cast_pow, Nat.cast_ofNat, ← zpow_natCast,
              Int.toNat_of_nonneg (by omega), zpow_neg, inv_inv]
          have hne : ((Nat.pow 2 (-b.exponent).toNat : ℕ) : ℚ) ≠ 0 := by
            rw [Nat.pow_eq]
            positivity
          rw [← Option.some.inj hinteger, hsigned, hpow, ← div_eq_mul_inv,
            Nat.cast_div (Nat.dvd_of_mod_eq_zero hmod) hne]
      next => cases hinteger

end Double

namespace Number

/-- The text of a computed number is read back as a number that rounds to the double. -/
theorem read?_text {x : Float} {n : Number} (h : ofComputed? x = some n) :
    ∃ q, Double.read? n.text.toList = some q ∧ Double.RoundsTo x q := by
  unfold ofComputed? at h
  split at h
  next i hi =>
      obtain rfl := Option.some.inj h
      split
      next =>
          refine ⟨i, Double.read?_int i, ?_⟩
          rw [← Double.value_of_integer? hi]
          exact Double.roundsTo_value x
      next => exact Double.read?_write x
  next =>
      split at h
      next =>
          obtain rfl := Option.some.inj h
          exact Double.read?_write x
      next => cases h

/-- **Computed numbers that are written alike stand at one place**, whether they are written as
integers or as doubles. -/
theorem orderKey_eq_of_text {x y : Float} {m n : Number} (hx : ofComputed? x = some m)
    (hy : ofComputed? y = some n) (h : m.text = n.text) :
    Double.orderKey x = Double.orderKey y := by
  obtain ⟨p, hp, hxp⟩ := read?_text hx
  obtain ⟨q, hq, hyq⟩ := read?_text hy
  rw [h, hq] at hp
  obtain rfl := Option.some.inj hp
  exact hxp.orderKey_eq hyq

end Number

end Tabula
