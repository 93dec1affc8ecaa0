import Tabula.Proofs.Json.Canonical
import Tabula.Proofs.Json.Printing
import Tabula.Run.Saved

/-!
# Names of saved queries

Two queries have one name just when the digests of their canonical forms begin with the same bytes
(`queryId_eq_iff`): the digits of base 64 and their replacement for paths tell different bytes apart
(`Base64.digits_injective`). Canonical forms, in turn, are told apart by what is written of them. So
queries of one name are reorderings of each other unless their digests collide (`identifies`).
-/

set_option autoImplicit false

namespace Tabula

/-! ## Bytes of a text -/

namespace Text

theorem toList_loop (bytes : ByteArray) (i : ℕ) (read : List UInt8) :
    ByteArray.toList.loop bytes i read = read.reverse ++ bytes.data.toList.drop i := by
  fun_induction ByteArray.toList.loop bytes i read with
  | case1 i read hlt ih =>
      have hi : i < bytes.data.toList.length := hlt
      have hget : bytes.data.toList[i] = bytes.get! i := by
        show _ = bytes.data[i]!
        rw [Array.getElem_toList, getElem!_pos bytes.data i hlt]
      rw [ih, List.reverse_cons, List.append_assoc, List.drop_eq_getElem_cons hi, hget]
      rfl
  | case2 i read hlt => rw [List.drop_eq_nil_of_le (not_lt.mp hlt), List.append_nil]

theorem bytes_injective : Function.Injective fun s : String => s.toUTF8.toList := by
  have hdata (bytes : ByteArray) : bytes.toList = bytes.data.toList := toList_loop bytes 0 []
  intro s t h
  have h : s.toUTF8.toList = t.toUTF8.toList := h
  rw [hdata, hdata] at h
  exact String.toByteArray_inj.mp (ByteArray.ext (Array.toList_inj.mp h))

end Text

/-! ## Digits -/

namespace Base64

theorem nodup_alphabet : alphabet.Nodup := by decide +kernel

theorem digit_eq (n : ℕ) : ∃ h : n % 64 < alphabet.length, digit n = alphabet[n % 64] := by
  have hlength : alphabet.length = 64 := rfl
  have h : n % 64 < alphabet.length := by
    rw [hlength]
    exact Nat.mod_lt n (by decide)
  exact ⟨h, (List.getElem_eq_getD '=').symm⟩

theorem digit_mem (n : ℕ) : digit n ∈ alphabet := by
  obtain ⟨h, hdigit⟩ := digit_eq n
  exact hdigit ▸ List.getElem_mem h

theorem digit_ne (n : ℕ) : digit n ≠ '=' := by
  intro h
  have hmem := digit_mem n
  rw [h] at hmem
  exact absurd hmem (by decide +kernel)

theorem ne_digit (n : ℕ) : '=' ≠ digit n := (digit_ne n).symm

/-- A digit tells the lowest six bits. -/
theorem mod_of_digit {m n : ℕ} (h : digit m = digit n) : m % 64 = n % 64 := by
  obtain ⟨hm, hdigitm⟩ := digit_eq m
  obtain ⟨hn, hdigitn⟩ := digit_eq n
  rw [hdigitm, hdigitn] at h
  exact (nodup_alphabet.getElem_inj_iff).mp h

/-- The bits of two bytes, the most significant first. -/
theorem bits_two (a b : UInt8) : a.toNat <<< 8 ||| b.toNat = a.toNat * 256 + b.toNat := by
  rw [← Nat.shiftLeft_add_eq_or_of_lt b.toNat_lt, Nat.shiftLeft_eq]

/-- The bits of three bytes, the most significant first. -/
theorem bits_three (a b c : UInt8) : a.toNat <<< 16 ||| b.toNat <<< 8 ||| c.toNat
    = a.toNat * 65536 + b.toNat * 256 + c.toNat := by
  have hhigh : a.toNat <<< 16 ||| b.toNat <<< 8 = (a.toNat * 256 + b.toNat) <<< 8 := by
    rw [← bits_two, Nat.shiftLeft_or_distrib, ← Nat.shiftLeft_add]
  rw [hhigh, ← Nat.shiftLeft_add_eq_or_of_lt c.toNat_lt, Nat.shiftLeft_eq]
  ring

/-- **Different bytes have different digits.** -/
theorem digits_injective : Function.Injective digits := by
  intro xs ys h
  -- on groups of three bytes: a digit tells six bits, and the filling tells the length
  induction xs using digits.induct generalizing ys with
  | case1 =>
      match ys with
      | [] => rfl
      | [_] | [_, _] | _ :: _ :: _ :: _ => cases h
  | case2 a =>
      match ys with
      | [] => cases h
      | [b] =>
          simp only [digits, List.cons.injEq, Nat.shiftLeft_eq, Nat.shiftRight_eq_div_pow] at h
          obtain ⟨hhigh, hlow, -⟩ := h
          have hhigh := mod_of_digit hhigh
          have hlow := mod_of_digit hlow
          have ha := a.toNat_lt
          have hb := b.toNat_lt
          rw [UInt8.toNat_inj.mp (show a.toNat = b.toNat by omega)]
      | [_, _] | _ :: _ :: _ :: _ => simp [digits, ne_digit] at h
  | case3 a b =>
      match ys with
      | [] => cases h
      | [a', b'] =>
          simp only [digits, List.cons.injEq, bits_two] at h
          simp only [Nat.shiftLeft_eq, Nat.shiftRight_eq_div_pow] at h
          obtain ⟨hhigh, hmiddle, hlow, -⟩ := h
          have hhigh := mod_of_digit hhigh
          have hmiddle := mod_of_digit hmiddle
          have hlow := mod_of_digit hlow
          have ha := a.toNat_lt
          have ha' := a'.toNat_lt
          have hb := b.toNat_lt
          have hb' := b'.toNat_lt
          rw [UInt8.toNat_inj.mp (show a.toNat = a'.toNat by omega),
            UInt8.toNat_inj.mp (show b.toNat = b'.toNat by omega)]
      | [_] | _ :: _ :: _ :: _ => simp [digits, digit_ne, ne_digit] at h
  | case4 a b c xs ih =>
      match ys with
      | [] => cases h
      | a' :: b' :: c' :: ys =>
          simp only [digits, List.cons.injEq, bits_three, Nat.shiftRight_eq_div_pow] at h
          obtain ⟨h18, h12, h6, h0, hrest⟩ := h
          have h18 := mod_of_digit h18
          have h12 := mod_of_digit h12
          have h6 := mod_of_digit h6
          have h0 := mod_of_digit h0
          have ha := a.toNat_lt
          have ha' := a'.toNat_lt
          have hb := b.toNat_lt
          have hb' := b'.toNat_lt
          have hc := c.toNat_lt
          have hc' := c'.toNat_lt
          rw [UInt8.toNat_inj.mp (show a.toNat = a'.toNat by omega),
            UInt8.toNat_inj.mp (show b.toNat = b'.toNat by omega),
            UInt8.toNat_inj.mp (show c.toNat = c'.toNat by omega), ih hrest]
      | [_] | [_, _] => simp [digits, digit_ne] at h

/-- The digits that stand for others in a path. -/
theorem notMem_digits (bytes : List UInt8) : '_' ∉ digits bytes := by
  have hfilling : '_' ≠ '=' := by decide
  have hdigit (n : ℕ) : '_' ≠ digit n := by
    intro h
    have hmem := digit_mem n
    rw [← h] at hmem
    exact absurd hmem (by decide +kernel)
  induction bytes using digits.induct with
  | case1 => exact List.not_mem_nil
  | case2 a => simp [digits, hdigit]
  | case3 a b => simp [digits, hdigit]
  | case4 a b c rest ih => simp [digits, hdigit, ih]

end Base64

/-! ## Names -/

/-- The bytes that are digested for the name of a query. -/
def idText (query : Json) : List UInt8 := query.canonical.compact.toUTF8.toList

def idDigest (text : List UInt8) : List UInt8 := (Sha1.digest text).take idBytes

/-- **Queries have one name just when their digests begin alike.** -/
theorem queryId_eq_iff {v w : Json} :
    queryId v = queryId w ↔ idDigest (idText v) = idDigest (idText w) := by
  have hpath {cs : List Char} (h : '_' ∉ cs) :
      (cs.map fun c => if c = '/' then '_' else c).map (fun c => if c = '_' then '/' else c)
        = cs := by
    rw [List.map_map]
    refine (List.map_congr_left fun c hc => ?_).trans (List.map_id cs)
    have hne : c ≠ '_' := fun h' => h (h' ▸ hc)
    by_cases hslash : c = '/'
    · simp [hslash]
    · simp [hslash, hne]
  constructor
  · intro h
    have hchars := congrArg (·.toList.map fun c => if c = '_' then '/' else c) h
    simp only [queryId, String.toList_ofList, hpath (Base64.notMem_digits _)] at hchars
    exact Base64.digits_injective hchars
  · intro h
    rw [idDigest, idDigest, idText, idText] at h
    simp only [queryId, h]

/-- Whether two texts are told apart by the beginning of their digests. -/
def Tells (x y : List UInt8) : Prop := idDigest x = idDigest y → x = y

/-- **The name of a query is that of its reorderings**, which have one canonical form and that form
for their own, and of no other query whose text its digest tells apart. -/
theorem queryId_identifies {v w : Json} (hv : v.namesDistinct = true) :
    (v.canonical = w.canonical ↔ Json.Reordered v w)
    ∧ v.canonical.canonical = v.canonical
    ∧ (Json.Reordered v w → queryId v = queryId w)
    ∧ (Tells (idText v) (idText w) → queryId v = queryId w → Json.Reordered v w) := by
  refine ⟨Json.canonical_eq_iff hv, Json.canonical_canonical v, ?_, ?_⟩
  · intro h
    rw [queryId_eq_iff, idText, idText, h.canonical_eq hv]
  · intro hdigest h
    have htexts := Text.bytes_injective (hdigest (queryId_eq_iff.mp h))
    exact (Json.canonical_eq_iff hv).mp (Json.compact_injective htexts)

def limited (limit : Int) : Json := .obj [("from", .str "t"), ("limit", .int limit)]

theorem canonical_limited (limit : Int) : (limited limit).canonical = limited limit := by
  rw [limited, Json.canonical_obj]
  have horder : Text.le "from" "limit" = true := by decide
  exact congrArg Json.obj (List.mergeSort_of_pairwise (List.pairwise_pair.mpr horder))

theorem queryId_identifies_limited :
    queryId (limited 5) = queryId (.obj [("limit", .int 5), ("from", .str "t")])
    ∧ queryId (limited 5) ≠ queryId (limited 6) := by
  have hdistinct : (limited 5).namesDistinct = true := by decide
  have htells : Tells (idText (limited 5)) (idText (limited 6)) := by
    rw [idText, idText, canonical_limited, canonical_limited]
    exact fun hdigest => absurd hdigest (by decide +kernel)
  refine ⟨(queryId_identifies hdistinct).2.2.1 (.single (.here (.swap _ _ _))), fun h => ?_⟩
  obtain ⟨hcanonical, -, -, hother⟩ := queryId_identifies (w := limited 6) hdistinct
  have hsame := congrArg Json.compact (hcanonical.mpr (hother htells h))
  rw [canonical_limited, canonical_limited] at hsame
  exact absurd hsame (by decide)

end Tabula
