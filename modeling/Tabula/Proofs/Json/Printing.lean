import Tabula.Proofs.Edge.Value
import Tabula.Proofs.Json.Same
import Tabula.Proofs.Json.Texts
import Tabula.Proofs.Number.Characters

/-!
# Written values

Different values are written differently (`compact_injective`), members in another order and
integers and doubles of one value among them. The first character tells of what kind a value is
(`kindAt_compact`), and a text that begins with a value begins with no other one, since a number
ends where no more numerals follow (`compact_append_inj`). Numbers are told apart by the number that
is read from their text, and by the point or exponent that only doubles have (`text_injective`).
-/

set_option autoImplicit false

namespace Tabula

/-! ## Numbers -/

namespace Double

/-- A double is its place on the number line with its sign. -/
theorem eq_of_orderKey_of_negative {x y : Float} (hkey : orderKey x = orderKey y)
    (hsign : (Binary.ofFloat x).negative = (Binary.ofFloat y).negative) : x = y := by
  have hltx := x.toBits.toNat_lt
  have hlty := y.toBits.toNat_lt
  refine eq_of_toBits (UInt64.toNat_inj.mp ?_)
  have hside : 2 ^ 63 ≤ x.toBits.toNat ↔ 2 ^ 63 ≤ y.toBits.toNat := decide_eq_decide.mp hsign
  simp only [orderKey, Nat.pow_eq] at hkey
  split at hkey
  next hx =>
      rw [if_pos (by omega)] at hkey
      omega
  next hx =>
      rw [if_neg (by omega)] at hkey
      omega

/-- The text of a double has its sign. -/
theorem splitSign_write (x : Float) :
    (splitSign (Layout.json.write x).toList).1 = (Binary.ofFloat x).negative := by
  generalize hd : Decimal.shortest x Layout.json.tie = d
  obtain ⟨_, hunsigned, -⟩ := Layout.writes_magnitude d
  rw [Layout.write, hd, String.toList_append]
  cases (Binary.ofFloat x).negative with
  | true => rfl
  | false => exact congrArg Prod.fst (splitSign_of_unsigned? hunsigned)

/-- **Different doubles are written differently.** -/
theorem write_injective : Function.Injective Layout.json.write := by
  intro x y h
  obtain ⟨p, hp, hx⟩ := read?_write x
  obtain ⟨q, hq, hy⟩ := read?_write y
  rw [h, hq] at hp
  obtain rfl := Option.some.inj hp
  refine eq_of_orderKey_of_negative (hx.orderKey_eq hy) ?_
  rw [← splitSign_write, ← splitSign_write, h]

end Double

namespace Number

/-- The text of a double has a point or an exponent. -/
theorem exists_mem_write (x : Float) : ∃ c ∈ (Layout.json.write x).toList, c = '.' ∨ c = 'e' := by
  have hwithin {s t : String} (h : ∃ c ∈ t.toList, c = '.' ∨ c = 'e') :
      ∃ c ∈ (s ++ t).toList, c = '.' ∨ c = 'e' := by
    obtain ⟨c, hc, hor⟩ := h
    exact ⟨c, by simp [hc], hor⟩
  rw [Layout.write]
  refine hwithin ?_
  split
  next =>
      refine ⟨'.', ?_, Or.inl rfl⟩
      rw [Layout.positionalText]
      split
      next => simp [Layout.json]
      next =>
          dsimp only
          split
          next => simp
          next => simp
  next =>
      refine ⟨'e', ?_, Or.inr rfl⟩
      rw [Layout.scientificText]
      simp

/-- The text of an integer has neither. -/
theorem not_mem_toString {i : ℤ} {c : Char} (hc : c ∈ (toString i).toList) :
    c ≠ '.' ∧ c ≠ 'e' := by
  have hdigits {n : ℕ} (h : c ∈ (n.repr).toList) : c ≠ '.' ∧ c ≠ 'e' := by
    rw [Nat.toList_repr] at h
    have hdigit := Double.isDigit_toDigits n c h
    constructor <;> rintro rfl <;> cases hdigit
  rw [Int.toString_eq_repr, Int.repr_eq_if] at hc
  split at hc
  next => exact hdigits hc
  next =>
      rw [String.toList_append] at hc
      rcases List.mem_append.mp hc with hminus | hc
      · obtain rfl := List.mem_singleton.mp hminus
        decide
      · exact hdigits hc

/-- **Different numbers are written differently**, an integer and its double among them. -/
theorem text_injective : Function.Injective text := by
  have hmixed (i : ℤ) (x : Float) : toString i ≠ Layout.json.write x := by
    intro h
    obtain ⟨c, hc, hor⟩ := exists_mem_write x
    rw [← h] at hc
    exact hor.elim (not_mem_toString hc).1 (not_mem_toString hc).2
  intro m n h
  cases m with
  | int i =>
      cases n with
      | int j =>
          have hi := Double.read?_int i
          rw [show toString i = toString j from h, Double.read?_int] at hi
          exact congrArg int (Int.cast_injective (Option.some.inj hi)).symm
      | float y => exact absurd h (hmixed i y)
  | float x =>
      cases n with
      | int j => exact absurd h.symm (hmixed j x)
      | float y => exact congrArg float (Double.write_injective h)

/-- A number is written with at least one character. -/
theorem exists_text_eq_cons (n : Number) : ∃ c cs, n.text.toList = c :: cs ∧ IsNumeral c := by
  cases htext : n.text.toList with
  | cons c cs =>
      exact ⟨c, cs, rfl, isNumeral_text n c (htext ▸ List.mem_cons_self)⟩
  | nil =>
      have hread : Double.read? ([] : List Char) = none := rfl
      cases n with
      | int i =>
          have hi := Double.read?_int i
          rw [show (toString i).toList = [] from htext, hread] at hi
          cases hi
      | float x =>
          obtain ⟨q, hq, -⟩ := Double.read?_write x
          rw [show (Layout.json.write x).toList = [] from htext, hread] at hq
          cases hq

end Number

namespace Json

/-! ## Where a value ends -/

/-- No numeral follows. -/
def Stops (rest : List Char) : Prop := ∀ c ∈ rest.head?, ¬ IsNumeral c

theorem stops_cons {c : Char} (h : ¬ IsNumeral c) (rest : List Char) : Stops (c :: rest) := by
  intro c' hc'
  rwa [← Option.some.inj hc']

theorem numerals_append_inj {cs ds rest rest' : List Char} (hcs : ∀ c ∈ cs, IsNumeral c)
    (hds : ∀ c ∈ ds, IsNumeral c) (hrest : Stops rest) (hrest' : Stops rest')
    (h : cs ++ rest = ds ++ rest') : cs = ds ∧ rest = rest' := by
  have hspan {cs rest : List Char} (hcs : ∀ c ∈ cs, IsNumeral c) (hrest : Stops rest) :
      (cs ++ rest).takeWhile (fun c => decide (IsNumeral c)) = cs := by
    rw [List.takeWhile_append_of_pos fun c hc => decide_eq_true (hcs c hc)]
    cases rest with
    | nil => simp
    | cons c rest => simp [hrest c rfl]
  have hequal : cs = ds := by rw [← hspan hcs hrest, h, hspan hds hrest']
  exact ⟨hequal, List.append_cancel_left (hequal ▸ h)⟩

/-! ## Kinds -/

/-- What a text begins with: null, a boolean, a text, an array, an object or a number. -/
def kindAt : List Char → ℕ
  | 'n' :: _ => 0
  | 't' :: _ | 'f' :: _ => 1
  | '"' :: _ => 2
  | '[' :: _ => 3
  | '\x7b' :: _ => 4
  | _ => 5

def writtenKind : Json → ℕ
  | null => 0
  | bool _ => 1
  | str _ => 2
  | arr _ => 3
  | obj _ => 4
  | num _ => 5

theorem kindAt_of_isNumeral {c : Char} (h : IsNumeral c) (rest : List Char) :
    kindAt (c :: rest) = 5 := by
  have hother : c ∉ ['n', 't', 'f', '"', '[', '\x7b'] := by
    intro hc
    simp only [List.mem_cons, List.not_mem_nil, or_false] at hc
    rcases hc with rfl | rfl | rfl | rfl | rfl | rfl
    all_goals exact absurd h (by decide)
  unfold kindAt
  split <;> simp_all

/-- **A written value tells of what kind it is**, whatever follows. -/
theorem kindAt_compact (v : Json) (rest : List Char) :
    kindAt (v.compact.toList ++ rest) = v.writtenKind := by
  cases v with
  | null => rfl
  | bool b => cases b <;> rfl
  | num n =>
      obtain ⟨c, cs, htext, hc⟩ := n.exists_text_eq_cons
      rw [compact, htext]
      exact kindAt_of_isNumeral hc _
  | str s =>
      rw [compact, toList_quote]
      rfl
  | arr items =>
      rw [compact, String.toList_append, String.toList_append]
      rfl
  | obj fields =>
      rw [compact, String.toList_append, String.toList_append]
      rfl

/-! ## Lists -/

section Lists

variable {α : Type} {write : α → List Char}

def joined (write : α → List Char) : List α → List Char
  | [] => []
  | a :: rest => write a ++ rest.flatMap fun b => ',' :: write b

/-- Whether an element is told from any other one by what is written, when no numerals follow. -/
def Told (write : α → List Char) (a : α) : Prop :=
  ∀ (b : α) (rest rest' : List Char), Stops rest → Stops rest' →
    write a ++ rest = write b ++ rest' → a = b ∧ rest = rest'

theorem stops_more (bs : List α) {close : Char} (hclose : ¬ IsNumeral close) (rest : List Char) :
    Stops ((bs.flatMap fun b => ',' :: write b) ++ close :: rest) := by
  cases bs with
  | nil => exact stops_cons hclose rest
  | cons b bs => exact stops_cons (by decide) _

/-- Elements after the first are told up to the closing character. -/
theorem more_append_inj {as bs : List α} {close : Char} (hclose : ¬ IsNumeral close)
    (hcomma : close ≠ ',') (has : ∀ a ∈ as, Told write a) {rest rest' : List Char}
    (h : (as.flatMap fun a => ',' :: write a) ++ close :: rest
      = (bs.flatMap fun b => ',' :: write b) ++ close :: rest') : as = bs ∧ rest = rest' := by
  induction as generalizing bs with
  | nil =>
      cases bs with
      | nil => exact ⟨rfl, (List.cons.inj h).2⟩
      | cons b bs => exact absurd (List.cons.inj h).1 hcomma
  | cons a as ih =>
      cases bs with
      | nil => exact absurd (List.cons.inj h).1.symm hcomma
      | cons b bs =>
          rw [List.flatMap_cons, List.flatMap_cons, List.append_assoc, List.append_assoc] at h
          obtain ⟨ha, has⟩ := List.forall_mem_cons.mp has
          obtain ⟨rfl, hmore⟩ := ha b _ _ (stops_more as hclose rest) (stops_more bs hclose rest')
            (List.cons.inj h).2
          obtain ⟨rfl, hrest⟩ := ih has hmore
          exact ⟨rfl, hrest⟩

/-- **Lists are told up to the closing character**, when their elements are and none of them begins
with it. -/
theorem joined_append_inj {as bs : List α} {close : Char} (hclose : ¬ IsNumeral close)
    (hcomma : close ≠ ',') (hfirst : ∀ a rest rest', write a ++ rest ≠ close :: rest')
    (has : ∀ a ∈ as, Told write a) {rest rest' : List Char}
    (h : joined write as ++ close :: rest = joined write bs ++ close :: rest') :
    as = bs ∧ rest = rest' := by
  -- an empty list is told by its closing character, which no element begins with
  cases as with
  | nil =>
      cases bs with
      | nil => exact ⟨rfl, (List.cons.inj h).2⟩
      | cons b bs =>
          rw [joined, joined, List.append_assoc] at h
          exact absurd h.symm (hfirst b _ rest)
  | cons a as =>
      cases bs with
      | nil =>
          rw [joined, joined, List.append_assoc] at h
          exact absurd h (hfirst a _ rest')
      | cons b bs =>
          rw [joined, joined, List.append_assoc, List.append_assoc] at h
          obtain ⟨ha, has⟩ := List.forall_mem_cons.mp has
          obtain ⟨rfl, hmore⟩ := ha b _ _ (stops_more as hclose rest) (stops_more bs hclose rest') h
          obtain ⟨rfl, hrest⟩ := more_append_inj hclose hcomma has hmore
          exact ⟨rfl, hrest⟩

end Lists

/-! ## Values -/

def writtenField (f : String × Json) : List Char :=
  (quote f.1).toList ++ ':' :: f.2.compact.toList

theorem toList_compactItems (items : List Json) :
    (compactItems items).toList = joined (fun v => v.compact.toList) items := by
  induction items with
  | nil => rfl
  | cons v items ih =>
      cases items with
      | nil => simp [compactItems, joined]
      | cons w items =>
          rw [compactItems, String.toList_append, String.toList_append, ih, joined, joined,
            List.flatMap_cons, List.append_assoc]
          · rfl
          · exact List.cons_ne_nil _ _

theorem toList_compactFields (fields : Fields) :
    (compactFields fields).toList = joined writtenField fields := by
  induction fields with
  | nil => rfl
  | cons f fields ih =>
      cases fields with
      | nil => simp [compactFields, joined, writtenField]
      | cons g fields =>
          rw [compactFields, String.toList_append, ih, joined, joined, List.flatMap_cons]
          · simp [writtenField]
          · exact List.cons_ne_nil _ _

theorem toList_compact_arr (items : List Json) (rest : List Char) :
    (arr items).compact.toList ++ rest
      = '[' :: (joined (fun v => v.compact.toList) items ++ ']' :: rest) := by
  rw [compact, String.toList_append, String.toList_append, toList_compactItems]
  simp

theorem toList_compact_obj (fields : Fields) (rest : List Char) :
    (obj fields).compact.toList ++ rest
      = '\x7b' :: (joined writtenField fields ++ '\x7d' :: rest) := by
  rw [compact, String.toList_append, String.toList_append, toList_compactFields]
  simp

theorem quote_append_inj {s t : String} {rest rest' : List Char}
    (h : (quote s).toList ++ rest = (quote t).toList ++ rest') : s = t ∧ rest = rest' := by
  rw [toList_quote, toList_quote, List.cons_append, List.cons_append, List.append_assoc,
    List.append_assoc] at h
  have hread := congrArg Parser.string (List.cons.inj h).2
  rw [List.singleton_append, List.singleton_append, string_escaped, string_escaped] at hread
  obtain ⟨hlists, hrest⟩ := Prod.mk.inj (Option.some.inj hread)
  exact ⟨String.toList_inj.mp hlists, hrest⟩

theorem compact_ne (v : Json) (rest rest' : List Char) :
    v.compact.toList ++ rest ≠ ']' :: rest' := by
  intro h
  have hkind := kindAt_compact v rest
  rw [h] at hkind
  cases v with
  | num n =>
      obtain ⟨c, cs, htext, hc⟩ := n.exists_text_eq_cons
      rw [compact, htext] at h
      obtain rfl := (List.cons.inj h).1
      exact absurd hc (by decide)
  | _ => cases hkind

theorem writtenField_ne (f : String × Json) (rest rest' : List Char) :
    writtenField f ++ rest ≠ '\x7d' :: rest' := by
  rw [writtenField, toList_quote]
  exact fun h => absurd (List.cons.inj h).1 (by decide)

/-- A member is told when its value is. -/
theorem told_writtenField {f : String × Json} (h : Told (fun v : Json => v.compact.toList) f.2) :
    Told writtenField f := by
  intro g rest rest' hstops hstops' heq
  rw [writtenField, writtenField, List.append_assoc, List.append_assoc] at heq
  obtain ⟨hname, hvalues⟩ := quote_append_inj heq
  obtain ⟨hvalue, hrest⟩ := h g.2 rest rest' hstops hstops' (List.cons.inj hvalues).2
  exact ⟨Prod.ext hname hvalue, hrest⟩

/-- **A text that begins with a value begins with no other one.** -/
theorem compact_append_inj (v : Json) : Told (fun v : Json => v.compact.toList) v := by
  -- the first character tells the kind of a value
  have hkind {v w : Json} {rest rest' : List Char}
      (h : v.compact.toList ++ rest = w.compact.toList ++ rest') :
      v.writtenKind = w.writtenKind := by
    rw [← kindAt_compact v rest, h, kindAt_compact]
  induction v with
  | null =>
      intro w rest rest' hstops hstops' h
      cases w with
      | null => exact ⟨rfl, List.append_cancel_left h⟩
      | _ => cases hkind h
  | bool a =>
      intro w rest rest' hstops hstops' h
      cases w with
      | bool b =>
          have hab : a = b := by
            cases a <;> cases b
            all_goals first | rfl | cases (List.cons.inj h).1
          subst hab
          exact ⟨rfl, List.append_cancel_left h⟩
      | _ => cases hkind h
  | num m =>
      intro w rest rest' hstops hstops' h
      cases w with
      | num n =>
          simp only [compact] at h
          obtain ⟨htext, hrest⟩ :=
            numerals_append_inj m.isNumeral_text n.isNumeral_text hstops hstops' h
          exact ⟨congrArg num (Number.text_injective (String.toList_inj.mp htext)), hrest⟩
      | _ => cases hkind h
  | str s =>
      intro w rest rest' hstops hstops' h
      cases w with
      | str t =>
          simp only [compact] at h
          obtain ⟨rfl, hrest⟩ := quote_append_inj h
          exact ⟨rfl, hrest⟩
      | _ => cases hkind h
  | arr items ih =>
      intro w rest rest' hstops hstops' h
      cases w with
      | arr others =>
          rw [toList_compact_arr, toList_compact_arr] at h
          obtain ⟨rfl, hrest⟩ :=
            joined_append_inj (by decide) (by decide) compact_ne ih (List.cons.inj h).2
          exact ⟨rfl, hrest⟩
      | _ => cases hkind h
  | obj fields ih =>
      intro w rest rest' hstops hstops' h
      cases w with
      | obj others =>
          rw [toList_compact_obj, toList_compact_obj] at h
          obtain ⟨rfl, hrest⟩ := joined_append_inj (by decide) (by decide) writtenField_ne
            (fun f hf => told_writtenField (ih f hf)) (List.cons.inj h).2
          exact ⟨rfl, hrest⟩
      | _ => cases hkind h

/-- **Different values are written differently.** -/
theorem compact_injective : Function.Injective compact := by
  intro v w h
  have hstops : Stops [] := by simp [Stops]
  exact (compact_append_inj v w [] [] hstops hstops (congrArg (·.toList ++ []) h)).1

end Json

end Tabula
