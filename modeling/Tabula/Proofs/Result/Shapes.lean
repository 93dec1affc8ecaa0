import Tabula.Proofs.Result.Addresses

/-!
# Shapes of nested arrays

The nested arrays of a matrix have a level for each dimension, of its length (`shaped_nest`), unless
a dimension is empty: then there are two levels, whatever the number of dimensions
(`nest_of_mem`). These are the shape of the cube exactly when one of the first two dimensions is
empty (`shaped_toJson_iff`).
-/

set_option autoImplicit false

namespace Tabula

/-- Whether nested arrays have a level for each dimension, of its length. -/
def Json.Shaped : List Nat → Json → Prop
  | [], _ => True
  | d :: dims, v => ∃ items, v = .arr items ∧ items.length = d ∧ ∀ item ∈ items, item.Shaped dims

namespace Matrix

variable {d : Nat} {dims : List Nat} {cells : List Json}

/-! ## Cubes with cells -/

theorem volume_eq_zero_iff : volume dims = 0 ↔ 0 ∈ dims := by
  induction dims with
  | nil => exact iff_of_false Nat.one_ne_zero List.not_mem_nil
  | cons d dims ih =>
      show d * volume dims = 0 ↔ _
      rw [Nat.mul_eq_zero, ih, List.mem_cons, eq_comm]

theorem length_pieces (f : List Json → Json) (length n : Nat) (cells : List Json) :
    (pieces f length n cells).length = n := by
  induction n generalizing cells with
  | zero => rfl
  | succ n ih => rw [pieces, List.length_cons, ih]

theorem exists_of_mem_pieces {f : List Json → Json} {length n : Nat}
    (hlength : cells.length = n * length) {v : Json} (h : v ∈ pieces f length n cells) :
    ∃ piece, piece.length = length ∧ v = f piece := by
  obtain ⟨i, hi⟩ := List.mem_iff_getElem?.mp h
  have hlt : i < n := by
    rw [← length_pieces f length n cells]
    exact (List.getElem?_eq_some_iff.mp hi).1
  have hslice : (i + 1) * length ≤ n * length := Nat.mul_le_mul_right _ hlt
  rw [Nat.succ_mul] at hslice
  rw [getElem?_pieces f length hlt] at hi
  refine ⟨(cells.drop (i * length)).take length, ?_, (Option.some.inj hi).symm⟩
  rw [List.length_take, List.length_drop]
  omega

/-- **Without an empty dimension after the first**, nested arrays have the shape of the cube. -/
theorem shaped_nest (hpos : 0 ∉ dims) (hlength : cells.length = volume (d :: dims)) :
    (nest (d :: dims) cells).Shaped (d :: dims) := by
  induction dims generalizing d cells with
  | nil =>
      have hvolume : volume [d] = d := Nat.mul_one d
      exact ⟨cells, rfl, hlength.trans hvolume, fun _ _ => trivial⟩
  | cons d' dims ih =>
      have hvolume : ¬ volume (d' :: dims) = 0 := mt volume_eq_zero_iff.mp hpos
      have hnest : nest (d :: d' :: dims) cells
          = .arr (pieces (nest (d' :: dims)) (volume (d' :: dims)) d cells) := if_neg hvolume
      refine ⟨_, hnest, length_pieces _ _ d cells, fun item hitem => ?_⟩
      -- each slice is a cube of the other dimensions, none of which is empty after the first
      obtain ⟨piece, hpiece, rfl⟩ := exists_of_mem_pieces hlength hitem
      exact ih (fun hmem => hpos (List.mem_cons_of_mem d' hmem)) hpiece

/-! ## Cubes without cells -/

/-- **With an empty dimension after the first** there are two levels. -/
theorem nest_of_mem (h : 0 ∈ dims) (cells : List Json) :
    nest (d :: dims) cells = .arr (List.replicate d (.arr [])) := by
  cases dims with
  | nil => exact absurd h List.not_mem_nil
  | cons d' dims => exact if_pos (volume_eq_zero_iff.mpr h)

/-- Two levels of which the second is empty have a shape that begins with an empty dimension among
the first two. -/
theorem shaped_replicate_iff {d' : Nat} :
    (Json.arr (List.replicate d (.arr []))).Shaped (d :: d' :: dims) ↔ d = 0 ∨ d' = 0 := by
  constructor
  · rintro ⟨items, hitems, -, hall⟩
    cases hitems
    rcases Nat.eq_zero_or_pos d with hzero | hpos
    · exact Or.inl hzero
    · obtain ⟨inner, hinner, hlength, -⟩ :=
        hall (.arr []) (List.mem_replicate.mpr ⟨Nat.ne_of_gt hpos, rfl⟩)
      cases hinner
      exact Or.inr hlength.symm
  · intro h
    refine ⟨_, rfl, List.length_replicate, fun item hitem => ?_⟩
    obtain ⟨hne, rfl⟩ := List.mem_replicate.mp hitem
    exact ⟨[], rfl, (h.resolve_left hne).symm, fun item hitem => absurd hitem List.not_mem_nil⟩

/-! ## Matrices -/

theorem toJson_eq_nest {m : Matrix} (hm : Whole (d :: dims) m) :
    m.toJson = nest (d :: dims) (m.cells.toList.map (·.value)) := by
  unfold toJson
  rw [hm.dims_eq]

/-- **A matrix has the shape of its cube exactly when no dimension is empty, or one of the first two
is**, whatever was written into it. Otherwise its second level is empty, where there should be
further ones. It is made when a list can hold its cells. -/
theorem shaped_toJson_iff (d : Nat) (dims : List Nat) (fill : Json) (calls : List Call) :
    let v := ((filled (d :: dims) fill).after calls).toJson
    (∀ made, new (d :: dims) fill = .ok made
        ↔ (d :: dims).prod ≤ capacity ∧ made = filled (d :: dims) fill)
      ∧ (v.Shaped (d :: dims) ↔ (0 ∈ d :: dims → 0 ∈ (d :: dims).take 2))
      ∧ (0 ∈ dims → v = .arr (List.replicate d (.arr []))) := by
  intro v
  have hwhole : Whole (d :: dims) ((filled (d :: dims) fill).after calls) :=
    whole_after (whole_filled (d :: dims) fill) calls
  have hv : v = nest (d :: dims) _ := toJson_eq_nest hwhole
  refine ⟨fun made => new_eq_ok_iff_prod, ?_, fun hmem => hv.trans (nest_of_mem hmem _)⟩
  by_cases hmem : 0 ∈ dims
  · obtain ⟨d', rest, rfl⟩ := List.exists_cons_of_ne_nil (List.ne_nil_of_mem hmem)
    rw [hv, nest_of_mem hmem, shaped_replicate_iff]
    simp only [List.mem_cons_of_mem d hmem, forall_const, List.take_succ_cons, List.take_zero,
      List.mem_cons, List.not_mem_nil, or_false]
    exact or_congr eq_comm eq_comm
  · have hlength := hwhole.size_eq
    rw [hv]
    refine iff_of_true (shaped_nest hmem ?_) fun hzero => ?_
    · rw [List.length_map, Array.length_toList, hlength]
    · obtain rfl : 0 = d := (List.mem_cons.mp hzero).resolve_right hmem
      exact List.mem_cons_self

/-- One array of two empty ones becomes one empty array. -/
theorem not_shaped_third_empty :
    (filled [1, 2, 0] .null).toJson = .arr [.arr []]
      ∧ ¬ (filled [1, 2, 0] .null).toJson.Shaped [1, 2, 0] := by
  have heq : (filled [1, 2, 0] .null).toJson = .arr [.arr []] := rfl
  refine ⟨heq, ?_⟩
  rw [heq]
  rintro ⟨items, hitems, -, hall⟩
  cases hitems
  obtain ⟨inner, hinner, hlength, -⟩ := hall (.arr []) (List.mem_singleton_self _)
  cases hinner
  cases hlength

end Matrix

end Tabula
