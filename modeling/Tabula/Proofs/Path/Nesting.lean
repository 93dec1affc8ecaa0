import Tabula.Proofs.Path.Names

/-!
# Paths inside of each other

Of two paths around a third, one contains the other, and the deeper one lies strictly below
(`strictlyBelow_of_depth_le`). So nested documents lead from the inside out to the root
(`LeadsOut`). A path that is joined from keys has names throughout when each key is one
(`names_join_of_isName`).
-/

set_option autoImplicit false

namespace Tabula.Path

/-! ## Paths of keys -/

def isName (key : String) : Bool := key != "" && !key.toList.contains '.'

theorem isName_iff {key : String} : isName key = true ↔ key ≠ "" ∧ '.' ∉ key.toList := by
  simp [isName]

theorem names_of_isName {key : String} (h : isName key = true) : names key = [key] := by
  rw [names_eq, List.splitOn_eq_singleton (isName_iff.mp h).2, List.map_singleton,
    String.ofList_toList]

theorem wellFormed_of_names {path : String} (h : "" ∉ names path) : WellFormed path :=
  Or.inr fun _ hname hempty => h (hempty ▸ hname)

theorem names_join_of_isName {at_ key : String} (hat : WellFormed at_) (hkey : isName key = true) :
    "" ∉ names (join at_ key) := by
  have hsingle := names_of_isName hkey
  have hne := (isName_iff.mp hkey).1
  have hroot : key ≠ root := by
    rintro rfl
    exact absurd hkey (by decide)
  rw [places_join hroot, hsingle, List.mem_append, List.mem_singleton, not_or]
  refine ⟨?_, hne.symm⟩
  rw [places]
  split
  next => exact List.not_mem_nil
  next hsome => exact fun hempty => hat.resolve_left hsome "" hempty rfl

/-! ## Nesting -/

/-- Of two paths around a third, the deeper one lies strictly below the other. -/
theorem strictlyBelow_of_depth_le {inner outer path : String} (hin : "" ∉ names inner)
    (hout : "" ∉ names outer) (hinner : contains inner path = true)
    (houter : contains outer path = true) (hne : inner ≠ outer)
    (hdepth : depth outer ≤ depth inner) : StrictlyBelow outer inner := by
  have hprefix := prefix_of_contains hinner (ne_root_of_names hin)
  have hprefix' := prefix_of_contains houter (ne_root_of_names hout)
  rcases List.prefix_or_prefix_of_prefix hprefix' hprefix with h | h
  · exact ⟨contains_of_names h, hne⟩
  · have hbelow : StrictlyBelow inner outer := ⟨contains_of_names h, hne.symm⟩
    have hlt := hbelow.depth_lt (wellFormed_of_names hin)
    omega

theorem contains_trans {outer inner path : String} (hout : "" ∉ names outer)
    (hin : "" ∉ names inner) (houter : contains outer inner = true)
    (hinner : contains inner path = true) : contains outer path = true :=
  contains_of_names ((prefix_of_contains houter (ne_root_of_names hout)).trans
    (prefix_of_contains hinner (ne_root_of_names hin)))

theorem contains_antisymm {p q : String} (hp : "" ∉ names p) (hq : "" ∉ names q)
    (h : contains p q = true) (h' : contains q p = true) : p = q := by
  by_contra hne
  have hlt := StrictlyBelow.depth_lt ⟨h, Ne.symm hne⟩ (wellFormed_of_names hp)
  have hlt' := StrictlyBelow.depth_lt ⟨h', hne⟩ (wellFormed_of_names hq)
  omega

/-- Whether paths lead from some nested documents out to the root, each one around the one
before. -/
structure LeadsOut (paths : List String) : Prop where
  root_last : paths.getLast? = some root
  around : paths.IsChain fun inner outer => StrictlyBelow outer inner

end Tabula.Path
