import Mathlib.Data.List.Infix
import Mathlib.Data.List.TakeWhile
import Tabula.Proofs.Path.Order

/-!
# The names of a path

A path is the list of its names, and the root has none (`places`). Paths are joined by appending
their names (`places_join`), and a path whose names are the first of another's contains it
(`contains_of_names`).
-/

set_option autoImplicit false

namespace Tabula.Path

/-! ## Splitting at dots -/

theorem splitDots_eq (cs : List Char) : splitDots cs = cs.splitOn '.' := by
  induction cs with
  | nil => rfl
  | cons c cs ih =>
      rw [splitDots, ih, List.splitOn_cons_eq_if_modifyHead]
      split
      next h => exact absurd h (List.splitOn_ne_nil _ _)
      next head tail h =>
          rw [h]
          by_cases hc : c = '.'
          · simp [hc]
          · simp [hc]

theorem intercalate_append {α : Type} {sep : α} {xs ys : List (List α)} (hx : xs ≠ [])
    (hy : ys ≠ []) :
    [sep].intercalate (xs ++ ys) = [sep].intercalate xs ++ sep :: [sep].intercalate ys := by
  induction xs with
  | nil => exact absurd rfl hx
  | cons x xs ih =>
      cases xs with
      | nil => simp [List.intercalate_cons_of_ne_nil hy]
      | cons x' xs => simpa using ih (by simp)

/-- A text whose parts are the first of another's is all of it, or is followed by a dot. -/
theorem eq_or_append_of_splitDots {as bs : List Char} (h : splitDots as <+: splitDots bs) :
    bs = as ∨ ∃ rest, bs = as ++ '.' :: rest := by
  rw [splitDots_eq, splitDots_eq] at h
  obtain ⟨more, hmore⟩ := h
  have hbs : bs = ['.'].intercalate (as.splitOn '.' ++ more) := by
    rw [hmore, List.intercalate_splitOn]
  rw [hbs]
  by_cases hnil : more = []
  · left
    rw [hnil, List.append_nil, List.intercalate_splitOn]
  · right
    rw [intercalate_append (List.splitOn_ne_nil _ _) hnil, List.intercalate_splitOn]
    exact ⟨_, rfl⟩

theorem splitFirst?_eq_none {cs : List Char} (h : splitFirst? cs = none) : '.' ∉ cs := by
  fun_induction splitFirst? cs with
  | case1 => simp
  | case2 => cases h
  | case3 c rest hc ih =>
      rw [List.mem_cons, not_or]
      exact ⟨fun heq => hc heq.symm, ih (Option.map_eq_none_iff.mp h)⟩

theorem splitFirst?_eq_some {cs head tail : List Char} (h : splitFirst? cs = some (head, tail)) :
    cs = head ++ '.' :: tail ∧ '.' ∉ head := by
  fun_induction splitFirst? cs generalizing head with
  | case1 => cases h
  | case2 =>
      cases h
      exact ⟨rfl, List.not_mem_nil⟩
  | case3 c rest hc ih =>
      obtain ⟨⟨head', tail'⟩, hrest, heq⟩ := Option.map_eq_some_iff.mp h
      cases heq
      obtain ⟨rfl, hnot⟩ := ih hrest
      rw [List.mem_cons, not_or]
      exact ⟨rfl, fun heq => hc heq.symm, hnot⟩

theorem splitFirst?_of_notMem {cs : List Char} (h : '.' ∉ cs) : splitFirst? cs = none := by
  cases hsplit : splitFirst? cs with
  | none => rfl
  | some parts => exact absurd (by simp [(splitFirst?_eq_some hsplit).1]) h

theorem splitHead_fst (path : String) :
    splitHead (splitHead path).1 = ((splitHead path).1, root) := by
  have hhead : '.' ∉ (splitHead path).1.toList := by
    unfold splitHead split?
    cases hsplit : splitFirst? path.toList with
    | none => exact splitFirst?_eq_none hsplit
    | some parts =>
        rw [Option.map_some, Option.getD_some, String.toList_ofList]
        exact (splitFirst?_eq_some hsplit).2
  rw [splitHead, split?, splitFirst?_of_notMem hhead]
  rfl

/-- The first name of a path is what precedes its first dot. -/
theorem splitHead_fst_eq (path : String) :
    (splitHead path).1 = String.ofList (path.toList.takeWhile (· ≠ '.')) := by
  unfold splitHead split?
  cases hsplit : splitFirst? path.toList with
  | none =>
      have hnone : ∀ c ∈ path.toList, decide (c ≠ '.') = true := by
        intro c hc
        refine decide_eq_true fun hdot => ?_
        exact splitFirst?_eq_none hsplit (hdot ▸ hc)
      rw [List.takeWhile_eq_self_iff.mpr hnone, String.ofList_toList]
      rfl
  | some parts =>
      obtain ⟨heq, hhead⟩ := splitFirst?_eq_some hsplit
      have hbefore : ∀ c ∈ parts.1, decide (c ≠ '.') = true := by
        intro c hc
        exact decide_eq_true fun hdot => hhead (hdot ▸ hc)
      rw [heq, List.takeWhile_append_of_pos hbefore, List.takeWhile_cons_of_neg (by simp),
        List.append_nil]
      rfl

/-! ## Names -/

theorem names_eq (path : String) : names path = (path.toList.splitOn '.').map String.ofList := by
  rw [names, splitDots_eq]

theorem names_ne_nil (path : String) : names path ≠ [] := by
  simp [names_eq]

theorem names_root : names root = ["", ""] := by decide

theorem names_append {outer inner path : String}
    (h : path.toList = outer.toList ++ '.' :: inner.toList) :
    names path = names outer ++ names inner := by
  rw [names_eq, h, List.splitOn_append_cons_self, List.map_append, names_eq, names_eq]

/-- A path whose names are the first of another's contains it. -/
theorem contains_of_names {outer path : String} (h : names outer <+: names path) :
    contains outer path = true := by
  have hinj : Function.Injective String.ofList := fun _ _ => String.ofList_injective
  have hchars : splitDots outer.toList <+: splitDots path.toList :=
    (List.prefix_map_iff_of_injective hinj).mp h
  refine contains_iff.mpr (Or.inr ?_)
  rcases eq_or_append_of_splitDots hchars with heq | ⟨rest, hrest⟩
  · exact Or.inl (String.toList_inj.mp heq)
  · exact Or.inr ⟨String.ofList rest, by rw [hrest, String.toList_ofList]⟩

/-- The names of a path that is contained in another begin with the other's. -/
theorem prefix_of_contains {outer path : String} (h : contains outer path = true)
    (hne : outer ≠ root) : names outer <+: names path := by
  rcases contains_iff.mp h with heq | rfl | ⟨rest, hrest⟩
  · exact absurd heq hne
  · exact List.prefix_rfl
  · exact ⟨_, (names_append hrest).symm⟩

/-- The names of a path as a list of places; the root is no place of its own. -/
def places (path : String) : List String := if path = root then [] else names path

/-- A path contains another one exactly when its places are the first of the other's. -/
theorem contains_iff_places {outer path : String} (h : WellFormed outer) :
    contains outer path = true ↔ places outer <+: places path := by
  by_cases hroot : outer = root
  · simp [contains, places, hroot]
  · rw [places, if_neg hroot]
    constructor
    · intro hc
      have hpath : path ≠ root := by
        -- what begins with a path that is not empty, and a dot, is more than a dot
        rintro rfl
        rcases contains_iff.mp hc with heq | heq | ⟨rest, hrest⟩
        · exact hroot heq
        · exact hroot heq.symm
        · have hsingle : (outer.toList, rest.toList) = ([], []) := by
            cases houter : outer.toList with
            | nil => simpa [houter, root] using hrest
            | cons c cs => simp [houter, root] at hrest
          exact h.ne_empty (String.toList_inj.mp (congrArg Prod.fst hsingle))
      rw [places, if_neg hpath]
      exact prefix_of_contains hc hroot
    · intro hprefix
      rw [places] at hprefix
      split at hprefix
      next => exact absurd (List.prefix_nil.mp hprefix) (names_ne_nil outer)
      next => exact contains_of_names hprefix

/-- Paths are comparable when the places of one are the first of the other's. -/
theorem comparable_iff {p q : String} (hp : WellFormed p) (hq : WellFormed q) :
    Comparable p q ↔ places p <+: places q ∨ places q <+: places p := by
  rw [Comparable, contains_iff_places hp, contains_iff_places hq]

/-- Paths are joined by appending their names. -/
theorem places_join {outer inner : String} (h : inner ≠ root) :
    names (join outer inner) = places outer ++ names inner := by
  rw [join, if_neg h, places]
  split
  next => rfl
  next => exact names_append (by simp)

/-- A path that another contains is made of it and of what is relative to it. -/
theorem names_relative {outer path : String} (h : contains outer path = true) :
    path = outer ∧ relative path outer = root
      ∨ names path = places outer ++ names (relative path outer) := by
  by_cases hroot : outer = root
  · exact Or.inr (by rw [places, relative, if_pos hroot, if_pos hroot, List.nil_append])
  · by_cases heq : path = outer
    · exact Or.inl ⟨heq, by rw [relative, if_neg hroot, if_pos heq]⟩
    · obtain ⟨rest, hrest⟩ := (contains_iff.mp h).resolve_left hroot |>.resolve_left heq
      rw [places, relative, if_neg hroot, if_neg hroot, if_neg heq, below?_eq_some.mpr hrest]
      exact Or.inr (names_append hrest)

theorem ne_root_of_names {path : String} (h : "" ∉ names path) : path ≠ root := by
  rintro rfl
  exact h (by decide)

section Relative

variable {outer path other : String} (h : contains outer path = true) (hnames : "" ∉ names path)
include h hnames

/-- A path without empty names is the one that contains it, or has names of its own below it. -/
theorem eq_or_names_relative : path = outer ∧ relative path outer = root
    ∨ names path = places outer ++ names (relative path outer)
      ∧ "" ∉ names (relative path outer) := by
  refine (names_relative h).imp_right fun heq => ⟨heq, fun hempty => hnames ?_⟩
  rw [heq]
  exact List.mem_append_right _ hempty

theorem wellFormed_relative : WellFormed (relative path outer) :=
  (eq_or_names_relative h hnames).imp (·.2) fun hrel _ hname hempty => hrel.2 (hempty ▸ hname)

/-- What is contained relative to a path is contained. -/
theorem contains_of_relative (hother : contains outer other = true) (hnames' : "" ∉ names other)
    (hrel : contains (relative path outer) (relative other outer) = true) :
    contains path other = true := by
  rcases eq_or_names_relative h hnames with ⟨rfl, -⟩ | ⟨heq, hsome⟩
  · exact hother
  · have hprefix := prefix_of_contains hrel (ne_root_of_names hsome)
    rcases eq_or_names_relative hother hnames' with ⟨-, hnone⟩ | ⟨heq', -⟩
    · -- no names of a path are the first ones of the root
      rw [hnone] at hprefix
      obtain ⟨name, hname⟩ := List.exists_mem_of_ne_nil _ (names_ne_nil (relative path outer))
      obtain rfl : name = "" := by simpa [names_root] using hprefix.subset hname
      exact absurd hname hsome
    · refine contains_of_names ?_
      rw [heq, heq', List.prefix_append_right_inj]
      exact hprefix

end Relative

/-- The first name and the others, when the last name is some. -/
theorem names_eq_splitHead {path : String} (h : (names path).getLast? ≠ some "") :
    names path = (splitHead path).1 :: places (splitHead path).2 := by
  unfold splitHead split?
  cases hsplit : splitFirst? path.toList with
  | none =>
      rw [names_eq, List.splitOn_eq_singleton (splitFirst?_eq_none hsplit)]
      simp [places]
  | some parts =>
      obtain ⟨head, tail⟩ := parts
      obtain ⟨hpath, hnot⟩ := splitFirst?_eq_some hsplit
      have hnames : names path = String.ofList head :: names (String.ofList tail) := by
        rw [names_eq, hpath, List.splitOn_append_cons_self_of_not_mem hnot, List.map_cons,
          names_eq, String.toList_ofList]
      have hroot : String.ofList tail ≠ root := by
        intro heq
        rw [hnames, heq] at h
        exact h rfl
      rw [hnames]
      simp [places, hroot]

/-- The first name of a joined path and the others, when the inner path ends in a name. -/
theorem splitHead_join {outer inner : String} (hne : inner ≠ root) (h : WellFormed inner) :
    (splitHead (join outer inner)).1 :: places (splitHead (join outer inner)).2
      = places outer ++ names inner := by
  rw [← places_join hne, ← names_eq_splitHead]
  rw [places_join hne, List.getLast?_append_of_ne_nil _ (names_ne_nil inner)]
  intro hlast
  exact h.resolve_left hne "" (List.mem_of_getLast? hlast) rfl

/-- Names of paths of which neither contains the other are apart. -/
theorem not_prefix_of_not_comparable {p q : String} (h : ¬ Comparable p q) :
    ¬ names p <+: names q ∧ ¬ names q <+: names p :=
  ⟨fun hp => h (Or.inl (contains_of_names hp)), fun hq => h (Or.inr (contains_of_names hq))⟩

theorem ne_root_of_not_comparable {p q : String} (h : ¬ Comparable p q) : p ≠ root ∧ q ≠ root :=
  ⟨fun hp => h (Or.inl (by simp [contains, hp])), fun hq => h (Or.inr (by simp [contains, hq]))⟩

end Tabula.Path
