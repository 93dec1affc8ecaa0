import Tabula.Proofs.Path.Names

/-!
# Paths seen from inside others

A path seen from another one is the root, what is left of it, or, where the other one does not
contain it, the path as it stands (`relative_cases`). Joining it again brings back the path
(`join_relative`). Of a path that is contained in a joined one, what is left is contained in the
inner part (`contains_relative`). Seen from the inner part it never looks the same as seen from the
joined path (`relative_ne_relative_join`).
-/

set_option autoImplicit false

namespace Tabula.Path

variable {outer inner path : String}

theorem toList_join (ho : outer ≠ root) (hi : inner ≠ root) :
    (join outer inner).toList = outer.toList ++ '.' :: inner.toList := by
  rw [join, if_neg ho, if_neg hi]
  simp

/-- **How a path is seen from another one.** -/
theorem relative_cases (path : String) (ho : outer ≠ root) :
    (path = outer ∧ relative path outer = root)
      ∨ (∃ rest : String, path.toList = outer.toList ++ '.' :: rest.toList
        ∧ relative path outer = rest)
      ∨ contains outer path = false ∧ relative path outer = path := by
  unfold relative
  rw [if_neg ho]
  by_cases heq : path = outer
  · exact Or.inl ⟨heq, if_pos heq⟩
  · rw [if_neg heq]
    right
    cases hbelow : below? outer path with
    | some rest => exact Or.inl ⟨rest, below?_eq_some.mp hbelow, rfl⟩
    | none => exact Or.inr ⟨by simp [contains, ho, heq, hbelow], rfl⟩

/-- What is left of a path after another one and a dot. -/
theorem relative_of_append {rest : String} (ho : outer ≠ root)
    (h : path.toList = outer.toList ++ '.' :: rest.toList) : relative path outer = rest := by
  have hne : path ≠ outer := by
    rintro rfl
    have hlen := congrArg List.length h
    simp at hlen
  rw [relative, if_neg ho, if_neg hne, below?_eq_some.mpr h]
  rfl

/-- A well-formed path is joined again from the one that contains it and what is left. -/
theorem join_relative (h : contains outer path = true) (hw : WellFormed path) :
    join outer (relative path outer) = path := by
  by_cases hroot : outer = root
  · rw [join, if_pos hroot, relative, if_pos hroot]
  · rcases relative_cases path hroot with ⟨heq, hrel⟩ | ⟨rest, hpath, hrel⟩ | ⟨hnot, -⟩
    · rw [hrel, join, if_neg hroot, if_pos rfl, heq]
    · have hrest : rest ≠ root := by
        rintro rfl
        have hnames := names_append hpath
        have hne : path ≠ root := by
          rintro rfl
          have hlen := congrArg List.length hpath
          simp [root] at hlen
        refine hw.resolve_left hne "" ?_ rfl
        rw [hnames]
        exact List.mem_append_right _ (by decide)
      rw [hrel]
      exact String.toList_inj.mp ((toList_join hroot hrest).trans hpath.symm)
    · rw [h] at hnot
      cases hnot

/-- A path stays as it is exactly when the other one does not contain it. -/
theorem relative_eq_self_iff (ho : outer ≠ root) :
    relative path outer = path ↔ contains outer path = false := by
  rcases relative_cases path ho with ⟨rfl, hrel⟩ | ⟨rest, hpath, hrel⟩ | ⟨hnot, hrel⟩
  · rw [hrel]
    simp [contains, Ne.symm ho]
  · have hcontains : contains outer path = true := contains_iff.mpr (Or.inr (Or.inr ⟨rest, hpath⟩))
    have hne : rest ≠ path := by
      rintro rfl
      have hlen := congrArg List.length hpath
      simp at hlen
      omega
    simp [hrel, hcontains, hne]
  · simp [hnot, hrel]

theorem join_ne_empty (ho : outer ≠ root) (hi : inner ≠ root) : join outer inner ≠ "" := by
  intro hempty
  have hchars := toList_join ho hi
  rw [hempty] at hchars
  simp at hchars

theorem join_ne_root (ho : outer ≠ root) (hi : inner ≠ root) (hne : inner ≠ "") :
    join outer inner ≠ root := by
  intro hroot
  have hsize := congrArg List.length (toList_join ho hi)
  have hpos : 0 < inner.toList.length := by
    rw [List.length_pos_iff]
    intro hnil
    exact hne (String.toList_inj.mp hnil)
  rw [hroot, List.length_append, List.length_cons] at hsize
  have hone : root.toList.length = 1 := by decide
  omega

/-- A joined path is too long to contain its inner part. -/
theorem contains_join_eq_false (ho : outer ≠ root) (hi : inner ≠ root) (hne : inner ≠ "") :
    contains (join outer inner) inner = false := by
  have hsize := congrArg List.length (toList_join ho hi)
  rw [List.length_append, List.length_cons] at hsize
  rw [Bool.eq_false_iff]
  intro hcontains
  rcases contains_iff.mp hcontains with hroot | heq | ⟨rest, hrest⟩
  · exact join_ne_root ho hi hne hroot
  · rw [← heq] at hsize
    omega
  · have hlen := congrArg List.length hrest
    rw [List.length_append, List.length_cons] at hlen
    omega

/-- What is contained in a joined path is contained in its inner part, seen from the outer. -/
theorem contains_relative (ho : outer ≠ root) (hi : inner ≠ root) (hne : inner ≠ "")
    (h : contains (join outer inner) path = true) :
    contains inner (relative path outer) = true := by
  have hjoin := toList_join ho hi
  rcases contains_iff.mp h with hroot | rfl | ⟨rest, hrest⟩
  · exact absurd hroot (join_ne_root ho hi hne)
  · rw [relative_of_append ho hjoin]
    exact contains_iff.mpr (Or.inr (Or.inl rfl))
  · have hpath : path.toList
        = outer.toList ++ '.' :: (String.ofList (inner.toList ++ '.' :: rest.toList)).toList := by
      rw [hrest, hjoin]
      simp
    rw [relative_of_append ho hpath]
    exact contains_iff.mpr (Or.inr (Or.inr ⟨rest, by simp⟩))

/-- A path with names does not end in a dot. -/
theorem WellFormed.getLast?_ne (h : WellFormed path) (hroot : path ≠ root) :
    path.toList.getLast? ≠ some '.' := by
  intro hlast
  obtain ⟨front, hfront⟩ := List.getLast?_eq_some_iff.mp hlast
  have hnames : names path = names (String.ofList front) ++ names "" := by
    apply names_append
    simpa using hfront
  have hempty : "" ∈ names path := by
    rw [hnames]
    exact List.mem_append_right _ (by decide)
  exact h.resolve_left hroot "" hempty rfl

/-- **From the inner part and from the whole of a joined path** nothing that one of them contains
looks the same. -/
theorem relative_ne_relative_join (ho : outer ≠ root) (hi : inner ≠ root) (hw : WellFormed inner)
    (h : contains inner path = true ∨ contains (join outer inner) path = true) :
    relative path inner ≠ relative path (join outer inner) := by
  have hjoin := toList_join ho hi
  have hsize : (join outer inner).toList.length
      = outer.toList.length + inner.toList.length + 1 := by
    rw [hjoin, List.length_append, List.length_cons]
    omega
  have hjoinRoot := join_ne_root ho hi hw.ne_empty
  rcases relative_cases path hi with ⟨hpath, hrel⟩ | ⟨rest, hpath, hrel⟩ | ⟨hnot, hrel⟩
  · -- the inner part itself is the root from inside, and stays as it is from the whole
    have hshort : contains (join outer inner) path = false := by
      rw [hpath]
      exact contains_join_eq_false ho hi hw.ne_empty
    rw [hrel, (relative_eq_self_iff hjoinRoot).mpr hshort, hpath]
    exact Ne.symm hi
  · have hlen := congrArg List.length hpath
    rw [List.length_append, List.length_cons] at hlen
    rw [hrel]
    rcases relative_cases path hjoinRoot with ⟨hwhole, hrel'⟩ | ⟨rest', hpath', hrel'⟩ | ⟨-, hrel'⟩
    · -- the joined path ends in a name, and so does what is left of it
      rw [hrel']
      rintro rfl
      apply hw.getLast?_ne hi
      rw [hwhole, hjoin] at hpath
      have hlast := congrArg List.getLast? hpath
      rw [List.getLast?_append_of_ne_nil _ (List.cons_ne_nil _ _),
        List.getLast?_append_of_ne_nil _ (List.cons_ne_nil _ _)] at hlast
      have hne : inner.toList ≠ [] := fun hnil => hw.ne_empty (String.toList_inj.mp hnil)
      rw [List.getLast?_cons_of_ne_nil hne] at hlast
      exact hlast
    · rw [hrel']
      rintro rfl
      have hlen' := congrArg List.length hpath'
      rw [List.length_append, List.length_cons] at hlen'
      omega
    · rw [hrel']
      rintro rfl
      omega
  · have hcontains : contains (join outer inner) path = true := by
      apply h.resolve_left
      simp [hnot]
    -- the joined path contains this one, so it does not stay as it is
    intro heq
    rw [hrel] at heq
    rw [(relative_eq_self_iff hjoinRoot).mp heq.symm] at hcontains
    cases hcontains

end Tabula.Path
