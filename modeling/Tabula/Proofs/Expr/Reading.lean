import Mathlib.Data.List.Forall2
import Tabula.Expr.Reader
import Tabula.Expr.Writer
import Tabula.Proofs.Expr.Induction
import Tabula.Proofs.Results

/-!
# Reading what was written

An expression that was written is read back part by part: one equation for each operator says how
(`ofJson_tuple`, `ofJson_compare`, …). It comes back as it was exactly when it is readable
(`ofJson_toJson_iff`). Three forms are not: a field whose name stands for leaves, leaves or a bare
value as the operand of `exists` or `missing`, where a text always names a field, and a computation
over nothing.
-/

set_option autoImplicit false

namespace Tabula.Expr

/-! ## Names -/

/-- Whether a name stands for leaves, and so for no field. -/
def NamesLeaves (name : String) : Prop := name = "*" ∨ ['.', '*'] <:+ name.toList

theorem ofName_of_not_namesLeaves {name : String} (h : ¬ NamesLeaves name) :
    ofName name = .var name := by
  obtain ⟨hstar, hsuffix⟩ := not_or.mp h
  unfold ofName
  rw [if_neg hstar]
  split
  next rest hrev =>
      refine absurd ⟨rest.reverse, ?_⟩ hsuffix
      rw [← List.reverse_reverse name.toList, hrev]
      simp
  next => rfl

theorem ofName_of_namesLeaves {name : String} (h : NamesLeaves name) :
    ∃ path, ofName name = .leaves path := by
  unfold ofName
  by_cases hstar : name = "*"
  · exact ⟨Path.root, if_pos hstar⟩
  · obtain ⟨rest, hrest⟩ := h.resolve_left hstar
    have hrev : name.toList.reverse = '*' :: '.' :: rest.reverse := by
      rw [← hrest]
      simp
    rw [if_neg hstar, hrev]
    exact ⟨_, rfl⟩

def leavesName (path : String) : String := if path = Path.root then "*" else path ++ ".*"

theorem ofName_leavesName (path : String) : ofName (leavesName path) = .leaves path := by
  unfold leavesName
  split
  next h =>
      rw [h]
      rfl
  next =>
      have hlist : (path ++ ".*").toList = path.toList ++ ['.', '*'] := String.toList_append
      have hne : path ++ ".*" ≠ "*" := by
        intro h
        have hlength := congrArg (fun s => s.toList.length) h
        simp at hlength
      unfold ofName
      rw [if_neg hne, hlist]
      simp

/-! ## What is read back -/

/-- An object of one member applies the operator of its name. -/
theorem ofJson_obj (op : String) (arg : Json) :
    ofJson (.obj [(op, arg)]) = applyOperator op arg (reading arg) := by
  rw [ofJson, reading]

theorem sequence_readingAll (ts : List Expr) :
    sequence (readingAll (toJsonAll ts)) = ts.mapM fun t => ofJson t.toJson := by
  induction ts with
  | nil => rfl
  | cons t ts ih =>
      rw [toJsonAll, readingAll, sequence, ih, List.mapM_cons]
      rfl

theorem ofJson_literal (v : Json) : ofJson (literal v).toJson = .ok (.literal v) := by
  cases v <;> rfl

theorem ofJson_tuple (ts : List Expr) :
    ofJson (tuple ts).toJson = tuple <$> ts.mapM fun t => ofJson t.toJson := by
  show ofJson (.obj [("tuple", .arr (toJsonAll ts))]) = _
  rw [ofJson_obj, ← sequence_readingAll]
  rfl

theorem ofJson_compare (op : CompareOp) (a b : Expr) :
    ofJson (compare op a b).toJson
      = ofJson a.toJson >>= fun a => ofJson b.toJson >>= fun b => .ok (.compare op a b) := by
  show ofJson (.obj [(op.name, .arr [a.toJson, b.toJson])]) = _
  rw [ofJson_obj]
  cases op <;> rfl

theorem ofJson_and (ts : List Expr) :
    ofJson (and ts).toJson = and <$> ts.mapM fun t => ofJson t.toJson := by
  show ofJson (.obj [("and", .arr (toJsonAll ts))]) = _
  rw [ofJson_obj, ← sequence_readingAll]
  rfl

theorem ofJson_or (ts : List Expr) :
    ofJson (or ts).toJson = or <$> ts.mapM fun t => ofJson t.toJson := by
  show ofJson (.obj [("or", .arr (toJsonAll ts))]) = _
  rw [ofJson_obj, ← sequence_readingAll]
  rfl

theorem ofJson_not (t : Expr) : ofJson (not t).toJson = not <$> ofJson t.toJson := by
  show ofJson (.obj [("not", t.toJson)]) = _
  rw [ofJson_obj]
  rfl

theorem ofJson_present (t : Expr) : ofJson (present t).toJson
    = present <$> fieldOperand "exists" t.toJson (reading t.toJson) := by
  show ofJson (.obj [("exists", t.toJson)]) = _
  rw [ofJson_obj]
  rfl

theorem ofJson_missing (t : Expr) : ofJson (missing t).toJson
    = missing <$> fieldOperand "missing" t.toJson (reading t.toJson) := by
  show ofJson (.obj [("missing", t.toJson)]) = _
  rw [ofJson_obj]
  rfl

theorem ofJson_startsWith (t : Expr) (start : String) : ofJson (startsWith t start).toJson
    = ofJson t.toJson >>= fun t => .ok (.startsWith t start) := by
  show ofJson (.obj [("prefix", .arr [t.toJson, .str start])]) = _
  rw [ofJson_obj]
  show (ofJson t.toJson >>= fun e => .ok (e, Json.str start)) >>= _ = _
  cases ofJson t.toJson <;> rfl

theorem ofJson_oneOf (t : Expr) (vs : List Json) : ofJson (oneOf t vs).toJson
    = ofJson t.toJson >>= fun t => .ok (.oneOf t vs) := by
  show ofJson (.obj [("in", .arr [t.toJson, .arr vs])]) = _
  rw [ofJson_obj]
  show (ofJson t.toJson >>= fun e => .ok (e, Json.arr vs)) >>= _ = _
  cases ofJson t.toJson <;> rfl

theorem ofJson_arith (op : ArithOp) (ts : List Expr) : ofJson (arith op ts).toJson
    = (ts.mapM fun t => ofJson t.toJson) >>= fun read =>
        if read.isEmpty then badArgument op.name (.arr (toJsonAll ts))
        else .ok (.arith op read) := by
  have happly : applyOperator op.name (.arr (toJsonAll ts)) (reading (.arr (toJsonAll ts)))
      = arithmetic op op.name (.arr (toJsonAll ts)) (reading (.arr (toJsonAll ts))) := by
    cases op <;> rfl
  show ofJson (.obj [(op.name, .arr (toJsonAll ts))]) = _
  rw [ofJson_obj, happly, ← sequence_readingAll]
  show sequence (readingAll (toJsonAll ts)) >>= _ = _
  refine congrArg _ (funext fun read => ?_)
  cases read <;> rfl

theorem ofJson_coalesce (ts : List Expr) :
    ofJson (coalesce ts).toJson = coalesce <$> ts.mapM fun t => ofJson t.toJson := by
  show ofJson (.obj [("coalesce", .arr (toJsonAll ts))]) = _
  rw [ofJson_obj, ← sequence_readingAll]
  rfl

/-! ## Operands of `exists` and `missing` -/

/-- Values that are written as themselves. -/
def isBare : Json → Bool
  | .null | .bool _ | .num _ => true
  | .str _ | .arr _ | .obj _ => false

/-- Whether an expression can be written where a text names a field. -/
def isOperand : Expr → Bool
  | literal v => !isBare v
  | leaves _ => false
  | _ => true

/-- A text names one field there, also if it would name leaves elsewhere. -/
theorem fieldOperand_var (op name : String) :
    fieldOperand op (var name).toJson (reading (var name).toJson) = .ok (.var name) := rfl

theorem fieldOperand_leaves (op path : String) :
    fieldOperand op (leaves path).toJson (reading (leaves path).toJson)
      = .ok (.var (leavesName path)) := rfl

theorem fieldOperand_bare (op : String) {v : Json} (h : isBare v = true) :
    fieldOperand op (literal v).toJson (reading (literal v).toJson) = badArgument op v := by
  cases v <;> first | rfl | cases h

/-- Other operands are read as anywhere. -/
theorem fieldOperand_of_isOperand (op : String) {t : Expr} (h : t.isOperand = true)
    (hvar : ∀ name, t ≠ .var name) :
    fieldOperand op t.toJson (reading t.toJson) = ofJson t.toJson := by
  cases t with
  | literal v => cases v <;> first | rfl | cases h
  | var name => exact absurd rfl (hvar name)
  | leaves path => cases h
  | compare op' a b => cases op' <;> rfl
  | arith op' ts => cases op' <;> rfl
  | _ => rfl

/-! ## Readable expressions -/

inductive Readable : Expr → Prop
  | literal (v : Json) : Readable (.literal v)
  | var {name : String} (h : ¬ NamesLeaves name) : Readable (.var name)
  | leaves (path : String) : Readable (.leaves path)
  | tuple {ts : List Expr} (h : ∀ t ∈ ts, Readable t) : Readable (.tuple ts)
  | compare {op : CompareOp} {a b : Expr} (ha : Readable a) (hb : Readable b) :
      Readable (.compare op a b)
  | and {ts : List Expr} (h : ∀ t ∈ ts, Readable t) : Readable (.and ts)
  | or {ts : List Expr} (h : ∀ t ∈ ts, Readable t) : Readable (.or ts)
  | not {t : Expr} (h : Readable t) : Readable (.not t)
  | presentVar (name : String) : Readable (.present (.var name))
  | present {t : Expr} (h : Readable t) (hop : t.isOperand = true) : Readable (.present t)
  | missingVar (name : String) : Readable (.missing (.var name))
  | missing {t : Expr} (h : Readable t) (hop : t.isOperand = true) : Readable (.missing t)
  | startsWith {t : Expr} {start : String} (h : Readable t) : Readable (.startsWith t start)
  | oneOf {t : Expr} {values : List Json} (h : Readable t) : Readable (.oneOf t values)
  | arith {op : ArithOp} {ts : List Expr} (hne : ts ≠ []) (h : ∀ t ∈ ts, Readable t) :
      Readable (.arith op ts)
  | coalesce {ts : List Expr} (h : ∀ t ∈ ts, Readable t) : Readable (.coalesce ts)

theorem mapM_ofJson {ts : List Expr} (h : ∀ t ∈ ts, ofJson t.toJson = .ok t) :
    (ts.mapM fun t => ofJson t.toJson) = .ok ts := by
  rw [Results.mapM_of_eq_ok h, List.map_id']

/-- An operand that is read back anywhere is read back there. -/
theorem fieldOperand_of_ofJson (op : String) {t : Expr} (hop : t.isOperand = true)
    (h : ofJson t.toJson = .ok t) :
    fieldOperand op t.toJson (reading t.toJson) = .ok t := by
  by_cases hvar : ∃ name, t = .var name
  · obtain ⟨name, rfl⟩ := hvar
    exact fieldOperand_var op name
  · rw [fieldOperand_of_isOperand op hop fun name hname => hvar ⟨name, hname⟩, h]

/-- **Readable expressions are read back as they were.** -/
theorem Readable.ofJson_toJson {e : Expr} (h : Readable e) : ofJson e.toJson = .ok e := by
  induction h with
  | literal v => exact ofJson_literal v
  | var h => exact congrArg _ (ofName_of_not_namesLeaves h)
  | leaves path => exact congrArg _ (ofName_leavesName path)
  | tuple _ ih =>
      rw [ofJson_tuple, mapM_ofJson ih]
      rfl
  | compare _ _ iha ihb => rw [ofJson_compare, iha, Results.ok_bind, ihb, Results.ok_bind]
  | and _ ih =>
      rw [ofJson_and, mapM_ofJson ih]
      rfl
  | or _ ih =>
      rw [ofJson_or, mapM_ofJson ih]
      rfl
  | not _ ih =>
      rw [ofJson_not, ih]
      rfl
  | presentVar name => rfl
  | present _ hop ih =>
      rw [ofJson_present, fieldOperand_of_ofJson _ hop ih]
      rfl
  | missingVar name => rfl
  | missing _ hop ih =>
      rw [ofJson_missing, fieldOperand_of_ofJson _ hop ih]
      rfl
  | startsWith _ ih => rw [ofJson_startsWith, ih, Results.ok_bind]
  | oneOf _ ih => rw [ofJson_oneOf, ih, Results.ok_bind]
  | arith hne _ ih =>
      rw [ofJson_arith, mapM_ofJson ih, Results.ok_bind, if_neg (by simpa using hne)]
  | coalesce _ ih =>
      rw [ofJson_coalesce, mapM_ofJson ih]
      rfl

/-! ## Expressions that come back alike -/

/-- Whether an expression is another one, or the same but for the order of members in literals. -/
def Alike (e e' : Expr) : Prop := e = e' ∨ e.same e' = true

/-- Lists that are equal, or the same, hold expressions that are alike. -/
theorem forall₂_alike {as bs : List Expr} (h : as = bs ∨ sameAll as bs = true) :
    List.Forall₂ Alike as bs := by
  rcases h with rfl | h
  · exact List.forall₂_same.mpr fun _ _ => Or.inl rfl
  · induction as generalizing bs with
    | nil =>
        cases bs with
        | nil => exact .nil
        | cons b bs => cases h
    | cons a as ih =>
        cases bs with
        | nil => cases h
        | cons b bs =>
            obtain ⟨hsame, hrest⟩ := Bool.and_eq_true_iff.mp h
            exact .cons (Or.inr hsame) (ih hrest)

theorem forall_readable {ts read : List Expr}
    (ih : ∀ t ∈ ts, ∀ {r}, ofJson t.toJson = .ok r → Alike r t → Readable t)
    (h : (ts.mapM fun t => ofJson t.toJson) = .ok read) (halike : List.Forall₂ Alike read ts) :
    ∀ t ∈ ts, Readable t := by
  have hread := Results.mapM_eq_ok.mp h
  clear h
  induction hread with
  | nil => simp
  | cons hfirst hrest ih' =>
      cases halike with
      | cons ha hrestAlike =>
          have htail := ih' (fun t ht => ih t (List.mem_cons_of_mem _ ht)) hrestAlike
          exact List.forall_mem_cons.mpr ⟨ih _ List.mem_cons_self hfirst ha, htail⟩

/-- An operand that comes back alike is a field, or readable and none of those that a text or a bare
value would be taken for. -/
theorem operand_of_alike {op : String} {t r : Expr}
    (ih : ∀ {r}, ofJson t.toJson = .ok r → Alike r t → Readable t)
    (h : fieldOperand op t.toJson (reading t.toJson) = .ok r) (halike : Alike r t) :
    (∃ name, t = .var name) ∨ Readable t ∧ t.isOperand = true := by
  cases hop : t.isOperand with
  | true =>
      by_cases hvar : ∃ name, t = .var name
      · exact Or.inl hvar
      · rw [fieldOperand_of_isOperand op hop fun name hname => hvar ⟨name, hname⟩] at h
        exact Or.inr ⟨ih h halike, rfl⟩
  | false =>
      -- a bare text and leaves are read as a field there
      cases t with
      | literal v =>
          have hbare : isBare v = true := by simpa [isOperand] using hop
          rw [fieldOperand_bare op hbare] at h
          cases h
      | leaves path =>
          rw [fieldOperand_leaves] at h
          cases h
          rcases halike with heq | hsame
          · cases heq
          · cases hsame
      | _ => cases hop

/-- **What comes back alike is readable.** -/
theorem readable_of_alike {e r : Expr} (h : ofJson e.toJson = .ok r) (halike : Alike r e) :
    Readable e := by
  induction e generalizing r with
  | literal v => exact .literal v
  | var name =>
      -- a name that stands for leaves would come back as leaves
      refine .var fun hname => ?_
      obtain ⟨path, hpath⟩ := ofName_of_namesLeaves hname
      have hr : r = .leaves path := (Except.ok.inj h).symm.trans hpath
      rw [hr] at halike
      rcases halike with heq | hsame
      · cases heq
      · cases hsame
  | leaves path => exact .leaves path
  | tuple ts ih =>
      rw [ofJson_tuple] at h
      obtain ⟨read, hread, rfl⟩ := Results.map_eq_ok.mp h
      exact .tuple (forall_readable ih hread (forall₂_alike (halike.imp tuple.inj id)))
  | compare op a b iha ihb =>
      rw [ofJson_compare] at h
      obtain ⟨a', ha, h⟩ := Results.bind_eq_ok.mp h
      obtain ⟨b', hb, h⟩ := Results.bind_eq_ok.mp h
      cases h
      have hparts : Alike a' a ∧ Alike b' b := by
        rcases halike with heq | hsame
        · cases heq
          exact ⟨Or.inl rfl, Or.inl rfl⟩
        · simp only [same, Bool.and_eq_true] at hsame
          exact ⟨Or.inr hsame.1.2, Or.inr hsame.2⟩
      exact .compare (iha ha hparts.1) (ihb hb hparts.2)
  | and ts ih =>
      rw [ofJson_and] at h
      obtain ⟨read, hread, rfl⟩ := Results.map_eq_ok.mp h
      exact .and (forall_readable ih hread (forall₂_alike (halike.imp and.inj id)))
  | or ts ih =>
      rw [ofJson_or] at h
      obtain ⟨read, hread, rfl⟩ := Results.map_eq_ok.mp h
      exact .or (forall_readable ih hread (forall₂_alike (halike.imp or.inj id)))
  | not t ih =>
      rw [ofJson_not] at h
      obtain ⟨t', ht, rfl⟩ := Results.map_eq_ok.mp h
      exact .not (ih ht (halike.imp not.inj id))
  | present t ih =>
      rw [ofJson_present] at h
      obtain ⟨t', ht, rfl⟩ := Results.map_eq_ok.mp h
      rcases operand_of_alike ih ht (halike.imp present.inj id) with ⟨name, rfl⟩ | ⟨hread, hop⟩
      · exact .presentVar name
      · exact .present hread hop
  | missing t ih =>
      rw [ofJson_missing] at h
      obtain ⟨t', ht, rfl⟩ := Results.map_eq_ok.mp h
      rcases operand_of_alike ih ht (halike.imp missing.inj id) with ⟨name, rfl⟩ | ⟨hread, hop⟩
      · exact .missingVar name
      · exact .missing hread hop
  | startsWith t start ih =>
      rw [ofJson_startsWith] at h
      obtain ⟨t', ht, h⟩ := Results.bind_eq_ok.mp h
      cases h
      refine .startsWith (ih ht (halike.imp (fun heq => (startsWith.inj heq).1) fun hsame => ?_))
      exact (Bool.and_eq_true_iff.mp hsame).1
  | oneOf t values ih =>
      rw [ofJson_oneOf] at h
      obtain ⟨t', ht, h⟩ := Results.bind_eq_ok.mp h
      cases h
      refine .oneOf (ih ht (halike.imp (fun heq => (oneOf.inj heq).1) fun hsame => ?_))
      exact (Bool.and_eq_true_iff.mp hsame).1
  | arith op ts ih =>
      rw [ofJson_arith] at h
      obtain ⟨read, hread, h⟩ := Results.bind_eq_ok.mp h
      split at h
      next => cases h
      next hne =>
          cases h
          have hterms : List.Forall₂ Alike read ts := by
            refine forall₂_alike (halike.imp (fun heq => (arith.inj heq).2) fun hsame => ?_)
            exact (Bool.and_eq_true_iff.mp hsame).2
          refine .arith ?_ (forall_readable ih hread hterms)
          -- a computation over nothing is not read
          rintro rfl
          cases hterms
          exact hne rfl
  | coalesce ts ih =>
      rw [ofJson_coalesce] at h
      obtain ⟨read, hread, rfl⟩ := Results.map_eq_ok.mp h
      exact .coalesce (forall_readable ih hread (forall₂_alike (halike.imp coalesce.inj id)))

/-- **An expression is read back as it was written exactly when it is readable**, and one that is
not does not come back in another order of members either. -/
theorem ofJson_toJson_iff (e : Expr) :
    (ofJson e.toJson = .ok e ↔ Readable e)
      ∧ ∀ r, ofJson e.toJson = .ok r → r.same e = true → Readable e :=
  ⟨⟨fun h => readable_of_alike h (Or.inl rfl), Readable.ofJson_toJson⟩,
    fun _ h hsame => readable_of_alike h (Or.inr hsame)⟩

end Tabula.Expr
