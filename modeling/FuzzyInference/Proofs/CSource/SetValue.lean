import FuzzyInference.Proofs.CSource.Spellings
import FuzzyInference.Proofs.CSource.FuzzySet
import FuzzyInference.Proofs.CSource.Numbers
import FuzzyInference.Proofs.CSource.Unit
import FuzzyInference.Proofs.CSource.Vocabulary
import FuzzyInference.Proofs.FuzzySet.Sampling

/-!
# The values of written sets

What is written for a valid set is one expression in parentheses, which the grammar reads in one way
only. Its value is the degree of the variable in the set, under every context with the operators
that the set was written for. Its literals are finite if the keys of tables are read as finite
numbers, and no union and no intersection is written without operands.
-/

namespace FuzzyInference.CSource

open Expression Result

section Trees

variable {α : Type} [Scalar α] {ctx : Context} {x : String} {t : FuzzySet α}

private theorem exists_first {β : Type} {s : FuzzySet α} {e : Expression α} {first : Checked α β}
    {rest : β → Checked α (Expression α)} (hs : setBody ctx x s = first >>= rest)
    (he : set ctx x s = .ok e) : ∃ b, first = .ok b := by
  obtain ⟨body, hbody, -⟩ := set_eq_ok_iff.mp he
  obtain ⟨b, hb, -⟩ := bind_eq_ok_iff.mp (hs.symm.trans hbody)
  exact ⟨b, hb⟩

mutual

/-- Everything that stands in a written set is written. -/
theorem exists_set_of_mem_nodes : (s : FuzzySet α) → {e : Expression α} → set ctx x s = .ok e →
    t ∈ s.nodes → ∃ e, set ctx x t = .ok e
  | .singleton _, e, he, ht => ⟨e, List.mem_singleton.mp ht ▸ he⟩
  | .discrete _, e, he, ht => ⟨e, List.mem_singleton.mp ht ▸ he⟩
  | .constant _, e, he, ht => ⟨e, List.mem_singleton.mp ht ▸ he⟩
  | .shape _, e, he, ht => ⟨e, List.mem_singleton.mp ht ▸ he⟩
  | .not s, e, he, ht => by
    rcases List.mem_cons.mp ht with rfl | ht
    · exact ⟨e, he⟩
    · obtain ⟨_, hs⟩ := exists_first (by rw [setBody]) he
      exact exists_set_of_mem_nodes s hs ht
  | .scale s factor, e, he, ht => by
    rcases List.mem_cons.mp ht with rfl | ht
    · exact ⟨e, he⟩
    · obtain ⟨_, hs⟩ := exists_first (by rw [setBody]) he
      exact exists_set_of_mem_nodes s hs ht
  | .implication op truth s, e, he, ht => by
    rcases List.mem_cons.mp ht with rfl | ht
    · exact ⟨e, he⟩
    · obtain ⟨_, hs⟩ := exists_first (by rw [setBody]) he
      exact exists_set_of_mem_nodes s hs ht
  | .or op? ss, e, he, ht => by
    rcases List.mem_cons.mp ht with rfl | ht
    · exact ⟨e, he⟩
    · obtain ⟨_, hss⟩ := exists_first (by rw [setBody]) he
      exact exists_set_of_mem_nodesAll ss hss ht
  | .and op? ss, e, he, ht => by
    rcases List.mem_cons.mp ht with rfl | ht
    · exact ⟨e, he⟩
    · obtain ⟨_, hss⟩ := exists_first (by rw [setBody]) he
      exact exists_set_of_mem_nodesAll ss hss ht

/-- Everything that stands in written sets is written. -/
theorem exists_set_of_mem_nodesAll : (ss : List (FuzzySet α)) → {es : List (Expression α)} →
    sets ctx x ss = .ok es → t ∈ FuzzySet.nodesAll ss → ∃ e, set ctx x t = .ok e
  | [], _, _, ht => by cases ht
  | s :: ss, _, hes, ht => by
    rw [sets] at hes
    obtain ⟨e, he, hes⟩ := bind_eq_ok_iff.mp hes
    obtain ⟨rest, hrest, -⟩ := bind_eq_ok_iff.mp hes
    rcases List.mem_append.mp ht with ht | ht
    · exact exists_set_of_mem_nodes s he ht
    · exact exists_set_of_mem_nodesAll ss hrest ht

end

private theorem exists_operands {s : FuzzySet α} {ss : List (FuzzySet α)} {e : Expression α}
    {rest : List (Expression α) → Checked α (Expression α)}
    (hs : setBody ctx x s = sets ctx x ss >>= rest) (he : set ctx x s = .ok e) (hne : ss ≠ []) :
    ∃ es, sets ctx x ss = .ok es ∧ 0 < es.length := by
  obtain ⟨es, hes⟩ := exists_first hs he
  exact ⟨es, hes, (sets_eq_ok_iff.mp hes).length_eq ▸ List.length_pos_iff.mpr hne⟩

end Trees

variable {ctx : Context} {x : String} {s : FuzzySet Exact} {e : Expression Exact}

/-- The literals of a written set are finite if what the keys of tables are read as is. -/
theorem writes_isFinite_set (hs : s.WellFormed) (he : set ctx x s = .ok e)
    (hkeys : s.KeysRead fun k ↦ Scalar.isFinite k = true) :
    Writes (fun k ↦ Scalar.isFinite k = true) e := by
  obtain ⟨body, hbody, rfl⟩ := set_eq_ok_iff.mp he
  have hsupplies : s.Supplies fun k ↦ Scalar.isFinite k = true := ⟨hs.finite, fun _ _ _ ↦ rfl⟩
  have hzero : Scalar.isFinite (0 : Exact) = true := rfl
  have hone : Scalar.isFinite (1 : Exact) = true := rfl
  exact writes_grouped.mpr ((writes_setBody_iff hzero hone hsupplies hbody).mpr hkeys)

/-- The text of a written set is read as an expression in parentheses that is read in one way only
and has the value of the one that was written. -/
theorem readExpression?_set (hs : s.validate = .ok ()) (he : set ctx x s = .ok e)
    (hx : isUsable x = true) {sp : Spelling Exact} (hsp : Writes sp.ReadsBack e) :
    ∃ body, readExpression? sp.read (render sp.write e) = some (grouped body) ∧
      (∃! t, Reads 8 body t) ∧
      ∀ functions env, valueOf functions env (grouped body) = valueOf functions env e := by
  have hnames : ∀ name ∈ [x], isUsable name = true := List.forall_mem_singleton.mpr hx
  have hunshadowed : Unshadowed (bindParameters [x] [.number 0]) :=
    unshadowed_bindParameters hnames
  have hzero : bindParameters [x] [Exact.number 0] x = some (.floating (.number 0)) := if_pos rfl
  obtain ⟨body, hbody, rfl⟩ := set_eq_ok_iff.mp he
  obtain ⟨t, ht, -⟩ := setBody_means knowsPrelude hunshadowed hzero ctx s hs hbody
  have hsp : ∀ y, .number y ∈ grouped body → sp.ReadsBack y :=
    fun y hy ↦ hsp y (mem_numbers_iff.mpr hy)
  have hread := readExpression?_of_reads (.group ht) (isFrom_set List.mem_cons_self s he) hnames hsp
  obtain ⟨u, hu, -⟩ := ht.spelled fun y hy ↦ hsp y (by simp [grouped, hy])
  refine ⟨body.spelled sp, ?_, ⟨u, hu, fun v hv ↦ hv.unique (Nat.le_refl 8) hu⟩, fun _ _ ↦ ?_⟩
  · rw [← spelled_grouped]
    exact hread
  · rw [← spelled_grouped]
    exact valueOf_spelled (by decide) (.group ht) hsp _ _

/-! ### Main results -/

/-- What is written for a valid set is an expression in parentheses that is read in one way only,
and its value is the degree of the variable's number in the set under every context with the
operators that the set was written for; the same holds of what its text is read as, wherever its
numbers are read as what was written. Its literals are finite, and every union and every
intersection in the set is written with an operand at least. -/
theorem set_value (hs : s.validate = .ok ()) (he : set ctx x s = .ok e)
    (hkeys : s.KeysRead fun k ↦ Scalar.isFinite k = true) :
    (∀ (env : Environment Exact) (v : ℝ) (sampled : Context), Unshadowed env →
      env x = some (.floating (.number v)) → sampled.conjunction = ctx.conjunction →
      sampled.disjunction = ctx.disjunction →
        (∃ body, e = grouped body ∧ ∃! t, Reads 8 body t) ∧
          valueOf (definedBy prelude) env e =
            some (.floating (s.degree sampled (.number (.number v))))) ∧
    (∀ sp : Spelling Exact, Writes sp.ReadsBack e → isUsable x = true →
      ∃ body, readExpression? sp.read (render sp.write e) = some (grouped body) ∧
        (∃! t, Reads 8 body t) ∧
        ∀ (env : Environment Exact) (v : ℝ) (sampled : Context), Unshadowed env →
          env x = some (.floating (.number v)) → sampled.conjunction = ctx.conjunction →
          sampled.disjunction = ctx.disjunction →
            valueOf (definedBy prelude) env (grouped body) =
              some (.floating (s.degree sampled (.number (.number v))))) ∧
    Writes (fun k ↦ Scalar.isFinite k = true) e ∧
    ∀ ss, ((∃ op?, FuzzySet.or op? ss ∈ s.nodes) ∨ ∃ op?, FuzzySet.and op? ss ∈ s.nodes) →
      ∃ es, sets ctx x ss = .ok es ∧ 0 < es.length := by
  have hwell := FuzzySet.validate_eq_ok_iff.mp hs
  have hvalue (env : Environment Exact) (v : ℝ) (sampled : Context) (hu : Unshadowed env)
      (hx : env x = some (.floating (.number v)))
      (hconjunction : sampled.conjunction = ctx.conjunction)
      (hdisjunction : sampled.disjunction = ctx.disjunction) :
      (∃ body, e = grouped body ∧ ∃! t, Reads 8 body t) ∧ valueOf (definedBy prelude) env e =
        some (.floating (s.degree sampled (.number (.number v)))) := by
    have hagree : s.AgreeOn ctx sampled :=
      ⟨fun _ _ ↦ hdisjunction.symm, fun _ _ ↦ hconjunction.symm⟩
    obtain ⟨body, hbody, rfl⟩ := set_eq_ok_iff.mp he
    have hmeans := setBody_means knowsPrelude hu hx ctx s hs hbody
    obtain ⟨t, ht, -⟩ := hmeans
    refine ⟨⟨body, rfl, t, ht, fun u hu ↦ hu.unique (Nat.le_refl 8) ht⟩, ?_⟩
    rw [← hagree.degree_eq]
    exact (set_means knowsPrelude hu hx hs he).valueOf_eq (by decide)
  refine ⟨hvalue, ?_, writes_isFinite_set hwell he hkeys, ?_⟩
  · intro sp hsp husable
    obtain ⟨body, hread, hunique, hsame⟩ := readExpression?_set hs he husable hsp
    exact ⟨body, hread, hunique, fun env v sampled hu hx hconjunction hdisjunction ↦
      (hsame _ _).trans (hvalue env v sampled hu hx hconjunction hdisjunction).2⟩
  · rintro ss (⟨op?, hmem⟩ | ⟨op?, hmem⟩)
    · obtain ⟨_, hor⟩ := exists_set_of_mem_nodes s he hmem
      exact exists_operands (by rw [setBody]) hor fun hempty ↦ hwell.unions op? (hempty ▸ hmem)
    · obtain ⟨_, hand⟩ := exists_set_of_mem_nodes s he hmem
      exact exists_operands (by rw [setBody]) hand fun hempty ↦
        hwell.intersections op? (hempty ▸ hmem)

/-- A listed degree beside a polygon with a vertical edge, and a bound on both. -/
noncomputable def comfort : FuzzySet Exact :=
  .and none [.or (some .boundedSum) [.discrete ⟨[("1", .number 0.5)], List.nodup_singleton _⟩,
    .shape
      (.piecewise [(.number (-1), .number 1), (.number 1, .number 0), (.number 1, .number 1)])],
    .constant (.number 0.75)]

private theorem ofText?_key :
    (Scalar.ofText? (Text.trim "1".toList) : Option Exact) = some (Scalar.ofDecimal 1 0) := by
  rfl

private theorem comfort_keysRead {P : Exact → Prop} (h : P (.number 1)) : comfort.KeysRead P := by
  suffices hkey : ∀ k : Exact, Scalar.ofText? (Text.trim "1".toList) = some k → P k by
    simpa [comfort, FuzzySet.KeysRead, FuzzySet.nodes, FuzzySet.nodesAll, Table.names] using hkey
  intro k hk
  rw [ofText?_key] at hk
  cases hk
  simpa [Scalar.ofDecimal] using h

private theorem comfort_readsBack : ∀ x ∈ comfort.numbers, exactSpelling.ReadsBack x := by
  have hone := exactSpelling_small (n := 1) (by decide)
  have hzero := exactSpelling_small (n := 0) (by decide)
  have hhalf := exactSpelling_decimal 5 (-1) (y := 0.5)
    (isFloatingConstant_digits '0' '5' (by decide) (by decide)) rfl (by norm_num)
  have hconstant : IsFloatingConstant (['0'] ++ '.' :: ['7', '5']) := .fractional ⟨nofun, by simp⟩
  have hbound := exactSpelling_decimal 75 (-2) (y := 0.75) hconstant rfl (by norm_num)
  have hnegative : exactSpelling.ReadsBack (.number (-1)) :=
    exactSpelling_neg_decimal 10 (-1) (isFloatingConstant_digits '1' '0' (by decide) (by decide))
      rfl (by norm_num)
  rw [Nat.cast_one] at hone
  rw [Nat.cast_zero] at hzero
  simp [comfort, FuzzySet.numbers, FuzzySet.numbersAll, Shape.numbers, Table.values, hone.1,
    hzero.1, hhalf.1, hbound.1, hnegative]

/-- The comfort is written for the default operators, and its text is read as an expression that
comes to its degree at every number. -/
theorem comfort_value :
    comfort.validate = .ok () ∧ (comfort.KeysRead fun k ↦ Scalar.isFinite k = true) ∧
      ∃ e, set {} "heat" comfort = .ok e ∧ Writes exactSpelling.ReadsBack e ∧
        ∃ body, readExpression? exactSpelling.read (render exactSpelling.write e) =
            some (grouped body) ∧
          ∀ v : ℝ,
            valueOf (definedBy prelude) (bindParameters ["heat"] [.number v]) (grouped body) =
              some (.floating (comfort.degree {} (.number (.number v)))) := by
  have hvalid : comfort.validate = .ok () := by
    have hleaves : (FuzzySet.discrete
          ⟨[("1", Exact.number 0.5)], List.nodup_singleton _⟩).WellFormed ∧
        (FuzzySet.constant (Exact.number 0.75)).WellFormed := by
      simp [FuzzySet.wellFormed_iff, FuzzySet.nodes, FuzzySet.numbers, Table.values,
        Exact.isFinite_iff]
    rw [FuzzySet.validate_eq_ok_iff]
    simp [comfort, hleaves, Shape.wellFormed_iff, Shape.numbers, Shape.knots, Shape.widths,
      Exact.isFinite_iff]
  have hkeys : comfort.KeysRead fun k ↦ Scalar.isFinite k = true := comfort_keysRead rfl
  have hwritten : ∃ e, set {} "heat" comfort = .ok e := by
    simp only [comfort, set, setBody, sets, listed, ofText?_key, shape, ok_bind, pure_eq_ok]
    exact ⟨_, rfl⟩
  obtain ⟨e, he⟩ := hwritten
  have hwrites : Writes exactSpelling.ReadsBack e := by
    have hzero : exactSpelling.ReadsBack 0 := (exactSpelling_small (n := 0) (by decide)).1
    have hone : exactSpelling.ReadsBack 1 := (exactSpelling_small (n := 1) (by decide)).1
    have hsupplies : comfort.Supplies exactSpelling.ReadsBack := by
      refine ⟨comfort_readsBack, fun op? ss hm ↦ ?_⟩
      obtain ⟨-, rfl⟩ : op? = none ∧ ss = _ := by
        simpa [comfort, FuzzySet.nodes, FuzzySet.nodesAll] using hm
      exact hone
    obtain ⟨body, hbody, rfl⟩ := set_eq_ok_iff.mp he
    exact writes_grouped.mpr
      ((writes_setBody_iff hzero hone hsupplies hbody).mpr (comfort_keysRead (Exact.one_eq ▸ hone)))
  have hunshadowed (v : ℝ) : Unshadowed (bindParameters ["heat"] [.number v]) :=
    unshadowed_bindParameters (List.forall_mem_singleton.mpr (by decide))
  obtain ⟨body, hread, -, hvalue⟩ :=
    (set_value hvalid he hkeys).2.1 exactSpelling hwrites (by decide)
  exact ⟨hvalid, hkeys, e, he, hwrites, body, hread,
    fun v ↦ hvalue _ v {} (hunshadowed v) rfl rfl rfl⟩

end FuzzyInference.CSource
