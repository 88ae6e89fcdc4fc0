import FuzzyInference.Proofs.CSource.Meaning

/-!
# Running generated code

What statements do to an environment, and loops pass by pass: what holds before a loop and is kept
by every pass of its body holds behind it. An expression fits machine integers if all integers that
come up in it are of 32 bits.
-/

namespace FuzzyInference.CSource

variable {α : Type} [Scalar α] {functions : Functions α} {env : Environment α}

/-! ### Environments -/

namespace Environment

omit [Scalar α] in
/-- A name stands for what it was set to. -/
@[simp] theorem set_self (name : String) (v : Value α) : env.set name v name = some v :=
  if_pos rfl

omit [Scalar α] in
/-- Setting a name does not change what others stand for. -/
theorem set_of_ne {name other : String} (h : other ≠ name) (v : Value α) :
    env.set name v other = env other :=
  if_neg h

end Environment

/-! ### Statements -/

/-- A body of which the first statement goes on. -/
theorem runBody_cons {env' : Environment α} {s : Statement α} {rest : List (Statement α)}
    (h : s.run functions env = some (.going env')) :
    runBody functions env (s :: rest) = runBody functions env' rest := by
  simp only [runBody, h]
  rfl

/-- A body that is run behind one that goes on. -/
theorem runBody_append {env' : Environment α} {first rest : List (Statement α)}
    (h : runBody functions env first = some (.going env')) :
    runBody functions env (first ++ rest) = runBody functions env' rest := by
  induction first generalizing env with
  | nil =>
    rw [runBody] at h
    cases h
    rfl
  | cons s first ih =>
    rw [List.cons_append]
    rw [runBody] at h ⊢
    cases hs : s.run functions env with
    | none => simp [hs] at h
    | some outcome =>
      rw [hs] at h
      cases outcome with
      | returned x => simp at h
      | going env => exact ih h

/-- A local integer is set to the value of its expression. -/
theorem run_whole {name : String} {e : Expression α} {v : Value α}
    (h : valueOf functions env e = some v) :
    (Statement.whole name e).run functions env =
      some (.going (env.set name (.whole v.toWhole))) := by
  simp only [Statement.run, h]
  rfl

/-- A local number is set to what its expression means. -/
theorem run_floating {name : String} {e : Expression α} {x : α}
    (h : valueOf functions env e = some (.floating x)) :
    (Statement.floating [(name, e)]).run functions env =
      some (.going (env.set name (.floating x))) := by
  simp only [Statement.run, List.foldlM_cons, List.foldlM_nil, h]
  rfl

/-- A local number is increased by what an expression means. -/
theorem run_increase {name : String} {e : Expression α} {x y : α}
    (hold : env name = some (.floating x)) (h : valueOf functions env e = some (.floating y)) :
    (Statement.increase name e).run functions env =
      some (.going (env.set name (.floating (x + y)))) := by
  simp only [Statement.run, hold, h]
  rfl

/-! ### Loops -/

/-- What a pass of the body of a loop does, unless the function has returned before. -/
noncomputable def runPass (functions : Functions α) (index : String) (body : List (Statement α))
    (outcome : Outcome α) (k : Nat) : Option (Outcome α) :=
  match outcome with
  | .returned x => some (.returned x)
  | .going env => runBody functions (env.set index (.whole k)) body

/-- What comes of a number of passes of the body of a loop. -/
noncomputable def runPasses (functions : Functions α) (index : String) (body : List (Statement α))
    (env : Environment α) (n : Nat) : Option (Outcome α) :=
  (List.range n).foldlM (runPass functions index body) (.going env)

/-- A loop makes as many passes as its bound says. -/
theorem run_loop {index bound : String} {body : List (Statement α)} {v : Value α}
    (h : env bound = some v) :
    (Statement.loop index bound body).run functions env =
      runPasses functions index body env v.toWhole.toNat := by
  rw [Statement.run, h]
  rfl

/-- A further pass is made on what came of those before. -/
theorem runPasses_succ {index : String} {body : List (Statement α)} {env' : Environment α} {k : Nat}
    (h : runPasses functions index body env k = some (.going env')) :
    runPasses functions index body env (k + 1) =
      runBody functions (env'.set index (.whole k)) body := by
  have hlast (outcome : Outcome α) : [k].foldlM (runPass functions index body) outcome =
      runPass functions index body outcome k := by
    rw [List.foldlM_cons]
    exact bind_pure _
  rw [runPasses] at h ⊢
  rw [List.range_succ, List.foldlM_append, h]
  exact hlast _

/-- What holds before a loop and is kept by every pass holds after every number of passes. -/
theorem runPasses_invariant {index : String} {body : List (Statement α)} {n : Nat}
    {I : Nat → Environment α → Prop} (hinit : I 0 env)
    (hpass : ∀ k env, k < n → I k env →
      ∃ env', runBody functions (env.set index (.whole k)) body = some (.going env') ∧
        I (k + 1) env') :
    ∀ k ≤ n, ∃ env', runPasses functions index body env k = some (.going env') ∧ I k env' := by
  intro k hk
  induction k with
  | zero => exact ⟨env, rfl, hinit⟩
  | succ k ih =>
    obtain ⟨before, hbefore, hI⟩ := ih (Nat.le_of_succ_le hk)
    obtain ⟨after, hafter, hI'⟩ := hpass k before hk hI
    exact ⟨after, (runPasses_succ hbefore).trans hafter, hI'⟩

/-! ### Machine integers -/

mutual

/-- The terms that a term is made of, itself included. -/
def Term.subterms : Term α → List (Term α)
  | .number x => [.number x]
  | .whole n => [.whole n]
  | .variable name => [.variable name]
  | .call function arguments => .call function arguments :: subtermsAll arguments
  | .negation t => .negation t :: t.subterms
  | .conversion t => .conversion t :: t.subterms
  | .binary op l r => .binary op l r :: (l.subterms ++ r.subterms)
  | .choice c y n => .choice c y n :: (c.subterms ++ y.subterms ++ n.subterms)

/-- The terms that several terms are made of. -/
def subtermsAll : List (Term α) → List (Term α)
  | [] => []
  | t :: ts => t.subterms ++ subtermsAll ts

end

/-- A value that is no integer, or one of 32 bits. -/
def Value.FitsInt : Value α → Prop
  | .whole n => -0x80000000 ≤ n ∧ n < 0x80000000
  | .floating _ => True

omit [Scalar α] in
/-- The value of a condition is an integer of 32 bits. -/
theorem Value.fitsInt_ofBool (b : Bool) : (Value.ofBool b : Value α).FitsInt := by
  cases b <;> exact ⟨by decide, by decide⟩

/-- All integers that come up in a term are of 32 bits. -/
def Term.FitsInt (functions : Functions α) (env : Environment α) (t : Term α) : Prop :=
  ∀ u ∈ t.subterms, ∀ v, u.value functions env = some v → v.FitsInt

private theorem Term.FitsInt.of_value {t : Term α} {ts : List (Term α)} {v : Value α}
    (hsub : t.subterms = t :: ts)
    (hts : ∀ u ∈ ts, ∀ w, u.value functions env = some w → w.FitsInt)
    (h : t.value functions env = some v) (hv : v.FitsInt) : t.FitsInt functions env := by
  intro u hu w hw
  rw [hsub] at hu
  rcases List.mem_cons.mp hu with rfl | hu
  · cases h.symm.trans hw
    exact hv
  · exact hts u hu w hw

/-- An expression is of a level and has a value, and all integers that come up in it are of 32
bits. -/
def Yields (functions : Functions α) (env : Environment α) (n : Nat) (e : Expression α)
    (v : Value α) : Prop :=
  ∃ t, Reads n e t ∧ t.value functions env = some v ∧ t.FitsInt functions env

namespace Yields

variable {m n : Nat} {e l r c : Expression α} {v w z : Value α}

/-- An expression of some level is one of every higher level. -/
theorem of_le (hmn : m ≤ n) (h : Yields functions env m e v) : Yields functions env n e v := by
  obtain ⟨t, ht, hv⟩ := h
  exact ⟨t, ht.of_le hmn, hv⟩

/-- What an expression yields is its value. -/
theorem valueOf_eq (hn : n ≤ 8) (h : Yields functions env n e v) :
    valueOf functions env e = some v := by
  obtain ⟨t, ht, hv, -⟩ := h
  rw [valueOf, reading_eq hn ht]
  exact hv

/-- What an expression yields is no integer, or one of 32 bits. -/
theorem fitsInt (h : Yields functions env n e v) : v.FitsInt := by
  obtain ⟨t, -, hv, hfits⟩ := h
  refine hfits t ?_ v hv
  cases t <;> exact List.mem_cons_self

/-- A literal yields its number. -/
theorem number (x : α) : Yields functions env 0 [.number x] (.floating x) :=
  ⟨_, .number x, rfl, .of_value rfl nofun rfl trivial⟩

/-- An integer literal yields its integer. -/
theorem whole {k : Nat} (hk : k < 0x80000000) : Yields functions env 0 [.whole k] (.whole k) :=
  ⟨_, .whole k, rfl, .of_value rfl nofun rfl (by constructor <;> omega)⟩

/-- A name yields what it stands for. -/
theorem name {s : String} (h : env s = some v) (hv : v.FitsInt) :
    Yields functions env 0 [.name s] v :=
  ⟨_, .variable s, h, .of_value rfl nofun h hv⟩

/-- In parentheses every expression yields the same. -/
theorem group (hn : n ≤ 8) (h : Yields functions env n e v) :
    Yields functions env 0 (Expression.grouped e) v := by
  obtain ⟨t, ht, hv⟩ := h
  exact ⟨t, .group (ht.of_le hn), hv⟩

/-- A conversion yields the integer that is left of a value. -/
theorem conversion (h : Yields functions env 1 e v)
    (hv : (Value.whole v.toWhole : Value α).FitsInt) :
    Yields functions env 1 (.toInt :: e) (.whole v.toWhole) := by
  obtain ⟨t, ht, hvalue, hfits⟩ := h
  have hconversion : (Term.conversion t).value functions env = some (.whole v.toWhole) := by
    simp only [Term.value, hvalue]
    rfl
  exact ⟨_, .conversion ht, hconversion, .of_value rfl hfits hconversion hv⟩

/-- A function of one argument yields its value, if its name is not that of a variable. -/
theorem call {function : String} {x : α} (hn : n ≤ 8) (h : Yields functions env n e v)
    (henv : env function = none) (hf : functions function [v.toFloating] = some x) :
    Yields functions env 0 (Expression.call function [e]) (.floating x) := by
  obtain ⟨t, ht, hvalue, hfits⟩ := h
  have hcall : (Term.call function [t]).value functions env = some (.floating x) := by
    simp [Term.value, argumentValues, hvalue, henv, hf]
  have hsub : (Term.call function [t]).subterms = .call function [t] :: t.subterms := by
    rw [Term.subterms, subtermsAll, subtermsAll, List.append_nil]
  exact ⟨_, .call (.one (ht.of_le hn)), hcall, .of_value hsub hfits hcall trivial⟩

/-- An operator yields what it makes of the values of its operands. -/
theorem binary {token : Token α} (op : BinaryOperator) (htoken : token.operator? = some op)
    (hl : op.level = n + 1) (h : Yields functions env (n + 1) l v) (k : Yields functions env n r w)
    (hz : op.apply v w = some z) (hfits : z.FitsInt) :
    Yields functions env (n + 1) (l ++ token :: r) z := by
  obtain ⟨t, ht, hv, htfits⟩ := h
  obtain ⟨u, hu, hw, hufits⟩ := k
  have hbinary : (Term.binary op t u).value functions env = some z := by
    simp only [Term.value, hv, hw]
    exact hz
  exact ⟨_, .binary htoken hl ht hu, hbinary,
    .of_value rfl (List.forall_mem_append.mpr ⟨htfits, hufits⟩) hbinary hfits⟩

/-- A choice yields what the alternative does that its condition chooses. -/
theorem choice {b : Bool} (hc : Yields functions env 7 c (.ofBool b))
    (hl : Yields functions env 8 l v) (hr : Yields functions env 8 r w) :
    Yields functions env 8 (Expression.choice c l r) (if b then v else w) := by
  obtain ⟨t, ht, hb, htfits⟩ := hc
  have hvfits : (if b then v else w).FitsInt := by
    cases b with
    | false => exact hr.fitsInt
    | true => exact hl.fitsInt
  obtain ⟨u, hu, hv, hufits⟩ := hl
  obtain ⟨u', hu', hw, hufits'⟩ := hr
  have hchoice : (Term.choice t u u').value functions env = some (if b then v else w) := by
    cases b with
    | false => simpa [Term.value, hb] using hw
    | true => simpa [Term.value, hb] using hv
  exact ⟨_, .choice ht hu hu', hchoice, .of_value rfl
    (List.forall_mem_append.mpr ⟨List.forall_mem_append.mpr ⟨htfits, hufits⟩, hufits'⟩) hchoice
    hvfits⟩

end Yields

end FuzzyInference.CSource
