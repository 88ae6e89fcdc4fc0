import FuzzyInference.Rule.Basic

/-!
# Rule bases

Rules in order. Their outputs are aggregated into one set by the disjunction that the context names
for it; that set holds the outputs unevaluated.
-/

namespace FuzzyInference

/-- The rules of a system. -/
structure RuleBase (α : Type) where
  /-- The rules in order. -/
  rules : List (Rule α)

/-- Rules that name their variables. -/
structure RuleBaseStatement (α : Type) where
  /-- The rules in order. -/
  rules : List (RuleStatement α)

instance {α : Type} : Inhabited (RuleBase α) := ⟨⟨[]⟩⟩

namespace RuleBaseStatement

/-- The text of the rules, a line each. -/
def text (s : RuleBaseStatement Float) : String :=
  String.intercalate "\n" (s.rules.map RuleStatement.text)

instance {α : Type} [BEq α] : BEq (RuleBaseStatement α) := ⟨fun a b => a.rules == b.rules⟩

/-- The rules that the statements make about the variables of a registry. -/
def resolve {α : Type} [Scalar α] (r : Registry α) (s : RuleBaseStatement α) :
    Checked α (RuleBase α) :=
  return ⟨← s.rules.mapM (RuleStatement.resolve r)⟩

end RuleBaseStatement

namespace RuleBase

variable {α : Type}

/-- The number of rules. -/
def size (base : RuleBase α) : Nat := base.rules.length

/-- The rules and one more behind them. -/
def push (base : RuleBase α) (rule : Rule α) : RuleBase α := ⟨base.rules ++ [rule]⟩

variable [Scalar α]

/-- The aggregated output of all rules. -/
def output (r : Registry α) (inputs : Assignment α) (ctx : Context) (base : RuleBase α) :
    Except LookupFault (FuzzySet α) :=
  return .or (some ctx.aggregation) (← base.rules.mapM (Rule.output r inputs ctx))

/-- The statements of the rules. -/
def describe (r : Registry α) (base : RuleBase α) : Except LookupFault (RuleBaseStatement α) :=
  return ⟨← base.rules.mapM (Rule.describe r)⟩

end RuleBase

end FuzzyInference
