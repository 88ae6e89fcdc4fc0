import FuzzyInference.CSource.Unit
import FuzzyInference.Fault.Message
import FuzzyInference.FisText.Reader
import FuzzyInference.Interchange.FuzzySystem
import FuzzyInference.Operator.Named
import FuzzyInference.Proofs.Bisector
import FuzzyInference.Proofs.CSource.Crisp
import FuzzyInference.Proofs.CSource.SetValue
import FuzzyInference.Proofs.FirstMaximum
import FuzzyInference.Proofs.FisText.Layout
import FuzzyInference.Proofs.FisText.LinePattern
import FuzzyInference.Proofs.FisText.Reading
import FuzzyInference.Proofs.FisText.RuleEntry
import FuzzyInference.Proofs.FuzzySet.Settled
import FuzzyInference.Proofs.FuzzySet.Spline
import FuzzyInference.Proofs.FuzzySystem.Batch
import FuzzyInference.Proofs.FuzzySystem.Dependence
import FuzzyInference.Proofs.FuzzySystem.Formula
import FuzzyInference.Proofs.FuzzySystem.Monotone
import FuzzyInference.Proofs.FuzzySystem.RuleOrder
import FuzzyInference.Proofs.Interpolation.Knots
import FuzzyInference.Proofs.Maxima
import FuzzyInference.Proofs.Proposition.Grouping
import FuzzyInference.Proofs.Proposition.NormalForm
import FuzzyInference.Proofs.Proposition.Text
import FuzzyInference.Proofs.Registry.Attempts
import FuzzyInference.Proofs.RuleBase.Pairing
import FuzzyInference.Proofs.RuleBase.Resolution
import FuzzyInference.Proofs.SafeDivision
import FuzzyInference.RuleBase.Pairing
import FuzzyInference.Text.Field
