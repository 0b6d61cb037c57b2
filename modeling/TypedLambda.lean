import TypedLambda.Sample
import TypedLambda.Proofs.Judgement
import TypedLambda.Term.Binders
import TypedLambda.Term.Translation
import TypedLambda.Proofs.PrincipalTypes
import TypedLambda.Proofs.Termination
import TypedLambda.Proofs.SolvedForms
import TypedLambda.Proofs.AscribedVariables
import TypedLambda.Proofs.Simulation
import TypedLambda.Proofs.AlphaEquivalence
import TypedLambda.Proofs.LetReduction
import TypedLambda.Proofs.Hygiene
import TypedLambda.Proofs.SubjectReduction
import TypedLambda.Proofs.SameTypings
import TypedLambda.Proofs.ErasedEvaluation
import TypedLambda.Proofs.AlphaTyping
import TypedLambda.Proofs.ContextAgreement
import TypedLambda.Proofs.UnboundedIntegers
import TypedLambda.Proofs.DrawnNames
import TypedLambda.Proofs.NamedParameters
import TypedLambda.Proofs.InferenceInvariant
import TypedLambda.Proofs.Composition
import TypedLambda.Proofs.FreshNames
import TypedLambda.Proofs.LetSynthesis
import TypedLambda.Proofs.UnificationEnds
import TypedLambda.Proofs.ContextHistory
import TypedLambda.Proofs.Delimited
import TypedLambda.Proofs.Scoping
import TypedLambda.Proofs.ValueText
import TypedLambda.Proofs.TermText
import TypedLambda.Proofs.Replacement
import TypedLambda.Proofs.ValueTerms
