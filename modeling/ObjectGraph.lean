import ObjectGraph.Decimal.Reading
import ObjectGraph.Main
import ObjectGraph.SlotHost
import ObjectGraph.Proofs.PlainData
import ObjectGraph.Proofs.Sequencing
import ObjectGraph.Proofs.Effect
import ObjectGraph.Proofs.Confinement
import ObjectGraph.Proofs.Balance
import ObjectGraph.Proofs.BooleanHint
import ObjectGraph.Proofs.PlainEvaluation
import ObjectGraph.Proofs.Compilation
import ObjectGraph.Proofs.Passages
import ObjectGraph.Proofs.GrantIndependence
import ObjectGraph.Proofs.DecimalRounding
import ObjectGraph.Proofs.MixedEquality
import ObjectGraph.Proofs.Renderability
import ObjectGraph.Proofs.WiderPolicy
import ObjectGraph.Proofs.LiveGrants
import ObjectGraph.Proofs.PlainIndifference
import ObjectGraph.Proofs.PlainCommands
import ObjectGraph.Proofs.JsonReading
import ObjectGraph.Proofs.StringBodies
import ObjectGraph.Proofs.ExprJson
import ObjectGraph.Proofs.ExprRoundTrip
import ObjectGraph.Proofs.StaticHints
import ObjectGraph.Proofs.GenerationReuse
import ObjectGraph.Proofs.SingleWrite
import ObjectGraph.Proofs.SingleRendering
import ObjectGraph.Proofs.ShortCircuit
import ObjectGraph.Proofs.ChainNesting
import ObjectGraph.Proofs.Inquiry
import ObjectGraph.Proofs.NullSubstitution
import ObjectGraph.Proofs.BlankFragments
import ObjectGraph.Proofs.EqualValues
import ObjectGraph.Proofs.EqualTruth
import ObjectGraph.Proofs.Assignability
import ObjectGraph.Proofs.Rejections
import ObjectGraph.Proofs.ReadSpellings
import ObjectGraph.Proofs.AccessorTables
import ObjectGraph.Proofs.GenerationFailures
import ObjectGraph.Proofs.JsonConversion
import ObjectGraph.Proofs.FragmentLiterals
import ObjectGraph.Proofs.ValueText
import ObjectGraph.Proofs.HoistedNegations
import ObjectGraph.Proofs.ScalarReading
