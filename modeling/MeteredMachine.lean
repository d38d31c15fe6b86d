import MeteredMachine.Proofs.ControlFlow
import MeteredMachine.Proofs.GasThreshold
import MeteredMachine.Proofs.MemoryCharge
import MeteredMachine.Proofs.PlaceValue
import MeteredMachine.Proofs.StackFrame
import MeteredMachine.Stack.View
import MeteredMachine.Trace.Document
import MeteredMachine.Trace.Session
import MeteredMachine.Proofs.TrailingZeros
import MeteredMachine.Proofs.Refusal
import MeteredMachine.Proofs.Representation
import MeteredMachine.Proofs.RecordedHistory
import MeteredMachine.Proofs.CallNesting
import MeteredMachine.Proofs.TracedRun
import MeteredMachine.Proofs.StackReplay
import MeteredMachine.Proofs.UnchangedParts
import MeteredMachine.Proofs.CompletedStep
import MeteredMachine.Proofs.ByteMap
import MeteredMachine.Proofs.LastWriter
import MeteredMachine.Proofs.ExactPrice
import MeteredMachine.Proofs.OrderedChecks
import MeteredMachine.Proofs.JumpDestination
import MeteredMachine.Proofs.MemoryGrowth
import MeteredMachine.Proofs.GuardedParts
import MeteredMachine.Proofs.GuardedEvaluation
import MeteredMachine.Proofs.ModularPower
import MeteredMachine.Proofs.PushImmediate
import MeteredMachine.Proofs.GasBreakdown
import MeteredMachine.Proofs.HexText
import MeteredMachine.Proofs.JsonString
import MeteredMachine.Proofs.WordText
import MeteredMachine.Proofs.AddressText
import MeteredMachine.Proofs.MapContents
import MeteredMachine.Proofs.CanonicalStorage
import MeteredMachine.Proofs.ListingLines
import MeteredMachine.Proofs.DocumentContents
import MeteredMachine.Proofs.MemoryRefinement
import MeteredMachine.Proofs.SignificantBytes
import MeteredMachine.Proofs.StackRefinement
import MeteredMachine.Proofs.WordOrder
import MeteredMachine.Proofs.GasAccount
import MeteredMachine.Proofs.JsonGrammar
import MeteredMachine.Proofs.TwoViews
import MeteredMachine.Proofs.StrictOptions
