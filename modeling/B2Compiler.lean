import B2Compiler.Rbc.VerifierLeast
import B2Compiler.Codegen.TierAgreement
import B2Compiler.Codegen.FusionExact
import B2Compiler.Ir.Epochs
import B2Compiler.Interp.ExceptionDispatch
import B2Compiler.Interp.MonitorAccount
import B2Compiler.Interp.FrameShape
import B2Compiler.Interp.FieldIdentity
import B2Compiler.Passes.FailClosed
import B2Compiler.Passes.FoldExact
import B2Compiler.Codegen.InstantiateExact
import B2Compiler.Pipeline.DirtyClosure
import B2Compiler.Ts.Dispatch
import B2Compiler.Codegen.PhiMovesExact
import B2Compiler.Ts.ArrayRefinement
import B2Compiler.Ts.ProxyTransparency
import B2Compiler.Ts.ElementAccess
import B2Compiler.Ts.Integrity
import B2Compiler.Codegen.ArchiveBounds
import B2Compiler.Baseline.LivenessExact
import B2Compiler.Baseline.BackedgePolls
import B2Compiler.Interp.DispatchProfile
import B2Compiler.Ir.MemoryChains
import B2Compiler.Passes.BuilderConstants
import B2Compiler.Passes.BuilderPhis
import B2Compiler.Passes.SccpOrder
import B2Compiler.Passes.BuilderOrderSpec
import B2Compiler.Passes.TypeAgreement
import B2Compiler.Passes.DeadCodeExact
import B2Compiler.Passes.EscapeArraysExact
import B2Compiler.Passes.InlinerExact
import B2Compiler.Pipeline.RegionUnit
import B2Compiler.Frontend.FoldIntExact
import B2Compiler.Ts.SmiLanes
import B2Compiler.Frontend.Precedence
import B2Compiler.Ts.BigIntOpcodes
import B2Compiler.Frontend.IntegerLiterals
import B2Compiler.Ir.FrameSlices
import B2Compiler.Ts.ExceptionHandlers
