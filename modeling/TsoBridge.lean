import TsoBridge.Cli.FileTree
import TsoBridge.Host.Rigged
import TsoBridge.Main
import TsoBridge.Proofs.Authorization
import TsoBridge.Proofs.DirectCapture
import TsoBridge.Proofs.Policy
import TsoBridge.Proofs.SingleCall
import TsoBridge.Proofs.Agreement
import TsoBridge.Proofs.ExecResult
import TsoBridge.Proofs.SharedStream
import TsoBridge.Proofs.CleanupReport
import TsoBridge.Proofs.AllocationOutcome
import TsoBridge.Proofs.PrivateDataset
import TsoBridge.Proofs.FirstFit
import TsoBridge.Proofs.FirstAnswer
import TsoBridge.Proofs.Substitute
import TsoBridge.Proofs.Unmasked
import TsoBridge.Proofs.FrameRelease
import TsoBridge.Proofs.WrongParms
import TsoBridge.Proofs.StorageAtRest
import TsoBridge.Proofs.Reading
import TsoBridge.Proofs.Rollback
import TsoBridge.Proofs.InvocationTurns
import TsoBridge.Proofs.BatchRun
import TsoBridge.Proofs.EvalNumber
import TsoBridge.Proofs.WrittenRequest
import TsoBridge.Proofs.DdNames
import TsoBridge.Proofs.Access
import TsoBridge.Proofs.Sim.CallArea
import TsoBridge.Proofs.GeneratedNames
import TsoBridge.Proofs.SettingsOrder
import TsoBridge.Proofs.TokenLaw
import TsoBridge.Proofs.PlacedList
import TsoBridge.Proofs.Bounds
