import Hacp.Lib.Machine
import Hacp.Lib.Checks
import Hacp.Lib.Loop
import Hacp.Lib.Lookup
import Hacp.Lib.Readable
import Hacp.Lib.Reader
import Hacp.Lib.Pattern
import Hacp.Lib.Ancestry
import Hacp.Lib.DepthFirst
import Hacp.Lib.RecordGraph
import Hacp.Lib.Splitting
import Hacp.Lib.Calendar
import Hacp.Lib.Base64
import Hacp.Lib.UnixPath
import Hacp.Lib.BoundedMemory
import Hacp.Lib.Unwinding
import Hacp.Lib.Scan
import Hacp.Text
import Hacp.Foreign
import Hacp.V2.Json
import Hacp.V2.CanonicalForm
import Hacp.V2.JsonReader
import Hacp.V2.Schema
import Hacp.Interop.CanonicalAgreement
import Hacp.V2.Revocation
import Hacp.V2.PermitAdmission
import Hacp.V2.ContractRefusal
import Hacp.V2.ContractVotes
import Hacp.V2.ContractSettlement
import Hacp.V2.ContractAcceptances
import Hacp.V2.ContractBounds
import Hacp.V2.Preauthorization
import Hacp.V2.Formation
import Hacp.V2.EscalationLadder
import Hacp.V2.ParentWalks
import Hacp.V2.Timestamp
import Hacp.V2.Artifact
import Hacp.V2.Attestation
import Hacp.V1.BuildOrder
import Hacp.V1.InterfaceDigest
import Hacp.V1.TaskDecomposition
import Hacp.V1.EnvelopeShape
import Hacp.V2.EnvelopeForwarding
import Hacp.Secure.Tidy
import Hacp.Secure.Transcripts
import Hacp.Secure.Channel
import Hacp.Secure.InOrder
import Hacp.Secure.ContractView
import Hacp.Secure.ContractAgreement
import Hacp.Secure.Failures
import Hacp.Secure.Aborts
import Hacp.Secure.ManagerRun
import Hacp.Secure.HandshakeAgreement
import Hacp.Secure.HandshakeSuccess
import Hacp.Secure.EnvelopeSchema
import Hacp.Secure.RateBudget
import Hacp.Secure.Isolation
import Hacp.Secure.SeenHellos
import Hacp.Secure.WindowProgress
import Hacp.Secure.Guardian
import Hacp.Secure.GuardianSteps
import Hacp.Secure.NoDowngrade
import Hacp.Secure.OpenRequest
import Hacp.Secure.LostDeliveries
import Hacp.Secure.RefusedViews
import Hacp.Secure.GuardianRun
import Hacp.Secure.Service
import Hacp.Secure.Inboxes
import Hacp.Secure.EdgeFiles
import Hacp.Wasmer.Sandbox
import Hacp.Wasmer.CommandLine
import Hacp.Wasmer.Execution
import Hacp.Wasmer.Authorization
import Hacp.Wasmer.Capture
import Hacp.Wasmer.ExecutionClient
import Hacp.Wasmer.HostDetail
