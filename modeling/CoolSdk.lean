import CoolSdk.Core.OrderedMap
import CoolSdk.Core.Transition
import CoolSdk.Core.Fallible
import CoolSdk.Core.Timeline
import CoolSdk.Core.Cbor
import CoolSdk.Runtime.Number
import CoolSdk.Runtime.Value
import CoolSdk.Runtime.Date
import CoolSdk.Runtime.Host
import CoolSdk.Runtime.ReferenceHost
import CoolSdk.Platform.Status
import CoolSdk.Platform.Trust
import CoolSdk.Authz.Signed
import CoolSdk.Authz.ReferenceSigning
import CoolSdk.Authz.Principal
import CoolSdk.Authz.PrincipalHistory
import CoolSdk.Authz.PrincipalIssuer
import CoolSdk.Authz.Delegation
import CoolSdk.Authz.DelegationAuthority
import CoolSdk.Authz.Execution
import CoolSdk.Authz.Request
import CoolSdk.Authz.Commitment
import CoolSdk.Platform.Policy
import CoolSdk.Authz.Decision
import CoolSdk.Authz.Gateway
import CoolSdk.Authz.Mediation
import CoolSdk.Authz.AtMostOnce
import CoolSdk.Authz.ReplayShared
import CoolSdk.Authz.SharedBoundary
import CoolSdk.Authz.Forgetting
import CoolSdk.Authz.EnforcementTime
import CoolSdk.Core.MerkleConsistency
import CoolSdk.Wire.Merkle
import CoolSdk.Wire.MerkleProofs
import CoolSdk.Phala.Log
import CoolSdk.Phala.Engine
import CoolSdk.Phala.Transparency
import CoolSdk.Core.Register
import CoolSdk.Authz.PrincipalEvidence
import CoolSdk.Authz.BorrowedParams
import CoolSdk.Authz.Confirmation
import CoolSdk.Platform.Evaluation
import CoolSdk.Authz.DecisionReplay
import CoolSdk.Platform.Envelope
import CoolSdk.Platform.EnvelopeVerification
import CoolSdk.Platform.SignerKeys
import CoolSdk.Core.Framing
import CoolSdk.Phala.Quote
import CoolSdk.Platform.Bundle
import CoolSdk.Separation
import CoolSdk.Authz.Readable
import CoolSdk.Authz.Denials
import CoolSdk.Phala.LeafFile
import CoolSdk.Phala.SharedDirectory
import CoolSdk.Phala.CrashRecovery
import CoolSdk.Phala.Consistency
import CoolSdk.Phala.Capture
import CoolSdk.Phala.ExactlyOnce
import CoolSdk.Phala.Shape
import CoolSdk.Phala.Anchor
import CoolSdk.Phala.Verify
import CoolSdk.Phala.WellFormed
import CoolSdk.Phala.NeverThrows
import CoolSdk.Phala.Witness
import CoolSdk.WitnessIndependence
import CoolSdk.Phala.TamperEvidence
import CoolSdk.Phala.Fields
import CoolSdk.Phala.Ulid
import CoolSdk.Phala.Diff
import CoolSdk.Phala.Dstack
import CoolSdk.Phala.Evidence
import CoolSdk.Phala.Issued
import CoolSdk.Phala.Booted
import CoolSdk.Phala.Genuine
import CoolSdk.Phala.SealThenVerify
import CoolSdk.Phala.ReferencePlane
import CoolSdk.Core.Stream
import CoolSdk.Nitro.Frames
import CoolSdk.Nitro.Forwarder
import CoolSdk.Platform.ClaimedTime
import CoolSdk.Platform.Freshness
import CoolSdk.Platform.ProvenTime
import CoolSdk.Platform.Pipeline
import CoolSdk.Platform.Sequences
import CoolSdk.Nitro.Sealer
import CoolSdk.Nitro.EnclaveServer
import CoolSdk.Core.Rendezvous
import CoolSdk.Nitro.Collector
import CoolSdk.Phala.RaTls
import CoolSdk.Phala.AttachWitness
import CoolSdk.Phala.AnchorPaths
import CoolSdk.Phala.AnchorSoundness
import CoolSdk.Platform.UnknownFacts
import CoolSdk.Platform.StrictestDecision
import CoolSdk.Phala.Approvers
import CoolSdk.Platform.Der
import CoolSdk.Platform.DerScalars
import CoolSdk.Authz.Resp
import CoolSdk.Authz.ReferenceRedis
import CoolSdk.Authz.RedisClient
import CoolSdk.Authz.RedisPairing
import CoolSdk.Runtime.Doubles
import CoolSdk.Phala.AnchorWriter
import CoolSdk.Phala.AnchorSyntax
import CoolSdk.Phala.AnchorSpelling
import CoolSdk.Phala.AnchorRoundTrip
import CoolSdk.Phala.AnchorHeap
import CoolSdk.Phala.AnchorMerge
import CoolSdk.Phala.AnchorRanks
import CoolSdk.Phala.AnchorRemerge
import CoolSdk.Phala.AnchorAlloc
import CoolSdk.Phala.AnchorUpgrade
import CoolSdk.Phala.CommittedDiff
import CoolSdk.Phala.RecordIds
import CoolSdk.Platform.DeclaredPayloads
import CoolSdk.Phala.Disclosure
import CoolSdk.Phala.AuditPack
import CoolSdk.Phala.CaptureQueue
import CoolSdk.Phala.CaptureAccounting
import CoolSdk.Platform.TimestampChain
import CoolSdk.Platform.ChainOrder
import CoolSdk.Nvidia.NrasResult
import CoolSdk.Nvidia.Contained
import CoolSdk.Nitro.Document
import CoolSdk.Nitro.Attestation
import CoolSdk.Nitro.Hostile
import CoolSdk.Platform.DerFields
import CoolSdk.Platform.Timestamp
import CoolSdk.Platform.TimestampSoundness
import CoolSdk.Nitro.Authenticated
import CoolSdk.Nitro.Ledger
import CoolSdk.Core.Wildcard
import CoolSdk.Core.WhileLoop
import CoolSdk.Authz.ScopePatterns
import CoolSdk.Wire.TreeSizes
import CoolSdk.Phala.AnchorBytes
import CoolSdk.Platform.Connectors
import CoolSdk.Platform.ManifestCommitment
import CoolSdk.Client
