import Quorum.Aes256
import Quorum.Aes256Gcm
import Quorum.Base64
import Quorum.Blank
import Quorum.Bls.Extension
import Quorum.Bls.Field
import Quorum.Bls.Group
import Quorum.Bls.HashToG1
import Quorum.Bls.Isogeny
import Quorum.Bls.Pairing
import Quorum.Bls.Point
import Quorum.Bls.Suite
import Quorum.Bytes
import Quorum.Client
import Quorum.Collector
import Quorum.CommandLine.Command
import Quorum.CommandLine.Inspection
import Quorum.CommandLine.Options
import Quorum.CommandLine.Run
import Quorum.Directory
import Quorum.Document
import Quorum.Error
import Quorum.Fetch
import Quorum.FileStore
import Quorum.Files
import Quorum.GF256
import Quorum.Hex
import Quorum.Ibe
import Quorum.Json.Fields
import Quorum.Json.Parser
import Quorum.Json.Printer
import Quorum.Json.Value
import Quorum.KeyFile
import Quorum.LocalServers
import Quorum.Main
import Quorum.ObjectId
import Quorum.PairingSuite
import Quorum.ParseError
import Quorum.Path
import Quorum.Proofs.Base64
import Quorum.Proofs.Bls.Infinity
import Quorum.Proofs.Collector.Answers
import Quorum.Proofs.Collector.Reached
import Quorum.Proofs.Collector.Run
import Quorum.Proofs.Collector.Sequence
import Quorum.Proofs.Collector.Start
import Quorum.Proofs.Collector.Submission
import Quorum.Proofs.CommandLine.Decrypting
import Quorum.Proofs.CommandLine.Fetching
import Quorum.Proofs.CommandLine.Keys
import Quorum.Proofs.CommandLine.Repeated
import Quorum.Proofs.CommandLine.RoundTrip
import Quorum.Proofs.CommandLine.Serving
import Quorum.Proofs.CommandLine.Steps
import Quorum.Proofs.CommandLine.Strict
import Quorum.Proofs.Consistency
import Quorum.Proofs.DiscreteLog
import Quorum.Proofs.Document
import Quorum.Proofs.Fetch.Opening
import Quorum.Proofs.Fetch.Plan
import Quorum.Proofs.Fetch.Quorum
import Quorum.Proofs.FileStore
import Quorum.Proofs.GF256.Field
import Quorum.Proofs.GF256.Tables
import Quorum.Proofs.Hex
import Quorum.Proofs.Ibe.Masking
import Quorum.Proofs.Ibe.Unmasking
import Quorum.Proofs.Ibe.Verification
import Quorum.Proofs.Json.Fields
import Quorum.Proofs.Json.Reading
import Quorum.Proofs.KeyFile
import Quorum.Proofs.LocalServers
import Quorum.Proofs.ObjectId
import Quorum.Proofs.Outcome
import Quorum.Proofs.Path
import Quorum.Proofs.RandomSource
import Quorum.Proofs.Registration
import Quorum.Proofs.Schedule
import Quorum.Proofs.SealedObject.Codec
import Quorum.Proofs.SealedObject.Extent
import Quorum.Proofs.SealedObject.Faults
import Quorum.Proofs.SealedObject.Validation
import Quorum.Proofs.Sealing.Agreement
import Quorum.Proofs.Sealing.Encryption
import Quorum.Proofs.Sealing.Endings
import Quorum.Proofs.Sealing.Layout
import Quorum.Proofs.Sealing.Opening
import Quorum.Proofs.Sealing.Outcomes
import Quorum.Proofs.Sealing.Refusal
import Quorum.Proofs.Sealing.RoundTrip
import Quorum.Proofs.Sealing.Sufficiency
import Quorum.Proofs.ServerList
import Quorum.Proofs.ServerSet
import Quorum.Proofs.Sharing.Combine
import Quorum.Proofs.Sharing.Interpolation
import Quorum.Proofs.Sharing.Outcomes
import Quorum.Proofs.Sharing.Polynomial
import Quorum.Proofs.Sharing.Reconstruction
import Quorum.Proofs.Sharing.Secrecy
import Quorum.Proofs.Sharing.Sensitivity
import Quorum.Proofs.Table
import Quorum.Proofs.Text
import Quorum.Proofs.Verification.Honest
import Quorum.Proofs.Verification.Outcomes
import Quorum.Proofs.Verification.Sealable
import Quorum.Proofs.Verification.Steps
import Quorum.Proofs.Wire.Faults
import Quorum.Proofs.Wire.Numbers
import Quorum.Proofs.Wire.Prompt
import Quorum.Proofs.Wire.Reader
import Quorum.Proofs.Wire.Sequence
import Quorum.Proofs.Wire.Uleb128
import Quorum.Proofs.Writable
import Quorum.RandomSource
import Quorum.Schedule
import Quorum.SealedObject.Basic
import Quorum.SealedObject.Codec
import Quorum.Sealing
import Quorum.ServerList
import Quorum.ServerSet
import Quorum.Sha256
import Quorum.Share
import Quorum.Table
import Quorum.Wire.Reader
import Quorum.Wire.Uleb128
