import EvnxCrypto.Effect
import EvnxCrypto.ByteString
import EvnxCrypto.AuthenticatedEncryption
import EvnxCrypto.Safety
import EvnxCrypto.Noninterference
import EvnxCrypto.Codec
import EvnxCrypto.Base64
import EvnxCrypto.Hex
import EvnxCrypto.Reader
import EvnxCrypto.Transcript
import EvnxCrypto.Interaction
import EvnxCrypto.Flow
import EvnxCrypto.Symbolic
import EvnxCrypto.Srp6a
import EvnxCrypto.Errors
import EvnxCrypto.Crates
import EvnxCrypto.Encoding
import EvnxCrypto.Kdf
import EvnxCrypto.Srp
import EvnxCrypto.Vault
import EvnxCrypto.Keypair
import EvnxCrypto.Sharing
import EvnxCrypto.Wire
import EvnxCrypto.Wasm
import EvnxCrypto.SymbolicCrates
import EvnxCrypto.OctetCrates
import EvnxCrypto.RoundTrip
import EvnxCrypto.VaultBinding
import EvnxCrypto.Rekeying
import EvnxCrypto.KeyRuns
import EvnxCrypto.KeyIntegrity
import EvnxCrypto.Transport
import EvnxCrypto.Identity
import EvnxCrypto.Deduction
import EvnxCrypto.Substitution
import EvnxCrypto.Knowledge
import EvnxCrypto.Clients
import EvnxCrypto.Secrecy
import EvnxCrypto.Genuine
import EvnxCrypto.Interop
import EvnxCrypto.SrpLogin
import EvnxCrypto.VerifierBinding
import EvnxCrypto.Nonces
import EvnxCrypto.UnwrapErrors
import EvnxCrypto.OpeningFailures
import EvnxCrypto.AadFormat
import EvnxCrypto.HostileInput
import EvnxCrypto.Api
import EvnxCrypto.Ledger
import EvnxCrypto.Sessions
import EvnxCrypto.SessionNonces
import EvnxCrypto.SelfTest
import EvnxCrypto.ErrorContract
import EvnxCrypto.Refusals
import EvnxCrypto.WireLengths
import EvnxCrypto.Desk
import EvnxCrypto.TeamFlows
import EvnxCrypto.TeamStore
import EvnxCrypto.TeamRows
import EvnxCrypto.TeamRefinement
import EvnxCrypto.ActiveServer
import EvnxCrypto.ServedFlows
import EvnxCrypto.TeamSecrecy
