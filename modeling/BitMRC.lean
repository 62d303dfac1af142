import BitMRC.Address.Base58Bounds
import BitMRC.Address.Usable
import BitMRC.Crypto.EnvelopeBounds
import BitMRC.Crypto.EnvelopeRoundTrip
import BitMRC.Node.Admission
import BitMRC.Node.Connect
import BitMRC.Node.ContentAddressing
import BitMRC.Node.DeterministicAddr
import BitMRC.Node.Difficulty
import BitMRC.Node.KeyExchange
import BitMRC.Node.KeyRequest
import BitMRC.Node.Listener
import BitMRC.Node.Mining
import BitMRC.Node.NewMessages
import BitMRC.Node.NodeBlacklist
import BitMRC.Node.Progress
import BitMRC.Node.Provenance
import BitMRC.Node.Recovery
import BitMRC.Storage.Configuration
import BitMRC.Storage.QueryResult
import BitMRC.Utils.HashF
import BitMRC.Utils.HashTableUpdate
import BitMRC.Utils.StreamFormat
import BitMRC.Utils.VarIntB
import BitMRC.Wire.Lists
import BitMRC.Wire.RoundTrip
import BitMRC.Wire.Segments
import BitMRC.Wire.Version
