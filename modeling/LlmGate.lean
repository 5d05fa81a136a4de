import LlmGate.Shared.Machine
import LlmGate.Shared.Program
import LlmGate.Core.Neutral
import LlmGate.Privacy.Vault
import LlmGate.Privacy.Redact
import LlmGate.Privacy.Session
import LlmGate.Privacy.Restore
import LlmGate.Privacy.Reversible
import LlmGate.Privacy.Masking
import LlmGate.Privacy.Stream
import LlmGate.Privacy.Channels
import LlmGate.Core.Sse
import LlmGate.Anthropic.Encoder
import LlmGate.Anthropic.Assemble
import LlmGate.Anthropic.Decoder
import LlmGate.Anthropic.Relay
import LlmGate.Core.Pipeline
import LlmGate.Gemini.Stream
import LlmGate.OpenAi.Stream
import LlmGate.Core.Discipline
import LlmGate.Privacy.Guarded
import LlmGate.Privacy.Steady
import LlmGate.Core.Content
import LlmGate.Gemini.Conversation
import LlmGate.Core.Capped
import LlmGate.Core.Fallback
import LlmGate.Core.Handler
import LlmGate.Core.Keepalive
import LlmGate.Core.Records
import LlmGate.Privacy.Arguments
import LlmGate.Anthropic.RoundTrip
import LlmGate.Core.RoundTrip
import LlmGate.Anthropic.Codec
import LlmGate.Anthropic.Synthesis
import LlmGate.Core.Synthesis
import LlmGate.Core.Dialogue
import LlmGate.OpenAi.Dialogue
import LlmGate.Core.Lossless
import LlmGate.OpenAi.Metadata
import LlmGate.Core.Ending
import LlmGate.Privacy.Errors
import LlmGate.Core.Failures
import LlmGate.Gemini.Ids
import LlmGate.Core.Indices
import LlmGate.Anthropic.Parallel
import LlmGate.OpenAi.Nulls
import LlmGate.Privacy.Fresh
import LlmGate.Core.Images
import LlmGate.OpenAi.Texts
import LlmGate.Core.Integers
import LlmGate.Core.Done
import LlmGate.Privacy.Exempt
import LlmGate.Core.Auth
import LlmGate.Gemini.Url
import LlmGate.Core.Cadence
import LlmGate.Gemini.Calls
import LlmGate.Privacy.Namespaces
import LlmGate.Privacy.Cache
import LlmGate.Privacy.Boundaries
import LlmGate.Core.Bounded
