import LlmGate.Core.Fallback
import LlmGate.Core.Resolver
import LlmGate.Privacy.Coverage

set_option autoImplicit false

namespace LlmGate.Pipeline

open Privacy Sse Utf8 Substitution Text

def MAX_UPSTREAM_BODY_BYTES : Nat := 16 * 1024 * 1024

inductive Mode
  | stream
  | nonStream
deriving DecidableEq, Repr

inductive Status
  | ok
  | error
deriving DecidableEq, Repr

structure RequestRecord where
  requestId : Str
  client : Str
  upstream : Str
  model : Str
  mode : Mode
  status : Status
  latencyMs : Nat
  inputTokens : Option Nat
  outputTokens : Option Nat
deriving DecidableEq, Repr

/-- `trait ProtocolAdapter`; the stream halves are those of the protocol. -/
structure ProtocolAdapter where
  protocol : Protocol
  name : Str
  parseRequest : Str → Except AdapterError NeutralRequest
  serializeRequest : NeutralRequest → Except AdapterError Str
  parseResponse : Str → Except AdapterError NeutralResponse
  serializeResponse : NeutralResponse → Except AdapterError Str
  conversationUrl : Str → Str → Except AdapterError Str
  streamConversationUrl : Str → Str → Except AdapterError Str
  requestHeaders : List (Str × Str)
  parseUpstreamError : Nat → Str → AdapterError
  serializeError : AdapterError → Nat × Str

structure UpstreamConfig where
  url : Str
  protocol : Str
  authorization : Str
  extraHeaders : List (Str × Str)

structure AppState where
  upstream : UpstreamConfig
  registry : AList fun _ : Str => ProtocolAdapter
  resolver : ModelResolver
  privacy : Option RedactionEngine
  -- Whether there is a store.
  memory : Bool

structure Inbound where
  -- `x-request-id`, if it is text.
  requestId : Option Str
  body : Except Str Bytes

-- What one wait for the upstream's body can bring.
inductive Turn
  | read (chunk : Except Str Bytes)
  | idle
  | closed

/-- An upstream response; its body ends where the turns do. -/
structure Response where
  status : Nat
  contentType : Option Str
  turns : List Turn

-- How long the client stays for the body of a relayed stream.
inductive Stay
  | whole
  -- Gone when the relay loop ends, and after so many sends at the latest.
  | relay (sends : Nat)
  -- Gone before it has read the end, so many sends after the relay loop.
  | flush (sends : Nat)
deriving DecidableEq, Repr

structure World where
  forward : Mode → Str → List (Str × Str) → Str → Except Str Response
  stay : Stay
  elapsed : Nat
  created : Nat

inductive Reply
  | answer (body : Str)
  | answerStream (body : Str)
  | failure (status : Nat) (body : Str)
  -- What the client was sent, and whether it has read the end.
  | relayed (sent : List Sent) (ended : Bool)

structure MemCtx where
  requestId : Str
  client : Str
  upstream : Str
  model : Str

def MemCtx.capture (client upstream : Str) (request : Inbound) : MemCtx :=
  ⟨(request.requestId.filter fun text => trim text ≠ []).getD "-", client, upstream, []⟩

def MemCtx.toRecord (ctx : MemCtx) (elapsed : Nat) (mode : Mode) (status : Status)
    (usage : Option (Nat × Nat)) : RequestRecord :=
  ⟨ctx.requestId, ctx.client, ctx.upstream, ctx.model, mode, status, elapsed,
    usage.map Prod.fst, usage.map Prod.snd⟩

def memRecord (memory : Bool) (record : RequestRecord) : List RequestRecord :=
  if memory then [record] else []

def errorJsonResponse (rendered : Nat × Str) : Reply :=
  .failure (if 100 ≤ rendered.1 ∧ rendered.1 < 1000 then rendered.1 else 500) rendered.2

def readBody (request : Inbound) : Except AdapterError Str :=
  match request.body with
  | .error failure => .error (.invalidRequest ("failed to read body: " ++ failure))
  | .ok bytes =>
    match fromUtf8 bytes with
    | some text => .ok text
    | none => .error (.invalidRequest "body is not valid utf-8")

-- Nothing bounds a single wait here.
def collectBody (bytes : Bytes) : List Turn → Except AdapterError Bytes
  | [] => .ok bytes
  | .read (.error failure) :: _ => .error (.internal ("upstream body read failed: " ++ failure))
  | .read (.ok chunk) :: rest =>
    if bytes.length + chunk.length > MAX_UPSTREAM_BODY_BYTES then
      .error (.internal ("upstream response body exceeds " ++ decimal MAX_UPSTREAM_BODY_BYTES ++
        " bytes"))
    else collectBody (bytes ++ chunk) rest
  | .idle :: rest => collectBody bytes rest
  | .closed :: rest => collectBody bytes rest

def readUpstreamText (resp : Response) : Except AdapterError Str :=
  match collectBody [] resp.turns with
  | .error failure => .error failure
  | .ok bytes =>
    match fromUtf8 bytes with
    | some text => .ok text
    | none => .error (.internal "upstream response is not valid utf-8")

def isSuccess (status : Nat) : Bool := 200 ≤ status && status < 300

-- `looks_like_json`.
def Response.looksLikeJson (resp : Response) : Bool :=
  match resp.contentType with
  | some contentType => "application/json".toList.isPrefixOf contentType
  | none => false

section Task

variable {D E : Type} (upstream : StreamDecoder D) (client : StreamEncoder E)
variable (ac : Searcher Char) (vault : Vault)

structure Task (D E : Type) where
  relay : Relay D E
  sent : List Sent
  -- How many sends the channel still takes; no bound while the client stays.
  room : Option Nat

-- `send_lines`: without lines nothing is sent. A send fails once the client is gone.
def Task.send (task : Task D E) (item : Sent) : Task D E × Bool :=
  match item with
  | .event _ [] => ({ task with sent := task.sent ++ [item] }, true)
  | _ =>
    match task.room with
    | none => ({ task with sent := task.sent ++ [item] }, true)
    | some 0 => (task, false)
    | some (room + 1) => ({ task with sent := task.sent ++ [item], room := some room }, true)

def Task.sendAll (task : Task D E) : List Sent → Task D E × Bool
  | [] => (task, true)
  | item :: rest =>
    let (task, taken) := task.send item
    if taken then task.sendAll rest else (task, false)

def Task.steps {I : Type} (step : Relay D E → I → Relay D E × List Sent) (task : Task D E) :
    List I → Task D E × Bool
  | [] => (task, true)
  | input :: rest =>
    let (relay, items) := step task.relay input
    let (task, taken) := { task with relay := relay }.sendAll items
    if taken then task.steps step rest else (task, false)

-- `process_payload`.
def Task.processPayload (task : Task D E) (payload : Str) : Task D E × Bool :=
  let (decoder, events) := upstream.feed task.relay.decoder payload
  { task with relay := { task.relay with decoder := decoder } }.steps
    (Relay.processEvent client ac vault) events

-- The payloads of one read; the flag says whether to read on.
def Task.payloads (task : Task D E) : List Str → Task D E × Bool
  | [] => (task, true)
  | payload :: rest =>
    if payload = DONE then (task, false)
    else
      let (task, taken) := task.processPayload upstream client ac vault payload
      if taken then task.payloads rest else (task, false)

structure Ended (D E : Type) where
  framing : SseFraming
  task : Task D E
  upstreamFailed : Bool
  clientGone : Bool

def Stay.isRelay : Stay → Bool
  | .relay _ => true
  | _ => false

-- `tx.closed()` is only ever ready for a client that goes.
def Task.loop (stay : Stay) (framing : SseFraming) (task : Task D E) : List Turn → Ended D E
  | [] => ⟨framing, task, false, false⟩
  | .read (.error _) :: _ => ⟨framing, task, true, false⟩
  | .idle :: _ => ⟨framing, task, true, false⟩
  | .read (.ok bytes) :: rest =>
    let (framing, payloads) := framing.push bytes
    let (task, running) := task.payloads upstream client ac vault payloads
    if running then task.loop stay framing rest else ⟨framing, task, false, false⟩
  | .closed :: rest =>
    if stay.isRelay then ⟨framing, { task with room := some 0 }, false, true⟩
    else task.loop stay framing rest

-- What follows the loop for a client that is still there.
def Task.flush (framing : SseFraming) (upstreamFailed : Bool) (task : Task D E) : Task D E :=
  let (task, _) := task.payloads upstream client ac vault framing.finish.2
  let (decoder, events) := upstream.finish task.relay.decoder
  let task :=
    if upstreamFailed then task
    else
      ({ task with relay := { task.relay with decoder := decoder } }.steps
        (Relay.finishEvent client ac vault) events).1
  let (task, _) := task.steps (Relay.encode client) (restorerTail task.relay.restorer)
  if upstreamFailed then task
  else
    let (task, _) := task.steps (Relay.encode client) task.relay.terminal
    if task.relay.sawError then task else (task.send (.done (client.done task.relay.encoder))).1

def Stay.loopRoom : Stay → Option Nat
  | .relay sends => some sends
  | _ => none

def Stay.flushRoom : Stay → Option Nat
  | .flush sends => some sends
  | _ => none

/-- The spawned task: what the client was sent, and the status it records. -/
def relayTask (restorer : Option StreamRestorer) (stay : Stay) (turns : List Turn) :
    List Sent × Option Status :=
  let ended := Task.loop upstream client ac vault stay .new
    ⟨.new upstream client restorer, [], stay.loopRoom⟩ turns
  if stay.isRelay then (ended.task.sent, none)
  else
    let task := Task.flush upstream client ac vault ended.framing ended.upstreamFailed
      { ended.task with room := stay.flushRoom }
    (task.sent,
      some (if ended.upstreamFailed || task.relay.sawError || ended.clientGone then .error
        else .ok))

end Task

section Handlers

variable (debug : Str → Str) (render : Json → Str) (parse : Str → Option Json)
variable (ac : Searcher Char) (world : World)

def errorResponse (status : Nat) (message : Str) : Reply :=
  .failure status ("\x7b\"error\": \x7b\"message\": " ++ debug message ++ "\x7d\x7d")

abbrev Session := RedactionEngine × Vault

def restoreFor (session : Option Session) (text : Str) : Str :=
  match session with
  | some (_, vault) => restoreText ac vault text
  | none => text

def restoreAnswer (session : Option Session) (resp : NeutralResponse) : NeutralResponse :=
  match session with
  | some (_, vault) => restoreResponse ac vault resp
  | none => resp

def vaultOf (session : Option Session) : Vault := (session.map Prod.snd).getD .empty

def restorerOf (session : Option Session) : Option StreamRestorer :=
  session.map fun session => .new session.1

def handleStreamingResponse (client upstream : ProtocolAdapter) (resp : Response)
    (privacy : Option Session) (memory : Bool) (ctx : MemCtx) : Reply × List RequestRecord :=
  if !isSuccess resp.status then
    match readUpstreamText resp with
    | .error failure => (errorJsonResponse (client.serializeError failure), [])
    | .ok text =>
      (errorJsonResponse (client.serializeError
        (upstream.parseUpstreamError resp.status (restoreFor ac privacy text))),
        memRecord memory (ctx.toRecord world.elapsed .stream .error none))
  else if resp.looksLikeJson then
    match readUpstreamText resp with
    | .error failure => (errorJsonResponse (client.serializeError failure), [])
    | .ok text =>
      match handleJsonAsStream render (upstream.protocol.streamDecoder render parse).2
          upstream.parseResponse (client.protocol.streamEncoder render parse world.created).2 ac
          (vaultOf privacy) (restorerOf privacy) text with
      | .error failure => (errorJsonResponse (client.serializeError failure), [])
      | .ok body => (.answerStream body, [])
  else
    let (sent, status) := relayTask (upstream.protocol.streamDecoder render parse).2
      (client.protocol.streamEncoder render parse world.created).2 ac (vaultOf privacy)
      (restorerOf privacy) world.stay resp.turns
    (.relayed sent (world.stay = .whole),
      match status with
      | some status => memRecord memory (ctx.toRecord world.elapsed .stream status none)
      | none => [])

structure Prepared where
  neutral : NeutralRequest
  session : Option Session
  body : Str
  url : Str

def guardRequest (privacy : Option RedactionEngine) (neutral : NeutralRequest) :
    Except AdapterError (NeutralRequest × Option Session) :=
  match privacy with
  | none => .ok (neutral, none)
  | some engine =>
    match redactInPlace ac engine .empty neutral with
    | (.ok _, neutral, vault) => .ok (neutral, some (engine, vault))
    | (.error failure, _, _) => .error failure

-- The steps before the request is forwarded; none of them records anything.
def prepare (state : AppState) (client upstream : ProtocolAdapter) (request : Inbound) :
    Except AdapterError Prepared := do
  let body ← readBody request
  let neutral ← client.parseRequest body
  let neutral := { neutral with model := state.resolver.resolve neutral.model }
  let (neutral, session) ← guardRequest ac state.privacy neutral
  let body ← upstream.serializeRequest neutral
  let url ←
    if neutral.stream then upstream.streamConversationUrl state.upstream.url neutral.model
    else upstream.conversationUrl state.upstream.url neutral.model
  pure ⟨neutral, session, body, url⟩

def upstreamHeaders (config : UpstreamConfig) (upstream : ProtocolAdapter) : List (Str × Str) :=
  (if config.authorization = [] then [] else [("authorization".toList, config.authorization)]) ++
    config.extraHeaders.filter (fun header => header.1 ≠ []) ++ upstream.requestHeaders

def handleWholeResponse (client upstream : ProtocolAdapter) (resp : Response)
    (privacy : Option Session) (memory : Bool) (ctx : MemCtx) : Reply × List RequestRecord :=
  match readUpstreamText resp with
  | .error failure => (errorJsonResponse (client.serializeError failure), [])
  | .ok text =>
    if !isSuccess resp.status then
      (errorJsonResponse (client.serializeError
        (upstream.parseUpstreamError resp.status (restoreFor ac privacy text))),
        memRecord memory (ctx.toRecord world.elapsed .nonStream .error none))
    else
      match upstream.parseResponse text with
      | .error failure =>
        (errorJsonResponse (client.serializeError failure),
          memRecord memory (ctx.toRecord world.elapsed .nonStream .error none))
      | .ok neutral =>
        let neutral := restoreAnswer ac privacy neutral
        let usage := neutral.usage.map fun usage => (usage.inputTokens, usage.outputTokens)
        let records := memRecord memory (ctx.toRecord world.elapsed .nonStream .ok usage)
        match client.serializeResponse neutral with
        | .error failure => (errorJsonResponse (client.serializeError failure), records)
        | .ok body => (.answer body, records)

def modeOf (stream : Bool) : Mode := if stream then .stream else .nonStream

/-- `handle_conversation` between two registered adapters. -/
def converse (state : AppState) (client upstream : ProtocolAdapter) (request : Inbound) :
    Reply × List RequestRecord :=
  match prepare ac state client upstream request with
  | .error failure => (errorJsonResponse (client.serializeError failure), [])
  | .ok prepared =>
    let mode := modeOf prepared.neutral.stream
    let ctx := { MemCtx.capture client.name upstream.name request with
      model := prepared.neutral.model }
    match world.forward mode prepared.url (upstreamHeaders state.upstream upstream)
        prepared.body with
    | .error failure =>
      (errorJsonResponse
        (client.serializeError (.internal ("upstream request failed: " ++ failure))),
        memRecord state.memory (ctx.toRecord world.elapsed mode .error none))
    | .ok resp =>
      if prepared.neutral.stream then
        handleStreamingResponse render parse ac world client upstream resp prepared.session
          state.memory ctx
      else
        handleWholeResponse ac world client upstream resp prepared.session state.memory ctx

/-- The reply to one request, and the records handed to the store. -/
def handleConversation (state : AppState) (clientName : Str) (request : Inbound) :
    Reply × List RequestRecord :=
  match state.registry.lookup clientName with
  | none =>
    (errorResponse debug 500 ("client protocol not registered: " ++ clientName), [])
  | some client =>
    match state.registry.lookup state.upstream.protocol with
    | none =>
      (errorResponse debug 500 ("upstream protocol not registered: " ++ state.upstream.protocol),
        [])
    | some upstream => converse render parse ac world state client upstream request

end Handlers

end LlmGate.Pipeline
