import Atlas.Actions
import Atlas.Lib.Run

/-! Streaming one graph run. A producer task (`run_graph_stream`) advances the blocking graph iterator and
    sends its chunks through a bounded stream; the consumer (`_stream_lifecycle`) receives them and yields
    the events, while the client stays connected. The two are one system of labelled steps. The consumer
    stops receiving at an interrupt chunk and the producer then goes on draining the iterator, so what the
    client sees must not depend on how far either has got: `outlook`, the events yielded so far and those
    still to come, is the same in every state of a run. -/

namespace Atlas

open LabelledRun

/-! ### What the consumer makes of a chunk -/

inductive ResponseStatus where | completed | awaitingApproval | inProgress
  deriving DecidableEq, Repr

/-- `AgentResponse`; the records inside are held as their JSON dumps. -/
structure AgentResponse where
  status : ResponseStatus
  threadId : String
  response : Option String := none
  pendingActions : List Json := []
  sources : List Json := []
  confidence : Json := .null
  actionResults : List Json := []

/-- A server-sent event: `open`, `node`, `token`, `awaiting_approval`, `completed`, `error` and `done`.
    The data of `error` is always `internal_error`, `Internal server error.` -/
inductive StreamEvent where
  | opened (threadId : String)
  | node (name : String)
  | token (content : String)
  | awaitingApproval (response : AgentResponse)
  | completed (response : AgentResponse)
  | error
  | done

/-- One `(mode, data)` item of the graph stream: a message chunk with its metadata, or a mapping from
    node names and internal keys to updates. An interrupt is held as its `value`. -/
inductive StreamChunk where
  | messages (content : Option Json) (metadata : Args)
  | updates (data : Args)

/-- `values.get(key) or []`. -/
def channel (values : Args) (key : String) : Except PyError (List Json) :=
  match Json.field? key values with
  | some v => if v.truthy then v.iterate else .ok []
  | none => .ok []

/-- The content of the final message. -/
def lastAiText (messages : List Json) : Option String :=
  match messages.getLast? with
  | some (.obj message) =>
    match Json.field? "content" message with
    | some .null | none => none
    | some content => some content.pyStr
  | _ => none

def completedResponse (threadId : String) (values : Args) : Except PyError AgentResponse := do
  let messages ← channel values "messages"
  let sources ← channel values "sources"
  let results ← channel values "action_results"
  return {
    status := .completed, threadId := threadId, response := lastAiText messages, sources := sources
    confidence := (Json.field? "confidence" values).getD .null, actionResults := results }

/-- Shape the dict a run returns, which carries `__interrupt__` when it pauses. -/
def responseFromInvoke (threadId : String) (result : Args) : Except PyError AgentResponse :=
  match Json.field? "__interrupt__" result with
  | some (.arr (.obj payload :: _)) => do
    let pending ← ((Json.field? "pending_actions" payload).getD (.arr [])).iterate
    if pending.all (fun action => action.typeName == "dict") then
      .ok { status := .awaitingApproval, threadId := threadId, pendingActions := pending }
    else .error ⟨"ValidationError", "pending_actions: Input should be a valid dictionary"⟩
  | some (.arr (value :: _)) =>
    .error ⟨"AttributeError", "'" ++ value.typeName ++ "' object has no attribute 'get'"⟩
  | _ => completedResponse threadId result

/-- The state `get_state` reads: the channel values and the nodes that run next. -/
structure GraphSnapshot where
  values : Args
  next : List String

/-- `needs_approval` of a dumped action. -/
def dumpNeedsApproval : Json → Bool
  | .obj action =>
    match Json.field? "risk_tier" action with
    | some (.str tier) => requiresApproval (.text tier)
    | _ => requiresApproval .other
  | _ => requiresApproval .other

/-- Shape a read-only view of a thread's current checkpointed state. -/
def responseFromSnapshot (threadId : String) (snapshot : GraphSnapshot) :
    Except PyError AgentResponse :=
  if snapshot.next.contains "approval" then do
    let proposed ← channel snapshot.values "proposed_actions"
    return {
      status := .awaitingApproval, threadId := threadId
      pendingActions := proposed.filter dumpNeedsApproval }
  else if !snapshot.next.isEmpty then .ok { status := .inProgress, threadId := threadId }
  else completedResponse threadId snapshot.values

/-- One content block: a string, or the `text` of a mapping where that is a string. -/
def blockText : Json → String
  | .str s => s
  | .obj block =>
    match Json.field? "text" block with
    | some (.str s) => s
    | _ => ""
  | _ => ""

/-- Plain text of a streamed message chunk. -/
def messageChunkText : Option Json → String
  | some (.str s) => s
  | some (.arr blocks) => String.join (blocks.map blockText)
  | _ => ""

/-- `metadata.get("langgraph_node") == "responder"`. -/
def fromResponder (metadata : Args) : Bool :=
  match Json.field? "langgraph_node" metadata with
  | some (.str node) => node == "responder"
  | _ => false

/-- What the loop body does with a chunk: yield events and go on, or shape the pause and stop. -/
inductive Handled where
  | yields (events : List StreamEvent)
  | pauses (response : Except PyError AgentResponse)

def handleChunk (threadId : String) : StreamChunk → Handled
  | .messages content metadata =>
    if fromResponder metadata && messageChunkText content != "" then
      .yields [.token (messageChunkText content)]
    else .yields []
  | .updates data =>
    if (Json.field? "__interrupt__" data).isSome then .pauses (responseFromInvoke threadId data)
    else .yields (((data.map (·.1)).filter (fun name => !Text.hasPrefix "__" name)).map .node)

/-! ### Producer and consumer -/

/-- All that a graph run does as seen from outside: what starting the stream raises, the chunks of the
    iterator, how it ends, and what `get_state` answers afterwards. -/
structure GraphRun where
  setup : Option PyError := none
  chunks : List StreamChunk
  ending : Option PyError := none
  state : Except PyError GraphSnapshot

/-- Where the producer task is; `rest` are the chunks the iterator has still to yield. -/
inductive ProducerPhase where
  | starting
  | stepping (rest : List StreamChunk)                        -- in `next(iterator)`
  | sending (chunk : StreamChunk) (rest : List StreamChunk)   -- in `send`, maybe waiting for room
  | draining (rest : List StreamChunk)                        -- the receiver is gone
  | leaving (raised : Option PyError)                         -- in `finally`, before `aclose`
  | closed (raised : Option PyError)                          -- the send stream is closed
  | ended (raised : Option PyError)

/-- Where the consumer generator is. -/
inductive ConsumerPhase where
  | opening
  | receiving
  | joining (awaiting : Bool)   -- past the loop, at `await producer_task`
  | reading                     -- at `get_state`
  | cleanup                     -- in `finally`
  | finished

structure StreamState where
  producer : ProducerPhase := .starting
  consumer : ConsumerPhase := .opening
  buffer : List StreamChunk := []
  events : List StreamEvent := []

inductive StreamStep where
  | start | next | send | broken | drain | aclose | closeIterator      -- the producer
  | openStream | receive | endOfStream | join | getState | finish      -- the consumer
  deriving DecidableEq, Repr

/-- `max_buffer_size`. -/
def maxBufferSize : ℕ := 16

namespace ProducerPhase

def sendClosed : ProducerPhase → Bool
  | closed _ | ended _ => true
  | _ => false

def done : ProducerPhase → Bool
  | ended _ => true
  | _ => false

end ProducerPhase

/-- The receive stream is open. -/
def ConsumerPhase.listens : ConsumerPhase → Bool
  | opening | receiving => true
  | _ => false

namespace StreamState

/-- The consumer yields events and goes on to a phase. -/
def goes (s : StreamState) (events : List StreamEvent) (phase : ConsumerPhase) : StreamState :=
  { s with consumer := phase, events := s.events ++ events }

/-- The loop body on the chunk just received. -/
def handles (s : StreamState) : Handled → StreamState
  | .yields events => s.goes events .receiving
  | .pauses (.ok response) => s.goes [.awaitingApproval response] (.joining true)
  | .pauses (.error _) => s.goes [.error] .cleanup

/-- `await producer_task` in the `try` block, the task having ended. -/
def joins (s : StreamState) (awaiting : Bool) : Option PyError → StreamState
  | some _ => s.goes [.error] .cleanup
  | none => if awaiting then s.goes [] .cleanup else s.goes [] .reading

end StreamState

/-- One step of `run_graph_stream`. -/
def producerStep (run : GraphRun) (s : StreamState) : StreamStep → Option StreamState
  | .start =>
    match s.producer, run.setup with
    | .starting, none => some { s with producer := .stepping run.chunks }
    | .starting, some e => some { s with producer := .leaving (some e) }
    | _, _ => none
  | .next =>
    match s.producer with
    | .stepping (chunk :: rest) => some { s with producer := .sending chunk rest }
    | .stepping [] => some { s with producer := .leaving run.ending }
    | _ => none
  | .send =>
    match s.producer with
    | .sending chunk rest =>
      if s.consumer.listens && s.buffer.length < maxBufferSize then
        some { s with producer := .stepping rest, buffer := s.buffer ++ [chunk] }
      else none
    | _ => none
  | .broken =>
    match s.producer with
    | .sending _ rest => if s.consumer.listens then none else some { s with producer := .draining rest }
    | _ => none
  | .drain =>
    match s.producer with
    | .draining (_ :: rest) => some { s with producer := .draining rest }
    | .draining [] => some { s with producer := .leaving run.ending }
    | _ => none
  | .aclose =>
    match s.producer with
    | .leaving raised => some { s with producer := .closed raised }
    | _ => none
  | .closeIterator =>
    match s.producer with
    | .closed raised => some { s with producer := .ended raised }
    | _ => none
  | _ => none

/-- One step of `_stream_lifecycle`. -/
def consumerStep (threadId : String) (run : GraphRun) (s : StreamState) :
    StreamStep → Option StreamState
  | .openStream =>
    match s.consumer with
    | .opening => some (s.goes [.opened threadId] .receiving)
    | _ => none
  | .receive =>
    match s.consumer, s.buffer with
    | .receiving, chunk :: buffer =>
      some ({ s with buffer := buffer }.handles (handleChunk threadId chunk))
    | _, _ => none
  | .endOfStream =>
    match s.consumer, s.buffer with
    | .receiving, [] => if s.producer.sendClosed then some (s.goes [] (.joining false)) else none
    | _, _ => none
  | .join =>
    match s.consumer, s.producer with
    | .joining awaiting, .ended raised => some (s.joins awaiting raised)
    | _, _ => none
  | .getState =>
    match s.consumer with
    | .reading =>
      match run.state >>= responseFromSnapshot threadId with
      | .ok response => some (s.goes [.completed response] .cleanup)
      | .error _ => some (s.goes [.error] .cleanup)
    | _ => none
  | .finish =>
    match s.consumer with
    | .cleanup => if s.producer.done then some (s.goes [.done] .finished) else none
    | _ => none
  | _ => none

/-- One step of either task. -/
def streamStep (threadId : String) (run : GraphRun) (s : StreamState) (l : StreamStep) :
    Option StreamState :=
  match l with
  | .start | .next | .send | .broken | .drain | .aclose | .closeIterator => producerStep run s l
  | _ => consumerStep threadId run s l

/-! ### The outlook of a state -/

/-- The chunks the run yields; none where the stream cannot be started. -/
def GraphRun.produced (run : GraphRun) : List StreamChunk := if run.setup.isSome then [] else run.chunks

/-- What the producer task ends with. -/
def ProducerPhase.outcome (run : GraphRun) : ProducerPhase → Option PyError
  | .starting => run.setup.or run.ending
  | .stepping _ | .sending _ _ | .draining _ => run.ending
  | .leaving raised | .closed raised | .ended raised => raised

/-- What the producer will still send to a consumer that listens. -/
def ProducerPhase.remaining (run : GraphRun) : ProducerPhase → List StreamChunk
  | .starting => run.produced
  | .stepping rest => rest
  | .sending chunk rest => chunk :: rest
  | _ => []

section outlook
variable (threadId : String) (run : GraphRun)

/-- The events from `get_state` on. -/
def stateEvents : List StreamEvent :=
  match run.state >>= responseFromSnapshot threadId with
  | .ok response => [.completed response, .done]
  | .error _ => [.error, .done]

/-- The events from `await producer_task` on. -/
def joinEvents (raised : Option PyError) (awaiting : Bool) : List StreamEvent :=
  match raised with
  | some _ => [.error, .done]
  | none => if awaiting then [.done] else stateEvents threadId run

/-- The events of the loop over these chunks and of what follows it. -/
def loopEvents (raised : Option PyError) : List StreamChunk → List StreamEvent
  | [] => joinEvents threadId run raised false
  | chunk :: chunks =>
    match handleChunk threadId chunk with
    | .yields events => events ++ loopEvents raised chunks
    | .pauses (.ok response) => .awaitingApproval response :: joinEvents threadId run raised true
    | .pauses (.error _) => [.error, .done]

/-- All events of a run. -/
def transcript : List StreamEvent :=
  .opened threadId :: loopEvents threadId run (run.setup.or run.ending) run.produced

namespace StreamState

def outcome (s : StreamState) : Option PyError := s.producer.outcome run

/-- The chunks the consumer receives from here on, if it goes on receiving. -/
def ahead (s : StreamState) : List StreamChunk := s.buffer ++ s.producer.remaining run

/-- The events still to come. -/
def future (s : StreamState) : List StreamEvent :=
  match s.consumer with
  | .opening => .opened threadId :: loopEvents threadId run (s.outcome run) (s.ahead run)
  | .receiving => loopEvents threadId run (s.outcome run) (s.ahead run)
  | .joining awaiting => joinEvents threadId run (s.outcome run) awaiting
  | .reading => stateEvents threadId run
  | .cleanup => [.done]
  | .finished => []

def outlook (s : StreamState) : List StreamEvent := s.events ++ s.future threadId run

/-- The producer drains only when nobody listens. -/
def Deaf (s : StreamState) : Prop :=
  ∀ rest, s.producer = .draining rest → s.consumer.listens = false

end StreamState

end outlook

/-! ### What a step does -/

/-- Steps the producer has left; a chunk costs it two, and the consumer one. -/
def ProducerPhase.weight (run : GraphRun) : ProducerPhase → ℕ
  | .starting => 3 * run.chunks.length + 5
  | .stepping rest | .draining rest => 3 * rest.length + 4
  | .sending _ rest => 3 * rest.length + 6
  | .leaving _ => 3
  | .closed _ => 2
  | .ended _ => 0

def ConsumerPhase.weight : ConsumerPhase → ℕ
  | .opening => 5
  | .receiving => 4
  | .joining _ => 3
  | .reading => 2
  | .cleanup => 1
  | .finished => 0

def StreamState.weight (run : GraphRun) (s : StreamState) : ℕ :=
  s.producer.weight run + s.consumer.weight + s.buffer.length

/-- A step of the producer, by the place it is taken at. -/
inductive ProducerTurn (run : GraphRun) (s : StreamState) : StreamState → Prop where
  | start (hat : s.producer = .starting) (hsetup : run.setup = none) :
      ProducerTurn run s { s with producer := .stepping run.chunks }
  | startFails (e : PyError) (hat : s.producer = .starting) (hsetup : run.setup = some e) :
      ProducerTurn run s { s with producer := .leaving (some e) }
  | next (chunk : StreamChunk) (rest : List StreamChunk) (hat : s.producer = .stepping (chunk :: rest)) :
      ProducerTurn run s { s with producer := .sending chunk rest }
  | exhausted (hat : s.producer = .stepping [] ∨ s.producer = .draining []) :
      ProducerTurn run s { s with producer := .leaving run.ending }
  | send (chunk : StreamChunk) (rest : List StreamChunk) (hat : s.producer = .sending chunk rest)
      (hlistens : s.consumer.listens = true) (hroom : s.buffer.length < maxBufferSize) :
      ProducerTurn run s { s with producer := .stepping rest, buffer := s.buffer ++ [chunk] }
  | broken (chunk : StreamChunk) (rest : List StreamChunk) (hat : s.producer = .sending chunk rest)
      (hlistens : s.consumer.listens = false) :
      ProducerTurn run s { s with producer := .draining rest }
  | drain (chunk : StreamChunk) (rest : List StreamChunk) (hat : s.producer = .draining (chunk :: rest)) :
      ProducerTurn run s { s with producer := .draining rest }
  | aclose (raised : Option PyError) (hat : s.producer = .leaving raised) :
      ProducerTurn run s { s with producer := .closed raised }
  | closeIterator (raised : Option PyError) (hat : s.producer = .closed raised) :
      ProducerTurn run s { s with producer := .ended raised }

/-- A step of the consumer, by the place it is taken at. -/
inductive ConsumerTurn (threadId : String) (run : GraphRun) (s : StreamState) : StreamState → Prop where
  | openStream (hat : s.consumer = .opening) :
      ConsumerTurn threadId run s (s.goes [.opened threadId] .receiving)
  | receive (chunk : StreamChunk) (buffer : List StreamChunk) (hat : s.consumer = .receiving)
      (hbuffer : s.buffer = chunk :: buffer) :
      ConsumerTurn threadId run s ({ s with buffer := buffer }.handles (handleChunk threadId chunk))
  | endOfStream (hat : s.consumer = .receiving) (hbuffer : s.buffer = [])
      (hclosed : s.producer.sendClosed = true) :
      ConsumerTurn threadId run s (s.goes [] (.joining false))
  | join (awaiting : Bool) (raised : Option PyError) (hat : s.consumer = .joining awaiting)
      (hended : s.producer = .ended raised) :
      ConsumerTurn threadId run s (s.joins awaiting raised)
  | getState (last : StreamEvent) (hat : s.consumer = .reading)
      (hlast : stateEvents threadId run = [last, .done]) :
      ConsumerTurn threadId run s (s.goes [last] .cleanup)
  | finish (hat : s.consumer = .cleanup) (hended : s.producer.done = true) :
      ConsumerTurn threadId run s (s.goes [.done] .finished)

section steps
variable {threadId : String} {run : GraphRun} {s s' : StreamState} {l : StreamStep}

theorem producerStep_turn (h : producerStep run s l = some s') : ProducerTurn run s s' := by
  cases l <;> simp only [producerStep] at h <;> try contradiction
  case start =>
    split at h <;> cases h
    · exact .start ‹_› ‹_›
    · exact .startFails _ ‹_› ‹_›
  case next =>
    split at h <;> cases h
    · exact .next _ _ ‹_›
    · exact .exhausted (.inl ‹_›)
  case send =>
    split at h <;> try contradiction
    rename_i hat
    split at h <;> cases h
    rename_i hsend
    rw [Bool.and_eq_true, decide_eq_true_eq] at hsend
    exact .send _ _ hat hsend.1 hsend.2
  case broken =>
    split at h <;> try contradiction
    rename_i hat
    split at h <;> cases h
    rename_i hlistens
    exact .broken _ _ hat (Bool.not_eq_true _ ▸ hlistens)
  case drain =>
    split at h <;> cases h
    · exact .drain _ _ ‹_›
    · exact .exhausted (.inr ‹_›)
  case aclose =>
    split at h <;> cases h
    exact .aclose _ ‹_›
  case closeIterator =>
    split at h <;> cases h
    exact .closeIterator _ ‹_›

theorem consumerStep_turn (h : consumerStep threadId run s l = some s') :
    ConsumerTurn threadId run s s' := by
  cases l <;> simp only [consumerStep] at h <;> try contradiction
  case openStream =>
    split at h <;> cases h
    exact .openStream ‹_›
  case receive =>
    split at h <;> cases h
    exact .receive _ _ ‹_› ‹_›
  case endOfStream =>
    split at h <;> try contradiction
    rename_i hat hbuffer
    split at h <;> cases h
    exact .endOfStream hat hbuffer ‹_›
  case join =>
    split at h <;> cases h
    exact .join _ _ ‹_› ‹_›
  case getState =>
    split at h <;> try contradiction
    rename_i hat
    split at h <;> cases h <;> rename_i hstate
    · exact .getState _ hat (by rw [stateEvents, hstate])
    · exact .getState _ hat (by rw [stateEvents, hstate])
  case finish =>
    split at h <;> try contradiction
    rename_i hat
    split at h <;> cases h
    exact .finish hat ‹_›

/-- A step is a turn of one of the two tasks. -/
theorem streamStep_turn (h : streamStep threadId run s l = some s') :
    ProducerTurn run s s' ∨ ConsumerTurn threadId run s s' := by
  unfold streamStep at h
  split at h
  case h_8 => exact .inr (consumerStep_turn h)
  all_goals exact .inl (producerStep_turn h)

/-! ### What every step keeps -/

@[simp] theorem StreamState.goes_producer (events : List StreamEvent) (phase : ConsumerPhase) :
    (s.goes events phase).producer = s.producer := rfl

@[simp] theorem StreamState.goes_consumer (events : List StreamEvent) (phase : ConsumerPhase) :
    (s.goes events phase).consumer = phase := rfl

@[simp] theorem StreamState.goes_buffer (events : List StreamEvent) (phase : ConsumerPhase) :
    (s.goes events phase).buffer = s.buffer := rfl

@[simp] theorem StreamState.goes_events (events : List StreamEvent) (phase : ConsumerPhase) :
    (s.goes events phase).events = s.events ++ events := rfl

@[simp] theorem StreamState.handles_producer (handled : Handled) :
    (s.handles handled).producer = s.producer := by
  rcases handled with events | response | response <;> rfl

@[simp] theorem StreamState.handles_buffer (handled : Handled) :
    (s.handles handled).buffer = s.buffer := by
  rcases handled with events | response | response <;> rfl

@[simp] theorem StreamState.joins_producer (awaiting : Bool) (raised : Option PyError) :
    (s.joins awaiting raised).producer = s.producer := by
  cases raised <;> cases awaiting <;> rfl

@[simp] theorem StreamState.joins_buffer (awaiting : Bool) (raised : Option PyError) :
    (s.joins awaiting raised).buffer = s.buffer := by
  cases raised <;> cases awaiting <;> rfl

/-- The producer goes on: the consumer, its events and what it can still expect are as they were. -/
theorem ProducerTurn.keeps (hdeaf : s.Deaf) (h : ProducerTurn run s s') :
    s'.consumer = s.consumer ∧ s'.events = s.events ∧ s'.outcome run = s.outcome run ∧
      (s.consumer.listens = true → s'.ahead run = s.ahead run) := by
  refine ⟨by cases h <;> rfl, by cases h <;> rfl, ?_, fun hlistens => ?_⟩
  · cases h <;> simp_all [StreamState.outcome, ProducerPhase.outcome]
    rename_i hat
    rcases hat with hat | hat <;> simp [hat]
  · cases h with
    | start hat hsetup => simp [StreamState.ahead, hat, ProducerPhase.remaining, GraphRun.produced, hsetup]
    | startFails e hat hsetup =>
      simp [StreamState.ahead, hat, ProducerPhase.remaining, GraphRun.produced, hsetup]
    | next chunk rest hat => simp [StreamState.ahead, hat, ProducerPhase.remaining]
    | exhausted hat =>
      rcases hat with hat | hat
      · simp [StreamState.ahead, hat, ProducerPhase.remaining]
      · rw [hdeaf [] hat] at hlistens
        contradiction
    | send chunk rest hat => simp [StreamState.ahead, hat, ProducerPhase.remaining]
    | broken chunk rest hat hnone =>
      rw [hnone] at hlistens
      contradiction
    | drain chunk rest hat =>
      rw [hdeaf _ hat] at hlistens
      contradiction
    | aclose raised hat => simp [StreamState.ahead, hat, ProducerPhase.remaining]
    | closeIterator raised hat => simp [StreamState.ahead, hat, ProducerPhase.remaining]

theorem ProducerTurn.deaf (hdeaf : s.Deaf) (h : ProducerTurn run s s') : s'.Deaf := by
  intro rest hrest
  cases h with
  | broken chunk rest hat hnone => exact hnone
  | drain chunk rest hat => exact hdeaf _ hat
  | _ => cases hrest

/-- The consumer goes on: the producer is where it was, and who stopped listening does not begin again. -/
theorem ConsumerTurn.keeps (h : ConsumerTurn threadId run s s') :
    s'.producer = s.producer ∧ (s.consumer.listens = false → s'.consumer.listens = false) := by
  cases h with
  | openStream hat => exact ⟨rfl, fun hlistens => by rw [hat] at hlistens; contradiction⟩
  | receive chunk buffer hat hbuffer =>
    exact ⟨by simp, fun hlistens => by rw [hat] at hlistens; contradiction⟩
  | endOfStream hat hbuffer hclosed => exact ⟨rfl, fun _ => rfl⟩
  | join awaiting raised hat hended =>
    refine ⟨by simp, fun _ => ?_⟩
    cases raised <;> cases awaiting <;> rfl
  | getState last hat hlast => exact ⟨rfl, fun _ => rfl⟩
  | finish hat hended => exact ⟨rfl, fun _ => rfl⟩

theorem deaf_step (hdeaf : s.Deaf) (h : streamStep threadId run s l = some s') : s'.Deaf := by
  rcases streamStep_turn h with hturn | hturn
  · exact hturn.deaf hdeaf
  · obtain ⟨hproducer, hlistens⟩ := hturn.keeps
    exact fun rest hrest => hlistens (hdeaf rest (hproducer ▸ hrest))

theorem ProducerTurn.outlook_eq (hdeaf : s.Deaf) (h : ProducerTurn run s s') :
    s'.outlook threadId run = s.outlook threadId run := by
  obtain ⟨hconsumer, hevents, houtcome, hahead⟩ := h.keeps hdeaf
  rw [StreamState.outlook, StreamState.outlook, hevents, StreamState.future, StreamState.future, hconsumer,
    houtcome]
  cases hat : s.consumer with
  | opening | receiving => simp only [hahead (by rw [hat]; rfl)]
  | _ => rfl

theorem ConsumerTurn.outlook_eq (h : ConsumerTurn threadId run s s') :
    s'.outlook threadId run = s.outlook threadId run := by
  cases h with
  | openStream hat =>
    simp [StreamState.outlook, StreamState.future, hat, StreamState.outcome, StreamState.ahead]
  | receive chunk buffer hat hbuffer =>
    simp only [StreamState.outlook, StreamState.future, hat, StreamState.ahead, hbuffer, List.cons_append,
      loopEvents]
    cases handleChunk threadId chunk with
    | yields events =>
      simp [StreamState.handles, StreamState.outcome]
    | pauses response =>
      cases response with
      | ok response => simp [StreamState.handles, StreamState.outcome]
      | error e => simp [StreamState.handles]
  | endOfStream hat hbuffer hclosed =>
    have hremaining : s.producer.remaining run = [] := by
      cases hproducer : s.producer <;> simp_all [ProducerPhase.sendClosed, ProducerPhase.remaining]
    simp [StreamState.outlook, StreamState.future, hat, StreamState.outcome, StreamState.ahead, hbuffer,
      hremaining, loopEvents]
  | join awaiting raised hat hended =>
    simp only [StreamState.outlook, StreamState.future, hat, StreamState.outcome, hended,
      ProducerPhase.outcome]
    cases raised with
    | some e => simp [StreamState.joins, joinEvents]
    | none => cases awaiting <;> simp [StreamState.joins, joinEvents]
  | getState last hat hlast => simp [StreamState.outlook, StreamState.future, hat, hlast]
  | finish hat hended => simp [StreamState.outlook, StreamState.future, hat]

/-- No step changes the events the client sees in the end. -/
theorem outlook_step (hdeaf : s.Deaf) (h : streamStep threadId run s l = some s') :
    s'.outlook threadId run = s.outlook threadId run := by
  rcases streamStep_turn h with hturn | hturn
  · exact hturn.outlook_eq hdeaf
  · exact hturn.outlook_eq

theorem ProducerTurn.lower (h : ProducerTurn run s s') : s'.weight run < s.weight run := by
  cases h with
  | exhausted hat =>
    rcases hat with hat | hat <;> simp only [StreamState.weight, hat, ProducerPhase.weight] <;> omega
  | start hat | startFails e hat | aclose raised hat | closeIterator raised hat =>
    simp only [StreamState.weight, hat, ProducerPhase.weight]
    omega
  | next chunk rest hat | broken chunk rest hat | drain chunk rest hat =>
    simp only [StreamState.weight, hat, ProducerPhase.weight, List.length_cons]
    omega
  | send chunk rest hat =>
    simp only [StreamState.weight, hat, ProducerPhase.weight, List.length_append, List.length_singleton]
    omega

theorem StreamState.handles_weight_le (handled : Handled) :
    (s.handles handled).consumer.weight ≤ ConsumerPhase.receiving.weight := by
  rcases handled with events | response | response <;> simp [StreamState.handles, ConsumerPhase.weight]

theorem ConsumerTurn.lower (h : ConsumerTurn threadId run s s') : s'.weight run < s.weight run := by
  rw [StreamState.weight, StreamState.weight, h.keeps.1]
  cases h with
  | receive chunk buffer hat hbuffer =>
    have hle := StreamState.handles_weight_le (s := { s with buffer := buffer })
      (handleChunk threadId chunk)
    have hreceiving : s.consumer.weight = ConsumerPhase.receiving.weight := by rw [hat]
    have hlength : s.buffer.length = buffer.length + 1 := by rw [hbuffer, List.length_cons]
    rw [StreamState.handles_buffer, hreceiving, hlength]
    change _ + _ + buffer.length < _
    omega
  | join awaiting raised hat hended =>
    rw [StreamState.joins_buffer, hat]
    cases raised <;> cases awaiting <;> simp [StreamState.joins, ConsumerPhase.weight]
  | openStream hat | endOfStream hat | getState last hat | finish hat =>
    simp [hat, ConsumerPhase.weight]

theorem weight_step (h : streamStep threadId run s l = some s') : s'.weight run < s.weight run := by
  rcases streamStep_turn h with hturn | hturn
  · exact hturn.lower
  · exact hturn.lower

/-! ### Progress -/

/-- The producer can go on, unless it has ended or waits for room. -/
theorem producer_progress (threadId : String) (run : GraphRun)
    (hroom : s.consumer.listens = true → s.buffer.length < maxBufferSize) :
    s.producer.done = true ∨ ∃ l s', streamStep threadId run s l = some s' := by
  cases hat : s.producer with
  | starting =>
    refine .inr ⟨.start, ?_⟩
    cases hsetup : run.setup <;> simp [streamStep, producerStep, hat, hsetup]
  | stepping rest =>
    refine .inr ⟨.next, ?_⟩
    cases rest <;> simp [streamStep, producerStep, hat]
  | sending chunk rest =>
    cases hlistens : s.consumer.listens with
    | true => exact .inr ⟨.send, by simp [streamStep, producerStep, hat, hlistens, hroom hlistens]⟩
    | false => exact .inr ⟨.broken, by simp [streamStep, producerStep, hat, hlistens]⟩
  | draining rest =>
    refine .inr ⟨.drain, ?_⟩
    cases rest <;> simp [streamStep, producerStep, hat]
  | leaving raised => exact .inr ⟨.aclose, by simp [streamStep, producerStep, hat]⟩
  | closed raised => exact .inr ⟨.closeIterator, by simp [streamStep, producerStep, hat]⟩
  | ended raised => exact .inl rfl

/-- Unless the stream is over, one of the two tasks can go on: they never wait for each other. -/
theorem stream_progress (threadId : String) (run : GraphRun) (s : StreamState) :
    s.consumer = .finished ∨ ∃ l s', streamStep threadId run s l = some s' := by
  cases hat : s.consumer with
  | opening => exact .inr ⟨.openStream, by simp [streamStep, consumerStep, hat]⟩
  | receiving =>
    cases hbuffer : s.buffer with
    | cons chunk buffer => exact .inr ⟨.receive, by simp [streamStep, consumerStep, hat, hbuffer]⟩
    | nil =>
      have hroom : s.consumer.listens = true → s.buffer.length < maxBufferSize :=
        fun _ => by simp [hbuffer, maxBufferSize]
      rcases producer_progress threadId run hroom with hdone | hstep
      · refine .inr ⟨.endOfStream, ?_⟩
        cases hproducer : s.producer <;>
          simp_all [ProducerPhase.done, streamStep, consumerStep, ProducerPhase.sendClosed]
      · exact .inr hstep
  | joining awaiting =>
    have hroom : s.consumer.listens = true → s.buffer.length < maxBufferSize := by
      simp [hat, ConsumerPhase.listens]
    rcases producer_progress threadId run hroom with hdone | hstep
    · refine .inr ⟨.join, ?_⟩
      cases hproducer : s.producer <;> simp_all [ProducerPhase.done, streamStep, consumerStep]
    · exact .inr hstep
  | reading =>
    refine .inr ⟨.getState, ?_⟩
    cases hstate : run.state >>= responseFromSnapshot threadId <;>
      simp [streamStep, consumerStep, hat, hstate]
  | cleanup =>
    have hroom : s.consumer.listens = true → s.buffer.length < maxBufferSize := by
      simp [hat, ConsumerPhase.listens]
    rcases producer_progress threadId run hroom with hdone | hstep
    · exact .inr ⟨.finish, by simp [streamStep, consumerStep, hat, hdone]⟩
    · exact .inr hstep
  | finished => exact .inl rfl

/-! ### Whole runs -/

theorem outlook_exec {ls : List StreamStep} (hdeaf : s.Deaf)
    (hrun : exec (streamStep threadId run) s ls = some s') :
    s'.Deaf ∧ s'.outlook threadId run = s.outlook threadId run := by
  have hstep : ∀ t l t', t.Deaf ∧ t.outlook threadId run = s.outlook threadId run →
      streamStep threadId run t l = some t' →
      t'.Deaf ∧ t'.outlook threadId run = s.outlook threadId run :=
    fun t l t' ht hturn => ⟨deaf_step ht.1 hturn, (outlook_step ht.1 hturn).trans ht.2⟩
  exact invariant_of_exec hstep ⟨hdeaf, rfl⟩ hrun

theorem outlook_initial : StreamState.outlook threadId run {} = transcript threadId run := rfl

/-- However the two tasks are interleaved, a finished stream has yielded the transcript of its run. -/
theorem events_of_finished {ls : List StreamStep}
    (hrun : exec (streamStep threadId run) {} ls = some s) (hfinished : s.consumer = .finished) :
    s.events = transcript threadId run := by
  have hout := (outlook_exec (fun rest hrest => by cases hrest) hrun).2
  rwa [outlook_initial, StreamState.outlook, StreamState.future, hfinished, List.append_nil] at hout

end steps

/-! ### The stream a client is promised -/

/-- Progress between `open` and the end of the turn. -/
def StreamEvent.isProgress : StreamEvent → Bool
  | node _ | token _ => true
  | _ => false

/-- The events that end a turn. -/
def StreamEvent.isTerminal : StreamEvent → Bool
  | awaitingApproval _ | completed _ | error => true
  | _ => false

def StreamEvent.token? : StreamEvent → Option String
  | token content => some content
  | _ => none

/-- `open`, then progress only, then one terminal event, then `done`. -/
def Grammar (threadId : String) (events : List StreamEvent) : Prop :=
  ∃ body last, events = .opened threadId :: (body ++ [last, .done]) ∧
    (∀ e ∈ body, e.isProgress = true) ∧ last.isTerminal = true

def responderText : StreamChunk → String
  | .messages content metadata => if fromResponder metadata then messageChunkText content else ""
  | .updates _ => ""

/-- The non-empty texts of responder messages, in order. -/
def texts (chunks : List StreamChunk) : List String := (chunks.map responderText).filter (· != "")

/-- The mapping of an interrupt chunk. -/
def StreamChunk.pause? : StreamChunk → Option Args
  | .messages _ _ => none
  | .updates data => if (Json.field? "__interrupt__" data).isSome then some data else none

/-- What the consumer receives before it stops at the first interrupt. -/
def beforePause (chunks : List StreamChunk) : List StreamChunk :=
  chunks.takeWhile (fun chunk => chunk.pause?.isNone)

/-- What the iterator yields after its first interrupt. -/
def afterPause (chunks : List StreamChunk) : List StreamChunk :=
  (chunks.dropWhile (fun chunk => chunk.pause?.isNone)).tail

/-- A node event names a node of an update, never an internal key. -/
def NodesOnly (run : GraphRun) (events : List StreamEvent) : Prop :=
  ∀ name, StreamEvent.node name ∈ events → Text.hasPrefix "__" name = false ∧
    ∃ data, StreamChunk.updates data ∈ run.produced ∧ name ∈ data.map (·.1)

structure StreamSpec (threadId : String) (run : GraphRun) (events : List StreamEvent) : Prop where
  grammar : Grammar threadId events
  tokens : events.filterMap StreamEvent.token? = texts run.produced
  nodes : NodesOnly run events

/-- The iterator raises after an interrupt chunk that could be shaped into a response. -/
def FailsAfterPause (threadId : String) (run : GraphRun) : Prop :=
  ∃ data response, run.produced.findSome? StreamChunk.pause? = some data ∧
    responseFromInvoke threadId data = .ok response ∧ run.ending ≠ none

/-- The responder speaks after the run has paused. -/
def TextAfterPause (run : GraphRun) : Prop := texts (afterPause run.produced) ≠ []

section spec
variable {threadId : String} {run : GraphRun}

/-- The events of a chunk that is no interrupt. -/
def StreamChunk.surfaces : StreamChunk → List StreamEvent
  | .messages content metadata =>
    if fromResponder metadata && messageChunkText content != "" then
      [.token (messageChunkText content)]
    else []
  | .updates data => ((data.map (·.1)).filter (fun name => !Text.hasPrefix "__" name)).map .node

/-- How a turn ends: at its first interrupt, or with the task that ran it. -/
def lastEvents (threadId : String) (run : GraphRun) (raised : Option PyError) :
    Option Args → List StreamEvent
  | none => joinEvents threadId run raised false
  | some data =>
    match responseFromInvoke threadId data with
    | .ok response => .awaitingApproval response :: joinEvents threadId run raised true
    | .error _ => [.error, .done]

theorem handleChunk_eq (chunk : StreamChunk) : handleChunk threadId chunk =
    match chunk.pause? with
    | some data => .pauses (responseFromInvoke threadId data)
    | none => .yields chunk.surfaces := by
  cases chunk with
  | messages content metadata =>
    simp only [handleChunk, StreamChunk.pause?, StreamChunk.surfaces]
    split <;> rfl
  | updates data =>
    simp only [handleChunk, StreamChunk.pause?, StreamChunk.surfaces]
    split <;> rfl

/-- The loop surfaces what comes before the first interrupt, then the turn ends. -/
theorem loopEvents_eq (raised : Option PyError) (chunks : List StreamChunk) :
    loopEvents threadId run raised chunks = (beforePause chunks).flatMap StreamChunk.surfaces ++
      lastEvents threadId run raised (chunks.findSome? StreamChunk.pause?) := by
  induction chunks with
  | nil => rfl
  | cons chunk chunks ih =>
    rw [loopEvents, handleChunk_eq]
    cases hpause : chunk.pause? with
    | none => simp [beforePause, hpause, ih]
    | some data =>
      simp only [beforePause, hpause, lastEvents, List.findSome?_cons]
      cases responseFromInvoke threadId data <;> simp [hpause]

theorem isProgress_of_mem_surfaces {chunk : StreamChunk} {e : StreamEvent} (h : e ∈ chunk.surfaces) :
    e.isProgress = true := by
  cases chunk with
  | messages content metadata =>
    rw [StreamChunk.surfaces] at h
    split at h
    · rw [List.mem_singleton.mp h]
      rfl
    · contradiction
  | updates data =>
    obtain ⟨name, -, rfl⟩ := List.mem_map.mp h
    rfl

theorem tokens_surfaces (chunk : StreamChunk) :
    chunk.surfaces.filterMap StreamEvent.token? = [responderText chunk].filter (· != "") := by
  cases chunk with
  | messages content metadata =>
    cases hfrom : fromResponder metadata with
    | false => simp [StreamChunk.surfaces, responderText, hfrom]
    | true =>
      by_cases htext : messageChunkText content = "" <;>
        simp [StreamChunk.surfaces, responderText, hfrom, htext, StreamEvent.token?]
  | updates data =>
    simp [StreamChunk.surfaces, responderText, StreamEvent.token?, List.filterMap_map, Function.comp_def]

theorem tokens_flatMap_surfaces (chunks : List StreamChunk) :
    (chunks.flatMap StreamChunk.surfaces).filterMap StreamEvent.token? = texts chunks := by
  induction chunks with
  | nil => rfl
  | cons chunk chunks ih =>
    rw [List.flatMap_cons, List.filterMap_append, tokens_surfaces, ih, texts, texts, List.map_cons,
      ← List.filter_append]
    rfl

theorem texts_pause {chunk : StreamChunk} (h : chunk.pause?.isSome = true) : responderText chunk = "" := by
  cases chunk with
  | messages content metadata => contradiction
  | updates data => rfl

/-- The responder's texts before and after the first interrupt are all there are. -/
theorem texts_split (chunks : List StreamChunk) :
    texts chunks = texts (beforePause chunks) ++ texts (afterPause chunks) := by
  induction chunks with
  | nil => rfl
  | cons chunk chunks ih =>
    cases hpause : chunk.pause? with
    | none =>
      have hbefore : beforePause (chunk :: chunks) = chunk :: beforePause chunks := by
        simp [beforePause, hpause]
      have hafter : afterPause (chunk :: chunks) = afterPause chunks := by simp [afterPause, hpause]
      rw [hbefore, hafter]
      simp only [texts, List.map_cons, List.filter_cons] at ih ⊢
      split <;> simp [ih]
    | some data =>
      have hsome : chunk.pause?.isSome = true := by rw [hpause]; rfl
      simp [beforePause, afterPause, texts, hpause, texts_pause hsome]

theorem mem_surfaces_node {chunk : StreamChunk} {name : String} (h : .node name ∈ chunk.surfaces) :
    Text.hasPrefix "__" name = false ∧ ∃ data, chunk = .updates data ∧ name ∈ data.map (·.1) := by
  cases chunk with
  | messages content metadata =>
    rw [StreamChunk.surfaces] at h
    split at h <;> simp at h
  | updates data =>
    obtain ⟨name', hname, heq⟩ := List.mem_map.mp h
    cases heq
    obtain ⟨hmem, hinternal⟩ := List.mem_filter.mp hname
    exact ⟨by simpa using hinternal, data, rfl, hmem⟩

/-- The turn ends with one terminal event and `done`, unless the iterator raises after a pause. -/
theorem lastEvents_cases (threadId : String) (run : GraphRun) (raised : Option PyError)
    (pause : Option Args) :
    (∃ last, last.isTerminal = true ∧ last.token? = none ∧
        lastEvents threadId run raised pause = [last, .done] ∧
        ¬(∃ data response, pause = some data ∧ responseFromInvoke threadId data = .ok response ∧
          raised ≠ none)) ∨
      ∃ data response, pause = some data ∧ responseFromInvoke threadId data = .ok response ∧
        raised ≠ none ∧
        lastEvents threadId run raised pause = [.awaitingApproval response, .error, .done] := by
  cases pause with
  | none =>
    refine .inl ?_
    cases raised with
    | some e => exact ⟨.error, rfl, rfl, rfl, by simp⟩
    | none =>
      simp only [lastEvents, joinEvents, Bool.false_eq_true, if_false, stateEvents]
      split
      · exact ⟨_, rfl, rfl, rfl, by simp⟩
      · exact ⟨.error, rfl, rfl, rfl, by simp⟩
  | some data =>
    cases hresponse : responseFromInvoke threadId data with
    | error e => exact .inl ⟨.error, rfl, rfl, by simp [lastEvents, hresponse], by simp [hresponse]⟩
    | ok response =>
      cases raised with
      | none =>
        exact .inl ⟨.awaitingApproval response, rfl, rfl, by simp [lastEvents, hresponse, joinEvents],
          by simp⟩
      | some e =>
        exact .inr ⟨data, response, rfl, hresponse, by simp, by simp [lastEvents, hresponse, joinEvents]⟩

theorem outcome_of_pause {data : Args} (h : run.produced.findSome? StreamChunk.pause? = some data) :
    run.setup.or run.ending = run.ending := by
  cases hsetup : run.setup with
  | none => rfl
  | some e =>
    rw [GraphRun.produced, hsetup] at h
    contradiction

/-- The transcript is the surfaced progress between `open` and the end of the turn. -/
theorem transcript_eq : transcript threadId run =
    .opened threadId :: ((beforePause run.produced).flatMap StreamChunk.surfaces ++
      lastEvents threadId run (run.setup.or run.ending) (run.produced.findSome? StreamChunk.pause?)) := by
  rw [transcript, loopEvents_eq]

theorem isProgress_of_mem_flatMap {chunks : List StreamChunk} {e : StreamEvent}
    (h : e ∈ chunks.flatMap StreamChunk.surfaces) : e.isProgress = true := by
  obtain ⟨chunk, -, he⟩ := List.mem_flatMap.mp h
  exact isProgress_of_mem_surfaces he

theorem grammar_transcript :
    Grammar threadId (transcript threadId run) ↔ ¬FailsAfterPause threadId run := by
  rw [transcript_eq]
  rcases lastEvents_cases threadId run (run.setup.or run.ending)
    (run.produced.findSome? StreamChunk.pause?) with
    ⟨last, hlast, -, hevents, hnone⟩ | ⟨data, response, hpause, hresponse, hraised, hevents⟩
  · refine iff_of_true ⟨_, last, by rw [hevents], fun e he => isProgress_of_mem_flatMap he, hlast⟩ ?_
    rintro ⟨data, response, hpause, hresponse, hending⟩
    exact hnone ⟨data, response, hpause, hresponse, by rwa [outcome_of_pause hpause]⟩
  · refine iff_of_false ?_
      (not_not.mpr ⟨data, response, hpause, hresponse, outcome_of_pause hpause ▸ hraised⟩)
    rintro ⟨body, last, heq, hbody, -⟩
    -- the last two events are `error` and `done`, so `awaiting_approval` is in the body
    rw [hevents, List.cons_inj_right, List.append_cons] at heq
    obtain ⟨hbegins, -⟩ := List.append_inj' heq rfl
    have hmem : StreamEvent.awaitingApproval response ∈ body := by simp [← hbegins]
    exact absurd (hbody _ hmem) (by simp [StreamEvent.isProgress])

theorem tokens_transcript :
    (transcript threadId run).filterMap StreamEvent.token? = texts (beforePause run.produced) := by
  rw [transcript_eq, List.filterMap_cons_none rfl, List.filterMap_append, tokens_flatMap_surfaces]
  rcases lastEvents_cases threadId run (run.setup.or run.ending)
    (run.produced.findSome? StreamChunk.pause?) with
    ⟨last, -, hlast, hevents, -⟩ | ⟨data, response, -, -, -, hevents⟩
  · rw [hevents, List.filterMap_cons_none hlast]
    simp [StreamEvent.token?]
  · rw [hevents]
    simp [StreamEvent.token?]

theorem nodesOnly_transcript : NodesOnly run (transcript threadId run) := by
  intro name hmem
  rw [transcript_eq, List.mem_cons, List.mem_append] at hmem
  rcases hmem with hmem | hmem | hmem
  · contradiction
  · obtain ⟨chunk, hchunk, hname⟩ := List.mem_flatMap.mp hmem
    obtain ⟨hinternal, data, rfl, hkey⟩ := mem_surfaces_node hname
    exact ⟨hinternal, data, (List.takeWhile_sublist _).subset hchunk, hkey⟩
  · rcases lastEvents_cases threadId run (run.setup.or run.ending)
      (run.produced.findSome? StreamChunk.pause?) with
      ⟨last, hlast, -, hevents, -⟩ | ⟨data, response, -, -, -, hevents⟩
    · rw [hevents] at hmem
      rcases List.mem_cons.mp hmem with rfl | hmem
      · contradiction
      · simp at hmem
    · rw [hevents] at hmem
      simp at hmem

end spec

/-- The stream of a run, whatever the interleaving of its two tasks: it can always be brought to its end,
    and then it is the promised stream exactly when the iterator neither raises nor has the responder
    speak after the run has paused. -/
theorem streamLifecycle_grammar (threadId : String) (run : GraphRun) (steps : List StreamStep)
    (s : StreamState) (hrun : exec (streamStep threadId run) {} steps = some s) :
    (∃ more s', exec (streamStep threadId run) s more = some s' ∧ s'.consumer = .finished) ∧
      steps.length ≤ 3 * run.chunks.length + 10 ∧
      NodesOnly run s.events ∧ s.events.filterMap StreamEvent.token? <+: texts run.produced ∧
      (s.consumer = .finished →
        (StreamSpec threadId run s.events ↔ ¬FailsAfterPause threadId run ∧ ¬TextAfterPause run) ∧
        (Grammar threadId s.events ↔ ¬FailsAfterPause threadId run) ∧
        s.events.filterMap StreamEvent.token? = texts (beforePause run.produced)) := by
  have hdeaf : StreamState.Deaf {} := fun rest hrest => by cases hrest
  obtain ⟨-, hout⟩ := outlook_exec hdeaf hrun
  have hbegins : s.events <+: transcript threadId run := ⟨s.future threadId run, hout⟩
  have htexts := texts_split run.produced
  refine ⟨?_, ?_, ?_, ?_, fun hfinished => ?_⟩
  · have hkeep : ∀ t l t', True → streamStep threadId run t l = some t' → True := fun _ _ _ h _ => h
    exact exists_exec_done hkeep (fun _ _ _ hstep => weight_step hstep)
      (fun t _ => stream_progress threadId run t) trivial
  · have hlength := length_le_of_exec (fun _ _ _ hstep => weight_step hstep) hrun
    have hinitial : StreamState.weight run {} = 3 * run.chunks.length + 10 := rfl
    omega
  · exact fun name hname => nodesOnly_transcript name (hbegins.subset hname)
  · have htokens := hbegins.filterMap StreamEvent.token?
    rw [tokens_transcript] at htokens
    exact htokens.trans ⟨_, htexts.symm⟩
  · rw [events_of_finished hrun hfinished]
    refine ⟨⟨fun hspec => ⟨grammar_transcript.mp hspec.grammar, ?_⟩, fun ⟨hfails, htext⟩ => ?_⟩,
      grammar_transcript, tokens_transcript⟩
    · have htokens := hspec.tokens
      rw [tokens_transcript, htexts, List.self_eq_append_right] at htokens
      exact not_not.mpr htokens
    · refine ⟨grammar_transcript.mpr hfails, ?_, nodesOnly_transcript⟩
      rw [tokens_transcript, htexts, not_not.mp htext, List.append_nil]

/-- A turn in which the responder speaks and then reports, with an internal key beside its node. -/
def spokenTurn : GraphRun where
  chunks := [.messages (some (.str "hi")) [("langgraph_node", .str "responder")],
    .updates [("responder", .null), ("__metadata__", .null)]]
  state := .ok ⟨[], []⟩

theorem streamLifecycle_grammar_spoken :
    ∃ s, exec (streamStep "t" spokenTurn) {}
        [.start, .next, .openStream, .send, .receive, .next, .send, .next, .receive, .aclose, .endOfStream,
          .closeIterator, .join, .getState, .finish] = some s ∧ StreamSpec "t" spokenTurn s.events := by
  have hrun : ∃ s, exec (streamStep "t" spokenTurn) {}
      [.start, .next, .openStream, .send, .receive, .next, .send, .next, .receive, .aclose, .endOfStream,
        .closeIterator, .join, .getState, .finish] = some s ∧ s.consumer = .finished := ⟨_, rfl, rfl⟩
  obtain ⟨s, hs, hfinished⟩ := hrun
  refine ⟨s, hs, ((streamLifecycle_grammar "t" spokenTurn _ s hs).2.2.2.2 hfinished).1.mpr ⟨?_, ?_⟩⟩
  · rintro ⟨data, response, hpause, -⟩
    have hnone : spokenTurn.produced.findSome? StreamChunk.pause? = none := rfl
    rw [hnone] at hpause
    contradiction
  · exact not_not.mpr rfl

/-- A turn that pauses for approval, and whose last checkpoint cannot be written: the iterator raises after
    the interrupt chunk. -/
def unsavedTurn : GraphRun where
  chunks := [.updates [("__interrupt__", .arr [.obj [("pending_actions", .arr [])]])]]
  ending := some ⟨"OperationalError", "the connection is closed"⟩
  state := .ok ⟨[], ["approval"]⟩

/-- The client is told `awaiting_approval`, then `error`. -/
theorem stream_error_after_pause :
    ¬∀ (threadId : String) (run : GraphRun) (steps : List StreamStep) (s : StreamState),
      exec (streamStep threadId run) {} steps = some s → s.consumer = .finished →
        StreamSpec threadId run s.events := by
  intro h
  have hrun : ∃ s, exec (streamStep "t" unsavedTurn) {}
      [.openStream, .start, .next, .send, .receive, .next, .aclose, .closeIterator, .join, .finish] = some s ∧
        s.consumer = .finished := ⟨_, rfl, rfl⟩
  obtain ⟨s, hs, hfinished⟩ := hrun
  have hgrammar := (h "t" unsavedTurn _ s hs hfinished).grammar
  rw [events_of_finished hs hfinished] at hgrammar
  exact grammar_transcript.mp hgrammar ⟨_, _, rfl, rfl, by simp [unsavedTurn]⟩

end Atlas
