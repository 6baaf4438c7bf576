/-
Two agents and the connections between them (`agent.c`, `connection.c`, `mr.c`).

Each agent is a process with two threads: the application, which calls `add_connection`,
and `rdma_event_loop`, which answers the events of the connection manager one after the
other, each on the id of one connection.  Either agent may connect to the other.  The
connection manager brings the request of an id to the other agent under a new id, and
the answer back; it delivers private data as they were given, and none with the
`ESTABLISHED` of the accepting side.

* `Agent.proceed` — the event loop, one call at a time;
* `initStep` — `init_connection`, in the steps in which both threads run it;
* `step` — the two agents and the connection manager;
* `rcReady` — `rc_ready`.
-/
import RednRdma.Regions

namespace Rdma

namespace Agents

open Multimap

inductive Side
  | one | two
  deriving Repr, DecidableEq

def Side.other : Side → Side
  | one => two
  | two => one

abbrev Slot := Fin MAX_CONNECTIONS

/-- What `init_rdma_agent` is called with. -/
structure Config where
  numMrs : ℤ
  mrs : ℕ → MrContext
  msgSize : ℕ
  isClient : Bool

/-- What `init_connection` is called with. -/
structure ConnArgs where
  type : ℤ
  alwaysPoll : ℤ
  flags : ℤ
  deriving Repr, DecidableEq

/-- How far an id is on its way through `add_connection` or `init_connection`. -/
inductive Stage
  | unborn
  /-- Before `rdma_resolve_addr`. -/
  | created
  /-- The id of a connect request, before `init_connection`. -/
  | requested
  /-- At the compare-and-swap of `s_conn_bitmap[i]`. -/
  | scan (i : ℕ)
  /-- Before `id->context = ctx`. -/
  | claimed (sockfd : Slot)
  /-- Before `ctx->sockfd = sockfd` and `ctx->app_type = type`. -/
  | stored (sockfd : Slot)
  /-- Before `s_conn_ids[sockfd] = id`. -/
  | typed (sockfd : Slot)
  | done
  deriving Repr, DecidableEq

/-- What the connection manager knows of an id. -/
inductive Cm
  | idle
  /-- `rdma_connect` was called, with these parameters. -/
  | connecting (params : RdmaConnParam)
  /-- The request has reached the other agent as its `peer`. -/
  | arrived (peer : ℕ)
  /-- The id of a request of `peer`; its `CONNECT_REQUEST` has not been taken. -/
  | offered (peer : ℕ) (params : RdmaConnParam)
  /-- The event was taken. -/
  | request (peer : ℕ)
  /-- `rdma_accept` was called. -/
  | accepted (peer : ℕ)

/-- The events of an id that wait to be taken, `CONNECT_REQUEST` apart. -/
inductive CmEvent
  | addrResolved | routeResolved
  | established (params : RdmaConnParam)
  | disconnected | rejected | timewaitExit
  /-- Any other event. -/
  | unhandled

/-- `struct rdma_cm_id`, and what goes on with it. -/
structure IdState where
  stage : Stage := .unborn
  /-- The arguments of `add_connection`. -/
  args : Option ConnArgs := none
  context : Option ConnContext := none
  cm : Cm := .idle
  /-- Its events, oldest first. -/
  queue : List CmEvent := []

/-- Where `rdma_event_loop` is. -/
inductive LoopPc
  /-- `rdma_get_cm_event`. -/
  | idle
  /-- `rdma_resolve_route`. -/
  | resolveRoute (id : ℕ)
  /-- `init_connection`, for a request. -/
  | init (id : ℕ) (params : RdmaConnParam)
  /-- `setup_connection`. -/
  | setup (id : ℕ) (params : Option RdmaConnParam)
  /-- The pre-connection callback, `mr_register`. -/
  | preConn (id : ℕ) (accepting : Bool)
  /-- `build_rc_params`, then `rdma_connect` or `rdma_accept`. -/
  | answer (id : ℕ) (accepting : Bool)
  /-- `finalize_connection`. -/
  | finalize (id : ℕ) (params : RdmaConnParam)
  /-- `rc_disconnect`. -/
  | disconnect (id : ℕ)
  /-- `rc_clear`, up to `s_conn_bitmap[ctx->sockfd] = 0`. -/
  | clear (id : ℕ) (exit : Bool)
  /-- `s_conn_ids[ctx->sockfd] = NULL`, and the memory is freed. -/
  | erase (id : ℕ) (exit : Bool)
  /-- The loop has ended. -/
  | left

/-- A process.  `id->context` and the progress of an id stand in `ids`. -/
structure Agent where
  alive : Bool := true
  tables : Option Context := none
  regions : MrRegions := fun _ => none
  bitmap : Slot → Bool := fun _ => false
  connIds : Slot → Option ℕ := fun _ => none
  ids : ℕ → IdState := fun _ => {}
  pc : LoopPc := .idle

/-- Id `id` becomes `w`. -/
def Agent.put (ag : Agent) (id : ℕ) (w : IdState) : Agent :=
  { ag with ids := Function.update ag.ids id w }

/-- The event loop goes to `pc`. -/
def Agent.goto (ag : Agent) (pc : LoopPc) : Agent := { ag with pc }

def IdState.push (w : IdState) (e : CmEvent) : IdState := { w with queue := w.queue ++ [e] }

/-- `get_connection`. -/
def getConnection (ag : Agent) (sockfd : ℤ) : Except Stop (Option ℕ) := do
  dieIf (sockfd > MAX_CONNECTIONS) "invalid sockfd; must be less than MAX_CONNECTIONS"
  if ← readAt ag.bitmap sockfd then readAt ag.connIds sockfd else return none

/-- `rc_ready` and `rc_terminated`: the state of the connection at `sockfd`, compared. -/
def rcInState (ag : Agent) (state : RcState) (sockfd : ℤ) : Except Stop Bool := do
  match ← getConnection ag sockfd with
  | none => return false
  | some id =>
    let ctx ← deref (ag.ids id).context
    return ctx.state = state

/-- `rc_ready`. -/
def rcReady (ag : Agent) (sockfd : ℤ) : Except Stop Bool := rcInState ag .ready sockfd

/-- `rc_terminated`. -/
def rcTerminated (ag : Agent) (sockfd : ℤ) : Except Stop Bool := rcInState ag .terminated sockfd

/-- The next step of `init_connection(id, …)`. -/
def initStep (ag : Agent) (id : ℕ) (args : ConnArgs) : Except Stop Agent :=
  let w := ag.ids id
  match w.stage with
  | .scan i =>
    -- `find_first_empty_bit_and_set`
    if h : i < MAX_CONNECTIONS then
      if ag.bitmap ⟨i, h⟩ then .ok (ag.put id { w with stage := .scan (i + 1) })
      else
        .ok { ag.put id { w with stage := .claimed ⟨i, h⟩ } with
          bitmap := Function.update ag.bitmap ⟨i, h⟩ true }
    else
      .error (.rcDie
        "can't open new connection; number of open sockets == MAX_CONNECTIONS")
  | .claimed i =>
    .ok (ag.put id { w with
      stage := .stored i
      context := some (initContext 0 0 args.alwaysPoll args.flags) })
  | .stored i =>
    -- three stores in one step: the bit is set already, and of the calls here only `rc_clear`
    -- reads `ctx->sockfd`
    .ok { ag.put id { w with
        stage := .typed i
        context := w.context.map fun ctx =>
          { ctx with
            sockfd := i.val
            appType := args.type } } with
      bitmap := Function.update ag.bitmap i true }
  | .typed i =>
    .ok { ag.put id { w with stage := .done } with
      connIds := Function.update ag.connIds i (some id) }
  | _ => .ok ag

/-- What the environment hands the event loop: the device and the address of the id it
works on, and the results of the verbs library. -/
structure LoopEnv where
  verbs : Verbs
  registrar : Registrar
  device : ℕ
  srcStorage : SockaddrStorage

/-- What `rdma_event_loop` does next after taking an event. -/
def CmEvent.handler (id : ℕ) : CmEvent → Except Stop LoopPc
  | addrResolved => .ok (.resolveRoute id)
  | routeResolved => .ok (.setup id none)
  | established params => .ok (.finalize id params)
  | disconnected => .ok (.disconnect id)
  | rejected => .error (.rcDie "Connection failure. Exiting..")
  | timewaitExit => .ok (.clear id false)
  | unhandled => .error (.rcDie "Unhandled event. Exiting..")

section

variable (L : Lookup UInt32 IdRecord) (cfg : Config)

/-- The event loop goes on in its branch.  With the answer to a request comes what is
delivered to the peer. -/
def Agent.proceed (env : LoopEnv) (ag : Agent) :
    Except Stop (Agent × Option (ℕ × RdmaConnParam)) :=
  match ag.pc with
  | .idle | .left => .ok (ag, none)
  | .resolveRoute id => .ok ((ag.put id ((ag.ids id).push .routeResolved)).goto .idle, none)
  | .init id params =>
    if (ag.ids id).stage = .done then .ok (ag.goto (.setup id (some params)), none)
    else do
      let ag ← initStep ag id { type := -1, alwaysPoll := 1, flags := 0 }
      return (ag, none)
  | .setup id params => do
    let w := ag.ids id
    let cmId : RdmaCmId :=
      { handle := id, verbs := env.device, srcStorage := env.srcStorage, context := w.context }
    let (tables, c) ← setupConnection env.verbs ag.tables cmId params
    return ({ (ag.put id { w with context := some c.ctx }).goto (.preConn id params.isSome) with
      tables := some tables }, none)
  | .preConn id accepting => do
    let w := ag.ids id
    let ctx ← deref w.context
    let tables ← deref ag.tables
    let (regions, ctx) ←
      mrRegister env.registrar tables ag.regions ctx cfg.mrs cfg.numMrs cfg.msgSize
    return ({ (ag.put id { w with context := some ctx }).goto (.answer id accepting) with
      regions }, none)
  | .answer id accepting => do
    let w := ag.ids id
    let ctx ← deref w.context
    let params ← buildRcParams cfg.numMrs ctx
    match accepting with
    | false =>
      match w.cm with
      | .idle => return ((ag.put id { w with cm := .connecting params }).goto .idle, none)
      | _ => throw (.rcDie "failed to connect\n")
    | true =>
      match w.cm with
      | .request peer =>
        let w := { w with cm := .accepted peer }
        let established := CmEvent.established { privateData := none, privateDataLen := 0 }
        return ((ag.put id (w.push established)).goto .idle, some (peer, params))
      -- nothing looks at what `rdma_accept` returns
      | _ => return (ag.goto .idle, none)
  | .finalize id params => do
    let w := ag.ids id
    let ctx ← deref w.context
    let ctx ← finalizeConnection ctx (some params)
    return ((ag.put id { w with context := some ctx }).goto .idle, none)
  | .disconnect id => do
    let w := ag.ids id
    let ctx ← deref w.context
    let (tables, ctx) ← rcDisconnect L ag.tables ctx
    -- `client_loop` exits upon disconnect
    let next := if cfg.isClient then LoopPc.clear id true else .idle
    return ({ (ag.put id { w with context := some ctx }).goto next with
      tables := some tables }, none)
  | .clear id exit => do
    let ctx ← deref (ag.ids id).context
    let terminated ← rcTerminated ag ctx.sockfd
    dieIf (!terminated) "can't clear metadata for non-terminated connection"
    let slot ← readAt (fun i : Slot => i) ctx.sockfd
    return ({ ag.goto (.erase id exit) with
      bitmap := Function.update ag.bitmap slot false }, none)
  | .erase id exit => do
    let w := ag.ids id
    let ctx ← deref w.context
    let slot ← readAt (fun i : Slot => i) ctx.sockfd
    return ({ (ag.put id { w with context := none }).goto (if exit then .left else .idle) with
      connIds := Function.update ag.connIds slot none }, none)

end

/-- The two agents. -/
structure State where
  agent : Side → Agent := fun _ => {}

def State.set (s : State) (a : Side) (ag : Agent) : State :=
  { agent := Function.update s.agent a ag }

/-- `rc_die` or a crash ends the process, and leaves the other alone. -/
def State.setOrDie (s : State) (a : Side) : Except Stop Agent → State
  | .ok ag => s.set a ag
  | .error _ => s.set a { s.agent a with alive := false }

inductive Act
  /-- The application calls `add_connection`, and `rdma_create_id` makes an id. -/
  | add (a : Side) (id : ℕ) (args : ConnArgs)
  /-- `add_connection` goes on. -/
  | app (a : Side) (id : ℕ)
  /-- The event loop takes the next event of an id. -/
  | take (a : Side) (id : ℕ)
  /-- It takes the `CONNECT_REQUEST` of an id. -/
  | takeRequest (a : Side) (id : ℕ)
  /-- The event loop goes on. -/
  | loop (a : Side) (env : LoopEnv)
  /-- The request of an id reaches the other agent, under the new id `peer`. -/
  | deliver (a : Side) (id peer : ℕ)
  /-- Another event of an id comes in: the connection ends, or fails. -/
  | notice (a : Side) (id : ℕ) (e : CmEvent)

/-- The events that come from outside. -/
def CmEvent.isNotice : CmEvent → Bool
  | disconnected | rejected | timewaitExit | unhandled => true
  | _ => false

section

variable (L : Lookup UInt32 IdRecord) (cfg : Side → Config)

/-- What an action does to a process that is alive. -/
def move (s : State) : Act → Option State
  | .add a id args =>
    if ((s.agent a).ids id).stage = .unborn then
      some (s.set a ((s.agent a).put id { stage := .created, args := some args }))
    else none
  | .app a id =>
    let ag := s.agent a
    let w := ag.ids id
    match w.args, w.stage with
    | some _, .created =>
      some (s.set a (ag.put id ({ w with stage := .scan 0 }.push .addrResolved)))
    | some _, .unborn | some _, .done => none
    | some args, _ => some (s.setOrDie a (initStep ag id args))
    | none, _ => none
  | .take a id =>
    let ag := s.agent a
    let w := ag.ids id
    match ag.pc, w.queue with
    | .idle, e :: queue =>
      some (s.setOrDie a ((e.handler id).map (ag.put id { w with queue }).goto))
    | _, _ => none
  | .takeRequest a id =>
    let ag := s.agent a
    let w := ag.ids id
    match ag.pc, w.cm with
    | .idle, .offered peer params =>
      some (s.set a
        ((ag.put id { w with stage := .scan 0, cm := .request peer }).goto (.init id params)))
    | _, _ => none
  | .loop a env =>
    match (s.agent a).pc with
    | .idle | .left => none
    | _ =>
      match (s.agent a).proceed L (cfg a) env with
      | .error _ => some (s.set a { s.agent a with alive := false })
      | .ok (ag, none) => some (s.set a ag)
      | .ok (ag, some (peer, params)) =>
        let other := s.agent a.other
        some ((s.set a ag).set a.other
          (other.put peer ((other.ids peer).push (.established params))))
  | .deliver a id peer =>
    let w := (s.agent a).ids id
    match w.cm with
    | .connecting params =>
      if ((s.agent a.other).ids peer).stage = .unborn then
        some ((s.set a ((s.agent a).put id { w with cm := .arrived peer })).set a.other
          ((s.agent a.other).put peer { stage := .requested, cm := .offered id params }))
      else none
    | _ => none
  | .notice a id e =>
    let w := (s.agent a).ids id
    if e.isNotice ∧ w.stage ≠ .unborn then some (s.set a ((s.agent a).put id (w.push e)))
    else none

/-- The agent whose step it is. -/
def Act.side : Act → Side
  | add a _ _ | app a _ | take a _ | takeRequest a _ | loop a _ | deliver a _ _ | notice a _ _ => a

def step (s : State) (act : Act) : Option State :=
  if (s.agent act.side).alive then move L cfg s act else none

end

end Agents

end Rdma
