import EldrServing.Lib.Machine
import EldrServing.Nixl.TpMapping

/-!
# The NIXL worker's receiving side

What `NixlConnectorWorker` keeps of the requests whose blocks it reads from a remote engine. The
scheduler's entries arrive in `start_load_kv`; an entry for an engine that is not known yet waits
for a handshake in a background thread; `_read_blocks` starts the reads, or only notifies the
remote engine if there is nothing to read; `get_finished` polls the reads and reports.

The events are the rounds of the loops of `start_load_kv`, `get_finished`, and what the
background thread does between them. What NIXL answers is part of the events. Host buffers,
post-processing on the device and kernel blocks smaller than logical ones are not modelled.
-/

namespace EldrServing.Nixl

set_option autoImplicit false

open KVCache Machine

abbrev EngineId := Nat

abbrev TransferHandle := Nat

structure RemoteMeta where
  blockIds : BlockIds
  engineId : EngineId
  requestId : ReqId

structure ReqMeta where
  localBlockIds : BlockIds
  remote : RemoteMeta

structure EngineTransferInfo where
  remoteTpSize : Nat
  remoteBlockSize : Nat

/-- A handshake under way: the requests that wait for it, and its result once there is one, the
ranks whose agents were added or `none` if it failed. -/
structure HandshakeFuture where
  waiting : List (ReqId × ReqMeta)
  result : Option (Option (List Nat)) := none

inductive Callback where
  | ready (reqId : ReqId) (entry : ReqMeta)
  | failed (reqId : ReqId)
  /-- The second half of a failed request: its blocks are marked, it is not reported yet. -/
  | report (reqId : ReqId)

def Callback.reqId : Callback → ReqId
  | .ready r _ | .failed r | .report r => r

structure ReadSpec where
  remoteRank : Nat
  localBlockIds : BlockIds
  remoteBlockIds : BlockIds

/-- The answers of `check_xfer_state`. -/
inductive XferState where
  | done
  | proc
  | err
  deriving DecidableEq, Repr

structure RecvWorker where
  transferTopo : TransferTopology
  blockSize : Nat
  groupSpecTypes : List SpecType
  isHmaRequired : Bool := false
  /-- `_engines` of the topology. -/
  engines : Dict EngineId EngineTransferInfo := .empty
  tpMappings : Dict EngineId TPMapping := .empty
  handshakeFutures : Dict EngineId HandshakeFuture := .empty
  callbacks : List Callback := []
  /-- The ranks of each engine that have an agent. -/
  remoteAgents : Dict EngineId (List Nat) := .empty
  readyRequests : List (ReqId × ReqMeta) := []
  recvingMetadata : Dict ReqId ReqMeta := .empty
  recvingTransfers : Dict ReqId (List TransferHandle) := .empty
  failedRecvReqs : List ReqId := []
  invalidBlockIds : Finset Nat := ∅
  nextHandle : TransferHandle := 0
  /-- Not in the source: the notifications sent so far, by engine and rank. -/
  notifs : List (EngineId × Nat × ReqId) := []

namespace RecvWorker

def blockSizeRatio (w : RecvWorker) (remoteBlockSize : Nat) : Except PyError Nat := do
  assert (w.blockSize % remoteBlockSize = 0)
    s!"Local block size {w.blockSize} is not divisible by remote block size {remoteBlockSize} or vice versa."
  .ok (w.blockSize / remoteBlockSize)

def getMappedBlocks (blockIds : List Nat) (blockSizeRatio : Nat) : List Nat :=
  blockIds.flatMap fun b => (List.range blockSizeRatio).map fun i => b * blockSizeRatio + i

def addTo (reqs : List ReqId) (r : ReqId) : List ReqId := if r ∈ reqs then reqs else reqs ++ [r]

def invalidate (w : RecvWorker) (r : ReqId) : Except PyError RecvWorker :=
  match w.recvingMetadata.get? r with
  | none => .ok w
  | some entry =>
    if w.isHmaRequired then .ok w
    else do
      let blocks ← orRaise (.indexError "list index out of range") entry.localBlockIds[0]?
      .ok { w with invalidBlockIds := w.invalidBlockIds ∪ blocks.toFinset }

/-! ### Starting reads -/

/-- The block ids of both sides, at the granularity of the remote engine if its blocks are
smaller. -/
def mapReadBlocks (w : RecvWorker) (ratio : Nat) (spec : ReadSpec) :
    Except PyError (BlockIds × BlockIds) :=
  if 1 < ratio then do
    assert (w.isHmaRequired = false) ""
    let remote ← orRaise (.indexError "list index out of range") spec.remoteBlockIds[0]?
    let mapped := getMappedBlocks (spec.localBlockIds.headD []) ratio
    let mapped := if remote.length < mapped.length then mapped.take remote.length else mapped
    .ok (if mapped = [] then [] else [mapped], [remote])
  else .ok (spec.localBlockIds, spec.remoteBlockIds)

/-- The last `n` blocks of a remote group. The slice `[-n:]` is the whole list for `n = 0`. -/
def trimRemote (n : Nat) (remote : List Nat) : Except PyError (List Nat) := do
  assert (n ≤ remote.length) ""
  .ok (if n < remote.length ∧ n ≠ 0 then remote.drop (remote.length - n) else remote)

/-- `_read_blocks`; `failing` are the ranks for which NIXL cannot set up the transfer. -/
def readBlocks (w : RecvWorker) (spec : ReadSpec) (dstEngineId : EngineId) (requestId : ReqId)
    (remoteRequestId : ReqId) (failing : List Nat) : Except PyError RecvWorker := do
  let info ← orRaise (.keyError "") (w.engines.get? dstEngineId)
  let ratio ← w.blockSizeRatio info.remoteBlockSize
  let (localIds, remoteIds) ← w.mapReadBlocks ratio spec
  if localIds = [] then
    -- a full prefix cache hit: only notify; a message that cannot be sent is logged
    if spec.remoteRank ∈ w.remoteAgents.getD dstEngineId [] then
      .ok { w with notifs := w.notifs ++ [(dstEngineId, spec.remoteRank, remoteRequestId)] }
    else .error (.keyError "")
  else do
    assert (remoteIds.length = localIds.length ∧ localIds.length = w.groupSpecTypes.length) ""
    let remoteIds ← (localIds.zip remoteIds).mapM fun e => trimRemote e.1.length e.2
    assert (localIds.flatten.length = remoteIds.flatten.length) ""
    if spec.remoteRank ∈ failing then do
      let w ← w.invalidate requestId
      .ok { w with failedRecvReqs := addTo w.failedRecvReqs requestId }
    else
      .ok { w with
        recvingTransfers := w.recvingTransfers.insert requestId
          (w.recvingTransfers.getD requestId [] ++ [w.nextHandle])
        nextHandle := w.nextHandle + 1 }

/-- The groups of `ids` that are read from the rank; the others are empty. -/
def selectGroups (plan : TPMapping) (rank numGroups : Nat) (ids : BlockIds) :
    Except PyError BlockIds :=
  (List.range numGroups).mapM fun g => do
    let ranks ← orRaise (.indexError "list index out of range") plan.sourceRanksPerGroup[g]?
    if rank ∈ ranks then orRaise (.indexError "list index out of range") ids[g]? else .ok []

def readSpec (plan : TPMapping) (entry : ReqMeta) (rank : Nat) : Except PyError ReadSpec := do
  let numGroups := entry.localBlockIds.length
  let localIds ← selectGroups plan rank numGroups entry.localBlockIds
  let remoteIds ← selectGroups plan rank numGroups entry.remote.blockIds
  .ok ⟨rank, localIds, remoteIds⟩

/-- The other ranks learn that the blocks were read when the cache is replicated over them. The
lookup in the `defaultdict` of the agents enters an engine that is not there yet. -/
def notifyOthers (w : RecvWorker) (entry : ReqMeta) (rank : Nat) : RecvWorker :=
  let agents := w.remoteAgents.getD entry.remote.engineId []
  { w with
    remoteAgents := w.remoteAgents.insert entry.remote.engineId agents
    notifs := w.notifs ++ (agents.filter (· ≠ rank)).map fun other =>
      (entry.remote.engineId, other, entry.remote.requestId) }

def readBlocksForReq (w : RecvWorker) (reqId : ReqId) (entry : ReqMeta) (failing : List Nat) :
    Except PyError RecvWorker := do
  let plan ← orRaise (.keyError "") (w.tpMappings.get? entry.remote.engineId)
  let info ← orRaise (.keyError "") (w.engines.get? entry.remote.engineId)
  let ratio ← tpRatio w.transferTopo.tpSize info.remoteTpSize
  let specs ← plan.allSourceRanks.mapM (readSpec plan entry)
  assert (w.transferTopo.isMla = true ∧ ratio < 0 → specs.length = 1) ""
  let w ← specs.foldlM (fun w spec => do
    assert (ratio < 0 ∧ w.transferTopo.isMla = false → info.remoteBlockSize = w.blockSize) ""
    w.readBlocks spec entry.remote.engineId reqId entry.remote.requestId failing) w
  match specs with
  | [] => .ok w
  | spec :: _ =>
    .ok (if w.transferTopo.isMla = true ∧ ratio < 0 then w.notifyOthers entry spec.remoteRank
      else w)

/-! ### Handshakes -/

/-- `request_ready`, called where the handshake has its result already. An exception in it is
logged by the future. -/
def requestReady (w : RecvWorker) (reqId : ReqId) (entry : ReqMeta) (succeeded : Bool) :
    RecvWorker :=
  if succeeded then { w with readyRequests := w.readyRequests ++ [(reqId, entry)] }
  else
    match w.invalidate reqId with
    | .ok w => { w with failedRecvReqs := addTo w.failedRecvReqs reqId }
    | .error _ => w

def setFuture (w : RecvWorker) (engineId : EngineId) (future : HandshakeFuture) : RecvWorker :=
  { w with handshakeFutures := w.handshakeFutures.insert engineId future }

def backgroundNixlHandshake (w : RecvWorker) (reqId : ReqId) (entry : ReqMeta) : RecvWorker :=
  match w.handshakeFutures.get? entry.remote.engineId with
  | none => w.setFuture entry.remote.engineId { waiting := [(reqId, entry)] }
  | some future =>
    match future.result with
    | none =>
      w.setFuture entry.remote.engineId
        { future with waiting := future.waiting ++ [(reqId, entry)] }
    | some result => w.requestReady reqId entry result.isSome

/-- One round of the loop of `start_load_kv` over the entries to receive. -/
def startLoad (w : RecvWorker) (reqId : ReqId) (entry : ReqMeta) (failing : List Nat) :
    Except PyError RecvWorker :=
  let w := { w with recvingMetadata := w.recvingMetadata.insert reqId entry }
  if w.remoteAgents.contains entry.remote.engineId then w.readBlocksForReq reqId entry failing
  else .ok (w.backgroundNixlHandshake reqId entry)

/-- The handshake ends. With `info` it has registered the engine; `agents` is its result. -/
def resolve (w : RecvWorker) (engineId : EngineId) (info : Option EngineTransferInfo)
    (agents : Option (List Nat)) : Option RecvWorker :=
  match w.handshakeFutures.get? engineId with
  | none => none
  | some future =>
    if future.result.isSome ∨ (agents.isSome ∧ info.isNone) then none
    else
      let w := w.setFuture engineId { future with result := some agents }
      match info with
      | none => some w
      | some info => some { w with
          engines := if w.engines.contains engineId then w.engines
            else w.engines.insert engineId info
          tpMappings := w.tpMappings.insert engineId
            (w.transferTopo.computeTpMapping info.remoteTpSize w.groupSpecTypes) }

/-- `done_callback`; the callbacks of the waiting requests come after it. -/
def doneCallback (w : RecvWorker) (engineId : EngineId) : Option RecvWorker :=
  match w.handshakeFutures.get? engineId with
  | some ⟨waiting, some (some ranks)⟩ => some { w with
      handshakeFutures := w.handshakeFutures.erase engineId
      remoteAgents := w.remoteAgents.insert engineId ranks
      callbacks := w.callbacks ++ waiting.map fun e => .ready e.1 e.2 }
  | some ⟨waiting, some none⟩ => some { w with
      handshakeFutures := w.handshakeFutures.erase engineId
      callbacks := w.callbacks ++ waiting.map fun e => .failed e.1 }
  | _ => none

def runCallback (w : RecvWorker) : Option RecvWorker :=
  match w.callbacks with
  | [] => none
  | .ready r entry :: rest => some { w with
      callbacks := rest, readyRequests := w.readyRequests ++ [(r, entry)] }
  | .failed r :: rest =>
    match w.invalidate r with
    | .ok w => some { w with callbacks := .report r :: rest }
    | .error _ => some { w with callbacks := rest }
  | .report r :: rest => some { w with
      callbacks := rest, failedRecvReqs := addTo w.failedRecvReqs r }

/-! ### Completion -/

/-- The polling of one request in `_pop_done_transfers`. -/
def popOne (poll : TransferHandle → XferState) (acc : RecvWorker × List ReqId)
    (entry : ReqId × List TransferHandle) : Except PyError (RecvWorker × List ReqId) := do
  let w ← (entry.2.filter (poll · = .err)).foldlM (fun w _ => w.invalidate entry.1) acc.1
  match entry.2.filter (poll · = .proc) with
  | [] => .ok ({ w with recvingTransfers := w.recvingTransfers.erase entry.1 },
      acc.2 ++ [entry.1])
  | inProgress => .ok ({ w with
      recvingTransfers := w.recvingTransfers.insert entry.1 inProgress }, acc.2)

def popDoneTransfers (w : RecvWorker) (poll : TransferHandle → XferState) :
    Except PyError (RecvWorker × List ReqId) :=
  w.recvingTransfers.entries.foldlM (popOne poll) (w, [])

/-- The cleanup of one request that `get_finished` reports. -/
def finishOne (w : RecvWorker) (r : ReqId) : Except PyError RecvWorker := do
  let entry ← orRaise (.assertionError s!"{r} not found in recving_metadata list")
    (w.recvingMetadata.get? r)
  let w := { w with recvingMetadata := w.recvingMetadata.erase r }
  let info ← orRaise (.keyError "") (w.engines.get? entry.remote.engineId)
  let ratio ← w.blockSizeRatio info.remoteBlockSize
  if w.transferTopo.isMla = false ∧ 1 < ratio then do
    assert (w.isHmaRequired = false) ""
    let _ ← orRaise (.indexError "list index out of range") entry.localBlockIds[0]?
    .ok w
  else .ok w

/-- `get_finished`, as far as it concerns requests to receive. -/
def getFinished (w : RecvWorker) (poll : TransferHandle → XferState) :
    Except PyError (RecvWorker × List ReqId) := do
  let (w, done) ← w.popDoneTransfers poll
  let done := w.failedRecvReqs.foldl addTo done
  let w := { w with failedRecvReqs := [] }
  let w ← done.foldlM finishOne w
  .ok (w, done)

end RecvWorker

inductive RecvEvent where
  | startLoad (reqId : ReqId) (entry : ReqMeta) (failing : List Nat)
  /-- A round of the loop of `start_load_kv` over the ready requests. -/
  | readReady (failing : List Nat)
  | resolve (engineId : EngineId) (info : Option EngineTransferInfo) (agents : Option (List Nat))
  | doneCallback (engineId : EngineId)
  | runCallback
  | getFinished (poll : TransferHandle → XferState)
  /-- `get_block_ids_with_load_errors`. -/
  | takeInvalid

def RecvWorker.step (w : RecvWorker) : RecvEvent → Option RecvWorker
  | .startLoad r entry failing => (w.startLoad r entry failing).toOption
  | .readReady failing =>
    match w.readyRequests with
    | [] => none
    | (r, entry) :: rest =>
      ({ w with readyRequests := rest }.readBlocksForReq r entry failing).toOption
  | .resolve engineId info agents => w.resolve engineId info agents
  | .doneCallback engineId => w.doneCallback engineId
  | .runCallback => w.runCallback
  | .getFinished poll => (w.getFinished poll).toOption.map Prod.fst
  | .takeInvalid => some { w with invalidBlockIds := ∅ }

end EldrServing.Nixl
