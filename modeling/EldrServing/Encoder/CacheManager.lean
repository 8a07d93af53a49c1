import EldrServing.Lib.Loop
import EldrServing.Lib.Machine
import EldrServing.KVCache.Manager
import Mathlib.Data.Finset.Basic

/-!
# The encoder cache

`EncoderCacheManager` books space for the encoder outputs of multimodal inputs. An entry is kept
while requests refer to it, and after that until its space is needed; entries without references
are evicted in the order in which they lost the last one. `_try_schedule_encoder_inputs` of the
scheduler chooses the inputs of a request, evicting as it goes, and they are booked later.
-/

namespace EldrServing.Encoder

set_option autoImplicit false

open KVCache (ReqId)

abbrev MmHash := Nat

structure PlaceholderRange where
  offset : Nat
  length : Nat
  /-- Which positions get an embedding; all of them without a mask. -/
  isEmbed : Option (List Bool) := none
  deriving DecidableEq

def PlaceholderRange.getNumEmbeds (p : PlaceholderRange) : Nat :=
  match p.isEmbed with
  | none => p.length
  | some mask => mask.count true

def PlaceholderRange.getEmbedsIndicesInRange (p : PlaceholderRange) (startIdx endIdx : Nat) :
    Nat × Nat :=
  match p.isEmbed with
  | none => (startIdx, endIdx)
  | some mask => ((mask.take startIdx).count true, (mask.take endIdx).count true)

structure MmFeature where
  identifier : MmHash
  mmPosition : PlaceholderRange
  deriving DecidableEq

def MmFeature.numEmbeds (f : MmFeature) : Nat := f.mmPosition.getNumEmbeds

structure MmRequest where
  requestId : ReqId
  mmFeatures : List MmFeature

/-- The order in which a loop goes over a set of inputs of a request. Python leaves it open: the
set `{1, 8}` of input ids is gone through from `8`. -/
structure SetOrder where
  order : MmRequest → List MmFeature → List MmFeature
  perm : ∀ request fs, (order request fs).Perm fs

structure EncoderCacheManager where
  cacheSize : Nat
  numFreeSlots : Int := cacheSize
  numFreeableSlots : Int := cacheSize
  /-- The requests that refer to each entry. -/
  cached : Dict MmHash (Finset ReqId) := .empty
  /-- The size of the entries without references. -/
  freeable : Dict MmHash Nat := .empty
  freed : List MmHash := []
  /-- Not in the source: the number of operations so far. -/
  clock : Nat := 0
  /-- Not in the source: when each entry last lost its last reference. -/
  unreferencedAt : MmHash → Nat := fun _ => 0

namespace EncoderCacheManager

def Idle (m : EncoderCacheManager) (h : MmHash) : Prop := m.cached.get? h = some ∅

def refs (m : EncoderCacheManager) (h : MmHash) : Finset ReqId := m.cached.getD h ∅

/-- After an operation that took `m` to `m'`, note which entries it left without references. -/
def observe (m m' : EncoderCacheManager) : EncoderCacheManager :=
  { m' with
    clock := m.clock + 1
    unreferencedAt := fun h =>
      if m.refs h ≠ ∅ ∧ m'.cached.get? h = some ∅ then m.clock else m.unreferencedAt h }

/-! ### The operations -/

/-- `check_and_update_cache`, for the input `f` of the request. -/
def checkAndUpdateCache (m : EncoderCacheManager) (r : ReqId) (f : MmFeature) :
    Except PyError (Bool × EncoderCacheManager) :=
  match m.cached.get? f.identifier with
  | none => .ok (false, m)
  | some refs =>
    if refs = ∅ then do
      let numEmbeds ← orRaise (.keyError "") (m.freeable.get? f.identifier)
      .ok (true, m.observe { m with
        freeable := m.freeable.erase f.identifier
        numFreeableSlots := m.numFreeableSlots - numEmbeds
        cached := m.cached.insert f.identifier (insert r refs) })
    else .ok (true, m.observe { m with
      cached := m.cached.insert f.identifier (insert r refs) })

def evict (m : EncoderCacheManager) (h : MmHash) (numFreeEmbeds : Nat) : EncoderCacheManager :=
  m.observe { m with
    freeable := m.freeable.erase h
    cached := m.cached.erase h
    freed := m.freed ++ [h]
    numFreeSlots := m.numFreeSlots + numFreeEmbeds }

/-- The eviction loop of `can_allocate`, over the entries without references. -/
def evictLoop (numEmbeds : Nat) :
    List (MmHash × Nat) → EncoderCacheManager → Except PyError EncoderCacheManager
  | [], m =>
    if (numEmbeds : Int) ≤ m.numFreeSlots then .ok m
    else .error (.keyError "dictionary is empty")
  | (h, n) :: rest, m =>
    if (numEmbeds : Int) ≤ m.numFreeSlots then .ok m
    else do
      let _ ← orRaise (.keyError "") (m.cached.get? h)
      evictLoop numEmbeds rest (m.evict h n)

def canAllocate (m : EncoderCacheManager) (f : MmFeature)
    (encoderComputeBudget numEmbedsToSchedule : Nat) :
    Except PyError (Bool × EncoderCacheManager) :=
  if encoderComputeBudget < f.numEmbeds then .ok (false, m)
  else
    let numEmbeds := f.numEmbeds + numEmbedsToSchedule
    if (numEmbeds : Int) ≤ m.numFreeSlots then .ok (true, m)
    else if m.numFreeableSlots < numEmbeds then .ok (false, m)
    else do
      let m ← evictLoop numEmbeds m.freeable.entries m
      .ok (true, m)

def allocate (m : EncoderCacheManager) (r : ReqId) (f : MmFeature) :
    Except PyError EncoderCacheManager := do
  assert ((f.numEmbeds : Int) ≤ m.numFreeSlots) ""
  assert ((f.numEmbeds : Int) ≤ m.numFreeableSlots) ""
  .ok (m.observe { m with
    cached := m.cached.insert f.identifier (insert r (m.refs f.identifier))
    numFreeSlots := m.numFreeSlots - f.numEmbeds
    numFreeableSlots := m.numFreeableSlots - f.numEmbeds })

def freeEncoderInput (m : EncoderCacheManager) (r : ReqId) (f : MmFeature) :
    EncoderCacheManager :=
  if m.refs f.identifier = ∅ then m
  else
    let refs := (m.refs f.identifier).erase r
    if refs = ∅ then
      m.observe { m with
        cached := m.cached.insert f.identifier refs
        freeable := m.freeable.insert f.identifier f.numEmbeds
        numFreeableSlots := m.numFreeableSlots + f.numEmbeds }
    else m.observe { m with cached := m.cached.insert f.identifier refs }

/-- `get_cached_input_ids`, each input given by its feature. -/
def getCachedInputIds (m : EncoderCacheManager) (request : MmRequest) : List MmFeature :=
  request.mmFeatures.filter fun f => m.cached.contains f.identifier

def free (ord : SetOrder) (m : EncoderCacheManager) (request : MmRequest) : EncoderCacheManager :=
  (ord.order request (m.getCachedInputIds request)).foldl
    (fun m f => m.freeEncoderInput request.requestId f) m

/-- `_free_encoder_inputs` of the scheduler: the inputs that the computed tokens have passed. -/
def freePassed (ord : SetOrder) (m : EncoderCacheManager) (request : MmRequest)
    (numComputedTokens : Nat) : EncoderCacheManager :=
  (ord.order request (m.getCachedInputIds request)).foldl
    (fun m f =>
      if f.mmPosition.offset + f.mmPosition.length ≤ numComputedTokens then
        m.freeEncoderInput request.requestId f
      else m) m

def getFreedMmHashes (m : EncoderCacheManager) : List MmHash × EncoderCacheManager :=
  (m.freed, { m with freed := [] })

def reset (m : EncoderCacheManager) : EncoderCacheManager :=
  m.observe { m with
    cached := .empty
    freeable := .empty
    freed := []
    numFreeSlots := m.cacheSize
    numFreeableSlots := m.cacheSize }

end EncoderCacheManager

/-! ### Choosing the inputs of a step -/

/-- What the choice depends on: the step's position in the request, and the configuration.
`hasCacheItem` tells which outputs an encoder-cache connector can load. -/
structure ChoiceContext where
  numComputedTokens : Nat
  useEagle : Bool := false
  disableChunkedMmInput : Bool := false
  hasCacheItem : MmHash → Bool := fun _ => false

def ChoiceContext.shiftComputedTokens (ctx : ChoiceContext) : Nat := if ctx.useEagle then 1 else 0

/-- The variables of `_try_schedule_encoder_inputs`. -/
structure Choice where
  numNewTokens : Nat
  encoderComputeBudget : Nat
  encoderInputsToSchedule : List MmFeature := []
  externalLoadEncoderInput : List MmFeature := []
  mmHashesToSchedule : List MmHash := []
  numEmbedsToSchedule : Nat := 0

namespace Choice

def inputs (c : Choice) : List MmFeature :=
  c.encoderInputsToSchedule ++ c.externalLoadEncoderInput

def stopBefore (c : Choice) (ctx : ChoiceContext) (f : MmFeature) : Choice :=
  { c with numNewTokens :=
      f.mmPosition.offset - (ctx.numComputedTokens + ctx.shiftComputedTokens) }

def embedsInRange (c : Choice) (ctx : ChoiceContext) (f : MmFeature) : Nat :=
  let p := f.mmPosition
  let (first, last) := p.getEmbedsIndicesInRange (ctx.numComputedTokens - p.offset)
    (min p.length (ctx.numComputedTokens + c.numNewTokens - p.offset))
  last - first

def loadExternally (c : Choice) (f : MmFeature) : Choice :=
  { c with
    mmHashesToSchedule := f.identifier :: c.mmHashesToSchedule
    externalLoadEncoderInput := c.externalLoadEncoderInput ++ [f]
    numEmbedsToSchedule := c.numEmbedsToSchedule + f.numEmbeds }

def scheduleInput (c : Choice) (f : MmFeature) : Choice :=
  { c with
    mmHashesToSchedule := f.identifier :: c.mmHashesToSchedule
    encoderInputsToSchedule := c.encoderInputsToSchedule ++ [f]
    numEmbedsToSchedule := c.numEmbedsToSchedule + f.numEmbeds
    encoderComputeBudget := c.encoderComputeBudget - f.numEmbeds }

def take (c : Choice) (ctx : ChoiceContext) (f : MmFeature) : Choice :=
  if c.embedsInRange ctx f = 0 then c
  else if ctx.hasCacheItem f.identifier then c.loadExternally f
  else c.scheduleInput f

end Choice

/-- The loop of `_try_schedule_encoder_inputs` over the inputs of the request. -/
def chooseLoop (ctx : ChoiceContext) (r : ReqId) :
    List MmFeature → Choice → EncoderCacheManager → Except PyError (Choice × EncoderCacheManager)
  | [], c, m => .ok (c, m)
  | f :: fs, c, m =>
    let p := f.mmPosition
    if ctx.numComputedTokens + c.numNewTokens + ctx.shiftComputedTokens ≤ p.offset then .ok (c, m)
    else if p.offset + p.length ≤ ctx.numComputedTokens then chooseLoop ctx r fs c m
    else if f.identifier ∈ c.mmHashesToSchedule then chooseLoop ctx r fs c m
    else do
      let (isCached, m) ← m.checkAndUpdateCache r f
      if isCached then chooseLoop ctx r fs c m
      else if ctx.disableChunkedMmInput = true ∧ ctx.numComputedTokens < p.offset ∧
          ctx.numComputedTokens + c.numNewTokens < p.offset + p.length then
        .ok (c.stopBefore ctx f, m)
      else do
        let (fits, m) ← m.canAllocate f c.encoderComputeBudget c.numEmbedsToSchedule
        if fits then chooseLoop ctx r fs (c.take ctx f) m
        else .ok (c.stopBefore ctx f, m)

def tryScheduleEncoderInputs (ctx : ChoiceContext) (m : EncoderCacheManager) (request : MmRequest)
    (numNewTokens encoderComputeBudget : Nat) : Except PyError (Choice × EncoderCacheManager) :=
  if numNewTokens = 0 ∨ request.mmFeatures = [] then
    .ok ({ numNewTokens, encoderComputeBudget }, m)
  else chooseLoop ctx request.requestId request.mmFeatures { numNewTokens, encoderComputeBudget } m

def allocateInputs (m : EncoderCacheManager) (r : ReqId) (fs : List MmFeature) :
    Except PyError EncoderCacheManager :=
  fs.foldlM (fun m f => m.allocate r f) m

end EldrServing.Encoder
