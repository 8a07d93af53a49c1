import EldrServing.Lib.Dict
import EldrServing.Lib.Py

/-!
# Block hashes of a request

The incremental hasher of `kv_cache_utils.py` and the operations of a request that call it:
construction, appending output tokens and the update of a streaming session. The hash
function, the digest of prompt embeddings and the hash of the empty prefix are parameters.
-/

namespace EldrServing.BlockHashing

set_option autoImplicit false

structure MultiModalFeature where
  identifier : String
  offset : Nat
  length : Nat
  deriving DecidableEq, Repr

namespace MultiModalFeature

def stop (f : MultiModalFeature) : Nat := f.offset + f.length

def shift (f : MultiModalFeature) (base : Nat) : MultiModalFeature :=
  { f with offset := f.offset + base }

end MultiModalFeature

/-- The items of the extra-key tuple: LoRA name and cache salt are both plain strings. -/
inductive ExtraKey (δ : Type) where
  | text (s : String)
  | mm (identifier : String) (offset : Int)
  | embeds (digest : δ)
  deriving DecidableEq, Repr

/-- The parameters of `get_request_block_hasher` and the module's `NONE_HASH`. -/
structure Hasher (κ δ ε : Type) where
  blockSize : Nat
  hashFn : κ → List Nat → Option (List (ExtraKey δ)) → κ
  noneHash : κ
  embedsHash : List ε → δ
  blockSize_pos : 0 < blockSize

structure Request (κ δ ε : Type) where
  promptTokenIds : Option (List Nat)
  numPromptTokens : Nat
  allTokenIds : List Nat
  outputTokenIds : List Nat
  numComputedTokens : Nat
  mmFeatures : List MultiModalFeature
  loraName : Option String
  cacheSalt : Option String
  promptEmbeds : Option (List ε)
  embedsHashes : Dict (Nat × Nat) δ
  blockHashes : List κ

variable {κ δ ε : Type}

/-- The loop of `_gen_mm_extra_hash_keys` over the features from index `idx` on. -/
def mmLoop (start stop : Nat) : List MultiModalFeature → Nat → List (ExtraKey δ) × Nat
  | [], idx => ([], idx)
  | f :: fs, idx =>
    if f.offset < stop then
      if f.stop ≤ start then mmLoop start stop fs (idx + 1)
      else
        let key := .mm f.identifier ((f.offset : Int) - start)
        if f.stop ≤ stop then
          let (keys, idx) := mmLoop start stop fs (idx + 1)
          (key :: keys, idx)
        else ([key], idx)
    else ([], idx)

/-- An index of -1 stands for the last feature. -/
def genMmExtraHashKeys (features : List MultiModalFeature) (start stop : Nat) (startMmIdx : Int) :
    Except PyError (List (ExtraKey δ) × Int) :=
  match features.getLast? with
  | none => .ok ([], startMmIdx)
  | some last =>
    if last.stop ≤ start then .ok ([], startMmIdx)
    else do
      assert (-startMmIdx ≤ features.length) ""
      let idx := if startMmIdx < 0 then features.length + startMmIdx else startMmIdx
      let (keys, idx) := mmLoop start stop (features.drop idx.toNat) idx.toNat
      .ok (keys, idx)

def genLoraExtraHashKeys (r : Request κ δ ε) : List (ExtraKey δ) :=
  match r.loraName with
  | none => []
  | some name => [.text name]

/-- The salt counts for the first block only, and an empty salt not at all. -/
def cacheSaltKeys (r : Request κ δ ε) (start : Nat) : List (ExtraKey δ) :=
  match r.cacheSalt with
  | none => []
  | some salt => if start = 0 ∧ salt ≠ "" then [.text salt] else []

/-- Returns the table of hashes too, with the new entry if the slice was hashed now. -/
def genPromptEmbedsExtraHashKeys (h : Hasher κ δ ε) (promptEmbeds : Option (List ε))
    (table : Dict (Nat × Nat) δ) (start stop : Nat) : List (ExtraKey δ) × Dict (Nat × Nat) δ :=
  match promptEmbeds with
  | none => ([], table)
  | some embeds =>
    match table.get? (start, stop) with
    | some digest => ([.embeds digest], table)
    | none =>
      let digest := h.embedsHash ((embeds.take stop).drop start)
      ([.embeds digest], table.insert (start, stop) digest)

/-- What one block adds to the running state of the hasher. -/
structure ExtraKeys (δ : Type) where
  keys : Option (List (ExtraKey δ))
  mmIdx : Int
  embedsHashes : Dict (Nat × Nat) δ

def tupleOrNone (keys : List (ExtraKey δ)) : Option (List (ExtraKey δ)) :=
  if keys.isEmpty then none else some keys

def generateBlockHashExtraKeys (h : Hasher κ δ ε) (r : Request κ δ ε) (table : Dict (Nat × Nat) δ)
    (start stop : Nat) (startMmIdx : Int) : Except PyError (ExtraKeys δ) := do
  let (mmKeys, mmIdx) ← genMmExtraHashKeys r.mmFeatures start stop startMmIdx
  let (embedsKeys, table) := genPromptEmbedsExtraHashKeys h r.promptEmbeds table start stop
  .ok ⟨tupleOrNone (genLoraExtraHashKeys r ++ mmKeys ++ cacheSaltKeys r start ++ embedsKeys),
    mmIdx, table⟩

def hashBlockTokens (h : Hasher κ δ ε) (parent : Option κ) (tokens : List Nat)
    (extraKeys : Option (List (ExtraKey δ))) : κ :=
  h.hashFn (parent.getD h.noneHash) tokens extraKeys

def blockTokens (r : Request κ δ ε) (start stop : Nat) : List Nat :=
  (r.allTokenIds.take stop).drop start

/-- The `while True` of the hasher, with `fuel` rounds at most. -/
def hashLoop (h : Hasher κ δ ε) (r : Request κ δ ε) :
    Nat → Nat → Int → Option κ → Dict (Nat × Nat) δ →
    Except PyError (List κ × Dict (Nat × Nat) δ)
  | 0, _, _, _, table => .ok ([], table)
  | fuel + 1, start, mmIdx, prev, table =>
    let stop := start + h.blockSize
    if r.allTokenIds.length < stop then .ok ([], table)
    else do
      let extra ← generateBlockHashExtraKeys h r table start stop mmIdx
      let hash := hashBlockTokens h prev (blockTokens r start stop) extra.keys
      let (hashes, table) ← hashLoop h r fuel stop extra.mmIdx (some hash) extra.embedsHashes
      .ok (hash :: hashes, table)

def requestBlockHasher (h : Hasher κ δ ε) (r : Request κ δ ε) :
    Except PyError (List κ × Dict (Nat × Nat) δ) :=
  let start := r.blockHashes.length * h.blockSize
  if r.allTokenIds.length < start + h.blockSize then .ok ([], r.embedsHashes)
  else
    hashLoop h r r.allTokenIds.length start (if 0 < start then -1 else 0) r.blockHashes.getLast?
      r.embedsHashes

def updateBlockHashes (h : Hasher κ δ ε) (r : Request κ δ ε) :
    Except PyError (Request κ δ ε) := do
  let (hashes, table) ← requestBlockHasher h r
  .ok { r with blockHashes := r.blockHashes ++ hashes, embedsHashes := table }

def FeaturesOk (features : List MultiModalFeature) (numTokens : Nat) : Prop :=
  features.Pairwise (fun f g => f.stop ≤ g.offset) ∧ ∀ f ∈ features, f.stop ≤ numTokens

instance (features : List MultiModalFeature) (numTokens : Nat) :
    Decidable (FeaturesOk features numTokens) := by
  unfold FeaturesOk
  infer_instance

/-- The input a request is made from. A prompt is token ids, embeddings, or both. -/
structure NewRequest (ε : Type) where
  promptTokenIds : Option (List Nat)
  promptEmbeds : Option (List ε)
  mmFeatures : List MultiModalFeature
  loraName : Option String := none
  cacheSalt : Option String := none

def NewRequest.numPromptTokens (n : NewRequest ε) : Nat :=
  match n.promptTokenIds, n.promptEmbeds with
  | some tokens, _ => tokens.length
  | none, some embeds => embeds.length
  | none, none => 0

def Request.init (h : Hasher κ δ ε) (n : NewRequest ε) : Except PyError (Request κ δ ε) :=
  updateBlockHashes h
    { promptTokenIds := n.promptTokenIds
      numPromptTokens := n.numPromptTokens
      allTokenIds := n.promptTokenIds.getD (List.replicate n.numPromptTokens 0)
      outputTokenIds := []
      numComputedTokens := 0
      mmFeatures := n.mmFeatures
      loraName := n.loraName
      cacheSalt := n.cacheSalt
      promptEmbeds := n.promptEmbeds
      embedsHashes := .empty
      blockHashes := [] }

def appendOutputTokenIds (h : Hasher κ δ ε) (r : Request κ δ ε) (tokens : List Nat) :
    Except PyError (Request κ δ ε) :=
  updateBlockHashes h { r with
    outputTokenIds := r.outputTokenIds ++ tokens
    allTokenIds := r.allTokenIds ++ tokens }

structure StreamingUpdate where
  promptTokenIds : List Nat
  mmFeatures : List MultiModalFeature

/-- The session just before its block hashes are updated in `_update_request_as_session`: tokens
that were not computed are discarded and those of the update follow. -/
def extendSession (r : Request κ δ ε) (prompt : List Nat) (u : StreamingUpdate) : Request κ δ ε :=
  let kept := (r.allTokenIds.take r.numComputedTokens).drop r.numPromptTokens
  let tokens := r.allTokenIds.take r.numComputedTokens
  { r with
    allTokenIds := tokens ++ u.promptTokenIds
    outputTokenIds := []
    promptTokenIds := some (prompt ++ kept ++ u.promptTokenIds)
    mmFeatures := r.mmFeatures ++ u.mmFeatures.map (·.shift tokens.length) }

def updateRequestAsSession (h : Hasher κ δ ε) (r : Request κ δ ε) (u : StreamingUpdate) :
    Except PyError (Request κ δ ε) :=
  match r.promptTokenIds with
  | none => .error (.assertionError "")
  | some prompt => do
    let r ← updateBlockHashes h (extendSession r prompt u)
    .ok { r with numPromptTokens := (r.promptTokenIds.getD []).length }

/-- What happens to a live request: the scheduler appends sampled tokens, sets the number of
computed tokens (by scheduling, prefix hits and preemption), or applies a session update. -/
inductive Event where
  | appendOutput (tokens : List Nat)
  | setComputed (numComputedTokens : Nat)
  | sessionUpdate (update : StreamingUpdate)

def step (h : Hasher κ δ ε) (r : Request κ δ ε) : Event → Option (Request κ δ ε)
  | .appendOutput tokens => (appendOutputTokenIds h r tokens).toOption
  | .setComputed n => if n ≤ r.allTokenIds.length then some { r with numComputedTokens := n } else none
  | .sessionUpdate u =>
    if FeaturesOk u.mmFeatures u.promptTokenIds.length then
      (updateRequestAsSession h r u).toOption
    else none

/-- Hashing from scratch: the hasher on the same request without any stored hash. -/
def hashesFromScratch (h : Hasher κ δ ε) (r : Request κ δ ε) : Except PyError (List κ) :=
  (requestBlockHasher h { r with blockHashes := [], embedsHashes := .empty }).map Prod.fst

end EldrServing.BlockHashing
