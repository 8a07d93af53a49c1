import EldrServing.Engine.Stop

/-!
# The incremental detokenizer

`BaseIncrementalDetokenizer`: tokens are decoded one at a time, the text is searched for stop
strings, and text that could still become part of a stop string is held back from the stream.
The decoder of single tokens (`decode_next`, with its state) is a parameter; the tokens of the
prompt only enter its initial state, so `tokenIds` holds output tokens in both implementations.
-/

namespace EldrServing.Engine

set_option autoImplicit false

/-- `find` from a start index inside the text. -/
def findFrom (sub : Text) : Text → Nat → Option Nat
  | [], i => if sub = [] then some i else none
  | c :: text, i => if sub.isPrefixOf (c :: text) then some i else findFrom sub text (i + 1)

/-- `str.find(sub, start)`, with `none` for `-1`; a negative start counts from the end. -/
def pyFind (text sub : Text) (start : Int) : Option Nat :=
  let start := if start < 0 then (start + text.length).toNat else start.toNat
  if start ≤ text.length then findFrom sub (text.drop start) start else none

/-- `check_stop_strings`: the stop string and the length to cut to, `none` for no cut. -/
def checkStopStrings (outputText : Text) (newCharCount : Nat) (stop : List Text)
    (includeInOutput : Bool) : Option (Text × Option Nat) :=
  if newCharCount = 0 then none
  else
    stop.findSome? fun stopStr =>
      -- text that was searched before is not searched again
      (pyFind outputText stopStr (1 - newCharCount - stopStr.length)).map fun stopIndex =>
        if includeInOutput then
          let stopIndex := stopIndex + stopStr.length
          (stopStr, if outputText.length ≤ stopIndex then none else some stopIndex)
        else (stopStr, some stopIndex)

/-- The decoder of single tokens: its state after the prompt, and one step. -/
structure TokenDecoder (σ : Type) where
  init : List TokenId → σ
  decodeNext : σ → TokenId → σ × Text

structure IncrementalDetokenizer (σ : Type) where
  params : SamplingParams
  stopBufferLength : Nat
  tokenIds : List TokenId
  outputText : Text
  lastOutputTextOffset : Nat
  decodeState : σ

namespace IncrementalDetokenizer

variable {σ : Type}

def fromNewRequest (D : TokenDecoder σ) (promptTokenIds : List TokenId) (params : SamplingParams) :
    IncrementalDetokenizer σ where
  params := params
  stopBufferLength :=
    if params.stop ≠ [] ∧ params.includeStopStrInOutput = false then
      (params.stop.map List.length).foldr max 0 - 1
    else 0
  tokenIds := []
  outputText := []
  lastOutputTextOffset := 0
  decodeState := D.init promptTokenIds

def numOutputTokens (d : IncrementalDetokenizer σ) : Nat := d.tokenIds.length

def push (D : TokenDecoder σ) (d : IncrementalDetokenizer σ) (t : TokenId) :
    IncrementalDetokenizer σ :=
  let (decodeState, s) := D.decodeNext d.decodeState t
  { d with decodeState, tokenIds := d.tokenIds ++ [t], outputText := d.outputText ++ s }

/-- The decoding loop of `update`, with its `stop_check_offset`. -/
def decodeLoop (D : TokenDecoder σ) :
    List TokenId → IncrementalDetokenizer σ → Nat → IncrementalDetokenizer σ × Nat
  | [], d, stopCheckOffset => (d, stopCheckOffset)
  | t :: ts, d, stopCheckOffset =>
    let d := d.push D t
    decodeLoop D ts d
      -- no stop string is looked for in the first `min_tokens` tokens
      (if d.params.minTokens ≠ 0 ∧ d.numOutputTokens ≤ d.params.minTokens then d.outputText.length
      else stopCheckOffset)

/-- The end of `update`: look for a stop string and cut the text there. -/
def evaluateStop (d : IncrementalDetokenizer σ) (stopCheckOffset : Nat) :
    IncrementalDetokenizer σ × Option Text :=
  if d.params.stop ≠ [] ∧ d.params.minTokens < d.numOutputTokens then
    match checkStopStrings d.outputText (d.outputText.length - stopCheckOffset) d.params.stop
      d.params.includeStopStrInOutput with
    | none => (d, none)
    | some (stopString, none) => (d, some stopString)
    | some (stopString, some truncateTo) =>
      ({ d with outputText := d.outputText.take truncateTo }, some stopString)
  else (d, none)

/-- `update`: the stop string that was matched. -/
def update (D : TokenDecoder σ) (d : IncrementalDetokenizer σ) (newTokenIds : List TokenId)
    (stopTerminated : Bool) : IncrementalDetokenizer σ × Option Text :=
  if newTokenIds = [] then (d, none)
  else if stopTerminated = true ∧ d.params.includeStopStrInOutput = false then
    -- the stop token itself is not decoded
    let (d, stopCheckOffset) := decodeLoop D newTokenIds.dropLast d d.outputText.length
    { d with tokenIds := d.tokenIds ++ newTokenIds.getLast?.toList }.evaluateStop stopCheckOffset
  else
    let (d, stopCheckOffset) := decodeLoop D newTokenIds d d.outputText.length
    d.evaluateStop stopCheckOffset

/-- The length of the text that may be shown: the last characters of an unfinished text may still
become part of a stop string. -/
def shownLength (d : IncrementalDetokenizer σ) (finished : Bool) : Nat :=
  d.outputText.length - if finished then 0 else d.stopBufferLength

def getNextOutputText (d : IncrementalDetokenizer σ) (finished delta : Bool) :
    IncrementalDetokenizer σ × Text :=
  let length := d.shownLength finished
  if delta = false then (d, d.outputText.take length)
  else if d.lastOutputTextOffset < length then
    ({ d with lastOutputTextOffset := length },
      (d.outputText.take length).drop d.lastOutputTextOffset)
  else (d, [])

@[simp] theorem getNextOutputText_whole_fst (d : IncrementalDetokenizer σ) (finished : Bool) :
    (d.getNextOutputText finished false).1 = d := rfl

theorem checkStopStrings_mem {outputText : Text} {n : Nat} {stop : List Text} {incl : Bool}
    {s : Text} {cut : Option Nat} (h : checkStopStrings outputText n stop incl = some (s, cut)) :
    s ∈ stop := by
  unfold checkStopStrings at h
  split at h
  · cases h
  obtain ⟨stopStr, hmem, hsome⟩ := List.exists_of_findSome?_eq_some h
  obtain ⟨i, -, hi⟩ := Option.map_eq_some_iff.mp hsome
  split at hi
  · exact (Prod.mk.inj hi).1 ▸ hmem
  · exact (Prod.mk.inj hi).1 ▸ hmem

theorem decodeLoop_params (D : TokenDecoder σ) (ts : List TokenId) (d : IncrementalDetokenizer σ)
    (off : Nat) : (decodeLoop D ts d off).1.params = d.params := by
  induction ts generalizing d off with
  | nil => rfl
  | cons t ts ih => exact ih (d.push D t) _

theorem evaluateStop_mem {d d' : IncrementalDetokenizer σ} {n : Nat} {s : Text}
    (h : d.evaluateStop n = (d', some s)) : s ∈ d.params.stop := by
  unfold evaluateStop at h
  split at h
  · split at h
    · cases h
    · rename_i hc
      cases h
      exact checkStopStrings_mem hc
    · rename_i hc
      cases h
      exact checkStopStrings_mem hc
  · cases h

theorem update_mem {D : TokenDecoder σ} {d d' : IncrementalDetokenizer σ} {ts : List TokenId}
    {b : Bool} {s : Text} (h : d.update D ts b = (d', some s)) : s ∈ d.params.stop := by
  unfold update at h
  split at h
  · cases h
  split at h
  · have := evaluateStop_mem h
    rwa [show _ = d.params from decodeLoop_params D _ d _] at this
  · have := evaluateStop_mem h
    rwa [decodeLoop_params D _ d _] at this

def withOffset (d : IncrementalDetokenizer σ) (n : Nat) : IncrementalDetokenizer σ :=
  { d with lastOutputTextOffset := n }

theorem decodeLoop_withOffset (D : TokenDecoder σ) (ts : List TokenId)
    (d : IncrementalDetokenizer σ) (n off : Nat) :
    decodeLoop D ts (d.withOffset n) off =
      ((decodeLoop D ts d off).1.withOffset n, (decodeLoop D ts d off).2) := by
  induction ts generalizing d off with
  | nil => rfl
  | cons t ts ih => exact ih (d.push D t) _

theorem evaluateStop_withOffset (d : IncrementalDetokenizer σ) (n off : Nat) :
    (d.withOffset n).evaluateStop off =
      ((d.evaluateStop off).1.withOffset n, (d.evaluateStop off).2) := by
  unfold evaluateStop
  by_cases h : d.params.stop ≠ [] ∧ d.params.minTokens < d.numOutputTokens
  · rw [if_pos h, if_pos (show (d.withOffset n).params.stop ≠ [] ∧
      (d.withOffset n).params.minTokens < (d.withOffset n).numOutputTokens from h)]
    change (match checkStopStrings d.outputText (d.outputText.length - off) d.params.stop
      d.params.includeStopStrInOutput with | none => _ | some (_, none) => _ | some (_, some _) => _)
      = _
    rcases checkStopStrings d.outputText (d.outputText.length - off) d.params.stop
      d.params.includeStopStrInOutput with _ | ⟨s, _ | cut⟩ <;> rfl
  · rw [if_neg h, if_neg (show ¬ ((d.withOffset n).params.stop ≠ [] ∧
      (d.withOffset n).params.minTokens < (d.withOffset n).numOutputTokens) from h)]

theorem update_withOffset (D : TokenDecoder σ) (d : IncrementalDetokenizer σ) (n : Nat)
    (ts : List TokenId) (b : Bool) :
    (d.withOffset n).update D ts b = ((d.update D ts b).1.withOffset n, (d.update D ts b).2) := by
  unfold update
  split
  · rfl
  split
  · rename_i hb
    simp only [decodeLoop_withOffset, show (d.withOffset n).outputText = d.outputText from rfl,
      if_pos (show b = true ∧ d.params.includeStopStrInOutput = false from hb)]
    exact evaluateStop_withOffset { (decodeLoop D ts.dropLast d d.outputText.length).1 with
      tokenIds := (decodeLoop D ts.dropLast d d.outputText.length).1.tokenIds ++
        ts.getLast?.toList } n _
  · rename_i hb
    simp only [decodeLoop_withOffset, show (d.withOffset n).outputText = d.outputText from rfl,
      if_neg (show ¬ (b = true ∧ d.params.includeStopStrInOutput = false) from hb)]
    exact evaluateStop_withOffset _ n _

theorem update_offset (D : TokenDecoder σ) (d : IncrementalDetokenizer σ) (ts : List TokenId)
    (b : Bool) : (d.update D ts b).1.lastOutputTextOffset = d.lastOutputTextOffset :=
  congrArg (·.1.lastOutputTextOffset) (update_withOffset D d d.lastOutputTextOffset ts b)

theorem decodeLoop_tokenIds (D : TokenDecoder σ) (ts : List TokenId)
    (d : IncrementalDetokenizer σ) (off : Nat) :
    (decodeLoop D ts d off).1.tokenIds = d.tokenIds ++ ts := by
  induction ts generalizing d off with
  | nil => simp [decodeLoop]
  | cons t ts ih =>
    rw [decodeLoop, ih]
    simp [push]

theorem evaluateStop_tokenIds (d : IncrementalDetokenizer σ) (off : Nat) :
    (d.evaluateStop off).1.tokenIds = d.tokenIds := by
  unfold evaluateStop
  split
  · split <;> rfl
  · rfl

theorem update_tokenIds (D : TokenDecoder σ) (d : IncrementalDetokenizer σ) (ts : List TokenId)
    (b : Bool) : (d.update D ts b).1.tokenIds = d.tokenIds ++ ts := by
  unfold update
  split
  · rename_i h
    simp [h]
  split
  · rename_i h _
    rw [evaluateStop_tokenIds]
    simp only [decodeLoop_tokenIds, List.append_assoc]
    rw [List.getLast?_eq_some_getLast h, Option.toList_some, List.dropLast_append_getLast]
  · rw [evaluateStop_tokenIds, decodeLoop_tokenIds]

theorem getNextOutputText_delta_fst (d : IncrementalDetokenizer σ) (finished : Bool) :
    ∃ n, (d.getNextOutputText finished true).1 = d.withOffset n := by
  simp only [getNextOutputText, Bool.true_eq_false, if_false]
  split
  · exact ⟨_, rfl⟩
  · exact ⟨d.lastOutputTextOffset, rfl⟩

theorem getNextOutputText_first {d : IncrementalDetokenizer σ} (h : d.lastOutputTextOffset = 0)
    (finished : Bool) :
    (d.getNextOutputText finished true).2 = (d.getNextOutputText finished false).2 := by
  simp only [getNextOutputText, h, Bool.true_eq_false, if_false, if_true, List.drop_zero]
  split
  · rfl
  · rename_i hlen
    rw [Nat.eq_zero_of_not_pos hlen, List.take_zero]

end IncrementalDetokenizer

end EldrServing.Engine
