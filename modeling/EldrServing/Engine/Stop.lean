import EldrServing.Lib.Py
import Mathlib.Data.List.Basic

/-!
# Sampling parameters and the stop check

`check_stop` decides after every sampled token whether a request is finished, and
`_update_request_with_output` applies it to the tokens of one step. On a producer a request
that asks for a handoff stops after its first token in any case.
-/

namespace EldrServing.Engine

set_option autoImplicit false

abbrev TokenId := Nat

abbrev Text := List Char

inductive RequestStatus where
  | waiting
  | waitingForStructuredOutputGrammar
  | waitingForRemoteKvs
  | waitingForStreamingReq
  | running
  | preempted
  | finishedStopped
  | finishedLengthCapped
  | finishedAborted
  | finishedIgnored
  | finishedError
  | finishedRepetition
  deriving DecidableEq, Repr

inductive FinishReason where
  | stop
  | length
  | abort
  | error
  | repetition
  deriving DecidableEq, Repr

namespace RequestStatus

def isFinished : RequestStatus → Bool
  | finishedStopped | finishedLengthCapped | finishedAborted | finishedIgnored | finishedError
  | finishedRepetition => true
  | _ => false

/-- `_FINISHED_REASON_MAP`; an ignored request counts as capped by length. -/
def getFinishedReason : RequestStatus → Option FinishReason
  | finishedStopped | waitingForStreamingReq => some .stop
  | finishedLengthCapped | finishedIgnored => some .length
  | finishedAborted => some .abort
  | finishedError => some .error
  | finishedRepetition => some .repetition
  | _ => none

end RequestStatus

/-- `stop_reason`: a stop token or a text. -/
inductive StopReason where
  | token (id : TokenId)
  | text (s : Text)
  deriving DecidableEq, Repr

structure RepetitionDetectionParams where
  maxPatternSize : Int := 0
  minPatternSize : Int := 0
  minCount : Int := 0
  deriving DecidableEq, Repr

/-- `token_ids[-n]`. -/
def fromEnd (tokenIds : List TokenId) (n : Nat) : Option TokenId := tokenIds[tokenIds.length - n]?

/-- `_has_repeating_pattern`; both loops start at 1. -/
def hasRepeatingPattern (tokenIds : List TokenId) (patternLen repetitionMinCount : Nat) : Bool :=
  (List.range patternLen).all fun n => (List.range (repetitionMinCount - 1)).all fun m =>
    fromEnd tokenIds (patternLen * (m + 1) + (n + 1)) == fromEnd tokenIds (n + 1)

/-- The loop of `check_sequence_repetition`, over `rounds` pattern lengths from `patternLen` on. -/
def repetitionLoop (tokenIds : List TokenId) (minCount : Nat) : Nat → Nat → Bool
  | 0, _ => false
  | rounds + 1, patternLen =>
    if tokenIds.length < patternLen * minCount then false
    else if hasRepeatingPattern tokenIds patternLen minCount then true
    else repetitionLoop tokenIds minCount rounds (patternLen + 1)

def checkSequenceRepetition (tokenIds : List TokenId) (params : RepetitionDetectionParams) : Bool :=
  let minPatternSize := if params.minPatternSize ≤ 0 then 1 else params.minPatternSize
  if params.maxPatternSize ≤ 0 ∨ params.minCount < 2 ∨ params.maxPatternSize < minPatternSize then
    false
  else
    repetitionLoop tokenIds params.minCount.toNat
      (params.maxPatternSize + 1 - minPatternSize).toNat minPatternSize.toNat

/-! ### What repetition detection answers -/

/-- The last `patternLen * count` tokens are `count` copies of one block. -/
def EndsInCopies (tokenIds : List TokenId) (patternLen count : Nat) : Prop :=
  patternLen * count ≤ tokenIds.length ∧ ∃ block : List TokenId, block.length = patternLen ∧
    tokenIds.drop (tokenIds.length - patternLen * count) = (List.replicate count block).flatten

theorem getElem?_flatten_replicate {α : Type} (block : List α) (count i : Nat)
    (hi : i < block.length * count) :
    (List.replicate count block).flatten[i]? = block[i % block.length]? := by
  induction count generalizing i with
  | zero => omega
  | succ count ih =>
    rw [List.replicate_succ, List.flatten_cons]
    rcases Nat.lt_or_ge i block.length with hlt | hge
    · rw [List.getElem?_append_left hlt, Nat.mod_eq_of_lt hlt]
    · rw [List.getElem?_append_right hge, ih (i - block.length) (by rw [Nat.mul_succ] at hi; omega),
        Nat.mod_eq_sub_mod hge]

theorem hasRepeatingPattern_eq_true (tokenIds : List TokenId) (patternLen count : Nat) :
    hasRepeatingPattern tokenIds patternLen count = true ↔
      ∀ n < patternLen, ∀ m < count - 1,
        fromEnd tokenIds (patternLen * (m + 1) + (n + 1)) = fromEnd tokenIds (n + 1) := by
  simp only [hasRepeatingPattern, List.all_eq_true, List.mem_range, beq_iff_eq]

/-- Comparing every copy with the last one is comparing with one block. -/
theorem hasRepeatingPattern_iff {tokenIds : List TokenId} {patternLen count : Nat}
    (hcount : 0 < count) (hlen : patternLen * count ≤ tokenIds.length) :
    hasRepeatingPattern tokenIds patternLen count = true ↔
      EndsInCopies tokenIds patternLen count := by
  rw [hasRepeatingPattern_eq_true]
  constructor
  · intro h
    have hlast : patternLen ≤ patternLen * count := Nat.le_mul_of_pos_right _ hcount
    refine ⟨hlen, tokenIds.drop (tokenIds.length - patternLen), by rw [List.length_drop]; omega, ?_⟩
    have hblock : (tokenIds.drop (tokenIds.length - patternLen)).length = patternLen := by
      rw [List.length_drop]
      omega
    apply List.ext_getElem?
    intro i
    rcases Nat.lt_or_ge i (patternLen * count) with hi | hi
    · rw [getElem?_flatten_replicate _ _ _ (by rwa [hblock]), hblock, List.getElem?_drop,
        List.getElem?_drop]
      have hpos : 0 < patternLen := Nat.pos_of_mul_pos_right (Nat.lt_of_le_of_lt (Nat.zero_le i) hi)
      have hr := Nat.mod_lt i hpos
      have hj : i / patternLen < count := Nat.div_lt_of_lt_mul hi
      have hsplit := Nat.div_add_mod i patternLen
      generalize i / patternLen = j at hj hsplit
      -- The copy that holds position `i`, counted from the last one.
      obtain ⟨k, hk⟩ := Nat.exists_eq_add_of_lt hj
      have hprod : patternLen * count = patternLen * j + patternLen * k + patternLen := by
        rw [hk, Nat.mul_add, Nat.mul_add, Nat.mul_one]
      cases k with
      | zero =>
        congr 1
        omega
      | succ k =>
        have := h (patternLen - 1 - i % patternLen) (by omega) k (by omega)
        simp only [fromEnd] at this
        convert this using 2
        · omega
        · omega
    · rw [List.getElem?_eq_none (by rw [List.length_drop]; omega), List.getElem?_eq_none]
      rw [List.length_flatten, List.map_replicate, List.sum_replicate_nat, hblock, Nat.mul_comm]
      exact hi
  · rintro ⟨-, block, rfl, hcopies⟩ n hn m hm
    have hat : ∀ x, 0 < x → x ≤ block.length * count →
        fromEnd tokenIds x = block[(block.length * count - x) % block.length]? := by
      intro x hx hle
      rw [← getElem?_flatten_replicate block count _ (by omega), ← hcopies, List.getElem?_drop,
        fromEnd]
      congr 1
      omega
    have hm' : block.length * (m + 1) + block.length ≤ block.length * count := by
      rw [← Nat.mul_succ]
      exact Nat.mul_le_mul_left _ (by omega)
    rw [hat _ (by omega) (by omega), hat _ (by omega) (by omega)]
    congr 1
    rw [← Nat.add_mul_mod_self_left _ _ (m + 1)]
    congr 1
    omega

/-- A pattern too long for the sequence ends the search, and so would every longer one. -/
theorem repetitionLoop_iff {tokenIds : List TokenId} {minCount : Nat} (hcount : 0 < minCount)
    (rounds patternLen : Nat) :
    repetitionLoop tokenIds minCount rounds patternLen = true ↔
      ∃ p, patternLen ≤ p ∧ p < patternLen + rounds ∧ EndsInCopies tokenIds p minCount := by
  induction rounds generalizing patternLen with
  | zero =>
    constructor
    · intro h
      cases h
    · rintro ⟨p, hle, hlt, -⟩
      omega
  | succ rounds ih =>
    rw [repetitionLoop]
    split
    · next hshort =>
      constructor
      · intro h
        cases h
      · rintro ⟨p, hle, -, hfits, -⟩
        have := Nat.mul_le_mul_right minCount hle
        omega
    · next hfits =>
      have hiff := hasRepeatingPattern_iff hcount (Nat.le_of_not_lt hfits)
      split
      · next hfound =>
        exact ⟨fun _ => ⟨patternLen, Nat.le_refl _, by omega, hiff.mp hfound⟩, fun _ => rfl⟩
      · next hfound =>
        rw [ih]
        constructor
        · rintro ⟨p, hle, hlt, hp⟩
          exact ⟨p, by omega, by omega, hp⟩
        · rintro ⟨p, hle, hlt, hp⟩
          rcases Nat.lt_or_eq_of_le hle with hlt' | rfl
          · exact ⟨p, hlt', by omega, hp⟩
          · exact absurd (hiff.mpr hp) hfound

theorem checkSequenceRepetition_iff (tokenIds : List TokenId) (params : RepetitionDetectionParams) :
    checkSequenceRepetition tokenIds params = true ↔
      2 ≤ params.minCount ∧ ∃ p : Nat, max 1 params.minPatternSize ≤ p ∧
        (p : Int) ≤ params.maxPatternSize ∧ p * params.minCount ≤ tokenIds.length ∧
        ∃ block : List TokenId, block.length = p ∧
          tokenIds.drop (tokenIds.length - p * params.minCount.toNat) =
            (List.replicate params.minCount.toNat block).flatten := by
  have hmin : (if params.minPatternSize ≤ 0 then 1 else params.minPatternSize) =
      max 1 params.minPatternSize := by
    split <;> omega
  have hfit : ∀ p : Nat, 2 ≤ params.minCount →
      (p * params.minCount.toNat ≤ tokenIds.length ↔ p * params.minCount ≤ tokenIds.length) := by
    intro p hcount
    rw [← Int.ofNat_le, Int.natCast_mul, Int.toNat_of_nonneg (by omega)]
  simp only [checkSequenceRepetition, hmin]
  split
  · next hoff =>
    constructor
    · intro h
      cases h
    · rintro ⟨hcount, p, hle, hge, -⟩
      omega
  · next hon =>
    rw [repetitionLoop_iff (by omega)]
    constructor
    · rintro ⟨p, hle, hlt, hlen, hcopies⟩
      exact ⟨by omega, p, by omega, by omega, (hfit p (by omega)).mp hlen, hcopies⟩
    · rintro ⟨hcount, p, hle, hge, hlen, hcopies⟩
      exact ⟨p, by omega, by omega, (hfit p hcount).mpr hlen, hcopies⟩

/-! ### The stop check -/

/-- The sampling parameters that stopping and detokenization read, as `_verify_args` accepts them.
`eosTokenId` is `none` under `ignore_eos`. -/
structure SamplingParams where
  maxTokens : Nat
  minTokens : Nat
  eosTokenId : Option TokenId
  stopTokenIds : List TokenId
  stop : List Text
  includeStopStrInOutput : Bool
  repetitionDetection : Option RepetitionDetectionParams
  maxTokens_pos : 1 ≤ maxTokens
  minTokens_le : minTokens ≤ maxTokens
  stop_ne_nil : ∀ s ∈ stop, s ≠ []

/-- `check_stop` on a request with `numPromptTokens` prompt tokens and the given output: the new
status and stop reason, or `none` if it goes on. -/
def checkStop (params : SamplingParams) (maxModelLen numPromptTokens : Nat)
    (outputTokenIds : List TokenId) : Option (RequestStatus × Option StopReason) :=
  if outputTokenIds.length < params.minTokens then none
  else if outputTokenIds.getLast? = params.eosTokenId ∧ params.eosTokenId.isSome then
    some (.finishedStopped, none)
  else
    match outputTokenIds.getLast?.filter (· ∈ params.stopTokenIds) with
    | some lastTokenId => some (.finishedStopped, some (.token lastTokenId))
    | none =>
      if maxModelLen ≤ numPromptTokens + outputTokenIds.length ∨
          params.maxTokens ≤ outputTokenIds.length then
        some (.finishedLengthCapped, none)
      else
        match params.repetitionDetection with
        | none => none
        | some detection =>
          if checkSequenceRepetition outputTokenIds detection then
            some (.finishedRepetition, some (.text "repetition_detected".toList))
          else none

theorem checkStop_isFinished {params : SamplingParams} {maxModelLen numPromptTokens : Nat}
    {outputTokenIds : List TokenId} {st : RequestStatus} {r : Option StopReason}
    (h : checkStop params maxModelLen numPromptTokens outputTokenIds = some (st, r)) :
    st.isFinished = true := by
  unfold checkStop at h
  split at h
  · cases h
  split at h
  · cases h
    rfl
  split at h
  · cases h
    rfl
  split at h
  · cases h
    rfl
  split at h
  · cases h
  split at h
  · cases h
    rfl
  · cases h

theorem checkStop_isSome_of_maxTokens_le {params : SamplingParams}
    {maxModelLen numPromptTokens : Nat} {outputTokenIds : List TokenId}
    (h : params.maxTokens ≤ outputTokenIds.length) :
    (checkStop params maxModelLen numPromptTokens outputTokenIds).isSome = true := by
  have hmin := params.minTokens_le
  unfold checkStop
  rw [if_neg (by omega)]
  split
  · rfl
  split
  · rfl
  · rw [if_pos (Or.inr h)]
    rfl

theorem checkStop_none_lt {params : SamplingParams} {maxModelLen numPromptTokens : Nat}
    {outputTokenIds : List TokenId}
    (h : checkStop params maxModelLen numPromptTokens outputTokenIds = none)
    (hmin : numPromptTokens + params.minTokens ≤ maxModelLen) :
    outputTokenIds.length < params.maxTokens ∧
      numPromptTokens + outputTokenIds.length < maxModelLen := by
  have hle := params.minTokens_le
  unfold checkStop at h
  split at h
  · omega
  split at h
  · cases h
  split at h
  · cases h
  split at h
  · cases h
  · next hlen => omega

theorem repetitionLoop_short {tokenIds : List TokenId} {minCount patternLen : Nat}
    (h : tokenIds.length < patternLen * minCount) (rounds : Nat) :
    repetitionLoop tokenIds minCount rounds patternLen = false := by
  cases rounds with
  | zero => rfl
  | succ rounds => rw [repetitionLoop, if_pos h]

theorem checkSequenceRepetition_short {tokenIds : List TokenId} (h : tokenIds.length ≤ 1)
    (params : RepetitionDetectionParams) : checkSequenceRepetition tokenIds params = false := by
  unfold checkSequenceRepetition
  have hpos : 1 ≤ if params.minPatternSize ≤ 0 then 1 else params.minPatternSize := by
    split <;> omega
  generalize (if params.minPatternSize ≤ 0 then 1 else params.minPatternSize) = first at hpos ⊢
  simp only
  split
  · rfl
  · -- the first pattern length is already too long
    have hlen : 1 * 2 ≤ first.toNat * params.minCount.toNat :=
      Nat.mul_le_mul (by omega) (by omega)
    exact repetitionLoop_short (by omega) _

theorem checkStop_first {params : SamplingParams} {maxModelLen numPromptTokens : Nat} {t : TokenId}
    {st : RequestStatus} {r : Option StopReason}
    (h : checkStop params maxModelLen numPromptTokens [t] = some (st, r)) :
    st = .finishedStopped ∨ st = .finishedLengthCapped := by
  unfold checkStop at h
  split at h
  · cases h
  split at h
  · cases h
    exact Or.inl rfl
  split at h
  · cases h
    exact Or.inl rfl
  split at h
  · cases h
    exact Or.inr rfl
  split at h
  · cases h
  · rw [checkSequenceRepetition_short (by simp)] at h
    cases h

end EldrServing.Engine
