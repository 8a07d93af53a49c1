import EldrServing.Lib.Dict
import EldrServing.Lib.Machine
import Mathlib.Data.List.ReduceOption

/-!
# The handshake listener

The loop of `_nixl_handshake_listener`: a thread that answers the metadata requests of other
engines on a ROUTER socket. The MessagePack decoder is a parameter, which may return any value or
raise. The peer address in the warnings is not modelled.
-/

namespace EldrServing.Nixl

set_option autoImplicit false

abbrev Bytes := List UInt8

/-- A multipart message: its frames, the identity of the peer first. -/
abbrev Message := List Bytes

inductive Value where
  | none
  | bool (b : Bool)
  | int (i : Int)
  | float (bits : UInt64)
  | str (s : String)
  | bytes (b : Bytes)
  | list (xs : List Value)
  | tuple (xs : List Value)
  | dict (es : List (Value × Value))
  | ext (code : Int) (data : Bytes)

inductive HandshakeError where
  | valueError (msg : String)
  | decodeError
  | typeError
  | recursionError
  deriving DecidableEq, Repr

/-- `b"get_meta_msg"`. -/
def getMetaMsg : Bytes := [103, 101, 116, 95, 109, 101, 116, 97, 95, 109, 115, 103]

namespace Handshake

/-- `isinstance(query, (list, tuple))`, with the items. -/
def items? : Value → Option (List Value)
  | .list xs => some xs
  | .tuple xs => some xs
  | _ => .none

def IsGetMeta : Value → Prop
  | .bytes b => b = getMetaMsg
  | _ => False

instance : DecidablePred IsGetMeta := fun v => by
  unfold IsGetMeta
  split <;> infer_instance

def metadataQuery (query : Value) : Except HandshakeError Value :=
  match items? query with
  | some [command, rank] =>
    if IsGetMeta command then .ok rank else .error (.valueError "invalid metadata request")
  | _ => .error (.valueError "invalid metadata request")

/-- An empty delimiter, as a REQ socket sends it. -/
def Normal (frames : Message) : Prop := frames.length = 3 ∧ frames[1]? = some []

/-- A four-byte request id and an empty delimiter, as with REQ_CORRELATE. -/
def Correlated (frames : Message) : Prop :=
  frames.length = 4 ∧ (frames[1]?.map List.length) = some 4 ∧ frames[2]? = some []

instance (frames : Message) : Decidable (Normal frames) := by
  unfold Normal
  infer_instance

instance (frames : Message) : Decidable (Correlated frames) := by
  unfold Correlated
  infer_instance

structure Listener where
  rejected : Nat := 0
  sent : List Message := []
  warnings : List (Nat × List Nat) := []

section Loop

variable (decode : Bytes → Except HandshakeError Value) (encodedData : Dict Int Bytes)

/-- The rank, which has to be an integer (and not a boolean) of the table, with its metadata. -/
def availableRank : Value → Except HandshakeError (Int × Bytes)
  | .int rank =>
    match encodedData.get? rank with
    | some metadata => .ok (rank, metadata)
    | .none => .error (.valueError "unavailable metadata rank")
  | _ => .error (.valueError "unavailable metadata rank")

def payloadRank (payload : Bytes) : Except HandshakeError (Int × Bytes) := do
  let query ← decode payload
  let rank ← metadataQuery query
  availableRank encodedData rank

/-- The body of the `try`. -/
def targetTpRank (frames : Message) : Except HandshakeError (Int × Bytes) :=
  if ¬ (Normal frames ∨ Correlated frames) then
    .error (.valueError "invalid request envelope")
  else payloadRank decode encodedData (frames.getLastD [])

def reject (l : Listener) (frames : Message) : Listener :=
  let rejected := l.rejected + 1
  { l with
    rejected
    warnings := if rejected &&& (rejected - 1) = 0 then
        l.warnings ++ [(rejected, frames.map List.length)]
      else l.warnings }

/-- One message. An exception that the handler does not name ends the listener. -/
def onMessage (l : Listener) (frames : Message) : Except HandshakeError Listener :=
  if frames.length = 2 ∧ frames[1]? = some [] then .ok l
  else
    match targetTpRank decode encodedData frames with
    | .ok (_, metadata) => .ok { l with sent := l.sent ++ [frames.dropLast ++ [metadata]] }
    | .error (.valueError _) => .ok (reject l frames)
    | .error .decodeError => .ok (reject l frames)
    | .error e => .error e

/-- One pass of the loop: a message, or `none` for a receive that timed out. -/
def pass (l : Listener) : Option Message → Except HandshakeError Listener
  | .none => .ok l
  | some frames => onMessage decode encodedData l frames

def run (l : Listener) (received : List (Option Message)) : Option Listener :=
  Machine.exec (fun l r => (pass decode encodedData l r).toOption) l received

end Loop

/-! ### What is answered -/

section Replies

variable (decode : Bytes → Except HandshakeError Value) (encodedData : Dict Int Bytes)

/-- The metadata that a payload asks for: a two-element list of the command and an integer rank
of the table. -/
def metadata? (payload : Bytes) : Option Bytes :=
  match decode payload with
  | .ok query =>
    match items? query with
    | some [.bytes command, .int rank] =>
      if command = getMetaMsg then encodedData.get? rank else .none
    | _ => .none
  | .error _ => .none

/-- The answer that a message is due: its envelope and the metadata. -/
def answer? : Message → Option Message
  | [identity, [], payload] =>
    (metadata? decode encodedData payload).map fun metadata => [identity, [], metadata]
  | [identity, id, [], payload] =>
    if id.length = 4 then
      (metadata? decode encodedData payload).map fun metadata => [identity, id, [], metadata]
    else .none
  | _ => .none

/-- The decoder raises only what the listener handles. -/
def Decodes (payload : Bytes) : Prop :=
  decode payload ≠ .error .typeError ∧ decode payload ≠ .error .recursionError

variable {decode encodedData}

theorem metadataQuery_cases (query : Value) :
    (∃ rank, items? query = some [.bytes getMetaMsg, rank] ∧ metadataQuery query = .ok rank) ∨
    ((∀ rank, items? query ≠ some [.bytes getMetaMsg, rank]) ∧
      metadataQuery query = .error (.valueError "invalid metadata request")) := by
  rcases hitems : items? query with _ | xs
  · right
    refine ⟨fun rank h => ?_, ?_⟩
    · cases h
    · simp [metadataQuery, hitems]
  · by_cases hget : ∃ rank, xs = [.bytes getMetaMsg, rank]
    · obtain ⟨rank, rfl⟩ := hget
      left
      exact ⟨rank, rfl, by simp [metadataQuery, hitems, IsGetMeta]⟩
    · right
      refine ⟨fun rank h => hget ⟨rank, Option.some.inj h⟩, ?_⟩
      unfold metadataQuery
      rw [hitems]
      match xs with
      | [] => rfl
      | [_] => rfl
      | _ :: _ :: _ :: _ => rfl
      | [command, rank] =>
        have hcommand : ¬ IsGetMeta command := by
          intro h
          cases command with
          | bytes b => exact hget ⟨rank, by rw [show b = getMetaMsg from h]⟩
          | _ => exact h
        exact if_neg hcommand

theorem metadata?_eq_some_iff {payload metadata : Bytes} :
    metadata? decode encodedData payload = some metadata ↔
      ∃ query rank, decode payload = .ok query ∧
        items? query = some [.bytes getMetaMsg, .int rank] ∧
        encodedData.get? rank = some metadata := by
  constructor
  · intro h
    unfold metadata? at h
    split at h
    · rename_i query hquery
      split at h
      · rename_i command rank hitems
        split at h
        · rename_i hcommand
          exact ⟨query, rank, hquery, hcommand ▸ hitems, h⟩
        · cases h
      · cases h
    · cases h
  · rintro ⟨query, rank, hquery, hitems, hmetadata⟩
    simp [metadata?, hquery, hitems, hmetadata]

theorem payloadRank_cases (payload : Bytes) :
    (∃ rank metadata, payloadRank decode encodedData payload = .ok (rank, metadata) ∧
      metadata? decode encodedData payload = some metadata) ∨
    (metadata? decode encodedData payload = .none ∧
      ((∃ msg, payloadRank decode encodedData payload = .error (.valueError msg)) ∨
        ∃ e, decode payload = .error e ∧ payloadRank decode encodedData payload = .error e)) := by
  rcases hdecode : decode payload with e | query
  · right
    exact ⟨by simp [metadata?, hdecode], .inr ⟨e, rfl, by simp [payloadRank, hdecode, bind,
      Except.bind]⟩⟩
  · have hnone : (∀ rank metadata, items? query = some [.bytes getMetaMsg, .int rank] →
        encodedData.get? rank ≠ some metadata) → metadata? decode encodedData payload = .none := by
      intro h
      refine Option.eq_none_iff_forall_ne_some.mpr fun metadata hmetadata => ?_
      obtain ⟨query', rank, hquery', hitems, hget⟩ := metadata?_eq_some_iff.mp hmetadata
      obtain rfl := Except.ok.inj (hdecode.symm.trans hquery')
      exact h rank metadata hitems hget
    rcases metadataQuery_cases query with ⟨value, hitems, hquery⟩ | ⟨hitems, hquery⟩
    · have hpayload : payloadRank decode encodedData payload = availableRank encodedData value := by
        simp only [payloadRank, hdecode, hquery, bind, Except.bind]
      rw [hpayload]
      cases value with
      | int rank =>
        rcases hget : encodedData.get? rank with _ | metadata
        · right
          have herror : availableRank encodedData (.int rank) =
              .error (.valueError "unavailable metadata rank") := by
            simp only [availableRank, hget]
          refine ⟨hnone fun rank' metadata h => ?_, .inl ⟨_, herror⟩⟩
          obtain rfl : rank = rank' := by simpa [hitems] using h
          simp [hget]
        · left
          exact ⟨rank, metadata, by simp only [availableRank, hget],
            metadata?_eq_some_iff.mpr ⟨query, rank, hdecode, hitems, hget⟩⟩
      | _ =>
        right
        refine ⟨hnone fun rank' metadata h => ?_, .inl ⟨_, rfl⟩⟩
        simp [hitems] at h
    · right
      refine ⟨hnone fun rank metadata h => absurd h (hitems _),
        .inl ⟨"invalid metadata request", ?_⟩⟩
      simp only [payloadRank, hdecode, hquery, bind, Except.bind]

theorem answer?_of_envelope {frames : Message} (h : Normal frames ∨ Correlated frames) :
    answer? decode encodedData frames =
      (metadata? decode encodedData (frames.getLastD [])).map fun metadata =>
        frames.dropLast ++ [metadata] := by
  match frames with
  | [] | [_] | [_, _] | _ :: _ :: _ :: _ :: _ :: _ => simp [Normal, Correlated] at h
  | [identity, delimiter, payload] =>
    obtain rfl : delimiter = [] := by simpa [Normal, Correlated] using h
    rfl
  | [identity, id, delimiter, payload] =>
    obtain ⟨hid, rfl⟩ : id.length = 4 ∧ delimiter = [] := by simpa [Normal, Correlated] using h
    cases id with
    | nil => exact absurd hid (by decide)
    | cons b id => exact if_pos hid

theorem answer?_of_not_envelope {frames : Message} (h : ¬ (Normal frames ∨ Correlated frames)) :
    answer? decode encodedData frames = .none := by
  unfold answer?
  split
  · simp [Normal, Correlated] at h
  · split
    · rename_i hid
      simp [Normal, Correlated, hid] at h
    · rfl
  · rfl

theorem onMessage_answers (encodedData : Dict Int Bytes) (l : Listener) {frames : Message}
    (hdecodes : Normal frames ∨ Correlated frames → Decodes decode (frames.getLastD [])) :
    ∃ l', onMessage decode encodedData l frames = .ok l' ∧
      l'.sent = l.sent ++ (answer? decode encodedData frames).toList := by
  by_cases henvelope : Normal frames ∨ Correlated frames
  · have hprobe : ¬ (frames.length = 2 ∧ frames[1]? = some []) := by
      rintro ⟨hlength, -⟩
      rcases henvelope with h | h
      · exact absurd (hlength.symm.trans h.1) (by decide)
      · exact absurd (hlength.symm.trans h.1) (by decide)
    have htarget : targetTpRank decode encodedData frames =
        payloadRank decode encodedData (frames.getLastD []) := if_neg (not_not.mpr henvelope)
    rw [answer?_of_envelope henvelope]
    unfold onMessage
    rw [if_neg hprobe, htarget]
    rcases payloadRank_cases (frames.getLastD []) with
      ⟨rank, metadata, hok, hmetadata⟩ | ⟨hmetadata, ⟨msg, herror⟩ | ⟨e, hdecode, herror⟩⟩
    · rw [hok, hmetadata]
      exact ⟨_, rfl, rfl⟩
    · rw [herror, hmetadata]
      exact ⟨_, rfl, (List.append_nil _).symm⟩
    · obtain ⟨htype, hrecursion⟩ := hdecodes henvelope
      rw [herror, hmetadata]
      cases e with
      | valueError msg => exact ⟨_, rfl, (List.append_nil _).symm⟩
      | decodeError => exact ⟨_, rfl, (List.append_nil _).symm⟩
      | typeError => exact absurd hdecode htype
      | recursionError => exact absurd hdecode hrecursion
  · rw [answer?_of_not_envelope henvelope]
    unfold onMessage
    split
    · exact ⟨l, rfl, (List.append_nil _).symm⟩
    · rw [targetTpRank, if_pos henvelope]
      exact ⟨_, rfl, (List.append_nil _).symm⟩

theorem run_answers_from (l : Listener) (received : List (Option Message))
    (hdecodes : ∀ frames, some frames ∈ received → Normal frames ∨ Correlated frames →
      Decodes decode (frames.getLastD [])) :
    ∃ l', run decode encodedData l received = some l' ∧
      l'.sent = l.sent ++ received.reduceOption.filterMap (answer? decode encodedData) := by
  induction received generalizing l with
  | nil => exact ⟨l, rfl, (List.append_nil _).symm⟩
  | cons r rest ih =>
    have hrest : ∀ frames, some frames ∈ rest → Normal frames ∨ Correlated frames →
        Decodes decode (frames.getLastD []) := fun frames h =>
      hdecodes frames (List.mem_cons_of_mem _ h)
    cases r with
    | none =>
      obtain ⟨l', hrun, hsent⟩ := ih l hrest
      exact ⟨l', hrun, hsent⟩
    | some frames =>
      obtain ⟨l₁, hpass, hsent₁⟩ :=
        onMessage_answers encodedData l (hdecodes frames List.mem_cons_self)
      obtain ⟨l', hrun, hsent⟩ := ih l₁ hrest
      have hstep : (pass decode encodedData l (some frames)).toOption = some l₁ := by
        rw [pass, hpass]
        rfl
      refine ⟨l', (Machine.exec_cons_eq_some _).mpr ⟨l₁, hstep, hrun⟩, ?_⟩
      rw [hsent, hsent₁, List.append_assoc, List.reduceOption_cons_of_some]
      rcases hanswer : answer? decode encodedData frames with _ | reply
      · rw [List.filterMap_cons_none hanswer]
        rfl
      · rw [List.filterMap_cons_some hanswer]
        rfl

/-- As long as the decoder raises only what the listener handles, no message ends the listener,
and what it sends are the answers due, in the order of the messages. -/
theorem listener_answers_requests (decode : Bytes → Except HandshakeError Value)
    (encodedData : Dict Int Bytes) (received : List (Option Message))
    (hdecodes : ∀ frames, some frames ∈ received → Normal frames ∨ Correlated frames →
      Decodes decode (frames.getLastD [])) :
    ∃ l, run decode encodedData {} received = some l ∧
      l.sent = received.reduceOption.filterMap (answer? decode encodedData) := by
  obtain ⟨l, hrun, hsent⟩ := run_answers_from {} received hdecodes
  exact ⟨l, hrun, hsent⟩

/-- A malformed payload, a probe and a correlated request: only the request is answered. -/
theorem listener_answers_requests_correlated :
    ∃ l, run (fun b => if b = [2] then .ok (.list [.bytes getMetaMsg, .int 0])
          else .error .decodeError) (Dict.empty.insert 0 [7]) {}
        [some [[1], [], [193]], none, some [[1], []], some [[1], [0, 0, 0, 9], [], [2]]] = some l ∧
      l.sent = [[[1], [0, 0, 0, 9], [], [7]]] := by
  refine listener_answers_requests (fun b => if b = [2] then .ok (.list [.bytes getMetaMsg, .int 0])
    else .error .decodeError) (Dict.empty.insert 0 [7]) _ ?_
  intro frames _ _
  simp only [Decodes]
  split <;> exact ⟨nofun, nofun⟩

/-- A map with an empty map as its key, `{{}: None}`: the decoder raises a `TypeError`, which ends
the listener, and the valid request after it gets no answer. -/
theorem unhashable_key_ends_listener :
    let decode : Bytes → Except HandshakeError Value := fun b =>
      if b = [129, 128, 192] then .error .typeError else .ok (.list [.bytes getMetaMsg, .int 0])
    let encodedData : Dict Int Bytes := Dict.empty.insert 0 [7]
    answer? decode encodedData [[2], [], [0]] = some [[2], [], [7]] ∧
      run decode encodedData {} [some [[1], [], [129, 128, 192]]] = none ∧
      run decode encodedData {} [some [[1], [], [129, 128, 192]], some [[2], [], [0]]] = none :=
  ⟨rfl, rfl, rfl⟩

end Replies

end Handshake

end EldrServing.Nixl
