import EldrServing.Engine.StopSearch

/-!
# Streamed deltas

After each `update` a delta of the text is taken, the last one with the whole text. A stop string
can begin in text of earlier updates; the characters held back are enough that the text is never
cut before what was already sent.
-/

namespace EldrServing.Engine.IncrementalDetokenizer

set_option autoImplicit false

variable {σ : Type}

/-- The tokens that an `update` decodes: not the stop token that ends a request, unless stop
strings are part of the output. -/
def decodedTokens (params : SamplingParams) (call : List TokenId × Bool) : List TokenId :=
  if call.2 = true ∧ params.includeStopStrInOutput = false then call.1.dropLast else call.1

/-- One `update` after the other, each with its delta, until a stop string is matched, the request
is terminated by a stop token, or the tokens end: the deltas and the stop string. -/
def stream (D : TokenDecoder σ) (d : IncrementalDetokenizer σ) :
    List (List TokenId × Bool) → IncrementalDetokenizer σ × List Text × Option Text
  | [] => (d, [], none)
  | call :: rest =>
    let updated := d.update D call.1 call.2
    if updated.2.isSome ∨ call.2 = true ∨ rest = [] then
      let shown := updated.1.getNextOutputText true true
      (shown.1, [shown.2], updated.2)
    else
      let shown := updated.1.getNextOutputText false true
      let later := stream D shown.1 rest
      (later.1, shown.2 :: later.2.1, later.2.2)

/-! ### One update -/

/-- What `update` does to the text: it adds the decoded text, and cuts it at an occurrence of a
stop string that ends after the old text. -/
structure Updates (D : TokenDecoder σ) (d : IncrementalDetokenizer σ) (ts : List TokenId)
    (r : IncrementalDetokenizer σ × Option Text) : Prop where
  config : r.1.params = d.params
  buffer : r.1.stopBufferLength = d.stopBufferLength
  offset : r.1.lastOutputTextOffset = d.lastOutputTextOffset
  goes : r.2 = none → r.1.outputText = d.outputText ++ textOf D d.decodeState ts ∧
    r.1.decodeState = stateOf D d.decodeState ts
  stops : ∀ s, r.2 = some s → s ∈ d.params.stop ∧ ∃ i,
    OccursAt s (d.outputText ++ textOf D d.decodeState ts) i ∧
    d.outputText.length < i + s.length ∧
    r.1.outputText = (d.outputText ++ textOf D d.decodeState ts).take (cutLength d.params (s, i))

section Update

variable {D : TokenDecoder σ} {d : IncrementalDetokenizer σ}

theorem pushAll_stopBufferLength (ts : List TokenId) :
    (pushAll D d ts).stopBufferLength = d.stopBufferLength := by
  induction ts generalizing d with
  | nil => rfl
  | cons t ts ih => exact ih

theorem pushAll_lastOutputTextOffset (ts : List TokenId) :
    (pushAll D d ts).lastOutputTextOffset = d.lastOutputTextOffset := by
  induction ts generalizing d with
  | nil => rfl
  | cons t ts ih => exact ih

theorem evaluateStop_updates (ts tokenIds : List TokenId) {off : Nat}
    (hoff : d.outputText.length ≤ off) :
    Updates D d ts ({ pushAll D d ts with tokenIds }.evaluateStop off) := by
  rw [evaluateStop_eq]
  simp only [pushAll_params, pushAll_outputText]
  split
  · rcases hfirst : firstFound (d.outputText ++ textOf D d.decodeState ts) off d.params.stop with
      _ | ⟨s, i⟩
    · exact ⟨rfl, pushAll_stopBufferLength ts, pushAll_lastOutputTextOffset ts,
        fun _ => ⟨rfl, pushAll_decodeState ts⟩, fun s h => by cases h⟩
    · obtain ⟨hs, hfound⟩ := firstFound_eq_some hfirst
      obtain ⟨hocc, hend, -⟩ := found_eq_some (d.params.stop_ne_nil s hs) hfound
      refine ⟨rfl, pushAll_stopBufferLength ts, pushAll_lastOutputTextOffset ts,
        fun h => (by cases h), fun s' h => ?_⟩
      obtain rfl : s = s' := Option.some.inj h
      exact ⟨hs, i, hocc, by omega, rfl⟩
  · exact ⟨rfl, pushAll_stopBufferLength ts, pushAll_lastOutputTextOffset ts,
      fun _ => ⟨rfl, pushAll_decodeState ts⟩, fun s h => by cases h⟩

theorem update_updates (D : TokenDecoder σ) (d : IncrementalDetokenizer σ)
    (call : List TokenId × Bool) :
    Updates D d (decodedTokens d.params call) (d.update D call.1 call.2) := by
  have hoff : ∀ ts, d.outputText.length ≤ (decodeLoop D ts d d.outputText.length).2 := by
    intro ts
    rw [decodeLoop_snd, pushAll_outputText, List.length_append]
    exact Nat.le_add_right _ _
  obtain ⟨ts, b⟩ := call
  unfold update decodedTokens
  by_cases hts : ts = []
  · subst hts
    simp only [if_true, List.dropLast_nil, ite_self]
    exact ⟨rfl, rfl, rfl, fun _ => ⟨(List.append_nil _).symm, rfl⟩, fun s h => by cases h⟩
  · simp only [if_neg hts]
    split
    · rw [decodeLoop_fst]
      exact evaluateStop_updates _ _ (hoff _)
    · rw [decodeLoop_fst]
      exact evaluateStop_updates ts _ (hoff _)

end Update

/-! ### Whole streams -/

/-- The detokenizer of a stream that goes on: `fed` was decoded and `emitted` was sent, which are
the first characters of the text without those held back. -/
structure Streams (D : TokenDecoder σ) (prompt : List TokenId) (params : SamplingParams)
    (fed : List TokenId) (emitted : Text) (d : IncrementalDetokenizer σ) : Prop where
  config : d.params = params
  buffer : d.stopBufferLength = (fromNewRequest D prompt params).stopBufferLength
  text : d.outputText = textOf D (D.init prompt) fed
  state : d.decodeState = stateOf D (D.init prompt) fed
  sent : emitted = d.outputText.take d.lastOutputTextOffset
  held : d.lastOutputTextOffset ≤ d.outputText.length - d.stopBufferLength

section Stream

variable {D : TokenDecoder σ} {prompt : List TokenId} {params : SamplingParams}
  {fed : List TokenId} {emitted : Text} {d : IncrementalDetokenizer σ}

theorem Streams.start (D : TokenDecoder σ) (prompt : List TokenId) (params : SamplingParams) :
    Streams D prompt params [] [] (fromNewRequest D prompt params) :=
  ⟨rfl, rfl, rfl, rfl, rfl, Nat.zero_le _⟩

theorem le_foldr_max {n : Nat} {ns : List Nat} (h : n ∈ ns) : n ≤ ns.foldr max 0 := by
  induction ns with
  | nil => cases h
  | cons m ns ih =>
    rw [List.foldr_cons]
    rcases List.mem_cons.mp h with rfl | h
    · exact Nat.le_max_left _ _
    · exact Nat.le_trans (ih h) (Nat.le_max_right _ _)

theorem length_le_stopBufferLength {s : Text} (hs : s ∈ params.stop)
    (hincl : params.includeStopStrInOutput = false) :
    s.length ≤ (fromNewRequest D prompt params).stopBufferLength + 1 := by
  have hne : params.stop ≠ [] := List.ne_nil_of_mem hs
  have hle := le_foldr_max (List.mem_map_of_mem (f := List.length) hs)
  simp only [fromNewRequest, if_pos (And.intro hne hincl)]
  omega

theorem Streams.sent_le_cut (h : Streams D prompt params fed emitted d) {s : Text}
    (hs : s ∈ params.stop) {i : Nat} (hend : d.outputText.length < i + s.length) :
    d.lastOutputTextOffset ≤ cutLength params (s, i) := by
  have hheld := h.held
  rw [h.buffer] at hheld
  unfold cutLength
  split
  · simp only
    omega
  · rename_i hincl
    have hlength : s.length ≤ (fromNewRequest D prompt params).stopBufferLength + 1 :=
      length_le_stopBufferLength hs (Bool.eq_false_iff.mpr hincl)
    simp only
    omega

theorem getNextOutputText_delta (d : IncrementalDetokenizer σ) (finished : Bool) :
    (d.getNextOutputText finished true).1.outputText = d.outputText ∧
      (d.getNextOutputText finished true).1.params = d.params ∧
      (d.getNextOutputText finished true).1.stopBufferLength = d.stopBufferLength ∧
      (d.getNextOutputText finished true).1.decodeState = d.decodeState ∧
      (d.getNextOutputText finished true).1.lastOutputTextOffset =
        max d.lastOutputTextOffset (d.shownLength finished) ∧
      d.outputText.take d.lastOutputTextOffset ++ (d.getNextOutputText finished true).2 =
        d.outputText.take (max d.lastOutputTextOffset (d.shownLength finished)) := by
  simp only [getNextOutputText, Bool.true_eq_false, if_false]
  split
  · rename_i hlt
    rw [Nat.max_eq_right (Nat.le_of_lt hlt)]
    refine ⟨rfl, rfl, rfl, rfl, rfl, ?_⟩
    have htake := List.take_append_drop d.lastOutputTextOffset
      (d.outputText.take (d.shownLength finished))
    rwa [List.take_take, Nat.min_eq_left (Nat.le_of_lt hlt)] at htake
  · rename_i hle
    rw [Nat.max_eq_left (Nat.le_of_not_lt hle)]
    exact ⟨rfl, rfl, rfl, rfl, rfl, List.append_nil _⟩

theorem Streams.step (h : Streams D prompt params fed emitted d) (call : List TokenId × Bool)
    (hgoes : (d.update D call.1 call.2).2 = none) :
    Streams D prompt params (fed ++ decodedTokens params call)
      (emitted ++ ((d.update D call.1 call.2).1.getNextOutputText false true).2)
      ((d.update D call.1 call.2).1.getNextOutputText false true).1 := by
  have hupdate := update_updates D d call
  obtain ⟨htext, hstate⟩ := hupdate.goes hgoes
  rw [h.config] at htext hstate
  obtain ⟨hout, hparams, hbuffer, hdecode, hoffset, hdelta⟩ :=
    getNextOutputText_delta (d.update D call.1 call.2).1 false
  have htake : emitted = (d.update D call.1 call.2).1.outputText.take
      (d.update D call.1 call.2).1.lastOutputTextOffset := by
    have hle : d.lastOutputTextOffset ≤ d.outputText.length := Nat.le_trans h.held (Nat.sub_le _ _)
    rw [htext, hupdate.offset, List.take_append_of_le_length hle]
    exact h.sent
  refine ⟨?_, ?_, ?_, ?_, ?_, ?_⟩
  · rw [hparams, hupdate.config, h.config]
  · rw [hbuffer, hupdate.buffer, h.buffer]
  · rw [hout, htext, h.text, h.state, textOf_append]
  · rw [hdecode, hstate, h.state]
    exact List.foldl_append.symm
  · rw [hout, hoffset, ← hdelta, ← htake]
  · have hlength : d.outputText.length ≤ (d.update D call.1 call.2).1.outputText.length := by
      rw [htext, List.length_append]
      omega
    have hheld := h.held
    rw [hout, hoffset, hbuffer, hupdate.offset, hupdate.buffer]
    simp only [shownLength, hupdate.buffer, Bool.false_eq_true, if_false]
    omega

/-- The text at the end of a stream: all that was decoded, or cut at an occurrence of the stop
string, which is left out or included. -/
def EndsAt (params : SamplingParams) (decoded text : Text) : Option Text → Prop
  | none => text = decoded
  | some s => s ∈ params.stop ∧ ∃ i, OccursAt s decoded i ∧
      text = decoded.take (if params.includeStopStrInOutput then i + s.length else i)

theorem Streams.finish (h : Streams D prompt params fed emitted d) (call : List TokenId × Bool) :
    emitted ++ ((d.update D call.1 call.2).1.getNextOutputText true true).2 =
        ((d.update D call.1 call.2).1.getNextOutputText true true).1.outputText ∧
      EndsAt params (textOf D (D.init prompt) (fed ++ decodedTokens params call))
        ((d.update D call.1 call.2).1.getNextOutputText true true).1.outputText
        (d.update D call.1 call.2).2 := by
  have hupdate := update_updates D d call
  rw [h.config] at hupdate
  obtain ⟨hout, -, -, -, -, hdelta⟩ := getNextOutputText_delta (d.update D call.1 call.2).1 true
  have hle : d.lastOutputTextOffset ≤ d.outputText.length := Nat.le_trans h.held (Nat.sub_le _ _)
  have hdecoded : textOf D (D.init prompt) (fed ++ decodedTokens params call) =
      d.outputText ++ textOf D d.decodeState (decodedTokens params call) := by
    rw [textOf_append, h.text, h.state]
  rw [hout, hdecoded]
  -- the whole text is shown, and the text that was sent is a prefix of it
  suffices hends : EndsAt params (d.outputText ++ textOf D d.decodeState (decodedTokens params call))
        (d.update D call.1 call.2).1.outputText (d.update D call.1 call.2).2 ∧
      emitted = (d.update D call.1 call.2).1.outputText.take d.lastOutputTextOffset by
    refine ⟨?_, hends.1⟩
    rw [hends.2, ← hupdate.offset, hdelta]
    exact List.take_of_length_le (Nat.le_max_right _ _)
  rcases hmatched : (d.update D call.1 call.2).2 with _ | s
  · obtain ⟨htext, -⟩ := hupdate.goes hmatched
    refine ⟨htext, ?_⟩
    rw [htext, List.take_append_of_le_length hle]
    exact h.sent
  · obtain ⟨hs, i, hocc, hend, htext⟩ := hupdate.stops s hmatched
    rw [h.config] at hs htext
    refine ⟨⟨hs, i, hocc, htext⟩, ?_⟩
    rw [htext, List.take_take, Nat.min_eq_left (h.sent_le_cut hs hend),
      List.take_append_of_le_length hle]
    exact h.sent

theorem stream_ends (h : Streams D prompt params fed emitted d)
    {calls : List (List TokenId × Bool)} (hcalls : calls ≠ []) :
    emitted ++ (stream D d calls).2.1.flatten = (stream D d calls).1.outputText ∧
      EndsAt params (textOf D (D.init prompt)
        (fed ++ (calls.take (stream D d calls).2.1.length).flatMap (decodedTokens params)))
        (stream D d calls).1.outputText (stream D d calls).2.2 := by
  induction calls generalizing fed emitted d with
  | nil => exact absurd rfl hcalls
  | cons call rest ih =>
    by_cases hlast : (d.update D call.1 call.2).2.isSome ∨ call.2 = true ∨ rest = []
    · obtain ⟨hflatten, hends⟩ := h.finish call
      rw [stream, if_pos hlast]
      exact ⟨by simpa using hflatten, by simpa using hends⟩
    · have hgoes : (d.update D call.1 call.2).2 = none :=
        Option.not_isSome_iff_eq_none.mp fun hsome => hlast (.inl hsome)
      have hrest : rest ≠ [] := fun hnil => hlast (.inr (.inr hnil))
      obtain ⟨hflatten, hends⟩ := ih (h.step call hgoes) hrest
      rw [stream, if_neg hlast]
      exact ⟨by simpa using hflatten, by simpa using hends⟩

/-- Streamed text is never taken back: what was sent is a prefix of the final text, the deltas
concatenate to it, and it ends at an occurrence of the matched stop string in the text of the
calls, one for each delta. -/
theorem stream_deltas_concat (D : TokenDecoder σ) (prompt : List TokenId) (params : SamplingParams)
    (calls : List (List TokenId × Bool)) :
    let r := stream D (fromNewRequest D prompt params) calls
    (∀ k, (r.2.1.take k).flatten <+: r.1.outputText) ∧
      r.2.1.flatten = r.1.outputText ∧
      EndsAt params (textOf D (D.init prompt)
        ((calls.take r.2.1.length).flatMap (decodedTokens params))) r.1.outputText r.2.2 := by
  intro r
  have hconcat : r.2.1.flatten = r.1.outputText ∧ EndsAt params (textOf D (D.init prompt)
      ((calls.take r.2.1.length).flatMap (decodedTokens params))) r.1.outputText r.2.2 := by
    rcases eq_or_ne calls [] with rfl | hcalls
    · exact ⟨rfl, rfl⟩
    · exact stream_ends (Streams.start D prompt params) hcalls
  refine ⟨fun k => ?_, hconcat⟩
  rw [← hconcat.1]
  exact ⟨(r.2.1.drop k).flatten, by rw [← List.flatten_append, List.take_append_drop]⟩

end Stream

end EldrServing.Engine.IncrementalDetokenizer
