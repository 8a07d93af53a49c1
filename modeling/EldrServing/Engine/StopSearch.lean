import EldrServing.Engine.Detokenizer

/-!
# The search for stop strings

What `update` finds in the text: of each stop string the first occurrence that ends in the part of
the text that was not checked before. The result of a chunk of tokens is compared with that of its
tokens fed one at a time.
-/

namespace EldrServing.Engine

set_option autoImplicit false

/-! ### Occurrences -/

def OccursAt (sub text : Text) (i : Nat) : Prop := sub <+: text.drop i

section Occurrences

variable {sub text more : Text} {i off : Nat}

theorem OccursAt.end_le (h : OccursAt sub text i) (hsub : sub ≠ []) :
    i + sub.length ≤ text.length := by
  have hlength := h.length_le
  have hpos := List.length_pos_iff.mpr hsub
  rw [List.length_drop] at hlength
  omega

theorem occursAt_append_iff (hsub : sub ≠ []) :
    OccursAt sub text i ↔ OccursAt sub (text ++ more) i ∧ i + sub.length ≤ text.length := by
  constructor
  · intro h
    have hle := h.end_le hsub
    refine ⟨?_, hle⟩
    rw [OccursAt, List.drop_append_of_le_length (by omega)]
    exact h.trans (List.prefix_append _ _)
  · rintro ⟨h, hle⟩
    rw [OccursAt, List.drop_append_of_le_length (by omega)] at h
    exact List.prefix_of_prefix_length_le h (List.prefix_append _ _) (by
      rw [List.length_drop]
      omega)

theorem findFrom_eq_some {k : Nat} (h : findFrom sub text k = some i) :
    ∃ j, i = k + j ∧ OccursAt sub text j ∧ ∀ j' < j, ¬ OccursAt sub text j' := by
  induction text generalizing k with
  | nil =>
    rw [findFrom] at h
    split at h
    · rename_i hsub
      cases h
      exact ⟨0, rfl, by simp [OccursAt, hsub], fun j' hj' => absurd hj' (Nat.not_lt_zero _)⟩
    · cases h
  | cons c text ih =>
    rw [findFrom] at h
    split at h
    · rename_i hpre
      cases h
      exact ⟨0, rfl, List.isPrefixOf_iff_prefix.mp hpre,
        fun j' hj' => absurd hj' (Nat.not_lt_zero _)⟩
    · rename_i hpre
      obtain ⟨j, rfl, hocc, hfirst⟩ := ih h
      refine ⟨j + 1, by omega, hocc, fun j' hj' => ?_⟩
      cases j' with
      | zero => exact fun hz => hpre (List.isPrefixOf_iff_prefix.mpr hz)
      | succ j' => exact hfirst j' (by omega)

theorem findFrom_eq_none {k : Nat} (h : findFrom sub text k = none) (j : Nat) :
    ¬ OccursAt sub text j := by
  induction text generalizing k j with
  | nil =>
    rw [findFrom] at h
    split at h
    · cases h
    · rename_i hsub
      simpa [OccursAt] using hsub
  | cons c text ih =>
    rw [findFrom] at h
    split at h
    · cases h
    · rename_i hpre
      cases j with
      | zero => exact fun hz => hpre (List.isPrefixOf_iff_prefix.mpr hz)
      | succ j => exact ih h j

/-- The first occurrence that ends after `off`. -/
def found (text : Text) (off : Nat) (sub : Text) : Option Nat :=
  findFrom sub (text.drop (off + 1 - sub.length)) (off + 1 - sub.length)

theorem found_eq_some (hsub : sub ≠ []) (h : found text off sub = some i) :
    OccursAt sub text i ∧ off < i + sub.length ∧
      ∀ j, OccursAt sub text j → off < j + sub.length → i ≤ j := by
  have hpos := List.length_pos_iff.mpr hsub
  obtain ⟨j, rfl, hocc, hfirst⟩ := findFrom_eq_some h
  rw [OccursAt, List.drop_drop] at hocc
  refine ⟨hocc, by omega, fun j' hocc' hj' => ?_⟩
  by_contra hlt
  obtain ⟨m, rfl⟩ : ∃ m, j' = off + 1 - sub.length + m := ⟨j' - (off + 1 - sub.length), by omega⟩
  refine hfirst m (by omega) ?_
  rw [OccursAt, List.drop_drop]
  exact hocc'

theorem found_eq_none (hsub : sub ≠ []) (h : found text off sub = none) {j : Nat}
    (hocc : OccursAt sub text j) : j + sub.length ≤ off := by
  have hpos := List.length_pos_iff.mpr hsub
  by_contra hlt
  obtain ⟨m, rfl⟩ : ∃ m, j = off + 1 - sub.length + m := ⟨j - (off + 1 - sub.length), by omega⟩
  refine findFrom_eq_none h m ?_
  rw [OccursAt, List.drop_drop]
  exact hocc

theorem found_unique (hsub : sub ≠ []) (hocc : OccursAt sub text i) (hlt : off < i + sub.length)
    (hfirst : ∀ j, OccursAt sub text j → off < j + sub.length → i ≤ j) :
    found text off sub = some i := by
  rcases h : found text off sub with _ | k
  · exact absurd (found_eq_none hsub h hocc) (by omega)
  · obtain ⟨hocc', hlt', hfirst'⟩ := found_eq_some hsub h
    have h₁ := hfirst k hocc' hlt'
    have h₂ := hfirst' i hocc hlt
    congr 1
    omega

theorem found_length (hsub : sub ≠ []) (h : text.length ≤ off) : found text off sub = none := by
  rcases hfound : found text off sub with _ | i
  · rfl
  · obtain ⟨hocc, hlt, -⟩ := found_eq_some hsub hfound
    have := hocc.end_le hsub
    omega

theorem found_append_of_some (hsub : sub ≠ []) (h : found text off sub = some i) :
    found (text ++ more) off sub = some i := by
  obtain ⟨hocc, hlt, hfirst⟩ := found_eq_some hsub h
  have hend := hocc.end_le hsub
  refine found_unique hsub ((occursAt_append_iff hsub).mp hocc).1 hlt fun j hj hj' => ?_
  by_contra hij
  exact hij (hfirst j ((occursAt_append_iff hsub).mpr ⟨hj, by omega⟩) hj')

theorem found_append_of_none (hsub : sub ≠ []) (hoff : off ≤ text.length)
    (h : found text off sub = none) :
    found (text ++ more) off sub = found (text ++ more) text.length sub := by
  have hiff : ∀ j, OccursAt sub (text ++ more) j →
      (off < j + sub.length ↔ text.length < j + sub.length) := by
    intro j hj
    refine ⟨fun hlt => ?_, fun hlt => by omega⟩
    by_contra hle
    have := found_eq_none hsub h ((occursAt_append_iff hsub).mpr ⟨hj, by omega⟩)
    omega
  rcases hfound : found (text ++ more) text.length sub with _ | i
  · rcases hfound' : found (text ++ more) off sub with _ | i
    · rfl
    · obtain ⟨hocc, hlt, -⟩ := found_eq_some hsub hfound'
      have := found_eq_none hsub hfound hocc
      have := (hiff i hocc).mp hlt
      omega
  · obtain ⟨hocc, hlt, hfirst⟩ := found_eq_some hsub hfound
    exact found_unique hsub hocc ((hiff i hocc).mpr hlt) fun j hj hj' =>
      hfirst j hj ((hiff j hj).mp hj')

theorem pyFind_eq_found (hsub : sub ≠ []) (hoff : off < text.length) :
    pyFind text sub (1 - ((text.length - off : Nat) : Int) - sub.length) =
      found text off sub := by
  have hpos := List.length_pos_iff.mpr hsub
  have hneg : (1 : Int) - ((text.length - off : Nat) : Int) - sub.length < 0 := by omega
  have hstart : ((1 : Int) - ((text.length - off : Nat) : Int) - sub.length + text.length).toNat =
      off + 1 - sub.length := by omega
  simp only [pyFind, if_pos hneg, hstart, found]
  rw [if_pos (by omega)]

end Occurrences

/-! ### One check -/

def firstFound (text : Text) (off : Nat) (stop : List Text) : Option (Text × Nat) :=
  stop.findSome? fun s => (found text off s).map fun i => (s, i)

def cutLength (params : SamplingParams) (occurrence : Text × Nat) : Nat :=
  if params.includeStopStrInOutput then occurrence.2 + occurrence.1.length else occurrence.2

variable {stop : List Text} {s : Text}

theorem firstFound_eq_some {text : Text} {off : Nat} {i : Nat}
    (h : firstFound text off stop = some (s, i)) : s ∈ stop ∧ found text off s = some i := by
  obtain ⟨s', hmem, hsome⟩ := List.exists_of_findSome?_eq_some h
  obtain ⟨i', hfound, hpair⟩ := Option.map_eq_some_iff.mp hsome
  obtain ⟨rfl, rfl⟩ := Prod.mk.inj hpair
  exact ⟨hmem, hfound⟩

theorem firstFound_eq_none {text : Text} {off : Nat}
    (h : firstFound text off stop = none) (hs : s ∈ stop) :
    found text off s = none := by
  have := List.findSome?_eq_none_iff.mp h s hs
  exact Option.map_eq_none_iff.mp this

theorem firstFound_congr {text text' : Text} {off off' : Nat}
    (h : ∀ s ∈ stop, found text off s = found text' off' s) :
    firstFound text off stop = firstFound text' off' stop := by
  induction stop with
  | nil => rfl
  | cons s stop ih =>
    simp only [firstFound, List.findSome?_cons, h s List.mem_cons_self]
    split
    · rfl
    · exact ih fun s' hs' => h s' (List.mem_cons_of_mem _ hs')

theorem checkStopStrings_eq {text : Text} {off : Nat} {incl : Bool} (hstop : ∀ s ∈ stop, s ≠ []) :
    checkStopStrings text (text.length - off) stop incl =
      (firstFound text off stop).map fun o => (o.1,
        if incl then if text.length ≤ o.2 + o.1.length then none else some (o.2 + o.1.length)
        else some o.2) := by
  unfold checkStopStrings firstFound
  split
  · rename_i hzero
    have hnone : stop.findSome? (fun s => (found text off s).map fun i => (s, i)) = none := by
      refine List.findSome?_eq_none_iff.mpr fun s hs => ?_
      rw [found_length (hstop s hs) (by omega)]
      rfl
    rw [hnone]
    rfl
  · rename_i hpos
    induction stop with
    | nil => rfl
    | cons s stop ih =>
      have hs := hstop s List.mem_cons_self
      simp only [List.findSome?_cons]
      rw [pyFind_eq_found hs (by omega)]
      rcases found text off s with _ | i
      · exact ih fun s' hs' => hstop s' (List.mem_cons_of_mem _ hs')
      · cases incl <;> rfl

namespace IncrementalDetokenizer

variable {σ : Type}

def cutText (d : IncrementalDetokenizer σ) (n : Nat) : IncrementalDetokenizer σ :=
  { d with outputText := d.outputText.take n }

theorem evaluateStop_eq (d : IncrementalDetokenizer σ) (off : Nat) :
    d.evaluateStop off =
      if d.params.minTokens < d.numOutputTokens then
        match firstFound d.outputText off d.params.stop with
        | none => (d, none)
        | some o => (d.cutText (cutLength d.params o), some o.1)
      else (d, none) := by
  unfold evaluateStop
  rw [checkStopStrings_eq d.params.stop_ne_nil]
  by_cases hmin : d.params.minTokens < d.numOutputTokens
  · rw [if_pos hmin]
    by_cases hstop : d.params.stop = []
    · rw [if_neg (fun h => h.1 hstop), hstop]
      rfl
    · rw [if_pos ⟨hstop, hmin⟩]
      rcases firstFound d.outputText off d.params.stop with _ | ⟨s, i⟩
      · rfl
      · by_cases hincl : d.params.includeStopStrInOutput = true
        · simp only [Option.map_some, hincl, if_true, cutLength, cutText]
          by_cases hend : d.outputText.length ≤ i + s.length
          · rw [if_pos hend, List.take_of_length_le hend]
          · rw [if_neg hend]
        · simp only [Option.map_some, hincl, cutLength]
          rfl
  · rw [if_neg hmin, if_neg fun h => hmin h.2]

/-! ### Decoding -/

def textOf (D : TokenDecoder σ) : σ → List TokenId → Text
  | _, [] => []
  | state, t :: ts => (D.decodeNext state t).2 ++ textOf D (D.decodeNext state t).1 ts

def stateOf (D : TokenDecoder σ) (state : σ) (ts : List TokenId) : σ :=
  ts.foldl (fun state t => (D.decodeNext state t).1) state

theorem textOf_append (D : TokenDecoder σ) (state : σ) (ts us : List TokenId) :
    textOf D state (ts ++ us) = textOf D state ts ++ textOf D (stateOf D state ts) us := by
  induction ts generalizing state with
  | nil => rfl
  | cons t ts ih =>
    rw [List.cons_append, textOf, textOf, ih, List.append_assoc]
    rfl

def pushAll (D : TokenDecoder σ) (d : IncrementalDetokenizer σ) (ts : List TokenId) :
    IncrementalDetokenizer σ :=
  ts.foldl (push D) d

variable {D : TokenDecoder σ} {d : IncrementalDetokenizer σ}

@[simp] theorem push_params (t : TokenId) : (d.push D t).params = d.params := rfl

@[simp] theorem push_numOutputTokens (t : TokenId) :
    (d.push D t).numOutputTokens = d.numOutputTokens + 1 := by
  simp [push, numOutputTokens]

theorem pushAll_append (ts us : List TokenId) :
    pushAll D d (ts ++ us) = pushAll D (pushAll D d ts) us :=
  List.foldl_append

theorem pushAll_params (ts : List TokenId) : (pushAll D d ts).params = d.params := by
  induction ts generalizing d with
  | nil => rfl
  | cons t ts ih => exact ih

theorem pushAll_numOutputTokens (ts : List TokenId) :
    (pushAll D d ts).numOutputTokens = d.numOutputTokens + ts.length := by
  induction ts generalizing d with
  | nil => rfl
  | cons t ts ih =>
    have := ih (d := d.push D t)
    rw [push_numOutputTokens] at this
    rw [List.length_cons]
    exact this.trans (by omega)

theorem pushAll_outputText (ts : List TokenId) :
    (pushAll D d ts).outputText = d.outputText ++ textOf D d.decodeState ts := by
  induction ts generalizing d with
  | nil => exact (List.append_nil _).symm
  | cons t ts ih =>
    have := ih (d := d.push D t)
    rw [textOf, ← List.append_assoc]
    exact this

theorem pushAll_decodeState (ts : List TokenId) :
    (pushAll D d ts).decodeState = stateOf D d.decodeState ts := by
  induction ts generalizing d with
  | nil => rfl
  | cons t ts ih => exact ih

theorem decodeLoop_fst (ts : List TokenId) (off : Nat) :
    (decodeLoop D ts d off).1 = pushAll D d ts := by
  induction ts generalizing d off with
  | nil => rfl
  | cons t ts ih => exact ih _

theorem decodeLoop_snd_of_le (h : d.params.minTokens ≤ d.numOutputTokens) (ts : List TokenId)
    (off : Nat) : (decodeLoop D ts d off).2 = off := by
  induction ts generalizing d off with
  | nil => rfl
  | cons t ts ih =>
    have hnot : ¬ ((d.push D t).params.minTokens ≠ 0 ∧
        (d.push D t).numOutputTokens ≤ (d.push D t).params.minTokens) := by
      rw [push_numOutputTokens, push_params]
      omega
    rw [decodeLoop, if_neg hnot]
    refine ih ?_ off
    rw [push_numOutputTokens, push_params]
    omega

/-- `stop_check_offset`: the text before the chunk and of the first `min_tokens` tokens is not
searched. -/
theorem decodeLoop_snd (ts : List TokenId) :
    (decodeLoop D ts d d.outputText.length).2 =
      (pushAll D d (ts.take (d.params.minTokens - d.numOutputTokens))).outputText.length := by
  induction ts generalizing d with
  | nil => rw [List.take_nil]; rfl
  | cons t ts ih =>
    by_cases hmin : d.params.minTokens ≤ d.numOutputTokens
    · rw [decodeLoop_snd_of_le hmin, Nat.sub_eq_zero_of_le hmin, List.take_zero]
      rfl
    · have hcond : (d.push D t).params.minTokens ≠ 0 ∧
          (d.push D t).numOutputTokens ≤ (d.push D t).params.minTokens := by
        rw [push_numOutputTokens, push_params]
        omega
      have htake : d.params.minTokens - d.numOutputTokens =
          d.params.minTokens - (d.numOutputTokens + 1) + 1 := by omega
      rw [decodeLoop, if_pos hcond, ih, push_params, push_numOutputTokens, htake,
        List.take_succ_cons]
      rfl

theorem update_eq (ts : List TokenId) (hts : ts ≠ []) :
    d.update D ts false = (pushAll D d ts).evaluateStop
      (pushAll D d (ts.take (d.params.minTokens - d.numOutputTokens))).outputText.length := by
  have hflag : ¬ (false = true ∧ d.params.includeStopStrInOutput = false) :=
    fun h => Bool.false_ne_true h.1
  simp only [update, if_neg hts, if_neg hflag]
  rw [decodeLoop_fst, decodeLoop_snd]

/-! ### Chunks and single tokens -/

def feed (D : TokenDecoder σ) (d : IncrementalDetokenizer σ) :
    List (List TokenId) → IncrementalDetokenizer σ × Option Text
  | [] => (d, none)
  | chunk :: chunks =>
    match d.update D chunk false with
    | (d, some stopString) => (d, some stopString)
    | (d, none) => feed D d chunks

theorem feed_append (as bs : List (List TokenId)) :
    feed D d (as ++ bs) =
      match feed D d as with
      | (d, some stopString) => (d, some stopString)
      | (d, none) => feed D d bs := by
  induction as generalizing d with
  | nil => rfl
  | cons chunk as ih =>
    simp only [List.cons_append, feed]
    rcases d.update D chunk false with ⟨d', _ | s⟩
    · exact ih
    · rfl

theorem feed_singleton (chunk : List TokenId) : feed D d [chunk] = d.update D chunk false := by
  rw [feed]
  rcases d.update D chunk false with ⟨d', _ | s⟩ <;> rfl

structure SameStop (r r' : IncrementalDetokenizer σ × Option Text) : Prop where
  matched : r.2 = r'.2
  text : r.1.outputText = r'.1.outputText
  state : r'.2 = none → r.1 = r'.1

theorem SameStop.refl (r : IncrementalDetokenizer σ × Option Text) : SameStop r r :=
  ⟨rfl, rfl, fun _ => rfl⟩

section Chunk

variable (D : TokenDecoder σ) (state : σ) (params : SamplingParams)

/-- The length of the text that is not searched for a chunk `c` after the tokens `ts`. -/
def uncheckedLength (ts c : List TokenId) : Nat :=
  (textOf D state (ts ++ c.take (params.minTokens - ts.length))).length

/-- An occurrence of `s` ends in the searched text of the first `k` tokens of the chunk. -/
def CompletedBy (ts c : List TokenId) (s : Text) (k : Nat) : Prop :=
  ∃ i, OccursAt s (textOf D state (ts ++ c.take k)) i ∧
    uncheckedLength D state params ts c < i + s.length

/-- The stop strings that a chunk completes are first completed by the same token of it. -/
def CompletedTogether (ts c : List TokenId) : Prop :=
  ∀ s ∈ params.stop, ∀ s' ∈ params.stop, CompletedBy D state params ts c s c.length →
    ∀ k, CompletedBy D state params ts c s' k → CompletedBy D state params ts c s k

end Chunk

section Single

variable {prompt : List TokenId} {params : SamplingParams}

theorem pushAll_fromNewRequest_text (ts : List TokenId) :
    (pushAll D (fromNewRequest D prompt params) ts).outputText = textOf D (D.init prompt) ts :=
  pushAll_outputText ts

theorem pushAll_fromNewRequest_numOutputTokens (ts : List TokenId) :
    (pushAll D (fromNewRequest D prompt params) ts).numOutputTokens = ts.length :=
  (pushAll_numOutputTokens ts).trans (Nat.zero_add _)

variable {c ts : List TokenId}

theorem update_pushAll (ts : List TokenId) (hc : c ≠ []) :
    (pushAll D (fromNewRequest D prompt params) ts).update D c false =
      (pushAll D (fromNewRequest D prompt params) (ts ++ c)).evaluateStop
        (uncheckedLength D (D.init prompt) params ts c) := by
  rw [update_eq c hc, ← pushAll_append, ← pushAll_append, pushAll_params,
    pushAll_fromNewRequest_numOutputTokens, pushAll_fromNewRequest_text]
  rfl

theorem evaluateStop_pushAll (ts : List TokenId) (off : Nat) :
    (pushAll D (fromNewRequest D prompt params) ts).evaluateStop off =
      if params.minTokens < ts.length then
        match firstFound (textOf D (D.init prompt) ts) off params.stop with
        | none => (pushAll D (fromNewRequest D prompt params) ts, none)
        | some o => ((pushAll D (fromNewRequest D prompt params) ts).cutText (cutLength params o),
            some o.1)
      else (pushAll D (fromNewRequest D prompt params) ts, none) := by
  rw [evaluateStop_eq, pushAll_params, pushAll_fromNewRequest_numOutputTokens,
    pushAll_fromNewRequest_text]
  rfl

theorem update_pushAll_of_none (ts : List TokenId) (hc : c ≠ [])
    (h : ((pushAll D (fromNewRequest D prompt params) ts).update D c false).2 = none) :
    ((pushAll D (fromNewRequest D prompt params) ts).update D c false).1 =
      pushAll D (fromNewRequest D prompt params) (ts ++ c) := by
  rw [update_pushAll ts hc, evaluateStop_pushAll] at h ⊢
  by_cases hmin : params.minTokens < (ts ++ c).length
  · rw [if_pos hmin] at h ⊢
    rcases hfirst : firstFound (textOf D (D.init prompt) (ts ++ c))
      (uncheckedLength D (D.init prompt) params ts c) params.stop with _ | o
    · rfl
    · rw [hfirst] at h
      cases h
  · rw [if_neg hmin]

theorem uncheckedLength_of_le (h : params.minTokens ≤ ts.length) :
    uncheckedLength D (D.init prompt) params ts c = (textOf D (D.init prompt) ts).length := by
  rw [uncheckedLength, Nat.sub_eq_zero_of_le h, List.take_zero, List.append_nil]

theorem uncheckedLength_cons_of_lt {t : TokenId} (h : ts.length < params.minTokens) :
    uncheckedLength D (D.init prompt) params ts (t :: c) =
      uncheckedLength D (D.init prompt) params (ts ++ [t]) c := by
  have htake : params.minTokens - ts.length = params.minTokens - (ts.length + 1) + 1 := by omega
  rw [uncheckedLength, uncheckedLength, htake, List.take_succ_cons, List.length_append,
    List.length_singleton, List.append_assoc]
  rfl

theorem CompletedTogether.tail {t : TokenId}
    (h : CompletedTogether D (D.init prompt) params ts (t :: c))
    (hnone : params.minTokens ≤ ts.length → ∀ s ∈ params.stop,
    found (textOf D (D.init prompt) (ts ++ [t])) (textOf D (D.init prompt) ts).length s = none) :
    CompletedTogether D (D.init prompt) params (ts ++ [t]) c := by
  have hiff : ∀ s ∈ params.stop, ∀ k,
      CompletedBy D (D.init prompt) params (ts ++ [t]) c s k ↔
        CompletedBy D (D.init prompt) params ts (t :: c) s (k + 1) := by
    intro s hs k
    unfold CompletedBy
    rw [List.take_succ_cons, List.append_assoc, List.singleton_append]
    rcases Nat.lt_or_ge ts.length params.minTokens with hlt | hle
    · rw [uncheckedLength_cons_of_lt hlt]
    · rw [uncheckedLength_of_le hle, uncheckedLength_of_le (by
        rw [List.length_append]
        omega)]
      refine exists_congr fun i => and_congr_right fun hocc => ?_
      have hmore := textOf_append D (D.init prompt) ts [t]
      have hmore' := textOf_append D (D.init prompt) (ts ++ [t]) (c.take k)
      have hlength : (textOf D (D.init prompt) ts).length ≤
          (textOf D (D.init prompt) (ts ++ [t])).length := by
        rw [hmore, List.length_append]
        omega
      refine ⟨fun hend => by omega, fun hend => ?_⟩
      by_contra hle'
      -- an occurrence inside the text of `t` would have been found there
      rw [List.append_assoc, List.singleton_append] at hmore'
      rw [hmore'] at hocc
      have hocc' := (occursAt_append_iff (params.stop_ne_nil s hs)).mpr ⟨hocc, by omega⟩
      have := found_eq_none (params.stop_ne_nil s hs) (hnone hle s hs) hocc'
      omega
  intro s hs s' hs' hcompleted k hk
  rw [hiff s hs] at hcompleted ⊢
  rw [hiff s' hs'] at hk
  exact h s hs s' hs' hcompleted (k + 1) hk

theorem completedTogether_of_single (h : params.stop = [s]) (ts c : List TokenId) :
    CompletedTogether D (D.init prompt) params ts c := by
  intro s₁ hs₁ s₂ hs₂ _ k hk
  rw [h, List.mem_singleton] at hs₁ hs₂
  rw [hs₁, ← hs₂]
  exact hk

theorem update_sameStop_feed (ts : List TokenId) (hc : c ≠ [])
    (h : CompletedTogether D (D.init prompt) params ts c) :
    SameStop ((pushAll D (fromNewRequest D prompt params) ts).update D c false)
      (feed D (pushAll D (fromNewRequest D prompt params) ts) (c.map fun t => [t])) := by
  induction c generalizing ts with
  | nil => exact absurd rfl hc
  | cons t c ih =>
    by_cases hnil : c = []
    · subst hnil
      rw [List.map_singleton, feed_singleton]
      exact .refl _
    have hsplit : ts ++ t :: c = ts ++ [t] ++ c := by simp
    have hlength : (ts ++ [t]).length = ts.length + 1 := by simp
    rw [List.map_cons, feed, update_pushAll ts (List.cons_ne_nil t []), evaluateStop_pushAll]
    rw [update_pushAll ts (List.cons_ne_nil t c), hsplit]
    rcases Nat.lt_or_ge ts.length params.minTokens with hlt | hle
    · -- the first token is one of the `min_tokens`
      rw [if_neg (by omega), uncheckedLength_cons_of_lt hlt, ← update_pushAll _ hnil]
      exact ih (ts ++ [t]) hnil (h.tail fun hle => absurd hle (by omega))
    · rw [if_pos (by omega), uncheckedLength_of_le hle, uncheckedLength_of_le hle]
      have hmore := textOf_append D (D.init prompt) (ts ++ [t]) c
      have hnew := textOf_append D (D.init prompt) ts [t]
      have hoff : (textOf D (D.init prompt) ts).length ≤
          (textOf D (D.init prompt) (ts ++ [t])).length := by
        rw [hnew, List.length_append]
        omega
      rcases hfirst : firstFound (textOf D (D.init prompt) (ts ++ [t]))
        (textOf D (D.init prompt) ts).length params.stop with _ | ⟨s, i⟩
      · -- nothing is completed by the first token, so its text need not be searched again
        have hnone : ∀ s ∈ params.stop, found (textOf D (D.init prompt) (ts ++ [t]))
            (textOf D (D.init prompt) ts).length s = none :=
          fun s hs => firstFound_eq_none hfirst hs
        have hsearch : firstFound (textOf D (D.init prompt) (ts ++ [t] ++ c))
            (textOf D (D.init prompt) ts).length params.stop =
              firstFound (textOf D (D.init prompt) (ts ++ [t] ++ c))
                (textOf D (D.init prompt) (ts ++ [t])).length params.stop := by
          refine firstFound_congr fun s hs => ?_
          rw [hmore]
          exact found_append_of_none (params.stop_ne_nil s hs) hoff (hnone s hs)
        have hrest := ih (ts ++ [t]) hnil (h.tail fun _ => hnone)
        rw [update_pushAll _ hnil, uncheckedLength_of_le (by omega), evaluateStop_pushAll] at hrest
        rw [evaluateStop_pushAll, hsearch]
        exact hrest
      · -- every stop string that the chunk completes is completed by the first token
        obtain ⟨hs, hfound⟩ := firstFound_eq_some hfirst
        have hsub := params.stop_ne_nil s hs
        obtain ⟨hocc, hend, -⟩ := found_eq_some hsub hfound
        have hsearch : firstFound (textOf D (D.init prompt) (ts ++ [t] ++ c))
            (textOf D (D.init prompt) ts).length params.stop = some (s, i) := by
          rw [← hfirst]
          refine firstFound_congr fun s' hs' => ?_
          have hsub' := params.stop_ne_nil s' hs'
          rcases hfound' : found (textOf D (D.init prompt) (ts ++ [t]))
            (textOf D (D.init prompt) ts).length s' with _ | j
          · rcases hlate : found (textOf D (D.init prompt) (ts ++ [t] ++ c))
              (textOf D (D.init prompt) ts).length s' with _ | j
            · rfl
            · obtain ⟨hocc', hend', -⟩ := found_eq_some hsub' hlate
              have hby : CompletedBy D (D.init prompt) params ts (t :: c) s' 1 := by
                refine h s' hs' s hs ⟨j, ?_, ?_⟩ 1 ⟨i, ?_, ?_⟩
                · rwa [List.take_length, hsplit]
                · rwa [uncheckedLength_of_le hle]
                · exact hocc
                · rwa [uncheckedLength_of_le hle]
              obtain ⟨j', hocc'', hend''⟩ := hby
              rw [uncheckedLength_of_le hle] at hend''
              have := found_eq_none hsub' hfound' hocc''
              omega
          · rw [hmore]
            exact found_append_of_some hsub' hfound'
        rw [evaluateStop_pushAll, if_pos (by
          rw [List.length_append]
          omega), hsearch]
        refine ⟨rfl, ?_, fun hstop => by cases hstop⟩
        have hcut : cutLength params (s, i) ≤ (textOf D (D.init prompt) (ts ++ [t])).length := by
          have := hocc.end_le hsub
          unfold cutLength
          split <;> simp only <;> omega
        simp only [cutText, pushAll_fromNewRequest_text]
        rw [hmore, List.take_append_of_le_length hcut]

end Single

def charDecoder : TokenDecoder Unit where
  init _ := ()
  decodeNext _ t := ((), [Char.ofNat t])

def stopParams (stop : List Text) (h : ∀ s ∈ stop, s ≠ []) : SamplingParams where
  maxTokens := 16
  minTokens := 0
  eosTokenId := none
  stopTokenIds := []
  stop := stop
  includeStopStrInOutput := false
  repetitionDetection := none
  maxTokens_pos := by decide
  minTokens_le := by decide
  stop_ne_nil := h

end IncrementalDetokenizer

end EldrServing.Engine
