import EldrServing.Proxy.Disposal

/-!
# The load counters of the proxy

A handler counts on the prefiller it chose until it has left the block that reads the response,
and on the decoder it chose until it leaves the decode section. Each resumption moves the
counters by exactly what the handler starts or stops to count, so in every interleaving they
are the numbers of handlers in those sections.
-/

namespace EldrServing.Proxy

set_option autoImplicit false

namespace Handler

def prefilling (h : Handler) : Option Url :=
  match h.await with
  | .prefillPost | .prefillJson | .prefillExit _ => h.prefiller
  | _ => none

def decoding (h : Handler) : Option Url :=
  match h.await with
  | .decodePost | .decodeJson | .nextChunk | .writeChunk | .writeEof | .decodeExit _
  | .writeError _ => h.decoder
  | _ => none

def Undecided (h : Handler) : Prop :=
  match h.await with
  | .requestJson | .prefillPost | .prefillJson | .prefillExit _
  | .prepare | .sendFirst | .sendUsage | .sendDone | .terminalEof => h.decoder = none
  | _ => True

/-- What a handler that is in the section of `worker` adds to the counter of `url`. -/
def share (worker : Option Url) (url : Url) : Int := if worker = some url then 1 else 0

/-- A run of the handler `h` to its next `await`, started with `h` counting on the prefiller
`p` and the decoder `d`. -/
structure Balanced (app : App) (h : Handler) (p d : Option Url) (res : App × Handler) : Prop where
  prefill : ∀ url, res.1.prefillInflight url + share p url =
    app.prefillInflight url + share res.2.prefilling url
  decode : ∀ url, res.1.decodeInflight url + share d url =
    app.decodeInflight url + share res.2.decoding url
  undecided : Undecided res.2
  prefillLoads : res.2.prefillLoads = h.prefillLoads
  decodeLoads : res.2.decodeLoads = h.decodeLoads ∨
    d = none ∧ res.2.decodeLoads = some app.decodeLoads

variable {app : App} {h : Handler} {env : Env}

@[simp] theorem share_none (url : Url) : share none url = 0 := rfl

theorem update_share (f : Url → Int) (u url : Url) (n : Int) :
    Function.update f u (f u + n) url = f url + n * share (some u) url := by
  unfold share
  rcases eq_or_ne url u with rfl | hne
  · simp
  · rw [Function.update_of_ne hne, if_neg (by simpa using hne.symm)]
    simp

theorem leaveDecode_inflight (app : App) (d : Option Url) (url : Url) :
    (app.leaveDecode d).decodeInflight url = app.decodeInflight url - share d url := by
  cases d with
  | none => simp [App.leaveDecode]
  | some d =>
    change Function.update _ _ _ _ = _
    rw [update_share]
    omega

theorem leavePrefill_inflight (app : App) (p : Option Url) (url : Url) :
    (app.leavePrefill p).prefillInflight url = app.prefillInflight url - share p url := by
  cases p with
  | none => simp [App.leavePrefill]
  | some p =>
    change Function.update _ _ _ _ = _
    rw [update_share]
    omega

theorem leaveDecode_prefillInflight (app : App) (d : Option Url) :
    (app.leaveDecode d).prefillInflight = app.prefillInflight := by
  cases d <;> rfl

theorem leavePrefill_decodeInflight (app : App) (p : Option Url) :
    (app.leavePrefill p).decodeInflight = app.decodeInflight := by
  cases p <;> rfl

/-! ### The sections -/

variable {handoff : Handoff} {res : App × Handler} {d : Option Url}

theorem finallyDecode_balanced (hd : h.decoder = d) (r : Result) :
    Balanced app h none d (h.finallyDecode app r) := by
  subst hd
  have hdecode (url : Url) : (app.leaveDecode h.decoder).decodeInflight url +
      share h.decoder url = app.decodeInflight url + share none url := by
    rw [leaveDecode_inflight, share_none]
    omega
  have hprefill (url : Url) : (app.leaveDecode h.decoder).prefillInflight url + share none url =
      app.prefillInflight url + share none url := by
    rw [leaveDecode_prefillInflight]
  unfold finallyDecode
  simp only
  split
  · exact ⟨hprefill, hdecode, trivial, rfl, .inl rfl⟩
  · exact ⟨hprefill, hdecode, trivial, rfl, .inl rfl⟩

theorem raiseDecode_balanced (hd : h.decoder = d) (e : Exc) :
    Balanced app h none d (h.raiseDecode app e) := by
  subst hd
  unfold raiseDecode
  split
  · obtain ⟨h', hdef⟩ : ∃ h' : Handler,
        (if e = .connector then { h with submitted := false } else h) = h' := ⟨_, rfl⟩
    have hsame : h'.decoder = h.decoder ∧ h'.prefillLoads = h.prefillLoads ∧
        h'.decodeLoads = h.decodeLoads := by
      subst hdef
      split <;> exact ⟨rfl, rfl, rfl⟩
    obtain ⟨hdecoder, hprefillLoads, hdecodeLoads⟩ := hsame
    simp only [hdef]
    split
    · refine ⟨fun _ => rfl, fun url => ?_, trivial, hprefillLoads, .inl hdecodeLoads⟩
      change app.decodeInflight url + _ = app.decodeInflight url + share h'.decoder url
      rw [hdecoder]
    · have hfinally : Balanced app h' none h.decoder (h'.finallyDecode app (.raised e)) :=
        finallyDecode_balanced hdecoder _
      exact ⟨hfinally.prefill, hfinally.decode, hfinally.undecided,
        hfinally.prefillLoads.trans hprefillLoads, hdecodeLoads ▸ hfinally.decodeLoads⟩
  · exact finallyDecode_balanced rfl _

theorem Balanced.outside {a : Await} (hprefill : prefilling { h with await := a } = none)
    (hdecode : decoding { h with await := a } = none) (hun : Undecided { h with await := a }) :
    Balanced app h none none (app, { h with await := a }) := by
  refine ⟨fun url => ?_, fun url => ?_, hun, rfl, .inl rfl⟩
  · rw [hprefill]
  · rw [hdecode]

theorem submit_balanced (hnone : h.decoder = none) :
    Balanced app h none none (h.submit app handoff env) := by
  unfold submit
  simp only
  split
  · have hraise : Balanced app { h with decodeLoads := some app.decodeLoads } none none
        (raiseDecode app { h with decodeLoads := some app.decodeLoads } .other) :=
      raiseDecode_balanced (by exact hnone) _
    refine ⟨hraise.prefill, hraise.decode, hraise.undecided, hraise.prefillLoads, ?_⟩
    rcases hraise.decodeLoads with heq | heq
    · exact .inr ⟨rfl, heq⟩
    · exact .inr heq
  · next d hd =>
    have hadd (url : Url) : (app.addDecode d 1).decodeInflight url =
        app.decodeInflight url + share (some d) url := by
      change Function.update _ _ _ _ = _
      rw [update_share, Int.one_mul]
    split
    · -- the decoder is counted already when reading the response raises
      have hraise : Balanced (app.addDecode d 1)
          { h with decodeLoads := some app.decodeLoads, decoder := some d } none (some d)
          (raiseDecode (app.addDecode d 1)
            { h with decodeLoads := some app.decodeLoads, decoder := some d } .other) :=
        raiseDecode_balanced rfl _
      refine ⟨hraise.prefill, fun url => ?_, hraise.undecided, ?_, ?_⟩
      · have := hraise.decode url
        rw [hadd] at this
        rw [share_none]
        omega
      · exact hraise.prefillLoads
      · rcases hraise.decodeLoads with heq | ⟨hsome, -⟩
        · exact .inr ⟨rfl, heq⟩
        · cases hsome
    · refine ⟨fun _ => rfl, fun url => ?_, trivial, rfl, .inr ⟨rfl, rfl⟩⟩
      rw [hadd, share_none]
      change _ = app.decodeInflight url + share (some d) url
      omega

theorem route_balanced (hnone : h.decoder = none) :
    Balanced app h none none (h.route app handoff env) := by
  unfold route
  split
  · exact submit_balanced hnone
  · split
    · exact .outside rfl rfl hnone
    · exact finallyDecode_balanced hnone _

theorem capture_balanced (hnone : h.decoder = none) :
    Balanced app h none none (h.capture app handoff env) := by
  have hraise (e : Exc) : Balanced app h none none (h.raiseDecode app e) :=
    raiseDecode_balanced hnone e
  unfold capture
  split
  · exact route_balanced hnone
  · split
    · exact hraise _
    · exact hraise _
    · split
      · obtain ⟨h1, h2, h3, h4, h5⟩ := route_balanced hnone
        exact ⟨h1, h2, h3, h4, h5⟩
      · exact hraise _

theorem enterDecode_balanced (hnone : h.decoder = none) :
    Balanced app h none none (h.enterDecode app handoff env) := by
  unfold enterDecode
  simp only
  split
  · exact ⟨fun _ => rfl, fun _ => rfl, hnone, rfl, .inl rfl⟩
  · obtain ⟨h1, h2, h3, h4, h5⟩ : Balanced app { h with handoff := some handoff } none none
      (capture app { h with handoff := some handoff } handoff env) := capture_balanced hnone
    exact ⟨h1, h2, h3, h4, h5⟩

theorem Balanced.afterPrefill (hrest : Balanced (app.leavePrefill h.prefiller) h none none res) :
    Balanced app h h.prefiller none res := by
  refine ⟨fun url => ?_, fun url => ?_, hrest.undecided, hrest.prefillLoads, ?_⟩
  · have := hrest.prefill url
    rw [leavePrefill_inflight, share_none] at this
    omega
  · have := hrest.decode url
    rwa [leavePrefill_decodeInflight] at this
  · have hloads : (app.leavePrefill h.prefiller).decodeLoads = app.decodeLoads := by
      unfold App.decodeLoads
      rw [leavePrefill_decodeInflight, App.leavePrefill_decode]
    rw [← hloads]
    exact hrest.decodeLoads

theorem leavePrefill_balanced {body : Except Exc PrefillResult} (hnone : h.decoder = none) :
    Balanced app h h.prefiller none (h.leavePrefill app env body) := by
  have hdone (r : Result) : Balanced app h h.prefiller none
      (app.leavePrefill h.prefiller, { h with await := .done r }) :=
    .afterPrefill (.outside rfl rfl trivial)
  unfold leavePrefill
  simp only
  split
  · exact hdone _
  · split
    · exact .afterPrefill (enterDecode_balanced hnone)
    · split
      · split
        · exact .afterPrefill ⟨fun _ => rfl, fun _ => rfl, trivial, rfl, .inl rfl⟩
        · exact hdone _
      · exact hdone _

theorem resumeFirst_balanced {o : Outcome}
    (hnone : h.decoder = none) (hres : h.resumeFirst app handoff env o = some res) :
    Balanced app h none none res := by
  unfold resumeFirst at hres
  split at hres
  · exact Option.some.inj hres ▸ .outside rfl rfl hnone
  · refine Option.some.inj hres ▸ ?_
    unfold sentFirst
    split
    · exact capture_balanced hnone
    · split
      · exact .outside rfl rfl hnone
      · exact .outside rfl rfl hnone
  · exact Option.some.inj hres ▸ .outside rfl rfl hnone
  · exact Option.some.inj hres ▸ capture_balanced hnone
  · exact Option.some.inj hres ▸ finallyDecode_balanced hnone _
  · exact Option.some.inj hres ▸ raiseDecode_balanced hnone _
  · cases hres

theorem Balanced.inside {h' : Handler} (hprefill : h'.prefilling = none)
    (hdecode : h'.decoding = h.decoder) (hun : Undecided h')
    (hprefillLoads : h'.prefillLoads = h.prefillLoads)
    (hdecodeLoads : h'.decodeLoads = h.decodeLoads) :
    Balanced app h none h.decoder (app, h') := by
  refine ⟨fun url => ?_, fun url => ?_, hun, hprefillLoads, .inl hdecodeLoads⟩
  · rw [hprefill]
  · rw [hdecode]

theorem respond_balanced (status : Nat) :
    Balanced app h none h.decoder (app, h.respond status) := by
  unfold respond
  simp only
  split
  · exact .inside rfl rfl trivial rfl rfl
  · split
    · exact .inside rfl rfl trivial rfl rfl
    · exact .inside rfl rfl trivial rfl rfl

theorem postFailed_balanced (e : Exc) (received : Bool) :
    Balanced app h none h.decoder (h.postFailed app e received) := by
  obtain ⟨h1, h2, h3, h4, h5⟩ : Balanced app { h with
      postRaised := some e
      received := if received then h.received ++ h.decoder.toList else h.received } none h.decoder
      (h.postFailed app e received) := raiseDecode_balanced rfl e
  exact ⟨h1, h2, h3, h4, h5⟩

theorem resumeDecode_balanced {o : Outcome} {h' : Handler} (hres : h.resumeDecode o = some h') :
    Balanced app h none h.decoder (app, h') := by
  unfold resumeDecode at hres
  split at hres
  all_goals first
    | exact Option.some.inj hres ▸ .inside rfl rfl trivial rfl rfl
    | cases hres

/-- One run of the handler `h` to its next `await`. -/
structure Resumed (app : App) (h : Handler) (res : App × Handler) : Prop where
  prefill : ∀ url, res.1.prefillInflight url + share h.prefilling url =
    app.prefillInflight url + share res.2.prefilling url
  decode : ∀ url, res.1.decodeInflight url + share h.decoding url =
    app.decodeInflight url + share res.2.decoding url
  undecided : Undecided res.2
  prefillLoads : res.2.prefillLoads = h.prefillLoads ∨
    h.prefilling = none ∧ res.2.prefillLoads = some app.prefillLoads
  decodeLoads : res.2.decodeLoads = h.decodeLoads ∨
    h.decoding = none ∧ res.2.decodeLoads = some app.decodeLoads

theorem Balanced.resumed {p : Option Url} (hb : Balanced app h p d res)
    (hp : h.prefilling = p) (hd : h.decoding = d) : Resumed app h res := by
  subst hp hd
  exact ⟨hb.prefill, hb.decode, hb.undecided, .inl hb.prefillLoads, hb.decodeLoads⟩

theorem done_resumed (hp : h.prefilling = none) (hd : h.decoding = none) (r : Result) :
    Resumed app h (app, { h with await := .done r }) := by
  have hb : Balanced app h none none (app, { h with await := .done r }) :=
    .outside rfl rfl trivial
  exact hb.resumed hp hd

theorem resume_resumed {o : Outcome} (hun : Undecided h)
    (hres : h.resume app env o = some res) : Resumed app h res := by
  have hp := prefilling.eq_1 h
  have hd := decoding.eq_1 h
  unfold resume at hres
  unfold Undecided at hun
  cases hawait : h.await with
  | requestJson =>
    rw [hawait] at hres hun hp hd
    simp only at hres hp hd
    split at hres
    · split at hres
      · next p _ =>
        refine Option.some.inj hres ▸ ⟨fun url => ?_, fun url => ?_, hun, .inr ⟨hp, rfl⟩, .inl rfl⟩
        · change Function.update app.prefillInflight p _ url + _ = _ + share (some p) url
          rw [update_share, hp, share_none]
          omega
        · rw [hd]
          rfl
      · refine Option.some.inj hres ▸ ⟨fun url => ?_, fun url => ?_, trivial, .inr ⟨hp, rfl⟩,
          .inl rfl⟩
        · rw [hp]
          rfl
        · rw [hd]
          rfl
    · exact Option.some.inj hres ▸ done_resumed hp hd _
    · exact Option.some.inj hres ▸ done_resumed hp hd _
    · cases hres
  | prefillPost =>
    rw [hawait] at hres hun hp hd
    simp only at hres hp hd
    split at hres
    · split at hres
      · exact Option.some.inj hres ▸
          Balanced.resumed ⟨fun _ => rfl, fun _ => rfl, hun, rfl, .inl rfl⟩ hp hd
      · exact Option.some.inj hres ▸
          Balanced.resumed ⟨fun _ => rfl, fun _ => rfl, hun, rfl, .inl rfl⟩ hp hd
    · exact Option.some.inj hres ▸ (leavePrefill_balanced hun).resumed hp hd
    · cases hres
  | prefillJson =>
    rw [hawait] at hres hun hp hd
    simp only at hres hp hd
    split at hres
    · exact Option.some.inj hres ▸
        Balanced.resumed ⟨fun _ => rfl, fun _ => rfl, hun, rfl, .inl rfl⟩ hp hd
    · exact Option.some.inj hres ▸
        Balanced.resumed ⟨fun _ => rfl, fun _ => rfl, hun, rfl, .inl rfl⟩ hp hd
    · cases hres
  | prefillExit body =>
    rw [hawait] at hres hun hp hd
    simp only at hres hp hd
    split at hres
    · exact Option.some.inj hres ▸ (leavePrefill_balanced hun).resumed hp hd
    · exact Option.some.inj hres ▸ (leavePrefill_balanced hun).resumed hp hd
    · cases hres
  | releaseInvalid _ | release _ =>
    rw [hawait] at hres hp hd
    simp only at hres hp hd
    split at hres
    · exact Option.some.inj hres ▸ done_resumed hp hd _
    · exact Option.some.inj hres ▸ done_resumed hp hd _
    · cases hres
  | prepare | sendFirst | sendUsage | sendDone | terminalEof =>
    rw [hawait] at hres hun hp hd
    obtain ⟨handoff, -, hfirst⟩ := Option.bind_eq_some_iff.mp hres
    exact (resumeFirst_balanced hun hfirst).resumed hp hd
  | decodePost =>
    rw [hawait] at hres hp hd
    simp only at hres hp hd
    split at hres
    · exact Option.some.inj hres ▸ (respond_balanced _).resumed hp hd
    · split at hres
      · cases hres
      · exact Option.some.inj hres ▸ (postFailed_balanced _ _).resumed hp hd
    · cases hres
  | decodeJson | nextChunk | writeChunk | writeEof =>
    rw [hawait] at hres hp hd
    obtain ⟨h', hh', rfl⟩ := Option.map_eq_some_iff.mp hres
    exact (resumeDecode_balanced hh').resumed hp hd
  | decodeExit body =>
    rw [hawait] at hres hp hd
    simp only at hres hp hd
    split at hres
    · exact Option.some.inj hres ▸ (finallyDecode_balanced rfl _).resumed hp hd
    · exact Option.some.inj hres ▸ (raiseDecode_balanced rfl _).resumed hp hd
    · exact Option.some.inj hres ▸ (raiseDecode_balanced rfl _).resumed hp hd
    · cases hres
  | writeError e =>
    rw [hawait] at hres hp hd
    simp only at hres hp hd
    split at hres
    · exact Option.some.inj hres ▸ (finallyDecode_balanced rfl _).resumed hp hd
    · exact Option.some.inj hres ▸ (finallyDecode_balanced rfl _).resumed hp hd
    · cases hres
  | done r =>
    rw [hawait] at hres hp hd
    cases hres

end Handler

/-! ### All handlers -/

/-- The number of handlers still reading the response of the prefiller `url`. -/
def prefilling (handlers : List Handler) (url : Url) : Nat :=
  handlers.countP (·.prefilling = some url)

/-- The number of handlers in the section of the decoder `url`. -/
def decoding (handlers : List Handler) (url : Url) : Nat :=
  handlers.countP (·.decoding = some url)

structure Exact (p : Proxy) : Prop where
  prefill : ∀ url, p.app.prefillInflight url = prefilling p.handlers url
  decode : ∀ url, p.app.decodeInflight url = decoding p.handlers url
  undecided : ∀ h ∈ p.handlers, h.Undecided

variable {handlers : List Handler}

theorem countP_eraseIdx {i : Nat} {h : Handler}
    (hi : handlers[i]? = some h) (sec : Handler → Option Url) (url : Url) :
    ((handlers.countP (sec · = some url) : Nat) : Int) =
      (handlers.eraseIdx i).countP (sec · = some url) + Handler.share (sec h) url := by
  induction handlers generalizing i with
  | nil => cases hi
  | cons a handlers ih =>
    cases i with
    | zero =>
      obtain rfl : a = h := by simpa using hi
      simp only [List.countP_cons, List.eraseIdx_cons_zero, Handler.share, decide_eq_true_eq]
      split <;> simp
    | succ i =>
      have := ih (i := i) (by simpa using hi)
      simp only [List.countP_cons, List.eraseIdx_cons_succ]
      push_cast
      omega

section Steps

variable {p p' : Proxy} {i : Nat} {env : Env} {o : Outcome} {h : Handler}

theorem step_resume (hstep : step p (.resume i env o) = some p') :
    ∃ h h', p.handlers[i]? = some h ∧ h.resume p.app env o = some (p'.app, h') ∧
      p'.handlers = p.handlers.set i h' := by
  simp only [step] at hstep
  split at hstep
  · cases hstep
  · next h hi =>
    split at hstep
    · obtain ⟨⟨app, h'⟩, hres, rfl⟩ := Option.map_eq_some_iff.mp hstep
      exact ⟨h, h', hi, hres, rfl⟩
    · cases hstep

theorem countP_set (hi : p.handlers[i]? = some h) (h' : Handler) (sec : Handler → Option Url)
    (url : Url) :
    (((p.handlers.set i h').countP (sec · = some url) : Nat) : Int) +
        Handler.share (sec h) url =
      (p.handlers.countP (sec · = some url) : Nat) + Handler.share (sec h') url := by
  have hlt : i < p.handlers.length := (List.getElem?_eq_some_iff.mp hi).1
  have hset : (p.handlers.set i h')[i]? = some h' := List.getElem?_set_self hlt
  rw [countP_eraseIdx hset sec url, countP_eraseIdx hi sec url, List.eraseIdx_set_eq]
  omega

theorem Exact.next {ev : Event} (hp : Exact p) (hstep : step p ev = some p') : Exact p' := by
  cases ev with
  | accept =>
    obtain rfl := Option.some.inj hstep
    refine ⟨fun url => ?_, fun url => ?_, fun h hh => ?_⟩
    · rw [hp.prefill]
      simp [prefilling, Handler.prefilling]
    · rw [hp.decode]
      simp [decoding, Handler.decoding]
    · rcases List.mem_append.mp hh with hh | hh
      · exact hp.undecided h hh
      · obtain rfl := List.mem_singleton.mp hh
        rfl
  | resume i env o =>
    obtain ⟨h, h', hi, hres, hset⟩ := step_resume hstep
    have hmoved := Handler.resume_resumed (hp.undecided h (List.mem_of_getElem? hi)) hres
    refine ⟨fun url => ?_, fun url => ?_, fun a ha => ?_⟩
    · have hcount := countP_set hi h' Handler.prefilling url
      have hcounter : p'.app.prefillInflight url + _ = _ + Handler.share h'.prefilling url :=
        hmoved.prefill url
      rw [hp.prefill] at hcounter
      unfold prefilling at hcounter ⊢
      rw [hset]
      omega
    · have hcount := countP_set hi h' Handler.decoding url
      have hcounter : p'.app.decodeInflight url + _ = _ + Handler.share h'.decoding url :=
        hmoved.decode url
      rw [hp.decode] at hcounter
      unfold decoding at hcounter ⊢
      rw [hset]
      omega
    · rw [hset] at ha
      rcases List.mem_or_eq_of_mem_set ha with ha | rfl
      · exact hp.undecided a ha
      · exact hmoved.undecided

theorem Exact.start {app : App} (hprefill : ∀ url, app.prefillInflight url = 0)
    (hdecode : ∀ url, app.decodeInflight url = 0) : Exact (Proxy.start app) :=
  ⟨hprefill, hdecode, fun _ h => absurd h List.not_mem_nil⟩

/-- The loads that the handler `i` had its router read when it got from `p` to `p'`, of which
it is not a part itself. -/
structure ReadsOthers (p p' : Proxy) (i : Nat) : Prop where
  prefill : ∀ h h' : Handler, p.handlers[i]? = some h → p'.handlers[i]? = some h' →
    h'.prefillLoads = h.prefillLoads ∨ h'.prefillLoads = some (p.app.prefill.map fun url =>
      ((prefilling (p.handlers.eraseIdx i) url : Nat) : Int))
  decode : ∀ h h' : Handler, p.handlers[i]? = some h → p'.handlers[i]? = some h' →
    h'.decodeLoads = h.decodeLoads ∨ h'.decodeLoads = some (p.app.decode.map fun url =>
      ((decoding (p.handlers.eraseIdx i) url : Nat) : Int))

theorem Exact.readsOthers (hp : Exact p) (hstep : step p (.resume i env o) = some p') :
    ReadsOthers p p' i := by
  obtain ⟨a, a', hi, hres, hset⟩ := step_resume hstep
  have hlt : i < p.handlers.length := (List.getElem?_eq_some_iff.mp hi).1
  have hmoved := Handler.resume_resumed (hp.undecided a (List.mem_of_getElem? hi)) hres
  have hi' : p'.handlers[i]? = some a' := hset ▸ List.getElem?_set_self hlt
  constructor
  · intro h h' hh hh'
    obtain rfl := Option.some.inj (hi.symm.trans hh)
    obtain rfl := Option.some.inj (hi'.symm.trans hh')
    rcases hmoved.prefillLoads with heq | ⟨hnone, heq⟩
    · exact .inl heq
    · refine .inr (heq.trans (congrArg some (List.map_congr_left fun url _ => ?_)))
      rw [hp.prefill, prefilling, countP_eraseIdx hi, hnone, Handler.share_none, Int.add_zero]
      rfl
  · intro h h' hh hh'
    obtain rfl := Option.some.inj (hi.symm.trans hh)
    obtain rfl := Option.some.inj (hi'.symm.trans hh')
    rcases hmoved.decodeLoads with heq | ⟨hnone, heq⟩
    · exact .inl heq
    · refine .inr (heq.trans (congrArg some (List.map_congr_left fun url _ => ?_)))
      rw [hp.decode, decoding, countP_eraseIdx hi, hnone, Handler.share_none, Int.add_zero]
      rfl

theorem prefilling_eq_zero (hdone : ∀ h ∈ handlers, h.isDone = true)
    (url : Url) : prefilling handlers url = 0 := by
  refine List.countP_eq_zero.mpr fun h hh => ?_
  have := hdone h hh
  unfold Handler.isDone at this
  split at this
  · next r hr => simp [Handler.prefilling, hr]
  · cases this

theorem decoding_eq_zero (hdone : ∀ h ∈ handlers, h.isDone = true)
    (url : Url) : decoding handlers url = 0 := by
  refine List.countP_eq_zero.mpr fun h hh => ?_
  have := hdone h hh
  unfold Handler.isDone at this
  split at this
  · next r hr => simp [Handler.decoding, hr]
  · cases this

end Steps

/-- In every interleaving the counters of the workers are the numbers of the handlers in their
sections, and a router is given the numbers of the other handlers. -/
theorem inflight_exact {app : App} (hprefill : ∀ url, app.prefillInflight url = 0)
    (hdecode : ∀ url, app.decodeInflight url = 0) {p : Proxy}
    (hreach : Machine.Reachable step (Proxy.start app) p) :
    (∀ url, p.app.prefillInflight url = prefilling p.handlers url) ∧
    (∀ url, p.app.decodeInflight url = decoding p.handlers url) ∧
    (∀ url, 0 ≤ p.app.prefillInflight url ∧ 0 ≤ p.app.decodeInflight url) ∧
    ((∀ h ∈ p.handlers, h.isDone = true) →
      ∀ url, p.app.prefillInflight url = 0 ∧ p.app.decodeInflight url = 0) ∧
    ∀ i env o p', step p (.resume i env o) = some p' → ReadsOthers p p' i := by
  have hexact : Exact p :=
    hreach.invariant (.start hprefill hdecode) fun _ _ _ hp hstep => hp.next hstep
  refine ⟨hexact.prefill, hexact.decode, fun url => ?_, fun hdone url => ?_, ?_⟩
  · rw [hexact.prefill, hexact.decode]
    omega
  · rw [hexact.prefill, hexact.decode, prefilling_eq_zero hdone, decoding_eq_zero hdone]
    exact ⟨rfl, rfl⟩
  · intro i env o p' hstep
    exact hexact.readsOthers hstep

def twoDecoders : App where
  prefill := [0]
  decode := [1, 2]
  decode_ne := idleApp.decode_ne
  prefillInflight := fun _ => 0
  decodeInflight := fun _ => 0
  captureFile := none

/-- The first handler has posted its handoff to a decoder while the second one waits for the
prefiller. -/
def twoHandlers : List Event :=
  let transfer : Transfer := {
    doRemotePrefill := true, prefillFirstTokenId := some 5, prefillPromptTokens := some 2,
    prefillContinues := some true, eldrSig := none }
  let result : PrefillResult := {
    kvTransferParams := some transfer
    choices := [{ tokenIds := some [5], promptTokenIds := some [3, 4] }]
    created := some 1 }
  let payload : Payload := { stream := false, includeUsage := false }
  [.accept, .accept, .resume 0 {} (.request (some payload)), .resume 0 {} (.response 200),
    .resume 0 {} (.result result), .resume 0 {} .returned, .resume 1 {} (.request (some payload))]

theorem inflight_exact_twoHandlers :
    ∃ p, Machine.exec step (Proxy.start twoDecoders) twoHandlers = some p ∧
      p.app.prefillInflight 0 = 1 ∧ p.app.decodeInflight 1 = 1 ∧
      p.app.prefillInflight 0 = prefilling p.handlers 0 ∧
      p.app.decodeInflight 1 = decoding p.handlers 1 := by
  obtain ⟨p, hrun, h1, h2⟩ : ∃ p, Machine.exec step (Proxy.start twoDecoders) twoHandlers = some p ∧
      p.app.prefillInflight 0 = 1 ∧ p.app.decodeInflight 1 = 1 := ⟨_, rfl, rfl, rfl⟩
  have hexact := inflight_exact (fun _ => rfl) (fun _ => rfl) ⟨twoHandlers, hrun⟩
  exact ⟨p, hrun, h1, h2, hexact.1 0, hexact.2.1 1⟩

end EldrServing.Proxy
