import EldrServing.Proxy.Handle

/-!
# What becomes of a prefill handoff

`Ok` says, for each `await`, what a handler suspended there has done with its handoff.
Every resumption keeps it, whatever the `await` delivers, so it holds of every handler in
every interleaving.
-/

namespace EldrServing.Proxy

set_option autoImplicit false

variable {d : Url}

namespace Handler

structure Unsent (h : Handler) : Prop where
  submitted : h.submitted = false
  posts : h.posts = []
  received : h.received = []
  releases : h.releases = []

/-- The handoff was posted to decoder `d` of `decoders` and is not to be released. It reached
`d` unless the post raised something else than a connection error. -/
structure Posted (decoders : List Url) (h : Handler) (d : Url) : Prop where
  mem : d ∈ decoders
  posts : h.posts = [d]
  received : h.received = [d] ∨
    h.received = [] ∧ ∃ e, e ≠ .connector ∧ h.postRaised = some e
  releases : h.releases = []

structure Unreceived (decoders : List Url) (h : Handler) : Prop where
  received : h.received = []
  posts : h.posts = [] ∨ (∃ d ∈ decoders, h.posts = [d]) ∧ h.postRaised = some .connector

structure Released (decoders : List Url) (h : Handler) : Prop extends
    Unreceived decoders h where
  releases : ∃ d ∈ decoders, h.releases = [d]

/-- In the decode section, about to enter its `finally` clause. -/
def Leaving (decoders : List Url) (h : Handler) : Prop :=
  (h.submitted = true ∧ ∃ d, Posted decoders h d) ∨
    (h.submitted = false ∧ h.releases = [] ∧ Unreceived decoders h)

structure Posting (decoders : List Url) (h : Handler) (d : Url) : Prop where
  submitted : h.submitted = true
  mem : d ∈ decoders
  decoder : h.decoder = some d
  posts : h.posts = [d]
  received : h.received = []
  releases : h.releases = []

def Answered (decoders : List Url) (h : Handler) : Prop :=
  h.submitted = true ∧ h.releases = [] ∧ ∃ d ∈ decoders, h.posts = [d] ∧ h.received = [d]

/-- What has become of the handoff of a handler suspended at `a`. -/
def OkAt (decoders : List Url) (h : Handler) : Await → Prop
  | .requestJson | .prefillPost | .prefillJson | .prefillExit _ => h.handoff = none ∧ Unsent h
  | .releaseInvalid _ => h.handoff = none
  | .prepare | .sendFirst | .sendUsage | .sendDone | .terminalEof => Unsent h
  | .decodePost => ∃ d, Posting decoders h d
  | .decodeJson | .nextChunk | .writeChunk | .writeEof => Answered decoders h
  | .decodeExit body => Answered decoders h ∧ body ≠ .raised .connector
  | .writeError _ => Leaving decoders h
  | .release _ => Released decoders h
  | .done _ => h.handoff.isSome = true → (∃ d, Posted decoders h d) ∨ Released decoders h

def Ok (decoders : List Url) (h : Handler) : Prop := OkAt decoders h h.await

/-- The result of running a handler on: the decoders are the same and `Ok` holds. -/
def Keeps (decoders : List Url) (res : App × Handler) : Prop :=
  res.1.decode = decoders ∧ Ok decoders res.2

variable {decoders : List Url} {app : App} {h : Handler}

theorem Unsent.unreceived (hu : Unsent h) : Unreceived decoders h :=
  ⟨hu.received, .inl hu.posts⟩

theorem Unsent.leaving (hu : Unsent h) : Leaving decoders h :=
  .inr ⟨hu.submitted, hu.releases, hu.unreceived⟩

theorem Answered.leaving (ha : Answered decoders h) : Leaving decoders h := by
  obtain ⟨hsub, hrel, d, hd, hposts, hrec⟩ := ha
  exact .inl ⟨hsub, d, hd, hposts, .inl hrec, hrel⟩

theorem releaseDecoder_mem (app : App) (decoder : Option Url) :
    app.releaseDecoder decoder ∈ app.decode := by
  unfold App.releaseDecoder
  cases hfind : app.decode.find? fun url => some url ≠ decoder with
  | none => exact List.head_mem app.decode_ne
  | some url => exact List.mem_of_find?_eq_some hfind

/-- The `finally` clause disposes of the handoff: it releases exactly what was not submitted. -/
theorem finallyDecode_keeps (r : Result) (happ : app.decode = decoders)
    (hl : Leaving decoders h) : Keeps decoders (h.finallyDecode app r) := by
  have happ' : (app.leaveDecode h.decoder).decode = decoders := by simp [happ]
  unfold finallyDecode
  rcases hl with ⟨hsub, d, hposted⟩ | ⟨hsub, hrel, hun⟩
  · rw [if_pos hsub]
    exact ⟨happ', fun _ => .inl ⟨d, hposted.mem, hposted.posts, hposted.received,
      hposted.releases⟩⟩
  · rw [if_neg (by simp [hsub])]
    refine ⟨happ', ⟨hun.received, hun.posts⟩,
      (app.leaveDecode h.decoder).releaseDecoder h.decoder, ?_, ?_⟩
    · exact happ' ▸ releaseDecoder_mem _ _
    · change h.releases ++ [_] = _
      rw [hrel]
      rfl

def AfterRaise (decoders : List Url) (h : Handler) (e : Exc) : Prop :=
  (e ≠ .connector → Leaving decoders h) ∧
    (e = .connector → Unreceived decoders h ∧ h.releases = [])

variable {env : Env} {handoff : Handoff} {e : Exc} {o : Outcome}

theorem raiseDecode_keeps (happ : app.decode = decoders)
    (hr : AfterRaise decoders h e) : Keeps decoders (h.raiseDecode app e) := by
  unfold raiseDecode
  rcases hexc : e.isException with _ | _
  · have hne : e ≠ .connector := fun he => by simp [he, Exc.isException] at hexc
    exact finallyDecode_keeps _ happ (hr.1 hne)
  · rw [if_pos rfl]
    obtain ⟨h', hdef⟩ : ∃ h' : Handler,
        (if e = .connector then { h with submitted := false } else h) = h' := ⟨_, rfl⟩
    have hleaving : Leaving decoders h' := by
      subst hdef
      split
      · next hconn =>
        obtain ⟨hun, hrel⟩ := hr.2 hconn
        exact .inr ⟨rfl, hrel, hun.received, hun.posts⟩
      · next hne => exact hr.1 hne
    simp only [hdef]
    split
    · refine ⟨happ, ?_⟩
      rcases hleaving with ⟨hsub, d, hp⟩ | ⟨hsub, hrel, hun⟩
      · exact .inl ⟨hsub, d, hp.mem, hp.posts, hp.received, hp.releases⟩
      · exact .inr ⟨hsub, hrel, hun.received, hun.posts⟩
    · exact finallyDecode_keeps _ happ hleaving

theorem raiseDecode_unsent (happ : app.decode = decoders) (hu : Unsent h) :
    Keeps decoders (h.raiseDecode app e) :=
  raiseDecode_keeps happ ⟨fun _ => hu.leaving, fun _ => ⟨hu.unreceived, hu.releases⟩⟩

theorem submit_keeps (happ : app.decode = decoders)
    (hu : Unsent h) : Keeps decoders (h.submit app handoff env) := by
  unfold submit
  simp only
  split
  · exact raiseDecode_unsent happ ⟨hu.submitted, hu.posts, hu.received, hu.releases⟩
  · next d hd =>
    have hmem : d ∈ decoders := by
      obtain ⟨i, -, hi⟩ := Option.bind_eq_some_iff.mp hd
      exact happ ▸ List.mem_of_getElem? hi
    split
    · exact raiseDecode_unsent happ ⟨hu.submitted, hu.posts, hu.received, hu.releases⟩
    · exact ⟨happ, d, rfl, hmem, rfl, by simp [hu.posts], hu.received, hu.releases⟩

theorem route_keeps (happ : app.decode = decoders)
    (hu : Unsent h) : Keeps decoders (h.route app handoff env) := by
  unfold route
  split
  · exact submit_keeps happ hu
  · split
    · exact ⟨happ, hu.submitted, hu.posts, hu.received, hu.releases⟩
    · exact finallyDecode_keeps _ happ hu.leaving

theorem capture_keeps (happ : app.decode = decoders)
    (hu : Unsent h) : Keeps decoders (h.capture app handoff env) := by
  unfold capture
  split
  · exact route_keeps happ hu
  · split
    · exact raiseDecode_unsent happ hu
    · exact raiseDecode_unsent happ hu
    · split
      · exact route_keeps happ hu
      · exact raiseDecode_unsent happ hu

theorem enterDecode_keeps (happ : app.decode = decoders)
    (hu : Unsent h) : Keeps decoders (h.enterDecode app handoff env) := by
  have hu' : Unsent { h with handoff := some handoff } :=
    ⟨hu.submitted, hu.posts, hu.received, hu.releases⟩
  unfold enterDecode
  simp only
  split
  · exact ⟨happ, hu.submitted, hu.posts, hu.received, hu.releases⟩
  · exact capture_keeps happ hu'

theorem leavePrefill_keeps {body : Except Exc PrefillResult}
    (happ : app.decode = decoders) (hnone : h.handoff = none) (hu : Unsent h) :
    Keeps decoders (h.leavePrefill app env body) := by
  have happ' : (app.leavePrefill h.prefiller).decode = decoders := by simp [happ]
  have hdone (r : Result) : Keeps decoders
      (app.leavePrefill h.prefiller, { h with await := .done r }) := by
    refine ⟨happ', fun hsome => ?_⟩
    change h.handoff.isSome = true at hsome
    simp [hnone] at hsome
  unfold leavePrefill
  split
  · exact hdone _
  · split
    · exact enterDecode_keeps happ' hu
    · split
      · split
        · exact ⟨happ', hnone⟩
        · exact hdone _
      · exact hdone _

theorem Unsent.keeps (happ : app.decode = decoders) (hu : Unsent h) {a : Await}
    (ha : ∀ h : Handler, OkAt decoders h a = Unsent h) :
    Keeps decoders (app, { h with await := a }) := by
  refine ⟨happ, ?_⟩
  change OkAt decoders { h with await := a } a
  rw [ha]
  exact ⟨hu.submitted, hu.posts, hu.received, hu.releases⟩

theorem resumeFirst_keeps {res : App × Handler} (happ : app.decode = decoders) (hu : Unsent h)
    (hres : h.resumeFirst app handoff env o = some res) : Keeps decoders res := by
  unfold resumeFirst at hres
  split at hres
  · exact Option.some.inj hres ▸ hu.keeps happ fun _ => rfl
  · refine Option.some.inj hres ▸ ?_
    unfold sentFirst
    split
    · exact capture_keeps happ hu
    · split
      · exact hu.keeps happ fun _ => rfl
      · exact hu.keeps happ fun _ => rfl
  · exact Option.some.inj hres ▸ hu.keeps happ fun _ => rfl
  · exact Option.some.inj hres ▸ capture_keeps happ hu
  · exact Option.some.inj hres ▸ finallyDecode_keeps _ happ hu.leaving
  · exact Option.some.inj hres ▸ raiseDecode_unsent happ hu
  · cases hres

theorem Answered.ok (ha : Answered decoders h) {a : Await}
    (hok : ∀ h : Handler, OkAt decoders h a = Answered decoders h) :
    Ok decoders { h with await := a } := by
  change OkAt decoders { h with await := a } a
  rw [hok]
  exact ha

theorem Answered.exit_ok {body : Result} (ha : Answered decoders h)
    (hbody : body ≠ .raised .connector) : Ok decoders { h with await := .decodeExit body } :=
  ⟨ha, hbody⟩

theorem resumeDecode_ok {h' : Handler} (ha : Answered decoders h)
    (hraised : ∀ e, o = .raised e → e ≠ .connector)
    (hres : h.resumeDecode o = some h') : Ok decoders h' := by
  unfold resumeDecode at hres
  split at hres
  case h_1 => exact Option.some.inj hres ▸ ha.exit_ok nofun
  case h_5 => exact Option.some.inj hres ▸ ha.exit_ok nofun
  case h_6 e =>
    refine Option.some.inj hres ▸ ha.exit_ok fun he => hraised e rfl ?_
    exact Result.raised.inj he
  case h_7 => cases hres
  all_goals exact Option.some.inj hres ▸ ha.ok fun _ => rfl

theorem respond_ok {status : Nat} (hp : Posting decoders h d) :
    Ok decoders (h.respond status) := by
  have ha : Answered decoders { h with received := h.received ++ h.decoder.toList } :=
    ⟨hp.submitted, hp.releases, d, hp.mem, hp.posts, by simp [hp.received, hp.decoder]⟩
  unfold respond raiseForStatus
  simp only
  split
  · next e he =>
    refine ha.exit_ok fun hconn => ?_
    obtain rfl := Result.raised.inj hconn
    split at he <;> cases he
  · split
    · exact ha.ok fun _ => rfl
    · exact ha.ok fun _ => rfl

theorem postFailed_keeps {received : Bool} (happ : app.decode = decoders)
    (hconn : ¬(e = .connector ∧ received = true)) (hp : Posting decoders h d) :
    Keeps decoders (h.postFailed app e received) := by
  apply raiseDecode_keeps happ
  cases received with
  | true =>
    refine ⟨fun _ => .inl ⟨hp.submitted, d, hp.mem, hp.posts, .inl ?_, hp.releases⟩,
      fun he => absurd ⟨he, rfl⟩ hconn⟩
    simp [hp.received, hp.decoder]
  | false =>
    constructor
    · intro hne
      exact .inl ⟨hp.submitted, d, hp.mem, hp.posts, .inr ⟨hp.received, e, hne, rfl⟩, hp.releases⟩
    · intro he
      exact ⟨⟨hp.received, .inr ⟨⟨d, hp.mem, hp.posts⟩, congrArg some he⟩⟩, hp.releases⟩

theorem done_keeps (happ : app.decode = decoders) (hnone : h.handoff = none) (r : Result) :
    Keeps decoders (app, { h with await := .done r }) := by
  refine ⟨happ, fun hsome => ?_⟩
  change h.handoff.isSome = true at hsome
  simp [hnone] at hsome

theorem Answered.raise_keeps (happ : app.decode = decoders)
    (ha : Answered decoders h) (hne : e ≠ .connector) : Keeps decoders (h.raiseDecode app e) :=
  raiseDecode_keeps happ ⟨fun _ => ha.leaving, fun he => absurd he hne⟩

theorem resume_keeps {res : App × Handler}
    (happ : app.decode = decoders) (hok : Ok decoders h) (hallowed : o.allowedAt h.await = true)
    (hres : h.resume app env o = some res) : Keeps decoders res := by
  unfold resume at hres
  unfold Ok at hok
  cases hawait : h.await with
  | requestJson =>
    rw [hawait] at hres hok
    obtain ⟨hnone, hu⟩ := hok
    simp only at hres
    split at hres
    · split at hres
      · exact Option.some.inj hres ▸
          ⟨happ, hnone, hu.submitted, hu.posts, hu.received, hu.releases⟩
      · have hdone : Keeps decoders (app, { h with
            prefillLoads := some app.prefillLoads, await := .done (.raised .other) }) := by
          refine ⟨happ, fun hsome => ?_⟩
          change h.handoff.isSome = true at hsome
          simp [hnone] at hsome
        exact Option.some.inj hres ▸ hdone
    · exact Option.some.inj hres ▸ done_keeps happ hnone _
    · exact Option.some.inj hres ▸ done_keeps happ hnone _
    · cases hres
  | prefillPost =>
    rw [hawait] at hres hok
    obtain ⟨hnone, hu⟩ := hok
    simp only at hres
    split at hres
    · split at hres
      all_goals exact Option.some.inj hres ▸
          ⟨happ, hnone, hu.submitted, hu.posts, hu.received, hu.releases⟩
    · exact Option.some.inj hres ▸ leavePrefill_keeps happ hnone hu
    · cases hres
  | prefillJson =>
    rw [hawait] at hres hok
    obtain ⟨hnone, hu⟩ := hok
    simp only at hres
    split at hres
    case h_3 => cases hres
    all_goals exact Option.some.inj hres ▸
        ⟨happ, hnone, hu.submitted, hu.posts, hu.received, hu.releases⟩
  | prefillExit body =>
    rw [hawait] at hres hok
    simp only at hres
    split at hres
    case h_3 => cases hres
    all_goals exact Option.some.inj hres ▸ leavePrefill_keeps happ hok.1 hok.2
  | releaseInvalid e =>
    rw [hawait] at hres hok
    simp only at hres
    split at hres
    case h_3 => cases hres
    all_goals exact Option.some.inj hres ▸ done_keeps happ hok _
  | decodePost =>
    rw [hawait] at hres hok
    obtain ⟨d, hp⟩ := hok
    simp only at hres
    split at hres
    · exact Option.some.inj hres ▸ ⟨happ, respond_ok hp⟩
    · split at hres
      · cases hres
      · next hconn => exact Option.some.inj hres ▸ postFailed_keeps happ hconn hp
    · cases hres
  | decodeExit body =>
    rw [hawait] at hres hok hallowed
    obtain ⟨ha, hbody⟩ := hok
    simp only at hres
    split at hres
    · exact Option.some.inj hres ▸ finallyDecode_keeps _ happ ha.leaving
    · refine Option.some.inj hres ▸ ha.raise_keeps happ fun he => hbody ?_
      exact congrArg Result.raised he
    · refine Option.some.inj hres ▸ ha.raise_keeps happ fun he => ?_
      simp [Outcome.allowedAt, Await.connects, he] at hallowed
    · cases hres
  | writeError e =>
    rw [hawait] at hres hok
    simp only at hres
    split at hres
    case h_3 => cases hres
    all_goals exact Option.some.inj hres ▸ finallyDecode_keeps _ happ hok
  | release r =>
    rw [hawait] at hres hok
    simp only at hres
    split at hres
    case h_3 => cases hres
    all_goals exact Option.some.inj hres ▸
      ⟨happ, fun _ => .inr ⟨⟨hok.received, hok.posts⟩, hok.releases⟩⟩
  | done r =>
    rw [hawait] at hres
    cases hres
  | prepare | sendFirst | sendUsage | sendDone | terminalEof =>
    rw [hawait] at hres hok
    obtain ⟨handoff, -, hrun⟩ := Option.bind_eq_some_iff.mp hres
    exact resumeFirst_keeps happ hok hrun
  | decodeJson | nextChunk | writeChunk | writeEof =>
    rw [hawait] at hres hok hallowed
    obtain ⟨h', hrun, rfl⟩ := Option.map_eq_some_iff.mp hres
    refine ⟨happ, resumeDecode_ok hok (fun e ho he => ?_) hrun⟩
    simp [ho, he, Outcome.allowedAt, Await.connects] at hallowed

end Handler

/-- Every handler of the proxy has kept to `Ok`. -/
structure ProxyOk (decoders : List Url) (p : Proxy) : Prop where
  decode : p.app.decode = decoders
  handlers : ∀ h ∈ p.handlers, h.Ok decoders

theorem ProxyOk.step {decoders : List Url} {p p' : Proxy} {ev : Event}
    (hp : ProxyOk decoders p) (hstep : step p ev = some p') : ProxyOk decoders p' := by
  cases ev with
  | accept =>
    obtain rfl := Option.some.inj hstep
    refine ⟨hp.decode, fun h hh => ?_⟩
    rcases List.mem_append.mp hh with hh | hh
    · exact hp.handlers h hh
    · obtain rfl := List.mem_singleton.mp hh
      exact ⟨rfl, rfl, rfl, rfl, rfl⟩
  | resume i env o =>
    simp only [Proxy.step] at hstep
    split at hstep
    · cases hstep
    · next h hi =>
      split at hstep
      · next hallowed =>
        obtain ⟨⟨app', h'⟩, hres, rfl⟩ := Option.map_eq_some_iff.mp hstep
        have hkeeps := Handler.resume_keeps hp.decode
          (hp.handlers h (List.mem_of_getElem? hi)) hallowed hres
        refine ⟨hkeeps.1, fun h'' hh => ?_⟩
        rcases List.mem_or_eq_of_mem_set hh with hold | rfl
        · exact hp.handlers h'' hold
        · exact hkeeps.2
      · cases hstep


namespace Handler

structure AtMostOnce (h : Handler) : Prop where
  posts : h.posts.length ≤ 1
  received : h.received = [] ∨ h.received = h.posts
  releases : h.releases.length ≤ 1
  exclusive : h.releases = [] ∨ h.received = []

variable {decoders : List Url} {h : Handler}

theorem Unsent.atMostOnce (hu : Unsent h) : AtMostOnce h :=
  ⟨by simp [hu.posts], .inl hu.received, by simp [hu.releases], .inl hu.releases⟩

theorem Posted.atMostOnce (hp : Posted decoders h d) : AtMostOnce h := by
  refine ⟨by simp [hp.posts], ?_, by simp [hp.releases], .inl hp.releases⟩
  rcases hp.received with hrec | ⟨hrec, -⟩
  · exact .inr (hrec.trans hp.posts.symm)
  · exact .inl hrec

theorem Unreceived.atMostOnce (hu : Unreceived decoders h) (hrel : h.releases.length ≤ 1) :
    AtMostOnce h := by
  refine ⟨?_, .inl hu.received, hrel, .inr hu.received⟩
  rcases hu.posts with hposts | ⟨⟨d, -, hposts⟩, -⟩
  · simp [hposts]
  · simp [hposts]

theorem Released.atMostOnce (hr : Released decoders h) : AtMostOnce h := by
  obtain ⟨d, -, hrel⟩ := hr.releases
  exact hr.toUnreceived.atMostOnce (by simp [hrel])

theorem Leaving.atMostOnce (hl : Leaving decoders h) : AtMostOnce h := by
  rcases hl with ⟨-, d, hp⟩ | ⟨-, hrel, hun⟩
  · exact hp.atMostOnce
  · exact hun.atMostOnce (by simp [hrel])

theorem Ok.atMostOnce (hok : Ok decoders h) (hsome : h.handoff.isSome = true) :
    AtMostOnce h := by
  unfold Ok at hok
  cases hawait : h.await <;> rw [hawait] at hok
  case releaseInvalid => simp [show h.handoff = none from hok] at hsome
  case requestJson | prefillPost | prefillJson | prefillExit => exact hok.2.atMostOnce
  case prepare | sendFirst | sendUsage | sendDone | terminalEof => exact hok.atMostOnce
  case decodePost =>
    obtain ⟨d, hp⟩ := hok
    exact ⟨by simp [hp.posts], .inl hp.received, by simp [hp.releases], .inl hp.releases⟩
  case decodeJson | nextChunk | writeChunk | writeEof => exact hok.leaving.atMostOnce
  case decodeExit => exact hok.1.leaving.atMostOnce
  case writeError => exact hok.atMostOnce
  case release => exact hok.atMostOnce
  case done =>
    rcases hok hsome with ⟨d, hp⟩ | hr
    · exact hp.atMostOnce
    · exact hr.atMostOnce

theorem Ok.disposed (hok : Ok decoders h) (hdone : h.isDone = true)
    (hsome : h.handoff.isSome = true) : (∃ d, Posted decoders h d) ∨ Released decoders h := by
  unfold Ok at hok
  unfold isDone at hdone
  split at hdone
  · next r hawait =>
    rw [hawait] at hok
    exact hok hsome
  · cases hdone

end Handler

/-- In every interleaving, a handler that has a handoff sends it to at most one decoder and
releases it at most once, never both. When it is done, either it posted the handoff to one
decoder and released nothing, and the decoder received it unless the post was cancelled or
raised another error than a connection error; or no decoder received it, since it was never
posted or the post could not connect, and exactly one release was started. -/
theorem handoff_disposed_once (app : App) (events : List Event) (p : Proxy)
    (hrun : Machine.exec step (.start app) events = some p) (h : Handler)
    (hmem : h ∈ p.handlers) (hhandoff : h.handoff.isSome = true) :
    h.AtMostOnce ∧
      (h.isDone = true → (∃ d, h.Posted app.decode d) ∨ h.Released app.decode) := by
  have hp : ProxyOk app.decode p :=
    Machine.exec_invariant (fun _ _ _ hp hs => hp.step hs) ⟨rfl, fun _ hh => absurd hh List.not_mem_nil⟩
      hrun
  have hok := hp.handlers h hmem
  exact ⟨hok.atMostOnce hhandoff, fun hdone => hok.disposed hdone hhandoff⟩

def idleApp : App where
  prefill := [0]
  decode := [1, 2]
  decode_ne := by decide
  prefillInflight := fun _ => 0
  decodeInflight := fun _ => 0
  captureFile := none

def oneTokenResult : PrefillResult where
  kvTransferParams := some
    { doRemotePrefill := true
      prefillFirstTokenId := some 7
      prefillPromptTokens := some 1
      prefillContinues := some true
      eldrSig := none }
  choices := [{ tokenIds := some [7], promptTokenIds := some [3] }]
  created := some 0

def untilPost (o : Outcome) : List Event :=
  .accept :: [.request (some { stream := false, includeUsage := false }), .response 200,
    .result oneTokenResult, .returned, o].map (.resume 0 {})

theorem handoff_disposed_once_refused :
    ∃ p, Machine.exec step (.start idleApp)
        (untilPost (.postRaised .connector false) ++ [.resume 0 {} .returned]) = some p ∧
      ∃ h ∈ p.handlers, h.AtMostOnce ∧ h.releases = [2] := by
  obtain ⟨p, hrun, h, hmem, hsome, hrel⟩ : ∃ p, Machine.exec step (.start idleApp)
        (untilPost (.postRaised .connector false) ++ [.resume 0 {} .returned]) = some p ∧
      ∃ h ∈ p.handlers, h.handoff.isSome = true ∧ h.releases = [2] :=
    ⟨_, rfl, _, List.mem_singleton_self _, rfl, rfl⟩
  exact ⟨p, hrun, h, hmem, (handoff_disposed_once idleApp _ p hrun h hmem hsome).1, hrel⟩

/-- A handler cancelled while it connects to the decoder ends with a handoff that no decoder
has received and for which no release was started. -/
theorem cancelled_post_drops_handoff :
    ∃ p, Machine.exec step (.start idleApp) (untilPost (.postRaised .cancelled false)) =
        some p ∧
      ∃ h ∈ p.handlers, h.handoff.isSome = true ∧ h.isDone = true ∧
        h.received = [] ∧ h.releases = [] :=
  ⟨_, rfl, _, List.mem_singleton_self _, rfl, rfl, rfl, rfl⟩

end EldrServing.Proxy
