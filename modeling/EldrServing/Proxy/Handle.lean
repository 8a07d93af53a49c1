import EldrServing.Lib.Machine
import Mathlib.Logic.Function.Basic

/-!
# The proxy's request handler

`handle` of `eldr/serving/proxy.py` as a coroutine: `Await` names the `await` at which a
handler is suspended, and `resume` runs it from there to its next `await`, through the
`try`/`except`/`finally` blocks it is in. What an `await` delivers, and what the routing
policy and the capture file do in between, are given by the event. Any number of handlers
run interleaved over one application state.
-/

namespace EldrServing.Proxy

set_option autoImplicit false

abbrev Url := Nat

abbrev Bytes := List UInt8

/-- The exceptions `handle` tells apart. `connector` stands for `ClientConnectorError` and
`ConnectionTimeoutError`; `cancelled` is not an `Exception`, so no `except` clause sees it. -/
inductive Exc where
  | connector
  | http (status : Nat) (reason : String)
  | other
  | cancelled
  deriving DecidableEq, Repr

def Exc.isException : Exc → Bool
  | .cancelled => false
  | _ => true

structure PrefillChoice where
  tokenIds : Option (List Int)
  promptTokenIds : Option (List Int)
  deriving DecidableEq, Repr

/-- The `kv_transfer_params` of a prefill response. `eldrSig` is `none` when the signature is
missing or empty, and `some none` when it is not valid base64. -/
structure Transfer where
  doRemotePrefill : Bool
  prefillFirstTokenId : Option Int
  prefillPromptTokens : Option Nat
  prefillContinues : Option Bool
  eldrSig : Option (Option Bytes)
  deriving DecidableEq, Repr

structure PrefillResult where
  kvTransferParams : Option Transfer
  choices : List PrefillChoice
  created : Option Nat
  deriving DecidableEq, Repr

/-- A handoff that passed `unpack_prefill`. -/
structure Handoff where
  transfer : Transfer
  promptIds : List Int
  continues : Bool
  continues_eq : transfer.prefillContinues = some continues
  created : Option Nat

def unpackPrefill (result : PrefillResult) : Except Exc Handoff :=
  match result.kvTransferParams, result.choices with
  | some transfer, [choice] =>
    match transfer.prefillFirstTokenId, choice.promptTokenIds,
        h : transfer.prefillContinues with
    | some token, some prompt, some continues =>
      if choice.tokenIds = some [token] ∧ transfer.prefillPromptTokens = some prompt.length then
        .ok { transfer, promptIds := prompt, continues, continues_eq := h,
              created := result.created }
      else .error (.http 502 "Invalid prefill-first token history")
    | _, _, _ => .error (.http 502 "Invalid prefill-first token history")
  | _, _ => .error (.http 502 "Missing prefill-first handoff")

/-- What `handle` reads of a validated request body. -/
structure Payload where
  stream : Bool
  includeUsage : Bool
  deriving DecidableEq, Repr

inductive Result where
  | returned
  | raised (e : Exc)
  deriving DecidableEq, Repr

/-- The `await`s of `handle`. The exits of the two `async with` blocks carry what the body
ended with. -/
inductive Await where
  | requestJson
  | prefillPost
  | prefillJson
  | prefillExit (body : Except Exc PrefillResult)
  | releaseInvalid (e : Exc)
  | prepare
  | sendFirst
  | sendUsage
  | sendDone
  | terminalEof
  | decodePost
  | decodeJson
  | nextChunk
  | writeChunk
  | writeEof
  | decodeExit (body : Result)
  | writeError (e : Exc)
  | release (r : Result)
  | done (r : Result)

/-- Only opening a connection raises a connection error. -/
def Await.connects : Await → Bool
  | .prefillPost | .releaseInvalid _ | .decodePost | .release _ => true
  | _ => false

/-- The local variables of one run of `handle`. The last six fields are not in the source:
they record the loads that the routers were given, the decoders whose completion endpoint the
handoff was posted to, those that received it, what opening the post raised, and the decoders
a release was started through. -/
structure Handler where
  await : Await := .requestJson
  payload : Payload := { stream := false, includeUsage := false }
  prefiller : Option Url := none
  handoff : Option Handoff := none
  streamResponse : Bool := false
  decoder : Option Url := none
  submitted : Bool := false
  prefillLoads : Option (List Int) := none
  decodeLoads : Option (List Int) := none
  posts : List Url := []
  received : List Url := []
  postRaised : Option Exc := none
  releases : List Url := []

def Handler.isDone (h : Handler) : Bool :=
  match h.await with
  | .done _ => true
  | _ => false

structure App where
  prefill : List Url
  decode : List Url
  decode_ne : decode ≠ []
  prefillInflight : Url → Int
  decodeInflight : Url → Int
  captureFile : Option (List Bytes)

/-- The choices made outside `handle` while it runs between two `await`s: the indices the
routers select (`none` when they raise) and whether the capture file takes the write. -/
structure Env where
  prefillIndex : Option Nat := some 0
  decodeIndex : Option Nat := some 0
  captureWrites : Bool := true

namespace App

/-- The loads that `choose_prefill` passes to the router. -/
def prefillLoads (app : App) : List Int := app.prefill.map app.prefillInflight

/-- The loads that `choose_decode` passes to the router. -/
def decodeLoads (app : App) : List Int := app.decode.map app.decodeInflight

def choosePrefill (app : App) (env : Env) : Option Url :=
  env.prefillIndex.bind fun i => app.prefill[i]?

def chooseDecode (app : App) (env : Env) : Option Url :=
  env.decodeIndex.bind fun i => app.decode[i]?

def addPrefill (app : App) (url : Url) (n : Int) : App :=
  { app with
    prefillInflight := Function.update app.prefillInflight url (app.prefillInflight url + n) }

def addDecode (app : App) (url : Url) (n : Int) : App :=
  { app with
    decodeInflight := Function.update app.decodeInflight url (app.decodeInflight url + n) }

def leavePrefill (app : App) : Option Url → App
  | some p => app.addPrefill p (-1)
  | none => app

def leaveDecode (app : App) : Option Url → App
  | some d => app.addDecode d (-1)
  | none => app

@[simp] theorem leavePrefill_decode (app : App) (p : Option Url) :
    (app.leavePrefill p).decode = app.decode := by
  cases p <;> rfl

@[simp] theorem leaveDecode_decode (app : App) (d : Option Url) :
    (app.leaveDecode d).decode = app.decode := by
  cases d <;> rfl

/-- A decoder other than the selected one, when there is one. -/
def releaseDecoder (app : App) (decoder : Option Url) : Url :=
  (app.decode.find? fun url => some url ≠ decoder).getD (app.decode.head app.decode_ne)

end App

namespace Handler

/-- The `finally` clause around the decode section, left with `r`. -/
def finallyDecode (app : App) (h : Handler) (r : Result) : App × Handler :=
  let app := app.leaveDecode h.decoder
  if h.submitted then (app, { h with await := .done r })
  else
    (app, { h with
      releases := h.releases ++ [app.releaseDecoder h.decoder]
      await := .release r })

/-- An exception in the decode section: the `except` clause, then the `finally` clause. -/
def raiseDecode (app : App) (h : Handler) (e : Exc) : App × Handler :=
  if e.isException then
    let h := if e = .connector then { h with submitted := false } else h
    if h.streamResponse then (app, { h with await := .writeError e })
    else h.finallyDecode app (.raised e)
  else h.finallyDecode app (.raised e)

def submit (app : App) (h : Handler) (handoff : Handoff) (env : Env) : App × Handler :=
  let h := { h with decodeLoads := some app.decodeLoads }
  match app.chooseDecode env with
  | none => h.raiseDecode app .other
  | some d =>
    let app := app.addDecode d 1
    let h := { h with decoder := some d }
    match handoff.created with
    | none => h.raiseDecode app .other
    | some _ =>
      (app, { h with submitted := true, posts := h.posts ++ [d], await := .decodePost })

def route (app : App) (h : Handler) (handoff : Handoff) (env : Env) : App × Handler :=
  if handoff.continues then h.submit app handoff env
  else if h.streamResponse then (app, { h with await := .terminalEof })
  else h.finallyDecode app .returned

def capture (app : App) (h : Handler) (handoff : Handoff) (env : Env) : App × Handler :=
  match app.captureFile with
  | none => h.route app handoff env
  | some frames =>
    match handoff.transfer.eldrSig with
    | none => h.raiseDecode app (.http 500 "Training capture requires ELDR=1")
    | some none => h.raiseDecode app .other
    | some (some raw) =>
      if env.captureWrites then
        h.route { app with captureFile := some (frames ++ [raw]) } handoff env
      else h.raiseDecode app .other

def enterDecode (app : App) (h : Handler) (handoff : Handoff) (env : Env) : App × Handler :=
  let h := { h with handoff := some handoff }
  if h.payload.stream then (app, { h with streamResponse := true, await := .prepare })
  else h.capture app handoff env

/-- The `finally` clause of the prefill section and, when its body left a result, the code up
to the decode section. -/
def leavePrefill (app : App) (h : Handler) (env : Env) (body : Except Exc PrefillResult) :
    App × Handler :=
  let app := app.leavePrefill h.prefiller
  match body with
  | .error e => (app, { h with await := .done (.raised e) })
  | .ok result =>
    match unpackPrefill result with
    | .ok handoff => h.enterDecode app handoff env
    | .error e =>
      match result.kvTransferParams with
      | some pending =>
        if pending.doRemotePrefill then
          (app, { h with
            releases := h.releases ++ [app.decode.head app.decode_ne]
            await := .releaseInvalid e })
        else (app, { h with await := .done (.raised e) })
      | none => (app, { h with await := .done (.raised e) })

end Handler

/-- What an `await` delivers. For the body of the request, `none` is one that
`validate_request` rejects; `postRaised e received` is a post to a decoder that raised `e`,
with or without the request having reached the decoder. -/
inductive Outcome where
  | returned
  | request (payload : Option Payload)
  | response (status : Nat)
  | result (result : PrefillResult)
  | chunk
  | endOfStream
  | raised (e : Exc)
  | postRaised (e : Exc) (received : Bool)

namespace Handler

/-- After `send_prefill` has written the first chunk. -/
def sentFirst (app : App) (h : Handler) (handoff : Handoff) (env : Env) : App × Handler :=
  if handoff.continues then h.capture app handoff env
  else if h.payload.includeUsage then (app, { h with await := .sendUsage })
  else (app, { h with await := .sendDone })

def raiseForStatus (status : Nat) : Option Exc :=
  if 400 ≤ status then some (.http status "") else none

def respond (h : Handler) (status : Nat) : Handler :=
  let h := { h with received := h.received ++ h.decoder.toList }
  match raiseForStatus status with
  | some e => { h with await := .decodeExit (.raised e) }
  | none => { h with await := if h.streamResponse then .nextChunk else .decodeJson }

def postFailed (app : App) (h : Handler) (e : Exc) (received : Bool) : App × Handler :=
  let h := { h with
    postRaised := some e
    received := if received then h.received ++ h.decoder.toList else h.received }
  h.raiseDecode app e

/-- The handler goes on in the decode section, suspended at one of its `await`s before the
post; `none` when the outcome is not one of that `await`. -/
def resumeFirst (app : App) (h : Handler) (handoff : Handoff) (env : Env) (o : Outcome) :
    Option (App × Handler) :=
  match h.await, o with
  | .prepare, .returned => some (app, { h with await := .sendFirst })
  | .sendFirst, .returned => some (h.sentFirst app handoff env)
  | .sendUsage, .returned => some (app, { h with await := .sendDone })
  | .sendDone, .returned => some (h.capture app handoff env)
  | .terminalEof, .returned => some (h.finallyDecode app .returned)
  | _, .raised e => some (h.raiseDecode app e)
  | _, _ => none

/-- Suspended inside the `async with` block of the decoder's response. -/
def resumeDecode (h : Handler) (o : Outcome) : Option Handler :=
  match h.await, o with
  | .decodeJson, .returned => some { h with await := .decodeExit .returned }
  | .nextChunk, .chunk => some { h with await := .writeChunk }
  | .nextChunk, .endOfStream => some { h with await := .writeEof }
  | .writeChunk, .returned => some { h with await := .nextChunk }
  | .writeEof, .returned => some { h with await := .decodeExit .returned }
  | _, .raised e => some { h with await := .decodeExit (.raised e) }
  | _, _ => none

def resume (app : App) (h : Handler) (env : Env) (o : Outcome) : Option (App × Handler) :=
  match h.await with
  | .requestJson =>
    match o with
    | .request (some payload) =>
      let h := { h with prefillLoads := some app.prefillLoads }
      match app.choosePrefill env with
      | some p =>
        some (app.addPrefill p 1, { h with payload, prefiller := some p, await := .prefillPost })
      | none => some (app, { h with await := .done (.raised .other) })
    | .request none => some (app, { h with await := .done (.raised (.http 400 "")) })
    | .raised e => some (app, { h with await := .done (.raised e) })
    | _ => none
  | .prefillPost =>
    match o with
    | .response status =>
      match raiseForStatus status with
      | some e => some (app, { h with await := .prefillExit (.error e) })
      | none => some (app, { h with await := .prefillJson })
    | .raised e => some (h.leavePrefill app env (.error e))
    | _ => none
  | .prefillJson =>
    match o with
    | .result result => some (app, { h with await := .prefillExit (.ok result) })
    | .raised e => some (app, { h with await := .prefillExit (.error e) })
    | _ => none
  | .prefillExit body =>
    match o with
    | .returned => some (h.leavePrefill app env body)
    | .raised e => some (h.leavePrefill app env (.error e))
    | _ => none
  | .releaseInvalid e =>
    match o with
    | .returned => some (app, { h with await := .done (.raised e) })
    | .raised e => some (app, { h with await := .done (.raised e) })
    | _ => none
  | .prepare | .sendFirst | .sendUsage | .sendDone | .terminalEof =>
    h.handoff.bind fun handoff => h.resumeFirst app handoff env o
  | .decodePost =>
    match o with
    | .response status => some (app, h.respond status)
    | .postRaised e received =>
      -- A connection error is known to precede the request.
      if e = .connector ∧ received then none else some (h.postFailed app e received)
    | _ => none
  | .decodeJson | .nextChunk | .writeChunk | .writeEof => (h.resumeDecode o).map (app, ·)
  | .decodeExit body =>
    match body, o with
    | .returned, .returned => some (h.finallyDecode app .returned)
    | .raised e, .returned => some (h.raiseDecode app e)
    | _, .raised e => some (h.raiseDecode app e)
    | _, _ => none
  | .writeError e =>
    match o with
    | .returned => some (h.finallyDecode app (.raised e))
    | .raised e => some (h.finallyDecode app (.raised e))
    | _ => none
  | .release r =>
    match o with
    | .returned => some (app, { h with await := .done r })
    | .raised e => some (app, { h with await := .done (.raised e) })
    | _ => none
  | .done _ => none

end Handler

structure Proxy where
  app : App
  handlers : List Handler

def Proxy.start (app : App) : Proxy := { app, handlers := [] }

inductive Event where
  | accept
  | resume (i : Nat) (env : Env) (o : Outcome)

def Outcome.allowedAt (a : Await) : Outcome → Bool
  | .raised e => a.connects || e ≠ .connector
  | _ => true

def step (p : Proxy) : Event → Option Proxy
  | .accept => some { p with handlers := p.handlers ++ [{}] }
  | .resume i env o =>
    match p.handlers[i]? with
    | none => none
    | some h =>
      if o.allowedAt h.await then
        (h.resume p.app env o).map fun (app, h) => { app, handlers := p.handlers.set i h }
      else none

end EldrServing.Proxy
