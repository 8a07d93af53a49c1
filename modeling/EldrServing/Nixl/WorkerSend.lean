import EldrServing.Lib.Machine
import EldrServing.Nixl.Scheduler

/-!
# The NIXL worker's sending side

What `NixlConnectorWorker` keeps of the requests whose blocks a remote engine reads:
`start_load_kv` takes the metadata of a step, `_get_new_notifs` counts the readers and
`get_finished` reports the requests that were read or whose lease ran out.
-/

namespace EldrServing.Nixl

set_option autoImplicit false

open KVCache

def tpRatio (tpSize remoteTpSize : Nat) : Except PyError Int :=
  if remoteTpSize ≤ tpSize then do
    assert (tpSize % remoteTpSize = 0)
      "Local tensor parallel size is not divisible by remote tensor parallel size"
    .ok (tpSize / remoteTpSize : Nat)
  else do
    assert (remoteTpSize % tpSize = 0)
      "Remote tensor parallel size is not divisible by local tensor parallel size"
    .ok (-(remoteTpSize / tpSize : Nat))

/-- The number of reads a producer rank waits for, when `nConsumers` ranks read. -/
def consumersPerProducer (worldSize nConsumers : Nat) : Except PyError Nat := do
  let ratio ← tpRatio worldSize nConsumers
  .ok (if worldSize < nConsumers then (-ratio).toNat else 1)

structure SendWorker where
  worldSize : Nat := 1
  reqsToProcess : Finset ReqId := ∅
  /-- The leases: expiration times, oldest first. -/
  reqsToSend : Dict ReqId Nat := .empty
  consumerNotificationCountsByReq : Dict ReqId Nat := .empty

namespace SendWorker

def removeToProcess (w : SendWorker) (r : ReqId) : Except PyError SendWorker :=
  if r ∈ w.reqsToProcess then .ok { w with reqsToProcess := w.reqsToProcess.erase r }
  else .error (.keyError "")

def finish (w : SendWorker) (done : List ReqId) (r : ReqId) :
    Except PyError (SendWorker × List ReqId) := do
  let w ← w.removeToProcess r
  .ok ({ w with
    reqsToSend := w.reqsToSend.erase r
    consumerNotificationCountsByReq := w.consumerNotificationCountsByReq.erase r },
    if r ∈ done then done else done ++ [r])

/-- `start_load_kv`, as far as it concerns requests to send. -/
def startLoadKv (w : SendWorker) (metadata : NixlConnectorMetadata) :
    Except PyError SendWorker := do
  let w := { w with
    reqsToProcess := (w.reqsToProcess ∪ metadata.reqsInBatch) \ metadata.reqsNotProcessed }
  assert (∀ r ∈ metadata.reqsNotProcessed, w.reqsToSend.contains r = false) ""
  .ok { w with
    reqsToSend := metadata.reqsToSend.entries.foldl
      (fun send e => if e.1 ∈ w.reqsToProcess then send.insert e.1 e.2 else send) w.reqsToSend }

/-- One message of `_get_new_notifs`: the request and the number of ranks of its reader. -/
def receiveNotif (acc : SendWorker × List ReqId) (notif : ReqId × Nat) :
    Except PyError (SendWorker × List ReqId) :=
  let (w, done) := acc
  if w.reqsToSend.contains notif.1 = false ∧ notif.1 ∉ w.reqsToProcess then .ok (w, done)
  else do
    let expected ← consumersPerProducer w.worldSize notif.2
    let count := w.consumerNotificationCountsByReq.getD notif.1 0 + 1
    let w := { w with
      consumerNotificationCountsByReq := w.consumerNotificationCountsByReq.insert notif.1 count }
    if count = expected then w.finish done notif.1 else .ok (w, done)

def getNewNotifs (w : SendWorker) (notifs : List (ReqId × Nat)) :
    Except PyError (SendWorker × List ReqId) :=
  notifs.foldlM receiveNotif (w, [])

def expireLoop (now : Nat) :
    List (ReqId × Nat) → SendWorker × List ReqId → Except PyError (SendWorker × List ReqId)
  | [], acc => .ok acc
  | (r, expires) :: rest, (w, done) =>
    if now < expires then .ok (w, done)
    else do
      let acc ← w.finish done r
      expireLoop now rest acc

/-- `get_finished`: the requests done sending. -/
def getFinished (w : SendWorker) (notifs : List (ReqId × Nat)) (now : Nat) :
    Except PyError (SendWorker × List ReqId) := do
  let (w, done) ← w.getNewNotifs notifs
  expireLoop now w.reqsToSend.entries (w, done)

/-- Every lease is of a request that is still to be processed. -/
def Ok (w : SendWorker) : Prop := ∀ r e, w.reqsToSend.get? r = some e → r ∈ w.reqsToProcess

theorem receiveNotif_unknown {w : SendWorker} {r : ReqId} (hprocess : r ∉ w.reqsToProcess)
    (hsend : w.reqsToSend.get? r = none) (done : List ReqId) (n : Nat) :
    receiveNotif (w, done) (r, n) = .ok (w, done) := by
  unfold receiveNotif
  simp [hprocess, Dict.contains, hsend]

theorem startLoadKv_ok {w : SendWorker} {metadata : NixlConnectorMetadata}
    (h : ∀ r ∈ metadata.reqsNotProcessed, w.reqsToSend.get? r = none) :
    ∃ send, w.startLoadKv metadata = .ok { w with
      reqsToProcess := (w.reqsToProcess ∪ metadata.reqsInBatch) \ metadata.reqsNotProcessed
      reqsToSend := send } ∧
      ∀ r, send.get? r =
        if r ∈ (w.reqsToProcess ∪ metadata.reqsInBatch) \ metadata.reqsNotProcessed then
          (metadata.reqsToSend.get? r).or (w.reqsToSend.get? r)
        else w.reqsToSend.get? r := by
  refine ⟨_, ?_, fun r => Dict.get?_foldl_insert_if
    (· ∈ (w.reqsToProcess ∪ metadata.reqsInBatch) \ metadata.reqsNotProcessed)
    metadata.reqsToSend.entries metadata.reqsToSend.nodup w.reqsToSend r⟩
  refine assert_bind_eq_ok.mpr ⟨fun r hr => ?_, rfl⟩
  simp [Dict.contains, h r hr]

/-- How far `get_finished` has come: `polled` are the messages it has read and `acc.2` the
requests it will report. -/
structure Finishing (w : SendWorker) (now : Nat) (polled : List (ReqId × Nat))
    (acc : SendWorker × List ReqId) : Prop where
  worldSize : acc.1.worldSize = w.worldSize
  nodup : acc.2.Nodup
  sub : ∀ r ∈ acc.2, r ∈ w.reqsToProcess
  process : ∀ r, r ∈ acc.1.reqsToProcess ↔ r ∈ w.reqsToProcess ∧ r ∉ acc.2
  send : ∀ r, acc.1.reqsToSend.get? r = if r ∈ acc.2 then none else w.reqsToSend.get? r
  counts : ∀ r, acc.1.consumerNotificationCountsByReq.getD r 0 ≤
    w.consumerNotificationCountsByReq.getD r 0 + polled.countP (·.1 = r)
  why : ∀ r ∈ acc.2, (∃ e, w.reqsToSend.get? r = some e ∧ e ≤ now) ∨
    ∃ n k, (r, n) ∈ polled ∧ consumersPerProducer w.worldSize n = .ok k ∧
      k ≤ w.consumerNotificationCountsByReq.getD r 0 + polled.countP (·.1 = r)

variable {w : SendWorker} {now : Nat} {polled : List (ReqId × Nat)}
  {acc : SendWorker × List ReqId}

theorem Finishing.start (w : SendWorker) (now : Nat) : Finishing w now [] (w, []) where
  worldSize := rfl
  nodup := List.nodup_nil
  sub := fun _ h => absurd h List.not_mem_nil
  process := fun r => by simp
  send := fun r => by simp
  counts := fun r => by simp
  why := fun _ h => absurd h List.not_mem_nil

theorem finish_eq_ok {done : List ReqId} {r : ReqId} (hr : r ∈ w.reqsToProcess)
    (hdone : r ∉ done) :
    w.finish done r = .ok ({ w with
      reqsToProcess := w.reqsToProcess.erase r
      reqsToSend := w.reqsToSend.erase r
      consumerNotificationCountsByReq := w.consumerNotificationCountsByReq.erase r },
      done ++ [r]) := by
  simp [finish, removeToProcess, hr, hdone, bind, Except.bind]

theorem Finishing.finish {r : ReqId} (h : Finishing w now polled acc)
    (hr : r ∈ acc.1.reqsToProcess)
    (hwhy : (∃ e, w.reqsToSend.get? r = some e ∧ e ≤ now) ∨
      ∃ n k, (r, n) ∈ polled ∧ consumersPerProducer w.worldSize n = .ok k ∧
        k ≤ w.consumerNotificationCountsByReq.getD r 0 + polled.countP (·.1 = r)) :
    ∃ acc', acc.1.finish acc.2 r = .ok acc' ∧ Finishing w now polled acc' ∧
      acc'.2 = acc.2 ++ [r] := by
  obtain ⟨hmem, hnot⟩ := (h.process r).mp hr
  refine ⟨_, finish_eq_ok hr hnot, ⟨h.worldSize, ?_, ?_, ?_, ?_, ?_, ?_⟩, rfl⟩
  · exact List.nodup_append.mpr ⟨h.nodup, List.nodup_singleton r, by
      intro a ha b hb
      obtain rfl := List.mem_singleton.mp hb
      exact fun hab => hnot (hab ▸ ha)⟩
  · intro a ha
    rcases List.mem_append.mp ha with ha | ha
    · exact h.sub a ha
    · obtain rfl := List.mem_singleton.mp ha
      exact hmem
  · intro a
    simp only [Finset.mem_erase, h.process a, List.mem_append, List.mem_singleton, not_or]
    tauto
  · intro a
    simp only [Dict.get?_erase, h.send a, List.mem_append, List.mem_singleton]
    rcases eq_or_ne r a with rfl | hne
    · simp
    · simp [hne, hne.symm]
  · intro a
    refine le_trans ?_ (h.counts a)
    simp only [Dict.getD, Dict.get?_erase]
    split
    · simp
    · exact le_refl _
  · intro a ha
    rcases List.mem_append.mp ha with ha | ha
    · exact h.why a ha
    · obtain rfl := List.mem_singleton.mp ha
      exact hwhy

theorem Finishing.receiveNotif (h : Finishing w now polled acc) (hok : w.Ok)
    {notif : ReqId × Nat} {k : Nat} (hk : consumersPerProducer w.worldSize notif.2 = .ok k) :
    ∃ acc', SendWorker.receiveNotif acc notif = .ok acc' ∧
      Finishing w now (polled ++ [notif]) acc' := by
  obtain ⟨r, n⟩ := notif
  obtain ⟨v, done⟩ := acc
  have hcount (a : ReqId) : (polled ++ [(r, n)]).countP (·.1 = a) =
      polled.countP (·.1 = a) + if r = a then 1 else 0 := by
    simp [List.countP_append, List.countP_cons]
  -- the relation only grows with the messages that were read
  have hgrow : Finishing w now (polled ++ [(r, n)]) (v, done) := by
    refine ⟨h.worldSize, h.nodup, h.sub, h.process, h.send, fun a => ?_, fun a ha => ?_⟩
    · have := h.counts a
      rw [hcount]
      omega
    · rcases h.why a ha with hexp | ⟨n', k', hmem, hk', hle⟩
      · exact .inl hexp
      · refine .inr ⟨n', k', List.mem_append_left _ hmem, hk', ?_⟩
        rw [hcount]
        omega
  unfold SendWorker.receiveNotif
  simp only
  split
  · exact ⟨_, rfl, hgrow⟩
  · next hknown =>
    have hr : r ∈ v.reqsToProcess := by
      rcases Classical.em (r ∈ v.reqsToProcess) with hr | hr
      · exact hr
      · have hsend : v.reqsToSend.contains r = true := by
          rcases hc : v.reqsToSend.contains r with _ | _
          · exact absurd ⟨hc, hr⟩ hknown
          · rfl
        obtain ⟨e, he⟩ := Option.isSome_iff_exists.mp hsend
        have hsend' := h.send r
        rw [he] at hsend'
        split at hsend'
        · cases hsend'
        · next hnot => exact (h.process r).mpr ⟨hok r e hsend'.symm, hnot⟩
    have hself : v.consumerNotificationCountsByReq.getD r 0 + 1 ≤
        w.consumerNotificationCountsByReq.getD r 0 + (polled ++ [(r, n)]).countP (·.1 = r) := by
      have hold : v.consumerNotificationCountsByReq.getD r 0 ≤ _ := h.counts r
      rw [hcount, if_pos rfl]
      omega
    have hcounted : Finishing w now (polled ++ [(r, n)]) ({ v with
        consumerNotificationCountsByReq := v.consumerNotificationCountsByReq.insert r
          (v.consumerNotificationCountsByReq.getD r 0 + 1) }, done) := by
      refine ⟨hgrow.worldSize, hgrow.nodup, hgrow.sub, hgrow.process, hgrow.send, fun a => ?_,
        hgrow.why⟩
      rcases eq_or_ne r a with rfl | hne
      · rw [Dict.getD, Dict.get?_insert_self]
        exact hself
      · rw [Dict.getD, Dict.get?_insert_ne hne]
        exact hgrow.counts a
    have hk' : consumersPerProducer v.worldSize n = .ok k := by
      rw [show v.worldSize = w.worldSize from h.worldSize]
      exact hk
    simp only [hk', bind, Except.bind]
    split
    · next hexpected =>
      obtain ⟨acc', hacc', hfin, -⟩ := hcounted.finish hr (.inr ⟨n, k,
        List.mem_append_right _ (List.mem_singleton_self _), hk, hexpected ▸ hself⟩)
      exact ⟨acc', hacc', hfin⟩
    · exact ⟨_, rfl, hcounted⟩

theorem Finishing.getNewNotifs (hok : w.Ok) (notifs : List (ReqId × Nat))
    (hk : ∀ m ∈ notifs, ∃ k, consumersPerProducer w.worldSize m.2 = .ok k)
    (h : Finishing w now polled acc) :
    ∃ acc', notifs.foldlM SendWorker.receiveNotif acc = .ok acc' ∧
      Finishing w now (polled ++ notifs) acc' := by
  induction notifs generalizing acc polled with
  | nil => exact ⟨acc, rfl, by simpa using h⟩
  | cons m ms ih =>
    obtain ⟨k, hm⟩ := hk m List.mem_cons_self
    obtain ⟨acc₁, hacc₁, h₁⟩ := h.receiveNotif hok hm
    obtain ⟨acc', hacc', h'⟩ := ih (fun m' hm' => hk m' (List.mem_cons_of_mem _ hm')) h₁
    refine ⟨acc', ?_, by simpa using h'⟩
    rw [List.foldlM_cons, hacc₁]
    exact hacc'

theorem Finishing.expireLoop (hok : w.Ok) (es : List (ReqId × Nat))
    (hes : (es.map Prod.fst).Nodup) (hsend : ∀ e ∈ es, acc.1.reqsToSend.get? e.1 = some e.2)
    (h : Finishing w now polled acc) :
    ∃ acc', SendWorker.expireLoop now es acc = .ok acc' ∧ Finishing w now polled acc' := by
  induction es generalizing acc with
  | nil => exact ⟨acc, rfl, h⟩
  | cons e es ih =>
    obtain ⟨r, expires⟩ := e
    obtain ⟨hnot, hes⟩ := List.nodup_cons.mp hes
    unfold SendWorker.expireLoop
    split
    · exact ⟨_, rfl, h⟩
    · next hnow =>
      have hhere := hsend (r, expires) List.mem_cons_self
      have hw := h.send r
      rw [hhere] at hw
      split at hw
      · cases hw
      next hdone =>
      have hr : r ∈ acc.1.reqsToProcess := (h.process r).mpr ⟨hok r expires hw.symm, hdone⟩
      obtain ⟨acc₁, hacc₁, h₁, hdone₁⟩ :=
        h.finish hr (.inl ⟨expires, hw.symm, Nat.le_of_not_lt hnow⟩)
      have hrest : ∀ e ∈ es, acc₁.1.reqsToSend.get? e.1 = some e.2 := by
        intro e he
        have hne : e.1 ≠ r := fun hr => hnot (List.mem_map.mpr ⟨e, he, hr⟩)
        rw [h₁.send, hdone₁, ← hsend e (List.mem_cons_of_mem _ he), h.send]
        simp [hne]
      obtain ⟨acc', hacc', h'⟩ := ih hes hrest h₁
      refine ⟨acc', ?_, h'⟩
      rw [hacc₁]
      exact hacc'

/-- `get_finished` does not raise, and reports only requests that are to be processed: those
whose lease ran out, and those that all their readers have read. -/
theorem getFinished_ok (hok : w.Ok) (notifs : List (ReqId × Nat)) (now : Nat)
    (hk : ∀ m ∈ notifs, ∃ k, consumersPerProducer w.worldSize m.2 = .ok k) :
    ∃ acc, w.getFinished notifs now = .ok acc ∧ Finishing w now notifs acc := by
  obtain ⟨acc₁, hacc₁, h₁⟩ := (Finishing.start w now).getNewNotifs hok notifs hk
  obtain ⟨acc, hacc, h⟩ := h₁.expireLoop hok acc₁.1.reqsToSend.entries acc₁.1.reqsToSend.nodup
    fun e he => (Dict.get?_eq_some_iff _ _ _).mpr he
  refine ⟨acc, ?_, by simpa using h⟩
  unfold SendWorker.getFinished SendWorker.getNewNotifs
  rw [hacc₁]
  exact hacc

theorem Finishing.ok (h : Finishing w now polled acc) (hok : w.Ok) : acc.1.Ok := by
  intro r e hr
  rw [h.send] at hr
  split at hr
  · cases hr
  · next hnot => exact (h.process r).mpr ⟨hok r e hr, hnot⟩

end SendWorker

/-! ### Runs -/

inductive SendEvent where
  | load (metadata : NixlConnectorMetadata)
  | poll (notifs : List (ReqId × Nat)) (now : Nat)

def SendEvent.notifs : SendEvent → List (ReqId × Nat)
  | .load _ => []
  | .poll notifs _ => notifs

structure Sending where
  worker : SendWorker
  reported : List ReqId := []

namespace Sending

def step (s : Sending) : SendEvent → Option Sending
  | .load metadata =>
    (s.worker.startLoadKv metadata).toOption.map fun worker => { s with worker }
  | .poll notifs now =>
    (s.worker.getFinished notifs now).toOption.map fun r => ⟨r.1, s.reported ++ r.2⟩

/-- A request with a lease is not aborted, one that was reported is not in a batch again, and the
sizes of the readers fit. -/
def Expected (s : Sending) : SendEvent → Prop
  | .load metadata =>
    (∀ r ∈ metadata.reqsNotProcessed, s.worker.reqsToSend.get? r = none) ∧
      ∀ r ∈ metadata.reqsInBatch, r ∉ s.reported
  | .poll notifs _ => ∀ m ∈ notifs, ∃ k, consumersPerProducer s.worker.worldSize m.2 = .ok k

def notifsOf (past : List SendEvent) : List (ReqId × Nat) := past.flatMap SendEvent.notifs

/-- At the time `now`, after `past`, the blocks of the request are no longer needed: its lease has
run out, or as many ranks have read them as one of the messages says. -/
def Released (worldSize : Nat) (past : List SendEvent) (now : Nat) (r : ReqId) : Prop :=
  (∃ metadata t, .load metadata ∈ past ∧ metadata.reqsToSend.get? r = some t ∧ t ≤ now) ∨
    ∃ n k, (r, n) ∈ notifsOf past ∧ consumersPerProducer worldSize n = .ok k ∧
      k ≤ (notifsOf past).countP (·.1 = r)

def InBatch (past : List SendEvent) (r : ReqId) : Prop :=
  ∃ metadata, .load metadata ∈ past ∧ r ∈ metadata.reqsInBatch

structure Faithful (worldSize : Nat) (s : Sending) (past : List SendEvent) : Prop where
  size : s.worker.worldSize = worldSize
  ok : s.worker.Ok
  process : ∀ r ∈ s.worker.reqsToProcess, InBatch past r ∧ r ∉ s.reported
  lease : ∀ r t, s.worker.reqsToSend.get? r = some t →
    ∃ metadata, .load metadata ∈ past ∧ metadata.reqsToSend.get? r = some t
  counts : ∀ r, s.worker.consumerNotificationCountsByReq.getD r 0 ≤
    (notifsOf past).countP (·.1 = r)
  nodup : s.reported.Nodup
  reported : ∀ r ∈ s.reported, ∃ before notifs now, before ++ [.poll notifs now] <+: past ∧
    InBatch before r ∧ Released worldSize (before ++ [.poll notifs now]) now r

variable {worldSize : Nat} {s : Sending} {past : List SendEvent}

theorem InBatch.mono {r : ReqId} (h : InBatch past r) (e : SendEvent) :
    InBatch (past ++ [e]) r := by
  obtain ⟨metadata, hmem, hr⟩ := h
  exact ⟨metadata, List.mem_append_left _ hmem, hr⟩

theorem Faithful.load {metadata : NixlConnectorMetadata} (h : Faithful worldSize s past)
    (hexp : s.Expected (.load metadata)) : ∃ t, step s (.load metadata) = some t ∧
      Faithful worldSize t (past ++ [.load metadata]) := by
  obtain ⟨send, hload, hsend⟩ := SendWorker.startLoadKv_ok hexp.1
  refine ⟨_, by rw [step, hload]; rfl, ?_⟩
  refine ⟨h.size, ?_, ?_, ?_, ?_, h.nodup, ?_⟩
  · intro r t hr
    dsimp only at hr ⊢
    rw [hsend] at hr
    split at hr
    · assumption
    · next hnot =>
      refine Finset.mem_sdiff.mpr ⟨Finset.mem_union_left _ (h.ok r t hr), fun hnp => ?_⟩
      rw [hexp.1 r hnp] at hr
      cases hr
  · intro r hr
    obtain ⟨hr, -⟩ := Finset.mem_sdiff.mp hr
    rcases Finset.mem_union.mp hr with hr | hr
    · exact ⟨(h.process r hr).1.mono _, (h.process r hr).2⟩
    · exact ⟨⟨metadata, List.mem_append_right _ (List.mem_singleton_self _), hr⟩, hexp.2 r hr⟩
  · intro r t hr
    have hold : s.worker.reqsToSend.get? r = some t → ∃ metadata', .load metadata' ∈
        past ++ [.load metadata] ∧ metadata'.reqsToSend.get? r = some t := by
      intro hr
      obtain ⟨metadata', hmem, ht⟩ := h.lease r t hr
      exact ⟨metadata', List.mem_append_left _ hmem, ht⟩
    dsimp only at hr
    rw [hsend] at hr
    split at hr
    · rcases Option.or_eq_some_iff.mp hr with hr | ⟨-, hr⟩
      · exact ⟨metadata, List.mem_append_right _ (List.mem_singleton_self _), hr⟩
      · exact hold hr
    · exact hold hr
  · intro r
    simpa [notifsOf, SendEvent.notifs] using h.counts r
  · intro r hr
    obtain ⟨before, notifs, now, hpre, hrest⟩ := h.reported r hr
    exact ⟨before, notifs, now, hpre.trans (List.prefix_append ..), hrest⟩

theorem Faithful.poll {notifs : List (ReqId × Nat)} {now : Nat} (h : Faithful worldSize s past)
    (hexp : s.Expected (.poll notifs now)) : ∃ t, step s (.poll notifs now) = some t ∧
      Faithful worldSize t (past ++ [.poll notifs now]) := by
  obtain ⟨acc, hacc, hfin⟩ := SendWorker.getFinished_ok h.ok notifs now hexp
  have hnotifs : notifsOf (past ++ [.poll notifs now]) = notifsOf past ++ notifs := by
    simp [notifsOf, SendEvent.notifs]
  refine ⟨⟨acc.1, s.reported ++ acc.2⟩, by rw [step, hacc]; rfl, hfin.worldSize.trans h.size,
    hfin.ok h.ok, ?_, ?_, ?_, ?_, ?_⟩
  · intro r hr
    obtain ⟨hr, hdone⟩ := (hfin.process r).mp hr
    refine ⟨(h.process r hr).1.mono _, fun hmem => ?_⟩
    rcases List.mem_append.mp hmem with hmem | hmem
    · exact (h.process r hr).2 hmem
    · exact hdone hmem
  · intro r t hr
    rw [hfin.send] at hr
    split at hr
    · cases hr
    · obtain ⟨metadata, hmem, ht⟩ := h.lease r t hr
      exact ⟨metadata, List.mem_append_left _ hmem, ht⟩
  · intro r
    have hold := h.counts r
    have hnew := hfin.counts r
    rw [hnotifs, List.countP_append]
    dsimp only
    omega
  · refine List.nodup_append.mpr ⟨h.nodup, hfin.nodup, fun a ha b hb hab => ?_⟩
    exact (h.process b (hfin.sub b hb)).2 (hab ▸ ha)
  · intro r hr
    rcases List.mem_append.mp hr with hr | hr
    · obtain ⟨before, notifs', now', hpre, hrest⟩ := h.reported r hr
      exact ⟨before, notifs', now', hpre.trans (List.prefix_append ..), hrest⟩
    · refine ⟨past, notifs, now, List.prefix_rfl, (h.process r (hfin.sub r hr)).1, ?_⟩
      rcases hfin.why r hr with ⟨t, ht, hle⟩ | ⟨n, k, hmem, hk, hle⟩
      · obtain ⟨metadata, hload, ht'⟩ := h.lease r t ht
        exact .inl ⟨metadata, t, List.mem_append_left _ hload, ht', hle⟩
      · refine .inr ⟨n, k, ?_, h.size ▸ hk, ?_⟩
        · rw [hnotifs]
          exact List.mem_append_right _ hmem
        · have hold := h.counts r
          rw [hnotifs, List.countP_append]
          omega

/-- The worker never raises, reports each request at most once, only after it was in a batch and
when its lease has run out or all of its readers are done, and ignores what it is told of a
reported request. -/
theorem reports_released_once (worldSize : Nat) {es : List SendEvent}
    (hexp : Machine.Along step Expected { worker := { worldSize } } es) :
    ∃ s, Machine.exec step { worker := { worldSize } } es = some s ∧ s.reported.Nodup ∧
      ∀ r ∈ s.reported, (∃ before notifs now, before ++ [.poll notifs now] <+: es ∧
          InBatch before r ∧ Released worldSize (before ++ [.poll notifs now]) now r) ∧
        ∀ done n, SendWorker.receiveNotif (s.worker, done) (r, n) = .ok (s.worker, done) := by
  have hstart : Faithful worldSize { worker := { worldSize } } [] :=
    ⟨rfl, nofun, fun _ h => absurd h (Finset.notMem_empty _), nofun, fun _ => Nat.zero_le _,
      List.nodup_nil, nofun⟩
  obtain ⟨s, hrun, h⟩ := Machine.exec_history_total_along (P := Faithful worldSize)
    (fun s e past h hexp => by
      cases e with
      | load metadata => exact h.load hexp
      | poll notifs now => exact h.poll hexp) hstart hexp
  refine ⟨s, hrun, h.nodup, fun r hr => ⟨h.reported r hr, fun done n => ?_⟩⟩
  have hnot : r ∉ s.worker.reqsToProcess := fun hp => (h.process r hp).2 hr
  refine SendWorker.receiveNotif_unknown hnot ?_ done n
  exact Option.eq_none_iff_forall_ne_some.mpr fun t ht => hnot (h.ok r t ht)

def twoReaders : List SendEvent :=
  [.load ⟨.empty, .empty, {4}, ∅⟩, .poll [(4, 2)] 0,
    .load ⟨.empty, Dict.empty.insert 4 9, ∅, ∅⟩, .poll [(4, 2)] 1]

theorem reports_released_once_twoReaders : ∃ s,
    Machine.exec step { worker := { worldSize := 1 } } twoReaders = some s ∧ s.reported = [4] ∧
      SendWorker.receiveNotif (s.worker, []) (4, 2) = .ok (s.worker, []) := by
  have hexp : Machine.Along step Expected { worker := { worldSize := 1 } } twoReaders := by
    have hsize : ∀ m ∈ [((4 : ReqId), 2)], ∃ k, consumersPerProducer 1 m.2 = .ok k := by
      simp [consumersPerProducer, tpRatio, assert, bind, Except.bind]
    refine ⟨⟨by simp, by simp⟩, fun s₁ hs₁ => ?_⟩
    obtain rfl := Option.some.inj hs₁
    refine ⟨hsize, fun s₂ hs₂ => ?_⟩
    obtain rfl := Option.some.inj hs₂
    refine ⟨⟨by simp, by simp⟩, fun s₃ hs₃ => ?_⟩
    obtain rfl := Option.some.inj hs₃
    exact ⟨hsize, fun _ _ => trivial⟩
  obtain ⟨s, hrun, -, hall⟩ := reports_released_once 1 hexp
  have hreported : s.reported = [4] := by
    obtain rfl := Option.some.inj hrun
    rfl
  exact ⟨s, hrun, hreported, (hall 4 (by simp [hreported])).2 [] 2⟩

end Sending

end EldrServing.Nixl
