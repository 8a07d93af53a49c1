import EldrServing.Nixl.WorkerRecv

/-!
# The receive metadata of the worker

`start_load_kv` enters the metadata of every request it is handed, and only `get_finished` takes
it out again, for the requests it reports. An entry with blocks to read is always waiting for a
handshake, being read or about to be reported, so the map is bounded by the work outstanding. An
entry without blocks only notifies the remote engine: it is never reported, and its metadata
stays.
-/

namespace EldrServing.Nixl

set_option autoImplicit false

open KVCache Machine

namespace TransferTopology

variable (t : TransferTopology) (remoteTpSize : Nat)

theorem attnRanks_ne_nil : t.attnRanks remoteTpSize ≠ [] := by
  unfold attnRanks
  split
  · simp
  · next hcond =>
    have hlt : t.tpSize < remoteTpSize := by
      by_contra hle
      exact hcond (.inr (by omega))
    have hpos : 0 < remoteTpSize / t.tpSize :=
      Nat.div_pos hlt.le (Nat.zero_lt_of_lt t.rank_lt)
    have hmem : 0 ∈ FirstIndex.firstIndices ((List.range' (t.tpRank * (remoteTpSize / t.tpSize))
        (remoteTpSize / t.tpSize)).map fun r => r * t.totalNumKvHeads / remoteTpSize) := by
      obtain ⟨n, hn⟩ := Nat.exists_eq_succ_of_ne_zero hpos.ne'
      rw [FirstIndex.mem_firstIndices_iff, hn, List.range'_succ, List.map_cons]
      exact ⟨_, List.mem_cons_self, by simp⟩
    intro hnil
    rw [List.map_eq_nil_iff.mp hnil] at hmem
    cases hmem

theorem ssmRanks_ne_nil : t.ssmRanks remoteTpSize [.mamba] ≠ [] := by
  unfold ssmRanks
  rw [if_pos (by simp)]
  split
  · next hlt =>
    have hpos : 0 < remoteTpSize / t.tpSize := Nat.div_pos hlt.le (Nat.zero_lt_of_lt t.rank_lt)
    simp only [Nat.succ_mul, Nat.add_sub_cancel_left, ne_eq, List.range'_eq_nil_iff]
    exact hpos.ne'
  · exact t.attnRanks_ne_nil remoteTpSize

theorem exists_source_rank (spec : SpecType) :
    ∃ ranks, (t.computeTpMapping remoteTpSize [spec]).sourceRanksPerGroup = [ranks] ∧
      ∃ rank ∈ (t.computeTpMapping remoteTpSize [spec]).allSourceRanks, rank ∈ ranks := by
  refine ⟨_, rfl, ?_⟩
  have hmem : ∀ rank, rank ∈ t.attnRanks remoteTpSize ∨ rank ∈ t.ssmRanks remoteTpSize [spec] →
      rank ∈ (t.computeTpMapping remoteTpSize [spec]).allSourceRanks := by
    intro rank hrank
    change rank ∈ t.allRanks remoteTpSize [spec]
    rw [allRanks, List.mem_insertionSort, List.mem_dedup, List.mem_append]
    exact hrank
  cases spec with
  | attention =>
    obtain ⟨rank, hrank⟩ := List.exists_mem_of_ne_nil _ (t.attnRanks_ne_nil remoteTpSize)
    exact ⟨rank, hmem rank (.inl hrank), hrank⟩
  | mamba =>
    obtain ⟨rank, hrank⟩ := List.exists_mem_of_ne_nil _ (t.ssmRanks_ne_nil remoteTpSize)
    exact ⟨rank, hmem rank (.inr hrank), hrank⟩

end TransferTopology

def ReqMeta.HasBlocks (entry : ReqMeta) : Prop :=
  ∃ b bs c cs, entry.localBlockIds = [b :: bs] ∧ entry.remote.blockIds = [c :: cs]

namespace RecvWorker

variable {w w' w'' : RecvWorker} {r : ReqId} {entry : ReqMeta}

def outstanding (w : RecvWorker) : List ReqId :=
  w.handshakeFutures.entries.flatMap (fun e => e.2.waiting.map Prod.fst) ++
    w.callbacks.map Callback.reqId ++ w.readyRequests.map Prod.fst ++ w.recvingTransfers.keys ++
    w.failedRecvReqs

theorem mem_outstanding : r ∈ w.outstanding ↔
    (∃ e future, w.handshakeFutures.get? e = some future ∧ r ∈ future.waiting.map Prod.fst) ∨
    r ∈ w.callbacks.map Callback.reqId ∨ r ∈ w.readyRequests.map Prod.fst ∨
    r ∈ w.recvingTransfers.keys ∨ r ∈ w.failedRecvReqs := by
  simp only [outstanding, List.mem_append, List.mem_flatMap, or_assoc, Prod.exists,
    Dict.get?_eq_some_iff]

/-! ### What a read changes -/

/-- The request is being read or will be reported as failed. -/
def Started (w : RecvWorker) (r : ReqId) : Prop :=
  r ∈ w.recvingTransfers.keys ∨ r ∈ w.failedRecvReqs

/-- Reads are added; nothing else changes that the bookkeeping of requests looks at. -/
structure Extends (w w' : RecvWorker) : Prop where
  transferTopo : w'.transferTopo = w.transferTopo
  groupSpecTypes : w'.groupSpecTypes = w.groupSpecTypes
  tpMappings : w'.tpMappings = w.tpMappings
  handshakeFutures : w'.handshakeFutures = w.handshakeFutures
  callbacks : w'.callbacks = w.callbacks
  readyRequests : w'.readyRequests = w.readyRequests
  recvingMetadata : w'.recvingMetadata = w.recvingMetadata
  started : ∀ r, w.Started r → w'.Started r

theorem Extends.refl (w : RecvWorker) : Extends w w :=
  ⟨rfl, rfl, rfl, rfl, rfl, rfl, rfl, fun _ h => h⟩

theorem Extends.trans (h : Extends w w') (h' : Extends w' w'') : Extends w w'' :=
  ⟨h'.1.trans h.1, h'.2.trans h.2, h'.3.trans h.3, h'.4.trans h.4, h'.5.trans h.5,
    h'.6.trans h.6, h'.7.trans h.7, fun r hr => h'.started r (h.started r hr)⟩

theorem mem_addTo {reqs : List ReqId} {r r' : ReqId} : r' ∈ addTo reqs r ↔ r' ∈ reqs ∨ r' = r := by
  unfold addTo
  split
  · next h =>
    constructor
    · exact .inl
    · rintro (h' | rfl)
      · exact h'
      · exact h
  · simp

theorem invalidate_ok (h : w.invalidate r = .ok w') :
    ∃ ids, w' = { w with invalidBlockIds := ids } := by
  unfold invalidate at h
  split at h
  · exact ⟨_, (Except.ok.inj h).symm⟩
  · split at h
    · exact ⟨_, (Except.ok.inj h).symm⟩
    · obtain ⟨blocks, -, hok⟩ := except_bind_eq_ok.mp h
      exact ⟨_, (Except.ok.inj hok).symm⟩

variable {failing : List Nat} {e dst : EngineId} {done : List ReqId} {remote : ReqId} {b rank : Nat}
  {future : HandshakeFuture} {poll : TransferHandle → XferState}

theorem readBlocks_cases {spec : ReadSpec}
    (h : w.readBlocks spec dst r remote failing = .ok w') : ∃ ratio loc rem,
    w.mapReadBlocks ratio spec = .ok (loc, rem) ∧
    ((loc = [] ∧ ∃ notifs, w' = { w with notifs := notifs }) ∨
    (∃ ids, w' = { w with
      invalidBlockIds := ids, failedRecvReqs := addTo w.failedRecvReqs r }) ∨
    w' = { w with
      recvingTransfers := w.recvingTransfers.insert r
        (w.recvingTransfers.getD r [] ++ [w.nextHandle])
      nextHandle := w.nextHandle + 1 }) := by
  simp only [readBlocks, except_bind_eq_ok, Prod.exists] at h
  obtain ⟨info, -, ratio, -, loc, rem, hmap, hcases⟩ := h
  refine ⟨ratio, loc, rem, hmap, ?_⟩
  split at hcases
  · next hnil =>
    split at hcases
    · exact .inl ⟨hnil, _, (Except.ok.inj hcases).symm⟩
    · cases hcases
  · simp only [except_bind_eq_ok] at hcases
    obtain ⟨_, -, trimmed, -, _, -, hend⟩ := hcases
    split at hend
    · obtain ⟨w₁, hw₁, hok⟩ := except_bind_eq_ok.mp hend
      obtain ⟨ids, rfl⟩ := invalidate_ok hw₁
      exact .inr (.inl ⟨ids, (Except.ok.inj hok).symm⟩)
    · exact .inr (.inr (Except.ok.inj hend).symm)

theorem readBlocks_extends {spec : ReadSpec}
    (h : w.readBlocks spec dst r remote failing = .ok w') : Extends w w' := by
  obtain ⟨-, -, -, -, ⟨-, notifs, rfl⟩ | ⟨ids, rfl⟩ | rfl⟩ := readBlocks_cases h
  · exact ⟨rfl, rfl, rfl, rfl, rfl, rfl, rfl, fun _ hr' => hr'⟩
  · refine ⟨rfl, rfl, rfl, rfl, rfl, rfl, rfl, ?_⟩
    rintro r' (hr' | hr')
    · exact .inl hr'
    · exact .inr (mem_addTo.mpr (.inl hr'))
  · refine ⟨rfl, rfl, rfl, rfl, rfl, rfl, rfl, ?_⟩
    rintro r' (hr' | hr')
    · refine .inl (Dict.mem_keys_iff.mpr ?_)
      obtain ⟨hs, hhs⟩ := Dict.mem_keys_iff.mp hr'
      rw [Dict.get?_insert]
      split
      · exact ⟨_, rfl⟩
      · exact ⟨hs, hhs⟩
    · exact .inr hr'

theorem getMappedBlocks_ne_nil {ratio : Nat} (bs : List Nat) (h : 1 < ratio) :
    getMappedBlocks (b :: bs) ratio ≠ [] := by
  obtain ⟨n, rfl⟩ : ∃ n, ratio = n + 1 := ⟨ratio - 1, by omega⟩
  simp [getMappedBlocks, List.range_succ]

theorem mapReadBlocks_ne_nil {c ratio : Nat} {bs cs : List Nat} {loc rem : BlockIds}
    (h : w.mapReadBlocks ratio ⟨rank, [b :: bs], [c :: cs]⟩ = .ok (loc, rem)) : loc ≠ [] := by
  unfold mapReadBlocks at h
  split at h
  · next hratio =>
    simp only [except_bind_eq_ok, orRaise_eq_ok] at h
    obtain ⟨_, -, remote, hremote, hok⟩ := h
    obtain rfl : c :: cs = remote := Option.some.inj hremote
    obtain ⟨rfl, -⟩ := ok_pair_inj hok
    have hmapped := getMappedBlocks_ne_nil (b := b) bs hratio
    rw [if_neg]
    · simp
    · split
      · simpa using hmapped
      · exact hmapped
  · obtain ⟨rfl, -⟩ := ok_pair_inj h
    simp

theorem readBlocks_started {c : Nat} {bs cs : List Nat}
    (h : w.readBlocks ⟨rank, [b :: bs], [c :: cs]⟩ dst r remote failing = .ok w') :
    w'.Started r := by
  obtain ⟨ratio, loc, rem, hmap, ⟨hnil, -⟩ | ⟨ids, rfl⟩ | rfl⟩ := readBlocks_cases h
  · exact absurd hnil (mapReadBlocks_ne_nil hmap)
  · exact .inr (mem_addTo.mpr (.inr rfl))
  · exact .inl (Dict.mem_keys_iff.mpr ⟨_, Dict.get?_insert_self⟩)

theorem selectGroups_one {plan : TPMapping} {ranks ids : List Nat}
    (hplan : plan.sourceRanksPerGroup = [ranks]) (hrank : rank ∈ ranks) :
    selectGroups plan rank 1 [ids] = .ok [ids] := by
  simp [selectGroups, hplan, hrank, orRaise, List.range_one, bind, Except.bind, pure, Except.pure]

theorem readBlocksForReq_reads {spec : SpecType}
    (hplan : ∀ plan, w.tpMappings.get? entry.remote.engineId = some plan →
    ∃ n, plan = w.transferTopo.computeTpMapping n [spec])
    (hentry : entry.HasBlocks) (h : w.readBlocksForReq r entry failing = .ok w') :
    Extends w w' ∧ w'.Started r := by
  obtain ⟨b, bs, c, cs, hlocal, hremote⟩ := hentry
  simp only [readBlocksForReq, except_bind_eq_ok, orRaise_eq_ok] at h
  obtain ⟨plan, hget, info, -, ratio, -, specs, hspecs, _, -, w₁, hfold, hend⟩ := h
  obtain ⟨n, rfl⟩ := hplan plan hget
  obtain ⟨ranks, hranks, rank, hall, hrank⟩ := w.transferTopo.exists_source_rank n spec
  obtain ⟨good, hmem, hgood⟩ := mapM_ok_of_mem hspecs hall
  obtain rfl : (⟨rank, [b :: bs], [c :: cs]⟩ : ReadSpec) = good := by
    simp only [readSpec, hlocal, hremote, List.length_singleton, selectGroups_one hranks hrank]
      at hgood
    exact Except.ok.inj hgood
  have hreads := foldlM_visits (R := Extends)
    (P := fun (s : ReadSpec) w => s = ⟨rank, [b :: bs], [c :: cs]⟩ → w.Started r)
    Extends.refl (fun _ _ _ => Extends.trans)
    (fun w₂ s w₃ hs => by
      obtain ⟨_, -, hs⟩ := except_bind_eq_ok.mp hs
      refine ⟨readBlocks_extends hs, ?_⟩
      rintro rfl
      exact readBlocks_started hs)
    (fun s w₂ w₃ hP hR heq => hR.started r (hP heq)) hfold
  have hstarted := hreads.2 _ hmem rfl
  have hlast : Extends w₁ w' := by
    cases specs with
    | nil => exact Except.ok.inj hend ▸ .refl w₁
    | cons first rest =>
      obtain rfl := Except.ok.inj hend
      split
      · exact ⟨rfl, rfl, rfl, rfl, rfl, rfl, rfl, fun _ hr' => hr'⟩
      · exact .refl w₁
  exact ⟨hreads.1.trans hlast, hlast.started r hstarted⟩

/-! ### Every entry is work outstanding -/

/-- Every entry of the metadata belongs to a request with work outstanding, or to one of `held`
that the current call is about to take care of. The only group has the specification `spec`. -/
structure Tracked (spec : SpecType) (held : List ReqId) (w : RecvWorker) : Prop where
  groups : w.groupSpecTypes = [spec]
  plans : ∀ e plan, w.tpMappings.get? e = some plan →
    ∃ n, plan = w.transferTopo.computeTpMapping n [spec]
  futures : ∀ e future, w.handshakeFutures.get? e = some future →
    ∀ x ∈ future.waiting, x.2.HasBlocks
  callbacks : ∀ r entry, Callback.ready r entry ∈ w.callbacks → entry.HasBlocks
  ready : ∀ x ∈ w.readyRequests, x.2.HasBlocks
  metadata : ∀ r entry, w.recvingMetadata.get? r = some entry → entry.HasBlocks
  covered : ∀ r ∈ w.recvingMetadata.keys, r ∈ w.outstanding ∨ r ∈ held

variable {spec : SpecType} {held : List ReqId}

theorem Extends.outstanding (h : Extends w w') (hr : r ∈ w.outstanding) : r ∈ w'.outstanding := by
  rw [mem_outstanding] at hr ⊢
  rw [h.handshakeFutures, h.callbacks, h.readyRequests]
  rcases hr with hr | hr | hr | hr
  · exact .inl hr
  · exact .inr (.inl hr)
  · exact .inr (.inr (.inl hr))
  · exact .inr (.inr (.inr (h.started r hr)))

theorem Started.outstanding (h : w.Started r) : r ∈ w.outstanding :=
  mem_outstanding.mpr (.inr (.inr (.inr h)))

theorem invalidate_extends (h : w.invalidate r = .ok w') : Extends w w' := by
  obtain ⟨ids, rfl⟩ := invalidate_ok h
  exact ⟨rfl, rfl, rfl, rfl, rfl, rfl, rfl, fun _ hr => hr⟩

theorem Tracked.extend (h : Tracked spec held w) (hext : Extends w w') : Tracked spec held w' where
  groups := hext.groupSpecTypes.trans h.groups
  plans := by
    rw [hext.tpMappings, hext.transferTopo]
    exact h.plans
  futures := by
    rw [hext.handshakeFutures]
    exact h.futures
  callbacks := by
    rw [hext.callbacks]
    exact h.callbacks
  ready := by
    rw [hext.readyRequests]
    exact h.ready
  metadata := by
    rw [hext.recvingMetadata]
    exact h.metadata
  covered := by
    rw [hext.recvingMetadata]
    exact fun r hr => (h.covered r hr).imp_left hext.outstanding

theorem Tracked.release (h : Tracked spec [r] w) (hr : r ∈ w.outstanding) : Tracked spec [] w :=
  { h with
    covered := by
      intro r' hr'
      rcases h.covered r' hr' with hout | hheld
      · exact .inl hout
      · exact .inl (List.mem_singleton.mp hheld ▸ hr) }

theorem Tracked.invalidate (h : Tracked spec held w) (r : ReqId) :
    ∃ ids, w.invalidate r = .ok { w with invalidBlockIds := ids } := by
  unfold RecvWorker.invalidate
  split
  · exact ⟨_, rfl⟩
  · next entry hentry =>
    obtain ⟨b, bs, c, cs, hlocal, -⟩ := h.metadata r entry hentry
    split
    · exact ⟨_, rfl⟩
    · simp only [hlocal]
      exact ⟨_, rfl⟩

theorem Tracked.readBlocksForReq (h : Tracked spec [r] w)
    (hentry : entry.HasBlocks) (hok : w.readBlocksForReq r entry failing = .ok w') :
    Tracked spec [] w' := by
  obtain ⟨hext, hstarted⟩ := readBlocksForReq_reads (h.plans _) hentry hok
  exact (h.extend hext).release hstarted.outstanding

theorem Tracked.enter (h : Tracked spec [] w) (r : ReqId) (hentry : entry.HasBlocks) :
    Tracked spec [r] { w with recvingMetadata := w.recvingMetadata.insert r entry } :=
  { h with
    metadata := by
      intro r' entry' hget
      rw [Dict.get?_insert] at hget
      split at hget
      · exact Option.some.inj hget ▸ hentry
      · exact h.metadata r' entry' hget
    covered := by
      intro r' hr'
      obtain ⟨entry', hget⟩ := Dict.mem_keys_iff.mp hr'
      rw [Dict.get?_insert] at hget
      split at hget
      · next heq => exact .inr (List.mem_singleton.mpr heq.symm)
      · rcases h.covered r' (Dict.mem_keys_iff.mpr ⟨entry', hget⟩) with hout | hheld
        · exact .inl hout
        · cases hheld }

theorem Tracked.setFuture (h : Tracked spec held w) (hblocks : ∀ x ∈ future.waiting, x.2.HasBlocks)
    (hkeep : ∀ old, w.handshakeFutures.get? e = some old → ∀ x ∈ old.waiting, x ∈ future.waiting) :
    Tracked spec held (w.setFuture e future) := by
  have hget : ∀ e', (w.setFuture e future).handshakeFutures.get? e' =
      if e = e' then some future else w.handshakeFutures.get? e' := fun e' => Dict.get?_insert ..
  refine { h with futures := fun e' future' hfuture => ?_, covered := fun r hr => ?_ }
  · rw [hget] at hfuture
    split at hfuture
    · exact Option.some.inj hfuture ▸ hblocks
    · exact h.futures e' future' hfuture
  · refine (h.covered r hr).imp_left fun hout => ?_
    rw [mem_outstanding] at hout ⊢
    refine hout.imp_left ?_
    rintro ⟨e', old, hold, hmem⟩
    by_cases heq : e = e'
    · subst heq
      refine ⟨e, future, by rw [hget, if_pos rfl], ?_⟩
      obtain ⟨x, hx, rfl⟩ := List.mem_map.mp hmem
      exact List.mem_map.mpr ⟨x, hkeep old hold x hx, rfl⟩
    · exact ⟨e', old, by rw [hget, if_neg heq]; exact hold, hmem⟩

theorem setFuture_outstanding
    (h : r ∈ future.waiting.map Prod.fst) : r ∈ (w.setFuture e future).outstanding :=
  mem_outstanding.mpr (.inl ⟨e, future, Dict.get?_insert_self, h⟩)

theorem Tracked.addReady (h : Tracked spec held w) (hentry : entry.HasBlocks) :
    Tracked spec held { w with readyRequests := w.readyRequests ++ [(r, entry)] } := by
  refine { h with ready := fun x hx => ?_, covered := fun r' hr' => ?_ }
  · rcases List.mem_append.mp hx with hx | hx
    · exact h.ready x hx
    · exact List.mem_singleton.mp hx ▸ hentry
  · refine (h.covered r' hr').imp_left fun hout => ?_
    rw [mem_outstanding] at hout ⊢
    rw [List.map_append, List.mem_append]
    exact hout.imp_right (Or.imp_right (Or.imp_left .inl))

theorem Tracked.addFailed (h : Tracked spec held w) (r : ReqId) :
    Tracked spec held { w with failedRecvReqs := addTo w.failedRecvReqs r } := by
  refine h.extend ⟨rfl, rfl, rfl, rfl, rfl, rfl, rfl, ?_⟩
  rintro r' (hr' | hr')
  · exact .inl hr'
  · exact .inr (mem_addTo.mpr (.inl hr'))

theorem Tracked.requestReady {succeeded : Bool} (h : Tracked spec [r] w)
    (hentry : entry.HasBlocks) : Tracked spec [] (w.requestReady r entry succeeded) := by
  unfold RecvWorker.requestReady
  split
  · apply (h.addReady hentry).release
    rw [mem_outstanding]
    simp
  · obtain ⟨ids, hok⟩ := h.invalidate r
    rw [hok]
    have hmarked := h.extend (invalidate_extends hok)
    exact (hmarked.addFailed r).release (Started.outstanding (.inr (mem_addTo.mpr (.inr rfl))))

theorem Tracked.backgroundNixlHandshake (h : Tracked spec [r] w) (hentry : entry.HasBlocks) :
    Tracked spec [] (w.backgroundNixlHandshake r entry) := by
  unfold RecvWorker.backgroundNixlHandshake
  split
  · next hnone =>
    apply (h.setFuture _ _).release (setFuture_outstanding (by simp))
    · simpa using hentry
    · simp [hnone]
  · next future hfuture =>
    split
    · apply (h.setFuture _ _).release (setFuture_outstanding (by simp))
      · intro x hx
        rcases List.mem_append.mp hx with hx | hx
        · exact h.futures _ future hfuture x hx
        · exact List.mem_singleton.mp hx ▸ hentry
      · intro old hold x hx
        obtain rfl := some_unique hfuture hold
        exact List.mem_append_left _ hx
    · exact h.requestReady hentry

theorem Tracked.startLoad (h : Tracked spec [] w) (hentry : entry.HasBlocks)
    (hok : w.startLoad r entry failing = .ok w') : Tracked spec [] w' := by
  have hentered := h.enter r hentry
  simp only [RecvWorker.startLoad] at hok
  split at hok
  · exact hentered.readBlocksForReq hentry hok
  · exact Except.ok.inj hok ▸ hentered.backgroundNixlHandshake hentry

theorem Tracked.readReady {rest : List (ReqId × ReqMeta)}
    (h : Tracked spec [] w) (hready : w.readyRequests = (r, entry) :: rest)
    (hok : { w with readyRequests := rest }.readBlocksForReq r entry failing = .ok w') :
    Tracked spec [] w' := by
  have hentry : entry.HasBlocks := h.ready (r, entry) (by rw [hready]; exact List.mem_cons_self)
  have htaken : Tracked spec [r] { w with readyRequests := rest } := by
    refine { h with ready := fun x hx => ?_, covered := fun r' hr' => ?_ }
    · exact h.ready x (by rw [hready]; exact List.mem_cons_of_mem _ hx)
    · have hout := (h.covered r' hr').resolve_right List.not_mem_nil
      rw [mem_outstanding, hready, List.map_cons, List.mem_cons] at hout
      rw [mem_outstanding]
      rcases hout with hout | hout | (rfl | hout) | hout
      · exact .inl (.inl hout)
      · exact .inl (.inr (.inl hout))
      · exact .inr List.mem_cons_self
      · exact .inl (.inr (.inr (.inl hout)))
      · exact .inl (.inr (.inr (.inr hout)))
  exact htaken.readBlocksForReq hentry hok

theorem Tracked.resolve {info : Option EngineTransferInfo}
    {agents : Option (List Nat)} (h : Tracked spec [] w)
    (hok : w.resolve e info agents = some w') : Tracked spec [] w' := by
  unfold RecvWorker.resolve at hok
  split at hok
  · cases hok
  · next future hfuture =>
    split at hok
    · cases hok
    · have hset : Tracked spec [] (w.setFuture e { future with result := some agents }) := by
        refine h.setFuture (h.futures e future hfuture) fun old hold x hx => ?_
        obtain rfl := some_unique hfuture hold
        exact hx
      cases info with
      | none => exact Option.some.inj hok ▸ hset
      | some info =>
        obtain rfl := Option.some.inj hok
        refine { hset with plans := fun e' plan hplan => ?_ }
        change (Dict.insert _ _ _).get? e' = some plan at hplan
        rw [Dict.get?_insert] at hplan
        split at hplan
        · rw [← Option.some.inj hplan]
          exact ⟨info.remoteTpSize, by rw [hset.groups]⟩
        · exact hset.plans e' plan hplan

theorem Tracked.toCallbacks
    {callback : ReqId × ReqMeta → Callback} {agents : Dict EngineId (List Nat)}
    (h : Tracked spec [] w) (hfuture : w.handshakeFutures.get? e = some future)
    (hreq : ∀ x, (callback x).reqId = x.1)
    (hcallback : ∀ x r entry, callback x = .ready r entry → entry = x.2) :
    Tracked spec [] { w with
      handshakeFutures := w.handshakeFutures.erase e
      remoteAgents := agents
      callbacks := w.callbacks ++ future.waiting.map callback } := by
  refine { h with
    futures := fun e' future' hfuture' => ?_
    callbacks := fun r entry hmem => ?_
    covered := fun r hr => ?_ }
  · change (w.handshakeFutures.erase e).get? e' = some future' at hfuture'
    rw [Dict.get?_erase] at hfuture'
    split at hfuture'
    · cases hfuture'
    · exact h.futures e' future' hfuture'
  · rcases List.mem_append.mp hmem with hmem | hmem
    · exact h.callbacks r entry hmem
    · obtain ⟨x, hx, heq⟩ := List.mem_map.mp hmem
      exact hcallback x r entry heq ▸ h.futures e future hfuture x hx
  · refine .inl ?_
    have hout := (h.covered r hr).resolve_right List.not_mem_nil
    rw [mem_outstanding] at hout ⊢
    rw [List.map_append, List.mem_append]
    rcases hout with ⟨e', old, hold, hmem⟩ | hout | hout
    · by_cases heq : e = e'
      · subst heq
        obtain rfl := some_unique hfuture hold
        obtain ⟨x, hx, rfl⟩ := List.mem_map.mp hmem
        refine .inr (.inl (.inr (List.mem_map.mpr ⟨callback x, ?_, hreq x⟩)))
        exact List.mem_map.mpr ⟨x, hx, rfl⟩
      · exact .inl ⟨e', old, (Dict.get?_erase_ne heq).trans hold, hmem⟩
    · exact .inr (.inl (.inl hout))
    · exact .inr (.inr hout)

theorem Tracked.doneCallback (h : Tracked spec [] w)
    (hok : w.doneCallback e = some w') : Tracked spec [] w' := by
  unfold RecvWorker.doneCallback at hok
  split at hok
  · next waiting ranks hfuture =>
    obtain rfl := Option.some.inj hok
    refine h.toCallbacks hfuture (fun x => rfl) fun x r entry heq => ?_
    exact (Callback.ready.inj heq).2.symm
  · next waiting hfuture =>
    obtain rfl := Option.some.inj hok
    exact h.toCallbacks hfuture (fun x => rfl) nofun
  · cases hok

theorem Tracked.setCallbacks {cs : List Callback} (h : Tracked spec [] w)
    (hready : ∀ r entry, Callback.ready r entry ∈ cs → Callback.ready r entry ∈ w.callbacks)
    (hreq : ∀ r ∈ w.callbacks.map Callback.reqId, r ∈ cs.map Callback.reqId ∨ r ∈ held) :
    Tracked spec held { w with callbacks := cs } := by
  refine { h with
    callbacks := fun r entry hmem => h.callbacks r entry (hready r entry hmem)
    covered := fun r hr => ?_ }
  have hout := (h.covered r hr).resolve_right List.not_mem_nil
  rw [mem_outstanding] at hout ⊢
  rcases hout with hout | hout | hout
  · exact .inl (.inl hout)
  · exact (hreq r hout).imp_left fun hmem => .inr (.inl hmem)
  · exact .inl (.inr (.inr hout))

theorem Tracked.takeCallback {c : Callback} {rest : List Callback} (h : Tracked spec [] w)
    (hcallbacks : w.callbacks = c :: rest) : Tracked spec [c.reqId] { w with callbacks := rest } := by
  apply h.setCallbacks
  · intro r entry hmem
    rw [hcallbacks]
    exact List.mem_cons_of_mem _ hmem
  · intro r hr
    rw [hcallbacks, List.map_cons, List.mem_cons] at hr
    exact hr.symm.imp_right List.mem_singleton.mpr

theorem Tracked.runCallback (h : Tracked spec [] w) (hok : w.runCallback = some w') :
    Tracked spec [] w' := by
  unfold RecvWorker.runCallback at hok
  split at hok
  · cases hok
  · next r entry rest hcallbacks =>
    obtain rfl := Option.some.inj hok
    have hentry : entry.HasBlocks :=
      h.callbacks r entry (by rw [hcallbacks]; exact List.mem_cons_self)
    apply ((h.takeCallback hcallbacks).addReady hentry).release
    rw [mem_outstanding]
    simp [Callback.reqId]
  · next r rest hcallbacks =>
    obtain ⟨ids, hinvalid⟩ := h.invalidate r
    rw [hinvalid] at hok
    obtain rfl := Option.some.inj hok
    apply (h.extend (invalidate_extends hinvalid)).setCallbacks
    · intro r' entry hmem
      rcases List.mem_cons.mp hmem with heq | hmem
      · cases heq
      · exact hcallbacks ▸ List.mem_cons_of_mem _ hmem
    · intro r' hr'
      exact .inl (by simpa [hcallbacks, Callback.reqId] using hr')
  · next r rest hcallbacks =>
    obtain rfl := Option.some.inj hok
    exact ((h.takeCallback hcallbacks).addFailed r).release
      (Started.outstanding (.inr (mem_addTo.mpr (.inr rfl))))

/-! ### Reporting -/

structure Polled (acc acc' : RecvWorker × List ReqId) : Prop where
  same : ∃ transfers ids, acc'.1 =
    { acc.1 with recvingTransfers := transfers, invalidBlockIds := ids }
  kept : ∀ r, r ∈ acc.1.recvingTransfers.keys ∨ r ∈ acc.2 →
    r ∈ acc'.1.recvingTransfers.keys ∨ r ∈ acc'.2

theorem invalidate_repeat {α : Type} {xs : List α}
    (h : xs.foldlM (fun w _ => RecvWorker.invalidate w r) w = .ok w') :
    ∃ ids, w' = { w with invalidBlockIds := ids } := by
  refine (foldlM_visits (R := fun w w' => ∃ ids, w' = { w with invalidBlockIds := ids })
    (P := fun _ _ => True) (fun w => ⟨_, rfl⟩) ?_ ?_ (fun _ _ _ _ _ => trivial) h).1
  · rintro w₁ _ _ ⟨ids, rfl⟩ ⟨ids', rfl⟩
    exact ⟨ids', rfl⟩
  · intro w₁ _ w₂ hok
    exact ⟨invalidate_ok hok, trivial⟩

theorem popOne_polled {acc acc' : RecvWorker × List ReqId}
    {e : ReqId × List TransferHandle} (h : popOne poll acc e = .ok acc') : Polled acc acc' := by
  simp only [popOne, except_bind_eq_ok] at h
  obtain ⟨w₁, hw₁, hend⟩ := h
  obtain ⟨ids, rfl⟩ := invalidate_repeat hw₁
  split at hend
  · obtain rfl := Except.ok.inj hend
    refine ⟨⟨_, _, rfl⟩, ?_⟩
    rintro r (hr | hr)
    · by_cases heq : e.1 = r
      · exact .inr (List.mem_append_right _ (List.mem_singleton.mpr heq.symm))
      · obtain ⟨hs, hhs⟩ := Dict.mem_keys_iff.mp hr
        exact .inl (Dict.mem_keys_iff.mpr ⟨hs, (Dict.get?_erase_ne heq).trans hhs⟩)
    · exact .inr (List.mem_append_left _ hr)
  · obtain rfl := Except.ok.inj hend
    refine ⟨⟨_, _, rfl⟩, ?_⟩
    rintro r (hr | hr)
    · obtain ⟨hs, hhs⟩ := Dict.mem_keys_iff.mp hr
      refine .inl (Dict.mem_keys_iff.mpr ?_)
      rw [Dict.get?_insert]
      split
      · exact ⟨_, rfl⟩
      · exact ⟨hs, hhs⟩
    · exact .inr hr

theorem popDoneTransfers_polled
    (h : w.popDoneTransfers poll = .ok (w', done)) : Polled (w, []) (w', done) := by
  refine (foldlM_visits (R := Polled) (P := fun _ _ => True) (fun acc => ⟨⟨_, _, rfl⟩, fun _ h => h⟩)
    ?_ (fun _ _ _ hok => ⟨popOne_polled hok, trivial⟩) (fun _ _ _ _ _ => trivial) h).1
  rintro ⟨w₁, d₁⟩ ⟨w₂, d₂⟩ ⟨w₃, d₃⟩ ⟨⟨ts, ids, rfl⟩, hkept⟩ ⟨⟨ts', ids', rfl⟩, hkept'⟩
  exact ⟨⟨ts', ids', rfl⟩, fun r hr => hkept' r (hkept r hr)⟩

theorem mem_foldl_addTo {reqs : List ReqId} :
    r ∈ reqs.foldl addTo done ↔ r ∈ done ∨ r ∈ reqs := by
  induction reqs generalizing done with
  | nil => simp
  | cons r' reqs ih =>
    rw [List.foldl_cons, ih, mem_addTo, List.mem_cons, or_assoc]

theorem finishOne_ok (h : w.finishOne r = .ok w') :
    w' = { w with recvingMetadata := w.recvingMetadata.erase r } := by
  simp only [finishOne, except_bind_eq_ok] at h
  obtain ⟨entry, -, info, -, ratio, -, hend⟩ := h
  split at hend
  · simp only [except_bind_eq_ok] at hend
    obtain ⟨_, -, _, -, hok⟩ := hend
    exact (Except.ok.inj hok).symm
  · exact (Except.ok.inj hend).symm

theorem finishAll_ok (h : done.foldlM finishOne w = .ok w') :
    (∃ d, w' = { w with recvingMetadata := d } ∧
      ∀ r entry, d.get? r = some entry → w.recvingMetadata.get? r = some entry) ∧
    ∀ r ∈ done, w'.recvingMetadata.get? r = none := by
  refine foldlM_visits (R := fun w w' => ∃ d, w' = { w with recvingMetadata := d } ∧
      ∀ r entry, d.get? r = some entry → w.recvingMetadata.get? r = some entry)
    (P := fun r w => w.recvingMetadata.get? r = none) (fun w => ⟨_, rfl, fun _ _ h => h⟩) ?_ ?_ ?_ h
  · rintro w₁ _ _ ⟨d, rfl, hd⟩ ⟨d', rfl, hd'⟩
    exact ⟨d', rfl, fun r entry hget => hd r entry (hd' r entry hget)⟩
  · intro w₁ r w₂ hok
    obtain rfl := finishOne_ok hok
    refine ⟨⟨_, rfl, fun r' entry hget => ?_⟩, Dict.get?_erase_self⟩
    rw [Dict.get?_erase] at hget
    split at hget
    · cases hget
    · exact hget
  · rintro r w₁ _ hnone ⟨d, rfl, hd⟩
    by_contra hsome
    obtain ⟨entry, hentry⟩ := Option.ne_none_iff_exists'.mp hsome
    rw [hd r entry hentry] at hnone
    cases hnone

theorem Tracked.getFinished
    (h : Tracked spec [] w) (hok : w.getFinished poll = .ok (w', done)) : Tracked spec [] w' := by
  simp only [RecvWorker.getFinished, except_bind_eq_ok, Prod.exists] at hok
  obtain ⟨w₁, popped, hpop, w₂, hfinish, hend⟩ := hok
  obtain ⟨rfl, -⟩ := ok_pair_inj hend
  obtain ⟨⟨transfers, ids, rfl⟩, hkept⟩ := popDoneTransfers_polled hpop
  obtain ⟨⟨d, rfl, hd⟩, hnone⟩ := finishAll_ok hfinish
  refine { h with
    metadata := fun r entry hget => h.metadata r entry (hd r entry hget)
    covered := fun r hr => .inl ?_ }
  obtain ⟨entry, hget⟩ := Dict.mem_keys_iff.mp hr
  have hleft : r ∉ w.failedRecvReqs.foldl addTo popped := by
    intro hmem
    have := hnone r hmem
    change d.get? r = none at this
    change d.get? r = some entry at hget
    rw [hget] at this
    cases this
  rw [mem_foldl_addTo, not_or] at hleft
  have hout := (h.covered r (Dict.mem_keys_iff.mpr ⟨entry, hd r entry hget⟩)).resolve_right
    List.not_mem_nil
  rw [mem_outstanding] at hout ⊢
  rcases hout with hout | hout | hout | hout | hout
  · exact .inl hout
  · exact .inr (.inl hout)
  · exact .inr (.inr (.inl hout))
  · exact .inr (.inr (.inr (.inl ((hkept r (.inl hout)).resolve_right hleft.1))))
  · exact absurd hout hleft.2

/-! ### Runs -/

end RecvWorker

def RecvEvent.HasBlocks : RecvEvent → Prop
  | .startLoad _ entry _ => entry.HasBlocks
  | .readReady _ | .resolve _ _ _ | .doneCallback _ | .runCallback | .getFinished _
  | .takeInvalid => True

namespace RecvWorker

variable {w w' : RecvWorker} {spec : SpecType}

theorem Tracked.step {e : RecvEvent} (h : Tracked spec [] w) (he : e.HasBlocks)
    (hstep : w.step e = some w') : Tracked spec [] w' := by
  cases e with
  | startLoad r entry failing => exact h.startLoad he (toOption_eq_some.mp hstep)
  | readReady failing =>
    simp only [RecvWorker.step] at hstep
    split at hstep
    · cases hstep
    · next r entry rest hready => exact h.readReady hready (toOption_eq_some.mp hstep)
  | resolve engineId info agents => exact h.resolve hstep
  | doneCallback engineId => exact h.doneCallback hstep
  | runCallback => exact h.runCallback hstep
  | getFinished poll =>
    obtain ⟨⟨w₁, done⟩, hok, rfl⟩ := Option.map_eq_some_iff.mp hstep
    exact h.getFinished (toOption_eq_some.mp hok)
  | takeInvalid =>
    obtain rfl := Option.some.inj hstep
    exact h.extend ⟨rfl, rfl, rfl, rfl, rfl, rfl, rfl, fun _ hr => hr⟩

/-- No handshake is pending, no read is about to start or in flight, and no completion is waiting
to be reported. -/
structure Quiet (w : RecvWorker) : Prop where
  handshakeFutures : w.handshakeFutures = .empty
  callbacks : w.callbacks = []
  readyRequests : w.readyRequests = []
  recvingTransfers : w.recvingTransfers = .empty
  failedRecvReqs : w.failedRecvReqs = []

theorem Quiet.outstanding (h : Quiet w) : w.outstanding = [] := by
  unfold RecvWorker.outstanding
  rw [h.handshakeFutures, h.callbacks, h.readyRequests, h.recvingTransfers, h.failedRecvReqs]
  rfl

/-- With one KV-cache group, and blocks to read in every entry, the receive metadata is bounded by
the work outstanding, and empty when there is none. -/
theorem recvingMetadata_bounded {topology : TransferTopology} {blockSize : Nat} {hma : Bool}
    {events : List RecvEvent} (hblocks : ∀ e ∈ events, e.HasBlocks)
    (hrun : exec step
      { transferTopo := topology, blockSize, groupSpecTypes := [spec], isHmaRequired := hma }
      events = some w) :
    w.recvingMetadata.keys ⊆ w.outstanding ∧
    w.recvingMetadata.keys.length ≤ w.outstanding.length ∧
    (Quiet w → w.recvingMetadata.keys = []) := by
  have hinit : Tracked spec []
      { transferTopo := topology, blockSize, groupSpecTypes := [spec], isHmaRequired := hma } := by
    refine ⟨rfl, ?_, ?_, ?_, ?_, ?_, ?_⟩
    all_goals simp [Dict.empty, Dict.get?, Dict.keys]
  have htracked : Tracked spec [] w :=
    exec_invariant_along (P := Tracked spec []) (C := fun _ e => e.HasBlocks)
      (fun _ _ _ h he hstep => h.step he hstep) hinit (Along.of_mem hblocks) hrun
  have hsub : w.recvingMetadata.keys ⊆ w.outstanding := fun r hr =>
    (htracked.covered r hr).resolve_right List.not_mem_nil
  refine ⟨hsub, (w.recvingMetadata.nodup.subperm hsub).length_le, fun hquiet => ?_⟩
  rw [hquiet.outstanding] at hsub
  exact List.subset_nil.mp hsub

def oneRank : TransferTopology := ⟨0, 1, false, 1, Nat.one_pos, Nat.one_pos⟩

def loadOf (blocks : BlockIds) : ReqMeta := ⟨blocks, ⟨[[3]], 5, 9⟩⟩

def firstLoad (blocks : BlockIds) : List RecvEvent :=
  [.startLoad 4 (loadOf blocks) [], .resolve 5 (some ⟨1, 16⟩) (some [0]), .doneCallback 5,
    .runCallback, .readReady []]

theorem recvingMetadata_bounded_load : ∃ w : RecvWorker,
    exec step { transferTopo := oneRank, blockSize := 16, groupSpecTypes := [.attention] }
      (firstLoad [[7]] ++ [.getFinished fun _ => .done]) = some w ∧
    Quiet w ∧ w.recvingMetadata.keys = [] := by
  obtain ⟨w, hrun, hquiet⟩ : ∃ w : RecvWorker,
      exec step { transferTopo := oneRank, blockSize := 16, groupSpecTypes := [.attention] }
        (firstLoad [[7]] ++ [.getFinished fun _ => .done]) = some w ∧ Quiet w :=
    ⟨_, rfl, rfl, rfl, rfl, rfl, rfl⟩
  refine ⟨w, hrun, hquiet, (recvingMetadata_bounded ?_ hrun).2.2 hquiet⟩
  have hentry : (loadOf [[7]]).HasBlocks := ⟨7, [], 3, [], rfl, rfl⟩
  simpa [firstLoad, RecvEvent.HasBlocks] using hentry

/-- A full local prefix hit and a release of the requests 4 and 6: the remote engine is notified,
nothing is outstanding, and after the next report the metadata of both is still there. -/
theorem notified_entries_stay : ∃ w : RecvWorker,
    exec step { transferTopo := oneRank, blockSize := 16, groupSpecTypes := [.attention] }
      (firstLoad [] ++ [.startLoad 6 (loadOf []) [], .getFinished fun _ => .done]) = some w ∧
    Quiet w ∧ w.notifs = [(5, 0, 9), (5, 0, 9)] ∧ w.recvingMetadata.keys = [4, 6] :=
  ⟨_, rfl, ⟨rfl, rfl, rfl, rfl, rfl⟩, rfl, rfl⟩

end RecvWorker

end EldrServing.Nixl
