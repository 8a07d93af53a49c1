import EldrServing.Lib.Py
import EldrServing.Proxy.Disposal
import Mathlib.Algebra.GroupWithZero.Nat
import Mathlib.Data.List.Basic

/-!
# The training capture

With a capture file every handler appends the signature of its prefill, as a frame of a 4-byte
little-endian length and the bytes, in one write between two `await`s. `read_capture` cuts the file
into frames again and reads each one as a matrix of 16-bit integers.
-/

namespace EldrServing.Proxy

set_option autoImplicit false

/-! ### Frames -/

def leValue : Bytes → Nat
  | [] => 0
  | b :: bs => b.toNat + 256 * leValue bs

def leBytes : Nat → Nat → Bytes
  | 0, _ => []
  | width + 1, v => UInt8.ofNat v :: leBytes width (v / 256)

@[simp] theorem leBytes_length (width v : Nat) : (leBytes width v).length = width := by
  induction width generalizing v with
  | zero => rfl
  | succ width ih => rw [leBytes, List.length_cons, ih]

theorem leValue_leBytes {width v : Nat} (h : v < 256 ^ width) : leValue (leBytes width v) = v := by
  induction width generalizing v with
  | zero =>
    rw [Nat.pow_zero] at h
    rw [leBytes, leValue]
    omega
  | succ width ih =>
    rw [leBytes, leValue, ih (Nat.div_lt_of_lt_mul (by rwa [Nat.pow_succ'] at h)),
      UInt8.toNat_ofNat']
    omega

theorem leBytes_leValue (bs : Bytes) : leBytes bs.length (leValue bs) = bs := by
  induction bs with
  | nil => rfl
  | cons b bs ih =>
    have hb := b.toNat_lt
    have hdiv : (b.toNat + 256 * leValue bs) / 256 = leValue bs := by omega
    have hmod : UInt8.ofNat (b.toNat + 256 * leValue bs) = b := by
      apply UInt8.toNat_inj.mp
      rw [UInt8.toNat_ofNat']
      omega
    rw [List.length_cons, leBytes, leValue, hdiv, hmod, ih]

/-- What a handler writes: `struct.pack("<I", len(raw)) + raw`. -/
def frame (raw : Bytes) : Bytes := leBytes 4 raw.length ++ raw

/-- The content of the capture file after the writes of `frames`. -/
def captureBytes (frames : List Bytes) : Bytes := frames.flatMap frame

/-! ### `read_capture` -/

def modelGeometry (model : String) : Option (Nat × Nat × Nat) :=
  if model = "gptoss" then some (36, 128, 64)
  else if model = "qwen" then some (48, 128, 16)
  else if model = "gemma" then some (30, 128, 16)
  else none

/-- The loop over the file, on the bytes from `offset` on. -/
def readFrames (size : Nat) (raw : Bytes) : Except PyError (List Bytes) :=
  if raw = [] then .ok []
  else if raw.length < 4 ∨ leValue (raw.take 4) ≠ size then
    .error (.valueError "Invalid training signature frame/geometry")
  else if raw.length < 4 + size then .error (.valueError "Truncated training signature")
  else do
    let rows ← readFrames size (raw.drop (4 + size))
    .ok ((raw.drop 4).take size :: rows)
termination_by raw.length
decreasing_by
  have := List.length_pos_iff.mpr ‹raw ≠ []›
  simp only [List.length_drop]
  omega

def int16Value (bs : Bytes) : Int :=
  if leValue bs < 32768 then leValue bs else leValue bs - 65536

/-- `np.frombuffer(.., dtype="<i2")`. -/
def int16s : Bytes → List Int
  | lo :: hi :: rest => int16Value [lo, hi] :: int16s rest
  | _ => []

/-- `reshape` of one row. -/
def reshapeRow (layers experts : Nat) (row : List Int) : List (List Int) :=
  (List.range layers).map fun l => (row.drop (l * experts)).take experts

def readCapture (raw : Bytes) (model : String) : Except PyError (List (List (List Int))) := do
  let (layers, experts, _) ← orRaise (.keyError model) (modelGeometry model)
  let rows ← readFrames (layers * experts * 2) raw
  if rows = [] then .error (.valueError "Empty training capture")
  else .ok (rows.map fun row => reshapeRow layers experts (int16s row))

def toBytes (signature : List (List Int)) : Bytes :=
  signature.flatten.flatMap fun x => leBytes 2 (x % 65536).toNat

theorem toBytes_int16s {row : Bytes} {n : Nat} (h : row.length = n * 2) :
    (int16s row).length = n ∧
      ((int16s row).flatMap fun x => leBytes 2 (x % 65536).toNat) = row := by
  induction n generalizing row with
  | zero =>
    rw [List.eq_nil_of_length_eq_zero (h.trans (Nat.zero_mul 2))]
    exact ⟨rfl, rfl⟩
  | succ n ih =>
    match row, h with
    | lo :: hi :: rest, h =>
      obtain ⟨hlen, hbytes⟩ := @ih rest (by simp only [List.length_cons] at h; omega)
      have hvalue : (int16Value [lo, hi] % 65536).toNat = leValue [lo, hi] := by
        have hlo := lo.toNat_lt
        have hhi := hi.toNat_lt
        by_cases hpos : leValue [lo, hi] < 32768
        · rw [int16Value, if_pos hpos]
          omega
        · rw [int16Value, if_neg hpos]
          simp only [leValue] at hpos ⊢
          omega
      rw [int16s, List.length_cons, hlen, List.flatMap_cons, hbytes, hvalue]
      exact ⟨rfl, congrArg (· ++ rest) (leBytes_leValue [lo, hi])⟩
    | [], h => simp at h
    | [_], h => simp at h; omega

theorem flatten_reshapeRow {layers experts : Nat} {row : List Int}
    (h : row.length = layers * experts) : (reshapeRow layers experts row).flatten = row := by
  have htake : ∀ n, (((List.range n).map fun l => (row.drop (l * experts)).take experts).flatten) =
      row.take (n * experts) := by
    intro n
    induction n with
    | zero => simp
    | succ n ih =>
      rw [List.range_succ, List.map_append, List.flatten_append, ih, Nat.succ_mul, List.take_add]
      simp
  rw [reshapeRow, htake, ← h, List.take_length]

section Frames

variable {size : Nat}

theorem readFrames_frame {raw rest : Bytes} (hraw : raw.length = size) (hsize : size < 256 ^ 4) :
    readFrames size (frame raw ++ rest) = (readFrames size rest).map (raw :: ·) := by
  have hlen : (frame raw ++ rest).length = 4 + size + rest.length := by
    simp [frame, hraw, Nat.add_assoc]
  have hheader : (frame raw ++ rest).take 4 = leBytes 4 size := by
    rw [frame, List.append_assoc, hraw]
    exact List.take_left' (leBytes_length 4 size)
  have hdrop : (frame raw ++ rest).drop 4 = raw ++ rest := by
    rw [frame, List.append_assoc]
    exact List.drop_left' (leBytes_length 4 _)
  have hrest : (frame raw ++ rest).drop (4 + size) = rest := by
    rw [← List.drop_drop, hdrop]
    exact List.drop_left' hraw
  rw [readFrames, if_neg (List.ne_nil_of_length_pos (by omega)), hheader, leValue_leBytes hsize,
    if_neg (by simp [hlen]; omega), if_neg (by omega), hrest, hdrop, List.take_left' hraw]
  cases readFrames size rest <;> rfl

theorem readFrames_captureBytes {frames : List Bytes} (hframes : ∀ f ∈ frames, f.length = size)
    (hsize : size < 256 ^ 4) (rest : Bytes) :
    readFrames size (captureBytes frames ++ rest) = (readFrames size rest).map (frames ++ ·) := by
  induction frames with
  | nil =>
    change readFrames size rest = _
    cases readFrames size rest <;> rfl
  | cons f frames ih =>
    rw [List.forall_mem_cons] at hframes
    rw [captureBytes, List.flatMap_cons, List.append_assoc, readFrames_frame hframes.1 hsize]
    change ((readFrames size (captureBytes frames ++ rest)).map _) = _
    rw [ih hframes.2]
    cases readFrames size rest <;> rfl

theorem readFrames_ok {raw : Bytes} {rows : List Bytes} (h : readFrames size raw = .ok rows) :
    raw = captureBytes rows ∧ ∀ f ∈ rows, f.length = size := by
  fun_induction readFrames size raw generalizing rows with
  | case1 =>
    obtain rfl := Except.ok.inj h
    exact ⟨rfl, nofun⟩
  | case2 => cases h
  | case3 => cases h
  | case4 raw hne hheader hlen ih =>
    obtain ⟨rows, hrows, hok⟩ := except_bind_eq_ok.mp h
    obtain rfl := Except.ok.inj hok
    obtain ⟨hrest, hall⟩ := ih hrows
    have hrow : ((raw.drop 4).take size).length = size := by
      rw [List.length_take, List.length_drop]
      omega
    refine ⟨?_, List.forall_mem_cons.mpr ⟨hrow, hall⟩⟩
    have hvalue : leValue (raw.take 4) = size := by
      by_contra hne
      exact hheader (.inr hne)
    have hfour : (raw.take 4).length = 4 := by
      rw [List.length_take]
      omega
    have hbytes := leBytes_leValue (raw.take 4)
    rw [hfour, hvalue] at hbytes
    rw [captureBytes, List.flatMap_cons, frame, hrow, hbytes, List.append_assoc]
    change raw = _ ++ (_ ++ captureBytes rows)
    rw [← hrest, ← List.drop_drop, List.take_append_drop, List.take_append_drop]

theorem readFrames_error {raw : Bytes} (hne : raw ≠ [])
    (h : raw.length < 4 + size ∨ leValue (raw.take 4) ≠ size) :
    ∃ e, readFrames size raw = .error e := by
  rw [readFrames, if_neg hne]
  split
  · exact ⟨_, rfl⟩
  · next hheader =>
    rw [not_or] at hheader
    exact ⟨_, if_pos (h.resolve_right hheader.2)⟩

end Frames

/-! ### The writes of the handlers -/

namespace Handler

def entersCapture (h : Handler) (o : Outcome) : Option Handoff :=
  match h.await, o with
  | .prefillExit (.ok result), .returned =>
    if h.payload.stream then none else (unpackPrefill result).toOption
  | .sendFirst, .returned => h.handoff.filter (·.continues)
  | .sendDone, .returned => h.handoff
  | _, _ => none

def passesWrite (h : Handler) (env : Env) (o : Outcome) : Option Bytes :=
  (h.entersCapture o).bind fun handoff =>
    if env.captureWrites then handoff.transfer.eldrSig.join else none

def pastCapture (h : Handler) : Bool :=
  match h.await with
  | .requestJson | .prefillPost | .prefillJson | .prefillExit _
  | .prepare | .sendFirst | .sendUsage | .sendDone => false
  | _ => true

/-- A run of `h` to the next `await` that appends `w` to the capture file. -/
structure Appends (app : App) (h : Handler) (w : Option Bytes) (res : App × Handler) : Prop where
  file : res.1.captureFile = app.captureFile.map (· ++ w.toList)
  past : h.pastCapture = true ∨ w.isSome = true → res.2.pastCapture = true

variable {app : App} {h : Handler} {env : Env} {o : Outcome} {res : App × Handler}

def Leaves (app : App) (res : App × Handler) : Prop :=
  res.1.captureFile = app.captureFile ∧ res.2.pastCapture

theorem leaveDecode_captureFile (app : App) (d : Option Url) :
    (app.leaveDecode d).captureFile = app.captureFile := by
  cases d <;> rfl

theorem leavePrefill_captureFile (app : App) (p : Option Url) :
    (app.leavePrefill p).captureFile = app.captureFile := by
  cases p <;> rfl

theorem finallyDecode_leaves (app : App) (h : Handler) (r : Result) :
    Leaves app (h.finallyDecode app r) := by
  unfold finallyDecode
  simp only
  split <;> exact ⟨leaveDecode_captureFile app h.decoder, rfl⟩

theorem raiseDecode_leaves (app : App) (h : Handler) (e : Exc) :
    Leaves app (h.raiseDecode app e) := by
  unfold raiseDecode
  simp only
  split
  · generalize (if e = .connector then _ else h) = h'
    split
    · exact ⟨rfl, rfl⟩
    · exact finallyDecode_leaves app h' _
  · exact finallyDecode_leaves app h _

theorem route_leaves (app : App) (h : Handler) (handoff : Handoff) (env : Env) :
    Leaves app (h.route app handoff env) := by
  unfold route
  split
  · unfold submit
    simp only
    split
    · exact raiseDecode_leaves app _ _
    · split
      · exact raiseDecode_leaves _ _ _
      · exact ⟨rfl, rfl⟩
  · split
    · exact ⟨rfl, rfl⟩
    · exact finallyDecode_leaves app h _

theorem map_append_nil (file : Option (List Bytes)) :
    file.map (· ++ (none : Option Bytes).toList) = file := by
  cases file <;> simp

theorem Leaves.appends (hres : Leaves app res) : Appends app h none res :=
  ⟨hres.1.trans (map_append_nil _).symm, fun _ => hres.2⟩

theorem passesWrite_of_past (hpast : h.pastCapture = true) (env : Env) (o : Outcome) :
    h.passesWrite env o = none := by
  unfold passesWrite entersCapture
  unfold pastCapture at hpast
  split
  all_goals simp_all

theorem Leaves.appends_of_past (hres : Leaves app res) (hpast : h.pastCapture = true) :
    Appends app h (h.passesWrite env o) res := by
  rw [passesWrite_of_past hpast]
  exact hres.appends

theorem Appends.before (hfile : res.1.captureFile = app.captureFile)
    (hpast : h.pastCapture = false) : Appends app h none res := by
  refine ⟨hfile.trans (map_append_nil _).symm, ?_⟩
  rintro (hp | hp)
  · rw [hpast] at hp
    cases hp
  · cases hp

theorem capture_appends (app : App) (h h' : Handler) (handoff : Handoff) (env : Env) :
    Appends app h (if env.captureWrites then handoff.transfer.eldrSig.join else none)
      (h'.capture app handoff env) := by
  unfold capture
  cases hfile : app.captureFile with
  | none =>
    obtain ⟨hsame, hpast⟩ := route_leaves app h' handoff env
    exact ⟨by rw [hsame, hfile]; rfl, fun _ => hpast⟩
  | some frames =>
    have hraise : ∀ e, Appends app h none (h'.raiseDecode app e) :=
      fun e => (raiseDecode_leaves app h' e).appends
    rcases hsig : handoff.transfer.eldrSig with _ | _ | raw
    · simpa using hraise _
    · simpa using hraise _
    · cases henv : env.captureWrites with
      | false => simpa [henv] using hraise _
      | true =>
        obtain ⟨hsame, hpast⟩ :=
          route_leaves { app with captureFile := some (frames ++ [raw]) } h' handoff env
        refine ⟨?_, fun _ => by simpa [henv] using hpast⟩
        simpa [henv, hfile] using hsame

theorem leavePrefill_appends (app : App) (env : Env) (hpast : h.pastCapture = false)
    (body : Except Exc PrefillResult) :
    Appends app h (passesWrite { h with await := .prefillExit body } env .returned)
      (h.leavePrefill app env body) := by
  have hfile := leavePrefill_captureFile app h.prefiller
  cases body with
  | error e => exact .before hfile hpast
  | ok result =>
    simp only [leavePrefill, passesWrite, entersCapture]
    cases hunpack : unpackPrefill result with
    | error e =>
      have hnone : (if h.payload.stream = true then none
          else (Except.error e : Except Exc Handoff).toOption) = none := by
        split <;> rfl
      rw [hnone]
      dsimp only
      repeat' split
      all_goals exact .before hfile hpast
    | ok handoff =>
      simp only [enterDecode]
      split
      · exact .before hfile hpast
      · have hwrite := capture_appends (app.leavePrefill h.prefiller) h
          { h with handoff := some handoff } handoff env
        exact ⟨hfile ▸ hwrite.file, hwrite.past⟩

theorem passesWrite_raised (h : Handler) (env : Env) (e : Exc) :
    h.passesWrite env (.raised e) = none := by
  unfold passesWrite entersCapture
  split
  · contradiction
  · contradiction
  · contradiction
  · rfl

theorem resumeFirst_appends {handoff : Handoff} (hhandoff : h.handoff = some handoff)
    (hres : h.resumeFirst app handoff env o = some res) :
    Appends app h (h.passesWrite env o) res := by
  have hwrite := capture_appends app h h handoff env
  unfold resumeFirst at hres
  split at hres
  case h_6 e =>
    obtain rfl := Option.some.inj hres
    rw [passesWrite_raised]
    exact (raiseDecode_leaves app h e).appends
  case h_7 => cases hres
  all_goals unfold passesWrite entersCapture
  case h_2 hawait =>
    obtain rfl := Option.some.inj hres
    rw [hawait, hhandoff]
    unfold sentFirst
    by_cases hcontinues : handoff.continues = true
    · simp only [Option.filter_some, hcontinues, if_true, Option.bind_some]
      exact hwrite
    · have hpast : h.pastCapture = false := by rw [pastCapture, hawait]
      simp only [Option.filter_some, hcontinues, Bool.false_eq_true, if_false, Option.bind_none]
      split <;> exact .before rfl hpast
  case h_4 hawait =>
    obtain rfl := Option.some.inj hres
    rw [hawait, hhandoff]
    exact hwrite
  case h_5 hawait =>
    obtain rfl := Option.some.inj hres
    rw [hawait]
    exact (finallyDecode_leaves app h _).appends
  all_goals
    next hawait =>
    obtain rfl := Option.some.inj hres
    rw [hawait]
    exact .before rfl (by rw [pastCapture, hawait])

theorem resume_appends (hres : h.resume app env o = some res) :
    Appends app h (h.passesWrite env o) res := by
  unfold resume at hres
  cases hawait : h.await with
  | prepare | sendFirst | sendUsage | sendDone | terminalEof =>
    rw [hawait] at hres
    obtain ⟨handoff, hhandoff, hrun⟩ := Option.bind_eq_some_iff.mp hres
    exact resumeFirst_appends hhandoff hrun
  | prefillExit body =>
    have hpast : h.pastCapture = false := by rw [pastCapture, hawait]
    rw [hawait] at hres
    simp only at hres
    split at hres
    · obtain rfl := Option.some.inj hres
      have hwrite := leavePrefill_appends app env hpast body
      have hself : { h with await := .prefillExit body } = h := by rw [← hawait]
      rwa [hself] at hwrite
    · obtain rfl := Option.some.inj hres
      rw [passesWrite_raised]
      exact .before (leavePrefill_captureFile app h.prefiller) hpast
    · cases hres
  | requestJson | prefillPost | prefillJson =>
    have hpast : h.pastCapture = false := by rw [pastCapture, hawait]
    have hnone : h.passesWrite env o = none := by
      simp only [passesWrite, entersCapture, hawait]
      rfl
    rw [hawait] at hres
    rw [hnone]
    refine .before ?_ hpast
    simp only at hres
    repeat' split at hres
    all_goals cases hres
    all_goals first | rfl | exact leavePrefill_captureFile app h.prefiller
  | decodeJson | nextChunk | writeChunk | writeEof =>
    rw [hawait] at hres
    obtain ⟨h', hrun, rfl⟩ := Option.map_eq_some_iff.mp hres
    refine Leaves.appends_of_past ⟨rfl, ?_⟩ (by rw [pastCapture, hawait])
    unfold resumeDecode at hrun
    split at hrun <;> cases hrun <;> rfl
  | decodePost =>
    refine Leaves.appends_of_past ?_ (by rw [pastCapture, hawait])
    rw [hawait] at hres
    simp only at hres
    split at hres
    · obtain rfl := Option.some.inj hres
      refine ⟨rfl, ?_⟩
      simp only [respond]
      split
      · rfl
      · cases h.streamResponse <;> rfl
    · split at hres
      · cases hres
      · obtain rfl := Option.some.inj hres
        exact raiseDecode_leaves app _ _
    · cases hres
  | releaseInvalid _ | decodeExit _ | writeError _ | release _ | done _ =>
    refine Leaves.appends_of_past ?_ (by rw [pastCapture, hawait])
    rw [hawait] at hres
    simp only at hres
    repeat' split at hres
    all_goals cases hres
    all_goals first
      | exact ⟨rfl, rfl⟩
      | exact finallyDecode_leaves app h _
      | exact raiseDecode_leaves app h _

end Handler

def written (p : Proxy) : Event → Option (Nat × Bytes)
  | .accept => none
  | .resume i env o => p.handlers[i]?.bind fun h => (h.passesWrite env o).map (i, ·)

def writes : Proxy → List Event → List (Nat × Bytes)
  | _, [] => []
  | p, e :: es =>
    match step p e with
    | none => []
    | some p' => (written p e).toList ++ writes p' es

def Past (p : Proxy) (i : Nat) : Prop := ∃ h, p.handlers[i]? = some h ∧ h.pastCapture = true

theorem step_writes {p p' : Proxy} {e : Event} (hstep : step p e = some p') :
    p'.app.captureFile = p.app.captureFile.map (· ++ (written p e).toList.map Prod.snd) ∧
      (∀ i, Past p i → Past p' i) ∧
      ∀ w, written p e = some w → ¬ Past p w.1 ∧ Past p' w.1 := by
  cases e with
  | accept =>
    obtain rfl := Option.some.inj hstep
    refine ⟨(Handler.map_append_nil _).symm, ?_, nofun⟩
    rintro i ⟨h, hh, hpast⟩
    refine ⟨h, ?_, hpast⟩
    rw [List.getElem?_append_left (List.getElem?_eq_some_iff.mp hh).1]
    exact hh
  | resume i env o =>
    simp only [step] at hstep
    split at hstep
    · cases hstep
    · next h hh =>
      split at hstep
      · obtain ⟨⟨app', h'⟩, hres, rfl⟩ := Option.map_eq_some_iff.mp hstep
        obtain ⟨hfile, hpast⟩ := Handler.resume_appends hres
        have hi := (List.getElem?_eq_some_iff.mp hh).1
        have hset : (p.handlers.set i h')[i]? = some h' := List.getElem?_set_self hi
        refine ⟨?_, ?_, ?_⟩
        · rw [hfile, written, hh, Option.bind_some]
          cases h.passesWrite env o <;> rfl
        · rintro j ⟨g, hg, hgpast⟩
          by_cases hij : i = j
          · subst hij
            obtain rfl := some_unique hh hg
            exact ⟨h', hset, hpast (.inl hgpast)⟩
          · exact ⟨g, (List.getElem?_set_ne hij).trans hg, hgpast⟩
        · intro w hw
          rw [written, hh, Option.bind_some] at hw
          obtain ⟨raw, hraw, rfl⟩ := Option.map_eq_some_iff.mp hw
          refine ⟨?_, h', hset, hpast (.inr (by rw [hraw]; rfl))⟩
          rintro ⟨g, hg, hgpast⟩
          obtain rfl := some_unique hh hg
          rw [Handler.passesWrite_of_past hgpast] at hraw
          cases hraw
      · cases hstep

/-- The file holds what was written, and every handler writes at most once. -/
theorem run_writes {p p' : Proxy} {es : List Event} (hrun : Machine.exec step p es = some p') :
    p'.app.captureFile = p.app.captureFile.map (· ++ (writes p es).map Prod.snd) ∧
      ((writes p es).map Prod.fst).Nodup ∧ ∀ w ∈ writes p es, ¬ Past p w.1 := by
  induction es generalizing p with
  | nil =>
    obtain rfl := Option.some.inj hrun
    exact ⟨(Handler.map_append_nil _).symm, List.nodup_nil, nofun⟩
  | cons e es ih =>
    obtain ⟨t, hstep, hrest⟩ := (Machine.exec_cons_eq_some step).mp hrun
    obtain ⟨hfile, hkeep, hnew⟩ := step_writes hstep
    obtain ⟨hfile', hnodup, hbefore⟩ := ih hrest
    have hwrites : writes p (e :: es) = (written p e).toList ++ writes t es := by
      rw [writes, hstep]
    rw [hwrites]
    refine ⟨?_, ?_, ?_⟩
    · rw [hfile', hfile, Option.map_map, List.map_append]
      congr 1
      funext frames
      exact List.append_assoc ..
    · cases hw : written p e with
      | none => exact hnodup
      | some w =>
        refine List.nodup_cons.mpr ⟨fun hmem => ?_, hnodup⟩
        obtain ⟨w', hw', heq⟩ := List.mem_map.mp hmem
        exact hbefore w' hw' (heq ▸ (hnew w hw).2)
    · intro w hw
      rcases List.mem_append.mp hw with hw | hw
      · exact (hnew w (Option.mem_toList.mp hw)).1
      · exact fun hpast => hbefore w hw (hkeep _ hpast)

/-! ### The round trip -/

theorem modelGeometry_size {model : String} {layers experts topk : Nat}
    (hmodel : modelGeometry model = some (layers, experts, topk)) :
    0 < layers * experts * 2 ∧ layers * experts * 2 < 256 ^ 4 := by
  unfold modelGeometry at hmodel
  split at hmodel
  · cases hmodel
    decide
  · split at hmodel
    · cases hmodel
      decide
    · split at hmodel
      · cases hmodel
        decide
      · cases hmodel

section RoundTrip

variable {model : String} {layers experts topk : Nat}
  (hmodel : modelGeometry model = some (layers, experts, topk))
include hmodel

theorem readCapture_eq (raw : Bytes) : readCapture raw model =
    (readFrames (layers * experts * 2) raw >>= fun rows =>
      if rows = [] then .error (.valueError "Empty training capture")
      else .ok (rows.map fun row => reshapeRow layers experts (int16s row))) := by
  rw [readCapture, hmodel]
  rfl

theorem readCapture_frames {frames : List Bytes} (hne : frames ≠ [])
    (hframes : ∀ f ∈ frames, f.length = layers * experts * 2) :
    ∃ signatures, readCapture (captureBytes frames) model = .ok signatures ∧
      signatures.map toBytes = frames := by
  have hread := readFrames_captureBytes hframes (modelGeometry_size hmodel).2 []
  have hnil : readFrames (layers * experts * 2) [] = .ok [] := by rw [readFrames, if_pos rfl]
  rw [List.append_nil, hnil, Except.map, List.append_nil] at hread
  refine ⟨frames.map fun row => reshapeRow layers experts (int16s row), ?_, ?_⟩
  · rw [readCapture_eq hmodel, hread]
    exact if_neg hne
  · rw [List.map_map]
    refine (List.map_congr_left fun f hf => ?_).trans (List.map_id frames)
    obtain ⟨hlen, hbytes⟩ := toBytes_int16s (hframes f hf)
    rw [Function.comp_apply, toBytes, flatten_reshapeRow hlen, hbytes, id]

theorem readCapture_error {frames : List Bytes} {rest : Bytes}
    (hframes : ∀ f ∈ frames, f.length = layers * experts * 2) (hne : rest ≠ [])
    (h : rest.length < 4 + layers * experts * 2 ∨ leValue (rest.take 4) ≠ layers * experts * 2) :
    ∃ e, readCapture (captureBytes frames ++ rest) model = .error e := by
  obtain ⟨e, he⟩ := readFrames_error hne h
  refine ⟨e, ?_⟩
  rw [readCapture_eq hmodel, readFrames_captureBytes hframes (modelGeometry_size hmodel).2, he]
  rfl

end RoundTrip

/-- A signature of the geometry of `gemma`. -/
def gemmaSignature : Bytes := List.replicate 7680 1

def gemmaResult : PrefillResult :=
  { oneTokenResult with
    kvTransferParams := oneTokenResult.kvTransferParams.map
      ({ · with eldrSig := some (some gemmaSignature) }) }

def captureApp : App := { idleApp with captureFile := some [] }

def captureRun : List Event :=
  .accept :: [.request (some { stream := false, includeUsage := false }), .response 200,
    .result gemmaResult, .returned].map (.resume 0 {})

end EldrServing.Proxy
