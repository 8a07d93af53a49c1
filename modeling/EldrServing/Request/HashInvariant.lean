import EldrServing.Lib.Machine
import EldrServing.Request.BlockHashing
import Mathlib.Data.List.Pairwise

/-!
# When stored block hashes describe the tokens

The hasher resumes from the number of stored hashes and, for multimodal features, from the
last feature. `chain` says what the hashes of the full blocks are, block by block, with every
feature that meets the block. The stored hashes stay equal to it along runs in which a session
update does not cut into hashed blocks and no feature but the last one reaches into the blocks
that are hashed on resumption.
-/

namespace EldrServing.BlockHashing

set_option autoImplicit false

open Machine

variable {κ δ ε : Type}

/-! ### Multimodal keys -/

def Meets (start stop : Nat) (f : MultiModalFeature) : Prop := f.offset < stop ∧ start < f.stop

instance (start stop : Nat) (f : MultiModalFeature) : Decidable (Meets start stop f) := by
  unfold Meets
  infer_instance

def mmKeys (features : List MultiModalFeature) (start stop : Nat) : List (ExtraKey δ) :=
  (features.filter fun f => Meets start stop f).map fun f =>
    .mm f.identifier ((f.offset : Int) - start)

variable {h : Hasher κ δ ε} {r r' : Request κ δ ε} {start stop n : Nat}

theorem mmKeys_eq_nil {features : List MultiModalFeature}
    (h : ∀ f ∈ features, ¬ Meets start stop f) :
    (mmKeys features start stop : List (ExtraKey δ)) = [] := by
  rw [mmKeys, List.filter_eq_nil_iff.mpr (by simpa using h), List.map_nil]

theorem mmKeys_append (fs gs : List MultiModalFeature) (start stop : Nat) :
    (mmKeys (fs ++ gs) start stop : List (ExtraKey δ)) =
      mmKeys fs start stop ++ mmKeys gs start stop := by
  simp [mmKeys]

/-- The loop lists the keys of all features that meet the block and leaves only passed ones. -/
theorem mmLoop_eq (hle : start ≤ stop) (fs : List MultiModalFeature) (idx : Nat)
    (hsorted : fs.Pairwise fun f g => f.stop ≤ g.offset) :
    ∃ j, (mmLoop start stop fs idx : List (ExtraKey δ) × Nat) = (mmKeys fs start stop, idx + j) ∧
      ∀ f ∈ fs.take j, f.stop ≤ stop := by
  induction fs generalizing idx with
  | nil => exact ⟨0, rfl, by simp⟩
  | cons f fs ih =>
    obtain ⟨hf, hfs⟩ := List.pairwise_cons.mp hsorted
    by_cases hreach : f.offset < stop
    · by_cases hpassed : f.stop ≤ start
      · obtain ⟨j, heq, hj⟩ := ih (idx + 1) hfs
        refine ⟨j + 1, ?_, ?_⟩
        · have hno : ¬ Meets start stop f := fun hm => by
            have := hm.2
            omega
          simp only [mmLoop, if_pos hreach, if_pos hpassed, heq, Prod.mk.injEq]
          refine ⟨?_, by omega⟩
          rw [mmKeys, mmKeys, List.filter_cons_of_neg (by simpa using hno)]
        · intro g hg
          rcases List.mem_cons.mp (by simpa using hg) with rfl | hg
          · omega
          · exact hj g hg
      · have hmeets : Meets start stop f := ⟨hreach, by omega⟩
        have hcons : (mmKeys (f :: fs) start stop : List (ExtraKey δ)) =
            .mm f.identifier ((f.offset : Int) - start) :: mmKeys fs start stop := by
          rw [mmKeys, List.filter_cons_of_pos (by simpa using hmeets)]
          rfl
        by_cases hend : f.stop ≤ stop
        · obtain ⟨j, heq, hj⟩ := ih (idx + 1) hfs
          refine ⟨j + 1, ?_, ?_⟩
          · simp only [mmLoop, if_pos hreach, if_neg hpassed, if_pos hend, heq, hcons,
              Prod.mk.injEq, true_and]
            omega
          · intro g hg
            rcases List.mem_cons.mp (by simpa using hg) with rfl | hg
            · exact hend
            · exact hj g hg
        · refine ⟨0, ?_, by simp⟩
          have hnone : (mmKeys fs start stop : List (ExtraKey δ)) = [] := by
            apply mmKeys_eq_nil
            intro g hg hm
            have := hf g hg
            have := hm.1
            omega
          simp [mmLoop, hreach, hpassed, hend, hcons, hnone]
    · refine ⟨0, ?_, by simp⟩
      have hnone : (mmKeys (f :: fs) start stop : List (ExtraKey δ)) = [] := by
        apply mmKeys_eq_nil
        intro g hg hm
        have := hm.1
        rcases List.mem_cons.mp hg with rfl | hg
        · exact hreach this
        · have := hf g hg
          have : f.stop = f.offset + f.length := rfl
          omega
      simp [mmLoop, hreach, hnone]

def mmIndex (features : List MultiModalFeature) (idx : Int) : Nat :=
  (if idx < 0 then features.length + idx else idx).toNat

/-- No feature before the index has a key in a block between `start` and `limit`. -/
structure IndexOk (features : List MultiModalFeature) (idx : Int) (start limit : Nat) : Prop where
  ge : -1 ≤ idx
  before : ∀ f ∈ features.take (mmIndex features idx), f.stop ≤ start ∨ limit ≤ f.offset

theorem genMmExtraHashKeys_eq {features : List MultiModalFeature} {idx : Int}
    {limit : Nat} (hsorted : features.Pairwise fun f g => f.stop ≤ g.offset)
    (hidx : IndexOk features idx start limit) (hle : start ≤ stop) (hlim : stop ≤ limit) :
    ∃ idx', genMmExtraHashKeys features start stop idx =
        .ok ((mmKeys features start stop : List (ExtraKey δ)), idx') ∧
      IndexOk features idx' stop limit := by
  have hlater : IndexOk features idx stop limit :=
    ⟨hidx.ge, fun f hf => (hidx.before f hf).imp (fun h => Nat.le_trans h hle) id⟩
  unfold genMmExtraHashKeys
  split
  · rename_i hlast
    obtain rfl := List.getLast?_eq_none_iff.mp hlast
    exact ⟨idx, rfl, hlater⟩
  · rename_i last hlast
    obtain ⟨init, rfl⟩ := List.getLast?_eq_some_iff.mp hlast
    by_cases hpassed : last.stop ≤ start
    · refine ⟨idx, ?_, hlater⟩
      rw [if_pos hpassed, mmKeys_eq_nil]
      intro f hf hm
      have h2 := hm.2
      rcases List.mem_append.mp hf with hf | hf
      · have := (List.pairwise_append.mp hsorted).2.2 f hf last (by simp)
        have : last.stop = last.offset + last.length := rfl
        omega
      · obtain rfl : f = last := by simpa using hf
        omega
    · rw [if_neg hpassed]
      obtain ⟨features, hfeatures⟩ : ∃ fs, fs = init ++ [last] := ⟨_, rfl⟩
      rw [← hfeatures] at hsorted hidx hlater ⊢
      have hpos : 0 < features.length := by rw [hfeatures]; simp
      obtain ⟨i, hi⟩ : ∃ i, i = mmIndex features idx := ⟨_, rfl⟩
      obtain ⟨j, heq, hj⟩ := mmLoop_eq (δ := δ) hle (features.drop i) i
        (hsorted.sublist (List.drop_sublist _ _))
      have hkeys : (mmKeys features start stop : List (ExtraKey δ)) =
          mmKeys (features.drop i) start stop := by
        conv_lhs => rw [← List.take_append_drop i features]
        rw [mmKeys_append, mmKeys_eq_nil, List.nil_append]
        intro f hf hm
        have h1 := hm.1
        have h2 := hm.2
        rcases hidx.before f (hi ▸ hf) with h | h <;> omega
      refine ⟨((i + j : Nat) : Int), ?_, by omega, ?_⟩
      · have hassert : -idx ≤ (features.length : Int) := by
          have := hidx.ge
          omega
        rw [assert_bind_eq_ok]
        refine ⟨hassert, ?_⟩
        change Except.ok _ = _
        simp only [← mmIndex.eq_1, ← hi, heq, hkeys]
      · intro f hf
        have hidx' : mmIndex features ((i + j : Nat) : Int) = i + j := by
          simp [mmIndex]
          omega
        rw [hidx', List.take_add, List.mem_append] at hf
        rcases hf with hf | hf
        · exact hlater.before f (hi ▸ hf)
        · exact Or.inl (hj f hf)

/-! ### The chain of hashes -/

def embedsKeys (h : Hasher κ δ ε) (r : Request κ δ ε) (start stop : Nat) : List (ExtraKey δ) :=
  match r.promptEmbeds with
  | none => []
  | some embeds => [.embeds (h.embedsHash ((embeds.take stop).drop start))]

def blockKeys (h : Hasher κ δ ε) (r : Request κ δ ε) (start stop : Nat) :
    Option (List (ExtraKey δ)) :=
  tupleOrNone (genLoraExtraHashKeys r ++ mmKeys r.mmFeatures start stop ++ cacheSaltKeys r start ++
    embedsKeys h r start stop)

/-- The hashes of `n` blocks from `start` on, chained to `prev`. -/
def chain (h : Hasher κ δ ε) (r : Request κ δ ε) : Option κ → Nat → Nat → List κ
  | _, _, 0 => []
  | prev, start, n + 1 =>
    let stop := start + h.blockSize
    let hash := hashBlockTokens h prev (blockTokens r start stop) (blockKeys h r start stop)
    hash :: chain h r (some hash) stop n

@[simp] theorem chain_length (h : Hasher κ δ ε) (r : Request κ δ ε) (prev : Option κ)
    (start n : Nat) : (chain h r prev start n).length = n := by
  induction n generalizing prev start with
  | zero => rfl
  | succ n ih => simp [chain, ih]

theorem chain_add (h : Hasher κ δ ε) (r : Request κ δ ε) (prev : Option κ) (start n m : Nat) :
    chain h r prev start (n + m) = chain h r prev start n ++
      chain h r ((chain h r prev start n).getLast?.or prev) (start + n * h.blockSize) m := by
  induction n generalizing prev start with
  | zero => simp [chain]
  | succ n ih =>
    rw [show n + 1 + m = (n + m) + 1 by omega, chain, chain, ih, List.cons_append]
    simp only [List.cons.injEq, true_and]
    congr 2
    · rw [List.getLast?_cons]
      cases (chain h r _ (start + h.blockSize) n).getLast? <;> simp
    · rw [Nat.succ_mul]
      omega

theorem chain_congr {prev : Option κ} (hsame : ∀ s, s + h.blockSize ≤ start + n * h.blockSize →
    blockTokens r s (s + h.blockSize) = blockTokens r' s (s + h.blockSize) ∧
    blockKeys h r s (s + h.blockSize) = blockKeys h r' s (s + h.blockSize)) :
    chain h r prev start n = chain h r' prev start n := by
  induction n generalizing prev start with
  | zero => rfl
  | succ n ih =>
    rw [Nat.succ_mul] at hsame
    obtain ⟨htokens, hkeys⟩ := hsame start (by omega)
    rw [chain, chain, htokens, hkeys, ih]
    intro s hs
    exact hsame s (by omega)

def TableOk (h : Hasher κ δ ε) (promptEmbeds : Option (List ε)) (table : Dict (Nat × Nat) δ) :
    Prop :=
  ∀ embeds start stop digest, promptEmbeds = some embeds →
    table.get? (start, stop) = some digest → digest = h.embedsHash ((embeds.take stop).drop start)

theorem genPromptEmbedsExtraHashKeys_eq
    {table : Dict (Nat × Nat) δ} (htable : TableOk h r.promptEmbeds table) (start stop : Nat) :
    ∃ table', genPromptEmbedsExtraHashKeys h r.promptEmbeds table start stop =
      (embedsKeys h r start stop, table') ∧ TableOk h r.promptEmbeds table' := by
  unfold genPromptEmbedsExtraHashKeys embedsKeys
  cases hembeds : r.promptEmbeds with
  | none => exact ⟨table, rfl, hembeds ▸ htable⟩
  | some embeds =>
    rw [hembeds] at htable
    simp only
    split
    · rename_i digest hget
      rw [htable embeds start stop digest rfl hget]
      exact ⟨table, rfl, htable⟩
    · refine ⟨_, rfl, ?_⟩
      intro embeds' s t digest he hget
      obtain rfl := Option.some.inj he
      rw [Dict.get?_insert] at hget
      split at hget
      · rename_i heq
        obtain ⟨rfl, rfl⟩ := Prod.mk.inj heq
        exact (Option.some.inj hget).symm
      · exact htable embeds s t digest rfl hget

theorem hashLoop_eq
    (hsorted : r.mmFeatures.Pairwise fun f g => f.stop ≤ g.offset) {limit : Nat} (n fuel : Nat)
    (prev : Option κ) {idx : Int} {table : Dict (Nat × Nat) δ}
    (hfuel : n ≤ fuel) (hlimit : start + n * h.blockSize = limit)
    (hn : limit ≤ r.allTokenIds.length ∧ r.allTokenIds.length < limit + h.blockSize)
    (hidx : IndexOk r.mmFeatures idx start limit) (htable : TableOk h r.promptEmbeds table) :
    ∃ table', hashLoop h r fuel start idx prev table = .ok (chain h r prev start n, table') ∧
      TableOk h r.promptEmbeds table' := by
  induction n generalizing fuel start idx prev table with
  | zero =>
    refine ⟨table, ?_, htable⟩
    cases fuel with
    | zero => rfl
    | succ fuel =>
      rw [hashLoop]
      simp only [if_pos (show r.allTokenIds.length < start + h.blockSize by omega)]
      rfl
  | succ n ih =>
    obtain ⟨f, rfl⟩ : ∃ f, fuel = f + 1 := ⟨fuel - 1, by omega⟩
    rw [Nat.succ_mul] at hlimit
    obtain ⟨idx', hmm, hidx'⟩ := genMmExtraHashKeys_eq (δ := δ) hsorted hidx
      (Nat.le_add_right start h.blockSize) (by omega)
    obtain ⟨table₁, hembeds, htable₁⟩ :=
      genPromptEmbedsExtraHashKeys_eq htable start (start + h.blockSize)
    obtain ⟨table', hrest, htable'⟩ := ih f (some (hashBlockTokens h prev
      (blockTokens r start (start + h.blockSize)) (blockKeys h r start (start + h.blockSize))))
      (by omega) (by omega) hidx' htable₁
    refine ⟨table', ?_, htable'⟩
    have hextra : generateBlockHashExtraKeys h r table start (start + h.blockSize) idx =
        .ok ⟨blockKeys h r start (start + h.blockSize), idx', table₁⟩ := by
      simp only [generateBlockHashExtraKeys, hmm, hembeds]
      rfl
    rw [hashLoop]
    simp only [if_neg (show ¬ r.allTokenIds.length < start + h.blockSize by omega), hextra]
    simp only [bind, Except.bind, hrest]
    rfl

/-- The hasher may resume: the blocks it will hash meet no feature but the last. -/
def ResumeOk (h : Hasher κ δ ε) (r : Request κ δ ε) : Prop :=
  let start := r.blockHashes.length * h.blockSize
  let limit := r.allTokenIds.length / h.blockSize * h.blockSize
  r.blockHashes = [] ∨ ∀ f ∈ r.mmFeatures.dropLast, f.stop ≤ start ∨ limit ≤ f.offset

instance [DecidableEq κ] (h : Hasher κ δ ε) (r : Request κ δ ε) : Decidable (ResumeOk h r) := by
  unfold ResumeOk
  infer_instance

theorem requestBlockHasher_eq
    (hsorted : r.mmFeatures.Pairwise fun f g => f.stop ≤ g.offset) (hresume : ResumeOk h r)
    (hlen : r.blockHashes.length ≤ r.allTokenIds.length / h.blockSize)
    (htable : TableOk h r.promptEmbeds r.embedsHashes) :
    ∃ table, requestBlockHasher h r = .ok (chain h r r.blockHashes.getLast?
        (r.blockHashes.length * h.blockSize)
        (r.allTokenIds.length / h.blockSize - r.blockHashes.length), table) ∧
      TableOk h r.promptEmbeds table := by
  have hpos := h.blockSize_pos
  obtain ⟨full, hfull⟩ : ∃ full, full = r.allTokenIds.length / h.blockSize := ⟨_, rfl⟩
  have hle : full * h.blockSize ≤ r.allTokenIds.length := hfull ▸ Nat.div_mul_le_self _ _
  have hlt : r.allTokenIds.length < full * h.blockSize + h.blockSize := by
    have hdiv := Nat.div_add_mod r.allTokenIds.length h.blockSize
    have hmod := Nat.mod_lt r.allTokenIds.length hpos
    rw [Nat.mul_comm, ← hfull] at hdiv
    omega
  obtain ⟨n, hn⟩ : ∃ n, full = r.blockHashes.length + n := ⟨full - r.blockHashes.length, by omega⟩
  have hlimit : r.blockHashes.length * h.blockSize + n * h.blockSize = full * h.blockSize := by
    rw [hn, Nat.add_mul]
  rw [← hfull, show full - r.blockHashes.length = n by omega]
  unfold requestBlockHasher
  simp only
  split
  · rename_i hstop
    obtain rfl : n = 0 := by
      by_contra hne
      have : h.blockSize ≤ n * h.blockSize := Nat.le_mul_of_pos_left _ (Nat.pos_of_ne_zero hne)
      omega
    exact ⟨r.embedsHashes, rfl, htable⟩
  · refine hashLoop_eq hsorted n r.allTokenIds.length _ ?_ hlimit ⟨hle, hlt⟩ ?_ htable
    · have : n ≤ n * h.blockSize := Nat.le_mul_of_pos_right _ hpos
      omega
    · by_cases hnil : r.blockHashes = []
      · rw [if_neg (by simp [hnil])]
        exact ⟨by omega, by simp [mmIndex]⟩
      · have hstart : 0 < r.blockHashes.length * h.blockSize :=
          Nat.mul_pos (List.length_pos_iff.mpr hnil) hpos
        rw [if_pos hstart]
        refine ⟨by omega, ?_⟩
        intro f hf
        have hdrop : r.mmFeatures.take (mmIndex r.mmFeatures (-1)) = r.mmFeatures.dropLast := by
          rw [List.dropLast_eq_take, mmIndex, if_pos (by omega)]
          congr 1
          omega
        rw [hdrop] at hf
        have := hresume.resolve_left hnil f hf
        rwa [← hfull] at this

/-! ### Runs -/

structure HashInv (h : Hasher κ δ ε) (r : Request κ δ ε) : Prop where
  hashes : r.blockHashes = chain h r none 0 (r.allTokenIds.length / h.blockSize)
  features : FeaturesOk r.mmFeatures r.numPromptTokens
  prompt_le : r.numPromptTokens ≤ r.allTokenIds.length
  prompt_length : ∀ prompt, r.promptTokenIds = some prompt → prompt.length = r.numPromptTokens
  table : TableOk h r.promptEmbeds r.embedsHashes

theorem updateBlockHashes_eq
    (hstored : r.blockHashes = chain h r none 0 n) (hn : n ≤ r.allTokenIds.length / h.blockSize)
    (hsorted : r.mmFeatures.Pairwise fun f g => f.stop ≤ g.offset) (hresume : ResumeOk h r)
    (htable : TableOk h r.promptEmbeds r.embedsHashes) :
    ∃ table, updateBlockHashes h r = .ok { r with
        blockHashes := chain h r none 0 (r.allTokenIds.length / h.blockSize)
        embedsHashes := table } ∧ TableOk h r.promptEmbeds table := by
  have hlen : r.blockHashes.length = n := by rw [hstored, chain_length]
  obtain ⟨table, heq, htable'⟩ := requestBlockHasher_eq hsorted hresume (hlen.symm ▸ hn) htable
  refine ⟨table, ?_, htable'⟩
  have hsplit := chain_add h r none 0 n (r.allTokenIds.length / h.blockSize - n)
  rw [show n + (r.allTokenIds.length / h.blockSize - n) = r.allTokenIds.length / h.blockSize by omega,
    Option.or_none, Nat.zero_add, ← hstored] at hsplit
  simp only [updateBlockHashes, heq, hlen, bind, Except.bind, hsplit]

theorem blockTokens_append (r : Request κ δ ε) (tokens more : List Nat)
    (hstop : stop ≤ tokens.length) :
    blockTokens { r with allTokenIds := tokens ++ more } start stop =
      blockTokens { r with allTokenIds := tokens } start stop := by
  simp only [blockTokens]
  rw [List.take_append_of_le_length hstop]

theorem HashInv.init {n : NewRequest ε}
    (hn : FeaturesOk n.mmFeatures n.numPromptTokens) (hinit : Request.init h n = .ok r) :
    HashInv h r := by
  obtain ⟨r₀, hr₀⟩ : ∃ r₀ : Request κ δ ε, r₀ = Request.mk n.promptTokenIds n.numPromptTokens
      (n.promptTokenIds.getD (List.replicate n.numPromptTokens 0)) [] 0 n.mmFeatures n.loraName
      n.cacheSalt n.promptEmbeds .empty [] := ⟨_, rfl⟩
  have hlen : r₀.allTokenIds.length = n.numPromptTokens := by
    rw [hr₀]
    simp only [NewRequest.numPromptTokens]
    cases n.promptTokenIds <;> cases n.promptEmbeds <;> simp
  obtain ⟨table, heq, htable⟩ := updateBlockHashes_eq (n := 0) (r := r₀) (h := h)
    (by rw [hr₀]; rfl) (Nat.zero_le _) (by rw [hr₀]; exact hn.1) (Or.inl (by rw [hr₀]))
    (by rw [hr₀]; intro _ _ _ _ _ hget; simp at hget)
  have hr : Request.init h n = updateBlockHashes h r₀ := by rw [hr₀]; rfl
  rw [hr, heq] at hinit
  obtain rfl := Except.ok.inj hinit
  refine ⟨chain_congr fun s _ => ⟨rfl, rfl⟩, ?_, ?_, ?_, htable⟩
  · rw [hr₀]
    exact hn
  · change r₀.numPromptTokens ≤ r₀.allTokenIds.length
    exact Nat.le_of_eq (by rw [hlen, hr₀])
  · intro prompt hprompt
    change r₀.promptTokenIds = some prompt at hprompt
    rw [hr₀] at hprompt ⊢
    simp only at hprompt ⊢
    simp [NewRequest.numPromptTokens, hprompt]

/-- The condition under which a step keeps the hashes right. A session update must leave the hashed
blocks and the prompt in place, and whenever hashing resumes only the last feature may reach into
the blocks that are hashed. -/
def StepOk (h : Hasher κ δ ε) (r : Request κ δ ε) : Event → Prop
  | .appendOutput tokens => ResumeOk h { r with allTokenIds := r.allTokenIds ++ tokens }
  | .setComputed _ => True
  | .sessionUpdate u => r.numPromptTokens ≤ r.numComputedTokens ∧
      r.blockHashes.length * h.blockSize ≤ r.numComputedTokens ∧
      ResumeOk h (extendSession r [] u)

instance [DecidableEq κ] (h : Hasher κ δ ε) (r : Request κ δ ε) (e : Event) :
    Decidable (StepOk h r e) := by
  cases e <;> unfold StepOk <;> infer_instance

theorem HashInv.appendOutput {tokens : List Nat}
    (hinv : HashInv h r) (hok : StepOk h r (.appendOutput tokens))
    (hstep : appendOutputTokenIds h r tokens = .ok r') : HashInv h r' := by
  obtain ⟨r₁, hr₁⟩ : ∃ r₁, r₁ = { r with
    outputTokenIds := r.outputTokenIds ++ tokens
    allTokenIds := r.allTokenIds ++ tokens } := ⟨_, rfl⟩
  have hlen : r.allTokenIds.length ≤ r₁.allTokenIds.length := by rw [hr₁]; simp
  have hstored : r₁.blockHashes = chain h r₁ none 0 (r.allTokenIds.length / h.blockSize) := by
    rw [show r₁.blockHashes = r.blockHashes by rw [hr₁], hinv.hashes]
    apply chain_congr
    intro s hs
    have hle := Nat.div_mul_le_self r.allTokenIds.length h.blockSize
    rw [hr₁]
    exact ⟨(blockTokens_append r r.allTokenIds tokens (by omega)).symm, rfl⟩
  obtain ⟨table, heq, htable⟩ := updateBlockHashes_eq hstored (Nat.div_le_div_right hlen)
    (by rw [hr₁]; exact hinv.features.1) (by rw [hr₁]; exact hok) (by rw [hr₁]; exact hinv.table)
  rw [appendOutputTokenIds, ← hr₁, heq] at hstep
  obtain rfl := Except.ok.inj hstep
  refine ⟨chain_congr fun s _ => ⟨rfl, rfl⟩, ?_, ?_, ?_, htable⟩
  · rw [hr₁]
    exact hinv.features
  · exact Nat.le_trans (by rw [hr₁]; exact hinv.prompt_le) hlen
  · rw [hr₁]
    exact hinv.prompt_length

theorem FeaturesOk.append {fs gs : List MultiModalFeature} {base m : Nat}
    (hfs : FeaturesOk fs n) (hgs : FeaturesOk gs m) (hbase : n ≤ base) :
    FeaturesOk (fs ++ gs.map (·.shift base)) (base + m) := by
  refine ⟨List.pairwise_append.mpr ⟨hfs.1, ?_, ?_⟩, ?_⟩
  · rw [List.pairwise_map]
    apply hgs.1.imp
    intro f g hfg
    simp only [MultiModalFeature.stop, MultiModalFeature.shift] at hfg ⊢
    omega
  · intro f hf g hg
    obtain ⟨g, -, rfl⟩ := List.mem_map.mp hg
    have := hfs.2 f hf
    simp only [MultiModalFeature.shift]
    omega
  · intro f hf
    rcases List.mem_append.mp hf with hf | hf
    · have := hfs.2 f hf
      omega
    · obtain ⟨g, hg, rfl⟩ := List.mem_map.mp hf
      have := hgs.2 g hg
      simp only [MultiModalFeature.stop, MultiModalFeature.shift] at this ⊢
      omega

theorem blockKeys_append_features (h : Hasher κ δ ε) (r : Request κ δ ε)
    (more : List MultiModalFeature) (start stop : Nat) (hmore : ∀ f ∈ more, stop ≤ f.offset) :
    blockKeys h { r with mmFeatures := r.mmFeatures ++ more } start stop =
      blockKeys h r start stop := by
  have hnil : (mmKeys more start stop : List (ExtraKey δ)) = [] := by
    apply mmKeys_eq_nil
    intro f hf hm
    have := hmore f hf
    have := hm.1
    omega
  simp only [blockKeys, mmKeys_append, hnil, List.append_nil]
  rfl

theorem HashInv.sessionUpdate {u : StreamingUpdate}
    (hinv : HashInv h r) (hu : FeaturesOk u.mmFeatures u.promptTokenIds.length)
    (hok : StepOk h r (.sessionUpdate u)) (hstep : updateRequestAsSession h r u = .ok r') :
    HashInv h r' := by
  obtain ⟨hprompt, hcut, hresume⟩ := hok
  unfold updateRequestAsSession at hstep
  split at hstep
  · cases hstep
  rename_i prompt hp
  obtain ⟨r₁, hr₁⟩ : ∃ r₁, r₁ = extendSession r prompt u := ⟨_, rfl⟩
  obtain ⟨kept, hkept⟩ : ∃ kept, kept = r.allTokenIds.take r.numComputedTokens := ⟨_, rfl⟩
  have htokens : r₁.allTokenIds = kept ++ u.promptTokenIds := by rw [hr₁, hkept]; rfl
  have hfeatures : r₁.mmFeatures = r.mmFeatures ++ u.mmFeatures.map (·.shift kept.length) := by
    rw [hr₁, hkept]; rfl
  have hkeptlen : kept.length = min r.numComputedTokens r.allTokenIds.length := by
    rw [hkept, List.length_take]
  obtain ⟨n, hn⟩ : ∃ n, n = r.blockHashes.length := ⟨_, rfl⟩
  have hnfull : n = r.allTokenIds.length / h.blockSize := by
    rw [hn, hinv.hashes, chain_length]
  have hnlen : n * h.blockSize ≤ kept.length := by
    have := Nat.div_mul_le_self r.allTokenIds.length h.blockSize
    rw [← hnfull] at this
    rw [← hn] at hcut
    omega
  have hok₁ : FeaturesOk r₁.mmFeatures (kept.length + u.promptTokenIds.length) := by
    rw [hfeatures]
    refine hinv.features.append hu ?_
    have := hinv.prompt_le
    omega
  have hstored : r₁.blockHashes = chain h r₁ none 0 n := by
    rw [show r₁.blockHashes = r.blockHashes by rw [hr₁]; rfl, hinv.hashes, ← hnfull]
    apply chain_congr
    intro s hs
    constructor
    · simp only [blockTokens, htokens]
      rw [List.take_append_of_le_length (by omega), hkept, List.take_take, Nat.min_eq_left (by omega)]
    · have := blockKeys_append_features h r (u.mmFeatures.map (·.shift kept.length)) s
        (s + h.blockSize) (by
          intro f hf
          obtain ⟨g, -, rfl⟩ := List.mem_map.mp hf
          simp only [MultiModalFeature.shift]
          omega)
      rw [← this, hr₁, hkept]
      rfl
  have hfull : n ≤ r₁.allTokenIds.length / h.blockSize := by
    rw [Nat.le_div_iff_mul_le h.blockSize_pos, htokens, List.length_append]
    omega
  obtain ⟨table, heq, htable⟩ := updateBlockHashes_eq hstored hfull hok₁.1
    (by rw [hr₁]; exact hresume) (by rw [hr₁]; exact hinv.table)
  rw [← hr₁, heq] at hstep
  obtain rfl := Except.ok.inj hstep
  have hlen : ((r₁.promptTokenIds.getD []).length) = kept.length + u.promptTokenIds.length := by
    have hpl := hinv.prompt_length prompt hp
    have hple := hinv.prompt_le
    rw [hr₁]
    simp only [extendSession, Option.getD_some, List.length_append, List.length_drop, ← hkept]
    omega
  refine ⟨chain_congr fun s _ => ⟨rfl, rfl⟩, ?_, ?_, ?_, htable⟩
  · change FeaturesOk r₁.mmFeatures (r₁.promptTokenIds.getD []).length
    rw [hlen]
    exact hok₁
  · change (r₁.promptTokenIds.getD []).length ≤ r₁.allTokenIds.length
    exact Nat.le_of_eq (by rw [hlen, htokens, List.length_append])
  · intro prompt' hp'
    change r₁.promptTokenIds = some prompt' at hp'
    change prompt'.length = (r₁.promptTokenIds.getD []).length
    rw [hp']
    rfl

theorem HashInv.step {e : Event} (hinv : HashInv h r)
    (hok : StepOk h r e) (hstep : step h r e = some r') : HashInv h r' := by
  cases e with
  | appendOutput tokens => exact hinv.appendOutput hok (toOption_eq_some.mp hstep)
  | setComputed n =>
    simp only [BlockHashing.step] at hstep
    split at hstep
    · obtain rfl := Option.some.inj hstep
      refine ⟨?_, hinv.features, hinv.prompt_le, hinv.prompt_length, hinv.table⟩
      rw [show ({ r with numComputedTokens := n } : Request κ δ ε).blockHashes = r.blockHashes from rfl,
        hinv.hashes]
      exact chain_congr fun s _ => ⟨rfl, rfl⟩
    · cases hstep
  | sessionUpdate u =>
    simp only [BlockHashing.step] at hstep
    split at hstep
    · rename_i hu
      exact hinv.sessionUpdate hu hok (toOption_eq_some.mp hstep)
    · cases hstep

theorem HashInv.fromScratch (hinv : HashInv h r) :
    hashesFromScratch h r = .ok r.blockHashes := by
  obtain ⟨r₀, hr₀⟩ : ∃ r₀ : Request κ δ ε, r₀ = { r with
    blockHashes := [], embedsHashes := .empty } := ⟨_, rfl⟩
  obtain ⟨table, heq, -⟩ := requestBlockHasher_eq (h := h) (r := r₀)
    (by rw [hr₀]; exact hinv.features.1) (Or.inl (by rw [hr₀])) (by rw [hr₀]; exact Nat.zero_le _)
    (by rw [hr₀]; intro _ _ _ _ _ hget; simp at hget)
  rw [hashesFromScratch, ← hr₀, heq]
  have hsame : chain h r₀ none 0 (r.allTokenIds.length / h.blockSize) =
      chain h r none 0 (r.allTokenIds.length / h.blockSize) :=
    chain_congr fun s _ => by rw [hr₀]; exact ⟨rfl, rfl⟩
  rw [hinv.hashes, ← hsame]
  simp only [Except.map, hr₀]
  simp

/-- Along a run whose steps all meet `StepOk`, the stored hashes are those of hashing the current
tokens and features from scratch. -/
theorem blockHashes_eq_fromScratch {h : Hasher κ δ ε} {n : NewRequest ε} {r₀ r : Request κ δ ε}
    {es : List Event} (hn : FeaturesOk n.mmFeatures n.numPromptTokens)
    (hinit : Request.init h n = .ok r₀) (hok : Along (step h) (StepOk h) r₀ es)
    (hrun : exec (step h) r₀ es = some r) : hashesFromScratch h r = .ok r.blockHashes :=
  (exec_invariant_along (fun _ _ _ hs hc hstep => HashInv.step hs hc hstep) (HashInv.init hn hinit)
    hok hrun).fromScratch

/-! ### Equal hashes are those of equal prefixes -/

/-- Different blocks have different hashes, and none has the hash of the empty prefix. -/
structure CollisionFree (h : Hasher κ δ ε) : Prop where
  inj : ∀ p ts ks p' ts' ks', h.hashFn p ts ks = h.hashFn p' ts' ks' →
    p = p' ∧ ts = ts' ∧ ks = ks'
  ne_none : ∀ p ts ks, h.hashFn p ts ks ≠ h.noneHash

def prefixHash (h : Hasher κ δ ε) (r : Request κ δ ε) (n : Nat) : κ :=
  (chain h r none 0 n).getLast?.getD h.noneHash

/-- The request came from a run whose steps all meet `StepOk`. -/
def Grown (h : Hasher κ δ ε) (r : Request κ δ ε) : Prop :=
  ∃ n r₀ es, FeaturesOk n.mmFeatures n.numPromptTokens ∧ Request.init h n = .ok r₀ ∧
    Along (step h) (StepOk h) r₀ es ∧ exec (step h) r₀ es = some r

theorem prefixHash_succ (h : Hasher κ δ ε) (r : Request κ δ ε) (n : Nat) :
    prefixHash h r (n + 1) = h.hashFn (prefixHash h r n)
      (blockTokens r (n * h.blockSize) (n * h.blockSize + h.blockSize))
      (blockKeys h r (n * h.blockSize) (n * h.blockSize + h.blockSize)) := by
  rw [prefixHash, chain_add]
  simp [chain, hashBlockTokens, prefixHash]

theorem Grown.getElem? (hr : Grown h r) {i : Nat} {k : κ} (hi : r.blockHashes[i]? = some k) :
    k = prefixHash h r (i + 1) := by
  obtain ⟨m, r₀, es, hm, hinit, hok, hrun⟩ := hr
  have hinv : HashInv h r := exec_invariant_along (fun _ _ _ hs hc hstep => HashInv.step hs hc hstep)
    (HashInv.init hm hinit) hok hrun
  have hlt := (List.getElem?_eq_some_iff.mp hi).1
  rw [hinv.hashes, chain_length] at hlt
  obtain ⟨rest, hrest⟩ := Nat.exists_eq_add_of_le (Nat.succ_le_of_lt hlt)
  rw [hinv.hashes, hrest, chain_add, List.getElem?_append_left (by simp)] at hi
  rw [prefixHash, List.getLast?_eq_getElem?, chain_length]
  simp only [Nat.add_sub_cancel, Nat.succ_eq_add_one] at hi ⊢
  rw [hi]
  rfl

theorem prefixHash_eq_iff (hfree : CollisionFree h) (m n : Nat) :
    prefixHash h r m = prefixHash h r' n ↔ m = n ∧ ∀ b < m,
      blockTokens r (b * h.blockSize) (b * h.blockSize + h.blockSize) =
        blockTokens r' (b * h.blockSize) (b * h.blockSize + h.blockSize) ∧
      blockKeys h r (b * h.blockSize) (b * h.blockSize + h.blockSize) =
        blockKeys h r' (b * h.blockSize) (b * h.blockSize + h.blockSize) := by
  induction m generalizing n with
  | zero =>
    cases n with
    | zero => simp [prefixHash, chain]
    | succ n =>
      rw [prefixHash_succ]
      exact iff_of_false (hfree.ne_none _ _ _).symm (by simp)
  | succ m ih =>
    cases n with
    | zero =>
      rw [prefixHash_succ]
      exact iff_of_false (hfree.ne_none _ _ _) (by simp)
    | succ n =>
      rw [prefixHash_succ, prefixHash_succ, Nat.forall_lt_succ_right, Nat.succ_inj]
      constructor
      · intro heq
        obtain ⟨hparent, htokens, hkeys⟩ := hfree.inj _ _ _ _ _ _ heq
        obtain ⟨rfl, hbefore⟩ := (ih n).mp hparent
        exact ⟨rfl, hbefore, htokens, hkeys⟩
      · rintro ⟨rfl, hbefore, htokens, hkeys⟩
        rw [(ih m).mpr ⟨rfl, hbefore⟩, htokens, hkeys]

theorem take_eq_iff_blockTokens (n size : Nat) :
    r.allTokenIds.take (n * size) = r'.allTokenIds.take (n * size) ↔ ∀ b < n,
      blockTokens r (b * size) (b * size + size) =
        blockTokens r' (b * size) (b * size + size) := by
  induction n with
  | zero => simp
  | succ n ih =>
    have hsplit : ∀ xs : List Nat, xs.take (n * size + size) =
        xs.take (n * size) ++ (xs.take (n * size + size)).drop (n * size) := by
      intro xs
      have htake := List.take_append_drop (n * size) (xs.take (n * size + size))
      rw [List.take_take, Nat.min_eq_left (Nat.le_add_right ..)] at htake
      exact htake.symm
    rw [Nat.forall_lt_succ_right, ← ih, Nat.succ_mul]
    constructor
    · intro heq
      refine ⟨?_, congrArg (List.drop (n * size)) heq⟩
      have htake := congrArg (List.take (n * size)) heq
      rwa [List.take_take, List.take_take, Nat.min_eq_left (Nat.le_add_right ..)] at htake
    · rintro ⟨hbefore, htokens⟩
      rw [blockTokens, blockTokens] at htokens
      rw [hsplit, hbefore, htokens, ← hsplit]

/-- A hash that keeps all it is given, so that it is injective. -/
inductive Digest where
  | none
  | node (parent : Digest) (tokens : List Nat) (keys : Option (List (ExtraKey Nat)))
  deriving DecidableEq, Repr

def digestHasher (blockSize : Nat) (hpos : 0 < blockSize) : Hasher Digest Nat Nat where
  blockSize := blockSize
  hashFn := .node
  noneHash := .none
  embedsHash := List.sum
  blockSize_pos := hpos

/-- Run a request and compare its stored hashes with those from scratch. -/
def hashesAgree (h : Hasher Digest Nat Nat) (n : NewRequest Nat) (es : List Event) :
    Option Bool := do
  let r₀ ← (Request.init h n).toOption
  let r ← exec (step h) r₀ es
  let hashes ← (hashesFromScratch h r).toOption
  some (decide (hashes = r.blockHashes))

theorem exists_run_of_hashesAgree {h : Hasher Digest Nat Nat} {n : NewRequest Nat}
    {es : List Event} {agree : Bool} (hag : hashesAgree h n es = some agree) :
    ∃ r₀ r hashes, Request.init h n = .ok r₀ ∧ exec (step h) r₀ es = some r ∧
      hashesFromScratch h r = .ok hashes ∧ agree = decide (hashes = r.blockHashes) := by
  simp only [hashesAgree, Option.bind_eq_bind, Option.bind_eq_some_iff, Option.some.injEq] at hag
  obtain ⟨r₀, h₀, r, hr, hashes, hh, heq⟩ := hag
  exact ⟨r₀, r, hashes, toOption_eq_some.mp h₀, hr, toOption_eq_some.mp hh, heq.symm⟩

def twoImages : NewRequest Nat where
  promptTokenIds := some [1, 2, 3, 4, 5, 6]
  promptEmbeds := none
  mmFeatures := [⟨"a", 4, 1⟩, ⟨"b", 5, 1⟩]

def oneToken : NewRequest Nat := ⟨some [1], none, [], none, none⟩

/-- Two ways to wrong hashes. The block completed by the generated tokens holds two images, of which
only the last enters its hash. And a session update replaces the token that completed a block. -/
theorem blockHashes_ne_fromScratch :
    (FeaturesOk twoImages.mmFeatures twoImages.numPromptTokens ∧
      ∃ r₀ r hashes, Request.init (digestHasher 4 (by decide)) twoImages = .ok r₀ ∧
        exec (step (digestHasher 4 (by decide))) r₀
          [.setComputed 6, .appendOutput [7], .setComputed 7, .appendOutput [8]] = some r ∧
        hashesFromScratch (digestHasher 4 (by decide)) r = .ok hashes ∧ hashes ≠ r.blockHashes) ∧
    ∃ r₀ r hashes, Request.init (digestHasher 2 (by decide)) oneToken = .ok r₀ ∧
      exec (step (digestHasher 2 (by decide))) r₀
        [.setComputed 1, .appendOutput [5], .sessionUpdate ⟨[7], []⟩] = some r ∧
      hashesFromScratch (digestHasher 2 (by decide)) r = .ok hashes ∧ hashes ≠ r.blockHashes := by
  have himages : hashesAgree (digestHasher 4 (by decide)) twoImages
      [.setComputed 6, .appendOutput [7], .setComputed 7, .appendOutput [8]] = some false := by
    decide
  have hsession : hashesAgree (digestHasher 2 (by decide)) oneToken
      [.setComputed 1, .appendOutput [5], .sessionUpdate ⟨[7], []⟩] = some false := by
    decide
  obtain ⟨r₀, r, hashes, h₀, hr, hh, hne⟩ := exists_run_of_hashesAgree himages
  obtain ⟨s₀, s, hashes', g₀, gr, gh, gne⟩ := exists_run_of_hashesAgree hsession
  exact ⟨⟨by decide, r₀, r, hashes, h₀, hr, hh, of_decide_eq_false hne.symm⟩,
    s₀, s, hashes', g₀, gr, gh, of_decide_eq_false gne.symm⟩

/-- One image in the last block, and a session update that keeps the hashed blocks. -/
theorem blockHashes_eq_fromScratch_oneImage : ∃ r₀ r,
    Request.init (digestHasher 2 (by decide)) ⟨some [1, 2, 3], none, [⟨"a", 2, 1⟩], none, none⟩ =
      .ok r₀ ∧
    exec (step (digestHasher 2 (by decide))) r₀ [.setComputed 3, .appendOutput [4, 5],
      .setComputed 4, .sessionUpdate ⟨[6, 7], [⟨"b", 0, 2⟩]⟩] = some r ∧
    hashesFromScratch (digestHasher 2 (by decide)) r = .ok r.blockHashes := by
  have hagree : hashesAgree (digestHasher 2 (by decide))
      ⟨some [1, 2, 3], none, [⟨"a", 2, 1⟩], none, none⟩ [.setComputed 3, .appendOutput [4, 5],
      .setComputed 4, .sessionUpdate ⟨[6, 7], [⟨"b", 0, 2⟩]⟩] = some true := by
    decide
  have hcond : ((Request.init (digestHasher 2 (by decide))
      ⟨some [1, 2, 3], none, [⟨"a", 2, 1⟩], none, none⟩).toOption.map fun r₀ =>
      decide (Along (step (digestHasher 2 (by decide))) (StepOk (digestHasher 2 (by decide))) r₀
        [.setComputed 3, .appendOutput [4, 5], .setComputed 4,
          .sessionUpdate ⟨[6, 7], [⟨"b", 0, 2⟩]⟩])) = some true := by
    decide
  obtain ⟨r₀, r, -, h₀, hr, -⟩ := exists_run_of_hashesAgree hagree
  rw [toOption_eq_some.mpr h₀, Option.map_some, Option.some.injEq, decide_eq_true_iff] at hcond
  exact ⟨r₀, r, h₀, hr, blockHashes_eq_fromScratch (by decide) h₀ hcond hr⟩

end EldrServing.BlockHashing
