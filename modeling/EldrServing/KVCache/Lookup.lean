import EldrServing.KVCache.Accounting
import Mathlib.Order.Bounds.Basic

/-!
# Prefix lookup in one attention group

`find_longest_cache_hit` of the three kinds of managers, without EAGLE. A lookup serves all
KV-cache groups with one spec at once: a row holds the blocks of one position, one for each
group. `Accepts` says what a cached prefix needs in the terms of the attention, and each lookup
returns the longest aligned prefix that is accepted.
-/

namespace EldrServing.KVCache

set_option autoImplicit false
set_option linter.unusedSectionVars false

variable {κ : Type} [DecidableEq κ]

/-- `get_cached_block`: the blocks of the hash in all the groups, or a miss. -/
def BlockPool.getCachedBlocks (p : BlockPool κ) (hash : BlockHash κ) (groupIds : List Nat) :
    Option (List Nat) :=
  groupIds.mapM fun gid => p.getCachedBlock hash gid

/-- `block_hashes[i]` at the granularity of `blockSize`: a list index, or a slice that is joined. -/
def hashAt (hashes : List κ) (hashBlockSize blockSize i : Nat) : Except PyError (BlockHash κ) :=
  if blockSize = hashBlockSize then
    match hashes[i]? with
    | some h => .ok [h]
    | none => .error (.indexError "list index out of range")
  else
    let scale := blockSize / hashBlockSize
    .ok ((hashes.drop (i * scale)).take scale)

/-- The `while` loop that pops blocks until the length is aligned, on lengths. -/
def alignedLength (blockSize alignmentTokens : Nat) : Nat → Nat
  | 0 => 0
  | n + 1 =>
    if blockSize ≠ alignmentTokens ∧ (n + 1) * blockSize % alignmentTokens ≠ 0
    then alignedLength blockSize alignmentTokens n
    else n + 1

/-- The loop of `FullAttentionManager.find_longest_cache_hit` over the hashes. -/
def hitRows (pool : BlockPool κ) (groupIds : List Nat) : List (BlockHash κ) → List (List Nat)
  | [] => []
  | hash :: hashes =>
    match pool.getCachedBlocks hash groupIds with
    | some row => row :: hitRows pool groupIds hashes
    | none => []

namespace FullAttentionManager

def findLongestCacheHit (pool : BlockPool κ) (hashes : List κ) (maxLength : Nat)
    (groupIds : List Nat) (blockSize alignmentTokens : Nat) : List (List Nat) :=
  let rows := hitRows pool groupIds
    ((blockHashesAt hashes pool.hashBlockSize blockSize).take (maxLength / blockSize))
  rows.take (alignedLength blockSize alignmentTokens rows.length)

end FullAttentionManager

namespace SlidingWindowManager

/-- The loop from block `i - 1` down to block 0; `need` contiguous blocks are a match. -/
def windowLoop (pool : BlockPool κ) (hashAt : Nat → Except PyError (BlockHash κ))
    (groupIds : List Nat) (blockSize alignmentTokens need : Nat) :
    Nat → List (List Nat) → Nat → Except PyError (List (List Nat))
  | 0, rows, contiguous =>
    -- no match was found: the first `contiguous` blocks are a hit all the same
    let rows := rows.take contiguous
    .ok (rows.take (alignedLength blockSize alignmentTokens rows.length))
  | i + 1, rows, contiguous => do
    let hash ← hashAt i
    match pool.getCachedBlocks hash groupIds with
    | none => windowLoop pool hashAt groupIds blockSize alignmentTokens need i rows 0
    | some row =>
      if contiguous = 0 ∧ blockSize ≠ alignmentTokens ∧
          (i + 1) * blockSize % alignmentTokens ≠ 0 then
        windowLoop pool hashAt groupIds blockSize alignmentTokens need i rows contiguous
      else
        let rows := rows.set i row
        if need ≤ contiguous + 1 then .ok (rows.take (i + (contiguous + 1)))
        else windowLoop pool hashAt groupIds blockSize alignmentTokens need i rows (contiguous + 1)

def findLongestCacheHit (pool : BlockPool κ) (hashes : List κ) (maxLength : Nat)
    (groupIds : List Nat) (blockSize slidingWindow alignmentTokens : Nat) :
    Except PyError (List (List Nat)) :=
  let maxNumBlocks := maxLength / blockSize
  windowLoop pool (hashAt hashes pool.hashBlockSize blockSize) groupIds blockSize alignmentTokens
    (cdiv (slidingWindow - 1) blockSize) maxNumBlocks
    (List.replicate maxNumBlocks (groupIds.map fun _ => pool.nullBlock)) 0

end SlidingWindowManager

namespace ChunkedLocalAttentionManager

/-- The loop from block `i` over the next `n` blocks. -/
def chunkLoop (pool : BlockPool κ) (hashAt : Nat → Except PyError (BlockHash κ))
    (groupIds : List Nat) : Nat → Nat → Except PyError (List (List Nat))
  | _, 0 => .ok []
  | i, n + 1 => do
    let hash ← hashAt i
    match pool.getCachedBlocks hash groupIds with
    | some row => return row :: (← chunkLoop pool hashAt groupIds (i + 1) n)
    | none => .ok []

def findLongestCacheHit (pool : BlockPool κ) (hashes : List κ) (maxLength : Nat)
    (groupIds : List Nat) (blockSize attentionChunkSize alignmentTokens : Nat) :
    Except PyError (List (List Nat)) := do
  assert (blockSize = alignmentTokens)
    ("KV cache groups with different block sizes are not compatible with " ++
      "chunked local attention now")
  let start := maxLength / attentionChunkSize * attentionChunkSize / blockSize
  let rows ← chunkLoop pool (hashAt hashes pool.hashBlockSize blockSize) groupIds start
    (maxLength / blockSize - start)
  .ok (List.replicate start (groupIds.map fun _ => pool.nullBlock) ++ rows)

end ChunkedLocalAttentionManager

def KVCacheSpec.findLongestCacheHit (spec : KVCacheSpec) (pool : BlockPool κ) (hashes : List κ)
    (maxLength : Nat) (groupIds : List Nat) (alignmentTokens : Nat) :
    Except PyError (List (List Nat)) :=
  match spec.attention with
  | .fullAttention => .ok (FullAttentionManager.findLongestCacheHit pool hashes maxLength groupIds
      spec.blockSize alignmentTokens)
  | .slidingWindow w => SlidingWindowManager.findLongestCacheHit pool hashes maxLength groupIds
      spec.blockSize w alignmentTokens
  | .chunkedLocal c => ChunkedLocalAttentionManager.findLongestCacheHit pool hashes maxLength
      groupIds spec.blockSize c alignmentTokens

/-! ### What a lookup finds -/

def cachedAt (pool : BlockPool κ) (hashes : List κ) (blockSize gid j : Nat) : Option Nat :=
  (blockHashesAt hashes pool.hashBlockSize blockSize)[j]?.bind fun hash =>
    pool.getCachedBlock hash gid

/-- The first of `n` blocks that the attention still reads after them. -/
def KVCacheSpec.firstNeeded (spec : KVCacheSpec) (n : Nat) : Nat :=
  match spec.attention with
  | .slidingWindow w => n - cdiv (w - 1) spec.blockSize
  | _ => 0

/-- The aligned prefix lengths whose needed blocks are cached in all the groups. -/
def KVCacheSpec.Accepts (spec : KVCacheSpec) (pool : BlockPool κ) (hashes : List κ)
    (groupIds : List Nat) (alignmentTokens : Nat) : Set Nat :=
  {L | alignmentTokens ∣ L ∧ ∀ j, spec.firstNeeded (L / spec.blockSize) ≤ j →
    j < L / spec.blockSize → ∀ gid ∈ groupIds, (cachedAt pool hashes spec.blockSize gid j).isSome}

section Lookups

variable {pool : BlockPool κ} {hashes : List κ} {groupIds : List Nat} {hash : BlockHash κ}

theorem getCachedBlocks_cons (gid : Nat) :
    pool.getCachedBlocks hash (gid :: groupIds) = (pool.getCachedBlock hash gid).bind fun b =>
      (pool.getCachedBlocks hash groupIds).map (b :: ·) := by
  simp only [BlockPool.getCachedBlocks, List.mapM_cons, bind, pure]
  congr 1
  funext b
  cases List.mapM (pool.getCachedBlock hash) groupIds <;> rfl

variable {row : List Nat} {j maxLength : Nat} {spec : KVCacheSpec}

theorem getCachedBlocks_getElem? (h : pool.getCachedBlocks hash groupIds = some row) {i gid : Nat}
    (hi : groupIds[i]? = some gid) : row[i]? = pool.getCachedBlock hash gid := by
  induction groupIds generalizing row i with
  | nil => simp at hi
  | cons a groupIds ih =>
    rw [getCachedBlocks_cons] at h
    obtain ⟨b, hb, hrest⟩ := Option.bind_eq_some_iff.mp h
    obtain ⟨tail, htail, rfl⟩ := Option.map_eq_some_iff.mp hrest
    cases i with
    | zero =>
      obtain rfl : a = gid := by simpa using hi
      simpa using hb.symm
    | succ i => simpa using ih htail (by simpa using hi)

theorem getCachedBlocks_isSome :
    (pool.getCachedBlocks hash groupIds).isSome ↔
      ∀ gid ∈ groupIds, (pool.getCachedBlock hash gid).isSome := by
  induction groupIds with
  | nil => simp [BlockPool.getCachedBlocks]
  | cons a groupIds ih =>
    rw [getCachedBlocks_cons, List.forall_mem_cons, ← ih]
    cases pool.getCachedBlock hash a <;> simp

def rowAt (pool : BlockPool κ) (hashes : List κ) (groupIds : List Nat) (blockSize j : Nat) :
    Option (List Nat) :=
  (blockHashesAt hashes pool.hashBlockSize blockSize)[j]?.bind fun hash =>
    pool.getCachedBlocks hash groupIds

theorem rowAt_isSome {blockSize : Nat} (hne : groupIds ≠ []) :
    (rowAt pool hashes groupIds blockSize j).isSome ↔
      ∀ gid ∈ groupIds, (cachedAt pool hashes blockSize gid j).isSome := by
  unfold rowAt cachedAt
  cases (blockHashesAt hashes pool.hashBlockSize blockSize)[j]? with
  | some hash => exact getCachedBlocks_isSome
  | none =>
    obtain ⟨gid, hgid⟩ := List.exists_mem_of_ne_nil _ hne
    simp only [Option.bind_none, Option.isSome_none, Bool.false_eq_true, false_iff, not_forall]
    exact ⟨gid, hgid, id⟩

theorem rowAt_getElem? {blockSize i gid : Nat}
    (h : rowAt pool hashes groupIds blockSize j = some row) (hi : groupIds[i]? = some gid) :
    row[i]? = cachedAt pool hashes blockSize gid j := by
  obtain ⟨hash, hhash, hrow⟩ := Option.bind_eq_some_iff.mp h
  rw [cachedAt, hhash, Option.bind_some]
  exact getCachedBlocks_getElem? hrow hi

theorem alignedLength_isGreatest (blockSize alignmentTokens n : Nat) :
    IsGreatest {m | m ≤ n ∧ alignmentTokens ∣ m * blockSize}
      (alignedLength blockSize alignmentTokens n) := by
  induction n with
  | zero => exact ⟨⟨le_rfl, by simp [alignedLength]⟩, fun m hm => hm.1⟩
  | succ n ih =>
    unfold alignedLength
    split
    · rename_i h
      refine ⟨⟨ih.1.1.trans (Nat.le_succ n), ih.1.2⟩, ?_⟩
      rintro m ⟨hle, hdvd⟩
      have hne : m ≠ n + 1 := by
        rintro rfl
        exact h.2 (Nat.mod_eq_zero_of_dvd hdvd)
      exact ih.2 ⟨by omega, hdvd⟩
    · rename_i h
      refine ⟨⟨le_rfl, ?_⟩, fun m hm => hm.1⟩
      by_cases heq : blockSize = alignmentTokens
      · exact heq ▸ Dvd.intro_left _ rfl
      · exact Nat.dvd_of_mod_eq_zero (by_contra fun hmod => h ⟨heq, hmod⟩)

/-- What a lookup returns: rows that are cached, except where the attention no longer reads, and
no longer aligned prefix is accepted. -/
structure IsLongestHit (spec : KVCacheSpec) (pool : BlockPool κ) (hashes : List κ)
    (groupIds : List Nat) (alignmentTokens maxLength : Nat) (rows : List (List Nat)) : Prop where
  entry : ∀ j row, rows[j]? = some row →
    rowAt pool hashes groupIds spec.blockSize j = some row ∨
      (row = groupIds.map fun _ => pool.nullBlock) ∧ j < spec.firstNeeded rows.length
  greatest : IsGreatest (spec.Accepts pool hashes groupIds alignmentTokens ∩ Set.Iic maxLength)
    (rows.length * spec.blockSize)

/-! ### Full attention -/

theorem hitRows_getElem? {blockHashes : List (BlockHash κ)}
    (h : (hitRows pool groupIds blockHashes)[j]? = some row) :
    blockHashes[j]?.bind (fun hash => pool.getCachedBlocks hash groupIds) = some row := by
  induction blockHashes generalizing j with
  | nil => simp [hitRows] at h
  | cons hash blockHashes ih =>
    unfold hitRows at h
    split at h
    · next first hfirst =>
      cases j with
      | zero => simpa [hfirst] using h
      | succ j => simpa using ih (by simpa using h)
    · simp at h

theorem le_length_hitRows {blockHashes : List (BlockHash κ)} {n : Nat}
    (h : ∀ j < n, (blockHashes[j]?.bind fun hash => pool.getCachedBlocks hash groupIds).isSome) :
    n ≤ (hitRows pool groupIds blockHashes).length := by
  induction blockHashes generalizing n with
  | nil =>
    cases n with
    | zero => exact Nat.zero_le _
    | succ n => simpa using h 0 (Nat.succ_pos n)
  | cons hash blockHashes ih =>
    cases n with
    | zero => exact Nat.zero_le _
    | succ n =>
      have hfirst : (pool.getCachedBlocks hash groupIds).isSome := by
        simpa using h 0 (Nat.succ_pos n)
      obtain ⟨row, hrow⟩ := Option.isSome_iff_exists.mp hfirst
      have hrest := ih fun j hj => by simpa using h (j + 1) (Nat.succ_lt_succ hj)
      simpa [hitRows, hrow] using hrest

theorem length_hitRows_le (pool : BlockPool κ) (groupIds : List Nat)
    (blockHashes : List (BlockHash κ)) : (hitRows pool groupIds blockHashes).length ≤ blockHashes.length := by
  induction blockHashes with
  | nil => simp [hitRows]
  | cons hash blockHashes ih =>
    unfold hitRows
    split
    · simpa using ih
    · simp

theorem FullAttentionManager.find_isLongestHit
    (hspec : spec.attention = .fullAttention) (hne : groupIds ≠ []) {alignmentTokens : Nat}
    (hdvd : spec.blockSize ∣ alignmentTokens) (maxLength : Nat) :
    IsLongestHit spec pool hashes groupIds alignmentTokens maxLength
      (findLongestCacheHit pool hashes maxLength groupIds spec.blockSize alignmentTokens) := by
  have hpos := spec.blockSize_pos
  obtain ⟨found, hfound⟩ : ∃ rows, rows = hitRows pool groupIds
      ((blockHashesAt hashes pool.hashBlockSize spec.blockSize).take
        (maxLength / spec.blockSize)) := ⟨_, rfl⟩
  obtain ⟨n, hn⟩ : ∃ n, n = alignedLength spec.blockSize alignmentTokens found.length := ⟨_, rfl⟩
  have hrows : findLongestCacheHit pool hashes maxLength groupIds spec.blockSize alignmentTokens =
      found.take n := by
    simp only [findLongestCacheHit, ← hfound, ← hn]
  obtain ⟨⟨hnle, hal⟩, hup⟩ := hn ▸ alignedLength_isGreatest spec.blockSize alignmentTokens
    found.length
  have hfirst : ∀ m, spec.firstNeeded m = 0 := fun m => by simp [KVCacheSpec.firstNeeded, hspec]
  have hlen : (found.take n).length = n := by simpa using hnle
  have hentry : ∀ j row, (found.take n)[j]? = some row →
      rowAt pool hashes groupIds spec.blockSize j = some row := by
    intro j row hj
    have hj' : found[j]? = some row := by
      rw [List.getElem?_take] at hj
      split at hj
      · exact hj
      · cases hj
    rw [hfound] at hj'
    have := hitRows_getElem? hj'
    rw [List.getElem?_take] at this
    split at this
    · exact this
    · cases this
  rw [hrows]
  refine ⟨fun j row hj => Or.inl (hentry j row hj), ⟨⟨?_, ?_⟩, ?_⟩⟩
  · rw [hlen]
    refine ⟨hal, fun j _ hj => ?_⟩
    rw [Nat.mul_div_cancel _ hpos] at hj
    have hget : (found.take n)[j]? = some (found.take n)[j] := List.getElem?_eq_getElem (by omega)
    exact (rowAt_isSome hne).mp (by rw [hentry j _ hget]; rfl)
  · rw [hlen, Set.mem_Iic]
    have hle := length_hitRows_le pool groupIds
      ((blockHashesAt hashes pool.hashBlockSize spec.blockSize).take (maxLength / spec.blockSize))
    rw [← hfound, List.length_take] at hle
    calc n * spec.blockSize ≤ maxLength / spec.blockSize * spec.blockSize :=
          Nat.mul_le_mul_right _ (by omega)
      _ ≤ maxLength := Nat.div_mul_le_self _ _
  · rintro L ⟨⟨hL, hcached⟩, hmax⟩
    rw [hlen]
    have hmul : L / spec.blockSize * spec.blockSize = L := Nat.div_mul_cancel (hdvd.trans hL)
    have hmany : L / spec.blockSize ≤ found.length := by
      rw [hfound]
      apply le_length_hitRows
      intro j hj
      rw [List.getElem?_take_of_lt (hj.trans_le (Nat.div_le_div_right hmax))]
      exact (rowAt_isSome hne).mpr (hcached j (by rw [hfirst]; exact Nat.zero_le j) hj)
    rw [← hmul]
    exact Nat.mul_le_mul_right _ (hup ⟨hmany, hmul.symm ▸ hL⟩)

/-! ### Sliding window -/

section Scan

variable {look : Nat → Option (List Nat)} {nulls : List Nat}
  {numBlocks need blockSize alignmentTokens i c : Nat} {rows : List (List Nat)}

/-- The state of the scan from the right at block `i`, with `c` contiguous blocks found. -/
structure Scanned (look : Nat → Option (List Nat)) (nulls : List Nat)
    (numBlocks need blockSize alignmentTokens i : Nat) (rows : List (List Nat)) (c : Nat) :
    Prop where
  le : i + c ≤ numBlocks
  length : rows.length = numBlocks
  run : ∀ j, i ≤ j → j < i + c → rows[j]? = look j ∧ (look j).isSome
  rest : ∀ j < i, rows[j]? = some nulls
  aligned : c = 0 ∨ alignmentTokens ∣ (i + c) * blockSize
  /-- every longer aligned candidate has a miss in its window -/
  later : 0 < need → ∀ m, i + c < m → m ≤ numBlocks → alignmentTokens ∣ m * blockSize →
    ∃ j, m - need ≤ j ∧ j < m ∧ look j = none

theorem Scanned.miss (h : Scanned look nulls numBlocks need blockSize alignmentTokens (i + 1) rows c)
    (hshort : c = 0 ∨ c < need) (hnone : look i = none) :
    Scanned look nulls numBlocks need blockSize alignmentTokens i rows 0 := by
  have hle := h.le
  refine ⟨by omega, h.length, ?_, fun j hj => h.rest j (by omega), Or.inl rfl, ?_⟩
  · intro j hij hj
    omega
  · intro hneed m hm hmax hdvd
    by_cases hlt : i + 1 + c < m
    · exact h.later hneed m hlt hmax hdvd
    · exact ⟨i, by omega, by omega, hnone⟩

/-- A block that does not end at an aligned length cannot be the last of a hit. -/
theorem Scanned.skip (h : Scanned look nulls numBlocks need blockSize alignmentTokens (i + 1) rows 0)
    (hal : ¬ alignmentTokens ∣ (i + 1) * blockSize) :
    Scanned look nulls numBlocks need blockSize alignmentTokens i rows 0 := by
  have hle := h.le
  refine ⟨by omega, h.length, ?_, fun j hj => h.rest j (by omega), Or.inl rfl, ?_⟩
  · intro j hij hj
    omega
  · intro hneed m hm hmax hdvd
    have hne : m ≠ i + 1 := fun heq => hal (heq ▸ hdvd)
    exact h.later hneed m (by omega) hmax hdvd

theorem Scanned.grow (h : Scanned look nulls numBlocks need blockSize alignmentTokens (i + 1) rows c)
    (hrow : look i = some row) (hal : alignmentTokens ∣ (i + 1 + c) * blockSize) :
    Scanned look nulls numBlocks need blockSize alignmentTokens i (rows.set i row) (c + 1) := by
  have hle := h.le
  have hsum : i + (c + 1) = i + 1 + c := by omega
  refine ⟨by omega, by simpa using h.length, ?_, ?_, Or.inr (hsum ▸ hal), ?_⟩
  · intro j hij hj
    by_cases heq : i = j
    · subst heq
      have hi : i < rows.length := by
        rw [h.length]
        omega
      exact ⟨by simp [hi, hrow], by simp [hrow]⟩
    · rw [List.getElem?_set_ne heq]
      exact h.run j (by omega) (by omega)
  · intro j hj
    rw [List.getElem?_set_ne (by omega)]
    exact h.rest j (by omega)
  · intro hneed m hm
    exact h.later hneed m (by omega)

structure WindowHit (look : Nat → Option (List Nat)) (nulls : List Nat)
    (numBlocks need blockSize alignmentTokens : Nat) (out : List (List Nat)) : Prop where
  le : out.length ≤ numBlocks
  aligned : alignmentTokens ∣ out.length * blockSize
  entry : ∀ j row, out[j]? = some row → look j = some row ∨ row = nulls ∧ j < out.length - need
  longest : 0 < need → ∀ m ≤ numBlocks, alignmentTokens ∣ m * blockSize →
    (∀ j, m - need ≤ j → j < m → (look j).isSome) → m ≤ out.length

theorem Scanned.windowHit (h : Scanned look nulls numBlocks need blockSize alignmentTokens i rows c)
    (henough : i = 0 ∨ need ≤ c) (hal : alignmentTokens ∣ (i + c) * blockSize) :
    WindowHit look nulls numBlocks need blockSize alignmentTokens (rows.take (i + c)) := by
  have hle := h.le
  have hlen : (rows.take (i + c)).length = i + c := by
    rw [List.length_take, h.length]
    omega
  refine ⟨by rwa [hlen], by rwa [hlen], ?_, ?_⟩
  · intro j row hj
    rw [hlen]
    rw [List.getElem?_take] at hj
    split at hj
    · rename_i hlt
      by_cases hij : i ≤ j
      · exact Or.inl ((h.run j hij hlt).1.symm.trans hj)
      · rw [h.rest j (by omega), Option.some.injEq] at hj
        exact Or.inr ⟨hj.symm, by omega⟩
    · cases hj
  · intro hneed m hm hdvd hall
    rw [hlen]
    by_contra hlt
    obtain ⟨j, hj, hjm, hnone⟩ := h.later hneed m (by omega) hm hdvd
    have := hall j hj hjm
    rw [hnone] at this
    cases this

theorem SlidingWindowManager.windowLoop_ok {hashAt : Nat → Except PyError (BlockHash κ)}
    (hlook : ∀ j < numBlocks, ∃ hash, hashAt j = .ok hash ∧
      pool.getCachedBlocks hash groupIds = look j)
    (h : Scanned look nulls numBlocks need blockSize alignmentTokens i rows c)
    (hshort : c = 0 ∨ c < need) :
    ∃ out, windowLoop pool hashAt groupIds blockSize alignmentTokens need i rows c = .ok out ∧
      WindowHit look nulls numBlocks need blockSize alignmentTokens out := by
  induction i generalizing rows c with
  | zero =>
    have hal : alignmentTokens ∣ (0 + c) * blockSize := by
      rcases h.aligned with rfl | hal
      · simp
      · exact hal
    have hkeep : alignedLength blockSize alignmentTokens c = c :=
      le_antisymm (alignedLength_isGreatest blockSize alignmentTokens c).1.1
        ((alignedLength_isGreatest blockSize alignmentTokens c).2 ⟨le_rfl, by simpa using hal⟩)
    have hlen : (rows.take c).length = c := by
      have := h.le
      rw [List.length_take, h.length]
      omega
    refine ⟨rows.take (0 + c), ?_, h.windowHit (Or.inl rfl) hal⟩
    simp [windowLoop, hlen, hkeep, List.take_take]
  | succ i ih =>
    obtain ⟨hash, hhash, hget⟩ := hlook i (by have := h.le; omega)
    rw [windowLoop, hhash]
    simp only [bind, Except.bind, hget]
    cases hrow : look i with
    | none => exact ih (h.miss hshort hrow) (Or.inl rfl)
    | some row =>
      simp only
      by_cases hskip : c = 0 ∧ blockSize ≠ alignmentTokens ∧
          (i + 1) * blockSize % alignmentTokens ≠ 0
      · rw [if_pos hskip]
        obtain ⟨rfl, -, hmod⟩ := hskip
        exact ih (h.skip fun hdvd => hmod (Nat.mod_eq_zero_of_dvd hdvd)) (Or.inl rfl)
      · rw [if_neg hskip]
        have hal : alignmentTokens ∣ (i + 1 + c) * blockSize := by
          rcases h.aligned with rfl | hal
          · by_cases heq : blockSize = alignmentTokens
            · exact heq ▸ Dvd.intro_left _ rfl
            · exact Nat.dvd_of_mod_eq_zero (by_contra fun hmod => hskip ⟨rfl, heq, hmod⟩)
          · exact hal
        have hgrow := h.grow hrow hal
        by_cases hneed : need ≤ c + 1
        · rw [if_pos hneed]
          refine ⟨_, rfl, hgrow.windowHit (Or.inr hneed) ?_⟩
          rwa [show i + (c + 1) = i + 1 + c by omega]
        · rw [if_neg hneed]
          exact ih hgrow (Or.inr (by omega))

end Scan

/-- The request's hashes reach up to `maxLength` tokens. -/
def Covers (pool : BlockPool κ) (hashes : List κ) (maxLength : Nat) : Prop :=
  maxLength / pool.hashBlockSize ≤ hashes.length

theorem hashAt_eq_ok {hashBlockSize blockSize : Nat} (hpos : 0 < blockSize)
    (hdvd : hashBlockSize ∣ blockSize) (hcov : maxLength / hashBlockSize ≤ hashes.length)
    (hj : j < maxLength / blockSize) : ∃ hash, hashAt hashes hashBlockSize blockSize j = .ok hash ∧
      (blockHashesAt hashes hashBlockSize blockSize)[j]? = some hash := by
  unfold hashAt blockHashesAt
  split
  · rename_i heq
    have hlt : j < hashes.length := hj.trans_le (heq ▸ hcov)
    rw [List.getElem?_eq_getElem hlt]
    exact ⟨[hashes[j]], rfl, by simp [hlt]⟩
  · obtain ⟨scale, rfl⟩ := hdvd
    have hhbs : 0 < hashBlockSize := Nat.pos_of_mul_pos_right hpos
    have hscale : 0 < scale := Nat.pos_of_mul_pos_left hpos
    rw [Nat.mul_div_cancel_left _ hhbs]
    refine ⟨_, rfl, ?_⟩
    have hlt : j < hashes.length / scale := by
      rw [← Nat.div_div_eq_div_mul] at hj
      exact hj.trans_le (Nat.div_le_div_right hcov)
    simp [hlt]

theorem SlidingWindowManager.findLongestCacheHit_ok (groupIds : List Nat)
    (hhbs : pool.hashBlockSize ∣ spec.blockSize)
    (hcov : Covers pool hashes maxLength) (slidingWindow alignmentTokens : Nat) :
    ∃ out, findLongestCacheHit pool hashes maxLength groupIds spec.blockSize slidingWindow
        alignmentTokens = .ok out ∧
      WindowHit (rowAt pool hashes groupIds spec.blockSize)
        (groupIds.map fun _ => pool.nullBlock) (maxLength / spec.blockSize)
        (cdiv (slidingWindow - 1) spec.blockSize) spec.blockSize alignmentTokens out := by
  unfold findLongestCacheHit
  apply windowLoop_ok
  · intro j hj
    obtain ⟨hash, hok, hget⟩ := hashAt_eq_ok spec.blockSize_pos hhbs hcov hj
    exact ⟨hash, hok, by rw [rowAt, hget, Option.bind_some]⟩
  · refine ⟨le_rfl, List.length_replicate, ?_, ?_, Or.inl rfl, ?_⟩
    · intro j hij hj
      omega
    · intro j hj
      simp [hj]
    · intro _ m hm hle
      omega
  · exact Or.inl rfl

theorem SlidingWindowManager.find_isLongestHit {w : Nat}
    (hspec : spec.attention = .slidingWindow w) (hw : 2 ≤ w) (hne : groupIds ≠ [])
    {alignmentTokens : Nat} (hdvd : spec.blockSize ∣ alignmentTokens)
    (hhbs : pool.hashBlockSize ∣ spec.blockSize) (hcov : Covers pool hashes maxLength) :
    ∃ out, findLongestCacheHit pool hashes maxLength groupIds spec.blockSize w alignmentTokens =
        .ok out ∧ IsLongestHit spec pool hashes groupIds alignmentTokens maxLength out := by
  have hpos := spec.blockSize_pos
  have hfirst : ∀ m, spec.firstNeeded m = m - cdiv (w - 1) spec.blockSize := fun m => by
    simp [KVCacheSpec.firstNeeded, hspec]
  obtain ⟨out, hout, hhit⟩ := findLongestCacheHit_ok groupIds hhbs hcov w alignmentTokens
  refine ⟨out, hout, ?_, ⟨⟨⟨hhit.aligned, ?_⟩, ?_⟩, ?_⟩⟩
  · intro j row hj
    rw [hfirst]
    exact hhit.entry j row hj
  · intro j hj hlt
    rw [Nat.mul_div_cancel _ hpos] at hj hlt
    rw [hfirst] at hj
    have hget : out[j]? = some out[j] := List.getElem?_eq_getElem hlt
    have hrow := (hhit.entry j _ hget).resolve_right fun hnull => by omega
    exact (rowAt_isSome hne).mp (by rw [hrow]; rfl)
  · calc out.length * spec.blockSize ≤ maxLength / spec.blockSize * spec.blockSize :=
          Nat.mul_le_mul_right _ hhit.le
      _ ≤ maxLength := Nat.div_mul_le_self _ _
  · rintro L ⟨⟨hL, hcached⟩, hmax⟩
    have hmul : L / spec.blockSize * spec.blockSize = L := Nat.div_mul_cancel (hdvd.trans hL)
    have hneed : 0 < cdiv (w - 1) spec.blockSize := by
      have := le_cdiv_mul (w - 1) hpos
      exact Nat.pos_of_mul_pos_right (by omega : 0 < cdiv (w - 1) spec.blockSize * spec.blockSize)
    rw [← hmul]
    refine Nat.mul_le_mul_right _ (hhit.longest hneed _ (Nat.div_le_div_right hmax)
      (hmul.symm ▸ hL) ?_)
    intro j hj hlt
    exact (rowAt_isSome hne).mpr (hcached j (by rw [hfirst]; exact hj) hlt)

end Lookups

end EldrServing.KVCache
