import EldrServing.Lib.Linked
import EldrServing.Lib.Machine
import EldrServing.Lib.Py

/-!
# The free block queue

`FreeKVCacheBlockQueue` threads the free blocks through the `prev_free_block` and
`next_free_block` attributes of the blocks, between a fake head and a fake tail. The two
attributes are only touched by the queue and are kept here as its `prev` and `next` maps.
-/

namespace EldrServing.KVCache

set_option autoImplicit false

open Function Linked

inductive Node where
  | head
  | tail
  | block (id : Nat)
  deriving DecidableEq, Repr

structure FreeKVCacheBlockQueue where
  next : Node → Option Node
  prev : Node → Option Node
  numFreeBlocks : Int

namespace FreeKVCacheBlockQueue

def init (n : Nat) : FreeKVCacheBlockQueue where
  next
    | .head => if 0 < n then some (.block 0) else some .tail
    | .block i => if i + 1 < n then some (.block (i + 1)) else if i < n then some .tail else none
    | .tail => none
  prev
    | .head => none
    | .block i => if i < n then if 0 < i then some (.block (i - 1)) else some .head else none
    | .tail => if 0 < n then some (.block (n - 1)) else some .head
  numFreeBlocks := n

def popleft (q : FreeKVCacheBlockQueue) : Except PyError (Nat × FreeKVCacheBlockQueue) :=
  match q.next .head with
  | some (.block first) =>
    match q.next (.block first) with
    | none => .error (.runtimeError
        "Invalid block found in popleft() which doesn't have a valid next_free_block")
    | some second => .ok (first,
        { next := update (update q.next .head (some second)) (.block first) none
          prev := update (update q.prev second (some .head)) (.block first) none
          numFreeBlocks := q.numFreeBlocks - 1 })
  | _ =>
    if q.numFreeBlocks = 0 then .error (.valueError "No free blocks available")
    else .error (.assertionError "num_free_blocks is out of sync with the free list.")

/-- The loop of `popleft_n`: take `n` blocks from `curr` on and clear their links. Running into a
fake node is an error here; the source would go on and return it. -/
def popLoop : Nat → (Node → Option Node) → (Node → Option Node) → Option Node →
    Except PyError (List Nat × (Node → Option Node) × (Node → Option Node) × Option Node)
  | 0, next, prev, curr => .ok ([], next, prev, curr)
  | n + 1, next, prev, some (.block b) => do
    let (ret, rest) ← popLoop n (update next (.block b) none) (update prev (.block b) none)
      (next (.block b))
    .ok (b :: ret, rest)
  | _ + 1, _, _, _ => .error (.assertionError "")

def popleftN (q : FreeKVCacheBlockQueue) (n : Int) :
    Except PyError (List Nat × FreeKVCacheBlockQueue) :=
  if n = 0 then .ok ([], q)
  else do
    assert (n ≤ q.numFreeBlocks) ""
    let (ret, next, prev, curr) ← popLoop n.toNat q.next q.prev (q.next .head)
    match curr with
    | none => .ok (ret, ⟨next, prev, q.numFreeBlocks - n⟩)
    | some c => .ok (ret,
        ⟨update next .head (some c), update prev c (some .head), q.numFreeBlocks - n⟩)

def remove (q : FreeKVCacheBlockQueue) (b : Nat) : Except PyError FreeKVCacheBlockQueue :=
  match q.prev (.block b), q.next (.block b) with
  | some p, some n => .ok
      { next := update (update q.next p (some n)) (.block b) none
        prev := update (update q.prev n (some p)) (.block b) none
        numFreeBlocks := q.numFreeBlocks - 1 }
  | _, _ => .error (.runtimeError s!"remove() called on an invalid block: {b}")

def append (q : FreeKVCacheBlockQueue) (b : Nat) : Except PyError FreeKVCacheBlockQueue :=
  match q.prev .tail with
  | none => .error (.runtimeError "prev_free_block of fake_free_list_tail should always exist")
  | some last => .ok
      { next := update (update q.next last (some (.block b))) (.block b) (some .tail)
        prev := update (update q.prev (.block b) (some last)) .tail (some (.block b))
        numFreeBlocks := q.numFreeBlocks + 1 }

/-- The loop of `append_n`; returns the links and the last block linked. -/
def linkLoop : List Nat → (Node → Option Node) → (Node → Option Node) → Node →
    (Node → Option Node) × (Node → Option Node) × Node
  | [], next, prev, last => (next, prev, last)
  | b :: bs, next, prev, last =>
    linkLoop bs (update next last (some (.block b))) (update prev (.block b) (some last)) (.block b)

def appendN (q : FreeKVCacheBlockQueue) (blocks : List Nat) :
    Except PyError FreeKVCacheBlockQueue :=
  if blocks = [] then .ok q
  else match q.prev .tail with
    | none => .error (.assertionError "prev_free_block of fake_free_list_tail should always exist")
    | some last =>
      let (next, prev, last) := linkLoop blocks q.next q.prev last
      .ok { next := update next last (some .tail)
            prev := update prev .tail (some last)
            numFreeBlocks := q.numFreeBlocks + blocks.length }

/-- The loop of `get_all_free_blocks`, which goes on as long as there is a next block. -/
def walk (next : Node → Option Node) : Nat → Node → List Node
  | 0, _ => []
  | fuel + 1, curr =>
    match next curr with
    | none => []
    | some c => curr :: walk next fuel c

def getAllFreeBlocks (q : FreeKVCacheBlockQueue) (fuel : Nat) : Except PyError (List Node) :=
  match q.next .head with
  | none => .error (.runtimeError "next_free_block of fake_free_list_head should always exist")
  | some c => .ok (walk q.next fuel c)

end FreeKVCacheBlockQueue

/-- All nodes of a queue that holds the blocks `ids`, from the fake head to the fake tail. -/
def spine (ids : List Nat) : List Node := .head :: (ids.map .block ++ [.tail])

theorem block_injective : Injective Node.block := fun _ _ h => Node.block.inj h

theorem spine_nodup {ids : List Nat} (h : ids.Nodup) : (spine ids).Nodup := by
  have hblocks : (ids.map Node.block).Nodup := h.map block_injective
  simp [spine, List.nodup_append, hblocks]

/-- `q` threads exactly the blocks `ids`, in this order and in both directions. -/
structure Threads (q : FreeKVCacheBlockQueue) (ids : List Nat) : Prop where
  nodup : ids.Nodup
  next_eq : q.next = succIn (spine ids)
  prev_eq : q.prev = succIn (spine ids).reverse
  length_eq : q.numFreeBlocks = ids.length

namespace Threads

open FreeKVCacheBlockQueue

variable {q : FreeKVCacheBlockQueue} {ids as bs xs ys : List Nat} {b n : Nat}

theorem remove_ok (h : Threads q (xs ++ b :: ys)) :
    ∃ q', q.remove b = .ok q' ∧ Threads q' (xs ++ ys) := by
  -- the neighbours of `b`, with the fake nodes at the ends
  obtain ⟨ps, p, hp⟩ : ∃ ps p, Node.head :: xs.map Node.block = ps ++ [p] :=
    ⟨_, _, (List.dropLast_append_getLast (List.cons_ne_nil _ _)).symm⟩
  obtain ⟨n, ns, hn⟩ : ∃ n ns, ys.map Node.block ++ [Node.tail] = n :: ns := by
    cases ys <;> simp
  have hfull : spine (xs ++ b :: ys) = ps ++ p :: .block b :: n :: ns := by
    have : spine (xs ++ b :: ys) =
        (.head :: xs.map Node.block) ++ .block b :: (ys.map Node.block ++ [.tail]) := by simp [spine]
    rw [this, hp, hn]
    simp
  have hcut : spine (xs ++ ys) = ps ++ p :: n :: ns := by
    have : spine (xs ++ ys) =
        (.head :: xs.map Node.block) ++ (ys.map Node.block ++ [.tail]) := by simp [spine]
    rw [this, hp, hn]
    simp
  have hnd := spine_nodup h.nodup
  rw [hfull] at hnd
  have hrev : (spine (xs ++ b :: ys)).reverse = ns.reverse ++ n :: .block b :: p :: ps.reverse := by
    rw [hfull]; simp
  have hndr : (ns.reverse ++ n :: .block b :: p :: ps.reverse).Nodup := by
    have := List.nodup_reverse.mpr hnd
    rwa [← hfull, hrev] at this
  have hnext : q.next (.block b) = some n := by
    have hb : Node.block b ∉ ps ++ [p] := by
      intro hm
      have := (List.nodup_append.mp (by simpa using hnd : ((ps ++ [p]) ++ .block b :: n :: ns).Nodup)).2.2
      exact this _ hm _ (List.mem_cons_self) rfl
    rw [h.next_eq, hfull, show ps ++ p :: .block b :: n :: ns = (ps ++ [p]) ++ .block b :: n :: ns by simp,
      succIn_append_cons_self _ hb]
    rfl
  have hprev : q.prev (.block b) = some p := by
    have hb : Node.block b ∉ ns.reverse ++ [n] := by
      intro hm
      have := (List.nodup_append.mp
        (by simpa using hndr : ((ns.reverse ++ [n]) ++ .block b :: p :: ps.reverse).Nodup)).2.2
      exact this _ hm _ (List.mem_cons_self) rfl
    rw [h.prev_eq, hrev, show ns.reverse ++ n :: .block b :: p :: ps.reverse =
      (ns.reverse ++ [n]) ++ .block b :: p :: ps.reverse by simp, succIn_append_cons_self _ hb]
    rfl
  refine ⟨_, by simp only [remove, hprev, hnext]; rfl, ?_, ?_, ?_, ?_⟩
  · exact (List.nodup_middle.mp h.nodup).of_cons
  · change update (update q.next p (some n)) (.block b) none = _
    rw [h.next_eq, hfull, hcut, update_succIn_remove hnd]
  · change update (update q.prev n (some p)) (.block b) none = _
    rw [h.prev_eq, hrev, hcut, update_succIn_remove hndr]
    simp
  · change q.numFreeBlocks - 1 = _
    rw [h.length_eq]
    simp
    omega

theorem popleft_ok (h : Threads q (b :: ys)) :
    ∃ q', q.popleft = .ok (b, q') ∧ Threads q' ys := by
  obtain ⟨n, ns, hn⟩ : ∃ n ns, ys.map Node.block ++ [Node.tail] = n :: ns := by
    cases ys <;> simp
  have hfull : spine (b :: ys) = .head :: .block b :: n :: ns := by simp [spine, hn]
  have hhead : q.next .head = some (.block b) := by simp [h.next_eq, hfull]
  have hnext : q.next (.block b) = some n := by
    rw [h.next_eq, hfull, succIn_cons_of_ne _ (by simp), succIn_cons_self]
    rfl
  have hprev : q.prev (.block b) = some .head := by
    have hb : Node.block b ∉ (n :: ns).reverse := by
      have := spine_nodup h.nodup
      rw [hfull] at this
      simp at this ⊢
      tauto
    rw [h.prev_eq, hfull, show (Node.head :: .block b :: n :: ns).reverse =
      (n :: ns).reverse ++ .block b :: [.head] by simp, succIn_append_cons_self _ hb]
    rfl
  obtain ⟨q', hq', hthr⟩ := remove_ok (show Threads q ([] ++ b :: ys) from h)
  refine ⟨q', ?_, hthr⟩
  simp only [remove, hprev, hnext, Except.ok.injEq] at hq'
  subst hq'
  simp only [popleft, hhead, hnext]

theorem popLoop_eq (as : List Nat) (c : Node) (cs : List Node) (next prev : Node → Option Node)
    (hnodup : as.Nodup)
    (hlink : ∀ b ∈ as, next (.block b) = succIn (as.map Node.block ++ c :: cs) (.block b)) :
    popLoop as.length next prev (as.map Node.block ++ c :: cs).head? =
      .ok (as, clearAll (as.map Node.block) next, clearAll (as.map Node.block) prev, some c) := by
  induction as generalizing next prev with
  | nil => rfl
  | cons a as ih =>
    have ha : a ∉ as := (List.nodup_cons.mp hnodup).1
    have hnext : next (.block a) = (as.map Node.block ++ c :: cs).head? := by
      rw [hlink a List.mem_cons_self, List.map_cons, List.cons_append, succIn_cons_self]
    have hrest : ∀ b ∈ as, update next (.block a) none (.block b) =
        succIn (as.map Node.block ++ c :: cs) (.block b) := by
      intro b hb
      have hne : Node.block b ≠ .block a := fun h => ha (block_injective h ▸ hb)
      rw [update_of_ne hne, hlink b (List.mem_cons_of_mem _ hb), List.map_cons, List.cons_append,
        succIn_cons_of_ne _ hne]
    have := ih (update next (.block a) none) (update prev (.block a) none)
      (List.nodup_cons.mp hnodup).2 hrest
    simp only [List.length_cons, List.map_cons, List.cons_append, List.head?_cons, popLoop, hnext,
      this, clearAll_cons]
    rfl

theorem popleftN_ok (h : Threads q (as ++ bs)) :
    ∃ q', q.popleftN as.length = .ok (as, q') ∧ Threads q' bs := by
  cases as with
  | nil => exact ⟨q, by simp [popleftN], h⟩
  | cons a as =>
    obtain ⟨c, cs, hc⟩ : ∃ c cs, bs.map Node.block ++ [Node.tail] = c :: cs := by
      cases bs <;> simp
    have hfull : spine (a :: as ++ bs) = .head :: ((a :: as).map Node.block ++ c :: cs) := by
      rw [← hc]
      simp [spine]
    have hcut : spine bs = .head :: c :: cs := by rw [← hc]; rfl
    have hnd := spine_nodup h.nodup
    rw [hfull] at hnd
    have hloop := popLoop_eq (a :: as) c cs q.next q.prev (List.nodup_append.mp h.nodup).1 (by
      intro b hb
      rw [h.next_eq, hfull, succIn_cons_of_ne _ (by simp)])
    have hhead : q.next .head = ((a :: as).map Node.block ++ c :: cs).head? := by
      rw [h.next_eq, hfull, succIn_cons_self]
    have hassert : ((a :: as).length : Int) ≤ q.numFreeBlocks := by
      rw [h.length_eq, List.length_append]
      omega
    refine ⟨⟨update (clearAll ((a :: as).map Node.block) q.next) .head (some c),
      update (clearAll ((a :: as).map Node.block) q.prev) c (some .head),
      q.numFreeBlocks - (a :: as).length⟩, ?_, (List.nodup_append.mp h.nodup).2.1, ?_, ?_, ?_⟩
    · rw [popleftN, if_neg (by simp; omega), assert_bind_eq_ok]
      refine ⟨hassert, ?_⟩
      rw [hhead, Int.toNat_natCast, hloop]
      rfl
    · rw [hcut, ← update_clearAll_succIn hnd, ← hfull, ← h.next_eq]
    · rw [hcut, ← update_clearAll_succIn_reverse hnd, ← hfull, ← h.prev_eq]
    · change q.numFreeBlocks - (a :: as).length = bs.length
      rw [h.length_eq, List.length_append]
      omega

def lastNode (xs : List Nat) : Node := (xs.map Node.block).getLastD .head

theorem spine_eq_append_lastNode (xs : List Nat) : ∃ ps, spine xs = ps ++ [lastNode xs, .tail] := by
  rcases List.eq_nil_or_concat xs with rfl | ⟨ys, y, rfl⟩
  · exact ⟨[], rfl⟩
  · exact ⟨.head :: ys.map Node.block, by simp [spine, lastNode]⟩

theorem spine_concat (xs : List Nat) (b : Nat) {ps : List Node}
    (hps : spine xs = ps ++ [lastNode xs, .tail]) :
    spine (xs ++ [b]) = ps ++ [lastNode xs, .block b, .tail] := by
  have h : Node.head :: xs.map Node.block = ps ++ [lastNode xs] := by
    have : Node.head :: xs.map Node.block ++ [.tail] = ps ++ [lastNode xs] ++ [.tail] := by
      simpa [spine] using hps
    exact List.append_cancel_right this
  have : spine (xs ++ [b]) = (.head :: xs.map Node.block) ++ [.block b, .tail] := by simp [spine]
  rw [this, h]
  simp

/-- The loop of `append_n`: closing the links at the last node gives the longer list. -/
theorem linkLoop_closed (bs xs : List Nat) (next prev : Node → Option Node)
    (hnodup : (xs ++ bs).Nodup)
    (hnext : update next (lastNode xs) (some .tail) = succIn (spine xs))
    (hprev : update prev .tail (some (lastNode xs)) = succIn (spine xs).reverse) :
    let r := linkLoop bs next prev (lastNode xs)
    update r.1 r.2.2 (some .tail) = succIn (spine (xs ++ bs)) ∧
      update r.2.1 .tail (some r.2.2) = succIn (spine (xs ++ bs)).reverse := by
  induction bs generalizing xs next prev with
  | nil => simpa [linkLoop] using ⟨hnext, hprev⟩
  | cons b bs ih =>
    obtain ⟨ps, hps⟩ := spine_eq_append_lastNode xs
    have hlong := spine_concat xs b hps
    have hnd : (spine (xs ++ [b])).Nodup := by
      apply spine_nodup
      rw [List.append_cons] at hnodup
      exact (List.nodup_append.mp hnodup).1
    have hlast : lastNode (xs ++ [b]) = .block b := by simp [lastNode]
    have hnext' : update (update next (lastNode xs) (some (.block b))) (lastNode (xs ++ [b]))
        (some .tail) = succIn (spine (xs ++ [b])) := by
      have hins : (ps ++ lastNode xs :: .block b :: .tail :: []).Nodup := hlong ▸ hnd
      rw [hlast, hlong, ← update_succIn_insert hins, ← hps, ← hnext, update_idem]
    have hprev' : update (update prev (.block b) (some (lastNode xs))) .tail
        (some (lastNode (xs ++ [b]))) = succIn (spine (xs ++ [b])).reverse := by
      have hrev : (spine (xs ++ [b])).reverse =
          [] ++ Node.tail :: .block b :: lastNode xs :: ps.reverse := by rw [hlong]; simp
      have hins : ([] ++ Node.tail :: .block b :: lastNode xs :: ps.reverse).Nodup :=
        hrev ▸ List.nodup_reverse.mpr hnd
      have hshort : (spine xs).reverse = [] ++ Node.tail :: lastNode xs :: ps.reverse := by
        rw [hps]; simp
      rw [hlast, hrev, ← update_succIn_insert hins, ← hshort, ← hprev, update_idem,
        update_comm (by simp : Node.tail ≠ .block b)]
    have hrec := ih (xs ++ [b]) _ _ (by simpa using hnodup) hnext' hprev'
    rw [hlast] at hrec
    simpa [linkLoop] using hrec

theorem appendN_ok (h : Threads q xs) (hnodup : (xs ++ bs).Nodup) :
    ∃ q', q.appendN bs = .ok q' ∧ Threads q' (xs ++ bs) := by
  cases bs with
  | nil => exact ⟨q, by simp [appendN], by simpa using h⟩
  | cons b bs =>
    obtain ⟨ps, hps⟩ := spine_eq_append_lastNode xs
    have hnd := spine_nodup h.nodup
    rw [hps] at hnd
    have hrev : (spine xs).reverse = Node.tail :: lastNode xs :: ps.reverse := by rw [hps]; simp
    have htail : q.prev .tail = some (lastNode xs) := by
      rw [h.prev_eq, hrev, succIn_cons_self]
      rfl
    have hlast : q.next (lastNode xs) = some .tail := by
      have hmem : lastNode xs ∉ ps := fun hm => by
        have := (List.nodup_append.mp hnd).2.2 _ hm
        simp at this
      rw [h.next_eq, hps, succIn_append_cons_self _ hmem]
      rfl
    have hclosed := linkLoop_closed (b :: bs) xs q.next q.prev hnodup
      (by rw [← hlast, update_eq_self, h.next_eq]) (by rw [← htail, update_eq_self, h.prev_eq])
    refine ⟨⟨_, _, q.numFreeBlocks + (b :: bs).length⟩, ?_, hnodup, hclosed.1, hclosed.2, ?_⟩
    · simp only [appendN, if_neg (List.cons_ne_nil b bs), htail]
      rfl
    · change q.numFreeBlocks + (b :: bs).length = (xs ++ b :: bs).length
      rw [h.length_eq, List.length_append]
      omega

theorem succIn_range' (s k i : Nat) :
    succIn ((List.range' s k).map Node.block ++ [.tail]) (.block i) =
      if s ≤ i ∧ i < s + k then if i + 1 < s + k then some (.block (i + 1)) else some .tail
      else none := by
  induction k generalizing s with
  | zero =>
    rw [if_neg (by omega)]
    rfl
  | succ k ih =>
    rw [List.range'_succ, List.map_cons, List.cons_append]
    by_cases hi : i = s
    · subst hi
      rw [succIn_cons_self, if_pos (by omega)]
      cases k with
      | zero => simp
      | succ k => rw [if_pos (by omega)]; rfl
    · rw [succIn_cons_of_ne _ (by simpa using hi), ih]
      by_cases hs : s ≤ i ∧ i < s + (k + 1)
      · rw [if_pos hs, if_pos (by omega)]
        simp only [show s + 1 + k = s + (k + 1) by omega]
      · rw [if_neg hs, if_neg (by omega)]

theorem succIn_range_reverse (n i : Nat) :
    succIn ((List.range n).reverse.map Node.block ++ [.head]) (.block i) =
      if i < n then if 0 < i then some (.block (i - 1)) else some .head else none := by
  induction n with
  | zero => rfl
  | succ n ih =>
    rw [List.range_succ, List.reverse_append, List.reverse_singleton, List.singleton_append,
      List.map_cons, List.cons_append]
    by_cases hi : i = n
    · subst hi
      rw [succIn_cons_self, if_pos (by omega)]
      cases i with
      | zero => rfl
      | succ i => simp [List.range_succ]
    · rw [succIn_cons_of_ne _ (by simpa using hi), ih]
      by_cases hn : i < n
      · rw [if_pos hn, if_pos (show i < n + 1 by omega)]
      · rw [if_neg hn, if_neg (by omega)]

theorem init_range (n : Nat) : Threads (init n) (List.range n) := by
  refine ⟨List.nodup_range, ?_, ?_, by simp [init]⟩
  · funext c
    cases c with
    | head =>
      rw [spine, succIn_cons_self]
      cases n with
      | zero => rfl
      | succ n => simp [init, List.range_eq_range', List.range'_succ]
    | tail =>
      have htail : Node.tail ∉ (List.range n).map Node.block := by simp
      rw [spine, succIn_cons_of_ne _ (by simp), succIn_append_cons_self _ htail]
      rfl
    | block i =>
      rw [spine, succIn_cons_of_ne _ (by simp), List.range_eq_range', succIn_range']
      simp only [init, Nat.zero_le, true_and, Nat.zero_add]
      split_ifs <;> first | rfl | omega
  · have hrev : (spine (List.range n)).reverse =
        .tail :: ((List.range n).reverse.map Node.block ++ [.head]) := by simp [spine]
    rw [hrev]
    funext c
    cases c with
    | head =>
      have hhead : Node.head ∉ .tail :: (List.range n).reverse.map Node.block := by simp
      rw [← List.cons_append, succIn_append_cons_self _ hhead]
      rfl
    | tail =>
      rw [succIn_cons_self]
      cases n with
      | zero => rfl
      | succ n => simp [init, List.range_succ]
    | block i =>
      rw [succIn_cons_of_ne _ (by simp), succIn_range_reverse]
      rfl

theorem walk_eq (next : Node → Option Node) (xs : List Node) (c : Node) {fuel : Nat}
    (hnodup : (xs ++ [c]).Nodup) (hfuel : xs.length < fuel)
    (hnext : ∀ d ∈ xs ++ [c], next d = succIn (xs ++ [c]) d) :
    walk next fuel ((xs ++ [c]).head (by simp)) = xs := by
  induction xs generalizing fuel with
  | nil =>
    obtain ⟨f, rfl⟩ : ∃ f, fuel = f + 1 := ⟨fuel - 1, by simp at hfuel; omega⟩
    have hc : next c = none := by simpa using hnext c (by simp)
    simp [walk, hc]
  | cons x xs ih =>
    obtain ⟨f, rfl⟩ : ∃ f, fuel = f + 1 := ⟨fuel - 1, by simp at hfuel; omega⟩
    rw [List.cons_append, List.nodup_cons] at hnodup
    have hx : next x = some ((xs ++ [c]).head (by simp)) := by
      rw [hnext x (by simp), List.cons_append, succIn_cons_self, List.head?_eq_some_head (by simp)]
    have hrest : ∀ d ∈ xs ++ [c], next d = succIn (xs ++ [c]) d := by
      intro d hd
      have hne : d ≠ x := fun hdx => hnodup.1 (hdx ▸ hd)
      rw [hnext d (List.mem_cons_of_mem _ hd), List.cons_append, succIn_cons_of_ne _ hne]
    have := ih hnodup.2 (by simp at hfuel; omega) hrest
    simp [walk, hx, this]

theorem getAllFreeBlocks_ok (h : Threads q ids) (hn : ids.length < n) :
    q.getAllFreeBlocks n = .ok (ids.map Node.block) := by
  have hnd := (List.nodup_cons.mp (spine_nodup h.nodup))
  have hhead : q.next .head = some ((ids.map Node.block ++ [Node.tail]).head (by simp)) := by
    rw [h.next_eq, spine, succIn_cons_self, List.head?_eq_some_head (by simp)]
  have hwalk := walk_eq q.next (ids.map Node.block) .tail hnd.2 (by simpa using hn) (by
    intro d hd
    have hne : d ≠ Node.head := fun hdh => hnd.1 (hdh ▸ hd)
    rw [h.next_eq, spine, succIn_cons_of_ne _ hne])
  simp only [getAllFreeBlocks, hhead, hwalk]

end Threads

/-! ### Sequences of operations -/

inductive QueueOp where
  | popleft
  | popleftN (n : Nat)
  | remove (b : Nat)
  | append (b : Nat)
  | appendN (blocks : List Nat)

/-- The blocks that were popped so far, and the queue. -/
def FreeKVCacheBlockQueue.step (s : List Nat × FreeKVCacheBlockQueue) :
    QueueOp → Option (List Nat × FreeKVCacheBlockQueue)
  | .popleft => s.2.popleft.toOption.map fun r => (s.1 ++ [r.1], r.2)
  | .popleftN n => (s.2.popleftN n).toOption.map fun r => (s.1 ++ r.1, r.2)
  | .remove b => (s.2.remove b).toOption.map (s.1, ·)
  | .append b => (s.2.append b).toOption.map (s.1, ·)
  | .appendN blocks => (s.2.appendN blocks).toOption.map (s.1, ·)

/-- What the queue is for. -/
def listStep (t : List Nat × List Nat) : QueueOp → Option (List Nat × List Nat)
  | .popleft => t.2.head?.map fun b => (t.1 ++ [b], t.2.tail)
  | .popleftN n => if n ≤ t.2.length then some (t.1 ++ t.2.take n, t.2.drop n) else none
  | .remove b => if b ∈ t.2 then some (t.1, t.2.erase b) else none
  | .append b => some (t.1, t.2 ++ [b])
  | .appendN blocks => some (t.1, t.2 ++ blocks)

/-- No block is appended that is in the queue already. -/
def AppendsNew (t : List Nat × List Nat) : QueueOp → Prop
  | .append b => (t.2 ++ [b]).Nodup
  | .appendN blocks => (t.2 ++ blocks).Nodup
  | _ => True

namespace Threads

open FreeKVCacheBlockQueue

variable {q : FreeKVCacheBlockQueue} {ids : List Nat}

theorem popleft_nil (h : Threads q []) : q.popleft.toOption = none := by
  have hhead : q.next .head = some .tail := by
    rw [h.next_eq, spine, succIn_cons_self]
    rfl
  simp only [popleft, hhead]
  split <;> rfl

theorem remove_of_notMem {b : Nat} (h : Threads q ids) (hb : b ∉ ids) :
    (q.remove b).toOption = none := by
  have hnext : q.next (.block b) = none := by
    rw [h.next_eq]
    exact succIn_of_notMem (by simpa [spine] using hb)
  simp only [remove, hnext]
  cases q.prev (.block b) <;> rfl

theorem append_ok {b : Nat} (h : Threads q ids) (hnodup : (ids ++ [b]).Nodup) :
    ∃ q', q.append b = .ok q' ∧ Threads q' (ids ++ [b]) := by
  obtain ⟨q', hq', h'⟩ := h.appendN_ok hnodup
  refine ⟨q', ?_, h'⟩
  cases hlast : q.prev .tail with
  | none => simp [appendN, hlast] at hq'
  | some last => simpa [append, appendN, hlast, linkLoop] using hq'

theorem step {s : List Nat × FreeKVCacheBlockQueue} {t : List Nat × List Nat} {op : QueueOp}
    (h : s.1 = t.1 ∧ Threads s.2 t.2) (hnew : AppendsNew t op) :
    Option.Rel (fun s t => s.1 = t.1 ∧ Threads s.2 t.2)
      (FreeKVCacheBlockQueue.step s op) (listStep t op) := by
  obtain ⟨popped, q⟩ := s
  obtain ⟨popped', ids⟩ := t
  obtain ⟨rfl, h⟩ : popped = popped' ∧ Threads q ids := h
  cases op with
  | popleft =>
    cases ids with
    | nil =>
      simp only [FreeKVCacheBlockQueue.step, h.popleft_nil]
      exact .none
    | cons b ids =>
      obtain ⟨q', hq', h'⟩ := h.popleft_ok
      simp only [FreeKVCacheBlockQueue.step, hq']
      exact .some ⟨rfl, h'⟩
  | popleftN n =>
    simp only [listStep]
    split
    · next hle =>
      rw [← List.take_append_drop n ids] at h
      obtain ⟨q', hq', h'⟩ := h.popleftN_ok
      rw [List.length_take_of_le hle] at hq'
      simp only [FreeKVCacheBlockQueue.step, hq']
      exact .some ⟨rfl, h'⟩
    · next hlt =>
      have hn : ¬ (n : Int) = 0 := by omega
      have hassert : ¬ (n : Int) ≤ q.numFreeBlocks := by
        rw [h.length_eq]
        omega
      simp only [FreeKVCacheBlockQueue.step, popleftN, if_neg hn, assert, if_neg hassert]
      exact .none
  | remove b =>
    simp only [listStep]
    split
    · next hb =>
      obtain ⟨xs, ys, rfl⟩ := List.append_of_mem hb
      have hxs : b ∉ xs := fun hmem =>
        (List.nodup_append.mp h.nodup).2.2 b hmem b List.mem_cons_self rfl
      obtain ⟨q', hq', h'⟩ := h.remove_ok
      rw [List.erase_append_right _ hxs, List.erase_cons_head]
      simp only [FreeKVCacheBlockQueue.step, hq']
      exact .some ⟨rfl, h'⟩
    · next hb =>
      simp only [FreeKVCacheBlockQueue.step, h.remove_of_notMem hb]
      exact .none
  | append b =>
    obtain ⟨q', hq', h'⟩ := h.append_ok hnew
    simp only [FreeKVCacheBlockQueue.step, hq']
    exact .some ⟨rfl, h'⟩
  | appendN blocks =>
    obtain ⟨q', hq', h'⟩ := h.appendN_ok hnew
    simp only [FreeKVCacheBlockQueue.step, hq']
    exact .some ⟨rfl, h'⟩

end Threads

namespace FreeKVCacheBlockQueue

/-- The queue is a list of blocks: along all operations it returns what the list returns, raises
when the list has no answer, and `get_all_free_blocks` is the list. -/
theorem exec_refines_list (n : Nat) (ops : List QueueOp)
    (hnew : Machine.Along listStep AppendsNew ([], List.range n) ops) :
    Option.Rel (fun s t => s.1 = t.1 ∧ s.2.numFreeBlocks = t.2.length ∧
        s.2.getAllFreeBlocks (t.2.length + 1) = .ok (t.2.map Node.block))
      (Machine.exec step ([], init n) ops) (Machine.exec listStep ([], List.range n) ops) := by
  have h : Option.Rel (fun s t => s.1 = t.1 ∧ Threads s.2 t.2)
      (Machine.exec step ([], init n) ops) (Machine.exec listStep ([], List.range n) ops) := by
    refine Machine.exec_rel ?_ ⟨rfl, Threads.init_range n⟩ hnew
    intro s t op h hnew
    exact Threads.step h hnew
  generalize Machine.exec step _ _ = u at h ⊢
  generalize Machine.exec listStep _ _ = v at h ⊢
  cases h with
  | none => exact .none
  | some h => exact .some ⟨h.1, h.2.length_eq, h.2.getAllFreeBlocks_ok (Nat.lt_succ_self _)⟩

/-- Two blocks are taken, one of them comes back, and one is taken out of the middle. -/
theorem exec_refines_list_four : ∃ q,
    Machine.exec step ([], init 4) [.popleftN 2, .appendN [1], .remove 3, .popleft] =
      some ([0, 1, 2], q) ∧ q.getAllFreeBlocks 2 = .ok [.block 1] := by
  have h := exec_refines_list 4 [.popleftN 2, .appendN [1], .remove 3, .popleft]
    (by simp [Machine.Along, AppendsNew, listStep, List.range, List.range.loop])
  generalize Machine.exec step _ _ = r at h ⊢
  have hlist : Machine.exec listStep ([], List.range 4)
      [.popleftN 2, .appendN [1], .remove 3, .popleft] = some ([0, 1, 2], [1]) := by decide
  rw [hlist] at h
  obtain @⟨⟨popped, q⟩, _, rfl, -, hall⟩ := h
  exact ⟨q, rfl, hall⟩

end FreeKVCacheBlockQueue

end EldrServing.KVCache
