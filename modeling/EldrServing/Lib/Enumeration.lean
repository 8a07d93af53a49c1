import Mathlib.Data.List.Nodup
import Mathlib.Data.List.Perm.Basic
import Mathlib.Data.List.Perm.Lattice

/-!
# Lists that enumerate a property

A list that holds exactly the elements with a property, each once, as a queue does that a state
machine keeps in step with the status of its elements.
-/

namespace EldrServing

set_option autoImplicit false

universe u
variable {ι : Type u}

/-- The list holds the elements with `p`, each once. -/
structure Enumerates (l : List ι) (p : ι → Prop) : Prop where
  nodup : l.Nodup
  mem_iff : ∀ a, a ∈ l ↔ p a

namespace Enumerates

variable {l l' : List ι} {p q : ι → Prop} {r : ι}

theorem perm (h : Enumerates l p) (hl : l.Perm l') : Enumerates l' p where
  nodup := hl.nodup_iff.mp h.nodup
  mem_iff a := hl.mem_iff.symm.trans (h.mem_iff a)

theorem congr (h : Enumerates l p) (hpq : ∀ a, q a ↔ p a) : Enumerates l q where
  nodup := h.nodup
  mem_iff a := (h.mem_iff a).trans (hpq a).symm

theorem cons (h : Enumerates l p) (hr : ¬ p r) (hpq : ∀ a, q a ↔ a = r ∨ p a) :
    Enumerates (r :: l) q where
  nodup := List.nodup_cons.mpr ⟨fun hm => hr ((h.mem_iff r).mp hm), h.nodup⟩
  mem_iff a := by rw [List.mem_cons, h.mem_iff, hpq]

theorem filter (h : Enumerates l p) {keep : ι → Bool} (hpq : ∀ a, q a ↔ p a ∧ keep a = true) :
    Enumerates (l.filter keep) q where
  nodup := h.nodup.filter _
  mem_iff a := by rw [List.mem_filter, h.mem_iff, hpq]

theorem tail (h : Enumerates (r :: l) p) (hpq : ∀ a, q a ↔ p a ∧ a ≠ r) : Enumerates l q where
  nodup := (List.nodup_cons.mp h.nodup).2
  mem_iff a := by
    rw [hpq, ← h.mem_iff, List.mem_cons]
    constructor
    · intro ha
      refine ⟨.inr ha, ?_⟩
      rintro rfl
      exact (List.nodup_cons.mp h.nodup).1 ha
    · rintro ⟨rfl | ha, hne⟩
      · exact absurd rfl hne
      · exact ha

end Enumerates

end EldrServing
