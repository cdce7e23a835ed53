import Mathlib.Data.List.Nodup
import Mathlib.Logic.Function.Basic

/-!
# Chains of links that end in a sentinel

`Linked next nil a xs` says that following `next` from `a` visits exactly the
nodes `xs`, in this order, and then arrives at `nil`: the contents of a linked
list, or the way from a node of a forest to its root.  A chain is determined by
its first node (`Linked.unique`), so it never visits a node twice
(`Linked.nodup`); a write to `next` outside a chain leaves the chain alone
(`Linked.congr`); and a node that is linked back to the start of its chain is on
a cycle (`Linked.not_linked_back`).
-/

namespace MongOS.Verified

universe u

variable {α : Type u}

/-- Following `next` from `a` visits `xs` and arrives at `nil`. -/
def Linked (next : α → α) (nil : α) : α → List α → Prop
  | a, [] => a = nil
  | a, x :: xs => a = x ∧ x ≠ nil ∧ Linked next nil (next x) xs

namespace Linked

variable {next next' : α → α} {nil a b : α} {xs ys : List α}

/-- The nodes of a chain are determined by where it starts. -/
theorem unique (hx : Linked next nil a xs) (hy : Linked next nil a ys) :
    xs = ys := by
  induction xs generalizing a ys with
  | nil =>
      cases ys with
      | nil => rfl
      | cons y ys => exact absurd (hy.1.symm.trans hx) hy.2.1
  | cons x xs ih =>
      cases ys with
      | nil => exact absurd (hx.1.symm.trans hy) hx.2.1
      | cons y ys =>
          obtain ⟨rfl, _, hxs⟩ := hx
          obtain ⟨rfl, _, hys⟩ := hy
          rw [ih hxs hys]

/-- Every node of a chain starts a chain of its own, the rest of it. -/
theorem of_append (h : Linked next nil a (xs ++ b :: ys)) :
    Linked next nil b (b :: ys) := by
  induction xs generalizing a with
  | nil =>
      obtain ⟨_, hb, hrest⟩ := h
      exact ⟨rfl, hb, hrest⟩
  | cons x xs ih => exact ih h.2.2

/-- A chain that arrives at its sentinel repeats no node. -/
theorem nodup (h : Linked next nil a xs) : xs.Nodup := by
  induction xs generalizing a with
  | nil => exact List.nodup_nil
  | cons x xs ih =>
      refine List.nodup_cons.2 ⟨fun hmem => ?_, ih h.2.2⟩
      -- a second visit to `x` would start a shorter chain at the same node
      obtain ⟨l, r, rfl⟩ := List.append_of_mem hmem
      obtain ⟨rfl, hx, hrest⟩ := h
      have hfirst : Linked next nil a (a :: (l ++ a :: r)) := ⟨rfl, hx, hrest⟩
      have hagain : Linked next nil a (a :: r) := of_append hrest
      have hlen := congrArg List.length (hfirst.unique hagain)
      simp only [List.length_cons, List.length_append] at hlen
      omega

/-- Only the links of the visited nodes matter. -/
theorem congr (hnext : ∀ x ∈ xs, next x = next' x)
    (h : Linked next nil a xs) : Linked next' nil a xs := by
  induction xs generalizing a with
  | nil => exact h
  | cons x xs ih =>
      obtain ⟨ha, hx, hrest⟩ := h
      refine ⟨ha, hx, ?_⟩
      rw [← hnext x (List.mem_cons_self ..)]
      exact ih (fun y hy => hnext y (List.mem_cons_of_mem _ hy)) hrest

/-- A node of a chain is not the sentinel. -/
theorem ne_nil (h : Linked next nil a xs) {x : α} (hx : x ∈ xs) : x ≠ nil := by
  induction xs generalizing a with
  | nil => simp at hx
  | cons y ys ih =>
      rcases List.mem_cons.1 hx with rfl | hmem
      · exact h.2.1
      · exact ih h.2.2 hmem

/-- The link of a node that is not the last leads to the node behind it. -/
theorem next_eq (h : Linked next nil a (xs ++ b :: ys)) :
    next b = ys.headD nil := by
  obtain ⟨_, _, hrest⟩ := of_append h
  cases ys with
  | nil => exact hrest
  | cons y ys => exact hrest.1

/-- Only the sentinel and later nodes are linked to, never the first node. -/
theorem next_ne_start (h : Linked next nil a xs) (ha : a ≠ nil) {x : α}
    (hx : x ∈ xs) : next x ≠ a := by
  obtain ⟨l, r, rfl⟩ := List.append_of_mem hx
  have hnodup := h.nodup
  have hnext := h.next_eq
  intro heq
  cases r with
  | nil => exact ha (heq.symm.trans hnext)
  | cons y r =>
      rw [List.headD_cons, heq] at hnext
      subst hnext
      -- `a` would be both the first node and the one behind `x`
      cases l with
      | nil =>
          obtain ⟨rfl, -, -⟩ := h
          simp at hnodup
      | cons z l =>
          obtain ⟨rfl, -, -⟩ := h
          simp at hnodup

/-- No two nodes of a chain are linked to the same node. -/
theorem next_inj (h : Linked next nil a xs) {x y : α} (hx : x ∈ xs)
    (hy : y ∈ xs) (heq : next x = next y) (hne : next x ≠ nil) : x = y := by
  induction xs generalizing a with
  | nil => simp at hx
  | cons z zs ih =>
      obtain ⟨-, -, hrest⟩ := h
      rcases List.mem_cons.1 hx with rfl | hxs
      · rcases List.mem_cons.1 hy with rfl | hys
        · rfl
        · exact absurd heq.symm (hrest.next_ne_start hne hys)
      · rcases List.mem_cons.1 hy with rfl | hys
        · exact absurd heq (hrest.next_ne_start (heq ▸ hne) hxs)
        · exact ih hrest hxs hys

/-- A node of a chain is its first node or has a link to it. -/
theorem start_or_next (h : Linked next nil a xs) {x : α} (hx : x ∈ xs) :
    x = a ∨ ∃ y ∈ xs, next y = x := by
  induction xs generalizing a with
  | nil => simp at hx
  | cons z zs ih =>
      obtain ⟨rfl, -, hrest⟩ := h
      rcases List.mem_cons.1 hx with rfl | hx
      · exact .inl rfl
      · rcases ih hrest hx with rfl | ⟨y, hy, hnext⟩
        · exact .inr ⟨a, List.mem_cons_self, rfl⟩
        · exact .inr ⟨y, List.mem_cons_of_mem _ hy, hnext⟩

/-- A new node in front of a chain. -/
theorem push [DecidableEq α] (h : Linked next nil a xs) {x : α} (hx : x ≠ nil)
    (hnew : x ∉ xs) : Linked (Function.update next x a) nil x (x :: xs) := by
  refine ⟨rfl, hx, ?_⟩
  rw [Function.update_self]
  refine h.congr fun y hy => ?_
  have hne : y ≠ x := by
    rintro rfl
    exact hnew hy
  rw [Function.update_of_ne hne]

/-- When the link of a node is changed, every chain from the old start still
comes to that node. -/
theorem meets [DecidableEq α] (h : Linked next nil a xs) {x : α} (hx : x ∈ xs)
    (h' : Linked (Function.update next x b) nil a ys) : x ∈ ys := by
  induction xs generalizing a ys with
  | nil => simp at hx
  | cons z zs ih =>
      obtain ⟨rfl, ha, hrest⟩ := h
      cases ys with
      | nil => exact absurd h' ha
      | cons y ys =>
          obtain ⟨rfl, -, hrest'⟩ := h'
          by_cases hax : x = a
          · exact hax ▸ List.mem_cons_self
          · rw [Function.update_of_ne (Ne.symm hax)] at hrest'
            have hmem := (List.mem_cons.1 hx).resolve_left hax
            exact List.mem_cons_of_mem _ (ih hrest hmem hrest')

/-- A node of a chain that is linked back to its start lies on a cycle: no chain
starts there. -/
theorem not_linked_back [DecidableEq α] (h : Linked next nil a xs) {x : α}
    (hx : x ∈ xs) : ¬ Linked (Function.update next x a) nil x ys := by
  intro h'
  have hnodup := h'.nodup
  cases ys with
  | nil => exact h.ne_nil hx h'
  | cons y ys =>
      obtain ⟨rfl, -, hrest⟩ := h'
      rw [Function.update_self] at hrest
      exact (List.nodup_cons.1 hnodup).1 (h.meets hx hrest)

/-- The first node taken out of a chain. -/
theorem pop {x : α} (h : Linked next nil a (x :: xs)) :
    Linked next nil (next x) xs := h.2.2

/-- A later node taken out of a chain: the node before it is linked to the one
behind it. -/
theorem unlink [DecidableEq α] {p x : α}
    (h : Linked next nil a (xs ++ p :: x :: ys)) :
    Linked (Function.update next p (next x)) nil a (xs ++ p :: ys) := by
  induction xs generalizing a with
  | nil =>
      have hnodup := h.nodup
      obtain ⟨ha, hp, hx⟩ := h
      refine ⟨ha, hp, ?_⟩
      rw [Function.update_self]
      refine hx.pop.congr fun y hy => ?_
      have hne : y ≠ p := by
        rintro rfl
        exact (List.nodup_cons.1 hnodup).1 (List.mem_cons_of_mem _ hy)
      rw [Function.update_of_ne hne]
  | cons z xs ih =>
      have hnodup := h.nodup
      obtain ⟨ha, hz, hrest⟩ := h
      have hne : z ≠ p := by
        rintro rfl
        apply (List.nodup_cons.1 hnodup).1
        exact List.mem_append_right _ List.mem_cons_self
      refine ⟨ha, hz, ?_⟩
      rw [Function.update_of_ne hne]
      exact ih hrest

end Linked

end MongOS.Verified
