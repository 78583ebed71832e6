import Mathlib.Order.WellFoundedSet
import Mathlib.Logic.Relation
import Mathlib.Data.List.Nodup
/-!
# Precedence — orders in which everything comes after what it needs

`edge i j` says that `j` needs `i`.  A node is ready when all it needs is done; an order is one that takes only ready nodes.
-/
namespace R4
namespace Precedence

variable {ι : Type} {edge : ι → ι → Prop} {done order nodes : List ι} {i j : ι}

def Acyclic (edge : ι → ι → Prop) : Prop := ∀ i, ¬ Relation.TransGen edge i i

def Ready (edge : ι → ι → Prop) (done : List ι) (i : ι) : Prop := i ∉ done ∧ ∀ j, edge j i → j ∈ done

/-- Every node of the list is ready when the ones before it are done. -/
def Layered (edge : ι → ι → Prop) (order : List ι) : Prop := ∀ pre i post, order = pre ++ i :: post → Ready edge pre i

theorem Layered.nodup (h : Layered edge order) : order.Nodup := by
  induction order using List.reverseRecOn with
  | nil => exact List.nodup_nil
  | append_singleton order x ih =>
    have hx := h order x [] rfl
    refine List.nodup_append.2 ⟨ih (fun pre i post heq => h pre i (post ++ [x]) (by rw [heq]; simp)),
      List.nodup_singleton x, fun a ha b hb => ?_⟩
    obtain rfl := List.mem_singleton.1 hb
    exact fun hab => hx.1 (hab ▸ ha)

/-- **What a node needs stands before it.** -/
theorem Layered.before [DecidableEq ι] (h : Layered edge order) (he : edge i j) (hj : j ∈ order) :
    order.idxOf i < order.idxOf j := by
  obtain ⟨pre, post, rfl⟩ := List.append_of_mem hj
  obtain ⟨hout, hneeds⟩ := h pre j post rfl
  rw [List.idxOf_append_of_mem (hneeds i he), List.idxOf_append_of_notMem hout, List.idxOf_cons_self]
  have hlt := List.idxOf_lt_length_of_mem (hneeds i he)
  omega

theorem Layered.trans [DecidableEq ι] (h : Layered edge order) (hall : ∀ i j, edge i j → j ∈ order)
    (he : Relation.TransGen edge i j) : order.idxOf i < order.idxOf j := by
  induction he with
  | single he => exact h.before he (hall _ _ he)
  | tail _ he ih => exact ih.trans (h.before he (hall _ _ he))

/-- **Only an acyclic relation has such an order of all its nodes.** -/
theorem Layered.acyclic (h : Layered edge order) (hall : ∀ i j, edge i j → j ∈ order) : Acyclic edge := by
  classical
  exact fun i hi => Nat.lt_irrefl _ (h.trans hall hi)

/-- **Without a cycle some node is always ready.**  Of the nodes that are not done take one that needs no other of them. -/
theorem exists_ready (h : Acyclic edge) (hnodes : ∀ i j, edge i j → i ∈ nodes) (hi : i ∈ nodes) (hout : i ∉ done) :
    ∃ j ∈ nodes, Ready edge done j := by
  let remaining : Set ι := fun x => x ∈ nodes ∧ x ∉ done
  have hfinite : remaining.Finite := (List.finite_toSet nodes).subset (fun x hx => hx.1)
  have : IsStrictOrder ι (Relation.TransGen edge) := { irrefl := h, trans := fun _ _ _ => Relation.TransGen.trans }
  have hwell : remaining.WellFoundedOn (Relation.TransGen edge) := hfinite.wellFoundedOn
  obtain ⟨⟨j, hj⟩, -, hmin⟩ := hwell.has_min Set.univ ⟨⟨i, hi, hout⟩, trivial⟩
  refine ⟨j, hj.1, hj.2, fun k hk => ?_⟩
  by_contra hkdone
  exact hmin ⟨k, hnodes k j hk, hkdone⟩ trivial (Relation.TransGen.single hk)

/-! ## Counting what is needed -/

theorem countP_turn {l : List ι} {p q : ι → Bool} (hnodup : l.Nodup) (hi : i ∈ l) (hp : p i = false) (hq : q i = true)
    (hsame : ∀ j, j ≠ i → q j = p j) : l.countP q = l.countP p + 1 := by
  obtain ⟨as, bs, rfl⟩ := List.append_of_mem hi
  rw [List.nodup_append, List.nodup_cons] at hnodup
  obtain ⟨-, ⟨hbs, -⟩, has⟩ := hnodup
  have hcongr : ∀ l : List ι, i ∉ l → l.countP q = l.countP p := fun l hl =>
    List.countP_congr (fun j hj => by rw [hsame j (fun h => hl (h ▸ hj))])
  rw [List.countP_append, List.countP_append, List.countP_cons_of_pos hq, List.countP_cons_of_neg (by rw [hp]; decide),
    hcongr as (fun hm => has i hm i List.mem_cons_self rfl), hcongr bs hbs, Nat.add_assoc]

end Precedence
end R4
