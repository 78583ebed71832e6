import Mathlib.Data.List.Basic
import Mathlib.Data.List.Pairwise
import Mathlib.Data.List.Perm.Basic
import Mathlib.Data.List.Range
/-!
# Handoff — what the two sides of a handoff queue see

A sender's frames are numbered as they are accepted.  A receiver claims the oldest frame that waits and holds it under a
key until the key is given back; a cancellation takes back everything at once.
-/
namespace R4

structure Handoff (κ φ : Type) where
  accepted : Nat := 0
  /-- The frames not claimed yet, the oldest first, with their numbers. -/
  waiting : List (Nat × φ) := []
  /-- The frames that are claimed and not given back. -/
  held : List (κ × φ) := []
  /-- The keys that were given back or cancelled. -/
  spent : List κ := []
  /-- The numbers claimed so far, the first claim first. -/
  claims : List Nat := []
  /-- The numbers cancelled before a claim. -/
  dropped : List Nat := []
  released : Nat := 0
  cancelled : Nat := 0

namespace Handoff

variable {κ φ : Type} {L : Handoff κ φ}

def occupied (L : Handoff κ φ) : Nat := L.waiting.length + L.held.length

def accept (L : Handoff κ φ) (frame : φ) : Handoff κ φ :=
  { L with accepted := L.accepted + 1, waiting := L.waiting ++ [(L.accepted, frame)] }

/-- The oldest frame that waits goes to the holder of `key`. -/
def claim (L : Handoff κ φ) (key : κ) : Handoff κ φ :=
  match L.waiting with
  | [] => L
  | (n, frame) :: rest => { L with waiting := rest, held := (key, frame) :: L.held, claims := L.claims ++ [n] }

def release [DecidableEq κ] (L : Handoff κ φ) (key : κ) : Handoff κ φ :=
  { L with held := L.held.filter (fun h => h.1 ≠ key), spent := key :: L.spent, released := L.released + 1 }

def cancel (L : Handoff κ φ) : Handoff κ φ :=
  { L with
    waiting := []
    held := []
    spent := L.held.map Prod.fst ++ L.spent
    dropped := L.dropped ++ L.waiting.map Prod.fst
    cancelled := L.cancelled + L.occupied }

/-- Every number is claimed, dropped or waiting, once; claims come in the order of acceptance; every accepted frame is
given back, cancelled or still occupies a place; one key holds one frame. -/
structure Sound (L : Handoff κ φ) : Prop where
  numbers : (L.claims ++ L.dropped ++ L.waiting.map Prod.fst).Perm (List.range L.accepted)
  waiting_sorted : (L.waiting.map Prod.fst).Pairwise (· < ·)
  claims_sorted : L.claims.Pairwise (· < ·)
  claims_first : ∀ n ∈ L.claims, ∀ w ∈ L.waiting, n < w.1
  keys_nodup : (L.held.map Prod.fst).Nodup
  keys_live : ∀ h ∈ L.held, h.1 ∉ L.spent
  balance : L.accepted = L.released + L.cancelled + L.occupied

theorem sound_empty : Sound ({} : Handoff κ φ) where
  numbers := List.Perm.refl _
  waiting_sorted := List.Pairwise.nil
  claims_sorted := List.Pairwise.nil
  claims_first := fun _ h => absurd h List.not_mem_nil
  keys_nodup := List.nodup_nil
  keys_live := fun _ h => absurd h List.not_mem_nil
  balance := rfl

namespace Sound

theorem waiting_lt (h : Sound L) : ∀ w ∈ L.waiting, w.1 < L.accepted := fun _ hw =>
  List.mem_range.1 (h.numbers.mem_iff.1 (List.mem_append_right _ (List.mem_map_of_mem hw)))

theorem claims_lt (h : Sound L) : ∀ n ∈ L.claims, n < L.accepted := fun _ hn =>
  List.mem_range.1 (h.numbers.mem_iff.1 (List.mem_append_left _ (List.mem_append_left _ hn)))

theorem claims_length_le (h : Sound L) : L.claims.length ≤ L.accepted := by
  have hlen := h.numbers.length_eq
  rw [List.length_append, List.length_append, List.length_range] at hlen
  omega

theorem accept (h : Sound L) (frame : φ) : Sound (L.accept frame) where
  numbers := by
    show (L.claims ++ L.dropped ++ (L.waiting ++ [(L.accepted, frame)]).map Prod.fst).Perm (List.range (L.accepted + 1))
    rw [List.map_append, ← List.append_assoc, List.range_succ]
    exact h.numbers.append_right _
  waiting_sorted := by
    show ((L.waiting ++ [(L.accepted, frame)]).map Prod.fst).Pairwise (· < ·)
    rw [List.map_append, List.pairwise_append]
    refine ⟨h.waiting_sorted, List.pairwise_singleton _ _, fun a ha b hb => ?_⟩
    obtain rfl := List.mem_singleton.1 hb
    obtain ⟨w, hw, rfl⟩ := List.mem_map.1 ha
    exact h.waiting_lt w hw
  claims_sorted := h.claims_sorted
  claims_first := fun n hn w hw => by
    rcases List.mem_append.1 hw with hw | hw
    · exact h.claims_first n hn w hw
    · obtain rfl := List.mem_singleton.1 hw
      exact h.claims_lt n hn
  keys_nodup := h.keys_nodup
  keys_live := h.keys_live
  balance := by
    show L.accepted + 1 = L.released + L.cancelled + ((L.waiting ++ [_]).length + L.held.length)
    have hb := h.balance
    unfold occupied at hb
    rw [List.length_append, List.length_singleton]
    omega

theorem claim (h : Sound L) {key : κ} (hheld : key ∉ L.held.map Prod.fst) (hspent : key ∉ L.spent) :
    Sound (L.claim key) := by
  unfold Handoff.claim
  split
  · exact h
  · rename_i n frame rest hw
    have hnum := h.numbers
    have hsort := h.waiting_sorted
    have hbal := h.balance
    unfold occupied at hbal
    rw [hw] at hnum hsort hbal
    rw [List.map_cons] at hnum hsort
    refine ⟨?_, (List.pairwise_cons.1 hsort).2, ?_, ?_, List.nodup_cons.2 ⟨hheld, h.keys_nodup⟩, ?_, ?_⟩
    · show ((L.claims ++ [n]) ++ L.dropped ++ rest.map Prod.fst).Perm _
      refine List.Perm.trans ?_ hnum
      rw [List.append_assoc, List.append_assoc, List.append_assoc, List.singleton_append]
      exact List.Perm.append_left _ List.perm_middle.symm
    · refine List.pairwise_append.2 ⟨h.claims_sorted, List.pairwise_singleton _ _, fun a ha b hb => ?_⟩
      obtain rfl := List.mem_singleton.1 hb
      exact h.claims_first a ha (b, frame) (hw ▸ List.mem_cons_self)
    · intro m hm w hw'
      rcases List.mem_append.1 hm with hm | hm
      · exact h.claims_first m hm w (hw ▸ List.mem_cons_of_mem _ hw')
      · obtain rfl := List.mem_singleton.1 hm
        exact (List.pairwise_cons.1 hsort).1 w.1 (List.mem_map_of_mem hw')
    · intro e he
      rcases List.mem_cons.1 he with rfl | he
      · exact hspent
      · exact h.keys_live e he
    · show L.accepted = L.released + L.cancelled + (rest.length + (L.held.length + 1))
      rw [List.length_cons] at hbal
      omega

theorem filter_key [DecidableEq κ] : ∀ {held : List (κ × φ)} {key : κ}, (held.map Prod.fst).Nodup → key ∈ held.map Prod.fst →
    (held.filter (fun h => h.1 ≠ key)).length + 1 = held.length
  | [], _, _, hk => absurd hk List.not_mem_nil
  | (k, f) :: held, key, hn, hk => by
    rw [List.map_cons, List.nodup_cons] at hn
    by_cases h : k = key
    · subst h
      rw [List.filter_cons_of_neg (by simp), List.length_cons, List.filter_eq_self.2]
      intro e he
      have hne : e.1 ≠ k := fun heq => hn.1 (List.mem_map.2 ⟨e, he, heq⟩)
      simpa using hne
    · have hk' : key ∈ held.map Prod.fst := (List.mem_cons.1 hk).resolve_left (Ne.symm h)
      rw [List.filter_cons_of_pos (by simpa using h), List.length_cons, List.length_cons, filter_key hn.2 hk']

theorem release [DecidableEq κ] (h : Sound L) {key : κ} (hkey : key ∈ L.held.map Prod.fst) : Sound (L.release key) where
  numbers := h.numbers
  waiting_sorted := h.waiting_sorted
  claims_sorted := h.claims_sorted
  claims_first := h.claims_first
  keys_nodup := List.Nodup.sublist (List.Sublist.map _ List.filter_sublist) h.keys_nodup
  keys_live := fun e he hs => by
    obtain ⟨he, hne⟩ := List.mem_filter.1 he
    rcases List.mem_cons.1 hs with hs | hs
    · simp [hs] at hne
    · exact h.keys_live e he hs
  balance := by
    have hb := h.balance
    have hlen := filter_key h.keys_nodup hkey
    show L.accepted = L.released + 1 + L.cancelled + (L.waiting.length + (L.held.filter _).length)
    unfold occupied at hb
    omega

theorem cancel (h : Sound L) : Sound L.cancel where
  numbers := by
    show (L.claims ++ (L.dropped ++ L.waiting.map Prod.fst) ++ []).Perm _
    rw [List.append_nil, ← List.append_assoc]
    exact h.numbers
  waiting_sorted := List.Pairwise.nil
  claims_sorted := h.claims_sorted
  claims_first := fun _ _ _ hw => absurd hw List.not_mem_nil
  keys_nodup := List.nodup_nil
  keys_live := fun _ he => absurd he List.not_mem_nil
  balance := by
    show L.accepted = L.released + (L.cancelled + L.occupied) + 0
    have hb := h.balance
    omega

end Sound

end Handoff
end R4
