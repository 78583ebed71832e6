import Mathlib.Data.List.Basic
import Mathlib.Data.List.Range
import Mathlib.Logic.Function.Basic
/-!
# Ring — a queue in a circular array

`cap` cells hold the queued values from `head` on, wrapping at the end.  Values are copied in and out run by run, a run
ending where the array does; the queue that the cells stand for is `contents`.
-/
namespace R4

structure Ring (α : Type) where
  cells : Nat → α
  head : Nat
  len : Nat

namespace Ring

variable {α : Type} {cap : Nat} {r : Ring α}

/-- The queued values, first in first. -/
def contents (cap : Nat) (r : Ring α) : List α := (List.range r.len).map (fun i => r.cells ((r.head + i) % cap))

structure Ok (cap : Nat) (r : Ring α) : Prop where
  head_lt : r.head < cap
  len_le : r.len ≤ cap

/-- Copies `run` values to the cells from `tail` on. -/
def place (tail : Nat) (run : List α) (r : Ring α) : Ring α :=
  { r with cells := fun i => if tail ≤ i then (run[i - tail]?).getD (r.cells i) else r.cells i, len := r.len + run.length }

/-- Appends values, each run up to the end of the array. -/
def fill (cap : Nat) : Nat → List α → Ring α → Ring α
  | 0, _, r => r
  | _, [], r => r
  | fuel + 1, data, r =>
    let tail := (r.head + r.len) % cap
    let run := min data.length (cap - tail)
    fill cap fuel (data.drop run) (r.place tail (data.take run))

/-- Appends `data`: every run copies at least one value, so its length bounds their number. -/
def push (cap : Nat) (data : List α) (r : Ring α) : Ring α := fill cap data.length data r

/-- Takes `count` values out, each run up to the end of the array. -/
def drain (cap : Nat) : Nat → Nat → Ring α → List α × Ring α
  | 0, _, r => ([], r)
  | _, 0, r => ([], r)
  | fuel + 1, count, r =>
    let run := min count (cap - r.head)
    let out := (List.range run).map (fun i => r.cells (r.head + i))
    let (rest, r') := drain cap fuel (count - run) { r with head := (r.head + run) % cap, len := r.len - run }
    (out ++ rest, r')

def pop (cap : Nat) (count : Nat) (r : Ring α) : List α × Ring α := drain cap count count r

@[simp] theorem length_contents (cap : Nat) (r : Ring α) : (r.contents cap).length = r.len := by simp [contents]

theorem getElem?_contents (cap : Nat) (r : Ring α) (i : Nat) :
    (r.contents cap)[i]? = if i < r.len then some (r.cells ((r.head + i) % cap)) else none := by
  unfold contents
  by_cases h : i < r.len <;> simp [h]

theorem wrap {head i : Nat} (hh : head < cap) (hi : i ≤ cap) :
    (head + i) % cap = if head + i < cap then head + i else head + i - cap := by
  split
  · exact Nat.mod_eq_of_lt (by omega)
  · rw [Nat.mod_eq_sub_mod (by omega), Nat.mod_eq_of_lt (by omega)]

theorem contents_append_one (h : r.Ok cap) (hroom : r.len < cap) (x : α) :
    ({ cells := Function.update r.cells ((r.head + r.len) % cap) x, head := r.head, len := r.len + 1 } : Ring α).contents cap
      = r.contents cap ++ [x] := by
  obtain ⟨hh, hl⟩ := h
  unfold contents
  rw [List.range_succ, List.map_append]
  refine congrArg₂ (· ++ ·) (List.map_congr_left (fun i hi => ?_)) (by simp)
  have hi := List.mem_range.1 hi
  have hne : (r.head + i) % cap ≠ (r.head + r.len) % cap := by
    rw [wrap hh (by omega), wrap hh hl]
    split <;> split <;> omega
  exact Function.update_of_ne hne _ _

theorem contents_head (h : r.Ok cap) (hlen : 0 < r.len) :
    r.contents cap = r.cells r.head
      :: ({ cells := r.cells, head := (r.head + 1) % cap, len := r.len - 1 } : Ring α).contents cap := by
  obtain ⟨hh, -⟩ := h
  obtain ⟨n, hn⟩ : ∃ n, r.len = n + 1 := ⟨r.len - 1, by omega⟩
  unfold contents
  rw [hn, List.range_succ_eq_map, List.map_cons, Nat.add_zero, Nat.mod_eq_of_lt hh, List.map_map]
  refine congrArg _ (List.map_congr_left (fun i _ => ?_))
  show r.cells ((r.head + (i + 1)) % cap) = r.cells (((r.head + 1) % cap + i) % cap)
  rw [Nat.mod_add_mod, Nat.add_assoc, Nat.add_comm 1 i]

/-! ## Copying in -/

section Push

variable {data : List α}

theorem len_place (tail : Nat) : (r.place tail data).len = r.len + data.length := rfl

theorem head_place (tail : Nat) : (r.place tail data).head = r.head := rfl

theorem cells_place (tail i : Nat) :
    (r.place tail data).cells i = if tail ≤ i then (data[i - tail]?).getD (r.cells i) else r.cells i := rfl

theorem place_ok (h : r.Ok cap) (hroom : r.len + data.length ≤ cap) (tail : Nat) : (r.place tail data).Ok cap :=
  ⟨h.head_lt, hroom⟩

theorem contents_place (h : r.Ok cap) (hroom : r.len + data.length ≤ cap)
    (hrun : data.length ≤ cap - (r.head + r.len) % cap) :
    (r.place ((r.head + r.len) % cap) data).contents cap = r.contents cap ++ data := by
  obtain ⟨hh, hl⟩ := h
  have htail := wrap hh hl
  refine List.ext_getElem? (fun i => ?_)
  rw [getElem?_contents, List.getElem?_append, length_contents, getElem?_contents, len_place, head_place, cells_place]
  generalize (r.head + r.len) % cap = tail at *
  by_cases hi : i < r.len
  · have hcell := wrap hh (show i ≤ cap by omega)
    rw [if_pos hi, if_pos hi, if_pos (show i < r.len + data.length by omega)]
    generalize (r.head + i) % cap = cell at *
    -- the cell of an older value is before the run or behind it
    rcases Nat.lt_or_ge cell tail with h1 | h1
    · rw [if_neg (by omega)]
    · rw [if_pos h1, List.getElem?_eq_none (by split at htail <;> split at hcell <;> omega)]
      rfl
  · rw [if_neg hi]
    by_cases hj : i < r.len + data.length
    · have hcell := wrap hh (show i ≤ cap by omega)
      have hat : (r.head + i) % cap = tail + (i - r.len) := by
        rw [hcell]
        split at htail <;> split <;> omega
      rw [if_pos hj, hat, if_pos (Nat.le_add_right _ _), Nat.add_sub_cancel_left, List.getElem?_eq_getElem (by omega)]
      rfl
    · rw [if_neg hj, List.getElem?_eq_none (by omega)]

theorem fill_spec : ∀ (fuel : Nat) (data : List α) (r : Ring α), r.Ok cap → r.len + data.length ≤ cap → data.length ≤ fuel →
    (fill cap fuel data r).contents cap = r.contents cap ++ data ∧ (fill cap fuel data r).Ok cap ∧
      (fill cap fuel data r).len = r.len + data.length
  | 0, data, r, h, _, hf => by
    obtain rfl : data = [] := List.eq_nil_of_length_eq_zero (by omega)
    simp only [fill, List.append_nil, List.length_nil, Nat.add_zero]
    exact ⟨trivial, h, trivial⟩
  | fuel + 1, [], r, h, _, _ => by
    simp only [fill, List.append_nil, List.length_nil, Nat.add_zero]
    exact ⟨trivial, h, trivial⟩
  | fuel + 1, x :: xs, r, h, hroom, hf => by
    have ht : (r.head + r.len) % cap < cap := Nat.mod_lt _ (by have := h.head_lt; omega)
    simp only [fill]
    generalize hrun : min (x :: xs).length (cap - (r.head + r.len) % cap) = run
    have hpos : 0 < run := by
      rw [← hrun, List.length_cons]
      omega
    have hle : run ≤ (x :: xs).length := by omega
    have htake : ((x :: xs).take run).length = run := by rw [List.length_take]; omega
    have hdrop : ((x :: xs).drop run).length = (x :: xs).length - run := List.length_drop
    have hfits : r.len + ((x :: xs).take run).length ≤ cap := by omega
    have hcont := contents_place h hfits (by omega)
    have hok := place_ok h hfits ((r.head + r.len) % cap)
    have hlen : (r.place ((r.head + r.len) % cap) ((x :: xs).take run)).len = r.len + run := by
      rw [len_place, htake]
    obtain ⟨h1, h2, h3⟩ := fill_spec fuel ((x :: xs).drop run) _ hok (by rw [hlen]; omega) (by omega)
    refine ⟨?_, h2, by rw [h3, hlen]; omega⟩
    rw [h1, hcont, List.append_assoc, List.take_append_drop]

/-- **What is pushed is queued last.** -/
theorem contents_push (h : r.Ok cap) (hroom : r.len + data.length ≤ cap) :
    (r.push cap data).contents cap = r.contents cap ++ data := (fill_spec _ _ _ h hroom (Nat.le_refl _)).1

theorem push_ok (h : r.Ok cap) (hroom : r.len + data.length ≤ cap) : (r.push cap data).Ok cap :=
  (fill_spec _ _ _ h hroom (Nat.le_refl _)).2.1

theorem len_push (h : r.Ok cap) (hroom : r.len + data.length ≤ cap) : (r.push cap data).len = r.len + data.length :=
  (fill_spec _ _ _ h hroom (Nat.le_refl _)).2.2

end Push

/-! ## Copying out -/

section Pop

variable {count : Nat}

theorem drain_spec : ∀ (fuel count : Nat) (r : Ring α), r.Ok cap → count ≤ r.len → count ≤ fuel →
    (drain cap fuel count r).1 = (r.contents cap).take count ∧
      (drain cap fuel count r).2.contents cap = (r.contents cap).drop count ∧ (drain cap fuel count r).2.Ok cap ∧
      (drain cap fuel count r).2.len = r.len - count
  | 0, count, r, h, _, hf => by
    obtain rfl : count = 0 := by omega
    simp only [drain, List.take_zero, List.drop_zero, Nat.sub_zero]
    exact ⟨trivial, trivial, h, trivial⟩
  | fuel + 1, 0, r, h, _, _ => by
    simp only [drain, List.take_zero, List.drop_zero, Nat.sub_zero]
    exact ⟨trivial, trivial, h, trivial⟩
  | fuel + 1, count + 1, r, h, hc, hf => by
    obtain ⟨hh, hl⟩ := h
    simp only [drain]
    generalize hrun : min (count + 1) (cap - r.head) = run
    have hpos : 0 < run := by omega
    -- the run, and what is left queued behind it
    have hout : (List.range run).map (fun i => r.cells (r.head + i)) = (r.contents cap).take run := by
      refine List.ext_getElem? (fun i => ?_)
      rw [List.getElem?_take, getElem?_contents]
      by_cases hi : i < run
      · rw [if_pos hi, if_pos (by omega), List.getElem?_map, List.getElem?_range hi, Nat.mod_eq_of_lt (by omega)]
        rfl
      · rw [if_neg hi, List.getElem?_eq_none (by simpa using hi)]
    have hrest : ({ r with head := (r.head + run) % cap, len := r.len - run } : Ring α).contents cap
        = (r.contents cap).drop run := by
      refine List.ext_getElem? (fun i => ?_)
      rw [List.getElem?_drop, getElem?_contents, getElem?_contents]
      by_cases hi : i < r.len - run
      · rw [if_pos hi, if_pos (by omega), Nat.mod_add_mod, Nat.add_assoc]
      · rw [if_neg hi, if_neg (by omega)]
    have hok : ({ r with head := (r.head + run) % cap, len := r.len - run } : Ring α).Ok cap :=
      ⟨Nat.mod_lt _ (by omega), by show r.len - run ≤ cap; omega⟩
    obtain ⟨h1, h2, h3, h4⟩ := drain_spec fuel (count + 1 - run) _ hok (by show _ ≤ r.len - run; omega) (by omega)
    refine ⟨?_, ?_, h3, ?_⟩
    · rw [h1, hout, hrest, ← List.take_add]
      congr 1
      omega
    · rw [h2, hrest, List.drop_drop]
      congr 1
      omega
    · rw [h4]
      show r.len - run - (count + 1 - run) = r.len - (count + 1)
      omega

/-- **What is popped was queued first.** -/
theorem pop_fst (h : r.Ok cap) (hc : count ≤ r.len) : (r.pop cap count).1 = (r.contents cap).take count :=
  (drain_spec _ _ _ h hc (Nat.le_refl _)).1

theorem contents_pop (h : r.Ok cap) (hc : count ≤ r.len) : (r.pop cap count).2.contents cap = (r.contents cap).drop count :=
  (drain_spec _ _ _ h hc (Nat.le_refl _)).2.1

theorem pop_ok (h : r.Ok cap) (hc : count ≤ r.len) : (r.pop cap count).2.Ok cap :=
  (drain_spec _ _ _ h hc (Nat.le_refl _)).2.2.1

theorem len_pop (h : r.Ok cap) (hc : count ≤ r.len) : (r.pop cap count).2.len = r.len - count :=
  (drain_spec _ _ _ h hc (Nat.le_refl _)).2.2.2

end Pop

end Ring
end R4
