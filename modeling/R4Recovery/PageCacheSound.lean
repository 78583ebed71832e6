import R4Recovery.PageCache
import Mathlib.Algebra.Order.BigOperators.Group.Finset
import Mathlib.Data.Finset.Dedup
/-!
# PageCacheSound — the cache's redundant structures agree

Tags, flags, masks, hash chains and totals of the page cache say the same thing (`Sound`), and every operation on one
slot keeps them so.
-/
namespace R4
namespace PageCache

open PageIndex LinkedQueue
open PageIndex.Index (Wf isHeld isBusy isDirty isClean isFree Shifts)

variable {α : Type}

/-- The slot and its tag agree. -/
structure SlotFits (e : Entry α) (t : Tag) : Prop where
  held : e.valid = isHeld t
  device : e.valid = true → t.device = e.device
  busy : e.ioBusy = isBusy t
  dirty : e.dirtyMask ≠ ∅ ↔ isDirty t = true
  subset : e.dirtyMask ⊆ e.validMask
  payload : e.valid = true → e.payload.isSome = true
  aligned : e.valid = true → e.page % 8 = 0

/-- The tag of a slot that holds a page. -/
def tagOf (e : Entry α) : Tag where
  device := e.device
  queue := if e.ioBusy then (if e.dirtyMask = ∅ then .busyClean else .busyDirty)
    else (if e.dirtyMask = ∅ then .clean else .dirty)

theorem isHeld_of_isBusy {t : Tag} (h : isBusy t = true) : isHeld t = true := by
  rcases t with ⟨d, p⟩
  cases p <;> first | rfl | cases h

theorem isHeld_of_isDirty {t : Tag} (h : isDirty t = true) : isHeld t = true := by
  rcases t with ⟨d, p⟩
  cases p <;> first | rfl | cases h

theorem SlotFits.eq_tagOf {e : Entry α} {t : Tag} (h : SlotFits e t) (hv : e.valid = true) : t = tagOf e := by
  rcases t with ⟨d, p⟩
  have h1 := h.held
  have h2 : d = e.device := h.device hv
  have h3 := h.busy
  have h4 : e.dirtyMask = ∅ ↔ isDirty ⟨d, p⟩ = false := by
    rw [← not_iff_not, Bool.not_eq_false]
    exact h.dirty
  subst h2
  rw [hv] at h1
  have hq : p = (tagOf e).queue := by
    unfold tagOf
    dsimp only
    rw [h3]
    simp only [h4]
    cases p <;> first | rfl | cases h1
  rw [hq]
  rfl

theorem SlotFits.of_tagOf {e : Entry α} (hv : e.valid = true) (hs : e.dirtyMask ⊆ e.validMask)
    (hp : e.payload.isSome = true) (ha : e.page % 8 = 0) : SlotFits e (tagOf e) := by
  refine ⟨?_, fun _ => rfl, ?_, ?_, hs, fun _ => hp, fun _ => ha⟩
  · rw [hv]
    unfold tagOf
    cases e.ioBusy <;> by_cases hd : e.dirtyMask = ∅ <;> simp [hd, isHeld, isClean, isDirty]
  · unfold tagOf
    cases e.ioBusy <;> by_cases hd : e.dirtyMask = ∅ <;> simp [hd, isBusy]
  · unfold tagOf
    cases e.ioBusy <;> by_cases hd : e.dirtyMask = ∅ <;> simp [hd, isDirty]

theorem SlotFits.empty {e : Entry α} {t : Tag} (hv : e.valid = false) (hb : e.ioBusy = false) (hd : e.dirtyMask = ∅)
    (ht : isHeld t = false) : SlotFits e t := by
  have h1 : isBusy t = false := by
    by_contra hb
    rw [isHeld_of_isBusy (Bool.not_eq_false _ ▸ hb)] at ht
    cases ht
  have h2 : isDirty t = false := by
    by_contra hb
    rw [isHeld_of_isDirty (Bool.not_eq_false _ ▸ hb)] at ht
    cases ht
  exact ⟨by rw [hv, ht], by simp [hv], by rw [hb, h1], by simp [hd, h2], by simp [hd], by simp [hv], by simp [hv]⟩

namespace Cache

def total (c : Cache α) (f : Entry α → Nat) : Nat := ∑ i ∈ Finset.range maxEntries, f (c.entries i)

def dirtyPage (e : Entry α) : Nat := if e.dirtyMask = ∅ then 0 else 1
def dirtySectors (e : Entry α) : Nat := e.dirtyMask.card
def dirtySectorsOn (d : Nat) (e : Entry α) : Nat := if e.device = d then e.dirtyMask.card else 0

structure Totals (c : Cache α) : Prop where
  entries : c.dirtyEntryCount = c.total dirtyPage
  sectors : c.dirtySectorCount = c.total dirtySectors
  device : ∀ d < maxDevices, c.dirtySectorsByDevice d = c.total (dirtySectorsOn d)

/-- The chains that start at the buckets, with exactly the slots `p` on the one their identity hashes to. -/
def ChainedFor (c : Cache α) (p : Nat → Prop) : Prop :=
  ∃ ch : Nat → List Nat, (∀ b, Chain c.next (c.buckets b) (ch b)) ∧
    ∀ b i, i ∈ ch b ↔ i < maxEntries ∧ p i ∧ bucketOf (c.entries i).device (c.entries i).page = b

/-- **What holds of the cache whenever its lock is free.** -/
structure Sound (c : Cache α) : Prop where
  index : c.index.Wf
  tags : ∀ i < maxEntries, SlotFits (c.entries i) (c.index.tag i)
  chained : c.ChainedFor (fun i => (c.entries i).valid = true)
  unique : ∀ i j, i < maxEntries → j < maxEntries → (c.entries i).valid = true → (c.entries j).valid = true →
    (c.entries i).device = (c.entries j).device → (c.entries i).page = (c.entries j).page → i = j
  totals : c.Totals

/-! ## Totals -/

theorem total_update {c c' : Cache α} {i : Nat} {e : Entry α} (hi : i < maxEntries)
    (he : c'.entries = Function.update c.entries i e) (f : Entry α → Nat) :
    c'.total f + f (c.entries i) = c.total f + f e := by
  unfold total
  have hm : i ∈ Finset.range maxEntries := Finset.mem_range.2 hi
  rw [he, ← Finset.add_sum_erase _ _ hm, ← Finset.add_sum_erase (Finset.range maxEntries) (fun j => f (c.entries j)) hm]
  have hrest : ∑ j ∈ (Finset.range maxEntries).erase i, f (Function.update c.entries i e j)
      = ∑ j ∈ (Finset.range maxEntries).erase i, f (c.entries j) := by
    refine Finset.sum_congr rfl (fun j hj => ?_)
    rw [Function.update_of_ne (Finset.ne_of_mem_erase hj)]
  rw [hrest, Function.update_self]
  omega

theorem le_total (c : Cache α) {i : Nat} (hi : i < maxEntries) (f : Entry α → Nat) : f (c.entries i) ≤ c.total f :=
  Finset.single_le_sum (f := fun j => f (c.entries j)) (fun _ _ => Nat.zero_le _) (Finset.mem_range.2 hi)

/-- The totals follow the change of one slot. -/
structure TotalsShift (c c' : Cache α) (old new : Entry α) : Prop where
  entries : Shifts (dirtyPage old) (dirtyPage new) c.dirtyEntryCount c'.dirtyEntryCount
  sectors : Shifts (dirtySectors old) (dirtySectors new) c.dirtySectorCount c'.dirtySectorCount
  device : ∀ d < maxDevices,
    Shifts (dirtySectorsOn d old) (dirtySectorsOn d new) (c.dirtySectorsByDevice d) (c'.dirtySectorsByDevice d)

theorem shifts_total {c c' : Cache α} {i a b : Nat} {e : Entry α} {f : Entry α → Nat} (hi : i < maxEntries)
    (he : c'.entries = Function.update c.entries i e) (ha : a = c.total f) (h : Shifts (f (c.entries i)) (f e) a b) :
    b = c'.total f := by
  have h1 := h (ha ▸ le_total c hi f)
  have h2 := total_update hi he f
  omega

theorem Totals.update {c c' : Cache α} {i : Nat} {e : Entry α} (h : c.Totals) (hi : i < maxEntries)
    (he : c'.entries = Function.update c.entries i e) (hs : TotalsShift c c' (c.entries i) e) : c'.Totals where
  entries := shifts_total hi he h.entries hs.entries
  sectors := shifts_total hi he h.sectors hs.sectors
  device := fun d hd => shifts_total hi he (h.device d hd) (hs.device d hd)

theorem TotalsShift.same {c c' : Cache α} {old new : Entry α} (hm : new.dirtyMask = old.dirtyMask)
    (hd : new.device = old.device ∨ new.dirtyMask = ∅) (h1 : c'.dirtyEntryCount = c.dirtyEntryCount)
    (h2 : c'.dirtySectorCount = c.dirtySectorCount) (h3 : c'.dirtySectorsByDevice = c.dirtySectorsByDevice) :
    TotalsShift c c' old new where
  entries := by simp [Shifts, dirtyPage, hm, h1]
  sectors := by simp [Shifts, dirtySectors, hm, h2]
  device := fun d _ => by
    rcases hd with hd | hd
    · simp [Shifts, dirtySectorsOn, hm, h3, hd]
    · rw [hm] at hd
      simp [Shifts, dirtySectorsOn, hm, h3, hd]

/-! ## Chains -/

theorem chain_length {c : Cache α} {ch : Nat → List Nat} {p : Nat → Prop}
    (hc : ∀ b, Chain c.next (c.buckets b) (ch b))
    (hm : ∀ b i, i ∈ ch b ↔ i < maxEntries ∧ p i ∧ bucketOf (c.entries i).device (c.entries i).page = b) (b : Nat) :
    (ch b).length ≤ maxEntries := by
  rw [← List.toFinset_card_of_nodup (hc b).nodup, ← Finset.card_range maxEntries]
  refine Finset.card_le_card (fun i hi => ?_)
  exact Finset.mem_range.2 ((hm b i).1 (List.mem_toFinset.1 hi)).1

/-- **`findEntry` finds a page exactly when some slot holds it.** -/
theorem Sound.findEntry_eq {c : Cache α} (h : c.Sound) (device page i : Nat) :
    c.findEntry device page = some i ↔
      i < maxEntries ∧ (c.entries i).valid = true ∧ (c.entries i).device = device ∧ (c.entries i).page = page := by
  obtain ⟨ch, hc, hm⟩ := h.chained
  unfold findEntry
  rw [(hc _).walk_eq (chain_length hc hm _)]
  constructor
  · intro hf
    have hp := List.find?_some hf
    have hmem := List.mem_of_find?_eq_some hf
    simp only [Bool.and_eq_true, beq_iff_eq] at hp
    exact ⟨((hm _ i).1 hmem).1, hp.1.1, hp.1.2, hp.2⟩
  · rintro ⟨hi, hv, rfl, rfl⟩
    have hmem : i ∈ ch (bucketOf (c.entries i).device (c.entries i).page) := (hm _ i).2 ⟨hi, hv, rfl⟩
    cases hf : (ch (bucketOf (c.entries i).device (c.entries i).page)).find? (fun j =>
        (c.entries j).valid && (c.entries j).device == (c.entries i).device && (c.entries j).page == (c.entries i).page) with
    | none =>
      have := List.find?_eq_none.1 hf i hmem
      simp [hv] at this
    | some j =>
      have hp := List.find?_some hf
      have hj := (hm _ j).1 (List.mem_of_find?_eq_some hf)
      simp only [Bool.and_eq_true, beq_iff_eq] at hp
      rw [h.unique j i hj.1 hi hp.1.1 hv hp.1.2 hp.2]

theorem Sound.findEntry_none {c : Cache α} (h : c.Sound) {device page : Nat} (hn : c.findEntry device page = none)
    {i : Nat} (hi : i < maxEntries) (hv : (c.entries i).valid = true) (hd : (c.entries i).device = device) :
    (c.entries i).page ≠ page := by
  intro hp
  have := (h.findEntry_eq device page i).2 ⟨hi, hv, hd, hp⟩
  rw [hn] at this
  cases this

theorem ChainedFor.unlinkEntry {c : Cache α} {p : Nat → Prop} (h : c.ChainedFor p) {i : Nat} (hi : i < maxEntries)
    (hp : p i) : (c.unlinkEntry i).ChainedFor (fun j => p j ∧ j ≠ i) := by
  obtain ⟨ch, hc, hm⟩ := h
  have hmem := (hm (bucketOf (c.entries i).device (c.entries i).page) i).2 ⟨hi, hp, rfl⟩
  obtain ⟨a, t, hat⟩ := List.append_of_mem hmem
  have hch := hc (bucketOf (c.entries i).device (c.entries i).page)
  have hlen := chain_length hc hm (bucketOf (c.entries i).device (c.entries i).page)
  rw [hat] at hch hlen
  have hpre := hch.predecessor_eq none hlen
  rw [Option.or_none] at hpre
  have heq : c.unlinkEntry i = c.cutOut i a.getLast? := by simp only [Cache.unlinkEntry, hpre]
  have hrem := hch.remove
  have hent : (c.unlinkEntry i).entries = c.entries := by
    rw [heq]
    cases a.getLast? <;> rfl
  have hia : i ∉ a ++ t := by
    have := hch.nodup
    rw [List.nodup_middle] at this
    exact (List.nodup_cons.1 this).1
  refine ⟨fun b => (ch b).erase i, fun b => ?_, fun b j => ?_⟩
  · rw [heq]
    beta_reduce
    by_cases hb : b = bucketOf (c.entries i).device (c.entries i).page
    · subst hb
      have he : (a ++ i :: t).erase i = a ++ t := by
        rw [List.erase_append_right _ (fun h => hia (by simp [h])), List.erase_cons_head]
      rw [hat, he]
      cases hl : a.getLast? with
      | none => simpa [hl, cutOut] using hrem
      | some p => simpa [hl, cutOut] using hrem
    · have hnot : ∀ j ∈ ch b, j ∉ a ++ i :: t := fun j hj hj' => by
        rw [← hat] at hj'
        exact hb (((hm b j).1 hj).2.2.symm.trans ((hm _ j).1 hj').2.2)
      have hib : i ∉ ch b := fun h => hnot i h (by simp)
      rw [List.erase_of_not_mem hib]
      cases hl : a.getLast? with
      | none =>
        simp only [cutOut, Function.update_of_ne hb]
        refine (hc b).frame (fun j hj => ?_)
        have hji : j ≠ i := fun h => hib (h ▸ hj)
        rw [Function.update_of_ne hji]
      | some p =>
        refine (hc b).frame (fun j hj => ?_)
        have hjp : j ≠ p := fun h => hnot j hj (by rw [h]; simp [List.mem_of_getLast? hl])
        have hji : j ≠ i := fun h => hib (h ▸ hj)
        simp only [cutOut]
        rw [Function.update_of_ne hji, Function.update_of_ne hjp]
  · rw [hent, (hc b).nodup.mem_erase_iff, hm]
    constructor
    · rintro ⟨h1, h2, h3, h4⟩
      exact ⟨h2, ⟨h3, h1⟩, h4⟩
    · rintro ⟨h2, ⟨h3, h1⟩, h4⟩
      exact ⟨h1, h2, h3, h4⟩

theorem ChainedFor.linkEntry {c : Cache α} {p : Nat → Prop} (h : c.ChainedFor p) {i : Nat} (hi : i < maxEntries)
    (hp : ¬ p i) : (c.linkEntry i).ChainedFor (fun j => p j ∨ j = i) := by
  obtain ⟨ch, hc, hm⟩ := h
  have hout : ∀ b, i ∉ ch b := fun b h => hp ((hm b i).1 h).2.1
  refine ⟨fun b => if b = bucketOf (c.entries i).device (c.entries i).page then i :: ch b else ch b, fun b => ?_,
    fun b j => ?_⟩
  · beta_reduce
    by_cases hb : b = bucketOf (c.entries i).device (c.entries i).page
    · rw [if_pos hb]
      subst hb
      simp only [Cache.linkEntry, Function.update_self]
      exact (hc _).push (hout _)
    · rw [if_neg hb]
      simp only [Cache.linkEntry, Function.update_of_ne hb]
      refine (hc b).frame (fun j hj => ?_)
      have hji : j ≠ i := fun h => hout b (h ▸ hj)
      rw [Function.update_of_ne hji]
  · have hent : (c.linkEntry i).entries = c.entries := rfl
    rw [hent]
    by_cases hji : j = i
    · subst hji
      by_cases hb : b = bucketOf (c.entries j).device (c.entries j).page
      · simp [hb, hi]
      · simp [hb, hout b, Ne.symm hb]
    · have : (j ∈ if b = bucketOf (c.entries i).device (c.entries i).page then i :: ch b else ch b) ↔ j ∈ ch b := by
        split
        · simp [hji]
        · rfl
      rw [this, hm]
      simp [hji]

theorem ChainedFor.congr {c c' : Cache α} {p p' : Nat → Prop} (h : c.ChainedFor p) (hn : c'.next = c.next)
    (hb : c'.buckets = c.buckets) (hp : ∀ i < maxEntries, p' i ↔ p i)
    (he : ∀ i < maxEntries, p i → (c'.entries i).device = (c.entries i).device ∧
      (c'.entries i).page = (c.entries i).page) : c'.ChainedFor p' := by
  obtain ⟨ch, hc, hm⟩ := h
  refine ⟨ch, fun b => by rw [hn, hb]; exact hc b, fun b i => ?_⟩
  rw [hm]
  constructor
  · rintro ⟨hi, h1, h2⟩
    rw [(he i hi h1).1, (he i hi h1).2]
    exact ⟨hi, (hp i hi).2 h1, h2⟩
  · rintro ⟨hi, h1, h2⟩
    have h1 := (hp i hi).1 h1
    rw [(he i hi h1).1, (he i hi h1).2] at h2
    exact ⟨hi, h1, h2⟩

/-! ## One slot at a time -/

/-- **A change of one slot that keeps its identity** keeps the cache sound when its tag and the totals follow. -/
theorem Sound.update {c c' : Cache α} (h : c.Sound) {i : Nat} (hi : i < maxEntries) {e : Entry α} {t : Tag}
    (he : c'.entries = Function.update c.entries i e) (hn : c'.next = c.next) (hb : c'.buckets = c.buckets)
    (hv : e.valid = (c.entries i).valid)
    (hid : e.valid = true → e.device = (c.entries i).device ∧ e.page = (c.entries i).page)
    (hx : c'.index.Wf) (ht : c'.index.tag = Function.update c.index.tag i t) (hf : SlotFits e t)
    (hs : TotalsShift c c' (c.entries i) e) : c'.Sound := by
  have hval : ∀ j, (c'.entries j).valid = (c.entries j).valid := by
    intro j
    rw [he]
    by_cases hj : j = i
    · subst hj
      rw [Function.update_self, hv]
    · rw [Function.update_of_ne hj]
  have hsame : ∀ j, (c.entries j).valid = true → (c'.entries j).device = (c.entries j).device ∧
      (c'.entries j).page = (c.entries j).page := by
    intro j hj
    rw [he]
    by_cases hji : j = i
    · subst hji
      rw [Function.update_self]
      exact hid (hv.trans hj)
    · rw [Function.update_of_ne hji]
      exact ⟨rfl, rfl⟩
  refine ⟨hx, fun j hj => ?_, ?_, ?_, h.totals.update hi he hs⟩
  · rw [he, ht]
    by_cases hji : j = i
    · subst hji
      rw [Function.update_self, Function.update_self]
      exact hf
    · rw [Function.update_of_ne hji, Function.update_of_ne hji]
      exact h.tags j hj
  · refine h.chained.congr hn hb (fun j _ => ?_) (fun j _ hj => hsame j hj)
    rw [hval j]
  · intro j k hj hk h1 h2 h3 h4
    rw [hval j] at h1
    rw [hval k] at h2
    rw [(hsame j h1).1, (hsame k h2).1] at h3
    rw [(hsame j h1).2, (hsame k h2).2] at h4
    exact h.unique j k hj hk h1 h2 h3 h4

theorem Sound.of_same {c c' : Cache α} (h : c.Sound) (he : c'.entries = c.entries) (hn : c'.next = c.next)
    (hb : c'.buckets = c.buckets) (hx : c'.index.Wf) (ht : c'.index.tag = c.index.tag)
    (h1 : c'.dirtyEntryCount = c.dirtyEntryCount) (h2 : c'.dirtySectorCount = c.dirtySectorCount)
    (h3 : c'.dirtySectorsByDevice = c.dirtySectorsByDevice) : c'.Sound := by
  refine ⟨hx, fun j hj => ?_, ?_, ?_, ?_⟩
  · rw [he, ht]
    exact h.tags j hj
  · refine h.chained.congr hn hb (fun j _ => ?_) (fun j _ _ => ?_) <;> rw [he]
    exact ⟨rfl, rfl⟩
  · rw [he]
    exact h.unique
  · have ht : ∀ f, c'.total f = c.total f := fun f => by rw [total, total, he]
    refine ⟨?_, ?_, fun d hd => ?_⟩
    · rw [h1, ht]
      exact h.totals.entries
    · rw [h2, ht]
      exact h.totals.sectors
    · rw [h3, ht]
      exact h.totals.device d hd

/-- **A slot that gives up its page**: off its chain, off its queue. -/
theorem Sound.drop {c c' : Cache α} (h : c.Sound) {i : Nat} (hi : i < maxEntries) {e : Entry α} {t : Tag}
    (hv : (c.entries i).valid = true) (hclean : (c.entries i).dirtyMask = ∅)
    (he : c'.entries = Function.update c.entries i e) (hn : c'.next = (c.unlinkEntry i).next)
    (hb : c'.buckets = (c.unlinkEntry i).buckets) (he1 : e.valid = false) (he2 : e.dirtyMask = ∅)
    (hx : c'.index.Wf) (ht : c'.index.tag = Function.update c.index.tag i t) (hf : SlotFits e t)
    (h1 : c'.dirtyEntryCount = c.dirtyEntryCount) (h2 : c'.dirtySectorCount = c.dirtySectorCount)
    (h3 : c'.dirtySectorsByDevice = c.dirtySectorsByDevice) : c'.Sound := by
  have hother : ∀ j, j ≠ i → c'.entries j = c.entries j := fun j hj => by rw [he, Function.update_of_ne hj]
  have hself : c'.entries i = e := by rw [he, Function.update_self]
  have hvalid : ∀ j, (c'.entries j).valid = true → j ≠ i := fun j hj hji => by
    rw [hji, hself, he1] at hj
    cases hj
  refine ⟨hx, fun j hj => ?_, ?_, ?_, ?_⟩
  · rw [ht]
    by_cases hji : j = i
    · subst hji
      rw [hself, Function.update_self]
      exact hf
    · rw [hother j hji, Function.update_of_ne hji]
      exact h.tags j hj
  · have hent : (c.unlinkEntry i).entries = c.entries := by
      unfold Cache.unlinkEntry cutOut
      dsimp only
      split
      · rfl
      · split <;> rfl
    refine (h.chained.unlinkEntry hi hv).congr hn hb (fun j _ => ⟨fun hj => ?_, fun hj => ?_⟩) (fun j _ hj => ?_)
    · exact ⟨by rwa [hother j (hvalid j hj)] at hj, hvalid j hj⟩
    · rw [hother j hj.2]
      exact hj.1
    · rw [hother j hj.2, hent]
      exact ⟨rfl, rfl⟩
  · intro j k hj hk hvj hvk
    have hjn := hvalid j hvj
    have hkn := hvalid k hvk
    rw [hother j hjn] at hvj ⊢
    rw [hother k hkn] at hvk ⊢
    exact h.unique j k hj hk hvj hvk
  · exact h.totals.update hi he (TotalsShift.same (by rw [he2, hclean]) (.inr he2) h1 h2 h3)

/-- **A slot that takes a page no other slot holds.** -/
theorem Sound.add {c c' : Cache α} (h : c.Sound) {i : Nat} (hi : i < maxEntries) {e : Entry α} {t : Tag}
    (hv : (c.entries i).valid = false) (hclean : (c.entries i).dirtyMask = ∅)
    (hfree : ∀ j < maxEntries, (c.entries j).valid = true → (c.entries j).device = e.device →
      (c.entries j).page ≠ e.page)
    (he : c'.entries = Function.update c.entries i e) (hn : c'.next = ((c.setEntry i e).linkEntry i).next)
    (hb : c'.buckets = ((c.setEntry i e).linkEntry i).buckets) (he1 : e.valid = true) (he2 : e.dirtyMask = ∅)
    (hx : c'.index.Wf) (ht : c'.index.tag = Function.update c.index.tag i t) (hf : SlotFits e t)
    (h1 : c'.dirtyEntryCount = c.dirtyEntryCount) (h2 : c'.dirtySectorCount = c.dirtySectorCount)
    (h3 : c'.dirtySectorsByDevice = c.dirtySectorsByDevice) : c'.Sound := by
  have hother : ∀ j, j ≠ i → c'.entries j = c.entries j := fun j hj => by rw [he, Function.update_of_ne hj]
  have hself : c'.entries i = e := by rw [he, Function.update_self]
  refine ⟨hx, fun j hj => ?_, ?_, ?_, ?_⟩
  · rw [ht]
    by_cases hji : j = i
    · subst hji
      rw [hself, Function.update_self]
      exact hf
    · rw [hother j hji, Function.update_of_ne hji]
      exact h.tags j hj
  · have hset : (c.setEntry i e).ChainedFor (fun j => (c.entries j).valid = true) := by
      refine h.chained.congr rfl rfl (fun j _ => Iff.rfl) (fun j _ hj => ?_)
      have hji : j ≠ i := fun hji => by
        rw [hji, hv] at hj
        cases hj
      simp [setEntry, hji]
    refine (hset.linkEntry hi (by simp [hv])).congr hn hb (fun j _ => ?_) (fun j _ _ => ?_)
    · by_cases hji : j = i
      · subst hji
        simp [hself, he1]
      · simp [hother j hji, hji]
    · have : ((c.setEntry i e).linkEntry i).entries = c'.entries := he.symm
      rw [this]
      exact ⟨rfl, rfl⟩
  · intro j k hj hk hvj hvk hd hp
    by_cases hji : j = i <;> by_cases hki : k = i
    · rw [hji, hki]
    · subst hji
      rw [hself] at hd hp
      rw [hother k hki] at hvk hd hp
      exact absurd hp.symm (hfree k hk hvk hd.symm)
    · subst hki
      rw [hself] at hd hp
      rw [hother j hji] at hvj hd hp
      exact absurd hp (hfree j hj hvj hd)
    · rw [hother j hji] at hvj hd hp
      rw [hother k hki] at hvk hd hp
      exact h.unique j k hj hk hvj hvk hd hp
  · exact h.totals.update hi he (TotalsShift.same (by rw [he2, hclean]) (.inr he2) h1 h2 h3)

theorem Sound.modify {c c' : Cache α} (h : c.Sound) {i : Nat} (hi : i < maxEntries) {e : Entry α}
    (he : c'.entries = Function.update c.entries i e) (hn : c'.next = c.next) (hb : c'.buckets = c.buckets)
    (hv : (c.entries i).valid = true) (hv' : e.valid = true) (hd : e.device = (c.entries i).device)
    (hp : e.page = (c.entries i).page) (hx : c'.index.Wf)
    (ht : c'.index.tag = Function.update c.index.tag i (tagOf e)) (hs : e.dirtyMask ⊆ e.validMask)
    (hpl : e.payload.isSome = true) (hts : TotalsShift c c' (c.entries i) e) : c'.Sound := by
  refine h.update hi he hn hb (by rw [hv, hv']) (fun _ => ⟨hd, hp⟩) hx ht ?_ hts
  refine SlotFits.of_tagOf hv' hs hpl ?_
  rw [hp]
  exact (h.tags i hi).aligned hv

theorem Sound.tag_eq {c : Cache α} (h : c.Sound) {i : Nat} (hi : i < maxEntries) (hv : (c.entries i).valid = true) :
    c.index.tag i = tagOf (c.entries i) := (h.tags i hi).eq_tagOf hv

theorem Sound.device_lt {c : Cache α} (h : c.Sound) {i : Nat} (hi : i < maxEntries)
    (hv : (c.entries i).valid = true) : (c.entries i).device < maxDevices := by
  have h1 := h.index.device_lt hi (by rw [← (h.tags i hi).held, hv])
  rwa [(h.tags i hi).device hv] at h1

theorem Sound.busy_valid {c : Cache α} (h : c.Sound) {i : Nat} (hi : i < maxEntries)
    (hb : (c.entries i).ioBusy = true) : (c.entries i).valid = true := by
  have ht := h.tags i hi
  rw [ht.busy] at hb
  rw [ht.held]
  exact isHeld_of_isBusy hb

theorem Sound.invalid {c : Cache α} (h : c.Sound) {i : Nat} (hi : i < maxEntries)
    (hv : (c.entries i).valid = false) : (c.entries i).ioBusy = false ∧ (c.entries i).dirtyMask = ∅ := by
  have ht := h.tags i hi
  have hh := ht.held
  rw [hv] at hh
  refine ⟨?_, ?_⟩
  · cases hb : (c.entries i).ioBusy with
    | false => rfl
    | true =>
      rw [isHeld_of_isBusy (ht.busy ▸ hb)] at hh
      cases hh
  · by_contra hd
    rw [isHeld_of_isDirty (ht.dirty.1 hd)] at hh
    cases hh

end Cache
end PageCache
end R4
