import R4Recovery.PageIndex
import Mathlib.Algebra.BigOperators.Group.Finset.Piecewise
import Mathlib.Data.Finset.Dedup
/-!
# PageIndexRun — the index through every sequence of operations

Every operation of the index moves one slot and shifts the counters with it; from that one fact the queues stay lists
of the slots tagged for them and the counters stay counts, whatever is called in whatever order.
-/
namespace R4
namespace PageIndex

open LinkedQueue

namespace Index

/-! ## The counters -/

def isFree (t : Tag) : Bool := t.queue = .free
def isBusy (t : Tag) : Bool := t.queue = .busyClean ∨ t.queue = .busyDirty
def isClean (t : Tag) : Bool := t.queue = .clean ∨ t.queue = .busyClean
def isDirty (t : Tag) : Bool := t.queue = .dirty ∨ t.queue = .busyDirty

/-- The slot stands for a page: queued on a device or pinned. -/
def isHeld (t : Tag) : Bool := isClean t || isDirty t

/-- How many of the 512 slots have a tag like `p`. -/
def tally (tag : Nat → Tag) (p : Tag → Bool) : Nat := ((Finset.range maxEntries).filter (fun i => p (tag i))).card

theorem tally_update {tag : Nat → Tag} {i : Nat} (hi : i < maxEntries) (t : Tag) (p : Tag → Bool) :
    tally (Function.update tag i t) p + (p (tag i)).toNat = tally tag p + (p t).toNat := by
  unfold tally
  rw [Finset.card_filter, Finset.card_filter]
  have hm : i ∈ Finset.range maxEntries := Finset.mem_range.2 hi
  rw [← Finset.add_sum_erase _ _ hm, ← Finset.add_sum_erase (Finset.range maxEntries) (fun j => if p (tag j) then 1 else 0) hm]
  have hrest : ∑ j ∈ (Finset.range maxEntries).erase i, (if p (Function.update tag i t j) = true then 1 else 0)
      = ∑ j ∈ (Finset.range maxEntries).erase i, (if p (tag j) = true then 1 else 0) := by
    refine Finset.sum_congr rfl (fun j hj => ?_)
    rw [Function.update_of_ne (Finset.ne_of_mem_erase hj)]
  rw [hrest, Function.update_self]
  generalize ∑ j ∈ (Finset.range maxEntries).erase i, (if p (tag j) = true then 1 else 0) = others
  cases p (tag i) <;> cases p t <;> simp only [Bool.toNat_true, Bool.toNat_false, if_true, Bool.false_eq_true, if_false] <;> omega

theorem le_tally {tag : Nat → Tag} {i : Nat} (hi : i < maxEntries) (p : Tag → Bool) : (p (tag i)).toNat ≤ tally tag p := by
  cases hp : p (tag i) with
  | false => exact Nat.zero_le _
  | true =>
    refine Finset.card_pos.2 ⟨i, ?_⟩
    simp [hi, hp]

/-- One device's share of the counters. -/
structure Counts where
  entries : Nat
  clean : Nat
  dirty : Nat
  busyDirty : Nat

def counts (x : Index) (d : Nat) : Counts :=
  ⟨(x.devices d).entries, (x.devices d).clean, (x.devices d).dirty, (x.devices d).busyDirty⟩

def weight (d : Nat) (t : Tag) : Counts :=
  ⟨(decide (t.device = d) && isHeld t).toNat, (decide (t.device = d) && isClean t).toNat,
    (decide (t.device = d) && isDirty t).toNat, (decide (t.device = d) && decide (t.queue = .busyDirty)).toNat⟩

/-- **The counters count**: the free and pinned slots, and for each device its slots, the clean and the dirty ones
(pinned or not) and the pinned dirty ones. -/
structure Counted (x : Index) : Prop where
  free : x.freeCount = tally x.tag isFree
  busy : x.busyCount = tally x.tag isBusy
  entries : ∀ d < maxDevices, (x.devices d).entries = tally x.tag (fun t => decide (t.device = d) && isHeld t)
  clean : ∀ d < maxDevices, (x.devices d).clean = tally x.tag (fun t => decide (t.device = d) && isClean t)
  dirty : ∀ d < maxDevices, (x.devices d).dirty = tally x.tag (fun t => decide (t.device = d) && isDirty t)
  busyDirty : ∀ d < maxDevices,
    (x.devices d).busyDirty = tally x.tag (fun t => decide (t.device = d) && decide (t.queue = .busyDirty))

/-- A counter that gives up what the old tag weighed and takes what the new one does. -/
def Shifts (old new a b : Nat) : Prop := old ≤ a → b + old = a + new

structure CountsShift (old new a b : Counts) : Prop where
  entries : Shifts old.entries new.entries a.entries b.entries
  clean : Shifts old.clean new.clean a.clean b.clean
  dirty : Shifts old.dirty new.dirty a.dirty b.dirty
  busyDirty : Shifts old.busyDirty new.busyDirty a.busyDirty b.busyDirty

/-- **What an operation does**: it moves slot `i` to the tag `t`, and the counters follow. -/
structure Moved (x y : Index) (i : Nat) (t : Tag) (front : Bool) : Prop where
  lists : SameLists y (x.relocate i t front)
  free : Shifts (isFree (x.tag i)).toNat (isFree t).toNat x.freeCount y.freeCount
  busy : Shifts (isBusy (x.tag i)).toNat (isBusy t).toNat x.busyCount y.busyCount
  counts : ∀ d < maxDevices, CountsShift (weight d (x.tag i)) (weight d t) (x.counts d) (y.counts d)

theorem Moved.tag {x y : Index} {i : Nat} {t : Tag} {front : Bool} (h : Moved x y i t front) :
    y.tag = Function.update x.tag i t := by
  rw [h.lists.tag, tag_relocate]

theorem Shifts.tally {tag : Nat → Tag} {i a b : Nat} {t : Tag} {p : Tag → Bool} (hi : i < maxEntries)
    (ha : a = tally tag p) (h : Shifts (p (tag i)).toNat (p t).toNat a b) :
    b = Index.tally (Function.update tag i t) p := by
  have h1 := h (ha ▸ le_tally hi p)
  have h2 : Index.tally (Function.update tag i t) p + _ = _ := tally_update hi t p
  rw [ha] at h1
  omega

theorem Moved.counted {x y : Index} {i : Nat} {t : Tag} {front : Bool} (h : Moved x y i t front)
    (hi : i < maxEntries) (hc : Counted x) : Counted y := by
  refine ⟨?_, ?_, fun d hd => ?_, fun d hd => ?_, fun d hd => ?_, fun d hd => ?_⟩ <;> rw [h.tag]
  · exact h.free.tally hi hc.free
  · exact h.busy.tally hi hc.busy
  · exact Shifts.tally (p := fun t => decide (t.device = d) && isHeld t) hi (hc.entries d hd) (h.counts d hd).entries
  · exact Shifts.tally (p := fun t => decide (t.device = d) && isClean t) hi (hc.clean d hd) (h.counts d hd).clean
  · exact Shifts.tally (p := fun t => decide (t.device = d) && isDirty t) hi (hc.dirty d hd) (h.counts d hd).dirty
  · exact Shifts.tally (p := fun t => decide (t.device = d) && decide (t.queue = .busyDirty)) hi (hc.busyDirty d hd)
      (h.counts d hd).busyDirty

/-- **The representation invariant**, with the lists it is about. -/
structure Rep (x : Index) (q : Name → List Nat) : Prop where
  lists : Lists x q
  counted : Counted x
  device_lt : ∀ i < maxEntries, isHeld (x.tag i) = true → (x.tag i).device < maxDevices

theorem Rep.moved {x y : Index} {q : Name → List Nat} {i : Nat} {t : Tag} {front : Bool} (h : Rep x q)
    (hi : i < maxEntries) (hm : Moved x y i t front) (hd : isHeld t = true → t.device < maxDevices) :
    Rep y (requeue q i t front) where
  lists := hm.lists.lists (h.lists.relocate hi t front)
  counted := hm.counted hi h.counted
  device_lt := fun j hj => by
    rw [hm.tag]
    by_cases hji : j = i
    · subst hji
      rw [Function.update_self]
      exact hd
    · rw [Function.update_of_ne hji]
      exact h.device_lt j hj

/-- Some lists make `x` well formed. -/
def Wf (x : Index) : Prop := ∃ q, Rep x q

theorem Wf.moved {x y : Index} {i : Nat} {t : Tag} {front : Bool} (h : Wf x) (hi : i < maxEntries)
    (hm : Moved x y i t front) (hd : isHeld t = true → t.device < maxDevices) : Wf y := by
  obtain ⟨q, hq⟩ := h
  exact ⟨_, hq.moved hi hm hd⟩

/-! ## What each operation moves -/

@[simp] theorem counts_setEnds (x : Index) (e : Ends Nat) (nm : Name) : (x.setEnds e nm).counts = x.counts := by
  funext d
  cases nm with
  | free => rfl
  | clean d' =>
    by_cases h : d = d'
    · subst h; simp [setEnds, counts, onDevice]
    · simp [setEnds, counts, onDevice, h]
  | dirty d' =>
    by_cases h : d = d'
    · subst h; simp [setEnds, counts, onDevice]
    · simp [setEnds, counts, onDevice, h]

@[simp] theorem freeCount_setEnds (x : Index) (e : Ends Nat) (nm : Name) :
    (x.setEnds e nm).freeCount = x.freeCount := by cases nm <;> rfl

@[simp] theorem busyCount_setEnds (x : Index) (e : Ends Nat) (nm : Name) :
    (x.setEnds e nm).busyCount = x.busyCount := by cases nm <;> rfl

@[simp] theorem counts_unlinkFrom (x : Index) (nm : Name) (i : Nat) : (x.unlinkFrom nm i).counts = x.counts :=
  counts_setEnds _ _ _

@[simp] theorem counts_linkLast (x : Index) (nm : Name) (i : Nat) : (x.linkLast nm i).counts = x.counts :=
  counts_setEnds _ _ _

@[simp] theorem counts_linkFirst (x : Index) (nm : Name) (i : Nat) : (x.linkFirst nm i).counts = x.counts :=
  counts_setEnds _ _ _

@[simp] theorem counts_retag (x : Index) (i : Nat) (t : Tag) : (x.retag i t).counts = x.counts := rfl

theorem counts_onDevice (x : Index) (d : Nat) (f : Device → Device) (g : Counts → Counts)
    (h : ∀ v : Device, (⟨(f v).entries, (f v).clean, (f v).dirty, (f v).busyDirty⟩ : Counts)
      = g ⟨v.entries, v.clean, v.dirty, v.busyDirty⟩) :
    (x.onDevice d f).counts = Function.update x.counts d (g (x.counts d)) := by
  funext d'
  by_cases hd : d' = d
  · subst hd
    rw [Function.update_self]
    simp only [counts, onDevice, Function.update_self]
    exact h _
  · rw [Function.update_of_ne hd]
    simp [counts, onDevice, hd]

@[simp] theorem freeCount_unlinkFrom (x : Index) (nm : Name) (i : Nat) : (x.unlinkFrom nm i).freeCount = x.freeCount :=
  freeCount_setEnds _ _ _

@[simp] theorem freeCount_linkLast (x : Index) (nm : Name) (i : Nat) : (x.linkLast nm i).freeCount = x.freeCount :=
  freeCount_setEnds _ _ _

@[simp] theorem freeCount_linkFirst (x : Index) (nm : Name) (i : Nat) : (x.linkFirst nm i).freeCount = x.freeCount :=
  freeCount_setEnds _ _ _

@[simp] theorem busyCount_unlinkFrom (x : Index) (nm : Name) (i : Nat) : (x.unlinkFrom nm i).busyCount = x.busyCount :=
  busyCount_setEnds _ _ _

@[simp] theorem busyCount_linkLast (x : Index) (nm : Name) (i : Nat) : (x.linkLast nm i).busyCount = x.busyCount :=
  busyCount_setEnds _ _ _

@[simp] theorem busyCount_linkFirst (x : Index) (nm : Name) (i : Nat) : (x.linkFirst nm i).busyCount = x.busyCount :=
  busyCount_setEnds _ _ _

theorem countsShift_update {x : Index} {c : Nat → Counts} {d : Nat} {g : Counts → Counts} {old new : Tag}
    (hc : c = Function.update x.counts d (g (x.counts d))) (ho : isHeld old = true → old.device = d)
    (hn : isHeld new = true → new.device = d)
    (hg : CountsShift (weight d old) (weight d new) (x.counts d) (g (x.counts d))) :
    ∀ d' < maxDevices, CountsShift (weight d' old) (weight d' new) (x.counts d') (c d') := by
  intro d' _
  by_cases hd : d' = d
  · subst hd
    rw [hc, Function.update_self]
    exact hg
  · have hz : ∀ t : Tag, (isHeld t = true → t.device = d) → weight d' t = ⟨0, 0, 0, 0⟩ := by
      rintro ⟨dev, q⟩ ht
      cases q <;> simp_all [weight, isHeld, isClean, isDirty] <;> exact fun h => hd (h ▸ rfl)
    rw [hc, Function.update_of_ne hd, hz old ho, hz new hn]
    constructor <;> simp [Shifts]

@[simp] theorem freeCount_onDevice (x : Index) (d : Nat) (f : Device → Device) :
    (x.onDevice d f).freeCount = x.freeCount := rfl

@[simp] theorem busyCount_onDevice (x : Index) (d : Nat) (f : Device → Device) :
    (x.onDevice d f).busyCount = x.busyCount := rfl

@[simp] theorem freeCount_retag (x : Index) (i : Nat) (t : Tag) : (x.retag i t).freeCount = x.freeCount := rfl
@[simp] theorem busyCount_retag (x : Index) (i : Nat) (t : Tag) : (x.retag i t).busyCount = x.busyCount := rfl
@[simp] theorem counts_onBusy (x : Index) (f : Nat → Nat) : (x.onBusy f).counts = x.counts := rfl
@[simp] theorem freeCount_onBusy (x : Index) (f : Nat → Nat) : (x.onBusy f).freeCount = x.freeCount := rfl
@[simp] theorem busyCount_onBusy (x : Index) (f : Nat → Nat) : (x.onBusy f).busyCount = f x.busyCount := rfl

theorem SameLists.onBusy {x y : Index} (h : SameLists x y) (f : Nat → Nat) : SameLists (x.onBusy f) y := by
  refine ⟨h.1, ?_⟩
  rw [← h.2]
  funext nm
  cases nm <;> rfl

theorem SameLists.link {x y : Index} (h : SameLists x y) (front : Bool) (nm : Name) (i : Nat) :
    SameLists (x.link front nm i) (y.link front nm i) := by
  cases front with
  | true => exact h.linkFirst nm i
  | false => exact h.linkLast nm i

@[simp] theorem counts_link (x : Index) (front : Bool) (nm : Name) (i : Nat) : (x.link front nm i).counts = x.counts := by
  cases front <;> simp [link]

@[simp] theorem freeCount_link (x : Index) (front : Bool) (nm : Name) (i : Nat) :
    (x.link front nm i).freeCount = x.freeCount := by
  cases front <;> simp [link]

@[simp] theorem busyCount_link (x : Index) (front : Bool) (nm : Name) (i : Nat) :
    (x.link front nm i).busyCount = x.busyCount := by
  cases front <;> simp [link]

theorem pin_clean {x : Index} {i d : Nat} (hi : i < maxEntries) (ht : x.tag i = ⟨d, .clean⟩) :
    (x.pin i).2 = true ∧ Moved x (x.pin i).1 i ⟨d, .busyClean⟩ false := by
  have e : x.pin i = (((x.unlinkFrom (.clean d) i).retag i ⟨d, .busyClean⟩).onBusy (· + 1), true) := by
    simp [pin, hi, ht, unlinkClean, setQueue]
  have r : x.relocate i ⟨d, .busyClean⟩ false = (x.unlinkFrom (.clean d) i).retag i ⟨d, .busyClean⟩ := by
    simp [relocate, takeOut, putIn, ht, name]
  rw [e]
  refine ⟨rfl, ⟨?_, by simp [Shifts, ht, isFree], by simp [Shifts, ht, isBusy], ?_⟩⟩
  · rw [r]
    exact SameLists.rfl.onBusy _
  · refine countsShift_update (g := id) (d := d) (by simp) (by simp [ht]) (by simp) ?_
    constructor <;> simp [Shifts, ht, weight, isHeld, isClean, isDirty]

theorem pin_dirty {x : Index} {i d : Nat} (hi : i < maxEntries) (ht : x.tag i = ⟨d, .dirty⟩) :
    (x.pin i).2 = true ∧ Moved x (x.pin i).1 i ⟨d, .busyDirty⟩ false := by
  have e : x.pin i = ((((x.unlinkFrom (.dirty d) i).retag i ⟨d, .busyDirty⟩).onDevice d
      (fun v => { v with busyDirty := v.busyDirty + 1 })).onBusy (· + 1), true) := by
    simp [pin, hi, ht, unlinkDirty, setQueue]
  have r : x.relocate i ⟨d, .busyDirty⟩ false = (x.unlinkFrom (.dirty d) i).retag i ⟨d, .busyDirty⟩ := by
    simp [relocate, takeOut, putIn, ht, name]
  rw [e]
  refine ⟨rfl, ⟨?_, by simp [Shifts, ht, isFree], by simp [Shifts, ht, isBusy], ?_⟩⟩
  · rw [r]
    refine SameLists.onBusy ?_ _
    exact SameLists.onDevice SameLists.rfl d _ (fun _ => rfl) (fun _ => rfl)
  · refine countsShift_update (g := fun c => { c with busyDirty := c.busyDirty + 1 }) (d := d) ?_ (by simp [ht])
      (by simp) ?_
    · rw [counts_onBusy, counts_onDevice _ _ _ (fun c => { c with busyDirty := c.busyDirty + 1 }) (fun _ => rfl)]
      simp
    · constructor <;> simp [Shifts, ht, weight, isHeld, isClean, isDirty]

theorem unpin_clean {x : Index} {i d : Nat} (hi : i < maxEntries) (ht : x.tag i = ⟨d, .busyClean⟩) (oldest : Bool) :
    (x.unpin i oldest).2 = true ∧ Moved x (x.unpin i oldest).1 i ⟨d, .clean⟩ false := by
  have e : x.unpin i oldest = (((x.retag i ⟨d, .clean⟩).linkLast (.clean d) i).onBusy (· - 1), true) := by
    simp [unpin, hi, ht, linkCleanTail, setQueue]
  have r : x.relocate i ⟨d, .clean⟩ false = (x.retag i ⟨d, .clean⟩).linkLast (.clean d) i := by
    simp [relocate, takeOut, putIn, ht, name, link]
  rw [e]
  refine ⟨rfl, ⟨?_, by simp [Shifts, ht, isFree], ?_, ?_⟩⟩
  · rw [r]
    exact SameLists.rfl.onBusy _
  · simp only [Shifts, ht, isBusy]
    simp
    omega
  · refine countsShift_update (g := id) (d := d) (by simp) (by simp [ht]) (by simp) ?_
    constructor <;> simp [Shifts, ht, weight, isHeld, isClean, isDirty]

theorem unpin_dirty {x : Index} {i d : Nat} (hi : i < maxEntries) (ht : x.tag i = ⟨d, .busyDirty⟩) (oldest : Bool) :
    (x.unpin i oldest).2 = true ∧ Moved x (x.unpin i oldest).1 i ⟨d, .dirty⟩ oldest := by
  have e : x.unpin i oldest = ((((x.onDevice d (fun v => { v with busyDirty := v.busyDirty - 1 })).retag i
      ⟨d, .dirty⟩).link oldest (.dirty d) i).onBusy (· - 1), true) := by
    cases oldest <;> simp [unpin, hi, ht, linkDirtyHead, linkDirtyTail, link, setQueue]
  have r : x.relocate i ⟨d, .dirty⟩ oldest = (x.retag i ⟨d, .dirty⟩).link oldest (.dirty d) i := by
    simp [relocate, takeOut, putIn, ht, name]
  rw [e]
  refine ⟨rfl, ⟨?_, by simp [Shifts, ht, isFree], ?_, ?_⟩⟩
  · rw [r]
    refine SameLists.onBusy (SameLists.link (SameLists.retag ?_ i _) oldest _ i) _
    exact SameLists.onDevice SameLists.rfl d _ (fun _ => rfl) (fun _ => rfl)
  · simp only [Shifts, ht, isBusy]
    simp
    omega
  · refine countsShift_update (g := fun c => { c with busyDirty := c.busyDirty - 1 }) (d := d) ?_ (by simp [ht])
      (by simp) ?_
    · rw [counts_onBusy, counts_link, counts_retag,
        counts_onDevice x d _ (fun c => { c with busyDirty := c.busyDirty - 1 }) (fun _ => rfl)]
    · constructor <;> simp [Shifts, ht, weight, isHeld, isClean, isDirty] <;> omega

theorem attachClean_moved {x : Index} {i d e : Nat} (hi : i < maxEntries) (hd : d < maxDevices)
    (ht : x.tag i = ⟨e, .detached⟩) :
    (x.attachClean i d).2 = true ∧ Moved x (x.attachClean i d).1 i ⟨d, .clean⟩ false := by
  have h2 : (x.retag i ⟨d, .detached⟩).retag i ⟨d, .clean⟩ = x.retag i ⟨d, .clean⟩ := by
    simp [retag, setData]
  have e : x.attachClean i d = (((x.retag i ⟨d, .clean⟩).linkLast (.clean d) i).onDevice d
      (fun v => { v with entries := v.entries + 1, clean := v.clean + 1 }), true) := by
    simp [attachClean, hi, hd, ht, setQueue, linkCleanTail, h2]
  have r : x.relocate i ⟨d, .clean⟩ false = (x.retag i ⟨d, .clean⟩).linkLast (.clean d) i := by
    simp [relocate, takeOut, putIn, ht, name, link]
  rw [e]
  refine ⟨rfl, ⟨?_, by simp [Shifts, ht, isFree], by simp [Shifts, ht, isBusy], ?_⟩⟩
  · rw [r]
    exact SameLists.onDevice SameLists.rfl d _ (fun _ => rfl) (fun _ => rfl)
  · refine countsShift_update (g := fun c => { c with entries := c.entries + 1, clean := c.clean + 1 }) (d := d) ?_
      (by simp [ht, isHeld, isClean, isDirty]) (by simp) ?_
    · rw [counts_onDevice _ _ _ (fun c => { c with entries := c.entries + 1, clean := c.clean + 1 }) (fun _ => rfl)]
      simp
    · constructor <;> simp [Shifts, ht, weight, isHeld, isClean, isDirty]

theorem retag_tag (x : Index) (i : Nat) : x.retag i (x.tag i) = x := by
  rw [retag, tag, setData_self]

theorem touchClean_moved {x : Index} {i d : Nat} (hi : i < maxEntries) (ht : x.tag i = ⟨d, .clean⟩) :
    x.touchClean i = x ∨ Moved x (x.touchClean i) i ⟨d, .clean⟩ false := by
  by_cases htail : (x.devices d).cleanList.tail = some i
  · exact .inl (by simp [touchClean, hi, ht, htail])
  · refine .inr ?_
    have e : x.touchClean i = (x.unlinkFrom (.clean d) i).linkLast (.clean d) i := by
      simp [touchClean, hi, ht, htail, unlinkClean, linkCleanTail]
    have hsame : (x.unlinkFrom (.clean d) i).retag i ⟨d, .clean⟩ = x.unlinkFrom (.clean d) i := by
      have h := (x.unlinkFrom (.clean d) i).retag_tag i
      rwa [tag_unlinkFrom, ht] at h
    have r : x.relocate i ⟨d, .clean⟩ false = (x.unlinkFrom (.clean d) i).linkLast (.clean d) i := by
      simp [relocate, takeOut, putIn, ht, name, link, hsame]
    rw [e]
    refine ⟨by rw [r]; exact SameLists.rfl, by simp [Shifts, ht], by simp [Shifts, ht], ?_⟩
    refine countsShift_update (g := id) (d := d) (by simp) (by simp [ht]) (by simp) ?_
    constructor <;> simp [Shifts, ht]

theorem counts_raisePressure (v : Device) : (⟨(raisePressure v).entries, (raisePressure v).clean,
    (raisePressure v).dirty, (raisePressure v).busyDirty⟩ : Counts) = ⟨v.entries, v.clean, v.dirty, v.busyDirty⟩ := by
  unfold raisePressure
  dsimp only
  split <;> split <;> rfl

theorem lists_raisePressure (v : Device) :
    (raisePressure v).cleanList = v.cleanList ∧ (raisePressure v).dirtyList = v.dirtyList := by
  unfold raisePressure
  dsimp only
  split <;> split <;> exact ⟨rfl, rfl⟩

theorem counts_dropPressure (v : Device) : (⟨(dropPressure v).entries, (dropPressure v).clean, (dropPressure v).dirty,
    (dropPressure v).busyDirty⟩ : Counts) = ⟨v.entries, v.clean, v.dirty, v.busyDirty⟩ := by
  unfold dropPressure
  split <;> rfl

theorem lists_dropPressure (v : Device) :
    (dropPressure v).cleanList = v.cleanList ∧ (dropPressure v).dirtyList = v.dirtyList := by
  unfold dropPressure
  split <;> exact ⟨rfl, rfl⟩

theorem markDirty_moved {x : Index} {i d : Nat} (hi : i < maxEntries) (ht : x.tag i = ⟨d, .clean⟩) :
    (x.markDirty i).2 = true ∧ Moved x (x.markDirty i).1 i ⟨d, .dirty⟩ false := by
  have e : x.markDirty i = ((((x.unlinkFrom (.clean d) i).onDevice d
      (fun v => raisePressure { v with clean := v.clean - 1, dirty := v.dirty + 1 })).retag i
      ⟨d, .dirty⟩).linkLast (.dirty d) i, true) := by
    simp [markDirty, hi, ht, unlinkClean, linkDirtyTail, setQueue]
  have r : x.relocate i ⟨d, .dirty⟩ false
      = ((x.unlinkFrom (.clean d) i).retag i ⟨d, .dirty⟩).linkLast (.dirty d) i := by
    simp [relocate, takeOut, putIn, ht, name, link]
  rw [e]
  refine ⟨rfl, ⟨?_, by simp [Shifts, ht, isFree], by simp [Shifts, ht, isBusy], ?_⟩⟩
  · rw [r]
    refine SameLists.linkLast (SameLists.retag ?_ i _) _ i
    exact SameLists.onDevice SameLists.rfl d _ (fun v => (lists_raisePressure _).1) (fun v => (lists_raisePressure _).2)
  · refine countsShift_update (g := fun c => { c with clean := c.clean - 1, dirty := c.dirty + 1 }) (d := d) ?_
      (by simp [ht]) (by simp) ?_
    · rw [counts_linkLast, counts_retag, counts_onDevice _ d _ (fun c => { c with clean := c.clean - 1, dirty := c.dirty + 1 })
        (fun v => counts_raisePressure _)]
      simp
    · constructor <;> simp [Shifts, ht, weight, isHeld, isClean, isDirty] <;> omega

theorem clearDirty_dirty {x : Index} {i d : Nat} (hi : i < maxEntries) (ht : x.tag i = ⟨d, .dirty⟩) :
    Moved x (x.clearDirty i).1 i ⟨d, .clean⟩ false := by
  have e : (x.clearDirty i).1 = (((x.unlinkFrom (.dirty d) i).onDevice d
      (fun v => dropPressure { v with dirty := v.dirty - 1, clean := v.clean + 1 })).retag i
      ⟨d, .clean⟩).linkLast (.clean d) i := by
    simp [clearDirty, hi, ht, unlinkDirty, linkCleanTail, setQueue]
  have r : x.relocate i ⟨d, .clean⟩ false
      = ((x.unlinkFrom (.dirty d) i).retag i ⟨d, .clean⟩).linkLast (.clean d) i := by
    simp [relocate, takeOut, putIn, ht, name, link]
  rw [e]
  refine ⟨?_, by simp [Shifts, ht, isFree], by simp [Shifts, ht, isBusy], ?_⟩
  · rw [r]
    refine SameLists.linkLast (SameLists.retag ?_ i _) _ i
    exact SameLists.onDevice SameLists.rfl d _ (fun v => (lists_dropPressure _).1) (fun v => (lists_dropPressure _).2)
  · refine countsShift_update (g := fun c => { c with dirty := c.dirty - 1, clean := c.clean + 1 }) (d := d) ?_
      (by simp [ht]) (by simp) ?_
    · rw [counts_linkLast, counts_retag, counts_onDevice _ d _ (fun c => { c with dirty := c.dirty - 1, clean := c.clean + 1 })
        (fun v => counts_dropPressure _)]
      simp
    · constructor <;> simp [Shifts, ht, weight, isHeld, isClean, isDirty] <;> omega

theorem clearDirty_busy {x : Index} {i d : Nat} (hi : i < maxEntries) (ht : x.tag i = ⟨d, .busyDirty⟩) :
    Moved x (x.clearDirty i).1 i ⟨d, .busyClean⟩ false := by
  have e : (x.clearDirty i).1 = ((x.onDevice d (fun v => { v with busyDirty := v.busyDirty - 1 })).onDevice d
      (fun v => dropPressure { v with dirty := v.dirty - 1, clean := v.clean + 1 })).retag i ⟨d, .busyClean⟩ := by
    simp [clearDirty, hi, ht, setQueue]
  have r : x.relocate i ⟨d, .busyClean⟩ false = x.retag i ⟨d, .busyClean⟩ := by
    simp [relocate, takeOut, putIn, ht, name]
  rw [e]
  refine ⟨?_, by simp [Shifts, ht, isFree], by simp [Shifts, ht, isBusy], ?_⟩
  · rw [r]
    refine SameLists.retag ?_ i _
    refine SameLists.onDevice ?_ d _ (fun v => (lists_dropPressure _).1) (fun v => (lists_dropPressure _).2)
    exact SameLists.onDevice SameLists.rfl d _ (fun _ => rfl) (fun _ => rfl)
  · refine countsShift_update
      (g := fun c => { c with busyDirty := c.busyDirty - 1, dirty := c.dirty - 1, clean := c.clean + 1 }) (d := d) ?_
      (by simp [ht]) (by simp) ?_
    · rw [counts_retag, counts_onDevice _ d _ (fun c => { c with dirty := c.dirty - 1, clean := c.clean + 1 })
          (fun v => counts_dropPressure _),
        counts_onDevice _ d _ (fun c => { c with busyDirty := c.busyDirty - 1 }) (fun _ => rfl)]
      simp
    · constructor <;> simp [Shifts, ht, weight, isHeld, isClean, isDirty] <;> omega

theorem reset_unlinked (x : Index) (nm : Name) (i : Nat) :
    Function.update (x.unlinkFrom nm i).links i Link.empty = ((x.unlinkFrom nm i).retag i {}).links := by
  funext j
  by_cases hj : j = i
  · subst hj
    have hp := unlink_prev x.links (x.ends nm) j j
    have hn := unlink_next x.links (x.ends nm) j j
    rw [if_pos rfl] at hp hn
    simp only [Function.update_self, retag, setData, links_unlinkFrom, hp, hn]
    rfl
  · simp [retag, setData, hj]

theorem detach_clean {x : Index} {i d : Nat} (hi : i < maxEntries) (ht : x.tag i = ⟨d, .clean⟩) :
    (x.detach i).2 = true ∧ Moved x (x.detach i).1 i {} false := by
  have r : x.relocate i {} false = (x.unlinkFrom (.clean d) i).retag i {} := by
    simp [relocate, takeOut, putIn, ht, name]
  refine ⟨by simp [detach, hi, ht], ⟨?_, ?_, ?_, ?_⟩⟩
  · rw [r]
    refine ⟨?_, ?_⟩
    · simpa [detach, hi, ht, unlinkClean] using reset_unlinked x (.clean d) i
    · simp only [detach, hi, ht, not_true_eq_false, if_false, ends_setLinks, ends_retag]
      rw [ends_onDevice, ends_onDevice] <;> intros <;> rfl
  · simp [detach, hi, ht, unlinkClean, Shifts, isFree]
  · simp [detach, hi, ht, unlinkClean, Shifts, isBusy]
  · refine countsShift_update (g := fun c => { c with clean := c.clean - 1, entries := c.entries - 1 }) (d := d) ?_
      (by simp [ht]) (by simp [isHeld, isClean, isDirty]) ?_
    · have e : (x.detach i).1.counts = (((x.unlinkFrom (.clean d) i).onDevice d
          (fun v => { v with clean := v.clean - 1 })).onDevice d (fun v => { v with entries := v.entries - 1 })).counts := by
        simp only [detach, hi, ht, not_true_eq_false, if_false]
        rfl
      rw [e, counts_onDevice _ d _ (fun c => { c with entries := c.entries - 1 }) (fun _ => rfl),
        counts_onDevice _ d _ (fun c => { c with clean := c.clean - 1 }) (fun _ => rfl)]
      simp
    · constructor <;> simp [Shifts, ht, weight, isHeld, isClean, isDirty] <;> omega

theorem detach_dirty {x : Index} {i d : Nat} (hi : i < maxEntries) (ht : x.tag i = ⟨d, .dirty⟩) :
    (x.detach i).2 = true ∧ Moved x (x.detach i).1 i {} false := by
  have r : x.relocate i {} false = (x.unlinkFrom (.dirty d) i).retag i {} := by
    simp [relocate, takeOut, putIn, ht, name]
  refine ⟨by simp [detach, hi, ht], ⟨?_, ?_, ?_, ?_⟩⟩
  · rw [r]
    refine ⟨?_, ?_⟩
    · simpa [detach, hi, ht, unlinkDirty] using reset_unlinked x (.dirty d) i
    · simp only [detach, hi, ht, not_true_eq_false, if_false, ends_setLinks, ends_retag]
      rw [ends_onDevice, ends_onDevice]
      · rfl
      · exact fun v => (lists_dropPressure _).1
      · exact fun v => (lists_dropPressure _).2
      · exact fun _ => rfl
      · exact fun _ => rfl
  · simp [detach, hi, ht, unlinkDirty, Shifts, isFree]
  · simp [detach, hi, ht, unlinkDirty, Shifts, isBusy]
  · refine countsShift_update (g := fun c => { c with dirty := c.dirty - 1, entries := c.entries - 1 }) (d := d) ?_
      (by simp [ht]) (by simp [isHeld, isClean, isDirty]) ?_
    · have e : (x.detach i).1.counts = (((x.unlinkFrom (.dirty d) i).onDevice d
          (fun v => dropPressure { v with dirty := v.dirty - 1 })).onDevice d
          (fun v => { v with entries := v.entries - 1 })).counts := by
        simp only [detach, hi, ht, not_true_eq_false, if_false]
        rfl
      rw [e, counts_onDevice _ d _ (fun c => { c with entries := c.entries - 1 }) (fun _ => rfl),
        counts_onDevice _ d _ (fun c => { c with dirty := c.dirty - 1 }) (fun v => counts_dropPressure _)]
      simp
    · constructor <;> simp [Shifts, ht, weight, isHeld, isClean, isDirty] <;> omega

theorem pushFree_moved {x : Index} {i e : Nat} (ht : x.tag i = ⟨e, .detached⟩) :
    Moved x (x.pushFree i) i { queue := .free } false := by
  have r : x.relocate i { queue := .free } false = (x.retag i { queue := .free }).linkLast .free i := by
    simp [relocate, takeOut, putIn, ht, name, link]
  refine ⟨?_, ?_, ?_, ?_⟩
  · rw [r]
    refine ⟨?_, ?_⟩
    · rw [links_linkLast, ends_retag]
      unfold pushFree linkTail
      cases hte : x.freeList.tail <;> simp [ends, hte, retag, setData, setNext, setPrev]
    · rw [ends_linkLast, ends_retag]
      unfold pushFree linkTail
      funext nm
      cases hte : x.freeList.tail <;> cases nm <;> simp [ends, hte]
  · unfold pushFree
    cases x.freeList.tail <;> simp [Shifts, ht, isFree]
  · unfold pushFree
    cases x.freeList.tail <;> simp [Shifts, ht, isBusy]
  · intro d _
    have : (x.pushFree i).counts d = x.counts d := by
      unfold pushFree
      cases x.freeList.tail <;> rfl
    rw [this]
    constructor <;> simp [Shifts, ht, weight, isHeld, isClean, isDirty]

theorem claimFree_moved {x : Index} {q : Name → List Nat} {i : Nat} (h : Rep x q) (hh : x.freeList.head = some i) :
    i < maxEntries ∧ (x.tag i).queue = .free ∧ (x.claimFree).2 = some i ∧ Moved x (x.claimFree).1 i {} false := by
  have hhead : some i = (q .free).head? := hh.symm.trans (h.lists.queue .free).head
  obtain ⟨b, hb⟩ : ∃ b, q .free = i :: b := by
    cases hq : q .free with
    | nil => rw [hq] at hhead; cases hhead
    | cons j b =>
      rw [hq] at hhead
      cases hhead
      exact ⟨b, rfl⟩
  obtain ⟨hi, hn⟩ := (h.lists.mem .free i).1 (by rw [hb]; simp)
  have hf : (x.tag i).queue = .free := by
    rcases hx : x.tag i with ⟨d, p⟩
    rw [hx] at hn
    cases p <;> first | rfl | simp [name] at hn
  obtain ⟨hp, hq⟩ := (h.lists.queue .free).links [] i b hb
  simp only [List.getLast?_nil] at hp
  have h0 : name ({} : Tag) = none := rfl
  have r : x.relocate i {} false = (x.unlinkFrom .free i).retag i {} := by
    simp [relocate, takeOut, putIn, hn, h0]
  refine ⟨hi, hf, by simp [claimFree, hh], ⟨?_, ?_, ?_, ?_⟩⟩
  · rw [r]
    refine ⟨?_, ?_⟩
    · rw [← reset_unlinked, links_unlinkFrom]
      funext j
      by_cases hj : j = i
      · subst hj
        unfold claimFree
        rw [hh]
        cases (x.links j).next <;> simp
      · unfold claimFree unlink
        rw [hh]
        cases hne : (x.links i).next <;> simp [hj, hp, hne, setPrev, setNext]
    · rw [ends_retag, ends_unlinkFrom]
      unfold claimFree unlink
      funext nm
      rw [hh]
      cases hne : (x.links i).next <;> cases nm <;> simp [ends, hp, hne]
  · unfold claimFree
    rw [hh]
    cases hne : (x.links i).next <;> simp [Shifts, hf, isFree, hne] <;> omega
  · unfold claimFree
    rw [hh]
    cases hne : (x.links i).next <;> simp [Shifts, hf, isBusy, hne]
  · intro d _
    have : (x.claimFree).1.counts d = x.counts d := by
      unfold claimFree
      rw [hh]
      cases hne : (x.links i).next <;> simp [hne] <;> rfl
    rw [this]
    constructor <;> simp [Shifts, hf, weight, isHeld, isClean, isDirty]

/-! ## Runs of operations -/

theorem Rep.cursors {x : Index} {q : Name → List Nat} (h : Rep x q) (a b : Nat) :
    Rep { x with cleanDeviceCursor := a, dirtyDeviceCursor := b } q where
  lists := by
    refine SameLists.lists (y := x) ⟨rfl, ?_⟩ h.lists
    funext nm
    cases nm <;> rfl
  counted := ⟨h.counted.free, h.counted.busy, h.counted.entries, h.counted.clean, h.counted.dirty, h.counted.busyDirty⟩
  device_lt := h.device_lt

theorem cleanVictim_fst (x : Index) (preferred : Option Nat) :
    ∃ a, (x.cleanVictim preferred).1 = { x with cleanDeviceCursor := a } := by
  unfold cleanVictim
  dsimp only
  split
  · split
    · exact ⟨_, rfl⟩
    · exact ⟨_, rfl⟩
  · split
    · split
      · exact ⟨_, rfl⟩
      · split
        · exact ⟨_, rfl⟩
        · exact ⟨_, rfl⟩
    · split
      · exact ⟨_, rfl⟩
      · exact ⟨_, rfl⟩

theorem nextDirtyDevice_fst (x : Index) (pressureOnly : Bool) :
    ∃ b, (x.nextDirtyDevice pressureOnly).1 = { x with dirtyDeviceCursor := b } := by
  unfold nextDirtyDevice
  split
  · exact ⟨_, rfl⟩
  · exact ⟨_, rfl⟩

theorem Wf.cleanVictim {x : Index} (h : Wf x) (preferred : Option Nat) : Wf (x.cleanVictim preferred).1 := by
  obtain ⟨q, hq⟩ := h
  obtain ⟨a, ha⟩ := cleanVictim_fst x preferred
  rw [ha]
  exact ⟨q, hq.cursors a x.dirtyDeviceCursor⟩

theorem Wf.nextDirtyDevice {x : Index} (h : Wf x) (pressureOnly : Bool) : Wf (x.nextDirtyDevice pressureOnly).1 := by
  obtain ⟨q, hq⟩ := h
  obtain ⟨b, hb⟩ := nextDirtyDevice_fst x pressureOnly
  rw [hb]
  exact ⟨q, hq.cursors x.cleanDeviceCursor b⟩

theorem Wf.device_lt {x : Index} (h : Wf x) {i : Nat} (hi : i < maxEntries) (hh : isHeld (x.tag i) = true) :
    (x.tag i).device < maxDevices := by
  obtain ⟨q, hq⟩ := h
  exact hq.device_lt i hi hh

theorem Wf.claimFree {x : Index} (h : Wf x) : Wf (x.claimFree).1 := by
  obtain ⟨q, hq⟩ := h
  cases hh : x.freeList.head with
  | none => exact ⟨q, by simpa [Index.claimFree, hh] using hq⟩
  | some i =>
    obtain ⟨hi, _, _, hm⟩ := claimFree_moved hq hh
    exact ⟨_, hq.moved hi hm (by simp [isHeld, isClean, isDirty])⟩

theorem Wf.attachClean {x : Index} (h : Wf x) (i d : Nat) : Wf (x.attachClean i d).1 := by
  by_cases hb : ¬ i < maxEntries ∨ ¬ d < maxDevices
  · rw [Index.attachClean, if_pos hb]
    exact h
  · by_cases hq : (x.tag i).queue ≠ .detached
    · rw [Index.attachClean, if_neg hb, if_pos hq]
      exact h
    · push Not at hb hq
      have ht : x.tag i = ⟨(x.tag i).device, .detached⟩ := by rw [← hq]
      exact h.moved hb.1 (attachClean_moved hb.1 hb.2 ht).2 (fun _ => hb.2)

theorem tag_eq {x : Index} {i : Nat} {p : Place} (h : (x.tag i).queue = p) : x.tag i = ⟨(x.tag i).device, p⟩ := by
  rw [← h]

theorem held_of_queue {x : Index} {i : Nat} {p : Place} (h : (x.tag i).queue = p)
    (hp : isHeld ⟨(x.tag i).device, p⟩ = true) : isHeld (x.tag i) = true := by
  rw [tag_eq h]
  exact hp

theorem Wf.touchClean {x : Index} (h : Wf x) (i : Nat) : Wf (x.touchClean i) := by
  by_cases hb : ¬ i < maxEntries ∨ (x.tag i).queue ≠ .clean
  · rw [Index.touchClean, if_pos hb]
    exact h
  · push Not at hb
    rcases touchClean_moved hb.1 (tag_eq hb.2) with he | hm
    · rw [he]
      exact h
    · exact h.moved hb.1 hm (fun _ => h.device_lt hb.1 (held_of_queue hb.2 rfl))

theorem Wf.markDirty {x : Index} (h : Wf x) (i : Nat) : Wf (x.markDirty i).1 := by
  by_cases hi : i < maxEntries
  · by_cases hq : (x.tag i).queue = .clean
    · exact h.moved hi (markDirty_moved hi (tag_eq hq)).2 (fun _ => h.device_lt hi (held_of_queue hq rfl))
    · have : (x.markDirty i).1 = x := by
        unfold Index.markDirty
        by_cases hd : (x.tag i).queue = .dirty ∨ (x.tag i).queue = .busyDirty
        · simp [hi, hd]
        · simp [hi, hd, hq]
      rw [this]
      exact h
  · simpa [Index.markDirty, hi] using h

theorem Wf.clearDirty {x : Index} (h : Wf x) (i : Nat) : Wf (x.clearDirty i).1 := by
  by_cases hi : i < maxEntries
  · by_cases hq : (x.tag i).queue = .dirty
    · exact h.moved hi (clearDirty_dirty hi (tag_eq hq)) (fun _ => h.device_lt hi (held_of_queue hq rfl))
    · by_cases hq' : (x.tag i).queue = .busyDirty
      · exact h.moved hi (clearDirty_busy hi (tag_eq hq')) (fun _ => h.device_lt hi (held_of_queue hq' rfl))
      · simpa [Index.clearDirty, hi, hq, hq'] using h
  · simpa [Index.clearDirty, hi] using h

theorem Wf.pin {x : Index} (h : Wf x) (i : Nat) : Wf (x.pin i).1 := by
  by_cases hi : i < maxEntries
  · cases hq : (x.tag i).queue with
    | clean => exact h.moved hi (pin_clean hi (tag_eq hq)).2 (fun _ => h.device_lt hi (held_of_queue hq rfl))
    | dirty => exact h.moved hi (pin_dirty hi (tag_eq hq)).2 (fun _ => h.device_lt hi (held_of_queue hq rfl))
    | _ => simpa [Index.pin, hi, hq] using h
  · simpa [Index.pin, hi] using h

theorem Wf.unpin {x : Index} (h : Wf x) (i : Nat) (oldest : Bool) : Wf (x.unpin i oldest).1 := by
  by_cases hi : i < maxEntries
  · cases hq : (x.tag i).queue with
    | busyClean =>
      exact h.moved hi (unpin_clean hi (tag_eq hq) oldest).2 (fun _ => h.device_lt hi (held_of_queue hq rfl))
    | busyDirty =>
      exact h.moved hi (unpin_dirty hi (tag_eq hq) oldest).2 (fun _ => h.device_lt hi (held_of_queue hq rfl))
    | _ => simpa [Index.unpin, hi, hq] using h
  · simpa [Index.unpin, hi] using h

theorem Wf.detach {x : Index} (h : Wf x) (i : Nat) : Wf (x.detach i).1 := by
  by_cases hi : i < maxEntries
  · cases hq : (x.tag i).queue with
    | clean => exact h.moved hi (detach_clean hi (tag_eq hq)).2 (by simp [isHeld, isClean, isDirty])
    | dirty => exact h.moved hi (detach_dirty hi (tag_eq hq)).2 (by simp [isHeld, isClean, isDirty])
    | _ => simpa [Index.detach, hi, hq] using h
  · simpa [Index.detach, hi] using h

theorem Wf.pushFree {x : Index} (h : Wf x) {i : Nat} (hi : i < maxEntries) (hq : (x.tag i).queue = .detached) :
    Wf (x.pushFree i) :=
  h.moved hi (pushFree_moved (tag_eq hq)) (by simp [isHeld, isClean, isDirty])

theorem detach_true {x : Index} {i : Nat} (hi : i < maxEntries) (h : (x.detach i).2 = true) :
    ((x.detach i).1.tag i).queue = .detached := by
  cases hq : (x.tag i).queue with
  | clean => rw [(detach_clean hi (tag_eq hq)).2.tag, Function.update_self]
  | dirty => rw [(detach_dirty hi (tag_eq hq)).2.tag, Function.update_self]
  | detached => simp [Index.detach, hi, hq]
  | _ => simp [Index.detach, hi, hq] at h

theorem Wf.release {x : Index} (h : Wf x) (i : Nat) : Wf (x.release i).1 := by
  unfold Index.release
  by_cases hi : i < maxEntries
  · rw [if_neg (not_not.2 hi)]
    by_cases hq : (x.tag i).queue = .detached
    · rw [if_pos hq]
      exact h.pushFree hi hq
    · rw [if_neg hq]
      cases hd : (x.detach i).2 with
      | false => exact h.detach i
      | true => exact (h.detach i).pushFree hi (detach_true hi hd)
  · rw [if_pos hi]
    exact h

/-- The public operations of `page_cache_policy.Index` that change it. -/
inductive Op where
  | claimFree
  | attachClean (i d : Nat)
  | touchClean (i : Nat)
  | markDirty (i : Nat)
  | clearDirty (i : Nat)
  | pin (i : Nat)
  | unpin (i : Nat) (retryOldest : Bool)
  | detach (i : Nat)
  | release (i : Nat)
  | cleanVictim (preferred : Option Nat)
  | nextDirtyDevice (pressureOnly : Bool)

def apply (x : Index) : Op → Index
  | .claimFree => (x.claimFree).1
  | .attachClean i d => (x.attachClean i d).1
  | .touchClean i => x.touchClean i
  | .markDirty i => (x.markDirty i).1
  | .clearDirty i => (x.clearDirty i).1
  | .pin i => (x.pin i).1
  | .unpin i oldest => (x.unpin i oldest).1
  | .detach i => (x.detach i).1
  | .release i => (x.release i).1
  | .cleanVictim preferred => (x.cleanVictim preferred).1
  | .nextDirtyDevice pressureOnly => (x.nextDirtyDevice pressureOnly).1

theorem Wf.apply {x : Index} (h : Wf x) : ∀ op : Op, Wf (x.apply op)
  | .claimFree => h.claimFree
  | .attachClean i d => h.attachClean i d
  | .touchClean i => h.touchClean i
  | .markDirty i => h.markDirty i
  | .clearDirty i => h.clearDirty i
  | .pin i => h.pin i
  | .unpin i oldest => h.unpin i oldest
  | .detach i => h.detach i
  | .release i => h.release i
  | .cleanVictim preferred => h.cleanVictim preferred
  | .nextDirtyDevice pressureOnly => h.nextDirtyDevice pressureOnly

theorem init_free : Queue init.links init.freeList (List.range maxEntries) := by
  refine ⟨by decide +kernel, by decide +kernel, List.nodup_range, ?_⟩
  intro a i b h
  have hlen : a.length + (b.length + 1) = maxEntries := by
    have := congrArg List.length h
    simpa using this.symm
  have hi : i = a.length := by
    have := congrArg (fun l => l[a.length]?) h
    simp only [List.getElem?_append_right (Nat.le_refl _), Nat.sub_self, List.getElem?_cons_zero] at this
    rw [List.getElem?_range (by omega)] at this
    exact (Option.some.inj this).symm
  have ha : a = List.range a.length := by
    have := congrArg (List.take a.length) h
    rw [List.take_left, List.take_range, Nat.min_eq_left (by omega)] at this
    exact this.symm
  have hb : b.head? = if i + 1 = maxEntries then none else some (i + 1) := by
    have := congrArg (fun l => l[a.length + 1]?) h
    simp only [List.getElem?_append_right (Nat.le_succ a.length)] at this
    have h1 : a.length.succ - a.length = 0 + 1 := by omega
    rw [h1, List.getElem?_cons_succ] at this
    rw [List.head?_eq_getElem?, ← this, hi]
    by_cases hl : a.length + 1 = maxEntries
    · simp [hl]
    · rw [if_neg hl, List.getElem?_range (by omega)]
  have hp : a.getLast? = if i = 0 then none else some (i - 1) := by
    rw [ha, hi]
    cases a.length with
    | zero => rfl
    | succ n => simp [List.range_succ]
  have hlt : i < maxEntries := by omega
  simp [init, hlt, hp, hb]

theorem Wf.init : Wf init := by
  refine ⟨fun nm => if nm = .free then List.range maxEntries else [], ⟨⟨fun nm => ?_, fun nm i => ?_⟩, ?_, ?_⟩⟩
  · cases nm with
    | free => simpa [ends] using init_free
    | clean d => simpa [ends, PageIndex.init] using Queue.nil _
    | dirty d => simpa [ends, PageIndex.init] using Queue.nil _
  · by_cases hi : i < maxEntries
    · have ht : PageIndex.init.tag i = { queue := .free } := by simp [PageIndex.init, tag, hi]
      rw [ht]
      cases nm <;> simp [name, hi]
    · have : i ∉ (if nm = Name.free then List.range maxEntries else []) := by
        split <;> simp [hi]
      simp [hi, this]
  · have hz : ∀ p : Tag → Bool, p { queue := .free } = false → tally PageIndex.init.tag p = 0 := by
      intro p hp
      refine Finset.card_eq_zero.2 (Finset.filter_eq_empty_iff.2 (fun i hi => ?_))
      simp [PageIndex.init, tag, Finset.mem_range.1 hi, hp]
    have hf : tally PageIndex.init.tag isFree = maxEntries := by
      unfold tally
      rw [Finset.filter_true_of_mem, Finset.card_range]
      intro i hi
      simp [PageIndex.init, tag, Finset.mem_range.1 hi, isFree]
    refine ⟨hf.symm, (hz _ rfl).symm, fun d _ => ?_, fun d _ => ?_, fun d _ => ?_, fun d _ => ?_⟩
    · exact (hz _ (by simp [isHeld, isClean, isDirty])).symm
    · exact (hz _ (by simp [isClean])).symm
    · exact (hz _ (by simp [isDirty])).symm
    · exact (hz _ (by simp)).symm
  · intro i hi hh
    simp [PageIndex.init, tag, hi, isHeld, isClean, isDirty] at hh

/-- **The index stays well formed** through every sequence of operations with any arguments. -/
theorem Wf.run : ∀ (ops : List Op) {x : Index}, Wf x → Wf (ops.foldl Index.apply x)
  | [], _, h => h
  | op :: ops, _, h => Wf.run ops (h.apply op)

/-! ## What the index answers -/

theorem name_clean {t : Tag} {d : Nat} (h : name t = some (.clean d)) : t = ⟨d, .clean⟩ := by
  rcases t with ⟨e, p⟩
  cases p <;> simp [name] at h
  rw [h]

theorem name_dirty {t : Tag} {d : Nat} (h : name t = some (.dirty d)) : t = ⟨d, .dirty⟩ := by
  rcases t with ⟨e, p⟩
  cases p <;> simp [name] at h
  rw [h]

theorem Rep.mem_of_head {x : Index} {q : Name → List Nat} (h : Rep x q) (nm : Name) {i : Nat}
    (hh : (x.ends nm).head = some i) : i < maxEntries ∧ name (x.tag i) = some nm := by
  rw [(h.lists.queue nm).head] at hh
  exact (h.lists.mem nm i).1 (List.mem_of_head? hh)

theorem Wf.clean_head {x : Index} (h : Wf x) {d i : Nat} (hh : (x.devices d).cleanList.head = some i) :
    i < maxEntries ∧ x.tag i = ⟨d, .clean⟩ := by
  obtain ⟨q, hq⟩ := h
  obtain ⟨hi, hn⟩ := hq.mem_of_head (.clean d) hh
  exact ⟨hi, name_clean hn⟩

theorem Wf.cleanVictim_some {x : Index} (h : Wf x) {preferred : Option Nat} {i : Nat}
    (hv : (x.cleanVictim preferred).2 = some i) : i < maxEntries ∧ (x.tag i).queue = .clean := by
  have key : ∀ d, (x.devices d).cleanList.head = some i → i < maxEntries ∧ (x.tag i).queue = .clean := fun d hd => by
    obtain ⟨hi, ht⟩ := h.clean_head hd
    exact ⟨hi, by rw [ht]⟩
  unfold Index.cleanVictim at hv
  dsimp only at hv
  split at hv
  · split at hv
    · cases hv
    · exact key _ hv
  · split at hv
    · split at hv
      · rename_i j hj
        cases hv
        exact key _ hj
      · split at hv
        · cases hv
        · exact key _ hv
    · split at hv
      · cases hv
      · exact key _ hv

theorem tag_cleanVictim (x : Index) (preferred : Option Nat) : (x.cleanVictim preferred).1.tag = x.tag := by
  obtain ⟨a, ha⟩ := cleanVictim_fst x preferred
  rw [ha]
  rfl

theorem tag_nextDirtyDevice (x : Index) (pressureOnly : Bool) : (x.nextDirtyDevice pressureOnly).1.tag = x.tag := by
  obtain ⟨b, hb⟩ := nextDirtyDevice_fst x pressureOnly
  rw [hb]
  rfl

/-- **Walking the dirty queue of a device** meets its unpinned dirty slots, all of them. -/
theorem Wf.mem_dirtyWalk {x : Index} (h : Wf x) {d : Nat} (hd : d < maxDevices) (i : Nat) :
    i ∈ walk x.nextDirty maxEntries (x.dirtyHead d) ↔ i < maxEntries ∧ x.tag i = ⟨d, .dirty⟩ := by
  obtain ⟨q, hq⟩ := h
  have hmem : ∀ j, j ∈ q (.dirty d) ↔ j < maxEntries ∧ x.tag j = ⟨d, .dirty⟩ := fun j => by
    rw [hq.lists.mem]
    refine and_congr_right (fun _ => ⟨name_dirty, fun ht => by rw [ht]; rfl⟩)
  have hch : Chain x.nextDirty (x.dirtyHead d) (q (.dirty d)) := by
    have hhead : x.dirtyHead d = (x.ends (.dirty d)).head := by simp [dirtyHead, hd, ends]
    rw [hhead]
    refine (hq.lists.queue (.dirty d)).chain.frame (fun j hj => ?_)
    obtain ⟨hj1, hj2⟩ := (hmem j).1 hj
    simp [nextDirty, hj1, hj2]
  have hlen : (q (.dirty d)).length ≤ maxEntries := by
    rw [← List.toFinset_card_of_nodup hch.nodup, ← Finset.card_range maxEntries]
    refine Finset.card_le_card (fun j hj => ?_)
    exact Finset.mem_range.2 ((hmem j).1 (List.mem_toFinset.1 hj)).1
  rw [hch.walk_eq hlen]
  exact hmem i

theorem tally_zero {tag : Nat → Tag} {p : Tag → Bool} (h : tally tag p = 0) {i : Nat} (hi : i < maxEntries) :
    p (tag i) = false := by
  have : (p (tag i)).toNat ≤ tally tag p := le_tally hi p
  rw [h] at this
  cases hp : p (tag i) with
  | false => rfl
  | true =>
    rw [hp] at this
    exact absurd this (by decide)

theorem Wf.dirty_zero {x : Index} (h : Wf x) {d : Nat} (hd : d < maxDevices) (h0 : (x.devices d).dirty = 0) {i : Nat}
    (hi : i < maxEntries) (ht : (x.tag i).device = d) : isDirty (x.tag i) = false := by
  obtain ⟨q, hq⟩ := h
  have := tally_zero ((hq.counted.dirty d hd).symm.trans h0) hi
  simpa [ht] using this

theorem Wf.busyDirty_zero {x : Index} (h : Wf x) {d : Nat} (hd : d < maxDevices) (h0 : (x.devices d).busyDirty = 0)
    {i : Nat} (hi : i < maxEntries) (ht : (x.tag i).device = d) : (x.tag i).queue ≠ .busyDirty := by
  obtain ⟨q, hq⟩ := h
  have := tally_zero ((hq.counted.busyDirty d hd).symm.trans h0) hi
  simpa [ht] using this

end Index
end PageIndex
end R4
