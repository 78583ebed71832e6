import R4Recovery.LinkedQueue
/-!
# PageIndex — the queues that order the page cache's slots

`page_cache_policy.Index`: 512 slots, each on the free queue, on the clean or dirty queue of one of eight devices,
detached, or pinned.  The queues run through one array of links; the counters repeat what the tags say.
-/
namespace R4
namespace PageIndex

open LinkedQueue

def maxEntries : Nat := 512
def maxDevices : Nat := 8
def noDevice : Nat := 0xFF
def dirtyHighPages : Nat := 64
def dirtyLowPages : Nat := 32

/-- `page_cache_policy.Queue`. -/
inductive Place where
  | detached | free | clean | dirty | busyClean | busyDirty
  deriving DecidableEq

/-- What a `Link` says beside its two pointers. -/
structure Tag where
  device : Nat := noDevice
  queue : Place := .detached
  deriving DecidableEq

abbrev Link : Type := Node Nat Tag

def Link.empty : Link := ⟨none, none, {}⟩

structure Device where
  cleanList : Ends Nat := ⟨none, none⟩
  dirtyList : Ends Nat := ⟨none, none⟩
  entries : Nat := 0
  clean : Nat := 0
  dirty : Nat := 0
  busyDirty : Nat := 0
  dirtyHighWater : Nat := 0
  pressureActive : Bool := false

structure Index where
  links : Nat → Link
  devices : Nat → Device
  freeList : Ends Nat
  freeCount : Nat
  busyCount : Nat
  cleanDeviceCursor : Nat
  dirtyDeviceCursor : Nat

def init : Index where
  links := fun i => if i < maxEntries then
      ⟨if i = 0 then none else some (i - 1), if i + 1 = maxEntries then none else some (i + 1), { queue := .free }⟩
    else Link.empty
  devices := fun _ => {}
  freeList := ⟨some 0, some (maxEntries - 1)⟩
  freeCount := maxEntries
  busyCount := 0
  cleanDeviceCursor := 0
  dirtyDeviceCursor := 0

namespace Index

def tag (x : Index) (i : Nat) : Tag := (x.links i).data

def retag (x : Index) (i : Nat) (t : Tag) : Index := { x with links := setData x.links i t }

def setQueue (x : Index) (i : Nat) (q : Place) : Index := x.retag i { x.tag i with queue := q }

def onDevice (x : Index) (d : Nat) (f : Device → Device) : Index :=
  { x with devices := Function.update x.devices d (f (x.devices d)) }

def onBusy (x : Index) (f : Nat → Nat) : Index := { x with busyCount := f x.busyCount }

/-- The queues of the index; the source passes them as pairs of pointers to their ends. -/
inductive Name where
  | free
  | clean (d : Nat)
  | dirty (d : Nat)
  deriving DecidableEq

def ends (x : Index) : Name → Ends Nat
  | .free => x.freeList
  | .clean d => (x.devices d).cleanList
  | .dirty d => (x.devices d).dirtyList

def setEnds (x : Index) (e : Ends Nat) : Name → Index
  | .free => { x with freeList := e }
  | .clean d => x.onDevice d (fun v => { v with cleanList := e })
  | .dirty d => x.onDevice d (fun v => { v with dirtyList := e })

/-- `unlinkFromList`. -/
def unlinkFrom (x : Index) (nm : Name) (i : Nat) : Index :=
  let r := unlink x.links (x.ends nm) i
  { x with links := r.1 }.setEnds r.2 nm

/-- `linkTail`. -/
def linkLast (x : Index) (nm : Name) (i : Nat) : Index :=
  let r := linkTail x.links (x.ends nm) i
  { x with links := r.1 }.setEnds r.2 nm

/-- `linkDirtyHead`, at any queue. -/
def linkFirst (x : Index) (nm : Name) (i : Nat) : Index :=
  let r := linkHead x.links (x.ends nm) i
  { x with links := r.1 }.setEnds r.2 nm

def unlinkClean (x : Index) (i d : Nat) : Index := x.unlinkFrom (.clean d) i
def unlinkDirty (x : Index) (i d : Nat) : Index := x.unlinkFrom (.dirty d) i
def linkCleanTail (x : Index) (i d : Nat) : Index := x.linkLast (.clean d) i
def linkDirtyTail (x : Index) (i d : Nat) : Index := x.linkLast (.dirty d) i
def linkDirtyHead (x : Index) (i d : Nat) : Index := x.linkFirst (.dirty d) i

def claimFree (x : Index) : Index × Option Nat :=
  match x.freeList.head with
  | none => (x, none)
  | some i =>
    let next := (x.links i).next
    let x := { x with freeList := { x.freeList with head := next } }
    let x := match next with
      | none => { x with freeList := { x.freeList with tail := none } }
      | some n => { x with links := setPrev x.links n none }
    ({ x with freeCount := x.freeCount - 1, links := Function.update x.links i Link.empty }, some i)

def attachClean (x : Index) (i d : Nat) : Index × Bool :=
  if ¬ i < maxEntries ∨ ¬ d < maxDevices then (x, false)
  else if (x.tag i).queue ≠ .detached then (x, false)
  else
    let x := x.retag i { x.tag i with device := d }
    let x := x.setQueue i .clean
    let x := x.linkCleanTail i d
    (x.onDevice d (fun v => { v with entries := v.entries + 1, clean := v.clean + 1 }), true)

def touchClean (x : Index) (i : Nat) : Index :=
  if ¬ i < maxEntries ∨ (x.tag i).queue ≠ .clean then x
  else
    let d := (x.tag i).device
    if (x.devices d).cleanList.tail = some i then x else (x.unlinkClean i d).linkCleanTail i d

def raisePressure (v : Device) : Device :=
  let v := if v.dirty > v.dirtyHighWater then { v with dirtyHighWater := v.dirty } else v
  if v.dirty ≥ dirtyHighPages then { v with pressureActive := true } else v

def markDirty (x : Index) (i : Nat) : Index × Bool :=
  if ¬ i < maxEntries then (x, false)
  else if (x.tag i).queue = .dirty ∨ (x.tag i).queue = .busyDirty then (x, true)
  else if (x.tag i).queue ≠ .clean then (x, false)
  else
    let d := (x.tag i).device
    let x := x.unlinkClean i d
    let x := x.onDevice d (fun v => raisePressure { v with clean := v.clean - 1, dirty := v.dirty + 1 })
    let x := x.setQueue i .dirty
    (x.linkDirtyTail i d, true)

def dropPressure (v : Device) : Device :=
  if v.dirty ≤ dirtyLowPages then { v with pressureActive := false } else v

def clearDirty (x : Index) (i : Nat) : Index × Bool :=
  if ¬ i < maxEntries then (x, false)
  else
    let queue := (x.tag i).queue
    let d := (x.tag i).device
    if queue = .dirty then
      let x := x.unlinkDirty i d
      let x := x.onDevice d (fun v => dropPressure { v with dirty := v.dirty - 1, clean := v.clean + 1 })
      let x := x.setQueue i .clean
      (x.linkCleanTail i d, true)
    else if queue = .busyDirty then
      let x := x.onDevice d (fun v => { v with busyDirty := v.busyDirty - 1 })
      let x := x.onDevice d (fun v => dropPressure { v with dirty := v.dirty - 1, clean := v.clean + 1 })
      (x.setQueue i .busyClean, true)
    else (x, queue = .clean ∨ queue = .busyClean)

def pin (x : Index) (i : Nat) : Index × Bool :=
  if ¬ i < maxEntries then (x, false)
  else
    let d := (x.tag i).device
    match (x.tag i).queue with
    | .clean =>
      let x := (x.unlinkClean i d).setQueue i .busyClean
      (x.onBusy (· + 1), true)
    | .dirty =>
      let x := (x.unlinkDirty i d).setQueue i .busyDirty
      let x := x.onDevice d (fun v => { v with busyDirty := v.busyDirty + 1 })
      (x.onBusy (· + 1), true)
    | _ => (x, false)

def unpin (x : Index) (i : Nat) (retryOldest : Bool) : Index × Bool :=
  if ¬ i < maxEntries then (x, false)
  else
    let d := (x.tag i).device
    match (x.tag i).queue with
    | .busyClean =>
      let x := (x.setQueue i .clean).linkCleanTail i d
      (x.onBusy (· - 1), true)
    | .busyDirty =>
      let x := x.onDevice d (fun v => { v with busyDirty := v.busyDirty - 1 })
      let x := x.setQueue i .dirty
      let x := if retryOldest then x.linkDirtyHead i d else x.linkDirtyTail i d
      (x.onBusy (· - 1), true)
    | _ => (x, false)

def detach (x : Index) (i : Nat) : Index × Bool :=
  if ¬ i < maxEntries then (x, false)
  else
    let d := (x.tag i).device
    match (x.tag i).queue with
    | .clean =>
      let x := (x.unlinkClean i d).onDevice d (fun v => { v with clean := v.clean - 1 })
      let x := x.onDevice d (fun v => { v with entries := v.entries - 1 })
      ({ x with links := Function.update x.links i Link.empty }, true)
    | .dirty =>
      let x := (x.unlinkDirty i d).onDevice d (fun v => dropPressure { v with dirty := v.dirty - 1 })
      let x := x.onDevice d (fun v => { v with entries := v.entries - 1 })
      ({ x with links := Function.update x.links i Link.empty }, true)
    | .detached => (x, true)
    | _ => (x, false)

/-- The second half of `release`: a detached slot goes to the end of the free queue. -/
def pushFree (x : Index) (i : Nat) : Index :=
  let tail := x.freeList.tail
  let x := { x with links := Function.update x.links i ⟨tail, none, { queue := .free }⟩ }
  let x := match tail with
    | none => { x with freeList := { x.freeList with head := some i } }
    | some t => { x with links := setNext x.links t (some i) }
  { x with freeList := { x.freeList with tail := some i }, freeCount := x.freeCount + 1 }

def release (x : Index) (i : Nat) : Index × Bool :=
  if ¬ i < maxEntries then (x, false)
  else if (x.tag i).queue = .detached then (x.pushFree i, true)
  else if (x.detach i).2 = false then ((x.detach i).1, false)
  else ((x.detach i).1.pushFree i, true)

/-- The devices in the order a cursor probes them. -/
def probes (cursor : Nat) : List Nat := (List.range maxDevices).map (fun k => (cursor + k) % maxDevices)

def cleanVictim (x : Index) (preferred : Option Nat) : Index × Option Nat :=
  let scan : Index × Option Nat :=
    match (probes x.cleanDeviceCursor).find? (fun d => (x.devices d).cleanList.head.isSome) with
    | none => (x, none)
    | some d => ({ x with cleanDeviceCursor := (d + 1) % maxDevices }, (x.devices d).cleanList.head)
  match preferred with
  | none => scan
  | some d =>
    if d < maxDevices then
      match (x.devices d).cleanList.head with
      | some i => (x, some i)
      | none => scan
    else scan

def dirtyHead (x : Index) (d : Nat) : Option Nat :=
  if d < maxDevices then (x.devices d).dirtyList.head else none

def nextDirty (x : Index) (i : Nat) : Option Nat :=
  if i < maxEntries ∧ (x.tag i).queue = .dirty then (x.links i).next else none

def nextDirtyDevice (x : Index) (pressureOnly : Bool) : Index × Option Nat :=
  match (probes x.dirtyDeviceCursor).find? (fun d =>
      (x.devices d).dirtyList.head.isSome && (!pressureOnly || (x.devices d).pressureActive)) with
  | none => (x, none)
  | some d => ({ x with dirtyDeviceCursor := (d + 1) % maxDevices }, some d)

def entryCount (x : Index) : Nat := maxEntries - x.freeCount

/-! ## The lists behind the ends -/

/-- The queue a tag belongs to; pinned and detached slots are on none. -/
def name : Tag → Option Name
  | ⟨_, .free⟩ => some .free
  | ⟨d, .clean⟩ => some (.clean d)
  | ⟨d, .dirty⟩ => some (.dirty d)
  | _ => none

@[simp] theorem links_onDevice (x : Index) (d : Nat) (f : Device → Device) : (x.onDevice d f).links = x.links := rfl

@[simp] theorem links_setEnds (x : Index) (e : Ends Nat) (nm : Name) : (x.setEnds e nm).links = x.links := by
  cases nm <;> rfl

theorem ends_setEnds (x : Index) (e : Ends Nat) (nm : Name) :
    (x.setEnds e nm).ends = Function.update x.ends nm e := by
  funext nm'
  by_cases h : nm' = nm
  · subst h
    rw [Function.update_self]
    cases nm' <;> simp [setEnds, ends, onDevice]
  · rw [Function.update_of_ne h]
    cases nm with
    | free => cases nm' <;> first | rfl | exact absurd rfl h
    | clean d =>
      cases nm' with
      | free => rfl
      | clean d' =>
        have : d' ≠ d := fun hd => h (by rw [hd])
        simp [setEnds, ends, onDevice, this]
      | dirty d' =>
        by_cases hd : d' = d
        · subst hd; simp [setEnds, ends, onDevice]
        · simp [setEnds, ends, onDevice, hd]
    | dirty d =>
      cases nm' with
      | free => rfl
      | dirty d' =>
        have : d' ≠ d := fun hd => h (by rw [hd])
        simp [setEnds, ends, onDevice, this]
      | clean d' =>
        by_cases hd : d' = d
        · subst hd; simp [setEnds, ends, onDevice]
        · simp [setEnds, ends, onDevice, hd]

theorem ends_onDevice (x : Index) (d : Nat) (f : Device → Device) (hc : ∀ v, (f v).cleanList = v.cleanList)
    (hd : ∀ v, (f v).dirtyList = v.dirtyList) : (x.onDevice d f).ends = x.ends := by
  funext nm
  cases nm with
  | free => rfl
  | clean d' =>
    by_cases h : d' = d
    · subst h; simp [ends, onDevice, hc]
    · simp [ends, onDevice, h]
  | dirty d' =>
    by_cases h : d' = d
    · subst h; simp [ends, onDevice, hd]
    · simp [ends, onDevice, h]

theorem ends_setLinks (x : Index) (n : Nat → Link) : ({ x with links := n } : Index).ends = x.ends := by
  funext nm
  cases nm <;> rfl

theorem ends_retag (x : Index) (i : Nat) (t : Tag) : (x.retag i t).ends = x.ends := ends_setLinks x _

theorem links_unlinkFrom (x : Index) (nm : Name) (i : Nat) :
    (x.unlinkFrom nm i).links = (unlink x.links (x.ends nm) i).1 := by simp [unlinkFrom]

theorem ends_unlinkFrom (x : Index) (nm : Name) (i : Nat) :
    (x.unlinkFrom nm i).ends = Function.update x.ends nm (unlink x.links (x.ends nm) i).2 := by
  rw [unlinkFrom, ends_setEnds, ends_setLinks]

theorem links_linkLast (x : Index) (nm : Name) (i : Nat) :
    (x.linkLast nm i).links = (linkTail x.links (x.ends nm) i).1 := by simp [linkLast]

theorem ends_linkLast (x : Index) (nm : Name) (i : Nat) :
    (x.linkLast nm i).ends = Function.update x.ends nm (linkTail x.links (x.ends nm) i).2 := by
  rw [linkLast, ends_setEnds, ends_setLinks]

theorem links_linkFirst (x : Index) (nm : Name) (i : Nat) :
    (x.linkFirst nm i).links = (linkHead x.links (x.ends nm) i).1 := by simp [linkFirst]

theorem ends_linkFirst (x : Index) (nm : Name) (i : Nat) :
    (x.linkFirst nm i).ends = Function.update x.ends nm (linkHead x.links (x.ends nm) i).2 := by
  rw [linkFirst, ends_setEnds, ends_setLinks]

@[simp] theorem tag_onDevice (x : Index) (d : Nat) (f : Device → Device) : (x.onDevice d f).tag = x.tag := rfl

@[simp] theorem tag_unlinkFrom (x : Index) (nm : Name) (i : Nat) : (x.unlinkFrom nm i).tag = x.tag := by
  funext j
  simp [tag, unlinkFrom]

@[simp] theorem tag_linkLast (x : Index) (nm : Name) (i : Nat) : (x.linkLast nm i).tag = x.tag := by
  funext j
  simp [tag, linkLast]

@[simp] theorem tag_linkFirst (x : Index) (nm : Name) (i : Nat) : (x.linkFirst nm i).tag = x.tag := by
  funext j
  simp [tag, linkFirst]

@[simp] theorem tag_retag (x : Index) (i : Nat) (t : Tag) : (x.retag i t).tag = Function.update x.tag i t := by
  funext j
  simp only [tag, retag, setData_data, Function.update_apply]

/-- **The queues of `x` hold the lists `q`**, and a slot is on the list its tag names. -/
structure Lists (x : Index) (q : Name → List Nat) : Prop where
  queue : ∀ nm, Queue x.links (x.ends nm) (q nm)
  mem : ∀ nm i, i ∈ q nm ↔ i < maxEntries ∧ name (x.tag i) = some nm

/-- The queues alone, while a slot is between two of them. -/
structure Threads (x : Index) (q : Name → List Nat) : Prop where
  queue : ∀ nm, Queue x.links (x.ends nm) (q nm)
  apart : ∀ nm nm' i, i ∈ q nm → i ∈ q nm' → nm = nm'

theorem Lists.threads {x : Index} {q : Name → List Nat} (h : Lists x q) : Threads x q where
  queue := h.queue
  apart := fun nm nm' i h1 h2 => by
    have e1 := ((h.mem nm i).1 h1).2
    have e2 := ((h.mem nm' i).1 h2).2
    exact Option.some.inj (e1.symm.trans e2)

/-- Equal up to counters and cursors. -/
def SameLists (x y : Index) : Prop := x.links = y.links ∧ x.ends = y.ends

theorem SameLists.rfl {x : Index} : SameLists x x := ⟨Eq.refl _, Eq.refl _⟩

theorem SameLists.tag {x y : Index} (h : SameLists x y) : x.tag = y.tag := by
  funext i
  rw [Index.tag, Index.tag, h.1]

theorem SameLists.lists {x y : Index} {q : Name → List Nat} (h : SameLists x y) (hy : Lists y q) : Lists x q where
  queue := fun nm => by rw [h.1, h.2]; exact hy.queue nm
  mem := fun nm i => by rw [h.tag]; exact hy.mem nm i

theorem SameLists.onDevice {x y : Index} (h : SameLists x y) (d : Nat) (f : Device → Device)
    (hc : ∀ v, (f v).cleanList = v.cleanList) (hd : ∀ v, (f v).dirtyList = v.dirtyList) :
    SameLists (x.onDevice d f) y :=
  ⟨h.1, (ends_onDevice x d f hc hd).trans h.2⟩

theorem SameLists.linkLast {x y : Index} (h : SameLists x y) (nm : Name) (i : Nat) :
    SameLists (x.linkLast nm i) (y.linkLast nm i) := by
  unfold SameLists
  rw [links_linkLast, links_linkLast, ends_linkLast, ends_linkLast, h.1, h.2]
  exact ⟨Eq.refl _, Eq.refl _⟩

theorem SameLists.linkFirst {x y : Index} (h : SameLists x y) (nm : Name) (i : Nat) :
    SameLists (x.linkFirst nm i) (y.linkFirst nm i) := by
  unfold SameLists
  rw [links_linkFirst, links_linkFirst, ends_linkFirst, ends_linkFirst, h.1, h.2]
  exact ⟨Eq.refl _, Eq.refl _⟩

theorem SameLists.retag {x y : Index} (h : SameLists x y) (i : Nat) (t : Tag) :
    SameLists (x.retag i t) (y.retag i t) := by
  refine ⟨?_, ?_⟩
  · rw [Index.retag, Index.retag, h.1]
  · rw [ends_retag, ends_retag, h.2]

/-! ## Moving one slot -/

theorem Threads.unlinkFrom {x : Index} {q : Name → List Nat} {nm : Name} {i : Nat} (h : Threads x q)
    (hi : i ∈ q nm) : Threads (x.unlinkFrom nm i) (fun m => (q m).erase i) := by
  refine ⟨fun m => ?_, fun m m' j h1 h2 => h.apart m m' j (List.mem_of_mem_erase h1) (List.mem_of_mem_erase h2)⟩
  rw [links_unlinkFrom, ends_unlinkFrom]
  by_cases hm : m = nm
  · subst hm
    rw [Function.update_self]
    exact (h.queue m).unlink_mem hi
  · have hni : i ∉ q m := fun hx => hm (h.apart m nm i hx hi)
    rw [Function.update_of_ne hm, List.erase_of_not_mem hni]
    refine (h.queue m).frame (fun j hj => (h.queue nm).unlink_other hi (fun hx => ?_))
    exact hm (h.apart m nm j hj hx)

/-- The list `i` joins, at either end. -/
def joined (front : Bool) (i : Nat) (l : List Nat) : List Nat := if front then i :: l else l ++ [i]

theorem mem_joined {front : Bool} {i j : Nat} {l : List Nat} : j ∈ joined front i l ↔ j = i ∨ j ∈ l := by
  unfold joined
  cases front <;> simp [or_comm]

def link (x : Index) (front : Bool) (nm : Name) (i : Nat) : Index :=
  if front then x.linkFirst nm i else x.linkLast nm i

theorem Threads.link {x : Index} {q : Name → List Nat} {nm : Name} {i : Nat} (front : Bool) (h : Threads x q)
    (hi : ∀ m, i ∉ q m) : Threads (x.link front nm i) (Function.update q nm (joined front i (q nm))) := by
  refine ⟨fun m => ?_, fun m m' j h1 h2 => ?_⟩
  · by_cases hm : m = nm
    · subst hm
      cases front with
      | true =>
        simp only [Index.link, if_true, links_linkFirst, ends_linkFirst, Function.update_self, joined]
        exact (h.queue m).linkHead (hi m)
      | false =>
        simp only [Index.link, Bool.false_eq_true, if_false, links_linkLast, ends_linkLast, Function.update_self, joined]
        exact (h.queue m).linkTail (hi m)
    · rw [Function.update_of_ne hm]
      have hout : ∀ j ∈ q m, j ≠ i ∧ j ∉ q nm :=
        fun j hj => ⟨fun hji => hi m (hji ▸ hj), fun hx => hm (h.apart m nm j hj hx)⟩
      cases front with
      | true =>
        simp only [Index.link, if_true, links_linkFirst, ends_linkFirst, Function.update_of_ne hm]
        exact (h.queue m).frame (fun j hj => (h.queue nm).linkHead_other (hout j hj).1 (hout j hj).2)
      | false =>
        simp only [Index.link, Bool.false_eq_true, if_false, links_linkLast, ends_linkLast, Function.update_of_ne hm]
        exact (h.queue m).frame (fun j hj => (h.queue nm).linkTail_other (hout j hj).1 (hout j hj).2)
  · by_cases hm : m = nm <;> by_cases hm' : m' = nm
    · rw [hm, hm']
    · subst hm
      rw [Function.update_self, mem_joined] at h1
      rw [Function.update_of_ne hm'] at h2
      rcases h1 with rfl | h1
      · exact absurd h2 (hi m')
      · exact h.apart m m' j h1 h2
    · subst hm'
      rw [Function.update_self, mem_joined] at h2
      rw [Function.update_of_ne hm] at h1
      rcases h2 with rfl | h2
      · exact absurd h1 (hi m)
      · exact h.apart m m' j h1 h2
    · rw [Function.update_of_ne hm] at h1
      rw [Function.update_of_ne hm'] at h2
      exact h.apart m m' j h1 h2

theorem Threads.retag {x : Index} {q : Name → List Nat} (h : Threads x q) (i : Nat) (t : Tag) :
    Threads (x.retag i t) q := by
  refine ⟨fun nm => ?_, h.apart⟩
  rw [ends_retag]
  exact (h.queue nm).frame (fun j _ => ⟨setData_prev _ _ _ _, setData_next _ _ _ _⟩)

def takeOut (x : Index) (i : Nat) : Index :=
  match name (x.tag i) with
  | some nm => x.unlinkFrom nm i
  | none => x

def putIn (x : Index) (front : Bool) (i : Nat) : Index :=
  match name (x.tag i) with
  | some nm => x.link front nm i
  | none => x

/-- Every operation moves one slot: off the queue its tag names, retagged, and onto the queue the new tag names. -/
def relocate (x : Index) (i : Nat) (t : Tag) (front : Bool) : Index := ((x.takeOut i).retag i t).putIn front i

def requeue (q : Name → List Nat) (i : Nat) (t : Tag) (front : Bool) (nm : Name) : List Nat :=
  if name t = some nm then joined front i ((q nm).erase i) else (q nm).erase i

theorem tag_takeOut (x : Index) (i : Nat) : (x.takeOut i).tag = x.tag := by
  unfold takeOut
  cases name (x.tag i) <;> simp

theorem tag_putIn (x : Index) (front : Bool) (i : Nat) : (x.putIn front i).tag = x.tag := by
  unfold putIn link
  cases name (x.tag i) <;> cases front <;> simp

@[simp] theorem tag_relocate (x : Index) (i : Nat) (t : Tag) (front : Bool) :
    (x.relocate i t front).tag = Function.update x.tag i t := by
  rw [relocate, tag_putIn, tag_retag, tag_takeOut]

theorem Lists.takeOut {x : Index} {q : Name → List Nat} {i : Nat} (h : Lists x q) (hi : i < maxEntries) :
    Threads (x.takeOut i) (fun m => (q m).erase i) := by
  unfold Index.takeOut
  cases hn : name (x.tag i) with
  | some nm => exact h.threads.unlinkFrom ((h.mem nm i).2 ⟨hi, hn⟩)
  | none =>
    have hout : ∀ m, i ∉ q m := fun m hm => by
      rw [(h.mem m i), hn] at hm
      exact absurd hm.2 (by simp)
    have : (fun m => (q m).erase i) = q := by
      funext m
      exact List.erase_of_not_mem (hout m)
    rw [this]
    exact h.threads

/-- **A slot that is moved by its tags leaves every queue a list of the slots tagged for it.** -/
theorem Lists.relocate {x : Index} {q : Name → List Nat} {i : Nat} (h : Lists x q) (hi : i < maxEntries) (t : Tag)
    (front : Bool) : Lists (x.relocate i t front) (requeue q i t front) := by
  have hout : ∀ m, i ∉ (q m).erase i := fun m => (h.queue m).nodup.not_mem_erase
  have hth := (h.takeOut hi).retag i t
  have htag : ((x.takeOut i).retag i t).tag i = t := by simp
  have hth' : Threads (x.relocate i t front) (requeue q i t front) := by
    unfold Index.relocate Index.putIn
    rw [htag]
    cases hn : name t with
    | none =>
      have : requeue q i t front = fun m => (q m).erase i := by funext m; simp [requeue, hn]
      rw [this]
      exact hth
    | some nm =>
      have hq : requeue q i t front
          = Function.update (fun m => (q m).erase i) nm (joined front i ((q nm).erase i)) := by
        funext m
        by_cases hm : m = nm
        · subst hm; simp [requeue, hn]
        · simp [requeue, hn, hm, Ne.symm hm]
      rw [hq]
      exact hth.link front hout
  refine ⟨hth'.queue, fun nm j => ?_⟩
  rw [tag_relocate]
  by_cases hj : j = i
  · subst hj
    rw [Function.update_self, requeue]
    by_cases hn : name t = some nm
    · simp [hn, mem_joined, hi]
    · simp [hn, hout nm]
  · rw [Function.update_of_ne hj, requeue, ← h.mem nm j]
    by_cases hn : name t = some nm
    · rw [if_pos hn, mem_joined, List.mem_erase_of_ne hj]
      exact or_iff_right hj
    · rw [if_neg hn, List.mem_erase_of_ne hj]

end Index
end PageIndex
end R4
