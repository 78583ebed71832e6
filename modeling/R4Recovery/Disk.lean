import R4Recovery.Buffer
/-!
# Disk — a byte-addressed disk and programs on a faulty device

A disk is its bytes.  A program is a run under a fault pattern: operation after operation, the pattern says whether it
reports an error and what a write leaves in its range.  Reads are honest, so a read-back says what the disk holds.
`Writes x ws` bounds what a program can write whatever fails; `Io.bind_ok` takes a successful run apart.
-/
namespace R4

abbrev Disk := Nat → UInt8

namespace Disk

/-- The `len` bytes from `off`. -/
def read (d : Disk) (off len : Nat) : Bytes := (List.range len).map (fun i => d (off + i))

def write (d : Disk) (off : Nat) (v : Bytes) : Disk := fun i => if off ≤ i then (v[i - off]?).getD (d i) else d i

@[simp] theorem length_read (d : Disk) (off len : Nat) : (d.read off len).length = len := by simp [read]

theorem getElem?_read (d : Disk) (off len i : Nat) : (d.read off len)[i]? = if i < len then some (d (off + i)) else none := by
  rw [read, List.getElem?_map]
  by_cases h : i < len
  · rw [if_pos h, List.getElem?_range h, Option.map_some]
  · rw [if_neg h, List.getElem?_eq_none (by simpa using h), Option.map_none]

theorem read_congr {d d' : Disk} {off len : Nat} (h : ∀ i, off ≤ i → i < off + len → d' i = d i) :
    d'.read off len = d.read off len := by
  refine List.ext_getElem? (fun i => ?_)
  rw [getElem?_read, getElem?_read]
  by_cases hi : i < len
  · rw [if_pos hi, if_pos hi, h _ (by omega) (by omega)]
  · rw [if_neg hi, if_neg hi]

theorem read_write (d : Disk) (off : Nat) (v : Bytes) : (d.write off v).read off v.length = v := by
  refine List.ext_getElem? (fun i => ?_)
  rw [getElem?_read]
  by_cases hi : i < v.length
  · rw [if_pos hi, write, if_pos (by omega), Nat.add_sub_cancel_left, List.getElem?_eq_getElem hi]
    rfl
  · rw [if_neg hi, List.getElem?_eq_none (by omega)]

theorem write_off {d : Disk} {off i : Nat} {v : Bytes} (h : i < off ∨ off + v.length ≤ i) : d.write off v i = d i := by
  unfold write
  by_cases ho : off ≤ i
  · have hv : v[i - off]? = none := List.getElem?_eq_none (by omega)
    rw [if_pos ho, hv]
    rfl
  · rw [if_neg ho]

theorem slice_read (d : Disk) {off len i n : Nat} (h : i + n ≤ len) : slice (d.read off len) i n = d.read (off + i) n := by
  refine List.ext_getElem? (fun k => ?_)
  rw [getElem?_slice, getElem?_read, getElem?_read]
  by_cases hk : k < n
  · rw [if_pos hk, if_pos hk, if_pos (by omega), Nat.add_assoc]
  · rw [if_neg hk, if_neg hk]

theorem read_append (d : Disk) (off m n : Nat) : d.read off (m + n) = d.read off m ++ d.read (off + m) n := by
  have h := slice_append (d.read off (m + n)) 0 m n
  rw [slice_all (length_read d off _), slice_read d (by omega), slice_read d (by omega)] at h
  simpa using h

theorem write_append (d : Disk) (off : Nat) (a b : Bytes) : d.write off (a ++ b) = (d.write off a).write (off + a.length) b := by
  funext i
  unfold write
  by_cases h1 : off ≤ i
  · by_cases h2 : off + a.length ≤ i
    · have h3 : i - off - a.length = i - (off + a.length) := by omega
      rw [if_pos h1, if_pos h2, List.getElem?_append_right (by omega), h3, if_pos h1, List.getElem?_eq_none (l := a) (by omega)]
      rfl
    · rw [if_pos h1, if_neg h2, List.getElem?_append_left (by omega), if_pos h1]
  · rw [if_neg h1, if_neg (by omega), if_neg h1]

theorem write_nil (d : Disk) (off : Nat) : d.write off [] = d := by
  funext i
  exact write_off (by simp; omega)

/-- Writes at sector addresses, in order. -/
def apply (d : Disk) (ws : List (Nat × Bytes)) : Disk := ws.foldl (fun d w => d.write (512 * w.1) w.2) d

theorem apply_append (d : Disk) (us vs : List (Nat × Bytes)) : d.apply (us ++ vs) = (d.apply us).apply vs :=
  List.foldl_append

theorem read_apply_off {off len : Nat} : ∀ {ws : List (Nat × Bytes)} {d : Disk},
    (∀ w ∈ ws, off + len ≤ 512 * w.1 ∨ 512 * w.1 + w.2.length ≤ off) → (d.apply ws).read off len = d.read off len
  | [], _, _ => rfl
  | w :: ws, d, h => by
    obtain ⟨h1, h2⟩ := List.forall_mem_cons.1 h
    show ((d.write (512 * w.1) w.2).apply ws).read off len = _
    rw [read_apply_off h2]
    exact read_congr (fun i hi hlt => write_off (by omega))

theorem read_apply_mid {d : Disk} {u v : List (Nat × Bytes)} {lba : Nat} {data : Bytes}
    (h : ∀ w ∈ v, 512 * lba + data.length ≤ 512 * w.1 ∨ 512 * w.1 + w.2.length ≤ 512 * lba) :
    (d.apply (u ++ (lba, data) :: v)).read (512 * lba) data.length = data := by
  have happ : d.apply (u ++ (lba, data) :: v) = ((d.apply u).write (512 * lba) data).apply v := apply_append d u _
  rw [happ, read_apply_off h, read_write]

end Disk

/-- The sectors of a write, one by one. -/
def sectorsOf (w : Nat × Bytes) : List (Nat × Bytes) :=
  (List.range (w.2.length / 512)).map (fun i => (w.1 + i, slice w.2 (512 * i) 512))

/-- The sector writes of a list of writes. -/
def sectorWrites (ws : List (Nat × Bytes)) : List (Nat × Bytes) := ws.flatMap sectorsOf

@[simp] theorem sectorWrites_nil : sectorWrites [] = [] := rfl

theorem sectorWrites_cons (w : Nat × Bytes) (ws : List (Nat × Bytes)) : sectorWrites (w :: ws) = sectorsOf w ++ sectorWrites ws :=
  List.flatMap_cons

theorem sectorWrites_append (us vs : List (Nat × Bytes)) : sectorWrites (us ++ vs) = sectorWrites us ++ sectorWrites vs :=
  List.flatMap_append

theorem apply_range (d : Disk) (lba : Nat) (data : Bytes) : ∀ n : Nat, 512 * n ≤ data.length →
    d.apply ((List.range n).map (fun i => (lba + i, slice data (512 * i) 512))) = d.write (512 * lba) (slice data 0 (512 * n))
  | 0, _ => (d.write_nil (512 * lba)).symm
  | n + 1, h => by
    have hlen : (slice data 0 (512 * n)).length = 512 * n := length_slice (by omega)
    have hoff : 512 * (lba + n) = 512 * lba + (slice data 0 (512 * n)).length := by omega
    rw [List.range_succ, List.map_append, Disk.apply_append, apply_range d lba data n (by omega), Nat.mul_succ, slice_append,
      Disk.write_append, Nat.zero_add, ← hoff]
    rfl

/-- **Sector by sector a write is the whole write.** -/
theorem apply_sectorsOf (d : Disk) {lba n : Nat} {data : Bytes} (h : data.length = 512 * n) :
    d.apply (sectorsOf (lba, data)) = d.write (512 * lba) data := by
  have hn : data.length / 512 = n := by omega
  rw [sectorsOf]
  simp only [hn]
  rw [apply_range d lba data n (by omega), slice_all h]

theorem mem_sectorsOf {w s : Nat × Bytes} (h : s ∈ sectorsOf w) :
    w.1 ≤ s.1 ∧ s.1 < w.1 + w.2.length / 512 ∧ s.2.length ≤ 512 := by
  obtain ⟨i, hi, rfl⟩ := List.mem_map.1 h
  have hlt := List.mem_range.1 hi
  exact ⟨Nat.le_add_right _ _, Nat.add_lt_add_left hlt _, length_slice_le _ _ _⟩

theorem mem_sectorWrites {ws : List (Nat × Bytes)} {s : Nat × Bytes} (h : s ∈ sectorWrites ws) :
    ∃ w ∈ ws, w.1 ≤ s.1 ∧ s.1 < w.1 + w.2.length / 512 ∧ s.2.length ≤ 512 := by
  obtain ⟨w, hw, hs⟩ := List.mem_flatMap.1 h
  exact ⟨w, hw, mem_sectorsOf hs⟩

theorem sectorWrites_mono {us ws : List (Nat × Bytes)} (h : us <+: ws) : sectorWrites us <+: sectorWrites ws := by
  obtain ⟨t, rfl⟩ := h
  exact ⟨sectorWrites t, (sectorWrites_append us t).symm⟩

theorem prefix_append_cases {α : Type} {us a b : List α} (h : us <+: a ++ b) : us <+: a ∨ ∃ t, us = a ++ t ∧ t <+: b := by
  by_cases hlen : us.length ≤ a.length
  · exact .inl (List.prefix_of_prefix_length_le h (List.prefix_append a b) hlen)
  · obtain ⟨t, rfl⟩ := List.prefix_of_prefix_length_le (List.prefix_append a b) h (by omega)
    exact .inr ⟨t, rfl, (List.prefix_append_right_inj a).1 h⟩

/-! ## Programs under faults -/

/-- What goes wrong in one operation: it reports an error, and a write leaves other bytes in its range than its data. -/
structure Fault where
  fails : Bool := false
  leaves : Option Disk := none

/-- A fault for each operation, in the order the operations reach the backend. -/
abbrev Faults := Nat → Fault

def noFaults : Faults := fun _ => {}

/-- The disk, the number of operations so far, and the writes handed to the backend, in order. -/
structure World where
  disk : Disk
  clock : Nat := 0
  issued : List (Nat × Bytes) := []

def World.tick (w : World) : World := { w with clock := w.clock + 1 }

/-- The backend's write: the data, or what the fault leaves in the data's range. -/
def World.wrote (w : World) (fault : Fault) (lba : Nat) (data : Bytes) : World :=
  { disk := w.disk.write (512 * lba) (match fault.leaves with | none => data | some left => left.read (512 * lba) data.length)
    clock := w.clock + 1
    issued := w.issued ++ [(lba, data)] }

def Io (ε α : Type) : Type := Faults → World → Except ε α × World

namespace Io

variable {ε α β : Type}

def pure (a : α) : Io ε α := fun _ w => (.ok a, w)

def bind (x : Io ε α) (f : α → Io ε β) : Io ε β := fun F w =>
  match x F w with
  | (.ok a, w') => f a F w'
  | (.error e, w') => (.error e, w')

instance : Monad (Io ε) where
  pure := Io.pure
  bind := Io.bind

/-- A pure result, `try`ed. -/
def lift (r : Except ε α) : Io ε α := fun _ w => (r, w)

def throw (e : ε) : Io ε α := lift (.error e)

/-- `if (bad) return e`. -/
def refuse (bad : Bool) (e : ε) : Io ε Unit := lift (if bad then .error e else .ok ())

/-- A step that touches no sector and may fail. -/
def step (e : ε) : Io ε Unit := fun F w => (if (F w.clock).fails then .error e else .ok (), w.tick)

/-- The backend read: an error, or the bytes the disk holds. -/
def readRaw (e : ε) (lba len : Nat) : Io ε Bytes := fun F w =>
  (if (F w.clock).fails then .error e else .ok (w.disk.read (512 * lba) len), w.tick)

/-- The backend write; whatever it reports, it changes its own range only. -/
def writeRaw (e : ε) (lba : Nat) (data : Bytes) : Io ε Unit := fun F w =>
  (if (F w.clock).fails then .error e else .ok (), w.wrote (F w.clock) lba data)

end Io

section Runs

variable {ε α β : Type} {x : Io ε α} {f : α → Io ε β} {F : Faults} {w w' : World}

/-- **A run that succeeds is a run of each part that succeeds.** -/
theorem Io.bind_ok {b : β} (h : (x >>= f) F w = (.ok b, w')) :
    ∃ a w1, x F w = (.ok a, w1) ∧ f a F w1 = (.ok b, w') := by
  change Io.bind x f F w = _ at h
  unfold Io.bind at h
  split at h
  · rename_i a w1 hx
    exact ⟨a, w1, hx, h⟩
  · cases h

theorem Io.bind_run {a : α} {w1 : World} (h : x F w = (.ok a, w1)) : (x >>= f) F w = f a F w1 := by
  change Io.bind x f F w = _
  unfold Io.bind
  rw [h]

theorem Io.lift_ok {r : Except ε α} {a : α} (h : Io.lift r F w = (.ok a, w')) : r = .ok a ∧ w = w' := by
  cases h; exact ⟨rfl, rfl⟩

theorem Io.refuse_ok {bad : Bool} {e : ε} {u : Unit} (h : Io.refuse bad e F w = (.ok u, w')) : bad = false ∧ w = w' := by
  obtain ⟨h1, h2⟩ := Io.lift_ok h
  refine ⟨?_, h2⟩
  cases bad with
  | false => rfl
  | true => cases h1

theorem Io.pure_ok {a b : α} (h : (Pure.pure a : Io ε α) F w = (.ok b, w')) : a = b ∧ w = w' := by
  cases h; exact ⟨rfl, rfl⟩

theorem Io.readRaw_ok {e : ε} {lba len : Nat} {b : Bytes} (h : Io.readRaw e lba len F w = (.ok b, w')) :
    w.disk.read (512 * lba) len = b ∧ w.tick = w' := by
  unfold Io.readRaw at h
  rw [Prod.mk.injEq] at h
  obtain ⟨h1, rfl⟩ := h
  split at h1
  · cases h1
  · cases h1; exact ⟨rfl, rfl⟩

end Runs

/-! ## What a program can write -/

/-- A byte outside every write of the list. -/
def Outside (ws : List (Nat × Bytes)) (i : Nat) : Prop := ∀ p ∈ ws, i < 512 * p.1 ∨ 512 * p.1 + p.2.length ≤ i

/-- From `w` to `w'` exactly the writes `ws` were handed to the backend, and nothing outside them changed. -/
def Wrote (ws : List (Nat × Bytes)) (w w' : World) : Prop :=
  w'.issued = w.issued ++ ws ∧ ∀ i, Outside ws i → w'.disk i = w.disk i

/-- Whatever fails, a run hands a prefix of `ws` to the backend; a run that succeeds hands over all of it. -/
def Writes {ε α : Type} (x : Io ε α) (ws : List (Nat × Bytes)) : Prop :=
  ∀ F w, ∃ us, us <+: ws ∧ Wrote us w (x F w).2 ∧ ∀ a, (x F w).1 = .ok a → us = ws

theorem Wrote.refl (w : World) : Wrote [] w w := ⟨by simp, fun _ _ => rfl⟩

theorem Wrote.tick (w : World) : Wrote [] w w.tick := ⟨by simp [World.tick], fun _ _ => rfl⟩

theorem Wrote.trans {us vs : List (Nat × Bytes)} {w w1 w2 : World} (h1 : Wrote us w w1) (h2 : Wrote vs w1 w2) :
    Wrote (us ++ vs) w w2 := by
  refine ⟨by rw [h2.1, h1.1, List.append_assoc], fun i hi => ?_⟩
  rw [h2.2 i (fun p hp => hi p (by simp [hp])), h1.2 i (fun p hp => hi p (by simp [hp]))]

theorem Wrote.wrote (w : World) (fault : Fault) (lba : Nat) (data : Bytes) :
    Wrote [(lba, data)] w (w.wrote fault lba data) := by
  refine ⟨rfl, fun i hi => ?_⟩
  have h := hi (lba, data) (by simp)
  refine Disk.write_off ?_
  cases fault.leaves with
  | none => exact h
  | some left => simpa using h

theorem Wrote.read_eq {ws : List (Nat × Bytes)} {w w' : World} {off len : Nat} (h : Wrote ws w w')
    (ho : ∀ p ∈ ws, off + len ≤ 512 * p.1 ∨ 512 * p.1 + p.2.length ≤ off) : w'.disk.read off len = w.disk.read off len :=
  Disk.read_congr (fun i hi hlt => h.2 i (fun p hp => by have := ho p hp; omega))

namespace Writes

variable {ε α β : Type}

theorem run {x : Io ε α} {ws : List (Nat × Bytes)} (h : Writes x ws) {F : Faults} {w w' : World} {a : α}
    (hx : x F w = (.ok a, w')) : Wrote ws w w' := by
  obtain ⟨us, -, hw, hok⟩ := h F w
  rw [hx] at hw hok
  obtain rfl := hok a rfl
  exact hw

theorem lift (r : Except ε α) : Writes (Io.lift r) [] := fun _ w => ⟨[], List.nil_prefix, Wrote.refl w, fun _ _ => rfl⟩

theorem refuse (bad : Bool) (e : ε) : Writes (Io.refuse bad e) [] := lift _

theorem pure (a : α) : Writes (Pure.pure a : Io ε α) [] := fun _ w => ⟨[], List.nil_prefix, Wrote.refl w, fun _ _ => rfl⟩

theorem throw (e : ε) (ws : List (Nat × Bytes)) : Writes (Io.throw e : Io ε α) ws := fun _ w =>
  ⟨[], List.nil_prefix, Wrote.refl w, fun _ h => by cases h⟩

/-- **Writes in sequence.** -/
theorem bind {x : Io ε α} {f : α → Io ε β} {u v : List (Nat × Bytes)} (hx : Writes x u) (hf : ∀ a, Writes (f a) v) :
    Writes (x >>= f) (u ++ v) := by
  intro F w
  obtain ⟨us', hpre, hw, hok⟩ := hx F w
  rcases hrun : x F w with ⟨r, w1⟩
  rw [hrun] at hw hok
  cases r with
  | error e =>
    have hrun' : (x >>= f) F w = (.error e, w1) := by
      change Io.bind x f F w = _
      unfold Io.bind
      rw [hrun]
    rw [hrun']
    exact ⟨us', hpre.trans (List.prefix_append u v), hw, fun _ h => by cases h⟩
  | ok a =>
    rw [Io.bind_run hrun]
    obtain rfl := hok a rfl
    obtain ⟨vs', hpre', hw', hok'⟩ := hf a F w1
    exact ⟨us' ++ vs', (List.prefix_append_right_inj us').2 hpre', hw.trans hw', fun b hb => by rw [hok' b hb]⟩

theorem bindNil {x : Io ε α} {f : α → Io ε β} {vs : List (Nat × Bytes)} (hx : Writes x []) (hf : ∀ a, Writes (f a) vs) :
    Writes (x >>= f) vs := bind hx hf

theorem ite {p : Prop} [Decidable p] {x y : Io ε α} {ws : List (Nat × Bytes)} (hx : p → Writes x ws) (hy : ¬ p → Writes y ws) :
    Writes (if p then x else y) ws := by
  split
  · rename_i h; exact hx h
  · rename_i h; exact hy h

theorem step (e : ε) : Writes (Io.step e) [] := fun _ w => ⟨[], List.nil_prefix, Wrote.tick w, fun _ _ => rfl⟩

theorem readRaw (e : ε) (lba len : Nat) : Writes (Io.readRaw e lba len) [] := fun _ w =>
  ⟨[], List.nil_prefix, Wrote.tick w, fun _ _ => rfl⟩

theorem writeRaw (e : ε) (lba : Nat) (data : Bytes) : Writes (Io.writeRaw e lba data) [(lba, data)] := fun _ w =>
  ⟨[(lba, data)], List.prefix_refl _, Wrote.wrote w _ lba data, fun _ _ => rfl⟩

end Writes

theorem Writes.bind_cases {ε α β : Type} {x : Io ε α} {f : α → Io ε β} (h : Writes x []) (F : Faults) (w : World) :
    (∃ e w1, (x >>= f) F w = (.error e, w1) ∧ Wrote [] w w1) ∨
    ∃ a w1, x F w = (.ok a, w1) ∧ Wrote [] w w1 ∧ (x >>= f) F w = f a F w1 := by
  obtain ⟨us, hpre, hw, -⟩ := h F w
  obtain rfl := List.prefix_nil.1 hpre
  rcases hx : x F w with ⟨e | a, w1⟩
  · rw [hx] at hw
    refine .inl ⟨e, w1, ?_, hw⟩
    change Io.bind x f F w = _
    unfold Io.bind
    rw [hx]
  · rw [hx] at hw
    exact .inr ⟨a, w1, rfl, hw, Io.bind_run hx⟩

/-! ## Undisturbed reads -/

/-- On the disk `d` the program returns `a` when nothing fails, and writes nothing. -/
def Reads {ε α : Type} (d : Disk) (x : Io ε α) (a : α) : Prop :=
  ∀ w, w.disk = d → ∃ w', x noFaults w = (.ok a, w') ∧ w'.disk = d

namespace Reads

variable {ε α β : Type} {d : Disk}

theorem pure (a : α) : Reads d (Pure.pure a : Io ε α) a := fun w hw => ⟨w, rfl, hw⟩

theorem lift {r : Except ε α} {a : α} (h : r = .ok a) : Reads d (Io.lift r) a := fun w hw => ⟨w, by rw [h]; rfl, hw⟩

theorem refuse {bad : Bool} (e : ε) (h : bad = false) : Reads d (Io.refuse bad e) () := lift (by rw [h]; rfl)

theorem bind {x : Io ε α} {f : α → Io ε β} {a : α} {b : β} (hx : Reads d x a) (hf : Reads d (f a) b) :
    Reads d (x >>= f) b := by
  intro w hw
  obtain ⟨w1, h1, hw1⟩ := hx w hw
  obtain ⟨w2, h2, hw2⟩ := hf w1 hw1
  exact ⟨w2, by rw [Io.bind_run h1, h2], hw2⟩

theorem bindSome {x : Io ε α} {f : α → Io ε β} {a : α} (hx : Reads d x a) (hf : ∃ b, Reads d (f a) b) :
    ∃ b, Reads d (x >>= f) b := by
  obtain ⟨b, hb⟩ := hf
  exact ⟨b, bind hx hb⟩

theorem step (e : ε) : Reads d (Io.step e) () := fun w hw => ⟨w.tick, rfl, hw⟩

end Reads

/-- **A program that writes nothing leaves the disk as it is**, whatever fails. -/
theorem Writes.disk_eq {ε α : Type} {x : Io ε α} (h : Writes x []) (F : Faults) (w : World) : (x F w).2.disk = w.disk := by
  obtain ⟨us, hpre, hw, -⟩ := h F w
  obtain rfl := List.prefix_nil.1 hpre
  funext i
  exact hw.2 i (fun p hp => by simp at hp)

end R4
