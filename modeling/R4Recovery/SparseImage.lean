import R4Recovery.Buffer
import R4Recovery.Installation
import R4Recovery.Stateful
/-!
# SparseImage — images taken in chunks and kept without their zero blocks

`sparse_image.zig` and the bounded reader of `byte_source.zig`.  Chunks of any length fill a pending block; a full block is
kept unless it is zero, and the short last block is kept when the image is finished.  An allocation of a block may fail.
-/
namespace R4
namespace SparseImage

def blockBytes : Nat := 64 * 1024

inductive Error where
  | imageLimit | sourceBounds | sourceIncomplete | outOfMemory
  deriving DecidableEq, Repr

/-- `pending` is the filled part of the pending block; `dupes` counts the allocations of blocks. -/
structure Image where
  length : Nat
  blocks : List (Option Bytes)
  written : Nat := 0
  storedBytes : Nat := 0
  pending : Bytes := []
  complete : Bool := false
  dupes : Nat := 0
  deriving DecidableEq

def Image.init (length : Nat) : Except Error Image :=
  if Installation.standardBytes < length then .error .imageLimit
  else .ok { length, blocks := List.replicate ((length + (blockBytes - 1)) / blockBytes) none }

section Allocator

-- whether the allocator grants its block of that number
variable (grants : Nat → Bool)

def storePending : Stateful Image Error Unit := fun image =>
  if image.pending = [] then (.ok (), image)
  else if allZero image.pending then (.ok (), { image with pending := [] })
  else if !grants image.dupes then (.error .outOfMemory, { image with dupes := image.dupes + 1 })
  else
    (.ok (), { image with
      blocks := image.blocks.set ((image.written - image.pending.length) / blockBytes) (some image.pending)
      storedBytes := image.storedBytes + image.pending.length
      pending := []
      dupes := image.dupes + 1 })

/-- The next bytes of a chunk go behind the pending ones. -/
def Image.fill (image : Image) (bytes : Bytes) : Image :=
  { image with pending := image.pending ++ bytes, written := image.written + bytes.length }

/-- The loop of `append`: each turn but one behind a refused block takes a byte at least. -/
def appendLoop : Nat → Bytes → Stateful Image Error Unit
  | 0, _ => pure ()
  | fuel + 1, bytes => fun image =>
    if bytes = [] then (.ok (), image)
    else
      let count := min (blockBytes - image.pending.length) bytes.length
      let filled := image.fill (bytes.take count)
      if filled.pending.length = blockBytes then
        (storePending grants >>= fun _ => appendLoop fuel (bytes.drop count)) filled
      else appendLoop fuel (bytes.drop count) filled

def append (bytes : Bytes) : Stateful Image Error Unit := fun image =>
  if image.complete || decide (image.length - image.written < bytes.length) then (.error .sourceBounds, image)
  else appendLoop grants (bytes.length + 2) bytes image

def finish : Stateful Image Error Unit := fun image =>
  if image.complete || image.written != image.length then (.error .sourceBounds, image)
  else (storePending grants >>= fun _ => Stateful.update (fun image => { image with complete := true })) image

def appendAll : List Bytes → Stateful Image Error Unit
  | [] => pure ()
  | chunk :: rest => do
    append grants chunk
    appendAll rest

end Allocator

/-- The loop of `read`. -/
def Image.readLoop (image : Image) : Nat → Nat → Nat → Bytes
  | 0, _, _ => []
  | fuel + 1, offset, len =>
    if len = 0 then []
    else
      let within := offset % blockBytes
      let count := min (blockBytes - within) len
      let piece := match image.blocks.getD (offset / blockBytes) none with
        | some bytes => slice bytes within count
        | none => zeros count
      piece ++ image.readLoop fuel (offset + count) (len - count)

def Image.read (image : Image) (offset len : Nat) : Except Error Bytes :=
  if !image.complete then .error .sourceIncomplete else .ok (image.readLoop len offset len)

structure Source where
  length : Nat
  offset : Nat := 0
  readFn : Nat → Nat → Except Error Bytes

def Source.read (source : Source) (start len : Nat) : Except Error Bytes :=
  if source.length < start ∨ source.length - start < len then .error .sourceBounds
  else source.readFn (source.offset + start) len

def Source.range (source : Source) (start len : Nat) : Except Error Source :=
  if source.length < start ∨ source.length - start < len then .error .sourceBounds
  else .ok { source with offset := source.offset + start, length := len }

def Image.source (image : Image) : Source := { length := image.length, readFn := image.read }

/-! ## What an image holds -/

/-- What is kept of a block. -/
def kept (block : Bytes) : Option Bytes := if allZero block then none else some block

def blockOf (data : Bytes) (i : Nat) : Bytes := slice data (i * blockBytes) blockBytes

/-- **The image has taken `data`**: `q` blocks are settled, what is behind them is pending. -/
structure Holds (image : Image) (data : Bytes) (q : Nat) : Prop where
  written : image.written = data.length
  fits : data.length ≤ image.length
  unfinished : image.complete = false
  size : image.blocks.length = (image.length + (blockBytes - 1)) / blockBytes
  pending : image.pending = data.drop (q * blockBytes)
  reach : q * blockBytes ≤ data.length ∧ data.length ≤ (q + 1) * blockBytes
  block : ∀ i, i < image.blocks.length → image.blocks[i]? = some (if i < q then kept (blockOf data i) else none)

variable (grants : Nat → Bool) {image next : Image} {data : Bytes} {q : Nat}

theorem Holds.length_pending (h : Holds image data q) : image.pending.length = data.length - q * blockBytes := by
  rw [h.pending, List.length_drop]

theorem holds_init {length : Nat} (h : Image.init length = .ok image) : Holds image [] 0 ∧ image.length = length := by
  unfold Image.init at h
  split at h
  · cases h
  · cases h
    refine ⟨⟨rfl, Nat.zero_le _, rfl, List.length_replicate, rfl, by simp, fun i hi => ?_⟩, rfl⟩
    rw [List.length_replicate] at hi
    rw [List.getElem?_replicate, if_pos hi, if_neg (Nat.not_lt_zero i)]

/-- What storing the pending block leaves: every block that has data is settled. -/
structure Settled (image : Image) (data : Bytes) : Prop where
  size : image.blocks.length = (image.length + (blockBytes - 1)) / blockBytes
  block : ∀ i, i < image.blocks.length →
    image.blocks[i]? = some (if i * blockBytes < data.length then kept (blockOf data i) else none)

/-- **Storing the pending block** succeeds, or the allocator refuses. -/
theorem storePending_cases (h : Holds image data q) :
    (∃ next, storePending grants image = (.ok (), next) ∧ Settled next data ∧ next.pending = [] ∧ next.length = image.length ∧
      next.written = image.written ∧ next.complete = false) ∨
    (∃ next k, storePending grants image = (.error .outOfMemory, next) ∧ grants k = false ∧ next.complete = false) := by
  have hlen := h.length_pending
  have hreach := h.reach
  -- a settled block in front of `q` has data; the one at `q` has data when bytes are pending
  have hfront : ∀ i, i < q → i * blockBytes < data.length := by
    intro i hi
    have : (i + 1) * blockBytes ≤ q * blockBytes := Nat.mul_le_mul_right _ hi
    rw [Nat.succ_mul] at this
    have : 0 < blockBytes := by decide
    omega
  have hbehind : ∀ i, q < i → ¬ i * blockBytes < data.length := by
    intro i hi
    have : (q + 1) * blockBytes ≤ i * blockBytes := Nat.mul_le_mul_right _ hi
    omega
  unfold storePending
  by_cases hempty : image.pending = []
  · rw [if_pos hempty]
    refine .inl ⟨image, rfl, ⟨h.size, fun i hi => ?_⟩, hempty, rfl, rfl, h.unfinished⟩
    rw [h.block i hi]
    have hq : ¬ q * blockBytes < data.length := by
      rw [hempty] at hlen
      simp at hlen
      omega
    by_cases hlt : i < q
    · rw [if_pos hlt, if_pos (hfront i hlt)]
    · rw [if_neg hlt, if_neg]
      rcases Nat.lt_or_eq_of_le (Nat.not_lt.1 hlt) with hi' | rfl
      · exact hbehind i hi'
      · exact hq
  rw [if_neg hempty]
  have hq : q * blockBytes < data.length := by
    have := List.length_pos_of_ne_nil hempty
    omega
  have hblock : blockOf data q = image.pending := by
    rw [h.pending, blockOf, slice, List.take_of_length_le]
    rw [List.length_drop]
    have := hreach.2
    rw [Nat.succ_mul] at this
    omega
  have hsettled : ∀ i, i < image.blocks.length → i ≠ q → image.blocks[i]? =
      some (if i * blockBytes < data.length then kept (blockOf data i) else none) := by
    intro i hi hne
    rw [h.block i hi]
    rcases Nat.lt_or_gt_of_ne hne with hlt | hlt
    · rw [if_pos hlt, if_pos (hfront i hlt)]
    · rw [if_neg (by omega), if_neg (hbehind i hlt)]
  by_cases hzero : allZero image.pending = true
  · rw [if_pos hzero]
    refine .inl ⟨_, rfl, ⟨h.size, fun i hi => ?_⟩, rfl, rfl, rfl, h.unfinished⟩
    have hi : i < image.blocks.length := hi
    by_cases hne : i = q
    · subst hne
      show image.blocks[i]? = _
      rw [h.block i hi, if_neg (Nat.lt_irrefl i), if_pos hq, hblock, kept, if_pos hzero]
    · exact hsettled i hi hne
  rw [if_neg hzero]
  by_cases hgrant : grants image.dupes = true
  · rw [if_neg (by simp [hgrant])]
    refine .inl ⟨_, rfl, ⟨by simpa using h.size, fun i hi => ?_⟩, rfl, rfl, rfl, h.unfinished⟩
    have hi : i < image.blocks.length := by simpa using hi
    have hindex : (image.written - image.pending.length) / blockBytes = q := by
      rw [h.written, hlen, show data.length - (data.length - q * blockBytes) = q * blockBytes by omega]
      exact Nat.mul_div_cancel _ (by decide)
    show (image.blocks.set _ _)[i]? = _
    rw [hindex, List.getElem?_set]
    by_cases hne : q = i
    · subst hne
      rw [if_pos rfl, if_pos hi, if_pos hq, hblock, kept, if_neg hzero]
    · rw [if_neg hne]
      exact hsettled i hi (Ne.symm hne)
  · rw [if_pos (by simpa using hgrant)]
    exact .inr ⟨_, image.dupes, rfl, by simpa using hgrant, h.unfinished⟩

/-! ## Taking a chunk -/

theorem blockOf_append {i : Nat} (h : (i + 1) * blockBytes ≤ data.length) (bytes : Bytes) :
    blockOf (data ++ bytes) i = blockOf data i := by
  rw [Nat.succ_mul] at h
  rw [blockOf, blockOf, slice, slice, List.drop_append_of_le_length (by omega), List.take_append_of_le_length]
  rw [List.length_drop]
  omega

theorem Holds.fill (h : Holds image data q) {bytes : Bytes} (hfits : data.length + bytes.length ≤ image.length)
    (hroom : image.pending.length + bytes.length ≤ blockBytes) : Holds (image.fill bytes) (data ++ bytes) q := by
  have hlen := h.length_pending
  have hreach := h.reach
  rw [Nat.succ_mul] at hreach
  refine ⟨?_, ?_, h.unfinished, h.size, ?_, ?_, fun i hi => ?_⟩
  · show image.written + bytes.length = _
    rw [h.written, List.length_append]
  · rw [List.length_append]
    exact hfits
  · show image.pending ++ bytes = _
    rw [h.pending, List.drop_append_of_le_length hreach.1]
  · rw [List.length_append, Nat.succ_mul]
    omega
  · have hi : i < image.blocks.length := hi
    show image.blocks[i]? = _
    rw [h.block i hi]
    by_cases hq : i < q
    · have : (i + 1) * blockBytes ≤ q * blockBytes := Nat.mul_le_mul_right _ hq
      rw [if_pos hq, if_pos hq, blockOf_append (by omega)]
    · rw [if_neg hq, if_neg hq]

theorem Settled.holds (h : Settled image data) (hwritten : image.written = data.length) (hfits : data.length ≤ image.length)
    (hunfinished : image.complete = false) (hpending : image.pending = []) (hfull : data.length = (q + 1) * blockBytes) :
    Holds image data (q + 1) := by
  have hpos : 0 < blockBytes := by decide
  refine ⟨hwritten, hfits, hunfinished, h.size, ?_, ?_, fun i hi => ?_⟩
  · rw [hpending, ← hfull, List.drop_length]
  · rw [Nat.succ_mul (q + 1)]
    omega
  · simp only [h.block i hi, hfull, Nat.mul_lt_mul_right hpos]

/-- **The loop of `append`**: the bytes are taken, or the allocator refuses a block. -/
theorem appendLoop_cases : ∀ (fuel : Nat) (bytes : Bytes) (image : Image) (data : Bytes) (q : Nat), Holds image data q →
    image.pending.length < blockBytes → bytes.length < fuel → data.length + bytes.length ≤ image.length →
    (∃ next q', appendLoop grants fuel bytes image = (.ok (), next) ∧ Holds next (data ++ bytes) q' ∧
      next.pending.length < blockBytes ∧ next.length = image.length) ∨
    (∃ next k, appendLoop grants fuel bytes image = (.error .outOfMemory, next) ∧ grants k = false ∧ next.complete = false)
  | 0, _, _, _, _, _, _, h, _ => absurd h (Nat.not_lt_zero _)
  | fuel + 1, bytes, image, data, q, hold, hpending, hfuel, hfits => by
    unfold appendLoop
    by_cases hbytes : bytes = []
    · subst hbytes
      refine .inl ⟨image, q, by rw [if_pos rfl], ?_, hpending, rfl⟩
      rw [List.append_nil]
      exact hold
    rw [if_neg hbytes]
    have hpos := List.length_pos_of_ne_nil hbytes
    dsimp only
    generalize hcount : min (blockBytes - image.pending.length) bytes.length = count
    have htake : (bytes.take count).length = count := by
      rw [List.length_take]
      omega
    have hdrop : (bytes.drop count).length = bytes.length - count := List.length_drop
    have hfill : Holds (image.fill (bytes.take count)) (data ++ bytes.take count) q :=
      hold.fill (by omega) (by omega)
    have hjoin : data ++ bytes.take count ++ bytes.drop count = data ++ bytes := by
      rw [List.append_assoc, List.take_append_drop]
    have hsum : (data ++ bytes.take count).length = data.length + count := by rw [List.length_append, htake]
    by_cases hfull : (image.fill (bytes.take count)).pending.length = blockBytes
    · rw [if_pos hfull]
      rcases storePending_cases grants hfill with
        ⟨stored, hrun, hsettled, hempty, hlength, hwritten, hcomplete⟩ | ⟨next, k, hrun, hk, hcomplete⟩
      · rw [Stateful.bind_run hrun]
        have hblock : (data ++ bytes.take count).length = (q + 1) * blockBytes := by
          have := hfill.length_pending
          have := hfill.reach
          rw [Nat.succ_mul] at *
          omega
        have hstored : Holds stored (data ++ bytes.take count) (q + 1) :=
          hsettled.holds (hwritten.trans hfill.written) (hlength ▸ hfill.fits) hcomplete hempty hblock
        have hlength : stored.length = image.length := hlength
        have hnone : stored.pending.length < blockBytes := by
          rw [hempty]
          decide
        rcases appendLoop_cases fuel (bytes.drop count) stored _ _ hstored hnone (by omega) (by omega) with
          ⟨next, q', hnext, hold', hroom, hlen⟩ | hfail
        · rw [hjoin] at hold'
          exact .inl ⟨next, q', hnext, hold', hroom, hlen.trans hlength⟩
        · exact .inr hfail
      · exact .inr ⟨next, k, Stateful.bind_fail hrun, hk, hcomplete⟩
    · rw [if_neg hfull]
      have hroom : (image.fill (bytes.take count)).pending.length < blockBytes := by
        have : (image.fill (bytes.take count)).pending.length = image.pending.length + count := by
          show (image.pending ++ bytes.take count).length = _
          rw [List.length_append, htake]
        omega
      rcases appendLoop_cases fuel (bytes.drop count) _ _ _ hfill hroom (by omega)
        (show _ ≤ image.length by omega) with ⟨next, q', hnext, hold', hroom, hlen⟩ | hfail
      · rw [hjoin] at hold'
        exact .inl ⟨next, q', hnext, hold', hroom, hlen⟩
      · exact .inr hfail

/-- **`append`** takes its chunk when it fits and the allocator grants the blocks; a chunk that does not fit is refused. -/
theorem append_cases (bytes : Bytes) (h : Holds image data q) (hpending : image.pending.length < blockBytes) :
    (data.length + bytes.length ≤ image.length ∧ ∃ next q', append grants bytes image = (.ok (), next) ∧
      Holds next (data ++ bytes) q' ∧ next.pending.length < blockBytes ∧ next.length = image.length) ∨
    (image.length < data.length + bytes.length ∧ append grants bytes image = (.error .sourceBounds, image)) ∨
    (∃ next k, append grants bytes image = (.error .outOfMemory, next) ∧ grants k = false ∧ next.complete = false) := by
  have hfits := h.fits
  unfold append
  rw [h.unfinished, h.written, Bool.false_or]
  by_cases hroom : image.length < data.length + bytes.length
  · refine .inr (.inl ⟨hroom, if_pos ?_⟩)
    simp only [decide_eq_true_eq]
    omega
  · rw [if_neg (by simp only [decide_eq_true_eq]; omega)]
    rcases appendLoop_cases grants (bytes.length + 2) bytes image data q h hpending (by omega) (by omega) with
      hok | hfail
    · exact .inl ⟨by omega, hok⟩
    · exact .inr (.inr hfail)

/-- **A run of appends** takes all its chunks; where one does not fit, or the allocator refuses a block, the run fails. -/
theorem appendAll_cases : ∀ (chunks : List Bytes) (image : Image) (data : Bytes) (q : Nat), Holds image data q →
    image.pending.length < blockBytes →
    (data.length + chunks.flatten.length ≤ image.length ∧ ∃ next q', appendAll grants chunks image = (.ok (), next) ∧
      Holds next (data ++ chunks.flatten) q' ∧ next.pending.length < blockBytes ∧ next.length = image.length) ∨
    (∃ e next, appendAll grants chunks image = (.error e, next) ∧ next.complete = false ∧
      (image.length < data.length + chunks.flatten.length ∨ ∃ k, grants k = false))
  | [], image, data, q, hold, hpending => by
    have hfits := hold.fits
    refine .inl ⟨by simpa using hfits, image, q, rfl, ?_, hpending, rfl⟩
    rw [List.flatten_nil, List.append_nil]
    exact hold
  | chunk :: rest, image, data, q, hold, hpending => by
    rw [List.flatten_cons, ← List.append_assoc, List.length_append]
    unfold appendAll
    rcases append_cases grants chunk hold hpending with
      ⟨hfits, mid, q', hrun, hmid, hroom, hlength⟩ | ⟨hmany, hrun⟩ | ⟨next, k, hrun, hk, hcomplete⟩
    · rw [Stateful.bind_run hrun]
      rcases appendAll_cases rest mid _ _ hmid hroom with ⟨htotal, next, q'', hnext, hold', hroom', hlen⟩ | hfail
      · rw [List.length_append] at htotal
        exact .inl ⟨by omega, next, q'', hnext, hold', hroom', hlen.trans hlength⟩
      · obtain ⟨e, next, hnext, hcomplete, hwhy⟩ := hfail
        refine .inr ⟨e, next, hnext, hcomplete, ?_⟩
        rw [List.length_append, hlength] at hwhy
        rcases hwhy with hwhy | hwhy
        · exact .inl (by omega)
        · exact .inr hwhy
    · exact .inr ⟨.sourceBounds, image, Stateful.bind_fail hrun, hold.unfinished, .inl (by omega)⟩
    · exact .inr ⟨.outOfMemory, next, Stateful.bind_fail hrun, hcomplete, .inr ⟨k, hk⟩⟩

/-- **`finish`** completes an image that has all its bytes and refuses any other. -/
theorem finish_cases (h : Holds image data q) :
    (data.length = image.length ∧ ∃ next, finish grants image = (.ok (), next) ∧ Settled next data ∧
      next.length = image.length ∧ next.complete = true) ∨
    (data.length ≠ image.length ∧ finish grants image = (.error .sourceBounds, image)) ∨
    (∃ next k, finish grants image = (.error .outOfMemory, next) ∧ grants k = false ∧ next.complete = false) := by
  unfold finish
  rw [h.unfinished, h.written, Bool.false_or]
  by_cases hall : data.length = image.length
  · rw [if_neg (by simp [hall])]
    rcases storePending_cases grants h with
      ⟨stored, hrun, hsettled, -, hlength, -, -⟩ | ⟨next, k, hrun, hk, hcomplete⟩
    · rw [Stateful.bind_run hrun]
      exact .inl ⟨hall, _, rfl, ⟨hsettled.size, hsettled.block⟩, hlength, rfl⟩
    · exact .inr (.inr ⟨next, k, Stateful.bind_fail hrun, hk, hcomplete⟩)
  · exact .inr (.inl ⟨hall, if_pos (by simp [hall])⟩)

/-! ## Reading back -/

theorem slice_blockOf {offset len : Nat} (h : offset % blockBytes + len ≤ blockBytes) :
    slice (blockOf data (offset / blockBytes)) (offset % blockBytes) len = slice data offset len := by
  rw [blockOf, slice_slice data h, Nat.mul_comm, Nat.div_add_mod]

theorem Settled.piece (h : Settled image data) (hlength : data.length = image.length) {offset len : Nat}
    (hblock : offset % blockBytes + len ≤ blockBytes) (hin : offset + len ≤ data.length) (hpos : 0 < len) :
    (match image.blocks.getD (offset / blockBytes) none with
      | some bytes => slice bytes (offset % blockBytes) len
      | none => zeros len) = slice data offset len := by
  have hdiv := Nat.div_add_mod offset blockBytes
  rw [Nat.mul_comm] at hdiv
  have hi : offset / blockBytes < image.blocks.length := by
    rw [h.size, ← hlength]
    exact (Nat.div_lt_iff_lt_mul (by decide)).2 (by
      have hceil := Nat.div_add_mod (data.length + (blockBytes - 1)) blockBytes
      have hmod := Nat.mod_lt (data.length + (blockBytes - 1)) (show 0 < blockBytes by decide)
      rw [Nat.mul_comm] at hceil
      omega)
  have hlt : offset / blockBytes * blockBytes < data.length := by omega
  rw [List.getD_eq_getElem?_getD, h.block _ hi, if_pos hlt, Option.getD_some, kept]
  split
  · rename_i bytes hkept
    split at hkept
    · cases hkept
    · cases hkept
      exact slice_blockOf hblock
  · rename_i hkept
    split at hkept
    · rename_i hzero
      have hsize : (blockOf data (offset / blockBytes)).length =
          min blockBytes (data.length - offset / blockBytes * blockBytes) := by
        rw [blockOf, slice, List.length_take, List.length_drop]
      rw [← slice_blockOf hblock, (allZero_iff _).1 hzero, slice_zeros (by omega)]
    · cases hkept

/-- **A read of a finished image** gives the bytes it took. -/
theorem Settled.readLoop (h : Settled image data) (hlength : data.length = image.length) : ∀ fuel offset len : Nat,
    len ≤ fuel → offset + len ≤ data.length → image.readLoop fuel offset len = slice data offset len
  | 0, offset, len, hfuel, _ => by
    rw [Nat.le_zero.1 hfuel]
    rfl
  | fuel + 1, offset, len, hfuel, hin => by
    unfold Image.readLoop
    by_cases hlen : len = 0
    · rw [if_pos hlen, hlen, slice, List.take_zero]
    rw [if_neg hlen]
    have hmod := Nat.mod_lt offset (show 0 < blockBytes by decide)
    dsimp only
    generalize hcount : min (blockBytes - offset % blockBytes) len = count
    rw [h.piece hlength (by omega) (by omega) (by omega), h.readLoop hlength fuel _ _ (by omega) (by omega),
      ← slice_append]
    congr 1
    omega

/-- The source reads `window`. -/
structure Reads (source : Source) (window : Bytes) : Prop where
  length : source.length = window.length
  read : ∀ offset len, offset + len ≤ window.length →
    source.readFn (source.offset + offset) len = .ok (slice window offset len)

theorem Source.range_ok {source next : Source} {start len : Nat} (h : source.range start len = .ok next) :
    start + len ≤ source.length ∧ next = { source with offset := source.offset + start, length := len } := by
  unfold Source.range at h
  split at h
  · cases h
  · cases h
    exact ⟨by omega, rfl⟩

theorem Reads.range {source next : Source} {window : Bytes} {start len : Nat} (h : Reads source window)
    (hrange : source.range start len = .ok next) : Reads next (slice window start len) := by
  obtain ⟨hin, rfl⟩ := Source.range_ok hrange
  rw [h.length] at hin
  refine ⟨(length_slice hin).symm, fun offset n hn => ?_⟩
  rw [length_slice hin] at hn
  show source.readFn (source.offset + start + offset) n = _
  rw [Nat.add_assoc, h.read _ _ (by omega), slice_slice window hn]

/-- Ranges of ranges. -/
def Source.ranges (source : Source) (parts : List (Nat × Nat)) : Except Error Source :=
  parts.foldlM (fun source part => source.range part.1 part.2) source

def windowOf (data : Bytes) (parts : List (Nat × Nat)) : Bytes :=
  parts.foldl (fun window part => slice window part.1 part.2) data

theorem Reads.ranges : ∀ (parts : List (Nat × Nat)) (source next : Source) (window : Bytes), Reads source window →
    source.ranges parts = .ok next → Reads next (windowOf window parts)
  | [], source, next, window, h, hnext => by
    cases hnext
    exact h
  | part :: rest, source, next, window, h, hnext => by
    cases hpart : source.range part.1 part.2 with
    | error e =>
      rw [Source.ranges, List.foldlM_cons, hpart] at hnext
      cases hnext
    | ok mid =>
      rw [Source.ranges, List.foldlM_cons, hpart] at hnext
      exact Reads.ranges rest mid next _ (h.range hpart) hnext

theorem Reads.exact {source : Source} {window : Bytes} (h : Reads source window) (offset len : Nat) :
    source.read offset len =
      if offset + len ≤ source.length then .ok (slice window offset len) else .error .sourceBounds := by
  unfold Source.read
  by_cases hin : offset + len ≤ source.length
  · rw [if_neg (by omega), if_pos hin, h.read _ _ (h.length ▸ hin)]
  · rw [if_pos (by omega), if_neg hin]

theorem ranges_readFn : ∀ (parts : List (Nat × Nat)) (source next : Source), source.ranges parts = .ok next →
    next.readFn = source.readFn
  | [], source, next, h => by
    cases h
    rfl
  | part :: rest, source, next, h => by
    cases hpart : source.range part.1 part.2 with
    | error e =>
      rw [Source.ranges, List.foldlM_cons, hpart] at h
      cases h
    | ok mid =>
      rw [Source.ranges, List.foldlM_cons, hpart] at h
      rw [ranges_readFn rest mid next h, (Source.range_ok hpart).2]

theorem unfinished_read (h : image.complete = false) {parts : List (Nat × Nat)} {source : Source}
    (hsource : image.source.ranges parts = .ok source) (offset len : Nat) (bytes : Bytes) :
    source.read offset len ≠ .ok bytes := by
  unfold Source.read
  split
  · exact fun h => by cases h
  · rw [ranges_readFn parts _ _ hsource]
    show image.read _ _ ≠ _
    rw [Image.read, h]
    exact fun h => by cases h

/-- The chunks of an image one after the other, then its end. -/
def ingest (grants : Nat → Bool) (chunks : List Bytes) : Stateful Image Error Unit := do
  appendAll grants chunks
  finish grants

theorem ingest_run (grants : Nat → Bool) (chunks : List Bytes) {length : Nat} {image done : Image}
    (h : Image.init length = .ok image) (hdone : ingest grants chunks image = (.ok (), done)) :
    chunks.flatten.length = length ∧
      (∀ parts source, done.source.ranges parts = .ok source → ∀ offset len, source.read offset len =
        if offset + len ≤ source.length then .ok (slice (windowOf chunks.flatten parts) offset len)
        else .error .sourceBounds) ∧
      done.blocks.length = (length + (blockBytes - 1)) / blockBytes ∧
      ∀ i, i < done.blocks.length → done.blocks[i]? = some
        (if allZero (slice chunks.flatten (i * blockBytes) blockBytes) then none
          else some (slice chunks.flatten (i * blockBytes) blockBytes)) := by
  obtain ⟨hold, rfl⟩ := holds_init h
  have hpending : image.pending.length < blockBytes := by
    rw [hold.length_pending]
    decide
  rcases appendAll_cases grants chunks image [] 0 hold hpending with
    ⟨-, mid, q, hrun, hmid, -, hlength⟩ | ⟨e, mid, hrun, -⟩
  · rw [List.nil_append] at hmid
    rw [ingest, Stateful.bind_run hrun] at hdone
    rcases finish_cases grants hmid with
      ⟨hall, next, hnext, hsettled, hlen, hcomplete⟩ | ⟨-, hnext⟩ | ⟨next, k, hnext, -⟩
    · rw [hnext] at hdone
      cases hdone
      have hsame : chunks.flatten.length = done.length := hall.trans hlen.symm
      have hreads : Reads done.source chunks.flatten := by
        refine ⟨hsame.symm, fun offset len hin => ?_⟩
        show done.read (0 + offset) len = _
        rw [Image.read, hcomplete, Nat.zero_add, hsettled.readLoop hsame len offset len (Nat.le_refl _) hin]
        rfl
      have hsize : done.blocks.length = (image.length + (blockBytes - 1)) / blockBytes := by
        rw [hsettled.size, hlen, hlength]
      refine ⟨hall.trans hlength, fun parts source hsource => (hreads.ranges parts _ _ _ hsource).exact, hsize,
        fun i hi => ?_⟩
      have hlt : i * blockBytes < chunks.flatten.length := by
        rw [hsize, Nat.lt_div_iff_mul_lt (by decide)] at hi
        omega
      rw [hsettled.block i hi, if_pos hlt]
      rfl
    · rw [hnext] at hdone
      cases hdone
    · rw [hnext] at hdone
      cases hdone
  · rw [ingest, Stateful.bind_fail hrun] at hdone
    cases hdone

/-- **Taking an image in chunks is lossless.**  When the chunks and the end of an image go through, they have its length,
every read of every range of the image gives their bytes, and a block is kept exactly when it is not zero.  Without the end,
or with too many or too few bytes, no read succeeds.  Bytes of the right length go through unless a block is refused. -/
theorem ingest_exact (grants : Nat → Bool) (chunks : List Bytes) {length : Nat} {image : Image}
    (h : Image.init length = .ok image) :
    (∀ done, ingest grants chunks image = (.ok (), done) → chunks.flatten.length = length ∧
      (∀ parts source, done.source.ranges parts = .ok source → ∀ offset len, source.read offset len =
        if offset + len ≤ source.length then .ok (slice (windowOf chunks.flatten parts) offset len)
        else .error .sourceBounds) ∧
      done.blocks.length = (length + (blockBytes - 1)) / blockBytes ∧
      ∀ i, i < done.blocks.length → done.blocks[i]? = some
        (if allZero (slice chunks.flatten (i * blockBytes) blockBytes) then none
          else some (slice chunks.flatten (i * blockBytes) blockBytes))) ∧
    (∀ parts source offset len bytes, (appendAll grants chunks image).2.source.ranges parts = .ok source →
      source.read offset len ≠ .ok bytes) ∧
    (chunks.flatten.length ≠ length → (ingest grants chunks image).1 ≠ .ok () ∧
      ∀ parts source offset len bytes, (ingest grants chunks image).2.source.ranges parts = .ok source →
        source.read offset len ≠ .ok bytes) ∧
    (chunks.flatten.length = length → (∀ k, grants k = true) → (ingest grants chunks image).1 = .ok ()) := by
  refine ⟨fun done => ingest_run grants chunks h, ?_⟩
  obtain ⟨hold, rfl⟩ := holds_init h
  have hpending : image.pending.length < blockBytes := by
    rw [hold.length_pending]
    decide
  rcases appendAll_cases grants chunks image [] 0 hold hpending with
    ⟨-, mid, q, hrun, hmid, -, hlength⟩ | ⟨e, mid, hrun, hcomplete, hwhy⟩
  · rw [List.nil_append] at hmid
    have hingest : ingest grants chunks image = finish grants mid := Stateful.bind_run hrun
    rw [hingest, hrun]
    refine ⟨fun parts source offset len bytes hsource =>
      unfinished_read hmid.unfinished hsource offset len bytes, fun hne => ?_, fun heq hgrants => ?_⟩
    · rcases finish_cases grants hmid with ⟨hall, -⟩ | ⟨-, hnext⟩ | ⟨next, k, hnext, -, hcomplete⟩
      · exact absurd (hall.trans hlength) hne
      · rw [hnext]
        exact ⟨nofun, fun parts source offset len bytes hsource =>
          unfinished_read hmid.unfinished hsource offset len bytes⟩
      · rw [hnext]
        exact ⟨nofun, fun parts source offset len bytes hsource =>
          unfinished_read hcomplete hsource offset len bytes⟩
    · rcases finish_cases grants hmid with ⟨-, next, hnext, -⟩ | ⟨hne, -⟩ | ⟨next, k, -, hk, -⟩
      · rw [hnext]
      · exact absurd (heq.trans hlength.symm) hne
      · rw [hgrants k] at hk
        cases hk
  · have hingest : ingest grants chunks image = (.error e, mid) := Stateful.bind_fail hrun
    have hnone : ∀ parts source offset len bytes, mid.source.ranges parts = .ok source →
        source.read offset len ≠ .ok bytes :=
      fun parts source offset len bytes hsource => unfinished_read hcomplete hsource offset len bytes
    rw [hingest, hrun]
    refine ⟨hnone, fun _ => ⟨nofun, hnone⟩, fun heq hgrants => ?_⟩
    rcases hwhy with hwhy | ⟨k, hk⟩
    · rw [List.length_nil] at hwhy
      omega
    · rw [hgrants k] at hk
      cases hk

theorem ingest_exact_short : ∃ image done, Image.init 3 = .ok image ∧
    ingest (fun _ => true) [[1, 2], [], [3]] image = (.ok (), done) ∧ done.blocks.length = 1 ∧
    (appendAll (fun _ => true) [[1, 2], [], [3]] image).2.source.read 0 3 ≠ .ok [1, 2, 3] := by
  obtain ⟨image, himage⟩ : ∃ image, Image.init 3 = .ok image := ⟨_, rfl⟩
  obtain ⟨hdone, hbefore, -, hthrough⟩ := ingest_exact (fun _ => true) [[1, 2], [], [3]] himage
  have hok := hthrough rfl (fun _ => rfl)
  generalize hrun : ingest (fun _ => true) [[1, 2], [], [3]] image = r at hdone hok
  obtain ⟨result, done⟩ := r
  have hresult : result = .ok () := hok
  subst hresult
  exact ⟨image, done, himage, hrun, (hdone done rfl).2.2.1, hbefore [] _ 0 3 [1, 2, 3] rfl⟩

end SparseImage
end R4
