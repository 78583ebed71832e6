import R4Recovery.NtfsIndex
/-!
# NtfsEnumerate — the two ways to list a directory agree but for names that cannot be read

The calls that resume a cursor come to an end on every content of the index (`yields`, `drain_of_yields`).  On an index that
is a tree, both ways visit its entries in one order; at a name that has no text the cursor stops with an error where the walk
passes on.
-/
namespace R4
namespace Ntfs

open Gpt (getLe)
open NameCodec (leUnits)

variable {d : Directory} {header : IndexHeader} {root : Bytes}

/-! ## Entries and turns -/

theorem nextEntry_ok {bytes : Bytes} {e : IndexEntry} (h : nextEntry bytes = some e) :
    0x10 ≤ e.entryLength ∧ e.entryLength ≤ bytes.length ∧ (e.hasSubNode = true ↔ e.subNodeVcn.isSome = true) := by
  unfold nextEntry at h
  split at h
  · cases h
  dsimp only at h
  split at h
  · cases h
  rename_i hlength
  split at h
  · cases h
  split at h
  · cases h
  cases h
  have hbounds : 0x10 ≤ getLe bytes 0x08 2 ∧ getLe bytes 0x08 2 ≤ bytes.length := by omega
  refine ⟨hbounds.1, hbounds.2, ?_⟩
  by_cases hnode : getLe bytes 0x0C 2 &&& indexEntryNode = 0
  · simp [IndexEntry.hasSubNode, hnode]
  · simp [IndexEntry.hasSubNode, hnode]

/-- **What a turn can do.** -/
inductive Turned (d : Directory) (header : IndexHeader) (root : Bytes) (frame : Frame) (below : List Frame) :
    Turn → Prop where
  | io (frames : List Frame) (hlen : frames.length = below.length + 1) : Turned d header root frame below (.stop .io frames)
  | down (entries : Bytes) (e : IndexEntry) (child : Nat) (hnode : d.nodeOf header root frame below = some entries)
      (hentry : nextEntry (entries.drop frame.offset) = some e) (hchild : e.subNodeVcn = some child)
      (hdone : frame.childDone = 0)
      (hroom : below.length + 1 < maxIndexDepth) (hnew : ∀ a ∈ (frame :: below).dropLast, a.vcn ≠ child) :
      Turned d header root frame below (.go ({ vcn := child } :: { frame with childDone := 1 } :: below))
  | up (entries : Bytes) (e : IndexEntry) (hnode : d.nodeOf header root frame below = some entries)
      (hentry : nextEntry (entries.drop frame.offset) = some e) (hend : e.isEnd = true)
      (hdone : ¬ (e.hasSubNode = true ∧ frame.childDone = 0)) :
      Turned d header root frame below (if below = [] then .stop .notFound [] else .go below)
  | on (entries : Bytes) (e : IndexEntry) (hnode : d.nodeOf header root frame below = some entries)
      (hentry : nextEntry (entries.drop frame.offset) = some e) (hend : e.isEnd = false)
      (hdone : ¬ (e.hasSubNode = true ∧ frame.childDone = 0)) (frames : List Frame)
      (hframes : frames = { frame with offset := frame.offset + e.entryLength, childDone := 0 } :: below) (t : Turn)
      (ht : t = match e.fileName with
        | none => .stop .io frames
        | some name =>
          if !listed d.number e name then .go frames
          else match entryFromFileName (FileReference.parse e.fileReference) name with
            | none => .stop .io frames
            | some x => .stop (.found x) frames) : Turned d header root frame below t

theorem turned (d : Directory) (header : IndexHeader) (root : Bytes) (frame : Frame) (below : List Frame) :
    Turned d header root frame below (turn d header root (frame :: below)) := by
  unfold turn
  show Turned _ _ _ _ _ (if _ then _ else _)
  by_cases hbad : 1 < frame.childDone
  · rw [if_pos hbad]
    exact .io _ rfl
  rw [if_neg hbad]
  cases hnode : d.nodeOf header root frame below with
  | none => exact .io _ rfl
  | some entries =>
    show Turned _ _ _ _ _ (if _ then _ else _)
    by_cases hpast : entries.length ≤ frame.offset
    · rw [if_pos hpast]
      exact .io _ rfl
    rw [if_neg hpast]
    cases hentry : nextEntry (entries.drop frame.offset) with
    | none => exact .io _ rfl
    | some e =>
      show Turned _ _ _ _ _ (if _ then _ else _)
      by_cases hdown : e.hasSubNode = true ∧ frame.childDone = 0
      · rw [if_pos hdown]
        by_cases hroom : maxIndexDepth ≤ (frame :: below).length
        · rw [if_pos hroom]
          exact .io _ rfl
        rw [if_neg hroom]
        cases hchild : e.subNodeVcn with
        | none => exact .io _ rfl
        | some child =>
          show Turned _ _ _ _ _ (if _ then _ else _)
          by_cases hancestor : (frame :: below).dropLast.any (fun a => a.vcn == child) = true
          · rw [if_pos hancestor]
            exact .io _ rfl
          · rw [if_neg hancestor]
            refine .down entries e child hnode hentry hchild hdown.2 (by simpa using hroom) (fun a ha heq => hancestor ?_)
            exact List.any_eq_true.2 ⟨a, ha, by simpa using heq⟩
      · rw [if_neg hdown]
        by_cases hend : e.isEnd = true
        · rw [if_pos hend]
          exact .up entries e hnode hentry hend hdown
        · rw [if_neg hend]
          exact .on entries e hnode hentry (by simpa using hend) hdown _ rfl _ rfl

/-! ## The calls come to an end -/

/-- The entries the frames yield over all turns to come, and how the last turn ends. -/
inductive Yields (d : Directory) (header : IndexHeader) (root : Bytes) : List Frame → List DirEntry → Next → Prop where
  | stop {frames frames' : List Frame} {result : Next} (h : turn d header root frames = .stop result frames')
      (hend : result = .notFound ∨ result = .io) : Yields d header root frames [] result
  | go {frames frames' : List Frame} {es : List DirEntry} {result : Next} (h : turn d header root frames = .go frames')
      (hrest : Yields d header root frames' es result) : Yields d header root frames es result
  | found {frames frames' : List Frame} {e : DirEntry} {es : List DirEntry} {result : Next}
      (h : turn d header root frames = .stop (.found e) frames') (hrest : Yields d header root frames' es result) :
      Yields d header root frames (e :: es) result

def Ends (d : Directory) (header : IndexHeader) (root : Bytes) (frames : List Frame) : Prop :=
  ∃ es result, Yields d header root frames es result

theorem ends_cons : ∀ (levels m : Nat) (frame : Frame) (below : List Frame), maxIndexDepth ≤ below.length + 1 + levels →
    2 * (((d.nodeOf header root frame below).elim 0 List.length) - frame.offset) + (1 - frame.childDone) < m →
    (below ≠ [] → Ends d header root below) → Ends d header root (frame :: below)
  | _, 0, _, _, _, h, _ => absurd h (Nat.not_lt_zero _)
  | levels, m + 1, frame, below, hlevels, hm, hbelow => by
    have hturn := turned d header root frame below
    generalize ht : turn d header root (frame :: below) = t at hturn
    cases hturn with
    | io frames hlen => exact ⟨[], .io, .stop ht (.inr rfl)⟩
    | down entries e child hnode hentry hchild hdone hroom hnew =>
      rw [hnode] at hm
      have hpast : frame.offset < entries.length := by
        have := nextEntry_ok hentry
        rw [List.length_drop] at this
        omega
      have hback : Ends d header root ({ frame with childDone := 1 } :: below) := by
        refine ends_cons levels m { frame with childDone := 1 } below hlevels ?_ hbelow
        show 2 * (((d.nodeOf header root frame below).elim 0 List.length) - frame.offset) + (1 - 1) < m
        rw [hnode]
        simp only [Option.elim] at hm ⊢
        omega
      cases levels with
      | zero => omega
      | succ levels =>
        obtain ⟨es, result, hy⟩ := ends_cons levels _ { vcn := child } ({ frame with childDone := 1 } :: below)
          (by rw [List.length_cons]; omega) (Nat.lt_succ_self _) (fun _ => hback)
        exact ⟨es, result, .go ht hy⟩
    | up entries e hnode hentry hend hdone =>
      by_cases hroot : below = []
      · rw [if_pos hroot] at ht
        exact ⟨[], .notFound, .stop ht (.inl rfl)⟩
      · rw [if_neg hroot] at ht
        obtain ⟨es, result, hy⟩ := hbelow hroot
        exact ⟨es, result, .go ht hy⟩
    | on entries e hnode hentry hend hdone frames hframes t ht' =>
      rw [hnode] at hm
      have hpast : frame.offset < entries.length ∧ 0x10 ≤ e.entryLength := by
        have := nextEntry_ok hentry
        rw [List.length_drop] at this
        omega
      have hon : Ends d header root frames := by
        rw [hframes]
        refine ends_cons levels m _ below hlevels ?_ hbelow
        show 2 * (((d.nodeOf header root frame below).elim 0 List.length) - (frame.offset + e.entryLength)) + (1 - 0) < m
        rw [hnode]
        simp only [Option.elim] at hm ⊢
        omega
      obtain ⟨es, result, hy⟩ := hon
      rw [ht'] at ht
      split at ht
      · exact ⟨[], .io, .stop ht (.inr rfl)⟩
      · split at ht
        · exact ⟨es, result, .go ht hy⟩
        · split at ht
          · exact ⟨[], .io, .stop ht (.inr rfl)⟩
          · rename_i x hx
            exact ⟨x :: es, result, .found ht hy⟩

/-- **Every content** of an index comes to an end. -/
theorem ends (d : Directory) (header : IndexHeader) (root : Bytes) : ∀ frames : List Frame, Ends d header root frames
  | [] => ⟨[], .io, .stop rfl (.inr rfl)⟩
  | frame :: below => ends_cons maxIndexDepth _ frame below (by omega) (Nat.lt_succ_self _)
      (fun _ => ends d header root below)

/-- The frames a turn leaves. -/
def Turn.frames : Turn → List Frame
  | .go frames => frames
  | .stop _ frames => frames

theorem turn_length (d : Directory) (header : IndexHeader) (root : Bytes) {frames : List Frame}
    (h : frames.length ≤ maxIndexDepth) :
    (turn d header root frames).frames.length ≤ maxIndexDepth := by
  cases frames with
  | nil => exact Nat.zero_le _
  | cons frame below =>
    have hbelow : below.length + 1 ≤ maxIndexDepth := h
    have hturn := turned d header root frame below
    generalize turn d header root (frame :: below) = t at hturn ⊢
    cases hturn with
    | io frames hlen => exact hlen.le.trans hbelow
    | down entries e child hnode hentry hchild hdone hroom hnew => exact hroom
    | up entries e hnode hentry hend hdone =>
      by_cases hroot : below = []
      · rw [if_pos hroot]
        exact Nat.zero_le _
      · rw [if_neg hroot]
        exact Nat.le_of_succ_le hbelow
    | on entries e hnode hentry hend hdone frames hframes t ht =>
      have hlen : frames.length ≤ maxIndexDepth := by
        rw [hframes]
        exact hbelow
      rw [ht]
      split
      · exact hlen
      split
      · exact hlen
      split
      · exact hlen
      · exact hlen

/-- The entries of the calls that resume `cursor`, and the result of the last; `none` where `calls` do not suffice. -/
def drain (d : Directory) : Nat → DirectoryCursor → Option (List DirEntry × Next)
  | 0, _ => none
  | calls + 1, cursor =>
    match nextDirectoryEntry d cursor with
    | (.found e, cursor) => (drain d calls cursor).map (fun rest => (e :: rest.1, rest.2))
    | (.again, cursor) => drain d calls cursor
    | (result, _) => some ([], result)

/-- The rest of a call with `n` turns to go, and the calls behind it. -/
def resume (d : Directory) (header : IndexHeader) (root : Bytes) (calls n : Nat) (frames : List Frame) :
    Option (List DirEntry × Next) :=
  match turns d header root n frames with
  | (.found e, frames) => (drain d calls { state := 1, frames }).map (fun rest => (e :: rest.1, rest.2))
  | (.again, frames) => drain d calls { state := 1, frames }
  | (result, _) => some ([], result)

theorem drain_eq (hopen : d.open = some (header, root)) (calls : Nat) {frames : List Frame}
    (hlen : frames.length ≤ maxIndexDepth) :
    drain d (calls + 1) { state := 1, frames } = resume d header root calls 256 frames := by
  have hcall : nextDirectoryEntry d { state := 1, frames } = ((turns d header root 256 frames).1,
      { state := if (turns d header root 256 frames).1 = .notFound then 2 else 1
        frames := (turns d header root 256 frames).2 }) := by
    unfold nextDirectoryEntry
    rw [if_neg (by simpa using hlen), if_neg (by simp)]
    cases frames with
    | nil => rfl
    | cons frame below =>
      show (if frame :: below = [] then _ else _) = _
      rw [if_neg (by simp), hopen]
      rfl
  unfold drain resume
  rw [hcall]
  generalize turns d header root 256 frames = after
  obtain ⟨result, left⟩ := after
  cases result with
  | found e => rfl
  | notFound => rfl
  | again => rfl
  | io => rfl

theorem resume_again (hopen : d.open = some (header, root)) {frames : List Frame} {rest : List DirEntry × Next}
    (hlen : frames.length ≤ maxIndexDepth) (hnext : ∀ n, ∃ calls, resume d header root calls (n + 1) frames = some rest) :
    ∀ n, ∃ calls, resume d header root calls n frames = some rest
  | 0 => by
    obtain ⟨calls, hcalls⟩ := hnext 255
    exact ⟨calls + 1, (drain_eq hopen calls hlen).trans hcalls⟩
  | n + 1 => hnext n

/-- **The calls** yield what the turns do, wherever a call is in its turns. -/
theorem resume_of_yields (hopen : d.open = some (header, root)) {frames : List Frame} {es : List DirEntry} {result : Next}
    (h : Yields d header root frames es result) :
    frames.length ≤ maxIndexDepth → ∀ n, ∃ calls, resume d header root calls n frames = some (es, result) := by
  induction h with
  | stop ht hend =>
    intro hlen
    refine resume_again hopen hlen (fun n => ⟨0, ?_⟩)
    unfold resume turns
    rw [ht]
    rcases hend with rfl | rfl
    · rfl
    · rfl
  | go ht _ ih =>
    intro hlen
    have hnext := turn_length d header root hlen
    rw [ht] at hnext
    refine resume_again hopen hlen (fun n => ?_)
    obtain ⟨calls, hcalls⟩ := ih hnext n
    refine ⟨calls, ?_⟩
    unfold resume turns
    rw [ht]
    exact hcalls
  | found ht _ ih =>
    intro hlen
    have hnext := turn_length d header root hlen
    rw [ht] at hnext
    simp only [Turn.frames] at hnext
    refine resume_again hopen hlen (fun n => ?_)
    obtain ⟨calls, hcalls⟩ := ih hnext 256
    refine ⟨calls + 1, ?_⟩
    unfold resume turns
    rw [ht]
    show (drain d (calls + 1) _).map _ = _
    rw [(drain_eq hopen calls hnext).trans hcalls]
    rfl

theorem drain_of_yields (hopen : d.open = some (header, root)) {frames : List Frame} {es : List DirEntry} {result : Next}
    (h : Yields d header root frames es result) (hlen : frames.length ≤ maxIndexDepth) :
    ∃ calls, drain d calls { state := 1, frames } = some (es, result) := by
  obtain ⟨calls, hcalls⟩ := resume_of_yields hopen h hlen 256
  exact ⟨calls + 1, (drain_eq hopen calls hlen).trans hcalls⟩

theorem drain_last {cursor cursor' : DirectoryCursor} {result : Next} (hend : result = .notFound ∨ result = .io)
    (h : nextDirectoryEntry d cursor = (result, cursor')) : drain d 1 cursor = some ([], result) := by
  unfold drain
  rw [h]
  rcases hend with rfl | rfl
  · rfl
  · rfl

theorem drain_fresh {cursor : DirectoryCursor} (hfresh : cursor.state = 0) (hlen : cursor.frames.length ≤ maxIndexDepth) :
    ∀ calls, drain d calls cursor = drain d calls { state := 1, frames := [{}] }
  | 0 => rfl
  | calls + 1 => by
    have : nextDirectoryEntry d cursor = nextDirectoryEntry d { state := 1, frames := [{}] } := by
      unfold nextDirectoryEntry
      rw [if_neg (by rw [hfresh]; simpa using hlen), if_neg (by rw [hfresh]; simp), if_pos hfresh]
      rfl
    unfold drain
    rw [this]

/-- **Resumed calls come to an end** from every cursor and on every content of the index. -/
theorem drain_ends (d : Directory) (cursor : DirectoryCursor) : ∃ calls, (drain d calls cursor).isSome = true := by
  by_cases hbad : 2 < cursor.state ∨ maxIndexDepth < cursor.frames.length
  · refine ⟨1, ?_⟩
    rw [drain_last (.inr rfl) (show nextDirectoryEntry d cursor = (.io, cursor) from if_pos hbad)]
    rfl
  have hlen : cursor.frames.length ≤ maxIndexDepth := Nat.not_lt.1 (fun h => hbad (.inr h))
  have hlow : cursor.state ≤ 2 := Nat.not_lt.1 (fun h => hbad (.inl h))
  -- the state is 0, 1 or 2
  obtain ⟨state, frames⟩ := cursor
  have hone : ∀ frames : List Frame, frames.length ≤ maxIndexDepth →
      ∃ calls, (drain d calls { state := 1, frames }).isSome = true := by
    intro frames hlen
    cases hopen : d.open with
    | none =>
      refine ⟨1, ?_⟩
      have : nextDirectoryEntry d { state := 1, frames } = (.io, { state := 1, frames }) := by
        unfold nextDirectoryEntry
        rw [if_neg (by simpa using hlen), if_neg (by simp), hopen]
        show (if frames = [] then _ else _) = _
        rw [ite_self]
        rfl
      rw [drain_last (.inr rfl) this]
      rfl
    | some opened =>
      obtain ⟨es, result, hy⟩ := ends d opened.1 opened.2 frames
      obtain ⟨calls, hcalls⟩ := drain_of_yields hopen hy hlen
      exact ⟨calls, by rw [hcalls]; rfl⟩
  match state, hlow with
  | 0, _ =>
    obtain ⟨calls, hcalls⟩ := hone [{}] (by decide)
    exact ⟨calls, by rw [drain_fresh rfl hlen]; exact hcalls⟩
  | 1, _ => exact hone frames hlen
  | 2, _ =>
    refine ⟨1, ?_⟩
    have : nextDirectoryEntry d { state := 2, frames } = (.notFound, { state := 2, frames }) := by
      unfold nextDirectoryEntry
      rw [if_neg (by simpa using hlen), if_pos rfl]
    rw [drain_last (.inl rfl) this]
    rfl

/-! ## Trees -/

/-- The rest of a node from an entry on, with the nodes under it. -/
inductive Rest where
  | last (entry : IndexEntry)
  | lastOver (entry : IndexEntry) (vcn : Nat) (child : Rest)
  | leaf (entry : IndexEntry) (rest : Rest)
  | branch (entry : IndexEntry) (vcn : Nat) (child rest : Rest)

namespace Rest

def entry : Rest → IndexEntry
  | last e => e
  | lastOver e _ _ => e
  | leaf e _ => e
  | branch e _ _ _ => e

/-- The entries but the end markers, in their order. -/
def listing : Rest → List IndexEntry
  | last _ => []
  | lastOver _ _ child => child.listing
  | leaf e rest => e :: rest.listing
  | branch e _ child rest => child.listing ++ e :: rest.listing

/-- What is left of the listing behind the first child. -/
def after : Rest → List IndexEntry
  | last _ => []
  | lastOver _ _ _ => []
  | leaf e rest => e :: rest.listing
  | branch e _ _ rest => e :: rest.listing

/-- The levels of the tree. -/
def height : Rest → Nat
  | last _ => 1
  | lastOver _ _ child => child.height + 1
  | leaf _ rest => rest.height
  | branch _ _ child rest => max (child.height + 1) rest.height

theorem height_pos : ∀ r : Rest, 1 ≤ r.height
  | last _ => le_refl _
  | lastOver _ _ _ => Nat.le_add_left _ _
  | leaf _ rest => rest.height_pos
  | branch _ _ _ rest => rest.height_pos.trans (le_max_right _ _)

def size : Rest → Nat
  | last _ => 1
  | lastOver _ _ child => child.size + 1
  | leaf _ rest => rest.size + 1
  | branch _ _ child rest => child.size + rest.size + 1

/-- **A well-formed tree**: `bytes` hold the rest of a node from `offset` on, and the blocks the nodes under it.  A node ends
with an end marker, and every other entry has a name. -/
def Held (d : Directory) (header : IndexHeader) (root : Bytes) : Rest → Bytes → Nat → Prop
  | last e, bytes, offset => nextEntry (bytes.drop offset) = some e ∧ e.isEnd = true ∧ e.subNodeVcn = none
  | lastOver e vcn child, bytes, offset =>
    nextEntry (bytes.drop offset) = some e ∧ e.isEnd = true ∧ e.subNodeVcn = some vcn ∧
    ∃ block, d.node header root (some vcn) = some block ∧ child.Held d header root block 0
  | leaf e rest, bytes, offset =>
    nextEntry (bytes.drop offset) = some e ∧ e.isEnd = false ∧ e.subNodeVcn = none ∧ e.fileName.isSome = true ∧
    rest.Held d header root bytes (offset + e.entryLength)
  | branch e vcn child rest, bytes, offset =>
    nextEntry (bytes.drop offset) = some e ∧ e.isEnd = false ∧ e.subNodeVcn = some vcn ∧ e.fileName.isSome = true ∧
    (∃ block, d.node header root (some vcn) = some block ∧ child.Held d header root block 0) ∧
    rest.Held d header root bytes (offset + e.entryLength)

theorem Held.entry {r : Rest} {bytes : Bytes} {offset : Nat} (h : r.Held d header root bytes offset) :
    nextEntry (bytes.drop offset) = some r.entry := by
  cases r with
  | last e => exact h.1
  | lastOver e vcn child => exact h.1
  | leaf e rest => exact h.1
  | branch e vcn child rest => exact h.1

theorem Held.offset_lt {r : Rest} {bytes : Bytes} {offset : Nat} (h : r.Held d header root bytes offset) :
    offset < bytes.length := by
  have := nextEntry_ok h.entry
  rw [List.length_drop] at this
  omega

theorem Held.isEnd {r : Rest} {bytes : Bytes} {offset : Nat} (h : r.Held d header root bytes offset) :
    r.entry.isEnd = match r with
      | last _ => true
      | lastOver _ _ _ => true
      | leaf _ _ => false
      | branch _ _ _ _ => false := by
  cases r with
  | last e => exact h.2.1
  | lastOver e vcn child => exact h.2.1
  | leaf e rest => exact h.2.1
  | branch e vcn child rest => exact h.2.1

theorem Held.vcn {r : Rest} {bytes : Bytes} {offset : Nat} (h : r.Held d header root bytes offset) :
    r.entry.subNodeVcn = match r with
      | last _ => none
      | lastOver _ vcn _ => some vcn
      | leaf _ _ => none
      | branch _ vcn _ _ => some vcn := by
  cases r with
  | last e => exact h.2.2
  | lastOver e vcn child => exact h.2.2.1
  | leaf e rest => exact h.2.2.1
  | branch e vcn child rest => exact h.2.2.1

theorem Held.unique : ∀ {r r' : Rest} {bytes : Bytes} {offset : Nat}, r.Held d header root bytes offset →
    r'.Held d header root bytes offset → r = r' := by
  intro r
  induction r with
  | last e =>
    intro r' bytes offset h h'
    have hentry : e = r'.entry := Option.some.inj (h.entry.symm.trans h'.entry)
    have hend := h'.isEnd
    have hvcn := h'.vcn
    rw [← hentry] at hend hvcn
    cases r' with
    | last e' => rw [hentry]; rfl
    | lastOver e' vcn child => cases h.2.2.symm.trans hvcn
    | leaf e' rest => cases h.2.1.symm.trans hend
    | branch e' vcn child rest => cases h.2.1.symm.trans hend
  | lastOver e vcn child ih =>
    intro r' bytes offset h h'
    have hentry : e = r'.entry := Option.some.inj (h.entry.symm.trans h'.entry)
    have hend := h'.isEnd
    have hvcn := h'.vcn
    rw [← hentry] at hend hvcn
    cases r' with
    | last e' => cases h.2.2.1.symm.trans hvcn
    | lastOver e' vcn' child' =>
      obtain rfl : vcn = vcn' := Option.some.inj (h.2.2.1.symm.trans hvcn)
      obtain ⟨-, -, -, block, hblock, hchild⟩ := h
      obtain ⟨-, -, -, block', hblock', hchild'⟩ := h'
      obtain rfl : block = block' := Option.some.inj (hblock.symm.trans hblock')
      rw [hentry, ih hchild hchild']
      rfl
    | leaf e' rest => cases h.2.1.symm.trans hend
    | branch e' vcn child rest => cases h.2.1.symm.trans hend
  | leaf e rest ih =>
    intro r' bytes offset h h'
    have hentry : e = r'.entry := Option.some.inj (h.entry.symm.trans h'.entry)
    have hend := h'.isEnd
    have hvcn := h'.vcn
    rw [← hentry] at hend hvcn
    cases r' with
    | last e' => cases h.2.1.symm.trans hend
    | lastOver e' vcn child => cases h.2.1.symm.trans hend
    | leaf e' rest' =>
      obtain rfl : e = e' := hentry
      rw [ih h.2.2.2.2 h'.2.2.2.2]
    | branch e' vcn child rest => cases h.2.2.1.symm.trans hvcn
  | branch e vcn child rest ihchild ihrest =>
    intro r' bytes offset h h'
    have hentry : e = r'.entry := Option.some.inj (h.entry.symm.trans h'.entry)
    have hend := h'.isEnd
    have hvcn := h'.vcn
    rw [← hentry] at hend hvcn
    cases r' with
    | last e' => cases h.2.1.symm.trans hend
    | lastOver e' vcn child => cases h.2.1.symm.trans hend
    | leaf e' rest' => cases h.2.2.1.symm.trans hvcn
    | branch e' vcn' child' rest' =>
      obtain rfl : e = e' := hentry
      obtain rfl : vcn = vcn' := Option.some.inj (h.2.2.1.symm.trans hvcn)
      obtain ⟨-, -, -, -, ⟨block, hblock, hchild⟩, hrest⟩ := h
      obtain ⟨-, -, -, -, ⟨block', hblock', hchild'⟩, hrest'⟩ := h'
      obtain rfl : block = block' := Option.some.inj (hblock.symm.trans hblock')
      rw [ihchild hchild hchild', ihrest hrest hrest']

end Rest

/-! ## What is listed -/

/-- The entry a name is listed as: none at all where it is not listed, `some none` where it has no text. -/
def visit (directory : Nat) (e : IndexEntry) : Option (Option DirEntry) :=
  match e.fileName with
  | none => none
  | some name =>
    if listed directory e name then some (entryFromFileName (FileReference.parse e.fileReference) name) else none

/-- A name that is listed has a text. -/
def Readable (directory : Nat) (es : List IndexEntry) : Prop := ∀ e ∈ es, visit directory e ≠ some none

/-- The entries of the walk. -/
def shown (directory : Nat) (es : List IndexEntry) : List DirEntry := es.filterMap (fun e => (visit directory e).join)

/-- The entries of the cursor, and its end. -/
def scan (directory : Nat) : List IndexEntry → List DirEntry × Next
  | [] => ([], .notFound)
  | e :: rest =>
    match visit directory e with
    | none => scan directory rest
    | some none => ([], .io)
    | some (some x) => (x :: (scan directory rest).1, (scan directory rest).2)

theorem scan_readable (directory : Nat) : ∀ es : List IndexEntry,
    (Readable directory es → scan directory es = (shown directory es, .notFound)) ∧
    (¬ Readable directory es → (scan directory es).2 = .io)
  | [] => ⟨fun _ => rfl, fun h => absurd (fun e he => by cases he) h⟩
  | e :: rest => by
    obtain ⟨hgood, hbad⟩ := scan_readable directory rest
    have hcons : Readable directory (e :: rest) ↔ visit directory e ≠ some none ∧ Readable directory rest :=
        List.forall_mem_cons
    rw [hcons]
    unfold scan shown
    cases hvisit : visit directory e with
    | none =>
      rw [List.filterMap_cons_none (by rw [hvisit]; rfl)]
      exact ⟨fun h => hgood h.2, fun h => hbad (fun hrest => h ⟨by simp, hrest⟩)⟩
    | some x =>
      cases x with
      | none => exact ⟨fun h => absurd rfl h.1, fun _ => rfl⟩
      | some x =>
        rw [List.filterMap_cons_some (by rw [hvisit]; rfl)]
        refine ⟨fun h => ?_, fun h => hbad (fun hrest => h ⟨by simp, hrest⟩)⟩
        show (x :: (scan directory rest).1, (scan directory rest).2) = _
        rw [hgood h.2]
        rfl

/-! ## The cursor on a tree -/

section Cursor

variable {frame : Frame} {below : List Frame} {bytes : Bytes} {e : IndexEntry}

theorem turn_down {child : Nat} (hdone : frame.childDone = 0) (hnode : d.nodeOf header root frame below = some bytes)
    (hentry : nextEntry (bytes.drop frame.offset) = some e) (hchild : e.subNodeVcn = some child)
    (hroom : below.length + 1 < maxIndexDepth) (hnew : ∀ a ∈ (frame :: below).dropLast, a.vcn ≠ child) :
    turn d header root (frame :: below) = .go ({ vcn := child } :: { frame with childDone := 1 } :: below) := by
  have hok := nextEntry_ok hentry
  rw [List.length_drop] at hok
  have hsub : e.hasSubNode = true := hok.2.2.2 (by rw [hchild]; rfl)
  have hancestor : ¬ (frame :: below).dropLast.any (fun a => a.vcn == child) = true := by
    rw [List.any_eq_true]
    rintro ⟨a, ha, heq⟩
    exact hnew a ha (beq_iff_eq.1 heq)
  unfold turn
  dsimp only
  rw [if_neg (by omega), hnode]
  dsimp only
  rw [if_neg (by omega), hentry]
  dsimp only
  rw [if_pos ⟨hsub, hdone⟩, if_neg (by simpa using hroom), hchild]
  dsimp only
  rw [if_neg hancestor]

theorem turn_up (hdone : frame.childDone ≤ 1) (hnode : d.nodeOf header root frame below = some bytes)
    (hentry : nextEntry (bytes.drop frame.offset) = some e) (hend : e.isEnd = true)
    (hchild : e.subNodeVcn = none ∨ frame.childDone = 1) :
    turn d header root (frame :: below) = if below = [] then .stop .notFound [] else .go below := by
  have hok := nextEntry_ok hentry
  rw [List.length_drop] at hok
  have hleaf : ¬ (e.hasSubNode = true ∧ frame.childDone = 0) := by
    rintro ⟨hsub, hzero⟩
    rcases hchild with hnone | hone
    · have := hok.2.2.1 hsub
      rw [hnone] at this
      cases this
    · omega
  unfold turn
  dsimp only
  rw [if_neg (by omega), hnode]
  dsimp only
  rw [if_neg (by omega), hentry]
  dsimp only
  rw [if_neg hleaf, if_pos hend]

theorem turn_on (hdone : frame.childDone ≤ 1) (hnode : d.nodeOf header root frame below = some bytes)
    (hentry : nextEntry (bytes.drop frame.offset) = some e) (hend : e.isEnd = false) (hname : e.fileName.isSome = true)
    (hchild : e.subNodeVcn = none ∨ frame.childDone = 1) :
    turn d header root (frame :: below) =
      match visit d.number e with
      | none => .go ({ frame with offset := frame.offset + e.entryLength, childDone := 0 } :: below)
      | some none => .stop .io ({ frame with offset := frame.offset + e.entryLength, childDone := 0 } :: below)
      | some (some x) => .stop (.found x) ({ frame with offset := frame.offset + e.entryLength, childDone := 0 } ::
          below) := by
  have hok := nextEntry_ok hentry
  rw [List.length_drop] at hok
  have hleaf : ¬ (e.hasSubNode = true ∧ frame.childDone = 0) := by
    rintro ⟨hsub, hzero⟩
    rcases hchild with hnone | hone
    · have := hok.2.2.1 hsub
      rw [hnone] at this
      cases this
    · omega
  obtain ⟨name, hname⟩ := Option.isSome_iff_exists.1 hname
  unfold turn visit
  dsimp only
  rw [if_neg (by omega), hnode]
  dsimp only
  rw [if_neg (by omega), hentry]
  dsimp only
  rw [if_neg hleaf, if_neg (by simp [hend]), hname]
  dsimp only
  cases hlisted : listed d.number e name with
  | false => rfl
  | true =>
    rw [if_neg (by simp), if_pos rfl]
    cases entryFromFileName (FileReference.parse e.fileReference) name with
    | none => rfl
    | some x => rfl

/-- **A frame at the rest of a node.**  The nodes of the frames, but for the root, are whole trees that hold the rest. -/
structure Seated (d : Directory) (header : IndexHeader) (root : Bytes) (frame : Frame) (below : List Frame) (r : Rest) :
    Prop where
  held : ∃ bytes, d.nodeOf header root frame below = some bytes ∧ r.Held d header root bytes frame.offset
  done : frame.childDone = 0 ∨ frame.childDone = 1
  room : below.length + r.height ≤ maxIndexDepth
  inside : ∀ a ∈ (frame :: below).dropLast, ∃ bytes whole, d.node header root (some a.vcn) = some bytes ∧
    Rest.Held d header root whole bytes 0 ∧ r.size ≤ whole.size

def Stacked (d : Directory) (header : IndexHeader) (root : Bytes) : List Frame → List Rest → Prop
  | [], [] => True
  | frame :: below, r :: rest => Seated d header root frame below r ∧ Stacked d header root below rest
  | _, _ => False

/-- The entries that are still to come. -/
def pending : List Frame → List Rest → List IndexEntry
  | frame :: below, r :: rest => (if frame.childDone = 0 then r.listing else r.after) ++ pending below rest
  | _, _ => []

theorem Seated.down {r child : Rest} {vcn : Nat} (h : Seated d header root frame below r)
    (hchild : ∃ block, d.node header root (some vcn) = some block ∧ child.Held d header root block 0)
    (hsize : child.size < r.size) (hheight : child.height + 1 ≤ r.height) :
    Seated d header root { frame with childDone := 1 } below r ∧
    Seated d header root { vcn } ({ frame with childDone := 1 } :: below) child ∧
    (∀ a ∈ (frame :: below).dropLast, a.vcn ≠ vcn) ∧ below.length + 1 < maxIndexDepth := by
  obtain ⟨block, hblock, hheld⟩ := hchild
  have hroom := h.room
  -- marking a child as done does not change which nodes the frames are at
  have hvcns : ∀ a ∈ ({ frame with childDone := 1 } :: below).dropLast, ∃ a' ∈ (frame :: below).dropLast,
      a'.vcn = a.vcn := by
    intro a ha
    cases below with
    | nil => cases ha
    | cons b below =>
      rcases List.mem_cons.1 ha with rfl | ha
      · exact ⟨frame, List.mem_cons_self, rfl⟩
      · exact ⟨a, List.mem_cons_of_mem _ ha, rfl⟩
  have hpos := child.height_pos
  refine ⟨⟨h.held, .inr rfl, h.room, fun a ha => ?_⟩, ⟨⟨block, ?_, hheld⟩, .inl rfl, ?_, fun a ha => ?_⟩,
    fun a ha heq => ?_, ?_⟩
  · obtain ⟨a', ha', hvcn⟩ := hvcns a ha
    rw [← hvcn]
    exact h.inside a' ha'
  · show d.node header root (if _ then _ else _) = _
    rw [if_neg (by simp)]
    exact hblock
  · rw [List.length_cons]
    omega
  · rcases List.mem_cons.1 ha with rfl | ha
    · exact ⟨block, child, hblock, hheld, le_refl _⟩
    · obtain ⟨a', ha', hvcn⟩ := hvcns a ha
      obtain ⟨bytes, whole, hnode, hwhole, hle⟩ := h.inside a' ha'
      exact ⟨bytes, whole, hvcn ▸ hnode, hwhole, by omega⟩
  · obtain ⟨bytes, whole, hnode, hwhole, hle⟩ := h.inside a ha
    rw [heq] at hnode
    obtain rfl : bytes = block := Option.some.inj (hnode.symm.trans hblock)
    have := Rest.Held.unique hwhole hheld
    rw [this] at hle
    omega
  · omega

theorem Seated.on {r rest : Rest} (h : Seated d header root frame below r) {offset : Nat}
    (hheld : ∀ bytes, r.Held d header root bytes frame.offset → rest.Held d header root bytes offset)
    (hsize : rest.size ≤ r.size) (hheight : rest.height ≤ r.height) :
    Seated d header root { frame with offset, childDone := 0 } below rest := by
  obtain ⟨bytes, hnode, hr⟩ := h.held
  refine ⟨⟨bytes, hnode, hheld bytes hr⟩, .inl rfl, (Nat.add_le_add_left hheight _).trans h.room, fun a ha => ?_⟩
  have ha' : ∃ a' ∈ (frame :: below).dropLast, a'.vcn = a.vcn := by
    cases below with
    | nil => cases ha
    | cons b below =>
      rcases List.mem_cons.1 ha with rfl | ha
      · exact ⟨frame, List.mem_cons_self, rfl⟩
      · exact ⟨a, List.mem_cons_of_mem _ ha, rfl⟩
  obtain ⟨a', ha', hvcn⟩ := ha'
  obtain ⟨bytes, whole, hnode, hwhole, hle⟩ := h.inside a' ha'
  exact ⟨bytes, whole, hvcn ▸ hnode, hwhole, hsize.trans hle⟩

/-- A turn with the entries `es` to come. -/
inductive Stepped (d : Directory) (header : IndexHeader) (root : Bytes) (es : List IndexEntry) : Turn → Prop where
  | go (frames : List Frame) (rs : List Rest) (hne : frames ≠ []) (hs : Stacked d header root frames rs)
      (heq : scan d.number es = scan d.number (pending frames rs)) : Stepped d header root es (.go frames)
  | found (x : DirEntry) (frames : List Frame) (rs : List Rest) (hne : frames ≠ []) (hs : Stacked d header root frames rs)
      (heq : scan d.number es = (x :: (scan d.number (pending frames rs)).1, (scan d.number (pending frames rs)).2)) :
      Stepped d header root es (.stop (.found x) frames)
  | stop (result : Next) (frames : List Frame) (hend : result = .notFound ∨ result = .io)
      (heq : scan d.number es = ([], result)) : Stepped d header root es (.stop result frames)

theorem stepped_up {rs : List Rest} (hs : Stacked d header root below rs) :
    Stepped d header root (pending below rs) (if below = [] then .stop .notFound [] else .go below) := by
  by_cases hroot : below = []
  · rw [if_pos hroot]
    subst hroot
    exact .stop _ _ (.inl rfl) rfl
  · rw [if_neg hroot]
    exact .go below rs hroot hs rfl

theorem stepped_on {rs : List Rest} {es : List IndexEntry} {frames : List Frame} (hne : frames ≠ [])
    (hs : Stacked d header root frames rs) (hes : es = e :: pending frames rs) :
    Stepped d header root es (match visit d.number e with
      | none => .go frames
      | some none => .stop .io frames
      | some (some x) => .stop (.found x) frames) := by
  subst hes
  cases hvisit : visit d.number e with
  | none =>
    refine .go frames rs hne hs ?_
    rw [scan, hvisit]
  | some x =>
    cases x with
    | none =>
      refine .stop _ _ (.inr rfl) ?_
      rw [scan, hvisit]
    | some x =>
      refine .found x frames rs hne hs ?_
      rw [scan, hvisit]

theorem stepped {r : Rest} {rs : List Rest} (h : Seated d header root frame below r) (hs : Stacked d header root below rs) :
    Stepped d header root (pending (frame :: below) (r :: rs)) (turn d header root (frame :: below)) := by
  obtain ⟨bytes, hnode, hheld⟩ := h.held
  have hdone : frame.childDone ≤ 1 := by rcases h.done with hd | hd <;> omega
  cases r with
  | last e =>
    rw [turn_up hdone hnode hheld.1 hheld.2.1 (.inl hheld.2.2)]
    have : pending (frame :: below) (.last e :: rs) = pending below rs := by
      simp [pending, Rest.listing, Rest.after]
    rw [this]
    exact stepped_up hs
  | lastOver e vcn child =>
    rcases h.done with hzero | hone
    · obtain ⟨hback, hdown, hnew, hroom⟩ := h.down hheld.2.2.2 (Nat.lt_succ_self _) (le_refl _)
      rw [turn_down hzero hnode hheld.1 hheld.2.2.1 hroom hnew]
      refine .go _ (child :: .lastOver e vcn child :: rs) (by simp) ⟨hdown, hback, hs⟩ ?_
      simp [pending, hzero, Rest.listing, Rest.after]
    · rw [turn_up hdone hnode hheld.1 hheld.2.1 (.inr hone)]
      have : pending (frame :: below) (.lastOver e vcn child :: rs) = pending below rs := by
        simp [pending, hone, Rest.after]
      rw [this]
      exact stepped_up hs
  | leaf e rest =>
    rw [turn_on hdone hnode hheld.1 hheld.2.1 hheld.2.2.2.1 (.inl hheld.2.2.1)]
    have hon : Seated d header root _ below rest := h.on (fun bytes hb => hb.2.2.2.2) (Nat.le_succ _) (le_refl _)
    have hstacked : Stacked d header root (_ :: below) (rest :: rs) := ⟨hon, hs⟩
    refine stepped_on (List.cons_ne_nil _ _) hstacked ?_
    simp [pending, Rest.listing, Rest.after]
  | branch e vcn child rest =>
    rcases h.done with hzero | hone
    · obtain ⟨hback, hdown, hnew, hroom⟩ := h.down hheld.2.2.2.2.1 (by simp only [Rest.size]; omega) (le_max_left _ _)
      rw [turn_down hzero hnode hheld.1 hheld.2.2.1 hroom hnew]
      refine .go _ (child :: .branch e vcn child rest :: rs) (by simp) ⟨hdown, hback, hs⟩ ?_
      simp [pending, hzero, Rest.listing, Rest.after]
    · rw [turn_on hdone hnode hheld.1 hheld.2.1 hheld.2.2.2.1 (.inr hone)]
      have hon : Seated d header root _ below rest :=
        h.on (fun bytes hb => hb.2.2.2.2.2) (by simp only [Rest.size]; omega) (le_max_right _ _)
      have hstacked : Stacked d header root (_ :: below) (rest :: rs) := ⟨hon, hs⟩
      refine stepped_on (List.cons_ne_nil _ _) hstacked ?_
      simp [pending, hone, Rest.after]

/-- **The turns on a tree** yield what the scan of its entries does. -/
theorem yields_scan {frames : List Frame} {es : List DirEntry} {result : Next} (h : Yields d header root frames es result) :
    ∀ rs, Stacked d header root frames rs → frames ≠ [] → scan d.number (pending frames rs) = (es, result) := by
  have hturn : ∀ {frames : List Frame} {rs : List Rest}, Stacked d header root frames rs → frames ≠ [] →
      Stepped d header root (pending frames rs) (turn d header root frames) := by
    intro frames rs hs hne
    match frames, rs, hs with
    | frame :: below, r :: rs, hs => exact stepped hs.1 hs.2
    | [], _, _ => exact absurd rfl hne
  induction h with
  | stop ht hend =>
    intro rs hs hne
    have hstep := hturn hs hne
    rw [ht] at hstep
    cases hstep with
    | stop _ _ _ heq => exact heq
    | found => rcases hend with h | h <;> cases h
  | go ht _ ih =>
    intro rs hs hne
    have hstep := hturn hs hne
    rw [ht] at hstep
    cases hstep with
    | go _ rs' hne' hs' heq => exact heq.trans (ih rs' hs' hne')
  | found ht _ ih =>
    intro rs hs hne
    have hstep := hturn hs hne
    rw [ht] at hstep
    cases hstep with
    | found x _ rs' hne' hs' heq =>
      rw [heq, ih rs' hs' hne']
    | stop _ _ hend _ => rcases hend with h | h <;> cases h

end Cursor

/-! ## The walk on a tree -/

/-- A sink that looks for the entry of a number. -/
structure EnumSink.Seeks (sink : EnumSink) : Prop where
  out : sink.out = none
  countRef : sink.countRef = none
  failed : sink.failed = false
  seen : sink.seen ≤ sink.wanted

theorem emit_seeks {sink : EnumSink} (h : sink.Seeks) (x : DirEntry) :
    emitEntry sink x =
      if sink.seen = sink.wanted then { sink with found := some x } else { sink with seen := sink.seen + 1 } := by
  unfold emitEntry
  rw [h.countRef, h.out]

theorem EnumSink.Seeks.emit {sink : EnumSink} (h : sink.Seeks) (x : DirEntry) : (emitEntry sink x).Seeks := by
  rw [emit_seeks h]
  split
  · exact ⟨h.out, h.countRef, h.failed, h.seen⟩
  · rename_i hne
    exact ⟨h.out, h.countRef, h.failed, Nat.lt_of_le_of_ne h.seen hne⟩

/-- Entries emitted until the sink stops. -/
def feed (sink : EnumSink) : List DirEntry → EnumSink
  | [] => sink
  | x :: rest => if (emitEntry sink x).stopped then emitEntry sink x else feed (emitEntry sink x) rest

theorem EnumSink.Seeks.feed : ∀ {sink : EnumSink} (es : List DirEntry), sink.Seeks → (feed sink es).Seeks
  | _, [], h => h
  | sink, x :: rest, h => by
    rw [Ntfs.feed]
    split
    · exact h.emit x
    · exact (h.emit x).feed rest

theorem feed_append : ∀ (sink : EnumSink) (es rest : List DirEntry), sink.stopped = false →
    feed sink (es ++ rest) = if (feed sink es).stopped then feed sink es else feed (feed sink es) rest
  | sink, [], rest, h => by
    show feed sink rest = if sink.stopped then _ else _
    rw [h]
    rfl
  | sink, x :: es, rest, _ => by
    rw [List.cons_append, feed, feed]
    by_cases hstop : (emitEntry sink x).stopped = true
    · rw [if_pos hstop, if_pos hstop, if_pos hstop]
    · rw [if_neg hstop, if_neg hstop]
      exact feed_append _ es rest (by simpa using hstop)

theorem feed_found : ∀ {sink : EnumSink} (es : List DirEntry), sink.Seeks → sink.found = none →
    (feed sink es).found = es[sink.wanted - sink.seen]?
  | _, [], _, hnone => by
    rw [feed, hnone, List.getElem?_nil]
  | sink, x :: rest, h, hnone => by
    have hemit := emit_seeks h x
    by_cases hnow : sink.seen = sink.wanted
    · rw [if_pos hnow] at hemit
      rw [feed, hemit, if_pos (by simp [EnumSink.stopped]), hnow, Nat.sub_self]
      rfl
    · rw [if_neg hnow] at hemit
      have hlt := Nat.lt_of_le_of_ne h.seen hnow
      have hrun : ¬ (emitEntry sink x).stopped = true := by
        rw [hemit]
        simp [EnumSink.stopped, h.failed, hnone]
      rw [feed, if_neg hrun, feed_found rest (h.emit x) (by rw [hemit]; exact hnone), hemit]
      show rest[sink.wanted - (sink.seen + 1)]? = _
      rw [show sink.wanted - sink.seen = sink.wanted - (sink.seen + 1) + 1 by omega, List.getElem?_cons_succ]

section Walk

variable {bytes : Bytes} {offset : Nat} {e : IndexEntry}

/-- The turn of the walk at `e`, its child behind it. -/
def walkBehind (directory : Nat) (descend : Nat → EnumSink → Option EnumSink) (bytes : Bytes) (fuel offset : Nat)
    (e : IndexEntry)
    (sink : EnumSink) : Option DirEntry → Option EnumSink
  | none => walkEntries directory descend (some bytes) fuel (offset + e.entryLength) sink
  | some built =>
    if (emitEntry sink built).stopped then some (emitEntry sink built)
    else if (emitEntry sink built).out.isSome && decide ((emitEntry sink built).maxEntries ≤ (emitEntry sink built).listed) then
      some (emitEntry sink built)
    else walkEntries directory descend (some bytes) fuel (offset + e.entryLength) (emitEntry sink built)

theorem walkEntries_at {directory fuel : Nat} {descend : Nat → EnumSink → Option EnumSink} {sink sink' : EnumSink}
    {emitted : Option DirEntry} (hentry : nextEntry (bytes.drop offset) = some e)
    (hpending : pendingEntry directory e = some emitted) (hchild : walkChild descend e sink = some sink') :
    walkEntries directory descend (some bytes) (fuel + 1) offset sink =
      if e.hasSubNode && sink'.stopped then some sink'
      else if e.isEnd then some sink'
      else walkBehind directory descend bytes fuel offset e sink' emitted := by
  have hok := nextEntry_ok hentry
  rw [List.length_drop] at hok
  rw [walkEntries]
  dsimp only
  rw [if_neg (by omega), hentry]
  dsimp only
  rw [hpending]
  dsimp only
  rw [hchild]
  cases emitted with
  | none => rfl
  | some built => rfl

theorem pendingEntry_end {directory : Nat} (hend : e.isEnd = true) : pendingEntry directory e = some none := if_pos hend

theorem pendingEntry_on {directory : Nat} (hend : e.isEnd = false) (hname : e.fileName.isSome = true) :
    pendingEntry directory e = some (visit directory e).join := by
  obtain ⟨name, hname⟩ := Option.isSome_iff_exists.1 hname
  unfold pendingEntry visit
  rw [hend, hname]
  dsimp only
  rw [if_neg Bool.false_ne_true]
  split
  · rfl
  · rfl

theorem walkEntries_on {directory fuel : Nat} {descend : Nat → EnumSink → Option EnumSink} {sink sink' : EnumSink}
    {es : List IndexEntry} (hentry : nextEntry (bytes.drop offset) = some e) (hend : e.isEnd = false)
    (hname : e.fileName.isSome = true) (hchild : walkChild descend e sink = some sink') (hseeks : sink'.Seeks)
    (hrun : sink'.stopped = false)
    (hrest : ∀ next : EnumSink, next.Seeks → next.stopped = false →
      walkEntries directory descend (some bytes) fuel (offset + e.entryLength) next =
        some (feed next (shown directory es))) :
    walkEntries directory descend (some bytes) (fuel + 1) offset sink = some (feed sink' (shown directory (e :: es))) := by
  rw [walkEntries_at hentry (pendingEntry_on hend hname) hchild, hrun, Bool.and_false, if_neg Bool.false_ne_true, hend,
    if_neg Bool.false_ne_true]
  unfold shown
  cases hvisit : (visit directory e).join with
  | none =>
    rw [List.filterMap_cons_none (f := fun e => (visit directory e).join) hvisit]
    exact hrest sink' hseeks hrun
  | some x =>
    rw [List.filterMap_cons_some (f := fun e => (visit directory e).join) hvisit, feed, walkBehind]
    by_cases hstop : (emitEntry sink' x).stopped = true
    · rw [if_pos hstop, if_pos hstop]
    · rw [if_neg hstop, if_neg hstop, (hseeks.emit x).out]
      exact hrest _ (hseeks.emit x) (by simpa using hstop)

/-- **The walk over a node** emits the entries of the tree. -/
theorem walkEntries_held : ∀ (r : Rest) (levels fuel offset : Nat) (bytes : Bytes) (sink : EnumSink),
    r.Held d header root bytes offset → r.height ≤ levels + 1 → bytes.length < offset + fuel → sink.Seeks →
    sink.stopped = false →
    walkEntries d.number (fun child sink => walkNode d header root levels (some child) sink) (some bytes) fuel offset sink =
      some (feed sink (shown d.number r.listing)) := by
  intro r
  have hdescend : ∀ {child : Rest} {vcn : Nat} {block : Bytes},
      (∀ (levels fuel offset : Nat) (bytes : Bytes) (sink : EnumSink),
      child.Held d header root bytes offset → child.height ≤ levels + 1 → bytes.length < offset + fuel → sink.Seeks →
      sink.stopped = false →
      walkEntries d.number (fun child sink => walkNode d header root levels (some child) sink) (some bytes) fuel
        offset sink =
        some (feed sink (shown d.number child.listing))) → ∀ (levels : Nat) (sink : EnumSink),
      d.node header root (some vcn) = some block → child.Held d header root block 0 → child.height ≤ levels → sink.Seeks →
      sink.stopped = false →
      walkNode d header root levels (some vcn) sink = some (feed sink (shown d.number child.listing)) := by
    intro child vcn block ih levels sink hblock hheld hheight hseeks hrun
    cases levels with
    | zero => exact absurd (child.height_pos.trans hheight) (Nat.not_succ_le_zero _)
    | succ levels =>
      rw [walkNode, if_neg (by simp [hrun]), hblock]
      exact ih levels _ 0 block sink hheld hheight (by simp) hseeks hrun
  induction r with
  | last e =>
    intro levels fuel offset bytes sink hheld hheight hfuel hseeks hrun
    have hpast := hheld.offset_lt
    obtain ⟨hentry, hend, hvcn⟩ := hheld
    cases fuel with
    | zero => omega
    | succ fuel =>
      rw [walkEntries_at hentry (pendingEntry_end hend) (by rw [walkChild, hvcn]), hrun, Bool.and_false,
        if_neg Bool.false_ne_true, if_pos hend]
      rfl
  | lastOver e vcn child ih =>
    intro levels fuel offset bytes sink hheld hheight hfuel hseeks hrun
    have hpast := hheld.offset_lt
    obtain ⟨hentry, hend, hvcn, block, hblock, hchild⟩ := hheld
    cases fuel with
    | zero => omega
    | succ fuel =>
      have hnode := hdescend ih levels sink hblock hchild (Nat.le_of_succ_le_succ hheight) hseeks hrun
      rw [walkEntries_at hentry (pendingEntry_end hend) (by rw [walkChild, hvcn]; exact hnode), if_pos hend, ite_self]
      rfl
  | leaf e rest ih =>
    intro levels fuel offset bytes sink hheld hheight hfuel hseeks hrun
    have hpast := hheld.offset_lt
    obtain ⟨hentry, hend, hvcn, hname, hrest⟩ := hheld
    have hlength := (nextEntry_ok hentry).1
    cases fuel with
    | zero => omega
    | succ fuel =>
      refine walkEntries_on hentry hend hname (by rw [walkChild, hvcn]) hseeks hrun (fun next hnext hnextrun => ?_)
      exact ih levels fuel _ bytes next hrest hheight (by omega) hnext hnextrun
  | branch e vcn child rest ihchild ihrest =>
    intro levels fuel offset bytes sink hheld hheight hfuel hseeks hrun
    have hpast := hheld.offset_lt
    obtain ⟨hentry, hend, hvcn, hname, ⟨block, hblock, hchild⟩, hrest⟩ := hheld
    have hok := nextEntry_ok hentry
    have hheights := max_le_iff.1 hheight
    cases fuel with
    | zero => omega
    | succ fuel =>
      have hnode := hdescend ihchild levels sink hblock hchild (Nat.le_of_succ_le_succ hheights.1) hseeks hrun
      have hlisting : shown d.number (Rest.branch e vcn child rest).listing =
          shown d.number child.listing ++ shown d.number (e :: rest.listing) := List.filterMap_append
      rw [hlisting, feed_append _ _ _ hrun]
      by_cases hstop : (feed sink (shown d.number child.listing)).stopped = true
      · rw [if_pos hstop, walkEntries_at hentry (pendingEntry_on hend hname) (by rw [walkChild, hvcn]; exact hnode),
          hok.2.2.2 (by rw [hvcn]; rfl), hstop]
        rfl
      · rw [if_neg hstop]
        refine walkEntries_on hentry hend hname (by rw [walkChild, hvcn]; exact hnode) (hseeks.feed _) (by simpa using hstop)
          (fun next hnext hnextrun => ?_)
        exact ihrest levels fuel _ bytes next hrest hheights.2 (by omega) hnext hnextrun

theorem walkEntries_total {directory : Nat} {descend : Nat → EnumSink → Option EnumSink}
    (hdescend : ∀ vcn sink, (descend vcn sink).isSome = true) : ∀ (fuel offset : Nat) (sink : EnumSink),
    offset ≤ bytes.length →
    bytes.length < offset + fuel → (walkEntries directory descend (some bytes) fuel offset sink).isSome = true
  | 0, _, _, hle, hlt => by omega
  | fuel + 1, offset, sink, hle, hlt => by
    by_cases hpast : bytes.length ≤ offset
    · rw [walkEntries]
      dsimp only
      rw [if_pos hpast]
      rfl
    cases hentry : nextEntry (bytes.drop offset) with
    | none =>
      rw [walkEntries]
      dsimp only
      rw [if_neg hpast, hentry]
      rfl
    | some e =>
      have hok := nextEntry_ok hentry
      rw [List.length_drop] at hok
      cases hpending : pendingEntry directory e with
      | none =>
        rw [walkEntries]
        dsimp only
        rw [if_neg hpast, hentry]
        dsimp only
        rw [hpending]
        rfl
      | some emitted =>
        have hchild : (walkChild descend e sink).isSome = true := by
          unfold walkChild
          split
          · exact hdescend _ _
          · rfl
        obtain ⟨sink', hchild⟩ := Option.isSome_iff_exists.1 hchild
        have hon : ∀ next, (walkEntries directory descend (some bytes) fuel (offset + e.entryLength) next).isSome = true :=
          fun next => walkEntries_total hdescend fuel _ next (by omega) (by omega)
        rw [walkEntries_at hentry hpending hchild]
        split
        · rfl
        split
        · rfl
        unfold walkBehind
        split
        · exact hon _
        · split
          · rfl
          split
          · rfl
          · exact hon _

theorem walkNode_total (d : Directory) (header : IndexHeader) (root : Bytes) : ∀ (levels : Nat) (vcn : Option Nat)
    (sink : EnumSink),
    (walkNode d header root levels vcn sink).isSome = true
  | 0, vcn, sink => by
    rw [walkNode]
    split
    · rfl
    · rfl
  | levels + 1, vcn, sink => by
    rw [walkNode]
    split
    · rfl
    · cases hnode : d.node header root vcn with
      | none => rfl
      | some bytes =>
        exact walkEntries_total (fun child next => walkNode_total d header root levels (some child) next)
          _ 0 sink (Nat.zero_le _)
          (by simp)

/-- **The walk comes to an end** on every content of the index. -/
theorem enumerateDirectory_total (d : Directory) (sink : EnumSink) : (enumerateDirectory d sink).isSome = true := by
  unfold enumerateDirectory
  split
  · rfl
  · rename_i header root hopen
    obtain ⟨sink', hwalk⟩ := Option.isSome_iff_exists.1 (walkNode_total d header root maxIndexDepth none sink)
    rw [hwalk]
    rfl

end Walk

/-! ## The two ways to list a directory -/

/-- The calls that resume a fresh cursor yield the entries the walks for the numbers 0, 1, 2, … find, and end behind the last. -/
def Agree (d : Directory) : Prop :=
  ∃ calls entries, drain d calls {} = some (entries, .notFound) ∧
    ∀ wanted, ∃ sink, enumerateDirectory d { wanted } = some (true, sink) ∧ sink.found = entries[wanted]?

theorem enumerate_tree (hopen : d.open = some (header, root)) {tree : Rest} (hheld : tree.Held d header root root 0)
    (hheight : tree.height ≤ maxIndexDepth) (wanted : Nat) : ∃ sink, enumerateDirectory d { wanted } = some (true, sink) ∧
      sink.found = (shown d.number tree.listing)[wanted]? := by
  have hseeks : EnumSink.Seeks { wanted } := ⟨rfl, rfl, rfl, Nat.zero_le _⟩
  have hwalk : walkNode d header root maxIndexDepth none { wanted } =
      some (feed { wanted } (shown d.number tree.listing)) := by
    rw [show maxIndexDepth = 7 + 1 from rfl, walkNode, if_neg (by simp [EnumSink.stopped])]
    exact walkEntries_held tree 7 _ 0 root { wanted } hheld hheight (by simp [Directory.node]) hseeks rfl
  refine ⟨feed { wanted } (shown d.number tree.listing), ?_, ?_⟩
  · unfold enumerateDirectory
    rw [hopen]
    dsimp only
    rw [hwalk]
    dsimp only
    rw [(hseeks.feed _).failed]
    rfl
  · exact feed_found _ hseeks rfl

theorem drain_tree (hopen : d.open = some (header, root)) {tree : Rest} (hheld : tree.Held d header root root 0)
    (hheight : tree.height ≤ maxIndexDepth) : ∃ calls, drain d calls {} = some (scan d.number tree.listing) := by
  obtain ⟨es, result, hy⟩ := ends d header root [{}]
  have hplaced : Seated d header root {} [] tree := by
    refine ⟨⟨root, rfl, hheld⟩, .inl rfl, by simpa using hheight, fun a ha => ?_⟩
    cases ha
  have hscan := yields_scan hy [tree] ⟨hplaced, trivial⟩ (List.cons_ne_nil _ _)
  obtain ⟨calls, hcalls⟩ := drain_of_yields hopen hy (by decide)
  refine ⟨calls, ?_⟩
  rw [drain_fresh rfl (Nat.zero_le _), hcalls, ← hscan]
  simp [pending]

theorem drain_mono (more : Nat) : ∀ {calls : Nat} {cursor : DirectoryCursor} {out : List DirEntry × Next},
    drain d calls cursor = some out → drain d (calls + more) cursor = some out
  | 0, _, _, h => by cases h
  | calls + 1, cursor, out, h => by
    rw [Nat.add_right_comm, drain]
    rw [drain] at h
    generalize nextDirectoryEntry d cursor = next at h ⊢
    obtain ⟨result, cursor'⟩ := next
    cases result with
    | found e =>
      obtain ⟨rest, hrest, rfl⟩ := Option.map_eq_some_iff.1 h
      show (drain d (calls + more) cursor').map _ = _
      rw [drain_mono more hrest]
      rfl
    | again => exact drain_mono more h
    | notFound => exact h
    | io => exact h

theorem agree_iff (hopen : d.open = some (header, root)) {tree : Rest} (hheld : tree.Held d header root root 0)
    (hheight : tree.height ≤ maxIndexDepth) : Agree d ↔ Readable d.number tree.listing := by
  obtain ⟨calls, hcalls⟩ := drain_tree hopen hheld hheight
  obtain ⟨hgood, hbad⟩ := scan_readable d.number tree.listing
  constructor
  · rintro ⟨calls', entries, hdrain, -⟩
    by_contra hread
    have h1 := drain_mono calls' hcalls
    have h2 := drain_mono calls hdrain
    rw [Nat.add_comm] at h2
    have hsame := Option.some.inj (h1.symm.trans h2)
    have := hbad hread
    rw [hsame] at this
    cases this
  · intro hread
    refine ⟨calls, shown d.number tree.listing, hcalls.trans (by rw [hgood hread]), fun wanted => ?_⟩
    exact enumerate_tree hopen hheld hheight wanted

/-- **The two ways to list a directory** come to an end on every content of its index, and agree on a tree exactly where
every name that is listed has a text. -/
theorem enumerations_agree (d : Directory) :
    ((∀ cursor, ∃ calls, (drain d calls cursor).isSome = true) ∧ ∀ sink, (enumerateDirectory d sink).isSome = true) ∧
    ∀ header root tree, d.open = some (header, root) → Rest.Held d header root tree root 0 → tree.height ≤ maxIndexDepth →
      (Agree d ↔ Readable d.number tree.listing) :=
  ⟨⟨drain_ends d, enumerateDirectory_total d⟩, fun _ _ _ hopen hheld hheight => agree_iff hopen hheld hheight⟩

section Sample

/-- The key of a file of no bytes. -/
def keyOf (units : List Nat) : Bytes :=
  leBytes 8 (FileReference.pack ⟨64, 1⟩) ++ zeros 48 ++ leBytes 4 0x20 ++ leBytes 4 0 ++ leBytes 1 units.length ++
      leBytes 1 1 ++
    leUnits units

def entryOf (record : Nat) (units : List Nat) : IndexEntry where
  fileReference := FileReference.pack ⟨record, 1⟩
  entryLength := 88
  flags := 0
  key := keyOf units
  subNodeVcn := none

def endEntry : IndexEntry where
  fileReference := 0
  entryLength := 16
  flags := indexEntryEnd
  key := []
  subNodeVcn := none

def IndexEntry.bytes (e : IndexEntry) : Bytes :=
  leBytes 8 e.fileReference ++ leBytes 2 e.entryLength ++ leBytes 2 e.key.length ++ leBytes 4 e.flags ++ e.key ++
    zeros (e.entryLength - 16 - e.key.length)

def indexHeaderOf (entries : Bytes) (flags : Nat := 0) : IndexHeader where
  entriesOffset := 16
  indexLength := 16 + entries.length
  flags := flags

/-- A record with an index root of its own, and the blocks below it. -/
def directoryOf (entries : Bytes) (flags : Nat := 0) (block : Nat → Option Bytes := fun _ => none) : Directory where
  number := 64
  record :=
    let value := leBytes 4 0x30 ++ leBytes 4 1 ++ leBytes 4 4096 ++ leBytes 4 1 ++ leBytes 4 16 ++
        leBytes 4 (16 + entries.length) ++
      leBytes 4 (16 + entries.length) ++ leBytes 4 flags ++ entries
    let attr := leBytes 4 0x90 ++ leBytes 4 (32 + value.length) ++ leBytes 1 0 ++ leBytes 1 4 ++ leBytes 2 24 ++
        leBytes 2 0 ++
      leBytes 2 0 ++ leBytes 4 value.length ++ leBytes 2 32 ++ leBytes 2 0 ++ i30Name ++ value
    let head := leBytes 4 fileMagic ++ leBytes 2 48 ++ leBytes 2 3 ++ leBytes 8 0 ++ leBytes 2 1 ++ leBytes 2 1 ++
        leBytes 2 56 ++
      leBytes 2 3 ++ leBytes 4 (64 + attr.length) ++ leBytes 4 1024 ++ leBytes 8 0 ++ leBytes 2 1 ++ leBytes 2 0 ++
          leBytes 4 64 ++
      zeros 8
    some (head ++ attr ++ leBytes 4 endMarker ++ zeros (1024 - head.length - attr.length - 4))
  collected := flags != 0
  block := block

/-- An entry over the block of number 0. -/
def overBlock (e : IndexEntry) : IndexEntry :=
  { e with entryLength := e.entryLength + 8, flags := indexEntryNode, subNodeVcn := some 0 }

def blockOf (entries : Bytes) : Bytes :=
  leBytes 4 indxMagic ++ zeros 20 ++ leBytes 4 16 ++ leBytes 4 (16 + entries.length) ++ leBytes 4 (16 + entries.length) ++
    leBytes 4 0 ++ entries

def plainEntries : Bytes := (entryOf 70 [0x61]).bytes ++ endEntry.bytes

/-- The block of `a` in front of `b`, then `c`. -/
def branchEntries : Bytes := (overBlock (entryOf 71 [0x62])).bytes ++ (entryOf 72 [0x63]).bytes ++ endEntry.bytes

def branchDirectory : Directory := directoryOf branchEntries 1 (fun vcn => if vcn = 0 then some (blockOf plainEntries) else none)

def branchTree : Rest :=
  .branch (overBlock (entryOf 71 [0x62])) 0 (.leaf (entryOf 70 [0x61]) (.last endEntry)) (.leaf (entryOf 72 [0x63]) (.last endEntry))

/-- A name of one character beyond the basic plane behind another. -/
def emojiEntries : Bytes := (entryOf 70 [0x61]).bytes ++ (entryOf 71 [0xD83D, 0xDE00]).bytes ++ endEntry.bytes

theorem branch_held : branchTree.Held branchDirectory (indexHeaderOf branchEntries 1) branchEntries branchEntries 0 :=
  ⟨by decide +kernel, by decide +kernel, rfl, by decide +kernel,
    ⟨plainEntries, by decide +kernel, by decide +kernel, by decide +kernel, rfl, by decide +kernel, by decide +kernel,
      by decide +kernel, rfl⟩,
    by decide +kernel, by decide +kernel, rfl, by decide +kernel, by decide +kernel, by decide +kernel, rfl⟩

/-- Three names in two nodes. -/
theorem branch_agree : Agree branchDirectory ∧ branchTree.listing = [entryOf 70 [0x61], overBlock (entryOf 71 [0x62]), entryOf 72 [0x63]] := by
  have hread : Readable 64 branchTree.listing := by
    intro e he
    rcases (by simpa [branchTree, Rest.listing] using he : e = _ ∨ e = _ ∨ e = _) with rfl | rfl | rfl
    · decide +kernel
    · decide +kernel
    · decide +kernel
  exact ⟨((enumerations_agree branchDirectory).2 (indexHeaderOf branchEntries 1) branchEntries branchTree (by decide +kernel)
    branch_held (by decide)).2 hread, rfl⟩

theorem emoji_stops : ∃ header root tree, (directoryOf emojiEntries).open = some (header, root) ∧
    Rest.Held (directoryOf emojiEntries) header root tree root 0 ∧ tree.height ≤ maxIndexDepth ∧
    ¬ Agree (directoryOf emojiEntries) := by
  have hopen : (directoryOf emojiEntries).open = some (indexHeaderOf emojiEntries, emojiEntries) := by decide +kernel
  have hheld : Rest.Held (directoryOf emojiEntries) (indexHeaderOf emojiEntries) emojiEntries
      (.leaf (entryOf 70 [0x61]) (.leaf (entryOf 71 [0xD83D, 0xDE00]) (.last endEntry))) emojiEntries 0 :=
    ⟨by decide +kernel, by decide +kernel, rfl, by decide +kernel, by decide +kernel, by decide +kernel, rfl, by decide +kernel,
      by decide +kernel, by decide +kernel, rfl⟩
  refine ⟨_, _, _, hopen, hheld, by decide, fun hagree => ?_⟩
  have hread := (agree_iff hopen hheld (by decide)).1 hagree
  exact hread (entryOf 71 [0xD83D, 0xDE00]) (by simp [Rest.listing]) (by decide +kernel)

end Sample

end Ntfs
end R4
