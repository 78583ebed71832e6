import R4Recovery.Buffer
import R4Recovery.FatName
import R4Recovery.PrefixCode
/-!
# NameCodec — file names between UTF-8 and UTF-16

`utf8ToUtf16` and `utf16ToUtf8` of `ntfs_format.zig`, `utf8ToUtf16Units` and `utf16UnitsToUtf8` of `fat32.zig`, with the
room of their buffers.  The FAT pair is inverse both ways.  The NTFS reader also takes overlong forms, which its writer
never makes: a name reads back exactly if it has none (`utf16ToUtf8_iff`).
-/
namespace R4
namespace NameCodec

open PrefixCode

/-! ## NTFS -/

/-- The continuation bytes of one character. -/
def continued : Nat → Nat → Bytes → Option (Nat × Bytes)
  | 0, code, rest => some (code, rest)
  | _ + 1, _, [] => none
  | k + 1, code, cont :: rest =>
    if cont &&& 0xC0 ≠ 0x80 then none else continued k (code * 64 + (cont &&& 0x3F).toNat) rest

/-- The code bits of a first byte, and how many bytes follow it. -/
def lead (b0 : UInt8) : Option (Nat × Nat) :=
  if b0 < 0x80 then some (b0.toNat, 0)
  else if b0 &&& 0xE0 = 0xC0 then some ((b0 &&& 0x1F).toNat, 1)
  else if b0 &&& 0xF0 = 0xE0 then some ((b0 &&& 0x0F).toNat, 2)
  else none

/-- One turn of the loop of `utf8ToUtf16`. -/
def ntfsUnit : Bytes → Option (Nat × Bytes)
  | [] => none
  | b0 :: rest =>
    match lead b0 with
    | none => none
    | some (code, extra) =>
      match continued extra code rest with
      | none => none
      | some (code, rest) =>
        if code = 0 ∨ (0xD800 ≤ code ∧ code ≤ 0xDFFF) ∨ 0xFFFF < code then none else some (code, rest)

/-- A unit in little-endian order. -/
def leUnits (units : List Nat) : Bytes := units.flatMap (leBytes 2)

def utf8ToUtf16 (name : Bytes) (room : Nat) : Option Bytes :=
  ((readAll ntfsUnit name.length name).map leUnits).filter (fun out => out.length ≤ room)

/-- The bytes of one unit. -/
def ntfsText (unit : Nat) : Option Bytes := if unit = 0 then none else Fat.utf8OfUnit unit

def unitsOf (name : Bytes) : List Nat := (List.range (name.length / 2)).map (fun i => leNat (slice name (i * 2) 2))

def utf16ToUtf8 (name : Bytes) (room : Nat) : Option Bytes :=
  (writeAll ntfsText (unitsOf name)).filter (fun out => out.length ≤ room)

/-! ## FAT -/

/-- One turn of the loop of `utf8ToUtf16Units`. -/
def fatUnit : Bytes → Option (Nat × Bytes)
  | [] => none
  | b :: rest =>
    if b < 0x80 then some (b.toNat, rest)
    else if b &&& 0xE0 = 0xC0 then
      match rest with
      | b1 :: rest =>
        if b < 0xC2 ∨ b1 &&& 0xC0 ≠ 0x80 then none else some ((b &&& 0x1F).toNat * 64 + (b1 &&& 0x3F).toNat, rest)
      | [] => none
    else if b &&& 0xF0 = 0xE0 then
      match rest with
      | b1 :: b2 :: rest =>
        if b1 &&& 0xC0 ≠ 0x80 ∨ b2 &&& 0xC0 ≠ 0x80 then none
        else if (b = 0xE0 ∧ b1 < 0xA0) ∨ (b = 0xED ∧ 0xA0 ≤ b1) then none
        else some ((b &&& 0x0F).toNat * 4096 + (b1 &&& 0x3F).toNat * 64 + (b2 &&& 0x3F).toNat, rest)
      | _ => none
    else none

/-- `utf8ToUtf16Units` with a buffer for `room` units. -/
def utf8ToUtf16Units (name : Bytes) (room : Nat) : Option (List Nat) :=
  (readAll fatUnit name.length name).filter (fun units => units.length ≤ room)

/-- `utf16UnitsToUtf8` with a buffer for `room` bytes. -/
def utf16UnitsToUtf8 (units : List Nat) (room : Nat) : Option Bytes :=
  (writeAll Fat.utf8OfUnit units).filter (fun out => out.length ≤ room)

/-! ## Bytes -/

theorem byte_masks (c : UInt8) : ((c &&& 0xC0 = 0x80 ↔ 0x80 ≤ c.toNat ∧ c.toNat < 0xC0) ∧
      (c &&& 0xE0 = 0xC0 ↔ 0xC0 ≤ c.toNat ∧ c.toNat < 0xE0) ∧ (c &&& 0xF0 = 0xE0 ↔ 0xE0 ≤ c.toNat ∧ c.toNat < 0xF0)) ∧
    (c &&& 0x3F).toNat = c.toNat % 64 ∧ (c &&& 0x1F).toNat = c.toNat % 32 ∧ (c &&& 0x0F).toNat = c.toNat % 16 := by
  revert c
  exact byte_forall (by decide +kernel)

theorem cont_iff (c : UInt8) : c &&& 0xC0 = 0x80 ↔ 0x80 ≤ c.toNat ∧ c.toNat < 0xC0 := (byte_masks c).1.1

theorem lead2_iff (b : UInt8) : b &&& 0xE0 = 0xC0 ↔ 0xC0 ≤ b.toNat ∧ b.toNat < 0xE0 := (byte_masks b).1.2.1

theorem lead3_iff (b : UInt8) : b &&& 0xF0 = 0xE0 ↔ 0xE0 ≤ b.toNat ∧ b.toNat < 0xF0 := (byte_masks b).1.2.2

theorem and_low (b : UInt8) : (b &&& 0x3F).toNat = b.toNat % 64 ∧ (b &&& 0x1F).toNat = b.toNat % 32 ∧ (b &&& 0x0F).toNat = b.toNat % 16 :=
  (byte_masks b).2

theorem byte_eq {b : UInt8} {n : Nat} (h : b.toNat = n) : UInt8.ofNat n = b := by
  rw [← h]
  exact UInt8.ofNat_toNat

/-! ## Units -/

theorem two_bytes {b b1 : UInt8} (h : b &&& 0xE0 = 0xC0) (h1 : b1 &&& 0xC0 = 0x80) :
    (b &&& 0x1F).toNat * 64 + (b1 &&& 0x3F).toNat = (b.toNat - 0xC0) * 64 + (b1.toNat - 0x80) := by
  obtain ⟨-, hb, -⟩ := and_low b
  obtain ⟨hb1, -, -⟩ := and_low b1
  have := (lead2_iff b).1 h
  have := (cont_iff b1).1 h1
  omega

theorem three_bytes {b b1 b2 : UInt8} (h : b &&& 0xF0 = 0xE0) (h1 : b1 &&& 0xC0 = 0x80) (h2 : b2 &&& 0xC0 = 0x80) :
    (b &&& 0x0F).toNat * 4096 + (b1 &&& 0x3F).toNat * 64 + (b2 &&& 0x3F).toNat =
      (b.toNat - 0xE0) * 4096 + (b1.toNat - 0x80) * 64 + (b2.toNat - 0x80) := by
  obtain ⟨-, -, hb⟩ := and_low b
  obtain ⟨hb1, -, -⟩ := and_low b1
  obtain ⟨hb2, -, -⟩ := and_low b2
  have := (lead3_iff b).1 h
  have := (cont_iff b1).1 h1
  have := (cont_iff b2).1 h2
  omega

/-- What the FAT reader takes for one unit. -/
inductive Char : Nat → Bytes → Prop where
  | one {b : UInt8} : b.toNat < 0x80 → Char b.toNat [b]
  | two {b b1 : UInt8} : 0xC2 ≤ b.toNat → b.toNat < 0xE0 → 0x80 ≤ b1.toNat → b1.toNat < 0xC0 →
      Char ((b.toNat - 0xC0) * 64 + (b1.toNat - 0x80)) [b, b1]
  | three {b b1 b2 : UInt8} : 0xE0 ≤ b.toNat → b.toNat < 0xF0 → 0x80 ≤ b1.toNat → b1.toNat < 0xC0 → 0x80 ≤ b2.toNat →
      b2.toNat < 0xC0 → (b.toNat = 0xE0 → 0xA0 ≤ b1.toNat) → (b.toNat = 0xED → b1.toNat < 0xA0) →
      Char ((b.toNat - 0xE0) * 4096 + (b1.toNat - 0x80) * 64 + (b2.toNat - 0x80)) [b, b1, b2]

theorem fatUnit_char {s rest : Bytes} {unit : Nat} (h : fatUnit s = some (unit, rest)) : ∃ bs, Char unit bs ∧ s = bs ++ rest := by
  cases s with
  | nil => cases h
  | cons b tail =>
    unfold fatUnit at h
    dsimp only at h
    split at h
    · rename_i hlt
      cases h
      exact ⟨[b], .one (UInt8.lt_iff_toNat_lt.1 hlt), rfl⟩
    · split at h
      · rename_i hlead
        cases tail with
        | nil => cases h
        | cons b1 tail =>
          dsimp only at h
          split at h
          · cases h
          · rename_i hok
            rw [not_or, not_not] at hok
            cases h
            have hb := (lead2_iff b).1 hlead
            have hb1 := (cont_iff b1).1 hok.2
            have hlow : 0xC2 ≤ b.toNat := by
              have := UInt8.lt_iff_toNat_lt.not.1 hok.1
              exact Nat.not_lt.1 this
            rw [two_bytes hlead hok.2]
            exact ⟨[b, b1], .two hlow hb.2 hb1.1 hb1.2, rfl⟩
      · split at h
        · rename_i hlead
          rcases tail with _ | ⟨b1, _ | ⟨b2, tail⟩⟩
          · cases h
          · cases h
          · dsimp only at h
            split at h
            · cases h
            · rename_i hcont
              rw [not_or, not_not, not_not] at hcont
              split at h
              · cases h
              · rename_i hok
                rw [not_or] at hok
                cases h
                have hb := (lead3_iff b).1 hlead
                have hb1 := (cont_iff b1).1 hcont.1
                have hb2 := (cont_iff b2).1 hcont.2
                rw [three_bytes hlead hcont.1 hcont.2]
                refine ⟨[b, b1, b2], .three hb.1 hb.2 hb1.1 hb1.2 hb2.1 hb2.2 (fun he => ?_) (fun he => ?_), rfl⟩
                · by_contra hlt
                  exact hok.1 ⟨UInt8.toNat_inj.1 he, UInt8.lt_iff_toNat_lt.2 (Nat.not_le.1 hlt)⟩
                · by_contra hle
                  exact hok.2 ⟨UInt8.toNat_inj.1 he, UInt8.le_iff_toNat_le.2 (Nat.not_lt.1 hle)⟩
        · cases h

/-- **The bytes of a unit** are the character it is taken from. -/
theorem utf8OfUnit_char {unit : Nat} {bs : Bytes} (h : Char unit bs) : Fat.utf8OfUnit unit = some bs := by
  unfold Fat.utf8OfUnit
  cases h with
  | one h =>
    rw [if_pos h, byte_eq rfl]
  | @two b b1 h1 h2 h3 h4 =>
    rw [if_neg (by omega), if_pos (by omega), byte_eq (b := b) (by omega), byte_eq (b := b1) (by omega)]
  | @three b b1 b2 h1 h2 h3 h4 h5 h6 h7 h8 =>
    rw [if_neg (by omega), if_neg (by omega), if_neg (by omega), byte_eq (b := b) (by omega), byte_eq (b := b1) (by omega),
      byte_eq (b := b2) (by omega)]

/-- **The bytes that are written** are a character. -/
theorem char_of_text {unit : Nat} {bs : Bytes} (hunit : unit < 2 ^ 16) (h : Fat.utf8OfUnit unit = some bs) : Char unit bs := by
  have hbyte : ∀ n, n < 256 → (UInt8.ofNat n).toNat = n := fun n hn => UInt8.toNat_ofNat_of_lt' hn
  unfold Fat.utf8OfUnit at h
  split at h
  · rename_i hlt
    cases h
    have hb := hbyte unit (by omega)
    have hc := Char.one (b := UInt8.ofNat unit) (by omega)
    rwa [hb] at hc
  · split at h
    · cases h
      have hb := hbyte (0xC0 + unit / 64) (by omega)
      have hb1 := hbyte (0x80 + unit % 64) (by omega)
      have hc := @Char.two (UInt8.ofNat (0xC0 + unit / 64)) (UInt8.ofNat (0x80 + unit % 64))
        (by omega) (by omega) (by omega) (by omega)
      rw [hb, hb1] at hc
      have hunit : (0xC0 + unit / 64 - 0xC0) * 64 + (0x80 + unit % 64 - 0x80) = unit := by omega
      rwa [hunit] at hc
    · split at h
      · cases h
      · cases h
        have hb := hbyte (0xE0 + unit / 4096) (by omega)
        have hb1 := hbyte (0x80 + unit / 64 % 64) (by omega)
        have hb2 := hbyte (0x80 + unit % 64) (by omega)
        have hc := @Char.three (UInt8.ofNat (0xE0 + unit / 4096)) (UInt8.ofNat (0x80 + unit / 64 % 64))
          (UInt8.ofNat (0x80 + unit % 64)) (by omega) (by omega) (by omega) (by omega) (by omega) (by omega)
          (by omega) (by omega)
        rw [hb, hb1, hb2] at hc
        have hunit : (0xE0 + unit / 4096 - 0xE0) * 4096 + (0x80 + unit / 64 % 64 - 0x80) * 64 + (0x80 + unit % 64 - 0x80) = unit := by
          omega
        rwa [hunit] at hc

/-- **A character is read** by the FAT reader. -/
theorem fatUnit_append {unit : Nat} {bs : Bytes} (h : Char unit bs) (rest : Bytes) : fatUnit (bs ++ rest) = some (unit, rest) := by
  cases h with
  | @one b h =>
    show (if b < 0x80 then _ else _) = _
    rw [if_pos (UInt8.lt_iff_toNat_lt.2 h)]
    rfl
  | @two b b1 h1 h2 h3 h4 =>
    have hlead : b &&& 0xE0 = 0xC0 := (lead2_iff b).2 (by omega)
    have hcont : b1 &&& 0xC0 = 0x80 := (cont_iff b1).2 ⟨h3, h4⟩
    have hge : ¬ b < 0x80 := fun hlt => by
      have : b.toNat < 0x80 := UInt8.lt_iff_toNat_lt.1 hlt
      omega
    have hge2 : ¬ b < 0xC2 := fun hlt => by
      have : b.toNat < 0xC2 := UInt8.lt_iff_toNat_lt.1 hlt
      omega
    rw [List.cons_append, List.cons_append, List.nil_append, fatUnit, if_neg hge, if_pos hlead,
      if_neg (by simp [hge2, hcont]), two_bytes hlead hcont]
  | @three b b1 b2 h1 h2 h3 h4 h5 h6 h7 h8 =>
    have hnot : ¬ b &&& 0xE0 = 0xC0 := fun h => by
      have := (lead2_iff b).1 h
      omega
    have hlead : b &&& 0xF0 = 0xE0 := (lead3_iff b).2 ⟨h1, h2⟩
    have hcont : b1 &&& 0xC0 = 0x80 := (cont_iff b1).2 ⟨h3, h4⟩
    have hcont2 : b2 &&& 0xC0 = 0x80 := (cont_iff b2).2 ⟨h5, h6⟩
    have hge : ¬ b < 0x80 := fun hlt => by
      have : b.toNat < 0x80 := UInt8.lt_iff_toNat_lt.1 hlt
      omega
    have hover : ¬ ((b = 0xE0 ∧ b1 < 0xA0) ∨ (b = 0xED ∧ 0xA0 ≤ b1)) := by
      rintro (⟨rfl, hlt⟩ | ⟨rfl, hle⟩)
      · have : b1.toNat < 0xA0 := UInt8.lt_iff_toNat_lt.1 hlt
        have := h7 rfl
        omega
      · have : 0xA0 ≤ b1.toNat := UInt8.le_iff_toNat_le.1 hle
        have := h8 rfl
        omega
    rw [List.cons_append, List.cons_append, List.cons_append, List.nil_append, fatUnit, if_neg hge, if_neg hnot, if_pos hlead]
    dsimp only
    rw [if_neg (by simp [hcont, hcont2]), if_neg hover, three_bytes hlead hcont hcont2]

theorem Char.ne_nil {unit : Nat} {bs : Bytes} (h : Char unit bs) : bs ≠ [] := by
  cases h <;> simp

theorem Char.unit {unit : Nat} {bs : Bytes} (h : Char unit bs) :
    unit < 2 ^ 16 ∧ ¬ (0xD800 ≤ unit ∧ unit ≤ 0xDFFF) ∧ (unit < 0x80 → UInt8.ofNat unit ∈ bs) := by
  cases h with
  | @one b h => exact ⟨by omega, by omega, fun _ => by rw [byte_eq rfl]; exact List.mem_singleton_self b⟩
  | two h1 h2 h3 h4 => exact ⟨by omega, by omega, fun h => by omega⟩
  | three h1 h2 h3 h4 h5 h6 h7 h8 => exact ⟨by omega, by omega, fun h => by omega⟩

/-! ## Shortest forms -/

/-- No character has a longer form than it needs: no lead byte is 0xC0 or 0xC1, and 0xE0 goes on with 0xA0 at least. -/
def shortest : Bytes → Bool
  | [] => true
  | b :: rest => b != 0xC0 && b != 0xC1 && !(b == 0xE0 && decide (rest.headD 0xFF < 0xA0)) && shortest rest

theorem shortest_cons {b : UInt8} {rest : Bytes} : shortest (b :: rest) = true ↔
    b ≠ 0xC0 ∧ b ≠ 0xC1 ∧ (b = 0xE0 → ¬ rest.headD 0xFF < 0xA0) ∧ shortest rest = true := by
  simp only [shortest, Bool.and_eq_true, bne_iff_ne, ne_eq, Bool.not_eq_true', Bool.and_eq_false_iff, beq_eq_false_iff_ne,
    decide_eq_false_iff_not, and_assoc]
  have himp : (¬ b = 0xE0 ∨ ¬ rest.headD 0xFF < 0xA0) ↔ (b = 0xE0 → ¬ rest.headD 0xFF < 0xA0) := (imp_iff_not_or).symm
  rw [himp]

theorem shortest_low {b : UInt8} {rest : Bytes} (h : b.toNat < 0xC0) : shortest (b :: rest) = true ↔ shortest rest = true := by
  rw [shortest_cons]
  refine ⟨fun h => h.2.2.2, fun hr => ⟨?_, ?_, ?_, hr⟩⟩ <;> rintro rfl <;> exact absurd h (by decide)

/-- **Characters are shortest forms.** -/
theorem shortest_append {unit : Nat} {bs : Bytes} (h : Char unit bs) (rest : Bytes) :
    shortest (bs ++ rest) = true ↔ shortest rest = true := by
  cases h with
  | @one b h =>
    exact shortest_low (by omega)
  | @two b b1 h1 h2 h3 h4 =>
    show shortest (b :: b1 :: rest) = true ↔ _
    rw [shortest_cons, shortest_low h4]
    refine ⟨fun h => h.2.2.2, fun hr => ⟨?_, ?_, ?_, hr⟩⟩
    · rintro rfl
      exact absurd h1 (by decide)
    · rintro rfl
      exact absurd h1 (by decide)
    · rintro rfl
      exact absurd h2 (by decide)
  | @three b b1 b2 h1 h2 h3 h4 h5 h6 h7 h8 =>
    show shortest (b :: b1 :: b2 :: rest) = true ↔ _
    rw [shortest_cons, shortest_low h4, shortest_low h6]
    refine ⟨fun h => h.2.2.2, fun hr => ⟨?_, ?_, fun he hlt => ?_, hr⟩⟩
    · rintro rfl
      exact absurd h1 (by decide)
    · rintro rfl
      exact absurd h1 (by decide)
    · subst he
      have : b1.toNat < 0xA0 := UInt8.lt_iff_toNat_lt.1 hlt
      have := h7 rfl
      omega

theorem ntfsUnit_append {unit : Nat} {bs : Bytes} (h : Char unit bs) (hne : unit ≠ 0) (rest : Bytes) :
    ntfsUnit (bs ++ rest) = some (unit, rest) := by
  obtain ⟨hlt, hsur, -⟩ := h.unit
  have hvalid : ¬ (unit = 0 ∨ (0xD800 ≤ unit ∧ unit ≤ 0xDFFF) ∨ 0xFFFF < unit) := by omega
  cases h with
  | @one b h =>
    have hlead : lead b = some (b.toNat, 0) := if_pos (UInt8.lt_iff_toNat_lt.2 h)
    rw [List.cons_append, List.nil_append, ntfsUnit, hlead]
    dsimp only [continued]
    rw [if_neg hvalid]
  | @two b b1 h1 h2 h3 h4 =>
    have hlead : b &&& 0xE0 = 0xC0 := (lead2_iff b).2 (by omega)
    have hcont : b1 &&& 0xC0 = 0x80 := (cont_iff b1).2 ⟨h3, h4⟩
    have hge : ¬ b < 0x80 := fun hlt => by
      have : b.toNat < 0x80 := UInt8.lt_iff_toNat_lt.1 hlt
      omega
    have hl : lead b = some ((b &&& 0x1F).toNat, 1) := by rw [lead, if_neg hge, if_pos hlead]
    rw [List.cons_append, List.cons_append, List.nil_append, ntfsUnit, hl]
    dsimp only [continued]
    rw [if_neg (by simp [hcont])]
    dsimp only
    rw [two_bytes hlead hcont, if_neg hvalid]
  | @three b b1 b2 h1 h2 h3 h4 h5 h6 h7 h8 =>
    have hnot : ¬ b &&& 0xE0 = 0xC0 := fun h => by
      have := (lead2_iff b).1 h
      omega
    have hlead : b &&& 0xF0 = 0xE0 := (lead3_iff b).2 ⟨h1, h2⟩
    have hcont : b1 &&& 0xC0 = 0x80 := (cont_iff b1).2 ⟨h3, h4⟩
    have hcont2 : b2 &&& 0xC0 = 0x80 := (cont_iff b2).2 ⟨h5, h6⟩
    have hge : ¬ b < 0x80 := fun hlt => by
      have : b.toNat < 0x80 := UInt8.lt_iff_toNat_lt.1 hlt
      omega
    have hl : lead b = some ((b &&& 0x0F).toNat, 2) := by rw [lead, if_neg hge, if_neg hnot, if_pos hlead]
    have hcode : ((b &&& 0x0F).toNat * 64 + (b1 &&& 0x3F).toNat) * 64 + (b2 &&& 0x3F).toNat =
        (b.toNat - 0xE0) * 4096 + (b1.toNat - 0x80) * 64 + (b2.toNat - 0x80) := by
      rw [← three_bytes hlead hcont hcont2]
      omega
    rw [List.cons_append, List.cons_append, List.cons_append, List.nil_append, ntfsUnit, hl]
    dsimp only [continued]
    rw [if_neg (by simp [hcont]), if_neg (by simp [hcont2])]
    dsimp only
    rw [hcode, if_neg hvalid]

/-- **In a shortest form** the NTFS reader takes characters only. -/
theorem ntfsUnit_char {s rest : Bytes} {unit : Nat} (hs : shortest s = true) (h : ntfsUnit s = some (unit, rest)) :
    ∃ bs, Char unit bs ∧ unit ≠ 0 ∧ s = bs ++ rest ∧ shortest rest = true := by
  cases s with
  | nil => cases h
  | cons b tail =>
    obtain ⟨hC0, hC1, hE0, htail⟩ := shortest_cons.1 hs
    have hne : ∀ {c : UInt8} {n : Nat}, c ≠ UInt8.ofNat n → n < 256 → c.toNat ≠ n := fun hc hn he => hc (byte_eq he).symm
    rw [ntfsUnit] at h
    by_cases hlt : b < 0x80
    · have hlead : lead b = some (b.toNat, 0) := if_pos hlt
      rw [hlead] at h
      dsimp only [continued] at h
      split at h
      · cases h
      · rename_i hvalid
        cases h
        exact ⟨[b], .one (UInt8.lt_iff_toNat_lt.1 hlt), by omega, rfl, htail⟩
    by_cases htwo : b &&& 0xE0 = 0xC0
    · have hlead : lead b = some ((b &&& 0x1F).toNat, 1) := by rw [lead, if_neg hlt, if_pos htwo]
      rw [hlead] at h
      cases tail with
      | nil => cases h
      | cons b1 tail =>
        dsimp only [continued] at h
        by_cases hcont : b1 &&& 0xC0 = 0x80
        · rw [if_neg (by simp [hcont])] at h
          dsimp only at h
          split at h
          · cases h
          · rename_i hvalid
            cases h
            rw [two_bytes htwo hcont] at hvalid ⊢
            have hb := (lead2_iff b).1 htwo
            have hb1 := (cont_iff b1).1 hcont
            have h0 : b.toNat ≠ 0xC0 := hne hC0 (by decide)
            have h1 : b.toNat ≠ 0xC1 := hne hC1 (by decide)
            exact ⟨[b, b1], .two (by omega) hb.2 hb1.1 hb1.2, by omega, rfl, (shortest_low hb1.2).1 htail⟩
        · rw [if_pos hcont] at h
          cases h
    by_cases hthree : b &&& 0xF0 = 0xE0
    · have hlead : lead b = some ((b &&& 0x0F).toNat, 2) := by rw [lead, if_neg hlt, if_neg htwo, if_pos hthree]
      rw [hlead] at h
      rcases tail with _ | ⟨b1, _ | ⟨b2, tail⟩⟩
      · cases h
      · dsimp only [continued] at h
        rw [ite_self] at h
        cases h
      · dsimp only [continued] at h
        by_cases hcont : b1 &&& 0xC0 = 0x80
        · by_cases hcont2 : b2 &&& 0xC0 = 0x80
          · rw [if_neg (by simp [hcont]), if_neg (by simp [hcont2])] at h
            dsimp only at h
            split at h
            · cases h
            · rename_i hvalid
              cases h
              have hcode : ((b &&& 0x0F).toNat * 64 + (b1 &&& 0x3F).toNat) * 64 + (b2 &&& 0x3F).toNat =
                  (b.toNat - 0xE0) * 4096 + (b1.toNat - 0x80) * 64 + (b2.toNat - 0x80) := by
                rw [← three_bytes hthree hcont hcont2]
                omega
              rw [hcode] at hvalid ⊢
              have hb := (lead3_iff b).1 hthree
              have hb1 := (cont_iff b1).1 hcont
              have hb2 := (cont_iff b2).1 hcont2
              refine ⟨[b, b1, b2], .three hb.1 hb.2 hb1.1 hb1.2 hb2.1 hb2.2 (fun he => ?_) (fun he => by omega), by omega, rfl,
                (shortest_low hb2.2).1 ((shortest_low hb1.2).1 htail)⟩
              by_contra hlt
              exact hE0 (UInt8.toNat_inj.1 he) (UInt8.lt_iff_toNat_lt.2 (Nat.not_le.1 hlt))
          · rw [if_neg (by simp [hcont]), if_pos hcont2] at h
            cases h
        · rw [if_pos hcont] at h
          cases h
    · have hlead : lead b = none := by rw [lead, if_neg hlt, if_neg htwo, if_neg hthree]
      rw [hlead] at h
      cases h

theorem ntfsUnit_unit {s rest : Bytes} {unit : Nat} (h : ntfsUnit s = some (unit, rest)) : unit < 2 ^ 16 ∧ unit ≠ 0 := by
  cases s with
  | nil => cases h
  | cons b tail =>
    rw [ntfsUnit] at h
    cases hlead : lead b with
    | none =>
      rw [hlead] at h
      cases h
    | some l =>
      rw [hlead] at h
      dsimp only at h
      cases hcont : continued l.2 l.1 tail with
      | none =>
        rw [hcont] at h
        cases h
      | some r =>
        rw [hcont] at h
        dsimp only at h
        split at h
        · cases h
        · cases h
          omega

/-! ## Names -/

theorem leUnits_cons (u : Nat) (units : List Nat) : leUnits (u :: units) = leBytes 2 u ++ leUnits units := List.flatMap_cons

theorem unitsOf_leUnits : ∀ {units : List Nat}, (∀ u ∈ units, u < 2 ^ 16) → unitsOf (leUnits units) = units
  | [], _ => rfl
  | u :: units, h => by
    have ih : unitsOf (leUnits units) = units := unitsOf_leUnits (fun x hx => h x (List.mem_cons_of_mem u hx))
    have hlen : (leUnits (u :: units)).length / 2 = (leUnits units).length / 2 + 1 := by
      rw [leUnits_cons, List.length_append, length_leBytes]
      omega
    have hhead : leNat (slice (leUnits (u :: units)) (0 * 2) 2) = u := by
      rw [leUnits_cons, Nat.zero_mul]
      have hslice : slice (leBytes 2 u ++ leUnits units) 0 2 = leBytes 2 u := by
        unfold slice
        rw [List.drop_zero]
        exact List.take_left' (length_leBytes 2 u)
      rw [hslice]
      exact leNat_leBytes_of_lt (h u List.mem_cons_self)
    have htail : ∀ i, slice (leUnits (u :: units)) ((i + 1) * 2) 2 = slice (leUnits units) (i * 2) 2 := by
      intro i
      unfold slice
      rw [leUnits_cons, show (i + 1) * 2 = 2 + i * 2 by omega, ← List.drop_drop, List.drop_left' (length_leBytes 2 u)]
    unfold unitsOf at ih ⊢
    rw [hlen, List.range_succ_eq_map, List.map_cons, hhead, List.map_map]
    refine congrArg (u :: ·) ((List.map_congr_left (fun i _ => ?_)).trans ih)
    show leNat (slice (leUnits (u :: units)) ((i + 1) * 2) 2) = _
    rw [htail i]

theorem shortest_writeAll : ∀ {units : List Nat} {s : Bytes}, (∀ u ∈ units, u < 2 ^ 16) → writeAll Fat.utf8OfUnit units = some s →
    shortest s = true
  | [], s, _, h => by
    cases h
    rfl
  | u :: units, s, hu, h => by
    obtain ⟨bs, s', hbs, hs', rfl⟩ := writeAll_cons h
    rw [shortest_append (char_of_text (hu u List.mem_cons_self) hbs)]
    exact shortest_writeAll (fun x hx => hu x (List.mem_cons_of_mem u hx)) hs'

theorem mem_writeAll {c : Nat} (hc : c < 0x80) : ∀ {units : List Nat} {s : Bytes}, (∀ u ∈ units, u < 2 ^ 16) →
    writeAll Fat.utf8OfUnit units = some s → c ∈ units → UInt8.ofNat c ∈ s
  | u :: units, s, hu, h, hmem => by
    obtain ⟨bs, s', hbs, hs', rfl⟩ := writeAll_cons h
    rcases List.mem_cons.1 hmem with rfl | hmem
    · exact List.mem_append_left _ ((char_of_text (hu c List.mem_cons_self) hbs).unit.2.2 hc)
    · exact List.mem_append_right _ (mem_writeAll hc (fun x hx => hu x (List.mem_cons_of_mem u hx)) hs' hmem)

theorem ntfsText_eq {units : List Nat} (h : ∀ u ∈ units, u ≠ 0) : writeAll ntfsText units = writeAll Fat.utf8OfUnit units := by
  induction units with
  | nil => rfl
  | cons u units ih =>
    have hu : ntfsText u = Fat.utf8OfUnit u := if_neg (h u List.mem_cons_self)
    rw [writeAll, writeAll, hu, ih (fun x hx => h x (List.mem_cons_of_mem u hx))]

theorem filter_room {α : Type} {x : Option (List α)} {room : Nat} {l : List α} (h : x.filter (fun l => l.length ≤ room) = some l) :
    x = some l := (Option.filter_eq_some_iff.1 h).1

/-- **The FAT pair is inverse**, from UTF-8. -/
theorem utf16UnitsToUtf8_units {s : Bytes} {room room' : Nat} {units : List Nat} (h : utf8ToUtf16Units s room = some units)
    (hroom : s.length ≤ room') : utf16UnitsToUtf8 units room' = some s ∧ ∀ c, c < 0x80 → c ∈ units → UInt8.ofNat c ∈ s := by
  have hread := filter_room h
  have hwrite : writeAll Fat.utf8OfUnit units = some s :=
    writeAll_readAll (G := fun _ => True) (fun s a rest _ hn => by
      obtain ⟨bs, hchar, hs⟩ := fatUnit_char hn
      exact ⟨trivial, bs, utf8OfUnit_char hchar, hs⟩) _ s units trivial hread
  have hunits : ∀ u ∈ units, u < 2 ^ 16 := readAll_forall (fun s a rest hn => by
    obtain ⟨bs, hchar, -⟩ := fatUnit_char hn
    exact hchar.unit.1) _ s units hread
  refine ⟨?_, fun c hc hmem => mem_writeAll hc hunits hwrite hmem⟩
  rw [utf16UnitsToUtf8, hwrite, Option.filter_some, if_pos (decide_eq_true hroom)]

/-- **The FAT pair is inverse**, from UTF-16. -/
theorem utf8ToUtf16Units_text {s : Bytes} {room room' : Nat} {units : List Nat} (hunits : ∀ u ∈ units, u < 2 ^ 16)
    (h : utf16UnitsToUtf8 units room = some s) (hroom : units.length ≤ room') : utf8ToUtf16Units s room' = some units := by
  have hread : readAll fatUnit s.length s = some units :=
    readAll_writeAll (P := fun u => u < 2 ^ 16) (fun a bs rest ha hbs =>
      ⟨(char_of_text ha hbs).ne_nil, fatUnit_append (char_of_text ha hbs) rest⟩) units s s.length hunits (filter_room h) (Nat.le_refl _)
  rw [utf8ToUtf16Units, hread, Option.filter_some, if_pos (decide_eq_true hroom)]

theorem utf8ToUtf16_units {s out : Bytes} {room : Nat} (h : utf8ToUtf16 s room = some out) :
    ∃ units, out = leUnits units ∧ readAll ntfsUnit s.length s = some units ∧ unitsOf out = units ∧
      (∀ u ∈ units, u < 2 ^ 16) ∧ ∀ u ∈ units, u ≠ 0 := by
  obtain ⟨units, hread, rfl⟩ := Option.map_eq_some_iff.1 (filter_room h)
  have hall := readAll_forall (fun s a rest hn => ntfsUnit_unit hn) _ s units hread
  exact ⟨units, rfl, hread, unitsOf_leUnits (fun u hu => (hall u hu).1), fun u hu => (hall u hu).1, fun u hu => (hall u hu).2⟩

/-- **An NTFS name in shortest form** is what its units are written as. -/
theorem writeAll_shortest {s : Bytes} {units : List Nat} (hs : shortest s = true) (h : readAll ntfsUnit s.length s = some units) :
    writeAll ntfsText units = some s :=
  writeAll_readAll (G := fun s => shortest s = true) (fun s a rest hgood hn => by
    obtain ⟨bs, hchar, hne, hsplit, hrest⟩ := ntfsUnit_char hgood hn
    refine ⟨hrest, bs, ?_, hsplit⟩
    rw [ntfsText, if_neg hne]
    exact utf8OfUnit_char hchar) _ s units hs h

/-- **The NTFS pair is inverse**, from UTF-16. -/
theorem utf8ToUtf16_text {s : Bytes} {room room' : Nat} {units : List Nat} (hunits : ∀ u ∈ units, u < 2 ^ 16)
    (h : utf16ToUtf8 (leUnits units) room = some s) (hroom : (leUnits units).length ≤ room') :
    utf8ToUtf16 s room' = some (leUnits units) := by
  have hwrite := filter_room h
  rw [unitsOf_leUnits hunits] at hwrite
  have hread : readAll ntfsUnit s.length s = some units := by
    refine readAll_writeAll (P := fun u => u < 2 ^ 16) (fun a bs rest ha hbs => ?_) units s s.length hunits hwrite (Nat.le_refl _)
    unfold ntfsText at hbs
    split at hbs
    · cases hbs
    · rename_i hne
      exact ⟨(char_of_text ha hbs).ne_nil, ntfsUnit_append (char_of_text ha hbs) hne rest⟩
  rw [utf8ToUtf16, hread, Option.map_some, Option.filter_some, if_pos (decide_eq_true hroom)]

/-- **A name that NTFS takes is denoted as it is**: it reads back, no other shortest form is denoted alike, and no separator
or other ASCII character appears that is not one of its bytes. -/
def Faithful (s out : Bytes) : Prop :=
  (∀ room, s.length ≤ room → utf16ToUtf8 out room = some s) ∧
  (∀ t room, shortest t = true → utf8ToUtf16 t room = some out → t = s) ∧
  ∀ c, c < 0x80 → c ∈ unitsOf out → UInt8.ofNat c ∈ s

/-- **An NTFS name is faithful** exactly if it has no overlong form. -/
theorem faithful_iff {s out : Bytes} {room : Nat} (h : utf8ToUtf16 s room = some out) : Faithful s out ↔ shortest s = true := by
  obtain ⟨units, rfl, hread, hunitsOf, hlt, hne⟩ := utf8ToUtf16_units h
  constructor
  · rintro ⟨hback, -, -⟩
    have hwrite := filter_room (hback s.length (Nat.le_refl _))
    rw [hunitsOf, ntfsText_eq hne] at hwrite
    exact shortest_writeAll hlt hwrite
  · intro hs
    have hwrite := writeAll_shortest hs hread
    refine ⟨fun room' hroom => ?_, fun t room' ht htake => ?_, fun c hc hmem => ?_⟩
    · rw [utf16ToUtf8, hunitsOf, hwrite, Option.filter_some, if_pos (decide_eq_true hroom)]
    · obtain ⟨units', -, hread', hunitsOf', -, -⟩ := utf8ToUtf16_units htake
      rw [← hunitsOf', hunitsOf] at hread'
      exact Option.some.inj ((writeAll_shortest ht hread').symm.trans hwrite)
    · rw [ntfsText_eq hne] at hwrite
      rw [hunitsOf] at hmem
      exact mem_writeAll hc hlt hwrite hmem

/-- **The name codecs**: the FAT pair is inverse both ways; the NTFS pair is from UTF-16, and from UTF-8 exactly for the
names without overlong forms. -/
theorem nameCodecs_inverse (s : Bytes) (room : Nat) :
    (∀ out, utf8ToUtf16 s room = some out → (Faithful s out ↔ shortest s = true)) ∧
    (∀ units room', (∀ u ∈ units, u < 2 ^ 16) → utf16ToUtf8 (leUnits units) room = some s →
      (leUnits units).length ≤ room' → utf8ToUtf16 s room' = some (leUnits units)) ∧
    (∀ units, utf8ToUtf16Units s room = some units →
      (∀ room', s.length ≤ room' → utf16UnitsToUtf8 units room' = some s) ∧
      (∀ t room', utf8ToUtf16Units t room' = some units → t = s) ∧ ∀ c, c < 0x80 → c ∈ units → UInt8.ofNat c ∈ s) ∧
    ∀ units room', (∀ u ∈ units, u < 2 ^ 16) → utf16UnitsToUtf8 units room = some s → units.length ≤ room' →
      utf8ToUtf16Units s room' = some units := by
  refine ⟨fun out h => faithful_iff h, fun units room' hunits h hroom => utf8ToUtf16_text hunits h hroom,
    fun units h => ⟨fun room' hroom => (utf16UnitsToUtf8_units h hroom).1, fun t room' ht => ?_,
      (utf16UnitsToUtf8_units h (Nat.le_refl _)).2⟩,
    fun units room' hunits h hroom => utf8ToUtf16Units_text hunits h hroom⟩
  have hs := (utf16UnitsToUtf8_units h (Nat.le_max_left s.length t.length)).1
  have ht := (utf16UnitsToUtf8_units ht (Nat.le_max_right s.length t.length)).1
  exact Option.some.inj (ht.symm.trans hs)

/-- **Two spellings of a separator**: the bytes C0 AF denote the name `/`, and do not read back. -/
theorem overlong_slash : utf8ToUtf16 [0xC0, 0xAF] 2 = some [0x2F, 0x00] ∧ utf8ToUtf16 [0x2F] 2 = some [0x2F, 0x00] ∧
    utf16ToUtf8 [0x2F, 0x00] 2 = some [0x2F] ∧ utf8ToUtf16Units [0xC0, 0xAF] 1 = none := by
  decide

end NameCodec
end R4
