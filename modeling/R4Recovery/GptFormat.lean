import R4Recovery.Device
/-!
# GptFormat — GPT headers and partition entries

`gpt_format.zig`: the CRC, `parseHeader` and `parsePartition`.  A sector parses exactly when it is `HeaderOk`, and then
to the fields it holds (`parseHeader_iff`).
-/
namespace R4
namespace Gpt

abbrev Guid := Vector UInt8 16
abbrev Name := Vector UInt16 36

def minimumHeaderSize : Nat := 92
def minimumEntrySize : Nat := 128
def maximumEntrySize : Nat := 512
def maximumEntryCount : Nat := 4096

def Guid.zero : Guid := Vector.replicate 16 0

/-- The little-endian word of `w` bytes at `off`. -/
def getLe (b : Bytes) (off w : Nat) : Nat := leNat (slice b off w)

def guidAt (b : Bytes) (off : Nat) : Guid := Vector.ofFn (fun i => b.getD (off + i.val) 0)

def nameAt (b : Bytes) (off : Nat) : Name := Vector.ofFn (fun i => (getLe b (off + 2 * i.val) 2).toUInt16)

/-! ## The CRC -/

def crcBit (state : UInt32) : UInt32 := (state >>> 1) ^^^ (0xEDB88320 &&& (0 - (state &&& 1)))

def crcByte (state : UInt32) (byte : UInt8) : UInt32 := crcBit^[8] (state ^^^ byte.toUInt32)

def crcUpdate (state : UInt32) (bytes : Bytes) : UInt32 := bytes.foldl crcByte state

def crcFinish (state : UInt32) : UInt32 := ~~~ state

def crc (bytes : Bytes) : UInt32 := crcFinish (crcUpdate 0xFFFFFFFF bytes)

/-! ## Headers -/

structure Header where
  diskGuid : Guid
  currentLba : Nat
  backupLba : Nat
  firstUsableLba : Nat
  lastUsableLba : Nat
  entriesLba : Nat
  entryCount : Nat
  entrySize : Nat
  entriesCrc32 : Nat
  deriving DecidableEq

def Header.entryBytes (h : Header) : Nat := h.entryCount * h.entrySize

def Header.entrySectors (h : Header) : Nat := (h.entryBytes + 511) / 512

/-- The fields a header sector holds. -/
def headerFields (sector : Bytes) : Header :=
  { diskGuid := guidAt sector 56
    currentLba := getLe sector 24 8
    backupLba := getLe sector 32 8
    firstUsableLba := getLe sector 40 8
    lastUsableLba := getLe sector 48 8
    entriesLba := getLe sector 72 8
    entryCount := getLe sector 80 4
    entrySize := getLe sector 84 4
    entriesCrc32 := getLe sector 88 4 }

/-- The header CRC with its own field taken as zero. -/
def headerCrc (sector : Bytes) (size : Nat) : UInt32 :=
  crcFinish (crcUpdate (crcUpdate (crcUpdate 0xFFFFFFFF (slice sector 0 16)) (zeros 4)) (slice sector 20 (size - 20)))

/-- Where the entry array of a header at `headerLba` may stand. -/
def arrayPlace (h : Header) (headerLba sectors : Nat) : Except Error Unit :=
  if headerLba = 1 then
    reject (h.backupLba != sectors - 1 || decide (h.entriesLba ≤ headerLba) ||
      decide (h.firstUsableLba < h.entriesLba + h.entrySectors)) .entryArrayOutOfRange
  else if headerLba = sectors - 1 then
    reject (h.backupLba != 1 || decide (h.entriesLba ≤ h.lastUsableLba) ||
      decide (headerLba < h.entriesLba + h.entrySectors)) .entryArrayOutOfRange
  else .error .wrongHeaderLba

def parseHeader (sector : Bytes) (headerLba sectors : Nat) : Except Error Header := do
  let size := getLe sector 12 4
  let header := headerFields sector
  reject (decide (sector.length < 512)) .shortSector
  reject (slice sector 0 8 != ascii "EFI PART") .badSignature
  reject (getLe sector 8 4 != 0x10000) .unsupportedRevision
  reject (decide (size < minimumHeaderSize) || decide (512 < size)) .badHeaderSize
  reject (getLe sector 20 4 != 0) .nonzeroReserved
  reject ((headerCrc sector size).toNat != getLe sector 16 4) .badHeaderCrc
  reject (decide (sectors < 3) || header.currentLba != headerLba) .wrongHeaderLba
  reject (decide (sectors ≤ header.backupLba) || header.backupLba == header.currentLba) .badBackupLba
  reject (decide (header.lastUsableLba < header.firstUsableLba) || decide (sectors ≤ header.lastUsableLba)) .badUsableRange
  reject (header.entryCount == 0 || decide (maximumEntryCount < header.entryCount) ||
    decide (header.entrySize < minimumEntrySize) || decide (maximumEntrySize < header.entrySize) ||
    header.entrySize % minimumEntrySize != 0) .unsupportedEntryLayout
  reject (header.entrySectors == 0 || decide (sectors ≤ header.entriesLba) ||
    decide (sectors - header.entriesLba < header.entrySectors)) .entryArrayOutOfRange
  arrayPlace header headerLba sectors
  pure header

/-! ## Partitions -/

inductive PartitionType where
  | efiSystem | microsoftBasicData | other
  deriving DecidableEq

def efiSystemGuid : Guid :=
  #v[0x28, 0x73, 0x2A, 0xC1, 0x1F, 0xF8, 0xD2, 0x11, 0xBA, 0x4B, 0x00, 0xA0, 0xC9, 0x3E, 0xC9, 0x3B]

def microsoftBasicDataGuid : Guid :=
  #v[0xA2, 0xA0, 0xD0, 0xEB, 0xE5, 0xB9, 0x33, 0x44, 0x87, 0xC0, 0x68, 0xB6, 0xB7, 0x26, 0x99, 0xC7]

def classifyType (typeGuid : Guid) : PartitionType :=
  if typeGuid = efiSystemGuid then .efiSystem
  else if typeGuid = microsoftBasicDataGuid then .microsoftBasicData else .other

structure Partition where
  typeGuid : Guid
  uniqueGuid : Guid
  nameUtf16 : Name
  partitionType : PartitionType
  firstLba : Nat
  lastLba : Nat
  attributes : UInt64
  deriving DecidableEq

def Partition.sectorCount (p : Partition) : Nat := p.lastLba - p.firstLba + 1

/-- The fields an entry holds. -/
def entryFields (raw : Bytes) : Partition :=
  { typeGuid := guidAt raw 0
    uniqueGuid := guidAt raw 16
    nameUtf16 := nameAt raw 56
    partitionType := classifyType (guidAt raw 0)
    firstLba := getLe raw 32 8
    lastLba := getLe raw 40 8
    attributes := (getLe raw 48 8).toUInt64 }

def parsePartition (raw : Bytes) (header : Header) : Except Error (Option Partition) :=
  if raw.length < header.entrySize ∨ raw.length < minimumEntrySize then .error .shortEntry
  else if guidAt raw 0 = Guid.zero then .ok none
  else
    let p := entryFields raw
    if p.firstLba < header.firstUsableLba ∨ p.lastLba < p.firstLba ∨ header.lastUsableLba < p.lastLba then
      .error .badPartitionRange
    else .ok (some p)

/-! ## What a header sector must be -/

theorem crcUpdate_append (state : UInt32) (a b : Bytes) : crcUpdate state (a ++ b) = crcUpdate (crcUpdate state a) b :=
  List.foldl_append

theorem headerCrc_eq (sector : Bytes) (size : Nat) :
    headerCrc sector size = crc (slice sector 0 16 ++ zeros 4 ++ slice sector 20 (size - 20)) := by
  rw [headerCrc, crc, crcUpdate_append, crcUpdate_append]

/-- The place of the entry array beside the header and the usable range. -/
def ArrayPlaced (h : Header) (headerLba sectors : Nat) : Prop :=
  (headerLba = 1 ∧ h.backupLba = sectors - 1 ∧ 1 < h.entriesLba ∧ h.entriesLba + h.entrySectors ≤ h.firstUsableLba) ∨
  (headerLba ≠ 1 ∧ headerLba = sectors - 1 ∧ h.backupLba = 1 ∧ h.lastUsableLba < h.entriesLba ∧
    h.entriesLba + h.entrySectors ≤ headerLba)

structure HeaderOk (sector : Bytes) (headerLba sectors : Nat) : Prop where
  length : 512 ≤ sector.length
  signature : slice sector 0 8 = ascii "EFI PART"
  revision : getLe sector 8 4 = 0x10000
  size : 92 ≤ getLe sector 12 4 ∧ getLe sector 12 4 ≤ 512
  reserved : getLe sector 20 4 = 0
  crcMatches : (headerCrc sector (getLe sector 12 4)).toNat = getLe sector 16 4
  current : 3 ≤ sectors ∧ (headerFields sector).currentLba = headerLba
  backup : (headerFields sector).backupLba < sectors ∧ (headerFields sector).backupLba ≠ (headerFields sector).currentLba
  usable : (headerFields sector).firstUsableLba ≤ (headerFields sector).lastUsableLba ∧
    (headerFields sector).lastUsableLba < sectors
  count : (headerFields sector).entryCount ≠ 0 ∧ (headerFields sector).entryCount ≤ 4096
  entry : 128 ≤ (headerFields sector).entrySize ∧ (headerFields sector).entrySize ≤ 512 ∧
    (headerFields sector).entrySize % 128 = 0
  range : (headerFields sector).entrySectors ≠ 0 ∧ (headerFields sector).entriesLba < sectors ∧
    (headerFields sector).entrySectors ≤ sectors - (headerFields sector).entriesLba
  place : ArrayPlaced (headerFields sector) headerLba sectors

theorem arrayPlace_iff (h : Header) (headerLba sectors : Nat) :
    arrayPlace h headerLba sectors = .ok () ↔ ArrayPlaced h headerLba sectors := by
  unfold arrayPlace ArrayPlaced
  by_cases h1 : headerLba = 1
  · subst h1
    rw [if_pos rfl, reject_ok]
    simp only [Bool.or_eq_false_iff, bne_eq_false_iff_eq, decide_eq_false_iff_not, Nat.not_le, Nat.not_lt]
    constructor
    · rintro ⟨⟨hb, he⟩, hf⟩
      exact .inl ⟨trivial, hb, he, hf⟩
    · rintro (⟨-, hb, he, hf⟩ | h)
      · exact ⟨⟨hb, he⟩, hf⟩
      · exact absurd rfl h.1
  · rw [if_neg h1]
    by_cases h2 : headerLba = sectors - 1
    · rw [if_pos h2, reject_ok]
      simp only [Bool.or_eq_false_iff, bne_eq_false_iff_eq, decide_eq_false_iff_not, Nat.not_le, Nat.not_lt]
      constructor
      · rintro ⟨⟨hb, he⟩, hf⟩
        exact .inr ⟨h1, h2, hb, he, hf⟩
      · rintro (h | ⟨-, -, hb, he, hf⟩)
        · exact absurd h.1 h1
        · exact ⟨⟨hb, he⟩, hf⟩
    · rw [if_neg h2]
      constructor
      · intro h; cases h
      · rintro (h | h)
        · exact absurd h.1 h1
        · exact absurd h.2.1 h2

/-- **A sector parses exactly when it is a well-formed header, and to the fields it holds.** -/
theorem parseHeader_iff (sector : Bytes) (headerLba sectors : Nat) (h : Header) :
    parseHeader sector headerLba sectors = .ok h ↔ HeaderOk sector headerLba sectors ∧ h = headerFields sector := by
  unfold parseHeader
  simp only [Except.bind_ok, reject_ok, exists_const, Bool.or_eq_false_iff, bne_eq_false_iff_eq, beq_eq_false_iff_ne,
    decide_eq_false_iff_not, Nat.not_lt, Nat.not_le]
  constructor
  · rintro ⟨h1, h2, h3, h4, h5, h6, h7, h8, h9, h10, h11, u, h12, h13⟩
    refine ⟨⟨h1, h2, h3, h4, h5, h6, h7, h8, h9, ⟨h10.1.1.1.1, h10.1.1.1.2⟩, ⟨h10.1.1.2, h10.1.2, h10.2⟩,
      ⟨h11.1.1, h11.1.2, h11.2⟩, (arrayPlace_iff _ _ _).1 h12⟩, ?_⟩
    cases h13; rfl
  · rintro ⟨hok, rfl⟩
    exact ⟨hok.length, hok.signature, hok.revision, hok.size, hok.reserved, hok.crcMatches, hok.current, hok.backup,
      hok.usable, ⟨⟨⟨⟨hok.count.1, hok.count.2⟩, hok.entry.1⟩, hok.entry.2.1⟩, hok.entry.2.2⟩,
      ⟨⟨hok.range.1, hok.range.2.1⟩, hok.range.2.2⟩, (), (arrayPlace_iff _ _ _).2 hok.place, rfl⟩

end Gpt
end R4
