import Mathlib
/-!
# Text — byte texts and the ASCII fold

The storage and update tools handle names, paths and journal lines as byte slices.  A slice is a list of bytes here; the
ASCII part of Zig's `std.ascii` and `std.unicode.utf8ValidateSlice` are the two standard library pieces the models read.
-/
namespace R4

abbrev Bytes := List UInt8

/-- The bytes of an ASCII literal. -/
def ascii (s : String) : Bytes := s.toList.map (fun c => c.toNat.toUInt8)

def toUpper (c : UInt8) : UInt8 := if 97 ≤ c ∧ c ≤ 122 then c - 32 else c

/-- `std.ascii.eqlIgnoreCase`. -/
def eqlIgnoreCase (a b : Bytes) : Bool := a.map toUpper == b.map toUpper

theorem byte_forall {p : UInt8 → Prop} (h : ∀ n : Fin 256, p (UInt8.ofNat n.val)) (c : UInt8) : p c := by
  have := h ⟨c.toNat, c.toNat_lt⟩
  simpa using this

theorem toUpper_toUpper (c : UInt8) : toUpper (toUpper c) = toUpper c := by
  revert c
  exact byte_forall (by decide +kernel)

theorem eqlIgnoreCase_iff (a b : Bytes) : eqlIgnoreCase a b = true ↔ a.map toUpper = b.map toUpper := by
  unfold eqlIgnoreCase; rw [beq_iff_eq]

theorem eqlIgnoreCase_refl (a : Bytes) : eqlIgnoreCase a a = true := (eqlIgnoreCase_iff a a).2 rfl

theorem eqlIgnoreCase_symm (a b : Bytes) : eqlIgnoreCase a b = eqlIgnoreCase b a := by
  unfold eqlIgnoreCase; exact Bool.beq_comm

/-- `std.unicode.utf8ValidateSlice`: `need` continuation bytes are still due, the next one between `lo` and `hi`. -/
def utf8From : Nat → UInt8 → UInt8 → Bytes → Bool
  | 0, _, _, [] => true
  | _ + 1, _, _, [] => false
  | 0, _, _, a :: rest =>
    if a < 0x80 then utf8From 0 0 0 rest
    else if 0xC2 ≤ a ∧ a ≤ 0xDF then utf8From 1 0x80 0xBF rest
    else if a = 0xE0 then utf8From 2 0xA0 0xBF rest
    else if a = 0xED then utf8From 2 0x80 0x9F rest
    else if 0xE1 ≤ a ∧ a ≤ 0xEF then utf8From 2 0x80 0xBF rest
    else if a = 0xF0 then utf8From 3 0x90 0xBF rest
    else if 0xF1 ≤ a ∧ a ≤ 0xF3 then utf8From 3 0x80 0xBF rest
    else if a = 0xF4 then utf8From 3 0x80 0x8F rest
    else false
  | need + 1, lo, hi, b :: rest => if lo ≤ b ∧ b ≤ hi then utf8From need 0x80 0xBF rest else false

def utf8ValidateSlice (s : Bytes) : Bool := utf8From 0 0 0 s

end R4
