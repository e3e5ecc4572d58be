/-
# CocoHarness.Lib.ByteFields — reading fields of a byte buffer that may be cut anywhere.

A binary format is read field by field at a running offset.  When the buffer is the first places of a text, the bytes
before the offset are settled and what follows is a cut text (`CutAt`): a field that still fits reads as it was
written (`CutAt.readUIntLE`) and leaves the same situation behind it (`CutAt.next`), and one that does not fit is
seen not to (`CutAt.short`).
-/
import Mathlib.Algebra.Ring.Nat
import Mathlib.Data.List.Basic

namespace CocoHarness.Lib.ByteFields

open List

/-! ## Little-endian numbers -/

/-- The number some bytes stand for, the least significant byte first. -/
def littleEndian : List UInt8 → Nat
  | [] => 0
  | b :: bs => b.toNat + 256 * littleEndian bs

def bytesLE : Nat → Nat → List UInt8
  | 0, _ => []
  | width + 1, n => UInt8.ofNat n :: bytesLE width (n / 256)

@[simp] theorem length_bytesLE (width n : Nat) : (bytesLE width n).length = width := by
  induction width generalizing n with
  | zero => rfl
  | succ width ih => rw [bytesLE, length_cons, ih]

theorem littleEndian_bytesLE (width n : Nat) (h : n < 256 ^ width) : littleEndian (bytesLE width n) = n := by
  induction width generalizing n with
  | zero =>
    have hzero : n = 0 := by simpa using h
    subst hzero
    rfl
  | succ width ih =>
    have hquot : n / 256 < 256 ^ width := by
      apply Nat.div_lt_of_lt_mul
      rwa [Nat.mul_comm, ← Nat.pow_succ]
    rw [bytesLE, littleEndian, ih _ hquot, UInt8.toNat_ofNat']
    show n % 256 + 256 * (n / 256) = n
    omega

/-! ## Cut texts -/

section

variable {α : Type}

/-- The places before `offset` are settled; behind them stand the first `n` places of `rest`. -/
structure CutAt (buffer : List α) (offset : Nat) (rest : List α) (n : Nat) : Prop where
  settled : ∃ pre, pre.length = offset ∧ buffer = pre ++ rest.take n

namespace CutAt

variable {buffer field post : List α} {offset n : Nat}

theorem start (text : List α) (n : Nat) : CutAt (text.take n) 0 text n := ⟨[], rfl, rfl⟩

theorem length_eq {rest : List α} (h : CutAt buffer offset rest n) : buffer.length = offset + min n rest.length := by
  obtain ⟨pre, rfl, rfl⟩ := h.settled
  rw [length_append, length_take]

theorem short (h : CutAt buffer offset (field ++ post) n) :
    buffer.length - offset < field.length ↔ n < field.length := by
  rw [h.length_eq, length_append]
  omega

theorem next (h : CutAt buffer offset (field ++ post) n) (hfits : field.length ≤ n) :
    CutAt buffer (offset + field.length) post (n - field.length) := by
  obtain ⟨pre, rfl, rfl⟩ := h.settled
  refine ⟨pre ++ field, length_append, ?_⟩
  rw [take_append, take_of_length_le hfits, append_assoc]

end CutAt

end

/-! ## Bounds-checked reads -/

section

variable {ε : Type}

/-- `buffer.readUIntLE(offset, width)`; a read past the end throws `outOfRange`. -/
def readUIntLE (outOfRange : ε) (buffer : List UInt8) (offset width : Nat) : Except ε Nat :=
  if offset + width ≤ buffer.length then .ok (littleEndian ((buffer.drop offset).take width))
  else .error outOfRange

theorem readUIntLE_ok (outOfRange : ε) {buffer : List UInt8} {offset width : Nat}
    (h : offset + width ≤ buffer.length) :
    ∃ n, readUIntLE outOfRange buffer offset width = .ok n :=
  ⟨_, if_pos h⟩

theorem CutAt.readUIntLE {buffer field post : List UInt8} {offset n : Nat} (outOfRange : ε)
    (h : CutAt buffer offset (field ++ post) n) (hfits : field.length ≤ n) :
    readUIntLE outOfRange buffer offset field.length = .ok (littleEndian field) := by
  obtain ⟨pre, rfl, rfl⟩ := h.settled
  rw [take_append, take_of_length_le hfits, ByteFields.readUIntLE, if_pos (by simp),
    drop_left, take_left]

end

end CocoHarness.Lib.ByteFields
