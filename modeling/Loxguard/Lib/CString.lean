/-
# C strings and char arrays

A C string is the bytes before its terminator, so no byte of it is zero; the
type carries that. A char array keeps all its bytes: the ones after the
terminator survive a copy, and only `text`, what the array reads as, forgets
them (`text_copy`).

Key definitions: `CStr`, `CharBuf`, `CharBuf.text`, `CharBuf.copy`, `fnv1a`.
Key theorems: `CharBuf.text_copy`.
-/
import Mathlib.Data.List.Basic
import Mathlib.Data.List.TakeWhile

namespace Lib

/-- The bytes of an ASCII string constant. -/
def ascii (s : String) : List UInt8 := s.toList.map fun c => UInt8.ofNat c.toNat

/-- A C string: the bytes before its terminator. -/
structure CStr where
  bytes : List UInt8
  nulFree : 0 ∉ bytes
deriving DecidableEq, Repr

namespace CStr

theorem not_mem_takeWhile (bs : List UInt8) : 0 ∉ bs.takeWhile (· != 0) := by
  intro h
  have hne := List.mem_takeWhile_imp h
  simp at hne

/-- A string constant: its bytes up to the first zero. -/
def lit (s : String) : CStr := ⟨(ascii s).takeWhile (· != 0), not_mem_takeWhile (ascii s)⟩

/-- The first `n` bytes. -/
def take (s : CStr) (n : ℕ) : CStr := ⟨s.bytes.take n, fun h => s.nulFree (List.mem_of_mem_take h)⟩

/-- `strlen`. -/
def length (s : CStr) : ℕ := s.bytes.length

@[simp] theorem bytes_take (s : CStr) (n : ℕ) : (s.take n).bytes = s.bytes.take n := rfl

theorem ext_bytes {s t : CStr} (h : s.bytes = t.bytes) : s = t := by
  cases s; cases t; simpa using h

theorem take_eq_self {s : CStr} {n : ℕ} (h : s.length ≤ n) : s.take n = s :=
  ext_bytes (List.take_of_length_le h)

theorem length_take_le (s : CStr) (n : ℕ) : (s.take n).length ≤ n := by
  unfold length take
  rw [List.length_take]
  exact Nat.min_le_left n s.bytes.length

theorem ne_zero_of_mem {s : CStr} {c : UInt8} (h : c ∈ s.bytes) : c ≠ 0 :=
  fun he => s.nulFree (he ▸ h)

end CStr

/-- A C char array of `n` bytes. -/
structure CharBuf (n : ℕ) where
  bytes : List UInt8
  size : bytes.length = n
deriving DecidableEq, Repr

namespace CharBuf

variable {n : ℕ}

/-- The array `memset` to zero. -/
def zero (n : ℕ) : CharBuf n := ⟨List.replicate n 0, by simp⟩

/-- The string the array holds. -/
def text (b : CharBuf n) : CStr :=
  ⟨b.bytes.takeWhile (· != 0), fun h => by simpa using List.mem_takeWhile_imp h⟩

/-- A bounded copy: as much of `s` as leaves room for the terminator, the
terminator, and the old bytes after it. -/
def copy (dst : CharBuf n) (s : CStr) : CharBuf n :=
  if h : n = 0 then dst
  else ⟨s.bytes.take (n - 1) ++ 0 :: dst.bytes.drop ((s.bytes.take (n - 1)).length + 1), by
    have := dst.size
    simp only [List.length_append, List.length_cons, List.length_drop, List.length_take]
    omega⟩

theorem text_zero (n : ℕ) : (zero n).text = ⟨[], by simp⟩ := by
  apply CStr.ext_bytes
  cases n <;> simp [text, zero, List.replicate_succ]

/-- What a copy reads as: the source, cut to leave room for the terminator. -/
theorem text_copy (dst : CharBuf (n + 1)) (s : CStr) : (dst.copy s).text = s.take n := by
  apply CStr.ext_bytes
  have hall : ∀ c ∈ s.bytes.take n, (c != 0) = true := fun c hc => by
    simpa using s.ne_zero_of_mem (List.mem_of_mem_take hc)
  simp only [copy, text, Nat.add_one_ne_zero, ↓reduceDIte, Nat.add_sub_cancel, CStr.bytes_take]
  rw [List.takeWhile_append_of_pos hall]
  simp

end CharBuf

/-- The 32-bit FNV-1a hash. -/
def fnv1a (bytes : List UInt8) : BitVec 32 :=
  bytes.foldl (fun hash c => (hash ^^^ BitVec.ofNat 32 c.toNat) * 16777619#32) 2166136261#32

end Lib
