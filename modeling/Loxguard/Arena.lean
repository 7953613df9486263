/-
# The scratch arena

A bump allocator over a region of memory: `lox_arena_alloc` rounds the address
after the last block up to the alignment asked for and takes the block from
there on, if it ends inside the region. The address, the rounding, the end of
the block and the size of an array are computed on machine words; each can
wrap, and each has its own guard. Together they decide as unbounded integers
would (`arenaAlloc_eq`), so an arena refuses exactly the requests that do not
fit and hands out aligned blocks inside its region that never share a byte
(`arena_exact`).

Key definitions: `Arena`, `arenaAlloc`, `arenaAllocArray`, `ArenaOp.step`,
`blocksSinceReset`.
Key theorems: `arenaAlloc_eq`, `Request.exec_eq`, `arena_exact`.
-/
import Loxguard.Lib.Align
import Loxguard.Lib.Runs
import Loxguard.Span

namespace Loxguard

open Lib Lib.Align

variable {P : Platform}

/-- `lox_arena_t`. -/
structure Arena (P : Platform) where
  base : ℕ
  size : P.Size
  used : P.Size
deriving DecidableEq, Repr

/-- `lox_arena_init`. -/
def arenaInit (mem : ℕ) (size : P.Size) : Arena P := ⟨mem, size, 0⟩

/-- The end of `lox_arena_alloc`, from the offset of the block on. -/
def arenaPlace (a : Arena P) (aligned size : P.Size) : Option ℕ × Arena P :=
  if a.size < aligned then (none, a)
  else match safeAddSize aligned size with
    | none => (none, a)
    | some stop =>
      if a.size < stop then (none, a)
      else (some (a.base + aligned.toNat), { a with used := stop })

/-- `lox_arena_alloc`, with an arena that is not null: the block, `none` for
`NULL`. -/
def arenaAlloc (a : Arena P) (size align : P.Size) : Option ℕ × Arena P :=
  if a.base = 0 ∨ align = 0 ∨ align &&& (align - 1) ≠ 0 then (none, a)
  else
    let baseAddr : P.Size := BitVec.ofNat P.sizeBits a.base
    if a.size < a.used ∨ BitVec.allOnes P.sizeBits - a.used < baseAddr then (none, a)
    else
      let curAddr := baseAddr + a.used
      let alignedAddr := (curAddr + (align - 1)) &&& ~~~(align - 1)
      if alignedAddr < baseAddr then (none, a)
      else arenaPlace a (alignedAddr - baseAddr) size

/-- `loxguard_checked_mul_size`, `none` when it returns 0. -/
def checkedMulSize (a b : P.Size) : Option P.Size :=
  if a ≠ 0 ∧ BitVec.allOnes P.sizeBits / a < b then none else some (a * b)

/-- `loxguard_arena_alloc_array`. -/
def arenaAllocArray (a : Arena P) (elementSize count align : P.Size) : Option ℕ × Arena P :=
  match checkedMulSize elementSize count with
  | none => (none, a)
  | some total => arenaAlloc a total align

/-- `lox_arena_reset`. -/
def arenaReset (a : Arena P) : Arena P := { a with used := 0 }

/-- `lox_arena_used`, with an arena that is not null. -/
def arenaUsed (a : Arena P) : P.Size := a.used

/-- `lox_arena_remaining`, with an arena that is not null. -/
def arenaRemaining (a : Arena P) : P.Size := if a.size < a.used then 0 else a.size - a.used

/-! ### Calls -/

/-- A request for a block. -/
inductive Request (P : Platform)
  | alloc (size align : P.Size)
  | allocArray (elementSize count align : P.Size)
deriving DecidableEq

namespace Request

/-- The number of bytes asked for, computed without a bound. -/
def bytes : Request P → ℕ
  | alloc size _ => size.toNat
  | allocArray elementSize count _ => elementSize.toNat * count.toNat

/-- The alignment asked for. -/
def align : Request P → P.Size
  | alloc _ align => align
  | allocArray _ _ align => align

/-- Make the request. -/
def exec (a : Arena P) : Request P → Option ℕ × Arena P
  | alloc size align => arenaAlloc a size align
  | allocArray elementSize count align => arenaAllocArray a elementSize count align

end Request

/-- What is called on an arena. -/
inductive ArenaOp (P : Platform)
  | request (req : Request P)
  | reset
deriving DecidableEq

/-- What is seen of a call: a reset, or a request with its result. -/
inductive ArenaCall (P : Platform)
  | request (req : Request P) (result : Option ℕ)
  | reset

/-- A call as a step of the arena. -/
def ArenaOp.step (a : Arena P) : ArenaOp P → ArenaCall P × Arena P
  | request req => (.request req (req.exec a).1, (req.exec a).2)
  | reset => (.reset, arenaReset a)

/-- A block: its first byte and the number of its bytes. -/
structure Block where
  start : ℕ
  bytes : ℕ
deriving DecidableEq

/-- The blocks after a call. -/
def ArenaCall.blocks (blocks : List Block) : ArenaCall P → List Block
  | request req (some p) => blocks ++ [⟨p, req.bytes⟩]
  | request _ none => blocks
  | reset => []

/-- The blocks handed out since the last reset. -/
def blocksSinceReset (calls : List (ArenaCall P)) : List Block := calls.foldl ArenaCall.blocks []

/-! ### The computation on words -/

/-- An arena over a region that does not reach the end of the address space. -/
structure Arena.Wf (a : Arena P) : Prop where
  base_ne : a.base ≠ 0
  end_lt : a.base + a.size.toNat < 2 ^ P.sizeBits
  used_le : a.used.toNat ≤ a.size.toNat

/-- The arena after a block of `n` bytes was taken from `p` on. -/
def Arena.take (a : Arena P) (p n : ℕ) : Arena P :=
  { a with used := BitVec.ofNat P.sizeBits (p - a.base + n) }

/-- Where the next block starts. -/
def Arena.next (a : Arena P) (align : P.Size) : ℕ := roundUp (a.base + a.used.toNat) align.toNat

/-- A block is placed if and only if it ends in the region. -/
theorem arenaPlace_eq {a : Arena P} {p : ℕ} {aligned : P.Size} (hp : a.base ≤ p)
    (h : aligned.toNat = p - a.base) (size : P.Size) :
    arenaPlace a aligned size =
      if p + size.toNat ≤ a.base + a.size.toNat then (some p, a.take p size.toNat) else (none, a) := by
  have hsize := a.size.isLt
  have hn := size.isLt
  unfold arenaPlace
  by_cases hoff : a.size < aligned
  · rw [if_pos hoff]
    rw [BitVec.lt_def] at hoff
    rw [if_neg (by omega)]
  rw [if_neg hoff, safeAddSize_eq]
  rw [BitVec.lt_def] at hoff
  by_cases hsum : aligned.toNat + size.toNat < 2 ^ P.sizeBits
  · have hstop : (aligned + size).toNat = aligned.toNat + size.toNat := by
      rw [BitVec.toNat_add, Nat.mod_eq_of_lt hsum]
    have hiff : a.size < aligned + size ↔ ¬ p + size.toNat ≤ a.base + a.size.toNat := by
      rw [BitVec.lt_def, hstop]
      omega
    have htake : aligned + size = BitVec.ofNat P.sizeBits (p - a.base + size.toNat) := by
      rw [← BitVec.toNat_inj, hstop, h, BitVec.toNat_ofNat, Nat.mod_eq_of_lt (by omega)]
    rw [if_pos hsum]
    simp only
    by_cases hin : p + size.toNat ≤ a.base + a.size.toNat
    · rw [if_neg fun hh => hiff.mp hh hin, if_pos hin, htake, h,
        show a.base + (p - a.base) = p by omega]
      rfl
    · rw [if_pos (hiff.mpr hin), if_neg hin]
  · rw [if_neg hsum, if_neg (by omega)]

section Wf

variable {a : Arena P} (h : a.Wf)
include h

theorem Arena.Wf.toNat_base : (BitVec.ofNat P.sizeBits a.base).toNat = a.base := by
  have := h.end_lt
  rw [BitVec.toNat_ofNat, Nat.mod_eq_of_lt (by omega)]

theorem Arena.Wf.toNat_cur : (BitVec.ofNat P.sizeBits a.base + a.used).toNat = a.base + a.used.toNat := by
  have := h.end_lt
  have := h.used_le
  rw [BitVec.toNat_add, h.toNat_base, Nat.mod_eq_of_lt (by omega)]

theorem Arena.Wf.guard :
    ¬ (a.size < a.used ∨ BitVec.allOnes P.sizeBits - a.used < BitVec.ofNat P.sizeBits a.base) := by
  have hend := h.end_lt
  have hused := h.used_le
  have hroom : (BitVec.allOnes P.sizeBits - a.used).toNat = 2 ^ P.sizeBits - 1 - a.used.toNat := by
    rw [BitVec.toNat_sub_of_le, BitVec.toNat_allOnes]
    rw [BitVec.le_def, BitVec.toNat_allOnes]
    omega
  rw [BitVec.lt_def, BitVec.lt_def, hroom, h.toNat_base]
  omega

/-- **An allocation decides as unbounded integers would**: it takes the next
multiple of the alignment, a power of two, if the block ends in the region. -/
theorem arenaAlloc_eq (size align : P.Size) :
    arenaAlloc a size align =
      if align.toNat.isPowerOfTwo ∧ a.next align + size.toNat ≤ a.base + a.size.toNat
      then (some (a.next align), a.take (a.next align) size.toNat) else (none, a) := by
  have hend := h.end_lt
  unfold arenaAlloc
  by_cases hpow : align.toNat.isPowerOfTwo
  swap
  · have hbad : a.base = 0 ∨ align = 0 ∨ align &&& (align - 1) ≠ 0 := by
      rw [isPowerOfTwo_iff, not_and_or, not_not] at hpow
      exact Or.inr hpow
    rw [if_pos hbad, if_neg fun hh => hpow hh.1]
  have hgood : ¬ (a.base = 0 ∨ align = 0 ∨ align &&& (align - 1) ≠ 0) := by
    obtain ⟨h1, h2⟩ := (isPowerOfTwo_iff align).mp hpow
    rintro (h0 | h0 | h0)
    · exact h.base_ne h0
    · exact h1 h0
    · exact h0 h2
  have hle : a.base + a.used.toNat ≤ a.next align := le_roundUp (Nat.pos_of_isPowerOfTwo hpow) _
  have haddr := toNat_roundUpWord hpow (BitVec.ofNat P.sizeBits a.base + a.used)
  rw [h.toNat_cur, show roundUp (a.base + a.used.toNat) align.toNat = a.next align from rfl] at haddr
  unfold roundUpWord at haddr
  simp only [if_neg hgood, if_neg h.guard]
  generalize BitVec.ofNat P.sizeBits a.base + a.used + (align - 1) &&& ~~~(align - 1) = addr at haddr ⊢
  by_cases hfit : a.next align < 2 ^ P.sizeBits
  · rw [if_pos hfit] at haddr
    have hbase : BitVec.ofNat P.sizeBits a.base ≤ addr := by
      rw [BitVec.le_def, haddr, h.toNat_base]
      omega
    have hoff : (addr - BitVec.ofNat P.sizeBits a.base).toNat = a.next align - a.base := by
      rw [BitVec.toNat_sub_of_le hbase, haddr, h.toNat_base]
    rw [if_neg (BitVec.not_lt.mpr hbase), arenaPlace_eq (by omega) hoff]
    simp only [hpow, true_and]
  · -- the rounding wrapped to zero, below the base
    rw [if_neg hfit] at haddr
    have hlt : addr < BitVec.ofNat P.sizeBits a.base := by
      rw [BitVec.lt_def, haddr, h.toNat_base]
      exact Nat.pos_of_ne_zero h.base_ne
    rw [if_pos hlt, if_neg fun hh => by omega]

end Wf

/-- The size of an array is refused if it cannot be represented. -/
theorem checkedMulSize_eq (a b : P.Size) : checkedMulSize a b =
    if a.toNat * b.toNat < 2 ^ P.sizeBits then some (a * b) else none := by
  have hb := b.isLt
  have hiff : (a ≠ 0 ∧ BitVec.allOnes P.sizeBits / a < b) ↔ ¬ a.toNat * b.toNat < 2 ^ P.sizeBits := by
    rw [BitVec.lt_def, BitVec.toNat_udiv, BitVec.toNat_allOnes]
    rcases Nat.eq_zero_or_pos a.toNat with h0 | hpos
    · have ha : a = 0 := BitVec.eq_of_toNat_eq h0
      have := Nat.two_pow_pos P.sizeBits
      simp [ha]
    · have ha : a ≠ 0 := fun he => by rw [he] at hpos; exact absurd hpos (by simp)
      rw [Nat.div_lt_iff_lt_mul hpos, Nat.mul_comm b.toNat]
      have := Nat.two_pow_pos P.sizeBits
      constructor
      · rintro ⟨-, h⟩
        omega
      · exact fun h => ⟨ha, by omega⟩
  unfold checkedMulSize
  by_cases h : a.toNat * b.toNat < 2 ^ P.sizeBits
  · rw [if_pos h, if_neg fun hh => hiff.mp hh h]
  · rw [if_neg h, if_pos (hiff.mpr h)]

/-! ### Requests -/

/-- The size can be represented, the alignment is a power of two and the block
ends in the region, all computed without a bound. -/
structure Request.Fits (req : Request P) (a : Arena P) : Prop where
  align : req.align.toNat.isPowerOfTwo
  representable : req.bytes < 2 ^ P.sizeBits
  end_le : a.next req.align + req.bytes ≤ a.base + a.size.toNat

theorem Request.fits_iff (req : Request P) (a : Arena P) : req.Fits a ↔
    req.align.toNat.isPowerOfTwo ∧ req.bytes < 2 ^ P.sizeBits ∧
      a.next req.align + req.bytes ≤ a.base + a.size.toNat :=
  ⟨fun ⟨h1, h2, h3⟩ => ⟨h1, h2, h3⟩, fun ⟨h1, h2, h3⟩ => ⟨h1, h2, h3⟩⟩

instance (req : Request P) (a : Arena P) : Decidable (req.Fits a) :=
  decidable_of_iff' _ (req.fits_iff a)

/-- **A request** is met if and only if it fits. -/
theorem Request.exec_eq {a : Arena P} (h : a.Wf) (req : Request P) : req.exec a =
    if req.Fits a then (some (a.next req.align), a.take (a.next req.align) req.bytes) else (none, a) := by
  cases req with
  | alloc size align =>
    have hn : size.toNat < 2 ^ P.sizeBits := size.isLt
    simp only [Request.fits_iff, Request.exec, Request.align, Request.bytes, arenaAlloc_eq h, hn,
      true_and]
  | allocArray elementSize count align =>
    by_cases hrep : elementSize.toNat * count.toNat < 2 ^ P.sizeBits
    · have htotal : (elementSize * count).toNat = elementSize.toNat * count.toNat := by
        rw [BitVec.toNat_mul, Nat.mod_eq_of_lt hrep]
      have hmul : checkedMulSize elementSize count = some (elementSize * count) := by
        rw [checkedMulSize_eq, if_pos hrep]
      simp only [Request.fits_iff, Request.exec, Request.align, Request.bytes, arenaAllocArray, hmul,
        arenaAlloc_eq h, htotal, hrep, true_and]
    · have hno : ¬ (allocArray elementSize count align).Fits a := fun hh => hrep hh.representable
      rw [if_neg hno]
      simp only [Request.exec, arenaAllocArray, checkedMulSize_eq, if_neg hrep]

section Fits

variable {a : Arena P} {req : Request P} (h : a.Wf) (hfit : req.Fits a)
include hfit

theorem Request.Fits.le_next : a.base + a.used.toNat ≤ a.next req.align :=
  le_roundUp (Nat.pos_of_isPowerOfTwo hfit.align) _

include h

theorem Request.Fits.toNat_used : (a.take (a.next req.align) req.bytes).used.toNat =
    a.next req.align - a.base + req.bytes := by
  have hend := h.end_lt
  have hle := hfit.end_le
  unfold Arena.take
  rw [BitVec.toNat_ofNat, Nat.mod_eq_of_lt (by omega)]

end Fits

/-! ### Runs -/

/-- The blocks have no byte in common. -/
def Block.Disjoint (b b' : Block) : Prop :=
  ∀ x, ¬ ((b.start ≤ x ∧ x < b.start + b.bytes) ∧ (b'.start ≤ x ∧ x < b'.start + b'.bytes))

/-- An arena over `size` bytes from `mem` on, and the blocks it handed out: they
stand one after the other in what is used. -/
structure Tracks (mem : ℕ) (size : P.Size) (a : Arena P) (blocks : List Block) : Prop where
  base : a.base = mem
  size_eq : a.size = size
  used_le : a.used.toNat ≤ size.toNat
  inside : ∀ b ∈ blocks, mem ≤ b.start ∧ b.start + b.bytes ≤ mem + a.used.toNat
  ordered : blocks.Pairwise fun b b' => b.start + b.bytes ≤ b'.start

section Runs

variable {mem : ℕ} {size : P.Size} (hmem : mem ≠ 0) (hend : mem + size.toNat < 2 ^ P.sizeBits)
include hmem hend

theorem Tracks.wf {a : Arena P} {blocks : List Block} (h : Tracks mem size a blocks) : a.Wf := by
  obtain ⟨rfl, rfl, hused, -, -⟩ := h
  exact ⟨hmem, hend, hused⟩

/-- **One call** keeps the blocks in order. -/
theorem Tracks.step {a : Arena P} {blocks : List Block} (h : Tracks mem size a blocks) (op : ArenaOp P) :
    Tracks mem size (op.step a).2 ((op.step a).1.blocks blocks) := by
  have hwf := h.wf hmem hend
  cases op with
  | reset =>
    refine ⟨h.base, h.size_eq, ?_, ?_, List.Pairwise.nil⟩
    · simp [ArenaOp.step, arenaReset]
    · exact fun b hb => absurd hb List.not_mem_nil
  | request req =>
    show Tracks mem size (req.exec a).2 (ArenaCall.blocks blocks (.request req (req.exec a).1))
    rw [req.exec_eq hwf]
    by_cases hfit : req.Fits a
    · have hle := hfit.le_next
      have hstop := hfit.end_le
      have hused := hfit.toNat_used hwf
      rw [h.base] at hle hstop hused
      rw [h.size_eq] at hstop
      rw [if_pos hfit]
      refine ⟨h.base, h.size_eq, ?_, ?_, ?_⟩
      · simp only [hused]
        omega
      · intro b hb
        simp only [hused]
        rcases List.mem_append.mp hb with hb | hb
        · have := h.inside b hb
          omega
        · obtain rfl := List.mem_singleton.mp hb
          simp only
          omega
      · refine List.pairwise_append.mpr ⟨h.ordered, List.pairwise_singleton _ _, fun b hb b' hb' => ?_⟩
        obtain rfl := List.mem_singleton.mp hb'
        have := h.inside b hb
        simp only
        omega
    · rw [if_neg hfit]
      exact h

/-- **A run of calls** keeps the blocks in order. -/
theorem tracks_run (ops : List (ArenaOp P)) :
    let r := Runs.run ArenaOp.step (arenaInit mem size) ops
    Tracks mem size r.2 (blocksSinceReset r.1) := by
  refine Runs.run_invariant_foldl ArenaCall.blocks ops (arenaInit mem size) [] ?_ ?_
  · exact fun op _ a blocks h => h.step hmem hend op
  · exact ⟨rfl, rfl, Nat.zero_le _, fun b hb => absurd hb List.not_mem_nil, List.Pairwise.nil⟩

/-- **The arena is sound and complete.** After any calls on an arena over `size`
bytes from `mem` on, at most `size` bytes are used, and the blocks handed out
since the last reset have no byte in common. A further request gives an aligned
block in the region or `NULL`, and it gives `NULL`, changing nothing, if and
only if its alignment is not a power of two, its size cannot be represented, or
the block would end outside the region. -/
theorem arena_exact (ops : List (ArenaOp P)) :
    let r := Runs.run ArenaOp.step (arenaInit mem size) ops
    r.2.used.toNat ≤ size.toNat ∧ (blocksSinceReset r.1).Pairwise Block.Disjoint ∧
      ∀ req : Request P,
        (∀ p, (req.exec r.2).1 = some p →
          p % req.align.toNat = 0 ∧ mem ≤ p ∧ p + req.bytes ≤ mem + size.toNat) ∧
        ((req.exec r.2).1 = none ↔
          ¬ req.align.toNat.isPowerOfTwo ∨ 2 ^ P.sizeBits ≤ req.bytes ∨
            mem + size.toNat < roundUp (mem + r.2.used.toNat) req.align.toNat + req.bytes) ∧
        ((req.exec r.2).1 = none → (req.exec r.2).2 = r.2) := by
  intro r
  have h : Tracks mem size r.2 (blocksSinceReset r.1) := tracks_run hmem hend ops
  have hwf := h.wf hmem hend
  refine ⟨h.used_le, ?_, fun req => ?_⟩
  · exact h.ordered.imp fun hle x hx => by omega
  have hnext : r.2.next req.align = roundUp (mem + r.2.used.toNat) req.align.toNat := by
    rw [Arena.next, h.base]
  have hfits := req.fits_iff r.2
  rw [h.base, h.size_eq, hnext] at hfits
  rw [req.exec_eq hwf]
  by_cases hfit : req.Fits r.2
  · have hle := hfit.le_next
    obtain ⟨hpow, hrep, hstop⟩ := hfits.mp hfit
    rw [h.base, hnext] at hle
    rw [if_pos hfit, hnext]
    refine ⟨?_, ?_, fun hnone => absurd hnone (Option.some_ne_none _)⟩
    · rintro p hp
      obtain rfl := Option.some_inj.mp hp
      exact ⟨Nat.mod_eq_zero_of_dvd (dvd_roundUp _ _), by omega, hstop⟩
    · refine ⟨fun hnone => absurd hnone (Option.some_ne_none _), ?_⟩
      rintro (hbad | hbad | hbad)
      · exact absurd hpow hbad
      · omega
      · omega
  · rw [if_neg hfit]
    refine ⟨fun p hp => absurd hp.symm (Option.some_ne_none _), ⟨fun _ => ?_, fun _ => rfl⟩, fun _ => rfl⟩
    by_contra hgood
    rw [not_or, not_or, not_not] at hgood
    exact hfit (hfits.mpr ⟨hgood.1, by omega, by omega⟩)

end Runs

/-- A region of 128 bytes: an aligned array in it, and a block of 2^64 - 1
bytes that is refused. -/
theorem arena_exact_host :
    let r := Runs.run ArenaOp.step (arenaInit 68 128 : Arena .host)
      [.request (.alloc 3 1), .request (.allocArray 4 2 16)]
    (blocksSinceReset r.1).Pairwise Block.Disjoint ∧
      ((Request.alloc (-1) 8 : Request .host).exec r.2).1 = none := by
  have h := arena_exact (show 68 ≠ 0 by decide)
    (show 68 + (128 : Platform.host.Size).toNat < 2 ^ Platform.host.sizeBits by decide)
    [.request (.alloc 3 1), .request (.allocArray 4 2 16)]
  exact ⟨h.2.1, (h.2.2 (.alloc (-1) 8)).2.1.mpr (Or.inr (Or.inr (by decide +kernel)))⟩

end Loxguard
