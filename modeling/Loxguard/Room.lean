/-
# The room in an arena

`lox_arena_used` and `lox_arena_remaining` add up to the size of the arena
after any calls. What is used lies between the bytes of the requests met since
the last reset and the most they can take: a block of `n` bytes takes `n`, and
the alignment at most one less than itself before it; a request that got no
block takes nothing (`arena_accounts`).

So a scratch memory can be sized beforehand: requests that take at most what
remains, all alignments counted in full, are all met, in any order
(`requests_met`).

Key definitions: `Request.most`, `metSinceReset`.
Key theorems: `used_add_remaining`, `Request.exec_of_room`, `arena_accounts`,
`requests_met`.
-/
import Loxguard.Arena

namespace Loxguard

open Lib Lib.Align

variable {P : Platform}

/-- The most a request takes of the arena: its bytes, and the bytes skipped
before them. -/
def Request.most (req : Request P) : ℕ := req.bytes + (req.align.toNat - 1)

theorem Request.Fits.next_le {a : Arena P} {req : Request P} (h : req.Fits a) :
    a.next req.align ≤ a.base + a.used.toNat + (req.align.toNat - 1) := by
  have hpad := roundUp_le_add (a.base + a.used.toNat) req.align.toNat
  have hpos := Nat.pos_of_isPowerOfTwo h.align
  unfold Arena.next
  omega

/-- The requests met, after a call. -/
def ArenaCall.met (reqs : List (Request P)) : ArenaCall P → List (Request P)
  | request req (some _) => reqs ++ [req]
  | request _ none => reqs
  | reset => []

/-- The requests met since the last reset. -/
def metSinceReset (calls : List (ArenaCall P)) : List (Request P) := calls.foldl ArenaCall.met []

section Wf

variable {a : Arena P} (h : a.Wf)
include h

/-- **What is used and what remains** is the size. -/
theorem used_add_remaining : (arenaUsed a).toNat + (arenaRemaining a).toNat = a.size.toNat := by
  have hused := h.used_le
  have hle : a.used ≤ a.size := BitVec.le_def.mpr hused
  rw [arenaUsed, arenaRemaining, if_neg (BitVec.not_lt.mpr hle), BitVec.toNat_sub_of_le hle]
  omega

/-- A block of bytes without alignment is had if and only if it remains. -/
theorem alloc_iff_remaining (size : P.Size) :
    (arenaAlloc a size 1).1 ≠ none ↔ size ≤ arenaRemaining a := by
  have hsum := used_add_remaining h
  have hone : (1 : P.Size).toNat = 1 := by
    have hwidth := P.le_sizeBits
    exact BitVec.toNat_one (by omega)
  have hnext : a.next 1 = a.base + a.used.toNat := by
    rw [Arena.next, hone, roundUp]
    omega
  have hpow : (1 : P.Size).toNat.isPowerOfTwo := by
    rw [hone]
    exact Nat.isPowerOfTwo_one
  rw [arenaAlloc_eq h, hnext, BitVec.le_def]
  rw [arenaUsed] at hsum
  by_cases hfit : a.base + a.used.toNat + size.toNat ≤ a.base + a.size.toNat
  · rw [if_pos ⟨hpow, hfit⟩]
    exact iff_of_true (Option.some_ne_none _) (by omega)
  · rw [if_neg fun hh => hfit hh.2]
    exact iff_of_false (fun hne => hne rfl) (by omega)

/-- **A request that finds room** is met, and takes no more than it can. -/
theorem Request.exec_of_room {req : Request P} (hpow : req.align.toNat.isPowerOfTwo)
    (hroom : req.most ≤ (arenaRemaining a).toNat) :
    (req.exec a).1 ≠ none ∧ (req.exec a).2.Wf ∧
      (arenaRemaining a).toNat ≤ (arenaRemaining (req.exec a).2).toNat + req.most := by
  have hsum := used_add_remaining h
  have hend := h.end_lt
  have hpad := roundUp_le_add (a.base + a.used.toNat) req.align.toNat
  have hpos := Nat.pos_of_isPowerOfTwo hpow
  rw [arenaUsed] at hsum
  rw [Request.most] at hroom ⊢
  have hnext : a.next req.align ≤ a.base + a.used.toNat + (req.align.toNat - 1) := by
    unfold Arena.next
    omega
  have hfit : req.Fits a := ⟨hpow, by omega, by omega⟩
  have hused := hfit.toNat_used h
  have hwf : (a.take (a.next req.align) req.bytes).Wf := by
    have hstop := hfit.end_le
    have hle := hfit.le_next
    exact ⟨h.base_ne, h.end_lt, by rw [hused]; show _ ≤ a.size.toNat; omega⟩
  rw [req.exec_eq h, if_pos hfit]
  refine ⟨Option.some_ne_none _, hwf, ?_⟩
  have hsum' := used_add_remaining hwf
  have hle := hfit.le_next
  rw [arenaUsed, hused] at hsum'
  have hsize : (a.take (a.next req.align) req.bytes).size = a.size := rfl
  rw [hsize] at hsum'
  show (arenaRemaining a).toNat ≤ (arenaRemaining (a.take (a.next req.align) req.bytes)).toNat + _
  omega

end Wf

/-! ### Runs -/

section Runs

variable {mem : ℕ} {size : P.Size} (hmem : mem ≠ 0) (hend : mem + size.toNat < 2 ^ P.sizeBits)
include hmem hend

/-- An arena over `size` bytes from `mem` on, and the requests it met: what is
used lies between their bytes and the most they take. -/
structure Accounts (mem : ℕ) (size : P.Size) (a : Arena P) (reqs : List (Request P)) : Prop where
  base : a.base = mem
  size_eq : a.size = size
  used_le : a.used.toNat ≤ size.toNat
  bytes_le : (reqs.map Request.bytes).sum ≤ a.used.toNat
  le_most : a.used.toNat ≤ (reqs.map Request.most).sum

theorem Accounts.wf {a : Arena P} {reqs : List (Request P)} (h : Accounts mem size a reqs) : a.Wf := by
  obtain ⟨rfl, rfl, hused, -, -⟩ := h
  exact ⟨hmem, hend, hused⟩

/-- **One call** keeps the accounts. -/
theorem Accounts.step {a : Arena P} {reqs : List (Request P)} (h : Accounts mem size a reqs)
    (op : ArenaOp P) : Accounts mem size (op.step a).2 ((op.step a).1.met reqs) := by
  have hwf := h.wf hmem hend
  cases op with
  | reset =>
    refine ⟨h.base, h.size_eq, ?_, ?_, ?_⟩ <;> simp [ArenaOp.step, arenaReset, ArenaCall.met]
  | request req =>
    show Accounts mem size (req.exec a).2 (ArenaCall.met reqs (.request req (req.exec a).1))
    rw [req.exec_eq hwf]
    by_cases hfit : req.Fits a
    · have hle := hfit.le_next
      have hstop := hfit.end_le
      have hused := hfit.toNat_used hwf
      have hnext := hfit.next_le
      have hbytes := h.bytes_le
      have hmost := h.le_most
      rw [if_pos hfit]
      refine ⟨h.base, h.size_eq, ?_, ?_, ?_⟩
      · rw [h.size_eq] at hstop
        simp only [hused]
        omega
      · simp only [hused, ArenaCall.met, List.map_append, List.map_cons, List.map_nil, List.sum_append,
          List.sum_singleton]
        omega
      · simp only [hused, ArenaCall.met, List.map_append, List.map_cons, List.map_nil, List.sum_append,
          List.sum_singleton, Request.most] at hmost ⊢
        omega
    · rw [if_neg hfit]
      exact h

/-- **A run of calls** keeps the accounts. -/
theorem accounts_run (ops : List (ArenaOp P)) :
    let r := Runs.run ArenaOp.step (arenaInit mem size) ops
    Accounts mem size r.2 (metSinceReset r.1) := by
  refine Runs.run_invariant_foldl ArenaCall.met ops (arenaInit mem size) [] ?_ ?_
  · exact fun op _ a reqs h => h.step hmem hend op
  · exact ⟨rfl, rfl, Nat.zero_le _, Nat.zero_le _, Nat.zero_le _⟩

/-- **The accounts of an arena.** After any calls on an arena over `size` bytes,
what is used and what remains add up to `size`; what is used lies between the
bytes of the requests met since the last reset and the most they take; and a
further block without alignment is had if and only if its bytes remain. -/
theorem arena_accounts (ops : List (ArenaOp P)) :
    let r := Runs.run ArenaOp.step (arenaInit mem size) ops
    (arenaUsed r.2).toNat + (arenaRemaining r.2).toNat = size.toNat ∧
      ((metSinceReset r.1).map Request.bytes).sum ≤ (arenaUsed r.2).toNat ∧
      (arenaUsed r.2).toNat ≤ ((metSinceReset r.1).map Request.most).sum ∧
      ∀ n : P.Size, (arenaAlloc r.2 n 1).1 ≠ none ↔ n ≤ arenaRemaining r.2 := by
  intro r
  have h : Accounts mem size r.2 (metSinceReset r.1) := accounts_run hmem hend ops
  have hwf := h.wf hmem hend
  have hsum := used_add_remaining hwf
  rw [h.size_eq] at hsum
  exact ⟨hsum, h.bytes_le, h.le_most, alloc_iff_remaining hwf⟩

omit hmem hend in
theorem requests_met_from (reqs : List (Request P)) {a : Arena P} (h : a.Wf)
    (hpow : ∀ req ∈ reqs, req.align.toNat.isPowerOfTwo)
    (hroom : (reqs.map Request.most).sum ≤ (arenaRemaining a).toNat) :
    ∀ call ∈ (Runs.run ArenaOp.step a (reqs.map .request)).1, ∃ req p, call = .request req (some p) := by
  induction reqs generalizing a with
  | nil => exact fun call hcall => absurd hcall List.not_mem_nil
  | cons req reqs ih =>
    rw [List.map_cons, List.sum_cons] at hroom
    obtain ⟨hmet, hwf, hrest⟩ := Request.exec_of_room h (hpow req List.mem_cons_self) (by omega)
    intro call hcall
    rcases List.mem_cons.mp hcall with rfl | hcall
    · obtain ⟨p, hp⟩ := Option.ne_none_iff_exists'.mp hmet
      exact ⟨req, p, congrArg (ArenaCall.request req) hp⟩
    · exact ih hwf (fun req hreq => hpow req (List.mem_cons_of_mem _ hreq)) (by omega) call hcall

/-- **Sizing an arena.** After any calls, requests with alignments that are
powers of two are all met, in their order, if the most they take, summed up,
remains. -/
theorem requests_met (ops : List (ArenaOp P)) (reqs : List (Request P))
    (hpow : ∀ req ∈ reqs, req.align.toNat.isPowerOfTwo) :
    let a := (Runs.run ArenaOp.step (arenaInit mem size) ops).2
    (reqs.map Request.most).sum ≤ (arenaRemaining a).toNat →
      ∀ call ∈ (Runs.run ArenaOp.step a (reqs.map .request)).1, ∃ req p, call = .request req (some p) :=
  requests_met_from reqs ((accounts_run hmem hend ops).wf hmem hend) hpow

end Runs

/-- A region of 128 bytes after two blocks, with room for two arrays. -/
theorem arena_accounts_host :
    let r := Runs.run ArenaOp.step (arenaInit 68 128 : Arena .host)
      [.request (.alloc 3 1), .request (.allocArray 4 2 16)]
    (arenaUsed r.2).toNat + (arenaRemaining r.2).toNat = 128 :=
  (arena_accounts (P := .host) (show 68 ≠ 0 by decide) (by decide) _).1

theorem requests_met_host :
    let a := (Runs.run ArenaOp.step (arenaInit 68 128 : Arena .host)
      [.request (.alloc 3 1), .request (.allocArray 4 2 16)]).2
    ∀ call ∈ (Runs.run ArenaOp.step a ([.allocArray 8 4 8, .alloc 16 16].map .request)).1,
      ∃ req p, call = .request req (some p) :=
  requests_met (P := .host) (show 68 ≠ 0 by decide) (by decide) _ [.allocArray 8 4 8, .alloc 16 16] (by decide)
    (by decide +kernel)

end Loxguard
