/-
# A table of slots for a map

Each slot of the table is free or holds a key with its value. Such a table
stands for a map with a default value: a key that no slot holds has the
default (`Refines`). The map survives taking a free slot over for a key
(`Refines.claim`), writing to the slot of a key (`Refines.write`) and changing
all values alike (`Refines.map`). While the keys come from a set no larger
than the table, a key that no slot holds finds a free slot
(`Refines.exists_free`).

Key definitions: `SlotTable.Holds`, `SlotTable.Refines`.
Key theorems: `Refines.exists_free`, `Refines.claim`, `Refines.write`,
`Refines.map`.
-/
import Mathlib.Data.Fintype.Card
import Mathlib.Logic.Function.Basic

namespace Lib
namespace SlotTable

variable {ι K V : Type*}

/-- Slot `i` holds the key. -/
def Holds (t : ι → Option (K × V)) (k : K) (i : ι) : Prop := ∃ v, t i = some (k, v)

/-- The table stands for the map `m` with default `d`: its keys come from
`names`, none is held twice, and what no slot holds has the default. -/
structure Refines (names : Finset K) (d : V) (t : ι → Option (K × V)) (m : K → V) : Prop where
  key_mem : ∀ {i k v}, t i = some (k, v) → k ∈ names
  value : ∀ {i k v}, t i = some (k, v) → m k = v
  inj : ∀ {i j k}, Holds t k i → Holds t k j → i = j
  default : ∀ {k}, (∀ i, ¬ Holds t k i) → m k = d

variable {names : Finset K} {d : V} {t : ι → Option (K × V)} {m : K → V}

theorem holds_some {i : ι} {k l : K} {v : V} (h : t i = some (l, v)) : Holds t k i ↔ l = k := by
  unfold Holds
  rw [h]
  simp [eq_comm]

theorem not_holds_none {i : ι} {k : K} (h : t i = none) : ¬ Holds t k i := by
  rintro ⟨v, hv⟩
  rw [h] at hv
  cases hv

theorem Refines.free : Refines names d (fun _ : ι => none) fun _ => d where
  key_mem h := by cases h
  value h := by cases h
  inj h := absurd h (not_holds_none rfl)
  default _ := rfl

/-- **Room for a key**: a table at least as large as the set of names has a
free slot for a name that it does not hold. -/
theorem Refines.exists_free [Fintype ι] (h : Refines names d t m) (hcard : names.card ≤ Fintype.card ι)
    {k : K} (hk : k ∈ names) (hnot : ∀ i, ¬ Holds t k i) : ∃ i, t i = none := by
  classical
  by_contra hfull
  push Not at hfull
  -- the keys of the slots are distinct names other than `k`
  choose kv hkv using fun i => Option.ne_none_iff_exists'.mp (hfull i)
  have hmaps : ∀ i ∈ Finset.univ, (kv i).1 ∈ names.erase k := by
    intro i _
    refine Finset.mem_erase.mpr ⟨?_, h.key_mem (hkv i)⟩
    rintro rfl
    exact hnot i ⟨(kv i).2, hkv i⟩
  have hinj : Set.InjOn (fun i => (kv i).1) (Finset.univ : Finset ι) := by
    intro i _ j _ hij
    refine h.inj (k := (kv i).1) ⟨(kv i).2, hkv i⟩ ⟨(kv j).2, ?_⟩
    rw [show (kv i).1 = (kv j).1 from hij]
    exact hkv j
  have hle := Finset.card_le_card_of_injOn _ hmaps hinj
  rw [Finset.card_univ, Finset.card_erase_of_mem hk] at hle
  have hpos := Finset.card_pos.mpr ⟨k, hk⟩
  omega

/-- **Changing all values alike**, the default to itself. -/
theorem Refines.map (h : Refines names d t m) {f : V → V} (hf : f d = d) :
    Refines names d (fun i => (t i).map fun kv => (kv.1, f kv.2)) fun k => f (m k) := by
  have hold : ∀ {i k v}, ((t i).map fun kv => (kv.1, f kv.2)) = some (k, v) →
      ∃ w, t i = some (k, w) ∧ f w = v := by
    intro i k v hi
    obtain ⟨⟨l, w⟩, hw, he⟩ := Option.map_eq_some_iff.mp hi
    cases he
    exact ⟨w, hw, rfl⟩
  constructor
  · intro i k v hi
    obtain ⟨w, hw, -⟩ := hold hi
    exact h.key_mem hw
  · intro i k v hi
    obtain ⟨w, hw, rfl⟩ := hold hi
    rw [h.value hw]
  · rintro i j k ⟨v, hv⟩ ⟨v', hv'⟩
    obtain ⟨w, hw, -⟩ := hold hv
    obtain ⟨w', hw', -⟩ := hold hv'
    exact h.inj ⟨w, hw⟩ ⟨w', hw'⟩
  · intro k hk
    rw [h.default, hf]
    rintro i ⟨v, hv⟩
    exact hk i ⟨f v, congrArg (Option.map _) hv⟩

variable [DecidableEq ι]

theorem update_eq_some {i j : ι} {x : Option (K × V)} {kv : K × V}
    (h : Function.update t i x j = some kv) : (j = i ∧ x = some kv) ∨ (j ≠ i ∧ t j = some kv) := by
  by_cases hj : j = i
  · subst hj
    rw [Function.update_self] at h
    exact Or.inl ⟨rfl, h⟩
  · rw [Function.update_of_ne hj] at h
    exact Or.inr ⟨hj, h⟩

/-- **A free slot taken over** for a name that no slot holds, with the default
in it, leaves the map as it was. -/
theorem Refines.claim (h : Refines names d t m) {i : ι} (hi : t i = none) {k : K} (hk : k ∈ names)
    (hnot : ∀ j, ¬ Holds t k j) : Refines names d (Function.update t i (some (k, d))) m where
  key_mem hj := by
    rcases update_eq_some hj with ⟨-, he⟩ | ⟨-, he⟩
    · cases he
      exact hk
    · exact h.key_mem he
  value hj := by
    rcases update_eq_some hj with ⟨-, he⟩ | ⟨-, he⟩
    · cases he
      exact h.default hnot
    · exact h.value he
  inj := by
    rintro j j' l ⟨v, hv⟩ ⟨v', hv'⟩
    rcases update_eq_some hv with ⟨rfl, he⟩ | ⟨-, he⟩ <;>
      rcases update_eq_some hv' with ⟨rfl, he'⟩ | ⟨-, he'⟩
    · rfl
    · cases he
      exact absurd ⟨v', he'⟩ (hnot j')
    · cases he'
      exact absurd ⟨v, he⟩ (hnot j)
    · exact h.inj ⟨v, he⟩ ⟨v', he'⟩
  default := by
    intro l hl
    apply h.default
    intro j hj
    have hne : j ≠ i := fun he => not_holds_none hi (he ▸ hj)
    obtain ⟨v, hv⟩ := hj
    exact hl j ⟨v, by rw [Function.update_of_ne hne]; exact hv⟩

/-- **Writing to the slot of a key** changes the map at the key. -/
theorem Refines.write [DecidableEq K] (h : Refines names d t m) {i : ι} {k : K} {v : V}
    (hi : t i = some (k, v)) (w : V) :
    Refines names d (Function.update t i (some (k, w))) (Function.update m k w) where
  key_mem hj := by
    rcases update_eq_some hj with ⟨-, he⟩ | ⟨-, he⟩
    · cases he
      exact h.key_mem hi
    · exact h.key_mem he
  value := by
    intro j l x hj
    rcases update_eq_some hj with ⟨-, he⟩ | ⟨hne, he⟩
    · cases he
      exact Function.update_self ..
    · have hl : l ≠ k := fun hl => hne (h.inj ⟨x, hl ▸ he⟩ ⟨v, hi⟩)
      rw [Function.update_of_ne hl]
      exact h.value he
  inj := by
    have hold : ∀ {j l}, Holds (Function.update t i (some (k, w))) l j → Holds t l j := by
      rintro j l ⟨x, hx⟩
      rcases update_eq_some hx with ⟨rfl, he⟩ | ⟨-, he⟩
      · cases he
        exact ⟨v, hi⟩
      · exact ⟨x, he⟩
    intro j j' l hj hj'
    exact h.inj (hold hj) (hold hj')
  default := by
    intro l hl
    have hlk : l ≠ k := by
      rintro rfl
      exact hl i ⟨w, Function.update_self ..⟩
    rw [Function.update_of_ne hlk]
    apply h.default
    intro j hj
    have hne : j ≠ i := by
      rintro rfl
      exact hlk ((holds_some hi).mp hj).symm
    obtain ⟨x, hx⟩ := hj
    exact hl j ⟨x, by rw [Function.update_of_ne hne]; exact hx⟩

end SlotTable
end Lib
