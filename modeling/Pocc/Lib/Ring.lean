import Mathlib

/-!
# A window of flags kept in a ring of slots

A ring of `W` slots records a stream of flags: the `k`-th flag (from zero) is written to slot
`k % W`, over what the slot held. With the flags listed newest first, `slot W recent j` is what
slot `j` holds: the newest flag written there, or `false` for a slot never written.

The slot the next flag goes to holds the flag written `W` flags before it, if there was one
(`slot_next`). So the number of set slots follows the number of set flags among the last `W`:
writing a flag adds it and drops that older one (`count_take_cons`).
-/

namespace Ring

/-- The flag slot `j` of a ring of `W` slots holds after the writes `recent`, newest first. -/
def slot (W : Int) : List Bool → Int → Bool
  | [], _ => false
  | b :: rest, j => if (rest.length : Int) % W = j then b else slot W rest j

@[simp] theorem slot_nil (W j : Int) : slot W [] j = false := rfl

@[simp] theorem slot_cons (W j : Int) (b : Bool) (rest : List Bool) :
    slot W (b :: rest) j = if (rest.length : Int) % W = j then b else slot W rest j := rfl

variable {W : Int}

/-- The slot of the flag written `d` writes ago, for `d` at most the ring's size, holds it. -/
theorem slot_sub (hW : 0 < W) :
    ∀ (recent : List Bool) (d : Nat) (hd : 1 ≤ d) (hlen : d ≤ recent.length), (d : Int) ≤ W →
      slot W recent (((recent.length : Int) - d) % W) = recent[d - 1]
  | [], d, hd, hlen, _ => absurd hlen (by simp; omega)
  | b :: rest, d, hd, hlen, hdW => by
    rw [slot_cons]
    by_cases newest : d = 1
    · subst newest
      simp
    · -- an older flag: the newest write went to another slot, since `0 < d - 1 < W`
      have other : ¬ (rest.length : Int) % W = (((b :: rest).length : Int) - d) % W := by
        rw [Int.emod_eq_emod_iff_emod_sub_eq_zero]
        intro zero
        have dvd : W ∣ (rest.length : Int) - ((rest.length + 1 : Nat) - d) :=
          Int.dvd_of_emod_eq_zero (by simpa using zero)
        have pos : 0 < (rest.length : Int) - ((rest.length + 1 : Nat) - d) := by push_cast; omega
        have le := Int.le_of_dvd pos dvd
        push_cast at le
        omega
      rw [if_neg other]
      have hlen' : d - 1 ≤ rest.length := by simp at hlen; omega
      have older := slot_sub hW rest (d - 1) (by omega) hlen' (by omega)
      have index : ((rest.length : Int) - ((d - 1 : Nat) : Int)) =
          (((b :: rest).length : Int) - d) := by
        simp only [List.length_cons]
        push_cast [show 1 ≤ d from hd]
        omega
      rw [index] at older
      rw [older]
      obtain ⟨e, rfl⟩ : ∃ e, d = e + 2 := ⟨d - 2, by omega⟩
      rfl

/-- A slot at or past the number of writes, within the ring, was never written. -/
theorem slot_of_length_le (hW : 0 < W) :
    ∀ (recent : List Bool) (j : Int), (recent.length : Int) ≤ j → j < W → slot W recent j = false
  | [], _, _, _ => rfl
  | b :: rest, j, hlen, hj => by
    have fits : (rest.length : Int) % W = rest.length :=
      Int.emod_eq_of_lt (by omega) (by simp at hlen; omega)
    rw [slot_cons, fits, if_neg (by simp at hlen; omega)]
    exact slot_of_length_le hW rest j (by simp at hlen; omega) hj

/-- The slot the next write goes to holds the flag written `W` writes before it, if any. -/
theorem slot_next (hW : 0 < W) (recent : List Bool) :
    slot W recent ((recent.length : Int) % W) = (recent[W.toNat - 1]?).getD false := by
  by_cases full : W ≤ recent.length
  · have within : W.toNat - 1 < recent.length := by omega
    rw [List.getElem?_eq_getElem within, Option.getD_some]
    have same : ((recent.length : Int) - (W.toNat : Nat)) % W = (recent.length : Int) % W := by
      rw [Int.toNat_of_nonneg (Int.le_of_lt hW), Int.sub_emod_right]
    rw [← same]
    exact slot_sub hW recent W.toNat (by omega) (by omega) (by omega)
  · rw [List.getElem?_eq_none (by omega), Option.getD_none,
      Int.emod_eq_of_lt (by omega) (by omega)]
    exact slot_of_length_le hW recent _ (Int.le_refl _) (by omega)

/-- The value of a flag in a count. -/
def bit (b : Bool) : Nat := if b then 1 else 0

/-- Writing a flag adds it to the count of set flags among the last `W`, and drops the one
its slot held. -/
theorem count_take_cons (hW : 0 < W) (b : Bool) (recent : List Bool) :
    ((b :: recent).take W.toNat).count true + bit (slot W recent ((recent.length : Int) % W)) =
      (recent.take W.toNat).count true + bit b := by
  obtain ⟨n, hn⟩ : ∃ n, W.toNat = n + 1 := ⟨W.toNat - 1, by omega⟩
  rw [slot_next hW, hn, List.take_succ_cons, List.take_add_one, List.count_cons,
    List.count_append, Nat.add_sub_cancel]
  cases b <;> cases recent[n]? with
  | none => simp [bit]
  | some x => cases x <;> simp [bit]

/-- At most `W` of the last `W` flags are set. -/
theorem count_take_le (recent : List Bool) : (recent.take W.toNat).count true ≤ W.toNat :=
  Nat.le_trans List.count_le_length (List.length_take_le _ _)

end Ring
