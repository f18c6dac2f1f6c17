import Pocc.Lib.Bytes

/-!
# The order of byte strings built from parts

Store keys are concatenations of fixed-width parts: a prefix byte, a big-endian integer, an
address with every bit flipped. Compared as `bytes.Compare` compares them (the lexicographic
order of `Bytes`), such a key orders as its parts do, one part after the other. This module
gives the three facts that say so.

* `append_lt_append_iff`: parts of equal length are compared first, the rest after;
* `complement_lt_complement_iff`: flipping every bit reverses the order of equal-length strings;
* `bigEndian_lt_bigEndian_iff`: the big-endian bytes of two numbers of `w` bytes order as the
  numbers do.

And the Go builtins the keys are made with: `copyPadded`, the `copy` of a string into a fresh
zeroed slice, and `bigEndian`, `binary.BigEndian.PutUint64` and its siblings.
-/

namespace Bytes

/-- Every bit flipped (`^b` on each byte). -/
def complement (b : Bytes) : Bytes := b.map fun x => ~~~x

/-- `copy(dst, src)` into a fresh zeroed `dst` of length `n`: the first `n` bytes of `src`,
then zeros. -/
def copyPadded (n : Nat) (src : Bytes) : Bytes := src.take n ++ List.replicate (n - src.length) 0

/-- The `w` low digits of `n` in base `b`, most significant first, each digit written as the
byte `digit` gives it. -/
def digitsBE (b : Nat) (digit : Nat → UInt8) : Nat → Nat → Bytes
  | 0, _ => []
  | w + 1, n => digitsBE b digit w (n / b) ++ [digit (n % b)]

/-- The `w` low decimal digits of `n` in ASCII, with leading zeros. -/
def decimal (w n : Nat) : Bytes := digitsBE 10 (fun d => UInt8.ofNat (48 + d)) w n

/-- The `w` low bytes of `n`, most significant first (`binary.BigEndian.PutUint64` for
`w = 8`). -/
def bigEndian : Nat → Nat → Bytes
  | 0, _ => []
  | w + 1, n => bigEndian w (n / 256) ++ [UInt8.ofNat n]

@[simp] theorem length_complement (b : Bytes) : (complement b).length = b.length :=
  List.length_map _

@[simp] theorem complement_complement (b : Bytes) : complement (complement b) = b := by
  simp [complement, Function.comp_def]

theorem complement_injective : Function.Injective complement := fun a b h => by
  rw [← complement_complement a, h, complement_complement]

@[simp] theorem length_bigEndian (w n : Nat) : (bigEndian w n).length = w := by
  induction w generalizing n with
  | zero => rfl
  | succ w ih => simp [bigEndian, ih]

theorem copyPadded_of_length {n : Nat} {src : Bytes} (h : src.length = n) :
    copyPadded n src = src := by
  simp [copyPadded, ← h]

@[simp] theorem length_copyPadded (n : Nat) (src : Bytes) : (copyPadded n src).length = n := by
  simp only [copyPadded, List.length_append, List.length_take, List.length_replicate]
  omega

theorem cons_lt_cons_iff {a b : UInt8} {l l' : Bytes} :
    a :: l < b :: l' ↔ a < b ∨ a = b ∧ l < l' :=
  List.cons_lex_cons_iff

theorem singleton_lt_singleton_iff {a b : UInt8} : [a] < [b] ↔ a < b :=
  List.lex_singleton_iff a b

/-- Strings whose first parts have one length compare by those parts, and by the rest where
the first parts are equal. -/
theorem append_lt_append_iff {a a' b b' : Bytes} (same : a.length = a'.length) :
    a ++ b < a' ++ b' ↔ a < a' ∨ a = a' ∧ b < b' := by
  induction a generalizing a' with
  | nil =>
    rw [List.length_nil, eq_comm, List.length_eq_zero_iff] at same
    subst same
    simp
  | cons x a ih =>
    cases a' with
    | nil => simp at same
    | cons y a' =>
      have rest := ih (Nat.succ.inj same)
      simp only [List.cons_append, cons_lt_cons_iff] at rest ⊢
      rw [rest]
      constructor
      · rintro (head | ⟨rfl, tail | ⟨rfl, less⟩⟩)
        · exact .inl (.inl head)
        · exact .inl (.inr ⟨rfl, tail⟩)
        · exact .inr ⟨rfl, less⟩
      · rintro ((head | ⟨rfl, tail⟩) | ⟨equal, less⟩)
        · exact .inl head
        · exact .inr ⟨rfl, .inl tail⟩
        · obtain ⟨rfl, rfl⟩ := List.cons_eq_cons.mp equal
          exact .inr ⟨rfl, .inr ⟨rfl, less⟩⟩

theorem not_lt_iff {x y : UInt8} : ~~~x < ~~~y ↔ y < x := by
  simp only [UInt8.lt_iff_toNat_lt, UInt8.toNat_not]
  have hx := x.toNat_lt
  have hy := y.toNat_lt
  simp only [UInt8.size] at hx hy ⊢
  omega

/-- Flipping every bit reverses the order of strings of one length. -/
theorem complement_lt_complement_iff {x y : Bytes} (same : x.length = y.length) :
    complement x < complement y ↔ y < x := by
  induction x generalizing y with
  | nil =>
    rw [List.length_nil, eq_comm, List.length_eq_zero_iff] at same
    subst same
    simp [complement]
  | cons a x ih =>
    cases y with
    | nil => simp at same
    | cons b y =>
      have rest := ih (Nat.succ.inj same)
      have flipped : ~~~a = ~~~b ↔ b = a := by
        rw [eq_comm]
        exact ⟨fun h => by simpa using congrArg (~~~ ·) h, fun h => h ▸ rfl⟩
      simp only [complement, List.map_cons, cons_lt_cons_iff] at rest ⊢
      rw [rest, not_lt_iff, flipped]

theorem append_lt_append_left_iff {p a b : Bytes} : p ++ a < p ++ b ↔ a < b := by
  rw [append_lt_append_iff rfl]
  simp

theorem append_le_append_left_iff {p a b : Bytes} : p ++ a ≤ p ++ b ↔ a ≤ b := by
  rw [Std.le_iff_lt_or_eq, Std.le_iff_lt_or_eq, append_lt_append_left_iff,
    List.append_cancel_left_eq]

theorem toNat_lt_ff {b : UInt8} (top : b ≠ 255) : b.toNat < 255 := by
  have bound := b.toNat_lt
  have : b.toNat ≠ 255 := fun h => top (UInt8.toNat_inj.mp h)
  change b.toNat < 256 at bound
  omega

/-- A byte below `0xFF` is below its successor: the increment does not wrap. -/
theorem lt_add_one_of_ne_ff {b : UInt8} (top : b ≠ 255) : b < b + 1 := by
  have small := toNat_lt_ff top
  rw [UInt8.lt_iff_toNat_lt, UInt8.toNat_add, UInt8.toNat_one]
  change b.toNat < (b.toNat + 1) % 256
  omega

/-- Below the successor of a byte below `0xFF` are that byte and those under it. -/
theorem le_of_lt_add_one {b c : UInt8} (top : b ≠ 255) (h : c < b + 1) : c ≤ b := by
  have small := toNat_lt_ff top
  rw [UInt8.lt_iff_toNat_lt, UInt8.toNat_add, UInt8.toNat_one] at h
  rw [UInt8.le_iff_toNat_le]
  change c.toNat < (b.toNat + 1) % 256 at h
  omega

theorem le_of_isPrefix {p x : Bytes} (h : p <+: x) : p ≤ x := by
  obtain ⟨t, rfl⟩ := h
  cases t with
  | nil => rw [List.append_nil]
  | cons c t =>
    apply le_of_lt
    have longer : p ++ [] < p ++ c :: t := append_lt_append_left_iff.mpr List.Lex.nil
    rwa [List.append_nil] at longer

/-- A string that does not start with `p` lies below every extension of `p` when it lies below
`p`, and above every one otherwise. -/
theorem lt_append_iff_of_not_isPrefix {p x : Bytes} (h : ¬ p <+: x) (a : Bytes) :
    x < p ++ a ↔ x < p := by
  induction p generalizing x with
  | nil => exact absurd List.nil_prefix h
  | cons c p ih =>
    cases x with
    | nil => exact ⟨fun _ => List.Lex.nil, fun _ => List.Lex.nil⟩
    | cons d x =>
      rw [List.cons_append, cons_lt_cons_iff, cons_lt_cons_iff]
      by_cases same : d = c
      · subst same
        have rest : ¬ p <+: x := fun hp => h (List.cons_prefix_cons.mpr ⟨rfl, hp⟩)
        simp [ih rest]
      · simp [same]

theorem append_lt_iff_of_not_isPrefix {p x : Bytes} (h : ¬ p <+: x) (a : Bytes) :
    p ++ a < x ↔ p < x := by
  induction p generalizing x with
  | nil => exact absurd List.nil_prefix h
  | cons c p ih =>
    cases x with
    | nil => simp only [List.cons_append]; exact ⟨fun h => absurd h List.not_lex_nil,
        fun h => absurd h List.not_lex_nil⟩
    | cons d x =>
      rw [List.cons_append, cons_lt_cons_iff, cons_lt_cons_iff]
      by_cases same : c = d
      · subst same
        have rest : ¬ p <+: x := fun hp => h (List.cons_prefix_cons.mpr ⟨rfl, hp⟩)
        simp [ih rest]
      · simp [same]

/-- No byte is above `0xFF`. -/
theorem not_ff_lt (y : UInt8) : ¬ (255 : UInt8) < y := by
  rw [UInt8.lt_iff_toNat_lt]
  have bound := y.toNat_lt
  change ¬ 255 < y.toNat
  omega

/-- A string at or above a string of `0xFF` bytes starts with it. -/
theorem isPrefix_of_replicate_le {k : Nat} {x : Bytes} (h : List.replicate k 255 ≤ x) :
    List.replicate k 255 <+: x := by
  induction k generalizing x with
  | zero => exact List.nil_prefix
  | succ k ih =>
    cases x with
    | nil =>
      rcases Std.le_iff_lt_or_eq.mp h with less | equal
      · exact absurd less List.not_lex_nil
      · rw [List.replicate_succ] at equal
        cases equal
    | cons y x =>
      rcases Std.le_iff_lt_or_eq.mp h with less | equal
      · rw [List.replicate_succ, cons_lt_cons_iff] at less
        rcases less with above | ⟨rfl, rest⟩
        · exact absurd above (not_ff_lt y)
        · exact List.cons_prefix_cons.mpr ⟨rfl, ih (le_of_lt rest)⟩
      · exact equal ▸ List.prefix_refl _

/-- Two numbers whose images order as they do, both ways, have equal images only if they are
equal. -/
theorem eq_iff_of_lt_iff {f : Nat → Bytes} {n m : Nat} (forward : f n < f m ↔ n < m)
    (backward : f m < f n ↔ m < n) : f n = f m ↔ n = m := by
  constructor
  · intro equal
    rcases Nat.lt_trichotomy n m with less | same | more
    · have ordered := forward.mpr less
      rw [equal] at ordered
      exact absurd ordered (lt_irrefl _)
    · exact same
    · have ordered := backward.mpr more
      rw [equal] at ordered
      exact absurd ordered (lt_irrefl _)
  · intro equal
    rw [equal]

/-- The big-endian bytes of two numbers below `256 ^ w` order as the numbers. -/
theorem bigEndian_lt_bigEndian_iff {w n m : Nat} (hn : n < 256 ^ w) (hm : m < 256 ^ w) :
    bigEndian w n < bigEndian w m ↔ n < m := by
  induction w generalizing n m with
  | zero => simp_all
  | succ w ih =>
    -- the high bytes are those of `n / 256`, compared first; the low byte is `n % 256`
    have hn' : n / 256 < 256 ^ w := by rw [Nat.pow_succ] at hn; omega
    have hm' : m / 256 < 256 ^ w := by rw [Nat.pow_succ] at hm; omega
    have high := ih hn' hm'
    have highEq := eq_iff_of_lt_iff high (ih hm' hn')
    have low : [UInt8.ofNat n] < [UInt8.ofNat m] ↔ n % 256 < m % 256 := by
      simp only [singleton_lt_singleton_iff, UInt8.lt_iff_toNat_lt, UInt8.toNat_ofNat']
    simp only [bigEndian]
    rw [append_lt_append_iff (by simp), high, highEq, low]
    omega

@[simp] theorem length_digitsBE (b : Nat) (digit : Nat → UInt8) (w n : Nat) :
    (digitsBE b digit w n).length = w := by
  induction w generalizing n with
  | zero => rfl
  | succ w ih => simp [digitsBE, ih]

/-- The digits of two numbers below `b ^ w` order as the numbers, when the bytes of the digits
order as the digits. -/
theorem digitsBE_lt_digitsBE_iff {b : Nat} {digit : Nat → UInt8}
    (ordered : ∀ x y, x < b → y < b → (digit x < digit y ↔ x < y)) {w n m : Nat}
    (hn : n < b ^ w) (hm : m < b ^ w) :
    digitsBE b digit w n < digitsBE b digit w m ↔ n < m := by
  induction w generalizing n m with
  | zero => simp_all
  | succ w ih =>
    -- the high digits are those of `n / b`, compared first; the low digit is `n % b`
    have positive : 0 < b := Nat.pos_of_ne_zero fun zero => by simp [zero] at hn
    have hn' : n / b < b ^ w := Nat.div_lt_of_lt_mul (by rwa [Nat.mul_comm, ← Nat.pow_succ])
    have hm' : m / b < b ^ w := Nat.div_lt_of_lt_mul (by rwa [Nat.mul_comm, ← Nat.pow_succ])
    have high := ih hn' hm'
    have highEq := eq_iff_of_lt_iff high (ih hm' hn')
    have low : [digit (n % b)] < [digit (m % b)] ↔ n % b < m % b := by
      rw [singleton_lt_singleton_iff]
      exact ordered _ _ (Nat.mod_lt _ positive) (Nat.mod_lt _ positive)
    simp only [digitsBE]
    rw [append_lt_append_iff (by simp), high, highEq, low]
    constructor
    · rintro (less | ⟨same, less⟩)
      · by_contra notLess
        have : m / b ≤ n / b := Nat.div_le_div_right (Nat.le_of_not_lt notLess)
        omega
      · rw [← Nat.div_add_mod n b, ← Nat.div_add_mod m b, same]
        omega
    · intro less
      have ordered : n / b ≤ m / b := Nat.div_le_div_right less.le
      rcases lt_or_eq_of_le ordered with quotient | same
      · exact .inl quotient
      · refine .inr ⟨same, ?_⟩
        rw [← Nat.div_add_mod n b, ← Nat.div_add_mod m b, same] at less
        omega

theorem decimal_lt_decimal_iff {w n m : Nat} (hn : n < 10 ^ w) (hm : m < 10 ^ w) :
    decimal w n < decimal w m ↔ n < m :=
  digitsBE_lt_digitsBE_iff (fun x y hx hy => by
    simp only [UInt8.lt_iff_toNat_lt, UInt8.toNat_ofNat']
    omega) hn hm

theorem decimal_eq_decimal_iff {w n m : Nat} (hn : n < 10 ^ w) (hm : m < 10 ^ w) :
    decimal w n = decimal w m ↔ n = m :=
  eq_iff_of_lt_iff (decimal_lt_decimal_iff hn hm) (decimal_lt_decimal_iff hm hn)

/-- `InclusiveEndBytes` of a key: a zero byte appended, the least string above the key. Below it
lie exactly the strings up to the key. -/
theorem lt_append_zero_iff {a b : Bytes} : a < b ++ [0] ↔ a ≤ b := by
  rw [le_iff_lt_or_eq]
  induction b generalizing a with
  | nil =>
    cases a with
    | nil => exact ⟨fun _ => .inr rfl, fun _ => List.Lex.nil⟩
    | cons x a =>
      have low : ¬ x < 0 := by simp [UInt8.lt_iff_toNat_lt]
      simp [cons_lt_cons_iff, low]
  | cons y b ih =>
    cases a with
    | nil => simp
    | cons x a =>
      -- the first bytes decide, or they agree and the rest is compared with `b ++ [0]`
      rw [List.cons_append, cons_lt_cons_iff, cons_lt_cons_iff, ih, List.cons.injEq]
      tauto

/-- Numbers below `256 ^ w` have the same big-endian bytes only if they are equal. -/
theorem bigEndian_eq_bigEndian_iff {w n m : Nat} (hn : n < 256 ^ w) (hm : m < 256 ^ w) :
    bigEndian w n = bigEndian w m ↔ n = m :=
  eq_iff_of_lt_iff (bigEndian_lt_bigEndian_iff hn hm) (bigEndian_lt_bigEndian_iff hm hn)

end Bytes
