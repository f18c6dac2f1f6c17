import Pocc.Types.Dec
import Pocc.Types.Error
import Pocc.Lib.GoText
import Pocc.Lib.Fallible

/-!
# The text of a `Dec`

`NewDecFromStr` and the JSON form of a `Dec` (types/decimal.go). The parser takes an optional
minus sign, splits the rest at the point, refuses an empty side, more than one point and more
than 18 places, pads the places with zeros to 18 and reads the digits with
`big.Int.SetString`. `Dec.String` (`Dec.string`) writes the integer part, a point and all 18
places. `MarshalJSON` quotes that text; `UnmarshalJSON` unquotes a JSON string and parses it.

The `Int` of a `Dec` is never nil here, so the `nil` cases of `String` and `MarshalJSON` do
not arise.

Results: `newDecFromStr_string`, every `Dec` is read back from its text; and
`unmarshalJSON_marshalJSON`, from its JSON text.
-/

namespace Pocc

open GoText

namespace Dec

/-- `NewDecFromStr`. Go's `len` counts bytes, hence `goLen` for the places. -/
def newDecFromStr (str : String) : Except SdkError Dec := do
  let str := str.toList
  if str.isEmpty then throw (.unknownRequest "decimal string is empty")
  -- first extract any negative symbol
  let (neg, str) : Bool × List Char :=
    match str with
    | '-' :: rest => (true, rest)
    | _ => (false, str)
  if str.isEmpty then throw (.unknownRequest "decimal string is empty")
  let strs := str.splitOn '.'
  let (lenDecs, combinedStr) ←
    match strs with
    | [whole] => pure (0, whole)
    | [whole, decs] =>
      if goLen decs = 0 ∨ goLen whole = 0 then throw (.unknownRequest "bad decimal length")
      else pure (goLen decs, whole ++ decs)
    | _ => throw (.unknownRequest "too many periods to be a decimal string")
  if lenDecs > Precision then
    throw (.unknownRequest s!"too much precision, maximum {Precision}, len decimal {lenDecs}")
  -- add some extra zero's to correct to the Precision factor
  let zerosToAdd := Precision - lenDecs
  let combinedStr := combinedStr ++ List.replicate zerosToAdd '0'
  match setString combinedStr with
  | none =>
    let text := String.ofList combinedStr
    throw (.unknownRequest s!"bad string to integer conversion, combinedStr: {text}")
  | some combined => pure ⟨if neg then -combined else combined⟩

/-- The error `UnmarshalJSON` returns: json's, or the `sdk.Error` of `NewDecFromStr`. -/
inductive JsonError where
  | json (msg : String)
  | sdk (err : SdkError)
  deriving DecidableEq, Repr

/-- `Dec.MarshalJSON`: the JSON string of `Dec.String`. -/
def marshalJSON (d : Dec) : String := marshalString d.string

/-- `Dec.UnmarshalJSON`: a JSON string (a `null` leaves the text empty), parsed by
`NewDecFromStr`. -/
def unmarshalJSON (bz : String) : Except JsonError Dec := do
  let text ← (unmarshalString bz "").mapError .json
  (newDecFromStr text).mapError .sdk

/-! ## `String` -/

theorem precisionReuse_toNat : precisionReuse.toNat = 10 ^ Precision := rfl

/-- The characters of `Dec.String`: a minus sign for a negative value, the digits of the
integer part, a point, and the 18 places. -/
theorem toList_string (d : Dec) :
    d.string.toList = (if d.int < 0 then ['-'] else []) ++
      (Nat.toDigits 10 (d.int.natAbs / 10 ^ Precision) ++
        '.' :: (List.replicate (Precision - (Nat.toDigits 10 (d.int.natAbs % 10 ^ Precision)).length)
          '0' ++ Nat.toDigits 10 (d.int.natAbs % 10 ^ Precision))) := by
  have pad : ∀ n, ("".pushn '0' n).toList = List.replicate n '0' := by
    intro n
    induction n with
    | zero => rfl
    | succ n ih =>
      simp only [String.pushn, Nat.repeat, String.toList_push] at ih ⊢
      rw [ih, List.replicate_succ']
  have len : ∀ m : Nat, m.repr.length = (Nat.toDigits 10 m).length := by
    intro m
    rw [Nat.repr_eq_ofList_toDigits, String.length_ofList]
  split_ifs with negative <;>
    simp [string, negative, precisionReuse_toNat, pad, len, String.toList_append]

/-! ## `NewDecFromStr` on the text of a `Dec` -/

/-- The places of a `Dec`'s text: 18 digits. -/
theorem places_length (n : Nat) :
    (List.replicate (Precision - (Nat.toDigits 10 (n % 10 ^ Precision)).length) '0' ++
      Nat.toDigits 10 (n % 10 ^ Precision)).length = Precision := by
  have fits : (Nat.toDigits 10 (n % 10 ^ Precision)).length ≤ Precision :=
    (Nat.length_toDigits_le_iff (by decide) (by decide)).mpr (Nat.mod_lt _ (Nat.pow_pos (by decide)))
  simp only [List.length_append, List.length_replicate]
  omega

/-- Unsigned text of digits, a point and 18 places is read as the digits' value. -/
theorem newDecFromStr_unsigned {whole decs : List Char} (neg : Bool)
    (wholeDigits : ∀ c ∈ whole, c.isDigit) (decsDigits : ∀ c ∈ decs, c.isDigit)
    (nonempty : whole ≠ []) (places : decs.length = Precision) :
    newDecFromStr (String.ofList ((if neg then ['-'] else []) ++ (whole ++ '.' :: decs))) =
      .ok ⟨if neg then -(Nat.ofDigitChars 10 (whole ++ decs) 0 : Int)
        else Nat.ofDigitChars 10 (whole ++ decs) 0⟩ := by
  -- the text after the sign does not start with a minus sign: its first character is a digit
  obtain ⟨c, rest, rfl⟩ := List.exists_cons_of_ne_nil nonempty
  have notMinus : c ≠ '-' := by
    rintro rfl
    exact absurd (wholeDigits '-' List.mem_cons_self) (by decide)
  have noPoint : ∀ l : List Char, (∀ c ∈ l, c.isDigit) → '.' ∉ l := fun l digits mem =>
    absurd (digits '.' mem) (by decide)
  have split : (c :: (rest ++ '.' :: decs)).splitOn '.' = [c :: rest, decs] := by
    have joined : c :: (rest ++ '.' :: decs) = ['.'].intercalate [c :: rest, decs] := by simp
    rw [joined, List.splitOn_intercalate]
    · intro l mem
      simp only [List.mem_cons, List.not_mem_nil, or_false] at mem
      rcases mem with rfl | rfl
      · exact noPoint _ wholeDigits
      · exact noPoint _ decsDigits
    · simp
  have decsLen : goLen decs = Precision := by rw [goLen_of_digits decsDigits, places]
  have wholeLen : goLen (c :: rest) ≠ 0 := by rw [goLen_of_digits wholeDigits]; simp
  have read : setString (c :: (rest ++ decs)) =
      some ((Nat.ofDigitChars 10 (c :: (rest ++ decs)) 0 : Nat) : Int) := by
    apply setString_of_digits (by simp)
    intro d mem
    rcases List.mem_append.mp (List.cons_append ▸ mem) with inWhole | inDecs
    · exact wholeDigits d inWhole
    · exact decsDigits d inDecs
  cases neg <;> simp [newDecFromStr, notMinus, split, decsLen, wholeLen, read, Precision]

/-- `NewDecFromStr(d.String())` is `d`, for every `Dec`. -/
theorem newDecFromStr_string (d : Dec) : newDecFromStr d.string = .ok d := by
  set n := d.int.natAbs
  have nonempty : Nat.toDigits 10 (n / 10 ^ Precision) ≠ [] := Nat.toDigits_ne_nil
  have read := newDecFromStr_unsigned (decide (d.int < 0))
    (fun _ => isDigit_of_mem_toDigits) ?_ nonempty (places_length n)
  · -- the digits stand for `|d|`, and the sign restores `d`
    have fits : (Nat.toDigits 10 (n % 10 ^ Precision)).length ≤ Precision :=
      (Nat.length_toDigits_le_iff (by decide) (by decide)).mpr (Nat.mod_lt _ (Nat.pow_pos (by decide)))
    rw [ofDigitChars_padded _ _ _ fits, Nat.div_add_mod'] at read
    have value : (⟨if decide (d.int < 0) = true then -(n : Int) else n⟩ : Dec) = d := by
      apply ext_int
      by_cases negative : d.int < 0
      · simp only [negative, decide_true, if_true]
        omega
      · simp only [negative, decide_false, Bool.false_eq_true, if_false]
        omega
    rw [value] at read
    rw [← String.ofList_toList (s := d.string), toList_string]
    simpa only [decide_eq_true_eq] using read
  · intro c mem
    rcases List.mem_append.mp mem with zeros | digits
    · rw [List.eq_of_mem_replicate zeros]
      exact isDigit_zero_char
    · exact isDigit_of_mem_toDigits digits

/-- `UnmarshalJSON(MarshalJSON(d))` is `d`, for every `Dec`. -/
theorem unmarshalJSON_marshalJSON (d : Dec) : unmarshalJSON (marshalJSON d) = .ok d := by
  simp [unmarshalJSON, marshalJSON, unmarshalString_marshalString, newDecFromStr_string,
    Except.mapError]

/-- The text round trips of a `Dec`: every `Dec` is read back from `String` and from
`MarshalJSON`, so that parsing a text and parsing the text of the result agree for every input,
accepted or not. -/
theorem dec_text_round_trip :
    (∀ d : Dec, newDecFromStr d.string = .ok d) ∧
      (∀ s : String, (newDecFromStr s >>= fun d => newDecFromStr d.string) = newDecFromStr s) ∧
      (∀ d : Dec, unmarshalJSON (marshalJSON d) = .ok d) ∧
      ∀ bz : String, (unmarshalJSON bz >>= fun d => unmarshalJSON (marshalJSON d)) =
        unmarshalJSON bz := by
  refine ⟨newDecFromStr_string, ?_, unmarshalJSON_marshalJSON, ?_⟩
  · intro s
    generalize newDecFromStr s = parsed
    cases parsed with
    | error e => rfl
    | ok d => exact Fallible.bind_eq_ok.mpr ⟨d, rfl, newDecFromStr_string d⟩
  · intro bz
    generalize unmarshalJSON bz = parsed
    cases parsed with
    | error e => rfl
    | ok d => exact Fallible.bind_eq_ok.mpr ⟨d, rfl, unmarshalJSON_marshalJSON d⟩

end Dec

end Pocc
