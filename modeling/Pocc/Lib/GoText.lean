import Mathlib

/-!
# Go text functions

The functions of Go's standard library that the modelled code applies to text. A Go `string`
is a byte string; here it is a list of characters, and `goLen` gives its length in bytes, the
UTF-8 length that Go's `len` returns.

* `strings.Split` on a one-character separator is core's `List.splitOn`;
* `big.Int.MarshalText`, the decimal text of a natural number, is core's `Nat.toDigits 10`;
* `setString` is `big.Int.SetString` in base 10;
* `marshalString` and `unmarshalString` are `encoding/json` on a Go `string`: `json.Marshal`
  of one, and `json.Unmarshal` into one.

Of `json.Unmarshal` only the string and `null` inputs are modelled: any other JSON value is an
error for a string target, and the texts of json's errors are not kept.

Results: `setString_of_digits` (a digit string is read as its decimal value),
`ofDigitChars_padded` (the value of a number's digits after zero padding), and
`unmarshalString_marshalString` (every string comes back from its JSON text).
-/

namespace GoText

/-! ## Lengths and digits -/

/-- `len` of a Go string: its length in UTF-8 bytes. -/
def goLen (s : List Char) : Nat := (s.map Char.utf8Size).sum

theorem utf8Size_of_isDigit {c : Char} (digit : c.isDigit) : c.utf8Size = 1 := by
  have small : c.toNat ≤ '9'.toNat := (Char.isDigit_iff_toNat.mp digit).2
  have bound : c.val ≤ 0x7F := by
    rw [UInt32.le_iff_toNat_le]
    exact Nat.le_trans small (by decide)
  simp [Char.utf8Size, bound]

theorem goLen_of_digits {s : List Char} (digits : ∀ c ∈ s, c.isDigit) : goLen s = s.length := by
  induction s with
  | nil => rfl
  | cons c s ih =>
    have rest : goLen s = s.length := ih fun d mem => digits d (List.mem_cons_of_mem c mem)
    simp only [goLen, List.map_cons, List.sum_cons] at rest ⊢
    rw [utf8Size_of_isDigit (digits c List.mem_cons_self), rest, List.length_cons, Nat.add_comm]

theorem isDigit_zero_char : '0'.isDigit := by decide

theorem isDigit_of_mem_toDigits {n : Nat} {c : Char} (mem : c ∈ Nat.toDigits 10 n) :
    c.isDigit :=
  Nat.isDigit_of_mem_toDigits (by decide) (by decide) mem

/-- The digits of `q` followed by those of `r` padded with zeros to `k` places stand for
`q * 10 ^ k + r`. -/
theorem ofDigitChars_padded (q r k : Nat) (fits : (Nat.toDigits 10 r).length ≤ k) :
    Nat.ofDigitChars 10 (Nat.toDigits 10 q ++
      (List.replicate (k - (Nat.toDigits 10 r).length) '0' ++ Nat.toDigits 10 r)) 0 =
      q * 10 ^ k + r := by
  rw [Nat.ofDigitChars_append, Nat.ofDigitChars_ten_toDigits, Nat.ofDigitChars_append,
    Nat.ofDigitChars_replicate_zero, Nat.ofDigitChars_eq_ofDigitChars_zero,
    Nat.ofDigitChars_ten_toDigits]
  rw [← Nat.mul_assoc, ← Nat.pow_add, Nat.add_sub_cancel' fits, Nat.mul_comm]

/-! ## `big.Int.SetString` -/

/-- `big.Int.SetString(s, 10)`: one sign character at most, then one or more decimal digits
and nothing else; `none` is its `ok == false`. -/
def setString (s : List Char) : Option Int :=
  let (neg, digits) : Bool × List Char :=
    match s with
    | '-' :: rest => (true, rest)
    | '+' :: rest => (false, rest)
    | _ => (false, s)
  if digits ≠ [] ∧ digits.all Char.isDigit then
    let n : Int := Nat.ofDigitChars 10 digits 0
    some (if neg then -n else n)
  else none

theorem setString_of_digits {s : List Char} (nonempty : s ≠ [])
    (digits : ∀ c ∈ s, c.isDigit) : setString s = some ((Nat.ofDigitChars 10 s 0 : Nat) : Int) := by
  obtain ⟨c, rest, rfl⟩ := List.exists_cons_of_ne_nil nonempty
  -- the first character is a digit, so it is no sign
  have head := digits c List.mem_cons_self
  have notMinus : c ≠ '-' := by
    rintro rfl
    exact absurd head (by decide)
  have notPlus : c ≠ '+' := by
    rintro rfl
    exact absurd head (by decide)
  have all : (c :: rest).all Char.isDigit = true := List.all_eq_true.mpr digits
  simp [setString, notMinus, notPlus, all]

/-! ## `encoding/json` on strings -/

/-- The whitespace JSON allows around a value. -/
def isSpace (c : Char) : Bool := c == ' ' || c == '\t' || c == '\n' || c == '\r'

/-- One character as `encodeState.string` writes it with `escapeHTML` set, as `json.Marshal`
does: a backslash before a quote or a backslash, the short escapes of a newline, a return
and a tab, `\u00XX` for the other control characters and for `<`, `>` and `&`, and `\u202X`
for the two line separators JavaScript does not allow in a string. -/
def escapeChar (c : Char) : List Char :=
  if c = '\\' ∨ c = '"' then ['\\', c]
  else if c = '\n' then ['\\', 'n']
  else if c = '\r' then ['\\', 'r']
  else if c = '\t' then ['\\', 't']
  else if c.toNat < 0x20 ∨ c = '<' ∨ c = '>' ∨ c = '&' then
    ['\\', 'u', '0', '0', Nat.digitChar (c.toNat / 16), Nat.digitChar (c.toNat % 16)]
  else if c.toNat = 0x2028 ∨ c.toNat = 0x2029 then
    ['\\', 'u', '2', '0', '2', Nat.digitChar (c.toNat % 16)]
  else [c]

/-- `json.Marshal` of a Go `string`: the escaped characters between quotes. -/
def marshalString (s : String) : String :=
  String.ofList ('"' :: s.toList.flatMap escapeChar ++ ['"'])

/-- The value of a hexadecimal digit, either case. -/
def hexValue (c : Char) : Option Nat :=
  if '0' ≤ c ∧ c ≤ '9' then some (c.toNat - '0'.toNat)
  else if 'a' ≤ c ∧ c ≤ 'f' then some (c.toNat - 'a'.toNat + 10)
  else if 'A' ≤ c ∧ c ≤ 'F' then some (c.toNat - 'A'.toNat + 10)
  else none

/-- `getu4`: the code unit written by the four hexadecimal digits of a `\u` escape. -/
def getu4 (a b c d : Char) : Option Nat := do
  pure ((((← hexValue a) * 16 + (← hexValue b)) * 16 + (← hexValue c)) * 16 + (← hexValue d))

/-- The character a one-letter escape stands for. -/
def escapeValue : Char → Option Char
  | '"' => some '"'
  | '\\' => some '\\'
  | '/' => some '/'
  | 'b' => some (Char.ofNat 8)
  | 'f' => some (Char.ofNat 12)
  | 'n' => some '\n'
  | 'r' => some '\r'
  | 't' => some '\t'
  | _ => none

/-- `utf16.IsSurrogate`. -/
def isSurrogate (r : Nat) : Bool := 0xD800 ≤ r && r < 0xE000

/-- Prepend a decoded character to what the rest of the body decodes to. -/
def consDecoded (c : Char) (rest : Option (List Char × List Char)) :
    Option (List Char × List Char) :=
  rest.map fun body => (c :: body.1, body.2)

/-- The body of a JSON string after its opening quote, as the scanner checks it and `unquote`
decodes it: the characters up to the closing quote and what follows that quote, or `none` for
a control character, a bad escape or a missing closing quote. A surrogate code unit is
combined with a low surrogate written right after it, and is the replacement character
otherwise. -/
def unquoteBody : List Char → Option (List Char × List Char)
  | [] => none
  | '"' :: rest => some ([], rest)
  | '\\' :: 'u' :: a :: b :: c :: d :: rest =>
    match getu4 a b c d with
    | none => none
    | some r =>
      if isSurrogate r then
        match _h : rest with
        | '\\' :: 'u' :: a' :: b' :: c' :: d' :: rest' =>
          match getu4 a' b' c' d' with
          | some r' =>
            if r < 0xDC00 ∧ 0xDC00 ≤ r' ∧ r' < 0xE000 then
              consDecoded (Char.ofNat (((r - 0xD800) * 0x400 + (r' - 0xDC00)) + 0x10000))
                (unquoteBody rest')
            else consDecoded (Char.ofNat 0xFFFD) (unquoteBody rest)
          | none => consDecoded (Char.ofNat 0xFFFD) (unquoteBody rest)
        | _ => consDecoded (Char.ofNat 0xFFFD) (unquoteBody rest)
      else consDecoded (Char.ofNat r) (unquoteBody rest)
  | '\\' :: e :: rest =>
    match escapeValue e with
    | some c => consDecoded c (unquoteBody rest)
    | none => none
  | c :: rest => if c.toNat < 0x20 then none else consDecoded c (unquoteBody rest)
termination_by body => body.length
decreasing_by all_goals simp_all; try omega

theorem hexValue_digitChar : ∀ n < 16, hexValue (Nat.digitChar n) = some n := by decide

/-- The `\u00XX` escape of an ASCII character reads back as its code. -/
theorem getu4_ascii (c : Char) (small : c.toNat < 0x80) :
    getu4 '0' '0' (Nat.digitChar (c.toNat / 16)) (Nat.digitChar (c.toNat % 16)) =
      some c.toNat := by
  have zero : hexValue '0' = some 0 := rfl
  have high := hexValue_digitChar (c.toNat / 16) (by omega)
  have low := hexValue_digitChar (c.toNat % 16) (by omega)
  simp only [getu4, zero, high, low, Option.pure_def, Option.bind_eq_bind, Option.bind_some]
  congr 1
  omega

/-- The `\u202X` escape of a line separator reads back as its code. -/
theorem getu4_separator (c : Char) (sep : c.toNat = 0x2028 ∨ c.toNat = 0x2029) :
    getu4 '2' '0' '2' (Nat.digitChar (c.toNat % 16)) = some c.toNat := by
  have two : hexValue '2' = some 2 := rfl
  have zero : hexValue '0' = some 0 := rfl
  have low := hexValue_digitChar (c.toNat % 16) (by omega)
  simp only [getu4, two, zero, low, Option.pure_def, Option.bind_eq_bind, Option.bind_some]
  congr 1
  omega

/-- What `json.Marshal` writes for one character, `unquote` reads back as that character,
whatever follows it. -/
theorem unquoteBody_escapeChar (c : Char) (rest : List Char) :
    unquoteBody (escapeChar c ++ rest) = consDecoded c (unquoteBody rest) := by
  unfold escapeChar
  split_ifs with backslash newline ret tab control sep
  · rcases backslash with rfl | rfl <;> simp [unquoteBody, escapeValue]
  · subst newline
    simp [unquoteBody, escapeValue]
  · subst ret
    simp [unquoteBody, escapeValue]
  · subst tab
    simp [unquoteBody, escapeValue]
  · -- a `\u00XX` escape: its code is below the surrogates, so nothing after it is read
    have small : c.toNat < 0x80 := by
      rcases control with low | rfl | rfl | rfl
      · omega
      all_goals decide
    have plain : isSurrogate c.toNat = false := by
      simp only [isSurrogate, Bool.and_eq_false_iff, decide_eq_false_iff_not]
      omega
    simp [unquoteBody, getu4_ascii c small, plain, Char.ofNat_toNat]
  · have plain : isSurrogate c.toNat = false := by
      simp only [isSurrogate, Bool.and_eq_false_iff, decide_eq_false_iff_not]
      omega
    simp [unquoteBody, getu4_separator c sep, plain, Char.ofNat_toNat]
  · -- a character written as itself
    have notQuote : c ≠ '"' := fun h => backslash (.inr h)
    have notBackslash : c ≠ '\\' := fun h => backslash (.inl h)
    have printable : ¬ c.toNat < 0x20 := fun h => control (.inl h)
    rw [List.singleton_append, unquoteBody.eq_5 c rest notQuote
      (fun _ _ _ _ _ h => absurd h notBackslash) (fun _ _ h => absurd h notBackslash),
      if_neg printable]

theorem unquoteBody_flatMap (cs rest : List Char) :
    unquoteBody (cs.flatMap escapeChar ++ '"' :: rest) = some (cs, rest) := by
  induction cs with
  | nil => simp [unquoteBody]
  | cons c cs ih =>
    rw [List.flatMap_cons, List.append_assoc, unquoteBody_escapeChar, ih]
    rfl

/-- `json.Unmarshal` into a Go `string` that holds `init`: a JSON string sets it, `null`
leaves it as it is, and anything else is an error. -/
def unmarshalString (bz : String) (init : String) : Except String String :=
  match bz.toList.dropWhile isSpace with
  | '"' :: body =>
    match unquoteBody body with
    | some (text, rest) =>
      if rest.all isSpace then .ok (String.ofList text)
      else .error "invalid character after top-level value"
    | none => .error "invalid character in string literal"
  | 'n' :: 'u' :: 'l' :: 'l' :: rest =>
    if rest.all isSpace then .ok init else .error "invalid character after top-level value"
  | [] => .error "unexpected end of JSON input"
  | _ => .error "cannot unmarshal into Go value of type string"

/-- Every string comes back from the JSON text `json.Marshal` writes for it. -/
theorem unmarshalString_marshalString (s init : String) :
    unmarshalString (marshalString s) init = .ok s := by
  have quoted : isSpace '"' = false := rfl
  simp [unmarshalString, marshalString, quoted, unquoteBody_flatMap]

end GoText
