/-!
The ten digits of decimal numerals. Digits of other scripts are no part of a number.
-/

namespace Secant.Text

def isDigit (c : Char) : Bool :=
  '0' ≤ c && c ≤ '9'

end Secant.Text
