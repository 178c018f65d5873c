import SjmbSlack.Text

/-! `message_timestamp`: the seconds of a Slack message timestamp. -/
namespace SjmbSlack.Harvest

/-- The last second that `chrono` represents. -/
def maxSeconds : Nat := 8210266876799

def messageTimestamp (ts : Str) : Option Int :=
  let parts := (Str.splitOnce '.' ts).getD (ts, [])
  if parts.1 = [] ∨ ¬ parts.1.all Str.isAsciiDigit ∨
      (ts.contains '.' ∧ (parts.2 = [] ∨ ¬ parts.2.all Str.isAsciiDigit)) then none
  else
    let seconds := Str.digitsValue parts.1
    if seconds < 2 ^ 63 ∧ seconds ≤ maxSeconds then some seconds else none

example : messageTimestamp "1234.567890".toList = some 1234 := by decide
example : ["".toList, "-1.0".toList, "1.".toList, "1.2.3".toList, "NaN".toList,
    "999999999999999999999".toList, "9223372036854775807".toList].map messageTimestamp =
      List.replicate 7 none := by decide

end SjmbSlack.Harvest
