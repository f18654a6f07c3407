/-!
# Durations in messages

A number of milliseconds as messages show it: below a second in `ms`, from a second on in
seconds with as many of the three decimals as are needed, nothing at all as `0ns`.
-/

namespace Corelink.Text

/-- Three decimals of a second, without the zeros at the end. -/
def decimals (millis : Nat) : List Char :=
  let ds := [millis / 100, millis / 10 % 10, millis % 10]
  (ds.reverse.dropWhile (· = 0)).reverse.map fun d => Char.ofNat ('0'.toNat + d)

/-- A number of milliseconds. -/
def duration (millis : Nat) : String :=
  if millis = 0 then "0ns"
  else if millis < 1000 then s!"{millis}ms"
  else
    match decimals (millis % 1000) with
    | [] => s!"{millis / 1000}s"
    | ds => s!"{millis / 1000}." ++ String.ofList ds ++ "s"

example : decimals 250 = ['2', '5'] ∧ decimals 7 = ['0', '0', '7'] ∧ decimals 0 = [] := by decide

end Corelink.Text
