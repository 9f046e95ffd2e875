import EndpointAudit.Text.Padded

namespace EndpointAudit

structure Clock where
  stamp : String
  time : String
deriving DecidableEq, Repr

namespace Clock

structure Day where
  year : Nat
  month : Nat
  day : Nat
deriving DecidableEq, Repr

/-- The day that lies so many days after the first of January 1970. Years are counted from March, so
that a leap day comes last, and in cycles of 400. -/
def Day.ofDays (days : Nat) : Day :=
  let shifted := days + 719468
  let inCycle := shifted % 146097
  let year := (inCycle - inCycle / 1460 + inCycle / 36524 - inCycle / 146096) / 365
  let inYear := inCycle - (365 * year + year / 4 - year / 100)
  let fromMarch := (5 * inYear + 2) / 153
  let month := if fromMarch < 10 then fromMarch + 3 else fromMarch - 9
  { year := year + shifted / 146097 * 400 + (if month ≤ 2 then 1 else 0)
    month
    day := inYear - (153 * fromMarch + 2) / 5 + 1 }

/-- The reading of a clock without a time zone, so many seconds after the start of 1970. -/
def ofSeconds (seconds : Nat) : Clock :=
  let d := Day.ofDays (seconds / 86400)
  let two := Text.padded 2
  let (hour,minute,second) :=
    (two (seconds / 3600 % 24),two (seconds / 60 % 60),two (seconds % 60))
  let (year,month,day) := (Text.padded 4 d.year,two d.month,two d.day)
  { stamp := year ++ month ++ day ++ "_" ++ hour ++ minute ++ second
    time := year ++ "-" ++ month ++ "-" ++ day ++ "T" ++ hour ++ ":" ++ minute ++ ":" ++ second ++
      "+00:00" }

end Clock

end EndpointAudit
