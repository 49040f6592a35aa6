import WakeRouter.Duration

/-!
# The instants at which a watcher ticks
-/

namespace WakeRouter

/-- When a watcher ticks, and what it takes for idle. -/
structure Schedule where
  interval : Duration
  /-- A running machine without activity for longer than this is paused. -/
  idleTimeout : Duration
deriving DecidableEq, Repr

namespace Ticker

/-- Clocks show seconds in 63 bits. -/
def clockBound : Instant := Nat.pow 2 63 * 1000000000

/-- The first tick is one interval from now.  There is none when the interval is empty or
leads out of the clock. -/
def first? (now : Instant) (interval : Duration) : Option Instant :=
  if interval.isZero then none
  else if now + interval.nanos < clockBound then some (now + interval.nanos)
  else none

/-- A tick that is late by no more than this keeps the ones after it in place. -/
def slack : Duration := .ofMillis 5

/-- The tick after one that was due at `due` and comes now. -/
def next (now due : Instant) (interval : Duration) : Instant :=
  if due + slack.nanos < now then now + interval.nanos else due + interval.nanos

end Ticker

end WakeRouter
