import Paybook.Binary64.Basic
import Paybook.Gateway.Keystream

/-! # Card gateways

A gateway answers each request with a verdict. The simulated one approves at a fixed rate, and with
a fixed seed its verdicts repeat. -/

namespace Paybook

/-- What a card gateway answers. -/
inductive Verdict where
  | approved
  | declined
deriving DecidableEq, Repr, Inhabited

/-- A gateway: its verdicts in their order, and how many of them were asked for so far. -/
structure CardGateway where
  verdict : Nat → Verdict
  used : Nat := 0

namespace CardGateway

/-- The next verdict. -/
def next (g : CardGateway) : Verdict := g.verdict g.used

/-- The gateway after its next verdict was asked for. -/
def advance (g : CardGateway) : CardGateway := { g with used := g.used + 1 }

/-- Verdicts that are given one after the other and then again from the first one; approval if
there are none. -/
def cycling (verdicts : List Verdict) : CardGateway where
  verdict n := (verdicts[n % verdicts.length]?).getD .approved

end CardGateway

namespace Gateway

/-- The share of numbers of 64 bits below which a draw is approved, as the first number that is
not; their limit when the rate is one or more, and 0 when it is not positive. -/
def threshold : Binary64 → Nat
  | .finite negative m k =>
    if negative then 0 else min (m <<< (k + 64) >>> Binary64.unitBits) Text.wordLimit
  | .infinite negative => if negative then 0 else Text.wordLimit
  | .nan => 0

/-- The verdict on a draw at a rate. -/
def judge (rate : Binary64) (n : Nat) : Verdict :=
  if n < threshold rate then .approved else .declined

theorem threshold_le (rate : Binary64) : threshold rate ≤ Text.wordLimit := by
  unfold threshold
  split
  · split
    · exact Nat.zero_le _
    · exact Nat.min_le_right _ _
  · split <;> simp
  · exact Nat.zero_le _

/-- The gateway that approves at a rate, with draws from a seed. -/
def simulated (rate : Binary64) (seed : Nat) : CardGateway where
  verdict n := judge rate (draw seed n)

end Gateway

end Paybook
