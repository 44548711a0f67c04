import LeasePool.Lease.Basic

/-!
# Edits

The three ways in which this library changes a lease that it has read. Each touches the members
it is about and no other, so whatever somebody else keeps in the object stays there.

## Main definitions

* `Edit`: a correction of the managed members, a claim, or a release.
* `Lease.edit`: the lease after an edit.
-/

namespace LeasePool

/-- A change of a lease. -/
inductive Edit where
  /-- Sets the duration, and the labels over whatever labels there are. -/
  | manage (labels : Labels) (duration : Int32)
  /-- Makes `holder` the holder, with a renewal at `now`. -/
  | claim (holder : String) (now : Stamp)
  /-- Gives up the claim. -/
  | release
  deriving DecidableEq

namespace Claim

/-- Whether `holder` takes the claim over from somebody else. A claim that nobody holds is not
taken over. -/
def isTakenOverBy (holder : String) (previous : Option String) : Bool :=
  previous.any fun p => p != holder

/-- The number of changes of the holder after one more. There is none after the greatest number. -/
def nextCount? (c : Claim) : Option Int32 :=
  let count := c.transitions.getD 0
  if count = Int32.maxValue then none else some (count + 1)

/-- The claim after `holder`, taking it from `previous`, has renewed it at `now`. The time at
which it was acquired is kept unless there is none or the holder changes; a change of the holder
is counted. Where it cannot be counted any more, nobody becomes the holder: see
`Lease.claimed?`. -/
def renewedBy (c : Claim) (previous : Option String) (holder : String) (now : Stamp) : Claim :=
  if isTakenOverBy holder previous then
    { c with
      holder := some holder, renewed := some now, acquired := some now
      transitions := c.nextCount? }
  else
    { c with
      holder := some holder, renewed := some now, acquired := some (c.acquired.getD now) }

/-- The claim after its holder has given it up. -/
def released (c : Claim) : Claim :=
  { c with holder := some "", renewed := none }

end Claim

/-- The lease after an edit. -/
def Lease.edit (l : Lease) : Edit → Lease
  | .manage labels duration =>
    { l with
      metadata := { l.metadata with labels := l.metadata.labels.override labels }
      claim := { l.claim with duration := some duration } }
  | .claim holder now => { l with claim := l.claim.renewedBy l.holder? holder now }
  | .release => { l with claim := l.claim.released }

/-- Whether `holder` can become the holder, or stay it: a change of the holder has to be counted. -/
def Lease.admits (l : Lease) (holder : String) : Bool :=
  !Claim.isTakenOverBy holder l.holder? || l.claim.nextCount?.isSome

/-- The lease after a claim. There is none if the claim would be a change of the holder that
cannot be counted any more. -/
def Lease.claimed? (l : Lease) (holder : String) (now : Stamp) : Option Lease :=
  if l.admits holder then some (l.edit (.claim holder now)) else none

theorem Lease.claimed?_eq_some_iff {l claimed : Lease} {holder : String} {now : Stamp} :
    l.claimed? holder now = some claimed ↔
      l.admits holder = true ∧ l.edit (.claim holder now) = claimed := by
  rw [Lease.claimed?, Option.ite_none_right_eq_some, Option.some.injEq]

end LeasePool
