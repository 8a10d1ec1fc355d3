/-!
# Concurrent requests on a virtual clock

Requests start in order, each as soon as one of a limited number of slots is
free, and take up their slot until they end or time out.  Time passes only while
all requests wait, so the clock can be computed.
-/

namespace Quorum

/-- A request that takes a while. -/
structure Job (α : Type) where
  duration : Nat
  result : α

/-- A request that has ended, and when. -/
structure Completion (α : Type) where
  time : Nat
  result : α
  /-- Whether it was given up because it took too long. -/
  timedOut : Bool

namespace Schedule

variable {α : Type}

/-- Inserts a time into an ascending list of times. -/
def insertTime (time : Nat) : List Nat → List Nat
  | [] => [time]
  | first :: rest => if first ≤ time then first :: insertTime time rest else time :: first :: rest

/-- The ends of requests that start in order; the slots are given by the times at
which they become free, in ascending order. -/
def assign (timeout : Nat) : (slots : List Nat) → List (Job α) → List (Completion α)
  | _, [] => []
  | [], _ => []
  | free :: slots, job :: rest =>
    let time := free + min job.duration timeout
    { time, result := job.result, timedOut := timeout < job.duration } ::
      assign timeout (insertTime time slots) rest

/-- The ends of requests in the order in which they happen, where at most
`concurrency` requests, but at least one, are under way at any time. -/
def completions (concurrency timeout : Nat) (jobs : List (Job α)) : List (Completion α) :=
  let slots := List.replicate (min (max 1 concurrency) jobs.length) 0
  (assign timeout slots jobs).mergeSort fun a b => a.time ≤ b.time

end Schedule
end Quorum
