import Lazydns.Lib.Machine
import Mathlib.Algebra.GroupWithZero.Nat

/-!
# Values in a sliding window

`TimeSeries` keeps a bucket for each stretch of time, with the sum and the number of its values. A call of `add` reads the clock, takes the lock later, drops the buckets in front that have left the window, and adds to the last bucket or opens a new one; other calls come in between. Times are in whole seconds since the start.

A sum is in any type with an addition. The minimum and the maximum of a bucket are not here, nor are the averages, and counts are not bounded. `points` and `count` are taken at one moment. Which bucket each completed call chose is noted beside the series and not in the source.
-/

namespace Lazydns

structure Bucket (F : Type) where
  timestamp : Nat
  sum : F
  count : Nat
  deriving DecidableEq, Repr

def Bucket.new {F : Type} [Zero F] (timestamp : Nat) : Bucket F := ⟨timestamp, 0, 0⟩

def Bucket.add {F : Type} [Add F] (bucket : Bucket F) (value : F) : Bucket F :=
  { bucket with sum := bucket.sum + value, count := bucket.count + 1 }

structure TimeSeriesPoint (F : Type) where
  timestamp : Nat
  value : F
  deriving DecidableEq, Repr

structure TimeSeries (F : Type) where
  windowSecs : Nat
  bucketSecs : Nat
  buckets : List (Bucket F)
  deriving DecidableEq, Repr

namespace TimeSeries

variable {F : Type}

def new (windowSecs bucketSecs : Nat) : TimeSeries F := ⟨windowSecs, bucketSecs, []⟩

def currentBucketTimestamp (t : TimeSeries F) (elapsed : Nat) : Nat := elapsed / t.bucketSecs * t.bucketSecs

def windowCutoff (t : TimeSeries F) (elapsed : Nat) : Nat := t.currentBucketTimestamp elapsed - t.windowSecs

/-- The loop that takes buckets off the front. -/
def cleanupLocked (t : TimeSeries F) (currentTimestamp : Nat) : List (Bucket F) :=
  t.buckets.dropWhile fun bucket => bucket.timestamp < currentTimestamp - t.windowSecs

/-- The buckets that the reads take into account. -/
def window (t : TimeSeries F) (elapsed : Nat) : List (Bucket F) :=
  t.buckets.filter fun bucket => t.windowCutoff elapsed ≤ bucket.timestamp

/-- The points have absolute times, from the time of the start. -/
def points (t : TimeSeries F) (startUnix elapsed : Nat) : List (TimeSeriesPoint F) :=
  (t.window elapsed).map fun bucket => ⟨startUnix + bucket.timestamp, bucket.sum⟩

def count (t : TimeSeries F) (elapsed : Nat) : Nat := ((t.window elapsed).map Bucket.count).sum

variable [Zero F] [Add F]

/-- `add` under the lock, with the bucket that the clock gave before. -/
def addLocked (t : TimeSeries F) (now : Nat) (value : F) : TimeSeries F :=
  let buckets := t.cleanupLocked now
  match buckets.getLast? with
  | some last =>
    if last.timestamp = now then { t with buckets := buckets.dropLast ++ [last.add value] }
    else { t with buckets := buckets ++ [(Bucket.new now).add value] }
  | none => { t with buckets := buckets ++ [(Bucket.new now).add value] }

/-- The calls that have read the clock are `writers`, each with its bucket. -/
structure System (F : Type) where
  series : TimeSeries F
  elapsed : Nat
  writers : List (Nat × F)
  completed : List Nat
  deriving DecidableEq, Repr

def System.new (windowSecs bucketSecs : Nat) : System F := ⟨TimeSeries.new windowSecs bucketSecs, 0, [], []⟩

inductive Event (F : Type) where
  | elapse (secs : Nat)
  | read (value : F)
  | lock (i : Nat)
  deriving DecidableEq, Repr

/-- With buckets of less than a second the division panics. -/
def step (s : System F) : Event F → Option (System F)
  | .elapse secs => some { s with elapsed := s.elapsed + secs }
  | .read value =>
    if s.series.bucketSecs = 0 then none
    else some { s with writers := s.writers ++ [(s.series.currentBucketTimestamp s.elapsed, value)] }
  | .lock i =>
    match s.writers[i]? with
    | some (now, value) =>
      some { s with
        series := s.series.addLocked now value
        writers := s.writers.eraseIdx i
        completed := s.completed ++ [now] }
    | none => none

variable (F) in
def machine : Machine (System F) (Event F) := ⟨step⟩

end TimeSeries

end Lazydns
