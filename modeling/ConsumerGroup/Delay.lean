import ConsumerGroup.Headers

/-!
# Delays

A failed message is held back before it is read again.  A consumer has a *ladder* of delays, one per
attempt; the topics that hold messages back come in a fixed set of *buckets*, and a delay is rounded
up to the next bucket, or down to the largest one.
-/

namespace ConsumerGroup

/-- The first bucket that is at least as long as the delay, else the last bucket. -/
def resolveBucket? (delay : Nat) (buckets : List Nat) : Option Nat :=
  match buckets.find? (delay ≤ ·) with
  | some bucket => some bucket
  | none => buckets.getLast?

/-- The delays that the standard buckets have, in seconds. -/
def standardBuckets : List Nat :=
  [30, 60, 120, 180, 300, 600, 900, 1800, 3600, 7200, 14400, 21600, 43200, 86400]

/-! ## Ladders -/

/-- The delays of a consumer in seconds: entry `k` is for a message that failed `k` times before. -/
structure DelayLadder where
  /-- the delays, first to last -/
  toList : List Nat := []
  deriving Repr, DecidableEq, Inhabited

namespace DelayLadder

/-- Whether each number is larger than the one before it. -/
def ascends : List Nat → Bool
  | a :: b :: rest => a < b && ascends (b :: rest)
  | _ => true

/-- Whether each delay is longer than the one before it. -/
def isAscending (ladder : DelayLadder) : Bool := ascends ladder.toList

/-- Whether there is no delay. -/
def isEmpty (ladder : DelayLadder) : Bool := ladder.toList.isEmpty

/-- How many delays there are. -/
def length (ladder : DelayLadder) : Nat := ladder.toList.length

/-- The delay for a message that was redelivered `retryTimes` times; past the end, the last one. -/
def delayFor? (ladder : DelayLadder) (retryTimes : Nat) : Option Nat :=
  match ladder.toList[retryTimes]? with
  | some delay => some delay
  | none => ladder.toList.getLast?

/-- What is checked between neighbours holds between all positions. -/
theorem ascends_iff_pairwise (l : List Nat) : ascends l = true ↔ l.Pairwise (· < ·) := by
  induction l with
  | nil => simp [ascends]
  | cons a l ih =>
    cases l with
    | nil => simp [ascends]
    | cons b l =>
      rw [ascends, Bool.and_eq_true, decide_eq_true_eq, ih]
      constructor
      · rintro ⟨hab, hp⟩
        refine List.pairwise_cons.2 ⟨?_, hp⟩
        intro x hx
        rcases List.mem_cons.1 hx with rfl | hx
        · exact hab
        · exact Nat.lt_trans hab ((List.pairwise_cons.1 hp).1 x hx)
      · intro h
        obtain ⟨hall, hp⟩ := List.pairwise_cons.1 h
        exact ⟨hall b List.mem_cons_self, hp⟩

end DelayLadder

/-! ## Delay topics -/

/-- Puts a pair into a list of pairs with ascending keys, in the place of one with the same key. -/
def insertAscending (key : Nat) (value : String) : List (Nat × String) → List (Nat × String)
  | [] => [(key, value)]
  | (k, v) :: rest =>
    if key < k then (key, value) :: (k, v) :: rest
    else if key = k then (key, value) :: rest
    else (k, v) :: insertAscending key value rest

theorem mem_insertAscending {key : Nat} {value : String} {l : List (Nat × String)}
    {p : Nat × String} (h : p ∈ insertAscending key value l) : p = (key, value) ∨ p ∈ l := by
  induction l with
  | nil => exact .inl (by simpa [insertAscending] using h)
  | cons e l ih =>
    rw [insertAscending] at h
    split at h
    · simpa using h
    · split at h
      · rcases List.mem_cons.1 h with h | h
        · exact .inl h
        · exact .inr (List.mem_cons_of_mem _ h)
      · rcases List.mem_cons.1 h with h | h
        · exact .inr (h ▸ List.mem_cons_self)
        · exact (ih h).imp_right (List.mem_cons_of_mem _)

theorem pairwise_insertAscending (key : Nat) (value : String) {l : List (Nat × String)}
    (h : l.Pairwise (·.1 < ·.1)) : (insertAscending key value l).Pairwise (·.1 < ·.1) := by
  induction l with
  | nil => simp [insertAscending]
  | cons e l ih =>
    have hc := List.pairwise_cons.1 h
    rw [insertAscending]
    split
    · rename_i hlt
      refine List.pairwise_cons.2 ⟨?_, h⟩
      intro p hp
      rcases List.mem_cons.1 hp with rfl | hp
      · exact hlt
      · exact Nat.lt_trans hlt (hc.1 p hp)
    · rename_i hge
      split
      · rename_i heq
        exact List.pairwise_cons.2 ⟨fun p hp => heq ▸ hc.1 p hp, hc.2⟩
      · rename_i hne
        refine List.pairwise_cons.2 ⟨?_, ih hc.2⟩
        intro p hp
        rcases mem_insertAscending hp with rfl | hp
        · exact Nat.lt_of_le_of_ne (Nat.le_of_not_lt hge) (Ne.symm hne)
        · exact hc.1 p hp

/-- Which topic holds messages back for which time. -/
structure DelayTopics where
  /-- the pairs of a bucket in seconds and its topic -/
  entries : List (Nat × String) := []
  /-- the buckets ascend -/
  ascending : entries.Pairwise (·.1 < ·.1) := by simp
  deriving DecidableEq

namespace DelayTopics

instance : EmptyCollection DelayTopics := ⟨{}⟩

instance : Inhabited DelayTopics := ⟨∅⟩

/-- Adds a bucket, or gives the bucket another topic. -/
def insert (d : DelayTopics) (seconds : Nat) (topic : String) : DelayTopics where
  entries := insertAscending seconds topic d.entries
  ascending := pairwise_insertAscending seconds topic d.ascending

/-- The buckets of a list; of two pairs with one bucket the later counts. -/
def ofList (pairs : List (Nat × String)) : DelayTopics :=
  pairs.foldl (fun d p => d.insert p.1 p.2) ∅

/-- A topic for every standard bucket, named by a common start and the seconds. -/
def standard (start : String) : DelayTopics :=
  ofList (standardBuckets.map fun seconds => (seconds, start ++ Nat.repr seconds ++ "s"))

/-- Whether there is no bucket. -/
def isEmpty (d : DelayTopics) : Bool := d.entries.isEmpty

/-- The buckets, ascending. -/
def buckets (d : DelayTopics) : List Nat := d.entries.map Prod.fst

/-- The topic of a bucket. -/
def topic? (d : DelayTopics) (bucket : Nat) : Option String :=
  (d.entries.find? (·.1 == bucket)).map Prod.snd

/-- The topic to publish to for a delay: the topic of the bucket it is rounded to, and `topic` itself
for no delay or without buckets. -/
def resolve (d : DelayTopics) (delay : Nat) (topic : String) : String :=
  if delay = 0 then topic
  else ((resolveBucket? delay d.buckets).bind d.topic?).getD topic

end DelayTopics

end ConsumerGroup
