/-!
# Token pools

A pool of tokens limits how many handlers run at a time.  Whoever finds no free token waits, and
tokens that are given back go to the one who has waited longest.  A *drain* asks for all tokens at
once; while it waits it keeps what it gets, so nobody overtakes it.  After a drain the pool is closed
for good.

A request that had to wait is *served* when it has all its tokens; it learns of that when its owner
looks again (`resume`).  Until then it can still be withdrawn, and its tokens go to the next.
-/

namespace ConsumerGroup

/-- A request for tokens that cannot be met at once. -/
structure Waiter (ι : Type) where
  /-- who asks -/
  id : ι
  /-- how many tokens are missing -/
  missing : Nat
  /-- how many tokens it has got -/
  got : Nat
  deriving Repr, DecidableEq

/-- A pool of tokens, with owners and waiters named by `ι`. -/
structure TokenPool (ι : Type) where
  /-- how many tokens there are -/
  capacity : Nat
  /-- how many nobody has -/
  free : Nat
  /-- who holds a token -/
  held : List ι := []
  /-- the requests with tokens missing, the oldest first -/
  waiting : List (Waiter ι) := []
  /-- the requests that have their tokens and do not know yet -/
  served : List (Waiter ι) := []
  /-- whether no token is given out any more -/
  closed : Bool := false
  deriving Repr, DecidableEq

/-- What a request comes to. -/
inductive Answer where
  /-- it has its tokens -/
  | served
  /-- it waits -/
  | waiting
  /-- the pool is closed -/
  | closed
  deriving Repr, DecidableEq

namespace TokenPool

variable {ι : Type}

/-- A pool with all tokens free; it has at least one. -/
def ofCapacity (capacity : Nat) : TokenPool ι where
  capacity := max capacity 1
  free := max capacity 1

/-- How many tokens are not free. -/
def inUse (p : TokenPool ι) : Nat := p.capacity - p.free

/-- Gives tokens to waiters, the oldest first, and each all it misses before the next gets any.
Returns the tokens that are left, the waiters that are served, and those that are not. -/
def distribute : Nat → List (Waiter ι) → Nat × List (Waiter ι) × List (Waiter ι)
  | n, [] => (n, [], [])
  | n, w :: ws =>
    if w.missing ≤ n then
      let (left, served, waiting) := distribute (n - w.missing) ws
      (left, { w with missing := 0, got := w.got + w.missing } :: served, waiting)
    else (0, [], { w with missing := w.missing - n, got := w.got + n } :: ws)

/-- Puts tokens back: to the waiters, and what they do not need to the free ones. -/
def give (p : TokenPool ι) (n : Nat) : TokenPool ι :=
  let (left, served, waiting) := distribute n p.waiting
  { p with free := p.free + left, served := p.served ++ served, waiting }

/-- Closes the pool. -/
def close (p : TokenPool ι) : TokenPool ι := { p with closed := true }

/-- Takes a token for `holder` if one is free. -/
def tryAcquire? (p : TokenPool ι) (holder : ι) : Option (TokenPool ι) :=
  if p.closed || p.free = 0 then none
  else some { p with free := p.free - 1, held := p.held ++ [holder] }

/-- Asks for `n` tokens.  If so many are free they are taken off the free ones; else the request takes
those that are free and waits for the rest. -/
def request (p : TokenPool ι) (id : ι) (n : Nat) : Answer × TokenPool ι :=
  if p.closed then (.closed, p)
  else if n ≤ p.free then (.served, { p with free := p.free - n })
  else (.waiting, { p with free := 0, waiting := p.waiting ++ [⟨id, n - p.free, p.free⟩] })

/-- Notes that `holder` has a token that a request was given. -/
def hold (p : TokenPool ι) (holder : ι) : TokenPool ι := { p with held := p.held ++ [holder] }

/-- How many tokens a drain asks for: all of them, as far as one request can. -/
def drainSize (p : TokenPool ι) : Nat := min p.capacity 4294967295

/-- What a drain does when it has its tokens: it puts them back and closes the pool. -/
def finishDrain (p : TokenPool ι) : TokenPool ι := (p.give p.drainSize).close

variable [DecidableEq ι]

/-- Puts back the token of `holder`. -/
def release (p : TokenPool ι) (holder : ι) : TokenPool ι :=
  if holder ∈ p.held then { p with held := p.held.erase holder }.give 1 else p

/-- The request of `id` that has not been met, or not been told. -/
def waiter? (p : TokenPool ι) (id : ι) : Option (Waiter ι) :=
  match p.served.find? (·.id = id) with
  | some w => some w
  | none => p.waiting.find? (·.id = id)

/-- Withdraws the request of `id`; the tokens it has got go to the next. -/
def cancel (p : TokenPool ι) (id : ι) : TokenPool ι :=
  match p.waiter? id with
  | none => p
  | some w =>
    -- The request leaves before its tokens do, so that they do not come back to it.
    { p with
      served := p.served.filter (·.id ≠ id)
      waiting := p.waiting.filter (·.id ≠ id) }.give w.got

/-- Looks how the request of `id` stands.  A request that is served is taken off, and its tokens
belong to whoever looks; in a closed pool every request is withdrawn. -/
def resume (p : TokenPool ι) (id : ι) : Answer × TokenPool ι :=
  if p.closed then (.closed, p.cancel id)
  else if p.served.any (·.id = id) then
    (.served, { p with served := p.served.filter (·.id ≠ id) })
  else (.waiting, p)

end TokenPool

end ConsumerGroup
