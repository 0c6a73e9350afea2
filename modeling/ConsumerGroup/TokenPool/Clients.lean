import ConsumerGroup.TokenPool

/-!
# Clients of a token pool

Several clients use one pool: they try to get a token, wait for one, give it back, withdraw, or drain
the pool with a limit of time.  A clock runs from deadline to deadline, and after each event every
client that can go on does so.
-/

namespace ConsumerGroup

/-- Where a client stands. -/
inductive ClientStatus where
  /-- it holds a token -/
  | held
  /-- it waits for a token -/
  | acquiring
  /-- it found the pool closed -/
  | refused
  /-- it waits for all tokens, until that time -/
  | draining (deadline : Nat)
  /-- it got all tokens and closed the pool -/
  | drained
  /-- it did not get all tokens in time -/
  | timedOut
  deriving Repr, DecidableEq

/-- A pool with its clients and a clock. -/
structure PoolClients where
  /-- the pool -/
  pool : TokenPool String
  /-- the time in milliseconds -/
  now : Nat := 0
  /-- the clients by name -/
  clients : List (String × ClientStatus) := []

namespace PoolClients

/-- The status of a client. -/
def status? (s : PoolClients) (id : String) : Option ClientStatus :=
  (s.clients.find? (·.1 = id)).map Prod.snd

/-- Sets the status of a client. -/
def setStatus (s : PoolClients) (id : String) (status : ClientStatus) : PoolClients :=
  { s with clients := s.clients.filter (·.1 ≠ id) ++ [(id, status)] }

/-- Lets a client that waits look at its request; nothing if it has to go on waiting. -/
def look? (s : PoolClients) (id : String) : ClientStatus → Option PoolClients
  | .acquiring =>
    match s.pool.resume id with
    | (.served, pool) => some ({ s with pool := pool.hold id }.setStatus id .held)
    | (.closed, pool) => some ({ s with pool }.setStatus id .refused)
    | (.waiting, _) => none
  | .draining deadline =>
    match s.pool.resume id with
    | (.served, pool) => some ({ s with pool := pool.finishDrain }.setStatus id .drained)
    | (.closed, pool) => some ({ s with pool }.setStatus id .timedOut)
    | (.waiting, pool) =>
      if deadline ≤ s.now then
        some ({ s with pool := (pool.cancel id).close }.setStatus id .timedOut)
      else none
  | _ => none

/-- Lets clients look until all have to wait; each does so with an outcome at most once. -/
def settle (s : PoolClients) : PoolClients :=
  go s.clients.length s
where
  /-- At most that many clients go on. -/
  go : Nat → PoolClients → PoolClients
    | 0, s => s
    | n + 1, s =>
      match s.clients.findSome? fun (id, status) => s.look? id status with
      | some s => go n s
      | none => s

/-- A client takes a token if one is free. -/
def tryAcquire (s : PoolClients) (id : String) : Bool × PoolClients :=
  match s.pool.tryAcquire? id with
  | some pool => (true, ({ s with pool }.setStatus id .held).settle)
  | none => (false, s)

/-- A client asks for a token and waits for it. -/
def acquire (s : PoolClients) (id : String) : PoolClients :=
  match s.pool.request id 1 with
  | (.served, pool) => ({ s with pool := pool.hold id }.setStatus id .held).settle
  | (.waiting, pool) => ({ s with pool }.setStatus id .acquiring).settle
  | (.closed, pool) => ({ s with pool }.setStatus id .refused).settle

/-- A client drains the pool within so many milliseconds. -/
def drain (s : PoolClients) (id : String) (millis : Nat) : PoolClients :=
  match s.pool.request id s.pool.drainSize with
  | (.served, pool) => ({ s with pool := pool.finishDrain }.setStatus id .drained).settle
  | (.waiting, pool) => ({ s with pool }.setStatus id (.draining (s.now + millis))).settle
  | (.closed, pool) => ({ s with pool }.setStatus id .timedOut).settle

/-- A client gives its token back, withdraws its request, or is forgotten.  Tells whether there is
such a client. -/
def release (s : PoolClients) (id : String) : Bool × PoolClients :=
  match s.status? id with
  | none => (false, s)
  | some status =>
    let pool :=
      match status with
      | .held => s.pool.release id
      | .acquiring | .draining _ => s.pool.cancel id
      | _ => s.pool
    (true, settle { s with pool, clients := s.clients.filter (·.1 ≠ id) })

/-- The next deadline, if it is not later than `limit`. -/
def nextDeadline? (s : PoolClients) (limit : Nat) : Option Nat :=
  (s.clients.filterMap fun (_, status) =>
    match status with
    | .draining deadline => if deadline ≤ limit then some deadline else none
    | _ => none).min?

/-- Lets so many milliseconds pass. -/
def advance (s : PoolClients) (millis : Nat) : PoolClients :=
  { go s.clients.length s with now := s.now + millis }
where
  /-- At most that many deadlines pass. -/
  go : Nat → PoolClients → PoolClients
    | 0, s' => s'
    | n + 1, s' =>
      match s'.nextDeadline? (s.now + millis) with
      | some deadline => go n (settle { s' with now := max s'.now deadline })
      | none => s'

end PoolClients

end ConsumerGroup
