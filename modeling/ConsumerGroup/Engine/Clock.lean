import ConsumerGroup.Engine.Run

/-!
# The clock

Tasks take no time: whatever a task does in one go leaves the clock where it is (`now_of_step?`), and
so does everything the scheduler does between two deadlines (`now_settle`).  Letting time pass moves
the clock by exactly the time that was asked for, and is a run (`run_advance`).
-/

namespace ConsumerGroup.Engine

variable {w : World}

/-! ## Parts of a step -/

@[simp] theorem now_setLoop (e : Engine) (i : Nat) (l : ClaimLoop) : (e.setLoop i l).now = e.now := rfl

@[simp] theorem now_setHandling (e : Engine) (h : Nat) (t : Handling) :
    (e.setHandling h t).now = e.now := rfl

@[simp] theorem now_setMember (e : Engine) (m : Nat) (member : Member) :
    (e.setMember m member).now = e.now := rfl

@[simp] theorem now_note (e : Engine) (event : Event) : (e.note event).now = e.now := rfl

@[simp] theorem now_mark (e : Engine) (i : Nat) (l : ClaimLoop) (o : Offset) :
    (e.mark i l o).2.now = e.now := by
  rw [mark]
  split <;> rfl

/-! ## Claim loops -/

@[simp] theorem now_endLoop (e : Engine) (i : Nat) (l : ClaimLoop) (how : LoopEnd) :
    (e.endLoop i l how).now = e.now := rfl

@[simp] theorem now_closeLoop (e : Engine) (i : Nat) (l : ClaimLoop) :
    (e.closeLoop i l).now = e.now := by
  rw [closeLoop]
  split <;> rfl

@[simp] theorem now_enter (e : Engine) (i : Nat) (l : ClaimLoop) (pool : TokenPool PoolUser)
    (env : Envelope) : (e.enter i l pool env).now = e.now := rfl

@[simp] theorem now_pass (e : Engine) (i : Nat) (l : ClaimLoop) (env : Envelope) :
    (e.pass i l env).now = e.now := by
  rw [pass]
  dsimp only
  split
  · rfl
  · split
    -- Whether or not the mark panics, it took no time.
    · rename_i heq
      exact (congrArg (fun r => r.2.now) heq).symm.trans (now_mark _ _ _ _)
    · rename_i heq
      exact (congrArg (fun r => r.2.now) heq).symm.trans (now_mark _ _ _ _)

@[simp] theorem now_offer (e : Engine) (i : Nat) (l : ClaimLoop) (env : Envelope) :
    (e.offer i l env).now = e.now := by
  rw [offer]
  split
  · rfl
  · split <;> simp

@[simp] theorem now_take (e : Engine) (i : Nat) (l : ClaimLoop) (m : Message) :
    (take w e i l m).now = e.now := by
  unfold take
  dsimp only
  split <;> simp

theorem now_of_goLoop? {e e' : Engine} {i : Nat} {l : ClaimLoop} (h : e.goLoop? w i l = some e') :
    e'.now = e.now := by
  rw [goLoop?] at h
  repeat' split at h
  all_goals cases h
  all_goals simp

theorem now_of_stepLoop? {e e' : Engine} {i : Nat} (h : e.stepLoop? w i = some e') :
    e'.now = e.now := by
  rw [stepLoop?] at h
  split at h
  · cases h
  · split at h
    · cases h
    · split at h
      · obtain rfl := Option.some.inj h
        rfl
      · exact now_of_goLoop? h

/-! ## Handlings -/

@[simp] theorem now_complete (e : Engine) (h : Nat) (t : Handling) :
    (e.complete h t).now = e.now := by
  rw [complete]
  dsimp only
  split
  · rfl
  · split
    · rfl
    · split <;> simp

@[simp] theorem now_askProducer (e : Engine) (record : Record) :
    (e.askProducer record).2.now = e.now := by
  unfold askProducer
  dsimp only
  split
  · split <;> rfl
  · rfl

@[simp] theorem now_callProducer (e : Engine) (h : Nat) (t : Handling) (calls delay : Nat)
    (record : Record) : (e.callProducer w h t calls delay record).now = e.now := by
  rw [callProducer]
  dsimp only
  split <;> simp

@[simp] theorem now_redeliver (e : Engine) (h : Nat) (t : Handling) :
    (e.redeliver w h t).now = e.now := by
  rw [redeliver]
  split
  · simp
  · split <;> simp

@[simp] theorem now_handlerReturned (e : Engine) (h : Nat) (t : Handling)
    (outcome : Handler.Outcome) : (e.handlerReturned w h t outcome).now = e.now := by
  unfold handlerReturned
  dsimp only
  split <;> simp

@[simp] theorem now_runProgram (e : Engine) (h : Nat) (t : Handling) (program : Handler.Program) :
    (e.runProgram w h t program).now = e.now := by
  simp only [runProgram]
  split <;> simp

theorem now_of_stepHandling? {e e' : Engine} {h : Nat} (hs : e.stepHandling? w h = some e') :
    e'.now = e.now := by
  rw [stepHandling?] at hs
  repeat' split at hs
  all_goals cases hs
  all_goals simp

/-! ## Members -/

@[simp] theorem now_restart (e : Engine) (m : Nat) (member : Member) (reason : RestartReason) :
    (e.restart m member reason).now = e.now := rfl

@[simp] theorem now_openLoop (e : Engine) (m : Nat) (member : Member) (claim : Claim) :
    (e.openLoop m member claim).now = e.now := rfl

@[simp] theorem now_beginLeaving (e : Engine) (m : Nat) (member : Member) (s : SessionId)
    (result : Option BrokerError) : (e.beginLeaving m member s result).now = e.now := rfl

@[simp] theorem now_stopMember (e : Engine) (m : Nat) (member : Member) :
    (e.stopMember m member).now = e.now := rfl

@[simp] theorem now_joinGroup (e : Engine) (m : Nat) (member : Member) :
    (e.joinGroup m member).now = e.now := by
  unfold joinGroup
  dsimp only
  split
  · rfl
  · split <;> rfl

@[simp] theorem now_leave (e : Engine) (m : Nat) (member : Member) (s : SessionId)
    (result : Option BrokerError) : (e.leave m member s result).now = e.now := by
  unfold leave
  dsimp only
  split <;> rfl

theorem now_of_stepMember? {e e' : Engine} {m : Nat} (h : e.stepMember? m = some e') :
    e'.now = e.now := by
  simp only [stepMember?, goMember?] at h
  repeat' split at h
  all_goals cases h
  all_goals simp

/-! ## Everything together -/

/-- Tasks take no time. -/
theorem now_of_step? {e e' : Engine} {t : TaskId} (h : e.step? w t = some e') : e'.now = e.now := by
  cases t with
  | member m => exact now_of_stepMember? h
  | loop i => exact now_of_stepLoop? h
  | handling h' => exact now_of_stepHandling? h

@[simp] theorem now_run (n : Nat) (queue : List TaskId) (e : Engine) :
    (run w n queue e).now = e.now := by
  induction n generalizing queue e with
  | zero => rfl
  | succ n ih =>
    cases queue with
    | nil => rfl
    | cons t queue =>
      rw [run]
      split
      · exact ih queue e
      · rename_i e' he
        rw [ih, now_of_step? he]

/-- The clock stands still until nobody can go on. -/
@[simp] theorem now_settle (e : Engine) : (settle w e).now = e.now := now_run _ _ e

/-- No deadline is passed that lies after the limit. -/
theorem now_passDeadlines_le (limit n : Nat) {e : Engine} (h : e.now ≤ limit) :
    (passDeadlines w limit n e).now ≤ limit := by
  induction n generalizing e with
  | zero => exact h
  | succ n ih =>
    rw [passDeadlines]
    split
    · exact h
    · rename_i t ht
      apply ih
      rw [now_settle]
      exact (le_of_nextDeadline? ht).2

@[simp] theorem now_advance (millis : Nat) (e : Engine) :
    (advance w millis e).now = e.now + millis := rfl

/-- Letting time pass is a run. -/
theorem run_advance (millis : Nat) (e : Engine) : Run w e (advance w millis e) :=
  (run_passDeadlines _ _ e).tail
    (.tick _ (now_passDeadlines_le _ _ (Nat.le_add_right e.now millis)))

end ConsumerGroup.Engine
