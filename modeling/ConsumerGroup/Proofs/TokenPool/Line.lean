import ConsumerGroup.Proofs.TokenBalance
import Mathlib.Data.List.Nodup

/-!
# The line at a token pool

Requests that cannot be met at once stand in line, in the order in which they were made.  Tokens that come
back go to the front of the line, so that at most one request of those that wait has got any.

* `TokenPool.line` — the requests in line, with what each asks for.
* `TokenPool.InOrder` — the line keeps the order of the calls, and nobody who waits is passed by a later
  call.  Each change of a pool keeps that.
* `InOrder.eq_served`, `InOrder.served_of_first` — a request for all tokens is served exactly when it is
  alone in front.
-/

namespace ConsumerGroup

/-- An order of two entries of a list excludes the other. -/
theorem not_sublist_swap {α : Type} {a b : α} {l : List α} (hl : l.Nodup) (h : [a, b].Sublist l) :
    ¬ [b, a].Sublist l := by
  induction l with
  | nil => cases h
  | cons x l ih =>
    obtain ⟨hx, hl⟩ := List.nodup_cons.1 hl
    intro h'
    cases h with
    | cons _ h =>
      cases h' with
      | cons _ h' => exact ih hl h h'
      | cons_cons _ h' => exact hx (h.subset (by simp))
    | cons_cons _ h =>
      cases h' with
      | cons _ h' => exact hx (h'.subset (by simp))
      | cons_cons _ h' => exact hx (List.singleton_sublist.1 h)

theorem pair_sublist_append {α : Type} {a b : α} {l l' : List α} (ha : a ∈ l) (hb : b ∈ l') :
    [a, b].Sublist (l ++ l') :=
  (List.singleton_sublist.2 ha).append (List.singleton_sublist.2 hb)

namespace TokenPool

variable {ι : Type}

/-- The requests in line, those that are served in front, with what each asks for. -/
def line (p : TokenPool ι) : List (ι × Nat) :=
  (p.served ++ p.waiting).map fun w => (w.id, w.missing + w.got)

/-- The line is in the order of the calls. -/
structure InOrder (called : List ι) (p : TokenPool ι) : Prop where
  /-- who is served misses nothing -/
  full : ∀ w ∈ p.served, w.missing = 0
  /-- who waits misses something -/
  needy : ∀ w ∈ p.waiting, 0 < w.missing
  /-- only the first who waits has got tokens -/
  first : ∀ w ∈ p.waiting.tail, w.got = 0
  /-- while somebody waits no token is free -/
  short : p.waiting ≠ [] → p.free = 0
  /-- those in line called in that order -/
  line_sublist : (p.line.map Prod.fst).Sublist called
  /-- who holds a token called -/
  held_called : ∀ h ∈ p.held, h ∈ called
  /-- and did so before everybody who waits -/
  ahead : ∀ h ∈ p.held, ∀ w ∈ p.waiting, [h, w.id].Sublist called

variable {called : List ι} {p : TokenPool ι} {id : ι} {n k : Nat}

theorem mem_line_iff : (id, n) ∈ p.line ↔
    ∃ w, (w ∈ p.served ∨ w ∈ p.waiting) ∧ w.id = id ∧ w.missing + w.got = n := by
  simp [line, or_and_right, exists_or]

theorem map_fst_line (p : TokenPool ι) :
    p.line.map Prod.fst = p.served.map Waiter.id ++ p.waiting.map Waiter.id := by
  simp [line, Function.comp_def]

theorem mem_line_of_mem {w : Waiter ι} (h : w ∈ p.served ∨ w ∈ p.waiting) :
    (w.id, w.missing + w.got) ∈ p.line :=
  mem_line_iff.2 ⟨w, h, rfl, rfl⟩

theorem inOrder_ofCapacity (n : Nat) : (ofCapacity n : TokenPool ι).InOrder [] where
  full := nofun
  needy := nofun
  first := nofun
  short h := absurd rfl h
  line_sublist := .slnil
  held_called := nofun
  ahead := nofun

/-! ## Tokens that come back -/

/-- What comes back is handed out from the front, and the line stays as it was. -/
theorem distribute_inv (n : Nat) {ws : List (Waiter ι)} (hneedy : ∀ w ∈ ws, 0 < w.missing)
    (hfirst : ∀ w ∈ ws.tail, w.got = 0) :
    let r := distribute n ws
    (r.2.1 ++ r.2.2).map (fun w => (w.id, w.missing + w.got)) =
        ws.map (fun w => (w.id, w.missing + w.got)) ∧
      (∀ w ∈ r.2.1, w.missing = 0) ∧ (∀ w ∈ r.2.2, 0 < w.missing) ∧
      (∀ w ∈ r.2.2.tail, w.got = 0) ∧ (r.2.2 ≠ [] → r.1 = 0) := by
  induction ws generalizing n with
  | nil => simp [distribute]
  | cons w ws ih =>
    obtain ⟨hw, hws⟩ := List.forall_mem_cons.1 hneedy
    by_cases hm : w.missing ≤ n
    · have hrest := ih (n - w.missing) hws fun w' hw' => hfirst w' (List.mem_of_mem_tail hw')
      rcases hd : distribute (n - w.missing) ws with ⟨left, served, waiting⟩
      rw [hd] at hrest
      obtain ⟨hline, hfull, hrest⟩ := hrest
      simp only [distribute, if_pos hm, hd]
      refine ⟨?_, List.forall_mem_cons.2 ⟨rfl, hfull⟩, hrest⟩
      rw [List.cons_append, List.map_cons, List.map_cons, hline, Nat.zero_add, Nat.add_comm w.got]
    · simp only [distribute, if_neg hm]
      refine ⟨?_, List.forall_mem_nil _, List.forall_mem_cons.2 ⟨?_, hws⟩, hfirst, fun _ => trivial⟩
      · have hsum : w.missing - n + (w.got + n) = w.missing + w.got := by omega
        rw [List.nil_append, List.map_cons, List.map_cons, hsum]
      · change 0 < w.missing - n
        omega

theorem InOrder.line_give (h : p.InOrder called) (n : Nat) : (p.give n).line = p.line := by
  obtain ⟨hline, -⟩ := distribute_inv n h.needy h.first
  simp only [line, give, List.map_append, List.append_assoc] at hline ⊢
  rw [hline]

theorem InOrder.give (h : p.InOrder called) (n : Nat) : (p.give n).InOrder called := by
  obtain ⟨hline, hfull, hneedy, hfirst, hleft⟩ := distribute_inv n h.needy h.first
  have hmem : ∀ w ∈ (p.give n).waiting, ∃ w' ∈ p.waiting, w'.id = w.id := by
    intro w hw
    have hw' : (w.id, w.missing + w.got) ∈ p.waiting.map fun w => (w.id, w.missing + w.got) :=
      hline ▸ List.mem_map_of_mem (List.mem_append_right _ hw)
    obtain ⟨w', hw', heq⟩ := List.mem_map.1 hw'
    exact ⟨w', hw', (Prod.mk.inj heq).1⟩
  refine ⟨?_, hneedy, hfirst, fun hne => ?_, (h.line_give n).symm ▸ h.line_sublist, h.held_called, ?_⟩
  · intro w hw
    rcases List.mem_append.1 hw with hw | hw
    · exact h.full w hw
    · exact hfull w hw
  · have hwaiting : p.waiting ≠ [] := by
      obtain ⟨w, hw⟩ := List.exists_mem_of_ne_nil _ hne
      obtain ⟨w', hw', -⟩ := hmem w hw
      exact List.ne_nil_of_mem hw'
    change p.free + _ = 0
    rw [h.short hwaiting, hleft hne]
  · intro holder hh w hw
    obtain ⟨w', hw', hid⟩ := hmem w hw
    exact hid ▸ h.ahead holder hh w' hw'

theorem InOrder.close (h : p.InOrder called) : p.close.InOrder called :=
  ⟨h.full, h.needy, h.first, h.short, h.line_sublist, h.held_called, h.ahead⟩

/-! ## Calls -/

/-- Later calls do not change the order. -/
theorem InOrder.mono (h : p.InOrder called) (later : List ι) : p.InOrder (called ++ later) where
  full := h.full
  needy := h.needy
  first := h.first
  short := h.short
  line_sublist := List.sublist_append_of_sublist_left h.line_sublist
  held_called holder hh := List.mem_append_left _ (h.held_called holder hh)
  ahead holder hh w hw := List.sublist_append_of_sublist_left (h.ahead holder hh w hw)

/-- Nobody waits while a token is free. -/
theorem InOrder.waiting_eq_nil (h : p.InOrder called) (hfree : 0 < p.free) : p.waiting = [] := by
  by_contra hne
  rw [h.short hne] at hfree
  exact Nat.lt_irrefl 0 hfree

/-- A free token is taken, of which nobody who waits is deprived. -/
theorem InOrder.take (h : p.InOrder called) (hfree : 0 < p.free) (id : ι) :
    ({ p with free := p.free - 1, held := p.held ++ [id] } : TokenPool ι).InOrder (called ++ [id]) := by
  have hnone := h.waiting_eq_nil hfree
  refine ⟨h.full, h.needy, h.first, fun hne => absurd hnone hne,
    List.sublist_append_of_sublist_left h.line_sublist, ?_, ?_⟩
  · intro holder hh
    exact (List.mem_append.1 hh).elim (fun hh => List.mem_append_left _ (h.held_called holder hh))
      (List.mem_append_right _)
  · intro _ _ w hw
    simp only [hnone, List.not_mem_nil] at hw

/-- A request that cannot be met goes to the end of the line. -/
theorem InOrder.queue (h : p.InOrder called) (hfree : p.free < n) (id : ι) :
    ({ p with free := 0, waiting := p.waiting ++ [⟨id, n - p.free, p.free⟩] } : TokenPool ι).InOrder
      (called ++ [id]) where
  full := h.full
  needy w hw := by
    rcases List.mem_append.1 hw with hw | hw
    · exact h.needy w hw
    · obtain rfl := List.mem_singleton.1 hw
      exact Nat.sub_pos_of_lt hfree
  first w hw := by
    cases hp : p.waiting with
    | nil =>
      simp only [hp, List.nil_append, List.tail_cons, List.not_mem_nil] at hw
    | cons w' ws =>
      have hzero := h.short (hp ▸ List.cons_ne_nil w' ws)
      have hfirst := h.first
      rw [hp] at hw hfirst
      rcases List.mem_append.1 hw with hw | hw
      · exact hfirst w hw
      · rw [List.mem_singleton.1 hw]
        exact hzero
  short _ := rfl
  line_sublist := by
    have hline := h.line_sublist
    rw [map_fst_line] at hline ⊢
    rw [List.map_append, ← List.append_assoc]
    exact hline.append (.refl _)
  held_called holder hh := List.mem_append_left _ (h.held_called holder hh)
  ahead holder hh w hw := by
    rcases List.mem_append.1 hw with hw | hw
    · exact List.sublist_append_of_sublist_left (h.ahead holder hh w hw)
    · rw [List.mem_singleton.1 hw]
      exact pair_sublist_append (h.held_called holder hh) List.mem_cons_self

theorem line_queue (p : TokenPool ι) (hfree : p.free < n) (id : ι) :
    ({ p with free := 0, waiting := p.waiting ++ [⟨id, n - p.free, p.free⟩] } : TokenPool ι).line =
      p.line ++ [(id, n)] := by
  simp only [line, ← List.append_assoc, List.map_append, List.map_cons, List.map_nil]
  congr 3
  omega

theorem Balanced.queue (h : p.Balanced k) (n : Nat) (id : ι) :
    ({ p with free := 0, waiting := p.waiting ++ [⟨id, n - p.free, p.free⟩] } :
      TokenPool ι).Balanced k := by
  simp only [Balanced, gotBy_append, gotBy_cons, gotBy_nil] at h ⊢
  omega

/-- Free tokens that are taken out for a moment. -/
theorem InOrder.spend (h : p.InOrder called) (n : Nat) :
    ({ p with free := p.free - n } : TokenPool ι).InOrder called :=
  ⟨h.full, h.needy, h.first, fun hne => (congrArg (· - n) (h.short hne)).trans (Nat.zero_sub n),
    h.line_sublist, h.held_called, h.ahead⟩

theorem Balanced.spend (h : p.Balanced k) (hn : n ≤ p.free) :
    ({ p with free := p.free - n } : TokenPool ι).Balanced (n + k) := by
  simp only [Balanced] at h ⊢
  omega

/-! ## Requests that leave the line -/

theorem gotBy_le_of_mem {ws : List (Waiter ι)} {w : Waiter ι} (h : w ∈ ws) : w.got ≤ gotBy ws := by
  induction ws with
  | nil => cases h
  | cons w' ws ih =>
    rw [gotBy_cons]
    rcases List.mem_cons.1 h with rfl | h
    · exact Nat.le_add_right _ _
    · exact Nat.le_trans (ih h) (Nat.le_add_left _ _)

theorem gotBy_eq_zero {ws : List (Waiter ι)} (h : ∀ w ∈ ws, w.got = 0) : gotBy ws = 0 := by
  induction ws with
  | nil => rfl
  | cons w ws ih =>
    obtain ⟨hw, hws⟩ := List.forall_mem_cons.1 h
    rw [gotBy_cons, hw, ih hws]

variable [DecidableEq ι]

/-- The pool without a request of `id`, and without what that has got. -/
def without (p : TokenPool ι) (id : ι) : TokenPool ι :=
  { p with
    served := p.served.filter (·.id ≠ id)
    waiting := p.waiting.filter (·.id ≠ id) }

theorem line_without (p : TokenPool ι) (id : ι) :
    (p.without id).line = p.line.filter (·.1 ≠ id) := by
  simp only [line, without, ← List.filter_append, List.filter_map]
  rfl

theorem InOrder.without (h : p.InOrder called) (id : ι) : (p.without id).InOrder called where
  full w hw := h.full w (List.mem_filter.1 hw).1
  needy w hw := h.needy w (List.mem_filter.1 hw).1
  first w hw := h.first w (List.filter_sublist.tail.subset hw)
  short hne := h.short fun hnil => hne (by rw [TokenPool.without, hnil, List.filter_nil])
  line_sublist := by
    rw [line_without]
    exact (List.filter_sublist.map Prod.fst).trans h.line_sublist
  held_called := h.held_called
  ahead holder hh w hw := h.ahead holder hh w (List.mem_filter.1 hw).1

theorem gotBy_filter {ws : List (Waiter ι)} (hd : (ws.map Waiter.id).Nodup) {w : Waiter ι}
    (h : w ∈ ws) : gotBy (ws.filter (·.id ≠ w.id)) + w.got = gotBy ws := by
  induction ws with
  | nil => cases h
  | cons w' ws ih =>
    rw [List.map_cons, List.nodup_cons] at hd
    rw [gotBy_cons]
    rcases List.mem_cons.1 h with rfl | h
    · have hrest : ws.filter (·.id ≠ w.id) = ws := by
        refine List.filter_eq_self.2 fun w' hw' => ?_
        have hne : w'.id ≠ w.id := fun heq => hd.1 (heq ▸ List.mem_map_of_mem hw')
        simpa using hne
      rw [List.filter_cons_of_neg (by simp), hrest, Nat.add_comm]
    · have hne : w'.id ≠ w.id := fun heq => hd.1 (heq ▸ List.mem_map_of_mem h)
      rw [List.filter_cons_of_pos (by simpa using hne), gotBy_cons, Nat.add_assoc, ih hd.2 h]

omit [DecidableEq ι] in
theorem InOrder.nodup (h : p.InOrder called) (hcalled : called.Nodup) :
    ((p.served ++ p.waiting).map Waiter.id).Nodup := by
  rw [List.map_append, ← map_fst_line]
  exact h.line_sublist.nodup hcalled

/-- A request that leaves the line takes with it what it has got. -/
theorem InOrder.balanced_without (h : p.InOrder called) (hcalled : called.Nodup) (hb : p.Balanced k)
    {w : Waiter ι} (hw : w ∈ p.served ∨ w ∈ p.waiting) : (p.without w.id).Balanced (w.got + k) := by
  have hgot := gotBy_filter (h.nodup hcalled) (List.mem_append.2 hw)
  rw [List.filter_append, gotBy_append, gotBy_append] at hgot
  simp only [Balanced, TokenPool.without] at hb ⊢
  omega

/-- The request of an id in line is found. -/
theorem InOrder.waiter?_eq (h : p.InOrder called) (hcalled : called.Nodup) {w : Waiter ι}
    (hw : w ∈ p.served ∨ w ∈ p.waiting) : p.waiter? w.id = some w := by
  have hfind : p.waiter? w.id = (p.served ++ p.waiting).find? (·.id = w.id) := by
    rw [waiter?, List.find?_append]
    cases p.served.find? (·.id = w.id) <;> rfl
  rw [hfind]
  rcases hfound : (p.served ++ p.waiting).find? (·.id = w.id) with _ | w'
  · exact absurd (List.find?_eq_none.1 hfound w (List.mem_append.2 hw)) (by simp)
  · have hid : w'.id = w.id := by simpa using List.find?_some hfound
    rw [hfound, List.inj_on_of_nodup_map (h.nodup hcalled) (List.mem_of_find?_eq_some hfound)
      (List.mem_append.2 hw) hid]

/-- A request that is withdrawn gives back what it has got. -/
theorem InOrder.cancel_eq (h : p.InOrder called) (hcalled : called.Nodup) {w : Waiter ι}
    (hw : w ∈ p.served ∨ w ∈ p.waiting) : p.cancel w.id = (p.without w.id).give w.got := by
  rw [cancel, h.waiter?_eq hcalled hw]
  rfl

/-- A request that is served and learns of it leaves the line. -/
theorem InOrder.filter_served_eq (h : p.InOrder called) (hcalled : called.Nodup) {w : Waiter ι}
    (hw : w ∈ p.served) : { p with served := p.served.filter (·.id ≠ w.id) } = p.without w.id := by
  have hnodup := h.nodup hcalled
  rw [List.map_append, List.nodup_append] at hnodup
  have hrest : p.waiting.filter (·.id ≠ w.id) = p.waiting := by
    refine List.filter_eq_self.2 fun w' hw' => ?_
    have hne := hnodup.2.2 _ (List.mem_map_of_mem hw) _ (List.mem_map_of_mem hw')
    simpa using hne.symm
  rw [TokenPool.without, hrest]

omit [DecidableEq ι] in
/-- Who is served called before everybody who waits. -/
theorem InOrder.served_ahead (h : p.InOrder called) {w w' : Waiter ι} (hw : w ∈ p.served)
    (hw' : w' ∈ p.waiting) : [w.id, w'.id].Sublist called := by
  refine (pair_sublist_append (List.mem_map_of_mem hw) (List.mem_map_of_mem hw')).trans ?_
  rw [← map_fst_line]
  exact h.line_sublist

/-- Who is served and learns of it holds a token. -/
theorem InOrder.hold (h : p.InOrder called) {w : Waiter ι} (hw : w ∈ p.served) :
    ((p.without w.id).hold w.id).InOrder called := by
  have hrest := h.without w.id
  refine ⟨hrest.full, hrest.needy, hrest.first, hrest.short, hrest.line_sublist, ?_, ?_⟩
  · intro holder hh
    rcases List.mem_append.1 hh with hh | hh
    · exact h.held_called holder hh
    · rw [List.mem_singleton.1 hh]
      refine h.line_sublist.subset ?_
      rw [map_fst_line]
      exact List.mem_append_left _ (List.mem_map_of_mem hw)
  · intro holder hh w' hw'
    rcases List.mem_append.1 hh with hh | hh
    · exact h.ahead holder hh w' (List.mem_filter.1 hw').1
    · rw [List.mem_singleton.1 hh]
      exact h.served_ahead hw (List.mem_filter.1 hw').1

/-- A token that is put back goes to the front of the line. -/
theorem InOrder.erase (h : p.InOrder called) (id : ι) :
    ({ p with held := p.held.erase id } : TokenPool ι).InOrder called :=
  ⟨h.full, h.needy, h.first, h.short, h.line_sublist,
    fun holder hh => h.held_called holder (List.mem_of_mem_erase hh),
    fun holder hh => h.ahead holder (List.mem_of_mem_erase hh)⟩

/-! ## A request for all tokens -/

omit [DecidableEq ι] in
/-- Who has got all tokens is alone with them: nobody holds one, and nobody else has got one. -/
theorem Balanced.all_got {w : Waiter ι} (hb : p.Balanced 0) (hw : w ∈ p.served)
    (hall : w.got = p.capacity) : p.held = [] ∧ gotBy p.served = w.got ∧ gotBy p.waiting = 0 := by
  have hle := gotBy_le_of_mem hw
  rw [Balanced] at hb
  exact ⟨List.eq_nil_of_length_eq_zero (by omega), by omega, by omega⟩

/-- When a request for all tokens is served, nobody else is who asks for any. -/
theorem InOrder.eq_served (h : p.InOrder called) (hcalled : called.Nodup) (hb : p.Balanced 0)
    {w w' : Waiter ι} (hw : w ∈ p.served) (hall : w.got = p.capacity) (hw' : w' ∈ p.served)
    (hpos : 0 < w'.missing + w'.got) : w'.id = w.id := by
  by_contra hne
  have hnodup := h.nodup hcalled
  rw [List.map_append, List.nodup_append] at hnodup
  have hgot := gotBy_filter hnodup.1 hw
  have hle := gotBy_le_of_mem (List.mem_filter.2 ⟨hw', by simpa using hne⟩ :
    w' ∈ p.served.filter (·.id ≠ w.id))
  have hfull := h.full w' hw'
  have hsum := (hb.all_got hw hall).2.1
  omega

omit [DecidableEq ι] in
/-- A request for all tokens before which nobody has any is served. -/
theorem InOrder.served_of_first (h : p.InOrder called) (hb : p.Balanced 0) (hheld : p.held = [])
    {w : Waiter ι} (hall : w.missing + w.got = p.capacity) (hserved : p.served = [])
    {later : List (Waiter ι)} (hwaiting : p.waiting = w :: later) : False := by
  have hneedy := h.needy w (by simp [hwaiting])
  have hfree := h.short (by simp [hwaiting])
  have hlater : gotBy later = 0 := gotBy_eq_zero fun w' hw' => h.first w' (by simpa [hwaiting] using hw')
  rw [Balanced, hfree, hheld, hserved, hwaiting, gotBy_cons, hlater] at hb
  simp only [List.length_nil, gotBy_nil] at hb
  omega

end TokenPool

end ConsumerGroup
