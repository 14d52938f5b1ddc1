import Mathlib.Algebra.Order.Floor.Div
import Mathlib.Data.Nat.Log
import MethodTrace.Proofs.StackAsList

/-! # The room of a stack

A slot is taken up only by a frame that no slot is left for, so that the slots of a stack are as many as the most frames
that were live at one time. The room for slots begins with what is asked for and doubles when it is all used, and so it
is told by that peak alone. -/

namespace MethodTrace

/-! ### Doubling -/

/-- How often room for `start` things, at least one, has to double until there is room for `needed` of them. -/
def doublings (start needed : Nat) : Nat := Nat.clog 2 (needed ⌈/⌉ start)

section
variable {start needed more k : Nat}

theorem doublings_le_iff (hstart : 0 < start) : doublings start needed ≤ k ↔ needed ≤ start * 2 ^ k := by
  rw [doublings, Nat.clog_le_iff_le_pow (by decide), ceilDiv_le_iff_le_mul hstart]

theorem doublings_isLeast (hstart : 0 < start) : IsLeast {k | needed ≤ start * 2 ^ k} (doublings start needed) :=
  ⟨(doublings_le_iff hstart).mp (Nat.le_refl _), fun _ hk => (doublings_le_iff hstart).mpr hk⟩

theorem doublings_of_le (hstart : 0 < start) (h : needed ≤ start) : doublings start needed = 0 := by
  rwa [← Nat.le_zero, doublings_le_iff hstart, Nat.pow_zero, Nat.mul_one]

theorem doublings_le_clog (hstart : 0 < start) : doublings start needed ≤ Nat.clog 2 needed := by
  rw [doublings_le_iff hstart]
  exact (Nat.le_pow_clog (by decide) needed).trans (Nat.le_mul_of_pos_left _ hstart)

theorem doublings_of_room (hstart : 0 < start) (hroom : needed < start * 2 ^ doublings start needed) :
    doublings start (needed + 1) = doublings start needed := by
  refine Nat.le_antisymm ((doublings_le_iff hstart).mpr hroom) ?_
  rw [doublings_le_iff hstart]
  exact (Nat.le_succ needed).trans ((doublings_le_iff hstart).mp (Nat.le_refl _))

theorem doublings_of_full (hstart : 0 < start) (hfull : needed = start * 2 ^ doublings start needed) :
    doublings start (needed + 1) = doublings start needed + 1 := by
  have hpos : 0 < start * 2 ^ doublings start needed := Nat.mul_pos hstart (Nat.two_pow_pos _)
  refine Nat.le_antisymm ?_ (Nat.lt_of_not_le fun hle => ?_)
  · rw [doublings_le_iff hstart, Nat.pow_succ, ← Nat.mul_assoc]
    omega
  · have hroom := (doublings_le_iff hstart).mp hle
    omega

end

namespace CallStack

/-! ### Along a run -/

/-- How many frames are live, the root counted. -/
def liveCount (s : CallStack) : Nat := s.depth + s.rooted.toNat

/-- The most frames that are live at one time while some things are done to a stack, before the first and after the last
of them too. -/
def IsPeak (s : CallStack) (actions : List StackAction) (peak : Nat) : Prop :=
  IsGreatest ((fun past => (s.actAll past).1.liveCount) '' {past | past <+: actions}) peak

/-- How often a stack gets new room while some things are done to it. -/
def growths (s : CallStack) : List StackAction → Nat
  | [] => 0
  | action :: rest => (s.act action).1.growths rest + if (s.act action).1.capacity = s.capacity then 0 else 1

section
variable {rooted : Bool} {calls : List OpenCall} {s : CallStack}

theorem actAll_append (s : CallStack) (past more : List StackAction) :
    (s.actAll (past ++ more)).1 = ((s.actAll past).1.actAll more).1 := by
  induction past generalizing s with
  | nil => rfl
  | cons action past ih => exact ih _

theorem growths_concat (s : CallStack) (past : List StackAction) (action : StackAction) :
    s.growths (past ++ [action]) = s.growths past +
      if (s.actAll (past ++ [action])).1.capacity = (s.actAll past).1.capacity then 0 else 1 := by
  induction past generalizing s with
  | nil => simp [growths, actAll]
  | cons first past ih =>
    rw [List.cons_append, growths, growths, ih, Nat.add_right_comm]
    rfl

theorem isPeak_nil (s : CallStack) : IsPeak s [] s.liveCount := by
  refine ⟨⟨[], List.prefix_refl _, rfl⟩, ?_⟩
  rintro _ ⟨past, hpast, rfl⟩
  rw [List.prefix_nil.mp hpast]
  rfl

theorem IsPeak.concat {actions : List StackAction} {peak : Nat} (h : IsPeak s actions peak) (action : StackAction) :
    IsPeak s (actions ++ [action]) (max peak (s.actAll (actions ++ [action])).1.liveCount) := by
  obtain ⟨⟨most, hmost, hcount⟩, hupper⟩ := h
  constructor
  · rcases Nat.le_total peak (s.actAll (actions ++ [action])).1.liveCount with hle | hle
    · exact ⟨_, List.prefix_refl _, (Nat.max_eq_right hle).symm⟩
    · exact ⟨most, hmost.trans (List.prefix_append _ _), hcount.trans (Nat.max_eq_left hle).symm⟩
  · rintro _ ⟨past, hpast, rfl⟩
    rcases List.prefix_concat_iff.mp hpast with rfl | hpast
    · exact Nat.le_max_right _ _
    · exact (hupper ⟨past, hpast, rfl⟩).trans (Nat.le_max_left _ _)

/-! ### Slots and room -/

theorem Represents.liveCount_eq (h : Represents rooted calls s) : s.liveCount = s.nextSlot := by
  rw [liveCount, CallStack.depth_eq h.sound, h.calls_eq, h.rooted_eq, h.nextSlot_eq]

theorem seedRoot_size (s : CallStack) : s.seedRoot.slots.size = max 1 s.slots.size := by
  unfold seedRoot
  cases hempty : s.slots.isEmpty with
  | true =>
    rw [Array.isEmpty_iff] at hempty
    simp [hempty]
  | false =>
    have hpos : 0 < s.slots.size := by simpa [Array.size_pos_iff] using hempty
    simp only [Bool.false_eq_true, if_false, Array.size_setIfInBounds]
    omega

theorem reset_slots (s : CallStack) (hroot : s.rooted = true → 0 < s.slots.size) :
    s.reset.slots.size = s.slots.size ∧ s.reset.capacity = s.capacity := by
  unfold reset
  split
  next hr =>
    refine ⟨?_, rfl⟩
    rw [seedRoot_size]
    exact Nat.max_eq_right (hroot hr)
  next => exact ⟨rfl, rfl⟩

theorem pop_capacity (s : CallStack) : s.pop.1.capacity = s.capacity := by
  unfold pop
  split
  · split <;> rfl
  · rfl

/-- The slots and the room of a stack that began with room for `start` frames and on which at most `peak` frames were live
at one time. -/
structure Grown (start peak : Nat) (s : CallStack) : Prop where
  size_eq : s.slots.size = peak
  capacity_eq : s.capacity = start * 2 ^ doublings start peak

namespace Grown
variable {start peak : Nat} {t : CallStack}

theorem fresh (rooted : Bool) (requested : Nat) :
    Grown (max 1 requested) rooted.toNat (if rooted then withRoot requested else empty requested) := by
  have hnone : doublings (max 1 requested) rooted.toNat = 0 :=
    doublings_of_le (by omega) ((Bool.toNat_le rooted).trans (Nat.le_max_left 1 requested))
  constructor
  · cases rooted <;> rfl
  · rw [hnone, Nat.pow_zero, Nat.mul_one]
    cases rooted <;> rfl

theorem room_le (h : Grown start peak s) (hstart : 0 < start) : peak ≤ s.capacity := by
  rw [h.capacity_eq]
  exact (doublings_le_iff hstart).mp (Nat.le_refl _)

/-- A step after which no more frames are live than at the peak, in the slots and the room that there were. -/
theorem keeps (h : Grown start peak s) (hslots : t.slots.size = s.slots.size) (hcapacity : t.capacity = s.capacity)
    (hlive : t.liveCount ≤ peak) :
    Grown start (max peak t.liveCount) t ∧
      doublings start (max peak t.liveCount) = doublings start peak + if t.capacity = s.capacity then 0 else 1 := by
  rw [Nat.max_eq_left hlive, if_pos hcapacity]
  exact ⟨⟨hslots.trans h.size_eq, hcapacity.trans h.capacity_eq⟩, rfl⟩

/-- A new slot, for which the room is doubled if all of it is used. -/
theorem push_grow (h : Grown start peak s) (hstart : 0 < start) (hslot : ¬s.nextSlot < s.slots.size) (event : Event)
    (hidden : Bool) :
    Grown start (peak + 1) (s.push event hidden).1 ∧
      doublings start (peak + 1) =
        doublings start peak + if (s.push event hidden).1.capacity = s.capacity then 0 else 1 := by
  have hsize : (s.push event hidden).1.slots.size = peak + 1 := by
    rw [CallStack.push_grow hslot, Array.size_push, h.size_eq]
  have hcapacity : (s.push event hidden).1.capacity = s.grownCapacity := by rw [CallStack.push_grow hslot]
  have hroom := h.room_le hstart
  have heq := h.capacity_eq
  by_cases hfull : peak < s.capacity
  · have hsame : s.grownCapacity = s.capacity := if_pos (by rwa [h.size_eq])
    have hdoublings := doublings_of_room hstart (heq ▸ hfull)
    rw [hcapacity, hsame, if_pos rfl]
    exact ⟨⟨hsize, by rw [hcapacity, hsame, heq, hdoublings]⟩, hdoublings⟩
  · have hdoubled : s.grownCapacity = s.capacity + max 1 s.capacity := if_neg (by rwa [h.size_eq])
    have hdoublings := doublings_of_full hstart (heq ▸ Nat.le_antisymm hroom (Nat.le_of_not_lt hfull))
    have hpos : 0 < s.capacity := heq ▸ Nat.mul_pos hstart (Nat.two_pow_pos _)
    have hnew : s.grownCapacity ≠ s.capacity := by omega
    rw [hcapacity, if_neg hnew]
    refine ⟨⟨hsize, ?_⟩, hdoublings⟩
    rw [hcapacity, hdoubled, hdoublings, Nat.pow_succ, ← Nat.mul_assoc, ← heq]
    omega

theorem act (h : Grown start peak s) (hs : Represents rooted calls s) (hstart : 0 < start) (action : StackAction) :
    let t := (s.act action).1
    Grown start (max peak t.liveCount) t ∧
      doublings start (max peak t.liveCount) = doublings start peak + if t.capacity = s.capacity then 0 else 1 := by
  intro t
  have ht : Represents rooted (listed rooted calls action).1 t := (hs.act action).2
  have hcount := ht.liveCount_eq
  have hwithin := hs.sound.within
  cases action with
  | push event hidden =>
    have hnext : t.nextSlot = s.nextSlot + 1 := nextSlot_push event hidden
    by_cases hslot : s.nextSlot < s.slots.size
    · have hreused : t = (s.push event hidden).1 := rfl
      rw [push_reuse hslot] at hreused
      refine h.keeps ?_ ?_ ?_
      · rw [hreused, Array.size_setIfInBounds]
      · rw [hreused]
      · rw [hcount, hnext, ← h.size_eq]
        exact hslot
    · have hpeak : max peak t.liveCount = peak + 1 := by
        rw [hcount, hnext, ← h.size_eq]
        omega
      rw [hpeak]
      exact h.push_grow hstart hslot event hidden
  | pop =>
    refine h.keeps (congrArg Array.size (pop_slots s).1) (pop_capacity s) ?_
    rw [hcount, ← h.size_eq]
    exact (nextSlot_pop_le s).trans hwithin
  | reset =>
    have hroot : s.rooted = true → 0 < s.slots.size := by
      intro hr
      rw [hs.nextSlot_eq, ← hs.rooted_eq, hr] at hwithin
      exact Nat.lt_of_lt_of_le (Nat.succ_pos _) hwithin
    obtain ⟨hslots, hcapacity⟩ := reset_slots s hroot
    refine h.keeps hslots hcapacity ?_
    rw [hcount, ← h.size_eq, ← hslots]
    exact (reset_sound s).within

theorem actAll (h : Grown start s.liveCount s) (hs : Represents rooted calls s) (hstart : 0 < start)
    (actions : List StackAction) :
    ∃ peak, IsPeak s actions peak ∧ Grown start peak (s.actAll actions).1 ∧
      doublings start peak = doublings start s.liveCount + s.growths actions := by
  induction actions using List.reverseRecOn with
  | nil => exact ⟨_, isPeak_nil s, h, rfl⟩
  | append_singleton past action ih =>
    obtain ⟨peak, hpeak, hgrown, hcount⟩ := ih
    have hlast : (s.actAll (past ++ [action])).1 = ((s.actAll past).1.act action).1 := actAll_append s past [action]
    obtain ⟨hnext, hdoublings⟩ := hgrown.act (hs.actAll past).2 hstart action
    refine ⟨_, hpeak.concat action, ?_, ?_⟩
    · rw [hlast]
      exact hnext
    · rw [growths_concat, ← Nat.add_assoc, ← hcount, hlast]
      exact hdoublings

end Grown

theorem capacity_le_act (s : CallStack) (action : StackAction) : s.capacity ≤ (s.act action).1.capacity := by
  cases action with
  | push event hidden =>
    show s.capacity ≤ (s.push event hidden).1.capacity
    by_cases hslot : s.nextSlot < s.slots.size
    · rw [push_reuse hslot]
    · rw [push_grow hslot]
      unfold grownCapacity
      split <;> simp
  | pop => exact (pop_capacity s).ge
  | reset =>
    show s.capacity ≤ s.reset.capacity
    unfold CallStack.reset
    split <;> exact Nat.le_refl _

theorem capacity_le_actAll (s : CallStack) (actions : List StackAction) : s.capacity ≤ (s.actAll actions).1.capacity := by
  induction actions generalizing s with
  | nil => exact Nat.le_refl _
  | cons action rest ih => exact (capacity_le_act s action).trans (ih _)

/-- However much room is asked for and whatever is done to a stack: its slots are as many as the most frames that were
live at one time, and its room is what was asked for, at least one, doubled as often as it takes for that many. The room
never shrinks, it was new as often as it was doubled, which is no more often than the logarithm of the peak says, and a
push below the peak needs neither a slot nor room. -/
theorem grows_with_peak (rooted : Bool) (requested : Nat) (actions : List StackAction) :
    let s := if rooted then withRoot requested else empty requested
    let t := (s.actAll actions).1
    ∃ peak k, IsPeak s actions peak ∧ t.slots.size = peak ∧
      IsLeast {k | peak ≤ max 1 requested * 2 ^ k} k ∧ t.capacity = max 1 requested * 2 ^ k ∧
      (∀ past more, actions = past ++ more → (s.actAll past).1.capacity ≤ t.capacity) ∧
      s.growths actions = k ∧ k ≤ Nat.clog 2 peak ∧
      ∀ event hidden, t.liveCount < peak →
        (t.push event hidden).1.capacity = t.capacity ∧ (t.push event hidden).1.slots.size = t.slots.size := by
  intro s t
  have hstart : 0 < max 1 requested := by omega
  have hfresh : Represents rooted [] s := .fresh rooted requested
  have hcount : s.liveCount = rooted.toNat := by
    rw [hfresh.liveCount_eq, hfresh.nextSlot_eq, List.length_nil, Nat.zero_add]
  have hbegin : Grown (max 1 requested) s.liveCount s := hcount ▸ Grown.fresh rooted requested
  have hroom : s.liveCount ≤ max 1 requested := hcount ▸ (Bool.toNat_le rooted).trans (Nat.le_max_left 1 requested)
  obtain ⟨peak, hpeak, hgrown, hgrowths⟩ := hbegin.actAll hfresh hstart actions
  rw [doublings_of_le hstart hroom, Nat.zero_add] at hgrowths
  refine ⟨peak, doublings (max 1 requested) peak, hpeak, hgrown.size_eq, doublings_isLeast hstart, hgrown.capacity_eq,
    ?_, hgrowths.symm, doublings_le_clog hstart, fun event hidden hbelow => ?_⟩
  · rintro past more rfl
    rw [show t = _ from actAll_append s past more]
    exact capacity_le_actAll _ _
  · have hslot : t.nextSlot < t.slots.size := by
      rwa [hgrown.size_eq, ← (hfresh.actAll actions).2.liveCount_eq]
    rw [push_reuse hslot, Array.size_setIfInBounds]
    exact ⟨rfl, rfl⟩

/-- Three calls on a root need twice the room for two frames. When two of them have returned, the next call needs no
more. -/
theorem room_kept_after_returns :
    let push : StackAction := .push .root false
    let t := ((withRoot 2).actAll [push, push, push, .pop, .pop]).1
    t.liveCount = 2 ∧ t.slots.size = 4 ∧ t.capacity = 4 ∧ (t.push .root false).1.capacity = 4 := by
  intro push t
  have ht : ((withRoot 2).actAll [push, push, push, .pop, .pop]).1 = t := rfl
  obtain ⟨peak, k, -, hsize, -, -, -, -, -, hbelow⟩ := grows_with_peak true 2 [push, push, push, .pop, .pop]
  rw [if_pos rfl, ht] at hsize hbelow
  have hslots : t.slots.size = 4 := by decide
  have hpeak : peak = 4 := hsize.symm.trans hslots
  have hlive : t.liveCount = 2 := by decide
  have hcapacity : t.capacity = 4 := by decide
  have hpush : t.liveCount < peak := by
    rw [hlive, hpeak]
    decide
  exact ⟨hlive, hslots, hcapacity, (hbelow .root false hpush).1.trans hcapacity⟩

end
end CallStack
end MethodTrace
