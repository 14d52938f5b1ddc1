import MethodTrace.Proofs.LiveFrames

/-! # A stack as a plain list of calls

A stack stands for the list of its open calls (`Represents`). What is done to it is done to the list: push puts a call
in front, pop takes the first one away, reset leaves none. What can be seen of it is read off the list (`Shows`), so
that what popped slots hold is never seen (`SameLive`). Every frame, popped or not, lies where its link says
(`InPlace`). -/

namespace MethodTrace

/-- Something done to a stack. -/
inductive StackAction where
  | push (event : Event) (hidden : Bool)
  | pop
  | reset

inductive StackAnswer where
  | slot (slot : Nat)
  | popped (result : Except StackError Frame)
  | done

namespace CallStack

def act (s : CallStack) : StackAction → CallStack × StackAnswer
  | .push event hidden => (s.push event hidden).map id .slot
  | .pop => s.pop.map id .popped
  | .reset => (s.reset, .done)

/-- Do one thing after the other. Returns the answers. -/
def actAll (s : CallStack) : List StackAction → CallStack × List StackAnswer
  | [] => (s, [])
  | action :: rest => ((s.act action).1.actAll rest).map id ((s.act action).2 :: ·)

/-! ### The list -/

/-- What is done to a stack, done to a list of calls. -/
def listed (rooted : Bool) (calls : List OpenCall) : StackAction → List OpenCall × StackAnswer
  | .push event hidden => (⟨event, hidden⟩ :: calls, .slot (calls.length + rooted.toNat))
  | .pop =>
    match calls with
    | [] => ([], .popped (if rooted then .ok .root else .error .underflow))
    | call :: below => (below, .popped (.ok (frameOf call (topOf (framesOf rooted below)))))
  | .reset => ([], .done)

def listedAll (rooted : Bool) (calls : List OpenCall) : List StackAction → List OpenCall × List StackAnswer
  | [] => (calls, [])
  | action :: rest =>
    (listedAll rooted (listed rooted calls action).1 rest).map id ((listed rooted calls action).2 :: ·)

/-- A stack that stands for a list of calls. -/
structure Represents (rooted : Bool) (calls : List OpenCall) (s : CallStack) : Prop where
  sound : s.Sound
  rooted_eq : s.rooted = rooted
  calls_eq : s.calls = calls

/-- All that can be seen of a stack, read off a list of calls. A slot is counted from the bottom. -/
structure Shows (rooted : Bool) (calls : List OpenCall) (s : CallStack) : Prop where
  rooted_eq : s.rooted = rooted
  depth_eq : s.depth = calls.length
  top_eq : s.top = topOf (framesOf rooted calls)
  peek_eq : s.peek = (framesOf rooted calls).head?
  live : ∀ above f below, framesOf rooted calls = above ++ f :: below →
    s.frame below.length = .ok f ∧ s.below below.length = .ok below.head? ∧
      s.visibleCaller below.length = .ok (below.find? visible)
  notLive : ∀ slot, (framesOf rooted calls).length ≤ slot →
    s.frame slot = .error (.notLive slot) ∧ s.below slot = .error (.notLive slot) ∧
      s.visibleCaller slot = .error (.notLive slot)

/-- Where the frames of a stack lie, popped ones too. Every live slot is there, and the next one or room to append it. -/
structure InPlace (s : CallStack) : Prop where
  within : s.nextSlot ≤ s.slots.size
  root : s.rooted = true → s.slots[0]? = some .root
  isRoot_iff : ∀ slot f, s.slots[slot]? = some f → (f.isRoot = true ↔ s.rooted = true ∧ slot = 0)
  caller_eq : ∀ slot f, s.slots[slot]? = some f → f.caller = if slot = 0 then none else some (slot - 1)

/-- Two stacks that differ at most in popped slots and in the room that they have. -/
structure SameLive (s t : CallStack) : Prop where
  rooted_eq : t.rooted = s.rooted
  top_eq : t.top = s.top
  slots_eq : ∀ slot, s.isLive slot = true → t.slots[slot]? = s.slots[slot]?

section
variable {rooted : Bool} {calls : List OpenCall} {s t : CallStack}

theorem isLive_iff {slot : Nat} : s.isLive slot = true ↔ slot < s.nextSlot := by
  unfold isLive nextSlot
  cases s.top with
  | none => simp
  | some top => exact decide_eq_true_iff.trans Nat.lt_succ_iff.symm

/-! ### Popping -/

theorem pop_of_live {f : Frame} {below : List Frame} (hw : s.nextSlot ≤ s.slots.size) (hlive : s.live = f :: below) :
    s.pop.2 = .ok f ∧ (f.isRoot = true → s.pop.1 = s) := by
  have htop := top_eq hw
  have hpeek := peek_eq hw
  rw [hlive] at htop hpeek
  simp only [pop, htop, topOf, hpeek, List.head?_cons]
  cases hf : f.isRoot <;> simp

theorem pop_of_none (hw : s.nextSlot ≤ s.slots.size) (hlive : s.live = []) : s.pop = (s, .error .underflow) := by
  have htop := top_eq hw
  rw [hlive] at htop
  simp [pop, htop, topOf]

/-- Calls are popped one after the other, and what is below them stays. -/
theorem pop_calls {frames below : List Frame} (h : s.Sound) (hlive : s.live = frames ++ below)
    (hcalls : ∀ f ∈ frames, f.isRoot = false) :
    (s.actAll (frames.map fun _ => .pop)).2 = frames.map (fun f => .popped (.ok f)) ∧
      (s.actAll (frames.map fun _ => .pop)).1.live = below := by
  induction frames generalizing s with
  | nil => exact ⟨rfl, hlive⟩
  | cons f rest ih =>
    obtain ⟨hf, hrest⟩ := List.forall_mem_cons.mp hcalls
    have hafter : s.pop.1.live = rest ++ below := by simp [live_pop h.within, hlive, hf]
    obtain ⟨hanswers, hlast⟩ := ih h.pop hafter hrest
    exact ⟨congr (congrArg List.cons (congrArg StackAnswer.popped (pop_of_live h.within hlive).1)) hanswers, hlast⟩

namespace Represents

theorem live_eq (h : Represents rooted calls s) : s.live = framesOf rooted calls := by
  have hlinked := h.sound.linked.eq_framesOf
  rwa [h.rooted_eq, ← CallStack.calls, h.calls_eq] at hlinked

theorem length_framesOf (h : Represents rooted calls s) : (framesOf rooted calls).length = s.nextSlot := by
  rw [← h.live_eq, length_live h.sound.within]

theorem nextSlot_eq (h : Represents rooted calls s) : s.nextSlot = calls.length + rooted.toNat := by
  have hlength := h.sound.linked.length_eq
  rwa [length_live h.sound.within, h.rooted_eq, ← CallStack.calls, h.calls_eq] at hlength

theorem fresh (rooted : Bool) (capacity : Nat) :
    Represents rooted [] (if rooted then withRoot capacity else empty capacity) := by
  cases rooted with
  | false => exact ⟨⟨Nat.zero_le _, .empty⟩, rfl, rfl⟩
  | true =>
    refine ⟨.withRoot capacity, rfl, ?_⟩
    simp [calls, withRoot, (seedRoot_sound (s := { empty capacity with rooted := true }) rfl).2, callsOf, Frame.root]

/-- Where no call is open, nothing is popped. -/
theorem pop_of_nil (h : Represents rooted [] s) :
    s.pop = (s, if rooted then .ok .root else .error .underflow) := by
  have hlive := h.live_eq
  cases rooted with
  | false => exact pop_of_none h.sound.within hlive
  | true =>
    obtain ⟨hpopped, hsame⟩ := pop_of_live h.sound.within hlive
    exact Prod.ext (hsame rfl) hpopped

/-- What is done to a stack is done to its list of calls. -/
theorem act (h : Represents rooted calls s) (action : StackAction) :
    (s.act action).2 = (listed rooted calls action).2 ∧
      Represents rooted (listed rooted calls action).1 (s.act action).1 := by
  cases action with
  | push event hidden =>
    refine ⟨?_, h.sound.push event hidden, ?_, ?_⟩
    · exact congrArg StackAnswer.slot ((push_snd event hidden).trans h.nextSlot_eq)
    · exact (push_rooted event hidden).trans h.rooted_eq
    · exact (calls_push h.sound event hidden).trans (by rw [h.calls_eq, listed])
  | pop =>
    cases calls with
    | nil =>
      have heq : s.act .pop = (s, .popped (if rooted then .ok .root else .error .underflow)) := by
        rw [CallStack.act, h.pop_of_nil]
        rfl
      rw [heq]
      exact ⟨rfl, h⟩
    | cons call below =>
      obtain ⟨hpopped, -⟩ := pop_of_live h.sound.within h.live_eq
      refine ⟨congrArg StackAnswer.popped hpopped, h.sound.pop, (pop_slots s).2.trans h.rooted_eq, ?_⟩
      exact (calls_pop h.sound).trans (by rw [h.calls_eq, listed, List.tail_cons])
  | reset => exact ⟨rfl, reset_sound s, (reset_rooted s).trans h.rooted_eq, calls_reset s⟩

theorem actAll (h : Represents rooted calls s) (actions : List StackAction) :
    (s.actAll actions).2 = (listedAll rooted calls actions).2 ∧
      Represents rooted (listedAll rooted calls actions).1 (s.actAll actions).1 := by
  induction actions generalizing s calls with
  | nil => exact ⟨rfl, h⟩
  | cons action rest ih =>
    obtain ⟨hanswer, hnext⟩ := h.act action
    obtain ⟨hanswers, hlast⟩ := ih hnext
    exact ⟨congr (congrArg List.cons hanswer) hanswers, hlast⟩

theorem shows (h : Represents rooted calls s) : Shows rooted calls s := by
  have hw := h.sound.within
  refine ⟨h.rooted_eq, ?_, ?_, ?_, ?_, ?_⟩
  · rw [CallStack.depth_eq h.sound, h.calls_eq]
  · rw [CallStack.top_eq hw, h.live_eq]
  · rw [CallStack.peek_eq hw, h.live_eq]
  · intro above f below hframes
    have hsuffix : f :: below <:+ s.live := ⟨above, by rw [h.live_eq, hframes]⟩
    refine ⟨?_, below_of_suffix h.sound hsuffix, visibleCaller_of_suffix h.sound hsuffix⟩
    simp [frame, slots_of_suffix hsuffix, isLive_of_suffix hw hsuffix]
  · intro slot hslot
    have hdead : s.isLive slot = false := by
      rw [h.length_framesOf] at hslot
      exact eq_false_of_ne_true fun hlive => Nat.not_le_of_lt (isLive_iff.mp hlive) hslot
    have hframe : s.frame slot = .error (.notLive slot) := by
      unfold frame
      cases s.slots[slot]? <;> simp [hdead]
    exact ⟨hframe, by simp [below, hdead], by simp [visibleCaller, hframe, Except.map]⟩

/-- What popped slots hold is no part of the list. -/
theorem of_sameLive (h : Represents rooted calls s) (k : SameLive s t) : Represents rooted calls t := by
  have hnext : t.nextSlot = s.nextSlot := by rw [nextSlot, k.top_eq, nextSlot]
  have hlive : t.live = s.live := by
    rw [live, live, hnext]
    refine congrArg List.reverse (List.ext_getElem? fun slot => ?_)
    rw [List.getElem?_take, List.getElem?_take]
    split
    next hslot => simpa using k.slots_eq slot (isLive_iff.mpr hslot)
    next => rfl
  have hwithin : t.nextSlot ≤ t.slots.size := by
    have hlength := congrArg List.length hlive
    rw [length_live h.sound.within, live, List.length_reverse, List.length_take, Array.length_toList] at hlength
    omega
  refine ⟨⟨hwithin, ?_⟩, k.rooted_eq.trans h.rooted_eq, ?_⟩
  · rw [hlive, k.rooted_eq]
    exact h.sound.linked
  · rw [CallStack.calls, hlive, ← CallStack.calls, h.calls_eq]

end Represents

/-! ### Where frames lie -/

theorem getElem?_push (hw : s.nextSlot ≤ s.slots.size) (event : Event) (hidden : Bool) (slot : Nat) :
    (s.push event hidden).1.slots[slot]? =
      if slot = s.nextSlot then some (s.opened event hidden) else s.slots[slot]? := by
  by_cases h : s.nextSlot < s.slots.size
  · rw [push_reuse h, Array.getElem?_setIfInBounds]
    simp only [h, if_true, eq_comm]
  · have hsize : s.slots.size = s.nextSlot := Nat.le_antisymm (Nat.le_of_not_lt h) hw
    rw [push_grow h, Array.getElem?_push, hsize]

theorem getElem?_seedRoot (s : CallStack) (slot : Nat) :
    s.seedRoot.slots[slot]? = if slot = 0 then some .root else s.slots[slot]? := by
  unfold seedRoot
  cases hempty : s.slots.isEmpty with
  | true =>
    rw [Array.isEmpty_iff] at hempty
    cases slot <;> simp [hempty]
  | false =>
    have hpos : 0 < s.slots.size := by
      rw [Array.isEmpty_eq_false_iff, ← Array.size_pos_iff] at hempty
      exact hempty
    simp [Array.getElem?_setIfInBounds, hpos, eq_comm]

namespace InPlace

theorem seedRoot (hr : s.rooted = true)
    (isRoot_iff : ∀ slot f, s.slots[slot]? = some f → (f.isRoot = true ↔ s.rooted = true ∧ slot = 0))
    (caller_eq : ∀ slot f, s.slots[slot]? = some f → f.caller = if slot = 0 then none else some (slot - 1)) :
    InPlace s.seedRoot := by
  have hslots := getElem?_seedRoot s
  refine ⟨(seedRoot_sound hr).1.within, fun _ => by simp [hslots], ?_, ?_⟩ <;> intro slot f hf <;> rw [hslots] at hf <;>
    split at hf
  next hzero =>
    cases hf
    simp [Frame.root, CallStack.seedRoot, hr, hzero]
  next => exact isRoot_iff slot f hf
  next hzero =>
    cases hf
    rw [if_pos hzero]
    rfl
  next => exact caller_eq slot f hf

theorem fresh (rooted : Bool) (capacity : Nat) : InPlace (if rooted then withRoot capacity else empty capacity) := by
  have hnone : ∀ slot : Nat, (empty capacity).slots[slot]? = none := by simp [empty]
  cases rooted with
  | false => exact ⟨Nat.zero_le _, nofun, fun slot f hf => by simp [hnone] at hf, fun slot f hf => by simp [hnone] at hf⟩
  | true => exact .seedRoot rfl (fun slot f hf => by simp [hnone] at hf) fun slot f hf => by simp [hnone] at hf

theorem push (h : InPlace s) (hroot : s.rooted = true → s.nextSlot ≠ 0) (event : Event) (hidden : Bool) :
    InPlace (s.push event hidden).1 := by
  have hslots := getElem?_push h.within event hidden
  refine ⟨within_push h.within event hidden, ?_, ?_, ?_⟩
  · intro hr
    rw [push_rooted] at hr
    rw [hslots, if_neg (hroot hr).symm, h.root hr]
  · intro slot f hf
    rw [push_rooted]
    rw [hslots] at hf
    split at hf
    next hslot =>
      cases hf
      simp only [opened, Bool.false_eq_true, false_iff, not_and]
      exact fun hr hzero => hroot hr (hslot.symm.trans hzero)
    next => exact h.isRoot_iff slot f hf
  · intro slot f hf
    rw [hslots] at hf
    split at hf
    next hslot =>
      cases hf
      rw [hslot, opened, nextSlot]
      cases s.top <;> simp
    next => exact h.caller_eq slot f hf

theorem pop (h : InPlace s) : InPlace s.pop.1 := by
  obtain ⟨hslots, hrooted⟩ := pop_slots s
  refine ⟨?_, ?_, ?_, ?_⟩ <;> simp only [hslots, hrooted]
  · exact Nat.le_trans (nextSlot_pop_le s) h.within
  · exact h.root
  · exact h.isRoot_iff
  · exact h.caller_eq

theorem reset (h : InPlace s) : InPlace s.reset := by
  unfold CallStack.reset
  split
  next hr => exact .seedRoot hr h.isRoot_iff h.caller_eq
  next => exact ⟨Nat.zero_le _, h.root, h.isRoot_iff, h.caller_eq⟩

theorem act (h : InPlace s) (hs : Represents rooted calls s) (action : StackAction) : InPlace (s.act action).1 := by
  cases action with
  | push event hidden =>
    refine h.push (fun hr => ?_) event hidden
    rw [hs.nextSlot_eq, ← hs.rooted_eq, hr]
    exact Nat.succ_ne_zero _
  | pop => exact h.pop
  | reset => exact h.reset

theorem actAll (h : InPlace s) (hs : Represents rooted calls s) (actions : List StackAction) :
    InPlace (s.actAll actions).1 := by
  induction actions generalizing s calls with
  | nil => exact h
  | cons action rest ih => exact ih (h.act hs action) (hs.act action).2

/-- The frame below a frame is the one that its link leads to. -/
theorem below_eq (h : InPlace s) {slot : Nat} {f : Frame} (hf : s.frame slot = .ok f) :
    s.below slot = .ok (f.caller.bind (s.slots[·]?)) := by
  unfold frame at hf
  cases hslot : s.slots[slot]? with
  | none => simp [hslot] at hf
  | some g =>
    cases hlive : s.isLive slot with
    | false => simp [hslot, hlive] at hf
    | true =>
      obtain rfl : g = f := by simpa [hslot, hlive] using hf
      rw [below, if_pos hlive, h.caller_eq slot g hslot]
      split <;> rfl

end InPlace

/-! ### Every sequence of operations -/

/-- A stack is the plain list of its open calls, whatever is done to it: its answers are those of the list, and all that
can be seen of it is on the list. Nothing is popped while no call is open. A stack that differs in popped slots cannot be
told apart from it, now or later. -/
theorem refines_list (rooted : Bool) (capacity : Nat) (actions : List StackAction) :
    let s := if rooted then withRoot capacity else empty capacity
    let t := (s.actAll actions).1
    let calls := (listedAll rooted [] actions).1
    (create rooted capacity = .ok s ↔ capacity ≤ maxCapacity) ∧
      (s.actAll actions).2 = (listedAll rooted [] actions).2 ∧ Shows rooted calls t ∧
      (calls = [] → t.pop = (t, if rooted then .ok .root else .error .underflow)) ∧
      InPlace t ∧ (∀ slot f, t.frame slot = .ok f → t.below slot = .ok (f.caller.bind (t.slots[·]?))) ∧
      ∀ u, SameLive t u → ∀ more, (u.actAll more).2 = (t.actAll more).2 ∧
        Shows rooted (listedAll rooted calls more).1 (u.actAll more).1 ∧
        Shows rooted (listedAll rooted calls more).1 (t.actAll more).1 := by
  intro s t calls
  have hfresh : Represents rooted [] s := .fresh rooted capacity
  obtain ⟨hanswers, hlast⟩ := hfresh.actAll actions
  have hplace : InPlace t := InPlace.actAll (.fresh rooted capacity) hfresh actions
  refine ⟨?_, hanswers, hlast.shows, fun hnil => ?_, hplace, fun slot f hf => hplace.below_eq hf, fun u k more => ?_⟩
  · unfold create
    split
    next hlarge => simp [Nat.not_le_of_lt hlarge]
    next hroom => simp [s, Nat.le_of_not_lt hroom]
  · have hlast : Represents rooted [] t := hnil ▸ hlast
    exact hlast.pop_of_nil
  · obtain ⟨hmore, hshown⟩ := hlast.actAll more
    obtain ⟨hother, hshown'⟩ := (hlast.of_sameLive k).actAll more
    exact ⟨hother.trans hmore.symm, hshown'.shows, hshown.shows⟩

end
end CallStack
end MethodTrace
