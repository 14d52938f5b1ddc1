import Mathlib.Data.List.Basic
import MethodTrace.Call.Stack

/-! # The live frames of a stack

A stack is read as the list of its live frames, innermost first; what popped slots hold does not count. In a sound
stack each frame is linked to the one below it, and a stack with a root has it at the bottom and nowhere else. Push,
pop and reset are then the operations of a list, and the frames that a caller is looked for in are the rest of it. -/

namespace MethodTrace

/-- A call that is open, and whether it is hidden. -/
structure OpenCall where
  event : Event
  hidden : Bool

/-- The call that a frame holds. -/
def Frame.openCall (f : Frame) : OpenCall := ⟨f.event, f.hidden⟩

namespace CallStack

/-- The live frames, innermost first. -/
def live (s : CallStack) : List Frame := (s.slots.toList.take s.nextSlot).reverse

/-- The calls among some frames. The root is none. -/
def callsOf (frames : List Frame) : List OpenCall := (frames.filter (!·.isRoot)).map Frame.openCall

/-- The open calls, innermost first. -/
def calls (s : CallStack) : List OpenCall := callsOf s.live

/-- The slot of the innermost of some live frames. -/
def topOf : List Frame → Option Nat
  | [] => none
  | _ :: below => some below.length

/-- Frames that follow each other: each call has the next frame as its caller, and only a root has none below. -/
inductive Linked : Bool → List Frame → Prop
  | empty : Linked false []
  | root : Linked true [.root]
  | call {rooted : Bool} {f : Frame} {below : List Frame} : Linked rooted below → f.caller = topOf below →
      f.isRoot = false → Linked rooted (f :: below)

/-- What holds of every stack that was made empty or with a root. -/
structure Sound (s : CallStack) : Prop where
  within : s.nextSlot ≤ s.slots.size
  linked : Linked s.rooted s.live

/-! ### Slots and live frames -/

section
variable {s : CallStack}

theorem length_live (h : s.nextSlot ≤ s.slots.size) : s.live.length = s.nextSlot := by
  simp only [live, List.length_reverse, List.length_take, Array.length_toList]
  omega

theorem top_eq (h : s.nextSlot ≤ s.slots.size) : s.top = topOf s.live := by
  have hl := length_live h
  unfold nextSlot at hl
  cases htop : s.top with
  | none =>
    rw [htop] at hl
    rw [List.length_eq_zero_iff.mp hl, topOf]
  | some top =>
    rw [htop] at hl
    cases hlive : s.live with
    | nil => simp [hlive] at hl
    | cons f below =>
      rw [hlive] at hl
      rw [topOf, Nat.succ.inj hl]

/-- A live frame lies in the slot that is numbered by the frames below it. -/
theorem slots_of_suffix {f : Frame} {below : List Frame} (h : f :: below <:+ s.live) :
    s.slots[below.length]? = some f := by
  obtain ⟨above, habove⟩ := h
  have htake : s.slots.toList.take s.nextSlot = below.reverse ++ f :: above.reverse := by
    have := congrArg List.reverse habove
    simpa [live] using this.symm
  have hget : (s.slots.toList.take s.nextSlot)[below.length]? = some f := by
    rw [htake, ← List.length_reverse, List.getElem?_append_right (Nat.le_refl _), Nat.sub_self]
    rfl
  rw [List.getElem?_take] at hget
  split at hget
  · simpa using hget
  · cases hget

theorem isLive_of_suffix (hw : s.nextSlot ≤ s.slots.size) {f : Frame} {below : List Frame}
    (h : f :: below <:+ s.live) : s.isLive below.length = true := by
  have hle := h.length_le
  rw [length_live hw, List.length_cons] at hle
  unfold nextSlot at hle
  unfold isLive
  cases htop : s.top with
  | none => simp [htop] at hle
  | some top =>
    rw [htop] at hle
    simpa using Nat.le_of_succ_le_succ hle

theorem peek_eq (hw : s.nextSlot ≤ s.slots.size) : s.peek = s.live.head? := by
  rw [peek, top_eq hw]
  cases hlive : s.live with
  | nil => rfl
  | cons f below => exact slots_of_suffix (hlive ▸ List.suffix_refl _)

/-- A stack that ends one slot earlier has lost its innermost frame. -/
theorem live_lower {t : CallStack} (hw : s.nextSlot ≤ s.slots.size) (hslots : t.slots = s.slots)
    (hnext : s.nextSlot = t.nextSlot + 1) : t.live = s.live.tail := by
  have hlen : (s.slots.toList.take s.nextSlot).length = s.nextSlot := by
    rw [List.length_take, Array.length_toList]
    exact Nat.min_eq_left hw
  rw [live, live, List.tail_reverse, hslots, List.dropLast_eq_take, hlen, List.take_take, hnext,
    Nat.add_sub_cancel, Nat.min_eq_left (Nat.le_succ _)]

/-! ### What the operations do to the live frames -/

/-- The frame of a call that is opened on a stack. -/
def opened (s : CallStack) (event : Event) (hidden : Bool) : Frame :=
  { event, hidden, caller := s.top, isRoot := false }

theorem push_reuse (h : s.nextSlot < s.slots.size) (event : Event) (hidden : Bool) :
    s.push event hidden =
      ({ s with slots := s.slots.setIfInBounds s.nextSlot (s.opened event hidden), top := some s.nextSlot },
        s.nextSlot) := by
  unfold push
  exact if_pos h

theorem push_grow (h : ¬s.nextSlot < s.slots.size) (event : Event) (hidden : Bool) :
    s.push event hidden =
      ({ s with slots := s.slots.push (s.opened event hidden), top := some s.nextSlot, capacity := s.grownCapacity },
        s.nextSlot) := by
  unfold push
  exact if_neg h

@[simp] theorem push_snd (event : Event) (hidden : Bool) : (s.push event hidden).2 = s.nextSlot := by
  by_cases h : s.nextSlot < s.slots.size
  · rw [push_reuse h]
  · rw [push_grow h]

@[simp] theorem push_rooted (event : Event) (hidden : Bool) : (s.push event hidden).1.rooted = s.rooted := by
  by_cases h : s.nextSlot < s.slots.size
  · rw [push_reuse h]
  · rw [push_grow h]

theorem nextSlot_push (event : Event) (hidden : Bool) : (s.push event hidden).1.nextSlot = s.nextSlot + 1 := by
  by_cases h : s.nextSlot < s.slots.size
  · rw [push_reuse h]
    rfl
  · rw [push_grow h]
    rfl

theorem within_push (hw : s.nextSlot ≤ s.slots.size) (event : Event) (hidden : Bool) :
    (s.push event hidden).1.nextSlot ≤ (s.push event hidden).1.slots.size := by
  rw [nextSlot_push]
  by_cases h : s.nextSlot < s.slots.size
  · rw [push_reuse h, Array.size_setIfInBounds]
    exact h
  · rw [push_grow h, Array.size_push]
    exact Nat.succ_le_succ hw

theorem live_push (hw : s.nextSlot ≤ s.slots.size) (event : Event) (hidden : Bool) :
    (s.push event hidden).1.live = s.opened event hidden :: s.live := by
  have hlast : (s.push event hidden).1.slots.toList.take (s.nextSlot + 1) =
      s.slots.toList.take s.nextSlot ++ [s.opened event hidden] := by
    by_cases h : s.nextSlot < s.slots.size
    · simp [push_reuse h, List.take_add_one, List.take_set_of_le, h]
    · have hlen : s.nextSlot = s.slots.toList.length := by
        rw [Array.length_toList]
        exact Nat.le_antisymm hw (Nat.le_of_not_lt h)
      simp only [push_grow h, Array.toList_push]
      rw [hlen, List.take_length, ← List.length_singleton (a := s.opened event hidden), ← List.length_append,
        List.take_length]
  rw [live, nextSlot_push, hlast, List.reverse_append, List.reverse_singleton, List.singleton_append, live]

theorem Sound.push (h : s.Sound) (event : Event) (hidden : Bool) : (s.push event hidden).1.Sound where
  within := within_push h.within event hidden
  linked := by
    rw [push_rooted, live_push h.within]
    exact .call h.linked (top_eq h.within) rfl

/-- Only a call is popped. -/
theorem live_pop (hw : s.nextSlot ≤ s.slots.size) :
    s.pop.1.live = match s.live with
      | [] => []
      | f :: below => if f.isRoot then f :: below else below := by
  have hpeek := peek_eq hw
  have htop := top_eq hw
  have hlen := length_live hw
  unfold pop
  cases hlive : s.live with
  | nil =>
    rw [hlive] at htop hpeek
    simp [htop, topOf, hlive]
  | cons f below =>
    rw [hlive] at htop hpeek
    simp only [htop, topOf, hpeek, List.head?_cons]
    split
    · exact hlive
    next hcall =>
      have htail : below = s.live.tail := by rw [hlive, List.tail_cons]
      rw [htail]
      refine live_lower hw rfl ?_
      rw [← hlen, hlive, List.length_cons]
      cases below <;> rfl

theorem pop_slots (s : CallStack) : s.pop.1.slots = s.slots ∧ s.pop.1.rooted = s.rooted := by
  unfold pop
  split
  · split <;> exact ⟨rfl, rfl⟩
  · exact ⟨rfl, rfl⟩

theorem nextSlot_pop_le (s : CallStack) : s.pop.1.nextSlot ≤ s.nextSlot := by
  unfold pop
  split
  next top frame htop _ =>
    split
    · exact Nat.le_refl _
    · simp only [nextSlot, htop]
      split
      next h => split at h <;> simp_all
      next h =>
        split at h
        · cases h
        · cases h
          omega
  · exact Nat.le_refl _

theorem Sound.pop (h : s.Sound) : s.pop.1.Sound where
  within := by
    rw [(pop_slots s).1]
    exact Nat.le_trans (nextSlot_pop_le s) h.within
  linked := by
    have hlinked := h.linked
    rw [(pop_slots s).2, live_pop h.within]
    generalize s.rooted = rooted at hlinked
    generalize s.live = frames at hlinked
    cases hlinked with
    | empty => exact .empty
    | root => exact .root
    | call hbelow _ hcall =>
      simp only [hcall]
      exact hbelow

/-! ### Making and resetting a stack -/

theorem seedRoot_sound (hr : s.rooted = true) : s.seedRoot.Sound ∧ s.seedRoot.live = [.root] := by
  have hlive : s.seedRoot.live = [.root] := by
    unfold live seedRoot
    cases hslots : s.slots.toList with
    | nil => simp_all [nextSlot, Array.isEmpty_iff, ← Array.toList_eq_nil_iff]
    | cons f rest =>
      have hne : s.slots.isEmpty = false := by
        rw [Array.isEmpty_eq_false_iff, ne_eq, ← Array.toList_eq_nil_iff, hslots]
        simp
      simp [nextSlot, hne, hslots]
  refine ⟨⟨?_, hlive ▸ hr ▸ .root⟩, hlive⟩
  have hlen := congrArg List.length hlive
  simp only [live, List.length_reverse, List.length_take, Array.length_toList, List.length_singleton] at hlen
  show 1 ≤ s.seedRoot.slots.size
  omega

theorem Sound.withRoot (capacity : Nat) : (withRoot capacity).Sound :=
  (seedRoot_sound (s := { empty capacity with rooted := true }) rfl).1

theorem live_reset (hr : s.rooted = true) : s.reset.live = [.root] := by
  unfold CallStack.reset
  rw [if_pos hr]
  exact (seedRoot_sound hr).2

theorem reset_sound (s : CallStack) : s.reset.Sound := by
  unfold CallStack.reset
  split
  next hr => exact (seedRoot_sound hr).1
  next hr =>
    refine ⟨Nat.zero_le _, ?_⟩
    rw [eq_false_of_ne_true hr]
    exact .empty

@[simp] theorem reset_rooted (s : CallStack) : s.reset.rooted = s.rooted := by
  unfold reset
  split <;> rfl

/-! ### The open calls -/

@[simp] theorem callsOf_cons {f : Frame} (hf : f.isRoot = false) (below : List Frame) :
    callsOf (f :: below) = f.openCall :: callsOf below := by
  simp [callsOf, hf]

theorem calls_push (h : s.Sound) (event : Event) (hidden : Bool) :
    (s.push event hidden).1.calls = ⟨event, hidden⟩ :: s.calls := by
  rw [calls, live_push h.within]
  exact callsOf_cons rfl s.live

theorem calls_pop (h : s.Sound) : s.pop.1.calls = s.calls.tail := by
  have hlinked := h.linked
  unfold calls
  rw [live_pop h.within]
  generalize s.rooted = rooted at hlinked
  generalize s.live = frames at hlinked
  cases hlinked with
  | empty => rfl
  | root => rfl
  | call _ _ hcall => simp [hcall]

@[simp] theorem calls_reset (s : CallStack) : s.reset.calls = [] := by
  unfold calls reset
  split
  next hr =>
    rw [(seedRoot_sound hr).2]
    rfl
  next => rfl

/-- The frame of a call with its caller in a slot. -/
def frameOf (call : OpenCall) (caller : Option Nat) : Frame :=
  { event := call.event, hidden := call.hidden, caller, isRoot := false }

/-- The frames of open calls, above the root if there is one. -/
def framesOf (rooted : Bool) : List OpenCall → List Frame
  | [] => if rooted then [.root] else []
  | call :: below => frameOf call (topOf (framesOf rooted below)) :: framesOf rooted below

/-- Linked frames are known from their calls: each link leads to the frame below. -/
theorem Linked.eq_framesOf {rooted : Bool} {frames : List Frame} (h : Linked rooted frames) :
    frames = framesOf rooted (callsOf frames) := by
  induction h with
  | empty => rfl
  | root => rfl
  | @call _ f below _ hcaller hf ih =>
    rw [callsOf_cons hf, framesOf, ← ih, ← hcaller, frameOf, Frame.openCall, ← hf]

theorem Linked.eq_of_calls {rooted : Bool} {some other : List Frame} (h : Linked rooted some)
    (h' : Linked rooted other) (same : callsOf some = callsOf other) : some = other :=
  h.eq_framesOf.trans (same ▸ h'.eq_framesOf.symm)

/-- Two sound stacks with the same open calls have the same live frames. -/
theorem live_eq_of_calls {t : CallStack} (hs : s.Sound) (ht : t.Sound) (hrooted : t.rooted = s.rooted)
    (hcalls : t.calls = s.calls) : t.live = s.live :=
  Linked.eq_of_calls (hrooted ▸ ht.linked) hs.linked hcalls

theorem Linked.length_eq {rooted : Bool} {frames : List Frame} (h : Linked rooted frames) :
    frames.length = (callsOf frames).length + rooted.toNat := by
  induction h with
  | empty => rfl
  | root => rfl
  | call _ _ hf ih =>
    rw [callsOf_cons hf, List.length_cons, List.length_cons, ih]
    omega

theorem depth_eq (h : s.Sound) : s.depth = s.calls.length := by
  have hlength := h.linked.length_eq
  unfold depth calls
  rw [top_eq h.within]
  cases hlive : s.live with
  | nil => rfl
  | cons f below =>
    rw [hlive, List.length_cons] at hlength
    cases hr : s.rooted <;> rw [hr] at hlength <;> simp_all [topOf]

theorem depth_reset (s : CallStack) : s.reset.depth = 0 := by
  rw [depth_eq (reset_sound s), calls_reset]
  rfl

/-! ### Callers -/

theorem caller_of_suffix {rooted : Bool} {frames : List Frame} (h : Linked rooted frames) {f : Frame}
    {below : List Frame} (hs : f :: below <:+ frames) : f.caller = topOf below := by
  induction h with
  | empty => cases List.eq_nil_of_suffix_nil hs
  | root =>
    rcases List.suffix_cons_iff.mp hs with heq | hnil
    · cases heq
      rfl
    · cases List.eq_nil_of_suffix_nil hnil
  | call _ hcaller _ ih =>
    rcases List.suffix_cons_iff.mp hs with heq | hs
    · cases heq
      exact hcaller
    · exact ih hs

theorem below_of_suffix (h : s.Sound) {f : Frame} {below : List Frame} (hs : f :: below <:+ s.live) :
    s.below below.length = .ok below.head? := by
  unfold CallStack.below
  rw [if_pos (isLive_of_suffix h.within hs)]
  cases below with
  | nil => rfl
  | cons g rest =>
    rw [if_neg (by simp)]
    exact congrArg Except.ok (slots_of_suffix (List.IsSuffix.trans (List.suffix_cons _ _) hs))

/-- A frame that is named as a caller under the rule that skips hidden calls. -/
def visible (f : Frame) : Bool := !f.hidden || f.isRoot

/-- Following the callers from a frame is searching the frames below it. -/
theorem visibleFrom_eq (h : s.Sound) {below : List Frame} (hs : below <:+ s.live) {slot : Nat}
    (hslot : below.length ≤ slot) : s.visibleFrom slot (topOf below) = below.find? visible := by
  induction below generalizing slot with
  | nil =>
    unfold visibleFrom
    rfl
  | cons f rest ih =>
    have hlt : rest.length < slot := hslot
    unfold visibleFrom
    simp only [topOf, hlt, if_true, slots_of_suffix hs, List.find?_cons]
    rw [caller_of_suffix h.linked hs, ih (List.IsSuffix.trans (List.suffix_cons _ _) hs) (Nat.le_refl _)]
    cases hv : visible f <;> unfold visible at hv <;> simp [hv]

theorem visibleCaller_of_suffix (h : s.Sound) {f : Frame} {below : List Frame} (hs : f :: below <:+ s.live) :
    s.visibleCaller below.length = .ok (below.find? visible) := by
  unfold visibleCaller frame
  rw [slots_of_suffix hs]
  simp only [isLive_of_suffix h.within hs, if_true, Except.map, caller_of_suffix h.linked hs]
  exact congrArg Except.ok (visibleFrom_eq h (List.IsSuffix.trans (List.suffix_cons _ _) hs) (Nat.le_refl _))

end

/-! ### Callers among linked frames -/

/-- A frame in the place of an open call, or of the root if there is none. -/
def callerFrame : Option OpenCall → Frame
  | none => .root
  | some c => { event := c.event, hidden := c.hidden, caller := none, isRoot := false }

/-- A frame is named in rows as an open call is, or as the root. -/
structure Names (f : Frame) (caller : Option OpenCall) : Prop where
  isRoot : f.isRoot = caller.isNone
  event : f.event = (callerFrame caller).event

theorem Names.of_call {f : Frame} (hf : f.isRoot = false) : Names f (some f.openCall) := ⟨hf, rfl⟩

theorem head?_names {frames : List Frame} (h : Linked true frames) :
    ∃ f, frames.head? = some f ∧ Names f (callsOf frames).head? := by
  cases h with
  | root => exact ⟨_, rfl, rfl, rfl⟩
  | @call _ f below _ _ hf =>
    refine ⟨f, rfl, ?_⟩
    rw [callsOf_cons hf]
    exact .of_call hf

theorem find?_visible_names {rooted : Bool} {frames : List Frame} (h : Linked rooted frames) (hr : rooted = true) :
    ∃ f, frames.find? visible = some f ∧ Names f ((callsOf frames).find? (!·.hidden)) := by
  induction h with
  | empty => cases hr
  | root => exact ⟨_, rfl, rfl, rfl⟩
  | @call _ f below _ _ hf ih =>
    rw [callsOf_cons hf, List.find?_cons, List.find?_cons]
    have hv : visible f = !f.openCall.hidden := by simp [visible, hf, Frame.openCall]
    cases hh : f.openCall.hidden with
    | true =>
      simp only [hv, hh]
      exact ih hr
    | false =>
      simp only [hv, hh]
      exact ⟨f, rfl, .of_call hf⟩

end CallStack
end MethodTrace
