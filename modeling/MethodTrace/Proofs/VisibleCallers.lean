import MethodTrace.Proofs.Returns
import MethodTrace.Proofs.StackAsList

/-! # The nearest visible caller

From the frame in a slot the links lead one slot down at a time, so that following them ends (`Follows`), and with the
nearest frame below that is not hidden or is the root (`Nearest`). On a stack with a root only the root itself has none.
A row that names the nearest visible caller therefore never names a hidden call. -/

namespace MethodTrace
namespace CallStack

/-- Following a link, and the links of the frames met until one is visible, ends with what is found. -/
inductive Follows (s : CallStack) : Option Nat → Option Frame → Prop
  | nothing : Follows s none none
  | found {slot : Nat} {f : Frame} : s.slots[slot]? = some f → visible f = true → Follows s (some slot) (some f)
  | onward {slot : Nat} {f : Frame} {found : Option Frame} : s.slots[slot]? = some f → visible f = false →
      Follows s f.caller found → Follows s (some slot) found

/-- What is found is the live frame highest below a slot of those that are visible, or nothing if there are none. -/
inductive Nearest (s : CallStack) (slot : Nat) : Option Frame → Prop
  | nothing : (∀ i < slot, ∀ f, s.frame i = .ok f → visible f = false) → Nearest s slot none
  | found {i : Nat} {f : Frame} : i < slot → s.frame i = .ok f → visible f = true →
      (∀ j < slot, i < j → ∀ g, s.frame j = .ok g → visible g = false) → Nearest s slot (some f)

/-- What there is to find from the frame in a slot on. -/
structure FindsVisible (s : CallStack) (slot : Nat) (f : Frame) : Prop where
  ends : ∃ found, s.visibleCaller slot = .ok found
  follows : ∀ found, s.visibleCaller slot = .ok found ↔ s.Follows f.caller found
  nearest : ∀ found, s.visibleCaller slot = .ok found ↔ s.Nearest slot found
  none_iff : s.rooted = true → (s.visibleCaller slot = .ok none ↔ slot = 0)
  below : ∀ g, s.below slot = .ok (some g) → g.hidden = false → s.visibleCaller slot = s.below slot

section
variable {s : CallStack}

theorem frame_ok_iff {slot : Nat} {f : Frame} :
    s.frame slot = .ok f ↔ slot < s.nextSlot ∧ s.slots[slot]? = some f := by
  rw [← isLive_iff]
  unfold frame
  cases s.slots[slot]? <;> cases s.isLive slot <;> simp

theorem Follows.unique {link : Option Nat} {a b : Option Frame} (h : s.Follows link a) (h' : s.Follows link b) :
    a = b := by
  induction h with
  | nothing =>
    cases h'
    rfl
  | found hslot hvisible =>
    cases h' with
    | found hslot' => exact hslot.symm.trans hslot'
    | onward hslot' hhidden =>
      cases hslot.symm.trans hslot'
      simp [hvisible] at hhidden
  | onward hslot hhidden _ ih =>
    cases h' with
    | found hslot' hvisible =>
      cases hslot.symm.trans hslot'
      simp [hvisible] at hhidden
    | onward hslot' _ hnext =>
      cases hslot.symm.trans hslot'
      exact ih hnext

theorem Nearest.unique {slot : Nat} {a b : Option Frame} (h : s.Nearest slot a) (h' : s.Nearest slot b) : a = b := by
  cases h with
  | nothing hnone =>
    cases h' with
    | nothing => rfl
    | found hlt hframe hvisible => simp [hnone _ hlt _ hframe] at hvisible
  | @found i f hlt hframe hvisible hbetween =>
    cases h' with
    | nothing hnone => simp [hnone _ hlt _ hframe] at hvisible
    | @found j g hlt' hframe' hvisible' hbetween' =>
      rcases Nat.lt_trichotomy i j with hij | rfl | hij
      · simp [hbetween j hlt' hij g hframe'] at hvisible'
      · cases hframe.symm.trans hframe'
        rfl
      · simp [hbetween' i hlt hij f hframe] at hvisible

/-- A hidden frame makes no difference to what is nearest. -/
theorem Nearest.onward {slot : Nat} {f : Frame} {found : Option Frame} (h : s.Nearest slot found)
    (hframe : s.frame slot = .ok f) (hhidden : visible f = false) : s.Nearest (slot + 1) found := by
  have hlast : ∀ g, s.frame slot = .ok g → visible g = false := fun g hg => by
    cases hframe.symm.trans hg
    exact hhidden
  cases h with
  | nothing hnone =>
    refine .nothing fun i hi g hg => ?_
    rcases Nat.lt_succ_iff_lt_or_eq.mp hi with hi | rfl
    · exact hnone i hi g hg
    · exact hlast g hg
  | found hlt hfound hvisible hbetween =>
    refine .found (Nat.lt_succ_of_lt hlt) hfound hvisible fun j hj hij g hg => ?_
    rcases Nat.lt_succ_iff_lt_or_eq.mp hj with hj | rfl
    · exact hbetween j hj hij g hg
    · exact hlast g hg

/-- A visible frame directly below is nearest. -/
theorem Nearest.directly {slot : Nat} {f : Frame} (hframe : s.frame slot = .ok f) (hvisible : visible f = true) :
    s.Nearest (slot + 1) (some f) :=
  .found (Nat.lt_succ_self slot) hframe hvisible fun _ hj hbetween =>
    absurd hbetween (Nat.not_lt_of_le (Nat.le_of_lt_succ hj))

/-- The loop that looks for a visible frame goes down one slot at a time. -/
theorem InPlace.found (h : InPlace s) {slot : Nat} (hslot : slot ≤ s.nextSlot) :
    let link := if slot = 0 then none else some (slot - 1)
    s.Follows link (s.visibleFrom slot link) ∧ s.Nearest slot (s.visibleFrom slot link) := by
  induction slot with
  | zero =>
    unfold visibleFrom
    exact ⟨.nothing, .nothing nofun⟩
  | succ slot ih =>
    obtain ⟨hfollows, hnearest⟩ := ih (Nat.le_of_succ_le hslot)
    have hlt : slot < s.slots.size := Nat.lt_of_lt_of_le hslot h.within
    have hget : s.slots[slot]? = some s.slots[slot] := Array.getElem?_eq_getElem hlt
    have hframe : s.frame slot = .ok s.slots[slot] := frame_ok_iff.mpr ⟨hslot, hget⟩
    -- A hidden frame hands on its own link, which is the one that the slot below is searched from.
    have hcaller := h.caller_eq slot _ hget
    generalize s.slots[slot] = f at hget hframe hcaller
    simp only [Nat.succ_ne_zero, if_false, Nat.add_sub_cancel]
    unfold visibleFrom
    simp only [Nat.lt_succ_self, if_true, hget]
    cases hvisible : visible f with
    | true =>
      rw [if_pos (show (!f.hidden || f.isRoot) = true from hvisible)]
      exact ⟨.found hget hvisible, .directly hframe hvisible⟩
    | false =>
      rw [if_neg (show ¬(!f.hidden || f.isRoot) = true by rw [← visible, hvisible]; exact Bool.false_ne_true), hcaller]
      exact ⟨.onward hget hvisible (hcaller ▸ hfollows), hnearest.onward hframe hvisible⟩

theorem InPlace.visibleCaller_spec (h : InPlace s) {slot : Nat} {f : Frame} (hframe : s.frame slot = .ok f) :
    ∃ found, s.visibleCaller slot = .ok found ∧ s.Follows f.caller found ∧ s.Nearest slot found := by
  obtain ⟨hslot, hget⟩ := frame_ok_iff.mp hframe
  obtain ⟨hfollows, hnearest⟩ := h.found (Nat.le_of_lt hslot)
  rw [← h.caller_eq slot f hget] at hfollows hnearest
  exact ⟨_, by rw [visibleCaller, hframe, Except.map], hfollows, hnearest⟩

theorem frame_of_below {slot : Nat} {f : Frame} (h : s.below slot = .ok (some f)) :
    ∃ lower, slot = lower + 1 ∧ s.frame lower = .ok f := by
  unfold CallStack.below at h
  split at h
  next hlive =>
    cases slot with
    | zero => cases h
    | succ lower =>
      have hget : s.slots[lower]? = some f := by simpa using h
      exact ⟨lower, rfl, frame_ok_iff.mpr ⟨Nat.lt_of_succ_lt (isLive_iff.mp hlive), hget⟩⟩
  next => cases h

theorem InPlace.findsVisible (h : InPlace s) {slot : Nat} {f : Frame} (hframe : s.frame slot = .ok f) :
    FindsVisible s slot f := by
  obtain ⟨found, hcaller, hfollows, hnearest⟩ := h.visibleCaller_spec hframe
  have hfound : ∀ other, s.visibleCaller slot = .ok other ↔ found = other := by simp [hcaller]
  refine ⟨⟨found, hcaller⟩, fun other => ?_, fun other => ?_, fun hr => ?_, fun g hbelow hshown => ?_⟩
  · rw [hfound]
    exact ⟨fun heq => heq ▸ hfollows, hfollows.unique⟩
  · rw [hfound]
    exact ⟨fun heq => heq ▸ hnearest, hnearest.unique⟩
  · rw [hfound]
    refine ⟨?_, fun hzero => hnearest.unique (.nothing fun i hi => by omega)⟩
    rintro rfl
    cases hnearest with
    | nothing hhidden =>
      -- The root lies below every other frame, and is visible.
      refine Nat.eq_zero_of_not_pos fun hpos => ?_
      have hroot : s.frame 0 = .ok .root :=
        frame_ok_iff.mpr ⟨Nat.lt_trans hpos (frame_ok_iff.mp hframe).1, h.root hr⟩
      cases hhidden 0 hpos .root hroot
  · obtain ⟨lower, rfl, hlower⟩ := frame_of_below hbelow
    rw [hbelow, hfound]
    exact hnearest.unique (.directly hlower (by rw [visible, hshown, Bool.not_false, Bool.true_or]))

/-- Only the root is a root. -/
theorem Linked.eq_root {rooted : Bool} {frames : List Frame} (h : Linked rooted frames) {f : Frame} (hf : f ∈ frames)
    (hroot : f.isRoot = true) : f = .root := by
  induction h with
  | empty => cases hf
  | root => exact List.mem_singleton.mp hf
  | call _ _ hcall ih =>
    rcases List.mem_cons.mp hf with rfl | hf
    · simp [hcall] at hroot
    · exact ih hf

end
end CallStack

namespace Session
variable {s t : Session}

/-- A row of a call on top of the stack, and of the nearest frame below it that is visible. No hidden call is named. -/
inductive NamesVisible (s t : Session) (outcome : Outcome) : Prop
  | intro {slot : Nat} {f caller : Frame} : t.stack.top = some slot → t.stack.frame slot = .ok f →
      t.stack.visibleCaller slot = .ok (some caller) → caller.hidden = false →
      Fate s t (some (Row.ofEdge f.event caller)) outcome → NamesVisible s t outcome

theorem enter_namesVisible (hs : s.Sound) (edges : s.settings.layout = .edges)
    (rule : s.settings.callerRule = .nearestVisible) {event : Event} (hrow : (s.enter event).2.isOfRow = true) :
    NamesVisible s (s.enter event).1 (s.enter event).2 := by
  obtain ⟨-, hstack, hfate⟩ := enter_spec hs event
  have hsound := hs.stack.push event (s.settings.filter.hides event)
  have hlive := CallStack.live_push hs.stack.within event (s.settings.filter.hides event)
  have hlinked : CallStack.Linked true s.stack.live := hs.rooted ▸ hs.stack.linked
  obtain ⟨caller, hcaller, hnames⟩ := CallStack.find?_visible_names hlinked rfl
  have hdue : s.settings.callRow? s.calls event = some (Row.ofEdge event caller) := by
    cases hcall : s.settings.callRow? s.calls event with
    | none =>
      rw [hcall] at hfate
      cases hfate with
      | quiet hnot => simp [hnot] at hrow
    | some row =>
      simp only [Settings.callRow?, Settings.edgeRow?, Settings.callerAmong, edges, rule] at hcall
      rw [ofEdge_of_names hnames]
      split at hcall
      · cases hcall
      · split at hcall
        · cases hcall
        · exact hcall.symm
  have hshown : caller.hidden = false := by
    have hvisible := List.find?_some hcaller
    cases hroot : caller.isRoot with
    | true => rw [hlinked.eq_root (List.mem_of_find?_eq_some hcaller) hroot, Frame.root]
    | false => simpa [CallStack.visible, hroot] using hvisible
  have hfound := hsound.found hlive
  have htop : s.stack.opened event (s.settings.filter.hides event) :: s.stack.live <:+
      (s.stack.push event (s.settings.filter.hides event)).1.live := hlive ▸ List.suffix_refl _
  have hnearest := CallStack.visibleCaller_of_suffix hsound htop
  rw [hcaller] at hnearest
  rw [hdue] at hfate
  rw [← hstack] at hfound hnearest
  exact .intro hfound.slot hfound.frame hnearest hshown hfate

/-- A notification with a row is a call, if the rows are those of edges. -/
theorem deliver_namesVisible (hs : s.Sound) (edges : s.settings.layout = .edges)
    (rule : s.settings.callerRule = .nearestVisible) {n : Notification} (hrow : (s.deliver n).2.isOfRow = true) :
    NamesVisible s (s.deliver n).1 (s.deliver n).2 := by
  cases he : s.hears n with
  | none =>
    obtain ⟨reason, hignored, -⟩ := deliver_of_not_hears he
    rw [hignored] at hrow
    cases hrow
  | some event =>
    have hheard : s.hearing.Sound := ⟨hs.stack, hs.rooted⟩
    rw [deliver_eq_take he] at hrow ⊢
    unfold take at hrow ⊢
    cases hk : event.kind with
    | call =>
      rw [hk] at hrow
      obtain ⟨hslot, hframe, hnearest, hshown, hfate⟩ := enter_namesVisible hheard edges rule hrow
      exact .intro hslot hframe hnearest hshown (hfate.of_eq rfl rfl rfl)
    | leave =>
      rw [hk] at hrow
      obtain ⟨-, -, hfate⟩ := leave_spec hheard event
      have hnone : s.hearing.settings.returnRow? s.hearing.calls event = none := by
        unfold Settings.returnRow?
        rw [show s.hearing.settings.layout = .edges from edges]
      rw [hnone] at hfate
      cases hfate with
      | quiet hnot =>
        rw [hnot] at hrow
        cases hrow

theorem step_namesVisible (hs : s.Sound) (edges : s.settings.layout = .edges)
    (rule : s.settings.callerRule = .nearestVisible) {action : Action} (ha : action.isSimple = true) {outcome : Outcome}
    (ho : (s.step action).outcome? = some outcome) (hrow : outcome.isOfRow = true) :
    NamesVisible s (s.step action).after outcome := by
  cases action with
  | deliver n =>
    obtain rfl : (s.deliver n).2 = outcome := Option.some.inj ho
    exact deliver_namesVisible hs edges rule hrow
  | «scoped» => cases ha
  | _ => cases ho

/-! ### Every stack and every run -/

/-- From every frame of a stack that is pushed to, popped and reset in any order, the nearest visible frame below is
found. With a root only the root has none. Therefore, in a trace of edges that name the nearest visible caller, every
row names a call and what is found from it, which is never a hidden call. -/
theorem finds_and_names_visible :
    (∀ (rooted : Bool) (capacity : Nat) (actions : List StackAction),
        let s := if rooted then CallStack.withRoot capacity else .empty capacity
        let t := (s.actAll actions).1
        t.rooted = rooted ∧ ∀ slot f, t.frame slot = .ok f → t.FindsVisible slot f) ∧
      ∀ (settings : Settings) (faults : Faults) (label : String) (host : Host) (s : Session),
        create settings { destination := { faults }, label } host = .ok s → settings.flatten = true →
          settings.callerRule = .nearestVisible → ∀ actions, ∀ x ∈ s.stepsOfAll actions, ∀ outcome,
            x.outcome? = some outcome → outcome.isOfRow = true → NamesVisible x.before x.after outcome := by
  constructor
  · intro rooted capacity actions s t
    have hfresh : CallStack.Represents rooted [] s := .fresh rooted capacity
    have hplace : CallStack.InPlace t := CallStack.InPlace.actAll (.fresh rooted capacity) hfresh actions
    exact ⟨(hfresh.actAll actions).2.rooted_eq, fun slot f => hplace.findsVisible⟩
  · intro settings faults label host s opened edges rule actions x hx outcome ho hrow
    have fresh := create_fresh opened
    obtain ⟨earlier, -, reaches, action, ha, heq⟩ := (reaches_stepsOfAll s actions).of_mem hx
    obtain ⟨hsound, hsettings⟩ := reaches.sound fresh.sound
    rw [fresh.settings_eq] at hsettings
    have hlayout : x.before.settings.layout = .edges := by rw [hsettings, Settings.layout, edges]; rfl
    rw [heq] at ho
    have hnames := step_namesVisible hsound hlayout (hsettings ▸ rule) ha ho hrow
    rwa [← heq] at hnames

/-- The first call is hidden. From the second one the root is found, on a stack and in the row of a session. -/
theorem root_found_past_hidden :
    let hidden : TracedCall := { receiver := .unknown, entered := { path := some "lib/each.rb" } }
    let next : TracedCall := { receiver := .typeItself (.named 1 .ofClasses "Next"), method := some "step" }
    let pushes : List StackAction := [.push hidden.entering true, .push next.entering false]
    let settings : Settings := { filter := .paths ["lib/"], callerRule := .nearestVisible, rootCalls := true }
    ((CallStack.withRoot 1).actAll pushes).1.visibleCaller 2 = .ok (some .root) ∧
      ∃ s, create settings { destination := { faults := {} }, label := "" } { process := 1 } = .ok s ∧
        ∃ x ∈ s.stepsOfAll (traced [hidden.enter, next.enter]), ∃ outcome,
          x.outcome? = some outcome ∧ outcome.isOfRow = true ∧ NamesVisible x.before x.after outcome := by
  intro hidden next pushes settings
  obtain ⟨hstack, hrun⟩ := finds_and_names_visible
  constructor
  · obtain ⟨-, hfinds⟩ := hstack true 1 pushes
    refine ((hfinds 2 _ rfl).nearest _).mpr (.found (by decide : 0 < 2) rfl rfl fun j hj hbetween g hg => ?_)
    obtain rfl : j = 1 := by omega
    cases hg
    rfl
  · obtain ⟨s, opened⟩ := create_in_memory settings (by decide)
    obtain ⟨tracks, -⟩ := (create_fresh opened).start.1.deliverAll (.cons hidden.enter_event .nil) (by decide)
    obtain ⟨before, earlier, hsteps, tracks⟩ : ∃ before earlier,
        s.stepsOfAll (traced [hidden.enter, next.enter]) = earlier ++ [before.step (.deliver next.enter)] ∧
        Tracks settings (settings.callsAlong [] [hidden.entering]) before :=
      ⟨_, s.stepsOfAll (traced [hidden.enter]), rfl, tracks⟩
    have hx : before.step (.deliver next.enter) ∈ s.stepsOfAll (traced [hidden.enter, next.enter]) := by
      rw [hsteps]
      exact List.mem_append_right _ (List.mem_singleton_self _)
    have hrow : (before.deliver next.enter).2.isOfRow = true := by
      obtain ⟨row, hrow⟩ := Option.isSome_iff_exists.mp
        (show (settings.row? (settings.callsAlong [] [hidden.entering]) next.entering).isSome = true by decide +kernel)
      obtain ⟨-, -, hfate⟩ := tracks.deliver next.enter_event (by decide)
      rw [hrow] at hfate
      exact isOfRow_of_fate hfate
    exact ⟨s, opened, _, hx, _, rfl, hrow, hrun settings {} "" { process := 1 } s opened rfl rfl _ _ hx _ rfl hrow⟩

/-- The root is a frame of a stack that has one, and nothing is found from it. -/
theorem nothing_found_from_root :
    let s := CallStack.withRoot 1
    s.rooted = true ∧ s.frame 0 = .ok .root ∧ s.visibleCaller 0 = .ok none := by
  intro s
  have hplace : s.InPlace := .fresh true 1
  exact ⟨rfl, rfl, ((hplace.findsVisible (f := .root) rfl).none_iff rfl).mpr rfl⟩

end Session
end MethodTrace
