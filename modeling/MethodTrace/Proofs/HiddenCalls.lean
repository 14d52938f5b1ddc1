import MethodTrace.Proofs.Decoding
import MethodTrace.Proofs.Nesting
import MethodTrace.Proofs.Outcomes
import MethodTrace.Proofs.Segments

/-! # Hidden calls

What a filter does to the flags of the open calls, and with it to the rows. It makes no difference to which calls are
open and what a return closes. The row of an event is the same with a filter or without, or missing if its call is
hidden. -/

namespace MethodTrace
open Session

namespace Filter

/-- An open call with the flag that a filter gives it. -/
def veil (filter : Filter) (call : OpenCall) : OpenCall := { call with hidden := filter.hides call.event }

/-- A frame with the flag that a filter gives it. The root is never hidden. -/
def veilFrame (filter : Filter) (f : Frame) : Frame := { f with hidden := !f.isRoot && filter.hides f.event }

/-- A filter looks at the entity and the path only. -/
theorem hides_congr (filter : Filter) {a b : Event} (hentity : a.method.entity = b.method.entity)
    (hpath : a.path = b.path) : filter.hides a = filter.hides b := by
  cases filter with
  | nothing => rfl
  | paths fragments => rw [hides, hides, hpath]
  | allBut entities => rw [hides, hides, hentity]

/-! ### Frames -/

variable {filter : Filter}

theorem linked_veilFrame {rooted : Bool} {frames : List Frame} (h : CallStack.Linked rooted frames) :
    CallStack.Linked rooted (frames.map filter.veilFrame) := by
  induction h with
  | empty => exact .empty
  | root => exact .root
  | @call _ f below _ hcaller hf ih =>
    refine .call ih ?_ hf
    show f.caller = CallStack.topOf (below.map filter.veilFrame)
    rw [hcaller]
    cases below <;> simp [CallStack.topOf]

theorem callsOf_veilFrame (filter : Filter) (frames : List Frame) :
    CallStack.callsOf (frames.map filter.veilFrame) = (CallStack.callsOf frames).map filter.veil := by
  induction frames with
  | nil => rfl
  | cons f below ih =>
    cases hf : f.isRoot with
    | true => simpa [CallStack.callsOf, veilFrame, hf] using ih
    | false =>
      rw [List.map_cons, CallStack.callsOf_cons hf, CallStack.callsOf_cons (f := filter.veilFrame f) hf, ih]
      simp [Frame.openCall, veilFrame, veil, hf]

end Filter

/-! ### Events with a filter and without -/

/-- What a return closes, if the open calls are changed one by one. -/
def Closing.map (f : OpenCall → OpenCall) : Closing → Closing
  | none => none
  | innermost call => innermost (f call)
  | below call => below (f call)

namespace Settings

/-- The same settings without a filter. -/
def unfiltered (settings : Settings) : Settings := { settings with filter := .nothing }

/-- The call that an event is of, if it is a call or closes one. -/
def callOf? (settings : Settings) (calls : List OpenCall) (event : Event) : Option Event :=
  match event.kind with
  | .call => some event
  | .leave => (returned event (settings.closing calls event)).map fun r => r.2.event

variable {settings : Settings} {calls : List OpenCall} {event : Event}

theorem layout_unfiltered (settings : Settings) : settings.unfiltered.layout = settings.layout := rfl

/-- A return looks at the events of the open calls, and not at their flags. -/
theorem closing_map (settings : Settings) {f : OpenCall → OpenCall} (hf : ∀ call, (f call).event = call.event)
    (calls : List OpenCall) (event : Event) :
    settings.closing (calls.map f) event = (settings.closing calls event).map f := by
  unfold closing
  cases calls with
  | nil => rfl
  | cons top rest =>
    simp only [List.map_cons, hf]
    split
    · rfl
    · split
      · cases rest with
        | nil => rfl
        | cons lower rest =>
          simp only [List.map_cons, hf]
          split
          · rfl
          · rfl
      · rfl

theorem closing_veil (settings : Settings) (calls : List OpenCall) (event : Event) :
    settings.closing (calls.map settings.filter.veil) event =
      (settings.unfiltered.closing calls event).map settings.filter.veil := by
  have hevent : ∀ call, (settings.filter.veil call).event = call.event := fun _ => rfl
  exact settings.closing_map hevent calls event

theorem callsAfter_veil (settings : Settings) (calls : List OpenCall) (event : Event) :
    settings.callsAfter (calls.map settings.filter.veil) event =
      (settings.unfiltered.callsAfter calls event).map settings.filter.veil := by
  unfold callsAfter
  cases event.kind with
  | call => rfl
  | leave =>
    dsimp only
    rw [closing_veil]
    cases settings.unfiltered.closing calls event <;> simp [Closing.map]

theorem callOf?_veil (settings : Settings) (calls : List OpenCall) (event : Event) :
    settings.callOf? (calls.map settings.filter.veil) event = settings.unfiltered.callOf? calls event := by
  unfold callOf?
  rw [closing_veil]
  cases settings.unfiltered.closing calls event <;> rfl

theorem hidden_of_callsAfter (hshown : ∀ c ∈ calls, c.hidden = false) :
    ∀ c ∈ settings.unfiltered.callsAfter calls event, c.hidden = false := by
  unfold callsAfter
  intro c hc
  cases hk : event.kind with
  | call =>
    rw [hk] at hc
    rcases List.mem_cons.mp hc with rfl | hc
    · rfl
    · exact hshown c hc
  | leave =>
    rw [hk] at hc
    dsimp only at hc
    cases hclosing : settings.unfiltered.closing calls event <;> rw [hclosing] at hc
    · exact hshown c hc
    · exact hshown c (List.mem_of_mem_tail hc)
    · exact hshown c (List.mem_of_mem_tail (List.mem_of_mem_tail hc))

theorem hidden_of_closing (hshown : ∀ c ∈ calls, c.hidden = false) {back : Event} {call : OpenCall}
    (h : returned event (settings.closing calls event) = some (back, call)) : call.hidden = false := by
  cases hclosing : settings.closing calls event with
  | none =>
    rw [hclosing] at h
    cases h
  | innermost c =>
    rw [hclosing] at h
    cases h
    obtain ⟨rest, rfl, -⟩ := closing_innermost hclosing
    exact hshown call List.mem_cons_self
  | below c =>
    rw [hclosing] at h
    cases h
    obtain ⟨top, rest, rfl, -⟩ := closing_below hclosing
    exact hshown call (by simp)

theorem returned_veil (settings : Settings) (calls : List OpenCall) (event : Event) :
    returned event (settings.closing (calls.map settings.filter.veil) event) =
      (returned event (settings.unfiltered.closing calls event)).map fun r => (r.1, settings.filter.veil r.2) := by
  rw [closing_veil]
  cases settings.unfiltered.closing calls event <;> rfl

/-- The call of an event, if it has one, is hidden by the filter. -/
def hidesCallOf (settings : Settings) (calls : List OpenCall) (event : Event) : Bool :=
  (settings.unfiltered.callOf? calls event).any settings.filter.hides

theorem hidesCallOf_call (h : event.kind = .call) : settings.hidesCallOf calls event = settings.filter.hides event := by
  simp [hidesCallOf, callOf?, h]

theorem row?_of_hidden (h : settings.hidesCallOf calls event = true) :
    settings.row? (calls.map settings.filter.veil) event = none := by
  unfold hidesCallOf callOf? at h
  unfold row?
  cases hk : event.kind with
  | call =>
    simp only [hk, Option.any_some] at h
    rw [callRow?, if_pos h]
  | leave =>
    simp only [hk, Option.any_map] at h
    unfold returnRow?
    rw [returned_veil]
    cases hback : returned event (settings.unfiltered.closing calls event) with
    | none => simp [hback] at h
    | some r =>
      rw [hback, Option.any_some] at h
      have hflag : (settings.filter.veil r.2).hidden = true := h
      cases settings.layout with
      | events => exact if_pos hflag
      | edges => rfl

/-- The row of a shown call is the same where its caller is the call below, and so is that of its return. -/
theorem row?_of_shown (mode : settings.layout = .events ∨ settings.callerRule = .immediate)
    (hshown : ∀ c ∈ calls, c.hidden = false) (h : settings.hidesCallOf calls event = false) :
    settings.row? (calls.map settings.filter.veil) event = settings.unfiltered.row? calls event := by
  unfold hidesCallOf callOf? at h
  unfold row?
  cases hk : event.kind with
  | call =>
    simp only [hk, Option.any_some] at h
    have hfree : settings.unfiltered.filter.hides event = false := rfl
    have hrule : settings.unfiltered.callerRule = settings.callerRule := rfl
    simp only [callRow?, h, hfree, layout_unfiltered, Bool.false_eq_true, if_false]
    cases hl : settings.layout with
    | events => rfl
    | edges =>
      have himmediate := mode.resolve_left (by simp [hl])
      simp only [callerAmong, hrule, himmediate, List.head?_map]
      cases calls.head? <;> rfl
  | leave =>
    simp only [hk, Option.any_map] at h
    unfold returnRow?
    rw [returned_veil, layout_unfiltered]
    cases hback : returned event (settings.unfiltered.closing calls event) with
    | none => cases settings.layout <;> rfl
    | some r =>
      rw [hback, Option.any_some] at h
      have hflag : (settings.filter.veil r.2).hidden = false := h
      have hcall : r.2.hidden = false := hidden_of_closing hshown hback
      cases settings.layout with
      | events => exact (if_neg (by simp [hflag])).trans (if_neg (by simp [hcall])).symm
      | edges => rfl

theorem quietOutcome_of_shown (h : settings.hidesCallOf calls event = false) :
    settings.quietOutcome (calls.map settings.filter.veil) event = settings.unfiltered.quietOutcome calls event := by
  unfold hidesCallOf callOf? at h
  unfold quietOutcome
  cases hk : event.kind with
  | call =>
    simp only [hk, Option.any_some] at h
    have hfree : settings.unfiltered.filter.hides event = false := rfl
    simp only [h, hfree]
  | leave =>
    dsimp only
    rw [closing_veil]
    cases settings.unfiltered.closing calls event <;> rfl

theorem quietOutcome_unmatched_iff :
    settings.quietOutcome calls event = .unmatched ↔ settings.callOf? calls event = none := by
  unfold quietOutcome callOf?
  cases event.kind with
  | call => cases settings.filter.hides event <;> simp
  | leave => cases settings.closing calls event <;> simp [returned]

theorem row?_of_no_call (h : settings.callOf? calls event = none) : settings.row? calls event = none := by
  unfold callOf? at h
  unfold row?
  cases hk : event.kind with
  | call => simp [hk] at h
  | leave =>
    simp only [hk, Option.map_eq_none_iff] at h
    unfold returnRow?
    rw [h]
    cases settings.layout <;> rfl

/-- The row of a call and its caller is that of the event. -/
theorem row?_edge {row : String} (h : settings.row? calls event = some row) (edges : settings.layout = .edges) :
    event.kind = .call ∧ ∃ caller, row = Row.ofEdge event caller := by
  unfold row? at h
  cases hk : event.kind with
  | call =>
    simp only [hk, callRow?, edges, edgeRow?, Option.ite_none_left_eq_some] at h
    exact ⟨rfl, _, (Option.some.inj h.2.2).symm⟩
  | leave =>
    simp only [hk, returnRow?, edges] at h
    cases h

end Settings

/-! ### Rows known -/

/-- Of the rows of shown calls, the same are known. -/
def SeenAlike (filter : Filter) (rows : List String) (seen other : SeenRows) : Prop :=
  ∀ event caller, filter.hides event = false → Row.ofEdge event caller ∈ rows →
    (seen.Has (Row.ofEdge event caller) ↔ other.Has (Row.ofEdge event caller))

namespace SeenAlike
variable {filter : Filter} {rows : List String} {seen other : SeenRows}

theorem refl (filter : Filter) (rows : List String) (seen : SeenRows) : SeenAlike filter rows seen seen :=
  fun _ _ _ _ => .rfl

theorem meet (h : SeenAlike filter rows seen other) (row : String) :
    SeenAlike filter rows (seen.meet row.toUTF8).1 (other.meet row.toUTF8).1 := by
  intro event caller hshown hrow
  rw [has_meet, has_meet, h event caller hshown hrow]

/-- The row of a hidden call is the row of no shown one, so to know it makes no difference to them. -/
theorem meet_hidden (h : SeenAlike filter rows seen other) (told : ToldApart rows) {hidden : Event} {above : Frame}
    (hhides : filter.hides hidden = true) (hmem : Row.ofEdge hidden above ∈ rows) :
    SeenAlike filter rows seen (other.meet (Row.ofEdge hidden above).toUTF8).1 := by
  intro event caller hshown hrow
  rw [has_meet, h event caller hshown hrow]
  refine ⟨.inr, fun hmet => hmet.resolve_left fun hsame => ?_⟩
  obtain ⟨⟨hmethod, hpath, -⟩, -⟩ := ofEdge_inj.mp (told _ hrow _ hmem hsame)
  rw [filter.hides_congr (by rw [hmethod]) hpath, hhides] at hshown
  cases hshown

end SeenAlike

end MethodTrace
