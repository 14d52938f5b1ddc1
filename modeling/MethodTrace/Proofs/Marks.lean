import MethodTrace.Proofs.InheritedBuffer
import MethodTrace.Proofs.LostRows

/-! # Marks

A mark is all or nothing. With its whole line in the stream the rows known are forgotten, and the calls are closed if it
unwinds (`Marked`). If the line cannot be written the session is as it was, but for what the output has done with the
line (`Unmarked`). -/

namespace MethodTrace
namespace Session
variable {s t : Session}

/-- A session and what a mark has made of it, the line of the mark being written. -/
structure Marked (s t : Session) (label : String) (unwinding : Bool) : Prop where
  stream : t.channel.stream = s.channel.stream ++ (Row.ofMark label).toUTF8
  seen : t.seen = {}
  stack : t.stack = if unwinding then s.stack.reset else s.stack
  unwound : unwinding = true → t.stack.live = [.root]
  rest : t = { s with channel := t.channel, seen := t.seen, stack := t.stack }

/-- A session and what a mark has made of it, the line of the mark not being written. At most a part of a line that is
longer than the buffer is in the stream. -/
structure Unmarked (s t : Session) (label : String) : Prop where
  stream : ∃ chunk, Output.Partial (Row.ofMark label).toUTF8 chunk ∧ t.channel.stream = s.channel.stream ++ chunk
  rest : t = { s with channel := t.channel }

/-- Elsewhere than where the session belongs, nothing is marked. Only a fork is taken note of. -/
theorem mark_elsewhere (hopen : s.isClosed = false) (hctx : s.ownsContext = false) (label : String) (unwinding : Bool) :
    s.mark label unwinding =
      ({ s with ownership := { s.ownership with broken := !s.ownsProcess } }, .ok ()) := by
  cases howns : s.ownsProcess with
  | false => exact mark_of_child hopen howns label unwinding
  | true =>
    have hthread : (s.host.thread == s.ownerThread) = false := by simpa [ownsContext, howns] using hctx
    have hbroken : s.ownership.broken = false := unbroken_of_owns howns
    rw [mark_of_foreign hopen howns hthread, Bool.not_true, ← hbroken]

theorem mark_in_context (hs : s.Sound) (held : s.channel.isHeld = true) (hopen : s.isClosed = false)
    (hctx : s.ownsContext = true) (label : String) (unwinding : Bool) :
    (s.mark label unwinding).2 = .ok () ∧ Marked s (s.mark label unwinding).1 label unwinding ∨
      ∃ fault, (s.mark label unwinding).2 = .error (.output fault) ∧ Unmarked s (s.mark label unwinding).1 label := by
  obtain ⟨chunk, hadds, hstream⟩ := Channel.write_stream held (Row.ofMark label).toUTF8
  rcases hw : s.channel.write (Row.ofMark label).toUTF8 with ⟨channel, fault | _⟩
  · rw [hw] at hadds hstream
    rw [mark_of_error hopen hctx hw]
    exact .inr ⟨fault, rfl, ⟨chunk, hadds, hstream⟩, rfl⟩
  · rw [hw] at hadds hstream
    cases hadds
    rw [mark_of_ok hopen hctx hw]
    refine .inl ⟨rfl, ?_⟩
    cases unwinding with
    | false => exact ⟨hstream, rfl, rfl, nofun, rfl⟩
    | true => exact ⟨hstream, rfl, rfl, fun _ => CallStack.live_reset hs.rooted, rfl⟩

theorem mark_ok (hopen : s.isClosed = false) (harmless : s.channel.Harmless) (label : String) (unwinding : Bool) :
    (s.mark label unwinding).2 = .ok () := by
  have hfate := mark_fate s label unwinding
  generalize (s.mark label unwinding).2 = answer at hfate
  cases hfate with
  | closed hclosed => simp [hopen] at hclosed
  | elsewhere => rfl
  | written => rfl
  | failed _ _ _ _ _ hw =>
    have hok := (harmless.write (Row.ofMark label).toUTF8).2
    rw [hw] at hok
    cases hok

/-- With an empty buffer in front of a destination that has no room left, a line that is longer than the buffer cannot
be written. -/
theorem mark_of_full (hopen : s.isClosed = false) (hctx : s.ownsContext = true) {output : Output}
    (hheld : s.channel = .held output) (hfull : output.destination.faults = { limit := some 0 })
    (hempty : output.buffer = .empty) {label : String} (hlong : Output.bufferSize ≤ (Row.ofMark label).toUTF8.size)
    (unwinding : Bool) : (s.mark label unwinding).2 = .error (.output .full) := by
  have hfault := Output.write_full hfull hempty hlong
  rcases hw : output.write (Row.ofMark label).toUTF8 with ⟨next, result⟩
  rw [hw] at hfault
  obtain rfl : result = .error .full := hfault
  have hwrite : s.channel.write (Row.ofMark label).toUTF8 = (.held next, .error .full) := by
    rw [hheld, Channel.write, hw]
  rw [mark_of_error hopen hctx hwrite]

/-! ### Every run -/

/-- Wherever a run has led, a mark is refused by a closed session, has no effect elsewhere than where the session
belongs, and is there either written with all that goes with it, or not at all. -/
theorem marked_or_unmarked {settings : Settings} {faults : Faults} {label : String} {host : Host} {s : Session}
    (opened : create settings { destination := { faults }, label } host = .ok s) (actions : List Action)
    {past : List Step} (hp : past <+: s.stepsOfAll actions) (text : String) (unwinding : Bool) :
    let t := s.after past
    let u := (t.mark text unwinding).1
    let answer := (t.mark text unwinding).2
    (t.isClosed = true → answer = .error .closed ∧ u = t) ∧
      (t.isClosed = false → t.ownsContext = false →
        answer = .ok () ∧ u = { t with ownership := { t.ownership with broken := !t.ownsProcess } }) ∧
      (t.isClosed = false → t.ownsContext = true →
        (answer = .ok () ∧ Marked t u text unwinding ∨
          ∃ fault, answer = .error (.output fault) ∧ Unmarked t u text) ∧
        (t.channel.Harmless → answer = .ok ())) := by
  intro t u answer
  have fresh := create_fresh opened
  have reaches := reaches_upTo hp
  have hsound : t.Sound := (reaches.sound fresh.sound).1
  have held : t.channel.isHeld = true ↔ t.isClosed = false := reaches.held_iff fresh.sound fresh.held_iff
  refine ⟨fun hclosed => ?_, fun hopen hctx => ?_, fun hopen hctx => ⟨?_, fun harmless => ?_⟩⟩
  · have hmark := mark_of_closed hclosed text unwinding
    exact ⟨congrArg Prod.snd hmark, congrArg Prod.fst hmark⟩
  · have hmark := mark_elsewhere hopen hctx text unwinding
    exact ⟨congrArg Prod.snd hmark, congrArg Prod.fst hmark⟩
  · exact mark_in_context hsound (held.mpr hopen) hopen hctx text unwinding
  · exact mark_ok hopen harmless text unwinding

/-- A label that is as long as the buffer. -/
def longLabel : String := String.ofList (List.replicate 8192 'a')

theorem bufferSize_le_longLabel : Output.bufferSize ≤ (Row.ofMark longLabel).toUTF8.size := by
  have hsize : longLabel.toUTF8.size = 8192 := size_long 8192
  simp only [Row.ofMark, String.toUTF8_eq_toByteArray, String.toByteArray_append, ByteArray.size_append] at hsize ⊢
  unfold Output.bufferSize
  omega

/-- Tracing, with a destination that has no room left: a line that is longer than the buffer is not written, a short
one is. -/
theorem unmarked_of_full_destination :
    let actions : List Action := [.start, .setFaults { limit := some 0 }]
    ∃ s, create {} { destination := { faults := {} }, label := "" } { process := 1 } = .ok s ∧
      let t := s.after (s.stepsOfAll actions)
      ((t.mark longLabel true).2 = .error (.output .full) ∧ Unmarked t (t.mark longLabel true).1 longLabel) ∧
        (t.mark "short" true).2 = .ok () ∧ Marked t (t.mark "short" true).1 "short" true := by
  intro actions
  obtain ⟨s, opened⟩ := create_in_memory {} (by decide)
  have fresh := create_fresh opened
  obtain ⟨output, hheld, hempty⟩ := create_drained opened
  let full : Output := { output with destination := { output.destination with faults := { limit := some 0 } } }
  have hafter : s.after (s.stepsOfAll actions) =
      { (s.enable.inPhase .tracing).say .tracingStarted with channel := s.channel.setFaults { limit := some 0 } } := by
    rw [(reaches_stepsOfAll s actions).after_eq]
    simp only [actions, performAll, perform, start_of_owner fresh.phase (ownsContext_iff.mp fresh.ownsContext).1]
    rfl
  have hopen : (s.after (s.stepsOfAll actions)).isClosed = false := by rw [hafter]; rfl
  have hctx : (s.after (s.stepsOfAll actions)).ownsContext = true := by rw [hafter]; exact fresh.ownsContext
  have hchannel : (s.after (s.stepsOfAll actions)).channel = .held full := by rw [hafter, hheld]; rfl
  have hmark := fun label => ((marked_or_unmarked opened actions (List.prefix_refl _) label true).2.2 hopen hctx).1
  refine ⟨s, opened, ?_⟩
  clear hafter
  generalize s.after (s.stepsOfAll actions) = t at hopen hctx hchannel hmark ⊢
  have herror : (t.mark longLabel true).2 = .error (.output .full) :=
    mark_of_full hopen hctx hchannel rfl hempty bufferSize_le_longLabel true
  have hok : (t.mark "short" true).2 = .ok () := by
    have hroom : full.buffer.size + (Row.ofMark "short").toUTF8.size < Output.bufferSize := by
      show output.buffer.size + _ < _
      rw [hempty]
      decide
    have hw : ∃ channel, t.channel.write (Row.ofMark "short").toUTF8 = (channel, .ok ()) := by
      rw [hchannel, Channel.write, Output.write_of_room hroom]
      exact ⟨_, rfl⟩
    obtain ⟨channel, hw⟩ := hw
    rw [mark_of_ok hopen hctx hw]
  refine ⟨⟨herror, ?_⟩, hok, ?_⟩
  · obtain ⟨hwritten, -⟩ | ⟨fault, -, hunmarked⟩ := hmark longLabel
    · cases herror.symm.trans hwritten
    · exact hunmarked
  · obtain ⟨-, hmarked⟩ | ⟨fault, hfailed, -⟩ := hmark "short"
    · exact hmarked
    · cases hok.symm.trans hfailed

end Session
end MethodTrace
