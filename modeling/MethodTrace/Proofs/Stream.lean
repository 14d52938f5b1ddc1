import Mathlib.Data.List.Forall2
import MethodTrace.Proofs.Actions

/-! # The stream of a trace

Whatever a destination does, what it received and what is still buffered are together the header and one chunk for
every line that a step tried to write: the line itself, or what a failed write left of it. -/

namespace MethodTrace
open Session

namespace Step

/-- Whether a step answers that it wrote a line or failed to. -/
def attempts (x : Step) : Bool :=
  match x.action, x.answer with
  | .deliver _, .outcome outcome => outcome.isWrite
  | .mark _ _, .result (.ok ()) => x.before.ownsContext
  | .mark _ _, .result (.error (.output _)) => true
  | _, _ => false

/-- What a step that tries to write puts out: the row that is due or the line of the mark, or a part of it. -/
inductive Puts (x : Step) : ByteArray → Prop
  | row {n : Notification} {row : String} : x.action = .deliver n → x.answer = .outcome .recorded →
      x.before.dueRow? n = some row → Puts x row.toUTF8
  | partOfRow {n : Notification} {row : String} {chunk : ByteArray} : x.action = .deliver n →
      x.answer = .outcome .writeFailed → x.before.dueRow? n = some row → Output.Partial row.toUTF8 chunk →
      Puts x chunk
  | mark {label : String} {unwinding : Bool} : x.action = .mark label unwinding → x.answer = .result (.ok ()) →
      Puts x (Row.ofMark label).toUTF8
  | partOfMark {label : String} {unwinding : Bool} {fault : WriteFault} {chunk : ByteArray} :
      x.action = .mark label unwinding → x.answer = .result (.error (.output fault)) →
      Output.Partial (Row.ofMark label).toUTF8 chunk → Puts x chunk

end Step

namespace Session
variable {s t : Session}

/-- What a step adds to the stream, if the output is still held after it. -/
structure Extends (x : Step) : Prop where
  held : x.before.channel.isHeld = true
  quiet : x.attempts = false → x.after.channel.stream = x.before.channel.stream
  puts : x.attempts = true → ∃ chunk, x.Puts chunk ∧ x.after.channel.stream = x.before.channel.stream ++ chunk

theorem Extends.of_stream {x : Step} (hx : x.attempts = false)
    (hheld : x.after.channel.isHeld = x.before.channel.isHeld) (held : x.after.channel.isHeld = true)
    (hstream : x.after.channel.stream = x.before.channel.stream) : Extends x where
  held := hheld ▸ held
  quiet _ := hstream
  puts h := by
    rw [hx] at h
    cases h

theorem Extends.of_channel {x : Step} (hx : x.attempts = false) (hc : x.after.channel = x.before.channel)
    (held : x.after.channel.isHeld = true) : Extends x :=
  .of_stream hx (by rw [hc]) held (by rw [hc])

theorem Extends.of_puts {x : Step} {chunk : ByteArray} (hx : x.attempts = true)
    (held : x.before.channel.isHeld = true) (hp : x.Puts chunk)
    (hstream : x.after.channel.stream = x.before.channel.stream ++ chunk) : Extends x where
  held := held
  quiet h := by
    rw [hx] at h
    cases h
  puts _ := ⟨chunk, hp, hstream⟩

theorem deliver_extends (hs : s.Sound) (n : Notification) (held : (s.deliver n).1.channel.isHeld = true) :
    Extends (s.step (.deliver n)) := by
  have hfate := deliver_fate hs n
  have hanswer : (s.step (.deliver n)).answer = .outcome (s.deliver n).2 := rfl
  have hx : (s.step (.deliver n)).attempts = (s.deliver n).2.isWrite := rfl
  generalize hdue : s.dueRow? n = row? at hfate
  generalize (s.deliver n).2 = outcome at hfate hanswer hx
  cases hfate with
  | quiet hrow _ hc =>
    refine .of_channel (hx.trans ?_) hc held
    cases outcome <;> first | rfl | cases hrow
  | duplicate _ _ _ hc => exact .of_channel hx hc held
  | recorded _ _ hw =>
    obtain ⟨hheld, chunk, hadds, hstream⟩ := Channel.stream_of_write hw held
    refine .of_puts hx hheld (.row rfl hanswer hdue) ?_
    cases hadds
    exact hstream
  | writeFailed _ _ hw =>
    obtain ⟨hheld, chunk, hadds, hstream⟩ := Channel.stream_of_write hw held
    exact .of_puts hx hheld (.partOfRow rfl hanswer hdue hadds) hstream

theorem mark_extends (label : String) (unwinding : Bool) (held : (s.mark label unwinding).1.channel.isHeld = true) :
    Extends (s.step (.mark label unwinding)) := by
  have hanswer : (s.step (.mark label unwinding)).answer = .result (s.mark label unwinding).2 := rfl
  have hfate := mark_fate s label unwinding
  have hx : ∀ result, (s.mark label unwinding).2 = result → (s.step (.mark label unwinding)).attempts =
      Step.attempts ⟨s, .mark label unwinding, .result result, (s.mark label unwinding).1⟩ := fun _ h => h ▸ rfl
  generalize (s.mark label unwinding).2 = result at hfate hanswer hx
  replace hx := hx _ rfl
  cases hfate with
  | closed _ k => exact .of_channel hx k.channel held
  | elsewhere _ hctx k => exact .of_channel (hx.trans hctx) k.channel held
  | written _ hctx _ _ _ hw =>
    obtain ⟨hheld, chunk, hadds, hstream⟩ := Channel.stream_of_write hw held
    refine .of_puts (hx.trans hctx) hheld (.mark rfl hanswer) ?_
    cases hadds
    exact hstream
  | failed _ _ _ _ _ hw =>
    obtain ⟨hheld, chunk, hadds, hstream⟩ := Channel.stream_of_write hw held
    exact .of_puts hx hheld (.partOfMark rfl hanswer hadds) hstream

theorem perform_extends (hs : s.Sound) {action : Action} (ha : action.isSimple = true)
    (held : (s.perform action).1.channel.isHeld = true) : Extends (s.step action) := by
  cases action with
  | start => exact .of_channel rfl (start_sameTrace s).channel held
  | stop =>
    refine .of_channel rfl ?_ held
    cases ht : s.isTracing with
    | false => exact congrArg Session.channel (stop_of_not_tracing ht)
    | true => exact (stop_of_tracing ht).2.2.2
  | mark label unwinding => exact mark_extends label unwinding held
  | flush =>
    have hc : (s.perform .flush).1.channel = s.channel.flush.1 := congrArg Session.channel (flush_eq s)
    refine .of_stream rfl ?_ held ?_
    · exact (congrArg Channel.isHeld hc).trans s.channel.isHeld_flush
    · exact (congrArg Channel.stream hc).trans s.channel.flush_stream
  | close =>
    cases hc : s.isClosed with
    | true => exact .of_channel rfl (congrArg (·.1.channel) (close_of_closed hc)) held
    | false =>
      have := (close_of_open hc).2.2.2
      rw [show s.close.1.channel.isHeld = true from held] at this
      cases this
  | deliver n => exact deliver_extends hs n held
  | setFaults faults =>
    exact .of_stream rfl (s.channel.isHeld_setFaults faults) held (s.channel.setFaults_stream faults)
  | beginFinalize => exact .of_channel rfl rfl held
  | look => exact .of_channel rfl rfl held
  | enterProcess => exact .of_channel rfl rfl held
  | enterThread => exact .of_channel rfl rfl held
  | «scoped» => cases ha

theorem Reaches.stream {past : List Step} (h : Reaches s past t) (hs : s.Sound)
    (held : t.channel.isHeld = true) :
    s.channel.isHeld = true ∧ ∃ chunks, List.Forall₂ Step.Puts (past.filter Step.attempts) chunks ∧
      t.channel.stream = chunks.foldl (· ++ ·) s.channel.stream := by
  induction h with
  | nil => exact ⟨held, [], .nil, rfl⟩
  | @snoc past t action ha h ih =>
    have x := perform_extends (h.sound hs).1 ha held
    obtain ⟨hheld, chunks, hputs, hstream⟩ := ih x.held
    refine ⟨hheld, ?_⟩
    rw [List.filter_append]
    cases hx : (t.step action).attempts with
    | false =>
      refine ⟨chunks, ?_, (x.quiet hx).trans hstream⟩
      simpa [hx] using hputs
    | true =>
      obtain ⟨chunk, hchunk, hadd⟩ := x.puts hx
      refine ⟨chunks ++ [chunk], ?_, ?_⟩
      · rw [List.filter_singleton, hx]
        exact List.rel_append hputs (.cons hchunk .nil)
      · rw [List.foldl_append, ← hstream]
        exact hadd

/-- At any point of a run at which the output is held, what the destination received and what is buffered are the
header and one chunk for every line that was to be written until then. -/
theorem stream_eq_header_append_chunks {settings : Settings} {faults : Faults} {label : String} {host : Host}
    (opened : create settings { destination := { faults }, label } host = .ok s) (actions : List Action)
    {past : List Step} (hp : past <+: s.stepsOfAll actions) (held : (s.after past).channel.isHeld = true) :
    ∃ chunks, List.Forall₂ Step.Puts (past.filter Step.attempts) chunks ∧
      (s.after past).channel.stream = chunks.foldl (· ++ ·) settings.layout.header.toUTF8 := by
  have fresh := create_fresh opened
  obtain ⟨-, chunks, hputs, hstream⟩ := (reaches_upTo hp).stream fresh.sound held
  rw [fresh.stream] at hstream
  exact ⟨chunks, hputs, hstream⟩

/-- A row and a mark that the destination has no room for, and a mark after it has recovered. -/
theorem stream_eq_of_recovery :
    let actions : List Action :=
      [.start, .setFaults { limit := some 0 }, .deliver { kind := .enter, receiver := .unknown }, .flush,
        .mark "lost" false, .setFaults {}, .mark "kept" true]
    ∃ s, create { rootCalls := true } { destination := { faults := {} }, label := "" } { process := 1 } = .ok s ∧
      ∃ chunks, List.Forall₂ Step.Puts ((s.stepsOfAll actions).filter Step.attempts) chunks ∧
        (s.after (s.stepsOfAll actions)).channel.stream = chunks.foldl (· ++ ·) Layout.edges.header.toUTF8 := by
  intro actions
  obtain ⟨s, opened⟩ := create_in_memory { rootCalls := true } (by decide)
  have fresh := create_fresh opened
  have held : (s.after (s.stepsOfAll actions)).channel.isHeld = true := by
    have reaches := reaches_upTo (List.prefix_refl (s.stepsOfAll actions))
    rw [reaches.held fresh.sound (by simp [actions, stepsOfAll, steps, step]), fresh.held]
  exact ⟨s, opened, stream_eq_header_append_chunks opened actions (List.prefix_refl _) held⟩

end Session
end MethodTrace
