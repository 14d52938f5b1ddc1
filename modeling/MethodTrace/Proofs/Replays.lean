import MethodTrace.Proofs.Accounts
import MethodTrace.Replay

/-! # Replays of scripts

Replays on one session are read as a list of moves, oldest first: the beginning of each run, then the operations of its
script up to the first that fails. What a move does to the session are steps of it, but for what is said
(`Makes.reaches`), so that what a session keeps in its steps it keeps in replays. -/

namespace MethodTrace
open Session

/-- Whether an operation is a notification. -/
def Operation.isEvent : Operation → Bool
  | event _ _ => true
  | _ => false

namespace Replay

/-- The beginning of a run, which starts the session unless the script does that. -/
def begun (r : Replay) (script : List Operation) : Replay × Except ReplayError Unit :=
  let (session, started) := if script.contains .start then (r.session, .ok ()) else r.session.start
  ({ session, types := r.types }, started.mapError fun cause => ⟨.starting, cause⟩)

/-- What an operation does to the session. -/
def actions (r : Replay) : Operation → List Action
  | .event kind event =>
    if r.session.host.enabled then
      [.enterThread (event.thread.getD mainThread), .deliver (r.types.notification kind event).2,
        .enterThread mainThread]
    else []
  | .start => [.start]
  | .stop => [.stop]
  | .mark label unwinding => [.mark label unwinding]
  | .fork process =>
    if r.session.isClosed then [.enterProcess process]
    else if r.session.flush.2.isOk then [.flush, .enterProcess process]
    else [.flush]
  | .close => [.close]

/-- The beginning of a run, or an operation of a script, with the replay before it and after it. -/
structure Move where
  before : Replay
  operation? : Option Operation
  actions : List Action
  result : Except ReplayError Unit
  after : Replay

/-- The steps of the session in a move. -/
def Move.steps (x : Move) : List Step := x.before.session.stepsOfAll x.actions

def beginning (r : Replay) (script : List Operation) : Move where
  before := r
  operation? := none
  actions := if script.contains .start then [] else [.start]
  result := (r.begun script).2
  after := (r.begun script).1

def move (r : Replay) (position : Nat) (operation : Operation) : Move where
  before := r
  operation? := some operation
  actions := r.actions operation
  result := (r.step position operation).2
  after := (r.step position operation).1

/-- The moves of operations from a position on, up to the first that fails. -/
def moves (r : Replay) (position : Nat) : List Operation → List Move
  | [] => []
  | operation :: rest =>
    r.move position operation ::
      match (r.step position operation).2 with
      | .ok () => (r.step position operation).1.moves (position + 1) rest
      | .error _ => []

/-- The moves of a run. -/
def movesOf (r : Replay) (script : List Operation) : List Move :=
  r.beginning script ::
    match (r.begun script).2 with
    | .ok () => (r.begun script).1.moves 1 script
    | .error _ => []

/-- The moves of runs that follow each other on one session. -/
def movesOfAll (r : Replay) : List (List Operation) → List Move
  | [] => []
  | script :: rest => r.movesOf script ++ (run r.session r.types script).1.movesOfAll rest

/-- The replay after runs that follow each other on one session. -/
def runAll (r : Replay) (scripts : List (List Operation)) : Replay :=
  scripts.foldl (fun r script => (run r.session r.types script).1) r

/-- A move that can be made on a replay. -/
inductive Makes (r : Replay) : Move → Prop
  | beginning (script : List Operation) : Makes r (r.beginning script)
  | operation (position : Nat) (operation : Operation) : Makes r (r.move position operation)

/-- Moves lead from one replay to another, each going on where the last one ended. -/
inductive Plays : Replay → List Move → Replay → Prop
  | nil {r : Replay} : Plays r [] r
  | cons {r t : Replay} {x : Move} {later : List Move} : r.Makes x → Plays x.after later t → Plays r (x :: later) t

/-! ### Moves and runs -/

section
variable {r t u : Replay} {past later : List Move}

theorem run_eq (r : Replay) (script : List Operation) :
    run r.session r.types script = match r.begun script with
      | (r, .ok ()) => r.steps 1 script
      | (r, .error error) => (r, .error error) := by
  unfold run begun
  cases script.contains .start with
  | true => rfl
  | false => rcases r.session.start with ⟨session, error | _⟩ <;> rfl

theorem begun_of_open {script : List Operation} (h : r.session.isClosed = false) : (r.begun script).2 = .ok () := by
  unfold begun
  cases script.contains .start with
  | true => rfl
  | false =>
    rcases hs : r.session.start with ⟨session, error | _⟩
    · have hstart := start_of_open h
      rw [hs] at hstart
      cases hstart
    · rfl

theorem movesOf_of_begun {r : Replay} {script : List Operation} (h : (r.begun script).2 = .ok ()) :
    r.movesOf script = r.beginning script :: (r.begun script).1.moves 1 script := by
  rw [movesOf, h]

theorem Plays.append (h : Plays r past t) (more : Plays t later u) : Plays r (past ++ later) u := by
  induction h with
  | nil => exact more
  | cons hx _ ih => exact .cons hx (ih more)

theorem Plays.split (h : Plays r (past ++ later) u) : ∃ t, Plays r past t ∧ Plays t later u := by
  induction past generalizing r with
  | nil => exact ⟨r, .nil, h⟩
  | cons x past ih =>
    cases h with
    | cons hx hrest =>
      obtain ⟨t, hpast, hlater⟩ := ih hrest
      exact ⟨t, .cons hx hpast, hlater⟩

theorem plays_moves (r : Replay) (position : Nat) (operations : List Operation) :
    Plays r (r.moves position operations) (r.steps position operations).1 := by
  induction operations generalizing r position with
  | nil => exact .nil
  | cons operation rest ih =>
    unfold moves steps
    refine .cons (.operation position operation) ?_
    show Plays (r.step position operation).1 _ _
    rcases hstep : r.step position operation with ⟨t, error | _⟩
    · exact .nil
    · exact ih t (position + 1)

theorem plays_movesOf (r : Replay) (script : List Operation) :
    Plays r (r.movesOf script) (run r.session r.types script).1 := by
  rw [run_eq, movesOf]
  refine .cons (.beginning script) ?_
  show Plays (r.begun script).1 _ _
  rcases r.begun script with ⟨t, error | _⟩
  · exact .nil
  · exact plays_moves t 1 script

theorem plays_movesOfAll (r : Replay) (scripts : List (List Operation)) :
    Plays r (r.movesOfAll scripts) (r.runAll scripts) := by
  induction scripts generalizing r with
  | nil => exact .nil
  | cons script rest ih => exact (plays_movesOf r script).append (ih _)

end

/-! ### Moves and steps -/

section
variable {r t : Replay} {x : Move}

theorem deliver_session (r : Replay) (kind : ScriptEventKind) (event : ScriptEvent) :
    (r.deliver kind event).session = (r.session.performAll (r.actions (.event kind event))).1 := by
  unfold deliver actions
  cases r.session.host.enabled with
  | false => rfl
  | true => rfl

theorem fork_session (r : Replay) (process : ProcessId) :
    ∃ log, (r.fork process).1.session = { (r.session.performAll (r.actions (.fork process))).1 with log } := by
  unfold fork actions
  cases r.session.isClosed with
  | true => exact ⟨_, rfl⟩
  | false =>
    have hflush : (r.session.perform .flush).1 = r.session.flush.1 := rfl
    rcases hf : r.session.flush with ⟨session, error | _⟩ <;> rw [hf] at hflush
    · exact ⟨session.log, by simp [Except.isOk, Except.toBool, performAll, hflush]⟩
    · refine ⟨(session.say (.continuesInChild process)).log, ?_⟩
      simp [Except.isOk, Except.toBool, performAll, perform, hf, say]

/-- What a move does to the session are its actions, but for what is said. -/
theorem Makes.session (h : r.Makes x) :
    x.before = r ∧ ∃ log, x.after.session = { (r.session.performAll x.actions).1 with log } := by
  cases h with
  | beginning script =>
    refine ⟨rfl, ?_⟩
    unfold Replay.beginning Replay.begun
    cases script.contains .start with
    | true => exact ⟨_, rfl⟩
    | false => exact ⟨_, rfl⟩
  | operation position operation =>
    refine ⟨rfl, ?_⟩
    cases operation with
    | event kind event => exact ⟨_, deliver_session _ kind event⟩
    | start => exact ⟨_, rfl⟩
    | stop => exact ⟨_, rfl⟩
    | mark label unwinding =>
      show ∃ log, ((r.step position (.mark label unwinding)).1).session =
        { (r.session.mark label unwinding).1 with log }
      unfold Replay.step
      dsimp only
      rcases r.session.mark label unwinding with ⟨session, error | _⟩ <;> exact ⟨_, rfl⟩
    | fork process => exact fork_session _ process
    | close => exact ⟨_, rfl⟩

theorem Makes.reaches (h : r.Makes x) :
    ∃ t log, Reaches r.session x.steps t ∧ x.after.session = { t with log } := by
  obtain ⟨hbefore, log, hafter⟩ := h.session
  exact ⟨_, log, hbefore ▸ reaches_stepsOfAll x.before.session x.actions, hbefore ▸ hafter⟩

/-- What an action of a move is like, by the operation of the move. -/
structure Suits (operation? : Option Operation) (action : Action) : Prop where
  simple : action.isSimple = true
  lasting : action ≠ .beginFinalize
  event : action.delivers = true → operation?.any Operation.isEvent = true
  fork : ∀ process, action = .enterProcess process → operation? = some (.fork process)

theorem Makes.suits (h : r.Makes x) : ∀ action ∈ x.actions, Suits x.operation? action := by
  cases h with
  | beginning script =>
    show ∀ action ∈ (if script.contains .start then [] else [.start] : List Action), Suits none action
    split
    · exact nofun
    · exact List.forall_mem_singleton.mpr ⟨rfl, nofun, nofun, nofun⟩
  | operation position operation =>
    show ∀ action ∈ r.actions operation, Suits (some operation) action
    have enters : ∀ process, Suits (some (.fork process)) (.enterProcess process) := fun process =>
      ⟨rfl, nofun, nofun, fun _ h => by rw [Action.enterProcess.inj h]⟩
    unfold Replay.actions
    cases operation with
    | event kind event =>
      dsimp only
      split
      · simp only [List.forall_mem_cons]
        exact ⟨⟨rfl, nofun, nofun, nofun⟩, ⟨rfl, by simp, fun _ => rfl, by simp⟩, ⟨rfl, nofun, nofun, nofun⟩, nofun⟩
      · exact nofun
    | fork process =>
      dsimp only
      split_ifs
      · exact List.forall_mem_singleton.mpr (enters process)
      · exact List.forall_mem_cons.mpr ⟨⟨rfl, nofun, nofun, nofun⟩, List.forall_mem_singleton.mpr (enters process)⟩
      · exact List.forall_mem_singleton.mpr ⟨rfl, nofun, nofun, nofun⟩
    | _ => exact List.forall_mem_singleton.mpr ⟨rfl, nofun, nofun, nofun⟩

theorem steps_of_simple (s : Session) {action : Action} (ha : action.isSimple = true) :
    s.steps action = [s.step action] := by
  cases action with
  | «scoped» => cases ha
  | _ => rfl

theorem exists_of_mem_stepsOfAll (s : Session) {actions : List Action} (h : ∀ action ∈ actions, action.isSimple = true)
    {y : Step} (hy : y ∈ s.stepsOfAll actions) : ∃ t : Session, ∃ action ∈ actions, y = t.step action := by
  induction actions generalizing s with
  | nil => cases hy
  | cons action rest ih =>
    obtain ⟨ha, hrest⟩ := List.forall_mem_cons.mp h
    rw [stepsOfAll, steps_of_simple s ha] at hy
    rcases List.mem_cons.mp hy with rfl | hy
    · exact ⟨s, action, List.mem_cons_self, rfl⟩
    · obtain ⟨t, later, hlater, rfl⟩ := ih _ hrest hy
      exact ⟨t, later, List.mem_cons_of_mem _ hlater, rfl⟩

/-- Each step of a move does one of its actions. -/
theorem Makes.step_suits (h : r.Makes x) {y : Step} (hy : y ∈ x.steps) :
    ∃ t : Session, ∃ action, Suits x.operation? action ∧ y = t.step action := by
  have simple : ∀ action ∈ x.actions, action.isSimple = true := fun action ha => (h.suits action ha).simple
  obtain ⟨t, action, ha, rfl⟩ := exists_of_mem_stepsOfAll x.before.session simple hy
  exact ⟨t, action, h.suits action ha, rfl⟩

/-- Replays do not tell the session that its host shuts down. -/
theorem Makes.not_beginFinalize (h : r.Makes x) : ∀ y ∈ x.steps, y.action ≠ .beginFinalize := by
  intro y hy
  obtain ⟨t, action, ha, rfl⟩ := h.step_suits hy
  exact ha.lasting

/-- Only notifications are delivered. -/
theorem Makes.quiet (h : r.Makes x) (hx : x.operation?.any Operation.isEvent = false) :
    ∀ y ∈ x.steps, y.delivers = false ∧ y.outcome? = none := by
  intro y hy
  obtain ⟨t, action, ha, rfl⟩ := h.step_suits hy
  have hquiet : action.delivers = false := eq_false_of_ne_true fun hd => by simp [ha.event hd] at hx
  refine ⟨hquiet, ?_⟩
  cases action with
  | deliver n => cases hquiet
  | «scoped» => cases ha.simple
  | _ => rfl

end

/-! ### What replays keep -/

/-- What holds of a session in every run, and so in replays. -/
structure Kept (host : Host) (s : Session) : Prop where
  sound : s.Sound
  held : s.channel.isHeld = true ↔ s.isClosed = false
  owner : s.ownership.owner = host.process
  order : host.enabled = false → InOrder host s

section
variable {host : Host} {s t : Session} {r : Replay} {x : Move} {past : List Step}

theorem Kept.of_fresh {settings : Settings} (h : Fresh settings host s) : Kept host s where
  sound := h.sound
  held := h.held_iff
  owner := by rw [h.ownership]
  order := h.inOrder

theorem Kept.of_log (h : Kept host s) (log : Array Diagnostic) : Kept host { s with log } where
  sound := ⟨h.sound.stack, h.sound.rooted⟩
  held := h.held
  owner := h.owner
  order off := (h.order off).of_same rfl rfl rfl

theorem Kept.reaches (h : Kept host s) (reaches : Reaches s past t) : Kept host t where
  sound := (reaches.sound h.sound).1
  held := reaches.held_iff h.sound h.held
  owner := (reaches.owner h.sound).trans h.owner
  order off := reaches.inOrder h.sound (h.order off)

theorem Makes.kept (h : r.Makes x) (k : Kept host r.session) : Kept host x.after.session := by
  obtain ⟨t, log, hreaches, hafter⟩ := h.reaches
  rw [hafter]
  exact (k.reaches hreaches).of_log log

theorem Plays.kept {r t : Replay} {past : List Move} (h : Plays r past t) (k : Kept host r.session) :
    Kept host t.session := by
  induction h with
  | nil => exact k
  | cons hx _ ih => exact ih (hx.kept k)

end

/-! ### Totals -/

theorem Makes.untold {r : Replay} {x : Move} (h : r.Makes x) (hx : x.operation?.any Operation.isEvent = false) :
    x.steps.countP Step.delivers = 0 ∧ answers .recorded x.steps = 0 :=
  ⟨List.countP_eq_zero.mpr fun y hy => by simp [(h.quiet hx y hy).1],
    List.countP_eq_zero.mpr fun y hy => by simp [(h.quiet hx y hy).2]⟩

theorem totals_of_quiet (r : Replay) (position : Nat) {operation : Operation} (h : operation.isEvent = false) :
    (r.step position operation).1.totals = { r.totals with operations := r.totals.operations + 1 } := by
  cases operation with
  | event => cases h
  | start => rfl
  | stop => rfl
  | mark label unwinding => rfl
  | fork process =>
    unfold Replay.step fork
    dsimp only
    split <;> rfl
  | close => rfl

/-- What a replay counts for an operation is what its steps deliver and what they answer. -/
theorem totals_step (r : Replay) (position : Nat) (operation : Operation) :
    let x := r.move position operation
    x.after.totals.operations = r.totals.operations + 1 ∧
      x.after.totals.delivered = r.totals.delivered + x.steps.countP Step.delivers ∧
      x.after.totals.delivered + x.after.totals.undelivered =
        r.totals.delivered + r.totals.undelivered + operation.isEvent.toNat ∧
      x.after.totals.recorded = r.totals.recorded + answers .recorded x.steps := by
  intro x
  cases hevent : operation.isEvent with
  | false =>
    obtain ⟨hdelivers, hrecorded⟩ : x.steps.countP Step.delivers = 0 ∧ answers .recorded x.steps = 0 :=
      (Makes.operation position operation).untold hevent
    have htotals : x.after.totals = _ := totals_of_quiet r position hevent
    rw [htotals, hdelivers, hrecorded]
    exact ⟨rfl, rfl, rfl, rfl⟩
  | true =>
    obtain ⟨kind, event, rfl⟩ : ∃ kind event, operation = .event kind event := by
      cases operation with
      | event kind event => exact ⟨kind, event, rfl⟩
      | _ => cases hevent
    have htotals : x.after.totals = (deliver { r with totals := { r.totals with
        operations := r.totals.operations + 1 } } kind event).totals := rfl
    have hsteps : x.steps = r.session.stepsOfAll (r.actions (.event kind event)) := rfl
    rw [htotals, hsteps]
    unfold deliver Replay.actions
    dsimp only
    cases r.session.host.enabled with
    | false => exact ⟨rfl, rfl, (Nat.add_assoc ..).symm, rfl⟩
    | true =>
      refine ⟨rfl, rfl, Nat.add_right_comm .., congrArg (r.totals.recorded + ·) ?_⟩
      -- Of the three steps of a notification only the middle one has an answer.
      let inThread := (r.session.perform (.enterThread (event.thread.getD mainThread))).1
      let n := (r.types.notification kind event).2
      have hanswers : answers .recorded [r.session.step (.enterThread (event.thread.getD mainThread)),
          inThread.step (.deliver n), (inThread.deliver n).1.step (.enterThread mainThread)] =
            if (inThread.deliver n).2 = .recorded then 1 else 0 := by
        simp [answers, List.countP_cons, Step.outcome?, Session.step, perform]
      exact hanswers.symm

/-! ### Deliveries -/

section
variable {host : Host} {r t u : Replay} {x : Move}

/-- A notification is delivered in its thread, and only while delivery is on. -/
theorem Makes.delivered (h : r.Makes x) {y : Step} (hy : y ∈ x.steps) (hd : y.delivers = true) :
    r.session.host.enabled = true ∧
      ∃ thread n, y = (r.session.perform (.enterThread thread)).1.step (.deliver n) := by
  cases hevent : x.operation?.any Operation.isEvent with
  | false => simp [(h.quiet hevent y hy).1] at hd
  | true =>
    cases h with
    | beginning => cases hevent
    | operation position operation =>
      cases operation with
      | event kind event =>
        replace hy : y ∈ r.session.stepsOfAll (r.actions (.event kind event)) := hy
        rw [Replay.actions] at hy
        split at hy
        next hon =>
          refine ⟨hon, event.thread.getD mainThread, (r.types.notification kind event).2, ?_⟩
          rcases List.mem_cons.mp hy with rfl | hy
          · cases hd
          · rcases List.mem_cons.mp hy with rfl | hy
            · rfl
            · rw [List.mem_singleton.mp hy] at hd
              cases hd
        · cases hy
      | _ => cases hevent

theorem deliver_timely {s : Session} (hs : s.Sound) (htracing : s.isTracing = true) (hfin : s.finalizing = false)
    (n : Notification) : (s.deliver n).2 ≠ .ignored .notTracing ∧ (s.deliver n).2 ≠ .ignored .finalizing := by
  cases hi : s.ignores? n with
  | none =>
    obtain ⟨event, he⟩ := hears_of_heeded hi
    exact ⟨deliver_heeded hs he _, deliver_heeded hs he _⟩
  | some reason =>
    have hreason : reason ≠ .notTracing ∧ reason ≠ .finalizing := by
      unfold ignores? at hi
      cases hd : s.deafness? with
      | some first =>
        rw [hd, Option.some_or, Option.some.injEq] at hi
        simp only [deafness?, hfin, htracing, Bool.not_true, Bool.false_eq_true, if_false] at hd
        split_ifs at hd <;> cases hd <;> rw [← hi] <;> decide
      | none =>
        rw [hd, Option.none_or] at hi
        unfold Settings.disregards? at hi
        split at hi
        · cases hi
          decide
        · split_ifs at hi
          cases hi
          decide
    rw [(deliver_ignored hi).2.1]
    exact ⟨fun h => hreason.1 (Outcome.ignored.inj h), fun h => hreason.2 (Outcome.ignored.inj h)⟩

/-- What holds of a session to which nothing but replays is done. -/
structure Replayed (host : Host) (s : Session) : Prop extends Kept host s where
  finalizing : s.finalizing = false
  notTracing : s.counters.ignored.notTracing = 0
  late : s.counters.ignored.finalizing = 0

/-- The notifications that a replay delivers to a session between two points, and the rows that it sees recorded, are
those that the session counts. -/
structure Agrees (r t : Replay) : Prop where
  delivered : t.session.counters.events + t.session.counters.ignored.forkedChild +
      t.session.counters.ignored.foreignThread + r.totals.delivered =
    r.session.counters.events + r.session.counters.ignored.forkedChild + r.session.counters.ignored.foreignThread +
      t.totals.delivered
  recorded : t.session.counters.records + r.totals.recorded = r.session.counters.records + t.totals.recorded

theorem Agrees.trans (h : Agrees r t) (more : Agrees t u) : Agrees r u where
  delivered := by
    have := h.delivered
    have := more.delivered
    omega
  recorded := by
    have := h.recorded
    have := more.recorded
    omega

/-- The session has not been told yet that its host shuts down, and got no notification but those of the replays. -/
theorem Replayed.of_fresh {settings : Settings} {s s' : Session} (fresh : Fresh settings host s)
    (hcounters : s.counters = {}) {past : List Step} (reaches : Reaches s past s')
    (hprior : ∀ y ∈ past, y.delivers = false ∧ y.action ≠ .beginFinalize) : Replayed host s' := by
  have hsame : s'.counters = {} := (reaches.counters fun y hy => (hprior y hy).1).trans hcounters
  refine ⟨(Kept.of_fresh fresh).reaches reaches, eq_false_of_ne_true fun hlate => ?_, by rw [hsame], by rw [hsame]⟩
  rcases (reaches.finalizing_iff fresh.sound).mp hlate with hlate | ⟨y, hy, hbegin⟩
  · simp [fresh.finalizing] at hlate
  · exact (hprior y hy).2 hbegin

/-- What a move adds to the counters of the session. -/
theorem Makes.posts (off : host.enabled = false) (h : r.Makes x) (k : Replayed host r.session) :
    ∃ gain, x.after.session.counters = r.session.counters.plus gain ∧ Balanced r.session.settings x.steps gain ∧
      gain.ignored.notTracing = 0 ∧ gain.ignored.finalizing = 0 := by
  obtain ⟨t, log, hreaches, hafter⟩ := h.reaches
  obtain ⟨gain, hcounters, hbalanced, -⟩ := hreaches.posts k.sound
  have timely : ∀ y ∈ x.steps, y.outcome? ≠ some (.ignored .notTracing) ∧ y.outcome? ≠ some (.ignored .finalizing) := by
    intro y hy
    cases hd : y.delivers with
    | false =>
      have hnone : y.outcome? = none := by simpa [hd] using hbalanced.answered y hy
      simp [hnone]
    | true =>
      obtain ⟨hon, thread, n, rfl⟩ := h.delivered hy hd
      have htracing := (k.order off).tracing_of_enabled hon
      have hs : (r.session.perform (.enterThread thread)).1.Sound := (perform_sound k.sound rfl).1
      obtain ⟨hnot, hlate⟩ := deliver_timely hs htracing k.finalizing n
      exact ⟨fun ho => hnot (Option.some.inj ho), fun ho => hlate (Option.some.inj ho)⟩
  have hnone : ∀ reason, (∀ y ∈ x.steps, y.outcome? ≠ some (.ignored reason)) → gain.ignored.count reason = 0 := by
    intro reason hno
    rw [hbalanced.ignored]
    exact List.countP_eq_zero.mpr fun y hy => by simpa using hno y hy
  exact ⟨gain, by rw [hafter]; exact hcounters, hbalanced, hnone .notTracing fun y hy => (timely y hy).1,
    hnone .finalizing fun y hy => (timely y hy).2⟩

theorem Makes.replayed (off : host.enabled = false) (h : r.Makes x) (k : Replayed host r.session) :
    Replayed host x.after.session := by
  obtain ⟨gain, hcounters, -, hnotTracing, hlate⟩ := h.posts off k
  obtain ⟨t, log, hreaches, hafter⟩ := h.reaches
  refine ⟨h.kept k.toKept, ?_, ?_, ?_⟩
  · have hfin := hreaches.finalizing_iff k.sound
    rw [hafter]
    refine eq_false_of_ne_true fun hon => ?_
    rcases hfin.mp hon with hon | ⟨y, hy, hbegin⟩
    · simp [k.finalizing] at hon
    · exact h.not_beginFinalize y hy hbegin
  · rw [hcounters]
    show r.session.counters.ignored.notTracing + gain.ignored.notTracing = 0
    rw [k.notTracing, hnotTracing]
  · rw [hcounters]
    show r.session.counters.ignored.finalizing + gain.ignored.finalizing = 0
    rw [k.late, hlate]

theorem Makes.agrees (off : host.enabled = false) (h : r.Makes x) (k : Replayed host r.session)
    (hdelivered : x.after.totals.delivered = r.totals.delivered + x.steps.countP Step.delivers)
    (hrecorded : x.after.totals.recorded = r.totals.recorded + answers .recorded x.steps) : Agrees r x.after := by
  obtain ⟨gain, hcounters, hbalanced, hnotTracing, hlate⟩ := h.posts off k
  have hdeliveries := hbalanced.deliveries
  have hrecords := hbalanced.records
  constructor <;> rw [hcounters] <;> simp only [Counters.plus, IgnoreCounts.plus]
  · omega
  · omega

/-- What a run delivers until it ends or fails. -/
theorem steps_agrees (off : host.enabled = false) (operations : List Operation) (k : Replayed host r.session)
    (position : Nat) :
    Agrees r (r.steps position operations).1 ∧ ((r.steps position operations).2 = .ok () →
      (r.steps position operations).1.totals.operations = r.totals.operations + operations.length ∧
      (r.steps position operations).1.totals.delivered + (r.steps position operations).1.totals.undelivered =
        r.totals.delivered + r.totals.undelivered + operations.countP Operation.isEvent) := by
  induction operations generalizing r position with
  | nil => exact ⟨⟨rfl, rfl⟩, fun _ => ⟨rfl, rfl⟩⟩
  | cons operation rest ih =>
    have h : r.Makes (r.move position operation) := .operation position operation
    obtain ⟨hoperations, hdelivered, htaken, hrecorded⟩ := totals_step r position operation
    have hfirst := h.agrees off k hdelivered hrecorded
    have hkept := h.replayed off k
    simp only [move] at hfirst hkept hoperations htaken
    unfold steps
    rcases hstep : r.step position operation with ⟨t, error | _⟩ <;> rw [hstep] at hfirst hkept hoperations htaken
    · exact ⟨hfirst, nofun⟩
    · obtain ⟨hrest, hall⟩ := ih hkept (position + 1)
      refine ⟨hfirst.trans hrest, fun hok => ?_⟩
      obtain ⟨hcount, hevents⟩ := hall hok
      rw [hcount, hevents, hoperations, htaken, List.length_cons, List.countP_cons]
      refine ⟨by omega, ?_⟩
      cases operation.isEvent with
      | false => rfl
      | true =>
        simp only [Bool.toNat_true, if_true]
        omega

theorem Plays.replayed (off : host.enabled = false) {past : List Move} (h : Plays r past t)
    (k : Replayed host r.session) :
    Replayed host t.session ∧ ∀ x ∈ past, Replayed host x.before.session ∧ Replayed host x.after.session := by
  induction h with
  | nil => exact ⟨k, by simp⟩
  | cons hx _ ih =>
    have hafter := hx.replayed off k
    obtain ⟨hlast, hall⟩ := ih hafter
    exact ⟨hlast, List.forall_mem_cons.mpr ⟨⟨hx.session.1 ▸ k, hafter⟩, hall⟩⟩

theorem begun_agrees (off : host.enabled = false) (k : Replayed host r.session) (script : List Operation) :
    Agrees { session := r.session, types := r.types } (r.begun script).1 := by
  let start : Replay := { session := r.session, types := r.types }
  have h : start.Makes (start.beginning script) := .beginning script
  obtain ⟨hdelivers, hrecorded⟩ := h.untold rfl
  exact h.agrees off k (by rw [hdelivers]; rfl) (by rw [hrecorded]; rfl)

/-- What a run delivers, and how many operations and notifications it comes to if it does not fail. -/
theorem run_agrees (off : host.enabled = false) (k : Replayed host r.session) (script : List Operation) :
    Agrees { session := r.session, types := r.types } (run r.session r.types script).1 ∧
      ((run r.session r.types script).2 = .ok () →
        (run r.session r.types script).1.totals.operations = script.length ∧
        (run r.session r.types script).1.totals.delivered + (run r.session r.types script).1.totals.undelivered =
          script.countP Operation.isEvent) := by
  have hbegun := begun_agrees off k script
  have hkept : Replayed host (r.begun script).1.session := (Makes.beginning script).replayed off k
  have htotals : (r.begun script).1.totals = {} := rfl
  rw [run_eq]
  rcases hstart : r.begun script with ⟨t, error | _⟩ <;> rw [hstart] at hbegun hkept htotals
  · exact ⟨hbegun, nofun⟩
  · obtain ⟨hrest, hall⟩ := steps_agrees off script hkept 1
    refine ⟨hbegun.trans hrest, fun hok => ?_⟩
    obtain ⟨hcount, hevents⟩ := hall hok
    rw [htotals] at hcount hevents
    exact ⟨hcount.trans (Nat.zero_add _), hevents.trans (Nat.zero_add _)⟩

end

/-- Replays deliver to a session only while it is tracing. Each run tells how many operations and notifications it came
to, and agrees with the session about those that it delivered and those that were recorded. -/
theorem delivered_while_tracing {settings : Settings} {faults : Faults} {label : String} {host : Host} {s : Session}
    (opened : Session.create settings { destination := { faults }, label } host = .ok s) (off : host.enabled = false)
    {actions : List Action} (hprior : ∀ y ∈ s.stepsOfAll actions, y.delivers = false ∧ y.action ≠ .beginFinalize)
    (types : TypeTable) (scripts : List (List Operation)) (script : List Operation) :
    let first : Replay := { session := (s.performAll actions).1, types }
    let r := first.runAll scripts
    let u := (run r.session r.types script).1
    (∀ x ∈ first.movesOfAll (scripts ++ [script]),
        (x.before.session.host.enabled = true → x.before.session.isTracing = true) ∧
        x.after.session.counters.ignored.notTracing = 0 ∧ x.after.session.counters.ignored.finalizing = 0) ∧
      u.session.counters.events + u.session.counters.ignored.forkedChild + u.session.counters.ignored.foreignThread =
        r.session.counters.events + r.session.counters.ignored.forkedChild + r.session.counters.ignored.foreignThread +
          u.totals.delivered ∧
      u.session.counters.records = r.session.counters.records + u.totals.recorded ∧
      ((run r.session r.types script).2 = .ok () → u.totals.operations = script.length ∧
        u.totals.delivered + u.totals.undelivered = script.countP Operation.isEvent) := by
  intro first r u
  have hfirst : Replayed host first.session :=
    .of_fresh (create_fresh opened) (create_counters opened) (reaches_stepsOfAll s actions) hprior
  obtain ⟨hlast, -⟩ := (plays_movesOfAll first scripts).replayed off hfirst
  obtain ⟨-, hall⟩ := (plays_movesOfAll first (scripts ++ [script])).replayed off hfirst
  obtain ⟨hagrees, hok⟩ := run_agrees off hlast script
  refine ⟨fun x hx => ?_, hagrees.delivered, hagrees.recorded, hok⟩
  obtain ⟨hbefore, hafter⟩ := hall x hx
  exact ⟨(hbefore.order off).tracing_of_enabled, hafter.notTracing, hafter.late⟩

/-- A session that was started before a script that forks, with a notification of another thread and one of the child, then
a script that starts and stops in the child. -/
theorem delivered_across_fork :
    let call (thread : Option ThreadId) : Operation := .event .call { receiver := .unknown, thread }
    let parent := [call none, call (some 2), .fork 2, call none]
    let child := [.start, call none, .stop, call none]
    let actions : List Action := [.start, .mark "before" true]
    ∃ s, Session.create {} { destination := { faults := {} }, label := "" } { process := 1 } = .ok s ∧
      let first : Replay := { session := (s.performAll actions).1 }
      let r := first.runAll [parent]
      let u := (run r.session r.types child).1
      (∀ x ∈ first.movesOfAll [parent, child],
          (x.before.session.host.enabled = true → x.before.session.isTracing = true) ∧
          x.after.session.counters.ignored.notTracing = 0 ∧ x.after.session.counters.ignored.finalizing = 0) ∧
        u.session.counters.events + u.session.counters.ignored.forkedChild + u.session.counters.ignored.foreignThread =
          r.session.counters.events + r.session.counters.ignored.forkedChild +
            r.session.counters.ignored.foreignThread + u.totals.delivered ∧
        u.session.counters.records = r.session.counters.records + u.totals.recorded ∧
        ((run r.session r.types child).2 = .ok () →
          u.totals.operations = 4 ∧ u.totals.delivered + u.totals.undelivered = 2) := by
  intro call parent child actions
  obtain ⟨s, opened⟩ := create_in_memory {} (by decide)
  have hprior : ∀ y ∈ s.stepsOfAll actions, y.delivers = false ∧ y.action ≠ .beginFinalize := by
    simp [actions, stepsOfAll, Session.steps, Session.step, Step.delivers, Action.delivers]
  exact ⟨s, opened, delivered_while_tracing opened rfl hprior {} [parent] child⟩

end Replay
end MethodTrace
