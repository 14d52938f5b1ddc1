import Mathlib.Data.List.Forall2
import Mathlib.Data.List.Induction
import MethodTrace.Session.Scope

/-! # The steps of a run

A run is read as a list of steps, oldest first. A scope is no step: it is its start, the steps of its body and its
stop. What every step keeps, every run keeps (`Reaches`), also up to a point inside a scope. -/

namespace MethodTrace

/-- Something done to a session that is no scope, with the session before and after it. -/
structure Step where
  before : Session
  action : Action
  answer : Answer
  after : Session

/-- Whether an action is done in one step. -/
def Action.isSimple : Action → Bool
  | .scoped _ _ => false
  | _ => true

theorem Step.countP_single (p : Step → Bool) (x : Step) : [x].countP p = (p x).toNat := by
  cases hx : p x <;> simp [hx]

namespace Session

def step (s : Session) (action : Action) : Step := ⟨s, action, (s.perform action).2, (s.perform action).1⟩

mutual

/-- The steps of an action. -/
def steps (s : Session) : Action → List Step
  | .scoped body _ =>
    match s.start with
    | (_, .error _) => [s.step .start]
    | (t, .ok ()) => s.step .start :: (t.stepsOfAll body ++ [(t.performAll body).1.step .stop])
  | .start => [s.step .start]
  | .stop => [s.step .stop]
  | .mark label unwinding => [s.step (.mark label unwinding)]
  | .flush => [s.step .flush]
  | .close => [s.step .close]
  | .beginFinalize => [s.step .beginFinalize]
  | .deliver n => [s.step (.deliver n)]
  | .look => [s.step .look]
  | .enterProcess process => [s.step (.enterProcess process)]
  | .enterThread thread => [s.step (.enterThread thread)]
  | .setFaults faults => [s.step (.setFaults faults)]

/-- The steps of one action after the other. -/
def stepsOfAll (s : Session) : List Action → List Step
  | [] => []
  | action :: rest => s.steps action ++ (s.perform action).1.stepsOfAll rest

end

/-- The session after the steps of a run up to some point. -/
def after (s : Session) (past : List Step) : Session := (past.getLast?.map Step.after).getD s

/-- Steps lead from one session to another, each going on where the last one ended. -/
inductive Reaches (s : Session) : List Step → Session → Prop
  | nil : Reaches s [] s
  | snoc {past : List Step} {t : Session} (action : Action) : action.isSimple = true → Reaches s past t →
      Reaches s (past ++ [t.step action]) (t.perform action).1

namespace Reaches
variable {s t u : Session} {past later : List Step}

theorem single {action : Action} (ha : action.isSimple = true) : Reaches s [s.step action] (s.perform action).1 :=
  .snoc action ha .nil

theorem trans (h₁ : Reaches s past t) (h₂ : Reaches t later u) : Reaches s (past ++ later) u := by
  induction h₂ with
  | nil => rwa [List.append_nil]
  | snoc action ha _ ih =>
    rw [← List.append_assoc]
    exact .snoc action ha ih

theorem after_eq (h : Reaches s past t) : s.after past = t := by
  cases h with
  | nil => rfl
  | snoc => simp [Session.after, Session.step]

theorem upTo (h : Reaches s past t) {earlier : List Step} (hp : earlier <+: past) :
    Reaches s earlier (s.after earlier) := by
  induction h with
  | nil =>
    rw [List.prefix_nil.mp hp]
    exact .nil
  | snoc action ha h ih =>
    rcases List.prefix_concat_iff.mp hp with rfl | hp
    · have h := Reaches.snoc action ha h
      rwa [h.after_eq]
    · exact ih hp

theorem last {x : Step} (h : Reaches s (past ++ [x]) t) :
    Reaches s past x.before ∧ ∃ action, action.isSimple = true ∧ x = x.before.step action := by
  generalize hp : past ++ [x] = whole at h
  cases h with
  | nil => simp at hp
  | snoc action ha h =>
    obtain ⟨rfl, hx⟩ := List.append_inj' hp rfl
    cases hx
    exact ⟨h, action, ha, rfl⟩

/-- A run can be cut in two at any point. -/
theorem split {earlier later : List Step} (h : Reaches s (earlier ++ later) t) :
    Reaches s earlier (s.after earlier) ∧ Reaches (s.after earlier) later t := by
  induction later using List.reverseRecOn generalizing t with
  | nil =>
    rw [List.append_nil] at h
    rw [h.after_eq]
    exact ⟨h, .nil⟩
  | append_singleton later x ih =>
    rw [← List.append_assoc] at h
    obtain ⟨hbefore, action, ha, hx⟩ := h.last
    obtain ⟨hearlier, hlater⟩ := ih hbefore
    have ht : t = (x.before.perform action).1 := by
      rw [← h.after_eq, hx]
      simp [Session.after, Session.step]
    rw [ht, hx]
    exact ⟨hearlier, .snoc action ha hlater⟩

theorem first {x : Step} {later : List Step} (h : Reaches s (x :: later) t) :
    ∃ action, action.isSimple = true ∧ x = s.step action ∧ Reaches (s.perform action).1 later t := by
  have hcut : Reaches s ([x] ++ later) t := h
  obtain ⟨hx, hlater⟩ := hcut.split
  replace hx : Reaches s ([] ++ [x]) (s.after [x]) := hx
  obtain ⟨hnil, action, ha, heq⟩ := hx.last
  have hbefore : x.before = s := hnil.after_eq.symm
  rw [hbefore] at heq
  have hafter : s.after [x] = (s.perform action).1 := by
    rw [heq]
    rfl
  exact ⟨action, ha, heq, hafter ▸ hlater⟩

theorem of_mem {x : Step} (h : Reaches s past t) (hx : x ∈ past) :
    ∃ earlier, earlier ++ [x] <+: past ∧ Reaches s earlier x.before ∧
      ∃ action, action.isSimple = true ∧ x = x.before.step action := by
  obtain ⟨earlier, later, rfl⟩ := List.append_of_mem hx
  have hup : earlier ++ [x] <+: earlier ++ x :: later := ⟨later, by simp⟩
  exact ⟨earlier, hup, (h.upTo hup).last⟩

/-- The step at a place goes on from what is before it. -/
theorem of_getElem? {x : Step} {j : Nat} (h : Reaches s past t) (hx : past[j]? = some x) :
    past.take j ++ [x] <+: past ∧ Reaches s (past.take j) x.before ∧
      ∃ action, action.isSimple = true ∧ x = x.before.step action := by
  obtain ⟨hj, rfl⟩ := List.getElem?_eq_some_iff.mp hx
  have hup : past.take j ++ [past[j]] <+: past := by
    rw [List.take_append_getElem hj]
    exact List.take_prefix _ _
  exact ⟨hup, (h.upTo hup).last⟩

end Reaches

theorem single_stop (s : Session) : Reaches s [s.step .stop] s.stop := .single rfl

mutual

theorem reaches_steps (s : Session) : ∀ action, Reaches s (s.steps action) (s.perform action).1
  | .scoped body panic => by
    unfold steps perform
    have hstart : Reaches s [s.step .start] s.start.1 := .single rfl
    rcases hs : s.start with ⟨t, error | _⟩
    · rw [hs] at hstart
      exact hstart
    · rw [hs] at hstart
      have hbody := reaches_stepsOfAll t body
      exact hstart.trans (hbody.trans (single_stop _))
  | .start => .single rfl
  | .stop => .single rfl
  | .mark _ _ => .single rfl
  | .flush => .single rfl
  | .close => .single rfl
  | .beginFinalize => .single rfl
  | .deliver _ => .single rfl
  | .look => .single rfl
  | .enterProcess _ => .single rfl
  | .enterThread _ => .single rfl
  | .setFaults _ => .single rfl

theorem reaches_stepsOfAll (s : Session) : ∀ actions, Reaches s (s.stepsOfAll actions) (s.performAll actions).1
  | [] => .nil
  | action :: rest => (reaches_steps s action).trans (reaches_stepsOfAll (s.perform action).1 rest)

end

/-- A run up to any point, also inside a scope. -/
theorem reaches_upTo {s : Session} {actions : List Action} {past : List Step}
    (hp : past <+: s.stepsOfAll actions) : Reaches s past (s.after past) :=
  (reaches_stepsOfAll s actions).upTo hp

/-! ### Actions that follow each other, and scopes -/

section
variable {s t : Session}

theorem stepsOfAll_single (t : Session) (action : Action) : t.stepsOfAll [action] = t.steps action :=
  List.append_nil _

theorem performAll_single (t : Session) (action : Action) : (t.performAll [action]).1 = (t.perform action).1 := rfl

theorem scope_refused {error : SessionError} (h : s.start = (t, .error error)) (body : List Action)
    (panic : Option String) :
    s.steps (.scoped body panic) = [s.step .start] ∧ (s.perform (.scoped body panic)).1 = t := by
  unfold steps perform
  rw [h]
  exact ⟨rfl, rfl⟩

theorem scope_entered (h : s.start = (t, .ok ())) (body : List Action) (panic : Option String) :
    s.steps (.scoped body panic) = s.step .start :: (t.stepsOfAll body ++ [(t.performAll body).1.step .stop]) ∧
      (s.perform (.scoped body panic)).1 = (t.performAll body).1.stop := by
  unfold steps perform
  rw [h]
  exact ⟨rfl, rfl⟩

theorem performAll_append (s : Session) (actions more : List Action) :
    (s.performAll (actions ++ more)).1 = ((s.performAll actions).1.performAll more).1 := by
  induction actions generalizing s with
  | nil => rfl
  | cons action rest ih => exact ih (s.perform action).1

theorem stepsOfAll_append (s : Session) (actions more : List Action) :
    s.stepsOfAll (actions ++ more) = s.stepsOfAll actions ++ (s.performAll actions).1.stepsOfAll more := by
  induction actions generalizing s with
  | nil => rfl
  | cons action rest ih =>
    show s.steps action ++ (s.perform action).1.stepsOfAll (rest ++ more) = _
    rw [ih, ← List.append_assoc]
    rfl

end

/-! ### Two runs side by side -/

/-- Two sessions in a relation do the same action in steps that go together, and stay in it. What is done to the second
one meets a condition. -/
structure SideBySide (R : Session → Session → Prop) (Q : Step → Prop) (P : Step → Step → Prop) : Prop where
  start : ∀ {s t}, R s t → s.start.2 = t.start.2
  step : ∀ {s t action}, R s t → action.isSimple = true → Q (t.step action) →
    P (s.step action) (t.step action) ∧ R (s.perform action).1 (t.perform action).1

namespace SideBySide
variable {R : Session → Session → Prop} {Q : Step → Prop} {P : Step → Step → Prop}

theorem single (k : SideBySide R Q P) {s t : Session} (h : R s t) {action : Action} (ha : action.isSimple = true)
    (hq : Q (t.step action)) :
    List.Forall₂ P [s.step action] [t.step action] ∧ R (s.perform action).1 (t.perform action).1 := by
  obtain ⟨hstep, hafter⟩ := k.step h ha hq
  exact ⟨.cons hstep .nil, hafter⟩

mutual

theorem steps (k : SideBySide R Q P) {s t : Session} (h : R s t) : ∀ action, (∀ y ∈ t.steps action, Q y) →
    List.Forall₂ P (s.steps action) (t.steps action) ∧ R (s.perform action).1 (t.perform action).1
  | .scoped body panic, hq => by
    have hanswer := k.start h
    have hstart : Q (t.step .start) → List.Forall₂ P [s.step .start] [t.step .start] ∧ R s.start.1 t.start.1 :=
      k.single h rfl
    rcases hs : s.start with ⟨s', error | _⟩ <;> rcases ht : t.start with ⟨t', other | _⟩ <;>
      rw [hs, ht] at hanswer hstart
    · obtain ⟨hsteps, hlast⟩ := scope_refused hs body panic
      obtain ⟨hsteps', hlast'⟩ := scope_refused ht body panic
      rw [hsteps'] at hq
      rw [hsteps, hsteps', hlast, hlast']
      exact hstart (hq _ List.mem_cons_self)
    · cases hanswer
    · cases hanswer
    · obtain ⟨hsteps, hlast⟩ := scope_entered hs body panic
      obtain ⟨hsteps', hlast'⟩ := scope_entered ht body panic
      rw [hsteps'] at hq
      rw [hsteps, hsteps', hlast, hlast']
      obtain ⟨hfirst, hentered⟩ := hstart (hq _ List.mem_cons_self)
      obtain ⟨hbody, hleft⟩ := stepsOfAll k (s := s') (t := t') hentered body fun y hy =>
        hq y (List.mem_cons_of_mem _ (List.mem_append_left _ hy))
      have hstop : Action.stop.isSimple = true := rfl
      obtain ⟨hend, hstopped⟩ := k.single hleft hstop (hq _ (by simp))
      exact ⟨List.rel_append hfirst (List.rel_append hbody hend), hstopped⟩
  | .start, hq => k.single h rfl (hq _ List.mem_cons_self)
  | .stop, hq => k.single h rfl (hq _ List.mem_cons_self)
  | .mark _ _, hq => k.single h rfl (hq _ List.mem_cons_self)
  | .flush, hq => k.single h rfl (hq _ List.mem_cons_self)
  | .close, hq => k.single h rfl (hq _ List.mem_cons_self)
  | .beginFinalize, hq => k.single h rfl (hq _ List.mem_cons_self)
  | .deliver _, hq => k.single h rfl (hq _ List.mem_cons_self)
  | .look, hq => k.single h rfl (hq _ List.mem_cons_self)
  | .enterProcess _, hq => k.single h rfl (hq _ List.mem_cons_self)
  | .enterThread _, hq => k.single h rfl (hq _ List.mem_cons_self)
  | .setFaults _, hq => k.single h rfl (hq _ List.mem_cons_self)

theorem stepsOfAll (k : SideBySide R Q P) {s t : Session} (h : R s t) : ∀ actions, (∀ y ∈ t.stepsOfAll actions, Q y) →
    List.Forall₂ P (s.stepsOfAll actions) (t.stepsOfAll actions) ∧ R (s.performAll actions).1 (t.performAll actions).1
  | [], _ => ⟨.nil, h⟩
  | action :: rest, hq => by
    obtain ⟨hfirst, hafter⟩ := steps k h action fun y hy => hq y (List.mem_append_left _ hy)
    obtain ⟨hrest, hlast⟩ := stepsOfAll k hafter rest fun y hy => hq y (List.mem_append_right _ hy)
    exact ⟨List.rel_append hfirst hrest, hlast⟩

end

end SideBySide

end Session
end MethodTrace
