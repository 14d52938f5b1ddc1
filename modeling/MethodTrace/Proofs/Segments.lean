import Mathlib.Data.List.DropRight
import Mathlib.Data.List.Nodup
import Mathlib.Data.List.Pairwise
import MethodTrace.Proofs.Rows

/-! # Segments

A segment is what happened since the rows known were last forgotten: since a mark was written, tracing was stopped or
the session was closed. In a trace of edges the rows that a segment tries to write are the first of each fingerprint
among those that were due in it. -/

namespace MethodTrace
open Session

/-! ### First rows -/

/-- Whether two rows count as one. -/
def sameFingerprint (a b : String) : Bool := fingerprint a.toUTF8 == fingerprint b.toUTF8

/-- The rows whose fingerprint no earlier row has. -/
def firstRows (rows : List String) : List String := rows.eraseDupsBy sameFingerprint

/-- Different rows have different fingerprints. -/
def ToldApart (rows : List String) : Prop := ∀ a ∈ rows, ∀ b ∈ rows, sameFingerprint a b = true → a = b

section
variable {rows : List String} {row : String}

theorem eraseDupsBy_loop_concat {α : Type} (r : α → α → Bool) (as : List α) (a : α) (found : List α) :
    List.eraseDupsBy.loop r (as ++ [a]) found =
      if (List.eraseDupsBy.loop r as found).any (r a) then List.eraseDupsBy.loop r as found
      else List.eraseDupsBy.loop r as found ++ [a] := by
  induction as generalizing found with
  | nil =>
    simp only [List.nil_append, List.eraseDupsBy.loop, List.any_reverse]
    cases found.any (r a) <;> simp
  | cons b rest ih =>
    simp only [List.cons_append, List.eraseDupsBy.loop]
    rcases Bool.eq_false_or_eq_true (found.any (r b)) with h | h <;> simp only [h] <;> exact ih _

theorem firstRows_concat (rows : List String) (row : String) :
    firstRows (rows ++ [row]) =
      if (firstRows rows).any (sameFingerprint row) then firstRows rows else firstRows rows ++ [row] :=
  eraseDupsBy_loop_concat sameFingerprint rows row []

theorem any_firstRows (rows : List String) (row : String) :
    (firstRows rows).any (sameFingerprint row) = rows.any (sameFingerprint row) := by
  induction rows using List.reverseRecOn with
  | nil => rfl
  | append_singleton rest last ih =>
    rw [firstRows_concat, List.any_append, List.any_cons, List.any_nil, Bool.or_false, ← ih]
    split
    next h =>
      -- The last row is left out, as one that counts as it was there before.
      obtain ⟨first, hfirst, hsame⟩ := List.any_eq_true.mp h
      cases hlast : sameFingerprint row last with
      | false => rw [Bool.or_false]
      | true =>
        rw [Bool.or_true]
        refine List.any_eq_true.mpr ⟨first, hfirst, ?_⟩
        simp only [sameFingerprint, beq_iff_eq] at hlast hsame ⊢
        exact hlast.trans hsame
    next => rw [List.any_append, List.any_cons, List.any_nil, Bool.or_false]

theorem firstRows_nodup (rows : List String) : (firstRows rows).Nodup := by
  induction rows using List.reverseRecOn with
  | nil => exact .nil
  | append_singleton rest last ih =>
    rw [firstRows_concat]
    split
    · exact ih
    next h =>
      refine List.nodup_append.mpr ⟨ih, List.nodup_singleton _, ?_⟩
      rintro a ha b hb rfl
      rw [List.mem_singleton.mp hb] at ha
      exact h (List.any_eq_true.mpr ⟨last, ha, beq_self_eq_true _⟩)

theorem ToldApart.any_iff (h : ToldApart (row :: rows)) : rows.any (sameFingerprint row) = true ↔ row ∈ rows := by
  rw [List.any_eq_true]
  constructor
  · rintro ⟨other, hother, hsame⟩
    rwa [h row List.mem_cons_self other (List.mem_cons_of_mem _ hother) hsame]
  · intro hrow
    exact ⟨row, hrow, beq_self_eq_true _⟩

theorem ToldApart.of_subset {some all : List String} (h : ToldApart all) (hsub : some ⊆ all) : ToldApart some :=
  fun a ha b hb => h a (hsub ha) b (hsub hb)

theorem ToldApart.firstRows_eq (h : ToldApart rows) : firstRows rows = rows.eraseDups := by
  induction rows using List.reverseRecOn with
  | nil => rfl
  | append_singleton rest last ih =>
    have hrest : ToldApart rest := h.of_subset (List.subset_append_left _ _)
    have hlast : ToldApart (last :: rest) := h.of_subset (by simp)
    rw [firstRows_concat, any_firstRows, List.eraseDups_append, ih hrest]
    by_cases hmem : last ∈ rest
    · simp [hlast.any_iff.mpr hmem, hmem, List.removeAll]
    · have hany : rest.any (sameFingerprint last) = false := by
        rw [← Bool.not_eq_true, hlast.any_iff]
        exact hmem
      simp [hany, hmem, List.removeAll, List.eraseDups_cons]

end

/-! ### Cutting a run into segments -/

/-- The steps since the rows known were last forgotten. -/
def segment (past : List Step) : List Step := past.rtakeWhile (!·.resets)

theorem segment_eq_self {past : List Step} (h : ∀ x ∈ past, x.resets = false) : segment past = past :=
  List.rtakeWhile_eq_self_iff.mpr fun x hx => by simp [h x hx]

theorem segment_concat_of_resets {past : List Step} {x : Step} (h : x.resets = true) : segment (past ++ [x]) = [] :=
  List.rtakeWhile_concat_neg _ _ x (by simp [h])

theorem segment_concat {past : List Step} {x : Step} (h : x.resets = false) :
    segment (past ++ [x]) = segment past ++ [x] :=
  List.rtakeWhile_concat_pos _ _ x (by simp [h])

/-- Where a segment was cut off is kept by every run that is shorter. -/
theorem segment_split {past earlier later : List Step} (h : segment past = earlier ++ later) :
    ∃ before, past = before ++ earlier ++ later ∧ segment (before ++ earlier) = earlier := by
  induction later using List.reverseRecOn generalizing past with
  | nil =>
    rw [List.append_nil] at h
    obtain ⟨before, hpast⟩ : segment past <:+ past := List.rtakeWhile_suffix _ _
    rw [h] at hpast
    exact ⟨before, by rw [List.append_nil, hpast], by rw [hpast, h]⟩
  | append_singleton later x ih =>
    cases past using List.reverseRecOn with
    | nil => simp [segment] at h
    | append_singleton past y =>
      cases hy : y.resets with
      | true =>
        rw [segment_concat_of_resets hy] at h
        simp at h
      | false =>
        rw [segment_concat hy, ← List.append_assoc] at h
        obtain ⟨h, hxy⟩ := List.append_inj' h rfl
        obtain ⟨before, rfl, hbefore⟩ := ih h
        cases hxy
        exact ⟨before, List.append_assoc .., hbefore⟩

namespace Session
variable {s t : Session}

theorem not_has_empty (row : String) : ¬SeenRows.Has {} row := by simp [SeenRows.Has]

theorem has_meet {seen : SeenRows} {row other : String} :
    (seen.meet row.toUTF8).1.Has other ↔ sameFingerprint other row = true ∨ seen.Has other := by
  simp only [SeenRows.Has, SeenRows.meet, SeenRows.meetFingerprint, sameFingerprint, Std.HashSet.mem_insert, beq_iff_eq]
  exact or_congr_left eq_comm

/-- What a step in a trace of edges does with the rows known. -/
inductive Remembers (x : Step) : Prop
  | reset : x.resets = true → x.due? = none → x.after.seen = {} → x.outcome? = none → Remembers x
  | quiet : x.resets = false → x.due? = none → x.after.seen = x.before.seen → x.outcome?.any Outcome.isOfRow = false →
      Remembers x
  | known {row : String} : x.resets = false → x.due? = some row → x.after.seen = (x.before.seen.meet row.toUTF8).1 →
      x.before.seen.Has row → x.outcome? = some .duplicate → Remembers x
  | new {row : String} {outcome : Outcome} : x.resets = false → x.due? = some row →
      x.after.seen = (x.before.seen.meet row.toUTF8).1 → ¬x.before.seen.Has row → x.outcome? = some outcome →
      outcome.isWrite = true → Remembers x

theorem deliver_remembers (hs : s.Sound) (edges : s.settings.layout = .edges) (n : Notification) :
    Remembers (s.step (.deliver n)) := by
  have hfate := deliver_fate hs n
  have hanswer : (s.step (.deliver n)).outcome? = some (s.deliver n).2 := rfl
  have hdue : (s.step (.deliver n)).due? = s.dueRow? n := rfl
  have hwith : ∀ row, s.seenWith row = (s.seen.meet row.toUTF8).1 := fun row => by rw [seenWith, edges]
  generalize s.dueRow? n = row? at hfate hdue
  generalize (s.deliver n).2 = outcome at hfate hanswer
  cases hfate with
  | quiet hrow hseen _ =>
    refine .quiet rfl hdue hseen ?_
    rw [hanswer, Option.any_some]
    exact hrow
  | duplicate _ hhas hseen _ => exact .known rfl hdue (hseen.trans (hwith _)) hhas hanswer
  | recorded hnew hseen _ => exact .new rfl hdue (hseen.trans (hwith _)) (hnew edges) hanswer rfl
  | writeFailed hnew hseen _ => exact .new rfl hdue (hseen.trans (hwith _)) (hnew edges) hanswer rfl

theorem mark_remembers (s : Session) (label : String) (unwinding : Bool) :
    Remembers (s.step (.mark label unwinding)) := by
  have hfate := mark_fate s label unwinding
  have hx : ∀ result, (s.mark label unwinding).2 = result → (s.step (.mark label unwinding)).resets =
      Step.resets ⟨s, .mark label unwinding, .result result, (s.mark label unwinding).1⟩ := fun _ h => h ▸ rfl
  generalize (s.mark label unwinding).2 = result at hfate hx
  replace hx := hx _ rfl
  cases hfate with
  | closed _ k => exact .quiet hx rfl k.seen rfl
  | elsewhere _ hctx k => exact .quiet (hx.trans hctx) rfl k.seen rfl
  | written _ hctx _ _ hseen => exact .reset (hx.trans hctx) rfl hseen rfl
  | failed _ _ _ _ hseen => exact .quiet hx rfl hseen rfl

theorem perform_remembers (hs : s.Sound) (edges : s.settings.layout = .edges) {action : Action}
    (ha : action.isSimple = true) : Remembers (s.step action) := by
  cases action with
  | start => exact .quiet rfl rfl (start_sameTrace s).seen rfl
  | stop =>
    cases ht : s.isTracing with
    | false => exact .quiet ht rfl (congrArg Session.seen (stop_of_not_tracing ht)) rfl
    | true => exact .reset ht rfl (stop_of_tracing ht).2.2.1 rfl
  | mark label unwinding => exact mark_remembers s label unwinding
  | flush => exact .quiet rfl rfl (show s.flush.1.seen = s.seen by rw [flush_eq]) rfl
  | close =>
    cases hc : s.isClosed with
    | true => exact .quiet (congrArg not hc) rfl (congrArg (·.1.seen) (close_of_closed hc)) rfl
    | false => exact .reset (congrArg not hc) rfl (close_of_open hc).2.2.1 rfl
  | deliver n => exact deliver_remembers hs edges n
  | setFaults => exact .quiet rfl rfl rfl rfl
  | beginFinalize => exact .quiet rfl rfl rfl rfl
  | look => exact .quiet rfl rfl rfl rfl
  | enterProcess => exact .quiet rfl rfl rfl rfl
  | enterThread => exact .quiet rfl rfl rfl rfl
  | «scoped» => cases ha

/-! ### What a run keeps -/

/-- The rows known after some steps are those that were due in their last segment, and of these it tried to write
the first of each fingerprint. -/
structure Recalls (t : Session) (past : List Step) : Prop where
  seen : ∀ row, t.seen.Has row ↔ (dueRows (segment past)).any (sameFingerprint row) = true
  tried : triedRows (segment past) = firstRows (dueRows (segment past))

theorem Recalls.step {past : List Step} {x : Step} (h : Recalls x.before past) (hx : Remembers x) :
    Recalls x.after (past ++ [x]) := by
  cases hx with
  | reset hreset _ hseen =>
    refine ⟨fun row => ?_, ?_⟩
    · rw [segment_concat_of_resets hreset, hseen]
      exact ⟨fun h => absurd h (not_has_empty row), nofun⟩
    · rw [segment_concat_of_resets hreset]
      rfl
  | quiet hreset hdue hseen _ =>
    have hrows : dueRows (segment past ++ [x]) = dueRows (segment past) := by simp [dueRows, hdue]
    have htried : triedRows (segment past ++ [x]) = triedRows (segment past) := by
      simp [triedRows, Step.rowIf, hdue]
    refine ⟨fun row => ?_, ?_⟩
    · rw [segment_concat hreset, hrows, hseen, h.seen]
    · rw [segment_concat hreset, hrows, htried, h.tried]
  | @known row hreset hdue hseen hhas houtcome =>
    have hrows : dueRows (segment past ++ [x]) = dueRows (segment past) ++ [row] := by simp [dueRows, hdue]
    have htried : triedRows (segment past ++ [x]) = triedRows (segment past) := by
      simp [triedRows, Step.rowIf, houtcome, Outcome.isWrite]
    have hany := (h.seen row).mp hhas
    refine ⟨fun other => ?_, ?_⟩
    · rw [segment_concat hreset, hrows, hseen, has_meet, h.seen]
      simp [or_comm]
    · rw [segment_concat hreset, hrows, htried, firstRows_concat, any_firstRows, if_pos hany, h.tried]
  | @new row outcome hreset hdue hseen hhas houtcome hwrite =>
    have hrows : dueRows (segment past ++ [x]) = dueRows (segment past) ++ [row] := by simp [dueRows, hdue]
    have htried : triedRows (segment past ++ [x]) = triedRows (segment past) ++ [row] := by
      simp [triedRows, Step.rowIf, houtcome, hwrite, hdue]
    have hany := mt (h.seen row).mpr hhas
    refine ⟨fun other => ?_, ?_⟩
    · rw [segment_concat hreset, hrows, hseen, has_meet, h.seen]
      simp [or_comm]
    · rw [segment_concat hreset, hrows, htried, firstRows_concat, any_firstRows, if_neg hany, h.tried]

theorem Reaches.recalls {past : List Step} (h : Reaches s past t) (hs : s.Sound)
    (edges : s.settings.layout = .edges) (hseen : s.seen = {}) : Recalls t past := by
  induction h with
  | nil =>
    refine ⟨fun row => ?_, rfl⟩
    rw [hseen]
    exact ⟨fun h => absurd h (not_has_empty row), nofun⟩
  | snoc action ha h ih =>
    obtain ⟨hsound, hsettings⟩ := h.sound hs
    exact Recalls.step ih (perform_remembers hsound (hsettings ▸ edges) ha)

theorem Reaches.remembers {past : List Step} (h : Reaches s past t) (hs : s.Sound)
    (edges : s.settings.layout = .edges) {x : Step} (hx : x ∈ past) : Remembers x := by
  obtain ⟨earlier, -, hbefore, action, ha, heq⟩ := h.of_mem hx
  obtain ⟨hsound, hsettings⟩ := hbefore.sound hs
  rw [heq]
  exact perform_remembers hsound (hsettings ▸ edges) ha

/-! ### The rows of a segment -/

theorem Recalls.tried_pairwise {past : List Step} (h : Recalls t past) :
    (segment past).Pairwise fun x y => ∀ a, x.rowIf Outcome.isWrite = some a →
      ∀ b, y.rowIf Outcome.isWrite = some b → a ≠ b := by
  have hnodup := firstRows_nodup (dueRows (segment past))
  rw [← h.tried] at hnodup
  exact List.pairwise_filterMap.mp hnodup

theorem Recalls.recorded_nodup {past : List Step} (h : Recalls t past) : (recordedRows (segment past)).Nodup := by
  refine List.pairwise_filterMap.mpr (h.tried_pairwise.imp ?_)
  intro x y hxy row hx other hy
  exact hxy row (rowIf_isWrite.mpr (.inl hx)) other (rowIf_isWrite.mpr (.inl hy))

/-- A row is tried once: what was written did not fail. -/
theorem Recalls.not_recorded_and_failed {past : List Step} (h : Recalls t past) (row : String) :
    ¬(row ∈ recordedRows (segment past) ∧ row ∈ failedRows (segment past)) := by
  rintro ⟨hrecorded, hfailed⟩
  obtain ⟨x, hx, hxrow⟩ := List.mem_filterMap.mp hrecorded
  obtain ⟨y, hy, hyrow⟩ := List.mem_filterMap.mp hfailed
  have hne : x ≠ y := by
    rintro rfl
    obtain ⟨o, ho, hrec, -⟩ := rowIf_eq_some.mp hxrow
    obtain ⟨o', ho', hfail, -⟩ := rowIf_eq_some.mp hyrow
    rw [eq_of_beq hrec] at ho
    rw [eq_of_beq hfail, ho] at ho'
    cases ho'
  have hsymm : Std.Symm fun x y : Step => ∀ a, x.rowIf Outcome.isWrite = some a →
      ∀ b, y.rowIf Outcome.isWrite = some b → a ≠ b :=
    ⟨fun x y hxy a ha b hb hab => hxy b hb a ha hab.symm⟩
  exact h.tried_pairwise.forall hx hy hne row (rowIf_isWrite.mpr (.inl hxrow)) row
    (rowIf_isWrite.mpr (.inr hyrow)) rfl

/-- The answer to a notification with a row, by the rows that were due before in the segment. -/
theorem Recalls.answer {past : List Step} {x : Step} (h : Recalls x.before past) (hx : Remembers x) {row : String}
    (due : x.due? = some row) :
    ((dueRows (segment past)).any (sameFingerprint row) = true → x.outcome? = some .duplicate) ∧
      ((dueRows (segment past)).any (sameFingerprint row) = false →
        x.outcome? = some .recorded ∨ x.outcome? = some .writeFailed) := by
  cases hx with
  | reset _ hdue => rw [hdue] at due; cases due
  | quiet _ hdue => rw [hdue] at due; cases due
  | known _ hdue _ hhas ho =>
    cases hdue.symm.trans due
    rw [(h.seen _).mp hhas]
    exact ⟨fun _ => ho, nofun⟩
  | @new _ outcome _ hdue _ hhas ho hwrite =>
    cases hdue.symm.trans due
    rw [← Bool.not_eq_true, ← h.seen]
    refine ⟨fun hany => absurd hany hhas, fun _ => ?_⟩
    rcases (isWrite_iff outcome).mp hwrite with rfl | rfl
    · exact .inl ho
    · exact .inr ho

theorem Recalls.duplicate_iff {past : List Step} {x : Step} (h : Recalls x.before past) (hx : Remembers x)
    {row : String} (due : x.due? = some row) (apart : ToldApart (row :: dueRows (segment past))) :
    x.outcome? = some .duplicate ↔ row ∈ recordedRows (segment past) ∨ row ∈ failedRows (segment past) := by
  obtain ⟨hduplicate, hwrite⟩ := h.answer hx due
  have hrows : ToldApart (dueRows (segment past)) := apart.of_subset (List.subset_cons_self _ _)
  rw [← mem_triedRows, h.tried, hrows.firstRows_eq, List.mem_eraseDups, ← apart.any_iff]
  constructor
  · intro ho
    by_contra hany
    rcases hwrite (eq_false_of_ne_true hany) with ho' | ho' <;> rw [ho] at ho' <;> cases ho'
  · exact hduplicate

theorem Remembers.due_of_recorded {x : Step} (hx : Remembers x) (ho : x.outcome? = some .recorded) :
    ∃ row, x.due? = some row := by
  cases hx with
  | reset _ _ _ hnone => rw [ho] at hnone; cases hnone
  | quiet _ _ _ hrow => rw [ho] at hrow; cases hrow
  | known _ hdue => exact ⟨_, hdue⟩
  | new _ hdue => exact ⟨_, hdue⟩

theorem Remembers.seen_of_resets {x : Step} (hx : Remembers x) (hreset : x.resets = true) : x.after.seen = {} := by
  cases hx with
  | reset _ _ hseen => exact hseen
  | quiet hr => rw [hr] at hreset; cases hreset
  | known hr => rw [hr] at hreset; cases hreset
  | new hr => rw [hr] at hreset; cases hreset

theorem Remembers.of_lost_mark {x : Step} (hx : Remembers x) {label : String} {unwinding : Bool}
    (hmark : x.action = .mark label unwinding)
    (hlost : (∃ error, x.answer = .result (.error error)) ∨ x.before.ownsContext = false) :
    x.resets = false ∧ x.after.seen = x.before.seen := by
  have hreset : x.resets = false := by
    unfold Step.resets
    rw [hmark]
    rcases hlost with ⟨error, herror⟩ | hctx
    · rw [herror]
    · rcases x.answer with (_ | _) | _ | _ <;> first | exact hctx | rfl
  have hdue : x.due? = none := by rw [Step.due?, hmark]
  refine ⟨hreset, ?_⟩
  cases hx with
  | reset hr => rw [hr] at hreset; cases hreset
  | quiet _ _ hseen => exact hseen
  | known _ hrow => rw [hdue] at hrow; cases hrow
  | new _ hrow => rw [hdue] at hrow; cases hrow

section
variable {settings : Settings} {faults : Faults} {label : String} {host : Host}

theorem layout_of_opened (opened : create settings { destination := { faults }, label } host = .ok s)
    (edges : settings.flatten = true) : s.settings.layout = .edges := by
  rw [(create_fresh opened).settings_eq, Settings.layout, if_pos edges]

theorem recalls_of_opened (opened : create settings { destination := { faults }, label } host = .ok s)
    (edges : settings.flatten = true) {past : List Step} (h : Reaches s past t) : Recalls t past :=
  h.recalls (create_fresh opened).sound (layout_of_opened opened edges) (create_fresh opened).seen

theorem remembers_of_opened (opened : create settings { destination := { faults }, label } host = .ok s)
    (edges : settings.flatten = true) {past : List Step} (h : Reaches s past t) : ∀ x ∈ past, Remembers x :=
  fun _ => h.remembers (create_fresh opened).sound (layout_of_opened opened edges)

/-- In a trace of edges no row is written twice in a segment. If no write fails and rows are told apart by their
fingerprints, the rows written are the first of each that was due, and every later one is answered as a duplicate.
A segment ends where the rows known are forgotten, and not at a mark that fails or is made elsewhere. -/
theorem recordedRows_of_segment (opened : create settings { destination := { faults }, label } host = .ok s)
    (edges : settings.flatten = true) (actions : List Action) {past : List Step}
    (hp : past <+: s.stepsOfAll actions) :
    ((∀ x ∈ past, x.outcome? = some .recorded → ∃ row, x.due? = some row) ∧ (recordedRows (segment past)).Nodup) ∧
      ((∀ x ∈ segment past, x.outcome? ≠ some .writeFailed) → ToldApart (dueRows (segment past)) →
        recordedRows (segment past) = (dueRows (segment past)).eraseDups ∧
          ∀ earlier x later row, segment past = earlier ++ x :: later → x.due? = some row →
            x.outcome? = some (if row ∈ dueRows earlier then .duplicate else .recorded)) ∧
      ∀ x ∈ past, (x.resets = true → x.after.seen = {}) ∧
        ∀ label unwinding, x.action = .mark label unwinding →
          (∃ error, x.answer = .result (.error error)) ∨ x.before.ownsContext = false →
            x.resets = false ∧ x.after.seen = x.before.seen := by
  have reaches := reaches_upTo hp
  have recalls := recalls_of_opened opened edges reaches
  have remembers := remembers_of_opened opened edges reaches
  refine ⟨⟨fun x hx => (remembers x hx).due_of_recorded, recalls.recorded_nodup⟩, fun written apart => ⟨?_, ?_⟩,
    fun x hx => ⟨(remembers x hx).seen_of_resets, fun _ _ => (remembers x hx).of_lost_mark⟩⟩
  · rw [recordedRows_eq_triedRows written, recalls.tried, apart.firstRows_eq]
  · intro earlier x later row hsegment due
    obtain ⟨before, hpast, hearlier⟩ := segment_split hsegment
    have hx : x ∈ segment past := by simp [hsegment]
    have hup : before ++ earlier ++ [x] <+: past := ⟨later, by simp [hpast]⟩
    obtain ⟨hbefore, -⟩ := (reaches.upTo hup).last
    obtain ⟨hduplicate, hwrite⟩ := (recalls_of_opened opened edges hbefore).answer
      (remembers x (hup.subset (by simp))) due
    rw [hearlier] at hduplicate hwrite
    have hapart : ToldApart (row :: dueRows earlier) := by
      refine apart.of_subset ?_
      rw [hsegment]
      intro other hother
      rcases List.mem_cons.mp hother with rfl | hother
      · exact List.mem_filterMap.mpr ⟨x, by simp, due⟩
      · obtain ⟨y, hy, hdue⟩ := List.mem_filterMap.mp hother
        exact List.mem_filterMap.mpr ⟨y, List.mem_append_left _ hy, hdue⟩
    split
    next hmem => exact hduplicate (hapart.any_iff.mpr hmem)
    next hmem =>
      rcases hwrite (eq_false_of_ne_true (mt hapart.any_iff.mp hmem)) with ho | ho
      · exact ho
      · exact absurd ho (written x hx)

theorem recordedRows_of_repeated_call :
    let actions := traced [{ kind := .enter, receiver := .unknown }, { kind := .leave, receiver := .unknown },
      { kind := .enter, receiver := .unknown }]
    ∃ s row, create { rootCalls := true } { destination := { faults := {} }, label := "" } { process := 1 } = .ok s ∧
      dueRows (segment (s.stepsOfAll actions)) = [row, row] ∧
      recordedRows (segment (s.stepsOfAll actions)) = [row] := by
  intro actions
  obtain ⟨s, opened⟩ := create_in_memory { rootCalls := true } (by decide)
  obtain ⟨events, row, hevents, outside, hrows⟩ : ∃ events row,
      List.Forall₂ (fun n event => Notification.event? n = some event)
        [{ kind := .enter, receiver := .unknown }, { kind := .leave, receiver := .unknown },
          { kind := .enter, receiver := .unknown }] events ∧
        (∀ event ∈ events, some "Calltrace::Session" ≠ some event.method.entity) ∧
        Settings.rowsAlong { rootCalls := true } [] events = [row, row] :=
    ⟨_, _, .cons rfl (.cons rfl (.cons rfl .nil)), by simp; decide, rfl⟩
  have fresh := create_fresh opened
  have hsteps : ∀ x ∈ s.stepsOfAll actions, x.resets = false ∧ x.outcome? ≠ some .writeFailed :=
    traced_steps fresh.sound (create_harmless opened Faults.harmless_of_none) _
  have hsegment : segment (s.stepsOfAll actions) = s.stepsOfAll actions :=
    segment_eq_self fun x hx => (hsteps x hx).1
  have hdue : dueRows (segment (s.stepsOfAll actions)) = [row, row] := by
    rw [hsegment]
    exact (dueRows_traced fresh hevents outside).trans hrows
  obtain ⟨-, hfirst, -⟩ := recordedRows_of_segment opened rfl actions (List.prefix_refl _)
  refine ⟨s, row, opened, hdue, ?_⟩
  rw [(hfirst ?_ ?_).1, hdue]
  · simp [List.eraseDups_cons]
  · rw [hsegment]
    exact fun x hx => (hsteps x hx).2
  · simp [hdue, ToldApart]

end

end Session
end MethodTrace
