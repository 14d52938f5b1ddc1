import MethodTrace.Proofs.Accounts
import MethodTrace.Proofs.Release

/-! # Opening a session

A session is open once its destination has the header. If it is not opened, its destination has the front of the header,
as much of it as it takes, or all of it when there is no room for the stack. The buffer is driven out a second time
when the output is let go. A destination that takes more by then goes on where it stopped, and one that stays as it is
takes no more the second time, so that no part of the header is there twice. -/

namespace MethodTrace

/-! ### What a destination takes -/

/-- How many of `length` bytes a destination takes in the end that stays as it is, after `size` bytes in all. -/
def Behaviour.takes (b : Behaviour) (size length : Nat) : Nat :=
  if b.chunk = some 0 then 0
  else
    match b.limit with
    | none => length
    | some limit => min length (limit - size)

namespace Behaviour
variable {b : Behaviour} {size length : Nat}

theorem takes_zero (b : Behaviour) (size : Nat) : b.takes size 0 = 0 := by
  unfold takes
  cases b.limit <;> simp

theorem room_zero (b : Behaviour) (size : Nat) : b.room size 0 = 0 := Nat.le_zero.mp (b.room_le size 0)

/-- A destination that takes nothing of a piece takes nothing at all. -/
theorem takes_of_room (h : b.room size length = 0) : b.takes size length = 0 := by
  unfold room at h
  unfold takes
  split
  · rfl
  next hchunk =>
    cases hc : b.chunk with
    | none => cases hl : b.limit <;> simp only [hc, hl] at h ⊢ <;> omega
    | some chunk =>
      have hpos : chunk ≠ 0 := fun h0 => hchunk (by rw [hc, h0])
      cases hl : b.limit <;> simp only [hc, hl] at h ⊢ <;> omega

theorem chunk_of_room (h : b.room size length ≠ 0) : b.chunk ≠ some 0 := by
  intro hchunk
  refine h ?_
  unfold room
  rw [hchunk]
  cases b.limit <;> simp

theorem room_le_limit {limit : Nat} (h : b.limit = some limit) (size length : Nat) :
    b.room size length ≤ limit - size := by
  unfold room
  rw [h]
  exact Nat.min_le_right _ _

/-- What is taken is the first piece, and then what is taken of the rest. -/
theorem takes_room (h : b.room size length ≠ 0) :
    b.takes size length = b.room size length + b.takes (size + b.room size length) (length - b.room size length) := by
  have hle := b.room_le size length
  have hchunk := chunk_of_room h
  unfold takes
  rw [if_neg hchunk, if_neg hchunk]
  cases hl : b.limit with
  | none =>
    dsimp only
    omega
  | some limit =>
    have hlimit := room_le_limit hl size length
    dsimp only
    omega

/-- What is not taken once is not taken later. -/
theorem takes_again (b : Behaviour) (size length : Nat) :
    b.takes (size + b.takes size length) (length - b.takes size length) = 0 := by
  unfold takes
  split
  · rfl
  · cases b.limit <;> dsimp only <;> omega

end Behaviour

namespace Faults

/-- How many of `length` bytes a destination takes that behaves in one way now and in others later, after `size` bytes
in all, and how it behaves then. -/
def absorbing (size length : Nat) (b : Behaviour) : List Behaviour → Nat × Faults
  | [] => (b.takes size length, { b with interrupts := if length = 0 then b.interrupts else 0 })
  | next :: later =>
    if length = 0 then (0, { b with later := next :: later })
    else if b.room size length = 0 then (0, { next with later })
    else
      (absorbing (size + b.room size length) (length - b.room size length) next later).map (b.room size length + ·) id

/-- How many of `length` bytes a destination takes after `size` bytes in all, and its faults then. -/
def absorb (f : Faults) (size length : Nat) : Nat × Faults :=
  absorbing size length f.toBehaviour f.later

theorem absorb_zero (f : Faults) (size : Nat) : f.absorb size 0 = (0, f) := by
  obtain ⟨b, later⟩ := f
  cases later with
  | nil => simp [absorb, absorbing, Behaviour.takes_zero]
  | cons next later => simp [absorb, absorbing]

theorem absorb_interrupts (f : Faults) (size : Nat) {length : Nat} (h : length ≠ 0) (interrupts : Nat) :
    absorb { f with interrupts } size length = f.absorb size length := by
  obtain ⟨b, later⟩ := f
  cases later with
  | nil =>
    simp only [absorb, absorbing, if_neg h]
    rfl
  | cons next later =>
    simp only [absorb, absorbing, if_neg h]
    rfl

theorem absorb_of_room {f : Faults} {size length : Nat} (hlength : length ≠ 0) (h : f.room size length = 0)
    (tried : f.interrupts = 0) : f.absorb size length = (0, f.next) := by
  obtain ⟨b, later⟩ := f
  cases later with
  | nil =>
    obtain ⟨limit, chunk, stalls, refusesFlush, interrupts⟩ := b
    obtain rfl : interrupts = 0 := tried
    simp [absorb, absorbing, next, Behaviour.takes_of_room h]
  | cons next later => simp [absorb, absorbing, Faults.next, h, hlength]

/-- After the first piece, the rest is taken as the destination behaves then. -/
theorem absorb_piece {f : Faults} {size length : Nat} (h : f.room size length ≠ 0) (tried : f.interrupts = 0) :
    f.absorb size length = (f.next.absorb (size + f.room size length) (length - f.room size length)).map
      (f.room size length + ·) id := by
  obtain ⟨b, later⟩ := f
  cases later with
  | nil =>
    obtain ⟨limit, chunk, stalls, refusesFlush, interrupts⟩ := b
    obtain rfl : interrupts = 0 := tried
    simp [absorb, absorbing, next, Behaviour.takes_room h]
  | cons next later =>
    have hlength : length ≠ 0 := by
      rintro rfl
      exact h (b.room_zero size)
    simp [absorb, absorbing, Faults.next, h, hlength]

end Faults

namespace Destination
variable {d : Destination}

/-- How many of so many bytes a destination takes. -/
def takes (d : Destination) (length : Nat) : Nat := (d.faults.absorb d.received.size length).1

/-- Whether a destination takes all of so many bytes, and passes on what it took. -/
def Receives (d : Destination) (length : Nat) : Prop :=
  d.takes length = length ∧ (d.faults.absorb d.received.size length).2.refusesFlush = false

/-- How many of so many bytes a destination takes if it is tried once more. -/
def takesTwice (d : Destination) (length : Nat) : Nat :=
  d.takes length + ((d.faults.absorb d.received.size length).2.absorb (d.received.size + d.takes length)
    (length - d.takes length)).1

/-- A destination that stays as it is takes no more of what it did not take before. -/
theorem takesTwice_of_steady (h : d.faults.later = []) (length : Nat) : d.takesTwice length = d.takes length := by
  unfold takesTwice takes Faults.absorb
  rw [h]
  exact congrArg (d.faults.takes d.received.size length + ·) (d.faults.takes_again d.received.size length)

theorem takesTwice_of_takes {length : Nat} (h : d.takes length = length) : d.takesTwice length = length := by
  unfold takesTwice
  rw [h, Nat.sub_self, Faults.absorb_zero, Nat.add_zero]

/-- What a write comes to, by the recursion of the write. -/
theorem absorb_writeAll (d : Destination) (bytes : ByteArray) (stuck : WriteFault) :
    (d.writeAll bytes stuck).1.received.size = d.received.size + d.takes bytes.size ∧
      (d.writeAll bytes stuck).1.faults = (d.faults.absorb d.received.size bytes.size).2 := by
  unfold takes
  fun_induction writeAll d bytes stuck with
  | case1 d bytes hsize => simp [hsize, Faults.absorb_zero]
  | case2 d bytes hsize _ ih =>
    rw [← d.faults.absorb_interrupts d.received.size hsize (d.faults.interrupts - 1)]
    exact ih
  | case3 d bytes hsize htried hroom =>
    rw [Faults.absorb_of_room hsize hroom (Nat.eq_zero_of_not_pos htried)]
    exact ⟨rfl, rfl⟩
  | case4 d bytes _ htried hroom ih =>
    have hle := d.room_le bytes.size
    have hsize : (d.accept (bytes.extract 0 (d.room bytes.size))).received.size = d.received.size + d.room bytes.size := by
      simp only [accept, ByteArray.size_append, ByteArray.size_extract]
      omega
    have hrest : (bytes.extract (d.room bytes.size) bytes.size).size = bytes.size - d.room bytes.size := by
      rw [ByteArray.size_extract, Nat.min_self]
    rw [hsize, hrest] at ih
    rw [Faults.absorb_piece hroom (Nat.eq_zero_of_not_pos htried), ih.1, ih.2]
    exact ⟨Nat.add_assoc .., rfl⟩

/-- What a destination has after a write, and whether it has everything. -/
theorem writeAll_takes (d : Destination) (bytes : ByteArray) (stuck : WriteFault) :
    (d.writeAll bytes stuck).1.received = d.received ++ bytes.extract 0 (d.takes bytes.size) ∧
      (d.writeAll bytes stuck).2.1 = bytes.extract (d.takes bytes.size) bytes.size ∧
      ((d.writeAll bytes stuck).2.2 = .ok () ↔ d.takes bytes.size = bytes.size) ∧ d.takes bytes.size ≤ bytes.size := by
  obtain ⟨k, hk, hreceived, hrest, hresult⟩ := d.writeAll_split bytes stuck
  have htaken : k = d.takes bytes.size := by
    have hsize := (d.absorb_writeAll bytes stuck).1
    rw [hreceived] at hsize
    simp only [ByteArray.size_append, ByteArray.size_extract] at hsize
    omega
  rw [← htaken]
  refine ⟨hreceived, hrest, ?_, hk⟩
  rcases hresult with ⟨hok, hall⟩ | ⟨fault, herror, hlt⟩
  · exact ⟨fun _ => hall, fun _ => hok⟩
  · exact ⟨fun hok => (by cases herror.symm.trans hok), fun hall => absurd hall (Nat.ne_of_lt hlt)⟩

/-- A write of what another one left begins where that one stopped. -/
theorem received_writeAll_again (d : Destination) (bytes : ByteArray) (stuck : WriteFault) :
    ((d.writeAll bytes stuck).1.writeAll (d.writeAll bytes stuck).2.1 stuck).1.received =
      d.received ++ bytes.extract 0 (d.takesTwice bytes.size) := by
  obtain ⟨hreceived, hrest, -, hle⟩ := d.writeAll_takes bytes stuck
  obtain ⟨hsize, hfaults⟩ := d.absorb_writeAll bytes stuck
  have hlast : (d.writeAll bytes stuck).2.1.size = bytes.size - d.takes bytes.size := by
    rw [hrest, ByteArray.size_extract, Nat.min_self]
  obtain ⟨hagain, -, -, hle'⟩ := (d.writeAll bytes stuck).1.writeAll_takes (d.writeAll bytes stuck).2.1 stuck
  have htwice : d.takes bytes.size + (d.writeAll bytes stuck).1.takes (d.writeAll bytes stuck).2.1.size =
      d.takesTwice bytes.size := by
    have hmore : (d.writeAll bytes stuck).1.takes (bytes.size - d.takes bytes.size) = _ :=
      congrArg Prod.fst (congrArg₂ (Faults.absorb · · (bytes.size - d.takes bytes.size)) hfaults hsize)
    rw [hlast, hmore]
    rfl
  have hall : d.takesTwice bytes.size ≤ bytes.size := by omega
  rw [hagain, hreceived, hrest, ByteArray.append_assoc, ByteArray.extract_extract, ← hrest, htwice, Nat.add_zero,
    Nat.min_eq_left hall, ← ByteArray.extract_eq_extract_append_extract _ (Nat.zero_le _) (by omega)]

end Destination

namespace Output

theorem flush_eq_drain (o : Output) : o.flush.1 = o.drain.1 := by
  unfold flush
  rcases o.drain with ⟨drained, fault | _⟩ <;> rfl

/-- What is there when the output is let go after a flush, whether or not the flush failed. -/
theorem received_release_flush (o : Output) : o.flush.1.release.received =
    o.destination.received ++ o.buffer.extract 0 (o.destination.takesTwice o.buffer.size) := by
  rw [flush_eq_drain]
  exact o.destination.received_writeAll_again o.buffer .bufferStuck

/-- After three bytes the destination takes none for once, so that the flush fails, and it has the rest in the end. -/
example :
    let d : Destination := { faults := { chunk := some 3, later := [{ limit := some 0 }, {}] } }
    d.takes 10 = 3 ∧ d.takesTwice 10 = 10 := by decide

theorem flush_ok_iff (o : Output) : o.flush.2 = .ok () ↔ o.destination.Receives o.buffer.size := by
  have hdrain : o.drain.2 = .ok () ↔ o.destination.takes o.buffer.size = o.buffer.size :=
    (o.destination.writeAll_takes o.buffer .bufferStuck).2.2.1
  have hfaults : o.drain.1.destination.faults =
      (o.destination.faults.absorb o.destination.received.size o.buffer.size).2 :=
    (o.destination.absorb_writeAll o.buffer .bufferStuck).2
  unfold flush Destination.Receives
  rw [← hdrain, ← hfaults]
  rcases o.drain with ⟨drained, fault | _⟩
  · simp
  · cases hf : drained.destination.faults.refusesFlush <;> simp [Destination.flush, hf]

end Output

namespace Session
variable {settings : Settings} {faults : Faults} {label : String} {host : Host}

/-- A session that was opened, and what its destination has. -/
structure Opened (settings : Settings) (faults : Faults) (host : Host) (s : Session) : Prop where
  taken : Destination.Receives { faults } settings.layout.header.toUTF8.size
  room : settings.stackCapacity ≤ CallStack.maxCapacity
  received : s.destination.received = settings.layout.header.toUTF8
  drained : ∃ output, s.channel = .held output ∧ output.buffer = .empty
  phase : s.phase = .idle
  blank : Blank s
  counters : s.counters = {}
  settings_eq : s.settings = settings
  host_eq : s.host = host

/-- Why a session could not be opened, and what its destination has. -/
inductive Refused (settings : Settings) (faults : Faults) : OpenError → ByteArray → Prop
  /-- The destination has as much of the header as it takes when it is tried twice. -/
  | header (fault : WriteFault) : ¬Destination.Receives { faults } settings.layout.header.toUTF8.size →
      Refused settings faults (.header fault) (settings.layout.header.toUTF8.extract 0
        (Destination.takesTwice { faults } settings.layout.header.toUTF8.size))
  /-- The destination has the header, but there is no room for the stack. -/
  | stack : Destination.Receives { faults } settings.layout.header.toUTF8.size →
      CallStack.maxCapacity < settings.stackCapacity →
      Refused settings faults (.stack .tooLarge) settings.layout.header.toUTF8

/-- A session that could not be opened leaves its host alone, and a destination with the front of the header. -/
structure NotOpened (settings : Settings) (faults : Faults) (host : Host) (failure : OpenFailure) : Prop where
  host : failure.host = host
  refused : Refused settings faults failure.error failure.destination.received
  front : ∃ lost, failure.destination.received ++ lost = settings.layout.header.toUTF8
  /-- A destination that stays as it is takes nothing more when the output is let go. -/
  steady : faults.later = [] → failure.destination.received = settings.layout.header.toUTF8.extract 0
    (Destination.takes { faults } settings.layout.header.toUTF8.size)

theorem received_headed (settings : Settings) (faults : Faults) (label : String) :
    (headed settings faults label).flush.1.release.received =
      settings.layout.header.toUTF8.extract 0 (Destination.takesTwice { faults } settings.layout.header.toUTF8.size) := by
  rw [Output.received_release_flush]
  exact ByteArray.empty_append

theorem front_headed (settings : Settings) (faults : Faults) (label : String) :
    ∃ lost, (headed settings faults label).flush.1.release.received ++ lost = settings.layout.header.toUTF8 := by
  obtain ⟨lost, hlost⟩ := (headed settings faults label).flush.1.release_front
  rw [Output.flush_stream] at hlost
  exact ⟨lost, hlost.trans ByteArray.empty_append⟩

theorem steady_headed (settings : Settings) {faults : Faults} (label : String) (steady : faults.later = []) :
    (headed settings faults label).flush.1.release.received =
      settings.layout.header.toUTF8.extract 0 (Destination.takes { faults } settings.layout.header.toUTF8.size) := by
  rw [received_headed, Destination.takesTwice_of_steady steady]

theorem opened_of_create {s : Session} (opened : create settings { destination := { faults }, label } host = .ok s)
    (htaken : Destination.Receives { faults } settings.layout.header.toUTF8.size) : Opened settings faults host s := by
  have fresh := create_fresh opened
  obtain ⟨output, hheld, hempty⟩ := create_drained opened
  have hreceived : s.destination.received = settings.layout.header.toUTF8 := by
    have hstream := fresh.stream
    rw [hheld] at hstream
    rw [destination, hheld, ← hstream]
    show output.destination.received = output.destination.received ++ output.buffer
    rw [hempty, ByteArray.append_empty]
  exact ⟨htaken, room_of_create opened, hreceived, ⟨output, hheld, hempty⟩, fresh.phase, fresh.blank,
    create_counters opened, fresh.settings_eq, fresh.host_eq⟩

/-- Whatever the settings and however the destination misbehaves, a session is opened with the header received and
nothing buffered, or there is none, delivery is as it was and the destination has the front of the header. -/
theorem opened_or_not (settings : Settings) (faults : Faults) (label : String) (host : Host) :
    match create settings { destination := { faults }, label } host with
    | .ok s => Opened settings faults host s
    | .error failure => NotOpened settings faults host failure := by
  have hiff : (headed settings faults label).flush.2 = .ok () ↔
      Destination.Receives { faults } settings.layout.header.toUTF8.size := Output.flush_ok_iff _
  cases hflush : (headed settings faults label).flush.2 with
  | error fault =>
    have hnot : ¬Destination.Receives { faults } settings.layout.header.toUTF8.size := fun htaken => by
      cases hflush.symm.trans (hiff.mpr htaken)
    rw [create_of_refused hflush]
    refine ⟨rfl, ?_, front_headed settings faults label, steady_headed settings label⟩
    rw [received_headed]
    exact .header fault hnot
  | ok =>
    have htaken := hiff.mp hflush
    by_cases hroom : settings.stackCapacity ≤ CallStack.maxCapacity
    · obtain ⟨s, opened⟩ : ∃ s, create settings { destination := { faults }, label } host = .ok s :=
        ⟨_, create_with_room hflush hroom⟩
      rw [opened]
      exact opened_of_create opened htaken
    · rw [create_without_room hflush (Nat.lt_of_not_le hroom)]
      refine ⟨rfl, ?_, front_headed settings faults label, steady_headed settings label⟩
      rw [received_headed, Destination.takesTwice_of_takes htaken.1, ByteArray.extract_zero_size]
      exact .stack htaken (Nat.lt_of_not_le hroom)

/-- The header is received, but there is neither a session nor anything wrong with the header. -/
theorem not_opened_without_room :
    let settings : Settings := { stackCapacity := 18446744073709551615 }
    let opening := create settings { destination := {}, label := "" } { process := 1 }
    (∀ s, opening ≠ .ok s) ∧ ∀ failure, opening = .error failure → ∀ fault, failure.error ≠ .header fault := by
  intro settings opening
  have hflush : (headed settings {} "").flush.2 = .ok () :=
    (Output.flush_ok_iff _).mpr ⟨rfl, rfl⟩
  obtain ⟨destination, hopening⟩ : ∃ destination, opening = .error ⟨.stack .tooLarge, destination, { process := 1 }⟩ :=
    ⟨_, create_without_room hflush (by decide)⟩
  rw [hopening]
  refine ⟨fun s h => ?_, fun failure h fault => ?_⟩
  · cases h
  · cases h
    nofun

end Session
end MethodTrace
