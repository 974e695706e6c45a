/-
# Stream slots and their histories

Slots are opened, closed, asked for their orientation and used in any order. Of a slot
only its own past counts: the latest event that bound it or set it free says whether it is
open, and the first mode that was not zero since it was last released says how it is
oriented. Whether a file can be opened is up to the disk, so it is part of what happened.
-/

import Mathlib.Data.List.Nodup
import ScopeMachine.Proofs.Streams.Requests

namespace ScopeMachine

/-- What happened to a slot, the latest first. -/
abbrev StreamHistory := List StreamEvent

/-- Whether the slot is there from the start. -/
def StreamId.isStandard (id : StreamId) : Bool :=
  id.index < 3

/-- Whether an event binds a slot or sets it free, if either. -/
def StreamEvent.binding? : StreamEvent → Option Bool
  | .allocated => some false
  | .opened done => if done then some true else none
  | .reopened done => some done
  | .closed => some false
  | .oriented _ => none
  | .used => none

/-- The mode that an orientation is asked for with. -/
def StreamEvent.mode? : StreamEvent → Option Int
  | .oriented mode => some mode
  | _ => none

namespace StreamHistory

variable (id : StreamId)

/-- Whether there is such a slot. -/
def isThere (history : StreamHistory) : Bool :=
  id.isStandard || history.contains .allocated

/-- Whether the slot is open: the latest binding event decides. -/
def isOpen (history : StreamHistory) : Bool :=
  (history.findSome? StreamEvent.binding?).getD id.isStandard

/-- Whether an event makes the orientation undecided again. What closes a slot does so only
if the slot was open. -/
def releases (earlier : StreamHistory) : StreamEvent → Bool
  | .allocated => true
  | .opened done => done
  | .reopened done => done || isOpen id earlier
  | .closed => isOpen id earlier
  | .oriented _ => false
  | .used => false

/-- The modes that were given since the slot was last released, the earliest first. -/
def modes : StreamHistory → List Int
  | [] => []
  | event :: earlier =>
    if releases id earlier event then [] else modes earlier ++ event.mode?.toList

/-- The orientation of the slot: the sign of the first mode that is not zero. -/
def orientation (history : StreamHistory) : Int :=
  ((modes id history).find? (· ≠ 0)).elim 0 Int.sign

end StreamHistory

namespace StreamHistory

variable {id : StreamId} {history : StreamHistory} {event : StreamEvent}

/-- What its history says of a slot. -/
def status? (id : StreamId) (history : StreamHistory) : Option StreamStatus :=
  if isThere id history then some ⟨isOpen id history, orientation id history⟩ else none

theorem isThere_cons (id : StreamId) (history : StreamHistory) (hevent : event ≠ .allocated) :
    isThere id (event :: history) = isThere id history := by
  have hother : (StreamEvent.allocated == event) = false := by simpa using Ne.symm hevent
  simp only [isThere, List.contains_cons, hother, Bool.false_or]

theorem isOpen_cons : isOpen id (event :: history) =
    event.binding?.getD (isOpen id history) := by
  unfold isOpen
  rw [List.findSome?_cons]
  cases event.binding? <;> rfl

theorem orientation_of_releases (hreleases : releases id history event) :
    orientation id (event :: history) = 0 := by
  rw [orientation, modes, if_pos hreleases]
  rfl

theorem orientation_of_keeps (hkeeps : ¬ releases id history event)
    (hmode : event.mode? = none) :
    orientation id (event :: history) = orientation id history := by
  rw [orientation, modes, if_neg hkeeps, hmode, Option.toList_none, List.append_nil, orientation]

/-- A mode counts if no mode before it was other than zero. -/
theorem orientation_oriented (mode : Int) : orientation id (.oriented mode :: history) =
    if orientation id history = 0 then mode.sign else orientation id history := by
  have hmodes : modes id (.oriented mode :: history) = modes id history ++ [mode] := by
    rw [modes, if_neg (by simp [releases])]
    rfl
  rw [orientation, orientation, hmodes, List.find?_append]
  cases hfound : (modes id history).find? (· ≠ 0) with
  | some first =>
      have hfirst : first ≠ 0 := by simpa using List.find?_some hfound
      have hsign : first.sign ≠ 0 := by rwa [ne_eq, Int.sign_eq_zero_iff_zero]
      exact (if_neg hsign).symm
  | none =>
      by_cases hmode : mode = 0
      · simp [hmode]
      · simp [hmode]

/-- What a history says changes with every event as the status of a slot does. -/
theorem status?_cons (id : StreamId) (event : StreamEvent) (history : StreamHistory) :
    status? id (event :: history) = StreamStatus.next? (status? id history) event := by
  by_cases hallocated : event = .allocated
  · subst hallocated
    have hthere : isThere id (.allocated :: history) := by simp [isThere]
    rw [status?, if_pos hthere, isOpen_cons, orientation_of_releases rfl]
    rfl
  -- No other event adds the slot, so only the status of a slot that is there changes.
  have hthere := isThere_cons id history hallocated
  have hmap {change : StreamStatus → StreamStatus}
      (hchange : (⟨isOpen id (event :: history), orientation id (event :: history)⟩ : StreamStatus)
        = change ⟨isOpen id history, orientation id history⟩) :
      status? id (event :: history) = (status? id history).map change := by
    rw [status?, status?, hthere, hchange]
    split <;> rfl
  cases event with
  | allocated => exact absurd rfl hallocated
  | opened done =>
      apply hmap
      rw [isOpen_cons]
      cases done with
      | true => rw [orientation_of_releases rfl]; rfl
      | false => rw [orientation_of_keeps (by simp [releases]) rfl]; rfl
  | reopened done =>
      apply hmap
      rw [isOpen_cons]
      cases done with
      | true => rw [orientation_of_releases rfl]; rfl
      | false =>
          cases hopen : isOpen id history with
          | true => rw [orientation_of_releases (by simp [releases, hopen])]; rfl
          | false => rw [orientation_of_keeps (by simp [releases, hopen]) rfl]; rfl
  | closed =>
      apply hmap
      rw [isOpen_cons]
      cases hopen : isOpen id history with
      | true => rw [orientation_of_releases (by simp [releases, hopen])]; rfl
      | false => rw [orientation_of_keeps (by simp [releases, hopen]) rfl]; rfl
  | oriented mode =>
      apply hmap
      rw [isOpen_cons, orientation_oriented]
      rfl
  | used =>
      have hsame : status? id (.used :: history) = (status? id history).map fun old => old := by
        apply hmap
        rw [isOpen_cons, orientation_of_keeps (by simp [releases]) rfl]
        rfl
      rw [hsame, Option.map_id']
      rfl

end StreamHistory

namespace Channels

variable {channels : Channels}

namespace Log

/-- What happened to one slot, the latest first. -/
def history (log : Log) (id : StreamId) : StreamHistory :=
  ((log.filterMap event?).filterMap fun (slot, event) =>
    if slot = id then some event else none).reverse

/-- The slots that were added, in this order. -/
def allocated (log : Log) : List StreamId :=
  (log.filterMap event?).filterMap fun (slot, event) =>
    if event = .allocated then some slot else none

end Log

/-! ## Any number of requests -/

/-- Every slot has the status that its history says. -/
def Recounts (log : Log) (channels : Channels) : Prop :=
  ∀ id, channels.status? id = StreamHistory.status? id (log.history id)

theorem Log.history_concat (log : Log) {exchange : Request × Answer} {id : StreamId}
    {event : StreamEvent} (hevent : event? exchange = some (id, event)) (other : StreamId) :
    history (log ++ [exchange]) other =
      if id = other then event :: log.history other else log.history other := by
  simp only [history, List.filterMap_append, List.filterMap_cons, hevent, List.filterMap_nil,
    List.reverse_append]
  split <;> simp_all

/-- One exchange more. -/
theorem Recounts.perform {log : Log} (hrecounts : Recounts log channels) (request : Request) :
    Recounts (log ++ [(request, (request.perform channels).1)]) (request.perform channels).2 := by
  obtain ⟨id, event, hevent, hundergoes⟩ := channels.undergoes_perform request
  intro other
  rw [hundergoes other, log.history_concat hevent, hrecounts other]
  split
  · rw [StreamHistory.status?_cons]
  · rfl

/-- Any number of exchanges more. -/
theorem Recounts.serve {log : Log} (hrecounts : Recounts log channels)
    (requests : List Request) :
    Recounts (log ++ (channels.serve requests).1) (channels.serve requests).2 := by
  induction requests generalizing channels log with
  | nil => simpa [Channels.serve] using hrecounts
  | cons request rest ih =>
      have hrest := ih (hrecounts.perform request)
      rwa [List.append_assoc] at hrest

theorem Recounts.contains_eq {log : Log} (hrecounts : Recounts log channels) (id : StreamId) :
    channels.contains id = StreamHistory.isThere id (log.history id) := by
  rw [← isSome_status?, hrecounts id, StreamHistory.status?]
  cases StreamHistory.isThere id (log.history id) <;> rfl

/-- A slot has been added if its history tells so. -/
theorem Log.mem_allocated_iff (log : Log) (id : StreamId) :
    id ∈ log.allocated ↔ StreamEvent.allocated ∈ log.history id := by
  simp only [allocated, history, List.mem_filterMap, List.mem_reverse]
  constructor
  · rintro ⟨⟨slot, event⟩, hmem, hfound⟩
    dsimp only at hfound
    split at hfound <;> cases hfound
    rename_i hevent
    subst hevent
    exact ⟨(id, .allocated), hmem, if_pos rfl⟩
  · rintro ⟨⟨slot, event⟩, hmem, hfound⟩
    dsimp only at hfound
    split at hfound <;> cases hfound
    rename_i hslot
    subst hslot
    exact ⟨(slot, .allocated), hmem, if_pos rfl⟩

theorem Log.allocated_concat (log : Log) {exchange : Request × Answer} {id : StreamId}
    {event : StreamEvent} (hevent : event? exchange = some (id, event)) :
    allocated (log ++ [exchange]) =
      if event = .allocated then log.allocated ++ [id] else log.allocated := by
  simp only [allocated, List.filterMap_append, List.filterMap_cons, hevent, List.filterMap_nil]
  split <;> simp_all

/-- The slots that were added are distinct and none of them was there from the start. -/
structure Log.Fresh (log : Log) : Prop where
  distinct : log.allocated.Nodup
  added : ∀ id ∈ log.allocated, ¬ id.isStandard

theorem Log.Fresh.start : Log.Fresh [] where
  distinct := List.nodup_nil
  added := by simp [allocated]

/-- A slot that is added was not there before. -/
theorem Recounts.not_mem_allocated {log : Log} (hrecounts : Recounts log channels) :
    channels.allocate.1 ∉ log.allocated ∧ ¬ channels.allocate.1.isStandard := by
  have hmissing : channels.contains channels.allocate.1 = false := by
    simp [contains, allocate]
  rw [hrecounts.contains_eq, StreamHistory.isThere, Bool.or_eq_false_iff] at hmissing
  obtain ⟨hstandard, hhistory⟩ := hmissing
  constructor
  · rw [log.mem_allocated_iff]
    simpa using hhistory
  · simp [hstandard]

theorem Log.Fresh.perform {log : Log} (hfresh : log.Fresh) (hrecounts : Recounts log channels)
    (request : Request) :
    Log.Fresh (log ++ [(request, (request.perform channels).1)]) := by
  obtain ⟨id, event, hevent, -⟩ := channels.undergoes_perform request
  have hlog := log.allocated_concat hevent
  by_cases hallocated : event = .allocated
  · have hid : id = channels.allocate.1 := by
      subst hallocated
      cases request <;> cases hevent
      rfl
    obtain ⟨hnew, hadded⟩ := hrecounts.not_mem_allocated
    rw [if_pos hallocated, hid] at hlog
    refine ⟨?_, ?_⟩
    · rw [hlog, List.nodup_append]
      refine ⟨hfresh.distinct, List.nodup_singleton _, ?_⟩
      intro other hother found hfound
      rw [List.mem_singleton.mp hfound]
      rintro rfl
      exact hnew hother
    · intro other hother
      rw [hlog, List.mem_append, List.mem_singleton] at hother
      rcases hother with hother | rfl
      · exact hfresh.added other hother
      · exact hadded
  · rw [if_neg hallocated] at hlog
    refine ⟨?_, ?_⟩
    · rw [hlog]
      exact hfresh.distinct
    · rw [hlog]
      exact hfresh.added

theorem Log.Fresh.serve {log : Log} (hfresh : log.Fresh) (hrecounts : Recounts log channels)
    (requests : List Request) : Log.Fresh (log ++ (channels.serve requests).1) := by
  induction requests generalizing channels log with
  | nil => simpa [Channels.serve] using hfresh
  | cons request rest ih =>
      have hrest := ih (hfresh.perform hrecounts request) (hrecounts.perform request)
      rwa [List.append_assoc] at hrest

/-- At first the standard slots are there, open and undecided. -/
theorem Recounts.start (disk : Disk) (sink : Sink) : Recounts [] { disk, sink } := by
  intro id
  obtain ⟨number⟩ := id
  by_cases hstandard : number < 3
  · obtain rfl | rfl | rfl : number = 0 ∨ number = 1 ∨ number = 2 := by omega
    all_goals rfl
  · have hmissing : StreamHistory.isThere ⟨number⟩ [] = false := by
      simpa [StreamHistory.isThere, StreamId.isStandard] using hstandard
    rw [Log.history, StreamHistory.status?]
    simp [hmissing, status?, slot?, Nat.le_of_not_lt hstandard]

/-- Every slot is a machine of its own. The slots that are added are new ones. Whether a slot
is open, and what orientation it answers, follows from what happened to this slot alone: the
latest event that bound it or set it free, and the first mode other than zero since it was
last released. Opening a file that cannot be opened changes nothing. -/
theorem slots_follow_histories (disk : Disk) (sink : Sink) (requests : List Request) :
    let log : Log := (serve { disk, sink } requests).1
    let channels : Channels := (serve { disk, sink } requests).2
    log.allocated.Nodup ∧ (∀ id ∈ log.allocated, ¬ id.isStandard) ∧
      (∀ id, if StreamHistory.isThere id (log.history id) then
          channels.contains id ∧
            channels.isOpen id = StreamHistory.isOpen id (log.history id) ∧
            ∀ mode, (channels.orient id mode).1 =
              StreamHistory.orientation id (.oriented mode :: log.history id)
        else ¬ channels.contains id ∧ ¬ channels.isOpen id ∧
          ∀ mode, (channels.orient id mode).1 = 0) ∧
      (∀ id path mode, (channels.openFile id path mode).1 = false →
        (channels.openFile id path mode).2 = channels) ∧
      ∀ (disk' : Disk) (sink' : Sink) (others : List Request) (id : StreamId),
        let other := serve { disk := disk', sink := sink' } others
        Log.history other.1 id = log.history id →
          other.2.isOpen id = channels.isOpen id ∧
            ∀ mode, (other.2.orient id mode).1 = (channels.orient id mode).1 := by
  intro log channels
  have hstart := Recounts.start
  have hrecounts : Recounts log channels := (hstart disk sink).serve requests
  have hfresh : log.Fresh :=
    Log.Fresh.serve .start (hstart disk sink) requests
  refine ⟨hfresh.distinct, hfresh.added, ?_, fun _ _ _ => openFile_eq_of_failed, ?_⟩
  · intro id
    have hstatus := hrecounts id
    simp only [hrecounts.contains_eq, isOpen_eq, orient_eq, hstatus, ← StreamHistory.status?_cons]
    by_cases hthere : StreamHistory.isThere id (log.history id)
    · have hstill : StreamHistory.isThere id (.oriented 0 :: log.history id) = true := by
        rwa [StreamHistory.isThere_cons _ _ (by simp)]
      rw [if_pos hthere]
      refine ⟨hthere, ?_, ?_⟩
      · rw [StreamHistory.status?, if_pos hthere]
        rfl
      · intro mode
        rw [StreamHistory.status?, StreamHistory.isThere_cons _ _ (by simp), if_pos hthere]
        rfl
    · rw [if_neg hthere]
      refine ⟨hthere, ?_, ?_⟩
      · rw [StreamHistory.status?, if_neg hthere]
        exact Bool.false_ne_true
      · intro mode
        rw [StreamHistory.status?, StreamHistory.isThere_cons _ _ (by simp), if_neg hthere]
        rfl
  · intro disk' sink' others id other hhistory
    have hother : Recounts other.1 other.2 := (hstart disk' sink').serve others
    have hstatus : other.2.status? id = channels.status? id := by
      rw [hother id, hrecounts id, hhistory]
    refine ⟨?_, ?_⟩
    · rw [isOpen_eq, isOpen_eq, hstatus]
    · intro mode
      rw [orient_eq, orient_eq, hstatus]

end Channels

end ScopeMachine
