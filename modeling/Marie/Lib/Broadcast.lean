-- A broadcast channel that keeps the last values that were sent. A reader that is further behind
-- than the channel keeps is set forward, and what was overwritten is lost to it.
import Mathlib.Data.List.Basic

namespace Broadcast

variable {α β : Type} {capacity : Nat}

/-! ## The channel -/

/-- `kept` are the last values, oldest first, and `sent` says how many there were. -/
structure Channel (α : Type) (capacity : Nat) where
  kept : List α
  sent : Nat
  full : kept.length = min sent capacity

/-- What a reader gets from the channel. -/
inductive Received (α : Type) where
  | value (a : α)
  | lagged (missed : Nat)
  | empty

/-- A reader of the channel: the next value that it reads, and what its stream gave of the values
that it read. -/
structure Reader (β : Type) where
  next : Nat
  got : List β
deriving DecidableEq

namespace Channel

def empty : Channel α capacity := ⟨[], 0, by simp⟩

/-- The oldest value makes room for the new one. -/
def send (a : α) (self : Channel α capacity) : Channel α capacity where
  kept := (self.kept ++ [a]).drop (self.kept.length + 1 - capacity)
  sent := self.sent + 1
  full := by
    have h := self.full
    simp only [List.length_drop, List.length_append, List.length_singleton]
    omega

/-- How many values were sent from the next one of the reader on. -/
def backlog (next : Nat) (self : Channel α capacity) : Nat := self.sent - next

/-- The values that the reader can still read. -/
def waiting (next : Nat) (self : Channel α capacity) : List α :=
  self.kept.drop (self.kept.length - self.backlog next)

/-- A reader that lags is set to the oldest value that is kept, and learns how many it missed. -/
def recv (next : Nat) (self : Channel α capacity) : Received α × Nat :=
  if self.backlog next ≤ capacity then
    match self.waiting next with
    | a :: _ => (.value a, next + 1)
    | [] => (.empty, next)
  else (.lagged (self.sent - capacity - next), self.sent - capacity)

/-- A reader from now on. -/
def subscribe (self : Channel α capacity) : Reader β := ⟨self.sent, []⟩

end Channel

/-- One receive of the stream of the reader. `pick` says which values the stream gives, and as
what. That it lagged is not given. -/
def Reader.poll (pick : α → Option β) (channel : Channel α capacity) (self : Reader β) : Reader β :=
  match channel.recv self.next with
  | (.value a, next) => ⟨next, self.got ++ (pick a).toList⟩
  | (.lagged _, next) => { self with next }
  | (.empty, _) => self

/-! ## What waits for a reader -/

variable {channel : Channel α capacity} {pick : α → Option β} {reader : Reader β} {next : Nat} {a : α}
  {due : List β}

theorem backlog_send (h : next ≤ channel.sent) :
    (channel.send a).backlog next = channel.backlog next + 1 := by
  simp only [Channel.backlog, Channel.send]
  omega

theorem length_waiting (h : next ≤ channel.sent) :
    (channel.waiting next).length = min (channel.backlog next) capacity := by
  have hfull := channel.full
  simp only [Channel.waiting, Channel.backlog, List.length_drop]
  omega

/-- What is sent waits last. The oldest value is overwritten if the channel is full of values that
wait. -/
theorem waiting_send (h : next ≤ channel.sent) :
    (channel.send a).waiting next =
      if channel.backlog next < capacity then channel.waiting next ++ [a]
      else (channel.waiting next ++ [a]).tail := by
  have hfull := channel.full
  have hwaiting := length_waiting h
  have hsent := (channel.send a).full
  rw [Channel.waiting, backlog_send h, hsent]
  simp only [Channel.send, List.drop_drop]
  split
  · rename_i hroom
    rw [Channel.waiting, ← List.drop_append_of_le_length (by omega)]
    congr 1
    simp only [Channel.backlog] at *
    omega
  · rename_i hroom
    have hall : channel.waiting next = channel.kept := by
      simp only [Channel.waiting, Channel.backlog] at *
      rw [show channel.kept.length - (channel.sent - next) = 0 by omega, List.drop_zero]
    rw [hall, ← List.drop_one]
    congr 1
    simp only [Channel.backlog] at *
    omega

/-- A value that is read does not wait any more. -/
theorem waiting_succ {rest : List α} (h : channel.waiting next = a :: rest)
    (hroom : channel.backlog next ≤ capacity) :
    channel.waiting (next + 1) = rest := by
  have htail : rest = (channel.waiting next).tail := by rw [h, List.tail_cons]
  have hlength := congrArg List.length h
  have hfull := channel.full
  simp only [Channel.waiting, Channel.backlog, List.length_drop, List.length_cons] at hlength hroom
  rw [htail, Channel.waiting, Channel.waiting, List.tail_drop]
  congr 1
  simp only [Channel.backlog]
  omega

/-- A reader that is set forward has the same values before it. -/
theorem waiting_lagged (h : capacity < channel.backlog next) :
    channel.waiting (channel.sent - capacity) = channel.waiting next := by
  have hfull := channel.full
  simp only [Channel.waiting, Channel.backlog] at *
  congr 1
  omega

/-! ## What a reader gets -/

/-- The reader is not before its channel, and what it got and what waits for it is, in order, of
what is due to it. -/
structure Reads (pick : α → Option β) (channel : Channel α capacity) (due : List β)
    (reader : Reader β) : Prop where
  next : reader.next ≤ channel.sent
  got : (reader.got ++ (channel.waiting reader.next).filterMap pick).Sublist due

theorem waiting_subscribe : channel.waiting (channel.subscribe (β := β)).next = [] := by
  simp [Channel.waiting, Channel.subscribe, Channel.backlog]

theorem reads_subscribe : Reads pick channel [] channel.subscribe := by
  refine ⟨Nat.le_refl _, ?_⟩
  rw [waiting_subscribe]
  simp [Channel.subscribe]

/-- What a poll comes to. -/
theorem poll_cases (pick : α → Option β) (channel : Channel α capacity) (reader : Reader β) :
    (channel.waiting reader.next = [] ∧ reader.poll pick channel = reader) ∨
    (∃ a rest, channel.waiting reader.next = a :: rest ∧ channel.backlog reader.next ≤ capacity ∧
      reader.poll pick channel = ⟨reader.next + 1, reader.got ++ (pick a).toList⟩) ∨
    (capacity < channel.backlog reader.next ∧
      reader.poll pick channel = ⟨channel.sent - capacity, reader.got⟩) := by
  unfold Reader.poll Channel.recv
  by_cases hroom : channel.backlog reader.next ≤ capacity
  · rw [if_pos hroom]
    cases hwaiting : channel.waiting reader.next with
    | nil => exact .inl ⟨rfl, rfl⟩
    | cons a rest => exact .inr (.inl ⟨a, rest, rfl, hroom, rfl⟩)
  · rw [if_neg hroom]
    exact .inr (.inr ⟨Nat.lt_of_not_le hroom, rfl⟩)

/-- The reader neither loses nor repeats anything when it is polled. -/
theorem poll_keeps (h : reader.next ≤ channel.sent) :
    (reader.poll pick channel).next ≤ channel.sent ∧
      (reader.poll pick channel).got ++
          (channel.waiting (reader.poll pick channel).next).filterMap pick =
        reader.got ++ (channel.waiting reader.next).filterMap pick := by
  obtain ⟨-, heq⟩ | ⟨a, rest, hwaiting, hroom, heq⟩ | ⟨hlag, heq⟩ := poll_cases pick channel reader
  · rw [heq]
    exact ⟨h, rfl⟩
  · have hlength := length_waiting h
    rw [hwaiting, List.length_cons, Channel.backlog] at hlength
    rw [heq]
    refine ⟨by simp only; omega, ?_⟩
    simp only [waiting_succ hwaiting hroom, hwaiting, List.append_assoc, List.filterMap_cons]
    cases pick a <;> rfl
  · rw [heq]
    exact ⟨Nat.sub_le _ _, by simp only [waiting_lagged hlag]⟩

theorem Reads.poll (h : Reads pick channel due reader) :
    Reads pick channel due (reader.poll pick channel) := by
  obtain ⟨hnext, hgot⟩ := poll_keeps h.next
  exact ⟨hnext, hgot ▸ h.got⟩

theorem Reads.send (h : Reads pick channel due reader) (a : α) :
    Reads pick (channel.send a) (due ++ (pick a).toList) reader := by
  refine ⟨Nat.le_succ_of_le h.next, ?_⟩
  have hall : (reader.got ++ (channel.waiting reader.next ++ [a]).filterMap pick).Sublist
      (due ++ (pick a).toList) := by
    rw [List.filterMap_append, ← List.append_assoc]
    have hlast : [a].filterMap pick = (pick a).toList := by
      cases hpick : pick a <;> simp [hpick]
    rw [hlast]
    exact h.got.append (List.Sublist.refl _)
  rw [waiting_send h.next]
  split
  · exact hall
  · apply List.Sublist.trans _ hall
    exact (List.Sublist.refl _).append ((List.tail_sublist _).filterMap pick)

end Broadcast
