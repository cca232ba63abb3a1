/-
  ZohoOs.Lib.Stream — a byte stream that arrives in segments.

  Segments of a stream arrive in any order, more than once, or not at all; the
  last of them carries the end of the stream.  A cumulative acknowledgement
  counts the bytes up to the first that is missing, and the end once nothing
  before it is.

    * `inOrder` — the bytes that arrived without a gap;
    * `Receiver` — what has arrived, until the stream is complete;
    * `Receiver.receive_end` — the end arrives when nothing is missing.
-/
import Mathlib.Data.List.Basic
import Mathlib.Order.Nat
import Mathlib.Data.Nat.Find

namespace ZohoOs.Lib

/-- The `len` bytes of a stream from position `pos` on, and its end if `fin`. -/
structure Segment where
  pos : Nat
  len : Nat
  fin : Bool
  deriving DecidableEq

/-- The byte at a position has arrived. -/
def Arrived (segments : List Segment) (p : Nat) : Prop :=
  ∃ d ∈ segments, d.pos ≤ p ∧ p < d.pos + d.len

instance (segments : List Segment) (p : Nat) : Decidable (Arrived segments p) :=
  inferInstanceAs (Decidable (∃ _ ∈ _, _))

variable {segments : List Segment}

/-- Some byte has not arrived. -/
theorem exists_not_arrived (segments : List Segment) : ∃ p, ¬ Arrived segments p := by
  have hbound : ∃ b, ∀ p, Arrived segments p → p < b := by
    induction segments with
    | nil => exact ⟨0, fun p ⟨_, hd, _⟩ => nomatch hd⟩
    | cons d ds ih =>
      obtain ⟨b, hb⟩ := ih
      refine ⟨b + d.pos + d.len, fun p ⟨e, he, hle, hlt⟩ => ?_⟩
      rcases List.mem_cons.mp he with rfl | he
      · omega
      · have hp := hb p ⟨e, he, hle, hlt⟩
        omega
  obtain ⟨b, hb⟩ := hbound
  exact ⟨b, fun harrived => lt_irrefl b (hb b harrived)⟩

/-- How many bytes have arrived without a gap. -/
def inOrder (segments : List Segment) : Nat := Nat.find (exists_not_arrived segments)

/-- Every byte that is counted has arrived. -/
theorem arrived_of_lt_inOrder {p : Nat} (h : p < inOrder segments) : Arrived segments p :=
  not_not.mp (Nat.find_min _ h)

/-- A segment without bytes brings none. -/
theorem inOrder_cons_empty {d : Segment} (h : d.len = 0) : inOrder (d :: segments) = inOrder segments := by
  have hsame : ∀ p, Arrived (d :: segments) p ↔ Arrived segments p := by
    intro p
    constructor
    · rintro ⟨e, he, hle, hlt⟩
      rcases List.mem_cons.mp he with rfl | he
      · omega
      · exact ⟨e, he, hle, hlt⟩
    · rintro ⟨e, he, hin⟩
      exact ⟨e, List.mem_cons_of_mem _ he, hin⟩
  exact Nat.find_congr' fun {p} => not_congr (hsame p)

theorem inOrder_nil : inOrder [] = 0 :=
  (Nat.find_eq_zero _).mpr fun ⟨_, hd, _⟩ => nomatch hd

/-- What has arrived; once the stream is complete, nothing more is recorded. -/
structure Receiver where
  segments : List Segment
  finished : Bool

namespace Receiver

/-- Nothing has arrived. -/
def empty : Receiver := ⟨[], false⟩

/-- The end of the stream has arrived, and nothing before it is missing. -/
def Complete (segments : List Segment) : Prop :=
  ∃ d ∈ segments, d.fin = true ∧ d.pos + d.len ≤ inOrder segments

instance (segments : List Segment) : Decidable (Complete segments) :=
  inferInstanceAs (Decidable (∃ _ ∈ _, _))

def receive (r : Receiver) (d : Segment) : Receiver :=
  if r.finished then r else ⟨d :: r.segments, Complete (d :: r.segments)⟩

/-- The number that is acknowledged: the bytes in order, and the end. -/
def ackNo (r : Receiver) : Nat := inOrder r.segments + if r.finished then 1 else 0

theorem ackNo_empty : empty.ackNo = 0 := inOrder_nil

theorem receive_finished {r : Receiver} (h : r.finished = true) (d : Segment) : r.receive d = r :=
  if_pos h

/-- No end has arrived. -/
def Running (r : Receiver) : Prop := r.finished = false ∧ ∀ d ∈ r.segments, d.fin = false

theorem running_empty : Running empty := ⟨rfl, fun _ hd => nomatch hd⟩

theorem Running.receive {r : Receiver} (h : r.Running) {d : Segment} (hd : d.fin = false) :
    (r.receive d).Running := by
  have hopen : ¬ r.finished = true := by
    rw [h.1]
    decide
  have hnone : ∀ e ∈ d :: r.segments, e.fin = false := List.forall_mem_cons.mpr ⟨hd, h.2⟩
  unfold Receiver.receive
  rw [if_neg hopen]
  refine ⟨decide_eq_false ?_, hnone⟩
  rintro ⟨e, he, hfin, _⟩
  rw [hnone e he] at hfin
  cases hfin

/-- **The end arrives in order**, in a segment without bytes: the stream is
    complete, and the end is acknowledged. -/
theorem receive_end {r : Receiver} (h : r.Running) {d : Segment} (hfin : d.fin = true)
    (hlen : d.len = 0) (hpos : d.pos = inOrder r.segments) :
    (r.receive d).finished = true ∧ (r.receive d).ackNo = d.pos + 1 := by
  have hopen : ¬ r.finished = true := by
    rw [h.1]
    decide
  have hcount : inOrder (d :: r.segments) = inOrder r.segments := inOrder_cons_empty hlen
  have hcomplete : Complete (d :: r.segments) := by
    refine ⟨d, List.mem_cons_self, hfin, ?_⟩
    rw [hcount, hlen, hpos]
    exact Nat.le_refl _
  unfold Receiver.receive ackNo
  rw [if_neg hopen]
  dsimp only
  rw [if_pos (decide_eq_true hcomplete), hcount, ← hpos]
  exact ⟨decide_eq_true hcomplete, rfl⟩

end Receiver

end ZohoOs.Lib
