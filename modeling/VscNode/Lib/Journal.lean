import Mathlib.Data.List.Basic
import Mathlib.Order.Lattice
import Mathlib.Order.Nat

/-!
# Journals with derived rows

A journal records events, and every event stands for a list of rows. Some
programs keep the events and the rows in two lists, append to both and cut both
back by remembered lengths. `Follows f events rows` says that the second list is
the rows of the first, and a mark `Points` into a journal when it remembers the
two lengths the lists had at one moment. Cutting both lists at a mark that
points into the journal keeps them together (`Follows.cut`); appending keeps
every mark (`Points.append`), and a cut keeps the marks at or before it
(`Points.cut`).
-/

namespace Journal

open List

variable {α β : Type*} {f : α → List β} {events : List α} {rows : List β}

def Follows (f : α → List β) (events : List α) (rows : List β) : Prop := rows = events.flatMap f

/-- Two remembered lengths. -/
structure Mark where
  (events rows : ℕ)
  deriving DecidableEq

/-- A mark that lies between two events of the journal. -/
structure Points (f : α → List β) (events : List α) (m : Mark) : Prop where
  le : m.events ≤ events.length
  rows : m.rows = ((events.take m.events).flatMap f).length

theorem follows_nil : Follows f [] [] := rfl

section

variable (h : Follows f events rows)

include h

theorem Follows.append {events' : List α} {rows' : List β}
    (h' : Follows f events' rows') : Follows f (events ++ events') (rows ++ rows') := by
  rw [Follows, flatMap_append, ← h, ← h']

theorem Follows.concat (x : α) : Follows f (events ++ [x]) (rows ++ f x) :=
  h.append (flatMap_singleton f x).symm

theorem Follows.cut {m : Mark} (hm : Points f events m) :
    Follows f (events.take m.events) (rows.take m.rows) := by
  have hsplit : rows = (events.take m.events).flatMap f ++ (events.drop m.events).flatMap f := by
    rw [← flatMap_append, take_append_drop]
    exact h
  rw [Follows, hm.rows, hsplit, take_left]

theorem Points.rows_le {m : Mark} (hm : Points f events m) : m.rows ≤ rows.length := by
  have hlen := congrArg length (h.cut hm)
  rw [length_take, ← hm.rows] at hlen
  omega

/-- The mark of the present moment. -/
theorem points_here : Points f events ⟨events.length, rows.length⟩ where
  le := le_refl _
  rows := by rw [take_length, ← h]

end

theorem Points.append {m : Mark} (h : Points f events m) (events' : List α) :
    Points f (events ++ events') m where
  le := h.le.trans (by simp)
  rows := by rw [take_append_of_le_length h.le, h.rows]

theorem Points.cut {m m' : Mark} (h : Points f events m) (hle : m.events ≤ m'.events) :
    Points f (events.take m'.events) m where
  le := by
    rw [length_take]
    exact le_min hle h.le
  rows := by rw [take_take, min_eq_left hle, h.rows]

end Journal
