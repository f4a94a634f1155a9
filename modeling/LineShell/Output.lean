import LineShell.Errno

/-!
# Writing

A `Sink` takes what the shell writes. It may have room for so many bytes only: a write
that goes beyond leaves what fits, and fails.
-/

namespace LineShell

/-- What was written, and the room that is left. Without `room` everything fits. -/
structure Sink where
  written : Bytes := []
  room : Option Nat := none
deriving DecidableEq, Repr

namespace Sink

/-- Write bytes. -/
def write (data : Bytes) (s : Sink) : Except IoError Unit × Sink :=
  match s.room with
  | none => (.ok (), { s with written := s.written ++ data })
  | some room =>
    (if data.length ≤ room then .ok () else .error .writeCutShort,
      ⟨s.written ++ data.take room, some (room - data.length)⟩)

/-- Write pieces one after the other, up to the first that fails. -/
def writeAll : List Bytes → Sink → Except IoError Unit × Sink
  | [], s => (.ok (), s)
  | piece :: pieces, s =>
    match s.write piece with
    | (.ok (), s) => writeAll pieces s
    | (.error e, s) => (.error e, s)

/-- A sink without a limit takes every piece. -/
theorem writeAll_of_room_none (pieces : List Bytes) :
    ∀ s : Sink, s.room = none →
      writeAll pieces s = (.ok (), { s with written := s.written ++ pieces.flatten }) := by
  induction pieces with
  | nil => intro s _; simp [writeAll]
  | cons p ps ih =>
    intro s h
    have hw : s.write p = (.ok (), { s with written := s.written ++ p }) := by
      simp [write, h]
    rw [writeAll, hw]
    simp only
    rw [ih { s with written := s.written ++ p } h]
    simp

end Sink

end LineShell
