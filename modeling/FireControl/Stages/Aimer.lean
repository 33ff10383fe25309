import FireControl.Exchange.Board

/-!
# Aim Stage

Takes the newest smoothed state from the board, if it is new, and computes a correction for it with
the newest orientation and the bullet speed measured last.

## Main definitions

* `Aimer`: The solver and a cursor.
* `Aimer.poll`: One turn.
-/

namespace FireControl

/-- The solver and the version of the state taken last. -/
structure Aimer where
  solver : AimSolver
  cursor : Cursor

/-- The outcome of a turn that found a new state. -/
structure AimReport where
  output : AimOutput
  /-- Whether the lead time was found. -/
  converged : Bool

namespace Aimer

/-- The stage before its first state. -/
def new (settings : AimSettings) : Aimer :=
  ⟨AimSolver.new settings, .start⟩

variable [ElementaryFunctions]

/-- One turn: the correction for the newest state, or nothing where no state is new. -/
def poll (aimer : Aimer) (board : Board) (now : Instant) : Option AimReport × Aimer :=
  let (news, cursor) := aimer.cursor.poll board.smoothed
  match news with
  | none => (none, aimer)
  | some snapshot =>
    let (output, solver) :=
      aimer.solver.solve snapshot.value board.latestOrientation board.bulletSpeed now
    (some ⟨output, solver.lastLead.all LeadSolution.converged⟩, ⟨solver, cursor⟩)

end Aimer

end FireControl
