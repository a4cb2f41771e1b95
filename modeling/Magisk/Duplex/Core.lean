import Mathlib

/-!
# Two parties on a connection

Two sequential parties write to each other and read what the other has written, in
order.  A move is decided by the state of the party and the input it has so far, and
it does not change when more input arrives.  Then the order in which the parties move
does not matter: if one run ends where neither can move, every run leads there.
-/

namespace Magisk.Duplex

open List

universe u

variable {leftCloses rightCloses : Bool} {Left Right Up Down : Type u}

/-- What a party does: its next state, how much of the input it takes, what it sends,
and whether it closes the connection. -/
structure Move (State Out : Type u) where
  next : State
  taken : Nat
  sent : List Out
  closes : Bool

/-- A party, given its input and whether the other has closed the connection.  It may
have to wait. -/
abbrev Party (State In Out : Type u) :=
  State → List In → Bool → Option (Move State Out)

/-- A move that is made while the other may still write does not change when it does. -/
def Party.Steady {State In Out : Type u} (party : Party State In Out) : Prop :=
  ∀ state input move, party state input false = some move →
    move.taken ≤ input.length ∧
      ∀ more closed, party state (input ++ more) closed = some move

/-- The parties with what is in flight between them. -/
structure Config (Left Right Up Down : Type u) where
  left : Left
  right : Right
  toLeft : List Down
  toRight : List Up
  leftClosed : Bool
  rightClosed : Bool

section Steps

variable (leftParty : Party Left Down Up) (rightParty : Party Right Up Down)

/-- A move of the left party. -/
def stepLeft (config : Config Left Right Up Down) : Option (Config Left Right Up Down) :=
  if config.leftClosed then none
  else
    (leftParty config.left config.toLeft config.rightClosed).map fun move =>
      { config with
        left := move.next
        toLeft := config.toLeft.drop move.taken
        toRight := config.toRight ++ move.sent
        leftClosed := move.closes }

/-- A move of the right party. -/
def stepRight (config : Config Left Right Up Down) : Option (Config Left Right Up Down) :=
  if config.rightClosed then none
  else
    (rightParty config.right config.toRight config.leftClosed).map fun move =>
      { config with
        right := move.next
        toRight := config.toRight.drop move.taken
        toLeft := config.toLeft ++ move.sent
        rightClosed := move.closes }

/-- One of the parties moves. -/
def Step (config next : Config Left Right Up Down) : Prop :=
  stepLeft leftParty config = some next ∨ stepRight rightParty config = some next

/-- Any number of moves. -/
abbrev Reaches : Config Left Right Up Down → Config Left Right Up Down → Prop :=
  Relation.ReflTransGen (Step leftParty rightParty)

/-- Both parties are open, and neither can move. -/
def Deadlock (config : Config Left Right Up Down) : Prop :=
  config.leftClosed = false ∧ config.rightClosed = false ∧
    stepLeft leftParty config = none ∧ stepRight rightParty config = none

end Steps

variable {leftParty : Party Left Down Up} {rightParty : Party Right Up Down}
  {config next other final : Config Left Right Up Down}

theorem exists_move_left (stepped : stepLeft leftParty config = some next) :
    config.leftClosed = false ∧
      ∃ move, leftParty config.left config.toLeft config.rightClosed = some move ∧
        next = { config with
          left := move.next
          toLeft := config.toLeft.drop move.taken
          toRight := config.toRight ++ move.sent
          leftClosed := move.closes } := by
  rw [stepLeft] at stepped
  split at stepped
  · cases stepped
  · rename_i isOpen
    rcases Option.map_eq_some_iff.mp stepped with ⟨move, moves, rfl⟩
    exact ⟨Bool.eq_false_iff.mpr isOpen, move, moves, rfl⟩

theorem exists_move_right (stepped : stepRight rightParty config = some next) :
    config.rightClosed = false ∧
      ∃ move, rightParty config.right config.toRight config.leftClosed = some move ∧
        next = { config with
          right := move.next
          toRight := config.toRight.drop move.taken
          toLeft := config.toLeft ++ move.sent
          rightClosed := move.closes } := by
  rw [stepRight] at stepped
  split at stepped
  · cases stepped
  · rename_i isOpen
    rcases Option.map_eq_some_iff.mp stepped with ⟨move, moves, rfl⟩
    exact ⟨Bool.eq_false_iff.mpr isOpen, move, moves, rfl⟩

/-! ## Moves with nothing else in flight -/

/-- The left party moves. -/
theorem reaches_left {left : Left} {right : Right} {toLeft : List Down} {toRight : List Up}
    {closed : Bool} {move : Move Left Up} (moves : leftParty left toLeft closed = some move) :
    Reaches leftParty rightParty ⟨left, right, toLeft, toRight, false, closed⟩
      ⟨move.next, right, toLeft.drop move.taken, toRight ++ move.sent, move.closes, closed⟩ := by
  apply Relation.ReflTransGen.single
  apply Or.inl
  rw [stepLeft, if_neg Bool.false_ne_true, moves, Option.map_some]

/-- The right party moves. -/
theorem reaches_right {left : Left} {right : Right} {toLeft : List Down} {toRight : List Up}
    {closed : Bool} {move : Move Right Down} (moves : rightParty right toRight closed = some move) :
    Reaches leftParty rightParty ⟨left, right, toLeft, toRight, closed, false⟩
      ⟨left, move.next, toLeft ++ move.sent, toRight.drop move.taken, closed, move.closes⟩ := by
  apply Relation.ReflTransGen.single
  apply Or.inr
  rw [stepRight, if_neg Bool.false_ne_true, moves, Option.map_some]

/-- The left party moves without sending anything. -/
theorem reaches_left_silent {left nextLeft : Left} {right : Right} {toLeft : List Down}
    {toRight : List Up} {taken : Nat} {closes closed : Bool}
    (moves : leftParty left toLeft closed = some ⟨nextLeft, taken, [], closes⟩) :
    Reaches leftParty rightParty ⟨left, right, toLeft, toRight, false, closed⟩
      ⟨nextLeft, right, toLeft.drop taken, toRight, closes, closed⟩ := by
  have moved := @reaches_left _ _ _ _ leftParty rightParty _ right _ toRight _ _ moves
  rwa [append_nil] at moved

/-- The right party moves without sending anything. -/
theorem reaches_right_silent {left : Left} {right nextRight : Right} {toLeft : List Down}
    {toRight : List Up} {taken : Nat} {closes closed : Bool}
    (moves : rightParty right toRight closed = some ⟨nextRight, taken, [], closes⟩) :
    Reaches leftParty rightParty ⟨left, right, toLeft, toRight, closed, false⟩
      ⟨left, nextRight, toLeft, toRight.drop taken, closed, closes⟩ := by
  have moved := @reaches_right _ _ _ _ leftParty rightParty left _ toLeft _ _ _ moves
  rwa [append_nil] at moved

variable {left nextLeft : Left} {right nextRight : Right}

/-- The left party sends a message, which the right party takes. -/
theorem reaches_up {message : List Up}
    (sends : leftParty left [] false = some ⟨nextLeft, 0, message, leftCloses⟩)
    (takes : rightParty right message leftCloses =
      some ⟨nextRight, message.length, [], rightCloses⟩) :
    Reaches leftParty rightParty ⟨left, right, [], [], false, false⟩
      ⟨nextLeft, nextRight, [], [], leftCloses, rightCloses⟩ := by
  have taken := @reaches_right_silent _ _ _ _ leftParty rightParty nextLeft _ _ [] _ _ _ _ takes
  rw [drop_length] at taken
  exact (reaches_left sends).trans taken

/-- The right party sends a message, which the left party takes. -/
theorem reaches_down {message : List Down}
    (sends : rightParty right [] false = some ⟨nextRight, 0, message, rightCloses⟩)
    (takes : leftParty left message rightCloses = some ⟨nextLeft, message.length, [], leftCloses⟩) :
    Reaches leftParty rightParty ⟨left, right, [], [], false, false⟩
      ⟨nextLeft, nextRight, [], [], leftCloses, rightCloses⟩ := by
  have taken := @reaches_left_silent _ _ _ _ leftParty rightParty _ _ nextRight _ [] _ _ _ takes
  rw [drop_length] at taken
  exact (reaches_right sends).trans taken

/-! ## Order does not matter -/

/-- Moves of the two parties commute. -/
theorem steps_commute (leftSteady : leftParty.Steady) (rightSteady : rightParty.Steady)
    (left : stepLeft leftParty config = some next)
    (right : stepRight rightParty config = some other) :
    ∃ joined, stepRight rightParty next = some joined ∧ stepLeft leftParty other = some joined := by
  rcases exists_move_left left with ⟨leftOpen, move, moves, rfl⟩
  rcases exists_move_right right with ⟨rightOpen, answer, answers, rfl⟩
  rw [rightOpen] at moves
  rw [leftOpen] at answers
  rcases leftSteady _ _ _ moves with ⟨enough, moveSteady⟩
  rcases rightSteady _ _ _ answers with ⟨answerEnough, answerSteady⟩
  refine ⟨⟨move.next, answer.next, config.toLeft.drop move.taken ++ answer.sent,
    config.toRight.drop answer.taken ++ move.sent, move.closes, answer.closes⟩, ?_, ?_⟩
  · rw [stepRight, if_neg (by rw [rightOpen]; exact Bool.false_ne_true)]
    rw [answerSteady, Option.map_some, drop_append_of_le_length answerEnough]
  · rw [stepLeft, if_neg (by rw [leftOpen]; exact Bool.false_ne_true)]
    rw [moveSteady, Option.map_some, drop_append_of_le_length enough]

/-- Two moves from one configuration can be joined by one move each. -/
theorem diamond (leftSteady : leftParty.Steady) (rightSteady : rightParty.Steady)
    (first : Step leftParty rightParty config next)
    (second : Step leftParty rightParty config other) :
    ∃ joined, Relation.ReflGen (Step leftParty rightParty) next joined ∧
      Relation.ReflTransGen (Step leftParty rightParty) other joined := by
  rcases first with left | right
  · rcases second with left' | right
    · rw [left] at left'
      cases left'
      exact ⟨next, .refl, .refl⟩
    · rcases steps_commute leftSteady rightSteady left right with ⟨joined, toJoined, otherToJoined⟩
      exact ⟨joined, .single (Or.inr toJoined), .single (Or.inl otherToJoined)⟩
  · rcases second with left | right'
    · rcases steps_commute leftSteady rightSteady left right with ⟨joined, otherToJoined, toJoined⟩
      exact ⟨joined, .single (Or.inl toJoined), .single (Or.inr otherToJoined)⟩
    · rw [right] at right'
      cases right'
      exact ⟨next, .refl, .refl⟩

section

variable (leftSteady : leftParty.Steady) (rightSteady : rightParty.Steady)
  (ends : Reaches leftParty rightParty config final) (leftStuck : stepLeft leftParty final = none)
  (rightStuck : stepRight rightParty final = none)
  (reaches : Reaches leftParty rightParty config next)
include leftSteady rightSteady ends leftStuck rightStuck reaches

/-- If a run ends where neither party can move, every run leads there. -/
theorem reaches_final :
    Reaches leftParty rightParty next final := by
  rcases Relation.church_rosser (fun _ _ _ => diamond leftSteady rightSteady) ends reaches with
    ⟨joined, finalReaches, nextReaches⟩
  rcases Relation.ReflTransGen.cases_head finalReaches with rfl | ⟨after, stepped, _⟩
  · exact nextReaches
  · rcases stepped with left | right
    · rw [leftStuck] at left
      cases left
    · rw [rightStuck] at right
      cases right

/-- A deadlock is where every run leads. -/
theorem eq_final_of_deadlock (deadlock : Deadlock leftParty rightParty next) : next = final := by
  have toFinal := reaches_final leftSteady rightSteady ends leftStuck rightStuck reaches
  rcases Relation.ReflTransGen.cases_head toFinal with equal | ⟨after, stepped, _⟩
  · exact equal
  · rcases stepped with left | right
    · rw [deadlock.2.2.1] at left
      cases left
    · rw [deadlock.2.2.2] at right
      cases right

end

/-- A party that never moves again keeps its state. -/
theorem left_of_finished (finished : ∀ input closed, leftParty config.left input closed = none)
    (reaches : Reaches leftParty rightParty config next) : next.left = config.left := by
  induction reaches with
  | refl => rfl
  | tail _ stepped ih =>
    rcases stepped with left | right
    · rcases exists_move_left left with ⟨_, move, moves, _⟩
      rw [ih, finished] at moves
      cases moves
    · rcases exists_move_right right with ⟨_, move, _, rfl⟩
      exact ih

theorem right_of_finished (finished : ∀ input closed, rightParty config.right input closed = none)
    (reaches : Reaches leftParty rightParty config next) : next.right = config.right := by
  induction reaches with
  | refl => rfl
  | tail _ stepped ih =>
    rcases stepped with left | right
    · rcases exists_move_left left with ⟨_, move, _, rfl⟩
      exact ih
    · rcases exists_move_right right with ⟨_, move, moves, _⟩
      rw [ih, finished] at moves
      cases moves

end Magisk.Duplex
