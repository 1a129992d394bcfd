import TriggerScript.Proofs.Token.Extent
import TriggerScript.Token.Stream

/-!
What lies ahead in a text.

`Lane.sight` lists the tokens that will be taken from a text, for ever. Reading ahead does not
change it and taking a token moves it on by one (`sight_fill`, `sight_take`), so how many tokens
were read ahead does not show. What lies ahead of a stream is what lies ahead of its active text.
-/

namespace TriggerScript

namespace Lane

def readAhead (lane : Lane) : Lane :=
  { lane with
    scanner := lane.scanner.advance.2.2
    ahead := lane.ahead ++ [lane.scanner.advance.2.1] }

/-- Read ahead until more than `count` tokens are at hand. -/
def fill (lane : Lane) (count : Nat) : Lane :=
  Nat.repeat readAhead (count + 1 - lane.ahead.length) lane

/-- The tokens ahead, one after the other. -/
def sight (lane : Lane) (count : Nat) : Token :=
  (lane.fill count).ahead.getD count TokenStream.endToken

/-- Take the next token, unless it is the end. -/
def take (lane : Lane) : Lane :=
  match (lane.fill 0).ahead with
  | [] => lane.fill 0
  | token :: ahead =>
    if token.kind = .eof then lane.fill 0 else { lane.fill 0 with ahead, previous := some token }

variable {lane other : Lane} {count : Nat}

theorem repeat_read_ahead (rounds : Nat) (lane : Lane) :
    Nat.repeat readAhead rounds lane.readAhead = (Nat.repeat readAhead rounds lane).readAhead := by
  induction rounds with
  | zero => rfl
  | succ rounds ih => exact congrArg readAhead ih

theorem length_repeat (rounds : Nat) (lane : Lane) :
    (Nat.repeat readAhead rounds lane).ahead.length = lane.ahead.length + rounds := by
  induction rounds with
  | zero => rfl
  | succ rounds ih =>
    rw [Nat.repeat, readAhead, List.length_append, ih]
    rfl

theorem length_fill (lane : Lane) (count : Nat) :
    (lane.fill count).ahead.length = max (count + 1) lane.ahead.length := by
  rw [fill, length_repeat]
  omega

theorem sight_of_lt (held : count < lane.ahead.length) :
    lane.sight count = lane.ahead.getD count TokenStream.endToken := by
  have none : count + 1 - lane.ahead.length = 0 := by omega
  rw [sight, fill, none]
  rfl

theorem sight_read_ahead (lane : Lane) : lane.readAhead.sight = lane.sight := by
  funext count
  have longer : lane.readAhead.ahead.length = lane.ahead.length + 1 := by simp [readAhead]
  by_cases held : count < lane.ahead.length
  · rw [sight_of_lt held, sight_of_lt (by omega)]
    simp [readAhead, List.getElem?_append_left held]
  · have rounds : count + 1 - lane.ahead.length =
        (count + 1 - lane.readAhead.ahead.length) + 1 := by omega
    rw [sight, sight, fill, fill, rounds, repeat_read_ahead]
    rfl

/-- Reading ahead does not change what lies ahead. -/
@[simp] theorem sight_fill (lane : Lane) (count : Nat) : (lane.fill count).sight = lane.sight := by
  rw [fill]
  generalize count + 1 - lane.ahead.length = rounds
  induction rounds with
  | zero => rfl
  | succ rounds ih => rw [Nat.repeat, sight_read_ahead, ih]

theorem head_fill (lane : Lane) : ∃ ahead, (lane.fill 0).ahead = lane.sight 0 :: ahead := by
  have some_ahead : 0 < (lane.fill 0).ahead.length := by
    rw [length_fill]
    omega
  cases split : (lane.fill 0).ahead with
  | nil =>
    rw [split] at some_ahead
    cases some_ahead
  | cons token ahead =>
    refine ⟨ahead, ?_⟩
    rw [sight, split]
    rfl

theorem take_of_unfinished (unfinished : (lane.sight 0).kind ≠ .eof) :
    ∃ ahead, (lane.fill 0).ahead = lane.sight 0 :: ahead ∧
      lane.take = { lane.fill 0 with ahead, previous := some (lane.sight 0) } := by
  obtain ⟨ahead, split⟩ := lane.head_fill
  refine ⟨ahead, split, ?_⟩
  unfold take
  split
  · rename_i empty
    cases empty.symm.trans split
  · rename_i token others same
    obtain ⟨rfl, rfl⟩ := List.cons.inj (same.symm.trans split)
    rw [if_neg unfinished]

theorem take_of_finished (finished : (lane.sight 0).kind = .eof) : lane.take = lane.fill 0 := by
  obtain ⟨ahead, split⟩ := lane.head_fill
  unfold take
  split
  · rfl
  · rename_i token others same
    obtain ⟨rfl, rfl⟩ := List.cons.inj (same.symm.trans split)
    rw [if_pos finished]

theorem sight_of_cons {token : Token} {ahead : List Token} (split : lane.ahead = token :: ahead)
    (previous : Option Token) :
    { lane with ahead, previous }.sight = fun count => lane.sight (count + 1) := by
  have moved : ∀ rounds, (Nat.repeat readAhead rounds lane).scanner =
        (Nat.repeat readAhead rounds { lane with ahead, previous }).scanner ∧
      (Nat.repeat readAhead rounds lane).ahead =
        token :: (Nat.repeat readAhead rounds { lane with ahead, previous }).ahead := by
    intro rounds
    induction rounds with
    | zero => exact ⟨rfl, split⟩
    | succ rounds ih =>
      obtain ⟨scanner, ahead⟩ := ih
      simp only [Nat.repeat, readAhead]
      rw [← scanner, ahead]
      exact ⟨rfl, rfl⟩
  funext count
  have rounds : count + 1 + 1 - lane.ahead.length = count + 1 - ahead.length := by
    rw [split, List.length_cons]
    omega
  rw [sight, sight, fill, fill, rounds, (moved _).2, List.getD_cons_succ]

theorem sight_take (unfinished : (lane.sight 0).kind ≠ .eof) :
    lane.take.sight = fun count => lane.sight (count + 1) := by
  obtain ⟨ahead, split, taken⟩ := take_of_unfinished unfinished
  rw [taken, sight_of_cons split, sight_fill]

/-! ### Weights -/

def weight (lane : Lane) : Nat := total Token.weight lane.ahead + lane.scanner.weight

def Ordered (lane : Lane) : Prop := lane.scanner.Ordered

theorem weight_fill (ordered : lane.Ordered) (count : Nat) :
    (lane.fill count).Ordered ∧ (lane.fill count).weight ≤ lane.weight := by
  rw [fill]
  generalize count + 1 - lane.ahead.length = rounds
  induction rounds with
  | zero => exact ⟨ordered, le_rfl⟩
  | succ rounds ih =>
    have read := Scanner.weight_advance ih.1
    refine ⟨read.1, ?_⟩
    simp only [Nat.repeat, readAhead, weight, total_append, total_cons, total_nil] at ih ⊢
    omega

theorem weight_take (ordered : lane.Ordered) (unfinished : (lane.sight 0).kind ≠ .eof) :
    lane.take.Ordered ∧ lane.take.weight + (lane.sight 0).weight ≤ lane.weight := by
  obtain ⟨ahead, split, taken⟩ := take_of_unfinished unfinished
  have filled := weight_fill ordered 0
  rw [taken]
  refine ⟨filled.1, ?_⟩
  have lighter := filled.2
  rw [weight, split, total_cons] at lighter
  simp only [weight] at lighter ⊢
  omega

end Lane

/-! ### Streams -/

namespace TokenStream

variable (stream : TokenStream) (count : Nat)

theorem fill_eq :
    (stream.fill count).active = stream.active.fill count ∧
    (stream.fill count).suspended = stream.suspended ∧
      (stream.fill count).faults = stream.faults := by
  rw [fill, Lane.fill]
  generalize count + 1 - stream.active.ahead.length = rounds
  induction rounds with
  | zero => exact ⟨rfl, rfl, rfl⟩
  | succ rounds ih =>
    obtain ⟨active, suspended, faults⟩ := ih
    simp only [Nat.repeat, readAhead, Lane.readAhead, active, suspended, faults, and_self]

@[simp] theorem active_fill : (stream.fill count).active = stream.active.fill count :=
  (stream.fill_eq count).1

@[simp] theorem suspended_fill : (stream.fill count).suspended = stream.suspended :=
  (stream.fill_eq count).2.1

@[simp] theorem faults_fill : (stream.fill count).faults = stream.faults :=
  (stream.fill_eq count).2.2

theorem token_lookahead : (stream.lookahead count).1 = stream.active.sight count := by
  rw [lookahead, Lane.sight, active_fill]

theorem take_eq :
    stream.take.1 = stream.active.sight 0 ∧ stream.take.2.active = stream.active.take ∧
    stream.take.2.suspended = stream.suspended ∧ stream.take.2.faults = stream.faults := by
  obtain ⟨ahead, split⟩ := stream.active.head_fill
  have held : (stream.fill 0).active.ahead = stream.active.sight 0 :: ahead := by
    rw [active_fill, split]
  unfold take
  simp only
  split
  · rename_i empty
    cases empty.symm.trans held
  · rename_i token others same
    obtain ⟨rfl, rfl⟩ := List.cons.inj (same.symm.trans held)
    split
    · rename_i finished
      rw [Lane.take_of_finished finished]
      simp
    · rename_i unfinished
      obtain ⟨later, kept, taken⟩ := Lane.take_of_unfinished unfinished
      obtain ⟨-, rfl⟩ := List.cons.inj (kept.symm.trans split)
      rw [taken]
      simp

end TokenStream

end TriggerScript
