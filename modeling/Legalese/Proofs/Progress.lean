import Legalese.Proofs.Occurrences
import Legalese.Proofs.Reading.Orderly

/-!
# A reading always gets on

Whatever the text, its reading comes to an end, and it does so without moving past the end of
the text.  A call inside another of the same reader finds fewer tokens left, and since a
repetition is such a call, no loop goes around twice at one place.

`within` reads with a limited number of moves.  The number that a text takes is never greater
than that of its tokens, and every limit that is not below it gives the same reading.
-/

namespace Legalese

namespace Program

variable {α : Type}

/-! ## What a program does -/

/-- The states at which a program moves on; moves inside its calls do not count. -/
def moves : Program α → List State
  | done _ => []
  | fail _ => []
  | advance s next =>
    s :: match s.moved with
      | .error _ => []
      | .ok s' => (next s').moves
  | call r s next =>
    match answer r s with
    | .error _ => []
    | .ok a => (next a).moves

/-- The calls that a program makes itself. -/
def calls : Program α → List (Routine × State)
  | done _ => []
  | fail _ => []
  | advance s next =>
    match s.moved with
    | .error _ => []
    | .ok s' => (next s').calls
  | call r s next =>
    (r, s) :: match answer r s with
      | .error _ => []
      | .ok a => (next a).calls

/-- What a program comes to if it may move on only so many times, and how many times it still
might.  There is no value if that does not suffice, or if a call has none. -/
def spend (called : (r : Routine) → State → Nat →
    Option (Except Failure (r.Answer × State) × Nat)) :
    Program α → Nat → Option (Except Failure α × Nat)
  | done a, fuel => some (.ok a, fuel)
  | fail f, fuel => some (.error f, fuel)
  | advance _ _, 0 => none
  | advance s next, fuel + 1 =>
    match s.moved with
    | .error f => some (.error f, fuel)
    | .ok s' => (next s').spend called fuel
  | call r s next, fuel =>
    match called r s fuel with
    | none => none
    | some (.error f, fuel) => some (.error f, fuel)
    | some (.ok a, fuel) => (next a).spend called fuel

/-- What a reader comes to if it may move on only so many times, its calls included.  A call
must find fewer moves left, or be of a reader that stands before this one. -/
def within (r : Routine) (s : State) (fuel : Nat) :
    Option (Except Failure (r.Answer × State) × Nat) :=
  (code r s).spend (fun r' s' fuel' =>
    if _h : fuel' < fuel ∨ fuel' ≤ fuel ∧ r'.rank < r.rank then within r' s' fuel' else none) fuel
termination_by (fuel, r.rank)
decreasing_by exact lex_of_before _h

/-- The calls that a reader may make. -/
def allowed (r : Routine) (fuel : Nat) (r' : Routine) (s' : State) (fuel' : Nat) :
    Option (Except Failure (r'.Answer × State) × Nat) :=
  if fuel' < fuel ∨ fuel' ≤ fuel ∧ r'.rank < r.rank then within r' s' fuel' else none

theorem within_eq (r : Routine) (s : State) (fuel : Nat) :
    within r s fuel = (code r s).spend (allowed r fuel) fuel := by
  rw [within]
  rfl

/-! ## What it costs -/

/-- A rest of the program of a reader comes to its result with so many moves, and not with
fewer.  What the reader has spent before are as many moves as it has passed tokens. -/
def Costs (top : Routine × State) (c : Cursor) (p : Program α) (cost : Nat) : Prop :=
  ∀ fuel n, n + top.2.remaining = fuel + c.remaining →
    p.spend (allowed top.1 fuel) n = if n < cost then none else some (p.result, n - cost)

section

variable {top : Routine × State} {r : Routine} {s s' : State} {c c' : Cursor} {f : Failure}
  {m n : Nat}

theorem costs_done (a : α) : Costs top c (done a) 0 := fun _ _ _ => rfl

theorem costs_fail (f : Failure) : Costs top c (fail f : Program α) 0 := fun _ _ _ => rfl

theorem costs_advance_error {next : State → Program α} (failed : s.moved = .error f) :
    Costs top c (advance s next) 1 := by
  intro fuel n _
  cases n with
  | zero => rfl
  | succ n =>
    rw [spend, failed, if_neg (by omega), result, failed]
    rfl

theorem costs_advance {next : State → Program α} (moved : s.moved = .ok s')
    (passed : s'.cursor.remaining + 1 = c.remaining) (h : Costs top s'.cursor (next s') n) :
    Costs top c (advance s next) (n + 1) := by
  intro fuel k spent
  cases k with
  | zero => exact (if_pos (Nat.succ_pos n)).symm
  | succ k =>
    rw [spend, moved, result, moved, ok_bind, Nat.add_sub_add_right]
    simp only [Nat.add_lt_add_iff_right]
    exact h fuel k (by omega)

/-- A call of which the costs are known, by what is spent before it. -/
theorem allowed_eq {fuel : Nat} (below : Below (r, s) top) (called : Costs (r, s) s.cursor (code r s) m)
    (spent : n + top.2.remaining = fuel + s.cursor.remaining) :
    allowed top.1 fuel r s n = if n < m then none else some (answer r s, n - m) := by
  have may : n < fuel ∨ n ≤ fuel ∧ r.rank < top.1.rank := by
    unfold Below at below
    have same : s.remaining = s.cursor.remaining := rfl
    dsimp only at below
    omega
  rw [allowed, if_pos may, within_eq, called n n rfl, result_code]

theorem costs_call_error {next : r.Answer × State → Program α} (below : Below (r, s) top)
    (called : Costs (r, s) s.cursor (code r s) m) (failed : answer r s = .error f) :
    Costs top s.cursor (call r s next) m := by
  intro fuel n spent
  rw [spend, allowed_eq below called spent, failed, result, failed]
  by_cases few : n < m
  · rw [if_pos few, if_pos few]
  · rw [if_neg few, if_neg few]
    rfl

theorem costs_call {a : r.Answer × State} {next : r.Answer × State → Program α}
    (below : Below (r, s) top) (called : Costs (r, s) s.cursor (code r s) m)
    (come : answer r s = .ok a) (passed : c'.remaining + m = s.cursor.remaining)
    (h : Costs top c' (next a) n) : Costs top s.cursor (call r s next) (m + n) := by
  intro fuel k spent
  rw [spend, allowed_eq below called spent, come, result, come, ok_bind]
  by_cases few : k < m
  · rw [if_pos few, if_pos (Nat.lt_add_right n few)]
  · rw [if_neg few]
    show (next a).spend (allowed top.1 fuel) (k - m) = _
    rw [h fuel (k - m) (by omega), Nat.sub_sub]
    have same : k - m < n ↔ k < m + n := by omega
    simp only [same]

end

/-! ## Orderly programs come to an end -/

/-- From a place on, a rest of the program of a reader comes to its result with so many moves.
If that is a value, as many tokens have been passed. -/
structure Comes (top : Routine × State) (post : α → Cursor → Prop) (c : Cursor) (p : Program α)
    (cost : Nat) : Prop where
  costs : Costs top c p cost
  le : cost ≤ c.remaining
  value : ∀ a, p.result = .ok a →
    ∃ c', c.Follows c' ∧ c'.remaining + cost = c.remaining ∧ post a c'

theorem Orderly.comes {top : Routine × State} {post : α → Cursor → Prop} {c : Cursor}
    {p : Program α} (orderly : Orderly top post c p)
    (called : ∀ x, Below x top → x.1.needs ≤ x.2.remaining →
      ∃ cost, Comes x (Ends x.1) x.2.cursor (code x.1 x.2) cost) :
    ∃ cost, Comes top post c p cost := by
  induction p generalizing c with
  | done a =>
    refine ⟨0, costs_done a, Nat.zero_le _, ?_⟩
    rintro _ ⟨⟩
    exact ⟨c, .refl c, rfl, orderly⟩
  | fail f => exact ⟨0, costs_fail f, Nat.zero_le _, nofun⟩
  | advance s next ih =>
    obtain ⟨rfl, pos, orderly⟩ := orderly
    cases moved : s.moved with
    | error f =>
      refine ⟨1, costs_advance_error moved, pos, fun a come => ?_⟩
      rw [result, moved] at come
      cases come
    | ok s' =>
      obtain ⟨n, comes⟩ := ih s' (orderly s' moved)
      have passed : s'.cursor.remaining + 1 = s.cursor.remaining := by
        have left : s'.cursor.remaining = s.cursor.remaining - 1 := State.remaining_of_moved moved
        omega
      refine ⟨n + 1, costs_advance moved passed comes.costs, ?_, fun a come => ?_⟩
      · have := comes.le
        omega
      · rw [result, moved] at come
        obtain ⟨c', follows, total, ends⟩ := comes.value a come
        have step := Cursor.follows_of_moved (State.cursor_of_moved moved).1
        exact ⟨c', step.trans follows, by omega, ends⟩
  | call r s next ih =>
    obtain ⟨rfl, needs, below, orderly⟩ := orderly
    obtain ⟨m, calls⟩ := called (r, s) below needs
    have value := calls.value
    rw [result_code] at value
    cases come : answer r s with
    | error f =>
      refine ⟨m, costs_call_error below calls.costs come, calls.le, fun a other => ?_⟩
      rw [result, come] at other
      cases other
    | ok b =>
      obtain ⟨_, follows, passed, rfl, leaves⟩ := value b come
      obtain ⟨n, comes⟩ := ih b (orderly b.1 b.2 follows leaves)
      refine ⟨m + n, costs_call below calls.costs come passed comes.costs, ?_, fun a other => ?_⟩
      · have := comes.le
        dsimp only at passed
        omega
      · rw [result, come] at other
        obtain ⟨c', follows', total, ends⟩ := comes.value a other
        dsimp only at passed
        exact ⟨c', follows.trans follows', by omega, ends⟩

/-- By induction on the tokens that are left, and for as many tokens on the place of the reader
in the list of readers. -/
theorem comes {r : Routine} {s : State} (needs : r.needs ≤ s.remaining) :
    ∃ cost, Comes (r, s) (Ends r) s.cursor (code r s) cost :=
  Orderly.comes (keeps needs) fun x _ needs' => comes needs'
termination_by (s.remaining, r.rank)
decreasing_by
  rename_i below
  exact lex_of_before below

/-! ## Calls inside calls -/

/-- Where a reader finds as many tokens as it needs, it leaves as many as it promises. -/
theorem follows_of_answer {r : Routine} {s s' : State} {a : r.Answer}
    (needs : r.needs ≤ s.remaining) (h : answer r s = .ok (a, s')) :
    s.cursor.Follows s'.cursor ∧ r.leaves a ≤ s'.remaining := by
  obtain ⟨cost, come⟩ := comes needs
  obtain ⟨_, follows, -, rfl, leaves⟩ := come.value (a, s') (by rw [result_code, h])
  exact ⟨follows, leaves⟩

/-- A reader that comes to a value has made as many moves as it has passed tokens. -/
theorem within_of_answer {r : Routine} {s s' : State} {a : r.Answer} (needs : r.needs ≤ s.remaining)
    (h : answer r s = .ok (a, s')) :
    ∃ cost, s'.remaining + cost = s.remaining ∧ ∀ fuel,
      within r s fuel = if fuel < cost then none else some (.ok (a, s'), fuel - cost) := by
  obtain ⟨cost, come⟩ := comes needs
  obtain ⟨_, -, passed, rfl, -⟩ := come.value (a, s') (by rw [result_code, h])
  refine ⟨cost, passed, fun fuel => ?_⟩
  rw [within_eq, come.costs fuel fuel rfl, result_code, h]

theorem Orderly.moves {top : Routine × State} {post : α → Cursor → Prop} {c : Cursor}
    {p : Program α} (orderly : Orderly top post c p) : ∀ s ∈ p.moves, 0 < s.remaining := by
  induction p generalizing c with
  | done a => exact nofun
  | fail f => exact nofun
  | advance s next ih =>
    obtain ⟨rfl, pos, orderly⟩ := orderly
    rw [Program.moves]
    refine List.forall_mem_cons.2 ⟨pos, ?_⟩
    cases moved : s.moved with
    | error f => exact nofun
    | ok s' => exact ih s' (orderly s' moved)
  | call r s next ih =>
    obtain ⟨rfl, needs, -, orderly⟩ := orderly
    rw [Program.moves]
    cases come : answer r s with
    | error f => exact nofun
    | ok a =>
      obtain ⟨follows, leaves⟩ := follows_of_answer needs come
      exact ih a (orderly a.1 a.2 follows leaves)

/-- One call is made inside another: further on or at the same place, with the tokens that it
needs, and below the other. -/
structure Inside (x y : Routine × State) : Prop where
  follows : y.2.cursor.Follows x.2.cursor
  needs : x.1.needs ≤ x.2.remaining
  below : Below x y

theorem Orderly.calls {top : Routine × State} {post : α → Cursor → Prop} {c : Cursor}
    {p : Program α} (orderly : Orderly top post c p) (onward : top.2.cursor.Follows c) :
    ∀ x ∈ p.calls, Inside x top := by
  induction p generalizing c with
  | done a => exact nofun
  | fail f => exact nofun
  | advance s next ih =>
    obtain ⟨rfl, pos, orderly⟩ := orderly
    rw [Program.calls]
    cases moved : s.moved with
    | error f => exact nofun
    | ok s' =>
      have step := Cursor.follows_of_moved (State.cursor_of_moved moved).1
      exact ih s' (orderly s' moved) (onward.trans step)
  | call r s next ih =>
    obtain ⟨rfl, needs, below, orderly⟩ := orderly
    rw [Program.calls]
    refine List.forall_mem_cons.2 ⟨⟨onward, needs, below⟩, ?_⟩
    cases come : answer r s with
    | error f => exact nofun
    | ok a =>
      obtain ⟨follows, leaves⟩ := follows_of_answer needs come
      exact ih a (orderly a.1 a.2 follows leaves) (onward.trans follows)

/-- The first call makes the second. -/
def Calls (x y : Routine × State) : Prop := y ∈ (code x.1 x.2).calls

variable {x y z : Routine × State}

theorem Inside.trans (h : Inside z y) (h' : Inside y x) : Inside z x := by
  refine ⟨h'.follows.trans h.follows, h.needs, ?_⟩
  have below := h.below
  have below' := h'.below
  unfold Below at below below' ⊢
  omega

theorem inside_of_calls (needs : x.1.needs ≤ x.2.remaining) (h : Calls x y) : Inside y x :=
  Orderly.calls (keeps needs) (.refl _) y h

/-- By induction on the calls between the two. -/
theorem inside_of_nested (needs : x.1.needs ≤ x.2.remaining) (h : Relation.TransGen Calls x y) :
    Inside y x := by
  induction h with
  | single h => exact inside_of_calls needs h
  | tail _ h ih => exact (inside_of_calls ih.needs h).trans ih

end Program

namespace Reading

open Program

/-- Reads a text with only so many moves after the first two tokens have come into view. -/
def within (source : String) (fuel : Nat) : Option (Except Failure Reading) :=
  match State.start source .empty with
  | .error f => some (.error f)
  | .ok s =>
    (Program.within .resolution s fuel).map fun come =>
      come.1.map fun (r, s) => ⟨r, s.register, s.errors, s.log⟩

/-- The call is made while a text is read. -/
def Enters (source : String) (x : Routine × State) : Prop :=
  ∃ s, State.start source .empty = .ok s ∧ Relation.ReflTransGen Calls (.resolution, s) x

theorem needs_of_enters {source : String} {x : Routine × State} (h : Enters source x) :
    x.1.needs ≤ x.2.remaining := by
  obtain ⟨s, -, calls⟩ := h
  rcases Relation.reflTransGen_iff_eq_or_transGen.1 calls with rfl | nested
  · exact Nat.zero_le _
  · exact (inside_of_nested (Nat.zero_le _) nested).needs

theorem within_eq (source : String) :
    ∃ cost ≤ (tokens source.toList).list.length, ∀ fuel,
      within source fuel = if fuel < cost then none else some (ofString source) := by
  unfold within ofString
  cases start : State.start source .empty with
  | error f => exact ⟨0, Nat.zero_le _, fun fuel => rfl⟩
  | ok s =>
    obtain ⟨cost, come⟩ := comes (r := .resolution) (s := s) (Nat.zero_le _)
    have all : s.cursor.remaining = (tokens source.toList).list.length := by
      rw [(State.cursor_of_start start).2]
      rfl
    refine ⟨cost, all ▸ come.le, fun fuel => ?_⟩
    dsimp only
    rw [Program.within_eq, come.costs fuel fuel rfl, result_code, ok_bind]
    split
    · rfl
    · show some (s.resolution.map _) = some (s.resolution >>= _)
      cases s.resolution with
      | error f => rfl
      | ok a => rfl

/-- The programs do what the readers do.  However a text is read, a call inside another of the
same reader is strictly further on, no move is made at the end of the text, and a reader that
comes to a value has made as many moves as it has passed tokens.  So the reading takes no more
moves than the text has tokens; with fewer than it takes it does not come to an end, and with
more it comes to the same. -/
theorem progress (source : String) :
    (∀ r s, (code r s).result = answer r s) ∧
    (∀ x, Enters source x →
      (∀ y, Relation.TransGen Calls x y → y.1.rank = x.1.rank →
        x.2.cursor.Follows y.2.cursor ∧ y.2.remaining < x.2.remaining) ∧
      (∀ s ∈ (code x.1 x.2).moves, s.kind? ≠ none) ∧
      ∀ a s, answer x.1 x.2 = .ok (a, s) →
        ∃ cost, s.remaining + cost = x.2.remaining ∧ ∀ fuel,
          Program.within x.1 x.2 fuel =
            if fuel < cost then none else some (.ok (a, s), fuel - cost)) ∧
    ∃ cost ≤ (tokens source.toList).list.length, ∀ fuel,
      within source fuel = if fuel < cost then none else some (ofString source) := by
  refine ⟨result_code, fun x enters => ?_, within_eq source⟩
  have needs := needs_of_enters enters
  refine ⟨?_, ?_, fun a s come => within_of_answer needs come⟩
  · intro y nested same
    have inside := inside_of_nested needs nested
    refine ⟨inside.follows, ?_⟩
    have below := inside.below
    unfold Below at below
    omega
  · intro s moved none
    have pos : 0 < s.cursor.tokens.length := Orderly.moves (keeps needs) s moved
    have ended : s.cursor.tokens = [] := by
      simpa [State.kind?, Cursor.kind?, Cursor.current?] using none
    rw [ended] at pos
    exact absurd pos (Nat.lt_irrefl 0)

/-- The search for clauses goes on from the first of two words to the second, and to the end
with two moves. -/
theorem progress_of_two_words :
    let s : State := ⟨⟨[⟨.filler, "a"⟩, ⟨.filler, "b"⟩], none⟩, .empty, [], []⟩
    let s' : State := ⟨⟨[⟨.filler, "b"⟩], none⟩, .empty, [], []⟩
    let ended : State := ⟨⟨[], none⟩, .empty, [], []⟩
    Enters "a b" (.clauses .blank, s) ∧
      Relation.TransGen Calls (.clauses .blank, s) (.clauses .blank, s') ∧
      s.cursor.Follows s'.cursor ∧ s'.remaining < s.remaining ∧
      answer (.clauses .blank) s = .ok (.blank, ended) ∧
      (∀ fuel, Program.within (.clauses .blank) s fuel =
        if fuel < 2 then none else some (.ok (.blank, ended), fuel - 2)) ∧
      ∃ cost ≤ (tokens "a b".toList).list.length, ∀ fuel,
        within "a b" fuel = if fuel < cost then none else some (ofString "a b") := by
  intro s s' ended
  have start : State.start "a b" .empty = .ok s := start_of_tokenize (by cbv) .empty
  have first : Calls (.resolution, s) (.clauses .blank, s) := by
    show _ ∈ (Program.resolution s).calls
    rw [Program.resolution, if_pos (.inl rfl)]
    show _ ∈ (call (.clauses .blank) s _).calls
    rw [Program.calls]
    exact List.mem_cons_self
  have enters : Enters "a b" (.clauses .blank, s) := ⟨s, start, .single first⟩
  have second : Calls (.clauses .blank, s) (.clauses .blank, s') := by
    have moved : s.moved = .ok s' := rfl
    show _ ∈ (advance s (enter (.clauses .blank))).calls
    rw [Program.calls, moved]
    show _ ∈ (call (.clauses .blank) s' done).calls
    rw [Program.calls]
    exact List.mem_cons_self
  have nested : Relation.TransGen Calls (.clauses .blank, s) (.clauses .blank, s') :=
    .single second
  have come : answer (.clauses .blank) s = .ok (.blank, ended) := by cbv
  obtain ⟨-, inner, cost⟩ := progress "a b"
  obtain ⟨onward, -, made⟩ := inner _ enters
  obtain ⟨follows, less⟩ := onward _ nested rfl
  obtain ⟨moves, passed, run⟩ := made .blank ended come
  obtain rfl : moves = 2 := (Nat.zero_add moves).symm.trans passed
  exact ⟨enters, nested, follows, less, come, run, cost⟩

end Reading
end Legalese
