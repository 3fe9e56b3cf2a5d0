import Mathlib
import Legalese.Proofs.Reading.Alike

/-!
# The rules for names, as a walk over the tree

A reader enters names while it reads, before it knows whether a conditional will stand.
Here the offences are found in the finished tree instead: its names are visited in order,
and a ledger says which of them have been declared, which used and which break a rule.

Main statement: of a text that was read to its end, the errors and the register are those
of the walk, so what was read and then dropped has left no trace in them.
-/

namespace Legalese

/-! ## The walk -/

/-- One mention of a name in a resolution. -/
inductive Mention
  | use (name : String)
  | declare (name : String)
  deriving DecidableEq

/-- The value of a declaration comes before its name. -/
def Declaration.mentions (d : Declaration) : List Mention :=
  d.value.names.map .use ++ [.declare d.name]

def Statement.mentions (a : Statement) : List Mention := a.names.map .use

namespace Resolution

def mentions (r : Resolution) : List Mention :=
  r.recitals.flatMap Declaration.mentions ++ r.actions.flatMap Statement.mentions

end Resolution

/-- What is known about names in the middle of a walk. -/
structure Ledger where
  /-- Every declared name once, in the order of first declaration. -/
  declared : List String
  used : List String
  offences : List NameError

namespace Ledger

def blank : Ledger := ⟨[], [], []⟩

/-- A name may be used after its declaration. -/
def use (l : Ledger) (x : String) : Ledger :=
  if x ∈ l.declared then { l with used := l.used ++ [x] }
  else { l with offences := l.offences ++ [⟨.undeclared, x⟩] }

/-- A name may be declared once. -/
def declare (l : Ledger) (x : String) : Ledger :=
  if x ∈ l.declared then { l with offences := l.offences ++ [⟨.redeclared, x⟩] }
  else { l with declared := l.declared ++ [x] }

def enter (l : Ledger) : Mention → Ledger
  | .use x => l.use x
  | .declare x => l.declare x

def enterAll (l : Ledger) (ms : List Mention) : Ledger := ms.foldl enter l

def standing (l : Ledger) (x : String) : Standing := if x ∈ l.used then .used else .declared

def standings (l : Ledger) : List (String × Standing) := l.declared.map fun x => (x, l.standing x)

def unused (l : Ledger) : List String := l.declared.filter (· ∉ l.used)

theorem enterAll_append (l : Ledger) (ms ns : List Mention) :
    l.enterAll (ms ++ ns) = (l.enterAll ms).enterAll ns := List.foldl_append

end Ledger

namespace Resolution

/-- The ledger at the end of a resolution. -/
def ledger (r : Resolution) : Ledger := Ledger.blank.enterAll r.mentions

/-- Everything in a resolution that breaks a rule for names. -/
def offences (r : Resolution) : List NameError :=
  r.ledger.offences ++ r.ledger.unused.map (⟨.unused, ·⟩)

end Resolution

/-! ## The state of a reading agrees with a ledger -/

structure State.Agrees (s : State) (l : Ledger) : Prop where
  entries : s.register.entries = l.standings
  errors : s.errors = l.offences
  declared : ∀ x ∈ l.used, x ∈ l.declared

namespace State

theorem Agrees.contains {s : State} {l : Ledger} (h : s.Agrees l) (x : String) :
    s.register.contains x = true ↔ x ∈ l.declared := by
  unfold Register.contains Register.names
  rw [h.entries, Ledger.standings, List.map_map]
  simp

theorem Agrees.use {s : State} {l : Ledger} (h : s.Agrees l) (x : String) :
    (s.use x).Agrees (l.use x) := by
  unfold State.use Ledger.use
  by_cases hx : x ∈ l.declared
  · rw [if_pos ((h.contains x).2 hx), if_pos hx]
    refine ⟨?_, h.errors, ?_⟩
    · show (s.register.use x).entries = _
      rw [Register.use, h.entries, Ledger.standings, Ledger.standings, List.map_map]
      refine List.map_congr_left fun y _ => ?_
      by_cases hy : y = x
      · simp [Ledger.standing, hy]
      · simp [Ledger.standing, hy]
    · intro y hy
      rcases List.mem_append.1 hy with hy | hy
      · exact h.declared y hy
      · rw [List.mem_singleton.1 hy]
        exact hx
  · rw [if_neg fun c => hx ((h.contains x).1 c), if_neg hx]
    exact ⟨h.entries, congrArg (· ++ _) h.errors, h.declared⟩

theorem Agrees.declare {s : State} {l : Ledger} (h : s.Agrees l) (x : String) :
    (s.declare x).Agrees (l.declare x) := by
  unfold State.declare Ledger.declare
  by_cases hx : x ∈ l.declared
  · rw [if_pos ((h.contains x).2 hx), if_pos hx]
    exact ⟨h.entries, congrArg (· ++ _) h.errors, h.declared⟩
  · rw [if_neg fun c => hx ((h.contains x).1 c), if_neg hx]
    have fresh : x ∉ l.used := fun hu => hx (h.declared x hu)
    refine ⟨?_, h.errors, fun y hy => List.mem_append_left _ (h.declared y hy)⟩
    show (s.register.declare x).entries = _
    rw [Register.declare, h.entries]
    simp [Ledger.standings, Ledger.standing, fresh]

theorem Agrees.useAll {s : State} {l : Ledger} (h : s.Agrees l) (xs : List String) :
    (s.useAll xs).Agrees (l.enterAll (xs.map .use)) := by
  induction xs generalizing s l with
  | nil => exact h
  | cons x xs ih => exact ih (h.use x)

theorem Agrees.of_uses {s s' : State} {l : Ledger} {xs : List String} (h : s.Agrees l)
    (uses : s.Uses xs s') : s'.Agrees (l.enterAll (xs.map .use)) := by
  have agrees := h.useAll xs
  rw [uses.eq]
  exact ⟨agrees.entries, agrees.errors, agrees.declared⟩

/-- Whatever a dropped clause met, the ledger stays as it was. -/
theorem Agrees.of_forgets {s s' : State} {l : Ledger} (h : s.Agrees l) (forgets : s.Forgets s') :
    s'.Agrees l :=
  ⟨by rw [forgets.register, h.entries], by rw [forgets.errors, h.errors], h.declared⟩

theorem Agrees.of_recital {s s' : State} {l : Ledger} {d : Option Declaration} (h : s.Agrees l)
    (effect : s.RecitalEffect s' d) :
    s'.Agrees (l.enterAll (d.toList.flatMap Declaration.mentions)) := by
  cases d with
  | none => exact h.of_uses effect
  | some d =>
    obtain ⟨s₁, uses, rfl⟩ := effect
    have agrees := (h.of_uses uses).declare d.name
    have same : [d].flatMap Declaration.mentions = d.value.names.map .use ++ [.declare d.name] := by
      simp [Declaration.mentions]
    rw [Option.toList_some, same, Ledger.enterAll_append]
    exact agrees

theorem Agrees.of_action {s s' : State} {l : Ledger} {a : Option Statement} (h : s.Agrees l)
    (effect : s.ActionEffect s' a) :
    s'.Agrees (l.enterAll (a.toList.flatMap Statement.mentions)) := by
  cases a with
  | none => exact h.of_forgets effect
  | some a =>
    have same : [a].flatMap Statement.mentions = a.names.map .use := by simp [Statement.mentions]
    rw [Option.toList_some, same]
    exact h.of_uses effect

theorem Agrees.of_moved {s s' : State} {l : Ledger} (h : s.Agrees l) (moved : s.moved = .ok s') :
    s'.Agrees l :=
  h.of_uses (uses_of_moved moved)

/-- A run over clauses adds recitals, and then actions, to a draft, and enters their
names. -/
theorem ClausesRun.agrees {d d' : Draft} {s s' : State} (run : ClausesRun d s d' s') {l : Ledger}
    (agrees : s.Agrees l) :
    ∃ recitals actions, d'.recitals = d.recitals ++ recitals ∧
      d'.actions = d.actions ++ actions ∧ (d.phase = .actions → recitals = []) ∧
      s'.Agrees (l.enterAll (Resolution.mentions ⟨recitals, actions⟩)) := by
  induction run generalizing l with
  | ended _ => exact ⟨[], [], by simp, by simp, fun _ => rfl, agrees⟩
  | @recital d _ _ _ _ _ recital _ early read moved _ ih =>
    obtain ⟨rs, as, hr, ha, -, agrees'⟩ :=
      ih ((agrees.of_recital (recital_ok read).2).of_moved moved)
    refine ⟨recital.toList ++ rs, as, by rw [hr, List.append_assoc], ha,
      fun late => absurd late early, ?_⟩
    rw [← Ledger.enterAll_append] at agrees'
    simpa [Resolution.mentions] using agrees'
  | @action _ _ _ _ _ _ action _ _ read moved _ ih =>
    obtain ⟨rs, as, hr, ha, late, agrees'⟩ :=
      ih ((agrees.of_action (action_ok read).2).of_moved moved)
    -- the phase has become that of the actions, and no recital can follow
    obtain rfl := late rfl
    refine ⟨[], action.toList ++ as, hr, by rw [ha, List.append_assoc], fun _ => rfl, ?_⟩
    rw [← Ledger.enterAll_append] at agrees'
    simpa [Resolution.mentions] using agrees'
  | skip _ _ moved _ ih => exact ih (agrees.of_moved moved)

theorem Agrees.unused {s : State} {l : Ledger} (h : s.Agrees l) :
    s.register.unused = l.unused := by
  unfold Register.unused Ledger.unused
  rw [h.entries, Ledger.standings, List.filter_map, List.map_map]
  have id : (Prod.fst ∘ fun x => (x, l.standing x)) = fun x : String => x := rfl
  rw [id, List.map_id']
  refine List.filter_congr fun x _ => ?_
  by_cases hx : x ∈ l.used
  · simp [Ledger.standing, hx]
  · simp [Ledger.standing, hx]

theorem agrees_start {source : String} {s : State} (h : State.start source .empty = .ok s) :
    s.Agrees .blank := by
  unfold State.start at h
  split at h
  · cases h
    exact ⟨rfl, rfl, nofun⟩
  · cases h

/-- Reading a resolution leaves the errors and the standings of its own ledger. -/
theorem resolution_agrees {s s' : State} {r : Resolution} (agrees : s.Agrees .blank)
    (h : s.resolution = .ok (r, s')) :
    s'.errors = r.offences ∧ s'.register.entries = r.ledger.standings := by
  obtain ⟨d, s₁, run, rfl, rfl⟩ := resolution_ok h
  obtain ⟨rs, as, hr, ha, -, agrees₁⟩ := run.agrees agrees
  have whole : Resolution.mk d.recitals d.actions = ⟨rs, as⟩ := by rw [hr, ha]; rfl
  rw [whole]
  refine ⟨?_, agrees₁.entries⟩
  show s₁.errors ++ s₁.register.unused.map _ = _
  rw [agrees₁.errors, agrees₁.unused]
  rfl

theorem single_of_resolution {s : State} {f : Failure} (h : s.resolution = .error f) :
    f.Single := by
  rw [resolution_eq] at h
  split at h
  · rcases bind_eq_error.1 h with h | ⟨⟨d, s₁⟩, -, h⟩
    · exact single_of_clauses h
    · dsimp only at h
      split at h
      · cases h
      · cases h
        exact nofun
  · cases h
    exact nofun

end State

namespace Reading

theorem discipline_of_ofString {source : String} {reading : Reading}
    (h : ofString source = .ok reading) :
    reading.errors = reading.resolution.offences ∧
      reading.register.entries = reading.resolution.ledger.standings := by
  obtain ⟨s, s', hs, hr, register, errors⟩ := ofString_ok h
  rw [register, errors]
  exact State.resolution_agrees (State.agrees_start hs) hr

theorem single_of_ofString {source : String} {f : Failure} (h : ofString source = .error f) :
    f.Single := by
  unfold ofString at h
  rcases bind_eq_error.1 h with h | ⟨s, -, h⟩
  · unfold State.start at h
    split at h
    · cases h
    · cases h
      exact nofun
  · rcases bind_eq_error.1 h with h | ⟨⟨r, s'⟩, -, h⟩
    · exact State.single_of_resolution h
    · cases h

end Reading

/-! ## What a text holds -/

namespace Resolution

/-- The text was read to its end and gave this resolution, with or without offences. -/
def HeldBy (r : Resolution) (source : String) : Prop :=
  ofString source = .ok r ∨ ∃ es, ofString source = .error (.names es (some r))

theorem heldBy_iff {r : Resolution} {source : String} :
    r.HeldBy source ↔ ∃ reading, Reading.ofString source = .ok reading ∧ reading.resolution = r := by
  unfold HeldBy ofString
  cases h : Reading.ofString source with
  | error f =>
    have single := Reading.single_of_ofString h
    simpa using fun es => single es (some r)
  | ok reading =>
    unfold Reading.verdict
    by_cases none : reading.errors = []
    · simp [none]
    · simp [none]

theorem ofString_eq_of_heldBy {r : Resolution} {source : String} (h : r.HeldBy source) :
    ofString source =
      if r.offences = [] then .ok r else .error (.names r.offences (some r)) := by
  obtain ⟨reading, read, rfl⟩ := heldBy_iff.1 h
  unfold ofString Reading.verdict
  rw [read, ← (Reading.discipline_of_ofString read).1]

theorem offences_of_ofString {r : Resolution} {source : String} (h : ofString source = .ok r) :
    r.offences = [] := by
  have verdict := ofString_eq_of_heldBy (.inl h)
  rw [h] at verdict
  split at verdict
  · next none => exact none
  · cases verdict

/-- The rules for names can be checked on the tree alone: the errors are the offences of the
walk over it, the register has the standings of its ledger, and the text is accepted just
when there are no offences. -/
theorem discipline_of_heldBy {r : Resolution} {source : String} (h : r.HeldBy source) :
    (∃ reading, Reading.ofString source = .ok reading ∧ reading.resolution = r ∧
      reading.errors = r.offences ∧ reading.register.entries = r.ledger.standings) ∧
    ofString source = if r.offences = [] then .ok r else .error (.names r.offences (some r)) := by
  refine ⟨?_, ofString_eq_of_heldBy h⟩
  obtain ⟨reading, read, rfl⟩ := heldBy_iff.1 h
  exact ⟨reading, read, rfl, Reading.discipline_of_ofString read⟩

/-- The conditionals are dropped and their uses of "A" with them, so that it counts as
unused. -/
theorem discipline_of_dropped :
    HeldBy ⟨[⟨"A", .name "A"⟩], []⟩
        "title whereas (hereinafter A) A resolved if A equals A, if C exceeds A" ∧
      ofString "title whereas (hereinafter A) A resolved if A equals A, if C exceeds A" =
        .error (.names [⟨.undeclared, "A"⟩, ⟨.unused, "A"⟩] (some ⟨[⟨"A", .name "A"⟩], []⟩)) := by
  have held : HeldBy ⟨[⟨"A", .name "A"⟩], []⟩
      "title whereas (hereinafter A) A resolved if A equals A, if C exceeds A" :=
    .inr ⟨[⟨.undeclared, "A"⟩, ⟨.unused, "A"⟩], by cbv⟩
  exact ⟨held, (discipline_of_heldBy held).2⟩

end Resolution
end Legalese
