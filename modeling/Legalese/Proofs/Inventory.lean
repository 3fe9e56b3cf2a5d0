import Legalese.Proofs.Discipline
import Legalese.Report

/-!
# Reports agree with readings

A reading enters names in their order and meets an offence at one mention or another.  A
report looks at the finished tree and knows sets of names only.  The two differ where a
name is used before its declaration: the reading notes an offence, and the report counts
the name as used.

`Ledger.Accounts` says what a ledger has kept of the mentions it was made from, without
their order.
-/

namespace Legalese

theorem distinct_append_singleton {α : Type} [DecidableEq α] (l : List α) (a : α) :
    distinct (l ++ [a]) = if a ∈ l then distinct l else distinct l ++ [a] := by
  induction l with
  | nil => rfl
  | cons b l ih =>
    rw [List.cons_append, distinct, ih]
    by_cases same : a = b
    · subst same
      rw [if_pos List.mem_cons_self]
      split
      · rfl
      · simp [distinct]
    · by_cases old : a ∈ l
      · rw [if_pos old, if_pos (List.mem_cons_of_mem b old)]
        rfl
      · have new : a ∉ b :: l := by
          intro h
          exact (List.mem_cons.1 h).elim same old
        rw [if_neg old, if_neg new]
        simp [distinct, same]

/-! ## What a ledger keeps -/

namespace Mention

def declared? : Mention → Option String
  | use _ => none
  | declare x => some x

end Mention

namespace Ledger

/-- The declarations among some mentions, in their order. -/
def declarations (ms : List Mention) : List String := ms.filterMap Mention.declared?

structure Accounts (l : Ledger) (ms : List Mention) : Prop where
  declared : l.declared = distinct (declarations ms)
  used : ∀ x ∈ l.used, x ∈ l.declared
  uses : ∀ x, (x ∈ l.used ∨ ⟨.undeclared, x⟩ ∈ l.offences) ↔ .use x ∈ ms
  redeclared : ∀ x, ⟨.redeclared, x⟩ ∈ l.offences ↔ 2 ≤ (declarations ms).count x
  unused : ∀ x, ⟨.unused, x⟩ ∉ l.offences

theorem Accounts.mem_declared {l : Ledger} {ms : List Mention} (h : l.Accounts ms) {x : String} :
    x ∈ l.declared ↔ x ∈ declarations ms := by
  rw [h.declared, mem_distinct]

theorem accounts_blank : blank.Accounts [] := by
  constructor
  · rfl
  · exact nofun
  · simp [blank]
  · simp [blank, declarations]
  · simp [blank]

section

variable {l : Ledger} {ms : List Mention} {x : String}

@[simp]
theorem declarations_append_use : declarations (ms ++ [.use x]) = declarations ms := by
  simp [declarations, Mention.declared?]

@[simp]
theorem declarations_append_declare :
    declarations (ms ++ [.declare x]) = declarations ms ++ [x] := by
  simp [declarations, Mention.declared?]

theorem use_mem_append_use {y : String} :
    Mention.use y ∈ ms ++ [.use x] ↔ Mention.use y ∈ ms ∨ y = x := by
  simp

theorem use_mem_append_declare {y : String} :
    Mention.use y ∈ ms ++ [.declare x] ↔ Mention.use y ∈ ms := by
  simp

theorem Accounts.use (h : l.Accounts ms) (x : String) : (l.use x).Accounts (ms ++ [.use x]) := by
  unfold Ledger.use
  by_cases known : x ∈ l.declared
  · rw [if_pos known]
    constructor
    · rw [declarations_append_use]
      exact h.declared
    · intro y hy
      rcases List.mem_append.1 hy with hy | hy
      · exact h.used y hy
      · rw [List.mem_singleton.1 hy]
        exact known
    · intro y
      rw [use_mem_append_use, ← h.uses, List.mem_append, List.mem_singleton]
      tauto
    · rw [declarations_append_use]
      exact h.redeclared
    · exact h.unused
  · rw [if_neg known]
    constructor
    · rw [declarations_append_use]
      exact h.declared
    · exact h.used
    · intro y
      rw [use_mem_append_use, ← h.uses]
      simp [or_assoc]
    · intro y
      rw [declarations_append_use, ← h.redeclared]
      simp
    · intro y
      simpa using h.unused y

theorem count_append_singleton (ys : List String) (x y : String) :
    (ys ++ [x]).count y = ys.count y + if x = y then 1 else 0 := by
  simp [List.count_append, List.count_singleton]

theorem Accounts.count_pos (h : l.Accounts ms) :
    0 < (declarations ms).count x ↔ x ∈ l.declared := by
  rw [h.mem_declared, List.count_pos_iff]

theorem Accounts.declare_again (h : l.Accounts ms) (known : x ∈ l.declared) :
    (l.declare x).Accounts (ms ++ [.declare x]) := by
  unfold Ledger.declare
  rw [if_pos known]
  constructor
  · rw [declarations_append_declare, distinct_append_singleton, if_pos (h.mem_declared.1 known)]
    exact h.declared
  · exact h.used
  · intro y
    rw [use_mem_append_declare, ← h.uses]
    simp
  · intro y
    rw [declarations_append_declare, count_append_singleton]
    by_cases same : x = y
    · subst same
      have := h.count_pos.2 known
      rw [if_pos rfl]
      constructor
      · intro
        omega
      · intro
        exact List.mem_append_right _ List.mem_cons_self
    · simp [same, Ne.symm same, h.redeclared]
  · intro y
    simpa using h.unused y

theorem Accounts.declare_new (h : l.Accounts ms) (new : x ∉ l.declared) :
    (l.declare x).Accounts (ms ++ [.declare x]) := by
  unfold Ledger.declare
  rw [if_neg new]
  constructor
  · rw [declarations_append_declare, distinct_append_singleton,
      if_neg fun c => new (h.mem_declared.2 c), ← h.declared]
  · intro y hy
    exact List.mem_append_left _ (h.used y hy)
  · intro y
    rw [use_mem_append_declare]
    exact h.uses y
  · intro y
    rw [declarations_append_declare, count_append_singleton, h.redeclared]
    by_cases same : x = y
    · subst same
      have : ¬0 < (declarations ms).count x := fun c => new (h.count_pos.1 c)
      rw [if_pos rfl]
      omega
    · simp [same]
  · exact h.unused

theorem Accounts.declare (h : l.Accounts ms) (x : String) :
    (l.declare x).Accounts (ms ++ [.declare x]) := by
  by_cases known : x ∈ l.declared
  · exact h.declare_again known
  · exact h.declare_new known

end

theorem accounts_enterAll (ms : List Mention) : (blank.enterAll ms).Accounts ms := by
  -- from the end, since the last mention is entered last
  induction ms using List.reverseRecOn with
  | nil => exact accounts_blank
  | append_singleton ms m ih =>
    rw [enterAll_append]
    cases m with
    | use x => exact ih.use x
    | declare x => exact ih.declare x

end Ledger

/-! ## Mentions of a tree -/

/-- The names of a statement are those of its expressions and the one that it assumes. -/
theorem Statement.mem_names {a : Statement} {x : String} :
    x ∈ a.names ↔ (∃ e ∈ a.expressions, x ∈ e.names) ∨ x ∈ a.assumed := by
  induction a with
  | declare d => simp [names, expressions, assumed]
  | assume y e => simp [names, expressions, assumed, or_comm]
  | publish e => simp [names, expressions, assumed]
  | conditional l r relation c ih => simp [names, expressions, assumed, ih, or_assoc]

namespace Resolution

theorem declarations_mentions (r : Resolution) :
    Ledger.declarations r.mentions = r.recitals.map (·.name) := by
  have recital (d : Declaration) : Ledger.declarations d.mentions = [d.name] := by
    simp [Ledger.declarations, Declaration.mentions, List.filterMap_map, Function.comp_def,
      Mention.declared?]
  have action (a : Statement) : Ledger.declarations a.mentions = [] := by
    simp [Ledger.declarations, Statement.mentions, Mention.declared?]
  unfold mentions Ledger.declarations at *
  rw [List.filterMap_append, List.filterMap_flatMap, List.filterMap_flatMap]
  simp [recital, action, List.map_eq_flatMap]

theorem use_mem_mentions {r : Resolution} {x : String} :
    .use x ∈ r.mentions ↔ ∃ a ∈ r.statements, x ∈ a.names := by
  simp only [mentions, statements, List.mem_append, List.mem_flatMap, List.mem_map,
    Declaration.mentions, Statement.mentions]
  constructor
  · rintro (⟨d, hd, hx⟩ | ⟨a, ha, hx⟩)
    · exact ⟨.declare d, .inl ⟨d, hd, rfl⟩, by simpa [Statement.names] using hx⟩
    · exact ⟨a, .inr ha, by simpa using hx⟩
  · rintro ⟨a, ⟨d, hd, rfl⟩ | ha, hx⟩
    · exact .inl ⟨d, hd, by simpa [Statement.names] using hx⟩
    · exact .inr ⟨a, ha, by simpa using hx⟩

end Resolution

/-! ## Names of a report -/

namespace Report

theorem declared_ofResolution (r : Resolution) :
    (ofResolution r).declared = distinct (r.recitals.map (·.name)) := rfl

theorem mem_tally {α : Type} [DecidableEq α] {a : α} {l : List α} :
    a ∈ (tally l).map (·.1) ↔ a ∈ l := by
  rw [tally, List.map_map]
  simp [mem_distinct]

/-- What a report takes for the names in use. -/
theorem mem_referenced {r : Resolution} {x : String} :
    x ∈ distinct ((tally ((r.statements.flatMap Statement.expressions).flatMap
        fun e => distinct e.names)).map (·.1) ++ distinct (r.statements.flatMap Statement.assumed)) ↔
      .use x ∈ r.mentions := by
  rw [mem_distinct, List.mem_append, mem_tally, mem_distinct, Resolution.use_mem_mentions]
  simp only [List.mem_flatMap, mem_distinct, Statement.mem_names]
  constructor
  · rintro (⟨e, ⟨a, ha, he⟩, hx⟩ | ⟨a, ha, hx⟩)
    · exact ⟨a, ha, .inl ⟨e, he, hx⟩⟩
    · exact ⟨a, ha, .inr hx⟩
  · rintro ⟨a, ha, ⟨e, he, hx⟩ | hx⟩
    · exact .inl ⟨e, ⟨a, ha, he⟩, hx⟩
    · exact .inr ⟨a, ha, hx⟩

theorem mem_undefined {r : Resolution} {x : String} :
    x ∈ (ofResolution r).undefined ↔ .use x ∈ r.mentions ∧ x ∉ r.recitals.map (·.name) := by
  unfold ofResolution
  simp only [List.mem_filter, mem_distinct, Bool.not_eq_true', List.contains_eq_mem,
    decide_eq_false_iff_not, ← mem_referenced]

theorem mem_unused {r : Resolution} {x : String} :
    x ∈ (ofResolution r).unused ↔ x ∈ r.recitals.map (·.name) ∧ .use x ∉ r.mentions := by
  unfold ofResolution
  simp only [List.mem_filter, mem_distinct, Bool.not_eq_true', List.contains_eq_mem,
    decide_eq_false_iff_not, ← mem_referenced]

end Report

/-! ## Offences and names -/

namespace Resolution

theorem accounts_ledger (r : Resolution) : r.ledger.Accounts r.mentions :=
  Ledger.accounts_enterAll r.mentions

theorem mem_offences {r : Resolution} {o : Offence} (other : o ≠ .unused) {x : String} :
    ⟨o, x⟩ ∈ r.offences ↔ ⟨o, x⟩ ∈ r.ledger.offences := by
  simp [offences, other.symm]

theorem unused_mem_offences {r : Resolution} {x : String} :
    ⟨.unused, x⟩ ∈ r.offences ↔ x ∈ r.recitals.map (·.name) ∧ x ∉ r.ledger.used := by
  have accounts := r.accounts_ledger
  have none := accounts.unused x
  rw [← declarations_mentions, ← accounts.mem_declared]
  simp [offences, none, Ledger.unused]

/-- A name that is only used before its declaration is an offence of the reading but stands
in neither list of the report. -/
theorem mem_undefined_iff {r : Resolution} {x : String} :
    x ∈ (Report.ofResolution r).undefined ↔
      ⟨.undeclared, x⟩ ∈ r.offences ∧ x ∉ r.recitals.map (·.name) := by
  have accounts := r.accounts_ledger
  have uses := accounts.uses x
  have declared := accounts.mem_declared (x := x)
  rw [declarations_mentions] at declared
  rw [Report.mem_undefined, mem_offences (by decide), ← uses]
  constructor
  · rintro ⟨used | offence, free⟩
    · exact absurd (declared.1 (accounts.used x used)) free
    · exact ⟨offence, free⟩
  · rintro ⟨offence, free⟩
    exact ⟨.inr offence, free⟩

theorem mem_unused_iff {r : Resolution} {x : String} :
    x ∈ (Report.ofResolution r).unused ↔
      ⟨.unused, x⟩ ∈ r.offences ∧ ⟨.undeclared, x⟩ ∉ r.offences := by
  have uses := r.accounts_ledger.uses x
  rw [Report.mem_unused, unused_mem_offences, mem_offences (by decide), ← uses, not_or]
  tauto

theorem redeclared_mem_offences {r : Resolution} {x : String} :
    ⟨.redeclared, x⟩ ∈ r.offences ↔ 2 ≤ (r.recitals.map (·.name)).count x := by
  rw [mem_offences (by decide), r.accounts_ledger.redeclared, declarations_mentions]

theorem declared_eq_ledger (r : Resolution) :
    (Report.ofResolution r).declared = r.ledger.declared := by
  rw [Report.declared_ofResolution, r.accounts_ledger.declared, declarations_mentions]

/-- The report on what a text holds has the names of the reading's register in their order,
and its lists of names can be told from the reading's errors: undefined are the names that
the reading found undeclared and that are declared nowhere, unused those that it found
unused and nowhere undeclared. -/
theorem report_of_heldBy {r : Resolution} {source : String} (h : r.HeldBy source) :
    ∃ reading, Reading.ofString source = .ok reading ∧ reading.resolution = r ∧
      ofString source =
        (if reading.errors = [] then .ok r else .error (.names reading.errors (some r))) ∧
      (Report.ofResolution r).declared = reading.register.names ∧
      (∀ x, x ∈ (Report.ofResolution r).undefined ↔
        ⟨.undeclared, x⟩ ∈ reading.errors ∧ x ∉ r.recitals.map (·.name)) ∧
      (∀ x, x ∈ (Report.ofResolution r).unused ↔
        ⟨.unused, x⟩ ∈ reading.errors ∧ ⟨.undeclared, x⟩ ∉ reading.errors) ∧
      (∀ x, ⟨.redeclared, x⟩ ∈ reading.errors ↔ 2 ≤ (r.recitals.map (·.name)).count x) ∧
      (ofString source = .ok r →
        (Report.ofResolution r).undefined = [] ∧ (Report.ofResolution r).unused = []) := by
  have verdict := ofString_eq_of_heldBy h
  obtain ⟨reading, read, rfl⟩ := heldBy_iff.1 h
  obtain ⟨errors, entries⟩ := Reading.discipline_of_ofString read
  have names : reading.register.names = reading.resolution.ledger.declared := by
    rw [Register.names, entries, Ledger.standings, List.map_map]
    exact List.map_id' _
  rw [← errors] at verdict
  refine ⟨reading, read, rfl, verdict, ?_, ?_, ?_, ?_, ?_⟩
  · rw [names, declared_eq_ledger]
  · intro x
    rw [errors, mem_undefined_iff]
  · intro x
    rw [errors, mem_unused_iff]
  · intro x
    rw [errors, redeclared_mem_offences]
  · intro accepted
    have clean := offences_of_ofString accepted
    constructor
    · refine List.eq_nil_iff_forall_not_mem.2 fun x hx => ?_
      have offence := (mem_undefined_iff.1 hx).1
      rw [clean] at offence
      cases offence
    · refine List.eq_nil_iff_forall_not_mem.2 fun x hx => ?_
      have offence := (mem_unused_iff.1 hx).1
      rw [clean] at offence
      cases offence

/-- "B" is used before its declaration, so the reading notes it twice and the report not at
all. -/
theorem report_of_early_use :
    ∃ r : Resolution,
      r.HeldBy ("title whereas (hereinafter A) B whereas (hereinafter B) five (5) " ++
        "whereas (hereinafter A) one (1) resolved, publish C") ∧
      r.recitals.map (·.name) = ["A", "B", "A"] ∧
      (∀ x, x ∈ (Report.ofResolution r).undefined ↔
        ⟨.undeclared, x⟩ ∈ ([⟨.undeclared, "B"⟩, ⟨.redeclared, "A"⟩, ⟨.undeclared, "C"⟩,
          ⟨.unused, "A"⟩, ⟨.unused, "B"⟩] : List NameError) ∧ x ∉ ["A", "B", "A"]) ∧
      "C" ∈ (Report.ofResolution r).undefined ∧ "B" ∉ (Report.ofResolution r).unused := by
  have read : ofString ("title whereas (hereinafter A) B whereas (hereinafter B) five (5) " ++
      "whereas (hereinafter A) one (1) resolved, publish C") =
      .error (.names [⟨.undeclared, "B"⟩, ⟨.redeclared, "A"⟩, ⟨.undeclared, "C"⟩,
        ⟨.unused, "A"⟩, ⟨.unused, "B"⟩]
        (some ⟨[⟨"A", .name "B"⟩, ⟨"B", .integer 5⟩, ⟨"A", .integer 1⟩], [.publish (.name "C")]⟩)) := by
    cbv
  obtain ⟨reading, -, -, verdict, -, undefined, unused, -⟩ := report_of_heldBy (.inr ⟨_, read⟩)
  have errors : reading.errors = [⟨.undeclared, "B"⟩, ⟨.redeclared, "A"⟩, ⟨.undeclared, "C"⟩,
      ⟨.unused, "A"⟩, ⟨.unused, "B"⟩] := by
    rw [read] at verdict
    split at verdict
    · cases verdict
    · exact (Error.names.inj (Except.error.inj verdict)).1.symm
  rw [errors] at undefined unused
  refine ⟨_, .inr ⟨_, read⟩, rfl, undefined, (undefined "C").2 (by decide), ?_⟩
  rw [unused "B"]
  decide

end Resolution
end Legalese
