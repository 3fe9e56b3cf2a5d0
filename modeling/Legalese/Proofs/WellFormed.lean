import Legalese.Proofs.Discipline
import Legalese.Proofs.Spelling

/-!
# Well-formed resolutions

A tree is well-formed when a source text could hold it: its names and texts can be
spelled, its integers are in the range, no operand would need parentheses, and nothing is
declared among the actions.  Every resolution that is read from a text is well-formed.

The grammar says how a tree is built, and each token at which a leaf was read is spelled
like what it is.
-/

namespace Legalese

namespace Expr

def isDifference : Expr → Bool
  | less _ _ => true
  | _ => false

/-- A leaf, with or without exponents. -/
def isPower : Expr → Bool
  | unary _ _ => false
  | binary _ _ _ => false
  | less _ _ => false
  | _ => true

/-- Integers are in the range and words can be spelled.  A difference stands only where
everything up to the end of the expression belongs to it, and exponents stand only after
leaves. -/
def WellFormed : Expr → Prop
  | integer n => InRange n
  | text s => IsQuotable s
  | name x => IsName x
  | unary _ e => e.WellFormed ∧ e.isDifference = false
  | binary _ a b => a.WellFormed ∧ b.WellFormed ∧ b.isDifference = false
  | less l r => l.WellFormed ∧ r.WellFormed ∧ r.isDifference = false
  | power _ e => e.WellFormed ∧ e.isPower = true

theorem isDifference_of_isPower {e : Expr} (h : e.isPower = true) : e.isDifference = false := by
  cases e <;> first | rfl | cases h

end Expr

structure Declaration.WellFormed (d : Declaration) : Prop where
  name : IsName d.name
  value : d.value.WellFormed

def Statement.WellFormed : Statement → Prop
  | declare _ => False
  | assume x e => IsName x ∧ e.WellFormed
  | publish e => e.WellFormed
  | conditional l r _ c => l.WellFormed ∧ r.WellFormed ∧ c.WellFormed

structure Resolution.WellFormed (r : Resolution) : Prop where
  recitals : ∀ d ∈ r.recitals, d.WellFormed
  actions : ∀ a ∈ r.actions, a.WellFormed

/-! ## Trees of the grammar -/

namespace Grammar

/-- All tokens of a list are spelled like what they are. -/
def Sound (ts : List Token) : Prop := ∀ t ∈ ts, t.Sound

theorem Sound.head {t : Token} {ts : List Token} (h : Sound (t :: ts)) : t.Sound :=
  h t List.mem_cons_self

theorem Sound.tail {ts : List Token} (h : Sound ts) : Sound ts.tail :=
  fun t ht => h t (List.mem_of_mem_tail ht)

theorem Sound.follows {c c' : Cursor} (h : Sound c.tokens) (follows : c.Follows c') :
    Sound c'.tokens := by
  obtain ⟨n, rfl⟩ := follows
  exact fun t ht => h t (List.mem_of_mem_drop ht)

theorem IsInteger.sound {u : Option String} {ts ts' : List Token} {v : Int}
    (h : IsInteger u ts v ts') (sound : Sound ts) : InRange v ∧ Sound ts' := by
  cases h with
  | intro cardinal _ _ agrees _ =>
    have rest : Sound _ := Sound.follows (c := ⟨ts, u⟩) sound (Cardinal.follows_of_read cardinal)
    exact ⟨Numeral.inRange_of_read? agrees, rest.tail.tail.tail⟩

theorem IsLeaf.sound {u : Option String} {ts ts' : List Token} {e : Expr} (h : IsLeaf u ts e ts')
    (sound : Sound ts) : (e.WellFormed ∧ e.isPower = true) ∧ Sound ts' := by
  cases h with
  | integer _ h =>
    obtain ⟨inRange, rest⟩ := h.sound sound
    exact ⟨⟨inRange, rfl⟩, rest⟩
  | text kind => exact ⟨⟨sound.head.text kind, rfl⟩, sound⟩
  | name kind => exact ⟨⟨sound.head.name kind, rfl⟩, sound⟩

theorem Powers.sound {ts ts' : List Token} {e e' : Expr} (h : Powers e ts e' ts')
    (wf : e.WellFormed ∧ e.isPower = true) (sound : Sound ts) :
    (e'.WellFormed ∧ e'.isPower = true) ∧ Sound ts' := by
  induction h with
  | done _ => exact ⟨wf, sound⟩
  | more _ _ ih => exact ih ⟨wf, rfl⟩ sound.tail

/-- What is known of the tree of a phrase. -/
def Phrase.WellFormed : Phrase → Expr → Prop
  | operation, e => e.WellFormed ∧ e.isDifference = false
  | expression, e => e.WellFormed
  | differences left, e => left.WellFormed → e.WellFormed

/-- By induction on the grammar, one case for each of its rules. -/
theorem Reads.sound {u : Option String} {p : Phrase} {ts ts' : List Token} {e : Expr}
    (h : Reads u p ts e ts') (sound : Sound ts) : p.WellFormed e ∧ Sound ts' := by
  induction h with
  | filler _ _ _ ih => exact ih sound.tail
  | leaf first powers =>
    obtain ⟨wf, rest⟩ := first.sound sound
    obtain ⟨wf, rest⟩ := powers.sound wf rest
    exact ⟨⟨wf.1, Expr.isDifference_of_isPower wf.2⟩, rest⟩
  | unary _ _ ih =>
    obtain ⟨wf, rest⟩ := ih sound.tail
    exact ⟨⟨wf, rfl⟩, rest⟩
  | binary _ _ _ ih₁ ih₂ =>
    obtain ⟨first, rest⟩ := ih₁ sound.tail
    obtain ⟨second, rest⟩ := ih₂ rest.tail
    exact ⟨⟨⟨first, second⟩, rfl⟩, rest⟩
  | expression _ _ ih₁ ih₂ =>
    obtain ⟨first, rest⟩ := ih₁ sound
    obtain ⟨whole, rest⟩ := ih₂ rest
    exact ⟨whole first.1, rest⟩
  | done _ => exact ⟨id, sound⟩
  | less _ _ _ ih₁ ih₂ =>
    obtain ⟨right, rest⟩ := ih₁ sound.tail.tail
    obtain ⟨whole, rest⟩ := ih₂ rest
    exact ⟨fun left => whole ⟨left, right⟩, rest⟩

theorem Finds.sound {wanted : Kind → Bool} {ts ts' : List Token} {found : Option Kind}
    (h : Finds wanted ts found ts') (sound : Sound ts) : Sound ts' := by
  induction h with
  | found _ _ => exact sound
  | ended _ => exact sound
  | clause _ _ _ => exact sound
  | skip _ _ _ _ ih => exact ih sound.tail

theorem Acts.sound {u : Option String} {ts ts' : List Token} {a : Option Statement}
    (h : Acts u ts a ts') (sound : Sound ts) : ∀ b, a = some b → b.WellFormed := by
  induction h with
  | ended _ => exact nofun
  | clause _ _ => exact nofun
  | filler _ _ ih => exact ih sound.tail
  | assume name _ value =>
    rintro _ ⟨⟩
    exact ⟨sound.head.name name, (value.sound sound.tail.tail).1⟩
  | publish _ value =>
    rintro _ ⟨⟩
    exact (value.sound sound.tail.tail).1
  | unrelated _ _ _ => exact nofun
  | conditional _ left found right _ ih =>
    intro b hb
    obtain ⟨c, hc, rfl⟩ := Option.map_eq_some_iff.1 hb
    obtain ⟨wfLeft, rest⟩ := left.sound sound.tail.tail
    obtain ⟨wfRight, rest⟩ := right.sound (found.sound rest).tail.tail
    exact ⟨wfLeft, wfRight, ih rest c hc⟩

theorem Recites.sound {u : Option String} {ts ts' : List Token} {d : Declaration}
    (h : Recites u ts d ts') (sound : Sound ts) : d.WellFormed := by
  cases h with
  | @intro _ _ n _ _ _ _ _ _ found _ name value =>
    have rest : Sound (n :: _) := fun t ht =>
      (found.sound sound).tail.tail t (List.mem_append_right _ ht)
    exact ⟨rest.head.name name, (value.sound rest.tail).1⟩

end Grammar

/-! ## What was read is well-formed -/

namespace State

open Grammar

theorem ClausesRun.sound {d d' : Draft} {s s' : State} (run : ClausesRun d s d' s')
    (sound : Sound s.cursor.tokens) (wf : Resolution.WellFormed ⟨d.recitals, d.actions⟩) :
    Resolution.WellFormed ⟨d'.recitals, d'.actions⟩ := by
  induction run with
  | ended _ => exact wf
  | @recital _ _ _ _ _ _ recital _ _ read moved _ ih =>
    obtain ⟨recites, effect⟩ := recital_ok read
    refine ih ((sound.follows effect.follows).follows (uses_of_moved moved).follows) ⟨?_, wf.actions⟩
    intro x hx
    rcases List.mem_append.1 hx with hx | hx
    · exact wf.recitals x hx
    · exact (recites x (Option.mem_toList.1 hx)).sound sound
  | @action _ _ _ _ _ _ action _ _ read moved _ ih =>
    obtain ⟨acts, effect⟩ := action_ok read
    refine ih ((sound.follows effect.follows).follows (uses_of_moved moved).follows) ⟨wf.recitals, ?_⟩
    intro x hx
    rcases List.mem_append.1 hx with hx | hx
    · exact wf.actions x hx
    · exact acts.sound sound x (Option.mem_toList.1 hx)
  | skip _ _ moved _ ih => exact ih (sound.follows (uses_of_moved moved).follows) wf

theorem sound_start {source : String} {register : Register} {s : State}
    (h : State.start source register = .ok s) : Sound s.cursor.tokens := by
  unfold State.start Cursor.start at h
  split at h
  · next c hc =>
    cases h
    have e := Cursor.tokens_of_view hc
    subst e
    exact fun t ht => sound_of_mem_tokens ht
  · cases h

end State

namespace Resolution

/-- A text holds well-formed resolutions only. -/
theorem HeldBy.wellFormed {r : Resolution} {source : String} (h : r.HeldBy source) :
    r.WellFormed := by
  obtain ⟨reading, read, rfl⟩ := heldBy_iff.1 h
  obtain ⟨s, s', hs, hr, -⟩ := Reading.ofString_ok read
  obtain ⟨d, s₁, run, he, -⟩ := State.resolution_ok hr
  rw [he]
  exact run.sound (State.sound_start hs) ⟨nofun, nofun⟩

end Resolution
end Legalese
