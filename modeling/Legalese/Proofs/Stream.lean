import Legalese.Proofs.Clauses
import Legalese.Proofs.Spelling
import Legalese.Token.Stream

/-!
# A stream shows what a cursor shows

A stream cuts no token before it comes into view, and a cursor holds all tokens of the
text.  They move together: when one moves on, so does the other, and when one meets an
unclosed text, so does the other.

Main statement: after any number of moves the two tokens in view are those at their places
among the tokens of the text, and an unclosed text is met by the move that would bring it
into view and by none before.
-/

namespace Legalese

/-! ## What is ahead of a reader -/

/-- The first token, `none` if there is none.  An unclosed text without tokens before it
is met. -/
def Tokens.first? (ts : Tokens) : Except String (Option Token) :=
  match ts.list, ts.unclosed with
  | t :: _, _ => .ok (some t)
  | [], none => .ok none
  | [], some literal => .error literal

theorem Tokens.first?_of_inView {ts : List Token} {u : Option String}
    (inView : u = none ∨ ts ≠ []) : Tokens.first? ⟨ts, u⟩ = .ok ts.head? := by
  cases ts with
  | cons t ts => rfl
  | nil =>
    rcases inView with rfl | ne
    · rfl
    · exact absurd rfl ne

namespace Reader

/-- The tokens that the reader has still to cut. -/
def ahead (r : Reader) : Tokens := tokens r.pending

theorem next_fst (r : Reader) : r.next.1 = r.ahead.first? := by
  unfold next ahead
  rw [tokens_eq]
  cases Legalese.next r.pending with
  | ended => rfl
  | unclosed literal => rfl
  | token t rest => rfl

theorem ahead_next (r : Reader) {found : Option Token} (h : r.ahead.first? = .ok found) :
    r.next.2.ahead = ⟨r.ahead.list.tail, r.ahead.unclosed⟩ := by
  rw [← next_fst] at h
  unfold next at h ⊢
  unfold ahead
  rw [tokens_eq r.pending]
  revert h
  cases Legalese.next r.pending with
  | ended =>
    rintro -
    show tokens [] = _
    rw [tokens_eq]
    rfl
  | unclosed literal => exact nofun
  | token t rest => exact fun _ => rfl

/-- A token uses up at least one character. -/
theorem position_lt_of_next {r r' : Reader} {t : Token} (h : r.next = (.ok (some t), r')) :
    r.position < r'.position := by
  unfold next at h
  split at h
  · cases h
  · cases h
  · next found =>
    cases h
    have shorter := length_lt_of_next found
    unfold leaving
    dsimp only
    omega

end Reader

/-! ## Moving together -/

namespace Cursor

/-- The cursor after a number of moves from the first token of a text. -/
def after (source : String) : Nat → Except String Cursor
  | 0 => start source
  | k + 1 => after source k >>= advance

theorem view_of_inView {ts : List Token} {u : Option String}
    (inView : u = none ∨ 1 < ts.length) : view ts u = .ok ⟨ts, u⟩ := by
  unfold view
  split
  · simp at inView
  · simp at inView
  · rfl

theorem view_of_short {ts : List Token} {literal : String} (short : ts.length < 2) :
    view ts (some literal) = .error literal := by
  match ts with
  | [] => rfl
  | [_] => rfl
  | _ :: _ :: _ =>
    simp only [List.length_cons] at short
    omega

/-- As long as no unclosed text comes into view, a cursor holds the tokens from its place
on. -/
theorem after_eq (source : String) {ts : List Token} {u : Option String}
    (cut : Legalese.tokens source.toList = ⟨ts, u⟩) (k : Nat)
    (inView : u = none ∨ k + 1 < ts.length) :
    after source k = .ok ⟨ts.drop k, u⟩ := by
  induction k with
  | zero =>
    rw [after, start, cut]
    exact view_of_inView inView
  | succ k ih =>
    rw [after, ih (inView.imp_right Nat.lt_of_succ_lt)]
    show view (ts.drop k).tail u = _
    rw [List.tail_drop]
    refine view_of_inView (inView.imp_right fun room => ?_)
    rw [List.length_drop]
    omega

end Cursor

namespace Stream

/-- The stream after a number of moves from the first token of a text. -/
def after (source : String) : Nat → Except String Stream
  | 0 => start source
  | k + 1 => after source k >>= advance

/-- What a stream has in view is what the cursor has in view, and its reader has the rest
of the cursor's tokens ahead. -/
structure InStep (s : Stream) (c : Cursor) : Prop where
  current : s.current? = c.current?
  next : s.next? = c.next?
  ahead : s.reader.ahead = ⟨c.tokens.drop 2, c.unclosed⟩

/-- Both have met the same unclosed text, or both are at the same place. -/
def Together (s : Except String Stream) (c : Except String Cursor) : Prop :=
  (∃ literal, s = .error literal ∧ c = .error literal) ∨
    ∃ s' c', s = .ok s' ∧ c = .ok c' ∧ s'.InStep c'

theorem advance_eq (s : Stream) :
    s.advance = s.reader.ahead.first?.map fun t => ⟨s.next?, t, s.reader.next.2⟩ := by
  rw [← Reader.next_fst]
  unfold advance
  split
  · next t r h => rw [h]; rfl
  · next literal r h => rw [h]; rfl

/-- One move from any stream: the token ahead comes into view. -/
theorem advance_ok {s : Stream} {ts : List Token} {u : Option String}
    (ahead : s.reader.ahead = ⟨ts, u⟩) (inView : u = none ∨ ts ≠ []) :
    ∃ r, s.advance = .ok ⟨s.next?, ts.head?, r⟩ ∧ r.ahead = ⟨ts.tail, u⟩ := by
  have first := Tokens.first?_of_inView inView
  rw [← ahead] at first
  refine ⟨s.reader.next.2, ?_, ?_⟩
  · rw [advance_eq, first]
    rfl
  · rw [Reader.ahead_next s.reader first, ahead]

theorem advance_error {s : Stream} {literal : String}
    (ahead : s.reader.ahead = ⟨[], some literal⟩) : s.advance = .error literal := by
  rw [advance_eq, ahead]
  rfl

theorem together_advance {s : Stream} {c : Cursor} (h : s.InStep c) :
    Together s.advance c.advance := by
  by_cases inView : c.unclosed = none ∨ c.tokens.drop 2 ≠ []
  · obtain ⟨r, moved, ahead⟩ := advance_ok h.ahead inView
    have room : c.unclosed = none ∨ 1 < c.tokens.tail.length := by
      refine inView.imp_right fun ne => ?_
      have := List.length_pos_iff.2 ne
      rw [List.length_drop] at this
      rw [List.length_tail]
      omega
    refine .inr ⟨_, _, moved, Cursor.view_of_inView room, h.next, ?_, ?_⟩
    · rw [Cursor.next?, ← List.drop_one, ← List.drop_one, List.drop_drop]
    · rw [ahead, ← List.drop_one, ← List.drop_one, List.drop_drop, List.drop_drop]
  · obtain ⟨open', nonempty⟩ := not_or.1 inView
    obtain ⟨literal, unclosed⟩ := Option.ne_none_iff_exists'.1 open'
    have empty := Decidable.not_not.1 nonempty
    have ahead := h.ahead
    rw [empty, unclosed] at ahead
    refine .inl ⟨literal, advance_error ahead, ?_⟩
    rw [Cursor.advance, unclosed]
    refine Cursor.view_of_short ?_
    have := List.drop_eq_nil_iff.1 empty
    rw [List.length_tail]
    omega

theorem together_start (source : String) : Together (start source) (Cursor.start source) := by
  generalize cut : tokens source.toList = all
  obtain ⟨ts, u⟩ := all
  have same : Cursor.start source = Cursor.view ts u := by rw [Cursor.start, cut]
  have ahead : (Reader.ofString source).ahead = ⟨ts, u⟩ := cut
  rw [same]
  unfold start
  by_cases inView : u = none ∨ 1 < ts.length
  · have first : u = none ∨ ts ≠ [] := inView.imp_right fun room => by rintro rfl; simp at room
    have second : u = none ∨ ts.tail ≠ [] := inView.imp_right fun room => by
      rw [← List.length_pos_iff, List.length_tail]
      omega
    obtain ⟨r₁, moved₁, ahead₁⟩ := advance_ok (s := ⟨none, none, .ofString source⟩) ahead first
    obtain ⟨r₂, moved₂, ahead₂⟩ := advance_ok (s := ⟨none, ts.head?, r₁⟩) ahead₁ second
    refine .inr ⟨⟨ts.head?, ts.tail.head?, r₂⟩, _, ?_, Cursor.view_of_inView inView, rfl, rfl, ?_⟩
    · rw [moved₁]
      exact moved₂
    · rw [ahead₂, ← List.drop_one, ← List.drop_one, List.drop_drop]
  · obtain ⟨open', short⟩ := not_or.1 inView
    obtain ⟨literal, rfl⟩ := Option.ne_none_iff_exists'.1 open'
    have short : ts.length < 2 := by omega
    refine .inl ⟨literal, ?_, Cursor.view_of_short short⟩
    cases ts with
    | nil => rw [advance_error ahead]; rfl
    | cons t ts =>
      obtain rfl : ts = [] := by
        rw [List.length_cons] at short
        exact List.eq_nil_of_length_eq_zero (by omega)
      have first : some literal = none ∨ [t] ≠ [] := .inr (List.cons_ne_nil t [])
      obtain ⟨r₁, moved₁, ahead₁⟩ := advance_ok (s := ⟨none, none, .ofString source⟩) ahead first
      rw [moved₁]
      exact advance_error ahead₁

/-- A stream and a cursor on the same text are together after any number of moves. -/
theorem together_after (source : String) (k : Nat) :
    Together (after source k) (Cursor.after source k) := by
  induction k with
  | zero => exact together_start source
  | succ k ih =>
    rw [after, Cursor.after]
    rcases ih with ⟨literal, hs, hc⟩ | ⟨s, c, hs, hc, inStep⟩
    · exact .inl ⟨literal, by rw [hs]; rfl, by rw [hc]; rfl⟩
    · rw [hs, hc]
      exact together_advance inStep

/-- The two tokens in view are those at place `k` of a list and at the place after it. -/
structure Shows (s : Stream) (ts : List Token) (k : Nat) : Prop where
  current : s.current? = ts[k]?
  next : s.next? = ts[k + 1]?

theorem shows_after {source : String} {ts : List Token} {u : Option String}
    (cut : tokens source.toList = ⟨ts, u⟩) {k : Nat} (inView : u = none ∨ k + 1 < ts.length) :
    ∃ s, after source k = .ok s ∧ s.Shows ts k ∧ s.reader.ahead = ⟨ts.drop (k + 2), u⟩ := by
  have place := Cursor.after_eq source cut k inView
  rcases together_after source k with ⟨literal, -, hc⟩ | ⟨s, c, hs, hc, inStep⟩
  · rw [place] at hc
    cases hc
  · rw [place] at hc
    cases hc
    refine ⟨s, hs, ⟨?_, ?_⟩, ?_⟩
    · rw [inStep.current, Cursor.current?, List.head?_drop]
    · rw [inStep.next, Cursor.next?, List.tail_drop, List.head?_drop]
    · rw [inStep.ahead, List.drop_drop]

theorem start_of_short {source : String} {ts : List Token} {literal : String}
    (cut : tokens source.toList = ⟨ts, some literal⟩) (short : ts.length < 2) :
    start source = .error literal := by
  have met : Cursor.start source = .error literal := by
    rw [Cursor.start, cut]
    exact Cursor.view_of_short short
  rcases together_start source with ⟨l, hs, hc⟩ | ⟨s, c, -, hc, -⟩
  · rw [met] at hc
    cases hc
    exact hs
  · rw [met] at hc
    cases hc

/-- A stream shows the tokens of a text, two at a time.  An unclosed text among the first
two is met at once, and any other by the move that would bring it into view; all moves
before show the tokens in front of it.  Whenever a token is cut, its characters are used
up. -/
theorem shows_tokens (source : String) :
    (∀ ts, tokenize source = .ok ts → ∀ k, ∃ s, after source k = .ok s ∧ s.Shows ts k) ∧
      (∀ ts literal, tokens source.toList = ⟨ts, some literal⟩ →
        (ts.length < 2 → start source = .error literal) ∧
        ∀ k, k + 1 < ts.length → ∃ s, after source k = .ok s ∧ s.Shows ts k ∧
          (k + 2 = ts.length → s.advance = .error literal)) ∧
      ∀ r r' t, Reader.next r = (.ok (some t), r') → r.position < r'.position := by
  refine ⟨fun ts cut k => ?_, fun ts literal cut => ⟨fun short => ?_, fun k room => ?_⟩,
    fun r r' t => Reader.position_lt_of_next⟩
  · obtain ⟨s, hs, shows, -⟩ := shows_after (tokenize_ok cut) (k := k) (.inl rfl)
    exact ⟨s, hs, shows⟩
  · exact start_of_short cut short
  · obtain ⟨s, hs, shows, ahead⟩ := shows_after cut (.inr room)
    refine ⟨s, hs, shows, fun last => advance_error ?_⟩
    rw [ahead, List.drop_eq_nil_of_le (Nat.le_of_eq last.symm)]

/-- The last move before an unclosed text shows the two tokens in front of it. -/
theorem shows_tokens_unclosed :
    ∃ ts, ts = [⟨.name, "Title"⟩, ⟨.filler, ","⟩, ⟨.openParen, "("⟩] ∧
      tokens "Title, ( \x22open".toList = ⟨ts, some "open"⟩ ∧
      ∃ s, after "Title, ( \x22open" 1 = .ok s ∧ s.Shows ts 1 ∧ s.advance = .error "open" := by
  have cut : tokens "Title, ( \x22open".toList =
      ⟨[⟨.name, "Title"⟩, ⟨.filler, ","⟩, ⟨.openParen, "("⟩], some "open"⟩ := by
    cbv
  obtain ⟨s, hs, shows, met⟩ := ((shows_tokens "Title, ( \x22open").2.1 _ _ cut).2 1 (by decide)
  exact ⟨_, rfl, cut, s, hs, shows, met rfl⟩

end Stream
end Legalese
