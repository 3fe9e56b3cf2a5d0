import Mathlib
import Legalese.Proofs.Layout

/-!
# Tokens that are laid out anew

The kind of a dash, a comma or a run of letters depends on what stands next to it.  Between
blanks nothing does: a token that stands somewhere in some text stands just as well with
blanks on both sides, or with the end of a text on one of them.  So a text may be laid out
anew, as long as at least one blank is left between any two of its tokens.
-/

namespace Legalese

/-! ## Blanks on both sides -/

/-- The characters that are no blanks. -/
def isSolid (c : Char) : Bool := !isBlank c

theorem EndsOutside.mono {p q : Char → Bool} {cs : List Char} (h : EndsOutside q cs)
    (sub : ∀ c, p c = true → q c = true) : EndsOutside p cs := by
  intro c hc
  cases hp : p c with
  | false => rfl
  | true => rw [← h c hc, sub c hp]

theorem BeginsOutside.mono {p q : Char → Bool} {cs : List Char} (h : BeginsOutside q cs)
    (sub : ∀ c, p c = true → q c = true) : BeginsOutside p cs := by
  intro c hc
  cases hp : p c with
  | false => rfl
  | true => rw [← h c hc, sub c hp]

theorem isSolid_of_isLetter (c : Char) (h : isLetter c = true) : isSolid c = true := by
  rw [isSolid, isBlank_of_isLetter h]
  rfl

theorem isSolid_of_isNumeral (c : Char) (h : isNumeral c = true) : isSolid c = true := by
  rw [isSolid, isBlank_of_isNumeral h]
  rfl

/-- Between blanks a token stands wherever it is put. -/
theorem Token.Stands.between {before after before' after' : List Char} {t : Token}
    (h : t.Stands before after) (opens : EndsOutside isSolid before')
    (closes : BeginsOutside isSolid after') : t.Stands before' after' := by
  have digits (c : Char) (hc : beginsNumeral c = true) : isSolid c = true :=
    isSolid_of_isNumeral c (isNumeral_of_beginsNumeral hc)
  cases h with
  | quoted h => exact .quoted h
  | word run => exact .word run (opens.mono isSolid_of_isLetter) (closes.mono isSolid_of_isLetter)
  | numeral first run signed =>
    exact .numeral first run signed (opens.mono digits) (closes.mono isSolid_of_isNumeral)
  | dash => exact .dash (closes.mono isSolid_of_isNumeral)
  | openParen => exact .openParen
  | closeParen => exact .closeParen
  | lone h => exact .lone h

theorem endsOutside_gap (before : List Char) {gap : List Char} (ne : gap ≠ [])
    (blank : ∀ c ∈ gap, isBlank c = true) : EndsOutside isSolid (before ++ gap) := by
  refine endsOutside_append before ne fun c hc => ?_
  rw [isSolid, blank c hc]
  rfl

theorem beginsOutside_gap {gap : List Char} (ne : gap ≠ []) (blank : ∀ c ∈ gap, isBlank c = true)
    (after : List Char) : BeginsOutside isSolid (gap ++ after) := by
  obtain ⟨d, ds, rfl⟩ := List.exists_cons_of_ne_nil ne
  rintro _ ⟨⟩
  rw [isSolid, blank d List.mem_cons_self]
  rfl

/-! ## Texts from tokens -/

/-- Tokens after each other, each with the gap that follows it. -/
def spread (ts : List Token) (gaps : List (List Char)) : List Char :=
  (List.zipWith (fun t gap => t.spelling ++ gap) ts gaps).flatten

theorem spread_cons (t : Token) (ts : List Token) (gap : List Char) (gaps : List (List Char)) :
    spread (t :: ts) (gap :: gaps) = t.spelling ++ (gap ++ spread ts gaps) := by
  rw [spread, List.zipWith_cons_cons, List.flatten_cons, List.append_assoc]
  rfl

/-- The text of some tokens: a gap in front, and one after each token. -/
def relaid (lead : List Char) (ts : List Token) (gaps : List (List Char)) : String :=
  String.ofList (lead ++ spread ts gaps)

theorem Layout.stands {before cs : List Char} {all : Tokens} (h : Layout before cs all) {t : Token}
    (ht : t ∈ all.list) : ∃ before' after', t.Stands before' after' := by
  induction h with
  | ended => cases ht
  | unclosed => cases ht
  | token blank stands next ih =>
    rcases List.mem_cons.1 ht with rfl | ht
    · exact ⟨_, _, stands⟩
    · exact ih ht

/-- Tokens that stand somewhere are laid out anew in their text, by induction on the tokens.
What comes before the first one has to end with a blank only if there is a first one. -/
theorem layout_spread {before lead : List Char} {ts : List Token} {gaps : List (List Char)}
    (stand : ∀ t ∈ ts, ∃ before' after', t.Stands before' after')
    (paired : gaps.length = ts.length) (blank : ∀ gap ∈ lead :: gaps, ∀ c ∈ gap, isBlank c = true)
    (apart : ∀ gap ∈ gaps.dropLast, gap ≠ [])
    (opens : ts ≠ [] → EndsOutside isSolid (before ++ lead)) :
    Layout before (lead ++ spread ts gaps) ⟨ts, none⟩ := by
  induction ts generalizing before lead gaps with
  | nil =>
    rw [spread, List.zipWith_nil_left, List.flatten_nil, List.append_nil]
    exact .ended (blank lead List.mem_cons_self)
  | cons t ts ih =>
    cases gaps with
    | nil => cases paired
    | cons gap gaps =>
      have rest : gaps.length = ts.length := Nat.succ.inj paired
      have gapBlank := blank gap (List.mem_cons_of_mem lead List.mem_cons_self)
      have inner (more : ts ≠ []) : gap ≠ [] := by
        have ne : gaps ≠ [] := fun e => more (List.length_eq_zero_iff.1 (by rw [← rest, e]; rfl))
        refine apart gap ?_
        rw [List.dropLast_cons_of_ne_nil ne]
        exact List.mem_cons_self
      have closes : BeginsOutside isSolid (gap ++ spread ts gaps) := by
        by_cases empty : gap = []
        · have last : ts = [] := Classical.not_not.1 fun more => inner more empty
          rw [empty, last]
          exact nofun
        · exact beginsOutside_gap empty gapBlank _
      obtain ⟨_, _, stands⟩ := stand t List.mem_cons_self
      rw [spread_cons]
      show Layout before _ (Tokens.prepend [t] ⟨ts, none⟩)
      refine .token (blank lead List.mem_cons_self)
        (stands.between (opens (List.cons_ne_nil t ts)) closes) ?_
      refine ih (fun u hu => stand u (List.mem_cons_of_mem t hu)) rest
        (fun g hg => blank g (List.mem_cons_of_mem lead hg)) (fun g hg => ?_)
        fun more => endsOutside_gap _ (inner more) gapBlank
      cases gaps with
      | nil => cases hg
      | cons next gaps =>
        refine apart g ?_
        rw [List.dropLast_cons_of_ne_nil (List.cons_ne_nil next gaps)]
        exact List.mem_cons_of_mem gap hg

/-- A text that is laid out anew has the same tokens.  The gaps may hold any blanks, and all
but the first and the last hold at least one. -/
theorem tokenize_relaid {source : String} {ts : List Token} (read : tokenize source = .ok ts)
    {lead : List Char} {gaps : List (List Char)} (paired : gaps.length = ts.length)
    (blank : ∀ gap ∈ lead :: gaps, ∀ c ∈ gap, isBlank c = true)
    (apart : ∀ gap ∈ gaps.dropLast, gap ≠ []) : tokenize (relaid lead ts gaps) = .ok ts := by
  have layout := tokenize_eq_ok_iff.1 read
  have opens : EndsOutside isSolid ([] ++ lead) := by
    cases lead with
    | nil => exact nofun
    | cons c lead =>
      exact endsOutside_gap [] (List.cons_ne_nil c lead) (blank _ List.mem_cons_self)
  rw [tokenize_eq_ok_iff, relaid, String.toList_ofList]
  exact layout_spread (fun t ht => layout.stands ht) paired blank apart fun _ => opens

/-- Without their neighbours a comma stays filler, a dash stays a dash and a numeral keeps its
commas and dashes. -/
theorem tokenize_relaid_commas :
    ∃ ts, ts = [⟨.cardinal (.ones 1), "One"⟩, ⟨.filler, ","⟩, ⟨.dash, "-"⟩, ⟨.openParen, "("⟩,
        ⟨.numeral, "5,-"⟩, ⟨.closeParen, ")"⟩, ⟨.text, " "⟩] ∧
      tokenize "One,-(5,-)\x22 \x22" = .ok ts ∧
      relaid ['\n'] ts [[' '], ['\t'], [' '], ['\r', '\n'], [' '], [' ', ' '], []] =
        "\nOne ,\t- (\r\n5,- )  \x22 \x22" ∧
      tokenize "\nOne ,\t- (\r\n5,- )  \x22 \x22" = .ok ts := by
  have read : tokenize "One,-(5,-)\x22 \x22" =
      .ok [⟨.cardinal (.ones 1), "One"⟩, ⟨.filler, ","⟩, ⟨.dash, "-"⟩, ⟨.openParen, "("⟩,
        ⟨.numeral, "5,-"⟩, ⟨.closeParen, ")"⟩, ⟨.text, " "⟩] := by
    cbv
  have again : tokenize (relaid ['\n'] _
      [[' '], ['\t'], [' '], ['\r', '\n'], [' '], [' ', ' '], []]) = _ :=
    tokenize_relaid read rfl (by simp [isBlank]) (by decide)
  exact ⟨_, rfl, read, by decide +kernel, again⟩

end Legalese
