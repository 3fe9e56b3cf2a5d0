import Mathlib.Data.List.Forall2
import Mathlib.Order.Monotone.Basic
import Legalese.Proofs.Reading.Alike
import Legalese.Proofs.Spelling

/-!
# Nothing but cardinals is read as a cardinal

The reader of cardinals looks at kinds, and takes a number out of every number word.  If it
comes to a number, the tokens it went over are, up to their spelling, the tokens in which
that number is written.  So it neither accepts words in another order, nor leaves out a
word that it should have read.

The number words stand in finite lists, so their numbers are known to be small
(`CardinalWord.Listed`).  That makes a group less than one thousand, and then the groups
can be told from their sum.
-/

namespace Legalese

open Grammar (kindAt)

/-! ## Numbers that have a word -/

/-- The number of a number word is one of those that have a word in this place. -/
def CardinalWord.Listed : CardinalWord → Prop
  | ones n => 0 < n ∧ n < 10
  | teens n => 10 ≤ n ∧ n < 20
  | tens n => 20 ≤ n ∧ n < 100 ∧ n % 10 = 0
  | magnitude m => m ∈ [1, 2, 3, 4, 5, 6].map Kind.thousandTo
  | _ => True

def Kind.word? : Kind → Option CardinalWord
  | cardinal w => some w
  | _ => none

instance : DecidablePred CardinalWord.Listed
  | .ones n => inferInstanceAs (Decidable (0 < n ∧ n < 10))
  | .teens n => inferInstanceAs (Decidable (10 ≤ n ∧ n < 20))
  | .tens n => inferInstanceAs (Decidable (20 ≤ n ∧ n < 100 ∧ n % 10 = 0))
  | .magnitude m => inferInstanceAs (Decidable (m ∈ [1, 2, 3, 4, 5, 6].map Kind.thousandTo))
  | .negative => inferInstanceAs (Decidable True)
  | .zero => inferInstanceAs (Decidable True)
  | .hundred => inferInstanceAs (Decidable True)

theorem keyword_listed : ∀ e ∈ Kind.keywords, ∀ w ∈ e.2.word?, w.Listed := by
  decide +kernel

theorem Token.Lexed.listed {t : Token} (h : t.Lexed) {w : CardinalWord}
    (kind : t.kind = .cardinal w) : w.Listed :=
  keyword_listed _ (mem_of_lookup (h.word w kind)) w rfl

theorem Token.Alike.of_kind {t : Token} {k : Kind} (h : t.kind = k) (plain : k.isSpelled = false)
    (l : String) : t.Alike ⟨k, l⟩ :=
  ⟨h, fun spelled => absurd (plain.symm.trans spelled) Bool.false_ne_true⟩

theorem Token.Lexed.eq_of_mark {t : Token} (h : t.Lexed) {k : Kind} (kind : t.kind = k) {m : String}
    (mark : k.mark? = some m) : t = ⟨k, m⟩ := by
  obtain ⟨k', l⟩ := t
  obtain rfl : k' = k := kind
  rw [show l = m from h.mark m mark]

theorem Token.Lexed.alike_dash {t : Token} (h : t.Lexed) (kind : t.kind = .dash) :
    t.Alike Cardinal.dashToken := by
  rw [h.eq_of_mark kind rfl]
  exact .refl _

/-! ## Tokens that a reader has gone over -/

namespace Cursor

/-- All tokens are cut from a text. -/
def Lexed (c : Cursor) : Prop := ∀ t ∈ c.tokens, t.Lexed

variable {c c₁ c' : Cursor} {ts us : List Token}

theorem Follows.lexed (h : c.Follows c') (lexed : c.Lexed) : c'.Lexed := by
  obtain ⟨n, rfl⟩ := h
  exact fun t ht => lexed t (List.mem_of_mem_drop ht)

theorem exists_current? {k : Kind} (h : c.kind? = some k) : ∃ t, c.current? = some t ∧ t.kind = k :=
  Option.map_eq_some_iff.1 h

theorem Lexed.of_current? (lexed : c.Lexed) {t : Token} (h : c.current? = some t) : t.Lexed :=
  lexed t (List.mem_of_head? h)

theorem Lexed.listed (lexed : c.Lexed) {w : CardinalWord} (h : c.kind? = some (.cardinal w)) :
    w.Listed := by
  obtain ⟨t, current, kind⟩ := exists_current? h
  exact (lexed.of_current? current).listed kind

theorem kind?_of_moved (h : c.moved = .ok c') : c'.kind? = c.nextKind? := by
  rw [eq_of_moved h]
  rfl

/-- A reader went from one place to another, over tokens like the given ones, and stands on
the last of them. -/
inductive Passes : Cursor → List Token → Cursor → Prop
  | here {c : Cursor} {t t' : Token} (current : c.current? = some t) (alike : t.Alike t') :
      Passes c [t'] c
  | step {c c₁ c' : Cursor} {t t' : Token} {ts : List Token} (current : c.current? = some t)
      (alike : t.Alike t') (moved : c.moved = .ok c₁) (rest : Passes c₁ ts c') :
      Passes c (t' :: ts) c'

theorem Passes.word {w : CardinalWord} (kind : c.kind? = some (.cardinal w)) (l : String) :
    c.Passes [⟨.cardinal w, l⟩] c := by
  obtain ⟨t, current, kind⟩ := exists_current? kind
  exact .here current (.of_kind kind rfl l)

theorem Passes.word_step {w : CardinalWord} (kind : c.kind? = some (.cardinal w)) (l : String)
    (moved : c.moved = .ok c₁) (rest : c₁.Passes ts c') :
    c.Passes (⟨.cardinal w, l⟩ :: ts) c' := by
  obtain ⟨t, current, kind⟩ := exists_current? kind
  exact .step current (.of_kind kind rfl l) moved rest

theorem Passes.trans {c₂ : Cursor} (h : c.Passes ts c₁) (moved : c₁.moved = .ok c₂)
    (h' : c₂.Passes us c') : c.Passes (ts ++ us) c' := by
  induction h with
  | here current alike => exact .step current alike moved h'
  | step current alike moved₁ _ ih => exact .step current alike moved₁ (ih moved)

theorem Passes.exists_rest (h : c.Passes ts c') :
    ∃ us rest, List.Forall₂ Token.Alike us ts ∧ us ≠ [] ∧ c.tokens = us ++ rest ∧
      c' = ⟨us.getLast?.toList ++ rest, c.unclosed⟩ := by
  induction h with
  | @here c t t' current alike =>
    obtain ⟨rest, tokens⟩ := List.head?_eq_some_iff.1 current
    refine ⟨[t], rest, .cons alike .nil, List.cons_ne_nil t [], tokens, ?_⟩
    rw [List.getLast?_singleton, Option.toList_some, List.singleton_append, ← tokens]
  | @step c c₁ c' t t' ts current alike moved _ ih =>
    obtain ⟨us, rest, all, ne, tokens₁, place⟩ := ih
    obtain ⟨tail, tokens⟩ := List.head?_eq_some_iff.1 current
    have first : c₁ = ⟨tail, c.unclosed⟩ := by rw [eq_of_moved moved, tokens, List.tail_cons]
    refine ⟨t :: us, rest, .cons alike all, List.cons_ne_nil t us, ?_, ?_⟩
    · rw [tokens, List.cons_append, ← tokens₁, first]
    · rw [place, first, List.getLast?_cons, List.getLast?_eq_some_getLast ne]
      rfl

end Cursor

/-! ## Groups -/

namespace Cardinal

open Cursor

theorem tokensBelowHundred_ones {n : Nat} (pos : 0 < n) (small : n < 10) :
    tokensBelowHundred n = [onesToken n] := by
  rw [tokensBelowHundred, if_neg (by omega), if_pos small]

theorem tokensBelowHundred_teens {n : Nat} (large : 10 ≤ n) (small : n < 20) :
    tokensBelowHundred n = [teensToken n] := by
  rw [tokensBelowHundred, if_neg (by omega), if_neg (by omega), if_pos small]

theorem tokensBelowHundred_tens {n : Nat} (large : 20 ≤ n) (whole : n % 10 = 0) :
    tokensBelowHundred n = [tensToken n] := by
  rw [tokensBelowHundred, if_neg (by omega), if_neg (by omega), if_neg (by omega), if_pos whole]

theorem tokensBelowHundred_sum {n d : Nat} (large : 20 ≤ n) (whole : n % 10 = 0) (pos : 0 < d)
    (small : d < 10) : tokensBelowHundred (n + d) = [tensToken n, dashToken, onesToken d] := by
  have tens : (n + d) / 10 * 10 = n := by omega
  have ones : (n + d) % 10 = d := by omega
  rw [tokensBelowHundred, if_neg (by omega), if_neg (by omega), if_neg (by omega),
    if_neg (by omega), tens, ones]

theorem passes_of_belowHundred {c c' : Cursor} {n : Nat} (lexed : c.Lexed)
    (h : yield (belowHundred c) = .ok (n, c')) :
    0 < n ∧ n < 100 ∧ c.Passes (tokensBelowHundred n) c' := by
  rw [yield_belowHundred] at h
  split at h
  · next kind =>
    cases h
    obtain ⟨pos, small⟩ : 0 < n ∧ n < 10 := lexed.listed kind
    rw [tokensBelowHundred_ones pos small]
    exact ⟨pos, by omega, .word kind _⟩
  · next kind =>
    cases h
    obtain ⟨large, small⟩ : 10 ≤ n ∧ n < 20 := lexed.listed kind
    rw [tokensBelowHundred_teens large small]
    exact ⟨by omega, by omega, .word kind _⟩
  · next m kind =>
    obtain ⟨large, small, whole⟩ : 20 ≤ m ∧ m < 100 ∧ m % 10 = 0 := lexed.listed kind
    split at h
    · next next₁ =>
      obtain ⟨c₁, moved₁, h⟩ := bind_eq_ok.1 h
      split at h
      · next d next₂ =>
        obtain ⟨c₂, moved₂, h⟩ := bind_eq_ok.1 h
        cases h
        have lexed₁ : c₁.Lexed := (follows_of_moved moved₁).lexed lexed
        have lexed₂ : c'.Lexed := (follows_of_moved moved₂).lexed lexed₁
        rw [← kind?_of_moved moved₁] at next₁
        rw [← kind?_of_moved moved₂] at next₂
        obtain ⟨pos, digit⟩ : 0 < d ∧ d < 10 := lexed₂.listed next₂
        obtain ⟨t, current, dash⟩ := exists_current? next₁
        rw [tokensBelowHundred_sum large whole pos digit]
        refine ⟨by omega, by omega, .word_step kind _ moved₁ ?_⟩
        exact .step current ((lexed₁.of_current? current).alike_dash dash) moved₂ (.word next₂ _)
      · cases h
    · cases h
      rw [tokensBelowHundred_tens large whole]
      exact ⟨by omega, small, .word kind _⟩
  · cases h

theorem tokensBelowThousand_sum {n m : Nat} (pos : 0 < n) (small : m < 100) :
    tokensBelowThousand (100 * n + m) = onesToken n :: hundredToken :: tokensBelowHundred m := by
  have hundreds : (100 * n + m) / 100 = n := by omega
  have below : (100 * n + m) % 100 = m := by omega
  rw [tokensBelowThousand_of_le (by omega), hundreds, below]

theorem passes_of_belowThousand {c c' : Cursor} {n : Nat} (lexed : c.Lexed)
    (h : yield (belowThousand c) = .ok (n, c')) :
    0 < n ∧ n < 1000 ∧ c.Passes (tokensBelowThousand n) c' := by
  have short {n : Nat} (h : 0 < n ∧ n < 100 ∧ c.Passes (tokensBelowHundred n) c') :
      0 < n ∧ n < 1000 ∧ c.Passes (tokensBelowThousand n) c' := by
    rw [tokensBelowThousand_of_lt h.2.1]
    exact ⟨h.1, by omega, h.2.2⟩
  rw [yield_belowThousand] at h
  split at h
  · next m kind =>
    obtain ⟨pos, small⟩ : 0 < m ∧ m < 10 := lexed.listed kind
    split at h
    · next next₁ =>
      obtain ⟨c₁, moved₁, h⟩ := bind_eq_ok.1 h
      have lexed₁ : c₁.Lexed := (follows_of_moved moved₁).lexed lexed
      rw [← kind?_of_moved moved₁] at next₁
      split at h
      · obtain ⟨c₂, moved₂, h⟩ := bind_eq_ok.1 h
        obtain ⟨⟨b, c₃⟩, below, h⟩ := bind_eq_ok.1 h
        cases h
        have lexed₂ : c₂.Lexed := (follows_of_moved moved₂).lexed lexed₁
        obtain ⟨pos', small', passes⟩ := passes_of_belowHundred lexed₂ below
        rw [tokensBelowThousand_sum pos small']
        exact ⟨by omega, by omega, .word_step kind _ moved₁ (.word_step next₁ _ moved₂ passes)⟩
      · cases h
        have whole : tokensBelowThousand (100 * m) = [onesToken m, hundredToken] :=
          tokensBelowThousand_sum pos (by decide : 0 < 100)
        rw [whole]
        exact ⟨by omega, by omega, .word_step kind _ moved₁ (.word next₁ _)⟩
    · cases h
      refine short ⟨pos, by omega, ?_⟩
      rw [tokensBelowHundred_ones pos small]
      exact .word kind _
  · exact short (passes_of_belowHundred lexed h)

/-- The magnitude word is added to what has been gone over already. -/
theorem passes_of_magnitude {c c₁ c' : Cursor} {m : Nat} {ts : List Token} (lexed : c₁.Lexed)
    (h : yield (magnitude c₁) = .ok (m, c')) (group : c.Passes ts c₁) :
    ∃ power, power ≤ 6 ∧ m = Kind.thousandTo power ∧
      c.Passes (ts ++ magnitudeTokens power) c' := by
  rw [yield_magnitude] at h
  split at h
  · next word =>
    obtain ⟨c₂, moved, h⟩ := bind_eq_ok.1 h
    cases h
    rw [← kind?_of_moved moved] at word
    have listed : m ∈ [1, 2, 3, 4, 5, 6].map Kind.thousandTo :=
      ((follows_of_moved moved).lexed lexed).listed word
    obtain ⟨power, mem, rfl⟩ := List.mem_map.1 listed
    have bounds : 0 < power ∧ power ≤ 6 := by
      simp only [List.mem_cons, List.not_mem_nil, or_false] at mem
      omega
    refine ⟨power, bounds.2, rfl, group.trans moved ?_⟩
    rw [magnitudeTokens, if_neg (Nat.ne_of_gt bounds.1)]
    exact .word word _
  · cases h
    refine ⟨0, by decide, rfl, ?_⟩
    rwa [show magnitudeTokens 0 = [] from rfl, List.append_nil]

/-! ## Groups and their sum -/

theorem thousandTo_strictMono : StrictMono Kind.thousandTo := strictMono_nat_of_lt_succ thousandTo_lt

theorem thousandTo_dvd {p q : Nat} (le : p ≤ q) : Kind.thousandTo p ∣ Kind.thousandTo q := by
  induction le with
  | refl => exact Nat.dvd_refl _
  | step _ ih => exact Nat.dvd_mul_left_of_dvd ih 1000

theorem group_eq (n power : Nat) : n / Kind.thousandTo power % 1000 =
    n % Kind.thousandTo (power + 1) / Kind.thousandTo power :=
  (Nat.mod_mul_left_div_self n (Kind.thousandTo power) 1000).symm

/-- The groups from a power down depend only on what is below the power above. -/
theorem tokensFrom_congr {n n' power : Nat}
    (h : n % Kind.thousandTo (power + 1) = n' % Kind.thousandTo (power + 1)) :
    tokensFrom n power = tokensFrom n' power := by
  induction power with
  | zero => rw [tokensFrom, tokensFrom, groupTokens, groupTokens, group_eq, group_eq n', h]
  | succ power ih =>
    have lower : n % Kind.thousandTo (power + 1) = n' % Kind.thousandTo (power + 1) := by
      have dvd := thousandTo_dvd (Nat.le_succ (power + 1))
      rw [← Nat.mod_mod_of_dvd n dvd, h, Nat.mod_mod_of_dvd n' dvd]
    rw [tokensFrom, tokensFrom, groupTokens, groupTokens, group_eq, group_eq n', h, ih lower]

theorem tokensFrom_of_lt {n p q : Nat} (small : n < Kind.thousandTo (p + 1)) (le : p ≤ q) :
    tokensFrom n q = tokensFrom n p := by
  induction le with
  | refl => rfl
  | @step q le ih =>
    have large : Kind.thousandTo (p + 1) ≤ Kind.thousandTo (q + 1) :=
      thousandTo_strictMono.monotone (Nat.succ_le_succ le)
    have zero : n / Kind.thousandTo (q + 1) = 0 := Nat.div_eq_of_lt (Nat.lt_of_lt_of_le small large)
    rw [tokensFrom, groupTokens, zero, if_pos rfl, List.nil_append, ih]

theorem tokensFrom_sum {g k power : Nat} (pos : 0 < g) (small : g < 1000) (le : power ≤ 6)
    (below : k < Kind.thousandTo power) :
    tokensFrom (g * Kind.thousandTo power + k) 6 =
      tokensBelowThousand g ++ magnitudeTokens power ++ tokensFrom k 6 := by
  have ppos := thousandTo_pos power
  have bound : g * Kind.thousandTo power + k < Kind.thousandTo (power + 1) := by
    rw [Kind.thousandTo]
    have := Nat.mul_le_mul_right (Kind.thousandTo power) (Nat.le_of_lt_succ small)
    omega
  have digit : (g * Kind.thousandTo power + k) / Kind.thousandTo power % 1000 = g := by
    rw [Nat.mul_comm, Nat.mul_add_div ppos, Nat.div_eq_of_lt below, Nat.add_zero,
      Nat.mod_eq_of_lt small]
  have group : groupTokens (g * Kind.thousandTo power + k) power =
      tokensBelowThousand g ++ magnitudeTokens power := by
    rw [groupTokens_of_pos (by omega), digit]
  rw [tokensFrom_of_lt bound le]
  cases power with
  | zero =>
    obtain rfl : k = 0 := by
      rw [Kind.thousandTo] at below
      omega
    rw [tokensFrom, group, tokensFrom_eq_nil (by decide : 0 % Kind.thousandTo 7 = 0),
      List.append_nil]
  | succ power =>
    have rest : tokensFrom (g * Kind.thousandTo (power + 1) + k) power = tokensFrom k power :=
      tokensFrom_congr (by rw [Nat.mul_comm, Nat.mul_add_mod])
    have lower : tokensFrom k 6 = tokensFrom k power := tokensFrom_of_lt below (by omega)
    rw [tokensFrom, group, rest, lower]

theorem addGroup_eq_ok {sign total v : Int} {last : Option Nat} {group magnitude : Nat}
    (h : addGroup sign total last group magnitude = .ok v) :
    (∀ l, last = some l → magnitude < l) ∧ v = total + sign * (group * magnitude : Nat) ∧
      InRange v := by
  unfold addGroup at h
  split at h
  · cases h
  · split at h
    · cases h
    · next falls =>
      dsimp only at h
      split at h
      · next inRange =>
        cases h
        refine ⟨fun l hl => ?_, rfl, inRange⟩
        have := (Option.filter_eq_none_iff.1 falls) l hl
        simpa using this
      · cases h

theorem passes_of_groups {sign total v : Int} {last : Option Nat} {c c' : Cursor}
    (lexed : c.Lexed) (powers : ∀ l, last = some l → ∃ power, l = Kind.thousandTo power)
    (h : yield (groups sign total last c) = .ok (v, c')) :
    ∃ k : Nat, 0 < k ∧ (∀ l, last = some l → k < l) ∧ v = total + sign * k ∧ InRange v ∧
      c.Passes (tokensFrom k 6) c' := by
  -- by induction on the tokens that are left: since magnitudes fall, all that is read after a
  -- group is less than its magnitude
  rw [yield_groups] at h
  obtain ⟨⟨g, c₁⟩, h₁, h⟩ := bind_eq_ok.1 h
  obtain ⟨⟨m, c₂⟩, h₂, h⟩ := bind_eq_ok.1 h
  obtain ⟨t, h₃, h⟩ := bind_eq_ok.1 h
  have follows₁ := follows_of_belowThousand h₁
  have follows₂ := follows₁.trans (follows_of_magnitude h₂)
  obtain ⟨pos, small, group⟩ := passes_of_belowThousand lexed h₁
  obtain ⟨power, le, rfl, passes⟩ := passes_of_magnitude (follows₁.lexed lexed) h₂ group
  obtain ⟨falls, rfl, inRange⟩ := addGroup_eq_ok h₃
  have ppos := thousandTo_pos power
  have positive : 0 < g * Kind.thousandTo power := Nat.mul_pos pos ppos
  have less {k : Nat} (below : k < Kind.thousandTo power) (l : Nat) (hl : last = some l) :
      g * Kind.thousandTo power + k < l := by
    obtain ⟨higher, rfl⟩ := powers l hl
    have lt : power < higher := thousandTo_strictMono.lt_iff_lt.1 (falls _ hl)
    have next : Kind.thousandTo (power + 1) ≤ Kind.thousandTo higher :=
      thousandTo_strictMono.monotone lt
    rw [Kind.thousandTo] at next
    have := Nat.mul_le_mul_right (Kind.thousandTo power) (Nat.le_of_lt_succ small)
    omega
  split at h
  · cases h
    refine ⟨g * Kind.thousandTo power, positive, less ppos, rfl, inRange, ?_⟩
    have last := tokensFrom_sum pos small le ppos
    rw [tokensFrom_eq_nil (by decide : 0 % Kind.thousandTo 7 = 0), List.append_nil,
      Nat.add_zero] at last
    rwa [last]
  · next more =>
    obtain ⟨c₃, moved, h⟩ := bind_eq_ok.1 h
    have shorter : c₃.remaining < c.remaining := by
      obtain ⟨k, hk⟩ := nextKind?_of_more more
      have := one_lt_remaining_of_nextKind? hk
      have := remaining_of_moved moved
      have := follows₂.remaining_le
      omega
    have lexed₃ : c₃.Lexed := (follows_of_moved moved).lexed (follows₂.lexed lexed)
    obtain ⟨k, -, below, rfl, inRange, rest⟩ :=
      passes_of_groups lexed₃ (fun l hl => ⟨power, (Option.some.inj hl).symm⟩) h
    refine ⟨g * Kind.thousandTo power + k, by omega, less (below _ rfl), ?_, inRange, ?_⟩
    · rw [Int.natCast_add, Int.mul_add, Int.add_assoc]
    · rw [tokensFrom_sum pos small le (below _ rfl)]
      exact passes.trans moved rest
termination_by c.remaining

/-- A reader of a cardinal goes over the tokens of the number that it comes to. -/
theorem passes_of_read {c c' : Cursor} {v : Int} (lexed : c.Lexed)
    (h : yield (read c) = .ok (v, c')) : InRange v ∧ c.Passes (tokens v) c' := by
  have first : ∀ l, (none : Option Nat) = some l → ∃ power, l = Kind.thousandTo power := nofun
  rw [yield_read] at h
  split at h
  · next kind =>
    cases h
    exact ⟨by decide, .word kind _⟩
  · next kind =>
    obtain ⟨c₁, moved, h⟩ := bind_eq_ok.1 h
    have lexed₁ : c₁.Lexed := (follows_of_moved moved).lexed lexed
    obtain ⟨k, pos, -, rfl, inRange, passes⟩ := passes_of_groups lexed₁ first h
    have negative : (0 + -1 * k : Int) < 0 := by omega
    have size : (0 + -1 * k : Int).natAbs = k := by omega
    refine ⟨inRange, ?_⟩
    rw [tokens, if_neg (Int.ne_of_lt negative), if_pos negative, size]
    exact .word_step kind _ moved passes
  · obtain ⟨k, pos, -, rfl, inRange, passes⟩ := passes_of_groups lexed first h
    have natural : ¬(0 + 1 * k : Int) < 0 := by omega
    have size : (0 + 1 * k : Int).natAbs = k := by omega
    refine ⟨inRange, ?_⟩
    rw [tokens, if_neg (by omega), if_neg natural, size]
    exact passes

end Cardinal
end Legalese
