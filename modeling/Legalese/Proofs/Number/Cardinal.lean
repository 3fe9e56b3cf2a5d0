import Legalese.Number.Cardinal
import Legalese.Proofs.Number.Numeral
import Legalese.Proofs.Reading.Grammar

/-!
# Cardinals are read back

`Cardinal.tokens` are the tokens of a written cardinal.  The reader of cardinals comes from
them to the number, and stops on the last of them, whatever stands after: only a token that
could belong to the cardinal must not follow.

The groups are read from the greatest power down.  What has been read so far and what is
still to come add up to the number, so the total stays in the range.
-/

namespace Legalese

/-- The kinds of the tokens that make up cardinals. -/
def Kind.inCardinal : Kind → Bool
  | cardinal _ => true
  | dash => true
  | _ => false

theorem Kind.opensClause_of_inCardinal {k : Kind} (h : k.inCardinal = true) :
    k.opensClause = false := by
  cases k with
  | whereas => cases h
  | resolved => cases h
  | _ => rfl

namespace Cardinal

open Grammar

/-! ## The tokens of a cardinal -/

def onesToken (n : Nat) : Token := ⟨.cardinal (.ones n), nameIn Kind.onesWords n⟩

def teensToken (n : Nat) : Token := ⟨.cardinal (.teens n), nameIn Kind.teensWords n⟩

def tensToken (n : Nat) : Token := ⟨.cardinal (.tens n), nameIn Kind.tensWords n⟩

def dashToken : Token := ⟨.dash, "-"⟩

def hundredToken : Token := ⟨.cardinal .hundred, "hundred"⟩

def magnitudeToken (power : Nat) : Token :=
  ⟨.cardinal (.magnitude (Kind.thousandTo power)), nameIn Kind.magnitudeWords (Kind.thousandTo power)⟩

def zeroToken : Token := ⟨.cardinal .zero, "zero"⟩

def negativeToken : Token := ⟨.cardinal .negative, "negative"⟩

def tokensBelowHundred (n : Nat) : List Token :=
  if n = 0 then []
  else if n < 10 then [onesToken n]
  else if n < 20 then [teensToken n]
  else if n % 10 = 0 then [tensToken n]
  else [tensToken (n / 10 * 10), dashToken, onesToken (n % 10)]

def tokensBelowThousand (n : Nat) : List Token :=
  (if n < 100 then [] else [onesToken (n / 100), hundredToken]) ++ tokensBelowHundred (n % 100)

def magnitudeTokens (power : Nat) : List Token := if power = 0 then [] else [magnitudeToken power]

def groupTokens (n power : Nat) : List Token :=
  if n / Kind.thousandTo power % 1000 = 0 then []
  else tokensBelowThousand (n / Kind.thousandTo power % 1000) ++ magnitudeTokens power

/-- The groups of a number from one power of one thousand down. -/
def tokensFrom (n : Nat) : Nat → List Token
  | 0 => groupTokens n 0
  | power + 1 => groupTokens n (power + 1) ++ tokensFrom n power

def tokens (n : Int) : List Token :=
  if n = 0 then [zeroToken]
  else if n < 0 then negativeToken :: tokensFrom n.natAbs 6
  else tokensFrom n.natAbs 6

/-! ## Where a reader stops -/

/-- A cursor on the last of some tokens, with others after it. -/
def standing (ts rest : List Token) : Cursor := ⟨ts.getLast?.toList ++ rest, none⟩

theorem standing_append (ts : List Token) {us : List Token} (h : us ≠ []) (rest : List Token) :
    standing (ts ++ us) rest = standing us rest := by
  unfold standing
  rw [List.getLast?_append, List.getLast?_eq_some_getLast h]
  rfl

theorem standing_cons {t : Token} {us : List Token} (h : us ≠ []) (rest : List Token) :
    standing (t :: us) rest = standing us rest :=
  standing_append [t] h rest

theorem moved_cons (t : Token) (ts : List Token) :
    (Cursor.mk (t :: ts) none).moved = .ok ⟨ts, none⟩ := by
  rw [Cursor.moved_eq]
  rfl

/-- The last token of a list has been read over. -/
theorem moved_standing {ts : List Token} (h : ts ≠ []) (rest : List Token) :
    (standing ts rest).moved = .ok ⟨rest, none⟩ := by
  unfold standing
  rw [List.getLast?_eq_some_getLast h]
  exact moved_cons _ _

theorem nextKind?_standing {ts : List Token} (h : ts ≠ []) (rest : List Token) :
    (standing ts rest).nextKind? = kindAt rest := by
  unfold standing
  rw [List.getLast?_eq_some_getLast h]
  rfl

/-! ## Groups -/

/-- Nothing that could belong to a group comes next. -/
structure EndsGroup (rest : List Token) : Prop where
  dash : kindAt rest ≠ some .dash
  hundred : kindAt rest ≠ some (.cardinal .hundred)
  starts : ((kindAt rest).map Kind.startsBelowHundred).getD false = false

/-- The three kinds of numbers below one hundred, and the two ways to write the third. -/
theorem tokensBelowHundred_eq {n : Nat} (pos : 0 < n) :
    tokensBelowHundred n = [onesToken n] ∧ n < 10 ∨ tokensBelowHundred n = [teensToken n] ∨
      tokensBelowHundred n = [tensToken n] ∨
      tokensBelowHundred n = [tensToken (n / 10 * 10), dashToken, onesToken (n % 10)] := by
  unfold tokensBelowHundred
  rw [if_neg (by omega)]
  split
  · next h => exact .inl ⟨rfl, h⟩
  · split
    · exact .inr (.inl rfl)
    · split
      · exact .inr (.inr (.inl rfl))
      · exact .inr (.inr (.inr rfl))

theorem inCardinal_of_mem_tokensBelowHundred {n : Nat} {t : Token} (h : t ∈ tokensBelowHundred n) :
    t.kind.inCardinal = true := by
  by_cases zero : n = 0
  · rw [tokensBelowHundred, if_pos zero] at h
    cases h
  · rcases tokensBelowHundred_eq (Nat.pos_of_ne_zero zero) with ⟨e, -⟩ | e | e | e <;>
      rw [e] at h
    · obtain rfl := List.mem_singleton.1 h
      rfl
    · obtain rfl := List.mem_singleton.1 h
      rfl
    · obtain rfl := List.mem_singleton.1 h
      rfl
    · simp only [List.mem_cons, List.not_mem_nil, or_false] at h
      rcases h with rfl | rfl | rfl <;> rfl

theorem inCardinal_of_mem_groupTokens {n power : Nat} {t : Token} (h : t ∈ groupTokens n power) :
    t.kind.inCardinal = true := by
  unfold groupTokens tokensBelowThousand magnitudeTokens at h
  split at h
  · cases h
  · rcases List.mem_append.1 h with h | h
    · rcases List.mem_append.1 h with h | h
      · split at h
        · cases h
        · simp only [List.mem_cons, List.not_mem_nil, or_false] at h
          rcases h with rfl | rfl <;> rfl
      · exact inCardinal_of_mem_tokensBelowHundred h
    · split at h
      · cases h
      · obtain rfl := List.mem_singleton.1 h
        rfl

theorem inCardinal_of_mem_tokensFrom {n power : Nat} {t : Token} (h : t ∈ tokensFrom n power) :
    t.kind.inCardinal = true := by
  induction power with
  | zero => exact inCardinal_of_mem_groupTokens h
  | succ power ih =>
    rcases List.mem_append.1 h with h | h
    · exact inCardinal_of_mem_groupTokens h
    · exact ih h

theorem inCardinal_of_mem_tokens {n : Int} {t : Token} (h : t ∈ tokens n) : t.kind.inCardinal = true := by
  unfold tokens at h
  split at h
  · obtain rfl := List.mem_singleton.1 h
    rfl
  · split at h
    · rcases List.mem_cons.1 h with rfl | h
      · rfl
      · exact inCardinal_of_mem_tokensFrom h
    · exact inCardinal_of_mem_tokensFrom h

theorem tokensBelowHundred_ne_nil {n : Nat} (pos : 0 < n) : tokensBelowHundred n ≠ [] := by
  rcases tokensBelowHundred_eq pos with ⟨h, -⟩ | h | h | h <;> rw [h] <;> exact nofun

theorem starts_tokensBelowHundred {n : Nat} (pos : 0 < n) (rest : List Token) :
    ((kindAt (tokensBelowHundred n ++ rest)).map Kind.startsBelowHundred).getD false = true := by
  rcases tokensBelowHundred_eq pos with ⟨h, -⟩ | h | h | h <;> rw [h] <;> rfl

theorem belowHundred_tokens {n : Nat} (pos : 0 < n) {rest : List Token} (ends : EndsGroup rest) :
    yield (belowHundred ⟨tokensBelowHundred n ++ rest, none⟩) =
      .ok (n, standing (tokensBelowHundred n) rest) := by
  rcases tokensBelowHundred_eq pos with ⟨h, -⟩ | h | h | h <;> rw [h, yield_belowHundred]
  · rfl
  · rfl
  · have next : Cursor.nextKind? ⟨[tensToken n] ++ rest, none⟩ = kindAt rest := rfl
    rw [next]
    cases hk : kindAt rest with
    | none => rfl
    | some k =>
      cases k with
      | dash => exact absurd hk ends.dash
      | _ => rfl
  · show (Cursor.moved _ >>= _) = _
    rw [List.cons_append, moved_cons, ok_bind]
    show (Cursor.moved _ >>= _) = _
    rw [List.cons_append, moved_cons, ok_bind]
    show Except.ok (n / 10 * 10 + n % 10, _) = _
    rw [show n / 10 * 10 + n % 10 = n by omega]
    rfl

theorem tokensBelowThousand_of_lt {n : Nat} (h : n < 100) :
    tokensBelowThousand n = tokensBelowHundred n := by
  rw [tokensBelowThousand, if_pos h, List.nil_append, Nat.mod_eq_of_lt h]

theorem tokensBelowThousand_of_le {n : Nat} (h : ¬n < 100) :
    tokensBelowThousand n = onesToken (n / 100) :: hundredToken :: tokensBelowHundred (n % 100) := by
  rw [tokensBelowThousand, if_neg h]
  rfl

theorem tokensBelowThousand_ne_nil {n : Nat} (pos : 0 < n) : tokensBelowThousand n ≠ [] := by
  by_cases h : n < 100
  · rw [tokensBelowThousand_of_lt h]
    exact tokensBelowHundred_ne_nil pos
  · rw [tokensBelowThousand_of_le h]
    exact nofun

theorem starts_tokensBelowThousand {n : Nat} (pos : 0 < n) (rest : List Token) :
    ((kindAt (tokensBelowThousand n ++ rest)).map Kind.startsBelowHundred).getD false = true := by
  by_cases h : n < 100
  · rw [tokensBelowThousand_of_lt h]
    exact starts_tokensBelowHundred pos rest
  · rw [tokensBelowThousand_of_le h]
    rfl

theorem belowThousand_tokens {n : Nat} (pos : 0 < n) {rest : List Token} (ends : EndsGroup rest) :
    yield (belowThousand ⟨tokensBelowThousand n ++ rest, none⟩) =
      .ok (n, standing (tokensBelowThousand n) rest) := by
  rw [yield_belowThousand]
  by_cases small : n < 100
  · have hundred := belowHundred_tokens pos ends
    rw [tokensBelowThousand_of_lt small]
    rcases tokensBelowHundred_eq pos with ⟨h, -⟩ | h | h | h
    · rw [h]
      have next : Cursor.nextKind? ⟨[onesToken n] ++ rest, none⟩ = kindAt rest := rfl
      rw [next]
      cases hk : kindAt rest with
      | none => rfl
      | some k =>
        cases k with
        | cardinal w =>
          cases w with
          | hundred => exact absurd hk ends.hundred
          | _ => rfl
        | _ => rfl
    all_goals
      rw [h] at hundred ⊢
      exact hundred
  · rw [tokensBelowThousand_of_le small]
    show (Cursor.moved _ >>= _) = _
    rw [List.cons_append, moved_cons, ok_bind]
    show ite (((kindAt (tokensBelowHundred (n % 100) ++ rest)).map _).getD false = true) _ _ = _
    by_cases tail : n % 100 = 0
    · rw [tail, show tokensBelowHundred 0 = [] from rfl, List.nil_append, ends.starts,
        if_neg Bool.false_ne_true]
      show Except.ok (100 * (n / 100), _) = _
      rw [show 100 * (n / 100) = n by omega]
      rfl
    · have pos' : 0 < n % 100 := by omega
      have ne := tokensBelowHundred_ne_nil pos'
      rw [if_pos (starts_tokensBelowHundred pos' rest), List.cons_append, moved_cons, ok_bind,
        belowHundred_tokens pos' ends]
      show Except.ok (100 * (n / 100) + n % 100, _) = _
      rw [show 100 * (n / 100) + n % 100 = n by omega]
      exact congrArg (fun c => Except.ok (n, c)) (standing_append [_, _] ne rest).symm

/-! ## A group with its magnitude -/

/-- Nothing that could belong to a cardinal comes next. -/
structure EndsCardinal (rest : List Token) : Prop extends EndsGroup rest where
  magnitude : ∀ m, kindAt rest ≠ some (.cardinal (.magnitude m))

theorem endsCardinal_openParen (l : String) (rest : List Token) :
    EndsCardinal (⟨.openParen, l⟩ :: rest) :=
  ⟨⟨fun h => Kind.noConfusion (Option.some.inj h), fun h => Kind.noConfusion (Option.some.inj h),
    rfl⟩, fun _ h => Kind.noConfusion (Option.some.inj h)⟩

theorem endsGroup_magnitude (power : Nat) (rest : List Token) :
    EndsGroup (magnitudeToken power :: rest) := by
  refine ⟨?_, ?_, rfl⟩
  · exact fun h => nomatch h
  · exact fun h => nomatch h

theorem thousandTo_pos (power : Nat) : 0 < Kind.thousandTo power := by
  induction power with
  | zero => decide
  | succ power ih =>
    rw [Kind.thousandTo]
    omega

/-- The group at a power, and what is below it. -/
theorem mod_thousandTo (n power : Nat) :
    n % Kind.thousandTo (power + 1) =
      n / Kind.thousandTo power % 1000 * Kind.thousandTo power + n % Kind.thousandTo power := by
  rw [Kind.thousandTo, Nat.mul_comm 1000, Nat.mod_mul, Nat.add_comm, Nat.mul_comm]

theorem thousandTo_lt (power : Nat) : Kind.thousandTo power < Kind.thousandTo (power + 1) := by
  have := thousandTo_pos power
  rw [Kind.thousandTo]
  omega

theorem magnitude_tokens {ts : List Token} (ne : ts ≠ []) (power : Nat) {rest : List Token}
    (ends : ∀ m, kindAt rest ≠ some (.cardinal (.magnitude m))) :
    yield (magnitude (standing ts (magnitudeTokens power ++ rest))) =
      .ok (Kind.thousandTo power, standing (ts ++ magnitudeTokens power) rest) := by
  rw [yield_magnitude, nextKind?_standing ne]
  cases power with
  | zero =>
    rw [show magnitudeTokens 0 = [] from rfl, List.append_nil, List.nil_append]
    split
    · next m h => exact absurd h (ends m)
    · rfl
  | succ power =>
    have word : magnitudeTokens (power + 1) = [magnitudeToken (power + 1)] := rfl
    show (Cursor.moved _ >>= _) = _
    rw [moved_standing ne, ok_bind, word, standing_append _ (List.cons_ne_nil _ _)]
    rfl

/-! ## All groups -/

theorem group_of_mod_eq_zero {n power : Nat} (h : n % Kind.thousandTo (power + 1) = 0) :
    n / Kind.thousandTo power % 1000 = 0 ∧ n % Kind.thousandTo power = 0 := by
  have parts := mod_thousandTo n power
  have pos := thousandTo_pos power
  rcases Nat.eq_zero_or_pos (n / Kind.thousandTo power % 1000) with h | h
  · exact ⟨h, by omega⟩
  · have := Nat.mul_pos h pos
    omega

theorem tokensFrom_eq_nil {n power : Nat} (h : n % Kind.thousandTo (power + 1) = 0) :
    tokensFrom n power = [] := by
  have parts := group_of_mod_eq_zero h
  induction power with
  | zero => rw [tokensFrom, groupTokens, if_pos parts.1]
  | succ power ih =>
    rw [tokensFrom, groupTokens, if_pos parts.1, List.nil_append]
    exact ih parts.2 (group_of_mod_eq_zero parts.2)

theorem groupTokens_of_pos {n power : Nat} (h : ¬n / Kind.thousandTo power % 1000 = 0) :
    groupTokens n power =
      tokensBelowThousand (n / Kind.thousandTo power % 1000) ++ magnitudeTokens power := by
  rw [groupTokens, if_neg h]

/-- Groups that are not all zero begin with a word of a group. -/
theorem tokensFrom_starts {n power : Nat} (h : 0 < n % Kind.thousandTo (power + 1))
    (rest : List Token) : tokensFrom n power ≠ [] ∧
      ((kindAt (tokensFrom n power ++ rest)).map Kind.startsBelowHundred).getD false = true := by
  induction power with
  | zero =>
    have parts := mod_thousandTo n 0
    have units : n % Kind.thousandTo 0 = 0 := Nat.mod_one n
    have group : ¬n / Kind.thousandTo 0 % 1000 = 0 := by
      intro zero
      rw [zero] at parts
      omega
    rw [tokensFrom, groupTokens_of_pos group]
    refine ⟨List.append_ne_nil_of_left_ne_nil (tokensBelowThousand_ne_nil (by omega)) _, ?_⟩
    rw [List.append_assoc]
    exact starts_tokensBelowThousand (by omega) _
  | succ power ih =>
    by_cases group : n / Kind.thousandTo (power + 1) % 1000 = 0
    · rw [tokensFrom, groupTokens, if_pos group, List.nil_append]
      have parts := mod_thousandTo n (power + 1)
      rw [group] at parts
      exact ih (by omega)
    · rw [tokensFrom, groupTokens_of_pos group, List.append_assoc, List.append_assoc]
      refine ⟨List.append_ne_nil_of_left_ne_nil (tokensBelowThousand_ne_nil (by omega)) _, ?_⟩
      exact starts_tokensBelowThousand (by omega) _

theorem addGroup_ok {sign : Int} {k g power : Nat} {last : Option Nat}
    (higher : ∀ l, last = some l → Kind.thousandTo power < l) (top : power < 6 ∨ power = 6 ∧ g ≤ 9)
    (inRange : InRange (sign * (k + g * Kind.thousandTo power : Nat))) :
    addGroup sign (sign * k) last g (Kind.thousandTo power) =
      .ok (sign * (k + g * Kind.thousandTo power : Nat)) := by
  have fits : ¬(Kind.thousandTo power = Kind.thousandTo 6 ∧ 9 < g) := by
    rintro ⟨same, large⟩
    rcases top with small | ⟨-, le⟩
    · match power, small with
      | 0, _ | 1, _ | 2, _ | 3, _ | 4, _ | 5, _ => exact absurd same (by decide)
    · omega
  have falls : last.filter (· ≤ Kind.thousandTo power) = none := by
    cases last with
    | none => rfl
    | some l =>
      have := higher l rfl
      simp [Option.filter]
      omega
  have sum : sign * k + sign * (g * Kind.thousandTo power : Nat) =
      sign * (k + g * Kind.thousandTo power : Nat) := by
    rw [← Int.mul_add, Int.natCast_add]
  rw [addGroup, if_neg fits, falls]
  dsimp only
  rw [sum, if_pos inRange]

/-- One group that is not zero, and then the others, if a word of a group follows. -/
theorem groups_group {sign : Int} {n k power : Nat} {last : Option Nat} {rest : List Token}
    (group : ¬n / Kind.thousandTo power % 1000 = 0)
    (ends : EndsGroup (magnitudeTokens power ++ rest))
    (alone : ∀ m, kindAt rest ≠ some (.cardinal (.magnitude m)))
    (higher : ∀ l, last = some l → Kind.thousandTo power < l)
    (top : power < 6 ∨ power = 6 ∧ n / Kind.thousandTo power % 1000 ≤ 9)
    (inRange : InRange (sign *
      (k + n / Kind.thousandTo power % 1000 * Kind.thousandTo power : Nat))) :
    yield (groups sign (sign * k) last ⟨groupTokens n power ++ rest, none⟩) =
      if Kind.thousandTo power = 1 ∨ ((kindAt rest).map Kind.startsBelowHundred).getD false = false
      then .ok (sign * (k + n / Kind.thousandTo power % 1000 * Kind.thousandTo power : Nat),
        standing (groupTokens n power) rest)
      else yield (groups sign
        (sign * (k + n / Kind.thousandTo power % 1000 * Kind.thousandTo power : Nat))
        (some (Kind.thousandTo power)) ⟨rest, none⟩) := by
  have ne : tokensBelowThousand (n / Kind.thousandTo power % 1000) ≠ [] :=
    tokensBelowThousand_ne_nil (by omega)
  have ne' := List.append_ne_nil_of_left_ne_nil ne (magnitudeTokens power)
  rw [yield_groups, groupTokens_of_pos group, List.append_assoc,
    belowThousand_tokens (by omega) ends, ok_bind]
  dsimp only
  rw [magnitude_tokens ne power alone, ok_bind]
  dsimp only
  rw [addGroup_ok higher top inRange, ok_bind, nextKind?_standing ne', moved_standing ne', ok_bind]
  rfl

theorem groups_tokens {sign : Int} (hs : sign = 1 ∨ sign = -1) {n : Nat} {rest : List Token}
    (ends : EndsCardinal rest) {power k : Nat} {last : Option Nat}
    (pos : 0 < n % Kind.thousandTo (power + 1))
    (inRange : InRange (sign * (k + n % Kind.thousandTo (power + 1) : Nat)))
    (higher : ∀ l, last = some l → Kind.thousandTo power < l)
    (top : power < 6 ∨ power = 6 ∧ n / Kind.thousandTo power % 1000 ≤ 9) :
    yield (groups sign (sign * k) last ⟨tokensFrom n power ++ rest, none⟩) =
      .ok (sign * (k + n % Kind.thousandTo (power + 1) : Nat),
        standing (tokensFrom n power) rest) := by
  have parts := mod_thousandTo n power
  have inRange' := Numeral.inRange_of_le hs
    (m := k + n / Kind.thousandTo power % 1000 * Kind.thousandTo power) (by omega) inRange
  induction power generalizing k last with
  | zero =>
    have units : n % Kind.thousandTo 0 = 0 := Nat.mod_one n
    have group : ¬n / Kind.thousandTo 0 % 1000 = 0 := by
      intro h
      rw [h] at parts
      omega
    rw [tokensFrom, groups_group group ends.toEndsGroup ends.magnitude higher top inRange',
      if_pos (.inl rfl), parts, units, Nat.add_zero]
  | succ power ih =>
    by_cases group : n / Kind.thousandTo (power + 1) % 1000 = 0
    · have same : n % Kind.thousandTo (power + 1 + 1) = n % Kind.thousandTo (power + 1) := by
        rw [parts, group]
        omega
      rw [same] at pos inRange ⊢
      rw [tokensFrom, groupTokens, if_pos group, List.nil_append]
      have lower (l : Nat) (hl : last = some l) : Kind.thousandTo power < l :=
        Nat.lt_trans (thousandTo_lt power) (higher l hl)
      have below := mod_thousandTo n power
      exact ih pos inRange lower (.inl (by omega)) below (Numeral.inRange_of_le hs (by omega) inRange)
    · have wordEnds (after : List Token) : EndsGroup (magnitudeTokens (power + 1) ++ after) :=
        endsGroup_magnitude (power + 1) after
      have many : Kind.thousandTo (power + 1) ≠ 1 := by
        have := thousandTo_lt power
        have := thousandTo_pos power
        omega
      rw [tokensFrom, List.append_assoc]
      by_cases last : n % Kind.thousandTo (power + 1) = 0
      · rw [tokensFrom_eq_nil last, List.nil_append, List.append_nil,
          groups_group group (wordEnds _) ends.magnitude higher top inRange',
          if_pos (.inr ends.starts), parts, last]
        rfl
      · obtain ⟨ne, starts⟩ := tokensFrom_starts (Nat.pos_of_ne_zero last) rest
        have alone (m : Nat) :
            kindAt (tokensFrom n power ++ rest) ≠ some (.cardinal (.magnitude m)) := by
          intro h
          rw [h] at starts
          cases starts
        have goesOn : ¬(Kind.thousandTo (power + 1) = 1 ∨
            ((kindAt (tokensFrom n power ++ rest)).map Kind.startsBelowHundred).getD false =
              false) := by
          rw [starts]
          simpa using many
        have whole : k + n / Kind.thousandTo (power + 1) % 1000 * Kind.thousandTo (power + 1) +
            n % Kind.thousandTo (power + 1) = k + n % Kind.thousandTo (power + 1 + 1) := by
          omega
        have below := mod_thousandTo n power
        rw [groups_group group (wordEnds _) alone higher top inRange', if_neg goesOn,
          ih (by omega) (by rw [whole]; exact inRange)
            (fun l hl => by cases hl; exact thousandTo_lt power) (.inl (by omega)) below
            (Numeral.inRange_of_le hs (by omega) inRange),
          whole, standing_append _ ne]

/-! ## Whole cardinals -/

/-- A number of the range has at most seven groups, and fewer than ten quintillions. -/
theorem natAbs_lt {n : Int} (h : InRange n) : n.natAbs < 10 * Kind.thousandTo 6 := by
  unfold InRange minNumber maxNumber at h
  have : Kind.thousandTo 6 = 1000000000000000000 := by decide
  omega

theorem natAbs_mod {n : Int} (h : InRange n) : n.natAbs % Kind.thousandTo 7 = n.natAbs := by
  have large : Kind.thousandTo 7 = 1000 * Kind.thousandTo 6 := rfl
  have small := natAbs_lt h
  exact Nat.mod_eq_of_lt (by omega)

/-- A cardinal begins with a number word. -/
theorem tokens_starts {n : Int} (h : InRange n) :
    ∃ w t ts, tokens n = t :: ts ∧ t.kind = .cardinal w := by
  unfold tokens
  split
  · exact ⟨_, _, _, rfl, rfl⟩
  · next zero =>
    split
    · exact ⟨_, _, _, rfl, rfl⟩
    · have whole : 0 < n.natAbs % Kind.thousandTo 7 := by
        rw [natAbs_mod h]
        omega
      obtain ⟨ne, starts⟩ := tokensFrom_starts whole []
      obtain ⟨t, ts, e⟩ := List.exists_cons_of_ne_nil ne
      rw [e] at starts
      obtain ⟨k, l⟩ := t
      cases k with
      | cardinal w => exact ⟨w, ⟨.cardinal w, l⟩, ts, e, rfl⟩
      | _ => cases starts

theorem tokens_ne_nil {n : Int} (h : InRange n) : tokens n ≠ [] := by
  obtain ⟨w, t, ts, e, -⟩ := tokens_starts h
  rw [e]
  exact List.cons_ne_nil t ts

theorem natTokens_read {sign : Int} (hs : sign = 1 ∨ sign = -1) {n : Nat} (pos : 0 < n)
    (small : n < 10 * Kind.thousandTo 6) (inRange : InRange (sign * n)) {rest : List Token}
    (ends : EndsCardinal rest) :
    yield (groups sign 0 none ⟨tokensFrom n 6 ++ rest, none⟩) =
      .ok (sign * n, standing (tokensFrom n 6) rest) := by
  have large : Kind.thousandTo 7 = 1000 * Kind.thousandTo 6 := rfl
  have whole : n % Kind.thousandTo 7 = n := Nat.mod_eq_of_lt (by omega)
  have top : n / Kind.thousandTo 6 % 1000 ≤ 9 := by
    have quotient : n / Kind.thousandTo 6 < 10 := Nat.div_lt_of_lt_mul (by omega)
    rw [Nat.mod_eq_of_lt (by omega)]
    omega
  have inRange' : InRange (sign * (0 + n % Kind.thousandTo 7 : Nat)) := by
    rw [whole, Nat.zero_add]
    exact inRange
  have higher : ∀ l, none = some l → Kind.thousandTo 6 < l := nofun
  have read := groups_tokens hs ends (by rw [whole]; exact pos) inRange' higher (.inr ⟨rfl, top⟩)
  rw [whole, Nat.zero_add] at read
  simpa using read

/-- The reader of cardinals comes from the tokens of a number of the range to the number. -/
theorem read_tokens {n : Int} (h : InRange n) {rest : List Token} (ends : EndsCardinal rest) :
    yield (read ⟨tokens n ++ rest, none⟩) = .ok (n, standing (tokens n) rest) := by
  rw [yield_read]
  unfold tokens
  by_cases zero : n = 0
  · subst zero
    rfl
  · rw [if_neg zero]
    have pos : 0 < n.natAbs := by omega
    have small := natAbs_lt h
    have whole : 0 < n.natAbs % Kind.thousandTo 7 := by
      rw [natAbs_mod h]
      exact pos
    obtain ⟨ne, starts⟩ := tokensFrom_starts whole rest
    by_cases negative : n < 0
    · rw [if_pos negative]
      have value : -1 * (n.natAbs : Int) = n := by omega
      have read := natTokens_read (.inr rfl) pos small (by rw [value]; exact h) ends
      rw [value] at read
      show (Cursor.moved _ >>= _) = _
      rw [List.cons_append, moved_cons, ok_bind, read, standing_cons ne]
    · rw [if_neg negative]
      have value : 1 * (n.natAbs : Int) = n := by omega
      have read := natTokens_read (.inl rfl) pos small (by rw [value]; exact h) ends
      rw [value] at read
      split
      · next e =>
        have e : kindAt (tokensFrom n.natAbs 6 ++ rest) = _ := e
        rw [e] at starts
        cases starts
      · next e =>
        have e : kindAt (tokensFrom n.natAbs 6 ++ rest) = _ := e
        rw [e] at starts
        cases starts
      · exact read

end Cardinal
end Legalese
