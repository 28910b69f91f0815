import BranchingStory.Decimal.Notation
import BranchingStory.Json.Reader
import BranchingStory.Json.Writer
import Mathlib.Data.List.Basic
/-!
# Numerals as they are written

Every number that a document can hold is written as one numeral, which the reader takes in from its
first character to its last. A whole number comes back as itself; what a double comes back as is
`Json.reread?`, for most doubles the double itself.
-/

namespace BranchingStory.Json

namespace Numeral

/-- The numeral that a text is, if all of the text belongs to one. -/
def ofText? : List Char → Option Numeral
  | [] => none
  | c :: rest => (start? c).bind fun n => rest.foldlM push? n

/-! ## Phases -/

/-- A text that leads every numeral in one phase to the other phase. -/
def Leads (p : Phase) (text : List Char) (q : Phase) : Prop :=
  ∀ n : Numeral, n.phase = p → ∃ m, text.foldlM push? n = some m ∧ m.phase = q

namespace Leads

theorem nil (p : Phase) : Leads p [] p := fun n h => ⟨n, rfl, h⟩

theorem append {p q r : Phase} {a b : List Char} (ha : Leads p a q) (hb : Leads q b r) :
    Leads p (a ++ b) r := by
  intro n hn
  obtain ⟨m, hm, hq⟩ := ha n hn
  obtain ⟨k, hk, hr⟩ := hb m hq
  exact ⟨k, by simp [List.foldlM_append, hm, hk], hr⟩

theorem single {p q : Phase} {c : Char}
    (h : ∀ n : Numeral, n.phase = p → ∃ m, n.push? c = some m ∧ m.phase = q) :
    Leads p [c] q := by
  intro n hn
  obtain ⟨m, hm, hq⟩ := h n hn
  exact ⟨m, by simp [hm], hq⟩

theorem cons {p q r : Phase} {c : Char} {b : List Char} (ha : Leads p [c] q) (hb : Leads q b r) :
    Leads p (c :: b) r := append ha hb

end Leads

@[simp] theorem phase_pushDigit (n : Numeral) (fraction : Bool) (c : Char) :
    (n.pushDigit fraction c).phase = if fraction then .fraction else .whole := by
  simp only [pushDigit]
  split <;> rfl

/-- Digits are no marks, points or signs. -/
theorem ne_of_isDigit {c d : Char} (h : c.isDigit) (hd : d.isDigit = false) : c ≠ d := by
  rintro rfl
  simp [hd] at h

theorem leads_digit {p q : Phase} {c : Char} (hc : c.isDigit)
    (h : (p, q) ∈ [(Phase.whole, Phase.whole), (.point, .fraction), (.fraction, .fraction),
      (.mark, .power), (.powerSign, .power), (.power, .power)]) : Leads p [c] q := by
  have hp : c ≠ '.' := ne_of_isDigit hc (by decide)
  have hplus : c ≠ '+' := ne_of_isDigit hc (by decide)
  have hminus : c ≠ '-' := ne_of_isDigit hc (by decide)
  simp only [List.mem_cons, Prod.mk.injEq, List.not_mem_nil, or_false] at h
  refine Leads.single fun n hn => ?_
  rcases h with ⟨rfl, rfl⟩ | ⟨rfl, rfl⟩ | ⟨rfl, rfl⟩ | ⟨rfl, rfl⟩ | ⟨rfl, rfl⟩ | ⟨rfl, rfl⟩ <;>
    simp [push?, hn, hc, hplus, hminus, pushPower]

/-- A digit of the phase it leads to keeps to that phase, so any number of them do. -/
theorem leads_digits {p : Phase} {ds : List Char} (hd : ∀ c ∈ ds, c.isDigit)
    (h : p ∈ [Phase.whole, .fraction, .power]) : Leads p ds p := by
  induction ds with
  | nil => exact .nil p
  | cons c ds ih =>
    refine Leads.cons (leads_digit (hd c (by simp)) ?_) (ih fun d hd' => hd d (by simp [hd']))
    simp only [List.mem_cons, List.not_mem_nil, or_false] at h
    rcases h with rfl | rfl | rfl <;> decide

theorem leads_fraction {ds : List Char} (hd : ∀ c ∈ ds, c.isDigit) (hne : ds ≠ []) :
    Leads .point ds .fraction := by
  obtain ⟨c, ds, rfl⟩ := List.exists_cons_of_ne_nil hne
  exact .cons (leads_digit (hd c (by simp)) (by decide))
    (leads_digits (fun d hd' => hd d (by simp [hd'])) (by decide))

theorem leads_power {ds : List Char} (hd : ∀ c ∈ ds, c.isDigit) (hne : ds ≠ []) :
    Leads .powerSign ds .power := by
  obtain ⟨c, ds, rfl⟩ := List.exists_cons_of_ne_nil hne
  exact .cons (leads_digit (hd c (by simp)) (by decide))
    (leads_digits (fun d hd' => hd d (by simp [hd'])) (by decide))

theorem leads_zero : Leads .sign ['0'] .zero := .single fun n hn => by simp [push?, hn]

theorem leads_whole {c : Char} {ds : List Char} (hc : c ≠ '0') (hd : ∀ d ∈ c :: ds, d.isDigit) :
    Leads .sign (c :: ds) .whole :=
  .cons (.single fun n hn => by simp [push?, hn, hc, hd c (by simp)])
    (leads_digits (fun d hd' => hd d (by simp [hd'])) (by decide))

theorem leads_point {p : Phase} (h : p = .zero ∨ p = .whole) : Leads p ['.'] .point := by
  refine .single fun n hn => ?_
  rcases h with rfl | rfl <;> simp [push?, hn, pushPoint]

theorem leads_mark {p : Phase} (h : p = .whole ∨ p = .fraction) : Leads p ['e'] .mark := by
  refine .single fun n hn => ?_
  rcases h with rfl | rfl <;> simp [push?, hn]

theorem leads_powerSign {c : Char} (h : c = '+' ∨ c = '-') : Leads .mark [c] .powerSign := by
  refine .single fun n hn => ?_
  rcases h with rfl | rfl <;> simp [push?, hn]

/-! ## Whole texts -/

/-- The numeral before its first digit. -/
def signed (negative : Bool) : Numeral := { phase := .sign, negative }

theorem ofText?_minus (text : List Char) :
    ofText? ('-' :: text) = text.foldlM push? (signed true) := by
  simp [ofText?, start?, signed]

/-- Without a sign a numeral starts as if a sign had been read. -/
theorem ofText?_digit {c : Char} (hc : c.isDigit) (text : List Char) :
    ofText? (c :: text) = (c :: text).foldlM push? (signed false) := by
  have hm : c ≠ '-' := ne_of_isDigit hc (by decide)
  have hstart : start? c = (signed false).push? c := by
    have hlt : appendDigit 0 c < UInt64.size := by
      have : c.toNat ≤ '9'.toNat := by simp [Char.isDigit] at hc; exact hc.2
      simp only [appendDigit, UInt64.size]
      have : '9'.toNat = 57 := rfl
      omega
    by_cases h0 : c = '0'
    · simp [start?, push?, signed, h0]
    · simp [start?, push?, signed, hm, h0, hc, pushDigit, Nat.not_le.2 hlt]
  simp [ofText?, hstart]

/-- Nothing but a digit leads on from a sign. -/
theorem Leads.isDigit_head {text : List Char} {q : Phase} (h : Leads .sign text q)
    (hq : q ≠ .sign) : ∃ c rest, text = c :: rest ∧ c.isDigit := by
  obtain ⟨m, hm, rfl⟩ := h (signed false) rfl
  cases text with
  | nil =>
    obtain rfl : signed false = m := by simpa using hm
    exact absurd rfl hq
  | cons c rest =>
    refine ⟨c, rest, rfl, ?_⟩
    by_contra hc
    have h0 : c ≠ '0' := by rintro rfl; exact hc (by decide)
    simp [push?, signed, h0, hc] at hm

theorem ofText?_of_leads {text : List Char} {q : Phase} (h : Leads .sign text q) (hq : q ≠ .sign) :
    ∃ n, ofText? text = some n ∧ n.phase = q := by
  obtain ⟨c, rest, rfl, hc⟩ := h.isDigit_head hq
  rw [ofText?_digit hc]
  exact h _ rfl

theorem ofText?_minus_of_leads {text : List Char} {q : Phase} (h : Leads .sign text q) :
    ∃ n, ofText? ('-' :: text) = some n ∧ n.phase = q := by
  rw [ofText?_minus]
  exact h _ rfl

end Numeral

/-! ## Digits -/

theorem isDigit_of_mem_toDigits {n : Nat} : ∀ c ∈ Nat.toDigits 10 n, c.isDigit :=
  fun _ hc => Nat.isDigit_of_mem_toDigits (by decide) (by decide) hc

/-- A positive number has no leading zero. -/
theorem toDigits_eq_cons {n : Nat} (h : 0 < n) :
    ∃ c ds, Nat.toDigits 10 n = c :: ds ∧ c ≠ '0' := by
  induction n using Nat.strongRecOn with
  | _ n ih =>
    rcases Nat.lt_or_ge n 10 with hlt | hge
    · refine ⟨n.digitChar, [], Nat.toDigits_of_lt_base hlt, ?_⟩
      have : ∀ k < 10, 0 < k → k.digitChar ≠ '0' := by decide
      exact this n hlt h
    · obtain ⟨c, ds, hcds, hc⟩ := ih (n / 10) (by omega) (by omega)
      exact ⟨c, ds ++ [(n % 10).digitChar],
        by rw [Nat.toDigits_of_base_le (by decide) hge, hcds, List.cons_append], hc⟩

/-- More digits make no number smaller. -/
theorem le_ofDigitChars (ds : List Char) (m : Nat) : m ≤ Nat.ofDigitChars 10 ds m := by
  rw [Nat.ofDigitChars_eq_ofDigitChars_zero]
  calc m ≤ 10 ^ ds.length * m := Nat.le_mul_of_pos_left _ (Nat.pow_pos (by decide))
    _ ≤ _ := Nat.le_add_right _ _

namespace Numeral

/-- Digits before the point are all kept as long as 64 bits hold the number. -/
theorem foldlM_whole {ds : List Char} (hd : ∀ c ∈ ds, c.isDigit) {n : Numeral}
    (hp : n.phase = .whole) (hfull : n.full = false)
    (hlt : Nat.ofDigitChars 10 ds n.digits < UInt64.size) :
    ds.foldlM push? n = some { n with digits := Nat.ofDigitChars 10 ds n.digits } := by
  induction ds generalizing n with
  | nil => simp
  | cons c ds ih =>
    rw [Nat.ofDigitChars_cons] at hlt
    have hc : appendDigit n.digits c < UInt64.size :=
      Nat.lt_of_le_of_lt (le_ofDigitChars ds _) hlt
    have hstep : n.push? c = some { n with digits := appendDigit n.digits c } := by
      simp [push?, hp, hd c (by simp), pushDigit, hfull, Nat.not_le.2 hc]
    rw [List.foldlM_cons, hstep, Option.bind_eq_bind, Option.bind_some]
    exact (ih (n := { n with digits := appendDigit n.digits c }) (fun d hd' => hd d (by simp [hd']))
      hp hfull hlt).trans (by simp [appendDigit, Nat.ofDigitChars_cons])

theorem foldlM_toDigits {n : Nat} (h : n < UInt64.size) (negative : Bool) :
    (Nat.toDigits 10 n).foldlM push? (signed negative) =
      some { signed negative with phase := if n = 0 then .zero else .whole, digits := n } := by
  rcases Nat.eq_zero_or_pos n with rfl | hpos
  · simp [signed, push?]
  · obtain ⟨c, ds, hcds, hc⟩ := toDigits_eq_cons hpos
    have hdigits : ∀ d ∈ c :: ds, d.isDigit := hcds ▸ isDigit_of_mem_toDigits
    have hvalue : Nat.ofDigitChars 10 ds (appendDigit 0 c) = n := by
      rw [appendDigit, ← Nat.ofDigitChars_cons, ← hcds]
      exact Nat.ofDigitChars_ten_toDigits
    have hlt : appendDigit 0 c < UInt64.size :=
      Nat.lt_of_le_of_lt (le_ofDigitChars ds _) (hvalue ▸ h)
    have hstep : (signed negative).push? c =
        some { signed negative with phase := .whole, digits := appendDigit 0 c } := by
      simp [signed, push?, hc, hdigits c (by simp), pushDigit, Nat.not_le.2 hlt]
    rw [hcds, List.foldlM_cons, hstep, Option.bind_eq_bind, Option.bind_some,
      foldlM_whole (fun d hd => hdigits d (by simp [hd])) rfl rfl (hvalue ▸ h)]
    simp [hvalue, Nat.pos_iff_ne_zero.1 hpos]

/-- The value of a whole numeral in the range of 64 bits is an integer, except a negative zero. -/
theorem toJson?_of_isWhole {m : Numeral} {n : Int} (hwhole : m.isWhole)
    (hn : (if m.negative then -(m.digits : Int) else m.digits) = n)
    (hlow : Int64.minValue.toInt ≤ n) (hhigh : n < UInt64.size)
    (hzero : m.negative → m.digits ≠ 0) : m.toJson? = some (.integer n) := by
  unfold toJson?
  simp only [hn]
  exact if_pos ⟨hwhole, ⟨hlow, hhigh⟩, fun h => hzero h.1 h.2⟩

/-- A whole number in the range of 64 bits, signed or not, comes back as itself. -/
theorem ofText?_integerText {n : Int} (hlow : Int64.minValue.toInt ≤ n) (hhigh : n < UInt64.size) :
    ∃ m, ofText? (integerText n) = some m ∧ m.isComplete ∧ m.toJson? = some (.integer n) := by
  have hlt : n.natAbs < UInt64.size := by
    have hmin : Int64.minValue.toInt = -9223372036854775808 := by decide
    rw [hmin] at hlow
    simp only [UInt64.size] at hhigh ⊢
    omega
  by_cases hneg : n < 0
  · have hne : n.natAbs ≠ 0 := by omega
    have habs : -(n.natAbs : Int) = n := by omega
    rw [integerText, if_pos hneg, ofText?_minus, foldlM_toDigits hlt]
    refine ⟨_, rfl, by simp [isComplete, hne], toJson?_of_isWhole ?_ habs hlow hhigh fun _ => hne⟩
    simp [isWhole, signed, hne]
  · have habs : (n.natAbs : Int) = n := by omega
    obtain ⟨c, ds, hcds⟩ := List.exists_cons_of_ne_nil (@Nat.toDigits_ne_nil n.natAbs 10)
    have hc : c.isDigit := isDigit_of_mem_toDigits c (by rw [hcds]; simp)
    rw [integerText, if_neg hneg, hcds, ofText?_digit hc, ← hcds, foldlM_toDigits hlt]
    refine ⟨_, rfl, ?_, toJson?_of_isWhole ?_ habs hlow hhigh nofun⟩
    · by_cases h0 : n.natAbs = 0 <;> simp [isComplete, h0]
    · by_cases h0 : n.natAbs = 0 <;> simp [isWhole, signed, h0]

end Numeral

end BranchingStory.Json

namespace BranchingStory.Decimal

/-! ## Doubles -/

theorem pow_pos (b n : Nat) (h : 0 < b) : 0 < Nat.pow b n := Nat.pow_pos h

/-- No positive double is nearest to zero on any grid whose zero does not round to it. -/
theorem digits_pos_of_onGrid? {i : Interval} {tie : Tie} {place : Int} {digits : Nat}
    (hlow : 0 < i.low) (h : i.onGrid? tie place = some digits) : 0 < digits := by
  have hscale : 0 < i.low * Nat.pow 10 (-place).toNat :=
    Nat.mul_pos hlow (pow_pos 10 _ (by decide))
  simp only [Interval.onGrid?] at h
  generalize i.value * Nat.pow 10 (-place).toNat / (i.den * Nat.pow 10 place.toNat) = c at h
  generalize i.den * Nat.pow 10 place.toNat = unit at h
  have hc (hdown : i.low * Nat.pow 10 (-place).toNat < c * unit ∨
      (i.closed ∧ i.low * Nat.pow 10 (-place).toNat = c * unit)) : 0 < c := by
    rcases Nat.eq_zero_or_pos c with rfl | hpos
    · simp only [Nat.zero_mul] at hdown
      omega
    · exact hpos
  split at h
  · rename_i hboth
    have := hc hboth.1
    obtain rfl := Option.some.inj h
    split <;> omega
  · split at h
    · rename_i hdown
      exact Option.some.inj h ▸ hc hdown
    · split at h
      · exact Option.some.inj h ▸ Nat.succ_pos c
      · cases h

theorem low_pos {mantissa : Nat} (h : 0 < mantissa) (exponent : Int) :
    0 < (interval mantissa exponent).low := by
  have hpow := pow_pos 2 (exponent - 2).toNat (by decide)
  simp only [interval]
  refine Nat.mul_pos ?_ hpow
  split <;> omega

/-- The shortest decimal of a positive double is positive. -/
theorem digits_shortest_pos {mantissa : Nat} (h : 0 < mantissa) (tie : Tie) (exponent : Int) :
    0 < (shortest tie mantissa exponent).digits := by
  simp only [shortest]
  set i := interval mantissa exponent
  cases hfound : (List.range 17).findSome? fun n : Nat =>
      (i.onGrid? tie (places i.value i.den - n - 1)).map fun digits =>
        if digits = Nat.pow 10 (n + 1) then (⟨1, places i.value i.den⟩ : Decimal)
        else ⟨digits, places i.value i.den - n - 1⟩ with
  | none =>
    simp only [Option.getD_none, exact]
    split
    · exact Nat.mul_pos h (pow_pos 2 _ (by decide))
    · exact Nat.mul_pos h (pow_pos 5 _ (by decide))
  | some d =>
    obtain ⟨n, -, hn⟩ := List.exists_of_findSome?_eq_some hfound
    obtain ⟨digits, hdigits, rfl⟩ := Option.map_eq_some_iff.1 hn
    have hpos := digits_pos_of_onGrid? (low_pos h exponent) hdigits
    simp only [Option.getD_some]
    split
    · exact Nat.one_pos
    · exact hpos

open Json Json.Numeral

/-- Digits, a point and more digits. -/
theorem leads_positional {d : Decimal} (h : 0 < d.digits) :
    Leads .sign (d.positional ['.', '0']) .fraction := by
  obtain ⟨c, ds, hcds, hc⟩ := toDigits_eq_cons h
  have hd : ∀ x ∈ c :: ds, x.isDigit := hcds ▸ isDigit_of_mem_toDigits
  have hzeros : ∀ n, ∀ x ∈ List.replicate n '0', x.isDigit := by
    intro n x hx
    rw [List.eq_of_mem_replicate hx]
    decide
  simp only [positional, hcds]
  split
  · refine Leads.append (q := .whole) ?_ (Leads.cons (leads_point (.inr rfl)) ?_)
    · exact Leads.append (leads_whole hc hd) (leads_digits (hzeros _) (by decide))
    · exact leads_fraction (by simp) (by simp)
  · split
    · rename_i hneg hleft
      obtain ⟨k, hk⟩ : ∃ k, ((c :: ds).length + d.exponent).toNat = k + 1 :=
        ⟨((c :: ds).length + d.exponent).toNat - 1, by omega⟩
      have hlen : k < ds.length := by simp only [List.length_cons] at hk hleft; omega
      rw [hk, List.take_succ_cons, List.drop_succ_cons]
      refine Leads.append (leads_whole hc ?_) (Leads.cons (leads_point (.inr rfl)) ?_)
      · intro x hx
        rcases List.mem_cons.1 hx with rfl | hx
        · exact hd _ (by simp)
        · exact hd x (List.mem_cons_of_mem _ (List.mem_of_mem_take hx))
      · refine leads_fraction (fun x hx => hd x ?_) (by simp [List.drop_eq_nil_iff]; omega)
        exact List.mem_cons_of_mem _ (List.mem_of_mem_drop hx)
    · refine Leads.cons leads_zero (Leads.cons (leads_point (.inl rfl)) ?_)
      refine leads_fraction (fun x hx => ?_) (by simp)
      rcases List.mem_append.1 hx with hx | hx
      · exact hzeros _ x hx
      · exact hd x hx

/-- Digits, maybe with a point after the first, and an exponent with its sign. -/
theorem leads_scientific {d : Decimal} (h : 0 < d.digits) : Leads .sign d.scientific .power := by
  obtain ⟨c, ds, hcds, hc⟩ := toDigits_eq_cons h
  have hd : ∀ x ∈ c :: ds, x.isDigit := hcds ▸ isDigit_of_mem_toDigits
  have hpower (negative : Prop) [Decidable negative] (n : Nat) :
      Leads .mark ((if negative then '-' else '+') :: Nat.toDigits 10 n) .power :=
    Leads.cons (leads_powerSign (by split <;> simp))
      (leads_power isDigit_of_mem_toDigits Nat.toDigits_ne_nil)
  simp only [scientific, hcds, List.take_succ_cons, List.take_zero, List.drop_succ_cons,
    List.drop_zero]
  have hfirst : Leads .sign [c] .whole := leads_whole hc (by simpa using hd c (by simp))
  split
  · rename_i hlen
    obtain rfl : ds = [] := by simpa using hlen
    exact Leads.append hfirst (Leads.cons (leads_mark (.inl rfl)) (hpower _ _))
  · rename_i hlen
    have hne : ds ≠ [] := by
      rintro rfl
      simp at hlen
    have hrest : Leads .point ds .fraction := leads_fraction (fun x hx => hd x (by simp [hx])) hne
    exact Leads.append (Leads.append (Leads.append hfirst (leads_point (.inr rfl))) hrest)
      (Leads.cons (leads_mark (.inr rfl)) (hpower _ _))

end BranchingStory.Decimal

namespace BranchingStory.Json

open Numeral

/-- A finite double is written as a numeral with a point or an exponent. -/
theorem ofText?_documentNumber? {x : Float} {text : List Char} (h : documentNumber? x = some text) :
    ∃ n, ofText? text = some n ∧ (n.phase = .fraction ∨ n.phase = .power) := by
  obtain ⟨b, -, rfl⟩ := Option.map_eq_some_iff.1 h
  obtain ⟨q, hq, hleads⟩ : ∃ q, (q = .fraction ∨ q = .power) ∧
      Leads .sign (if b.mantissa = 0 then ['0', '.', '0']
        else (Decimal.shortest .toEven b.mantissa b.exponent).document) q := by
    split
    · exact ⟨.fraction, .inl rfl, leads_zero.append ((leads_point (.inl rfl)).append
        (leads_fraction (by simp) (by simp)))⟩
    · rename_i hne
      have hpos := Decimal.digits_shortest_pos (Nat.pos_of_ne_zero hne) .toEven b.exponent
      simp only [Decimal.document]
      split
      · exact ⟨.fraction, .inl rfl, Decimal.leads_positional hpos⟩
      · exact ⟨.power, .inr rfl, Decimal.leads_scientific hpos⟩
  by_cases hneg : b.negative
  · obtain ⟨n, hn, hphase⟩ := ofText?_minus_of_leads hleads
    exact ⟨n, by simpa [hneg] using hn, hphase ▸ hq⟩
  · obtain ⟨n, hn, hphase⟩ := ofText?_of_leads hleads (by rintro rfl; simp at hq)
    exact ⟨n, by simpa [hneg] using hn, hphase ▸ hq⟩

/-- What a double is read back as; `none` for one that is written as a numeral too large to be
read. What is no finite double is written, and read, as `null`. -/
def reread? (x : Float) : Option Json :=
  match documentNumber? x with
  | none => some .null
  | some numeral => (ofText? numeral).bind toJson?

/-- A finite double is read back as a double, if it is read back at all. -/
theorem reread?_of_finite {x : Float} {numeral : List Char}
    (h : documentNumber? x = some numeral) {j : Json} (hj : reread? x = some j) :
    ∃ y, j = .real y := by
  obtain ⟨n, hn, hphase⟩ := ofText?_documentNumber? h
  have hwhole : n.isWhole = false := by rcases hphase with h | h <;> simp [isWhole, h]
  simp only [reread?, h, hn, Option.bind_some, toJson?, hwhole, Bool.false_eq_true, false_and,
    if_false, Option.map_eq_some_iff] at hj
  obtain ⟨y, -, rfl⟩ := hj
  exact ⟨y, rfl⟩

theorem reread?_eq_null_or_real {x : Float} {j : Json} (h : reread? x = some j) :
    j = .null ∨ ∃ y, j = .real y := by
  cases hx : documentNumber? x with
  | none =>
    simp only [reread?, hx, Option.some.injEq] at h
    exact .inl h.symm
  | some numeral => exact .inr (reread?_of_finite hx h)

end BranchingStory.Json
