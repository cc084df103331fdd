import Mathlib.Tactic.IntervalCases
import CallAudit.Json.Token

/-!
# Scanning what was spelled

The automaton that splits a text into tokens gives back each token from its spelling. A text ends
with its quote and a word with its last letter, but the end of a number shows only in what follows
it: behind a number the automaton still waits for further digits. A state therefore yields the
tokens that it would have if the number, if there is one, were over.

## Main definitions

* `Json.Scan.Yields`: the tokens of a state, with the number that is being read.
* `Json.Token.Legible`, `Json.Token.Continuing`: tokens whose spelling is scanned back, between two
  tokens or also behind a number.

## Main statements

* `Json.Scan.foldl_textSpelling`: scanning a text.
* `Json.Scan.foldl_integerText`: scanning an integer.
* `Json.Scan.Yields.foldl_mark`, `Json.Scan.Yields.finish`: the two ways in which a number ends.
* `Json.Token.Legible.scan`: scanning the spelling of tokens that do not run into one another.
-/

namespace CallAudit

namespace Numeral

theorem collect_concat {s m d : Nat} {ds : List Nat} (h : collect s ds = (m, []))
    (hfits : m * 10 + d < significandBound) : collect s (ds ++ [d]) = (m * 10 + d, []) := by
  induction ds generalizing s with
  | nil =>
    obtain rfl : s = m := congrArg Prod.fst h
    rw [List.nil_append, collect, if_pos hfits, collect]
  | cons e ds ih =>
    rw [collect] at h
    by_cases he : s * 10 + e < significandBound
    · rw [if_pos he] at h
      rw [List.cons_append, collect, if_pos he, ih h]
    · rw [if_neg he] at h
      exact absurd (congrArg Prod.snd h) (List.cons_ne_nil e ds)

end Numeral

namespace Json

theorem digitValue_digitChar {d : Nat} (h : d < 10) : digitValue (Nat.digitChar d) = d := by
  revert d
  decide

theorem isDigit_digitChar {d : Nat} (h : d < 10) : (Nat.digitChar d).isDigit = true := by
  revert d
  decide

theorem hexValue?_digitChar {d : Nat} (h : d < 16) : hexValue? (Nat.digitChar d) = some d := by
  revert d
  decide

/-- The digits of a number that fits into the significand are collected into the number. -/
theorem collect_toDigits {n : Nat} (h : n < Numeral.significandBound) :
    Numeral.collect 0 ((Nat.toDigits 10 n).map digitValue) = (n, []) := by
  induction n using Nat.strongRecOn with
  | ind n ih =>
    by_cases hn : n < 10
    · have hfits : 0 * 10 + n < Numeral.significandBound := by omega
      rw [Nat.toDigits_of_lt_base hn, List.map_singleton, digitValue_digitChar hn,
        Numeral.collect, if_pos hfits, Numeral.collect, Nat.zero_mul, Nat.zero_add]
    · have hvalue : n / 10 * 10 + n % 10 = n := by omega
      have hinit := ih (n / 10) (by omega) (by omega)
      rw [Nat.toDigits_of_base_le (by decide) (by omega), List.map_append, List.map_singleton,
        digitValue_digitChar (by omega), Numeral.collect_concat hinit (by omega), hvalue]

namespace Scan

variable {ts : List Token}

/-- The state has these tokens, the last one first, if a number at its end is over. -/
inductive Yields : Scan → List Token → Prop
  | between (ts : List Token) : Yields ⟨ts, .between⟩ ts
  | number (ts : List Token) {phase : Phase} (n : Numeral)
      (hphase : phase = .leadingZero ∨ phase = .whole) :
      Yields ⟨ts, .number phase n⟩ (.number (uprightNumeral n).value? :: ts)

theorem Yields.finish {s : Scan} (h : s.Yields ts) : s.finish = ts.reverse := by
  cases h with
  | between => rfl
  | number ts n hphase =>
    rcases hphase with rfl | rfl
    · rfl
    · rfl

/-- A comma or the end of a container ends a number, and is a token by itself. -/
theorem Yields.foldl_mark {s : Scan} (h : s.Yields ts) {token : Token}
    (hmark : token ∈ [.comma, .closeArray, .closeObject]) :
    token.spelling.foldl step s = ⟨token :: ts, .between⟩ := by
  simp only [List.mem_cons, List.not_mem_nil, or_false] at hmark
  cases h with
  | between => rcases hmark with rfl | rfl | rfl <;> rfl
  | number ts n hphase => rcases hphase with rfl | rfl <;> rcases hmark with rfl | rfl | rfl <;> rfl

/-- A hexadecimal digit of an escape. -/
theorem step_hex (t : OpenText) {code d : Nat} (hd : d < 16) (due : Nat) :
    step ⟨ts, .text { t with escape := .hex due code }⟩ (Nat.digitChar d) =
      if due ≤ 1 then ⟨ts, .text ({ t with escape := .hex due code }.pushUnit (code * 16 + d))⟩
      else ⟨ts, .text { t with escape := .hex (due - 1) (code * 16 + d) }⟩ := by
  simp only [step, stepText, hexValue?_digitChar hd, turn]

theorem foldl_escapeChar (cs : List Char) (c : Char) :
    (Token.escapeChar c).foldl step ⟨ts, .text { chars := cs }⟩ =
      ⟨ts, .text { chars := c :: cs }⟩ := by
  rw [Token.escapeChar]
  -- Seven characters have an escape of their own, which is read letter by letter.
  iterate 7
    split
    · subst c
      rfl
  split
  · rename_i hlow
    -- The other characters below the space are written as four digits, of which two are zeros.
    have hstart (d e : Char) : ['\\', 'u', '0', '0', d, e].foldl step ⟨ts, .text { chars := cs }⟩ =
        [d, e].foldl step ⟨ts, .text { chars := cs, escape := .hex 2 0 }⟩ := rfl
    have hcode : (0 * 16 + c.toNat / 16) * 16 + c.toNat % 16 = c.toNat := by omega
    have hunit : OpenText.pushUnit
        { chars := cs, escape := .hex 1 (0 * 16 + c.toNat / 16) } c.toNat = { chars := c :: cs } := by
      rw [OpenText.pushUnit, if_neg (by omega), if_neg (by omega), Char.ofNat_toNat]
      rfl
    rw [hstart, List.foldl_cons, step_hex { chars := cs } (by omega), if_neg (by decide),
      List.foldl_cons, step_hex { chars := cs } (by omega), if_pos (by decide), hcode, hunit,
      List.foldl_nil]
  · rename_i hquote hslash _ _ _ _ _ hlow
    simp only [List.foldl_cons, List.foldl_nil, step, stepText, if_neg hquote, if_neg hslash,
      if_neg hlow, turn, OpenText.push, Option.isNone_none, Bool.and_true]

theorem foldl_flatMap_escapeChar (cs ds : List Char) :
    (cs.flatMap Token.escapeChar).foldl step ⟨ts, .text { chars := ds }⟩ =
      ⟨ts, .text { chars := cs.reverse ++ ds }⟩ := by
  induction cs generalizing ds with
  | nil => rfl
  | cons c cs ih =>
    rw [List.flatMap_cons, List.foldl_append, foldl_escapeChar, ih, List.reverse_cons,
      List.append_assoc, List.singleton_append]

theorem foldl_textSpelling (s : String) :
    (Token.textSpelling s).foldl step ⟨ts, .between⟩ = ⟨.text (some s) :: ts, .between⟩ := by
  have hopen : step ⟨ts, .between⟩ '"' = ⟨ts, .text { chars := [] }⟩ := rfl
  have hclose (cs : List Char) :
      step ⟨ts, .text { chars := cs }⟩ '"' =
        ⟨.text (some (String.ofList cs.reverse)) :: ts, .between⟩ := rfl
  rw [Token.textSpelling, List.cons_append, List.foldl_cons, hopen, List.foldl_append,
    foldl_flatMap_escapeChar, List.foldl_cons, hclose, List.append_nil, List.reverse_reverse,
    String.ofList_toList, List.foldl_nil]

/-- The digits of a positive number are read into a numeral, whatever state stands before the first
of them, if only that state takes the first digit as the whole part. -/
theorem foldl_toDigits {s : Scan} {m : Numeral} {n : Nat} (hn : 0 < n)
    (hfirst : ∀ d, 0 < d → d < 10 →
      s.step (Nat.digitChar d) = ⟨ts, .number .whole { m with whole := [d] }⟩) :
    (Nat.toDigits 10 n).foldl step s =
      ⟨ts, .number .whole { m with whole := ((Nat.toDigits 10 n).map digitValue).reverse }⟩ := by
  -- The automaton reads from the left, so the induction takes away the last digit.
  induction n using Nat.strongRecOn with
  | ind n ih =>
    by_cases hlt : n < 10
    · rw [Nat.toDigits_of_lt_base hlt, List.foldl_cons, hfirst n hn hlt, List.foldl_nil,
        List.map_singleton, digitValue_digitChar hlt, List.reverse_singleton]
    · have hmod : n % 10 < 10 := Nat.mod_lt n (by decide)
      rw [Nat.toDigits_of_base_le (by decide) (Nat.le_of_not_lt hlt), List.foldl_append,
        ih (n / 10) (by omega) (by omega), List.map_append, List.map_singleton,
        List.reverse_append, List.reverse_singleton, List.singleton_append, List.foldl_cons,
        List.foldl_nil]
      simp only [step, stepNumber, isDigit_digitChar hmod, if_true, turn]

end Scan

theorem value?_toDigits {n : Nat} {negative : Bool} (hfits : n < Numeral.significandBound)
    (hnegative : negative = true → 0 < n ∧ n ≤ Nat.pow 2 63) :
    Numeral.value? { negative, whole := (Nat.toDigits 10 n).map digitValue } =
      some (.integer (if negative then -n else n)) := by
  have hcond : ¬ (negative = true ∧ (n = 0 ∨ Nat.pow 2 63 < n)) := by
    rintro ⟨hneg, hn⟩
    have := hnegative hneg
    omega
  simp only [Numeral.value?, collect_toDigits hfits, true_and]
  rw [if_pos hcond]

namespace Scan

variable {ts : List Token}

theorem step_between_digit {d : Nat} (hpos : 0 < d) (hd : d < 10) :
    step ⟨ts, .between⟩ (Nat.digitChar d) = ⟨ts, .number .whole { whole := [d] }⟩ := by
  interval_cases d <;> rfl

theorem step_sign_digit {d : Nat} (hpos : 0 < d) (hd : d < 10) :
    step ⟨ts, .number .sign { negative := true }⟩ (Nat.digitChar d) =
      ⟨ts, .number .whole { negative := true, whole := [d] }⟩ := by
  interval_cases d <;> rfl

theorem yields_toDigits {s : Scan} (negative : Bool) {n : Nat} (hn : 0 < n)
    (hfits : n < Numeral.significandBound) (hnegative : negative = true → n ≤ Nat.pow 2 63)
    (hfirst : ∀ d, 0 < d → d < 10 →
      s.step (Nat.digitChar d) = ⟨ts, .number .whole { negative, whole := [d] }⟩) :
    ((Nat.toDigits 10 n).foldl step s).Yields
      (.number (some (.integer (if negative then -n else n))) :: ts) := by
  have hupright : uprightNumeral
      { negative, whole := ((Nat.toDigits 10 n).map digitValue).reverse } =
        { negative, whole := (Nat.toDigits 10 n).map digitValue } := by
    rw [uprightNumeral, List.reverse_reverse, List.reverse_nil]
  rw [foldl_toDigits (m := { negative }) hn hfirst,
    ← value?_toDigits hfits fun h => ⟨hn, hnegative h⟩, ← hupright]
  exact Yields.number ts _ (.inr rfl)

theorem foldl_integerText {i : Int} (hlow : -(Nat.pow 2 63 : Nat) ≤ i)
    (hhigh : i < (Numeral.significandBound : Nat)) :
    ((integerText i).foldl step ⟨ts, .between⟩).Yields (.number (some (.integer i)) :: ts) := by
  cases i with
  | ofNat n =>
    by_cases hn : n = 0
    · subst hn
      exact Yields.number ts { whole := [0] } (.inl rfl)
    · exact yields_toDigits false (Nat.pos_of_ne_zero hn) (Int.ofNat_lt.mp hhigh)
        (fun h => absurd h Bool.false_ne_true) fun _ => step_between_digit
  | negSucc n =>
    have hsize : n + 1 ≤ Nat.pow 2 63 := by omega
    have hfits : n + 1 < Numeral.significandBound := Nat.lt_of_le_of_lt hsize (by decide)
    exact yields_toDigits true n.succ_pos hfits (fun _ => hsize)
      fun _ => step_sign_digit

end Scan

namespace Token

open Scan

variable {tokens more : List Token}

/-- Between two tokens, the spelling of these is scanned as just these. -/
def Legible (tokens : List Token) : Prop :=
  ∀ ts, ((tokens.flatMap spelling).foldl step ⟨ts, .between⟩).Yields (tokens.reverse ++ ts)

/-- The spelling of these is scanned as just these also where it ends a number. -/
def Continuing (tokens : List Token) : Prop :=
  ∀ s ts, s.Yields ts → ((tokens.flatMap spelling).foldl step s).Yields (tokens.reverse ++ ts)

theorem Legible.nil : Legible [] := fun ts => Yields.between ts

theorem Continuing.nil : Continuing [] := fun _ _ h => h

theorem Legible.append (h : Legible tokens) (hmore : Continuing more) :
    Legible (tokens ++ more) := by
  intro ts
  rw [List.flatMap_append, List.foldl_append, List.reverse_append, List.append_assoc]
  exact hmore _ _ (h ts)

/-- A token that ends with its own last character does not touch the tokens behind it. -/
theorem Legible.cons {token : Token}
    (hends : ∀ ts, token.spelling.foldl step ⟨ts, .between⟩ = ⟨token :: ts, .between⟩)
    (h : Legible tokens) : Legible (token :: tokens) := by
  intro ts
  rw [List.flatMap_cons, List.foldl_append, hends, List.reverse_cons, List.append_assoc,
    List.singleton_append]
  exact h (token :: ts)

theorem Legible.text (s : String) (h : Legible tokens) : Legible (.text (some s) :: tokens) :=
  h.cons fun _ => foldl_textSpelling s

theorem Continuing.cons {token : Token} (hmark : token ∈ [.comma, .closeArray, .closeObject])
    (h : Legible tokens) : Continuing (token :: tokens) := by
  intro s ts hs
  rw [List.flatMap_cons, List.foldl_append, hs.foldl_mark hmark, List.reverse_cons,
    List.append_assoc, List.singleton_append]
  exact h (token :: ts)

/-- What is legible is scanned as what was spelled. -/
theorem Legible.scan (h : Legible tokens) : Token.scan (tokens.flatMap spelling) = tokens := by
  rw [Token.scan, (h []).finish, List.append_nil, List.reverse_reverse]

end Token

end Json

end CallAudit
