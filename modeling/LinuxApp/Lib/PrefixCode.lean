import Mathlib.Data.Nat.Basic
import Mathlib.Data.List.Basic

/-!
# Prefix codes

`PrefixCode f`: whoever knows where the text `f a` starts knows `a` and where the text
ends. Texts one after the other are then read back in one way only
(`PrefixCode.flatMap_inj`).

Codes are built from parts: a literal before (`quote`), one code after another (`pair`),
alternatives told apart by the character at one place (`tagged`), a decimal number before
a character that is no digit (`field`).
-/

namespace LinuxApp.Lib

def PrefixCode {α χ : Type} (f : α → List χ) : Prop :=
  ∀ ⦃a b : α⦄ ⦃xs ys : List χ⦄, f a ++ xs = f b ++ ys → a = b ∧ xs = ys

namespace PrefixCode

variable {α β χ : Type} {f : α → List χ} {g : β → List χ}

theorem quote (h : PrefixCode f) (lit : List χ) : PrefixCode fun a => lit ++ f a := by
  intro a b xs ys heq
  simp only [List.append_assoc] at heq
  exact h (List.append_cancel_left heq)

theorem pair (hf : PrefixCode f) (hg : PrefixCode g) :
    PrefixCode fun p : α × β => f p.1 ++ g p.2 := by
  rintro ⟨a, b⟩ ⟨a', b'⟩ xs ys heq
  simp only [List.append_assoc] at heq
  obtain ⟨rfl, htail⟩ := hf heq
  obtain ⟨rfl, rfl⟩ := hg htail
  exact ⟨rfl, rfl⟩

/-- A literal after. -/
theorem followed (h : PrefixCode f) (lit : List χ) : PrefixCode fun a => f a ++ lit := by
  intro a b xs ys heq
  simp only [List.append_assoc] at heq
  obtain ⟨rfl, htail⟩ := h heq
  exact ⟨rfl, List.append_cancel_left htail⟩

theorem comap (h : PrefixCode f) {i : β → α} (hi : i.Injective) : PrefixCode fun b => f (i b) := by
  intro a b xs ys heq
  obtain ⟨hab, hxs⟩ := h heq
  exact ⟨hi hab, hxs⟩

/-- Alternatives whose texts differ at place `k`. -/
theorem tagged {τ : Type} (k : Nat) (tag : α → τ) (char : τ → χ) (hc : char.Injective)
    (hk : ∀ a, (f a)[k]? = some (char (tag a)))
    (h : ∀ ⦃a b : α⦄ ⦃xs ys : List χ⦄, tag a = tag b → f a ++ xs = f b ++ ys → a = b ∧ xs = ys) :
    PrefixCode f := by
  intro a b xs ys heq
  have hat : ∀ (c : α) (zs : List χ), (f c ++ zs)[k]? = some (char (tag c)) := by
    intro c zs
    obtain ⟨hlt, -⟩ := List.getElem?_eq_some_iff.mp (hk c)
    rw [List.getElem?_append_left hlt, hk c]
  have hsame : some (char (tag a)) = some (char (tag b)) := by rw [← hat a xs, heq, hat b ys]
  exact h (hc (Option.some.inj hsame)) heq

/-- A sequence of texts is read back in one way. -/
theorem flatMap_inj (h : PrefixCode f) (hne : ∀ a, f a ≠ []) {as bs : List α}
    (heq : as.flatMap f = bs.flatMap f) : as = bs := by
  induction as generalizing bs with
  | nil =>
    cases bs with
    | nil => rfl
    | cons b bs =>
      rw [List.flatMap_nil, List.flatMap_cons] at heq
      exact absurd (List.append_eq_nil_iff.mp heq.symm).1 (hne b)
  | cons a as ih =>
    cases bs with
    | nil =>
      rw [List.flatMap_nil, List.flatMap_cons] at heq
      exact absurd (List.append_eq_nil_iff.mp heq).1 (hne a)
    | cons b bs =>
      rw [List.flatMap_cons, List.flatMap_cons] at heq
      obtain ⟨rfl, htail⟩ := h heq
      rw [ih htail]

end PrefixCode

/-! ## Decimal numbers -/

/-- The characters up to the first that fails `p`. -/
theorem takeWhile_before {χ : Type} {p : χ → Bool} {xs zs : List χ} {c : χ}
    (hxs : ∀ x ∈ xs, p x = true) (hc : p c = false) : (xs ++ c :: zs).takeWhile p = xs := by
  rw [List.takeWhile_append_of_pos hxs, List.takeWhile_cons_of_neg (by simp [hc]),
    List.append_nil]

/-- A number before a unit that does not start with a digit. -/
theorem decimal_prefixCode {c : Char} (hc : c.isDigit = false) (unit : List Char) :
    PrefixCode fun n : Nat => Nat.toDigits 10 n ++ c :: unit := by
  intro m n xs ys heq
  simp only [List.append_assoc, List.cons_append] at heq
  have hdigits : ∀ k : Nat, ∀ d ∈ Nat.toDigits 10 k, d.isDigit = true :=
    fun k d hd => Nat.isDigit_of_mem_toDigits (by omega) (by omega) hd
  have hsame : Nat.toDigits 10 m = Nat.toDigits 10 n := by
    rw [← takeWhile_before (hdigits m) hc, heq, takeWhile_before (hdigits n) hc]
  refine ⟨?_, ?_⟩
  · have hval := congrArg (fun ds => Nat.ofDigitChars 10 ds 0) hsame
    simpa using hval
  · rw [hsame] at heq
    have htail := List.append_cancel_left heq
    exact List.append_cancel_left (List.cons.inj htail).2

/-- A labelled number. -/
theorem PrefixCode.field (label : List Char) {c : Char} (hc : c.isDigit = false)
    (unit : List Char) :
    PrefixCode fun n : Nat => label ++ (Nat.toDigits 10 n ++ c :: unit) :=
  (decimal_prefixCode hc unit).quote label

end LinuxApp.Lib
