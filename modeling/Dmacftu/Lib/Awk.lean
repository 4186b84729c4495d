import Dmacftu.Lib.CText
import Mathlib.Algebra.Order.Field.Rat
import Mathlib.Data.Finset.Image
import Mathlib.Data.Finset.Card
import Mathlib.Data.List.TakeWhile
import Mathlib.Logic.Function.Basic
/-!
# awk

An array is the elements that have been referenced, each under its key, and their values;
referencing an element that is not there creates it. A file is read line by line, and a
line is its fields: what stands between blanks.

`fields_pad` says that what a conversion pads to more than its length is a field of its own,
whatever stands before it.
-/
open Lib.CText

namespace Lib.Awk

/-! ## Arrays -/

structure Arr (K V : Type) [Zero V] where
  keys : List K
  value : K → V
  nodup : keys.Nodup
  absent : ∀ k, k ∉ keys → value k = 0

section

variable {K V : Type} [Zero V]

def Arr.empty : Arr K V := ⟨[], fun _ => 0, List.nodup_nil, fun _ _ => rfl⟩

/-- `length(a)`. -/
def Arr.length (a : Arr K V) : Nat := a.keys.length

variable [DecidableEq K]

/-- A reference to `a[k]`. -/
def Arr.touch (a : Arr K V) (k : K) : Arr K V :=
  if h : k ∈ a.keys then a
  else ⟨a.keys.concat k, a.value, by simpa using List.nodup_append.2 ⟨a.nodup, by simp, by grind⟩, by
    intro j hj
    exact a.absent j fun hmem => hj (by simp [hmem])⟩

@[simp] theorem Arr.touch_value (a : Arr K V) (k : K) : (a.touch k).value = a.value := by
  unfold Arr.touch
  split <;> rfl

@[simp] theorem Arr.mem_touch {a : Arr K V} {j k : K} : j ∈ (a.touch k).keys ↔ j = k ∨ j ∈ a.keys := by
  unfold Arr.touch
  split
  · grind
  · simp [or_comm]

/-- `a[k] = v`. -/
def Arr.set (a : Arr K V) (k : K) (v : V) : Arr K V where
  keys := (a.touch k).keys
  value := Function.update a.value k v
  nodup := (a.touch k).nodup
  absent j hj := by
    simp only [mem_touch, not_or] at hj
    rw [Function.update_of_ne hj.1]
    exact a.absent j hj.2

@[simp] theorem Arr.set_value (a : Arr K V) (k : K) (v : V) : (a.set k v).value = Function.update a.value k v := rfl

@[simp] theorem Arr.mem_set {a : Arr K V} {j k : K} {v : V} : j ∈ (a.set k v).keys ↔ j = k ∨ j ∈ a.keys := mem_touch

/-- As many elements as there are keys in the set. -/
theorem Arr.length_eq {a : Arr K V} {keys : Finset K} (h : ∀ k, k ∈ a.keys ↔ k ∈ keys) : a.length = keys.card := by
  rw [Arr.length, ← List.toFinset_card_of_nodup a.nodup]
  exact congrArg Finset.card (Finset.ext fun k => by simp [h])

end

/-! ## Records and fields -/

def isBlank (c : Char) : Bool := c = ' ' || c = '\t' || c = '\n'

/-- `$1`, `$2`, … -/
def fields (s : List Char) : List (List Char) := (s.splitOnP isBlank).filter fun w => w ≠ []

def field (s : List Char) (n : Nat) : List Char := (fields s)[n - 1]?.getD []

/-- The lines of a file. The last newline is the end of the last one. -/
def records (s : List Char) : List (List Char) :=
  let rs := s.splitOnP fun c => c = '\n'
  if rs.getLast? = some [] then rs.dropLast else rs

theorem fields_blank {c : Char} (h : isBlank c = true) (s : List Char) : fields (c :: s) = fields s := by
  simp [fields, List.splitOnP_cons_eq_if_modifyHead, h]

theorem fields_append {c : Char} (h : isBlank c = true) (s t : List Char) : fields (s ++ c :: t) = fields s ++ fields t := by
  simp [fields, List.splitOnP_append_cons _ _ h]

theorem isBlank_of_graphic {c : Char} (h : 32 < c.toNat) : isBlank c = false := by
  have hne : ∀ d : Char, d.toNat ≤ 32 → c ≠ d := by
    rintro d hd rfl
    omega
  simp [isBlank, hne ' ' (by decide), hne '\t' (by decide), hne '\n' (by decide)]

theorem fields_word {s : List Char} (h : Graphic s) (hne : s ≠ []) : fields s = [s] := by
  rw [fields, List.splitOnP_eq_singleton fun c hc => isBlank_of_graphic (h c hc)]
  simp [hne]

theorem fields_replicate (n : Nat) (s : List Char) : fields (List.replicate n ' ' ++ s) = fields s := by
  induction n with
  | zero => rfl
  | succ n ih =>
    rw [List.replicate_succ, List.cons_append, fields_blank rfl]
    exact ih

theorem fields_append_pad {w : Nat} {s : List Char} (hw : s.length < w) (t u : List Char) :
    fields (t ++ (pad w s ++ u)) = fields t ++ fields (s ++ u) := by
  obtain ⟨k, hk⟩ := Nat.exists_eq_add_of_lt hw
  rw [pad, hk, Nat.add_assoc, Nat.add_sub_cancel_left, List.replicate_succ, List.append_assoc, List.cons_append,
    fields_append rfl, fields_replicate]

theorem fields_pad {w : Nat} {s : List Char} (hw : s.length < w) (hs : Graphic s) (hne : s ≠ []) (t : List Char) :
    fields (t ++ pad w s) = fields t ++ [s] := by
  have h := fields_append_pad hw t []
  rwa [List.append_nil, List.append_nil, fields_word hs hne] at h

theorem splitOnP_lines {ls : List (List Char)} (h : ∀ l ∈ ls, '\n' ∉ l) :
    (ls.flatMap fun l => l ++ ['\n']).splitOnP (fun c => c = '\n') = ls ++ [[]] := by
  induction ls with
  | nil => rfl
  | cons l ls ih =>
    have hl : ∀ c ∈ l, decide (c = '\n') = false := fun c hc =>
      decide_eq_false fun heq => h l List.mem_cons_self (heq ▸ hc)
    rw [List.flatMap_cons, List.append_assoc, List.singleton_append,
      List.splitOnP_append_cons_of_forall_mem hl '\n' (by decide), ih fun l' hl' => h l' (List.mem_cons_of_mem l hl')]
    rfl

theorem records_lines {ls : List (List Char)} (h : ∀ l ∈ ls, '\n' ∉ l) : records (ls.flatMap fun l => l ++ ['\n']) = ls := by
  simp [records, splitOnP_lines h]

/-! ## Numbers -/

/-- The number a text begins with, as far as it is a decimal one. -/
def number (s : List Char) : Nat := Nat.ofDigitChars 10 (s.takeWhile Char.isDigit) 0

theorem number_decimal (n : Nat) : number (decimal n) = n := by
  have hdigit : ∀ c ∈ decimal n, c.isDigit = true := fun c hc => Nat.isDigit_of_mem_toDigits (by decide) (by decide) hc
  rw [number, List.takeWhile_eq_self_iff.2 hdigit]
  exact Nat.ofDigitChars_ten_toDigits

/-- The text of a number that is not negative; `convfmt` is the conversion of what is no
integer. -/
def numberText (convfmt : ℚ → List Char) (q : ℚ) : List Char := if q.den = 1 then decimal q.num.toNat else convfmt q

theorem decimal_inj {m n : Nat} (h : decimal m = decimal n) : m = n := by
  rw [← number_decimal m, h, number_decimal]

end Lib.Awk
