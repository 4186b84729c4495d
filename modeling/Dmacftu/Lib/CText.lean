import Mathlib.Algebra.Ring.Nat
import Mathlib.Data.List.Basic
import Mathlib.Tactic.Common
/-!
# Text in memory

A C string is the characters up to the first `NUL`. `strlen` looks for it and
`append` writes behind it, both inside a mapping of so many bytes from `base` on;
they are `none` where they would leave it.

A memory that holds a text from address 0 on, and `NUL`s behind it, is the `image` of
the text. On such a memory `append` is the `++` of texts (`append_image`), whatever
the mapping begins with.

The second part is the conversions of `printf` that pad numbers to a width.
-/

namespace Lib.CText

def NUL : Char := Char.ofNat 0

abbrev Memory := Nat → Char

/-! ## Strings -/

/-- The memory with these characters from `at_` on. -/
def put (mem : Memory) (at_ : Nat) (s : List Char) : Memory :=
  fun p => if at_ ≤ p then (s[p - at_]?).getD (mem p) else mem p

/-- `strlen(map)`, where `map` is the address `base` of a mapping of `size` bytes. -/
def strlen (mem : Memory) (base size : Nat) : Option Nat := (List.range size).find? fun k => mem (base + k) = NUL

/-- `sprintf(&map[strlen(map)], ...)`, where `s` is what the format comes to. -/
def append (base size : Nat) (mem : Memory) (s : List Char) : Option Memory := do
  let n ← strlen mem base size
  if n + s.length < size then some (put mem (base + n) (s ++ [NUL])) else none

/-- What holds a text and `NUL`s behind it. -/
def image (text : List Char) : Memory := fun p => text[p]?.getD NUL

variable {text s : List Char} {base size : Nat}

theorem image_of_le {p : Nat} (h : text.length ≤ p) : image text p = NUL := by
  rw [image, List.getElem?_eq_none h]
  rfl

theorem image_of_lt {p : Nat} (h : p < text.length) : image text p = text[p] := by
  rw [image, List.getElem?_eq_getElem h]
  rfl

theorem image_ne (h : NUL ∉ text) {p : Nat} (hp : p < text.length) : image text p ≠ NUL := by
  rw [image_of_lt hp]
  exact fun heq => h (heq ▸ List.getElem_mem hp)

theorem image_nil : image [] = fun _ => NUL := rfl

/-- The length of what is behind `base`, if its end is mapped. -/
theorem strlen_image (h : NUL ∉ text) (hbase : base ≤ text.length) :
    strlen (image text) base size = if text.length - base < size then some (text.length - base) else none := by
  unfold strlen
  split
  next hlt =>
    rw [List.find?_range_eq_some]
    refine ⟨decide_eq_true (image_of_le (by omega)), List.mem_range.2 hlt, fun j hj => ?_⟩
    rw [Bool.not_eq_true', decide_eq_false_iff_not]
    exact image_ne h (by omega)
  next hge =>
    rw [List.find?_range_eq_none]
    intro j hj
    rw [Bool.not_eq_true', decide_eq_false_iff_not]
    exact image_ne h (by omega)

/-- Behind the text, more text; the `NUL` that goes with it is there already. -/
theorem put_image (text s : List Char) (k : Nat) :
    put (image text) text.length (s ++ List.replicate k NUL) = image (text ++ s) := by
  funext p
  unfold put image
  split
  next hle =>
    rw [List.getElem?_append_right hle, List.getElem?_append, List.getElem?_eq_none hle]
    split
    next hlt => rw [List.getElem?_eq_getElem hlt]; rfl
    next hge =>
      rw [List.getElem?_eq_none (l := s) (by omega)]
      cases hr : (List.replicate k NUL)[p - text.length - s.length]? with
      | none => rfl
      | some c =>
        rw [List.eq_of_mem_replicate (List.mem_of_getElem? hr)]
        rfl
  next hlt => rw [List.getElem?_append_left (by omega)]

theorem put_nul (p : Nat) : put (fun _ => NUL) p [NUL] = fun _ => NUL := by
  funext q
  unfold put
  split
  · cases q - p <;> rfl
  · rfl

theorem append_image (h : NUL ∉ text) (hbase : base ≤ text.length) (s : List Char) :
    append base size (image text) s =
      if text.length - base + s.length < size then some (image (text ++ s)) else none := by
  unfold append
  rw [strlen_image h hbase]
  by_cases hlt : text.length - base < size
  · rw [if_pos hlt, Option.bind_eq_bind, Option.bind_some, Nat.add_sub_cancel' hbase]
    split
    · exact congrArg some (put_image text s 1)
    · rfl
  · rw [if_neg hlt, if_neg (by omega)]
    rfl

/-- All of the texts are appended exactly if the last of them has room. -/
theorem appends_image : ∀ {ss : List (List Char)} {text : List Char}, NUL ∉ text → (∀ s ∈ ss, NUL ∉ s) →
    base ≤ text.length → ss.foldlM (append base size) (image text) =
      if ss = [] ∨ text.length - base + ss.flatten.length < size then some (image (text ++ ss.flatten)) else none := by
  intro ss
  induction ss with
  | nil =>
    intro text _ _ _
    rw [if_pos (.inl rfl), List.flatten_nil, List.append_nil]
    rfl
  | cons s ss ih =>
    intro text h hss hbase
    have hs : NUL ∉ text ++ s := fun hmem =>
      (List.mem_append.1 hmem).elim h (hss s List.mem_cons_self)
    have hrest := ih hs (fun s' hs' => hss s' (List.mem_cons_of_mem _ hs'))
      (Nat.le_trans hbase (by rw [List.length_append]; omega))
    rw [List.foldlM_cons, append_image h hbase, List.flatten_cons, ← List.append_assoc]
    simp only [List.cons_ne_nil, false_or]
    by_cases hroom : text.length - base + s.length < size
    · rw [if_pos hroom, Option.bind_eq_bind, Option.bind_some, hrest]
      refine if_congr ?_ rfl rfl
      rw [List.length_append, List.length_append]
      constructor
      · rintro (rfl | hlt)
        · exact hroom
        · omega
      · intro hlt
        right
        omega
    · rw [if_neg hroom, if_neg (by rw [List.length_append]; omega)]
      rfl

/-! ## Numbers -/

/-- At least `w` characters, filled up with blanks on the left. -/
def pad (w : Nat) (s : List Char) : List Char := List.replicate (w - s.length) ' ' ++ s

def decimal (n : Nat) : List Char := Nat.toDigits 10 n

/-- `%d`. -/
def signed (x : Int) : List Char := if x < 0 then '-' :: decimal (-x).toNat else decimal x.toNat

/-- `%p`, as glibc prints it. -/
def pointer (n : Nat) : List Char := if n = 0 then "(nil)".toList else '0' :: 'x' :: Nat.toDigits 16 n

/-- Blanks before a column make it wider. -/
theorem replicate_append_pad (n w : Nat) (s : List Char) :
    List.replicate n ' ' ++ pad w s = pad (n + max w s.length) s := by
  have hwidth : n + max w s.length - s.length = n + (w - s.length) := by omega
  rw [pad, pad, hwidth, List.replicate_add, List.append_assoc]

theorem pad_length (w : Nat) (s : List Char) : (pad w s).length = max w s.length := by
  rw [pad, List.length_append, List.length_replicate]
  omega

/-- Characters that leave a mark, and these and blanks. -/
def Graphic (s : List Char) : Prop := ∀ c ∈ s, 32 < c.toNat

def Printable (s : List Char) : Prop := ∀ c ∈ s, 32 ≤ c.toNat

instance (s : List Char) : Decidable (Graphic s) := List.decidableBAll (fun c : Char => 32 < c.toNat) s
instance (s : List Char) : Decidable (Printable s) := List.decidableBAll (fun c : Char => 32 ≤ c.toNat) s

theorem Graphic.printable {s : List Char} (h : Graphic s) : Printable s := fun c hc => Nat.le_of_lt (h c hc)

theorem Printable.append {s t : List Char} (hs : Printable s) (ht : Printable t) : Printable (s ++ t) := fun c hc =>
  (List.mem_append.1 hc).elim (hs c) (ht c)

theorem Printable.blank {s : List Char} (h : Printable s) : Printable (' ' :: s) := by
  intro c hc
  rcases List.mem_cons.1 hc with rfl | hc
  · decide
  · exact h c hc

theorem Printable.pad {s : List Char} (h : Printable s) (w : Nat) : Printable (pad w s) := by
  refine .append (fun c hc => ?_) h
  rw [List.eq_of_mem_replicate hc]
  decide

theorem Printable.nul_not_mem {s : List Char} (h : Printable s) : NUL ∉ s := fun hmem => absurd (h _ hmem) (by decide)

theorem Printable.newline_not_mem {s : List Char} (h : Printable s) : '\n' ∉ s := fun hmem => absurd (h _ hmem) (by decide)

theorem graphic_toDigits {b : Nat} (hb : 1 < b) (hb16 : b ≤ 16) (n : Nat) : Graphic (Nat.toDigits b n) := by
  have hchar : ∀ d < 16, 32 < (Nat.digitChar d).toNat := by decide
  induction n using Nat.strongRecOn with
  | _ n ih =>
    rw [Nat.toDigits_eq_if hb]
    split
    next hlt =>
      intro c hc
      rw [List.mem_singleton.1 hc]
      exact hchar n (Nat.lt_of_lt_of_le hlt hb16)
    next hge =>
      have hmod := Nat.mod_lt n (Nat.zero_lt_of_lt hb)
      intro c hc
      rcases List.mem_append.1 hc with hc | hc
      · exact ih _ (Nat.div_lt_self (by omega) hb) c hc
      · rw [List.mem_singleton.1 hc]
        exact hchar _ (Nat.lt_of_lt_of_le hmod hb16)

theorem graphic_decimal (n : Nat) : Graphic (decimal n) := graphic_toDigits (by decide) (by decide) n

theorem printable_pad_decimal (w n : Nat) : Printable (pad w (decimal n)) := (graphic_decimal n).printable.pad w

theorem graphic_signed (x : Int) : Graphic (signed x) := by
  unfold signed
  split
  · intro c hc
    rcases List.mem_cons.1 hc with rfl | hc
    · decide
    · exact graphic_decimal _ c hc
  · exact graphic_decimal _

theorem graphic_pointer (n : Nat) : Graphic (pointer n) := by
  unfold pointer
  split
  · decide
  · intro c hc
    rcases List.mem_cons.1 hc with rfl | hc
    · decide
    · rcases List.mem_cons.1 hc with rfl | hc
      · decide
      · exact graphic_toDigits (by decide) (by decide) n c hc

theorem decimal_length_pos (n : Nat) : 0 < (decimal n).length := Nat.length_toDigits_pos

theorem decimal_ne_nil (n : Nat) : decimal n ≠ [] := List.ne_nil_of_length_pos (decimal_length_pos n)

theorem pointer_ne_nil (n : Nat) : pointer n ≠ [] := by
  unfold pointer
  split <;> simp

theorem decimal_length_le {n k : Nat} (hk : 0 < k) (h : n < 10 ^ k) : (decimal n).length ≤ k :=
  (Nat.length_toDigits_le_iff (by decide) hk).2 h

theorem pointer_length_le {n k : Nat} (hk : 3 ≤ k) (h : n < 16 ^ k) : (pointer n).length ≤ k + 2 := by
  unfold pointer
  split
  · exact Nat.add_le_add_right hk 2
  · exact Nat.add_le_add_right ((Nat.length_toDigits_le_iff (by decide) (by omega)).2 h) 2

end Lib.CText
