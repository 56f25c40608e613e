import Mathlib.Data.List.Basic
import Mathlib.Tactic.Common

/-! # Texts

Texts as lists of characters, with the operations of Rust's `str`: the lines, the trimming of white space, prefixes.

* `lines_intercalate` : the lines of a text are those that it was put together from, less a carriage return at the
  end of each but the last.
* `extractField_cons_append` : a field is found on the first line that starts with its name. -/

namespace Coinjecture.Lib.Texts

abbrev Text := List Char

/-- The bytes of the text in UTF-8. -/
def asBytes (s : Text) : List UInt8 := s.flatMap String.utf8EncodeChar

/-! ### White space -/

/-- `char::is_whitespace`. -/
def isWhitespace (c : Char) : Bool :=
  let n := c.toNat
  (9 ≤ n && n ≤ 13) || n = 32 || n = 0x85 || n = 0xA0 || n = 0x1680 || (0x2000 ≤ n && n ≤ 0x200A) || n = 0x2028 ||
    n = 0x2029 || n = 0x202F || n = 0x205F || n = 0x3000

def trim (s : Text) : Text := ((s.dropWhile isWhitespace).reverse.dropWhile isWhitespace).reverse

theorem dropWhile_eq_self {p : Char → Bool} {s : Text} (h : ∀ c ∈ s, p c = false) : s.dropWhile p = s := by
  cases s with
  | nil => rfl
  | cons c s => rw [List.dropWhile_cons, h c List.mem_cons_self, if_neg Bool.false_ne_true]

theorem trim_eq_self {s : Text} (h : ∀ c ∈ s, isWhitespace c = false) : trim s = s := by
  rw [trim, dropWhile_eq_self h, dropWhile_eq_self fun c hc => h c (List.mem_reverse.mp hc), List.reverse_reverse]

/-- A list has no white space if a look at each character finds none. -/
theorem plain_of_all {s : Text} (h : s.all (fun c => !isWhitespace c) = true) : ∀ c ∈ s, isWhitespace c = false := by
  intro c hc
  rw [← Bool.not_eq_true']
  exact List.all_eq_true.mp h c hc

theorem subset_of_all {s t : Text} (h : s.all t.contains = true) : ∀ c ∈ s, c ∈ t :=
  fun c hc => List.contains_iff_mem.mp (List.all_eq_true.mp h c hc)

/-! ### Lines -/

/-- The text without a carriage return at its end. -/
def stripCr : Text → Text
  | [] => []
  | c :: s => if c = '\r' ∧ s = [] then [] else c :: stripCr s

/-- A last line without characters is none; the last one keeps its carriage return. -/
def lines (s : Text) : List Text :=
  let pieces := s.splitOn '\n'
  pieces.dropLast.map stripCr ++ pieces.getLast?.toList.filter fun last => last ≠ []

theorem stripCr_cons {c : Char} (s : Text) (h : c ≠ '\r') : stripCr (c :: s) = c :: stripCr s :=
  if_neg fun hc => h hc.1

theorem stripCr_eq_self {s : Text} (h : '\r' ∉ s) : stripCr s = s := by
  induction s with
  | nil => rfl
  | cons c s ih =>
    rw [List.mem_cons, not_or] at h
    rw [stripCr_cons s (Ne.symm h.1), ih h.2]

theorem stripCr_append {p : Text} (s : Text) (h : '\r' ∉ p) : stripCr (p ++ s) = p ++ stripCr s := by
  induction p with
  | nil => rfl
  | cons c p ih =>
    rw [List.mem_cons, not_or] at h
    rw [List.cons_append, stripCr_cons _ (Ne.symm h.1), ih h.2, List.cons_append]

theorem lines_intercalate {front : List Text} {last : Text} (h : ∀ l ∈ front ++ [last], '\n' ∉ l)
    (hlast : last ≠ []) : lines (['\n'].intercalate (front ++ [last])) = front.map stripCr ++ [last] := by
  have hsplit := List.splitOn_intercalate '\n' h (List.append_ne_nil_of_right_ne_nil front (List.cons_ne_nil _ _))
  rw [lines, hsplit]
  have hkept : [last].filter (fun last => last ≠ []) = [last] := List.filter_cons_of_pos (decide_eq_true hlast)
  rw [List.dropLast_concat, List.getLast?_concat, Option.toList_some, hkept]

/-! ### Prefixes -/

/-- `strip_prefix`. -/
def stripPrefix (p s : Text) : Option Text := p.isPrefixOf? s

theorem stripPrefix_append (p s : Text) : stripPrefix p (p ++ s) = some s :=
  List.isPrefixOf?_eq_some_iff_append_eq.mpr rfl

/-- A prefix has no character that the text does not have. -/
theorem stripPrefix_eq_none {p s : Text} {c : Char} (hc : c ∈ p) (hs : c ∉ s) : stripPrefix p s = none := by
  rw [Option.eq_none_iff_forall_ne_some]
  intro rest h
  rw [← List.isPrefixOf?_eq_some_iff_append_eq.mp h] at hs
  exact hs (List.mem_append_left rest hc)

/-- The texts start with different characters. -/
def headsDiffer (p q : Text) : Bool :=
  match p, q with
  | c :: _, d :: _ => c ≠ d
  | _, _ => false

theorem stripPrefix_of_headsDiffer {p q : Text} (s : Text) (h : headsDiffer p q = true) :
    stripPrefix p (q ++ s) = none := by
  cases p with
  | nil => cases h
  | cons c p =>
    cases q with
    | nil => cases h
    | cons d q =>
      rw [Option.eq_none_iff_forall_ne_some]
      intro rest hrest
      exact of_decide_eq_true h (List.cons.inj (List.isPrefixOf?_eq_some_iff_append_eq.mp hrest)).1

/-- The text before the first place at which `p` occurs, or all of it. -/
def before (p : Text) : Text → Text
  | [] => []
  | c :: s => if (stripPrefix p (c :: s)).isSome then [] else c :: before p s

/-- What follows the name of the field on the first line that starts with it. -/
def extractField (lines : List Text) (p : Text) : Option Text := (lines.findSome? (stripPrefix p)).map trim

theorem extractField_cons_of_none {p l : Text} (ls : List Text) (h : stripPrefix p l = none) :
    extractField (l :: ls) p = extractField ls p := by
  rw [extractField, List.findSome?_cons, h]
  rfl

theorem extractField_skip {p q : Text} (s : Text) (ls : List Text) (h : headsDiffer p q = true) :
    extractField ((q ++ s) :: ls) p = extractField ls p :=
  extractField_cons_of_none ls (stripPrefix_of_headsDiffer s h)

theorem extractField_cons_append (p s : Text) (ls : List Text) :
    extractField ((p ++ s) :: ls) p = some (trim s) := by
  rw [extractField, List.findSome?_cons, stripPrefix_append]
  rfl

end Coinjecture.Lib.Texts
