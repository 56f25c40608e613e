import Mathlib.Algebra.Order.BigOperators.Group.List
import Mathlib.Algebra.BigOperators.Ring.List
import Mathlib.Data.List.Induction
import Mathlib.Data.Nat.Bitwise
import Mathlib.Tactic.Common
import Mathlib.Tactic.Ring

/-! # Merkle mountain ranges

A mountain range is a row of perfect trees of different heights. A new leaf is a tree of its own, and merges
with the last tree as long as the two have one height (`carry`), so the heights are the binary digits of the
number of leaves (`testBit_count`). The root is the digest of the row of peaks, `bag`. A path leads from a
leaf to a peak by its siblings; if nothing that is hashed collides, whatever climbs to a peak of the range
under its root starts from the leaf at the position that the path gives (`climb_sound`, `bag_sound`). -/

namespace Coinjecture.Lib.MountainRange

variable {α β : Type}

/-- What is hashed: leaves, nodes with their height, and peaks. -/
inductive Preimage (α β : Type) where
  | leaf (b : β)
  | node (height : ℕ) (left right : α)
  | bag (left right : α)
  deriving DecidableEq

inductive Mountain (β : Type) where
  | leaf (b : β)
  | node (height : ℕ) (left right : Mountain β)

namespace Mountain

def height : Mountain β → ℕ
  | leaf _ => 0
  | node height _ _ => height + 1

def leaves : Mountain β → List β
  | leaf b => [b]
  | node _ left right => left.leaves ++ right.leaves

/-- Both subtrees of a node have the height that it says. -/
def Perfect : Mountain β → Prop
  | leaf _ => True
  | node height left right =>
    (left.height = height ∧ left.Perfect) ∧ right.height = height ∧ right.Perfect

theorem Perfect.length_leaves {t : Mountain β} (h : t.Perfect) : t.leaves.length = 2 ^ t.height := by
  induction t with
  | leaf b => rfl
  | node k left right ihl ihr =>
    obtain ⟨⟨hleft, hl⟩, hright, hr⟩ := h
    rw [leaves, List.length_append, ihl hl, ihr hr, hleft, hright, height, pow_succ]
    omega

variable (digest : Preimage α β → α)

def hash : Mountain β → α
  | leaf b => digest (.leaf b)
  | node height left right => digest (.node height left.hash right.hash)

/-- What the hash of the tree is the digest of. -/
def top : Mountain β → Preimage α β
  | leaf b => .leaf b
  | node height left right => .node height (left.hash digest) (right.hash digest)

/-- All that is hashed for the tree. -/
def hashed : Mountain β → List (Preimage α β)
  | leaf b => [.leaf b]
  | node height left right =>
    .node height (left.hash digest) (right.hash digest) :: (left.hashed ++ right.hashed)

theorem hash_eq (t : Mountain β) : t.hash digest = digest (t.top digest) := by
  cases t with
  | leaf b => rfl
  | node k left right => rfl

theorem top_mem_hashed (t : Mountain β) : t.top digest ∈ t.hashed digest := by
  cases t with
  | leaf b => exact List.mem_cons_self
  | node k left right => exact List.mem_cons_self

theorem top_ne_bag (t : Mountain β) (left right : α) : t.top digest ≠ .bag left right := by
  cases t with
  | leaf b => nofun
  | node k l r => nofun

end Mountain

/-! ### Appending -/

/-- A tree comes to a row of trees, the last one of which is first in the list. -/
def carry : Mountain β → List (Mountain β) → List (Mountain β)
  | t, [] => [t]
  | t, u :: us => if u.height = t.height then carry (.node t.height u t) us else t :: u :: us

/-- The leaves of a row, from the first to the last. -/
def leavesOf (ts : List (Mountain β)) : List β := (ts.reverse.map Mountain.leaves).flatten

/-- The trees are perfect, and their heights ascend. -/
structure Row (ts : List (Mountain β)) : Prop where
  perfect : ∀ t ∈ ts, t.Perfect
  ascending : ts.Pairwise fun t u => t.height < u.height

/-- The number of leaves. -/
def count (ts : List (Mountain β)) : ℕ := (ts.map fun t => 2 ^ t.height).sum

@[simp] theorem leavesOf_cons (t : Mountain β) (ts : List (Mountain β)) :
    leavesOf (t :: ts) = leavesOf ts ++ t.leaves := by
  simp [leavesOf]

theorem leavesOf_carry (t : Mountain β) (ts : List (Mountain β)) :
    leavesOf (carry t ts) = leavesOf ts ++ t.leaves := by
  induction ts generalizing t with
  | nil => simp [carry, leavesOf]
  | cons u us ih =>
    rw [carry]
    split_ifs
    · rw [ih, leavesOf_cons, Mountain.leaves, List.append_assoc]
    · rw [leavesOf_cons]

namespace Row

theorem nil : Row ([] : List (Mountain β)) := ⟨nofun, List.Pairwise.nil⟩

variable {t : Mountain β} {ts : List (Mountain β)}

theorem tail (h : Row (t :: ts)) : Row ts :=
  ⟨fun u hu => h.perfect u (List.mem_cons_of_mem _ hu), (List.pairwise_cons.mp h.ascending).2⟩

theorem lt (h : Row (t :: ts)) : ∀ u ∈ ts, t.height < u.height := (List.pairwise_cons.mp h.ascending).1

/-- A perfect tree that is no higher than any in the row merges into a row. -/
theorem carry (h : Row ts) (hperfect : t.Perfect) (hle : ∀ u ∈ ts, t.height ≤ u.height) :
    Row (carry t ts) := by
  induction ts generalizing t with
  | nil => exact ⟨by simpa [MountainRange.carry] using hperfect, List.pairwise_singleton ..⟩
  | cons u us ih =>
    rw [MountainRange.carry]
    split_ifs with heq
    · refine ih h.tail ⟨⟨heq, h.perfect u List.mem_cons_self⟩, rfl, hperfect⟩ fun w hw => ?_
      have hlt := h.lt w hw
      rw [Mountain.height]
      omega
    · have hlt : t.height < u.height := lt_of_le_of_ne (hle u List.mem_cons_self) (Ne.symm heq)
      refine ⟨fun w hw => ?_, List.pairwise_cons.mpr ⟨fun w hw => ?_, h.ascending⟩⟩
      · rcases List.mem_cons.mp hw with rfl | hw
        · exact hperfect
        · exact h.perfect w hw
      · rcases List.mem_cons.mp hw with rfl | hw
        · exact hlt
        · exact hlt.trans (h.lt w hw)

theorem length_leavesOf (h : Row ts) : (leavesOf ts).length = count ts := by
  induction ts with
  | nil => rfl
  | cons u us ih =>
    rw [leavesOf_cons, List.length_append, ih h.tail, (h.perfect u List.mem_cons_self).length_leaves, count,
      count, List.map_cons, List.sum_cons]
    omega

end Row

/-- The row of trees that the leaves make one after the other. -/
def rowOf (bs : List β) : List (Mountain β) := bs.foldl (fun ts b => carry (.leaf b) ts) []

theorem rowOf_append (bs : List β) (b : β) : rowOf (bs ++ [b]) = carry (.leaf b) (rowOf bs) := by
  rw [rowOf, List.foldl_append]
  rfl

theorem row_rowOf (bs : List β) : Row (rowOf bs) := by
  induction bs using List.reverseRecOn with
  | nil => exact Row.nil
  | append_singleton bs b ih =>
    rw [rowOf_append]
    exact ih.carry trivial fun u _ => Nat.zero_le _

theorem leavesOf_rowOf (bs : List β) : leavesOf (rowOf bs) = bs := by
  induction bs using List.reverseRecOn with
  | nil => rfl
  | append_singleton bs b ih =>
    rw [rowOf_append, leavesOf_carry, ih]
    rfl

theorem count_rowOf (bs : List β) : count (rowOf bs) = bs.length := by
  rw [← (row_rowOf bs).length_leavesOf, leavesOf_rowOf]

/-! ### Heights and binary digits -/

theorem dvd_count {ts : List (Mountain β)} {k : ℕ} (h : ∀ u ∈ ts, k ≤ u.height) : 2 ^ k ∣ count ts := by
  refine List.dvd_sum fun x hx => ?_
  obtain ⟨u, hu, rfl⟩ := List.mem_map.mp hx
  exact pow_dvd_pow 2 (h u hu)

/-- A digit of the number of leaves, above smaller ones, says whether the last tree has that height. -/
theorem testBit_count {ts : List (Mountain β)} {k low : ℕ} (h : Row ts) (hle : ∀ u ∈ ts, k ≤ u.height)
    (hlow : low < 2 ^ k) : (low + count ts).testBit k = true ↔ ∃ u ∈ ts.head?, u.height = k := by
  have hpos : 0 < 2 ^ k := Nat.two_pow_pos k
  rw [Nat.testBit_eq_decide_div_mod_eq, decide_eq_true_eq]
  cases ts with
  | nil => simp [count, Nat.div_eq_of_lt hlow]
  | cons u us =>
    simp only [List.head?_cons, Option.mem_def, Option.some.injEq, exists_eq_left']
    have habove : ∀ w ∈ us, k + 1 ≤ w.height := fun w hw =>
      Nat.succ_le_of_lt (lt_of_le_of_lt (hle u List.mem_cons_self) (h.lt w hw))
    obtain ⟨m, hm⟩ := dvd_count habove
    by_cases heq : u.height = k
    · have hsum : low + count (u :: us) = low + 2 ^ k * (1 + 2 * m) := by
        rw [count, List.map_cons, List.sum_cons, heq]
        have hus : (us.map fun t => 2 ^ t.height).sum = 2 ^ (k + 1) * m := hm
        rw [hus, pow_succ]
        ring
      rw [hsum, Nat.add_mul_div_left _ _ hpos, Nat.div_eq_of_lt hlow]
      simp only [heq, iff_true]
      omega
    · have hlt : k + 1 ≤ u.height := Nat.succ_le_of_lt (lt_of_le_of_ne (hle u List.mem_cons_self) (Ne.symm heq))
      have hall : ∀ w ∈ u :: us, k + 1 ≤ w.height := by
        intro w hw
        rcases List.mem_cons.mp hw with rfl | hw
        · exact hlt
        · exact habove w hw
      obtain ⟨m', hm'⟩ := dvd_count hall
      have hsum : low + count (u :: us) = low + 2 ^ k * (2 * m') := by
        rw [hm', pow_succ]
        ring
      rw [hsum, Nat.add_mul_div_left _ _ hpos, Nat.div_eq_of_lt hlow]
      simp only [heq, iff_false]
      omega

/-! ### Paths -/

section Paths

variable (digest : Preimage α β → α)

/-- The hash that a path leads to; a sibling is to the right or to the left. -/
def climb : ℕ → α → List (α × Bool) → α
  | _, a, [] => a
  | k, a, (sibling, isRight) :: path =>
    climb (k + 1) (digest (if isRight then .node k a sibling else .node k sibling a)) path

/-- What is hashed on the way. -/
def climbed : ℕ → α → List (α × Bool) → List (Preimage α β)
  | _, _, [] => []
  | k, a, (sibling, isRight) :: path =>
    (if isRight then .node k a sibling else .node k sibling a) ::
      climbed (k + 1) (digest (if isRight then .node k a sibling else .node k sibling a)) path

/-- The position in its tree of the leaf that the path leads from. -/
def offset : ℕ → List (α × Bool) → ℕ
  | _, [] => 0
  | k, (_, isRight) :: path => (if isRight then 0 else 2 ^ k) + offset (k + 1) path

theorem climb_append (k : ℕ) (a : α) (path : List (α × Bool)) (sibling : α) (isRight : Bool) :
    climb digest k a (path ++ [(sibling, isRight)]) = digest (if isRight
      then .node (k + path.length) (climb digest k a path) sibling
      else .node (k + path.length) sibling (climb digest k a path)) := by
  induction path generalizing k a with
  | nil => rfl
  | cons p path ih =>
    obtain ⟨s, r⟩ := p
    rw [List.cons_append, climb, ih, climb, List.length_cons, Nat.add_right_comm, Nat.add_assoc]

theorem climbed_append (k : ℕ) (a : α) (path : List (α × Bool)) (sibling : α) (isRight : Bool) :
    climbed digest k a (path ++ [(sibling, isRight)]) = climbed digest k a path ++ [if isRight
      then .node (k + path.length) (climb digest k a path) sibling
      else .node (k + path.length) sibling (climb digest k a path)] := by
  induction path generalizing k a with
  | nil => rfl
  | cons p path ih =>
    obtain ⟨s, r⟩ := p
    rw [List.cons_append, climbed, ih, climbed, climb, List.length_cons, Nat.add_right_comm, Nat.add_assoc,
      List.cons_append]

theorem offset_append (k : ℕ) (path : List (α × Bool)) (sibling : α) (isRight : Bool) :
    offset k (path ++ [(sibling, isRight)]) =
      offset k path + if isRight then 0 else 2 ^ (k + path.length) := by
  induction path generalizing k with
  | nil => simp [offset]
  | cons p path ih =>
    obtain ⟨s, r⟩ := p
    rw [List.cons_append, offset, ih, offset, List.length_cons, Nat.add_right_comm, Nat.add_assoc,
      Nat.add_assoc]

/-- Nothing in the list collides. -/
def CollisionFree (l : List (Preimage α β)) : Prop := ∀ x ∈ l, ∀ y ∈ l, digest x = digest y → x = y

variable {digest}

/-- What climbs to the hash of a perfect tree starts from one of its leaves: that at the offset. -/
theorem climb_sound {l : List (Preimage α β)} (hfree : CollisionFree digest l) {t : Mountain β}
    (hperfect : t.Perfect) (ht : ∀ x ∈ t.hashed digest, x ∈ l) {b : β} (hb : .leaf b ∈ l)
    {path : List (α × Bool)} (hpath : ∀ x ∈ climbed digest 0 (digest (.leaf b)) path, x ∈ l)
    (h : climb digest 0 (digest (.leaf b)) path = t.hash digest) :
    path.length = t.height ∧ t.leaves[offset 0 path]? = some b := by
  induction path using List.reverseRecOn generalizing t with
  | nil =>
    have hsame := hfree _ hb _ (ht _ (t.top_mem_hashed digest)) (h.trans (t.hash_eq digest))
    cases t with
    | leaf b' =>
      cases hsame
      exact ⟨rfl, rfl⟩
    | node k left right => cases hsame
  | append_singleton path p ih =>
    obtain ⟨sibling, isRight⟩ := p
    rw [climbed_append] at hpath
    have hpath' : ∀ x ∈ climbed digest 0 (digest (.leaf b)) path, x ∈ l :=
      fun x hx => hpath x (List.mem_append_left _ hx)
    have hlast := hpath _ (List.mem_append_right _ List.mem_cons_self)
    rw [climb_append, Mountain.hash_eq] at h
    have hsame := hfree _ hlast _ (ht _ (t.top_mem_hashed digest)) h
    cases t with
    | leaf b' =>
      cases isRight with
      | true => cases hsame
      | false => cases hsame
    | node k left right =>
      obtain ⟨⟨hleft, hl⟩, hright, hr⟩ := hperfect
      have hmem : ∀ x, x ∈ left.hashed digest ∨ x ∈ right.hashed digest → x ∈ l :=
        fun x hx => ht x (List.mem_cons_of_mem _ (List.mem_append.mpr hx))
      cases isRight with
      | true =>
        simp only [if_true, Mountain.top, Preimage.node.injEq] at hsame
        obtain ⟨hk, hclimb, -⟩ := hsame
        obtain ⟨hlength, hget⟩ := ih hl (fun x hx => hmem x (.inl hx)) hpath' hclimb
        refine ⟨by rw [List.length_append, hlength, Mountain.height, hleft]; rfl, ?_⟩
        have hlt : offset 0 path < left.leaves.length := (List.getElem?_eq_some_iff.mp hget).1
        rw [offset_append, if_pos rfl, Nat.add_zero, Mountain.leaves, List.getElem?_append_left hlt]
        exact hget
      | false =>
        simp only [Bool.false_eq_true, if_false, Mountain.top, Preimage.node.injEq] at hsame
        obtain ⟨hk, -, hclimb⟩ := hsame
        obtain ⟨hlength, hget⟩ := ih hr (fun x hx => hmem x (.inr hx)) hpath' hclimb
        refine ⟨by rw [List.length_append, hlength, Mountain.height, hright]; rfl, ?_⟩
        have hwidth : left.leaves.length = 2 ^ (0 + path.length) := by
          rw [hl.length_leaves, hleft, Nat.zero_add, hlength, hright]
        rw [offset_append, if_neg Bool.false_ne_true, ← hwidth, Mountain.leaves,
          List.getElem?_append_right (Nat.le_add_left _ _), Nat.add_sub_cancel]
        exact hget

end Paths

/-! ### The root -/

section Bag

variable (digest : Preimage α β → α) (zero : α)

/-- The peaks bagged, from the last one. -/
def bag : List α → α
  | [] => zero
  | [p] => p
  | p :: q :: ps => digest (.bag p (bag (q :: ps)))

/-- What is hashed for it. -/
def bagged : List α → List (Preimage α β)
  | [] => []
  | [_] => []
  | p :: q :: ps => .bag p (bag digest zero (q :: ps)) :: bagged (q :: ps)

variable {digest zero}

/-- If two rows of peaks have one root, a peak of the first row that no bagging made is in its place in the
second one. -/
theorem bag_sound {l : List (Preimage α β)} (hfree : CollisionFree digest l) {ts : List (Mountain β)}
    (hne : ts ≠ []) (hts : ∀ t ∈ ts, t.top digest ∈ l)
    (hbagged : ∀ x ∈ bagged digest zero (ts.map (Mountain.hash digest)), x ∈ l) {ps : List α}
    (hps : ∀ x ∈ bagged digest zero ps, x ∈ l)
    (hroot : bag digest zero ps = bag digest zero (ts.map (Mountain.hash digest))) {i : ℕ} {x : Preimage α β}
    (hx : x ∈ l) (hxbag : ∀ left right, x ≠ .bag left right) (hi : ps[i]? = some (digest x)) :
    ∃ t, ts[i]? = some t ∧ digest x = t.hash digest := by
  induction ts generalizing ps i with
  | nil => exact absurd rfl hne
  | cons t ts ih =>
    cases ps with
    | nil => cases hi
    | cons p ps =>
      cases ts with
      | nil =>
        cases ps with
        | nil =>
          -- one peak on both sides
          have hp : p = t.hash digest := hroot
          cases i with
          | zero => exact ⟨t, rfl, (Option.some.inj hi).symm.trans hp⟩
          | succ i => cases hi
        | cons q ps =>
          have hsame := hfree _ (hps _ List.mem_cons_self) _ (hts t List.mem_cons_self)
            (hroot.trans (t.hash_eq digest))
          exact absurd hsame.symm (t.top_ne_bag digest _ _)
      | cons u us =>
        cases ps with
        | nil =>
          cases i with
          | zero =>
            have hsame := hfree _ hx _ (hbagged _ List.mem_cons_self)
              ((Option.some.inj hi).symm.trans hroot)
            exact absurd hsame (hxbag _ _)
          | succ i => cases hi
        | cons q ps =>
          have hsame := hfree _ (hps _ List.mem_cons_self) _ (hbagged _ List.mem_cons_self) hroot
          obtain ⟨hp, hrest⟩ := Preimage.bag.inj hsame
          cases i with
          | zero => exact ⟨t, rfl, (Option.some.inj hi).symm.trans hp⟩
          | succ i =>
            exact ih (List.cons_ne_nil _ _) (fun w hw => hts w (List.mem_cons_of_mem _ hw))
              (fun y hy => hbagged y (List.mem_cons_of_mem _ hy))
              (fun y hy => hps y (List.mem_cons_of_mem _ hy)) hrest hi

end Bag

/-! ### Positions -/

/-- The position among all leaves of the one that a path to peak `i` leads from; the trees are listed from the
first one. -/
def position (ts : List (Mountain β)) (i : ℕ) (path : List (α × Bool)) : ℕ :=
  count (ts.take i) + offset 0 path

theorem getElem?_count_add {ts : List (Mountain β)} (hperfect : ∀ t ∈ ts, t.Perfect) {i : ℕ} {t : Mountain β}
    (ht : ts[i]? = some t) {j : ℕ} {b : β} (hb : t.leaves[j]? = some b) :
    (ts.map Mountain.leaves).flatten[count (ts.take i) + j]? = some b := by
  induction ts generalizing i with
  | nil => cases ht
  | cons u us ih =>
    rw [List.map_cons, List.flatten_cons]
    cases i with
    | zero =>
      obtain rfl : u = t := Option.some.inj ht
      have hzero : count (List.take 0 (u :: us)) + j = j := Nat.zero_add j
      rw [hzero, List.getElem?_append_left (List.getElem?_eq_some_iff.mp hb).1]
      exact hb
    | succ i =>
      have hlength := (hperfect u List.mem_cons_self).length_leaves
      have hsum : count (List.take (i + 1) (u :: us)) + j = u.leaves.length + (count (us.take i) + j) := by
        rw [List.take_succ_cons, count, List.map_cons, List.sum_cons, hlength, Nat.add_assoc]
        rfl
      rw [hsum, List.getElem?_append_right (Nat.le_add_right _ _), Nat.add_sub_cancel_left]
      exact ih (fun w hw => hperfect w (List.mem_cons_of_mem _ hw)) ht

/-- A path that starts from a leaf leads to the digest of a leaf or a node. -/
theorem exists_climb_eq (digest : Preimage α β → α) (b : β) (path : List (α × Bool)) :
    ∃ x, (x = .leaf b ∨ x ∈ climbed digest 0 (digest (.leaf b)) path) ∧ (∀ left right, x ≠ .bag left right) ∧
      climb digest 0 (digest (.leaf b)) path = digest x := by
  cases path using List.reverseRecOn with
  | nil => exact ⟨_, .inl rfl, nofun, rfl⟩
  | append_singleton path p =>
    obtain ⟨sibling, isRight⟩ := p
    refine ⟨_, .inr ?_, ?_, climb_append digest 0 _ path sibling isRight⟩
    · rw [climbed_append]
      exact List.mem_append_right _ List.mem_cons_self
    · cases isRight with
      | true => nofun
      | false => nofun

/-- Under the root of a range, whatever climbs from a leaf to a peak starts from the leaf of the range at the
position that peak and path give. -/
theorem range_sound {digest : Preimage α β → α} {zero : α} {l : List (Preimage α β)}
    (hfree : CollisionFree digest l) {bs : List β} (hne : bs ≠ [])
    (hrange : ∀ t ∈ rowOf bs, ∀ x ∈ t.hashed digest, x ∈ l)
    (hbagged : ∀ x ∈ bagged digest zero ((rowOf bs).reverse.map (Mountain.hash digest)), x ∈ l) {ps : List α}
    (hps : ∀ x ∈ bagged digest zero ps, x ∈ l)
    (hroot : bag digest zero ps = bag digest zero ((rowOf bs).reverse.map (Mountain.hash digest))) {b : β}
    (hb : .leaf b ∈ l) {path : List (α × Bool)} (hpath : ∀ x ∈ climbed digest 0 (digest (.leaf b)) path, x ∈ l)
    {i : ℕ} (hi : ps[i]? = some (climb digest 0 (digest (.leaf b)) path)) :
    bs[position (rowOf bs).reverse i path]? = some b := by
  have hrow : (rowOf bs).reverse ≠ [] := by
    intro hnil
    have hcount := count_rowOf bs
    rw [List.reverse_eq_nil_iff.mp hnil] at hcount
    exact hne (List.eq_nil_of_length_eq_zero hcount.symm)
  have hperfect : ∀ t ∈ (rowOf bs).reverse, t.Perfect :=
    fun t ht => (row_rowOf bs).perfect t (List.mem_reverse.mp ht)
  obtain ⟨x, hx, hxbag, hclimb⟩ := exists_climb_eq digest b path
  have hmem : x ∈ l := by
    rcases hx with rfl | hx
    · exact hb
    · exact hpath x hx
  obtain ⟨t, ht, hhash⟩ := bag_sound hfree hrow
    (fun t ht => hrange t (List.mem_reverse.mp ht) _ (t.top_mem_hashed digest)) hbagged hps hroot hmem hxbag
    (hi.trans (congrArg some hclimb))
  have htmem := List.mem_of_getElem? ht
  obtain ⟨-, hleaf⟩ := climb_sound hfree (hperfect t htmem) (hrange t (List.mem_reverse.mp htmem)) hb hpath
    (hclimb.trans hhash)
  have hget := getElem?_count_add hperfect ht hleaf
  rwa [← leavesOf, leavesOf_rowOf] at hget

end Coinjecture.Lib.MountainRange
