import Mathlib.Data.List.GetD
import Mathlib.Logic.Function.Basic
import Mathlib.Tactic.Common

/-! # Merkle trees

A level of a Merkle tree is folded two by two into the next one; `odd` says what becomes of a last node
without a partner. `root` is what is left of the leaves in the end, and `lastPair` the two nodes it is
made of. `path` lists the siblings on the way from a leaf to the root, in the tree where a node without
a partner is its own: folding the leaf with them gives the root of that tree (`fold_path`). -/

namespace Coinjecture.Lib.Merkle

variable {α : Type} (pair : α → α → α) (odd : α → α)

/-- The next level. -/
def levelUp : List α → List α
  | [] => []
  | [a] => [odd a]
  | a :: b :: rest => pair a b :: levelUp rest

/-- The level that is reached after `fuel` steps, or before with one node. -/
def climb : ℕ → List α → List α
  | 0, level => level
  | fuel + 1, level => if 1 < level.length then climb fuel (levelUp pair odd level) else level

/-- The level with one node, above a level that is not empty. -/
def top (level : List α) : List α := climb pair odd level.length level

def root [Inhabited α] (level : List α) : α := (top pair odd level).headD default

/-- The level of two nodes below the root, if there is one. -/
def lastPair : ℕ → List α → Option (α × α)
  | 0, _ => none
  | fuel + 1, level =>
    match level with
    | [a, b] => some (a, b)
    | _ => if 2 < level.length then lastPair fuel (levelUp pair odd level) else none

@[simp] theorem length_levelUp (level : List α) :
    (levelUp pair odd level).length = (level.length + 1) / 2 := by
  induction level using levelUp.induct with
  | case1 => simp [levelUp]
  | case2 a => simp [levelUp]
  | case3 a b rest ih =>
    rw [levelUp, List.length_cons, ih, List.length_cons, List.length_cons]
    omega

variable {pair odd}

theorem climb_of_length_le {level : List α} (h : level.length ≤ 1) (fuel : ℕ) :
    climb pair odd fuel level = level := by
  cases fuel with
  | zero => rfl
  | succ fuel => rw [climb, if_neg (by omega)]

/-- More fuel than there are nodes changes nothing. -/
theorem climb_eq_climb {level : List α} {fuel fuel' : ℕ} (h : level.length ≤ fuel)
    (h' : level.length ≤ fuel') : climb pair odd fuel level = climb pair odd fuel' level := by
  induction fuel generalizing level fuel' with
  | zero => rw [climb_of_length_le (by omega), climb_of_length_le (by omega)]
  | succ fuel ih =>
    by_cases hone : level.length ≤ 1
    · rw [climb_of_length_le hone, climb_of_length_le hone]
    · obtain ⟨fuel', rfl⟩ : ∃ n, fuel' = n + 1 := ⟨fuel' - 1, by omega⟩
      rw [climb, climb, if_pos (by omega), if_pos (by omega)]
      exact ih (by rw [length_levelUp]; omega) (by rw [length_levelUp]; omega)

theorem top_levelUp {level : List α} (h : 1 < level.length) :
    top pair odd level = top pair odd (levelUp pair odd level) := by
  obtain ⟨n, hn⟩ : ∃ n, level.length = n + 1 := ⟨level.length - 1, by omega⟩
  rw [top, hn, climb, if_pos h, top]
  exact climb_eq_climb (by rw [length_levelUp]; omega) (Nat.le_refl _)

theorem root_levelUp [Inhabited α] {level : List α} (h : 1 < level.length) :
    root pair odd level = root pair odd (levelUp pair odd level) := by
  rw [root, top_levelUp h, root]

theorem root_singleton [Inhabited α] (a : α) : root pair odd [a] = a := by
  have hone : ([a] : List α).length ≤ 1 := Nat.le_refl 1
  rw [root, top, climb_of_length_le hone]
  rfl

/-- A root above two nodes is made of a pair. -/
theorem root_eq_pair [Inhabited α] {level : List α} {fuel : ℕ} (h : 1 < level.length)
    (hfuel : level.length ≤ fuel) : ∃ a b, lastPair pair odd fuel level = some (a, b) ∧
      root pair odd level = pair a b := by
  induction fuel generalizing level with
  | zero => omega
  | succ fuel ih =>
    match level, h with
    | [a, b], h =>
      refine ⟨a, b, rfl, ?_⟩
      rw [root_levelUp h]
      exact root_singleton _
    | a :: b :: c :: rest, h =>
      have hlong : 2 < (a :: b :: c :: rest).length := by simp
      have hup : 1 < (levelUp pair odd (a :: b :: c :: rest)).length := by
        rw [length_levelUp]
        omega
      obtain ⟨x, y, hlast, hroot⟩ := ih hup (by rw [length_levelUp]; simp at hfuel ⊢; omega)
      refine ⟨x, y, ?_, by rw [root_levelUp h, hroot]⟩
      rw [lastPair]
      · rw [if_pos hlong, hlast]
      · simp

/-! ### Authentication paths -/

/-- The level with its last node twice, if their number is odd. -/
def padded (level : List α) : List α :=
  if level.length % 2 = 1 then level ++ level.getLast?.toList else level

variable (pair) in
/-- The siblings on the way up from the node `i`, each with whether it stands on the right. -/
def path [Inhabited α] : ℕ → List α → ℕ → List (α × Bool)
  | 0, _, _ => []
  | fuel + 1, level, i =>
    if 1 < level.length then
      let sibling := if i % 2 = 0 then i + 1 else i - 1
      ((padded level).getD sibling default, i % 2 = 0) ::
        path fuel (levelUp pair id (padded level)) (i / 2)
    else []

variable (pair) in
/-- A node folded with the siblings on its way up. -/
def fold (a : α) (siblings : List (α × Bool)) : α :=
  siblings.foldl (fun current s => if s.2 then pair current s.1 else pair s.1 current) a

theorem length_padded {level : List α} (h : level ≠ []) :
    (padded level).length = 2 * ((level.length + 1) / 2) := by
  unfold padded
  split_ifs with hodd
  · rw [List.length_append, List.getLast?_eq_some_getLast h]
    simp only [Option.toList_some, List.length_singleton]
    omega
  · omega

theorem getD_padded [Inhabited α] {level : List α} {i : ℕ} (h : i < level.length) :
    (padded level).getD i default = level.getD i default := by
  unfold padded
  split_ifs
  · exact List.getD_append _ _ _ _ h
  · rfl

/-- The nodes above a level of even length. -/
theorem getD_levelUp [Inhabited α] (level : List α) {i : ℕ} (h : 2 * i + 1 < level.length) :
    (levelUp pair odd level).getD i default =
      pair (level.getD (2 * i) default) (level.getD (2 * i + 1) default) := by
  induction level using levelUp.induct generalizing i with
  | case1 => simp at h
  | case2 a => simp at h
  | case3 a b rest ih =>
    cases i with
    | zero => rfl
    | succ i =>
      have hrest : 2 * i + 1 < rest.length := by
        simp only [List.length_cons] at h
        omega
      rw [levelUp, show 2 * (i + 1) = 2 * i + 1 + 1 by omega]
      simp only [List.getD_cons_succ]
      exact ih hrest

/-- Padding a level and giving its last node itself as a partner is the same. -/
theorem levelUp_padded (odd : α → α) (level : List α) :
    levelUp pair odd (padded level) = levelUp pair (fun a => pair a a) level := by
  induction level using levelUp.induct with
  | case1 => rfl
  | case2 a => rfl
  | case3 a b rest ih =>
    have hpadded : padded (a :: b :: rest) = a :: b :: padded rest := by
      unfold padded
      have hmod : (a :: b :: rest).length % 2 = rest.length % 2 := by
        simp only [List.length_cons]
        omega
      rw [hmod]
      split_ifs with hodd
      · obtain ⟨c, cs, rfl⟩ := List.exists_cons_of_ne_nil (l := rest) (by rintro rfl; simp at hodd)
        simp
      · rfl
    rw [hpadded, levelUp, ih, levelUp]

/-- One step up from a node. -/
theorem pair_sibling [Inhabited α] {level : List α} {i : ℕ} (h : i < level.length) :
    (if i % 2 = 0 then
      pair (level.getD i default) ((padded level).getD (i + 1) default)
    else pair ((padded level).getD (i - 1) default) (level.getD i default)) =
      (levelUp pair id (padded level)).getD (i / 2) default := by
  have hne : level ≠ [] := by
    rintro rfl
    simp at h
  have hbound : 2 * (i / 2) + 1 < (padded level).length := by
    rw [length_padded hne]
    omega
  rw [getD_levelUp _ hbound, ← getD_padded h]
  split_ifs with heven
  · rw [show 2 * (i / 2) = i by omega]
  · rw [show 2 * (i / 2) = i - 1 by omega, show i - 1 + 1 = i by omega]

/-- A leaf folded with the siblings on its way up gives the root. -/
theorem fold_path [Inhabited α] {level : List α} {i fuel : ℕ} (h : i < level.length)
    (hfuel : level.length ≤ fuel) : fold pair (level.getD i default) (path pair fuel level i) =
      root pair (fun a => pair a a) level := by
  induction fuel generalizing level i with
  | zero => omega
  | succ fuel ih =>
    have hne : level ≠ [] := by
      rintro rfl
      simp at h
    by_cases hone : 1 < level.length
    · have hup : (levelUp pair id (padded level)).length = (level.length + 1) / 2 := by
        rw [length_levelUp, length_padded hne]
        omega
      have hinside : i / 2 < (levelUp pair id (padded level)).length := by
        rw [hup]
        omega
      have hstep := ih hinside (by rw [hup]; omega)
      rw [path, if_pos hone, root_levelUp hone, ← levelUp_padded id, ← hstep, ← pair_sibling h]
      by_cases heven : i % 2 = 0
      · simp only [fold, List.foldl_cons, heven, decide_true, if_true]
      · simp only [fold, List.foldl_cons, heven, decide_false, if_false, Bool.false_eq_true]
    · match level, h, hne with
      | [a], h, _ =>
        obtain rfl : i = 0 := by simpa using h
        rw [path, if_neg hone, root_singleton]
        rfl
      | a :: b :: rest, _, _ => simp at hone

/-! ### What is hashed -/

section Hashed

variable {β : Type} (hash : β → α) (pairData : α → α → β) (oddData : α → β)

/-- What is hashed for the next level. -/
def levelData : List α → List β
  | [] => []
  | [a] => [oddData a]
  | a :: b :: rest => pairData a b :: levelData rest

/-- What is hashed on the way up. -/
def climbData : ℕ → List α → List β
  | 0, _ => []
  | fuel + 1, level =>
    if 1 < level.length then levelData pairData oddData level ++
      climbData fuel (levelUp (fun a b => hash (pairData a b)) (fun a => hash (oddData a)) level)
    else []

variable {hash pairData oddData}

theorem levelUp_eq_map (level : List α) :
    levelUp (fun a b => hash (pairData a b)) (fun a => hash (oddData a)) level =
      (levelData pairData oddData level).map hash := by
  induction level using levelUp.induct with
  | case1 => rfl
  | case2 a => rfl
  | case3 a b rest ih => rw [levelUp, ih, levelData, List.map_cons]

/-- A level can be read off what is hashed for the next one, if its length is known. -/
theorem eq_of_levelData_eq (hpair : ∀ a b c d, pairData a b = pairData c d → a = c ∧ b = d)
    (hodd : Function.Injective oddData) {level level' : List α} (hlength : level.length = level'.length)
    (h : levelData pairData oddData level = levelData pairData oddData level') : level = level' := by
  induction level using levelUp.induct generalizing level' with
  | case1 => exact (List.length_eq_zero_iff.mp hlength.symm).symm
  | case2 a =>
    obtain ⟨b, rfl⟩ := List.length_eq_one_iff.mp hlength.symm
    rw [hodd (List.cons.inj h).1]
  | case3 a b rest ih =>
    match level', hlength with
    | c :: d :: rest', hlength =>
      obtain ⟨hfirst, hrest⟩ := List.cons.inj h
      obtain ⟨rfl, rfl⟩ := hpair a b c d hfirst
      rw [ih (by simpa using hlength) hrest]

theorem eq_of_map_eq {l l' : List β} (hinj : ∀ x ∈ l, ∀ y ∈ l', hash x = hash y → x = y)
    (h : l.map hash = l'.map hash) : l = l' := by
  induction l generalizing l' with
  | nil => exact (List.map_eq_nil_iff.mp h.symm).symm
  | cons x l ih =>
    match l', h with
    | y :: l', h =>
      obtain ⟨hfirst, hrest⟩ := List.cons.inj h
      rw [hinj x List.mem_cons_self y List.mem_cons_self hfirst, ih (fun x hx y hy =>
        hinj x (List.mem_cons_of_mem _ hx) y (List.mem_cons_of_mem _ hy)) hrest]

/-- Two trees of the same height and width with one top have the same leaves, unless the hash takes two
of the things hashed for them to one. -/
theorem eq_of_climb_eq (hpair : ∀ a b c d, pairData a b = pairData c d → a = c ∧ b = d)
    (hodd : Function.Injective oddData) {fuel : ℕ} {level level' : List α}
    (hlength : level.length = level'.length)
    (hinj : ∀ x ∈ climbData hash pairData oddData fuel level,
      ∀ y ∈ climbData hash pairData oddData fuel level', hash x = hash y → x = y)
    (h : climb (fun a b => hash (pairData a b)) (fun a => hash (oddData a)) fuel level =
      climb (fun a b => hash (pairData a b)) (fun a => hash (oddData a)) fuel level') :
    level = level' := by
  induction fuel generalizing level level' with
  | zero => exact h
  | succ fuel ih =>
    rw [climb, climb, ← hlength] at h
    rw [climbData, climbData, ← hlength] at hinj
    split_ifs at h hinj with hone
    · have hup := ih (by rw [length_levelUp, length_levelUp, hlength])
        (fun x hx y hy => hinj x (List.mem_append_right _ hx) y (List.mem_append_right _ hy)) h
      rw [levelUp_eq_map, levelUp_eq_map] at hup
      refine eq_of_levelData_eq hpair hodd hlength (eq_of_map_eq (fun x hx y hy => ?_) hup)
      exact hinj x (List.mem_append_left _ hx) y (List.mem_append_left _ hy)
    · exact h

theorem length_climb {fuel : ℕ} {level : List α} (hne : level ≠ []) (hfuel : level.length ≤ fuel) :
    (climb pair odd fuel level).length = 1 := by
  induction fuel generalizing level with
  | zero => exact absurd (List.length_eq_zero_iff.mp (Nat.le_zero.mp hfuel)) hne
  | succ fuel ih =>
    have hpos := List.length_pos_iff.mpr hne
    rw [climb]
    split_ifs with hone
    · refine ih (List.length_pos_iff.mp ?_) ?_
      · rw [length_levelUp]
        omega
      · rw [length_levelUp]
        omega
    · omega

/-- … with one root. -/
theorem eq_of_root_eq [Inhabited α] (hpair : ∀ a b c d, pairData a b = pairData c d → a = c ∧ b = d)
    (hodd : Function.Injective oddData) {level level' : List α} (hne : level ≠ [])
    (hlength : level.length = level'.length)
    (hinj : ∀ x ∈ climbData hash pairData oddData level.length level,
      ∀ y ∈ climbData hash pairData oddData level.length level', hash x = hash y → x = y)
    (h : root (fun a b => hash (pairData a b)) (fun a => hash (oddData a)) level =
      root (fun a b => hash (pairData a b)) (fun a => hash (oddData a)) level') : level = level' := by
  refine eq_of_climb_eq hpair hodd hlength hinj ?_
  have hne' : level' ≠ [] := by
    rintro rfl
    exact hne (List.length_eq_zero_iff.mp hlength)
  obtain ⟨a, ha⟩ := List.length_eq_one_iff.mp
    (@length_climb _ (fun a b => hash (pairData a b)) (fun a => hash (oddData a)) _ _ hne (Nat.le_refl _))
  obtain ⟨b, hb⟩ := List.length_eq_one_iff.mp
    (@length_climb _ (fun a b => hash (pairData a b)) (fun a => hash (oddData a)) _ _ hne' (Nat.le_refl _))
  rw [root, root, top, top, ha, hb] at h
  rw [ha, hlength, hb]
  exact congrArg (fun x => [x]) h

/-! ### Trees of any width

Where what is hashed for a pair, for a last node and for a leaf cannot be taken for one another, a root
belongs to one tree: of two with one root the leaves of one are found in the other, and what stands
there first is a pair, unless they are its leaves. -/

variable (hash pairData oddData) in
/-- What is hashed for the level above the hashes of `data`. -/
def dataUp (data : List β) : List β := levelData pairData oddData (data.map hash)

variable (hash pairData oddData) in
/-- `x` is hashed for the root over `data`. -/
inductive Hashed : List β → β → Prop
  | leaf {data : List β} {x : β} (h : x ∈ data) : Hashed data x
  | up {data : List β} {x : β} (hmore : 1 < data.length) (h : Hashed (dataUp hash pairData oddData data) x) :
      Hashed data x

variable (hash pairData oddData) in
/-- `data` is what is hashed for a level of the tree over `data'`. -/
inductive Above (data : List β) : List β → Prop
  | refl : Above data data
  | up {data' : List β} (hmore : 1 < data'.length) (h : Above data (dataUp hash pairData oddData data')) :
      Above data data'

theorem length_dataUp (data : List β) :
    (dataUp hash pairData oddData data).length = (data.length + 1) / 2 := by
  have hlength := congrArg List.length (@levelUp_eq_map _ _ hash pairData oddData (data.map hash))
  rw [length_levelUp, List.length_map, List.length_map] at hlength
  exact hlength.symm

theorem root_dataUp [Inhabited α] {data : List β} (h : 1 < data.length) :
    root (fun a b => hash (pairData a b)) (fun a => hash (oddData a)) (data.map hash) =
      root (fun a b => hash (pairData a b)) (fun a => hash (oddData a))
        ((dataUp hash pairData oddData data).map hash) := by
  rw [root_levelUp (by rwa [List.length_map]), levelUp_eq_map]
  rfl

theorem mem_of_hashed {data : List β} {x : β} (h : Hashed hash pairData oddData data x) :
    ∀ fuel, data.length ≤ fuel →
      x ∈ data ++ climbData hash pairData oddData fuel (data.map hash) := by
  induction h with
  | leaf h => exact fun _ _ => List.mem_append_left _ h
  | @up data x hmore _ ih =>
    intro fuel hfuel
    obtain ⟨fuel, rfl⟩ : ∃ n, fuel = n + 1 := ⟨fuel - 1, by omega⟩
    rw [climbData, if_pos (by rwa [List.length_map]), levelUp_eq_map]
    exact List.mem_append_right _ (ih fuel (by rw [length_dataUp]; omega))

/-- A root is a hash of what was hashed last. -/
theorem exists_hashed_root [Inhabited α] {data : List β} (hne : data ≠ []) :
    ∃ x, Hashed hash pairData oddData data x ∧
      root (fun a b => hash (pairData a b)) (fun a => hash (oddData a)) (data.map hash) = hash x := by
  generalize hlength : data.length = n
  induction n using Nat.strongRecOn generalizing data with
  | ind n ih =>
    have hpos := List.length_pos_iff.mpr hne
    by_cases hmore : 1 < data.length
    · have hup := @length_dataUp _ _ hash pairData oddData data
      have hne' : dataUp hash pairData oddData data ≠ [] := List.length_pos_iff.mp (by omega)
      obtain ⟨x, hx, hroot⟩ := ih _ (by omega) hne' rfl
      exact ⟨x, .up hmore hx, (root_dataUp hmore).trans hroot⟩
    · obtain ⟨x, rfl⟩ := List.length_eq_one_iff.mp (show data.length = 1 by omega)
      exact ⟨x, .leaf List.mem_cons_self, root_singleton _⟩

/-- A level can be read off what is hashed for the next one. -/
theorem levelData_injective (hpair : ∀ a b c d, pairData a b = pairData c d → a = c ∧ b = d)
    (hodd : Function.Injective oddData) (hkinds : ∀ a b c, pairData a b ≠ oddData c) :
    Function.Injective (levelData pairData oddData) := by
  intro level level' h
  induction level using levelUp.induct generalizing level' with
  | case1 =>
    match level', h with
    | [], _ => rfl
    | [c], h => exact absurd h.symm (List.cons_ne_nil _ _)
    | c :: d :: _, h => exact absurd h.symm (List.cons_ne_nil _ _)
  | case2 a =>
    match level', h with
    | [c], h => rw [hodd (List.cons.inj h).1]
    | c :: d :: _, h => exact absurd (List.cons.inj h).1.symm (hkinds c d a)
  | case3 a b rest ih =>
    match level', h with
    | [c], h => exact absurd (List.cons.inj h).1 (hkinds a b c)
    | c :: d :: rest', h =>
      obtain ⟨hfirst, hrest⟩ := List.cons.inj h
      obtain ⟨rfl, rfl⟩ := hpair a b c d hfirst
      rw [ih hrest]

/-- What stands first on a level above the leaves is a pair. -/
theorem eq_or_pair_of_above {data data' : List β} (h : Above hash pairData oddData data data') :
    data = data' ∨ ∃ a b, pairData a b ∈ data := by
  induction h with
  | refl => exact .inl rfl
  | @up data' hmore _ ih =>
    refine .inr (ih.elim (fun heq => ?_) id)
    match data', hmore with
    | x :: y :: rest, _ =>
      exact ⟨hash x, hash y, heq ▸ List.mem_cons_self⟩

/-- A level found above another tree's is one step lower there, too. -/
theorem above_of_dataUp (hlevel : Function.Injective (levelData pairData oddData)) {data data' : List β}
    (hinj : ∀ x ∈ data, ∀ y, Hashed hash pairData oddData data' y → hash x = hash y → x = y)
    (hmore : 1 < data'.length)
    (h : Above hash pairData oddData (dataUp hash pairData oddData data)
      (dataUp hash pairData oddData data')) :
    Above hash pairData oddData data data' := by
  generalize hup : dataUp hash pairData oddData data' = up at h
  induction h generalizing data' with
  | refl =>
    have hmap : data.map hash = data'.map hash := hlevel hup.symm
    rw [eq_of_map_eq (fun x hx y hy => hinj x hx y (.leaf hy)) hmap]
    exact .refl
  | up hmore' _ ih =>
    subst hup
    exact .up hmore (ih (fun x hx y hy => hinj x hx y (.up hmore hy)) hmore' rfl)

theorem dataUp_shorter {data : List β} (h : 1 < data.length) :
    dataUp hash pairData oddData data ≠ [] ∧ (dataUp hash pairData oddData data).length < data.length := by
  have hlength := @length_dataUp _ _ hash pairData oddData data
  exact ⟨List.length_pos_iff.mp (by omega), by omega⟩

/-- Of two trees with one root one stands on the leaves of the other. -/
theorem above_or_above [Inhabited α] (hlevel : Function.Injective (levelData pairData oddData))
    {data data' : List β} (hne : data ≠ []) (hne' : data' ≠ [])
    (hinj : ∀ x y, Hashed hash pairData oddData data x → Hashed hash pairData oddData data' y →
      hash x = hash y → x = y)
    (h : root (fun a b => hash (pairData a b)) (fun a => hash (oddData a)) (data.map hash) =
      root (fun a b => hash (pairData a b)) (fun a => hash (oddData a)) (data'.map hash)) :
    Above hash pairData oddData data data' ∨ Above hash pairData oddData data' data := by
  generalize hsum : data.length + data'.length = n
  induction n using Nat.strongRecOn generalizing data data' with
  | ind n ih =>
    have hpos := List.length_pos_iff.mpr hne
    have hpos' := List.length_pos_iff.mpr hne'
    by_cases hmore : 1 < data.length <;> by_cases hmore' : 1 < data'.length
    · rw [root_dataUp hmore, root_dataUp hmore'] at h
      obtain ⟨hup, hlt⟩ := @dataUp_shorter _ _ hash pairData oddData _ hmore
      obtain ⟨hup', hlt'⟩ := @dataUp_shorter _ _ hash pairData oddData _ hmore'
      rcases ih _ (by omega) hup hup'
        (fun x y hx hy => hinj x y (.up hmore hx) (.up hmore' hy)) h rfl with habove | habove
      · exact .inl (above_of_dataUp hlevel (fun x hx y hy => hinj x y (.leaf hx) hy) hmore' habove)
      · exact .inr (above_of_dataUp hlevel (fun x hx y hy heq => (hinj y x hy (.leaf hx) heq.symm).symm)
          hmore habove)
    · rw [root_dataUp hmore] at h
      obtain ⟨hup, hlt⟩ := @dataUp_shorter _ _ hash pairData oddData _ hmore
      refine .inr ?_
      rcases ih _ (by omega) hup hne' (fun x y hx hy => hinj x y (.up hmore hx) hy) h
        rfl with habove | habove
      · cases habove with
        | refl => exact .up hmore .refl
        | up hlong _ => exact absurd hlong hmore'
      · exact .up hmore habove
    · rw [root_dataUp hmore'] at h
      obtain ⟨hup', hlt'⟩ := @dataUp_shorter _ _ hash pairData oddData _ hmore'
      refine .inl ?_
      rcases ih _ (by omega) hne hup' (fun x y hx hy => hinj x y hx (.up hmore' hy)) h
        rfl with habove | habove
      · exact .up hmore' habove
      · cases habove with
        | refl => exact .up hmore' .refl
        | up hlong _ => exact absurd hlong hmore
    · obtain ⟨x, rfl⟩ := List.length_eq_one_iff.mp (show data.length = 1 by omega)
      obtain ⟨y, rfl⟩ := List.length_eq_one_iff.mp (show data'.length = 1 by omega)
      rw [List.map_singleton, List.map_singleton, root_singleton, root_singleton] at h
      rw [hinj x y (.leaf List.mem_cons_self) (.leaf List.mem_cons_self) h]
      exact .inl .refl

/-- Two trees with one root are the same, if the leaves are no pairs and the hash takes no two of the
things hashed for them to one. -/
theorem eq_of_data_root_eq [Inhabited α]
    (hpair : ∀ a b c d, pairData a b = pairData c d → a = c ∧ b = d)
    (hodd : Function.Injective oddData) (hkinds : ∀ a b c, pairData a b ≠ oddData c)
    {data data' : List β} (hne : data ≠ []) (hne' : data' ≠ [])
    (hleaf : ∀ x ∈ data, ∀ a b, x ≠ pairData a b) (hleaf' : ∀ x ∈ data', ∀ a b, x ≠ pairData a b)
    (hinj : ∀ x y, Hashed hash pairData oddData data x → Hashed hash pairData oddData data' y →
      hash x = hash y → x = y)
    (h : root (fun a b => hash (pairData a b)) (fun a => hash (oddData a)) (data.map hash) =
      root (fun a b => hash (pairData a b)) (fun a => hash (oddData a)) (data'.map hash)) :
    data = data' := by
  rcases above_or_above (levelData_injective hpair hodd hkinds) hne hne' hinj h with habove | habove
  · rcases eq_or_pair_of_above habove with heq | ⟨a, b, hmem⟩
    · exact heq
    · exact absurd rfl (hleaf _ hmem a b)
  · rcases eq_or_pair_of_above habove with heq | ⟨a, b, hmem⟩
    · exact heq.symm
    · exact absurd rfl (hleaf' _ hmem a b)

end Hashed

end Coinjecture.Lib.Merkle
