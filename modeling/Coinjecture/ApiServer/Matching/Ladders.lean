import Coinjecture.ApiServer.Matching.Reference
import Mathlib.Data.List.Pairwise

/-! # Ladders

In an ordered ladder the prices come in the order of the side, so its orders are sorted by price. Adding an
order puts it behind the others of its price; taking one out leaves the others as they are. -/

namespace Coinjecture.ApiServer.Matching.Ladders

open ApiServer.Matching.Book ApiServer.Matching.Reference

/-- The orders of a ladder, level by level. -/
def orders (ladder : Ladder) : List InternalOrder := ladder.flatMap Prod.snd

/-- The levels are in order, none is empty, and their orders have their prices. -/
structure Ordered (side : Side) (ladder : Ladder) : Prop where
  sorted : ladder.Pairwise fun a b => side.before a.1 b.1 = true
  nonempty : ∀ l ∈ ladder, l.2 ≠ []
  priced : ∀ l ∈ ladder, ∀ o ∈ l.2, o.side = side ∧ o.price = some l.1

/-- The levels of a side come in this order. -/
def Sorted (side : Side) (makers : List InternalOrder) : Prop :=
  makers.Pairwise fun a b => side.before (limit b) (limit a) = false

theorem before_of_ne {side : Side} {p q : Decimal} (h : side.before q p = false) (hne : q ≠ p) :
    side.before p q = true := by
  cases side with
  | Buy =>
    simp only [Side.before, decide_eq_false_iff_not, decide_eq_true_iff, not_lt] at h ⊢
    exact lt_of_le_of_ne h hne
  | Sell =>
    simp only [Side.before, decide_eq_false_iff_not, decide_eq_true_iff, not_lt] at h ⊢
    exact lt_of_le_of_ne h hne.symm

theorem before_self (side : Side) (p : Decimal) : side.before p p = false := by
  cases side with
  | Buy => exact decide_eq_false (lt_irrefl p)
  | Sell => exact decide_eq_false (lt_irrefl p)

theorem before_asymm {side : Side} {p q : Decimal} (h : side.before p q = true) :
    side.before q p = false := by
  cases side with
  | Buy =>
    simp only [Side.before, decide_eq_true_iff, decide_eq_false_iff_not] at h ⊢
    exact lt_asymm h
  | Sell =>
    simp only [Side.before, decide_eq_true_iff, decide_eq_false_iff_not] at h ⊢
    exact lt_asymm h

theorem before_trans {side : Side} {p q r : Decimal} (hpq : side.before p q = true)
    (hqr : side.before q r = true) : side.before p r = true := by
  cases side with
  | Buy =>
    simp only [Side.before, decide_eq_true_iff] at hpq hqr ⊢
    exact lt_trans hqr hpq
  | Sell =>
    simp only [Side.before, decide_eq_true_iff] at hpq hqr ⊢
    exact lt_trans hpq hqr

theorem ne_of_before {side : Side} {p q : Decimal} (h : side.before p q = true) : p ≠ q := by
  rintro rfl
  rw [before_self] at h
  cases h

namespace Ordered

variable {side : Side} {level : Level} {ladder : Ladder}

theorem tail (h : Ordered side (level :: ladder)) : Ordered side ladder where
  sorted := (List.pairwise_cons.mp h.sorted).2
  nonempty l hl := h.nonempty l (List.mem_cons_of_mem _ hl)
  priced l hl := h.priced l (List.mem_cons_of_mem _ hl)

theorem price_eq (h : Ordered side ladder) {o : InternalOrder} (ho : o ∈ orders ladder) :
    o.side = side ∧ o.price = some (limit o) ∧ ∃ l ∈ ladder, o ∈ l.2 ∧ l.1 = limit o := by
  obtain ⟨l, hl, hmem⟩ := List.mem_flatMap.mp ho
  obtain ⟨hside, hprice⟩ := h.priced l hl o hmem
  have hlimit : limit o = l.1 := by rw [limit, hprice, Option.getD_some]
  exact ⟨hside, by rw [hlimit, hprice], l, hl, hmem, hlimit.symm⟩

theorem sorted_orders (h : Ordered side ladder) : Sorted side (orders ladder) := by
  have hlimit : ∀ l ∈ ladder, ∀ o ∈ l.2, limit o = l.1 := by
    intro l hl o ho
    rw [limit, (h.priced l hl o ho).2, Option.getD_some]
  refine List.pairwise_flatMap.mpr ⟨fun l hl => ?_, ?_⟩
  · refine List.pairwise_iff_getElem.mpr fun i j hi hj _ => ?_
    rw [hlimit l hl _ (List.getElem_mem hi), hlimit l hl _ (List.getElem_mem hj)]
    exact before_self _ _
  · refine h.sorted.imp_of_mem fun ha hb hbefore x hx y hy => ?_
    rw [hlimit _ ha x hx, hlimit _ hb y hy]
    exact before_asymm hbefore

theorem filter_eq_nil (h : Ordered side ladder) {p : Decimal} (hne : ∀ l ∈ ladder, l.1 ≠ p) :
    (orders ladder).filter (fun o => limit o = p) = [] := by
  refine List.filter_eq_nil_iff.mpr fun o ho => ?_
  obtain ⟨-, -, l, hl, -, heq⟩ := h.price_eq ho
  rw [← heq]
  simpa using hne l hl

end Ordered

/-! ### An order comes to rest -/

section Push

variable {side : Side} {price : Decimal} {order : InternalOrder} {ladder : Ladder}

theorem price_of_mem_pushOrder {l : Level} (h : l ∈ pushOrder side price order ladder) :
    l.1 = price ∨ ∃ l' ∈ ladder, l'.1 = l.1 := by
  induction ladder with
  | nil =>
    rw [List.mem_singleton.mp h]
    exact .inl rfl
  | cons level levels ih =>
    rw [pushOrder] at h
    split_ifs at h with heq hbefore
    · rcases List.mem_cons.mp h with rfl | h
      · exact .inl heq.symm
      · exact .inr ⟨l, List.mem_cons_of_mem _ h, rfl⟩
    · rcases List.mem_cons.mp h with rfl | h
      · exact .inl rfl
      · exact .inr ⟨l, h, rfl⟩
    · rcases List.mem_cons.mp h with rfl | h
      · exact .inr ⟨_, List.mem_cons_self, rfl⟩
      · rcases ih h with hprice | ⟨l', hl', heq'⟩
        · exact .inl hprice
        · exact .inr ⟨l', List.mem_cons_of_mem _ hl', heq'⟩

theorem ordered_pushOrder (h : Ordered side ladder) (hside : order.side = side)
    (hprice : order.price = some price) : Ordered side (pushOrder side price order ladder) := by
  have horder : ∀ o ∈ [order], o.side = side ∧ o.price = some price := by
    intro o ho
    rw [List.mem_singleton.mp ho]
    exact ⟨hside, hprice⟩
  induction ladder with
  | nil =>
    refine ⟨List.pairwise_singleton _ _, fun l hl => ?_, fun l hl => ?_⟩
    · rw [List.mem_singleton.mp hl]
      exact List.cons_ne_nil _ _
    · rw [List.mem_singleton.mp hl]
      exact horder
  | cons level levels ih =>
    obtain ⟨p, makers⟩ := level
    obtain ⟨hfirst, hlevels⟩ := List.pairwise_cons.mp h.sorted
    rw [pushOrder]
    split_ifs with heq hbefore
    · refine ⟨List.pairwise_cons.mpr ⟨hfirst, hlevels⟩, fun l hl => ?_, fun l hl => ?_⟩
      · rcases List.mem_cons.mp hl with rfl | hl
        · exact List.append_ne_nil_of_right_ne_nil _ (List.cons_ne_nil _ _)
        · exact h.tail.nonempty l hl
      · rcases List.mem_cons.mp hl with rfl | hl
        · intro o ho
          rcases List.mem_append.mp ho with ho | ho
          · exact h.priced _ List.mem_cons_self o ho
          · exact heq ▸ horder o ho
        · exact h.tail.priced l hl
    · refine ⟨List.pairwise_cons.mpr ⟨fun l hl => ?_, h.sorted⟩, fun l hl => ?_, fun l hl => ?_⟩
      · rcases List.mem_cons.mp hl with rfl | hl
        · exact hbefore
        · exact before_trans hbefore (hfirst l hl)
      · rcases List.mem_cons.mp hl with rfl | hl
        · exact List.cons_ne_nil _ _
        · exact h.nonempty l hl
      · rcases List.mem_cons.mp hl with rfl | hl
        · exact horder
        · exact h.priced l hl
    · have hrest := ih h.tail
      have hafter : side.before p price = true :=
        before_of_ne (Bool.eq_false_iff.mpr hbefore) heq
      refine ⟨List.pairwise_cons.mpr ⟨fun l hl => ?_, hrest.sorted⟩, fun l hl => ?_, fun l hl => ?_⟩
      · rcases price_of_mem_pushOrder hl with hnew | ⟨l', hl', hold⟩
        · rw [hnew]
          exact hafter
        · rw [← hold]
          exact hfirst l' hl'
      · rcases List.mem_cons.mp hl with rfl | hl
        · exact h.nonempty _ List.mem_cons_self
        · exact hrest.nonempty l hl
      · rcases List.mem_cons.mp hl with rfl | hl
        · exact h.priced _ List.mem_cons_self
        · exact hrest.priced l hl

/-- Of each price, the order is behind those that rest. -/
theorem filter_pushOrder (h : Ordered side ladder) (hprice : order.price = some price) (p : Decimal) :
    (orders (pushOrder side price order ladder)).filter (fun o => limit o = p) =
      (orders ladder).filter (fun o => limit o = p) ++ [order].filter fun o => limit o = p := by
  have hlimit : limit order = price := by rw [limit, hprice, Option.getD_some]
  have halone : ∀ {k : Ladder}, Ordered side k → (∀ l ∈ k, l.1 ≠ price) →
      [order].filter (fun o => limit o = p) ++ (orders k).filter (fun o => limit o = p) =
        (orders k).filter (fun o => limit o = p) ++ [order].filter fun o => limit o = p := by
    intro k hk hne
    by_cases hp : price = p
    · subst hp
      rw [hk.filter_eq_nil hne, List.append_nil, List.nil_append]
    · have hnone : [order].filter (fun o => limit o = p) = [] :=
        List.filter_eq_nil_iff.mpr fun o ho => by
          rw [List.mem_singleton.mp ho, hlimit]
          simpa using hp
      rw [hnone, List.append_nil, List.nil_append]
  induction ladder with
  | nil => rfl
  | cons level levels ih =>
    obtain ⟨p', makers⟩ := level
    obtain ⟨hfirst, -⟩ := List.pairwise_cons.mp h.sorted
    have hflat : ∀ (price : Decimal) (m : List InternalOrder) (k : Ladder),
        orders ((price, m) :: k) = m ++ orders k := fun _ _ _ => rfl
    rw [pushOrder]
    split_ifs with heq hbefore
    · have hlater := halone h.tail fun l hl => (ne_of_before (heq ▸ hfirst l hl)).symm
      rw [hflat, hflat, List.filter_append, List.filter_append, List.filter_append, List.append_assoc,
        hlater, List.append_assoc]
    · have hne : ∀ l ∈ (p', makers) :: levels, l.1 ≠ price := by
        intro l hl
        rcases List.mem_cons.mp hl with rfl | hl
        · exact (ne_of_before hbefore).symm
        · exact (ne_of_before (before_trans hbefore (hfirst l hl))).symm
      rw [hflat, List.filter_append, halone h hne]
    · rw [hflat, hflat, List.filter_append, List.filter_append, ih h.tail, List.append_assoc]

end Push

/-! ### An order is taken out -/

theorem filter_id_ne_eq_self {orderId : OrderId} {makers : List InternalOrder}
    (h : ∀ o ∈ makers, o.id ≠ orderId) : makers.filter (fun o => o.id ≠ orderId) = makers :=
  List.filter_eq_self.mpr fun o ho => decide_eq_true (h o ho)

theorem eraseP_eq_filter {orderId : OrderId} {makers : List InternalOrder}
    (h : (makers.map InternalOrder.id).Nodup) :
    makers.eraseP (fun o => o.id = orderId) = makers.filter fun o => o.id ≠ orderId := by
  induction makers with
  | nil => rfl
  | cons o makers ih =>
    obtain ⟨hnot, htail⟩ := List.nodup_cons.mp h
    by_cases heq : o.id = orderId
    · rw [List.eraseP_cons_of_pos (by simp [heq]), List.filter_cons_of_neg (by simp [heq])]
      refine (filter_id_ne_eq_self fun x hx hid => hnot ?_).symm
      rw [heq, ← hid]
      exact List.mem_map_of_mem hx
    · rw [List.eraseP_cons_of_neg (by simp [heq]), List.filter_cons_of_pos (by simp [heq]), ih htail]

/-- Taking an order out of a ladder leaves the others. -/
theorem takeOrder_spec {side : Side} {ladder : Ladder} {o : InternalOrder} (h : Ordered side ladder)
    (hnodup : ((orders ladder).map InternalOrder.id).Nodup) (ho : o ∈ orders ladder) :
    let rest := (takeOrder (limit o) o.id ladder).2
    Ordered side rest ∧ orders rest = (orders ladder).filter (fun x => x.id ≠ o.id) ∧
      (rest.map Prod.fst).Sublist (ladder.map Prod.fst) := by
  induction ladder with
  | nil => exact absurd ho List.not_mem_nil
  | cons level levels ih =>
    obtain ⟨p, makers⟩ := level
    obtain ⟨hfirst, -⟩ := List.pairwise_cons.mp h.sorted
    have hflat : ∀ (price : Decimal) (m : List InternalOrder) (k : Ladder),
        orders ((price, m) :: k) = m ++ orders k := fun _ _ _ => rfl
    rw [hflat] at hnodup ho
    rw [List.map_append] at hnodup
    obtain ⟨hmakers, hlevels, hdisjoint⟩ := List.nodup_append'.mp hnodup
    have hlimit : ∀ x ∈ makers, limit x = p := by
      intro x hx
      rw [limit, (h.priced _ List.mem_cons_self x hx).2, Option.getD_some]
    simp only [takeOrder]
    by_cases hp : limit o = p
    · -- the order is in this level
      have hmem : o ∈ makers := by
        rcases List.mem_append.mp ho with ho | ho
        · exact ho
        · obtain ⟨-, -, l, hl, -, heq⟩ := h.tail.price_eq ho
          exact absurd (heq.trans hp) (ne_of_before (hfirst l hl)).symm
      have hothers : ∀ x ∈ orders levels, x.id ≠ o.id := fun x hx heq =>
        hdisjoint (List.mem_map_of_mem hmem) (heq ▸ List.mem_map_of_mem hx)
      rw [if_pos hp, hflat, List.filter_append, filter_id_ne_eq_self hothers]
      rcases hfind : makers.find? (fun x => x.id = o.id) with _ | removed
      · have hnone := List.find?_eq_none.mp hfind o hmem
        simp at hnone
      · rw [hfind, eraseP_eq_filter hmakers]
        simp only
        split_ifs with hempty
        · rw [hempty]
          exact ⟨h.tail, rfl, List.sublist_cons_self _ _⟩
        · refine ⟨⟨List.pairwise_cons.mpr ⟨hfirst, h.tail.sorted⟩, fun l hl => ?_, fun l hl => ?_⟩,
            hflat _ _ _, List.Sublist.refl _⟩
          · rcases List.mem_cons.mp hl with rfl | hl
            · exact hempty
            · exact h.tail.nonempty l hl
          · rcases List.mem_cons.mp hl with rfl | hl
            · exact fun x hx => h.priced _ List.mem_cons_self x (List.mem_of_mem_filter hx)
            · exact h.tail.priced l hl
    · have hmem : o ∈ orders levels :=
        (List.mem_append.mp ho).resolve_left fun ho => hp (hlimit o ho)
      have hothers : ∀ x ∈ makers, x.id ≠ o.id := fun x hx heq =>
        hdisjoint (List.mem_map_of_mem hx) (heq ▸ List.mem_map_of_mem hmem)
      obtain ⟨hordered, hrest, hsub⟩ := ih h.tail hlevels hmem
      rw [if_neg hp, hflat p makers levels, List.filter_append, filter_id_ne_eq_self hothers, ← hrest]
      refine ⟨⟨List.pairwise_cons.mpr ⟨fun l hl => ?_, hordered.sorted⟩, fun l hl => ?_, fun l hl => ?_⟩,
        hflat _ _ _, hsub.cons_cons p⟩
      · obtain ⟨l', hl', heq⟩ := List.mem_map.mp (hsub.subset (List.mem_map_of_mem hl))
        rw [← heq]
        exact hfirst l' hl'
      · rcases List.mem_cons.mp hl with rfl | hl
        · exact h.nonempty _ List.mem_cons_self
        · exact hordered.nonempty l hl
      · rcases List.mem_cons.mp hl with rfl | hl
        · exact h.priced _ List.mem_cons_self
        · exact hordered.priced l hl

end Coinjecture.ApiServer.Matching.Ladders
